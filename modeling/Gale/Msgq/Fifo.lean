import Gale.Msgq

namespace Gale.Msgq

open Lib

-- The message queue with its ring read as a list, oldest message first. What
-- the wait queue does is the same as in the code.
structure Fifo (cfg : Config) extends Threads cfg where
  queue : List (Message cfg)

variable {cfg : Config}

namespace Fifo

variable (policy : Policy Tid)

def put (s : Fifo cfg) (thread : Tid) (data : Message cfg) (timeout : Timeout) : Fifo cfg :=
  let call := Call.Put data timeout
  if s.queue.length < cfg.maxMsgs then
    match s.zUnpendFirstThread policy with
    | (some reader, threads) =>
      { s with toThreads := (threads.handOver reader data).returns thread call OK data }
    | (none, threads) =>
      { toThreads := threads.returns thread call OK data, queue := s.queue ++ [data] }
  else
    let threads := (s.zUnpendFirstThread policy).2
    if timeout.isNoWait then { s with toThreads := threads.returns thread call ENOMSG data }
    else { s with toThreads := threads.zPendCurr thread call data }

def putFront (s : Fifo cfg) (thread : Tid) (data : Message cfg) : Fifo cfg :=
  let call := Call.PutFront data
  if s.queue.length < cfg.maxMsgs then
    match s.zUnpendFirstThread policy with
    | (some reader, threads) =>
      { s with toThreads := (threads.handOver reader data).returns thread call OK data }
    | (none, threads) =>
      { toThreads := threads.returns thread call OK data, queue := data :: s.queue }
  else { s with toThreads := s.returns thread call ENOMSG data }

def get (s : Fifo cfg) (thread : Tid) (data : Message cfg) (timeout : Timeout) : Fifo cfg :=
  let call := Call.Get data timeout
  match s.queue with
  | [] =>
    if timeout.isNoWait then { s with toThreads := s.returns thread call ENOMSG data }
    else { s with toThreads := s.zPendCurr thread call data }
  | message :: rest =>
    match s.zUnpendFirstThread policy with
    | (some writer, threads) =>
      { toThreads := (threads.zReadyThread writer OK).returns thread call OK message
        queue := rest ++ [s.swapData writer] }
    | (none, threads) =>
      { toThreads := threads.returns thread call OK message, queue := rest }

def purge (s : Fifo cfg) : Fifo cfg :=
  { toThreads := s.wakeAll policy s.waitQ.length, queue := [] }

def exec (s : Fifo cfg) : Op cfg → Fifo cfg
  | .Put thread data timeout => s.put policy thread data timeout
  | .PutFront thread data => s.putFront policy thread data
  | .Get thread data timeout => s.get policy thread data timeout
  | .Purge => s.purge policy
  | .TimeOut thread => { s with toThreads := s.timeOut thread }

def step (s : Fifo cfg) (op : Op cfg) : Option (Fifo cfg) :=
  if enabled s.toThreads op then some (s.exec policy op) else none

end Fifo

theorem Config.msgSize_pos (cfg : Config) : 0 < cfg.msgSize := by
  obtain ⟨size, h⟩ := cfg.valid
  unfold initValidate at h
  split at h
  · cases h
  · omega

theorem Config.maxMsgs_pos (cfg : Config) : 0 < cfg.maxMsgs := by
  obtain ⟨size, h⟩ := cfg.valid
  unfold initValidate at h
  split at h
  · cases h
  · omega

@[simp] theorem ptrToSlot_slotToPtr (slot : Nat) : ptrToSlot cfg (slotToPtr cfg slot) = slot :=
  Nat.mul_div_cancel slot cfg.msgSize_pos

namespace State

def slots (s : State cfg) (slot : Nat) : Message cfg :=
  load s.buffer (slotToPtr cfg slot) cfg.msgSize

def queue (s : State cfg) : List (Message cfg) :=
  contents s.slots cfg.maxMsgs (ptrToSlot cfg s.readPtr) s.usedMsgs

def toFifo (s : State cfg) : Fifo cfg where
  toThreads := s.toThreads
  queue := s.queue

@[simp] theorem toFifo_toThreads (s : State cfg) : s.toFifo.toThreads = s.toThreads := rfl

@[simp] theorem toFifo_queue (s : State cfg) : s.toFifo.queue = s.queue := rfl

@[simp] theorem length_queue (s : State cfg) : s.queue.length = s.usedMsgs := by
  simp [queue]

structure RingOk (s : State cfg) : Prop where
  read_lt : ptrToSlot cfg s.readPtr < cfg.maxMsgs
  readPtr_eq : s.readPtr = slotToPtr cfg (ptrToSlot cfg s.readPtr)
  writePtr_eq : s.writePtr = slotToPtr cfg ((ptrToSlot cfg s.readPtr + s.usedMsgs) % cfg.maxMsgs)
  used_le : s.usedMsgs ≤ cfg.maxMsgs

variable {s s' : State cfg}

theorem ringOk_threads (h : RingOk s) (threads : Threads cfg) : RingOk { s with toThreads := threads } :=
  ⟨h.read_lt, h.readPtr_eq, h.writePtr_eq, h.used_le⟩

theorem RingOk.holds (h : RingOk s) : Holds cfg.maxMsgs (ptrToSlot cfg s.readPtr)
    (ptrToSlot cfg s.writePtr) s.usedMsgs s.slots s.queue :=
  ⟨h.read_lt, h.used_le, by rw [h.writePtr_eq, ptrToSlot_slotToPtr], rfl⟩

theorem ringOk_of_holds {read write : Nat} {queue : List (Message cfg)}
    (hr : s.readPtr = slotToPtr cfg read) (hw : s.writePtr = slotToPtr cfg write)
    (h : Holds cfg.maxMsgs read write s.usedMsgs s.slots queue) : RingOk s ∧ s.queue = queue := by
  have hs : ptrToSlot cfg s.readPtr = read := by rw [hr, ptrToSlot_slotToPtr]
  subst hs
  exact ⟨⟨h.start_lt, hr, by rw [hw, h.stop_eq], h.count_le⟩, h.contents_eq⟩

theorem RingOk.writePtr_slot (h : RingOk s) : s.writePtr = slotToPtr cfg (ptrToSlot cfg s.writePtr) := by
  rw [h.writePtr_eq, ptrToSlot_slotToPtr]

theorem slots_store {ptr slot : Nat} {data : Message cfg} (hp : ptr = slotToPtr cfg slot)
    (hb : s'.buffer = store s.buffer ptr data) :
    s'.slots = Function.update s.slots slot data := by
  have hs := load_store_slot s.buffer slot data
  unfold slots
  rw [hb, hp]
  exact hs

theorem push_back (h : RingOk s) (hu : s.usedMsgs < cfg.maxMsgs) {data : Message cfg}
    (hb : s'.buffer = store s.buffer s.writePtr data) (hr : s'.readPtr = s.readPtr)
    (hw : s'.writePtr = slotToPtr cfg
      (if ptrToSlot cfg s.writePtr + 1 < cfg.maxMsgs then ptrToSlot cfg s.writePtr + 1 else 0))
    (hn : s'.usedMsgs = s.usedMsgs + 1) :
    RingOk s' ∧ s'.toFifo = ⟨s'.toThreads, s.queue ++ [data]⟩ := by
  rw [next_index h.holds.stop_lt] at hw
  have hp := h.holds.push_back data hu
  rw [← slots_store h.writePtr_slot hb, ← hn] at hp
  obtain ⟨hok, hq⟩ := ringOk_of_holds (hr.trans h.readPtr_eq) hw hp
  exact ⟨hok, by rw [toFifo, hq]⟩

theorem push_front (h : RingOk s) (hu : s.usedMsgs < cfg.maxMsgs) {data : Message cfg} (hr : s'.readPtr = slotToPtr cfg
      (if ptrToSlot cfg s.readPtr = 0 then cfg.maxMsgs - 1 else ptrToSlot cfg s.readPtr - 1))
    (hb : s'.buffer = store s.buffer s'.readPtr data) (hw : s'.writePtr = s.writePtr)
    (hn : s'.usedMsgs = s.usedMsgs + 1) :
    RingOk s' ∧ s'.toFifo = ⟨s'.toThreads, data :: s.queue⟩ := by
  rw [previous_index h.read_lt] at hr
  have hp := h.holds.push_front data hu
  rw [← slots_store hr hb, ← hn] at hp
  obtain ⟨hok, hq⟩ := ringOk_of_holds hr (hw.trans h.writePtr_slot) hp
  exact ⟨hok, by rw [toFifo, hq]⟩

theorem pop_front (h : RingOk s) (hu : 0 < s.usedMsgs) (hb : s'.buffer = s.buffer) (hrd : s'.readPtr = slotToPtr cfg
      (if ptrToSlot cfg s.readPtr + 1 < cfg.maxMsgs then ptrToSlot cfg s.readPtr + 1 else 0))
    (hw : s'.writePtr = s.writePtr) (hn : s'.usedMsgs = s.usedMsgs - 1) :
    RingOk s' ∧ s.queue = load s.buffer s.readPtr cfg.msgSize :: s'.queue := by
  rw [next_index h.read_lt] at hrd
  have hs : s'.slots = s.slots := by
    unfold slots
    rw [hb]
  have hh := h.holds
  cases hq : s.queue with
  | nil =>
    have hl := s.length_queue
    rw [hq, List.length_nil] at hl
    omega
  | cons m rest =>
    rw [hq] at hh
    obtain ⟨hm, hr⟩ := hh.pop_front
    rw [← hs, ← hn] at hr
    obtain ⟨hok, hqu⟩ := ringOk_of_holds hrd (hw.trans h.writePtr_slot) hr
    rw [hqu, hm, slots, ← h.readPtr_eq]
    exact ⟨hok, rfl⟩

variable (policy : Policy Tid)

theorem toFifo_put (h : RingOk s) (t : Tid) (data : Message cfg) (timeout : Timeout) :
    RingOk (s.put policy t data timeout) ∧
      (s.put policy t data timeout).toFifo = s.toFifo.put policy t data timeout := by
  by_cases hu : s.usedMsgs < cfg.maxMsgs
  · rcases policy.take_cases s.waitQ with ⟨_, ht⟩ | ⟨reader, _, ht⟩
    · simp only [put, Fifo.put, Threads.zUnpendFirstThread, toFifo_toThreads, toFifo_queue, ht,
        length_queue, hu, galeKMsgqPutDecide, putDecide, if_true, Option.isSome_none,
        Bool.false_eq_true, if_false]
      exact push_back h hu rfl rfl rfl rfl
    · simp only [put, Fifo.put, Threads.zUnpendFirstThread, toFifo_toThreads, toFifo_queue, ht, length_queue, hu,
        galeKMsgqPutDecide, putDecide, if_true, Option.isSome_some]
      exact ⟨ringOk_threads h _, rfl⟩
  · cases hw : timeout.isNoWait
    · simp only [put, Fifo.put, Threads.zUnpendFirstThread, toFifo_toThreads, toFifo_queue, length_queue, hu, hw,
        galeKMsgqPutDecide, putDecide, if_false, Bool.false_eq_true]
      exact ⟨ringOk_threads h _, rfl⟩
    · simp only [put, Fifo.put, Threads.zUnpendFirstThread, toFifo_toThreads, toFifo_queue, length_queue, hu, hw,
        galeKMsgqPutDecide, putDecide, if_false, if_true]
      exact ⟨ringOk_threads h _, rfl⟩

theorem galeKMsgqPutDecide_ret (writeIdx usedMsgs maxMsgs : Nat) (hasWaiter isNoWait : Bool)
    (h : (galeKMsgqPutDecide writeIdx usedMsgs maxMsgs hasWaiter isNoWait).action ≠ .Full) :
    (galeKMsgqPutDecide writeIdx usedMsgs maxMsgs hasWaiter isNoWait).ret = OK := by
  simp only [galeKMsgqPutDecide] at h ⊢
  split at h <;> simp_all [OK]

theorem putShim_eq_put (s : State cfg) (t : Tid) (data : Message cfg) (timeout : Timeout) :
    s.putShim policy t data timeout = s.put policy t data timeout := by
  have hr := galeKMsgqPutDecide_ret (ptrToSlot cfg s.writePtr) s.usedMsgs cfg.maxMsgs
    (s.zUnpendFirstThread policy).1.isSome timeout.isNoWait
  simp only [putShim, put]
  split <;> simp_all

theorem toFifo_putFront (h : RingOk s) (t : Tid) (data : Message cfg) : RingOk (s.putFront policy t data) ∧
      (s.putFront policy t data).toFifo = s.toFifo.putFront policy t data := by
  by_cases hu : s.usedMsgs < cfg.maxMsgs
  · rcases policy.take_cases s.waitQ with ⟨_, ht⟩ | ⟨reader, _, ht⟩
    · simp only [putFront, Fifo.putFront, Threads.zUnpendFirstThread, toFifo_toThreads, toFifo_queue,
        ht, length_queue, hu, galeMsgqPutFront, putFrontDecide, if_true, cfg.maxMsgs_pos.ne',
        if_false]
      exact push_front h hu rfl rfl rfl rfl
    · simp only [putFront, Fifo.putFront, Threads.zUnpendFirstThread, toFifo_toThreads, toFifo_queue, ht, length_queue,
        hu, if_true]
      exact ⟨ringOk_threads h _, rfl⟩
  · simp only [putFront, Fifo.putFront, toFifo, length_queue, hu, if_false]
    exact ⟨ringOk_threads h _, rfl⟩

theorem toFifo_acceptWriter (h : RingOk s) (hu : s.usedMsgs < cfg.maxMsgs) (writer : Tid) :
    RingOk (s.acceptWriter writer) ∧ (s.acceptWriter writer).toFifo =
        ⟨s.zReadyThread writer OK, s.queue ++ [s.swapData writer]⟩ := by
  simp only [acceptWriter, galeMsgqPut, putDecide, cfg.maxMsgs_pos.ne', if_false, hu, if_true, Bool.false_eq_true]
  exact push_back h hu rfl rfl rfl rfl

theorem toFifo_get (h : RingOk s) (t : Tid) (data : Message cfg) (timeout : Timeout) :
    RingOk (s.get policy t data timeout) ∧
      (s.get policy t data timeout).toFifo = s.toFifo.get policy t data timeout := by
  by_cases hu : s.usedMsgs > 0
  · have hle := h.used_le
    let taken (threads : Threads cfg) : State cfg := { s with
      toThreads := threads
      readPtr := slotToPtr cfg (if ptrToSlot cfg s.readPtr + 1 < cfg.maxMsgs
        then ptrToSlot cfg s.readPtr + 1 else 0)
      usedMsgs := s.usedMsgs - 1 }
    have hp (threads : Threads cfg) : RingOk (taken threads) ∧
        s.queue = load s.buffer s.readPtr cfg.msgSize :: (taken threads).queue :=
      pop_front h hu rfl rfl rfl rfl
    rcases policy.take_cases s.waitQ with ⟨_, ht⟩ | ⟨writer, _, ht⟩
    · simp only [get, Fifo.get, Threads.zUnpendFirstThread, toFifo_toThreads, toFifo_queue, ht,
        hu, galeKMsgqGetDecide, getDecide, if_true, Option.isSome_none, Bool.false_eq_true,
        if_false]
      obtain ⟨hr, hq⟩ := hp { s.toThreads with waitQ := [] }
      rw [hq]
      exact ⟨ringOk_threads hr _, rfl⟩
    · simp only [get, Fifo.get, Threads.zUnpendFirstThread, toFifo_toThreads, toFifo_queue, ht,
        hu, galeKMsgqGetDecide, getDecide, if_true, Option.isSome_some]
      obtain ⟨hr, hq⟩ := hp { s.toThreads with waitQ := s.waitQ.erase writer }
      obtain ⟨hrn, hf⟩ := toFifo_acceptWriter hr
        (show s.usedMsgs - 1 < cfg.maxMsgs by omega) writer
      rw [hq]
      refine ⟨ringOk_threads hrn _, ?_⟩
      exact congrArg (fun f : Fifo cfg => (⟨f.returns t (.Get data timeout) OK
        (load s.buffer s.readPtr cfg.msgSize), f.queue⟩ : Fifo cfg)) hf
  · have hq : s.queue = [] := List.length_eq_zero_iff.mp (by simp; omega)
    cases hw : timeout.isNoWait
    · simp only [get, Fifo.get, toFifo, hu, hw, galeKMsgqGetDecide, getDecide, if_false, hq, Bool.false_eq_true]
      exact ⟨ringOk_threads h _, congrArg _ hq⟩
    · simp only [get, Fifo.get, toFifo, hu, hw, galeKMsgqGetDecide, getDecide, if_false, if_true, hq]
      exact ⟨ringOk_threads h _, congrArg _ hq⟩

theorem toFifo_purge (h : RingOk s) : RingOk (s.purge policy) ∧ (s.purge policy).toFifo = s.toFifo.purge policy := by
  have hp : (s.purge policy).writePtr = slotToPtr cfg (ptrToSlot cfg s.writePtr) :=
    h.writePtr_slot
  exact ⟨(ringOk_of_holds hp hp (Holds.empty _ h.holds.stop_lt)).1, by simp [purge, Fifo.purge, toFifo, queue]⟩

theorem toFifo_exec (h : RingOk s) (op : Op cfg) :
    RingOk (exec policy s op) ∧ (exec policy s op).toFifo = s.toFifo.exec policy op := by
  cases op with
  | Put t data timeout => exact toFifo_put policy h t data timeout
  | PutFront t data => exact toFifo_putFront policy h t data
  | Get t data timeout => exact toFifo_get policy h t data timeout
  | Purge => exact toFifo_purge policy h
  | TimeOut t => exact ⟨ringOk_threads h _, rfl⟩

theorem fifo_simulation : Simulation (step policy) (Fifo.step policy) (fun s : State cfg => s.toFifo) RingOk where
  keeps := by
    intro s op next h hs
    unfold step at hs
    split at hs
    · cases hs
      exact (toFifo_exec policy h op).1
    · cases hs
  commutes := by
    intro s op h
    unfold step Fifo.step
    show _ = if enabled s.toThreads op then _ else _
    split
    · exact congrArg some (toFifo_exec policy h op).2
    · rfl

end State

theorem ringOk_init (buf : Nat → UInt8) (swap : Tid → Message cfg) : (init buf swap).RingOk := by
  have hz : ptrToSlot cfg 0 = 0 := Nat.zero_div _
  refine ⟨?_, ?_, ?_, Nat.zero_le _⟩ <;> simp [init, hz, slotToPtr, cfg.maxMsgs_pos]

-- The build with the put of the shim.
def stepShim (policy : Policy Tid) (s : State cfg) : Op cfg → Option (State cfg)
  | .Put thread data timeout =>
    if enabled s.toThreads (.Put thread data timeout) then some (s.putShim policy thread data timeout) else none
  | op => step policy s op

-- In both builds the pointers and the buffer do what a list of messages does.
theorem ring_refines_fifo (policy : Policy Tid) (buffer : Nat → UInt8) (swapData : Tid → Message cfg)
    (ops : List (Op cfg)) :
    run (stepShim policy) (init buffer swapData) ops = run (step policy) (init buffer swapData) ops ∧
      (run (step policy) (init buffer swapData) ops).map State.toFifo =
        run (Fifo.step policy) ⟨(init buffer swapData).toThreads, []⟩ ops := by
  have hs (s : State cfg) (op : Op cfg) : stepShim policy s op = step policy s op := by
    cases op with
    | Put thread data timeout => rw [stepShim, State.putShim_eq_put, step, exec]
    | PutFront thread data | Get thread data timeout | Purge | TimeOut thread => rfl
  rw [funext₂ hs]
  exact ⟨rfl, (State.fifo_simulation policy).run_map ops (ringOk_init buffer swapData)⟩

end Gale.Msgq
