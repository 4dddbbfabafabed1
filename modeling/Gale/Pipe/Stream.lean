import Gale.Pipe.Reset

namespace Gale.Pipe

open Function Lib

-- The copying of bytes: into the ring, out of it, or from a writer to a reader
-- that waits.
inductive Move where
  | Put (writer : Tid) (bytes : List UInt8)
  | Get (reader : Tid) (bytes : List UInt8)
  | Copy (writer reader : Tid) (bytes : List UInt8)

namespace Move

def taken : Move → List UInt8
  | .Put _ bytes => bytes
  | .Get _ _ => []
  | .Copy _ _ bytes => bytes

def delivered : Move → List UInt8
  | .Put _ _ => []
  | .Get _ bytes => bytes
  | .Copy _ _ bytes => bytes

def moved (thread : Tid) : Move → List UInt8
  | .Put writer bytes => if writer = thread then bytes else []
  | .Get reader bytes => if reader = thread then bytes else []
  | .Copy writer reader bytes =>
    (if writer = thread then bytes else []) ++ if reader = thread then bytes else []

end Move

namespace State

variable (cfg : Config) (policy : Policy Tid)

def storeMoves (s : State) (thread : Tid) (c : WriteCall) : List Move :=
  let rest := c.data.drop c.written
  [.Put thread (rest.take (min rest.length (cfg.size - s.buf.length)))]

def writeMoves (s : State) (thread : Tid) (c : WriteCall) : List Move :=
  let d := writeDecide s.buf.length cfg.size s.flags (c.data.length - c.written) (s.data ≠ [])
  match d.decision with
  | .WriteError => []
  | .WakeReader =>
    if cfg.coherence then s.storeMoves cfg thread c
    else if s.waiting ≠ 0 then
      let rest := c.data.drop c.written
      let copied := (copies policy (s.data.length + 1) s rest).map fun copy =>
        Move.Copy thread copy.1 copy.2
      let (s, left) := s.copyToPendingReaders policy (s.data.length + 1) rest
      let c := { c with written := c.written + (rest.length - left.length) }
      if c.written ≥ c.data.length then copied else copied ++ s.storeMoves cfg thread c
    else s.storeMoves cfg thread c
  | .WriteOk => s.storeMoves cfg thread c
  | .WritePend => []

def readMoves (s : State) (thread : Tid) (c : ReadCall) : List Move :=
  if c.got.length ≥ c.len then []
  else
    let d := readDecide s.buf.length cfg.size s.flags (c.len - c.got.length) (s.space ≠ [])
    match d.decision with
    | .ReadError => []
    | .WakeWriter => [.Get thread (s.buf.take (min (c.len - c.got.length) s.buf.length))]
    | .ReadOk => [.Get thread (s.buf.take (min (c.len - c.got.length) s.buf.length))]
    | .ReadPend => []

def moves (s : State) : Op → List Move
  | .Read thread len timeout _ => s.readMoves cfg thread ⟨len, [], timeout⟩
  | .Write thread data timeout _ => s.writeMoves cfg policy thread ⟨data, 0, timeout⟩
  | .Relock thread _ =>
    match s.calls thread with
    | some (call, .Woken rc) =>
      let (s, rc) := s.leaveWait thread rc
      if rc = 0 then
        match call with
        | .Read c => s.readMoves cfg thread c
        | .Write c => s.writeMoves cfg policy thread c
      else []
    | _ => []
  | _ => []

end State

-- A pipe and the bytes that went through it, in the order they were copied: those
-- taken from writers, those delivered to readers, those the last call of each
-- thread moved; and the calls that returned, with how many bytes they moved.
structure Stream where
  pipe : State
  taken : List UInt8
  delivered : List UInt8
  moved : Tid → List UInt8
  returned : List (Int × Nat)

namespace Stream

def init : Stream := ⟨Pipe.init, [], [], fun _ => [], []⟩

def begin (h : Stream) : Op → Stream
  | .Read thread _ _ _ => { h with moved := update h.moved thread [] }
  | .Write thread _ _ _ => { h with moved := update h.moved thread [] }
  | _ => h

def movedAfter (h : Stream) (moves : List Move) (thread : Tid) : List UInt8 :=
  h.moved thread ++ moves.flatMap (Move.moved thread)

def follow (h : Stream) (pipe : State) (moves : List Move) : Stream where
  pipe
  taken := h.taken ++ moves.flatMap Move.taken
  delivered := h.delivered ++ moves.flatMap Move.delivered
  moved := h.movedAfter moves
  returned := h.returned ++ (logged h.pipe pipe).filterMap fun entry =>
    match entry with
    | .WaitFor _ => none
    | .Return thread rc _ => some (rc, (h.movedAfter moves thread).length)

def step (cfg : Config) (policy : Policy Tid) (h : Stream) (op : Op) : Option Stream :=
  (Pipe.step cfg policy h.pipe op).map fun pipe =>
    (h.begin op).follow pipe (h.pipe.moves cfg policy op)

def Moved : Call → List UInt8 → Prop
  | .Read c, bytes => c.got = bytes
  | .Write c, bytes => c.data.take c.written = bytes ∧ c.written ≤ c.data.length

structure Inv (size : Nat) (h : Stream) : Prop where
  pipe : h.pipe.Inv
  flags : h.pipe.flags = ⟨true, false⟩
  stream : h.taken = h.delivered ++ h.pipe.buf
  fits : h.pipe.buf.length ≤ size
  empty : h.pipe.data ≠ [] → h.pipe.buf = []
  full : h.pipe.space ≠ [] → h.pipe.buf.length = size
  moved : ∀ thread call status, h.pipe.calls thread = some (call, status) → Moved call (h.moved thread)
  counted : ∀ entry ∈ h.returned, 0 ≤ entry.1 → entry.1 = entry.2

variable {size : Nat} {h : Stream}

theorem init_inv : init.Inv size where
  pipe := State.init_inv
  flags := rfl
  stream := rfl
  fits := Nat.zero_le _
  empty := fun _ => rfl
  full := fun hs => absurd rfl hs
  moved := by simp [init, Pipe.init]
  counted := by simp [init]

@[simp] theorem movedAfter_nil (h : Stream) (thread : Tid) :
    h.movedAfter [] thread = h.moved thread := List.append_nil _

variable {mid pipe : State} {moves : List Move} {rc : Int} {thread : Tid} {bytes : List UInt8}
  {copied : List (Tid × List UInt8)}

theorem follow_follow {first b : List Move} (hl : mid.log = h.pipe.log) :
    (h.follow mid first).follow pipe b = h.follow pipe (first ++ b) := by
  have hm : (h.follow mid first).movedAfter b = h.movedAfter (first ++ b) := by
    funext thread
    simp [movedAfter, follow]
  rw [follow, hm]
  simp [follow, logged, hl]

theorem Inv.ends (hl : mid.log = h.pipe.log) (hi : ((h.follow mid moves).follow pipe []).Inv size) :
    (h.follow pipe moves).Inv size := by
  rwa [follow_follow hl, List.append_nil] at hi

theorem Inv.starts (hl : mid.log = h.pipe.log) (hi : ((h.follow mid []).follow pipe moves).Inv size) :
    (h.follow pipe moves).Inv size := by
  rwa [follow_follow hl, List.nil_append] at hi

theorem Inv.moved_nil (hi : h.Inv size) (thread : Tid) (call : Call) (st : Status)
    (hc : h.pipe.calls thread = some (call, st)) : Moved call (h.movedAfter [] thread) := by
  rw [movedAfter_nil]
  exact hi.moved thread call st hc

theorem Inv.follow (hi : h.Inv size) (hp : pipe.Inv) (hf : pipe.flags = h.pipe.flags)
    (hs : h.pipe.buf ++ moves.flatMap Move.taken = moves.flatMap Move.delivered ++ pipe.buf)
    (hft : pipe.buf.length ≤ size) (hem : pipe.data ≠ [] → pipe.buf = [])
    (hfl : pipe.space ≠ [] → pipe.buf.length = size)
    (hm : ∀ thread call st, pipe.calls thread = some (call, st) → Moved call (h.movedAfter moves thread))
    (hc : ∀ thread (rc : Int) bytes, .Return thread rc bytes ∈ logged h.pipe pipe → 0 ≤ rc →
      rc = (h.movedAfter moves thread).length) :
    (h.follow pipe moves).Inv size where
  pipe := hp
  flags := hf.trans hi.flags
  stream := by simp [Stream.follow, hi.stream, hs]
  fits := hft
  empty := hem
  full := hfl
  moved := hm
  counted := by
    intro entry he
    rcases List.mem_append.mp he with hb | hn
    · exact hi.counted entry hb
    · obtain ⟨logged, hl, he⟩ := List.mem_filterMap.mp hn
      cases logged with
      | WaitFor thread => cases he
      | Return thread rc bytes =>
        cases he
        exact hc thread rc bytes hl

theorem Inv.follow_silent (hi : h.Inv size) (hp : pipe.Inv) (hl : pipe.log = h.pipe.log)
    (hf : pipe.flags = h.pipe.flags)
    (hs : h.pipe.buf ++ moves.flatMap Move.taken = moves.flatMap Move.delivered ++ pipe.buf)
    (hft : pipe.buf.length ≤ size) (he : pipe.data ≠ [] → pipe.buf = [])
    (hfl : pipe.space ≠ [] → pipe.buf.length = size)
    (hm : ∀ thread call st, pipe.calls thread = some (call, st) → Moved call (h.movedAfter moves thread)) :
    (h.follow pipe moves).Inv size := by
  refine hi.follow hp hf hs hft he hfl hm fun thread rc bytes hmm => ?_
  simp [logged, hl] at hmm

theorem Inv.follow_self (hi : h.Inv size) : (h.follow h.pipe []).Inv size :=
  hi.follow_silent hi.pipe rfl rfl (List.append_nil _) hi.fits hi.empty hi.full
    hi.moved_nil

theorem Inv.returns (hi : h.Inv size) (thread : Tid) (bytes : List UInt8)
    (hrc : 0 ≤ rc → rc = (h.moved thread).length) :
    (h.follow (h.pipe.returns thread rc bytes) []).Inv size := by
  refine hi.follow (hi.pipe.congr rfl rfl rfl rfl .inl) rfl (List.append_nil _) hi.fits
    hi.empty hi.full ?_ ?_
  · exact hi.moved_nil
  · intro o rc' bs' hm
    simp only [logged, State.returns_log, List.drop_left, List.mem_singleton, Entry.Return.injEq] at hm
    obtain ⟨rfl, rfl, _⟩ := hm
    simpa only [movedAfter_nil] using hrc

variable {p : Prop} {n : Nat} {calls : Tid → Option (Call × Status)} {moved : Tid → List UInt8}
  {c : WriteCall} {call : Call} {left : List UInt8}

theorem count_or_again [Decidable p] (hrc : rc = if p then (n : Int) else EAGAIN) (hp : 0 ≤ rc) : rc = n := by
  split at hrc
  · exact hrc
  · rw [hrc] at hp
    exact absurd hp (by decide)

theorem moved_update (hm : ∀ thread call st, calls thread = some (call, st) → Moved call (moved thread))
    {new : Call} (st : Status) (hn : Moved new (moved thread)) :
    ∀ o call status', update calls thread (some (new, st)) o = some (call, status') → Moved call (moved o) := by
  intro o call status' hc
  rcases update_cases hc with ⟨rfl, ⟨⟩⟩ | ⟨-, ho⟩
  · exact hn
  · exact hm o call status' ho

theorem Inv.expired (hi : h.Inv size) [Decidable p] (hn : (h.moved thread).length = n)
    (he : pipe = State.returns { h.pipe with log := h.pipe.log ++ [Entry.WaitFor thread] } thread
      (if p then (n : Int) else EAGAIN) bytes) (hp : pipe.Inv) :
    (h.follow pipe []).Inv size := by
  subst he
  refine hi.follow hp rfl (List.append_nil _) hi.fits hi.empty hi.full hi.moved_nil ?_
  intro o rc bytes hm hps
  simp only [logged, State.returns_log, List.append_assoc, List.drop_left, List.cons_append,
    List.nil_append, List.mem_cons, List.not_mem_nil, or_false, reduceCtorEq, false_or,
    Entry.Return.injEq] at hm
  obtain ⟨rfl, hrc, _⟩ := hm
  rw [movedAfter_nil, hn]
  exact count_or_again hrc hps

theorem Inv.waitForData (hi : h.Inv size) {c : ReadCall} (expired : Bool)
    (hn : h.pipe.calls thread = none) (hg : c.got = h.moved thread)
    (hw : c.got.length < c.len) (hb : h.pipe.buf = []) :
    (h.follow (h.pipe.waitForData thread c expired) []).Inv size := by
  have hp := hi.pipe.waitForData expired hn hw
  simp only [State.waitForData] at hp ⊢
  split at hp
  · next he =>
      simp only [he, if_true]
      exact hi.expired (congrArg List.length hg.symm) rfl hp
  · next he =>
      simp only [he]
      refine hi.follow hp rfl (List.append_nil _) hi.fits (fun _ => hb) hi.full ?_ ?_
      · simp only [movedAfter_nil]
        exact moved_update hi.moved _ hg
      · intro o rc bytes hm
        simp [logged] at hm

theorem length_of_moved (hm : Moved (.Write c) bytes) : bytes.length = c.written := by
  rw [← hm.1, List.length_take, Nat.min_eq_left hm.2]

theorem Inv.waitForSpace (hi : h.Inv size) (expired : Bool)
    (hn : h.pipe.calls thread = none) (hw : Moved (.Write c) (h.moved thread))
    (hb : h.pipe.buf.length = size) :
    (h.follow (h.pipe.waitForSpace thread c expired) []).Inv size := by
  have hp := hi.pipe.waitForSpace (c := c) expired hn
  simp only [State.waitForSpace] at hp ⊢
  split at hp
  · next he =>
      simp only [he, if_true]
      exact hi.expired (length_of_moved hw) rfl hp
  · next he =>
      simp only [he]
      refine hi.follow hp rfl (List.append_nil _) hi.fits hi.empty (fun _ => hb) ?_ ?_
      · simp only [movedAfter_nil]
        exact moved_update hi.moved _ hw
      · intro o rc bytes hm
        simp [logged] at hm

theorem Inv.put (hi : h.Inv size) (hn : h.pipe.calls thread = none) (hd : h.pipe.data = [])
    (hr : bytes.length ≤ size - h.pipe.buf.length) :
    (h.follow { h.pipe with buf := h.pipe.buf ++ bytes } [.Put thread bytes]).Inv size := by
  have hf := hi.fits
  refine hi.follow_silent (hi.pipe.congr rfl rfl rfl rfl .inl) rfl rfl ?_ ?_ ?_ ?_ ?_
  · simp [Move.taken, Move.delivered]
  · simp only [List.length_append]
    omega
  · exact fun hne => absurd hd hne
  · intro hs
    have hfl := hi.full hs
    simp only [List.length_append]
    omega
  · intro o call st hc
    have hne := State.ne_of_calls hn hc
    simpa [movedAfter, Move.moved, hne] using hi.moved o call st hc

theorem movedAfter_put (h : Stream) (thread : Tid) (bytes : List UInt8) :
    h.movedAfter [.Put thread bytes] thread = h.moved thread ++ bytes := by
  simp [movedAfter, Move.moved]

theorem Inv.storeRest (hi : h.Inv size) (expired : Bool)
    (hn : h.pipe.calls thread = none) (hw : Moved (.Write c) (h.moved thread))
    (hd : h.pipe.data = []) :
    (h.follow (h.pipe.storeRest ⟨size, false⟩ thread c expired)
      (h.pipe.storeMoves ⟨size, false⟩ thread c)).Inv size := by
  obtain ⟨hm, hle⟩ := hw
  have hft := hi.fits
  generalize hs : min (c.data.drop c.written).length (size - h.pipe.buf.length) = stored
  have hl : ((c.data.drop c.written).take stored).length = stored := by
    rw [List.length_take]
    omega
  have hr : ((c.data.drop c.written).take stored).length ≤ size - h.pipe.buf.length := by omega
  have hp := hi.put hn hd hr
  have ha : Moved (.Write { c with written := c.written + stored })
      (h.movedAfter [.Put thread ((c.data.drop c.written).take stored)] thread) := by
    rw [movedAfter_put, ← hm, ← List.take_add]
    refine ⟨rfl, ?_⟩
    simp only [List.length_drop] at hs ⊢
    omega
  simp only [State.storeRest, State.storeMoves, hs]
  split
  · have hc := congrArg (Nat.cast (R := Int)) (length_of_moved ha)
    exact (hp.returns thread [] fun _ => hc.symm).ends rfl
  · next hmr =>
      have hf : (h.pipe.buf ++ (c.data.drop c.written).take stored).length = size := by
        rw [List.length_append, hl]
        simp only [List.length_drop] at hs
        omega
      exact (hp.waitForSpace expired hn ha hf).ends rfl

theorem Inv.get (hi : h.Inv size) (hn : h.pipe.calls thread = none) (hs : h.pipe.space = []) (n : Nat) :
    (h.follow { h.pipe with buf := h.pipe.buf.drop n } [.Get thread (h.pipe.buf.take n)]).Inv
      size := by
  have hf := hi.fits
  refine hi.follow_silent (hi.pipe.congr rfl rfl rfl rfl .inl) rfl rfl ?_ ?_ ?_ ?_ ?_
  · simp [Move.taken, Move.delivered]
  · simp only [List.length_drop]
    omega
  · intro hd
    simp [hi.empty hd]
  · exact fun hne => absurd hs hne
  · intro o call st hc
    have hne := State.ne_of_calls hn hc
    simpa [movedAfter, Move.moved, hne] using hi.moved o call st hc

theorem movedAfter_get (h : Stream) (thread : Tid) (bytes : List UInt8) :
    h.movedAfter [.Get thread bytes] thread = h.moved thread ++ bytes := by
  simp [movedAfter, Move.moved]

theorem Inv.takeBytes (hi : h.Inv size) {c : ReadCall} (expired : Bool)
    (hnn : h.pipe.calls thread = none) (hgt : c.got = h.moved thread)
    (hw : c.got.length < c.len) (hs : h.pipe.space = []) :
    (h.follow (h.pipe.takeBytes thread c expired)
      [.Get thread (h.pipe.buf.take (min (c.len - c.got.length) h.pipe.buf.length))]).Inv size := by
  generalize hn : min (c.len - c.got.length) h.pipe.buf.length = n
  have hg := hi.get hnn hs n
  have ha : c.got ++ h.pipe.buf.take n = h.movedAfter [.Get thread (h.pipe.buf.take n)] thread := by
    rw [movedAfter_get, hgt]
  have hl : (c.got ++ h.pipe.buf.take n).length = c.got.length + n := by
    rw [List.length_append, List.length_take]
    omega
  simp only [State.takeBytes, hn]
  split
  · have hc := congrArg (fun bytes => (bytes.length : Int)) ha
    exact (hg.returns thread (c.got ++ h.pipe.buf.take n) fun _ => hc).ends rfl
  · next hm =>
      have hb : h.pipe.buf.drop n = [] := List.drop_eq_nil_of_le (by omega)
      have hwn : (c.got ++ h.pipe.buf.take n).length < c.len := by omega
      exact (hg.waitForData expired hnn ha hwn hb).ends rfl

theorem moved_wake (hm : ∀ thread call st, calls thread = some (call, st) → Moved call (moved thread))
    (rc : Int) (queue : List Tid) (thread : Tid) (call : Call) (st : Status)
    (hc : State.wake calls rc queue thread = some (call, st)) :
    Moved call (moved thread) := by
  unfold State.wake at hc
  split at hc
  · obtain ⟨⟨c', status'⟩, hbefore, heq⟩ := Option.map_eq_some_iff.mp hc
    cases heq
    exact hm thread _ status' hbefore
  · exact hm thread call st hc

theorem Inv.wakeAllWriters (hi : h.Inv size) : (h.follow h.pipe.wakeAllWriters []).Inv size := by
  refine hi.follow_silent hi.pipe.wakeAllWriters rfl rfl (List.append_nil _) hi.fits hi.empty
    (fun hne => absurd rfl hne) ?_
  exact moved_wake hi.moved_nil 0 h.pipe.space

theorem Inv.timeOut (hi : h.Inv size) (thread : Tid) : (h.follow (h.pipe.timeOut thread) []).Inv size := by
  refine hi.follow_silent (hi.pipe.timeOut thread) rfl rfl (List.append_nil _) hi.fits
    (fun hne => hi.empty fun hn => hne ?_) (fun hne => hi.full fun hn => hne ?_) ?_
  · simp [State.timeOut, hn]
  · simp [State.timeOut, hn]
  · exact moved_wake hi.moved_nil EAGAIN [thread]

theorem Inv.leaveWait (hi : h.Inv size) (hcl : h.pipe.calls thread = some (call, .Woken rc)) :
    h.pipe.leaveWait thread rc = ({ h.pipe with
        waiting := h.pipe.waiting - 1
        calls := update h.pipe.calls thread none }, rc) ∧
    (h.follow (h.pipe.leaveWait thread rc).1 []).Inv size := by
  have heq : h.pipe.leaveWait thread rc = ({ h.pipe with
        waiting := h.pipe.waiting - 1
        calls := update h.pipe.calls thread none }, rc) := by
    simp [State.leaveWait, hi.flags]
  have hp := hi.pipe.leaveWait hcl
  refine ⟨heq, ?_⟩
  rw [heq] at hp ⊢
  refine hi.follow_silent hp rfl rfl (List.append_nil _) hi.fits hi.empty hi.full ?_
  intro o c' st hc
  by_cases ho : o = thread
  · simp [ho] at hc
  · simp only [update_of_ne ho] at hc
    exact hi.moved_nil o c' st hc

-- One memcpy to a reader that waits; the ring is empty, so the order is kept.
theorem Inv.copy (hi : h.Inv size) {reader : Tid} {c : ReadCall} {before after : Status}
    {data : List Tid} (hn : h.pipe.calls thread = none)
    (hc : h.pipe.calls reader = some (.Read c, before)) (hb : h.pipe.buf = [])
    (hp : State.Inv { h.pipe with
      data
      calls := update h.pipe.calls reader
        (some (.Read { c with got := c.got ++ bytes }, after)) }) :
    (h.follow { h.pipe with
      data
      calls := update h.pipe.calls reader
        (some (.Read { c with got := c.got ++ bytes }, after)) }
      [.Copy thread reader bytes]).Inv size := by
  have hr := State.ne_of_calls hn hc
  refine hi.follow_silent hp rfl rfl ?_ hi.fits (fun _ => hb) hi.full ?_
  · simp [Move.taken, Move.delivered, hb]
  · intro other call st ha
    rcases update_cases ha with ⟨rfl, ⟨⟩⟩ | ⟨heq, ho⟩
    · have hg : c.got = h.moved other := hi.moved other _ _ hc
      simp [Moved, movedAfter, Move.moved, hr, hg]
    · have hne := State.ne_of_calls hn ho
      simpa [movedAfter, Move.moved, hne, Ne.symm heq] using hi.moved other call st ho

def copyMoves (thread : Tid) (copied : List (Tid × List UInt8)) : List Move :=
  copied.map fun copy => .Copy thread copy.1 copy.2

theorem Inv.copying {s fin : State} (hcp : State.Copying s bytes copied fin left) (hi : h.Inv size) (hs : h.pipe = s)
    (hn : s.calls thread = none) (hb : s.buf = []) :
    (h.follow fin (copyMoves thread copied)).Inv size := by
  induction hcp generalizing h with
  | NoReader bytes hd | Done s =>
    subst hs
    exact hi.follow_self
  | Short hc hsh =>
    subst hs
    exact hi.copy hn hc hb (hi.pipe.fill hc hsh)
  | @Next s fin bytes rest left reader c copied hc hexact hrest ih =>
    subst hs
    have hsr := hi.copy hn hc hb (hi.pipe.serve bytes hc)
    have hnn := State.serve_calls_of_none hn hc bytes
    have hnx : ((h.follow (h.pipe.serve reader c bytes) [.Copy thread reader bytes]).follow fin
        (copyMoves thread copied)).Inv size := ih hsr rfl hnn hb
    have hl : (h.pipe.serve reader c bytes).log = h.pipe.log := rfl
    rwa [follow_follow hl] at hnx

theorem movedAfter_copyMoves (h : Stream) (ho : ∀ copy ∈ copied, copy.1 ≠ thread) :
    h.movedAfter (copyMoves thread copied) thread = h.moved thread ++ copied.flatMap Prod.snd := by
  unfold movedAfter
  congr 1
  induction copied with
  | nil => rfl
  | cons copy copied ih =>
    have hr := ih fun o hm => ho o (List.mem_cons_of_mem _ hm)
    have hne := ho copy List.mem_cons_self
    simp only [copyMoves, List.map_cons, List.flatMap_cons] at hr ⊢
    simp [hr, Move.moved, hne]

theorem Inv.readDecision (hi : h.Inv size) (len : Nat) :
    (readDecide h.pipe.buf.length size h.pipe.flags len (h.pipe.space ≠ [])).decision =
      if h.pipe.space ≠ [] then .WakeWriter
      else if h.pipe.buf ≠ [] then .ReadOk
      else .ReadPend := by
  by_cases hs : h.pipe.space = []
  · by_cases hb : h.pipe.buf = []
    · simp [readDecide, hi.flags, hs, hb]
    · have hp : 0 < h.pipe.buf.length := List.length_pos_iff.mpr hb
      simp [readDecide, hi.flags, hs, hb, hp]
  · simp [readDecide, hi.flags, hs, hi.full hs]

theorem Inv.readTurn (hi : h.Inv size) {c : ReadCall} (expired : Bool)
    (hn : h.pipe.calls thread = none) (hgt : c.got = h.moved thread) :
    (h.follow (h.pipe.readTurn ⟨size, false⟩ thread c expired)
      (h.pipe.readMoves ⟨size, false⟩ thread c)).Inv size := by
  unfold State.readTurn State.readMoves
  split
  · exact hi.returns thread c.got fun _ => by rw [hgt]
  · next hm =>
      have hw : c.got.length < c.len := Nat.lt_of_not_ge hm
      dsimp only
      rw [hi.readDecision]
      by_cases hs : h.pipe.space = []
      · by_cases hb : h.pipe.buf = []
        · simp only [hs, hb, ne_eq, not_true_eq_false, if_false]
          exact hi.waitForData expired hn hgt hw hb
        · simp only [hs, hb, ne_eq, not_true_eq_false, not_false_eq_true, if_false, if_true]
          exact hi.takeBytes expired hn hgt hw hs
      · simp only [hs, ne_eq, not_false_eq_true, if_true]
        have hwk := hi.wakeAllWriters
        have hg : c.got = h.movedAfter [] thread := by rw [movedAfter_nil, hgt]
        exact (hwk.takeBytes expired (State.wake_eq_none.mpr hn) hg hw rfl).starts rfl

theorem Inv.writeDecision (hi : h.Inv size) (len : Nat) :
    (writeDecide h.pipe.buf.length size h.pipe.flags len (h.pipe.data ≠ [])).decision =
      if h.pipe.data ≠ [] then .WakeReader
      else if h.pipe.buf.length = size then .WritePend
      else .WriteOk := by
  have hft := hi.fits
  by_cases hd : h.pipe.data = []
  · have hf : (size = 0 ∨ size ≤ h.pipe.buf.length) ↔ h.pipe.buf.length = size := by omega
    simp only [writeDecide, hi.flags, hd, ge_iff_le, hf]
    simp [apply_ite WriteDecideResult.decision]
  · simp [writeDecide, hi.flags, hd, hi.empty hd]

theorem moved_of_copying {s fin : State} (hn : s.calls thread = none)
    (hc : State.Copying s (c.data.drop c.written) copied fin left)
    (hw : Moved (.Write c) (h.moved thread)) :
    Moved (.Write { c with written := c.written + ((c.data.drop c.written).length - left.length) })
      (h.movedAfter (copyMoves thread copied) thread) := by
  obtain ⟨hm, hle⟩ := hw
  have hb := hc.bytes_eq
  have hl : (c.data.drop c.written).length = (copied.flatMap Prod.snd).length + left.length := by
    rw [← hb, List.length_append]
  have hcn : (c.data.drop c.written).length - left.length = (copied.flatMap Prod.snd).length := by
    omega
  rw [movedAfter_copyMoves h (hc.ne hn), ← hm, hcn]
  refine ⟨?_, ?_⟩
  · simp only [List.take_add]
    rw [← hb, List.take_left]
  · simp only [List.length_drop] at hl ⊢
    omega

theorem Inv.writeTurn (hi : h.Inv size) (policy : Policy Tid) (expired : Bool)
    (hn : h.pipe.calls thread = none) (hw : Moved (.Write c) (h.moved thread)) :
    (h.follow (h.pipe.writeTurn ⟨size, false⟩ policy thread c expired)
      (h.pipe.writeMoves ⟨size, false⟩ policy thread c)).Inv size := by
  unfold State.writeTurn State.writeMoves
  dsimp only
  rw [hi.writeDecision]
  by_cases hd : h.pipe.data = []
  · by_cases hf : h.pipe.buf.length = size
    · simp only [hd, hf, ne_eq, not_true_eq_false, if_false, if_true]
      exact hi.waitForSpace expired hn hw hf
    · simp only [hd, hf, ne_eq, not_true_eq_false, if_false]
      exact hi.storeRest expired hn hw hd
  · have hwt := hi.pipe.waiting_of_reader hd
    have hc := State.copyToPendingReaders_copying policy hi.pipe (Nat.lt_succ_self _)
      (c.data.drop c.written)
    have hcp := hi.copying hc rfl hn (hi.empty hd)
    have ha := moved_of_copying (h := h) hn hc hw
    have hlg := hc.frame.2.2.2
    simp only [hd, hwt, ne_eq, not_false_eq_true, if_true, Bool.false_eq_true, if_false]
    split
    · have hr := hcp.returns thread [] fun _ => congrArg Nat.cast (length_of_moved ha).symm
      exact hr.ends hlg
    · next hm =>
        have hl : (h.pipe.copyToPendingReaders policy (h.pipe.data.length + 1) (c.data.drop c.written)).2 ≠ [] := by
          intro hnl
          simp only [hnl, List.length_drop, List.length_nil] at hm
          omega
        have hs := hcp.storeRest expired (hc.calls_of_none hn) ha
          (hc.data_eq_nil hl)
        rwa [follow_follow hlg] at hs

theorem Inv.forget (hi : h.Inv size) (hn : h.pipe.calls thread = none) :
    Inv size { h with moved := update h.moved thread [] } where
  pipe := hi.pipe
  flags := hi.flags
  stream := hi.stream
  fits := hi.fits
  empty := hi.empty
  full := hi.full
  moved := by
    intro o call st hc
    have hne := State.ne_of_calls hn hc
    simpa only [update_of_ne hne.symm] using hi.moved o call st hc
  counted := hi.counted

theorem Inv.relock (hi : h.Inv size) (policy : Policy Tid)
    (hc : h.pipe.calls thread = some (call, .Woken rc)) (expired : Bool) :
    (h.follow (h.pipe.relock ⟨size, false⟩ policy thread call rc expired)
      (h.pipe.moves ⟨size, false⟩ policy (.Relock thread expired))).Inv size := by
  obtain ⟨heq, hl⟩ := hi.leaveWait hc
  have hlg := (h.pipe.leaveWait_frame thread rc).1
  have hn : (h.pipe.leaveWait thread rc).1.calls thread = none := by simp [State.leaveWait_calls]
  have hm : Moved call (h.movedAfter [] thread) := hi.moved_nil thread call _ hc
  have hrc : (h.pipe.leaveWait thread rc).2 = rc := by rw [heq]
  have ha : rc ≠ 0 → rc = EAGAIN := (hi.pipe.result thread call rc hc).resolve_left
  simp only [State.moves, hc]
  unfold State.relock
  dsimp only
  rw [hrc]
  cases call with
  | Read c =>
    by_cases hz : rc = 0
    · simp only [if_pos hz]
      exact (hl.readTurn expired hn hm).starts hlg
    · simp only [if_neg hz, if_pos (ha hz)]
      refine Inv.starts hlg (hl.returns thread c.got fun hp => ?_)
      exact (count_or_again rfl hp).trans (congrArg (fun bytes => (bytes.length : Int)) hm)
  | Write c =>
    dsimp only
    by_cases hz : rc = 0
    · simp only [if_pos hz]
      exact (hl.writeTurn policy expired hn hm).starts hlg
    · simp only [if_neg hz, if_pos (ha hz)]
      refine Inv.starts hlg (hl.returns thread [] fun hp => ?_)
      exact (count_or_again rfl hp).trans (congrArg Nat.cast (length_of_moved hm).symm)

theorem Inv.step (hi : h.Inv size) {policy : Policy Tid} {op : Op} {next : Stream}
    (hop : op ≠ .Reset ∧ op ≠ .Close) (hs : h.step ⟨size, false⟩ policy op = some next) :
    next.Inv size := by
  obtain ⟨pipe, hp, rfl⟩ := Option.map_eq_some_iff.mp hs
  cases op with
  | Read thread len timeout expired =>
    have hn := calls_of_step_read hp
    rw [step_read hp]
    exact (hi.forget hn).readTurn expired hn (by simp)
  | Write thread data timeout expired =>
    have hn := calls_of_step_write hp
    rw [step_write hp]
    exact (hi.forget hn).writeTurn policy expired hn ⟨by simp, Nat.zero_le _⟩
  | Relock thread expired =>
    obtain ⟨call, rc, hc, rfl⟩ := step_relock hp
    exact hi.relock policy hc expired
  | TimeOut thread =>
    rw [step_timeOut hp]
    exact hi.timeOut thread
  | Reset => exact absurd rfl hop.1
  | Close => exact absurd rfl hop.2

-- What was taken from writers is what readers got, then what is in the ring;
-- nobody waits for bytes that are there or for room that is there; and what a
-- call returns is how many bytes it moved.
structure InOrder (size : Nat) (h : Stream) : Prop where
  stream : h.taken = h.delivered ++ h.pipe.buf
  readers : ∀ reader ∈ h.pipe.data, h.pipe.buf = []
  writers : ∀ writer ∈ h.pipe.space, h.pipe.buf.length = size
  counted : ∀ entry ∈ h.returned, 0 ≤ entry.1 → entry.1 = entry.2

theorem Inv.inOrder (hi : h.Inv size) : h.InOrder size where
  stream := hi.stream
  readers := fun _ hm => hi.empty (List.ne_nil_of_mem hm)
  writers := fun _ hm => hi.full (List.ne_nil_of_mem hm)
  counted := hi.counted

theorem byte_stream_in_order (size : Nat) (policy : Policy Tid) (ops : List Op)
    (hops : ∀ op ∈ ops, op ≠ .Reset ∧ op ≠ .Close) :
    Throughout (step ⟨size, false⟩ policy) (InOrder size) init ops := by
  have hi : Throughout (step ⟨size, false⟩ policy) (Inv size) init ops :=
    throughout_of_along (fun _ _ _ hi hop hs => hi.step hop hs) init_inv
      (along_of_forall fun _ => hops)
  exact hi.mono fun _ hi => hi.inOrder

-- A reader of three bytes is served by two writers directly; the last byte of
-- the second one is left in the ring.
theorem byte_stream_in_order_two_routes :
    Throughout (step ⟨1, false⟩ (.byPriority fun _ => 0)) (InOrder 1) init
      [.Read 1 3 K_FOREVER false, .Write 2 [5] K_FOREVER false,
        .Write 3 [6, 7, 8] K_FOREVER false, .Relock 1 false] ∧
    (run (step ⟨1, false⟩ (.byPriority fun _ => 0)) init
      [.Read 1 3 K_FOREVER false, .Write 2 [5] K_FOREVER false,
        .Write 3 [6, 7, 8] K_FOREVER false, .Relock 1 false]).map (fun h =>
          (h.taken, h.delivered, h.pipe.buf, h.returned)) =
      some ([5, 6, 7, 8], [5, 6, 7], [8], [(1, 1), (3, 3), (3, 3)]) := by
  refine ⟨byte_stream_in_order 1 _ _ ?_, ?_⟩
  · simp
  · rfl

end Stream

end Gale.Pipe
