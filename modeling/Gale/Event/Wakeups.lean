import Gale.Event.Waiters
import Gale.Lib.WaitQueue

namespace Gale.Event

open Function Lib

def State.pendedCall (s : State) (thread : Tid) : Option Call :=
  match s.pc thread with
  | .Pended call => some call
  | _ => none

structure PostRecord where
  newEvents : UInt32
  woken : List Call
  stored : UInt32

def PostRecord.cleared (post : PostRecord) : UInt32 :=
  (post.woken.filter (·.asked.clears)).foldl
    (fun bits call => bits ||| (post.newEvents &&& call.events)) 0

structure WaitReturn where
  call : Call
  wokenBy : Option UInt32
  rv : UInt32

-- The object with what its calls did, kept for the statements.
structure History where
  sys : State
  wokenBy : Tid → Option UInt32
  posts : List PostRecord
  returns : List WaitReturn

inductive Op where
  | Post (events : UInt32)
  | Set (events : UInt32)
  | SetMasked (events eventsMask : UInt32)
  | Clear (events : UInt32)
  | Wait (thread : Tid) (events : UInt32) (reset : Bool) (timeout : Timeout)
  | WaitAll (thread : Tid) (events : UInt32) (reset : Bool) (timeout : Timeout)
  | WaitSafe (thread : Tid) (events : UInt32) (reset : Bool) (timeout : Timeout)
  | WaitAllSafe (thread : Tid) (events : UInt32) (reset : Bool) (timeout : Timeout)
  | TimeOut (thread : Tid)
  | Resume (thread : Tid)

namespace History

def start (thread : Tid → Thread) : History where
  sys := init thread
  wokenBy := fun _ => none
  posts := []
  returns := []

def posted (h : History) (newEvents : UInt32) (next : State) : History :=
  let woken := h.sys.waitQ.filter (· ∉ next.waitQ)
  { h with
    sys := next
    wokenBy := fun thread => if thread ∈ woken then some newEvents else h.wokenBy thread
    posts := h.posts ++ [⟨newEvents, woken.filterMap h.sys.pendedCall, next.events⟩] }

def waits (h : History) (thread : Tid) (call : Call) : History :=
  let result := h.sys.kEventWaitInternal thread call
  { h with
    sys := result.1
    wokenBy := update h.wokenBy thread none
    returns := h.returns ++ (result.2.map fun rv => ⟨call, none, rv⟩).toList }

def resumes (h : History) (thread : Tid) (call : Call) (ret : Int) : History :=
  let result := h.sys.resume thread ret
  { h with
    sys := result.1
    returns := h.returns ++ [⟨call, h.wokenBy thread, result.2⟩] }

-- A thread calls while it runs; only a pended thread with a limit times out.
def step (cfg : Config) (h : History) : Op → Option History
  | .Post events =>
    some (h.posted (postDecide h.sys.events events events) (h.sys.kEventPost cfg events).1)
  | .Set events =>
    some (h.posted (postDecide h.sys.events events (~~~0)) (h.sys.kEventSet cfg events).1)
  | .SetMasked events eventsMask =>
    some (h.posted (postDecide h.sys.events events eventsMask)
      (h.sys.kEventSetMasked cfg events eventsMask).1)
  | .Clear events =>
    some (h.posted (postDecide h.sys.events 0 events) (h.sys.kEventClear cfg events).1)
  | .Wait thread events reset timeout =>
    if h.sys.pc thread = .Running then
      some (h.waits thread ⟨events, kEventWaitOptions reset, timeout⟩)
    else none
  | .WaitAll thread events reset timeout =>
    if h.sys.pc thread = .Running then
      some (h.waits thread ⟨events, kEventWaitAllOptions reset, timeout⟩)
    else none
  | .WaitSafe thread events reset timeout =>
    if h.sys.pc thread = .Running then
      some (h.waits thread ⟨events, kEventWaitSafeOptions reset, timeout⟩)
    else none
  | .WaitAllSafe thread events reset timeout =>
    if h.sys.pc thread = .Running then
      some (h.waits thread ⟨events, kEventWaitAllSafeOptions reset, timeout⟩)
    else none
  | .TimeOut thread =>
    match h.sys.pc thread with
    | .Pended call =>
      if call.timeout ≠ K_FOREVER then
        some { h with sys := h.sys.wakeThread EAGAIN thread }
      else none
    | _ => none
  | .Resume thread =>
    match h.sys.pc thread with
    | .Woken call ret => some (h.resumes thread call ret)
    | _ => none

variable {cfg : Config} {h : History} {op : Op} {thread : Tid} {kept : UInt32}

theorem step_cases {next : History} (hs : h.step cfg op = some next) :
    (∃ es mask, next = h.posted (postDecide h.sys.events es mask) (h.sys.kEventPostInternal cfg es mask).1) ∨
    (∃ thread call, h.sys.pc thread = .Running ∧ next = h.waits thread call) ∨
    (∃ thread call, h.sys.pc thread = .Pended call ∧
      next = { h with sys := h.sys.wakeThread EAGAIN thread }) ∨
    ∃ thread call ret, h.sys.pc thread = .Woken call ret ∧ next = h.resumes thread call ret := by
  cases op with
  | Post es | Set es | SetMasked es mask | Clear es =>
    exact .inl ⟨_, _, (Option.some.inj hs).symm⟩
  | Wait thread es reset timeout | WaitAll thread es reset timeout
  | WaitSafe thread es reset timeout | WaitAllSafe thread es reset timeout =>
    obtain ⟨hpc, hn⟩ := Option.ite_none_right_eq_some.mp hs
    exact .inr (.inl ⟨thread, _, hpc, (Option.some.inj hn).symm⟩)
  | TimeOut thread =>
    simp only [step] at hs
    split at hs
    · next call hpc =>
        obtain ⟨_, hn⟩ := Option.ite_none_right_eq_some.mp hs
        exact .inr (.inr (.inl ⟨thread, call, hpc, (Option.some.inj hn).symm⟩))
    · cases hs
  | Resume thread =>
    simp only [step] at hs
    split at hs
    · next call ret hpc =>
        exact .inr (.inr (.inr ⟨thread, call, ret, hpc, (Option.some.inj hs).symm⟩))
    · cases hs

-- No thread stays pended with its condition satisfied, a thread that a post woke
-- returns its part of the value, and the post leaves what was not cleared.
def NoLostEvent (h : History) : Prop :=
  (∀ thread ∈ h.sys.waitQ, ∃ call, h.sys.pc thread = .Pended call ∧ call.events ≠ 0 ∧
    ¬ call.asked.Met h.sys.events) ∧
  (∀ r ∈ h.returns, ∀ newEvents, r.wokenBy = some newEvents → r.rv = newEvents &&& r.call.events) ∧
  ∀ post ∈ h.posts, post.stored = post.newEvents &&& ~~~post.cleared

-- A pended thread's fields are what its call asked for, and a woken thread's
-- what the post gave it.
structure Sound (h : History) (thread : Tid) : Prop where
  pended : thread ∈ h.sys.waitQ → ∃ call, h.sys.pc thread = .Pended call ∧
    h.sys.thread thread = call.asked ∧ call.events ≠ 0 ∧ ¬ call.asked.Met h.sys.events
  fresh : ∀ call, h.sys.pc thread = .Pended call → h.wokenBy thread = none
  woken : ∀ call ret newEvents, h.sys.pc thread = .Woken call ret → h.wokenBy thread = some newEvents →
    ret = 0 ∧ (h.sys.thread thread).events = newEvents &&& call.events

structure Inv (h : History) : Prop where
  nodup : h.sys.waitQ.Nodup
  sound : ∀ thread, h.Sound thread
  returns : ∀ r ∈ h.returns, ∀ newEvents, r.wokenBy = some newEvents →
    r.rv = newEvents &&& r.call.events
  posts : ∀ post ∈ h.posts, post.stored = post.newEvents &&& ~~~post.cleared

theorem Inv.noLostEvent (hinv : h.Inv) : h.NoLostEvent := by
  refine ⟨fun thread hmm => ?_, hinv.returns, hinv.posts⟩
  obtain ⟨call, hpc, _, hne, hm⟩ := (hinv.sound thread).pended hmm
  exact ⟨call, hpc, hne, hm⟩

theorem start_inv (thread : Tid → Thread) : (start thread).Inv where
  nodup := List.nodup_nil
  sound := fun _ => ⟨by simp [start, init], by simp [start, init], by simp [start, init]⟩
  returns := by simp [start]
  posts := by simp [start]

theorem Sound.frame {next : History} (hs : h.Sound thread) (he : next.sys.events = h.sys.events &&& kept)
    (hq : thread ∈ next.sys.waitQ → thread ∈ h.sys.waitQ)
    (ht : next.sys.thread thread = h.sys.thread thread)
    (hpc : next.sys.pc thread = h.sys.pc thread)
    (hby : next.wokenBy thread = h.wokenBy thread) : next.Sound thread where
  pended := by
    intro hmm
    obtain ⟨call, hp, ha, hne, hm⟩ := hs.pended (hq hmm)
    refine ⟨call, hpc.trans hp, ht.trans ha, hne, fun h => hm ?_⟩
    rw [he] at h
    exact h.of_and
  fresh := by
    rw [hpc, hby]
    exact hs.fresh
  woken := by
    rw [hpc, hby, ht]
    exact hs.woken

theorem taken_eq_cleared {s : State} {threads : List Tid}
    (h : ∀ thread ∈ threads, ∃ call, s.pendedCall thread = some call ∧
      s.thread thread = call.asked) (new bits : UInt32) :
    s.taken new threads bits = ((threads.filterMap s.pendedCall).filter (·.asked.clears)).foldl
        (fun bits call => bits ||| (new &&& call.events)) bits := by
  induction threads generalizing bits with
  | nil => rfl
  | cons first rest ih =>
    obtain ⟨call, hc, ha⟩ := h first List.mem_cons_self
    have hr := ih fun thread hm => h thread (List.mem_cons_of_mem _ hm)
    have hcn : s.taken new (first :: rest) bits = s.taken new rest (s.taken new [first] bits) := rfl
    rw [hcn, hr, List.filterMap_cons_some hc, List.filter_cons]
    simp only [State.taken, List.foldl_cons, List.foldl_nil, ha]
    split <;> rfl

theorem Sound.posted (hs : h.Sound thread) {new : UInt32} {next : State}
    (hn : next = { h.sys.release new with events := new &&& kept })
    (hby : (h.posted new next).wokenBy thread =
      if thread ∈ h.sys.matched new then some new else h.wokenBy thread) :
    (h.posted new next).Sound thread := by
  by_cases hm : thread ∈ h.sys.matched new
  · obtain ⟨hqu, hmt⟩ := State.mem_matched.mp hm
    obtain ⟨call, hpc, ha, _⟩ := hs.pended hqu
    obtain ⟨hpc', ht⟩ := State.release_of_mem hm
    have haf : (h.posted new next).sys.pc thread = .Woken call 0 := by
      rw [hn]
      exact hpc'.trans (congrArg (Pc.woken 0) hpc)
    have he : ((h.posted new next).sys.thread thread).events = new &&& call.events := by
      rw [hn]
      refine (congrArg Thread.events ht).trans ?_
      rw [ha]
      rfl
    refine ⟨fun hq => ?_, fun c' hp => ?_, fun c' ret v hw hv => ?_⟩
    · rw [hn] at hq
      exact absurd hmt (State.mem_release_waitQ.mp hq).2
    · rw [haf] at hp
      cases hp
    · rw [haf] at hw
      rw [hby, if_pos hm] at hv
      cases hw
      cases hv
      exact ⟨rfl, he⟩
  · obtain ⟨hpc', ht⟩ := State.release_of_not_mem hm
    rw [if_neg hm] at hby
    refine ⟨fun hq => ?_, fun call hp => ?_, fun call ret v hw hv => ?_⟩
    · rw [hn] at hq ⊢
      obtain ⟨hqu, hnt⟩ := State.mem_release_waitQ.mp hq
      obtain ⟨call, hpc, ha, hne, _⟩ := hs.pended hqu
      rw [ha] at hnt
      exact ⟨call, hpc'.trans hpc, ht.trans ha, hne, fun hmt => hnt hmt.of_and⟩
    · rw [hn] at hp
      exact hby.trans (hs.fresh call (hpc'.symm.trans hp))
    · rw [hby] at hv
      rw [hn] at hw ⊢
      obtain ⟨hr, he⟩ := hs.woken call ret v (hpc'.symm.trans hw) hv
      exact ⟨hr, (congrArg Thread.events ht).trans he⟩

theorem Inv.posted (hinv : h.Inv) (cfg : Config) (es mask : UInt32) :
    (h.posted (postDecide h.sys.events es mask) (h.sys.kEventPostInternal cfg es mask).1).Inv := by
  obtain ⟨newEvents, hnw⟩ : ∃ newEvents, postDecide h.sys.events es mask = newEvents :=
    ⟨_, rfl⟩
  have hn := State.kEventPostInternal_eq cfg hinv.nodup es mask hnw
  rw [hnw]
  generalize (h.sys.kEventPostInternal cfg es mask).1 = next at hn ⊢
  have hw : h.sys.waitQ.filter (· ∉ next.waitQ) = h.sys.matched newEvents := by
    rw [hn]
    exact h.sys.filter_not_mem_release newEvents
  refine ⟨?_, fun thread => (hinv.sound thread).posted hn ?_, hinv.returns, fun post hmm => ?_⟩
  · rw [hn]
    exact hinv.nodup.filter _
  · simp only [History.posted, hw]
  · rcases List.mem_append.mp hmm with ho | hl
    · exact hinv.posts post ho
    · rw [List.mem_singleton.mp hl]
      simp only [PostRecord.cleared, hw]
      rw [hn, ← taken_eq_cleared]
      intro thread hm
      obtain ⟨call, hpc, ha, _⟩ := (hinv.sound thread).pended (State.mem_matched.mp hm).1
      exact ⟨call, by rw [State.pendedCall, hpc], ha⟩

theorem Inv.parked (hinv : h.Inv) : Parked (fun pc => ∃ call, pc = Pc.Pended call) h.sys.waitQ h.sys.pc := by
  refine ⟨hinv.nodup, fun thread hm => ?_⟩
  obtain ⟨call, hpc, _⟩ := (hinv.sound thread).pended hm
  exact ⟨call, hpc⟩

section

variable {h : History} (hinv : h.Inv) {thread : Tid}
include hinv

theorem Inv.waits_returned (hpc : h.sys.pc thread = .Running) (call : Call) (kept rv : UInt32) : Inv { h with
      sys := { h.sys with events := h.sys.events &&& kept }
      wokenBy := update h.wokenBy thread none
      returns := h.returns ++ [⟨call, none, rv⟩] } where
  nodup := hinv.nodup
  sound := by
    intro o
    by_cases ho : o = thread
    · subst ho
      refine ⟨fun hq => ?_, fun c' hp => ?_, fun c' ret v hw _ => ?_⟩
      · exact absurd hq (hinv.parked.not_mem o (by simp [hpc]))
      · cases hpc.symm.trans hp
      · cases hpc.symm.trans hw
    · exact (hinv.sound o).frame rfl id rfl rfl (update_of_ne ho _ _)
  returns := by
    intro r hm
    rcases List.mem_append.mp hm with hol | hl
    · exact hinv.returns r hol
    · rw [List.mem_singleton.mp hl]
      rintro _ ⟨⟩
  posts := hinv.posts

variable {call : Call}

theorem Inv.waits_pended (hpc : h.sys.pc thread = .Running) {kept : UInt32}
    (hne : call.events ≠ 0) (hm : ¬ call.asked.Met (h.sys.events &&& kept)) :
    Inv { h with
      sys := { h.sys with events := h.sys.events &&& kept }.pendCurr thread call
      wokenBy := update h.wokenBy thread none } where
  nodup := (hinv.parked.enqueue thread (by simp [hpc]) ⟨call, rfl⟩).nodup
  sound := by
    intro o
    by_cases ho : o = thread
    · subst ho
      refine ⟨fun _ => ⟨call, update_self .., update_self .., hne, hm⟩,
        fun _ _ => update_self .., fun c' ret v _ hv => ?_⟩
      have hn := (update_self o none h.wokenBy).symm.trans hv
      cases hn
    · refine (hinv.sound o).frame rfl (fun hmm => ?_) (update_of_ne ho _ _)
        (update_of_ne ho _ _) (update_of_ne ho _ _)
      simpa [State.pendCurr, ho] using hmm
  returns := hinv.returns
  posts := hinv.posts

theorem Inv.waits (hpc : h.sys.pc thread = .Running) (call : Call) : (h.waits thread call).Inv := by
  rcases h.sys.kEventWaitInternal_cases thread call with ⟨kept, rv, hw⟩ | ⟨kept, hne, hm, hw⟩
  · simp only [History.waits, hw]
    exact hinv.waits_returned hpc call kept rv
  · simp only [History.waits, hw, Option.map_none, Option.toList_none, List.append_nil]
    exact hinv.waits_pended hpc hne hm

theorem Inv.timeOut (hpc : h.sys.pc thread = .Pended call) : Inv { h with sys := h.sys.wakeThread EAGAIN thread } where
  nodup := hinv.nodup.erase thread
  sound := by
    intro o
    by_cases ho : o = thread
    · subst ho
      have hn := (hinv.sound o).fresh call hpc
      refine ⟨fun hq => ?_, fun _ _ => hn, fun c' ret v _ hv => ?_⟩
      · exact absurd rfl (hinv.nodup.mem_erase_iff.mp hq).1
      · cases hn.symm.trans hv
    · exact (hinv.sound o).frame (UInt32.and_self).symm List.mem_of_mem_erase rfl
        (update_of_ne ho _ _) rfl
  returns := hinv.returns
  posts := hinv.posts

theorem Inv.resumes {ret : Int} (hpc : h.sys.pc thread = .Woken call ret) : (h.resumes thread call ret).Inv where
  nodup := hinv.nodup
  sound := by
    intro o
    by_cases ho : o = thread
    · subst ho
      have hr : (h.resumes o call ret).sys.pc o = .Running :=
        update_self ..
      refine ⟨fun hq => ?_, fun c' hp => ?_, fun c' ret v hw _ => ?_⟩
      · obtain ⟨c', hpc', _⟩ := (hinv.sound o).pended hq
        cases hpc.symm.trans hpc'
      · cases hr.symm.trans hp
      · cases hr.symm.trans hw
    · exact (hinv.sound o).frame (UInt32.and_self).symm id rfl (update_of_ne ho _ _) rfl
  returns := by
    intro r hm
    rcases List.mem_append.mp hm with hol | hl
    · exact hinv.returns r hol
    · rw [List.mem_singleton.mp hl]
      intro new hby
      obtain ⟨hrt, he⟩ := (hinv.sound thread).woken call ret new hpc hby
      simp only [State.resume, hrt, if_true]
      exact he
  posts := hinv.posts

end

theorem Inv.step {next : History} (hinv : h.Inv) (hs : h.step cfg op = some next) : next.Inv := by
  rcases step_cases hs with ⟨es, mask, rfl⟩ | ⟨thread, call, hpc, rfl⟩ |
    ⟨thread, call, hpc, rfl⟩ | ⟨thread, call, ret, hpc, rfl⟩
  · exact hinv.posted cfg es mask
  · exact hinv.waits hpc call
  · exact hinv.timeOut hpc
  · exact hinv.resumes hpc

theorem no_lost_event (cfg : Config) (thread : Tid → Thread) (ops : List Op) :
    Throughout (step cfg) NoLostEvent (start thread) ops := by
  have hinv : Throughout (step cfg) Inv (start thread) ops :=
    throughout_of_step (fun _ _ _ hinv hs => hinv.step hs) (start_inv thread) ops
  exact hinv.mono fun _ hinv => hinv.noLostEvent

end History

end Gale.Event
