import Gale.Poll

namespace Gale.Poll

open Function Lib

def Pc.registered : Pc → Nat
  | .Outside => 0
  | .Registering _ registered _ => registered
  | .Pended registered _ => registered
  | .Clearing left _ => left

namespace State

variable {events : List Event} {s next : State}

def Waiting (s : State) : Prop := s.isPolling = true ∨ ∃ registered timeout, s.pc = .Pended registered timeout

def Armed (events : List Event) (s : State) (count : Nat) : Prop :=
  ∀ event < count, ∀ obj, events[event]? = some (.On obj) → event ∈ s.pollEvents obj

structure Registered (events : List Event) (s : State) : Prop where
  listed : ∀ obj, ∀ event ∈ s.pollEvents obj,
    events[event]? = some (.On obj) ∧ s.eventPoller event = true
  nodup : ∀ obj, (s.pollEvents obj).Nodup
  bound : ∀ obj, ∀ event ∈ s.pollEvents obj, event < s.pc.registered
  idle : s.isPolling = true → ∃ index registered timeout, s.pc = .Registering index registered timeout
  counted : ∀ index registered timeout, s.pc = .Registering index registered timeout →
    registered ≤ index ∧ (timeout.isNoWait = true → registered = 0)
  registering : ∀ index registered timeout, s.pc = .Registering index registered timeout →
    s.isPolling = true → timeout.isNoWait = false → registered = index ∧ s.Armed events index
  pended : ∀ registered timeout, s.pc = .Pended registered timeout → s.Armed events events.length

-- If one of the objects has something for the waiting thread, a producer is on its
-- way to tell it, unless the object is a pipe.
structure Inv (events : List Event) (s : State) : Prop extends Registered events s where
  promised : s.Waiting → ∀ obj, s.pollEvents obj ≠ [] → isAvailable obj (s.objects obj) ≠ none →
    (∃ address, obj = .Pipe address) ∨
      ∃ thread lock state, s.calls thread = some (.Notify obj lock state)

theorem start_inv (objects : (obj : Obj) → obj.State) : (start objects).Inv events where
  listed := by simp [start]
  nodup := by simp [start]
  bound := by simp [start]
  idle := by simp [start]
  counted := by simp [start]
  registering := by simp [start]
  pended := by simp [start]
  promised := by simp [start]

theorem Registered.congr (h : s.Registered events) (he : next.pollEvents = s.pollEvents)
    (hpl : next.eventPoller = s.eventPoller) (hp : next.isPolling = s.isPolling)
    (hpc : next.pc = s.pc) : next.Registered events where
  listed := by
    rw [he, hpl]
    exact h.listed
  nodup := by
    rw [he]
    exact h.nodup
  bound := by
    rw [he, hpc]
    exact h.bound
  idle := by
    rw [hp, hpc]
    exact h.idle
  counted := by
    rw [hpc]
    exact h.counted
  registering := by
    simp only [hpc, hp, Armed, he]
    exact h.registering
  pended := by
    simp only [hpc, Armed, he]
    exact h.pended

theorem Registered.listed_update (h : s.Registered events) {event : Nat}
    (ho : ∀ obj, event ∉ s.pollEvents obj) (poller : Bool) :
    ∀ obj, ∀ o ∈ s.pollEvents obj, events[o]? = some (.On obj) ∧ update s.eventPoller event poller o = true := by
  intro obj o hm
  have hne : o ≠ event := by
    rintro rfl
    exact ho obj hm
  rw [update_of_ne hne]
  exact h.listed obj o hm

theorem Registered.not_listed (h : s.Registered events) {event : Nat}
    (he : s.pc.registered ≤ event) (obj : Obj) : event ∉ s.pollEvents obj :=
  fun hm => Nat.not_lt.mpr he (h.bound obj event hm)

theorem Inv.enter (h : s.Inv events) (timeout : Timeout) (hpc : s.pc = .Outside) :
    Inv events { s with isPolling := true, pc := .Registering 0 0 timeout } := by
  have he (obj : Obj) : s.pollEvents obj = [] := by
    refine List.eq_nil_iff_forall_not_mem.mpr fun event hm => ?_
    have hb := h.bound obj event hm
    rw [hpc] at hb
    exact Nat.not_lt_zero _ hb
  refine ⟨⟨h.listed, h.nodup, ?_, fun _ => ⟨0, 0, timeout, rfl⟩, ?_, ?_, ?_⟩, ?_⟩
  · simp [he]
  · intro idx registered t' hp
    cases hp
    exact ⟨Nat.le_refl _, fun _ => rfl⟩
  · intro idx registered t' hp _ _
    cases hp
    exact ⟨rfl, fun event hlt => absurd hlt (Nat.not_lt_zero _)⟩
  · intro registered t' hp
    cases hp
  · intro _ obj hne
    exact absurd (he obj) hne

theorem registerEvent_pollEvents (s : State) (idx : Nat) (event : Event) (obj : Obj) :
    (s.registerEvent idx event).pollEvents obj =
      if event = .On obj then s.pollEvents obj ++ [idx] else s.pollEvents obj := by
  cases event with
  | Ignore => rfl
  | On o =>
    by_cases heq : o = obj
    · simp [registerEvent, heq]
    · simp [registerEvent, heq, update_of_ne (Ne.symm heq)]

theorem registerEvent_eventPoller (s : State) (idx : Nat) (event : Event) :
    (s.registerEvent idx event).eventPoller = update s.eventPoller idx true := by
  cases event <;> rfl

theorem registerEvent_frame (s : State) (idx : Nat) (event : Event) :
    (s.registerEvent idx event).objects = s.objects ∧ (s.registerEvent idx event).calls = s.calls ∧
      (s.registerEvent idx event).isPolling = s.isPolling := by
  cases event <;> exact ⟨rfl, rfl, rfl⟩

variable {i : Nat} {timeout : Timeout} {thread : Tid} {obj : Obj}

theorem Inv.registers (h : s.Inv events) {event : Event}
    (hpc : s.pc = .Registering i i timeout) (he : events[i]? = some event)
    (hp : s.isPolling = true) (hw : timeout.isNoWait = false)
    (hmt : isConditionMet s.objects event = none) :
    Inv events { s.registerEvent i event with
      pc := .Registering (i + 1) (i + 1) timeout } := by
  obtain ⟨_, har⟩ := h.registering i i timeout hpc hp hw
  obtain ⟨hob, hc, hk⟩ := s.registerEvent_frame i event
  have hot (obj : Obj) : i ∉ s.pollEvents obj :=
    h.not_listed (by rw [hpc]; exact Nat.le_refl _) obj
  have hm (obj : Obj) (o : Nat) : o ∈ (s.registerEvent i event).pollEvents obj ↔
      o ∈ s.pollEvents obj ∨ (event = .On obj ∧ o = i) := by
    rw [registerEvent_pollEvents]
    split
    · next heq => simp [heq]
    · next hne => simp [hne]
  refine ⟨⟨?_, ?_, ?_, fun _ => ⟨_, _, _, rfl⟩, ?_, ?_, ?_⟩, ?_⟩
  · intro obj o ho
    simp only [registerEvent_eventPoller]
    rcases (hm obj o).mp ho with hb | ⟨rfl, rfl⟩
    · exact h.listed_update hot true obj o hb
    · exact ⟨he, update_self ..⟩
  · intro obj
    simp only [registerEvent_pollEvents]
    split
    · rw [← List.concat_eq_append]
      exact (h.nodup obj).concat (hot obj)
    · exact h.nodup obj
  · intro obj o ho
    rcases (hm obj o).mp ho with hb | ⟨_, rfl⟩
    · have hlt := h.bound obj o hb
      rw [hpc] at hlt
      exact Nat.lt_succ_of_lt hlt
    · exact Nat.lt_succ_self _
  · intro i' r' t' hpc'
    cases hpc'
    exact ⟨Nat.le_refl _, fun hn => absurd hn (by simp [hw])⟩
  · intro i' r' t' hpc' _ _
    cases hpc'
    refine ⟨rfl, fun o hlt obj ho => (hm obj o).mpr ?_⟩
    rcases Nat.lt_succ_iff_lt_or_eq.mp hlt with hb | rfl
    · exact .inl (har o hb obj ho)
    · exact .inr ⟨Option.some.inj (he.symm.trans ho), rfl⟩
  · intro r' t' hpc'
    cases hpc'
  · intro _ obj hne ha
    simp only [hob, hc] at ha ⊢
    refine h.promised (.inl hp) obj (fun hnl => ?_) ha
    have heq : event = .On obj := by
      by_contra ho
      simp only [registerEvent_pollEvents, if_neg ho] at hne
      exact hne hnl
    subst heq
    exact ha hmt

theorem Inv.registerTurn (h : s.Inv events) {event : Event} {registered : Nat}
    (hpc : s.pc = .Registering i registered timeout) (he : events[i]? = some event) :
    Inv events (s.registerTurn event i registered timeout) := by
  obtain ⟨hle, hn⟩ := h.counted i registered timeout hpc
  have ho (obj : Obj) : i ∉ s.pollEvents obj :=
    h.not_listed (by rw [hpc]; exact hle) obj
  have hb (obj : Obj) (o : Nat) (hmm : o ∈ s.pollEvents obj) : o < registered := by
    have hlt := h.bound obj o hmm
    rwa [hpc] at hlt
  unfold State.registerTurn
  split
  · -- the condition holds: the call will return
    next st hm =>
      refine ⟨⟨h.listed_update ho false, h.nodup, hb, ?_, ?_, ?_, ?_⟩, ?_⟩
      · intro hp
        cases hp
      · intro i' r' t' hpc'
        cases hpc'
        exact ⟨Nat.le_succ_of_le hle, hn⟩
      · intro i' r' t' _ hp
        cases hp
      · intro r' t' hpc'
        cases hpc'
      · rintro (hp | ⟨_, _, hpn⟩)
        · cases hp
        · cases hpn
  · next hm =>
      split
      · -- the event is registered
        next hr =>
          have hw : timeout.isNoWait = false := Bool.eq_false_iff.mpr hr.1
          obtain ⟨rfl, _⟩ := h.registering i registered timeout hpc hr.2 hw
          exact h.registers hpc he hr.2 hw hm
      · next hs =>
          refine ⟨⟨h.listed, h.nodup, hb, fun _ => ⟨_, _, _, rfl⟩, ?_, ?_, ?_⟩, ?_⟩
          · intro i' r' t' hpc'
            cases hpc'
            exact ⟨Nat.le_succ_of_le hle, hn⟩
          · intro i' r' t' hpc' hp hw
            cases hpc'
            exact absurd ⟨by simp [hw], hp⟩ hs
          · intro r' t' hpc'
            cases hpc'
          · rintro (hp | ⟨_, _, hpn⟩)
            · exact h.promised (.inl hp)
            · cases hpn

theorem Inv.of_not_waiting (h : s.Registered events) (hw : ¬ s.Waiting) : s.Inv events :=
  ⟨h, fun hwt => absurd hwt hw⟩

theorem Inv.leaving (hl : ∀ obj, ∀ event ∈ s.pollEvents obj,
      events[event]? = some (.On obj) ∧ s.eventPoller event = true)
    (hn : ∀ obj, (s.pollEvents obj).Nodup)
    (hb : ∀ obj, ∀ event ∈ s.pollEvents obj, event < s.pc.registered)
    (hp : s.isPolling = false)
    (hpc : s.pc = .Outside ∨ ∃ left ret, s.pc = .Clearing left ret) : s.Inv events := by
  have hr (i registered : Nat) (timeout : Timeout) : s.pc ≠ .Registering i registered timeout := by
    intro heq
    rcases hpc with hpc | ⟨_, _, hpc⟩ <;> cases hpc.symm.trans heq
  have hpn (registered : Nat) (timeout : Timeout) : s.pc ≠ .Pended registered timeout := by
    intro heq
    rcases hpc with hpc | ⟨_, _, hpc⟩ <;> cases hpc.symm.trans heq
  refine Inv.of_not_waiting ⟨hl, hn, hb, ?_, ?_, ?_, ?_⟩ ?_
  · simp [hp]
  · exact fun i registered timeout heq => absurd heq (hr i registered timeout)
  · exact fun i registered timeout heq => absurd heq (hr i registered timeout)
  · exact fun registered timeout heq => absurd heq (hpn registered timeout)
  · rintro (hset | ⟨registered, timeout, heq⟩)
    · rw [hp] at hset
      cases hset
    · exact hpn registered timeout heq

theorem clearEventRegistration_pollEvents (s : State) (i : Nat) (event : Event) (obj : Obj) :
    (s.clearEventRegistration i event).pollEvents obj =
      if event = .On obj then (s.pollEvents obj).erase i else s.pollEvents obj := by
  cases event with
  | Ignore => rfl
  | On o =>
    by_cases heq : o = obj
    · simp [clearEventRegistration, heq]
    · simp [clearEventRegistration, heq, update_of_ne (Ne.symm heq)]

theorem clearEventRegistration_frame (s : State) (i : Nat) (event : Event) :
    (s.clearEventRegistration i event).eventPoller = update s.eventPoller i false ∧
      (s.clearEventRegistration i event).isPolling = s.isPolling := by
  cases event <;> exact ⟨rfl, rfl⟩

theorem Inv.clearTurn (h : s.Registered events) {left : Nat} (hl : s.pc.registered = left)
    (hp : s.isPolling = false) (ret : Int) : (s.clearTurn events left ret).Inv events := by
  cases left with
  | zero =>
    refine Inv.leaving h.listed h.nodup (fun obj event hm => ?_) hp (.inl rfl)
    have hbn := h.bound obj event hm
    rw [hl] at hbn
    exact absurd hbn (Nat.not_lt_zero _)
  | succ left =>
    have hls (obj : Obj) (o : Nat) (hm : o ∈ s.pollEvents obj) (hne : o ≠ left) : o < left := by
      have hbn := h.bound obj o hm
      omega
    simp only [State.clearTurn]
    split
    · next event he =>
        obtain ⟨hpl, hk⟩ := s.clearEventRegistration_frame left event
        have hm (obj : Obj) (o : Nat)
            (ho : o ∈ (s.clearEventRegistration left event).pollEvents obj) :
            o ∈ s.pollEvents obj ∧ o ≠ left := by
          rw [clearEventRegistration_pollEvents] at ho
          split at ho
          · exact ((h.nodup obj).mem_erase_iff.mp ho).symm
          · next hne =>
              refine ⟨ho, ?_⟩
              rintro rfl
              exact hne (Option.some.inj (he.symm.trans (h.listed obj o ho).1))
        refine Inv.leaving ?_ ?_ ?_ (hk.trans hp) (.inr ⟨left, ret, rfl⟩)
        · intro obj o ho
          obtain ⟨hb, hne⟩ := hm obj o ho
          simp only [hpl, update_of_ne hne]
          exact h.listed obj o hb
        · intro obj
          simp only [clearEventRegistration_pollEvents]
          split
          · exact (h.nodup obj).erase left
          · exact h.nodup obj
        · intro obj o ho
          obtain ⟨hb, hne⟩ := hm obj o ho
          exact hls obj o hb hne
    · next he =>
        refine Inv.leaving h.listed h.nodup (fun obj o ho => ?_) hp
          (.inr ⟨left, ret, rfl⟩)
        refine hls obj o ho ?_
        rintro rfl
        cases he.symm.trans (h.listed obj o ho).1

theorem Inv.pendTurn (h : s.Inv events) {registered : Nat}
    (hpc : s.pc = .Registering i registered timeout) (he : events[i]? = none) :
    (s.pendTurn events registered timeout).Inv events := by
  obtain ⟨_, hn⟩ := h.counted i registered timeout hpc
  have hr : s.pc.registered = registered := by rw [hpc]; rfl
  unfold State.pendTurn
  split
  · next hp =>
      exact Inv.clearTurn h.toRegistered hr (Bool.eq_false_iff.mpr hp) 0
  · next hp =>
      have hp : s.isPolling = true := by simpa using hp
      split
      · next hw =>
          refine Inv.leaving h.listed h.nodup (fun obj event hm => ?_) rfl (.inl rfl)
          have hb := h.bound obj event hm
          rw [hr, hn hw] at hb
          exact absurd hb (Nat.not_lt_zero _)
      · next hw =>
          have hw : timeout.isNoWait = false := Bool.eq_false_iff.mpr hw
          obtain ⟨rfl, ha⟩ := h.registering i registered timeout hpc hp hw
          refine ⟨⟨h.listed, h.nodup, ?_, ?_, ?_, ?_, ?_⟩, ?_⟩
          · intro obj event hm
            have hb := h.bound obj event hm
            rwa [hr] at hb
          · intro hs
            cases hs
          · intro i' r' t' hpc'
            cases hpc'
          · intro i' r' t' hpc'
            cases hpc'
          · intro r' t' _ event hlt
            refine ha event (Nat.lt_of_lt_of_le hlt ?_)
            exact List.getElem?_eq_none_iff.mp he
          · exact fun _ => h.promised (.inl hp)

theorem Inv.timeOut (h : s.Inv events) {registered : Nat} (hpc : s.pc = .Pended registered timeout) :
    Inv events { s with pc := .Clearing registered EAGAIN } := by
  have hp : s.isPolling = false := by
    refine Bool.eq_false_iff.mpr fun hs => ?_
    obtain ⟨_, _, _, hr⟩ := h.idle hs
    cases hpc.symm.trans hr
  refine Inv.leaving h.listed h.nodup (fun obj event hm => ?_) hp (.inr ⟨_, _, rfl⟩)
  have hb := h.bound obj event hm
  rwa [hpc] at hb

theorem signalPoller_frame (s : State) (st : PollState) :
    (s.signalPoller st).pollEvents = s.pollEvents ∧ (s.signalPoller st).eventPoller = s.eventPoller ∧
      (s.signalPoller st).objects = s.objects ∧ (s.signalPoller st).calls = s.calls := by
  unfold signalPoller
  split <;> exact ⟨rfl, rfl, rfl, rfl⟩

theorem signalPoller_pc (s : State) (st : PollState) : (s.signalPoller st).pc.registered = s.pc.registered ∧
      (∀ registered timeout, (s.signalPoller st).pc ≠ .Pended registered timeout) ∧
      ∀ i registered timeout, (s.signalPoller st).pc = .Registering i registered timeout →
        s.pc = .Registering i registered timeout := by
  unfold signalPoller
  split
  · next registered timeout hpc =>
      rw [hpc]
      exact ⟨rfl, fun _ _ heq => (by cases heq), fun _ _ _ heq => (by cases heq)⟩
  · next hpc => exact ⟨rfl, hpc, fun _ _ _ heq => heq⟩

theorem zHandleObjPollEvents_frame (s : State) (obj : Obj) (st : PollState) :
    (s.zHandleObjPollEvents obj st).objects = s.objects ∧ (s.zHandleObjPollEvents obj st).calls = s.calls := by
  unfold zHandleObjPollEvents
  split
  · exact ⟨rfl, rfl⟩
  · simp only [signalPollEvent, setEventReady]
    split
    · exact ⟨(signalPoller_frame _ st).2.2.1, (signalPoller_frame _ st).2.2.2⟩
    · exact ⟨rfl, rfl⟩

theorem Registered.zHandleObjPollEvents (h : s.Registered events) (obj : Obj) (st : PollState) :
    (s.pollEvents obj = [] ∧ s.zHandleObjPollEvents obj st = s) ∨
      ((s.zHandleObjPollEvents obj st).Registered events ∧ ¬ (s.zHandleObjPollEvents obj st).Waiting) := by
  cases hl : s.pollEvents obj with
  | nil => exact .inl ⟨rfl, by simp [State.zHandleObjPollEvents, hl]⟩
  | cons event rest =>
    right
    have hev : event ∈ s.pollEvents obj := by
      rw [hl]
      exact List.mem_cons_self
    obtain ⟨hon, hpr⟩ := h.listed obj event hev
    have hn := h.nodup obj
    rw [hl, List.nodup_cons] at hn
    have hm (o : Obj) (i : Nat)
        (hi : i ∈ update s.pollEvents obj rest o) :
        i ∈ s.pollEvents o ∧ i ≠ event := by
      by_cases heq : o = obj
      · subst heq
        rw [update_self] at hi
        refine ⟨by rw [hl]; exact List.mem_cons_of_mem _ hi, ?_⟩
        rintro rfl
        exact hn.1 hi
      · rw [update_of_ne heq] at hi
        refine ⟨hi, ?_⟩
        rintro rfl
        have hbt := hon.symm.trans (h.listed o i hi).1
        cases hbt
        exact heq rfl
    simp only [State.zHandleObjPollEvents, hl, signalPollEvent, hpr, if_true, setEventReady]
    obtain ⟨he, hpl, _, _⟩ :=
      signalPoller_frame { s with pollEvents := update s.pollEvents obj rest } st
    obtain ⟨hrg, hp, hr⟩ :=
      signalPoller_pc { s with pollEvents := update s.pollEvents obj rest } st
    refine ⟨⟨?_, ?_, ?_, ?_, ?_, ?_, ?_⟩, ?_⟩
    · intro o i hi
      simp only [he, hpl] at hi ⊢
      obtain ⟨hb, hne⟩ := hm o i hi
      rw [update_of_ne hne]
      exact h.listed o i hb
    · intro o
      simp only [he]
      by_cases heq : o = obj
      · rw [heq, update_self]
        exact hn.2
      · rw [update_of_ne heq]
        exact h.nodup o
    · intro o i hi
      simp only [he, hrg] at hi ⊢
      exact h.bound o i (hm o i hi).1
    · intro hs
      cases hs
    · intro i registered timeout hpc
      exact h.counted i registered timeout (hr i registered timeout hpc)
    · intro i registered timeout _ hs
      cases hs
    · intro registered timeout hpc
      exact absurd hpc (hp registered timeout)
    · rintro (hs | ⟨registered, timeout, hpc⟩)
      · cases hs
      · exact hp registered timeout hpc

theorem Inv.calls_update (h : s.Inv events) (hc : ∀ obj lock st, s.calls thread ≠ some (.Notify obj lock st))
    (phase : Option Phase) (held : Lock → Bool) :
    Inv events { s with held, calls := update s.calls thread phase } := by
  refine ⟨h.toRegistered.congr rfl rfl rfl rfl, fun hw obj hne ha => ?_⟩
  refine (h.promised hw obj hne ha).imp_right ?_
  rintro ⟨o, lock, st, ho⟩
  have ht : o ≠ thread := by
    rintro rfl
    exact hc obj lock st ho
  exact ⟨o, lock, st, (update_of_ne ht _ _).trans ho⟩

theorem setObject_objects_of_ne {other : Obj} (hne : other ≠ obj) (ob : obj.State) :
    (s.setObject obj ob).objects other = s.objects other := update_of_ne hne _ _

section

variable (h : s.Inv events)
include h

theorem Inv.change (hc : s.calls thread = none) (obj : Obj) (lock : Lock) (st : PollState) (ob : obj.State) :
    (s.change thread obj lock st ob).Inv events := by
  refine ⟨h.toRegistered.congr rfl rfl rfl rfl, fun hw o hne ha => ?_⟩
  by_cases heq : o = obj
  · subst heq
    exact .inr ⟨thread, lock, st, update_self ..⟩
  · simp only [State.change] at ha
    rw [setObject_objects_of_ne heq] at ha
    refine (h.promised hw o hne ha).imp_right ?_
    rintro ⟨teller, lock', state', ht⟩
    have hth : teller ≠ thread := by
      rintro rfl
      cases hc.symm.trans ht
    exact ⟨teller, lock', state', (update_of_ne hth _ _).trans ht⟩

theorem Inv.notify {lock : Lock} {st : PollState}
    (hc : s.calls thread = some (.Notify obj lock st)) (held : Lock → Bool) :
    Inv events { s.zHandleObjPollEvents obj st with
      held
      calls := update s.calls thread none } := by
  rcases h.toRegistered.zHandleObjPollEvents obj st with ⟨hn, hs⟩ | ⟨hr, ho⟩
  · rw [hs]
    refine ⟨h.toRegistered.congr rfl rfl rfl rfl, fun hw o hne ha => ?_⟩
    refine (h.promised hw o hne ha).imp_right ?_
    rintro ⟨teller, lock', state', ht⟩
    have hth : teller ≠ thread := by
      rintro rfl
      cases hc.symm.trans ht
      exact hne hn
    exact ⟨teller, lock', state', (update_of_ne hth _ _).trans ht⟩
  · exact Inv.of_not_waiting (hr.congr rfl rfl rfl rfl) ho

theorem Inv.announce (obj : Obj) (st : PollState) : (s.zHandleObjPollEvents obj st).Inv events := by
  rcases h.toRegistered.zHandleObjPollEvents obj st with ⟨_, hs⟩ | ⟨hr, ho⟩
  · rw [hs]
    exact h
  · exact Inv.of_not_waiting hr ho

theorem Inv.setObject (ob : obj.State) (ho : s.pollEvents obj = [] ∨ ∃ addr, obj = .Pipe addr) :
    (s.setObject obj ob).Inv events := by
  refine ⟨h.toRegistered.congr rfl rfl rfl rfl, fun hw o hne ha => ?_⟩
  by_cases heq : o = obj
  · subst heq
    exact .inl (ho.resolve_left hne)
  · rw [setObject_objects_of_ne heq] at ha
    exact h.promised hw o hne ha

theorem Inv.signalRaise (addr : Nat) (result : Int) : (s.kPollSignalRaise addr result).Inv events := by
  unfold kPollSignalRaise
  dsimp only
  split
  · next he =>
      have hl : s.pollEvents (.Signal addr) ≠ [] := by simpa [signalRaiseDecide] using he
      have hr : (s.setObject (.Signal addr) (⟨1, result⟩ : PollSignal)).Registered events :=
        h.toRegistered.congr rfl rfl rfl rfl
      rcases hr.zHandleObjPollEvents (.Signal addr) .Signaled with
        ⟨hnil, _⟩ | ⟨hafter, hout⟩
      · exact absurd hnil hl
      · exact Inv.of_not_waiting hafter hout
  · next he =>
      have hl : s.pollEvents (.Signal addr) = [] := by simpa [signalRaiseDecide] using he
      exact h.setObject _ (.inl hl)

theorem Inv.pipeStore {addr left : Nat} (hc : s.calls thread = some (.Store addr left timeout)) :
    (s.pipeStore thread addr left timeout).Inv events := by
  have hno (obj : Obj) (lock : Lock) (st : PollState) : s.calls thread ≠ some (.Notify obj lock st) := by simp [hc]
  simp only [State.pipeStore]
  split
  · exact (h.setObject _ (.inr ⟨addr, rfl⟩)).calls_update hno none _
  · exact (h.setObject _ (.inr ⟨addr, rfl⟩)).calls_update hno _ _

theorem Inv.kPipeWrite (hc : s.calls thread = none) (addr len : Nat) (timeout : Timeout) :
    (s.kPipeWrite thread addr len timeout).Inv events := by
  have hno (obj : Obj) (lock : Lock) (st : PollState) : s.calls thread ≠ some (.Notify obj lock st) := by simp [hc]
  simp only [State.kPipeWrite]
  split
  · exact h.calls_update hno _ _
  · exact h.calls_update hno _ _
  · exact h
  · exact h

theorem Inv.kMsgqPut (hc : s.calls thread = none) (addr : Nat) (timeout : Timeout) :
    (s.kMsgqPut thread addr timeout).Inv events := by
  simp only [State.kMsgqPut]
  split
  · exact h.change hc _ _ _ _
  · exact h.calls_update (by simp [hc]) _ _
  · exact h
  · exact h

end

theorem mayCall_calls {lock : Lock} (h : s.mayCall thread lock = true) : s.calls thread = none := by
  simp only [mayCall, Bool.and_eq_true, decide_eq_true_eq] at h
  exact h.1

end State

variable {events : List Event} {s : State}

open State in
theorem step_inv {next : State} {op : Op} (h : s.Inv events) (hs : step events s op = some next) :
    next.Inv events := by
  cases op with
  | Enter timeout =>
    simp only [step] at hs
    split at hs
    · next hpc =>
        cases hs
        exact h.enter timeout hpc
    · cases hs
  | PollTurn =>
    simp only [step] at hs
    split at hs
    · next idx registered timeout hpc =>
        split at hs
        · next event he =>
            cases hs
            exact h.registerTurn hpc he
        · next hen =>
            cases hs
            exact h.pendTurn hpc hen
    · next left ret hpc =>
        cases hs
        have hp : s.isPolling = false := by
          refine Bool.eq_false_iff.mpr fun hst => ?_
          obtain ⟨_, _, _, hr⟩ := h.idle hst
          cases hpc.symm.trans hr
        exact Inv.clearTurn h.toRegistered (by rw [hpc]; rfl) hp ret
    · cases hs
  | PollTimeOut =>
    simp only [step] at hs
    split at hs
    · next registered timeout hpc =>
        split at hs
        · cases hs
          exact h.timeOut hpc
        · cases hs
    · cases hs
  | SemGive thread addr =>
    obtain ⟨hm, heq⟩ := Option.ite_none_right_eq_some.mp hs
    cases heq
    exact h.change (mayCall_calls hm) _ _ _ _
  | QueueInsert thread addr allocFails =>
    obtain ⟨hm, heq⟩ := Option.ite_none_right_eq_some.mp hs
    cases heq
    simp only [queueInsert]
    split
    · exact h
    · exact h.change (mayCall_calls hm) _ _ _ _
  | QueueAppendList thread addr count =>
    obtain ⟨hm, heq⟩ := Option.ite_none_right_eq_some.mp hs
    cases heq
    simp only [kQueueAppendList]
    split
    · exact h
    · exact h.change (mayCall_calls hm) _ _ _ _
  | SignalRaise addr result =>
    cases hs
    exact h.signalRaise addr result
  | MsgqPut thread addr timeout =>
    obtain ⟨hm, heq⟩ := Option.ite_none_right_eq_some.mp hs
    cases heq
    exact h.kMsgqPut (mayCall_calls hm) addr timeout
  | PipeWrite thread addr len timeout =>
    obtain ⟨hm, heq⟩ := Option.ite_none_right_eq_some.mp hs
    cases heq
    exact h.kPipeWrite (mayCall_calls hm) addr len timeout
  | Continue thread =>
    simp only [step] at hs
    split at hs
    · next obj lock st hc =>
        cases hs
        exact h.notify hc _
    · next addr left timeout hc =>
        cases hs
        have hcl := (s.zHandleObjPollEvents_frame (.Pipe addr) .PipeDataAvailable).2
        rw [← hcl]
        refine (h.announce _ _).calls_update ?_ _ _
        simp [hcl, hc]
    · next addr left timeout hc =>
        cases hs
        exact h.pipeStore hc
    · cases hs
  | GiveUp thread =>
    simp only [step] at hs
    split at hs
    · next timeout hc =>
        split at hs
        · cases hs
          exact h.calls_update (by simp [hc]) none s.held
        · cases hs
    · cases hs

namespace State

variable {es : List Event} {s next : State} {sizes : Nat → Nat}

def PipesFit (sizes : Nat → Nat) (objects : (obj : Obj) → obj.State) : Prop :=
  ∀ address, ∃ used flags, objects (.Pipe address) = (⟨used, sizes address, flags⟩ : PipeBuffer) ∧
    used ≤ sizes address

theorem registerTurn_objects (s : State) (event : Event) (idx registered : Nat)
    (timeout : Timeout) : (s.registerTurn event idx registered timeout).objects = s.objects := by
  unfold registerTurn
  split
  · rfl
  · split
    · exact (s.registerEvent_frame idx event).1
    · rfl

theorem clearTurn_objects (s : State) (left : Nat) (ret : Int) : (s.clearTurn es left ret).objects = s.objects := by
  unfold clearTurn
  split
  · rfl
  · split
    · next event _ => cases event <;> rfl
    · rfl

theorem pendTurn_objects (s : State) (registered : Nat) (timeout : Timeout) :
    (s.pendTurn es registered timeout).objects = s.objects := by
  unfold pendTurn
  split
  · exact s.clearTurn_objects registered 0
  · dsimp only
    split <;> rfl

theorem PipesFit.of_pipe_eq {objects other : (obj : Obj) → obj.State} (h : PipesFit sizes objects)
    (heq : ∀ addr, other (.Pipe addr) = objects (.Pipe addr)) : PipesFit sizes other := by
  intro addr
  rw [heq addr]
  exact h addr

theorem PipesFit.setObject (h : PipesFit sizes s.objects) {obj : Obj} (ob : obj.State)
    (ho : ∀ addr, obj ≠ .Pipe addr) : PipesFit sizes (s.setObject obj ob).objects :=
  h.of_pipe_eq fun addr => setObject_objects_of_ne (ho addr).symm ob

theorem PipesFit.pipeStore (h : PipesFit sizes s.objects) (thread : Tid) (address left : Nat)
    (timeout : Timeout) : PipesFit sizes (s.pipeStore thread address left timeout).objects := by
  obtain ⟨used, fl, hp, hf⟩ := h address
  have hs : (s.pipeStore thread address left timeout).objects = (s.setObject (.Pipe address)
        (⟨used + min left (sizes address - used), sizes address, fl⟩ : PipeBuffer)).objects := by
    simp only [State.pipeStore, hp]
    split <;> rfl
  rw [hs]
  intro o
  by_cases heq : o = address
  · subst heq
    exact ⟨_, fl, update_self .., by omega⟩
  · have hne : Obj.Pipe o ≠ .Pipe address := by simpa using heq
    rw [setObject_objects_of_ne hne]
    exact h o

end State

open State in
theorem step_pipesFit {next : State} {op : Op} {sizes : Nat → Nat} (h : PipesFit sizes s.objects)
    (hs : step events s op = some next) :
    PipesFit sizes next.objects := by
  cases op with
  | Enter timeout =>
    simp only [step] at hs
    split at hs <;> cases hs
    exact h
  | PollTurn =>
    simp only [step] at hs
    split at hs
    · split at hs <;> cases hs
      · rwa [registerTurn_objects]
      · rwa [pendTurn_objects]
    · cases hs
      rwa [clearTurn_objects]
    · cases hs
  | PollTimeOut | GiveUp thread =>
    simp only [step] at hs
    split at hs
    · split at hs <;> cases hs
      exact h
    · cases hs
  | SemGive thread addr =>
    obtain ⟨_, heq⟩ := Option.ite_none_right_eq_some.mp hs
    cases heq
    exact h.setObject _ (by simp)
  | QueueInsert thread addr allocFails =>
    obtain ⟨_, heq⟩ := Option.ite_none_right_eq_some.mp hs
    cases heq
    simp only [queueInsert]
    split
    · exact h
    · exact h.setObject _ (by simp)
  | QueueAppendList thread addr count =>
    obtain ⟨_, heq⟩ := Option.ite_none_right_eq_some.mp hs
    cases heq
    simp only [kQueueAppendList]
    split
    · exact h
    · exact h.setObject _ (by simp)
  | SignalRaise addr result =>
    cases hs
    unfold kPollSignalRaise
    dsimp only
    split
    · rw [(zHandleObjPollEvents_frame _ _ _).1]
      exact h.setObject _ (by simp)
    · exact h.setObject _ (by simp)
  | MsgqPut thread addr timeout =>
    obtain ⟨_, heq⟩ := Option.ite_none_right_eq_some.mp hs
    cases heq
    simp only [kMsgqPut]
    split
    · exact h.setObject _ (by simp)
    · exact h
    · exact h
    · exact h
  | PipeWrite thread addr len timeout =>
    obtain ⟨_, heq⟩ := Option.ite_none_right_eq_some.mp hs
    cases heq
    simp only [kPipeWrite]
    split <;> exact h
  | Continue thread =>
    simp only [step] at hs
    split at hs
    · cases hs
      simpa only [(zHandleObjPollEvents_frame _ _ _).1] using h
    · cases hs
      simpa only [(zHandleObjPollEvents_frame _ _ _).1] using h
    · cases hs
      exact h.pipeStore _ _ _ _
    · cases hs

-- The thread does not sleep beside something it asked for, once every producer has
-- returned.
def NotMissed (events : List Event) (s : State) : Prop :=
  (∃ registered timeout, s.pc = .Pended registered timeout) → (∀ thread, s.calls thread = none) →
    ∀ event ∈ events, isConditionMet s.objects event = none

theorem notMissed_of_inv {sizes : Nat → Nat} (h : s.Inv events) (hft : State.PipesFit sizes s.objects)
    (he : ∀ addr, .On (.Pipe addr) ∈ events → sizes addr = 0) :
    NotMissed events s := by
  rintro ⟨registered, timeout, hpc⟩ hc event hevent
  cases event with
  | Ignore => rfl
  | On obj =>
    by_contra havailable
    obtain ⟨idx, hlt, hi⟩ := List.mem_iff_getElem.mp hevent
    have hl := h.pended registered timeout hpc idx hlt obj
      (by rw [List.getElem?_eq_getElem hlt, hi])
    rcases h.promised (.inr ⟨registered, timeout, hpc⟩) obj (List.ne_nil_of_mem hl)
        havailable with ⟨addr, rfl⟩ | ⟨thread, lock, st, hcl⟩
    · obtain ⟨used, fl, hp, hf⟩ := hft addr
      rw [he addr hevent] at hf
      have hz : used = 0 := Nat.le_zero.mp hf
      refine havailable ?_
      simp [isConditionMet, hp, isAvailable, hz]
    · cases (hc thread).symm.trans hcl

end Gale.Poll
