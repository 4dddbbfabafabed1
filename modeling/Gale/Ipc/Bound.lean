import Gale.Ipc

namespace Gale.Ipc

open Lib

def BackendCall.isSend : BackendCall → Bool
  | .Send _ => true
  | .SendCritical _ => true
  | _ => false

def State.SendsBound (device : Device) (s : State) (op : Op) : Prop :=
  ∀ asked, (perform device s op).asked = some asked → asked.isSend = true → s.life = .Bound

def Legal (len : Nat) : Prop := len % 2 ^ 32 ≠ 0 ∧ len % 2 ^ 32 ≤ MAX_MSG_LEN

-- Nobody sends on an endpoint whose registration has not been followed by a bound
-- report, or was refused. The shim itself refuses to send on one that was never
-- registered, or was deregistered.
def State.Careful (device : Device) (s : State) : Op → Prop
  | .Send len _ => ∀ backend, device.api = some backend → Legal len → backend.send = true →
      s.life = .Bound ∨ s.life = .Closed ∧ s.failed = false
  | .SendCritical len _ => ∀ backend, device.api = some backend → Legal len →
      backend.sendCritical = true → s.life = .Bound ∨ s.life = .Closed ∧ s.failed = false
  | _ => True

structure Tracks (device : Device) (s : State) : Prop where
  device_eq : ∀ inst, s.ept.instancePtr = some inst → inst = device
  isSome_iff : s.ept.instancePtr.isSome = true ↔ s.life ≠ .Closed ∨ s.failed = true

variable {device : Device} {s next : State} {op : Op}

theorem init_tracks (device : Device) : Tracks device init where
  device_eq := by
    intro inst hi
    cases hi
  isSome_iff := by decide

theorem galeIpcSendDecide_eq_zero_iff (registered : Bool) (len : Nat) : galeIpcSendDecide true registered
        (if registered then IPC_STATE_BOUND else IPC_STATE_CLOSED) len = 0 ↔
      registered = true ∧ len ≠ 0 ∧ len ≤ MAX_MSG_LEN := by
  cases registered <;>
    simp [galeIpcSendDecide, u32ToIpcState, IPC_STATE_BOUND, IPC_STATE_CLOSED, IPC_STATE_OPEN,
      sendDecide, OK, EINVAL, ENOENT]

variable (answer : Int)

theorem sendCall_asked (has : Backend → Bool) (asked : Nat → BackendCall) (ept : Ept) (len : Nat)
    (call : BackendCall) :
    (sendCall answer galeIpcSendDecide has asked (some ept) len).asked = some call ↔ Legal len ∧ call = asked len ∧
        ∃ inst be, ept.instancePtr = some inst ∧ inst.api = some be ∧ has be = true := by
  have hd := galeIpcSendDecide_eq_zero_iff ept.instancePtr.isSome (len % 2 ^ 32)
  simp only [sendCall, Option.bind_some, Option.isSome_some]
  generalize galeIpcSendDecide true _ _ (len % 2 ^ 32) = rc at hd ⊢
  by_cases hrc : rc = 0
  · obtain ⟨hs, hl⟩ := hd.mp hrc
    obtain ⟨inst, hi⟩ := Option.isSome_iff_exists.mp hs
    rw [if_neg (not_not.mpr hrc), hi]
    cases ha : inst.api with
    | none => simp [ha]
    | some be =>
      cases hh : has be
      · simp [ha, hh]
      · have hln : Legal len := hl
        simpa [ha, hh, hln] using eq_comm
  · rw [if_pos hrc]
    refine iff_of_false (by simp) ?_
    rintro ⟨hl, -, inst, -, hi, -⟩
    exact hrc (hd.mpr ⟨by rw [hi]; rfl, hl⟩)

theorem register_cases (inst : Option Device) (ept : Ept) (cfg : Bool) :
    (galeIpcServiceRegisterEndpoint answer inst (some ept) cfg).asked = none ∧
        (galeIpcServiceRegisterEndpoint answer inst (some ept) cfg).ept = some ept ∨
      inst.isSome = true ∧ galeIpcServiceRegisterEndpoint answer inst (some ept) cfg =
        ⟨answer, some ⟨inst⟩, some .RegisterEndpoint⟩ := by
  unfold galeIpcServiceRegisterEndpoint
  simp only
  split
  · exact .inl ⟨rfl, rfl⟩
  · cases inst with
    | none => exact .inl ⟨rfl, rfl⟩
    | some device =>
      split
      · split
        · exact .inl ⟨rfl, rfl⟩
        · exact .inr ⟨rfl, rfl⟩
      · exact .inl ⟨rfl, rfl⟩

theorem deregister_cases (ept : Ept) : (galeIpcServiceDeregisterEndpoint answer (some ept)).ret ≠ 0 ∧
        (galeIpcServiceDeregisterEndpoint answer (some ept)).ept = some ept ∨
      galeIpcServiceDeregisterEndpoint answer (some ept) = ⟨0, some ⟨none⟩, some .DeregisterEndpoint⟩ := by
  unfold galeIpcServiceDeregisterEndpoint
  simp only
  split
  · next hrc => exact .inl ⟨hrc, rfl⟩
  · split
    · split
      · exact .inl ⟨(by decide : EIO ≠ 0), rfl⟩
      · split
        · next ha => exact .inl ⟨ha, rfl⟩
        · exact .inr rfl
    · exact .inl ⟨(by decide : EIO ≠ 0), rfl⟩

theorem sendCall_ept (decide : Bool → Bool → Nat → Nat → Int) (has : Backend → Bool)
    (asked : Nat → BackendCall) (ept : Ept) (len : Nat) :
    (sendCall answer decide has asked (some ept) len).ept = some ept := by
  unfold sendCall
  simp only
  generalize decide _ _ _ _ = rc
  split
  · rfl
  · split
    · split <;> rfl
    · rfl

theorem Tracks.register (h : Tracks device s) {ptr : Option Device}
    (hd : ∀ o, ptr = some o → o = device) (inst cfg : Bool) (answer : Int) :
    Tracks device (s.after (galeIpcServiceRegisterEndpoint answer ptr (some s.ept) cfg)
      (.Register inst cfg answer)) := by
  rcases register_cases answer ptr s.ept cfg with ⟨hn, hsm⟩ | ⟨hs, heq⟩
  · simp only [State.after, hn, hsm, Option.getD_some]
    exact h
  · rw [heq]
    by_cases ha : answer = 0
    · simp only [State.after, if_pos ha, Option.getD_some]
      refine ⟨hd, iff_of_true hs (.inl ?_)⟩
      cases s.life <;> simp [galeIpcTransitionOpen, Except.toOption]
    · simp only [State.after, if_neg ha, Option.getD_some]
      exact ⟨hd, iff_of_true hs (.inr rfl)⟩

theorem Tracks.deregister (h : Tracks device s) (answer : Int) :
    Tracks device (s.after (galeIpcServiceDeregisterEndpoint answer (some s.ept)) (.Deregister answer)) := by
  rcases deregister_cases answer s.ept with ⟨hr, hs⟩ | heq
  · simp only [State.after, if_neg hr, hs, Option.getD_some]
    exact h
  · rw [heq]
    refine ⟨?_, by simp [State.after, galeIpcTransitionClose]⟩
    intro inst hi
    cases hi

theorem Tracks.bound (h : Tracks device s) (o : Outcome) : Tracks device (s.after o .Bound) := by
  refine ⟨h.device_eq, ?_⟩
  simp only [State.after, h.isSome_iff]
  cases s.life <;> simp [galeIpcTransitionBound, Except.toOption]

theorem Tracks.step (h : Tracks device s) (hs : step device s op = some next) : Tracks device next := by
  cases hs
  cases op with
  | Open inst answer | Close inst answer => exact h
  | Register inst cfg answer =>
    refine h.register ?_ inst cfg answer
    intro o ho
    cases inst <;> cases ho
    rfl
  | Bound => exact h.bound _
  | Deregister answer => exact h.deregister answer
  | Send len answer =>
    simp only [State.after, perform, galeIpcServiceSend, sendCall_ept]
    exact h
  | SendCritical len answer =>
    simp only [State.after, perform, galeIpcServiceSendCritical, sendCall_ept]
    exact h

variable {has : Backend → Bool} {call : BackendCall} {inst : Option Device}

theorem instanceCall_asked {answer : Int} {decide : Bool → Int} {asked : BackendCall}
    (h : (instanceCall answer decide has asked inst).2 = some call) : call = asked := by
  unfold instanceCall at h
  simp only at h
  generalize decide inst.isSome = rc at h
  split at h
  · cases h
  · split at h
    · cases h
    · split at h
      · cases h
      · exact (Option.some.inj h).symm

theorem register_asked {answer : Int} {ept : Ept} {cfg : Bool}
    (h : (galeIpcServiceRegisterEndpoint answer inst (some ept) cfg).asked = some call) :
    call = .RegisterEndpoint := by
  rcases register_cases answer inst ept cfg with ⟨hn, -⟩ | ⟨-, heq⟩
  · cases hn.symm.trans h
  · rw [heq] at h
    exact (Option.some.inj h).symm

theorem deregister_asked {answer : Int} {ept : Option Ept}
    (h : (galeIpcServiceDeregisterEndpoint answer ept).asked = some call) :
    call = .DeregisterEndpoint := by
  unfold galeIpcServiceDeregisterEndpoint at h
  simp only at h
  generalize galeIpcDeregisterDecide _ _ _ _ = rc at h
  split at h
  · cases h
  · split at h
    · split at h
      · cases h
      · split at h <;> exact (Option.some.inj h).symm
    · cases h

theorem Tracks.sendCall_asked (h : Tracks device s) {answer : Int}
    {asked : Nat → BackendCall} (hs : ∀ len, (asked len).isSend = true) (len : Nat) :
    (∀ call, (sendCall answer galeIpcSendDecide has asked (some s.ept) len).asked = some call →
        call.isSend = true → s.life = .Bound) ↔
      ∀ be, device.api = some be → Legal len → has be = true →
        s.life = .Bound ∨ s.life = .Closed ∧ s.failed = false := by
  simp only [Ipc.sendCall_asked]
  constructor
  · intro hb be ha hl hh
    cases hp : s.ept.instancePtr with
    | none =>
      have hcl := h.isSome_iff.not.mp (by rw [hp]; simp)
      simpa using Or.inr hcl
    | some inst =>
      have heq := h.device_eq inst hp
      subst heq
      exact .inl (hb (asked len) ⟨hl, rfl, inst, be, hp, ha, hh⟩ (hs len))
  · rintro hc call ⟨hl, -, inst, be, hp, ha, hh⟩ -
    rw [h.device_eq inst hp] at ha
    refine (hc be ha hl hh).resolve_right ?_
    rintro ⟨hcl, hf⟩
    rcases h.isSome_iff.mp (by rw [hp]; rfl) with ho | hr
    · exact ho hcl
    · cases hf.symm.trans hr

theorem sendsBound_iff_careful (h : Tracks device s) (op : Op) : s.SendsBound device op ↔ s.Careful device op := by
  cases op with
  | Send len answer | SendCritical len answer => exact h.sendCall_asked (fun _ => rfl) len
  | Open inst answer | Close inst answer =>
    refine iff_of_true (fun call hc hs => ?_) trivial
    rw [instanceCall_asked hc] at hs
    cases hs
  | Register inst cfg answer =>
    refine iff_of_true (fun call hc hs => ?_) trivial
    rw [register_asked hc] at hs
    cases hs
  | Bound => exact iff_of_true (fun call hc _ => nomatch hc) trivial
  | Deregister answer =>
    refine iff_of_true (fun call hc hs => ?_) trivial
    rw [deregister_asked hc] at hs
    cases hs

theorem backend_sends_bound_iff (device : Device) (ops : List Op) :
    Along (step device) (State.SendsBound device) init ops ↔
      Along (step device) (State.Careful device) init ops := by
  have ht : Throughout (step device) (Tracks device) init ops :=
    throughout_of_step (fun _ _ _ h hs => h.step hs) (init_tracks device) ops
  exact ht.along_iff fun _ op _ h _ => sendsBound_iff_careful h op

def fullBackend : Device := ⟨some ⟨true, true, true, true, true, true⟩⟩

-- A registration that the backend refuses leaves the pointer behind, and the next
-- message goes out. So does one sent before the other side is bound.
theorem sends_unbound :
    (∃ s, run (step fullBackend) init [.Register true true ENOMEM] = some s ∧ s.life = .Closed ∧
      (perform fullBackend s (.Send 8 0)).asked = some (.Send 8)) ∧
    ∃ s, run (step fullBackend) init [.Register true true 0] = some s ∧ s.life = .Open ∧
      (perform fullBackend s (.SendCritical 8 0)).asked = some (.SendCritical 8) :=
  ⟨⟨_, rfl, rfl, rfl⟩, ⟨_, rfl, rfl, rfl⟩⟩

end Gale.Ipc
