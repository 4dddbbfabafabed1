import Gale.Pipe.Closed

namespace Gale.Pipe

open Lib

namespace State

-- The wait queues hold the calls that are pended, each once, and waiting counts
-- the calls inside wait_for.
structure Inv (s : State) : Prop where
  data_nodup : s.data.Nodup
  mem_data : ∀ thread, thread ∈ s.data ↔ ∃ c, s.calls thread = some (.Read c, .Pended)
  space_nodup : s.space.Nodup
  mem_space : ∀ thread, thread ∈ s.space ↔ ∃ c, s.calls thread = some (.Write c, .Pended)
  inside : ∃ inside : Finset Tid,
    (∀ thread, thread ∈ inside ↔ s.calls thread ≠ none) ∧ s.waiting = inside.card
  wants : ∀ thread c, s.calls thread = some (.Read c, .Pended) → c.got.length < c.len
  result : ∀ thread call rc, s.calls thread = some (call, .Woken rc) → rc = 0 ∨ rc = EAGAIN
  resetting : s.flags.reset = true → 0 < s.waiting

theorem init_inv : init.Inv where
  data_nodup := List.nodup_nil
  mem_data := by simp [init]
  space_nodup := List.nodup_nil
  mem_space := by simp [init]
  inside := ⟨∅, by simp [init], rfl⟩
  wants := by simp [init]
  result := by simp [init]
  resetting := by simp [init]

variable {s next : State}

theorem Inv.congr (h : s.Inv) (hc : next.calls = s.calls) (hd : next.data = s.data)
    (hs : next.space = s.space) (hw : next.waiting = s.waiting)
    (hr : next.flags.reset = true → s.flags.reset = true ∨ 0 < s.waiting) : next.Inv where
  data_nodup := hd ▸ h.data_nodup
  mem_data := by
    rw [hd, hc]
    exact h.mem_data
  space_nodup := hs ▸ h.space_nodup
  mem_space := by
    rw [hs, hc]
    exact h.mem_space
  inside := by
    rw [hc, hw]
    exact h.inside
  wants := by
    rw [hc]
    exact h.wants
  result := by
    rw [hc]
    exact h.result
  resetting := by
    intro hf
    rw [hw]
    exact (hr hf).elim h.resetting id

variable {thread reader : Tid} {calls : Tid → Option (Call × Status)} {rc : Int} {queue : List Tid}

theorem Inv.waiting_pos (h : s.Inv) (hcl : s.calls thread ≠ none) : 0 < s.waiting := by
  obtain ⟨ins, hm, hc⟩ := h.inside
  rw [hc]
  exact Finset.card_pos.mpr ⟨thread, (hm thread).mpr hcl⟩

theorem Inv.waiting_of_reader (h : s.Inv) (hd : s.data ≠ []) : s.waiting ≠ 0 := by
  obtain ⟨reader, hm⟩ := List.exists_mem_of_ne_nil _ hd
  obtain ⟨c, hc⟩ := (h.mem_data reader).mp hm
  have hi : s.calls reader ≠ none := by simp [hc]
  exact Nat.pos_iff_ne_zero.mp (h.waiting_pos hi)

variable {call : Call} {c : ReadCall}

theorem wake_eq_pended : wake calls rc queue thread = some (call, .Pended) ↔
      thread ∉ queue ∧ calls thread = some (call, .Pended) := by
  unfold wake
  split
  · next hm => simp [hm]
  · next hm => simp [hm]

theorem wake_eq_none : wake calls rc queue thread = none ↔ calls thread = none := by
  unfold wake
  split
  · simp
  · rfl

theorem wake_eq_woken {rc' : Int} (h : wake calls rc queue thread = some (call, .Woken rc')) :
    rc' = rc ∨ calls thread = some (call, .Woken rc') := by
  unfold wake at h
  split at h
  · obtain ⟨_, _, heq⟩ := Option.map_eq_some_iff.mp h
    cases heq
    exact .inl rfl
  · exact .inr h

theorem Inv.wake (h : s.Inv) {data space : List Tid} (hrc : rc = 0 ∨ rc = EAGAIN)
    (hd : data.Nodup ∧ ∀ thread, thread ∈ data ↔ thread ∉ queue ∧ thread ∈ s.data)
    (hs : space.Nodup ∧ ∀ thread, thread ∈ space ↔ thread ∉ queue ∧ thread ∈ s.space) :
    Inv { s with data, space, calls := wake s.calls rc queue } where
  data_nodup := hd.1
  mem_data := by
    intro thread
    simp [hd.2, h.mem_data, wake_eq_pended]
  space_nodup := hs.1
  mem_space := by
    intro thread
    simp [hs.2, h.mem_space, wake_eq_pended]
  inside := by
    obtain ⟨inside, hm, hcr⟩ := h.inside
    exact ⟨inside, fun thread => by simp only [hm, ne_eq, wake_eq_none], hcr⟩
  wants := fun thread c hc => h.wants thread c (wake_eq_pended.mp hc).2
  result := by
    intro thread call rc' hc
    rcases wake_eq_woken hc with rfl | hb
    · exact hrc
    · exact h.result thread call rc' hb
  resetting := h.resetting

theorem Inv.not_both (h : s.Inv) (hd : thread ∈ s.data) : thread ∉ s.space := by
  intro hs
  obtain ⟨c, hr⟩ := (h.mem_data thread).mp hd
  obtain ⟨c', hw⟩ := (h.mem_space thread).mp hs
  cases hr.symm.trans hw

theorem Inv.wakeAllReaders (h : s.Inv) : s.wakeAllReaders.Inv := by
  refine h.wake (.inl rfl) ⟨List.nodup_nil, fun thread => ?_⟩ ⟨h.space_nodup, fun thread => ?_⟩
  · simp
  · exact ⟨fun hs => ⟨fun hd => h.not_both hd hs, hs⟩, fun hs => hs.2⟩

theorem Inv.wakeAllWriters (h : s.Inv) : s.wakeAllWriters.Inv := by
  refine h.wake (.inl rfl) ⟨h.data_nodup, fun thread => ?_⟩ ⟨List.nodup_nil, fun thread => ?_⟩
  · exact ⟨fun hd => ⟨h.not_both hd, hd⟩, fun hd => hd.2⟩
  · simp

theorem Inv.timeOut (h : s.Inv) (thread : Tid) : (s.timeOut thread).Inv := by
  refine h.wake (.inr rfl) ⟨h.data_nodup.erase thread, fun o => ?_⟩
    ⟨h.space_nodup.erase thread, fun o => ?_⟩
  · rw [h.data_nodup.mem_erase_iff, List.mem_singleton]
  · rw [h.space_nodup.mem_erase_iff, List.mem_singleton]

theorem Inv.update (h : s.Inv) {call : Option (Call × Status)} {data space : List Tid}
    {waiting : Nat} (hd : data.Nodup ∧ ∀ o, o ∈ data ↔
      if o = thread then ∃ c, call = some (.Read c, .Pended) else o ∈ s.data)
    (hs : space.Nodup ∧ ∀ o, o ∈ space ↔
      if o = thread then ∃ c, call = some (.Write c, .Pended) else o ∈ s.space)
    (hw : waiting + (if s.calls thread = none then 0 else 1) = s.waiting + (if call = none then 0 else 1))
    (hwn : ∀ c, call = some (.Read c, .Pended) → c.got.length < c.len)
    (hr : ∀ c rc, call = some (c, .Woken rc) → rc = 0 ∨ rc = EAGAIN)
    (hrs : s.flags.reset = true → 0 < waiting) :
    Inv { s with data, space, waiting, calls := Function.update s.calls thread call } where
  data_nodup := hd.1
  mem_data := by
    intro o
    simp only [hd.2, Function.update_apply]
    split
    · rfl
    · exact h.mem_data o
  space_nodup := hs.1
  mem_space := by
    intro o
    simp only [hs.2, Function.update_apply]
    split
    · rfl
    · exact h.mem_space o
  inside := by
    obtain ⟨inside, hm, hcr⟩ := h.inside
    by_cases hn : call = none
    · refine ⟨inside.erase thread, fun o => ?_, ?_⟩
      · simp only [Finset.mem_erase, hm, Function.update_apply, hn]
        split <;> simp [*]
      · by_cases ho : s.calls thread = none
        · rw [Finset.erase_eq_of_notMem (by simp [hm, ho])]
          simp only [hn, ho, if_true] at hw
          simp only
          omega
        · rw [Finset.card_erase_of_mem ((hm thread).mpr ho)]
          simp only [hn, ho, if_true, if_false] at hw
          simp only
          omega
    · refine ⟨insert thread inside, fun o => ?_, ?_⟩
      · simp only [Finset.mem_insert, hm, Function.update_apply]
        split <;> simp [*]
      · by_cases ho : s.calls thread = none
        · rw [Finset.card_insert_of_notMem (by simp [hm, ho])]
          simp only [hn, ho, if_true, if_false] at hw
          simp only
          omega
        · rw [Finset.insert_eq_of_mem ((hm thread).mpr ho)]
          simp only [hn, ho, if_false] at hw
          simp only
          omega
  wants := by
    intro o c hc
    simp only [Function.update_apply] at hc
    split at hc
    · exact hwn c hc
    · exact h.wants o c hc
  result := by
    intro o c rc hc
    simp only [Function.update_apply] at hc
    split at hc
    · exact hr c rc hc
    · exact h.result o c rc hc
  resetting := hrs

theorem Inv.waitForData (h : s.Inv) (expired : Bool) (hn : s.calls thread = none) (hw : c.got.length < c.len) :
    (s.waitForData thread c expired).Inv := by
  simp only [State.waitForData]
  split
  · exact h.congr rfl rfl rfl rfl .inl
  · have hd : thread ∉ s.data := by simp [h.mem_data, hn]
    have hs : thread ∉ s.space := by simp [h.mem_space, hn]
    refine Inv.update (s := { s with log := s.log ++ [Entry.WaitFor thread] })
      (h.congr rfl rfl rfl rfl .inl) ⟨?_, fun o => ?_⟩ ⟨h.space_nodup, fun o => ?_⟩ ?_ ?_ ?_ ?_
    · rw [← List.concat_eq_append]
      exact h.data_nodup.concat hd
    · by_cases heq : o = thread <;> simp [heq]
    · by_cases heq : o = thread <;> simp [heq, hs]
    · simp [hn]
    · intro c' hc
      cases hc
      exact hw
    · intro c' rc hc
      cases hc
    · intro _
      omega

theorem Inv.waitForSpace (h : s.Inv) {c : WriteCall} (expired : Bool)
    (hn : s.calls thread = none) : (s.waitForSpace thread c expired).Inv := by
  simp only [State.waitForSpace]
  split
  · exact h.congr rfl rfl rfl rfl .inl
  · have hd : thread ∉ s.data := by simp [h.mem_data, hn]
    have hs : thread ∉ s.space := by simp [h.mem_space, hn]
    refine Inv.update (s := { s with log := s.log ++ [Entry.WaitFor thread] })
      (h.congr rfl rfl rfl rfl .inl) ⟨h.data_nodup, fun o => ?_⟩ ⟨?_, fun o => ?_⟩ ?_ ?_ ?_ ?_
    · by_cases heq : o = thread <;> simp [heq, hd]
    · rw [← List.concat_eq_append]
      exact h.space_nodup.concat hs
    · by_cases heq : o = thread <;> simp [heq]
    · simp [hn]
    · intro c' hc
      cases hc
    · intro c' rc hc
      cases hc
    · intro _
      omega

def copies (policy : Policy Tid) : Nat → State → List UInt8 → List (Tid × List UInt8)
  | 0, _, _ => []
  | fuel + 1, s, bytes =>
    match policy.best s.data with
    | none => []
    | some reader =>
      match s.calls reader with
      | some (.Read c, _) =>
        let copySize := min bytes.length (c.len - c.got.length)
        let c := { c with got := c.got ++ bytes.take copySize }
        let rest := bytes.drop copySize
        if c.got.length < c.len then [(reader, bytes.take copySize)]
        else
          let s := { s with
            data := s.data.erase reader
            calls := Function.update s.calls reader (some (.Read c, .Woken 0)) }
          (reader, bytes.take copySize) ::
            if rest = [] then [] else copies policy fuel s rest
      | _ => []

def fill (s : State) (reader : Tid) (c : ReadCall) (bytes : List UInt8) : State :=
  { s with
    calls := Function.update s.calls reader
      (some (.Read { c with got := c.got ++ bytes }, .Pended)) }

def serve (s : State) (reader : Tid) (c : ReadCall) (bytes : List UInt8) : State :=
  { s with
    data := s.data.erase reader
    calls := Function.update s.calls reader
      (some (.Read { c with got := c.got ++ bytes }, .Woken 0)) }

-- What the loop does with the bytes: copies some of them to pended readers, as
-- the list says, and leaves the rest.
inductive Copying : State → List UInt8 → List (Tid × List UInt8) → State → List UInt8 → Prop where
  | NoReader {s : State} (bytes : List UInt8) (hdata : s.data = []) : Copying s bytes [] s bytes
  | Done (s : State) : Copying s [] [] s []
  | Short {s : State} {bytes : List UInt8} {reader : Tid} {c : ReadCall}
      (hcall : s.calls reader = some (.Read c, .Pended))
      (hshort : c.got.length + bytes.length < c.len) :
      Copying s bytes [(reader, bytes)] (s.fill reader c bytes) []
  | Next {s final : State} {bytes rest left : List UInt8} {reader : Tid} {c : ReadCall}
      {copied : List (Tid × List UInt8)} (hcall : s.calls reader = some (.Read c, .Pended))
      (hexact : c.got.length + bytes.length = c.len)
      (hrest : Copying (s.serve reader c bytes) rest copied final left) :
      Copying s (bytes ++ rest) ((reader, bytes) :: copied) final left

theorem Inv.fill (h : s.Inv) {bytes : List UInt8} (hcl : s.calls reader = some (.Read c, .Pended))
    (hs : c.got.length + bytes.length < c.len) : (s.fill reader c bytes).Inv := by
  have hd := (h.mem_data reader).mpr ⟨c, hcl⟩
  have hsp : reader ∉ s.space := h.not_both hd
  refine h.update ⟨h.data_nodup, fun o => ?_⟩ ⟨h.space_nodup, fun o => ?_⟩ ?_ ?_ ?_ h.resetting
  · by_cases heq : o = reader <;> simp [heq, hd]
  · by_cases heq : o = reader <;> simp [heq, hsp]
  · simp [hcl]
  · intro c' hc
    cases hc
    simpa using hs
  · intro c' rc hc
    cases hc

theorem Inv.serve (h : s.Inv) (bytes : List UInt8)
    (hcl : s.calls reader = some (.Read c, .Pended)) : (s.serve reader c bytes).Inv := by
  have hs : reader ∉ s.space := h.not_both ((h.mem_data reader).mpr ⟨c, hcl⟩)
  refine h.update ⟨h.data_nodup.erase reader, fun o => ?_⟩ ⟨h.space_nodup, fun o => ?_⟩ ?_ ?_ ?_
    h.resetting
  · rw [h.data_nodup.mem_erase_iff]
    by_cases heq : o = reader <;> simp [heq]
  · by_cases heq : o = reader <;> simp [heq, hs]
  · simp [hcl]
  · intro c' hc
    cases hc
  · intro c' rc hc
    cases hc
    exact .inl rfl

theorem copyToPendingReaders_copying (policy : Policy Tid) (h : s.Inv) {fuel : Nat}
    (hf : s.data.length < fuel) (bytes : List UInt8) :
    Copying s bytes (copies policy fuel s bytes) (s.copyToPendingReaders policy fuel bytes).1
      (s.copyToPendingReaders policy fuel bytes).2 := by
  induction fuel generalizing s bytes with
  | zero => omega
  | succ fuel ih =>
    cases hb : policy.best s.data with
    | none =>
      simp only [copies, copyToPendingReaders, hb]
      exact .NoReader bytes (policy.eq_nil_of_best hb)
    | some reader =>
      have hm := policy.mem_of_best hb
      obtain ⟨c, hc⟩ := (h.mem_data reader).mp hm
      have hw := h.wants reader c hc
      simp only [copies, copyToPendingReaders, hb, hc]
      by_cases hs : c.got.length + bytes.length < c.len
      · have hsz : min bytes.length (c.len - c.got.length) = bytes.length := by omega
        simp only [hsz, List.take_length, List.drop_length, List.length_append, hs, if_true]
        exact .Short hc hs
      · have hsz : min bytes.length (c.len - c.got.length) = c.len - c.got.length := by omega
        have hl : (c.got ++ bytes.take (c.len - c.got.length)).length = c.len := by
          simp only [List.length_append, List.length_take]
          omega
        have hfl : ¬ (c.got ++ bytes.take (c.len - c.got.length)).length < c.len := by omega
        have hn := h.serve (bytes.take (c.len - c.got.length)) hc
        have hp := List.length_pos_of_mem hm
        have hd : (s.serve reader c (bytes.take (c.len - c.got.length))).data.length < fuel := by
          simp only [State.serve, List.length_erase_of_mem hm]
          omega
        have hsp := List.take_append_drop (c.len - c.got.length) bytes
        simp only [hsz, if_neg hfl]
        nth_rewrite 1 [← hsp]
        have he : c.got.length + (bytes.take (c.len - c.got.length)).length = c.len := by
          rw [← List.length_append]
          exact hl
        by_cases hr : bytes.drop (c.len - c.got.length) = []
        · simp only [hr, if_true]
          exact .Next hc he (.Done _)
        · simp only [if_neg hr]
          exact .Next hc he (ih hn hd _)

theorem ne_of_calls {call : Call × Status} (hn : s.calls thread = none)
    (hc : s.calls reader = some call) : thread ≠ reader := by
  rintro rfl
  cases hn.symm.trans hc

theorem serve_calls_of_none {st : Status} (hn : s.calls thread = none)
    (hc : s.calls reader = some (.Read c, st)) (bytes : List UInt8) :
    (s.serve reader c bytes).calls thread = none := by
  simpa [State.serve, Function.update_of_ne (ne_of_calls hn hc)] using hn

section Copying

variable {fin : State} {bytes left : List UInt8} {copied : List (Tid × List UInt8)}

section

variable (hcp : Copying s bytes copied fin left)
include hcp

theorem Copying.inv (h : s.Inv) : fin.Inv := by
  induction hcp with
  | NoReader _ _ | Done _ => exact h
  | Short hc hs => exact h.fill hc hs
  | Next hc _ _ ih => exact ih (h.serve _ hc)

theorem Copying.frame : fin.buf = s.buf ∧ fin.flags = s.flags ∧ fin.space = s.space ∧ fin.log = s.log := by
  induction hcp with
  | NoReader _ _ | Done _ | Short _ _ => exact ⟨rfl, rfl, rfl, rfl⟩
  | Next _ _ _ ih => exact ih

theorem Copying.calls_of_none {thread : Tid} (hn : s.calls thread = none) : fin.calls thread = none := by
  induction hcp with
  | NoReader _ _ | Done _ => exact hn
  | Short hc _ => simpa [fill, Function.update_of_ne (ne_of_calls hn hc)] using hn
  | Next hc _ _ ih => exact ih (serve_calls_of_none hn hc _)

theorem Copying.ne {thread : Tid} (hn : s.calls thread = none) : ∀ copy ∈ copied, copy.1 ≠ thread := by
  induction hcp with
  | NoReader _ _ | Done _ => simp
  | Short hc _ => simpa using (ne_of_calls hn hc).symm
  | Next hc _ _ ih =>
    simp only [List.mem_cons, forall_eq_or_imp]
    exact ⟨(ne_of_calls hn hc).symm, ih (serve_calls_of_none hn hc _)⟩

theorem Copying.data_eq_nil (hl : left ≠ []) : fin.data = [] := by
  induction hcp with
  | NoReader _ hd => exact hd
  | Done _ | Short _ _ => exact absurd rfl hl
  | Next _ _ _ ih => exact ih hl

theorem Copying.bytes_eq : copied.flatMap Prod.snd ++ left = bytes := by
  induction hcp with
  | NoReader _ _ | Done _ => rfl
  | Short _ _ => simp
  | Next _ _ _ ih => simp [← ih]

end

end Copying

variable (cfg : Config) (pol : Policy Tid)

theorem Inv.storeRest (h : s.Inv) (c : WriteCall) (expired : Bool) (hn : s.calls thread = none) :
    (s.storeRest cfg thread c expired).Inv := by
  have hp (buf : List UInt8) : Inv { s with buf } := h.congr rfl rfl rfl rfl .inl
  simp only [State.storeRest]
  split
  · exact h.congr rfl rfl rfl rfl .inl
  · exact (hp _).waitForSpace expired hn

theorem Inv.writeTurn (h : s.Inv) (c : WriteCall) (expired : Bool) (hn : s.calls thread = none) :
    (s.writeTurn cfg pol thread c expired).Inv := by
  unfold State.writeTurn
  dsimp only
  split
  · exact h.congr rfl rfl rfl rfl .inl
  · split_ifs
    · exact h.wakeAllReaders.storeRest cfg c expired (wake_eq_none.mpr hn)
    · have hcopy := copyToPendingReaders_copying pol h (Nat.lt_succ_self _)
        (c.data.drop c.written)
      exact (hcopy.inv h).congr rfl rfl rfl rfl .inl
    · have hcopy := copyToPendingReaders_copying pol h (Nat.lt_succ_self _)
        (c.data.drop c.written)
      exact (hcopy.inv h).storeRest cfg _ expired (hcopy.calls_of_none hn)
    · exact h.storeRest cfg c expired hn
  · exact h.storeRest cfg c expired hn
  · exact h.waitForSpace expired hn

theorem Inv.takeBytes (h : s.Inv) (expired : Bool) (hn : s.calls thread = none) (hw : c.got.length < c.len) :
    (s.takeBytes thread c expired).Inv := by
  have hg (buf : List UInt8) : Inv { s with buf } := h.congr rfl rfl rfl rfl .inl
  simp only [State.takeBytes]
  split
  · exact h.congr rfl rfl rfl rfl .inl
  · next hm =>
      refine (hg _).waitForData expired hn ?_
      simp only [List.length_append, List.length_take] at hm ⊢
      omega

theorem Inv.readTurn (h : s.Inv) (c : ReadCall) (expired : Bool) (hn : s.calls thread = none) :
    (s.readTurn cfg thread c expired).Inv := by
  unfold State.readTurn
  split
  · exact h.congr rfl rfl rfl rfl .inl
  · next hw =>
      have hw : c.got.length < c.len := Nat.lt_of_not_ge hw
      dsimp only
      split
      · split
        · exact h.congr rfl rfl rfl rfl .inl
        · exact h.congr rfl rfl rfl rfl .inl
      · exact h.wakeAllWriters.takeBytes expired (wake_eq_none.mpr hn) hw
      · exact h.takeBytes expired hn hw
      · exact h.waitForData expired hn hw

theorem leaveWait_calls (s : State) (thread : Tid) (rc : Int) :
    (s.leaveWait thread rc).1.calls = Function.update s.calls thread none := by
  simp only [leaveWait]
  split_ifs <;> rfl

theorem Inv.leaveWait (h : s.Inv) (hcl : s.calls thread = some (call, .Woken rc)) : (s.leaveWait thread rc).1.Inv := by
  have hi : s.calls thread ≠ none := by simp [hcl]
  have hp := h.waiting_pos hi
  have hd : thread ∉ s.data := by simp [h.mem_data, hcl]
  have hs : thread ∉ s.space := by simp [h.mem_space, hcl]
  -- with the flag as it will be, the call leaves and nothing else changes
  have hlf (flags : Flags) (hf : flags.reset = true → 0 < s.waiting - 1) :
      Inv { s with waiting := s.waiting - 1, flags,
                   calls := Function.update s.calls thread none } := by
    have hb : Inv { s with flags } := h.congr rfl rfl rfl rfl fun _ => .inr hp
    refine hb.update ⟨h.data_nodup, fun o => ?_⟩ ⟨h.space_nodup, fun o => ?_⟩ ?_ ?_ ?_
      hf
    · by_cases heq : o = thread <;> simp [heq, hd]
    · by_cases heq : o = thread <;> simp [heq, hs]
    · simp only [hcl, reduceCtorEq, if_false, if_true]
      omega
    · intro c' hc
      cases hc
    · intro c' rc' hc
      cases hc
  simp only [State.leaveWait]
  split_ifs with hr hl
  · exact hlf _ fun hf => by cases hf
  · exact hlf _ fun _ => Nat.pos_of_ne_zero hl
  · exact hlf _ fun hf => absurd hf hr

theorem Inv.relock (h : s.Inv) (expired : Bool) (hc : s.calls thread = some (call, .Woken rc)) :
    (s.relock cfg pol thread call rc expired).Inv := by
  have hl := h.leaveWait hc
  have hn : (s.leaveWait thread rc).1.calls thread = none := by simp [leaveWait_calls]
  unfold State.relock
  cases call with
  | Read c =>
    dsimp only
    split_ifs
    · exact hl.readTurn cfg c expired hn
    all_goals exact hl.congr rfl rfl rfl rfl .inl
  | Write c =>
    dsimp only
    split_ifs
    · exact hl.writeTurn cfg pol c expired hn
    all_goals exact hl.congr rfl rfl rfl rfl .inl

theorem Inv.reset (h : s.Inv) : s.reset.Inv := by
  unfold State.reset
  dsimp only
  split
  · next hw =>
      have hf : Inv { s with buf := [], flags := { s.flags with reset := true } } :=
        h.congr rfl rfl rfl rfl fun _ => .inr (Nat.pos_of_ne_zero hw)
      exact hf.wakeAllReaders.wakeAllWriters
  · exact h.congr rfl rfl rfl rfl .inl

theorem Inv.close (h : s.Inv) : s.close.Inv := by
  have hf : Inv { s with flags := ⟨false, false⟩ } :=
    h.congr rfl rfl rfl rfl fun hr => by cases hr
  exact hf.wakeAllReaders.wakeAllWriters

end State

variable {cfg : Config} {pol : Policy Tid} {s next : State} {op : Op}

variable {t : Tid} {timeout : Timeout} {expired : Bool}

theorem calls_of_step_read {len : Nat} (hs : step cfg pol s (.Read t len timeout expired) = some next) :
    s.calls t = none := by
  simp only [step] at hs
  split at hs
  · next hn => exact Option.isNone_iff_eq_none.mp hn
  · cases hs

theorem calls_of_step_write {data : List UInt8} (hs : step cfg pol s (.Write t data timeout expired) = some next) :
    s.calls t = none := by
  simp only [step] at hs
  split at hs
  · next hn => exact Option.isNone_iff_eq_none.mp hn
  · cases hs

end Gale.Pipe
