import Gale.Lib.Run
import Gale.NetBuf

namespace Gale.NetBuf

open Lib

structure Bounded (b : NetBuf) : Prop where
  fits : b.headOffset + b.len ≤ b.size
  small : b.size ≤ U16_MAX

theorem Bounded.moved {b : NetBuf} (h : Bounded b) {headOffset len : Nat} (hf : headOffset + len ≤ b.size) :
    Bounded { b with headOffset := headOffset, len := len } :=
  ⟨hf, h.small⟩

def Allocation.inUse (a : Allocation) : Bool := a.buf.refCount ≥ 1

-- What is claimed of a state: an allocation that nobody holds has gone back to the pool,
-- once, and the others have not.
structure Conserves (s : State) : Prop where
  allocated : s.pool.allocated = s.bufs.countP Allocation.inUse
  refs : ∀ a ∈ s.bufs, a.buf.refCount = a.holders.length
  once : ∀ a ∈ s.bufs, a.returns = if a.holders = [] then 1 else 0
  bounded : ∀ a ∈ s.bufs, a.buf.headOffset + a.buf.len ≤ a.buf.size

section Calls

variable {b : NetBuf} {p : NetBufPool}

theorem add_bounded (h : Bounded b) (bs : Nat) :
    ∃ rc buf, b.add bs = some (rc, buf) ∧ Bounded buf ∧ buf.refCount = b.refCount := by
  have hf := h.fits
  have hs := h.small
  have hb : b.headOffset ≤ b.size := by omega
  have ht : b.len ≤ b.size - b.headOffset := by omega
  by_cases hr : bs > b.size - b.headOffset - b.len
  · refine ⟨ENOMEM, b, ?_, h, rfl⟩
    simp [add, checkedSub_of_le hb, checkedSub_of_le ht, hr]
  · have hl : b.len + bs ≤ U16_MAX := by omega
    refine ⟨OK, { b with len := b.len + bs }, ?_, h.moved (by omega), rfl⟩
    simp [add, checkedSub_of_le hb, checkedSub_of_le ht, checkedAdd_of_le hl, hr]

theorem remove_bounded (h : Bounded b) (bs : Nat) :
    ∃ rc buf, b.remove bs = some (rc, buf) ∧ Bounded buf ∧ buf.refCount = b.refCount := by
  have hf := h.fits
  by_cases hl : bs > b.len
  · exact ⟨EINVAL, b, by simp [remove, hl], h, rfl⟩
  · refine ⟨OK, { b with len := b.len - bs }, ?_, h.moved (by omega), rfl⟩
    simp [remove, checkedSub_of_le (Nat.le_of_not_gt hl), hl]

theorem push_bounded (h : Bounded b) (bs : Nat) :
    ∃ rc buf, b.push bs = some (rc, buf) ∧ Bounded buf ∧ buf.refCount = b.refCount := by
  have hf := h.fits
  have hs := h.small
  by_cases hl : bs > b.headOffset
  · exact ⟨EINVAL, b, by simp [push, hl], h, rfl⟩
  · have hln : b.len + bs ≤ U16_MAX := by omega
    refine ⟨OK, { b with headOffset := b.headOffset - bs, len := b.len + bs }, ?_, h.moved (by omega), rfl⟩
    simp [push, checkedSub_of_le (Nat.le_of_not_gt hl), checkedAdd_of_le hln, hl]

theorem pull_bounded (h : Bounded b) (bs : Nat) :
    ∃ rc buf, b.pull bs = some (rc, buf) ∧ Bounded buf ∧ buf.refCount = b.refCount := by
  have hf := h.fits
  have hs := h.small
  by_cases hl : bs > b.len
  · exact ⟨EINVAL, b, by simp [pull, hl], h, rfl⟩
  · have hh : b.headOffset + bs ≤ U16_MAX := by omega
    refine ⟨OK, { b with headOffset := b.headOffset + bs, len := b.len - bs }, ?_, h.moved (by omega), rfl⟩
    simp [pull, checkedSub_of_le (Nat.le_of_not_gt hl), checkedAdd_of_le hh, hl]

theorem reset_bounded (h : Bounded b) (reserve : Nat) :
    Bounded (b.reset reserve).2 ∧ (b.reset reserve).2.refCount = b.refCount := by
  by_cases hm : reserve > b.size
  · simpa [reset, hm] using h
  · refine ⟨⟨?_, ?_⟩, ?_⟩
    · simp only [reset, if_neg hm]
      omega
    · simpa [reset, hm] using h.small
    · simp [reset, hm]

theorem data_bounded (h : Bounded b) (op : DataOp) :
    ∃ rc buf, methods.data op b = some (rc, buf) ∧ Bounded buf ∧ buf.refCount = b.refCount := by
  cases op with
  | Reset reserve => exact ⟨_, _, rfl, reset_bounded h reserve⟩
  | Add bs => exact add_bounded h bs
  | Remove bs => exact remove_bounded h bs
  | Push bs => exact push_bounded h bs
  | Pull bs => exact pull_bounded h bs

theorem refGet_eq (b : NetBuf) :
    b.refGet = some (if b.refCount < U8_MAX then (OK, { b with refCount := b.refCount + 1 })
      else (EOVERFLOW, b)) := by
  by_cases hl : b.refCount < U8_MAX
  · have hm : b.refCount + 1 ≤ U8_MAX := hl
    simp [refGet, checkedAdd_of_le hm, hl]
  · simp [refGet, hl]

theorem unref_eq (h : 0 < b.refCount) :
    b.unref = some (decide (b.refCount = 1), { b with refCount := b.refCount - 1 }) := by
  by_cases hm : b.refCount > 1
  · have ho : 1 ≤ b.refCount := h
    simp [unref, checkedSub_of_le ho, hm, Nat.ne_of_gt hm]
  · have ho : b.refCount = 1 := by omega
    simp [unref, ho]

theorem alloc_eq (h : p.capacity ≤ U16_MAX) :
    p.alloc = some (if p.allocated < p.capacity then (OK, { p with allocated := p.allocated + 1 })
      else (ENOMEM, p)) := by
  by_cases hl : p.allocated < p.capacity
  · have hm : p.allocated + 1 ≤ U16_MAX := by omega
    simp [NetBufPool.alloc, checkedAdd_of_le hm, hl]
  · simp [NetBufPool.alloc, hl]

theorem free_eq (h : 0 < p.allocated) : p.free = some (OK, { p with allocated := p.allocated - 1 }) := by
  have ho : 1 ≤ p.allocated := h
  simp [NetBufPool.free, checkedSub_of_le ho, h]

theorem decisions_alloc (p : NetBufPool) : decisions.alloc p = methods.alloc p := by
  simp only [decisions, methods, allocDecide, NetBufPool.alloc]
  split
  · cases checkedAdd U16_MAX p.allocated 1 <;> rfl
  · rfl

theorem decisions_free (p : NetBufPool) : decisions.free p = methods.free p := by
  simp only [decisions, methods, freeDecide, NetBufPool.free]
  split
  · cases checkedSub p.allocated 1 <;> rfl
  · rfl

theorem decisions_refGet (b : NetBuf) : decisions.refGet b = methods.refGet b := by
  simp only [decisions, methods, refDecide, refGet]
  split
  · cases checkedAdd U8_MAX b.refCount 1 <;> rfl
  · rfl

theorem decisions_unref (h : 0 < b.refCount) : decisions.unref b = methods.unref b := by
  have ho : 1 ≤ b.refCount := h
  have hz : b.refCount ≠ 0 := by omega
  have hl : b.refCount - 1 = 0 ↔ b.refCount = 1 := by omega
  have heq := unref_eq h
  simp only [methods, heq]
  simp [decisions, unrefDecide, checkedSub_of_le ho, hz, hl, beq_eq_decide]

theorem decisions_data (op : DataOp) (b : NetBuf) : decisions.data op b = methods.data op b := by
  cases op with
  | Reset reserve => rfl
  | Add bs =>
    simp only [decisions, methods, addDecide, add]
    cases checkedSub b.size b.headOffset with
    | none => rfl
    | some beyond =>
      simp only [Option.bind_eq_bind, Option.bind_some]
      cases checkedSub beyond b.len with
      | none => rfl
      | some tailroom =>
        simp only [Option.bind_some]
        split
        · rfl
        · cases checkedAdd U16_MAX b.len bs <;> rfl
  | Remove bs =>
    simp only [decisions, methods, removeDecide, remove]
    split
    · rfl
    · cases checkedSub b.len bs <;> rfl
  | Push bs =>
    simp only [decisions, methods, pushDecide, push]
    split
    · rfl
    · cases checkedSub b.headOffset bs <;> cases checkedAdd U16_MAX b.len bs <;> rfl
  | Pull bs =>
    simp only [decisions, methods, pullDecide, pull]
    split
    · rfl
    · cases checkedAdd U16_MAX b.headOffset bs <;> cases checkedSub b.len bs <;> rfl

end Calls

structure Allocation.Sound (a : Allocation) : Prop where
  bounded : Bounded a.buf
  refs : a.buf.refCount = a.holders.length
  most : a.buf.refCount ≤ U8_MAX
  once : a.returns = if a.holders = [] then 1 else 0

-- As Conserves, with the buffers that the pool counts although there are none.
structure Inv (lost : Nat) (s : State) : Prop where
  count : s.pool.allocated = s.bufs.countP Allocation.inUse + lost
  capacity : s.pool.allocated ≤ s.pool.capacity
  small : s.pool.capacity ≤ U16_MAX
  sound : ∀ a ∈ s.bufs, a.Sound

theorem Inv.conserves {s : State} (h : Inv 0 s) : Conserves s where
  allocated := h.count
  refs := fun a ha => (h.sound a ha).refs
  once := fun a ha => (h.sound a ha).once
  bounded := fun a ha => (h.sound a ha).bounded.fits

theorem start_inv {cap : Nat} {pool : NetBufPool} (hc : cap ≤ U16_MAX)
    (hi : NetBufPool.init cap = .ok pool) : Inv 0 (start pool) := by
  unfold NetBufPool.init at hi
  split at hi
  · cases hi
  · cases hi
    exact ⟨rfl, Nat.zero_le _, hc, fun _ ha => nomatch ha⟩

theorem held_eq_some {s : State} {i holder : Nat} {a : Allocation} :
    s.held i holder = some a ↔ s.bufs[i]? = some a ∧ holder ∈ a.holders := by
  simp [State.held, Option.filter_eq_some_iff]

namespace Inv

variable {lost : Nat} {s : State} {i hd : Nat} {a : Allocation}

section

variable (h : Inv lost s) (hh : s.held i hd = some a)
include h hh

theorem sound_of_held : a.Sound :=
  h.sound a (List.mem_of_getElem? (held_eq_some.mp hh).1)

theorem pos_of_held : 0 < a.buf.refCount := by
  rw [(h.sound_of_held hh).refs]
  exact List.length_pos_of_mem (held_eq_some.mp hh).2

theorem inUse_of_held : a.inUse = true :=
  decide_eq_true (h.pos_of_held hh)

theorem set {after : Allocation} (ha : after.Sound) {pool : NetBufPool} (hs : pool.capacity = s.pool.capacity)
    (hc : pool.allocated + 1 = s.pool.allocated + if after.inUse then 1 else 0)
    (hle : pool.allocated ≤ s.pool.allocated) (results : List Result) :
    Inv lost ⟨pool, s.bufs.set i after, results⟩ := by
  obtain ⟨hlt, hg⟩ := List.getElem?_eq_some_iff.mp (held_eq_some.mp hh).1
  have hu := h.inUse_of_held hh
  have hp : 0 < s.bufs.countP Allocation.inUse :=
    List.countP_pos_iff.mpr ⟨a, List.mem_of_getElem? (held_eq_some.mp hh).1, hu⟩
  have hb := h.count
  refine ⟨?_, ?_, hs ▸ h.small, ?_⟩
  · show pool.allocated = (s.bufs.set i after).countP Allocation.inUse + lost
    rw [List.countP_set hlt, hg, if_pos hu]
    omega
  · rw [hs]
    exact Nat.le_trans hle h.capacity
  · intro o hm
    rcases List.mem_or_eq_of_mem_set hm with ho | rfl
    · exact h.sound o ho
    · exact ha

theorem refGet (another : Nat) : ∃ next, s.refGet methods i a another = some next ∧ Inv lost next := by
  have ha := h.sound_of_held hh
  have hs : a.holders ≠ [] := List.ne_nil_of_mem (held_eq_some.mp hh).2
  simp only [State.refGet, methods, refGet_eq]
  by_cases hl : a.buf.refCount < U8_MAX
  · simp only [if_pos hl]
    refine ⟨_, rfl, h.set hh ?_ rfl ?_ (Nat.le_refl _) _⟩
    · refine ⟨⟨ha.bounded.fits, ha.bounded.small⟩, ?_, hl, ?_⟩
      · simp [ha.refs]
      · simpa [hs] using ha.once
    · simp [Allocation.inUse]
  · simp only [if_neg hl]
    refine ⟨_, rfl, h.set hh ha rfl ?_ (Nat.le_refl _) _⟩
    simp [h.inUse_of_held hh]

theorem unref : ∃ next, s.unref methods i a hd = some next ∧ Inv lost next := by
  have ha := h.sound_of_held hh
  have hmm := (held_eq_some.mp hh).2
  have hp := h.pos_of_held hh
  have hm := ha.most
  have hs : a.holders ≠ [] := List.ne_nil_of_mem hmm
  have hr : a.buf.refCount - 1 = (a.holders.erase hd).length := by
    rw [List.length_erase_of_mem hmm, ha.refs]
  simp only [State.unref, methods, unref_eq hp]
  by_cases hl : a.buf.refCount = 1
  · have hin : 0 < s.pool.allocated := by
      have hc := h.count
      have hu : 0 < s.bufs.countP Allocation.inUse :=
        List.countP_pos_iff.mpr ⟨a, List.mem_of_getElem? (held_eq_some.mp hh).1, h.inUse_of_held hh⟩
      omega
    have hn : a.holders.erase hd = [] := by
      rw [← List.length_eq_zero_iff, ← hr, hl]
    simp only [hl, decide_true, free_eq hin]
    refine ⟨_, rfl, ?_⟩
    apply h.set hh
    · refine ⟨⟨ha.bounded.fits, ha.bounded.small⟩, ?_, Nat.zero_le _, ?_⟩
      · simp [hn]
      · have honce := ha.once
        simp only [if_neg hs] at honce
        simp [hn, honce]
    · rfl
    · show s.pool.allocated - 1 + 1 = s.pool.allocated
      omega
    · exact Nat.sub_le _ _
  · have hk : a.holders.erase hd ≠ [] := by
      rw [← List.length_pos_iff, ← hr]
      omega
    simp only [hl, decide_false]
    refine ⟨_, rfl, h.set hh ?_ rfl ?_ (Nat.le_refl _) _⟩
    · refine ⟨⟨ha.bounded.fits, ha.bounded.small⟩, hr, ?_, ?_⟩
      · show a.buf.refCount - 1 ≤ U8_MAX
        omega
      · simpa [hk, hs] using ha.once
    · have ho : 1 ≤ a.buf.refCount - 1 := by omega
      simp [Allocation.inUse, ho]

theorem data (op : DataOp) : ∃ next, s.data methods i a op = some next ∧ Inv lost next := by
  have ha := h.sound_of_held hh
  obtain ⟨rc, buf, heq, hb, hr⟩ := data_bounded ha.bounded op
  refine ⟨_, by rw [State.data, heq]; rfl, h.set hh ?_ rfl ?_ (Nat.le_refl _) _⟩
  · refine ⟨hb, hr.trans ha.refs, ?_, ha.once⟩
    rw [hr]
    exact ha.most
  · have hu : decide (buf.refCount ≥ 1) = true := by
      rw [hr]
      exact h.inUse_of_held hh
    simp [Allocation.inUse, hu]

end

theorem alloc (h : Inv lost s) {size : Nat} (hs : size ≤ U16_MAX) (hd : Nat) :
    ∃ next, s.alloc methods hd size = some next ∧ ∃ more, Inv more next ∧ (size ≠ 0 → more = lost) := by
  have hc := h.count
  simp only [State.alloc, methods, alloc_eq h.small]
  by_cases hl : s.pool.allocated < s.pool.capacity
  · simp only [if_pos hl]
    by_cases hz : size = 0
    · simp only [init, if_pos hz]
      refine ⟨_, rfl, lost + 1, ⟨?_, hl, h.small, h.sound⟩, fun hne => absurd hz hne⟩
      show s.pool.allocated + 1 = s.bufs.countP Allocation.inUse + (lost + 1)
      omega
    · simp only [init, if_neg hz]
      refine ⟨_, rfl, lost, ⟨?_, hl, h.small, ?_⟩, fun _ => rfl⟩
      · have hn : Allocation.inUse ⟨⟨size, 0, 0, 1⟩, [hd], 0⟩ = true := rfl
        show s.pool.allocated + 1 = (s.bufs ++ [_]).countP Allocation.inUse + lost
        rw [List.countP_append, List.countP_singleton, if_pos hn]
        omega
      · intro o hm
        rcases List.mem_append.mp hm with ho | hn
        · exact h.sound o ho
        · cases List.mem_singleton.mp hn
          exact ⟨⟨Nat.zero_le _, hs⟩, rfl, Nat.le_add_left 1 254, rfl⟩
  · simp only [if_neg hl]
    exact ⟨_, rfl, lost, ⟨h.count, h.capacity, h.small, h.sound⟩, fun _ => rfl⟩

theorem step (h : Inv lost s) {op : Op} {next : State} (hs : step methods s op = some next) :
    ∃ more, Inv more next ∧ ((∀ hd, op ≠ .Alloc hd 0) → more = lost) := by
  cases op with
  | Alloc hd size =>
    obtain ⟨hsz, ha⟩ := Option.ite_none_right_eq_some.mp hs
    obtain ⟨o, heq, more, hi, hm⟩ := h.alloc hsz hd
    cases heq.symm.trans ha
    refine ⟨more, hi, fun hop => hm ?_⟩
    rintro rfl
    exact hop hd rfl
  | RefGet i hd another =>
    obtain ⟨a, hheld, hc⟩ := Option.bind_eq_some_iff.mp hs
    obtain ⟨o, heq, hi⟩ := h.refGet hheld another
    cases heq.symm.trans hc
    exact ⟨lost, hi, fun _ => rfl⟩
  | Unref i hd =>
    obtain ⟨a, hheld, hc⟩ := Option.bind_eq_some_iff.mp hs
    obtain ⟨o, heq, hi⟩ := h.unref hheld
    cases heq.symm.trans hc
    exact ⟨lost, hi, fun _ => rfl⟩
  | Data i hd op =>
    obtain ⟨a, hheld, hc⟩ := Option.bind_eq_some_iff.mp hs
    obtain ⟨o, heq, hi⟩ := h.data hheld op
    cases heq.symm.trans hc
    exact ⟨lost, hi, fun _ => rfl⟩

end Inv

theorem step_decisions {lost : Nat} {s : State} (h : Inv lost s) (op : Op) :
    step decisions s op = step methods s op := by
  cases op with
  | Alloc holder size => simp [step, State.alloc, decisions_alloc]
  | RefGet i holder another => simp [step, State.refGet, decisions_refGet]
  | Unref i holder =>
    refine Option.bind_congr fun a hheld => ?_
    simp [State.unref, decisions_unref (h.pos_of_held hheld), decisions_free]
  | Data i holder op => simp [step, State.data, decisions_data]

theorem decisions_simulate : Simulation (step methods) (step decisions) id (fun s => ∃ lost, Inv lost s) where
  keeps := by
    rintro s op next ⟨lost, h⟩ hs
    obtain ⟨more, hi, -⟩ := h.step hs
    exact ⟨more, hi⟩
  commutes := by
    rintro s op ⟨lost, h⟩
    rw [Option.map_id]
    exact (step_decisions h op).symm

theorem buffers_conserved {capacity : Nat} {pool : NetBufPool} (hcapacity : capacity ≤ U16_MAX)
    (hinit : NetBufPool.init capacity = .ok pool) (ops : List Op)
    (hsize : ∀ holder, .Alloc holder 0 ∉ ops) :
    Throughout (step methods) Conserves (start pool) ops ∧
      run (step decisions) (start pool) ops = run (step methods) (start pool) ops := by
  have hs := start_inv hcapacity hinit
  have halong : Along (step methods) (fun _ op => ∀ holder, op ≠ .Alloc holder 0) (start pool) ops := by
    refine along_of_forall ?_
    rintro _ op hop holder rfl
    exact hsize holder hop
  constructor
  · have hi : Throughout (step methods) (Inv 0) (start pool) ops := by
      refine throughout_of_along ?_ hs halong
      intro s op next h hop hst
      obtain ⟨more, hi, hmr⟩ := h.step hst
      rwa [hmr hop] at hi
    exact hi.mono fun _ h => h.conserves
  · have hm := decisions_simulate.run_map ops ⟨0, hs⟩
    rw [Option.map_id] at hm
    exact hm.symm

theorem shared_buffer_conserved : Throughout (step methods) Conserves (start ⟨1, 0⟩)
      [.Alloc 1 8, .RefGet 0 1 2, .Unref 0 1, .Data 0 2 (.Add 4), .Unref 0 2] := by
  have hi : NetBufPool.init 1 = .ok ⟨1, 0⟩ := rfl
  exact (buffers_conserved (by decide) hi _ (by simp)).1

theorem empty_buffer_stays_counted :
    ∃ s, run (step methods) (start ⟨1, 0⟩) [.Alloc 1 0] = some s ∧ s.pool.allocated = 1 ∧
      s.bufs = [] ∧ s.results = [.Rc EINVAL] ∧ ¬ Conserves s := by
  refine ⟨_, rfl, rfl, rfl, rfl, ?_⟩
  intro h
  cases h.allocated

end Gale.NetBuf
