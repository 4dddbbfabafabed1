import Gale.Lib.Run
import Gale.Userspace.Fate

namespace Gale.Userspace

open Function Lib Lib.Bits

variable {bits : Nat}

-- What every state has: only threads have an index, each its own, and it is not free.
structure Valid (s : State bits) : Prop where
  thread : ∀ ko ∈ s.objects.entries, ko.type = .Thread ↔ ko.threadId.isSome = true
  distinct : ∀ ko ∈ s.objects.entries, ∀ other ∈ s.objects.entries, ∀ i,
    ko.threadId = some i → other.threadId = some i → ko = other
  used : ∀ ko ∈ s.objects.entries, ∀ i, ko.threadId = some i → s.threadIdxMap i = false

theorem Image.valid_boot (im : Image bits) : Valid im.boot :=
  ⟨im.thread, im.distinct, im.used⟩

-- What a call does to _thread_idx_map, and to the index of the object that it makes.
inductive State.Moves (s : State bits) (op : Op) : Prop
  | Same (hmap : s.mapAfter op = s.threadIdxMap)
      (hmade : ∀ name, s.created op = some name →
        (s.made op name).type ≠ .Thread ∧ (s.made op name).threadId = none)
      (hfreed : ∀ ko ∈ s.objects.entries, ko.type = .Thread → removes op ko = false)
  | Takes (tidx : Fin bits) (hfirst : Slots.first s.threadIdxMap = some tidx)
      (hcreated : s.created op ≠ none)
      (hmap : s.mapAfter op = Function.update s.threadIdxMap tidx false)
      (hmade : ∀ name, (s.made op name).type = .Thread ∧ (s.made op name).threadId = some tidx)
      (hfreed : ∀ ko : KObject bits, removes op ko = false)
  | Gives (ko : KObject bits) (tidx : Fin bits) (hmem : ko ∈ s.objects.entries)
      (hdynamic : ko.dynamic = true) (hthread : ko.type = .Thread) (hindex : ko.threadId = some tidx)
      (hcreated : s.created op = none)
      (hmap : s.mapAfter op = Function.update s.threadIdxMap tidx true)
      (hfreed : ∀ other ∈ s.objects.entries, removes op other = true ↔ other = ko)

namespace State

variable {s : State bits} {op : Op}

theorem moves_of_plain (hm : s.mapAfter op = s.threadIdxMap) (hc : s.created op = none)
    (hf : ∀ ko : KObject bits, removes op ko = false) : Moves s op :=
  .Same hm (fun name h => by cases hc.symm.trans h) fun ko _ _ => hf ko

theorem moves_alloc (current : Tid) (ot : KObjects) (size : Nat) (mem : Option Nat) :
    Moves s (.Alloc current ot size mem) := by
  have hfr (ko : KObject bits) : removes (.Alloc current ot size mem) ko = false := by
    simp [removes]
  cases hc : s.created (.Alloc current ot size mem) with
  | none => exact moves_of_plain (mapAfter_alloc_of_none hc) hc hfr
  | some name =>
    by_cases ht : ot = .Thread
    · subst ht
      cases hf : Slots.first s.threadIdxMap with
      | none =>
        have hr : s.created (.Alloc current .Thread size mem) = none := by
          simp [created, zObjectAlloc, reserveIndex, threadIdxAlloc, hf]
        cases hc.symm.trans hr
      | some tidx =>
        refine .Takes tidx hf (by simp [hc]) ?_ (fun name => ⟨rfl, ?_⟩) hfr
        · simp [mapAfter, hf, hc]
        · simp [made, clearedIndex, hf]
    · refine .Same ?_ (fun name _ => ⟨ht, ?_⟩) fun ko _ _ => hfr ko
      · simp only [mapAfter, ht, false_and, if_false]
        split <;> rfl
      · simp [made, clearedIndex, ht]

theorem moves_free (h : Valid s) (obj : Nat) : Moves s (.Free obj) := by
  cases hf : s.freedIndex obj with
  | none =>
    refine .Same (by simp [mapAfter, hf]) (fun name hn => nomatch hn) ?_
    intro ko hko ht
    by_contra hr
    simp only [removes, Bool.not_eq_false, decide_eq_true_eq, Op.Free.injEq] at hr
    obtain ⟨rfl, hd⟩ := hr
    have hfn := dynObjectFind_eq_some.mpr ⟨kObjectFind_eq_some.mpr ⟨hko, rfl⟩, hd⟩
    simp only [freedIndex, hfn, Option.bind_some, if_pos ht] at hf
    have hs := (h.thread ko hko).mp ht
    rw [hf] at hs
    cases hs
  | some tidx =>
    obtain ⟨ko, hfn, hi⟩ := Option.bind_eq_some_iff.mp hf
    obtain ⟨ht, hi⟩ := Option.ite_none_right_eq_some.mp hi
    obtain ⟨hko, hd⟩ := dynObjectFind_eq_some.mp hfn
    obtain ⟨hm, rfl⟩ := kObjectFind_eq_some.mp hko
    refine .Gives ko tidx hm hd ht hi rfl (by simp [mapAfter, hf]) ?_
    intro o ho
    simp only [removes, decide_eq_true_eq, Op.Free.injEq]
    constructor
    · exact fun hr => s.objects.eq_of_key_eq ho hm hr.1.symm
    · rintro rfl
      exact ⟨rfl, hd⟩

theorem moves (h : Valid s) (op : Op) : Moves s op := by
  cases op with
  | Alloc current ot size mem => exact moves_alloc current ot size mem
  | Free obj => exact moves_free h obj
  | CreateDynamic current size mem =>
    exact .Same rfl (fun name _ => ⟨nofun, rfl⟩) fun ko _ _ => by simp [removes]
  | _ => exact moves_of_plain rfl rfl fun ko => by simp [removes]

end State

variable {op : Op}

theorem State.mem_call {s : State bits} {ko' : KObject bits} (h : ko' ∈ (s.call op).objects.entries) :
    (∃ ko ∈ s.objects.entries, (s.fate op).apply ko = some ko') ∨
      ∃ name, s.created op = some name ∧ ko' = s.made op name := by
  cases hc : s.created op with
  | none =>
    rw [(s.called op).kept hc] at h
    exact .inl (Registry.mem_foreach.mp h)
  | some name =>
    obtain ⟨-, hf, ho⟩ := (s.called op).made name hc
    rw [ho] at h
    rcases Registry.mem_append.mp h with hol | hn
    · exact .inl (Registry.mem_foreach.mp hol)
    · exact .inr ⟨name, rfl, hn⟩

namespace Valid

variable {s : State bits} {op : Op} {ko ko' : KObject bits} {i : Fin bits}

theorem not_free (h : Valid s) (hko : ko ∈ s.objects.entries) (hi : ko.threadId = some i) :
    Slots.first s.threadIdxMap ≠ some i := by
  intro hf
  have hfr := Slots.of_first_eq_some hf
  rw [h.used ko hko i hi] at hfr
  cases hfr

theorem index_origin (h : Valid s) (hk : ko' ∈ (s.call op).objects.entries) (hi : ko'.threadId = some i) :
    (∃ ko ∈ s.objects.entries, ko.name = ko'.name ∧ ko.threadId = some i ∧ s.mapAfter op i = false) ∨
      Slots.first s.threadIdxMap = some i ∧ s.created op = some ko'.name ∧ s.mapAfter op i = false := by
  rcases State.mem_call hk with ⟨ko, hko, hft⟩ | ⟨name, hc, rfl⟩
  · left
    have hs : ko.threadId = some i := (s.fate_threadId hft).symm.trans hi
    refine ⟨ko, hko, ((s.fate op).key_eq hft).symm, hs, ?_⟩
    cases s.moves h op with
    | Same hmp hm hf =>
      rw [hmp]
      exact h.used ko hko i hs
    | Takes tidx hfr hc hmp hm hf =>
      rw [hmp, update_apply]
      split
      · rfl
      · exact h.used ko hko i hs
    | Gives freed tidx hmm hd ht hin hc hmp hf =>
      have hne : i ≠ tidx := by
        rintro rfl
        have hr := (hf ko hko).mpr (h.distinct ko hko freed hmm i hs hin)
        rw [State.fate_apply, if_pos hr] at hft
        cases hft
      rw [hmp, update_of_ne hne]
      exact h.used ko hko i hs
  · right
    cases s.moves h op with
    | Same hmp hm hf =>
      rw [(hm name hc).2] at hi
      cases hi
    | Takes tidx hfr _ hmp hm hf =>
      cases (hm name).2.symm.trans hi
      exact ⟨hfr, by rw [hc, State.made_name], by rw [hmp, update_self]⟩
    | Gives freed tidx hmm hd ht hin hn hmp hf =>
      cases hn.symm.trans hc

theorem call (h : Valid s) (op : Op) : Valid (s.call op) := by
  refine ⟨?_, ?_, ?_⟩
  · intro ko' hk
    rcases State.mem_call hk with ⟨ko, hko, hft⟩ | ⟨name, hc, rfl⟩
    · rw [s.fate_type hft, s.fate_threadId hft]
      exact h.thread ko hko
    · cases s.moves h op with
      | Same hmp hm hf => simp [hm name hc]
      | Takes tidx hfr _ hmp hm hf => simp [hm name]
      | Gives freed tidx hmm hd ht hin hnn hmp hf =>
        cases hnn.symm.trans hc
  · intro ko' hk other' ho i hi hi'
    apply (s.call op).objects.eq_of_key_eq hk ho
    rcases h.index_origin hk hi with ⟨ko, hko, hnm, hin, -⟩ | ⟨hfr, hc, -⟩ <;>
      rcases h.index_origin ho hi' with ⟨o, hot, hn, hid, -⟩ | ⟨hfs, hcr, -⟩
    · rw [← hnm, ← hn, h.distinct ko hko o hot i hin hid]
    · exact absurd hfs (h.not_free hko hin)
    · exact absurd hfr (h.not_free hot hid)
    · exact Option.some.inj (hc.symm.trans hcr)
  · intro ko' hk i hi
    rw [(s.called op).map]
    rcases h.index_origin hk hi with ⟨-, -, -, -, hu⟩ | ⟨-, -, hu⟩
    · exact hu
    · exact hu

end Valid

def KObject.isDynThread (ko : KObject bits) : Bool := ko.dynamic && ko.type = .Thread

namespace State

variable (s : State bits) (op : Op)

def freeIndexes : Nat := Slots.count (fun free => free) s.threadIdxMap

def dynThreads : Nat := s.objects.count KObject.isDynThread

def unrefs (ko : KObject bits) : Bool :=
  !removes op ko && (s.clearedIndex op ko.name).any fun index => (ko.unrefCheck index).isNone

def lost : Nat := s.objects.count fun ko => ko.isDynThread && s.unrefs op ko

variable {s op}

theorem isNone_fate (ko : KObject bits) : ((s.fate op).apply ko).isNone = (removes op ko || s.unrefs op ko) := by
  rw [fate_apply, unrefs]
  cases removes op ko with
  | true => rfl
  | false => cases s.clearedIndex op ko.name <;> rfl

theorem count_survivors (s : State bits) (op : Op) : (s.survivors op).count KObject.isDynThread +
    s.objects.count (fun ko => ko.isDynThread && removes op ko) + s.lost op = s.dynThreads := by
  have hc := s.objects.count_foreach (s.fate op) (p := KObject.isDynThread) <| by
    intro ko ko' hf
    rw [KObject.isDynThread, KObject.isDynThread, s.fate_type hf, s.fate_dynamic hf]
  have hs := s.objects.count_split (fun ko => ko.isDynThread && ((s.fate op).apply ko).isNone)
    (fun ko => removes op ko)
  have hr : s.objects.count (fun ko =>
      (ko.isDynThread && ((s.fate op).apply ko).isNone) && removes op ko) =
      s.objects.count (fun ko => ko.isDynThread && removes op ko) := by
    congr 1
    funext ko
    rw [isNone_fate]
    cases removes op ko <;> simp
  have hu : s.objects.count (fun ko =>
      (ko.isDynThread && ((s.fate op).apply ko).isNone) && !removes op ko) = s.lost op := by
    congr 1
    funext ko
    rw [isNone_fate, unrefs]
    cases removes op ko <;> simp
  rw [dynThreads, survivors]
  omega

theorem dynThreads_of_kept (hc : s.created op = none) :
    (s.call op).dynThreads = (s.survivors op).count KObject.isDynThread := by
  rw [dynThreads, (s.called op).kept hc]

theorem dynThreads_of_made {name : Nat} (hc : s.created op = some name) :
    (s.call op).dynThreads = (s.survivors op).count KObject.isDynThread +
      if (s.made op name).isDynThread then 1 else 0 := by
  obtain ⟨-, hf, ho⟩ := (s.called op).made name hc
  rw [dynThreads, ho, Registry.count_append]

theorem balance_call (h : Valid s) (op : Op) :
    (s.call op).freeIndexes + (s.call op).dynThreads + s.lost op = s.freeIndexes + s.dynThreads := by
  have hcn := s.count_survivors op
  have hu := Slots.count_update (fun free : Bool => free) s.threadIdxMap
  simp only [freeIndexes, (s.called op).map]
  cases s.moves h op with
  | Same hmp hm hf =>
    have hr : s.objects.count (fun ko => ko.isDynThread && removes op ko) = 0 := by
      refine Registry.count_eq_zero.mpr fun ko hko => ?_
      by_cases ht : ko.type = .Thread
      · simp [hf ko hko ht]
      · simp [KObject.isDynThread, ht]
    have hth : (s.call op).dynThreads = (s.survivors op).count KObject.isDynThread := by
      cases hc : s.created op with
      | none => exact dynThreads_of_kept hc
      | some name => simp [dynThreads_of_made hc, KObject.isDynThread, hm name hc]
    rw [hmp]
    omega
  | Takes tidx hfr hc hmp hm hf =>
    have hr : s.objects.count (fun ko => ko.isDynThread && removes op ko) = 0 :=
      Registry.count_eq_zero.mpr fun ko _ => by simp [hf ko]
    obtain ⟨name, hn⟩ := Option.ne_none_iff_exists'.mp hc
    have hth := dynThreads_of_made hn
    have hd : (s.made op name).isDynThread = true := by
      simp [KObject.isDynThread, (hm name).1]
    have hfre := hu tidx false
    simp only [Slots.of_first_eq_some hfr, if_true, Bool.false_eq_true, if_false] at hfre
    rw [hd, if_pos rfl] at hth
    rw [hmp]
    omega
  | Gives ko tidx hmm hd ht hi hc hmp hf =>
    have hr : s.objects.count (fun ko => ko.isDynThread && removes op ko) = 1 := by
      refine Registry.count_eq_one hmm ?_ fun o ho hp => ?_
      · simp [KObject.isDynThread, hd, ht, (hf ko hmm).mpr rfl]
      · exact (hf o ho).mp (Bool.and_eq_true_iff.mp hp).2
    have hth := dynThreads_of_kept hc
    have hfre := hu tidx true
    simp only [h.used ko hmm tidx hi, if_true, Bool.false_eq_true, if_false] at hfre
    rw [hmp]
    omega

end State

-- No dynamically allocated thread object loses its last permission but by k_object_free.
def KeepsThreads (s : State bits) (op : Op) : Prop :=
  ∀ ko ∈ s.objects.entries, ko.dynamic = true → ko.type = .Thread → op ≠ .Free ko.name →
    ∀ index, s.clearedIndex op ko.name = some index → ko.unrefCheck index ≠ none

theorem lost_eq_zero {s : State bits} : s.lost op = 0 ↔ KeepsThreads s op := by
  rw [State.lost, Registry.count_eq_zero]
  refine forall₂_congr fun ko hko => ?_
  cases hd : ko.dynamic with
  | false => simp [KObject.isDynThread, hd]
  | true =>
    cases hc : s.clearedIndex op ko.name with
    | none => simp [State.unrefs, hc]
    | some idx =>
      simp [KObject.isDynThread, State.unrefs, State.removes, hd, hc, Option.isSome_iff_ne_none]

-- The free indexes and the live dynamically allocated threads are as many as at first, and
-- no two threads have the same index.
structure Conserved (total : Nat) (s : State bits) : Prop where
  total : s.freeIndexes + s.dynThreads = total
  distinct : ∀ ko ∈ s.objects.entries, ∀ other ∈ s.objects.entries,
    ko.type = .Thread → other.type = .Thread → ko.threadId = other.threadId → ko = other

theorem Valid.conserved {s : State bits} (h : Valid s) : Conserved (s.freeIndexes + s.dynThreads) s where
  total := rfl
  distinct := by
    intro ko hko o ho ht _ hs
    obtain ⟨i, hi⟩ := Option.isSome_iff_exists.mp ((h.thread ko hko).mp ht)
    exact h.distinct ko hko o ho i hi (hs.symm.trans hi)

theorem Image.dynThreads_boot (im : Image bits) : im.boot.dynThreads = 0 :=
  Registry.count_eq_zero.mpr fun ko hko => by simp [KObject.isDynThread, im.dynamic ko hko]

theorem indexes_conserved_iff (image : Image bits) (ops : List Op) :
    Throughout step (Conserved image.boot.freeIndexes) image.boot ops ↔
      Along step KeepsThreads image.boot ops := by
  refine throughout_iff_along
    (fun s => Valid s ∧ s.freeIndexes + s.dynThreads = image.boot.freeIndexes) ?_ ?_ ?_
    ⟨image.valid_boot, by rw [image.dynThreads_boot, Nat.add_zero]⟩ ops
  · rintro s ⟨hv, ht⟩
    rw [← ht]
    exact hv.conserved
  · rintro s op next ⟨hv, ht⟩ hk hs
    obtain ⟨-, hn⟩ := Option.ite_none_right_eq_some.mp hs
    cases hn
    have hb := State.balance_call hv op
    rw [lost_eq_zero.mpr hk] at hb
    exact ⟨hv.call op, hb.trans ht⟩
  · rintro s op next ⟨hv, ht⟩ hl hs hc
    obtain ⟨-, hn⟩ := Option.ite_none_right_eq_some.mp hs
    cases hn
    have hb := State.balance_call hv op
    have ha := hc.total
    have hp : s.lost op ≠ 0 := fun hz => hl (lost_eq_zero.mp hz)
    omega

def twoThreads : Image 8 where
  objects :=
    { entries :=
        [⟨10, .Thread, 0, fun _ => false, some 0, false⟩,
          ⟨20, .Thread, 0, fun _ => false, some 1, false⟩,
          ⟨30, .Other 0, 0, fun _ => false, none, false⟩]
      nodup := by decide }
  threadIdxMap := fun i => 1 < i
  dynamic := by simp
  flags := by
    intro ko hko
    simp only [List.mem_cons, List.not_mem_nil, or_false] at hko
    rcases hko with rfl | rfl | rfl <;> decide
  perms := by simp
  thread := by simp
  distinct := by simp
  used := by simp

-- Thread 10 allocates a thread object and releases it: the index is not given back.
def oneThread : Image 8 where
  objects := ⟨[⟨10, .Thread, 0, fun _ => false, some 0, false⟩], by simp⟩
  threadIdxMap := fun i => i ≠ 0
  dynamic := by simp
  flags := by
    intro ko hko
    rw [List.mem_singleton.mp hko]
    decide
  perms := by simp
  thread := by simp
  distinct := by simp
  used := by simp

theorem released_thread_keeps_index :
    ∃ s, run step oneThread.boot [.Alloc 10 .Thread 0 (some 20), .Release 10 20] = some s ∧
      oneThread.boot.freeIndexes = 7 ∧ oneThread.boot.dynThreads = 0 ∧
      s.freeIndexes = 6 ∧ s.dynThreads = 0 :=
  ⟨_, rfl, by decide, by decide, by decide, by decide⟩

end Gale.Userspace
