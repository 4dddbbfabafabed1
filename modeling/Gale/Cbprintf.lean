import Gale.Kernel

namespace Gale.Cbprintf

-- usize has w bits.
variable (w : Nat)

def USIZE_MAX : Nat := 2 ^ w - 1

-- From src/cbprintf.rs.
def MAX_OUTPUT_LEN : Nat := USIZE_MAX w / 2

structure OutputState where
  count : Nat
  overflow : Bool

namespace OutputState

def new : OutputState := ⟨0, false⟩

def addBytes (s : OutputState) (n : Nat) : OutputState :=
  if n > MAX_OUTPUT_LEN w - s.count then ⟨MAX_OUTPUT_LEN w, true⟩ else ⟨s.count + n, s.overflow⟩

end OutputState

def outputBoundsCheck (state : OutputState) (n : Nat) : OutputState := state.addBytes w n

-- From ffi/src/lib.rs, which writes -75 for -EOVERFLOW, with an out_count that is not null.
def POSIX_EOVERFLOW : Int := -75

def galeCbprintfOutputAdd (count n : Nat) : Int × Nat :=
  let clampedCount := if count > MAX_OUTPUT_LEN w then MAX_OUTPUT_LEN w else count
  let next := outputBoundsCheck w ⟨clampedCount, false⟩ n
  (if next.overflow then POSIX_EOVERFLOW else OK, next.count)

-- From zephyr/gale_cbprintf.c, with a count_inout that is not NULL.
def galeCbprintfAccumulateOutput (countInout n : Nat) : Int × Nat :=
  galeCbprintfOutputAdd w countInout n

def counter (counts : List Nat) : Nat :=
  counts.foldl (fun count n => (galeCbprintfAccumulateOutput w count n).2) 0

def model (counts : List Nat) : OutputState := counts.foldl (OutputState.addBytes w) OutputState.new

variable {w}

theorem OutputState.addBytes_eq {s : OutputState} (hc : s.count ≤ MAX_OUTPUT_LEN w) (n : Nat) :
    s.addBytes w n = ⟨min (s.count + n) (MAX_OUTPUT_LEN w),
      s.overflow || decide (MAX_OUTPUT_LEN w < s.count + n)⟩ := by
  unfold addBytes
  split
  · next h =>
    have hp : MAX_OUTPUT_LEN w < s.count + n := by omega
    rw [Nat.min_eq_right (Nat.le_of_lt hp), decide_eq_true hp, Bool.or_true]
  · next h =>
    have hf : s.count + n ≤ MAX_OUTPUT_LEN w := by omega
    rw [Nat.min_eq_left hf, decide_eq_false (Nat.not_lt.mpr hf), Bool.or_false]

theorem model_eq (cs : List Nat) : model w cs =
    ⟨min cs.sum (MAX_OUTPUT_LEN w), decide (MAX_OUTPUT_LEN w < cs.sum)⟩ := by
  induction cs using List.reverseRecOn with
  | nil => simp [model, OutputState.new]
  | append_singleton cs n ih =>
    rw [model, List.foldl_append, ← model, ih, List.foldl_cons, List.foldl_nil,
      OutputState.addBytes_eq (Nat.min_le_right _ _), List.sum_append, List.sum_singleton,
      ← Bool.decide_or]
    simp only [OutputState.mk.injEq, decide_eq_decide]
    omega

-- The shim starts from a state that is not marked, whatever the calls before it saw.
theorem accumulate_eq {count : Nat} (hc : count ≤ MAX_OUTPUT_LEN w) (n : Nat) :
    galeCbprintfAccumulateOutput w count n = (if MAX_OUTPUT_LEN w < count + n then POSIX_EOVERFLOW else OK,
        min (count + n) (MAX_OUTPUT_LEN w)) := by
  unfold galeCbprintfAccumulateOutput galeCbprintfOutputAdd outputBoundsCheck
  simp [Nat.not_lt.mpr hc, OutputState.addBytes_eq (s := ⟨count, false⟩) hc]

theorem counter_eq (cs : List Nat) : counter w cs = min cs.sum (MAX_OUTPUT_LEN w) := by
  induction cs using List.reverseRecOn with
  | nil => simp [counter]
  | append_singleton cs n ih =>
    rw [counter, List.foldl_append, ← counter, ih, List.foldl_cons, List.foldl_nil,
      accumulate_eq (Nat.min_le_right _ _), List.sum_append, List.sum_singleton]
    omega

-- A call with n after those of before leaves the count of the model and reports its mark.
structure Accounts (w : Nat) (before : List Nat) (n : Nat) : Prop where
  count : (galeCbprintfAccumulateOutput w (counter w before) n).2 = (model w (before ++ [n])).count
  report : (galeCbprintfAccumulateOutput w (counter w before) n).1 = POSIX_EOVERFLOW ↔
    (model w (before ++ [n])).overflow = true

theorem accounts_iff (before : List Nat) (n : Nat) :
    Accounts w before n ↔ (MAX_OUTPUT_LEN w < before.sum → n ≠ 0) := by
  have hr (passed : Prop) [Decidable passed] :
      (if passed then POSIX_EOVERFLOW else OK) = POSIX_EOVERFLOW ↔ passed := by
    by_cases h : passed <;> simp [h, POSIX_EOVERFLOW, OK]
  have hc := accumulate_eq (Nat.min_le_right before.sum (MAX_OUTPUT_LEN w)) n
  rw [← counter_eq] at hc
  have hm := @model_eq w (before ++ [n])
  rw [List.sum_append, List.sum_singleton] at hm
  constructor
  · rintro ⟨-, h⟩ hp rfl
    rw [hc, hr, hm, decide_eq_true_iff, counter_eq] at h
    omega
  · intro h
    refine ⟨?_, ?_⟩
    · rw [hc, hm, counter_eq]
      simp only
      omega
    · rw [hc, hr, hm, decide_eq_true_iff, counter_eq]
      omega

theorem output_accounting_iff (w : Nat) (counts : List Nat) :
    (∀ before n rest, counts = before ++ n :: rest → Accounts w before n) ↔
      ∀ before n rest, counts = before ++ n :: rest → MAX_OUTPUT_LEN w < before.sum → n ≠ 0 := by
  simp only [accounts_iff]

theorem nothing_after_too_much : (counter 32 [4294967295] = 2147483647) ∧
    galeCbprintfAccumulateOutput 32 2147483647 0 = (OK, 2147483647) ∧
    (model 32 [4294967295, 0]).overflow = true := by
  decide

end Gale.Cbprintf
