import Gale.Lib.Run

namespace Gale.RingBuf.Claims

open Function Lib

-- The indexes are u32.
def U32 : Nat := 4294967296

def wrappingAdd (a b : Nat) : Nat := (a + b) % U32

def wrappingSub (a b : Nat) : Nat := (a + U32 - b) % U32

-- From src/ring_buf.rs.
structure ClaimDecision where
  claimSize : Nat
  bufferOffset : Nat

def claimDecide (head base bufSize requested : Nat) : ClaimDecision :=
  if bufSize = 0 then ⟨0, 0⟩
  else
    let rawOffset := wrappingSub head base
    let headOffset := if rawOffset ≥ bufSize then rawOffset % bufSize else rawOffset
    let wrapSize := bufSize - headOffset
    ⟨if requested ≤ wrapSize then requested else wrapSize, headOffset⟩

def finishDecide (head tail size : Nat) : Bool := size ≤ wrappingSub head tail

def spaceGetDecide (putHead getTail bufSize : Nat) : Nat :=
  if bufSize = 0 then 0
  else
    let allocated := wrappingSub putHead getTail
    if allocated > bufSize then 0 else bufSize - allocated

def sizeGetDecide (putTail getHead : Nat) : Nat := wrappingSub putTail getHead

inductive Side where
  | Put
  | Get
  deriving DecidableEq

structure Index where
  head : Nat
  tail : Nat
  base : Nat

structure Position where
  head : Nat
  tail : Nat

structure State where
  index : Side → Index
  position : Side → Position

inductive Op where
  | Claim (side : Side) (requested : Nat)
  | Finish (side : Side) (size : Nat)

namespace State

def start (value : Nat) : State where
  index := fun _ => ⟨value % U32, value % U32, value % U32⟩
  position := fun _ => ⟨0, 0⟩

def room (bufSize : Nat) (s : State) : Side → Nat
  | .Put => spaceGetDecide (s.index .Put).head (s.index .Get).tail bufSize
  | .Get => sizeGetDecide (s.index .Put).tail (s.index .Get).head

def decision (bufSize : Nat) (s : State) (side : Side) (requested : Nat) : ClaimDecision :=
  claimDecide (s.index side).head (s.index side).base bufSize requested

def set (s : State) (side : Side) (i : Index) (p : Position) : State where
  index := update s.index side i
  position := update s.position side p

def step (bufSize : Nat) (s : State) : Op → Option State
  | .Claim side requested =>
    if requested ≤ s.room bufSize side then
      let claimSize := (s.decision bufSize side requested).claimSize
      let i := s.index side
      let p := s.position side
      some (s.set side { i with head := wrappingAdd i.head claimSize }
        { p with head := p.head + claimSize })
    else none
  | .Finish side size =>
    let i := s.index side
    let p := s.position side
    if finishDecide i.head i.tail size then
      let tail := wrappingAdd i.tail size
      let base := if wrappingSub tail i.base ≥ bufSize then wrappingAdd i.base bufSize else i.base
      some (s.set side ⟨tail, tail, base⟩ ⟨p.tail + size, p.tail + size⟩)
    else none

structure Exact (bufSize : Nat) (s : State) : Prop where
  offset : ∀ side requested, requested ≤ s.room bufSize side →
    (s.decision bufSize side requested).bufferOffset = (s.position side).head % bufSize ∧
      (s.decision bufSize side requested).bufferOffset +
        (s.decision bufSize side requested).claimSize ≤ bufSize
  -- what is not read yet, or claimed for a byte to come, is not designated again
  apart : ∀ requested, requested ≤ s.room bufSize .Put → ∀ kept written,
    (s.position .Get).tail ≤ kept → kept < (s.position .Put).head → (s.position .Put).head ≤ written →
      written < (s.position .Put).head + (s.decision bufSize .Put requested).claimSize →
        kept % bufSize ≠ written % bufSize
  order : (s.position .Get).tail ≤ (s.position .Get).head ∧
    (s.position .Get).head ≤ (s.position .Put).tail ∧ (s.position .Put).tail ≤ (s.position .Put).head
  space : s.room bufSize .Put + ((s.position .Put).head - (s.position .Get).tail) = bufSize
  size : s.room bufSize .Get = (s.position .Put).tail - (s.position .Get).head

end State

-- The words are the position modulo 2^32, and base is the lap that tail is in.
structure Words (value bufSize : Nat) (i : Index) (p : Position) : Prop where
  head : i.head = (value + p.head) % U32
  tail : i.tail = (value + p.tail) % U32
  base : i.base = (value + p.tail / bufSize * bufSize) % U32
  finished : p.tail ≤ p.head

structure State.Inv (value bufSize : Nat) (s : State) : Prop where
  words : ∀ side, Words value bufSize (s.index side) (s.position side)
  written : (s.position .Get).head ≤ (s.position .Put).tail
  full : (s.position .Put).head ≤ (s.position .Get).tail + bufSize

theorem wrappingSub_eq {value first last : Nat} (hle : first ≤ last) (hlt : last - first < U32) :
    wrappingSub ((value + last) % U32) ((value + first) % U32) = last - first := by
  simp only [wrappingSub, U32] at *
  omega

theorem wrappingAdd_eq (value n m : Nat) : wrappingAdd ((value + n) % U32) m = (value + (n + m)) % U32 := by
  simp only [wrappingAdd, U32]
  omega

theorem claimDecide_eq {value bufSize head lap : Nat} (hpos : 0 < bufSize) (hle : lap * bufSize ≤ head)
    (hlt : head - lap * bufSize < U32) (n : Nat) :
    claimDecide ((value + head) % U32) ((value + lap * bufSize) % U32) bufSize n =
      ⟨min n (bufSize - head % bufSize), head % bufSize⟩ := by
  have hm : (head - lap * bufSize) % bufSize = head % bufSize := by
    rw [Nat.mul_comm] at hle ⊢
    exact Nat.sub_mul_mod hle
  have ho : (if wrappingSub ((value + head) % U32) ((value + lap * bufSize) % U32) ≥ bufSize then
      wrappingSub ((value + head) % U32) ((value + lap * bufSize) % U32) % bufSize
      else wrappingSub ((value + head) % U32) ((value + lap * bufSize) % U32)) = head % bufSize := by
    rw [wrappingSub_eq hle hlt, ← hm]
    split
    · rfl
    · next h => exact (Nat.mod_eq_of_lt (Nat.not_le.mp h)).symm
  simp only [claimDecide, Nat.ne_of_gt hpos, if_false, ho, Nat.min_def]

theorem lap_eq {bufSize before after : Nat} (hle : before ≤ after)
    (hlt : after < before / bufSize * bufSize + 2 * bufSize) : after / bufSize * bufSize =
      if after - before / bufSize * bufSize ≥ bufSize then before / bufSize * bufSize + bufSize
      else before / bufSize * bufSize := by
  have hl := Nat.div_mul_le_self before bufSize
  split
  · next h =>
    have hd : after / bufSize = before / bufSize + 1 := by
      refine Nat.div_eq_of_lt_le ?_ ?_ <;> simp only [Nat.add_mul] <;> omega
    rw [hd, Nat.add_mul, Nat.one_mul]
  · next h =>
    have hd : after / bufSize = before / bufSize := by
      refine Nat.div_eq_of_lt_le (by omega) ?_
      rw [Nat.add_mul]
      omega
    rw [hd]

namespace State

variable {value bufSize : Nat} {s next : State}

theorem start_inv (value bufSize : Nat) : (start value).Inv value bufSize := by
  refine ⟨fun _ => ⟨rfl, rfl, ?_, Nat.le_refl _⟩, Nat.le_refl _, ?_⟩
  · simp [start]
  · simp [start]

theorem set_words {side : Side} {i : Index} {p : Position} (h : s.Inv value bufSize)
    (hs : Words value bufSize i p) (o : Side) :
    Words value bufSize ((s.set side i p).index o) ((s.set side i p).position o) := by
  by_cases heq : o = side
  · subst heq
    simpa only [set, update_self] using hs
  · simpa only [set, update_of_ne heq] using h.words o

theorem Inv.head_le (h : s.Inv value bufSize) (side : Side) :
    (s.position side).head ≤ (s.position side).tail + bufSize := by
  have hp := (h.words .Put).finished
  have hg := (h.words .Get).finished
  have hw := h.written
  have hf := h.full
  cases side <;> omega

theorem Inv.lap_lt (h : s.Inv value bufSize) (hpos : 0 < bufSize) (side : Side) :
    (s.position side).head < (s.position side).tail / bufSize * bufSize + 2 * bufSize := by
  have hle := h.head_le side
  have hd := Nat.div_add_mod' (s.position side).tail bufSize
  have hm := Nat.mod_lt (s.position side).tail hpos
  omega

section Sized

variable (h : s.Inv value bufSize) (hpos : 0 < bufSize) (hmax : bufSize ≤ 2 ^ 31)
include h hpos hmax

theorem Inv.room_put : s.room bufSize .Put = bufSize - ((s.position .Put).head - (s.position .Get).tail) := by
  have hp := (h.words .Put).finished
  have hg := (h.words .Get).finished
  have hw := h.written
  have hf := h.full
  have ha : wrappingSub (s.index .Put).head (s.index .Get).tail = (s.position .Put).head - (s.position .Get).tail := by
    rw [(h.words _).head, (h.words _).tail]
    refine wrappingSub_eq (by omega) ?_
    rw [U32]
    omega
  simp only [room, spaceGetDecide, ha, Nat.ne_of_gt hpos, if_false]
  exact if_neg (by omega)

theorem Inv.room_get : s.room bufSize .Get = (s.position .Put).tail - (s.position .Get).head := by
  have hp := (h.words .Put).finished
  have hg := (h.words .Get).finished
  have hw := h.written
  have hf := h.full
  rw [room, sizeGetDecide, (h.words _).head, (h.words _).tail]
  refine wrappingSub_eq hw ?_
  rw [U32]
  omega

theorem Inv.decision_eq (side : Side) (n : Nat) : s.decision bufSize side n =
      ⟨min n (bufSize - (s.position side).head % bufSize), (s.position side).head % bufSize⟩ := by
  have hl := h.lap_lt hpos side
  have hf := (h.words side).finished
  have hlw := Nat.div_mul_le_self (s.position side).tail bufSize
  rw [decision, (h.words side).head, (h.words side).base]
  refine claimDecide_eq hpos (by omega) ?_ n
  rw [U32]
  omega

theorem Inv.claim {side : Side} {requested : Nat}
    (hs : s.step bufSize (.Claim side requested) = some next) : next.Inv value bufSize := by
  obtain ⟨hro, ⟨⟩⟩ := Option.ite_none_right_eq_some.mp hs
  have hc : (s.decision bufSize side requested).claimSize ≤ requested := by
    rw [h.decision_eq hpos hmax]
    exact Nat.min_le_left _ _
  have hp := (h.words .Put).finished
  have hg := (h.words .Get).finished
  have hw := h.written
  have hf := h.full
  have hrm := h.room_put hpos hmax
  have hr := h.room_get hpos hmax
  have hsd := h.words side
  refine ⟨set_words h ⟨?_, hsd.tail, hsd.base, Nat.le_add_right_of_le hsd.finished⟩, ?_, ?_⟩
  · rw [hsd.head, wrappingAdd_eq]
  · cases side <;> simp [set, update] <;> omega
  · cases side <;> simp [set, update] <;> omega

theorem Inv.finish {side : Side} {size : Nat}
    (hs : s.step bufSize (.Finish side size) = some next) : next.Inv value bufSize := by
  obtain ⟨hsz, ⟨⟩⟩ := Option.ite_none_right_eq_some.mp hs
  have hlp := h.lap_lt hpos side
  have hh := h.head_le side
  have hlw := Nat.div_mul_le_self (s.position side).tail bufSize
  have hp := (h.words .Put).finished
  have hg := (h.words .Get).finished
  have hw := h.written
  have hfl := h.full
  have hft : (s.position side).tail + size ≤ (s.position side).head := by
    have hl : wrappingSub (s.index side).head (s.index side).tail =
        (s.position side).head - (s.position side).tail := by
      rw [(h.words _).head, (h.words _).tail]
      refine wrappingSub_eq ((h.words side).finished) ?_
      rw [U32]
      omega
    have hle := of_decide_eq_true hsz
    have hf := (h.words side).finished
    omega
  have ht : wrappingAdd (s.index side).tail size = (value + ((s.position side).tail + size)) % U32 := by
    rw [(h.words side).tail, wrappingAdd_eq]
  have hb : (if wrappingSub (wrappingAdd (s.index side).tail size) (s.index side).base ≥ bufSize then
      wrappingAdd (s.index side).base bufSize else (s.index side).base) =
      (value + ((s.position side).tail + size) / bufSize * bufSize) % U32 := by
    rw [ht, (h.words side).base, wrappingAdd_eq, wrappingSub_eq (by omega) (by rw [U32]; omega),
      lap_eq (Nat.le_add_right _ size) (by omega)]
    split <;> rfl
  refine ⟨set_words h ⟨ht, ht, hb, Nat.le_refl _⟩, ?_, ?_⟩
  · cases side <;> simp [set, update] <;> omega
  · cases side <;> simp [set, update] <;> omega

theorem Inv.step (op : Op) (hs : s.step bufSize op = some next) : next.Inv value bufSize := by
  cases op with
  | Claim side n => exact h.claim hpos hmax hs
  | Finish side size => exact h.finish hpos hmax hs

theorem Inv.exact : s.Exact bufSize where
  offset := by
    intro side requested _
    have hm := Nat.mod_lt (s.position side).head hpos
    rw [h.decision_eq hpos hmax]
    exact ⟨rfl, by simp only; omega⟩
  apart := by
    intro requested hr kept w hk hh hle hlt heq
    have hc : (s.decision bufSize .Put requested).claimSize ≤ requested := by
      rw [h.decision_eq hpos hmax]
      exact Nat.min_le_left _ _
    have hf := h.full
    rw [h.room_put hpos hmax] at hr
    have hd : bufSize ∣ w - kept :=
      Nat.dvd_of_mod_eq_zero (Nat.sub_mod_eq_zero_of_mod_eq heq.symm)
    have hge := Nat.le_of_dvd (by omega) hd
    omega
  order := ⟨(h.words .Get).finished, h.written, (h.words .Put).finished⟩
  space := by
    have hf := h.full
    rw [h.room_put hpos hmax]
    omega
  size := h.room_get hpos hmax

end Sized

end State

theorem indices_right_across_wrap {bufSize : Nat} (hpos : 0 < bufSize) (hmax : bufSize ≤ 2 ^ 31)
    (value : Nat) (ops : List Op) :
    Throughout (State.step bufSize) (State.Exact bufSize) (.start value) ops :=
  (throughout_of_step (fun _ op _ h hs => h.step hpos hmax op hs) (State.start_inv value bufSize)
    ops).mono fun _ h => h.exact hpos hmax

theorem three_bytes_right_across_wrap : Throughout (State.step 3) (State.Exact 3) (.start 4294967294)
      [.Claim .Put 3, .Finish .Put 3, .Claim .Get 2, .Finish .Get 2, .Claim .Put 2] :=
  indices_right_across_wrap (by decide) (by decide) 4294967294 _

end Gale.RingBuf.Claims
