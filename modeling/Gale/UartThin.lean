import Mathlib

namespace Gale.UartThin

def RXNE : UInt32 := (1 : UInt32) <<< 5
def ORE : UInt32 := (1 : UInt32) <<< 3
def FE : UInt32 := (1 : UInt32) <<< 1

inductive RxStatus where
  | Idle
  | Ready
  | Overrun
  | FramingError
  deriving DecidableEq, Repr

def usartRxDecide (sr : UInt32) : RxStatus :=
  if sr &&& ORE ≠ 0 then .Overrun
  else if sr &&& FE ≠ 0 then .FramingError
  else if sr &&& RXNE ≠ 0 then .Ready
  else .Idle

def RX_NONE : UInt32 := 0xFFFFFFFF

-- The receiver of the USART: a byte that arrives while RXNE is set is dropped and sets ORE;
-- reading DR after SR clears the three flags.
structure Usart where
  rxne : Bool
  ore : Bool
  fe : Bool
  dr : UInt32
  srRead : Bool

namespace Usart

def reset : Usart := ⟨false, false, false, 0, false⟩

def arrive (u : Usart) (byte : UInt32) : Usart :=
  if u.rxne then { u with ore := true, srRead := false } else { u with rxne := true, dr := byte }

def garble (u : Usart) : Usart := { u with fe := true, srRead := false }

def sr (u : Usart) : UInt32 :=
  (if u.rxne then RXNE else 0) ||| (if u.ore then ORE else 0) ||| if u.fe then FE else 0

def readSr (u : Usart) : UInt32 × Usart := (u.sr, { u with srRead := true })

def readDr (u : Usart) : UInt32 × Usart :=
  (u.dr, if u.srRead then { u with rxne := false, ore := false, fe := false, srRead := false } else u)

def uartRx (u : Usart) : UInt32 × Usart :=
  let (sr, u) := u.readSr
  match usartRxDecide sr with
  | .Ready =>
    let (dr, u) := u.readDr
    (dr &&& 0xFF, u)
  | _ => (RX_NONE, u)

def Stuck (u : Usart) : Prop := u.rxne = true ∧ (u.ore = true ∨ u.fe = true)

instance (u : Usart) : Decidable u.Stuck := inferInstanceAs (Decidable (_ ∧ _))

theorem decide_sr (u : Usart) : usartRxDecide u.sr =
    if u.ore then .Overrun else if u.fe then .FramingError else if u.rxne then .Ready else .Idle := by
  unfold sr
  generalize u.rxne = rxne
  generalize u.ore = ore
  generalize u.fe = fe
  revert rxne ore fe
  decide

variable {u : Usart}

theorem uartRx_of_stuck (h : u.Stuck) : u.uartRx = (RX_NONE, { u with srRead := true }) := by
  obtain ⟨-, he⟩ := h
  simp only [uartRx, readSr, decide_sr]
  by_cases ho : u.ore = true
  · simp [ho]
  · simp [ho, he.resolve_left ho]

theorem uartRx_of_not_stuck (h : ¬ u.Stuck) (hr : u.rxne = true) : u.uartRx.1 ≠ RX_NONE := by
  have hc : u.ore = false ∧ u.fe = false := by simpa [Stuck, hr] using h
  simp only [uartRx, readSr, decide_sr, hc, hr, Bool.false_eq_true, if_true, if_false, readDr]
  intro heq
  have hle : (u.dr &&& 0xFF).toNat ≤ 255 := by
    rw [UInt32.toNat_and]
    exact Nat.and_le_right
  rw [heq] at hle
  exact absurd hle (by decide)

end Usart

inductive Event where
  | Arrival (byte : UInt32)
  | FramingError
  | Rx
  deriving DecidableEq, Repr

-- The errors so far, and the calls that returned RX_NONE although RXNE was set.
structure Line where
  usart : Usart
  errors : Nat
  missed : Nat

namespace Line

def start : Line := ⟨.reset, 0, 0⟩

def next (l : Line) : Event → Line
  | .Arrival byte =>
    { l with usart := l.usart.arrive byte, errors := l.errors + if l.usart.rxne then 1 else 0 }
  | .FramingError => { l with usart := l.usart.garble, errors := l.errors + 1 }
  | .Rx =>
    { l with
      usart := l.usart.uartRx.2
      missed := l.missed + if l.usart.rxne ∧ l.usart.uartRx.1 = RX_NONE then 1 else 0 }

def after (l : Line) (events : List Event) : Line := events.foldl next l

def callsSince (l : Line) : List Event → Nat
  | [] => 0
  | event :: rest =>
    if l.usart.Stuck then (event :: rest).count .Rx else callsSince (l.next event) rest

variable {l : Line}

theorem next_of_stuck (h : l.usart.Stuck) (event : Event) : (l.next event).usart.Stuck ∧
    (l.next event).missed = l.missed + if event = .Rx then 1 else 0 := by
  obtain ⟨hr, he⟩ := h
  cases event with
  | Arrival byte => simp [next, Usart.arrive, Usart.Stuck, hr]
  | FramingError => simp [next, Usart.garble, Usart.Stuck, hr]
  | Rx => simp [next, Usart.uartRx_of_stuck ⟨hr, he⟩, Usart.Stuck, hr, he]

theorem after_of_stuck (h : l.usart.Stuck) (es : List Event) : (l.after es).missed = l.missed + es.count .Rx := by
  induction es generalizing l with
  | nil => rfl
  | cons event rest ih =>
    obtain ⟨hs, hm⟩ := next_of_stuck h event
    have hr := ih hs
    rw [hm] at hr
    simp only [after, List.foldl_cons, List.count_cons, beq_iff_eq] at hr ⊢
    omega

theorem next_of_not_stuck (h : ¬ l.usart.Stuck) (event : Event) : (l.next event).missed = l.missed := by
  cases event with
  | Arrival byte | FramingError => rfl
  | Rx =>
    simp only [next, Nat.add_eq_left, ite_eq_right_iff, Nat.one_ne_zero, imp_false, not_and]
    exact Usart.uartRx_of_not_stuck h

theorem missed_eq (l : Line) (events : List Event) : (l.after events).missed = l.missed + l.callsSince events := by
  induction events generalizing l with
  | nil => rfl
  | cons event rest ih =>
    rw [callsSince]
    split
    · next hs => exact after_of_stuck hs _
    · next hf =>
      rw [← next_of_not_stuck hf event, ← ih]
      rfl

end Line

end Gale.UartThin
