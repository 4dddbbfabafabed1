import Mathlib

namespace Gale.Lib

-- One access to a register, with the value that went over the bus.
inductive Access where
  | Read (addr value : UInt32)
  | Write (addr value : UInt32)

def Access.addr : Access → UInt32
  | .Read addr _ | .Write addr _ => addr

def besides (polled : UInt32) (accesses : List Access) : List Access :=
  accesses.filter fun access => access.addr ≠ polled

@[simp] theorem besides_append (polled : UInt32) (first second : List Access) :
    besides polled (first ++ second) = besides polled first ++ besides polled second :=
  List.filter_append first second

variable {polled : UInt32}

theorem besides_cons_polled {a : Access} (h : a.addr = polled) (rest : List Access) :
    besides polled (a :: rest) = besides polled rest :=
  List.filter_cons_of_neg fun hne => of_decide_eq_true hne h

theorem besides_cons_other {a : Access} (h : a.addr ≠ polled) (rest : List Access) :
    besides polled (a :: rest) = a :: besides polled rest :=
  List.filter_cons_of_pos (decide_eq_true h)

theorem besides_read {addr value : UInt32} (h : addr ≠ polled) (rest : List Access) :
    besides polled (.Read addr value :: rest) = .Read addr value :: besides polled rest := by
  apply besides_cons_other
  exact h

theorem besides_write {addr value : UInt32} (h : addr ≠ polled) (rest : List Access) :
    besides polled (.Write addr value :: rest) = .Write addr value :: besides polled rest := by
  apply besides_cons_other
  exact h

-- A program over memory-mapped registers. Spin is the loop that reads a status
-- register until the value is right.
inductive Mmio (α : Type) where
  | Ret (result : α)
  | Read (addr : UInt32) (rest : UInt32 → Mmio α)
  | Write (addr value : UInt32) (rest : Mmio α)
  | Spin (addr : UInt32) (ready : UInt32 → Bool) (rest : Mmio α)

namespace Mmio

variable {α β σ ε : Type}

def bind : Mmio α → (α → Mmio β) → Mmio β
  | .Ret result, next => next result
  | .Read addr rest, next => .Read addr fun value => (rest value).bind next
  | .Write addr value rest, next => .Write addr value (rest.bind next)
  | .Spin addr ready rest, next => .Spin addr ready (rest.bind next)

instance : Monad Mmio where
  pure := .Ret
  bind := bind

def rd (addr : UInt32) : Mmio UInt32 := .Read addr .Ret

def wr (addr value : UInt32) : Mmio Unit := .Write addr value (.Ret ())

def spin (addr : UInt32) (ready : UInt32 → Bool) : Mmio Unit := .Spin addr ready (.Ret ())

@[simp] theorem pure_eq (result : α) : (pure result : Mmio α) = .Ret result := rfl

@[simp] theorem ret_bind (result : α) (next : α → Mmio β) : Mmio.Ret result >>= next = next result :=
  rfl

@[simp] theorem rd_bind (addr : UInt32) (next : UInt32 → Mmio β) : rd addr >>= next = .Read addr next :=
  rfl

@[simp] theorem wr_bind (addr value : UInt32) (next : Unit → Mmio β) :
    wr addr value >>= next = .Write addr value (next ()) := rfl

@[simp] theorem spin_bind (addr : UInt32) (ready : UInt32 → Bool) (next : Unit → Mmio β) :
    spin addr ready >>= next = .Spin addr ready (next ()) := rfl

end Mmio

-- The registers of a device. Before each read something may happen in the
-- device on its own.
structure Device (σ ε : Type) where
  read : σ → ε → UInt32 → UInt32 × σ
  write : σ → UInt32 → UInt32 → σ

structure Outcome (σ α : Type) where
  accesses : List Access
  state : σ
  result : Option α

namespace Mmio

variable {α σ ε : Type} (device : Device σ ε)

-- The loop on a status register, with the happenings it leaves for the rest.
def waits (addr : UInt32) (ready : UInt32 → Bool) : σ → List ε → Outcome σ (List ε)
  | state, [] => ⟨[], state, none⟩
  | state, event :: events =>
    let (value, state) := device.read state event addr
    if ready value then ⟨[.Read addr value], state, some events⟩
    else
      let later := waits addr ready state events
      { later with accesses := .Read addr value :: later.accesses }

def exec : Mmio α → σ → List ε → Outcome σ α
  | .Ret result, state, _ => ⟨[], state, some result⟩
  | .Read _ _, state, [] => ⟨[], state, none⟩
  | .Read addr rest, state, event :: events =>
    let (value, state) := device.read state event addr
    let later := (rest value).exec state events
    { later with accesses := .Read addr value :: later.accesses }
  | .Write addr value rest, state, events =>
    let later := rest.exec (device.write state addr value) events
    { later with accesses := .Write addr value :: later.accesses }
  | .Spin addr ready rest, state, events =>
    let polled := waits device addr ready state events
    match polled.result with
    | none => ⟨polled.accesses, polled.state, none⟩
    | some events =>
      let later := rest.exec polled.state events
      { later with accesses := polled.accesses ++ later.accesses }

variable {device} {addr value : UInt32} {ready : UInt32 → Bool} {state : σ} {events : List ε}
  {result : α}

theorem mem_waits {a : Access} (h : a ∈ (waits device addr ready state events).accesses) :
    ∃ value, a = .Read addr value := by
  induction events generalizing state with
  | nil => simp [waits] at h
  | cons event events ih =>
    simp only [waits] at h
    split at h
    · exact ⟨_, List.mem_singleton.mp h⟩
    · rcases List.mem_cons.mp h with rfl | h
      · exact ⟨_, rfl⟩
      · exact ih h

theorem ready_of_waits {l : List ε} (h : (waits device addr ready state events).result = some l) :
    ∃ value, ready value = true ∧ .Read addr value ∈ (waits device addr ready state events).accesses := by
  induction events generalizing state with
  | nil => simp [waits] at h
  | cons event events ih =>
    simp only [waits] at h ⊢
    split at h
    · next hr => exact ⟨_, hr, by simp [hr]⟩
    · next hr =>
        obtain ⟨value, hv, hm⟩ := ih h
        exact ⟨value, hv, by simp [hr, hm]⟩

@[simp] theorem write_not_mem_waits {other : UInt32} :
    Access.Write other value ∉ (waits device addr ready state events).accesses := by
  intro h
  obtain ⟨_, hr⟩ := mem_waits h
  cases hr

@[simp] theorem besides_waits : besides addr (waits device addr ready state events).accesses = [] := by
  rw [besides, List.filter_eq_nil_iff]
  intro a h
  obtain ⟨value, rfl⟩ := mem_waits h
  simp [Access.addr]

section Writes

variable {addr value other written : UInt32} {state : σ} {event : ε} {events : List ε}

@[simp] theorem write_mem_ret {result : α} :
    Access.Write addr value ∉ (exec device (.Ret result) state events).accesses := by
  simp [exec]

@[simp] theorem write_mem_write {rest : Mmio α} :
    Access.Write addr value ∈ (exec device (.Write other written rest) state events).accesses ↔
      addr = other ∧ value = written ∨ Access.Write addr value ∈
          (exec device rest (device.write state other written) events).accesses := by
  simp [exec]

@[simp] theorem write_mem_read_nil {rest : UInt32 → Mmio α} :
    Access.Write addr value ∉ (exec device (.Read other rest) state []).accesses := by
  simp [exec]

@[simp] theorem write_mem_read {rest : UInt32 → Mmio α} :
    Access.Write addr value ∈ (exec device (.Read other rest) state (event :: events)).accesses ↔
      Access.Write addr value ∈ (exec device (rest (device.read state event other).1)
        (device.read state event other).2 events).accesses := by
  simp [exec]

@[simp] theorem write_mem_spin {ready : UInt32 → Bool} {rest : Mmio α} :
    Access.Write addr value ∈ (exec device (.Spin other ready rest) state events).accesses ↔
      ∃ l, (waits device other ready state events).result = some l ∧ Access.Write addr value ∈
          (exec device rest (waits device other ready state events).state l).accesses := by
  cases hr : (waits device other ready state events).result <;> simp [exec, hr]

end Writes

@[simp] theorem exec_ret_result : (exec device (.Ret result) state events).result = some result := rfl

@[simp] theorem exec_write_result {rest : Mmio α} : (exec device (.Write addr value rest) state events).result =
      (exec device rest (device.write state addr value) events).result := rfl

@[simp] theorem exec_read_nil_result {rest : UInt32 → Mmio α} :
    (exec device (.Read addr rest) state []).result = none := rfl

@[simp] theorem exec_read_result {rest : UInt32 → Mmio α} {event : ε} :
    (exec device (.Read addr rest) state (event :: events)).result =
      (exec device (rest (device.read state event addr).1) (device.read state event addr).2 events).result := rfl

theorem exec_write {rest : Mmio α} : exec device (.Write addr value rest) state events =
      { exec device rest (device.write state addr value) events with
        accesses := .Write addr value :: (exec device rest (device.write state addr value) events).accesses } := rfl

theorem exec_spin {rest : Mmio α} {l : List ε} (h : (waits device addr ready state events).result = some l) :
    exec device (.Spin addr ready rest) state events =
      { exec device rest (waits device addr ready state events).state l with
        accesses := (waits device addr ready state events).accesses ++
          (exec device rest (waits device addr ready state events).state l).accesses } := by
  simp [exec, h]

theorem exec_spin_ret : exec device (.Spin addr ready (.Ret result)) state events =
      ⟨(waits device addr ready state events).accesses, (waits device addr ready state events).state,
        (waits device addr ready state events).result.map fun _ => result⟩ := by
  cases hr : (waits device addr ready state events).result <;> simp [exec, hr]

theorem exec_spin_result {rest : Mmio α} : (exec device (.Spin addr ready rest) state events).result = some result ↔
      ∃ l, (waits device addr ready state events).result = some l ∧
        (exec device rest (waits device addr ready state events).state l).result = some result := by
  cases hr : (waits device addr ready state events).result <;> simp [exec, hr]

end Mmio

-- A bus on which every read gives whatever value happens to come.
def anyBus : Device Unit UInt32 where
  read _ value _ := (value, ())
  write _ _ _ := ()

@[simp] theorem anyBus_read (value addr : UInt32) : anyBus.read () value addr = (value, ()) := rfl

end Gale.Lib
