import Gale.Kernel

namespace Gale

-- priority.rs: a smaller value is more urgent.
abbrev MAX_PRIORITY : Nat := 32

inductive ThreadState where
  | Ready
  | Running
  | Blocked
  | Suspended
  deriving DecidableEq, Repr

structure Thread where
  id : Tid
  priority : Fin MAX_PRIORITY
  state : ThreadState
  returnValue : Int
  isMetairq : Bool
  deriving DecidableEq, Repr

namespace Thread

def new (id : Tid) (priority : Fin MAX_PRIORITY) : Thread where
  id := id
  priority := priority
  state := .Ready
  returnValue := 0
  isMetairq := false

def dispatch (t : Thread) : Thread := { t with state := .Running }

def block (t : Thread) : Thread := { t with state := .Blocked }

def wake (t : Thread) (returnValue : Int) : Thread :=
  { t with returnValue := returnValue, state := .Ready }

end Thread

end Gale
