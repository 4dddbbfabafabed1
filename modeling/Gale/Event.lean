import Gale.Kernel

namespace Gale.Event

-- From src/event.rs.

def WAIT_ANY : UInt8 := 0
def WAIT_ALL : UInt8 := 1

inductive WaitDecision where
  | Matched
  | Pend
  | Timeout
  deriving DecidableEq, Repr

structure WaitDecideResult where
  decision : WaitDecision
  matchedEvents : UInt32

def waitDecide (currentEvents desired : UInt32) (waitType : UInt8) (isNoWait : Bool) :
    WaitDecideResult :=
  let matched := currentEvents &&& desired
  let conditionMet :=
    if waitType = WAIT_ALL then decide (currentEvents &&& desired = desired)
    else decide (matched ≠ 0)
  if conditionMet then ⟨.Matched, matched⟩
  else if isNoWait then ⟨.Timeout, 0⟩
  else ⟨.Pend, 0⟩

def postDecide (currentEvents newEvents mask : UInt32) : UInt32 :=
  (currentEvents &&& ~~~mask) ||| (newEvents &&& mask)

-- From zephyr/gale_event.c.

def K_EVENT_WAIT_ANY : UInt32 := 0x00
def K_EVENT_WAIT_ALL : UInt32 := 0x01
def K_EVENT_WAIT_MASK : UInt32 := 0x01
def K_EVENT_OPTION_RESET : UInt32 := 0x02
def K_EVENT_OPTION_CLEAR : UInt32 := 0x04

-- CONFIG_WAITQ_SCALABLE: the walk links the threads to wake, and a second
-- function wakes them when it is over.
structure Config where
  waitqScalable : Bool

structure Thread where
  events : UInt32
  eventOptions : UInt32

structure Call where
  events : UInt32
  options : UInt32
  timeout : Timeout
  deriving DecidableEq, Repr

-- A woken thread has the result of z_pend_curr and has not run yet.
inductive Pc where
  | Running
  | Pended (call : Call)
  | Woken (call : Call) (ret : Int)
  deriving DecidableEq, Repr

def Pc.woken (ret : Int) : Pc → Pc
  | .Pended call => .Woken call ret
  | pc => pc

structure State where
  events : UInt32
  waitQ : List Tid
  thread : Tid → Thread
  pc : Tid → Pc

def init (thread : Tid → Thread) : State where
  events := 0
  waitQ := []
  thread := thread
  pc := fun _ => .Running

structure EventWalkData where
  head : List Tid
  events : UInt32
  clearEvents : UInt32

namespace State

def setMatched (s : State) (thread : Tid) (matchedEvents : UInt32) : State :=
  { s with
    thread := Function.update s.thread thread ⟨matchedEvents, (s.thread thread).eventOptions⟩ }

-- arch_thread_return_value_set and z_sched_wake_thread_locked.
def wakeThread (ret : Int) (s : State) (thread : Tid) : State :=
  { s with
    waitQ := s.waitQ.erase thread
    pc := Function.update s.pc thread ((s.pc thread).woken ret) }

def eventWalkOp (cfg : Config) (walk : State × EventWalkData) (thread : Tid) : State × EventWalkData :=
  let (s, data) := walk
  let waitCondition := (s.thread thread).eventOptions &&& K_EVENT_WAIT_MASK
  let wd := waitDecide data.events (s.thread thread).events waitCondition.toUInt8 false
  if wd.decision = .Matched then
    let data :=
      if (s.thread thread).eventOptions &&& K_EVENT_OPTION_CLEAR ≠ 0 then
        { data with clearEvents := data.clearEvents ||| wd.matchedEvents }
      else data
    let s := s.setMatched thread wd.matchedEvents
    if cfg.waitqScalable then (s, { data with head := thread :: data.head })
    else (s.wakeThread 0 thread, data)
  else (s, data)

def eventPostWalkOp (s : State) (data : EventWalkData) : State :=
  data.head.foldl (wakeThread 0) s

-- z_sched_waitq_walk: every thread on the queue once, then the second function.
def waitqWalk (cfg : Config) (s : State) (data : EventWalkData) : State × EventWalkData :=
  let (s, data) := s.waitQ.foldl (eventWalkOp cfg) (s, data)
  (s.eventPostWalkOp data, data)

def kEventPostInternal (cfg : Config) (s : State) (events eventsMask : UInt32) : State × UInt32 :=
  let previousEvents := s.events &&& eventsMask
  let events := postDecide s.events events eventsMask
  let (s, data) := s.waitqWalk cfg { head := [], events := events, clearEvents := 0 }
  ({ s with events := data.events &&& ~~~data.clearEvents }, previousEvents)

def kEventPost (cfg : Config) (s : State) (events : UInt32) : State × UInt32 :=
  s.kEventPostInternal cfg events events

def kEventSet (cfg : Config) (s : State) (events : UInt32) : State × UInt32 :=
  s.kEventPostInternal cfg events (~~~0)

def kEventSetMasked (cfg : Config) (s : State) (events eventsMask : UInt32) : State × UInt32 :=
  s.kEventPostInternal cfg events eventsMask

def kEventClear (cfg : Config) (s : State) (events : UInt32) : State × UInt32 :=
  s.kEventPostInternal cfg 0 events

-- z_pend_curr up to the switch to another thread.
def pendCurr (s : State) (current : Tid) (call : Call) : State :=
  { s with
    waitQ := s.waitQ ++ [current]
    thread := Function.update s.thread current ⟨call.events, call.options⟩
    pc := Function.update s.pc current (.Pended call) }

-- No result for a thread that pends.
def kEventWaitInternal (s : State) (current : Tid) (call : Call) : State × Option UInt32 :=
  if call.events = 0 then (s, some 0)
  else
    let waitCondition := call.options &&& K_EVENT_WAIT_MASK
    let s := if call.options &&& K_EVENT_OPTION_RESET ≠ 0 then { s with events := 0 } else s
    let wd := waitDecide s.events call.events waitCondition.toUInt8 call.timeout.isNoWait
    match wd.decision with
    | .Matched =>
      let rv := wd.matchedEvents
      if call.options &&& K_EVENT_OPTION_CLEAR ≠ 0 then
        ({ s with events := s.events &&& ~~~rv }, some rv)
      else (s, some rv)
    | .Timeout => (s, some 0)
    | .Pend => (s.pendCurr current call, none)

-- What follows z_pend_curr in k_event_wait_internal.
def resume (s : State) (thread : Tid) (ret : Int) : State × UInt32 :=
  ({ s with pc := Function.update s.pc thread .Running },
    if ret = 0 then (s.thread thread).events else 0)

end State

-- The options of the four wait calls.

def kEventWaitOptions (reset : Bool) : UInt32 := if reset then K_EVENT_OPTION_RESET else 0

def kEventWaitAllOptions (reset : Bool) : UInt32 :=
  if reset then K_EVENT_OPTION_RESET ||| K_EVENT_WAIT_ALL else K_EVENT_WAIT_ALL

def kEventWaitSafeOptions (reset : Bool) : UInt32 :=
  if reset then K_EVENT_OPTION_CLEAR ||| K_EVENT_OPTION_RESET else K_EVENT_OPTION_CLEAR

def kEventWaitAllSafeOptions (reset : Bool) : UInt32 :=
  if reset then K_EVENT_OPTION_CLEAR ||| K_EVENT_OPTION_RESET ||| K_EVENT_WAIT_ALL
  else K_EVENT_OPTION_CLEAR ||| K_EVENT_WAIT_ALL

end Gale.Event
