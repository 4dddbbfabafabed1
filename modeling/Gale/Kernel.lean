import Gale.Lib.Policy

namespace Gale

-- A thread is named by the address of its k_thread.
abbrev Tid := Nat

-- k_timeout_t: K_NO_WAIT is zero ticks, K_FOREVER never ends.
inductive Timeout where
  | Ticks (n : Nat)
  | Forever
  deriving DecidableEq, Repr

def K_NO_WAIT : Timeout := .Ticks 0

def K_FOREVER : Timeout := .Forever

def Timeout.isNoWait (timeout : Timeout) : Bool := timeout == K_NO_WAIT

def OK : Int := 0
def EPERM : Int := -1
def ENOENT : Int := -2
def EINTR : Int := -4
def EIO : Int := -5
def EBADF : Int := -9
def EAGAIN : Int := -11
def ENOMEM : Int := -12
def EBUSY : Int := -16
def ENODEV : Int := -19
def EINVAL : Int := -22
def ENOSPC : Int := -28
def EPIPE : Int := -32
def ENOMSG : Int := -35
def EADDRINUSE : Int := -112
def EALREADY : Int := -114
def ETIMEDOUT : Int := -116
def ENOTSUP : Int := -134
def EOVERFLOW : Int := -139
def ECANCELED : Int := -140

end Gale
