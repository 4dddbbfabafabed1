import Gale.Lib.Bits
import Gale.Lib.Run

namespace Gale.SpinlockValidate

open Lib

-- From src/spinlock_validate.rs, for words of any size.

variable {width : Nat}

def MAX_CPUS : Nat := 4

def CPU_MASK (width : Nat) : BitVec width := 3

def ThreadPtrValid (thread : BitVec width) : Prop := thread ≠ 0 ∧ thread &&& CPU_MASK width = 0

instance (thread : BitVec width) : Decidable (ThreadPtrValid thread) :=
  inferInstanceAs (Decidable (_ ∧ _))

def spinLockValid (threadCpu : BitVec width) (currentCpuId : Nat) : Bool :=
  if threadCpu ≠ 0 ∧ threadCpu &&& CPU_MASK width = BitVec.ofNat width currentCpuId then false
  else true

def spinUnlockValid (threadCpu : BitVec width) (currentCpuId : Nat) (currentThread : BitVec width) :
    Bool :=
  let cpu := BitVec.ofNat width currentCpuId
  threadCpu = cpu ||| currentThread

def spinLockComputeOwner (currentCpuId : Nat) (currentThread : BitVec width) : BitVec width :=
  let cpu := BitVec.ofNat width currentCpuId
  cpu ||| currentThread

-- From ffi/src/lib.rs.

def galeSpinLockValid (threadCpu : BitVec width) (currentCpuId : Nat) : Int :=
  if currentCpuId ≥ MAX_CPUS then 0 else if spinLockValid threadCpu currentCpuId then 1 else 0

def galeSpinUnlockValid (threadCpu : BitVec width) (currentCpuId : Nat)
    (currentThread : BitVec width) : Int :=
  if currentCpuId ≥ MAX_CPUS then 0
  else if spinUnlockValid threadCpu currentCpuId currentThread then 1
  else 0

def galeSpinLockComputeOwner (currentCpuId : Nat) (currentThread : BitVec width) : BitVec width :=
  if currentCpuId ≥ MAX_CPUS then 0 else spinLockComputeOwner currentCpuId currentThread

-- From zephyr/gale_spinlock_validate.c.

-- Who calls: _current_cpu->id, _current, arch_is_in_isr() and the _THREAD_DUMMY state of _current.
structure Caller (width : Nat) where
  cpu : Nat
  thread : BitVec width
  inIsr : Bool
  dummy : Bool

def zSpinLockValid (threadCpu : BitVec width) (caller : Caller width) : Bool :=
  if caller.thread = 0 then true else galeSpinLockValid threadCpu caller.cpu ≠ 0

def zSpinUnlockValid (threadCpu : BitVec width) (caller : Caller width) : Bool × BitVec width :=
  let answer : Bool :=
    if caller.thread = 0 then true
    else if caller.inIsr && caller.dummy then true
    else if threadCpu = 0 then caller.thread ||| BitVec.ofNat width caller.cpu = 0
    else galeSpinUnlockValid threadCpu caller.cpu caller.thread ≠ 0
  (answer, 0)

def zSpinLockSetOwner (caller : Caller width) : BitVec width :=
  galeSpinLockComputeOwner caller.cpu caller.thread

structure Caller.Valid (caller : Caller width) : Prop where
  cpu : caller.cpu < MAX_CPUS
  thread : ThreadPtrValid caller.thread

structure Lock (width : Nat) where
  threadCpu : BitVec width
  holder : Option (Nat × BitVec width)

def free : Lock width := ⟨0, none⟩

inductive Op (width : Nat) where
  | Acquire (caller : Caller width) (hvalid : caller.Valid)
  | Release (caller : Caller width)

-- A lock is acquired only when it is free; a release sets it free, rightful or not.
def step (l : Lock width) : Op width → Option (Lock width)
  | .Acquire caller _ =>
    if l.holder = none then some ⟨zSpinLockSetOwner caller, some (caller.cpu, caller.thread)⟩
    else none
  | .Release caller => some ⟨(zSpinUnlockValid l.threadCpu caller).2, none⟩

variable {cpu : Nat} {thread : BitVec width} {caller : Caller width} {l : Lock width}

theorem cpu_and_mask (hc : cpu < MAX_CPUS) : BitVec.ofNat width cpu &&& CPU_MASK width = BitVec.ofNat width cpu := by
  have hl : cpu &&& 3 = cpu := by
    rw [show 3 = 2 ^ 2 - 1 from rfl, Nat.and_two_pow_sub_one_eq_mod]
    exact Nat.mod_eq_of_lt hc
  calc BitVec.ofNat width cpu &&& BitVec.ofNat width 3
      = BitVec.ofNat width (cpu &&& 3) := BitVec.ofNat_and.symm
    _ = BitVec.ofNat width cpu := by rw [hl]

theorem two_lt_width (ht : ThreadPtrValid thread) : 2 < width := by
  obtain ⟨hne, ha⟩ := ht
  refine Decidable.byContradiction fun hn => hne ?_
  apply BitVec.eq_of_getLsbD_eq
  intro i hi
  have ho : (CPU_MASK width).getLsbD i = true := by
    have hl : i = 0 ∨ i = 1 := by omega
    have hb : Nat.testBit 3 i = true := by
      obtain rfl | rfl := hl <;> rfl
    simp [CPU_MASK, BitVec.getLsbD_ofNat, hi, hb]
  have hb := congrArg (fun y : BitVec width => y.getLsbD i) ha
  simpa [ho] using hb

theorem cpu_injective (ht : ThreadPtrValid thread) {cpu' : Nat} (hcp : cpu < MAX_CPUS)
    (hc : cpu' < MAX_CPUS) (h : BitVec.ofNat width cpu = BitVec.ofNat width cpu') :
    cpu = cpu' := by
  have hf : MAX_CPUS ≤ 2 ^ width :=
    Nat.pow_le_pow_right Nat.two_pos (Nat.le_of_lt (two_lt_width ht))
  have hn := congrArg BitVec.toNat h
  rwa [BitVec.toNat_ofNat, BitVec.toNat_ofNat, Nat.mod_eq_of_lt (by omega), Nat.mod_eq_of_lt (by omega)] at hn

theorem owner_injective {cpu' : Nat} {thread' : BitVec width} (hcp : cpu < MAX_CPUS)
    (hc : cpu' < MAX_CPUS) (ht : ThreadPtrValid thread) (hth : ThreadPtrValid thread')
    (h : spinLockComputeOwner cpu thread = spinLockComputeOwner cpu' thread') :
    cpu = cpu' ∧ thread = thread' := by
  obtain ⟨htg, hp⟩ := Bits.tagged_injective (cpu_and_mask hcp) ht.2 (cpu_and_mask hc)
    hth.2 h
  exact ⟨cpu_injective ht hcp hc htg, hp⟩

theorem owner_ne_zero (ht : ThreadPtrValid thread) : spinLockComputeOwner cpu thread ≠ 0 := by
  intro hz
  exact ht.1 (BitVec.or_eq_zero_iff.mp hz).2

theorem owner_and_mask (hc : cpu < MAX_CPUS) (ht : ThreadPtrValid thread) :
    spinLockComputeOwner cpu thread &&& CPU_MASK width = BitVec.ofNat width cpu :=
  Bits.tagged_and_mask (cpu_and_mask hc) ht.2

theorem zSpinLockSetOwner_eq (hv : caller.Valid) :
    zSpinLockSetOwner caller = spinLockComputeOwner caller.cpu caller.thread :=
  if_neg (Nat.not_le.mpr hv.cpu)

theorem zSpinLockValid_eq_false (hv : caller.Valid) (tc : BitVec width) : zSpinLockValid tc caller = false ↔
      tc ≠ 0 ∧ tc &&& CPU_MASK width = BitVec.ofNat width caller.cpu := by
  rw [zSpinLockValid, if_neg hv.thread.1, galeSpinLockValid, if_neg (Nat.not_le.mpr hv.cpu), spinLockValid]
  split <;> simp_all

theorem zSpinUnlockValid_eq_true (hv : caller.Valid) (tc : BitVec width) :
    (zSpinUnlockValid tc caller).1 = true ↔ (caller.inIsr = true ∧ caller.dummy = true) ∨
        tc = spinLockComputeOwner caller.cpu caller.thread := by
  simp only [zSpinUnlockValid, if_neg hv.thread.1, Bool.and_eq_true]
  by_cases he : caller.inIsr = true ∧ caller.dummy = true
  · simp [he]
  rw [if_neg he, or_iff_right he]
  by_cases hz : tc = 0
  · -- the arm for a zero tag compares with a word that is never zero
    rw [if_pos hz, hz, decide_eq_true_iff, BitVec.or_comm]
    exact eq_comm
  · rw [if_neg hz, galeSpinUnlockValid, if_neg (Nat.not_le.mpr hv.cpu)]
    have hm : spinUnlockValid tc caller.cpu caller.thread = true ↔
        tc = spinLockComputeOwner caller.cpu caller.thread := decide_eq_true_iff
    rw [← hm]
    cases spinUnlockValid tc caller.cpu caller.thread <;> decide

def Lock.Tagged (l : Lock width) : Prop :=
  match l.holder with
  | none => l.threadCpu = 0
  | some (cpu, thread) =>
    cpu < MAX_CPUS ∧ ThreadPtrValid thread ∧ l.threadCpu = spinLockComputeOwner cpu thread

theorem step_tagged {next : Lock width} {op : Op width} (hs : step l op = some next) :
    next.Tagged := by
  cases op with
  | Acquire caller hv =>
    simp only [step] at hs
    split at hs
    · cases hs
      exact ⟨hv.cpu, hv.thread, zSpinLockSetOwner_eq hv⟩
    · cases hs
  | Release caller =>
    cases hs
    exact rfl

theorem run_tagged {ops : List (Op width)} (hr : run step free ops = some l) : l.Tagged := by
  have hf : (free : Lock width).Tagged := rfl
  exact (throughout_of_step (fun _ _ _ _ hs => step_tagged hs) hf ops).last hr

theorem Lock.Tagged.lockValid (htg : l.Tagged) (hv : caller.Valid) :
    zSpinLockValid l.threadCpu caller = false ↔ ∃ thread, l.holder = some (caller.cpu, thread) := by
  rw [zSpinLockValid_eq_false hv]
  obtain ⟨tag, holder⟩ := l
  cases holder with
  | none =>
    have hz : tag = 0 := htg
    simp [hz]
  | some held =>
    obtain ⟨cpu, thread⟩ := held
    obtain ⟨hc, ht, hta⟩ := htg
    have ho : tag = spinLockComputeOwner cpu thread := hta
    simp only [ho, owner_and_mask hc ht, Option.some.injEq, Prod.mk.injEq, exists_and_left, exists_eq', and_true]
    constructor
    · rintro ⟨-, hs⟩
      exact cpu_injective ht hc hv.cpu hs
    · intro hs
      exact ⟨owner_ne_zero ht, by rw [hs]⟩

theorem Lock.Tagged.unlockValid (ht : l.Tagged) (hv : caller.Valid) :
    (zSpinUnlockValid l.threadCpu caller).1 = true ↔ (caller.inIsr = true ∧ caller.dummy = true) ∨
        l.holder = some (caller.cpu, caller.thread) := by
  rw [zSpinUnlockValid_eq_true hv]
  refine or_congr_right ?_
  obtain ⟨tag, holder⟩ := l
  cases holder with
  | none =>
    have hz : tag = 0 := ht
    simpa [hz] using (owner_ne_zero hv.thread).symm
  | some held =>
    obtain ⟨cpu, thread⟩ := held
    obtain ⟨hc, hth, htg⟩ := ht
    have ho : tag = spinLockComputeOwner cpu thread := htg
    rw [ho]
    constructor
    · intro hs
      obtain ⟨rfl, rfl⟩ := owner_injective hc hv.cpu hth hv.thread hs
      rfl
    · rintro ⟨⟩
      rfl

theorem owner_tags_identify_holder {ops : List (Op width)} {l : Lock width}
    (hrun : run step free ops = some l) :
    (∀ caller : Caller width, caller.Valid → (zSpinLockValid l.threadCpu caller = false ↔
        ∃ thread, l.holder = some (caller.cpu, thread)) ∧
      ((zSpinUnlockValid l.threadCpu caller).1 = true ↔ (caller.inIsr = true ∧ caller.dummy = true) ∨
          l.holder = some (caller.cpu, caller.thread))) ∧
    ∀ (cpu cpu' : Nat) (thread thread' : BitVec width), cpu < MAX_CPUS → cpu' < MAX_CPUS →
      ThreadPtrValid thread → ThreadPtrValid thread' → (cpu, thread) ≠ (cpu', thread') →
      spinLockComputeOwner cpu thread ≠ spinLockComputeOwner cpu' thread' := by
  have ht := run_tagged hrun
  refine ⟨fun caller hv => ⟨ht.lockValid hv, ht.unlockValid hv⟩, ?_⟩
  intro cpu cpu' thread thread' hcp hc hthread hthread' hne hsame
  obtain ⟨rfl, rfl⟩ := owner_injective hcp hc hthread hthread' hsame
  exact hne rfl

def onCpu (cpu : Nat) (thread : BitVec 32) : Caller 32 := ⟨cpu, thread, false, false⟩

theorem onCpu_valid_second : (onCpu 1 0x2000#32).Valid := ⟨by decide, by decide⟩

theorem owner_tags_second_cpu :
    (zSpinUnlockValid (spinLockComputeOwner 1 0x2000#32) (onCpu 1 0x2000#32)).1 = true :=
  have hr : run step free [.Acquire (onCpu 1 0x2000#32) onCpu_valid_second] =
      some ⟨spinLockComputeOwner 1 0x2000#32, some (1, 0x2000#32)⟩ := rfl
  (((owner_tags_identify_holder hr).1 (onCpu 1 0x2000#32) onCpu_valid_second).2).mpr (.inr rfl)

-- The exemption holds for a lock that nobody has.
theorem dummy_unlocks_free_lock :
    ∃ (l : Lock 32) (caller : Caller 32), run step free [] = some l ∧ caller.Valid ∧
      l.holder = none ∧ (zSpinUnlockValid l.threadCpu caller).1 = true :=
  ⟨free, ⟨0, 0x2000#32, true, true⟩, rfl, ⟨by decide, by decide⟩, rfl, rfl⟩

end Gale.SpinlockValidate
