import SyncPerf.PthreadP

namespace SyncPerf

/-!
# `pthread_mutex_init`

What `mutex_init.c` writes into the real mutex: the kind and the protocol of the attribute.

* `mutexInit` — the return code and the new mutex data;
* `mutexInit_code` — an attribute that only names a basic kind gives a fresh mutex of that kind.
-/

/-! ### Bits of an attribute -/

/-- `PTHREAD_MUTEXATTR_PROTOCOL_MASK`. -/
def attrProtocolMask : BitVec 32 := 0x30000000

/-- `PTHREAD_PRIO_NONE`, `_INHERIT` and `_PROTECT`, shifted by
    `PTHREAD_MUTEXATTR_PROTOCOL_SHIFT`. -/
def attrPrioNone : BitVec 32 := 0 <<< 28

/-- The bits of `PTHREAD_PRIO_INHERIT` in an attribute word. -/
def attrPrioInherit : BitVec 32 := 1 <<< 28

/-- The bits of `PTHREAD_PRIO_PROTECT` in an attribute word. -/
def attrPrioProtect : BitVec 32 := 2 <<< 28

/-- `PTHREAD_MUTEXATTR_PRIO_CEILING_MASK`. -/
def attrPrioCeilingMask : BitVec 32 := 0x00fff000

/-- `PTHREAD_MUTEXATTR_FLAG_ROBUST`. -/
def attrFlagRobust : BitVec 32 := 0x40000000

/-- `PTHREAD_MUTEXATTR_FLAG_PSHARED`. -/
def attrFlagPshared : BitVec 32 := 0x80000000

/-- `PTHREAD_MUTEXATTR_FLAG_BITS`. -/
def attrFlagBits : BitVec 32 :=
  attrFlagRobust ||| attrFlagPshared ||| attrProtocolMask ||| attrPrioCeilingMask

/-! ### The function -/

/-- The part of `pthread_mutex_init` after the slot is created: the return code, and the real
    mutex, which was `m` before. -/
def mutexInit (mutexkind : BitVec 32) (m : MutexData) : ℕ × MutexData :=
  let protocol := mutexkind &&& attrProtocolMask
  -- sanity checks
  if protocol ≠ attrPrioNone ∧ protocol ≠ attrPrioInherit ∧ mutexkind &&& attrFlagRobust ≠ 0 then
    (eNOTSUP, m)
  else
    let kind := mutexkind &&& ~~~attrFlagBits
    let kind := if mutexkind &&& attrFlagRobust ≠ 0 then kind ||| robustNormal else kind
    let kind := if protocol = attrPrioInherit then kind ||| prioInherit
      else if protocol = attrPrioProtect then kind ||| prioProtect else kind
    let kind := if mutexkind &&& (attrFlagPshared ||| attrFlagRobust) ≠ 0 then kind ||| psharedBit
      else kind
    -- the ceiling goes where a mutex with priority protection keeps it
    let lock := if protocol = attrPrioProtect then
        (((mutexkind &&& attrPrioCeilingMask) >>> 12) <<< 19).toNat
      else 0
    (0, { lock := lock, kind := kind })

/-- An attribute that names a basic kind, and nothing else. -/
theorem mutexInit_code (κ : BasicKind) (m : MutexData) :
    mutexInit κ.code m = (0, { kind := κ.code }) := by
  cases κ <;> rfl

end SyncPerf
