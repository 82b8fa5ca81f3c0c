import SyncPerf.MutexInit
import SyncPerf.RecordEntries

namespace SyncPerf.FailedInit

/-!
# A `pthread_mutex_init` that fails

`pthread_mutex_init` takes a slot for the real mutex and publishes its address in the first word of
the nominal mutex before it looks at the attribute.  The early return for an attribute that is not
supported comes after that, and takes nothing of it back.

* `Heap` — what the function can change: the first word of the nominal mutex, and the pool;
* `createMutex`, `pthreadMutexInit` — the functions;
* `pthreadMutexInit_spec` — what a call that returns leaves;
* `failed_unchanged_iff` — when a call that fails has changed nothing.
-/

/-- The fields of `mutex_t` that an initialisation sets. -/
structure MutexT where
  mutex : MutexData := {}
  entryIndex : ℕ := 0
  stackCount : ℕ := 0
  deriving DecidableEq

/-- The first word of a nominal mutex: `NULL`, `&_start[i]`, or whatever else the memory had. -/
inductive Word
  | null
  | entry (i : ℕ)
  | other (v : BitVec 64)
  deriving DecidableEq

/-- The word of the nominal mutex, and the pool of real ones. -/
structure Heap where
  word : Word
  syncVars : RecordEntries MutexT

/-! ### The functions -/

/-- `create_mutex`; `none` when the pool is used up and the process aborts. -/
def createMutex (h : Heap) : Option (ℕ × Heap) :=
  match h.syncVars.getNextIndex with
  | (none, _) => none
  | (some entryIndex, syncVars) =>
    let syncVars := syncVars.modifyEntry entryIndex fun m => { m with stackCount := 0 }
    let syncVars := syncVars.modifyEntry entryIndex fun m => { m with entryIndex := entryIndex }
    some (entryIndex, { h with syncVars := syncVars })

/-- `default_mutexattr.mutexkind`: `PTHREAD_MUTEX_NORMAL`. -/
def defaultMutexkind : BitVec 32 := 0

/-- `pthread_mutex_init`: the code that is returned; `none` when the process aborts. -/
def pthreadMutexInit (mutexattr : Option (BitVec 32)) (h : Heap) : Option (ℕ × Heap) :=
  match createMutex h with
  | none => none
  | some (myMutex, h) =>
    -- `*((void **)mutex) = myMutex`
    let h := { h with word := .entry myMutex }
    let r := mutexInit (mutexattr.getD defaultMutexkind) (h.syncVars.start myMutex).mutex
    some (r.1,
      { h with syncVars := h.syncVars.modifyEntry myMutex fun m => { m with mutex := r.2 } })

/-! ### When a call fails -/

/-- The sanity check is passed: a mutex with priority protection is not robust. -/
def Accepted (mutexkind : BitVec 32) : Prop :=
  mutexkind &&& attrProtocolMask = attrPrioNone ∨ mutexkind &&& attrProtocolMask = attrPrioInherit ∨
    mutexkind &&& attrFlagRobust = 0

instance (mutexkind : BitVec 32) : Decidable (Accepted mutexkind) :=
  inferInstanceAs (Decidable (_ ∨ _))

theorem mutexInit_eq_zero_iff (mutexkind : BitVec 32) (m : MutexData) :
    (mutexInit mutexkind m).1 = 0 ↔ Accepted mutexkind := by
  have hcheck : ¬ Accepted mutexkind ↔ mutexkind &&& attrProtocolMask ≠ attrPrioNone ∧
      mutexkind &&& attrProtocolMask ≠ attrPrioInherit ∧ mutexkind &&& attrFlagRobust ≠ 0 := by
    rw [Accepted, not_or, not_or]
  by_cases haccepted : Accepted mutexkind
  · simp only [haccepted, mutexInit, if_neg (hcheck.not.mp (not_not.mpr haccepted))]
  · simp only [haccepted, iff_false, mutexInit, if_pos (hcheck.mp haccepted)]
    decide

/-- The pool hands out no more slots. -/
def UsedUp (h : Heap) : Prop := h.syncVars.getNextIndex.1 = none

instance (h : Heap) : Decidable (UsedUp h) := inferInstanceAs (Decidable (_ = _))

/-- What a call that returns leaves: the nominal mutex points to the slot that was taken, and the
    cursor has moved on. -/
structure Returned (mutexattr : Option (BitVec 32)) (h : Heap) (code : ℕ) (h' : Heap) : Prop where
  code : code = 0 ↔ Accepted (mutexattr.getD defaultMutexkind)
  word : ∃ i, h.syncVars.getNextIndex.1 = some i ∧ h'.word = .entry i
  cur : h'.syncVars.cur = (h.syncVars.cur + 1) % 2 ^ 64

/-- **`pthread_mutex_init`** returns unless the pool is used up. -/
theorem pthreadMutexInit_spec (mutexattr : Option (BitVec 32)) (h : Heap) :
    match pthreadMutexInit mutexattr h with
    | none => UsedUp h
    | some (code, h') => Returned mutexattr h code h' := by
  have hcur := h.syncVars.getNextIndex_cur
  rw [pthreadMutexInit, createMutex]
  cases hnext : h.syncVars.getNextIndex with
  | mk index syncVars =>
    rw [hnext] at hcur
    cases index with
    | none =>
      show h.syncVars.getNextIndex.1 = none
      rw [hnext]
    | some i => exact ⟨mutexInit_eq_zero_iff _ _, ⟨i, by rw [hnext], rfl⟩, hcur⟩

/-! ### What a failed call has changed -/

/-- The nominal mutex, the slots that were handed out, and the cursor are as they were. -/
structure Unchanged (h h' : Heap) : Prop where
  word : h'.word = h.word
  entries : ∀ i < h.syncVars.cur, h'.syncVars.start i = h.syncVars.start i
  cur : h'.syncVars.cur = h.syncVars.cur

/-- **A failed initialisation** has changed nothing just when there is none: the attribute is
    accepted, or the process aborts. -/
theorem failed_unchanged_iff (mutexattr : Option (BitVec 32)) (h : Heap) :
    (∀ code h', pthreadMutexInit mutexattr h = some (code, h') → code ≠ 0 → Unchanged h h') ↔
      Accepted (mutexattr.getD defaultMutexkind) ∨ UsedUp h := by
  have hspec := pthreadMutexInit_spec mutexattr h
  constructor
  · intro hunchanged
    cases hcall : pthreadMutexInit mutexattr h with
    | none =>
      rw [hcall] at hspec
      exact .inr hspec
    | some r =>
      obtain ⟨code, h'⟩ := r
      rw [hcall] at hspec
      refine .inl (hspec.code.mp ?_)
      by_contra hcode
      -- the cursor of a call that returns has moved on
      have hcur := (hunchanged code h' hcall hcode).cur
      rw [hspec.cur] at hcur
      omega
  · rintro (haccepted | husedUp) code h' hcall hcode
    · rw [hcall] at hspec
      exact absurd (hspec.code.mpr haccepted) hcode
    · rw [hcall] at hspec
      obtain ⟨i, hi, -⟩ := hspec.word
      rw [UsedUp, hi] at husedUp
      exact absurd husedUp (Option.some_ne_none i)

/-- A pool with one mutex in it, which a thread holds; the nominal mutex is its own. -/
def oneHeld : Heap where
  word := .entry 0
  syncVars :=
    ⟨fun i => if i = 0 then { mutex := { lock := 1, owner := 7, nusers := 1 } } else {}, 2, 1,
      by decide⟩

/-- A robust mutex with priority protection is asked for: the call fails, and the nominal mutex of
    the one that is held points to a slot that nobody has initialised. -/
theorem failed_replaces_held :
    ∃ h', pthreadMutexInit (some (attrPrioProtect ||| attrFlagRobust)) oneHeld =
        some (eNOTSUP, h') ∧
      h'.word = .entry 1 ∧ h'.syncVars.cur = 2 ∧ ¬ Unchanged oneHeld h' :=
  ⟨_, rfl, rfl, rfl, fun h => absurd h.word (by decide)⟩

end SyncPerf.FailedInit
