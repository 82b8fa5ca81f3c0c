import SyncPerf.MutexCalls
import SyncPerf.MutexUnlock
import SyncPerf.ProcessShared

namespace SyncPerf

open Calls

/-!
# A call that runs alone

Lock, trylock and unlock are here twice: as functions of the state in which they begin, and step by
step, for the runs in which other threads come in between.  Where no other thread does, the steps
lead to what the function says.

* `Alone` — the steps of one call, one after the other, up to its end or to a point at which its
  thread sleeps;
* `special_code` — the kinds with code for robust mutexes and for priorities;
* `pthreadMutexLock_alone`, `pthreadMutexTrylock_alone`, `pthreadMutexUnlock_alone` — all kinds but
  the robust, priority-inheritance and priority-protect ones.
-/

/-! ### One thread -/

/-- The steps of a call lead from a point of it to its end, or to a point at which its thread
    sleeps; of the state in which they leave it, `view` is what the function has too. -/
inductive Alone {P σ τ : Type} (step : P → σ → Next P × σ) (sleepsAt : Wait → P → τ → Prop)
    (view : σ → τ) : Next P × σ → Outcome → τ → Prop
  | done {o : Outcome} {s : σ} : Alone step sleepsAt view (.done o, s) o (view s)
  | sleeps {w : Wait} {p : P} {s : σ} (h : sleepsAt w p (view s)) :
      Alone step sleepsAt view (.goto p, s) (.sleeps w) (view s)
  | step {p : P} {s : σ} {o : Outcome} {v : τ} (h : Alone step sleepsAt view (step p s) o v) :
      Alone step sleepsAt view (.goto p, s) o v

/-- A call that never sleeps. -/
def Awake {P τ : Type} : Wait → P → τ → Prop := fun _ _ _ => False

/-! ### Which case a call goes to -/

/-- A special case label is the kind of a protocol. -/
theorem special_code {type : BitVec 32} (h : switchKind type = .special) :
    ∃ π κ, type = Protocol.code π κ := by
  rcases known_kind (by rw [h]; decide) with ⟨κ, rfl⟩ | hcode
  · rw [switchKind_code] at h
    cases h
  · exact hcode

/-- A kind has its basic part in its type. -/
theorem basicOf_elision (kind : BitVec 32) :
    basicOf (pthreadMutexTypeElision kind) = basicOf kind := by
  simp only [basicOf, pthreadMutexTypeElision, BitVec.and_assoc]
  rfl

/-! ### The basic kinds -/

/-- The assertion by the name that the whole calls have for it. -/
def Assert.fault : Assert → Fault
  | .owner => .owner
  | .type => .type
  | .elision => .elision

/-- Where a step leads, as the whole calls have it. -/
def Flow.next {P : Type} : Flow P → Next P
  | .goto p => .goto p
  | .ret code => .done (.ret code)
  | .abort a => .done (.abort a.fault)

/-- A lock sleeps in `lll_lock` once it has exchanged a taken word with 2. -/
def LockPC.sleepsAt : Wait → LockPC → MutexData → Prop
  | .lll t, .wait t', m => t = t' ∧ m.lock = lllLockInitializerWaiters
  | _, _, _ => False

section Basic

variable (id : ℕ) (env : Special)

/-- The steps of a lock. -/
def lockStep (p : LockPC) (c : Cell) : Next LockPC × Cell :=
  let r := pthreadMutexLock .incr id env p c
  (r.1.next, r.2)

/-- The steps of a trylock. -/
def tryStep (p : TryPC) (c : Cell) : Next TryPC × Cell :=
  let r := pthreadMutexTrylock id env p c
  (r.1.next, r.2)

/-- The steps of an unlock. -/
def unlStep (p : UnlPC) (c : Cell) : Next UnlPC × Cell :=
  let r := pthreadMutexUnlockUsercnt true id env p c
  (r.1.next, r.2)

/-- The steps of a lock, with nobody in between, lead to the result of a whole call; the record and
    the statistics, which the whole call leaves out, may be any. -/
def Locks (n : Next LockPC) (c : Cell) (r : Outcome × State) : Prop :=
  Alone (lockStep id env) LockPC.sleepsAt Cell.mutex (n, c) r.1 r.2.mutex

/-- The same of a trylock. -/
def Tries (n : Next TryPC) (c : Cell) (r : Outcome × State) : Prop :=
  Alone (tryStep id env) Awake Cell.mutex (n, c) r.1 r.2.mutex

/-- The same of an unlock. -/
def Unlocks (n : Next UnlPC) (c : Cell) (r : Outcome × State) : Prop :=
  Alone (unlStep id env) Awake Cell.mutex (n, c) r.1 r.2.mutex

variable {id env} {S : Sys} {prio : Prio} {ops : List FutexOp}

/-- The assertion of a lock, and the recording of the ownership. -/
theorem assertOwner_alone (recursive : Bool) (c : Cell) :
    Locks id env (.goto (.assertOwner recursive)) c
      (if c.mutex.owner ≠ 0 then (.abort .owner, ⟨c.mutex, prio, ops⟩)
      else (.ret 0, ⟨recordOwner id (if recursive then { c.mutex with count := 1 } else c.mutex),
        prio, ops⟩)) := by
  refine .step ?_
  simp only [lockStep, pthreadMutexLock]
  by_cases howner : c.mutex.owner = 0
  · simp only [howner, ne_eq, not_true_eq_false, if_true, if_false]
    cases recursive with
    | true => exact .step (.step (.step (.step .done)))
    | false => exact .step (.step (.step .done))
  · simp only [howner, ne_eq, not_false_eq_true, if_true, if_false]
    exact .done

/-- Where `lll_lock` returns to. -/
theorem lockTaken_alone (t : LockTarget) (c : Cell) :
    Locks id env (.goto t.next) c (lockTaken id t ⟨c.mutex, prio, ops⟩) := by
  cases t with
  | recursive => exact assertOwner_alone true c
  | simple => exact assertOwner_alone false c
  | adaptive cnt =>
    let spins := c.mutex.spins + ((cnt : ℤ) - c.mutex.spins).tdiv 8
    exact .step (.step (assertOwner_alone false
      { c with mutex := { c.mutex with spins := spins } }))

/-- `lll_lock`. -/
theorem lllLock_alone (t : LockTarget) (c : Cell) :
    Locks id env (.goto (.cas t)) c (lllLock id t ⟨c.mutex, prio, ops⟩) := by
  unfold lllLock
  refine .step ?_
  simp only [lockStep, pthreadMutexLock]
  by_cases hfree : c.mutex.lock = lllLockInitializer
  · simp only [if_pos hfree]
    exact lockTaken_alone t
      { c with mutex := { c.mutex with lock := lllLockInitializerLocked } }
  · simp only [if_neg hfree]
    refine .step ?_
    simp only [lockStep, pthreadMutexLock, if_neg hfree]
    exact .sleeps ⟨rfl, rfl⟩

/-- The spin loop on a taken word goes round until its count is used up. -/
theorem adFail_alone {cnt : ℕ} {maxCnt : ℤ} (hcnt : cnt ≤ maxCnt.toNat) (c : Cell)
    (htaken : c.mutex.lock ≠ lllLockInitializer) :
    Locks id env (.goto (.adFail cnt maxCnt)) c
      (lllLock id (.adaptive (maxCnt.toNat + 1)) ⟨c.mutex, prio, ops⟩) := by
  induction hrest : maxCnt.toNat - cnt generalizing cnt c with
  | zero =>
    obtain rfl : cnt = maxCnt.toNat := by omega
    have hcheck : adCheck maxCnt.toNat maxCnt = .cas (.adaptive (maxCnt.toNat + 1)) :=
      if_pos (Int.self_le_toNat maxCnt)
    refine .step (.step ?_)
    simp only [lockStep, pthreadMutexLock, hcheck]
    exact lllLock_alone _ { c with record := c.record.set .fail (inc32 (c.record.get .fail)) }
  | succ n ih =>
    have hcheck : adCheck cnt maxCnt = .adRetry (cnt + 1) maxCnt := if_neg (by omega)
    refine .step (.step ?_)
    simp only [lockStep, pthreadMutexLock, hcheck]
    refine .step ?_
    simp only [lockStep, pthreadMutexLock, if_neg htaken]
    exact ih (by omega) { c with record := c.record.set .fail (inc32 (c.record.get .fail)) } htaken
      (by omega)

/-- The adaptive case. -/
theorem adTry_alone (c : Cell) :
    Locks id env (.goto .adTry) c (lockAdaptive id ⟨c.mutex, prio, ops⟩) := by
  unfold lockAdaptive
  refine .step ?_
  simp only [lockStep, pthreadMutexLock]
  by_cases hfree : c.mutex.lock = lllLockInitializer
  · simp only [if_pos hfree]
    exact assertOwner_alone false
      { c with mutex := { c.mutex with lock := lllLockInitializerLocked } }
  · simp only [if_neg hfree]
    exact .step (adFail_alone (Nat.zero_le _) c hfree)

/-- The normal case, with the probe for waiters. -/
theorem probe_alone (c : Cell) :
    Locks id env (.goto .probe) c (lllLock id .simple ⟨c.mutex, prio, ops⟩) := by
  refine .step ?_
  simp only [lockStep, pthreadMutexLock]
  by_cases hwaiters : c.mutex.lock = 2
  · rw [if_pos hwaiters]
    refine .step (.step (.step ?_))
    exact lllLock_alone .simple _
  · rw [if_neg hwaiters]
    exact lllLock_alone .simple c

/-- One level deeper. -/
theorem recCount_alone (c : Cell) :
    Locks id env (.goto .recCount) c (bumpCount ⟨c.mutex, prio, ops⟩) := by
  unfold bumpCount
  refine .step ?_
  simp only [lockStep, pthreadMutexLock]
  by_cases hcount : c.mutex.count + 1 = 0
  · simp only [if_pos hcount]
    exact .done
  · simp only [if_neg hcount]
    exact .step .done

/-- The dispatch of a lock on the kind. -/
theorem kind_alone {c : Cell} (hkind : switchKind c.mutex.kind ≠ .special) :
    Locks id env (.goto .kind) c (Calls.pthreadMutexLock S id ⟨c.mutex, prio, ops⟩) := by
  unfold Calls.pthreadMutexLock
  refine .step ?_
  show Locks id env (Build.incr.dispatch c.mutex.kind).next c _
  unfold Build.dispatch
  simp only
  cases hcase : switchKind c.mutex.kind with
  | special => exact absurd hcase hkind
  | invalid => exact .done
  | basic κ =>
    cases κ with
    | timed => exact probe_alone c
    | adaptive => exact adTry_alone c
    | recursive =>
      refine .step ?_
      simp only [lockStep, pthreadMutexLock]
      by_cases howner : c.mutex.owner = id
      · simp only [if_pos howner]
        exact recCount_alone c
      · simp only [if_neg howner]
        exact lllLock_alone .recursive c
    | errorcheck =>
      refine .step ?_
      simp only [lockStep, pthreadMutexLock]
      by_cases howner : c.mutex.owner = id
      · simp only [if_pos howner]
        exact .done
      · simp only [if_neg howner]
        exact probe_alone c

/-- **A lock call that runs alone does what the whole call says**, on every kind whose code is not
    special. -/
theorem pthreadMutexLock_alone {c : Cell} (hkind : switchKind c.mutex.kind ≠ .special) :
    Locks id env (.goto .stat) c (Calls.pthreadMutexLock S id ⟨c.mutex, prio, ops⟩) := by
  refine .step (.step (.step (kind_alone ?_)))
  exact hkind

/-- A failed attempt is counted, and the trylock is over. -/
theorem tryBusy_alone (c : Cell) (prio : Prio) (ops : List FutexOp) :
    Tries id env (tryResult eBUSY).next c (.ret eBUSY, ⟨c.mutex, prio, ops⟩) :=
  .step (.step (.step (.step .done)))

/-- The recursive case of `do_mutex_trylock`. -/
theorem tryRecOwner_alone (c : Cell) :
    Tries id env (.goto .recOwner) c (trylockRecursive id ⟨c.mutex, prio, ops⟩) := by
  unfold trylockRecursive
  refine .step ?_
  simp only [tryStep, pthreadMutexTrylock]
  by_cases howner : c.mutex.owner = id
  · simp only [if_pos howner, bumpCount]
    refine .step ?_
    simp only [tryStep, pthreadMutexTrylock]
    by_cases hcount : c.mutex.count + 1 = 0
    · simp only [if_pos hcount]
      exact .done
    · simp only [if_neg hcount]
      exact .step .done
  simp only [if_neg howner]
  refine .step ?_
  simp only [tryStep, pthreadMutexTrylock]
  by_cases hfree : c.mutex.lock = lllLockInitializer
  · simp only [if_pos hfree]
    exact .step (.step (.step (.step .done)))
  · simp only [if_neg hfree]
    exact tryBusy_alone c prio ops

/-- The other basic kinds. -/
theorem tryCas_alone (c : Cell) :
    Tries id env (.goto (.cas false)) c (trylockSimple id ⟨c.mutex, prio, ops⟩) := by
  unfold trylockSimple
  refine .step ?_
  simp only [tryStep, pthreadMutexTrylock]
  by_cases hfree : c.mutex.lock = lllLockInitializer
  · simp only [if_pos hfree]
    exact .step (.step (.step .done))
  · simp only [if_neg hfree]
    exact tryBusy_alone c prio ops

/-- The `switch` of `do_mutex_trylock`. -/
theorem tryKind_alone {c : Cell} (hkind : tryDispatch c.mutex.kind ≠ .goto .special) :
    Tries id env (.goto .kind) c (doMutexTrylock S id ⟨c.mutex, prio, ops⟩) := by
  unfold tryDispatch at hkind
  unfold doMutexTrylock
  refine .step ?_
  show Tries id env (tryDispatch c.mutex.kind).next c _
  unfold tryDispatch
  simp only at hkind ⊢
  by_cases htimed : pthreadMutexTypeElision c.mutex.kind = elisionNp
  · simp only [if_pos htimed]
    exact .done
  simp only [if_neg htimed] at hkind ⊢
  by_cases hrecursive :
      pthreadMutexTypeElision c.mutex.kind = BasicKind.recursive.code ||| elisionNp
  · simp only [if_pos hrecursive]
    exact tryRecOwner_alone c
  simp only [if_neg hrecursive] at hkind ⊢
  cases hcase : switchKind (pthreadMutexTypeElision c.mutex.kind) with
  | special => exact absurd (by rw [hcase]) hkind
  | invalid => exact .done
  | basic κ =>
    cases κ with
    | recursive => exact tryRecOwner_alone c
    | timed | errorcheck | adaptive => exact tryCas_alone c

/-- **A trylock that runs alone does what the whole call says.** -/
theorem pthreadMutexTrylock_alone {c : Cell} (hkind : tryDispatch c.mutex.kind ≠ .goto .special) :
    Tries id env (.goto .stat) c (doMutexTrylock S id ⟨c.mutex, prio, ops⟩) := by
  refine .step (.step (.step (tryKind_alone ?_)))
  exact hkind

/-- From `normal:` on. -/
theorem unlockNormal_alone (c : Cell) :
    Unlocks id env (.goto .owner) c (unlockNormal ⟨c.mutex, prio, ops⟩) :=
  .step (.step (.step (.step .done)))

/-- The recursive case. -/
theorem unlRecOwner_alone (c : Cell) :
    Unlocks id env (.goto .recOwner) c
      (if c.mutex.owner ≠ id then (.ret ePERM, ⟨c.mutex, prio, ops⟩)
      else if c.mutex.count - 1 ≠ 0 then
        (.ret 0, ⟨{ c.mutex with count := c.mutex.count - 1 }, prio, ops⟩)
      else unlockNormal ⟨{ c.mutex with count := c.mutex.count - 1 }, prio, ops⟩) := by
  refine .step ?_
  simp only [unlStep, pthreadMutexUnlockUsercnt]
  by_cases howner : c.mutex.owner ≠ id
  · rw [if_pos howner, if_pos howner]
    exact .done
  rw [if_neg howner, if_neg howner]
  refine .step (.step ?_)
  simp only [unlStep, pthreadMutexUnlockUsercnt]
  by_cases hcount : c.mutex.count - 1 ≠ 0
  · rw [if_pos hcount, if_pos hcount]
    exact .done
  · rw [if_neg hcount, if_neg hcount]
    exact unlockNormal_alone { c with mutex := { c.mutex with count := c.mutex.count - 1 } }

/-- The case of an error-checking mutex. -/
theorem unlErrOwner_alone (c : Cell) :
    Unlocks id env (.goto .errOwner) c
      (if c.mutex.owner ≠ id ∨ c.mutex.lock = lllLockInitializer then
        (.ret ePERM, ⟨c.mutex, prio, ops⟩)
      else unlockNormal ⟨c.mutex, prio, ops⟩) := by
  refine .step ?_
  simp only [unlStep, pthreadMutexUnlockUsercnt]
  by_cases howner : c.mutex.owner ≠ id
  · rw [if_pos howner, if_pos (.inl howner)]
    exact .done
  rw [if_neg howner]
  refine .step ?_
  simp only [unlStep, pthreadMutexUnlockUsercnt]
  by_cases hfree : c.mutex.lock = lllLockInitializer
  · rw [if_pos hfree, if_pos (.inr hfree)]
    exact .done
  · rw [if_neg hfree, if_neg (not_or.mpr ⟨howner, hfree⟩)]
    exact unlockNormal_alone c

/-- The tests on the kind that follow the first ones. -/
theorem unlRecursive_alone (c : Cell) (type : BitVec 32) :
    Unlocks id env (.goto (.recursive type)) c
      (if pthreadMutexType c.mutex.kind = BasicKind.recursive.code then
        if c.mutex.owner ≠ id then (.ret ePERM, ⟨c.mutex, prio, ops⟩)
        else if c.mutex.count - 1 ≠ 0 then
          (.ret 0, ⟨{ c.mutex with count := c.mutex.count - 1 }, prio, ops⟩)
        else unlockNormal ⟨{ c.mutex with count := c.mutex.count - 1 }, prio, ops⟩
      else if pthreadMutexType c.mutex.kind = BasicKind.adaptive.code then
        unlockNormal ⟨c.mutex, prio, ops⟩
      else if type ≠ BasicKind.errorcheck.code then (.abort .type, ⟨c.mutex, prio, ops⟩)
      else if c.mutex.owner ≠ id ∨ c.mutex.lock = lllLockInitializer then
        (.ret ePERM, ⟨c.mutex, prio, ops⟩)
      else unlockNormal ⟨c.mutex, prio, ops⟩) := by
  refine .step ?_
  simp only [unlStep, pthreadMutexUnlockUsercnt]
  by_cases hrecursive : pthreadMutexType c.mutex.kind = BasicKind.recursive.code
  · rw [if_pos hrecursive, if_pos hrecursive]
    exact unlRecOwner_alone c
  rw [if_neg hrecursive, if_neg hrecursive]
  refine .step ?_
  simp only [unlStep, pthreadMutexUnlockUsercnt]
  by_cases hadaptive : pthreadMutexType c.mutex.kind = BasicKind.adaptive.code
  · simp only [if_pos hadaptive]
    exact unlockNormal_alone c
  simp only [if_neg hadaptive]
  by_cases herr : type = BasicKind.errorcheck.code
  · rw [if_pos herr, if_neg (not_not.mpr herr)]
    exact unlErrOwner_alone c
  · rw [if_neg herr, if_pos herr]
    exact .done

/-- **An unlock that runs alone does what the whole call says.** -/
theorem pthreadMutexUnlock_alone {c : Cell} (hkind : unlDispatch c.mutex.kind ≠ .goto .special) :
    Unlocks id env (.goto .type) c (Calls.pthreadMutexUnlock S id ⟨c.mutex, prio, ops⟩) := by
  unfold unlDispatch at hkind
  unfold Calls.pthreadMutexUnlock
  refine .step ?_
  show Unlocks id env (unlDispatch c.mutex.kind).next c _
  unfold unlDispatch
  simp only at hkind ⊢
  by_cases hfull : pthreadMutexTypeElision c.mutex.kind &&& ~~~(kindMask ||| elisionFlags) ≠ 0
  · simp only [if_pos hfull] at hkind ⊢
    unfold pthreadMutexUnlockFull
    cases hcase : switchKind (pthreadMutexType c.mutex.kind) with
    | special => exact absurd (by rw [hcase]) hkind
    | invalid | basic _ =>
      simp only [hcase]
      exact .done
  simp only [if_neg hfull] at hkind ⊢
  by_cases htimed : pthreadMutexTypeElision c.mutex.kind = BasicKind.timed.code
  · simp only [if_pos htimed]
    exact unlockNormal_alone c
  simp only [if_neg htimed] at hkind ⊢
  by_cases helision : pthreadMutexTypeElision c.mutex.kind = elisionNp
  · exact absurd (if_pos helision) hkind
  · simp only [if_neg helision]
    exact unlRecursive_alone c _

end Basic

end SyncPerf
