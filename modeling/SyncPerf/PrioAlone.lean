import SyncPerf.Alone
import SyncPerf.PrioSteps

namespace SyncPerf.PrioProtect

open Calls

/-!
# A priority-protect mutex without interference

The steps of a lock, a trylock and an unlock of a mutex with priority protection lead, with nobody
in between, to what the whole call says.

* `Acquires`, `Releases` — the steps of one thread, from a point of the call to its result;
* `raise_alone`, `lockCas_alone`, `tryCas_alone`, `unlockPp_alone` — the parts of the calls;
* `lock_alone`, `trylock_alone`, `unlock_alone` — the calls.
-/

/-! ### Acquisitions -/

/-- The ceiling in a word, and its shift. -/
theorem ceilvalOf_ceilingOf (oldval : ℕ) :
    ceilvalOf (ceilingOf oldval) = oldval &&& prioCeilingMask := by
  apply Nat.eq_of_testBit_eq
  intro i
  rw [ceilvalOf, ceilingOf, prioCeilingShift, Nat.testBit_shiftLeft, Nat.testBit_shiftRight,
    Nat.testBit_and, Nat.testBit_and, testBit_prioCeilingMask, testBit_prioCeilingMask]
  by_cases h : 19 ≤ i
  · simp [h, show 19 + (i - 19) = i by omega]
  · simp [h]

/-- Where a lock sleeps for a mutex with a ceiling. -/
def SleepsAt : Wait → AcquirePC → Prio × MutexData → Prop
  | .ceiling ceilval, .futexWait ceiling, _ => ceilvalOf ceiling = ceilval
  | _, _, _ => False

section

variable (S : Sys) (id : ℕ) (mode : Mode)

/-- The steps of an acquisition, with nobody in between, lead to the result of a whole call. -/
def Acquires (n : Next AcquirePC) (s : State) (r : Outcome × State) : Prop :=
  Alone (fun p s => acquireStep S.toSched id mode p s.1 s.2) SleepsAt (fun s => s)
    (n, s.prio, s.mutex) r.1 (r.2.prio, r.2.mutex)

/-- The same of a release. -/
def Releases (p : ReleasePC) (s : State) (r : Outcome × State) : Prop :=
  Alone (fun p s => releaseStep S.toSched id true p s.1 s.2) Awake (fun s => s)
    (.goto p, s.prio, s.mutex) r.1 (r.2.prio, r.2.mutex)

end

variable {S : Sys} {id : ℕ} {mode : Mode}

/-- One level deeper. -/
theorem bump_alone (s : State) : Acquires S id mode (.goto .bump) s (bumpCount s) := by
  unfold bumpCount
  refine .step ?_
  show Acquires S id mode
    (if s.mutex.count + 1 = 0 then .done (.ret eAGAIN) else .goto .bumpLoad) s _
  by_cases hcount : s.mutex.count + 1 = 0
  · rw [if_pos hcount, if_pos hcount]
    exact .done
  · rw [if_neg hcount, if_neg hcount]
    exact .step (.step .done)

/-- The tests for the owner, with which both calls begin. -/
theorem word_alone {s : State} {r : Outcome × State}
    (hrest : Acquires S id mode (.goto (.raise (-1) s.mutex.lock)) s r) :
    Acquires S id mode (.goto .word) s
      (if s.mutex.owner = id ∧ basicOf s.mutex.kind = .errorcheck then (.ret eDEADLK, s)
        else if s.mutex.owner = id ∧ basicOf s.mutex.kind = .recursive then bumpCount s
        else r) := by
  refine .step (.step ?_)
  show Acquires S id mode
    (if s.mutex.owner = id ∧ basicOf s.mutex.kind = .errorcheck then .done (.ret eDEADLK)
      else if s.mutex.owner = id ∧ basicOf s.mutex.kind = .recursive then .goto .bump
      else .goto (.raise (-1) s.mutex.lock)) s _
  by_cases herr : s.mutex.owner = id ∧ basicOf s.mutex.kind = .errorcheck
  · rw [if_pos herr, if_pos herr]
    exact .done
  rw [if_neg herr, if_neg herr]
  by_cases hrec : s.mutex.owner = id ∧ basicOf s.mutex.kind = .recursive
  · rw [if_pos hrec, if_pos hrec]
    exact bump_alone s
  · rw [if_neg hrec, if_neg hrec]
    exact hrest

/-- The priority is raised, and the call goes on or ends. -/
theorem raise_alone {s : State} {oldval : ℕ} (rest : State → Outcome × State)
    (hrest : ∀ prio, Acquires S id mode (.goto (.cas (ceilingOf oldval))) { s with prio := prio }
      (rest { s with prio := prio })) :
    Acquires S id mode (.goto (.raise (-1) oldval)) s
      (let (current, prio) := pthreadCurrentPriority S.toSched s.prio
      let s := { s with prio := prio }
      if current > ceilingOf oldval then (.ret eINVAL, s)
      else match tppChangePriority S.toSched (-1) (ceilingOf oldval) s.prio with
        | .error a => (.abort (.prio a), s)
        | .ok (retval, prio) =>
          let s := { s with prio := prio }
          if retval ≠ 0 then (.ret retval, s) else rest s) := by
  refine .step ?_
  show Acquires S id mode (raiseStep S.toSched (-1) oldval s.prio).1
    { s with prio := (raiseStep S.toSched (-1) oldval s.prio).2 } _
  unfold raiseStep
  by_cases hcurrent : (pthreadCurrentPriority S.toSched s.prio).1 > ceilingOf oldval
  · simp only [if_pos hcurrent]
    exact .done
  simp only [if_neg hcurrent]
  cases hchange : tppChangePriority S.toSched (-1) (ceilingOf oldval)
      (pthreadCurrentPriority S.toSched s.prio).2 with
  | error a => exact .done
  | ok r =>
    by_cases hret : r.1 = 0
    · simp only [hret, ne_eq, not_true_eq_false, if_false]
      exact hrest r.2
    · simp only [ne_eq, hret, not_false_eq_true, if_true]
      exact .done

/-- A word has the ceiling that it was read with. -/
theorem sameCeiling (oldval : ℕ) :
    ¬ oldval &&& prioCeilingMask ≠ ceilvalOf (ceilingOf oldval) :=
  not_not.mpr (ceilvalOf_ceilingOf oldval).symm

/-- The end of a lock that has the word. -/
theorem lockPpTaken_alone (s : State) :
    Acquires S id (.lock .incr) (.goto .assertOwner) s (lockPpTaken id s) := by
  unfold lockPpTaken
  refine .step ?_
  show Acquires S id (.lock .incr)
    (if s.mutex.owner ≠ 0 then .done (.abort .owner) else .goto .setCount) s _
  by_cases howner : s.mutex.owner ≠ 0
  · rw [if_pos howner, if_pos howner]
    exact .done
  · rw [if_neg howner, if_neg howner]
    exact .step (.step (.step (.step .done)))

/-- The mark for waiters goes into a word that is taken and not marked. -/
theorem lockPpWait_mutex (ceilval : ℕ) (s : State) : (lockPpWait ceilval s).2.mutex =
    if s.mutex.lock = ceilval ||| 1 then { s.mutex with lock := ceilval ||| 2 } else s.mutex := by
  by_cases hlock : s.mutex.lock = ceilval ||| 1
  · simp [lockPpWait, State.set, hlock]
  · simp [lockPpWait, State.set, hlock]

/-- What follows the raised priority in a lock: the word is taken, or the thread sleeps. -/
theorem lockCas_alone (s : State) :
    Acquires S id (.lock .incr) (.goto (.cas (ceilingOf s.mutex.lock))) s
      (let ceilval := ceilvalOf (ceilingOf s.mutex.lock)
      if s.mutex.lock = ceilval then lockPpTaken id (s.set { s.mutex with lock := ceilval ||| 1 })
      else lockPpWait ceilval s) := by
  refine .step ?_
  show Alone _ _ _ (if s.mutex.lock = ceilvalOf (ceilingOf s.mutex.lock) then _ else _) _ _
  by_cases hlock : s.mutex.lock = ceilvalOf (ceilingOf s.mutex.lock)
  · simp only [if_pos hlock]
    exact lockPpTaken_alone
      (s.set { s.mutex with lock := ceilvalOf (ceilingOf s.mutex.lock) ||| 1 })
  · simp only [if_neg hlock]
    refine .step ?_
    show Alone _ _ _
      (.goto (if s.mutex.lock &&& prioCeilingMask ≠ ceilvalOf (ceilingOf s.mutex.lock) then _
        else if s.mutex.lock ≠ ceilvalOf (ceilingOf s.mutex.lock) then _ else _), _) _ _
    rw [if_neg (sameCeiling _), if_pos hlock, lockPpWait_mutex]
    exact .sleeps rfl

/-- The case of a lock. -/
theorem lockPp_alone (s : State) :
    Acquires S id (.lock .incr) (.goto .word) s (lockPp S id (basicOf s.mutex.kind) s) := by
  unfold lockPp
  let ceilval := ceilvalOf (ceilingOf s.mutex.lock)
  exact word_alone (raise_alone
    (fun s => if s.mutex.lock = ceilval then
        lockPpTaken id (s.set { s.mutex with lock := ceilval ||| 1 })
      else lockPpWait ceilval s) fun prio => lockCas_alone { s with prio := prio })

/-- What follows it in a trylock: a word that is not free is busy. -/
theorem tryCas_alone (s : State) :
    Acquires S id .trylock (.goto (.cas (ceilingOf s.mutex.lock))) s
      (let ceiling := ceilingOf s.mutex.lock
      let ceilval := ceilvalOf ceiling
      if s.mutex.lock ≠ ceilval then
        match tppChangePriority S.toSched ceiling (-1) s.prio with
        | .error a => (.abort (.prio a), s)
        | .ok (_, prio) => (.ret eBUSY, { s with prio := prio })
      else
        let m : MutexData := { s.mutex with lock := ceilval ||| 1 }
        if m.owner ≠ 0 then (.abort .owner, s.set m)
        else (.ret 0, s.set { recordOwner id m with count := 1 })) := by
  refine .step ?_
  show Alone _ _ _ (if s.mutex.lock = ceilvalOf (ceilingOf s.mutex.lock) then _ else _) _ _
  by_cases hlock : s.mutex.lock = ceilvalOf (ceilingOf s.mutex.lock)
  · rw [if_pos hlock]
    simp only [if_neg (not_not.mpr hlock)]
    refine .step ?_
    show Alone _ _ _ (if s.mutex.owner ≠ 0 then _ else _, _) _ _
    by_cases howner : s.mutex.owner ≠ 0
    · simp only [if_pos howner]
      exact .done
    · simp only [if_neg howner]
      exact .step (.step (.step (.step .done)))
  · rw [if_neg hlock]
    simp only [if_pos hlock]
    show Alone _ _ _
      (.goto (if s.mutex.lock &&& prioCeilingMask ≠ ceilvalOf (ceilingOf s.mutex.lock) then _
        else _), _) _ _
    rw [if_neg (sameCeiling _)]
    refine .step ?_
    show Alone _ _ _ (match tppChangePriority S.toSched (ceilingOf s.mutex.lock) (-1) s.prio with
      | .error a => (.done (.abort (.prio a)), s.prio, s.mutex)
      | .ok (_, prio) => (.done (.ret eBUSY), prio, s.mutex)) _ _
    cases tppChangePriority S.toSched (ceilingOf s.mutex.lock) (-1) s.prio with
    | error a => exact .done
    | ok r => exact .done

/-- The case of a trylock. -/
theorem trylockPp_alone (s : State) :
    Acquires S id .trylock (.goto .word) s (trylockPp S id (basicOf s.mutex.kind) s) := by
  unfold trylockPp
  let ceiling := ceilingOf s.mutex.lock
  let ceilval := ceilvalOf ceiling
  exact word_alone (raise_alone
    (fun s => if s.mutex.lock ≠ ceilval then
        match tppChangePriority S.toSched ceiling (-1) s.prio with
        | .error a => (.abort (.prio a), s)
        | .ok (_, prio) => (.ret eBUSY, { s with prio := prio })
      else
        let m : MutexData := { s.mutex with lock := ceilval ||| 1 }
        if m.owner ≠ 0 then (.abort .owner, s.set m)
        else (.ret 0, s.set { recordOwner id m with count := 1 }))
    fun prio => tryCas_alone { s with prio := prio })

/-- A kind of priority protection. -/
theorem protect_code {type : BitVec 32}
    (h : switchKind type = .special ∧ protocolOf type = .protect) :
    ∃ κ, type = Protocol.protect.code κ := by
  obtain ⟨π, κ, rfl⟩ := special_code h.1
  rw [protocolOf_code] at h
  exact ⟨κ, by rw [h.2]⟩

/-- **A lock call that runs alone does what `pthreadMutexLock` says.** -/
theorem lock_alone {s : State} {p : AcquirePC}
    (hswitch : acquireSwitch (.lock .incr) s.mutex.kind = some p) :
    Acquires S id (.lock .incr) (.goto p) s (Calls.pthreadMutexLock S id s) := by
  unfold acquireSwitch at hswitch
  simp only [Option.ite_none_right_eq_some, Option.some.injEq] at hswitch
  obtain ⟨hprotect, rfl⟩ := hswitch
  obtain ⟨κ, hkind⟩ := protect_code hprotect
  have hcall : Calls.pthreadMutexLock S id s = lockPp S id (basicOf s.mutex.kind) s := by
    simp only [Calls.pthreadMutexLock, hkind, switchKind_protocol, protocolOf_code]
  rw [hcall]
  exact lockPp_alone s

/-- **A trylock that runs alone does what `doMutexTrylock` says.** -/
theorem trylock_alone {s : State} {p : AcquirePC}
    (hswitch : acquireSwitch .trylock s.mutex.kind = some p) :
    Acquires S id .trylock (.goto p) s (doMutexTrylock S id s) := by
  unfold acquireSwitch at hswitch
  simp only [Option.ite_none_right_eq_some, Option.some.injEq] at hswitch
  obtain ⟨hprotect, rfl⟩ := hswitch
  obtain ⟨κ, htype⟩ := protect_code hprotect
  have hbasic : basicOf s.mutex.kind = κ := by rw [← basicOf_elision, htype, basicOf_code]
  rw [doMutexTrylock_protocol htype]
  subst hbasic
  exact trylockPp_alone s

/-! ### A release -/

/-- From `pp:` on. -/
theorem unlockPp_alone (s : State) : Releases S id .owner s (unlockPp S s) := by
  unfold unlockPp
  refine .step (.step (.step (.step (.step ?_))))
  show Alone _ _ _ (if s.mutex.lock = s.mutex.lock then _ else _) _ _
  rw [if_pos rfl]
  refine .step ?_
  unfold releaseStep
  simp only
  cases tppChangePriority S.toSched
      ((BitVec.ofNat 32 (s.mutex.lock &&& prioCeilingMask)).toInt >>> prioCeilingShift) (-1)
      s.prio with
  | error a => exact .done
  | ok r => exact .done

/-- The case of a recursive mutex. -/
theorem unlockPpRecursive_alone (s : State) :
    Releases S id .recOwner s (unlockPpRecursive S id s) := by
  unfold unlockPpRecursive
  refine .step ?_
  show Alone _ _ _ (if s.mutex.owner ≠ id then _ else _, _) _ _
  by_cases howner : s.mutex.owner ≠ id
  · simp only [if_pos howner]
    exact .done
  simp only [if_neg howner]
  refine .step (.step ?_)
  show Alone _ _ _ (if s.mutex.count - 1 ≠ 0 then _ else _, _) _ _
  by_cases hcount : s.mutex.count - 1 = 0
  · simp only [State.set, hcount, ne_eq, not_true_eq_false, if_false]
    exact unlockPp_alone { s with mutex := { s.mutex with count := 0 } }
  · simp only [State.set, hcount, ne_eq, not_false_eq_true, if_true]
    exact .done

/-- The case of an error-checking one. -/
theorem unlockPpErrorcheck_alone (s : State) :
    Releases S id .errOwner s
      (if s.mutex.owner ≠ id ∨ s.mutex.lock - (s.mutex.lock &&& prioCeilingMask) = 0 then
        (.ret ePERM, s)
      else unlockPp S s) := by
  refine .step ?_
  show Alone _ _ _ (if s.mutex.owner ≠ id then _ else _, _) _ _
  by_cases howner : s.mutex.owner ≠ id
  · rw [if_pos howner, if_pos (.inl howner)]
    exact .done
  rw [if_neg howner]
  refine .step ?_
  show Alone _ _ _ (if s.mutex.lock - (s.mutex.lock &&& prioCeilingMask) = 0 then _ else _, _) _ _
  by_cases hfree : s.mutex.lock - (s.mutex.lock &&& prioCeilingMask) = 0
  · rw [if_pos hfree, if_pos (.inr hfree)]
    exact .done
  · rw [if_neg hfree, if_neg (not_or.mpr ⟨howner, hfree⟩)]
    exact unlockPp_alone s

/-- **An unlock that runs alone does what `pthreadMutexUnlock` says.** -/
theorem unlock_alone {s : State} {p : ReleasePC} (hswitch : releaseSwitch s.mutex.kind = some p) :
    Releases S id p s (Calls.pthreadMutexUnlock S id s) := by
  unfold releaseSwitch at hswitch
  simp only [Option.ite_none_right_eq_some] at hswitch
  obtain ⟨hprotect, hp⟩ := hswitch
  obtain ⟨κ, htype⟩ := protect_code hprotect
  rw [pthreadMutexUnlock_protocol htype]
  simp only [pthreadMutexUnlockFull, htype, switchKind_protocol, protocolOf_code, basicOf_code]
  rw [htype, basicOf_code] at hp
  cases κ with
  | recursive =>
    obtain rfl : .recOwner = p := Option.some.inj hp
    exact unlockPpRecursive_alone s
  | errorcheck =>
    obtain rfl : .errOwner = p := Option.some.inj hp
    exact unlockPpErrorcheck_alone s
  | timed | adaptive =>
    obtain rfl : .owner = p := Option.some.inj hp
    exact unlockPp_alone s

end SyncPerf.PrioProtect
