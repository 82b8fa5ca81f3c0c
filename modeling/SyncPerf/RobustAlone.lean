import SyncPerf.Alone
import SyncPerf.RobustSteps

namespace SyncPerf.Robust

open Calls

/-!
# A robust mutex without interference

The steps of a trylock and an unlock of a robust mutex, with or without priority inheritance, lead,
with nobody in between, to what the whole call says.

* `Tries`, `Releases` — the steps of one thread, from a point of the call to its result;
* `cas_alone`, `piRecoverable_alone`, `recOwner_alone`, `unlockTid_alone` — the parts of the calls;
* `trylock_alone`, `unlock_alone` — the calls.
-/

/-! ### A trylock -/

section

variable (S : Sys) (id : ℕ)

/-- The steps of a trylock, with nobody in between, lead to the result of a whole call. -/
def Tries (n : Next TryPC) (s : State) (r : Outcome × State) : Prop :=
  Alone (trylockStep S id) Awake (fun m => m) (n, s.mutex) r.1 r.2.mutex

/-- The same of an unlock. -/
def Releases (n : Next UnlockPC) (s : State) (r : Outcome × State) : Prop :=
  Alone (fun p s => unlockStep S id p s.1 s.2) Awake (fun s => s) (n, s.prio, s.mutex) r.1
    (r.2.prio, r.2.mutex)

end

variable {S : Sys} {id : ℕ}

/-- One level deeper. -/
theorem bump_alone (s : State) : Tries S id (.goto .bump) s (bumpCount s) := by
  unfold bumpCount
  refine .step ?_
  show Tries S id (if s.mutex.count + 1 = 0 then .done (.ret eAGAIN) else .goto .bumpLoad) s _
  by_cases hcount : s.mutex.count + 1 = 0
  · rw [if_pos hcount, if_pos hcount]
    exact .done
  · rw [if_neg hcount, if_neg hcount]
    exact .step (.step .done)

/-- The test for the thread's own id. -/
theorem ownWord_alone {κ : BasicKind} {s : State} {p : TryPC} {r : Outcome × State}
    (hrest : Tries S id (.goto p) s r) :
    Tries S id (ownWord id κ s.mutex.lock p) s
      (if s.mutex.lock &&& futexTidMask = id ∧ κ = .errorcheck then (.ret eDEADLK, s)
        else if s.mutex.lock &&& futexTidMask = id ∧ κ = .recursive then bumpCount s
        else r) := by
  unfold ownWord
  by_cases herr : s.mutex.lock &&& futexTidMask = id ∧ κ = .errorcheck
  · rw [if_pos herr, if_pos herr]
    exact .done
  rw [if_neg herr, if_neg herr]
  by_cases hrec : s.mutex.lock &&& futexTidMask = id ∧ κ = .recursive
  · rw [if_pos hrec, if_pos hrec]
    exact bump_alone s
  · rw [if_neg hrec, if_neg hrec]
    exact hrest

/-- The compare-and-exchange of 0 with the thread id. -/
theorem cas_alone {s : State} (hdied : s.mutex.lock &&& futexOwnerDied = 0) :
    Tries S id (.goto .cas) s
      (if s.mutex.lock ≠ 0 then (.ret eBUSY, s)
      else
        let m := { s.mutex with lock := id }
        if m.owner = mutexNotrecoverable then
          (.ret eNOTRECOVERABLE, s.set { m with
            count := 0, lock := if s.mutex.lock = id then lllLockInitializer else m.lock })
        else (.ret 0, s.set { recordOwner id m with count := 1 })) := by
  refine .step ?_
  show Alone _ _ _ (if s.mutex.lock ≠ 0 ∧ s.mutex.lock &&& futexOwnerDied = 0 then _ else _,
    if s.mutex.lock = 0 then _ else _) _ _
  by_cases hfree : s.mutex.lock = 0
  · rw [if_pos hfree, if_neg (fun h => h.1 hfree)]
    simp only [hfree, ne_eq, not_true_eq_false, if_false]
    refine .step ?_
    show Alone _ _ _ (if s.mutex.owner = mutexNotrecoverable then _
      else if 0 &&& futexOwnerDied ≠ 0 then _ else _, _) _ _
    by_cases howner : s.mutex.owner = mutexNotrecoverable
    · simp only [if_pos howner]
      refine .step (.step ?_)
      show Alone _ _ _ (_, if 0 = id then _ else _) _ _
      by_cases hid : 0 = id
      · simp only [State.set, if_pos hid]
        exact .done
      · simp only [State.set, if_neg hid]
        exact .done
    · simp only [if_neg howner]
      exact .step (.step (.step (.step .done)))
  · rw [if_neg hfree, if_pos ⟨hfree, hdied⟩, if_pos hfree]
    exact .done

/-- The robust case. -/
theorem trylockRobust_alone (s : State) :
    Tries S id (.goto .word) s
      (trylockRobust id (basicOf (pthreadMutexTypeElision s.mutex.kind)) s) := by
  unfold trylockRobust
  refine .step (.step ?_)
  show Tries S id (if s.mutex.lock &&& futexOwnerDied ≠ 0 then .goto (.inherit s.mutex.lock)
    else ownWord id (basicOf (pthreadMutexTypeElision s.mutex.kind)) s.mutex.lock .cas) s _
  by_cases hdied : s.mutex.lock &&& futexOwnerDied ≠ 0
  · simp only [if_pos hdied]
    refine .step ?_
    show Alone _ _ _ (if s.mutex.lock = s.mutex.lock then _ else _) _ _
    rw [if_pos rfl]
    exact .step (.step .done)
  · simp only [if_neg hdied]
    exact ownWord_alone (cas_alone (not_not.mp hdied))

/-- What follows the acquisition in the case of priority inheritance. -/
theorem piRecoverable_alone {s : State} (hrobust : s.mutex.kind &&& robustNormal ≠ 0)
    {oldval : ℕ} (hdied : oldval &&& futexOwnerDied = 0) :
    Tries S id (.goto .piRecoverable) s (trylockPi.after S id true oldval s) := by
  unfold trylockPi.after
  refine .step ?_
  show Alone _ _ _ (.goto (if s.mutex.kind &&& robustNormal ≠ 0 ∧
    s.mutex.owner = mutexNotrecoverable then _ else _), _) _ _
  simp only [hdied, hrobust, ne_eq, not_true_eq_false, not_false_eq_true, true_and, if_false]
  by_cases howner : s.mutex.owner = mutexNotrecoverable
  · simp only [if_pos howner]
    exact .step (.step .done)
  · simp only [if_neg howner]
    exact .step (.step (.step (.step .done)))

/-- What follows the system call. -/
theorem piReload_alone {s : State} (hrobust : s.mutex.kind &&& robustNormal ≠ 0) :
    Tries S id (.goto .piReload) s (trylockPi.after S id true s.mutex.lock s) := by
  refine .step ?_
  show Alone _ _ _ (.goto (if s.mutex.lock &&& futexOwnerDied ≠ 0 then _ else _), _) _ _
  by_cases hdied : s.mutex.lock &&& futexOwnerDied = 0
  · rw [if_neg (not_not.mpr hdied)]
    exact piRecoverable_alone hrobust hdied
  · unfold trylockPi.after
    rw [if_pos hdied]
    simp only [if_pos hdied]
    exact .step (.step (.step .done))

/-- The case of priority inheritance. -/
theorem trylockPi_alone {s : State} (hrobust : s.mutex.kind &&& robustNormal ≠ 0) :
    Tries S id (.goto .piWord) s
      (trylockPi S id true (basicOf (pthreadMutexTypeElision s.mutex.kind)) s) := by
  unfold trylockPi
  refine .step (ownWord_alone (.step ?_))
  show Alone _ _ _ (if s.mutex.lock = 0 then _ else if s.mutex.lock &&& futexOwnerDied = 0 then _
    else if s.mutex.kind &&& robustNormal = 0 then _ else _) _ _
  by_cases hfree : s.mutex.lock = 0
  · rw [if_pos hfree, if_pos hfree]
    exact piRecoverable_alone (s := s.set { s.mutex with lock := id }) hrobust (by decide)
  rw [if_neg hfree, if_neg hfree]
  by_cases hdied : s.mutex.lock &&& futexOwnerDied = 0
  · rw [if_pos hdied, if_pos hdied]
    exact .done
  rw [if_neg hdied, if_neg hdied, if_neg hrobust]
  simp only [not_true_eq_false, if_false]
  refine .step ?_
  let s' := s.set { s.mutex with lock := (S.futexTrylockPi id s.mutex.lock).2 }
  show Tries S id (if (S.futexTrylockPi id s.mutex.lock).1 = eWOULDBLOCK then .done (.ret eBUSY)
    else .goto .piReload) s' _
  by_cases herrno : (S.futexTrylockPi id s.mutex.lock).1 = eWOULDBLOCK
  · rw [if_pos herrno]
    simp only [if_pos herrno]
    exact .done
  · rw [if_neg herrno]
    simp only [if_neg herrno]
    exact piReload_alone (s := s') hrobust

/-- A kind with the robust bit in its type has the bit. -/
theorem robustNormal_of_type {kind : BitVec 32}
    (h : pthreadMutexTypeElision kind &&& robustNormal ≠ 0) : kind &&& robustNormal ≠ 0 := by
  rw [pthreadMutexTypeElision, BitVec.and_assoc] at h
  exact h

/-- **A trylock that runs alone does what `doMutexTrylock` says.** -/
theorem trylock_alone {s : State} {n : Next TryPC} (hswitch : trylockSwitch s.mutex.kind = some n) :
    Tries S id n s (doMutexTrylock S id s) := by
  unfold trylockSwitch at hswitch
  simp only [Option.ite_none_left_eq_some, not_or] at hswitch
  obtain ⟨⟨htimed, hrecursive⟩, hswitch⟩ := hswitch
  cases hcase : switchKind (pthreadMutexTypeElision s.mutex.kind) with
  | basic κ =>
    rw [hcase] at hswitch
    cases hswitch
  | invalid =>
    rw [hcase] at hswitch
    obtain rfl : .done (.ret eINVAL) = n := Option.some.inj hswitch
    unfold doMutexTrylock
    simp only [if_neg htimed, if_neg hrecursive, hcase]
    exact .done
  | special =>
    obtain ⟨π, κ, htype⟩ := special_code hcase
    have hbasic : basicOf (pthreadMutexTypeElision s.mutex.kind) = κ := by rw [htype, basicOf_code]
    rw [htype, switchKind_protocol, protocolOf_code] at hswitch
    rw [doMutexTrylock_protocol htype]
    cases π with
    | robust =>
      obtain rfl : .goto .word = n := Option.some.inj hswitch
      subst hbasic
      exact trylockRobust_alone s
    | inheritRobust =>
      obtain rfl : .goto .piWord = n := Option.some.inj hswitch
      have hbit : Protocol.inheritRobust.code κ &&& robustNormal ≠ 0 := by cases κ <;> decide
      subst hbasic
      exact trylockPi_alone (robustNormal_of_type (htype ▸ hbit))
    | inherit | protect => cases hswitch

/-! ### An unlock -/

/-- From `robust:` on. -/
theorem unlockRobust_alone (newowner : ℕ) (s : State) :
    Releases S id (.goto (.owner false newowner)) s (unlockRobust newowner s) :=
  .step (.step (.step (.step .done)))

/-- From `pp:` on. -/
theorem unlockPp_alone (s : State) :
    Releases S id (.goto (.owner true 0)) s (unlockPp S s) := by
  unfold unlockPp
  refine .step (.step (.step (.step (.step ?_))))
  unfold unlockStep
  simp only [ne_eq, not_true_eq_false, if_false]
  cases tppChangePriority S.toSched
      ((BitVec.ofNat 32 (s.mutex.lock &&& prioCeilingMask)).toInt >>> prioCeilingShift) (-1)
      s.prio with
  | error a => exact .done
  | ok r => exact .done

/-- The tests of a recursive mutex, which are the same for both. -/
theorem recOwner_alone {s : State} {pp : Bool} {rest : State → Outcome × State}
    (hrest : ∀ s, Releases S id (.goto (.owner pp 0)) s (rest s)) :
    Releases S id (.goto (.recOwner pp)) s
      (if s.mutex.owner ≠ id then (.ret ePERM, s)
      else if s.mutex.count - 1 ≠ 0 then
        (.ret 0, s.set { s.mutex with count := s.mutex.count - 1 })
      else rest (s.set { s.mutex with count := s.mutex.count - 1 })) := by
  refine .step ?_
  show Alone _ _ _ (if s.mutex.owner ≠ id then _ else _, _) _ _
  by_cases howner : s.mutex.owner ≠ id
  · rw [if_pos howner, if_pos howner]
    exact .done
  rw [if_neg howner, if_neg howner]
  refine .step (.step ?_)
  show Alone _ _ _ (if s.mutex.count - 1 ≠ 0 then _ else _, _) _ _
  by_cases hcount : s.mutex.count - 1 ≠ 0
  · rw [if_pos hcount, if_pos hcount]
    exact .done
  · rw [if_neg hcount, if_neg hcount]
    exact hrest (s.set { s.mutex with count := s.mutex.count - 1 })

/-- The case of a robust recursive mutex. -/
theorem unlockRecursive_alone (s : State) :
    Releases S id (.goto .recTid) s
      (let m' := { s.mutex with count := s.mutex.count - 1 }
      if s.mutex.lock &&& futexTidMask = id ∧ s.mutex.owner = mutexInconsistent then
        if m'.count ≠ 0 then (.ret eNOTRECOVERABLE, s.set m')
        else unlockRobust mutexNotrecoverable (s.set m')
      else if s.mutex.owner ≠ id then (.ret ePERM, s)
      else if m'.count ≠ 0 then (.ret 0, s.set m')
      else unlockRobust 0 (s.set m')) := by
  refine .step ?_
  show Releases S id (.goto (if s.mutex.lock &&& futexTidMask = id then .recInconsistent
    else .recOwner false)) s _
  by_cases htid : s.mutex.lock &&& futexTidMask = id
  · rw [if_pos htid]
    refine .step ?_
    show Releases S id (.goto (if s.mutex.owner = mutexInconsistent then .lost
      else .recOwner false)) s _
    by_cases howner : s.mutex.owner = mutexInconsistent
    · rw [if_pos howner]
      simp only [if_pos (And.intro htid howner)]
      refine .step (.step ?_)
      show Alone _ _ _ (if s.mutex.count - 1 ≠ 0 then _ else _, _) _ _
      by_cases hcount : s.mutex.count - 1 ≠ 0
      · rw [if_pos hcount, if_pos hcount]
        exact .done
      · rw [if_neg hcount, if_neg hcount]
        exact unlockRobust_alone _ (s.set { s.mutex with count := s.mutex.count - 1 })
    · rw [if_neg howner]
      simp only [if_neg (not_and_of_not_right _ howner)]
      exact recOwner_alone (unlockRobust_alone 0)
  · rw [if_neg htid]
    simp only [if_neg (not_and_of_not_left _ htid)]
    exact recOwner_alone (unlockRobust_alone 0)

/-- The case of another robust mutex. -/
theorem unlockTid_alone (s : State) :
    Releases S id (.goto .tid) s
      (if s.mutex.lock &&& futexTidMask ≠ id ∨ s.mutex.lock = lllLockInitializer then
        (.ret ePERM, s)
      else if s.mutex.owner = mutexInconsistent then unlockRobust mutexNotrecoverable s
      else unlockRobust 0 s) := by
  refine .step ?_
  show Alone _ _ _ (if s.mutex.lock &&& futexTidMask ≠ id then _ else _, _) _ _
  by_cases htid : s.mutex.lock &&& futexTidMask ≠ id
  · rw [if_pos htid, if_pos (.inl htid)]
    exact .done
  rw [if_neg htid]
  refine .step ?_
  show Alone _ _ _ (if s.mutex.lock = lllLockInitializer then _ else _, _) _ _
  by_cases hfree : s.mutex.lock = lllLockInitializer
  · rw [if_pos hfree, if_pos (.inr hfree)]
    exact .done
  rw [if_neg hfree, if_neg (not_or.mpr ⟨htid, hfree⟩)]
  refine .step ?_
  show Releases S id (.goto (.owner false
    (if s.mutex.owner = mutexInconsistent then mutexNotrecoverable else 0))) s _
  by_cases howner : s.mutex.owner = mutexInconsistent
  · rw [if_pos howner, if_pos howner]
    exact unlockRobust_alone _ s
  · rw [if_neg howner, if_neg howner]
    exact unlockRobust_alone _ s

/-- The case for priority protection, to which the one for inheritance runs on. -/
theorem unlockPpRecursive_alone (s : State) :
    Releases S id (.goto (.recOwner true)) s (unlockPpRecursive S id s) :=
  recOwner_alone unlockPp_alone

/-- **An unlock that runs alone does what `pthreadMutexUnlock` says.** -/
theorem unlock_alone {s : State} {n : Next UnlockPC}
    (hswitch : unlockSwitch s.mutex.kind = some n) :
    Releases S id n s (Calls.pthreadMutexUnlock S id s) := by
  unfold unlockSwitch at hswitch
  simp only [Option.ite_none_left_eq_some] at hswitch
  obtain ⟨hfull, hswitch⟩ := hswitch
  have hcall : Calls.pthreadMutexUnlock S id s = pthreadMutexUnlockFull S id s := by
    simp only [Calls.pthreadMutexUnlock, ne_eq, hfull, not_false_eq_true, if_true]
  rw [hcall]
  cases hcase : switchKind (pthreadMutexType s.mutex.kind) with
  | basic _ | invalid =>
    rw [hcase] at hswitch
    obtain rfl : .done (.ret eINVAL) = n := Option.some.inj hswitch
    unfold pthreadMutexUnlockFull
    simp only [hcase]
    exact .done
  | special =>
    obtain ⟨π, κ, htype⟩ := special_code hcase
    rw [htype, switchKind_protocol, protocolOf_code, basicOf_code] at hswitch
    simp only [pthreadMutexUnlockFull, htype, switchKind_protocol, protocolOf_code, basicOf_code]
    cases π with
    | robust =>
      cases κ with
      | recursive =>
        obtain rfl : .goto .recTid = n := Option.some.inj hswitch
        exact unlockRecursive_alone s
      | timed | errorcheck | adaptive =>
        obtain rfl : .goto .tid = n := Option.some.inj hswitch
        exact unlockTid_alone s
    | inheritRobust =>
      obtain rfl : .goto (.recOwner true) = n := by cases κ <;> exact Option.some.inj hswitch
      cases κ <;> exact unlockPpRecursive_alone s
    | inherit | protect => cases κ <;> cases hswitch

end SyncPerf.Robust
