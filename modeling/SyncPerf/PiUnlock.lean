import SyncPerf.LockAgreement

namespace SyncPerf.Calls

/-!
# Unlocking a priority-inheritance mutex

The cases of `__pthread_mutex_unlock_full` for priority inheritance are compiled out, so that an
unlock runs on into the code for priority protection.

* `PiHeld`, `PiNested.held` — the states in which a thread holds the mutex, and that nested lock
  and trylock calls lead to them;
* `PiReleased` — what an unlock has to do;
* `pi_unlock_iff` — it does that exactly when a level of a recursive mutex remains.
-/

/-! ### Holding the mutex -/

/-- Thread `id` holds the mutex, `k` levels deep: its id is in the lock word, with or without the
    mark for waiters. -/
structure PiHeld (κ : BasicKind) (id k : ℕ) (m : MutexData) : Prop where
  kind : m.kind = Protocol.inherit.code κ
  lock : m.lock = id ∨ m.lock = id ||| futexWaiters
  owner : m.owner = id
  count : m.count.toNat = k

/-- The word of a held mutex has the id of the holder. -/
theorem PiHeld.tid {κ : BasicKind} {id k : ℕ} {m : MutexData} (h : PiHeld κ id k m)
    (hid : id ≤ futexTidMask) : m.lock &&& futexTidMask = id := by
  rcases h.lock with hlock | hlock
  · rw [hlock, and_futexTidMask_of_le hid]
  · rw [hlock, tid_of_waiters hid]

/-- What `FUTEX_LOCK_PI` guarantees: it succeeds with the caller's id in the word, refuses the
    thread that has the word, and otherwise only fails because the owner is gone. -/
structure PiKernel (S : Sys) : Prop where
  acquired : ∀ id lock errno lock', S.futexLockPi id lock = .returns errno lock' →
    errno = eSRCH ∨ errno = eDEADLK ∨ lock' = id ∨ lock' = id ||| futexWaiters
  deadlock : ∀ id lock, lock &&& futexTidMask = id → S.futexLockPi id lock = .returns eDEADLK lock

/-- Thread `id` has made `k` lock and trylock calls that returned 0, and no unlock.  In between,
    other threads may have marked the word. -/
inductive PiNested (S : Sys) (κ : BasicKind) (id : ℕ) : ℕ → MutexData → Prop
  | lock {s s' : State} (hkind : s.mutex.kind = Protocol.inherit.code κ)
      (hfree : s.mutex.lock &&& futexTidMask ≠ id)
      (hcall : pthreadMutexLock S id s = (.ret 0, s')) : PiNested S κ id 1 s'.mutex
  | trylock {s s' : State} (hkind : s.mutex.kind = Protocol.inherit.code κ)
      (hfree : s.mutex.lock &&& futexTidMask ≠ id)
      (hcall : doMutexTrylock S id s = (.ret 0, s')) : PiNested S κ id 1 s'.mutex
  | lockAgain {k : ℕ} {s s' : State} (h : PiNested S κ id k s.mutex)
      (hcall : pthreadMutexLock S id s = (.ret 0, s')) : PiNested S κ id (k + 1) s'.mutex
  | trylockAgain {k : ℕ} {s s' : State} (h : PiNested S κ id k s.mutex)
      (hcall : doMutexTrylock S id s = (.ret 0, s')) : PiNested S κ id (k + 1) s'.mutex
  | waiters {k : ℕ} {m : MutexData} (h : PiNested S κ id k m) :
      PiNested S κ id k { m with lock := m.lock ||| futexWaiters }

/-- A lock with priority inheritance. -/
theorem lock_inherit {S : Sys} {id : ℕ} {κ : BasicKind} {s : State}
    (hkind : s.mutex.kind = Protocol.inherit.code κ) :
    pthreadMutexLock S id s = lockPi S id false κ s := by
  simp only [pthreadMutexLock, hkind, switchKind_protocol, protocolOf_code, basicOf_code]

/-- A trylock with priority inheritance. -/
theorem trylock_inherit {S : Sys} {id : ℕ} {κ : BasicKind} {s : State}
    (hkind : s.mutex.kind = Protocol.inherit.code κ) :
    doMutexTrylock S id s = trylockPi S id false κ s := by
  rw [doMutexTrylock_protocol (by rw [hkind, typeElision_protocol])]

/-- Both calls end alike when they have the mutex. -/
theorem trylock_after (S : Sys) (id : ℕ) (robust : Bool) (oldval : ℕ) (s : State) :
    trylockPi.after S id robust oldval s = lockPiTaken S id robust oldval s := rfl

/-- A level is added to a held mutex. -/
theorem PiHeld.bump {κ : BasicKind} {id k : ℕ} {s s' : State} (h : PiHeld κ id k s.mutex)
    (hcall : bumpCount s = (.ret 0, s')) : PiHeld κ id (k + 1) s'.mutex := by
  unfold bumpCount at hcall
  split at hcall
  · exact absurd (Prod.mk.inj hcall).1 (by decide)
  · rename_i hcount
    obtain ⟨-, rfl⟩ := Prod.mk.inj hcall
    refine ⟨h.kind, h.lock, h.owner, ?_⟩
    show (s.mutex.count + 1).toNat = k + 1
    rw [toNat_add_one hcount, h.count]

/-- The mutex is taken with its id in the word. -/
theorem PiHeld.taken {S : Sys} {κ : BasicKind} {id oldval : ℕ} {s s' : State}
    (hkind : s.mutex.kind = Protocol.inherit.code κ)
    (hlock : s.mutex.lock = id ∨ s.mutex.lock = id ||| futexWaiters)
    (hcall : lockPiTaken S id false oldval s = (.ret 0, s')) : PiHeld κ id 1 s'.mutex := by
  unfold lockPiTaken at hcall
  split at hcall
  · exact absurd (Prod.mk.inj hcall).1 (by decide)
  · simp only [Bool.false_eq_true, false_and, if_false, Prod.mk.injEq, true_and] at hcall
    subst hcall
    exact ⟨hkind, hlock, rfl, rfl⟩

/-- A system call that took the mutex left the thread's id in the word. -/
theorem PiHeld.waited {S : Sys} (hS : PiKernel S) {κ : BasicKind} {id : ℕ} {s s' : State}
    (hkind : s.mutex.kind = Protocol.inherit.code κ)
    (hcall : lockPiWait S id false κ s = (.ret 0, s')) : PiHeld κ id 1 s'.mutex := by
  unfold lockPiWait at hcall
  split at hcall
  · exact absurd (Prod.mk.inj hcall).1 (by simp)
  · rename_i errno lock hfutex
    split at hcall
    · split at hcall
      · exact absurd (Prod.mk.inj hcall).1 (by simp)
      · split at hcall <;> exact absurd (Prod.mk.inj hcall).1 (by simp)
    · rename_i herr
      split at hcall
      · exact absurd (Prod.mk.inj hcall).1 (by simp)
      · refine PiHeld.taken (s := s.set { s.mutex with lock := lock }) hkind ?_ hcall
        rcases hS.acquired id _ errno lock hfutex with h | h | h
        · exact absurd (.inl h) herr
        · exact absurd (.inr h) herr
        · exact h

/-- The word of a held mutex is not free. -/
theorem PiHeld.lock_ne_zero {κ : BasicKind} {id k : ℕ} {m : MutexData} (h : PiHeld κ id k m)
    (hid : 0 < id ∧ id ≤ futexTidMask) : m.lock ≠ 0 := by
  intro h0
  have htid := h.tid hid.2
  rw [h0, Nat.zero_and] at htid
  exact hid.1.ne htid

/-- A lock call by the holder adds a level to a recursive mutex; on the other kinds it fails, in
    the code or in the system call, which finds that the thread has the word already. -/
theorem PiHeld.lockAgain {S : Sys} (hS : PiKernel S) {κ : BasicKind} {id k : ℕ} {s s' : State}
    (hid : 0 < id ∧ id ≤ futexTidMask) (h : PiHeld κ id k s.mutex)
    (hcall : pthreadMutexLock S id s = (.ret 0, s')) :
    κ = .recursive ∧ PiHeld κ id (k + 1) s'.mutex := by
  have htid := h.tid hid.2
  rw [lock_inherit h.kind] at hcall
  by_cases hκ : κ = .recursive
  · subst hκ
    simp only [lockPi, htid, true_and] at hcall
    exact ⟨rfl, h.bump hcall⟩
  · exfalso
    simp only [lockPi, htid, hκ, and_false, if_false, true_and, if_neg (h.lock_ne_zero hid)]
      at hcall
    split at hcall
    · exact absurd (Prod.mk.inj hcall).1 (by decide)
    · simp only [lockPiWait, hS.deadlock id _ htid, or_true, if_true] at hcall
      split at hcall
      · exact absurd (Prod.mk.inj hcall).1 (by simp)
      · split at hcall <;> exact absurd (Prod.mk.inj hcall).1 (by simp)

/-- So does a trylock call. -/
theorem PiHeld.trylockAgain {S : Sys} {κ : BasicKind} {id k : ℕ} {s s' : State}
    (hid : 0 < id ∧ id ≤ futexTidMask) (h : PiHeld κ id k s.mutex)
    (hcall : doMutexTrylock S id s = (.ret 0, s')) :
    κ = .recursive ∧ PiHeld κ id (k + 1) s'.mutex := by
  have htid := h.tid hid.2
  rw [trylock_inherit h.kind] at hcall
  by_cases hκ : κ = .recursive
  · subst hκ
    simp only [trylockPi, htid, true_and] at hcall
    exact ⟨rfl, h.bump hcall⟩
  · exfalso
    simp only [trylockPi, htid, hκ, and_false, if_false, true_and, if_neg (h.lock_ne_zero hid)]
      at hcall
    split at hcall
    · exact absurd (Prod.mk.inj hcall).1 (by decide)
    · split at hcall
      · exact absurd (Prod.mk.inj hcall).1 (by decide)
      · exact absurd (Prod.mk.inj hcall).1 (by simp)

/-- **Nested acquisitions** hold the mutex, as deep as there were calls; only a recursive mutex is
    held deeper than once. -/
theorem PiNested.held {S : Sys} (hS : PiKernel S) {κ : BasicKind} {id k : ℕ} {m : MutexData}
    (hid : 0 < id ∧ id ≤ futexTidMask) (h : PiNested S κ id k m) :
    PiHeld κ id k m ∧ (κ ≠ .recursive → k = 1) := by
  induction h with
  | @lock s s' hkind hfree hcall =>
    refine ⟨?_, fun _ => rfl⟩
    rw [lock_inherit hkind] at hcall
    simp only [lockPi, hfree, false_and, if_false] at hcall
    split at hcall
    · exact PiHeld.taken (s := s.set { s.mutex with lock := id }) hkind (.inl rfl) hcall
    · exact PiHeld.waited hS hkind hcall
  | @trylock s s' hkind hfree hcall =>
    refine ⟨?_, fun _ => rfl⟩
    rw [trylock_inherit hkind] at hcall
    simp only [trylockPi, hfree, false_and, if_false] at hcall
    split at hcall
    · rw [trylock_after] at hcall
      exact PiHeld.taken (s := s.set { s.mutex with lock := id }) hkind (.inl rfl) hcall
    · split at hcall
      · exact absurd (Prod.mk.inj hcall).1 (by decide)
      · exact absurd (Prod.mk.inj hcall).1 (by simp)
  | lockAgain _ hcall ih =>
    obtain ⟨hκ, hheld⟩ := ih.1.lockAgain hS hid hcall
    exact ⟨hheld, fun h => absurd hκ h⟩
  | trylockAgain _ hcall ih =>
    obtain ⟨hκ, hheld⟩ := ih.1.trylockAgain hid hcall
    exact ⟨hheld, fun h => absurd hκ h⟩
  | @waiters k m _ ih =>
    obtain ⟨hheld, hdeep⟩ := ih
    refine ⟨⟨hheld.kind, .inr ?_, hheld.owner, hheld.count⟩, hdeep⟩
    rcases hheld.lock with hlock | hlock
    · rw [hlock]
    · rw [hlock, Nat.or_assoc, Nat.or_self]

/-! ### The unlock -/

/-- What an unlock by the holder at depth `k` has to do: take a level away, or hand the mutex
    over. -/
structure PiReleased (κ : BasicKind) (id k : ℕ) (m : MutexData) (r : Outcome × State) : Prop where
  code : r.1 = .ret 0
  level : 1 < k → PiHeld κ id (k - 1) r.2.mutex
  last : k = 1 → r.2.mutex.owner = 0 ∧ r.2.mutex.nusers = m.nusers - 1 ∧
    (r.2.mutex.lock = 0 ∨ m.lock &&& futexWaiters ≠ 0 ∧ .unlockPi ∈ r.2.futexOps)

/-- An unlock with priority inheritance. -/
theorem unlock_inherit {S : Sys} {id : ℕ} {κ : BasicKind} {s : State}
    (hkind : s.mutex.kind = Protocol.inherit.code κ) (howner : s.mutex.owner = id) :
    pthreadMutexUnlock S id s =
      if κ = .recursive then
        if s.mutex.count - 1 ≠ 0 then (.ret 0, s.set { s.mutex with count := s.mutex.count - 1 })
        else unlockPpRecursive S id (s.set { s.mutex with count := s.mutex.count - 1 })
      else unlockPpRecursive S id s := by
  have htype : pthreadMutexType s.mutex.kind = Protocol.inherit.code κ := by
    rw [hkind, type_protocol]
  rw [pthreadMutexUnlock_protocol htype]
  simp only [pthreadMutexUnlockFull, hkind, type_protocol, switchKind_protocol, protocolOf_code,
    basicOf_code]
  cases κ <;> simp [howner, State.set]

/-- The code for priority protection fails on a lock word whose ceiling bits are clear: no
    real-time priority is 0. -/
theorem unlockPp_fails {S : Sys} (hmin : 1 ≤ S.fifoMinPrio) {s : State}
    (hlock : s.mutex.lock &&& prioCeilingMask = 0) : (unlockPp S s).1 ≠ .ret 0 := by
  have hshift : (BitVec.ofNat 32 0).toInt >>> prioCeilingShift = 0 := by decide
  have hrange : ¬ (S.fifoMinPrio ≤ 0 ∧ (0 : ℤ) ≤ S.fifoMaxPrio) := by omega
  simp only [unlockPp, hlock, hshift]
  rcases tppChangePriority_of_not_range s.prio (by decide) hrange with h | h
  · rw [h]
    exact nofun
  · rw [h]
    exact nofun

/-- It clears the other bits of the word, and never asks the kernel to hand the mutex over. -/
theorem unlockPp_leaves (S : Sys) (s : State) (hcall : (unlockPp S s).1 = .ret 0) :
    (unlockPp S s).2.mutex.lock = s.mutex.lock &&& prioCeilingMask ∧
      (.unlockPi ∈ (unlockPp S s).2.futexOps → .unlockPi ∈ s.futexOps) := by
  unfold unlockPp at hcall ⊢
  simp only at hcall ⊢
  split at hcall
  · exact absurd hcall (by simp)
  · refine ⟨rfl, ?_⟩
    simp only
    split <;> simp

/-- **Unlocking a priority-inheritance mutex.**  An unlock by the holder does what it has to do if
    and only if more than one level is held, which takes a recursive mutex. -/
theorem pi_unlock_iff (S : Sys) (hmin : 1 ≤ S.fifoMinPrio) (κ : BasicKind) (id k : ℕ)
    (hid : 0 < id ∧ id ≤ futexTidMask) (hk : 1 ≤ k) (hdeep : κ ≠ .recursive → k = 1)
    (m : MutexData) (p : Prio) (h : PiHeld κ id k m) :
    PiReleased κ id k m (pthreadMutexUnlock S id ⟨m, p, []⟩) ↔ 1 < k := by
  rw [unlock_inherit h.kind h.owner]
  constructor
  · intro hreleased
    by_contra hone
    obtain rfl : k = 1 := by omega
    -- the only level is given up
    have hcount : m.count - 1 = 0 := by
      apply BitVec.eq_of_toNat_eq
      rw [toNat_sub_one (by rw [h.count]; exact Nat.one_pos), h.count]
      rfl
    obtain ⟨howner, -, hlast⟩ := hreleased.last rfl
    by_cases hκ : κ = .recursive
    · -- the count goes round to its maximum, and the owner stays
      rw [if_pos hκ, if_neg (not_not.mpr hcount)] at howner
      simp only [unlockPpRecursive, State.set, h.owner, ne_eq, not_true_eq_false, if_false, hcount]
        at howner
      exact absurd howner (by simpa [h.owner] using hid.1.ne')
    · have hcode := hreleased.code
      rw [if_neg hκ] at hcode hlast
      simp only [unlockPpRecursive, State.set, h.owner, ne_eq, not_true_eq_false, if_false, hcount]
        at hcode hlast
      -- neither is the word cleared, nor the kernel asked
      obtain ⟨hlock, hops⟩ := unlockPp_leaves S _ hcode
      rcases hlast with hclear | ⟨-, hissued⟩
      · exact unlockPp_fails hmin (hlock.symm.trans hclear) hcode
      · exact absurd (hops hissued) (by simp)
  · intro hmore
    have hκ : κ = .recursive := by
      by_contra hκ
      have := hdeep hκ
      omega
    have hcount : (m.count - 1).toNat = k - 1 := by
      rw [toNat_sub_one (by rw [h.count]; omega), h.count]
    -- a level remains, so that the recursive case returns early
    have hne : m.count - 1 ≠ 0 := by
      intro h0
      rw [h0] at hcount
      have hzero : BitVec.toNat (0 : BitVec 32) = 0 := rfl
      omega
    rw [if_pos hκ, if_pos hne]
    exact ⟨rfl, fun _ => ⟨h.kind, h.lock, h.owner, hcount⟩, fun h1 => absurd h1 (by omega)⟩

/-- A recursive mutex that thread 5 holds twice. -/
def heldTwice : MutexData := { lock := 5, count := 2, owner := 5, nusers := 1, kind := 33 }

/-- A mutex that is held twice is held once after an unlock. -/
theorem pi_unlock_iff_heldTwice :
    PiReleased .recursive 5 2 heldTwice (pthreadMutexUnlock linuxSys 5 ⟨heldTwice, {}, []⟩) :=
  (pi_unlock_iff linuxSys (by decide) .recursive 5 2 (by decide) (by decide) (by decide) heldTwice
    {} ⟨by decide, by decide, rfl, by decide⟩).mpr (by decide)

/-- A normal mutex that thread 5 has locked. -/
def heldOnce : MutexData := { lock := 5, count := 1, owner := 5, nusers := 1, kind := 32 }

/-- Its unlock fails an assertion of the code for priority protection. -/
theorem pi_unlock_aborts :
    PiNested linuxSys .timed 5 1 heldOnce ∧
      (pthreadMutexUnlock linuxSys 5 ⟨heldOnce, {}, []⟩).1 = .abort (.prio .previousPrio) ∧
      ¬ PiReleased .timed 5 1 heldOnce (pthreadMutexUnlock linuxSys 5 ⟨heldOnce, {}, []⟩) := by
  have habort : (pthreadMutexUnlock linuxSys 5 ⟨heldOnce, {}, []⟩).1 =
      .abort (.prio .previousPrio) := by decide
  have hcall : pthreadMutexLock linuxSys 5 ⟨{ kind := 32 }, {}, []⟩ =
      (.ret 0, ⟨heldOnce, {}, []⟩) := rfl
  refine ⟨.lock (by decide) (by decide) hcall, habort, fun h => ?_⟩
  rw [h.code] at habort
  exact absurd habort (by decide)

end SyncPerf.Calls
