import SyncPerf.MutexCalls

namespace SyncPerf.Calls

/-!
# Lock and trylock agree

`pthread_mutex_lock` and `do_mutex_trylock` are two `switch` statements over the same kinds.  Where
a call need not wait they must do the same.

* `PrivateKind` — the kinds that `pthread_mutex_init` stores for a private, non-robust mutex;
* `Free`, `OwnedRecursive` — the states in which no call has to wait;
* `MayReturn`, `CeilingOutside` — the values, and when the calls may fail an assertion instead;
* `lock_eq_trylock` — they return the same value and leave the same state.
-/

/-! ### Ceilings -/

/-- A word of ceiling bits only is its ceiling, shifted back. -/
theorem ceiling_shift {ceiling : ℕ} (hc : ceiling < 2 ^ 13) :
    (ceiling <<< prioCeilingShift &&& prioCeilingMask) >>> prioCeilingShift = ceiling := by
  have hlt : ceiling <<< prioCeilingShift < 2 ^ 32 := by
    rw [prioCeilingShift, Nat.shiftLeft_eq]
    omega
  rw [and_prioCeilingMask hlt, prioCeilingShift, Nat.shiftLeft_eq, Nat.shiftRight_eq_div_pow]
  omega

/-! ### The states -/

/-- The kinds of a private, non-robust mutex. -/
inductive PrivateKind
  | basic (κ : BasicKind)
  | inherit (κ : BasicKind)
  | protect (κ : BasicKind)
  deriving DecidableEq

/-- The `__kind` of a private, non-robust mutex. -/
def PrivateKind.code : PrivateKind → BitVec 32
  | .basic κ => κ.code
  | .inherit κ => Protocol.inherit.code κ
  | .protect κ => Protocol.protect.code κ

/-- The mutex is free: nobody owns it, and its lock word is 0, or has only the bits of a
    ceiling. -/
def Free (k : PrivateKind) (m : MutexData) : Prop :=
  m.owner = 0 ∧
    match k with
    | .basic _ | .inherit _ => m.lock = 0
    | .protect _ => ∃ ceiling < 2 ^ 13, m.lock = ceiling <<< prioCeilingShift

/-- The mutex is recursive and owned by the thread, whose id is in the lock word under priority
    inheritance. -/
def OwnedRecursive (id : ℕ) (k : PrivateKind) (m : MutexData) : Prop :=
  m.owner = id ∧
    match k with
    | .basic κ | .protect κ => κ = .recursive
    | .inherit κ => κ = .recursive ∧ m.lock &&& futexTidMask = id

/-- What the two calls may return: 0; `EAGAIN` on a full recursion count; `EINVAL` for a thread
    whose priority is above the ceiling; or the error of `__pthread_tpp_change_priority`. -/
inductive MayReturn (S : Sys) (id : ℕ) (k : PrivateKind) (s : State) : ℕ → Prop
  | taken : MayReturn S id k s 0
  | full (howned : OwnedRecursive id k s.mutex) (hcount : s.mutex.count + 1 = 0) :
      MayReturn S id k s eAGAIN
  | tooHigh {κ : BasicKind} {ceiling : ℕ} (hk : k = .protect κ)
      (hlock : s.mutex.lock = ceiling <<< prioCeilingShift)
      (hprio : (pthreadCurrentPriority S.toSched s.prio).1 > ceiling) : MayReturn S id k s eINVAL
  | tpp {κ : BasicKind} {ceiling code : ℕ} {prio : Prio} (hk : k = .protect κ)
      (hlock : s.mutex.lock = ceiling <<< prioCeilingShift)
      (hcall : tppChangePriority S.toSched (-1) ceiling
        (pthreadCurrentPriority S.toSched s.prio).2 = .ok (code, prio)) (hcode : code ≠ 0) :
      MayReturn S id k s code

/-- The mutex is free, with a ceiling that is no priority of `SCHED_FIFO`. -/
def CeilingOutside (S : Sys) (k : PrivateKind) (m : MutexData) : Prop :=
  Free k m ∧ ∃ κ ceiling, k = .protect κ ∧ m.lock = ceiling <<< prioCeilingShift ∧
    ¬ (S.fifoMinPrio ≤ ceiling ∧ ceiling ≤ S.fifoMaxPrio)

/-! ### One case after the other -/

theorem lock_eq_trylock_basic {S : Sys} {id : Tid} {κ : BasicKind} {s : State}
    (hkind : s.mutex.kind = κ.code)
    (h : Free (.basic κ) s.mutex ∨ OwnedRecursive id.val (.basic κ) s.mutex) :
    pthreadMutexLock S id.val s = doMutexTrylock S id.val s := by
  rw [doMutexTrylock_basic (by rw [hkind, typeElision_code])]
  simp only [pthreadMutexLock, hkind, switchKind_code]
  rcases h with ⟨howner, hfree⟩ | ⟨howner, rfl⟩
  · have hlock : s.mutex.lock = lllLockInitializer := hfree
    have hne : ¬ 0 = id.val := fun h => id.ne_zero h.symm
    cases κ with
    | timed => simp [trylockSimple, lllLock, lockTaken, hlock, howner, State.set]
    | recursive =>
      simp [trylockRecursive, lllLock, lockTaken, hlock, howner, hne, State.set, recordOwner]
    | errorcheck => simp [trylockSimple, lllLock, lockTaken, hlock, howner, hne, State.set]
    | adaptive => simp [trylockSimple, lockAdaptive, lockTaken, hlock, howner, State.set]
  · simp only [trylockRecursive, if_pos howner, if_true]

theorem lock_eq_trylock_inherit {S : Sys} {id : Tid} {κ : BasicKind} {s : State}
    (hkind : s.mutex.kind = Protocol.inherit.code κ)
    (h : Free (.inherit κ) s.mutex ∨ OwnedRecursive id.val (.inherit κ) s.mutex) :
    pthreadMutexLock S id.val s = doMutexTrylock S id.val s := by
  rw [doMutexTrylock_protocol (by rw [hkind, typeElision_protocol])]
  simp only [pthreadMutexLock, hkind, switchKind_protocol, protocolOf_code, basicOf_code]
  rcases h with ⟨howner, hlock⟩ | ⟨howner, rfl, htid⟩
  · have hlock : s.mutex.lock = 0 := hlock
    have hne : ¬ 0 = id.val := fun h => id.ne_zero h.symm
    simp [lockPi, trylockPi, lockPiTaken, trylockPi.after, hlock, hne, State.set, recordOwner]
  · simp [lockPi, trylockPi, htid]

theorem lock_eq_trylock_protect {S : Sys} {id : Tid} {κ : BasicKind} {s : State}
    (hkind : s.mutex.kind = Protocol.protect.code κ)
    (h : Free (.protect κ) s.mutex ∨ OwnedRecursive id.val (.protect κ) s.mutex) :
    pthreadMutexLock S id.val s = doMutexTrylock S id.val s := by
  rw [doMutexTrylock_protocol (by rw [hkind, typeElision_protocol])]
  simp only [pthreadMutexLock, hkind, switchKind_protocol, protocolOf_code, basicOf_code]
  rcases h with ⟨howner, ceiling, hc, hlock⟩ | ⟨howner, rfl⟩
  · have hne : ¬ s.mutex.owner = id.val := by
      rw [howner]
      exact fun h => id.ne_zero h.symm
    simp only [lockPp, trylockPp, hne, false_and, if_false, hlock, ceiling_shift hc]
    split
    · rfl
    · split
      · rfl
      · split
        · rfl
        · -- the word has no other bits, so both calls take it
          simp [lockPpTaken, State.set, recordOwner, howner]
  · simp [lockPp, trylockPp, howner]

/-! ### What they return -/

/-- One level deeper, or `EAGAIN`. -/
theorem bumpCount_mayReturn {S : Sys} {id : ℕ} {k : PrivateKind} {s : State}
    (h : OwnedRecursive id k s.mutex) :
    ∃ code, (bumpCount s).1 = .ret code ∧ MayReturn S id k s code := by
  unfold bumpCount
  split
  · rename_i hcount
    exact ⟨eAGAIN, rfl, .full h hcount⟩
  · exact ⟨0, rfl, .taken⟩

theorem lock_basic_mayReturn {S : Sys} {id : Tid} {κ : BasicKind} {s : State}
    (hkind : s.mutex.kind = κ.code)
    (h : Free (.basic κ) s.mutex ∨ OwnedRecursive id.val (.basic κ) s.mutex) :
    ∃ code, (pthreadMutexLock S id.val s).1 = .ret code ∧ MayReturn S id.val (.basic κ) s code := by
  simp only [pthreadMutexLock, hkind, switchKind_code]
  rcases h with ⟨howner, hfree⟩ | howned
  · have hlock : s.mutex.lock = lllLockInitializer := hfree
    have hne : ¬ 0 = id.val := fun h => id.ne_zero h.symm
    refine ⟨0, ?_, .taken⟩
    cases κ <;> simp [lockAdaptive, lllLock, lockTaken, hlock, howner, hne, State.set]
  · obtain ⟨howner, rfl⟩ := howned
    simp only [if_pos howner]
    exact bumpCount_mayReturn ⟨howner, rfl⟩

theorem lock_inherit_mayReturn {S : Sys} {id : Tid} {κ : BasicKind} {s : State}
    (hkind : s.mutex.kind = Protocol.inherit.code κ)
    (h : Free (.inherit κ) s.mutex ∨ OwnedRecursive id.val (.inherit κ) s.mutex) :
    ∃ code, (pthreadMutexLock S id.val s).1 = .ret code ∧
      MayReturn S id.val (.inherit κ) s code := by
  simp only [pthreadMutexLock, hkind, switchKind_protocol, protocolOf_code, basicOf_code]
  rcases h with ⟨-, hfree⟩ | howned
  · have hlock : s.mutex.lock = 0 := hfree
    have hne : ¬ 0 = id.val := fun h => id.ne_zero h.symm
    exact ⟨0, by simp [lockPi, lockPiTaken, hlock, hne, State.set], .taken⟩
  · obtain ⟨howner, rfl, htid⟩ := howned
    have hbump : lockPi S id.val false .recursive s = bumpCount s := by simp [lockPi, htid]
    rw [hbump]
    exact bumpCount_mayReturn ⟨howner, rfl, htid⟩

/-- A ceiling that the assertion of `__pthread_tpp_change_priority` does not let through. -/
theorem tppChangePriority_newPrio {S : Sched} {ceiling : ℕ} {p : Prio} {a : PrioAssert}
    (h : tppChangePriority S (-1) ceiling p = .error a) :
    a = .newPrio ∧ ¬ (S.fifoMinPrio ≤ ceiling ∧ ceiling ≤ S.fifoMaxPrio) := by
  unfold tppChangePriority at h
  split at h
  · cases h
  · split at h
    · rename_i hrange
      cases h
      exact ⟨rfl, fun hin => hrange (.inr hin)⟩
    · simp only [true_or, not_true_eq_false, if_false] at h
      split at h
      · cases h
      · split at h <;> cases h

theorem lock_protect_mayReturn {S : Sys} {id : Tid} {κ : BasicKind} {s : State}
    (hkind : s.mutex.kind = Protocol.protect.code κ)
    (h : Free (.protect κ) s.mutex ∨ OwnedRecursive id.val (.protect κ) s.mutex) :
    (∃ code, (pthreadMutexLock S id.val s).1 = .ret code ∧
      MayReturn S id.val (.protect κ) s code) ∨
    (pthreadMutexLock S id.val s).1 = .abort (.prio .newPrio) ∧
      CeilingOutside S (.protect κ) s.mutex := by
  simp only [pthreadMutexLock, hkind, switchKind_protocol, protocolOf_code, basicOf_code]
  rcases h with hfree | howned
  · have hfree' := hfree
    obtain ⟨howner, ceiling, hc, hlock⟩ := hfree
    have hne : ¬ s.mutex.owner = id.val := by
      rw [howner]
      exact fun h => id.ne_zero h.symm
    simp only [lockPp, hne, false_and, if_false, hlock, ceiling_shift hc]
    split
    · rename_i hprio
      exact .inl ⟨eINVAL, rfl, .tooHigh rfl hlock hprio⟩
    · split
      · rename_i a hcall
        obtain ⟨rfl, hrange⟩ := tppChangePriority_newPrio hcall
        exact .inr ⟨rfl, hfree', κ, ceiling, rfl, hlock, hrange⟩
      · rename_i retval prio hcall
        split
        · rename_i hcode
          exact .inl ⟨retval, rfl, .tpp rfl hlock hcall hcode⟩
        · exact .inl ⟨0, by simp [lockPpTaken, State.set, howner], .taken⟩
  · obtain ⟨howner, rfl⟩ := howned
    have hbump : lockPp S id.val .recursive s = bumpCount s := by simp [lockPp, howner]
    rw [hbump]
    exact .inl (bumpCount_mayReturn ⟨howner, rfl⟩)

/-- **Lock and trylock agree** on every private, non-robust mutex that is free, or recursive and
    owned by the caller: they leave the same mutex and the same scheduling data, and return the same
    value, or, where the ceiling is no priority of `SCHED_FIFO`, may both fail the assertion on
    it. -/
theorem lock_eq_trylock (S : Sys) (id : Tid) (k : PrivateKind) (s : State)
    (hkind : s.mutex.kind = k.code)
    (h : Free k s.mutex ∨ OwnedRecursive id.val k s.mutex) :
    pthreadMutexLock S id.val s = doMutexTrylock S id.val s ∧
    ((∃ code, (pthreadMutexLock S id.val s).1 = .ret code ∧ MayReturn S id.val k s code) ∨
      (pthreadMutexLock S id.val s).1 = .abort (.prio .newPrio) ∧ CeilingOutside S k s.mutex) := by
  cases k with
  | basic κ => exact ⟨lock_eq_trylock_basic hkind h, .inl (lock_basic_mayReturn hkind h)⟩
  | inherit κ => exact ⟨lock_eq_trylock_inherit hkind h, .inl (lock_inherit_mayReturn hkind h)⟩
  | protect κ => exact ⟨lock_eq_trylock_protect hkind h, lock_protect_mayReturn hkind h⟩

/-- A free recursive mutex with ceiling 5. -/
theorem lock_eq_trylock_ceiling :
    pthreadMutexLock linuxSys 7 ⟨{ lock := 5 <<< prioCeilingShift, kind := 65 }, {}, []⟩ =
        doMutexTrylock linuxSys 7 ⟨{ lock := 5 <<< prioCeilingShift, kind := 65 }, {}, []⟩ ∧
      ∃ code, (pthreadMutexLock linuxSys 7
        ⟨{ lock := 5 <<< prioCeilingShift, kind := 65 }, {}, []⟩).1 = .ret code := by
  obtain ⟨heq, ⟨code, hcode, -⟩ | ⟨habort, -⟩⟩ :=
    lock_eq_trylock linuxSys ⟨7, by decide⟩ (.protect .recursive)
      ⟨{ lock := 5 <<< prioCeilingShift, kind := 65 }, {}, []⟩ (by decide)
      (.inl ⟨rfl, 5, by decide, rfl⟩)
  · exact ⟨heq, code, hcode⟩
  · exact absurd habort (by decide)

/-- The mutex that `pthread_mutex_init` makes of an attribute with priority protection and no
    ceiling is free, and both calls on it fail the assertion. -/
theorem noCeiling_returns_nothing :
    (mutexInit attrPrioProtect {}).2 = { lock := 0, kind := 64 } ∧
      Free (.protect .timed) { lock := 0, kind := 64 } ∧
      (pthreadMutexLock linuxSys 7 ⟨{ lock := 0, kind := 64 }, {}, []⟩).1 =
        .abort (.prio .newPrio) ∧
      (doMutexTrylock linuxSys 7 ⟨{ lock := 0, kind := 64 }, {}, []⟩).1 =
        .abort (.prio .newPrio) :=
  ⟨by decide, ⟨rfl, 0, by decide, rfl⟩, by decide, by decide⟩

end SyncPerf.Calls
