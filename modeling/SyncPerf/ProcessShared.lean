import SyncPerf.StaticKind

namespace SyncPerf.Calls

/-!
# The process-shared flag

`pthread_mutex_init` keeps the process-shared flag of an attribute as a bit of `__kind`.  Trylock
and unlock mask it out, the `switch` of `pthread_mutex_lock` does not.

* `State.flag`, `doMutexTrylock_flag`, `pthreadMutexUnlock_flag` — the bit makes no difference to
  the masked calls;
* `lock_flag` — a lock call does not know a kind with the bit;
* `pshared_unobserved_iff` — so the flag is seen exactly in the sequences with a lock call.
-/

/-! ### The bit in a kind -/

/-- A mask that leaves the process-shared bit out. -/
theorem flag_and {mask : BitVec 32} (kind : BitVec 32) (h : psharedBit &&& mask = 0) :
    (kind ||| psharedBit) &&& mask = kind &&& mask := by
  rw [BitVec.and_or_distrib_right, h]
  exact BitVec.or_zero

/-- Two kinds that are the same to every mask. -/
structure SameMasked (k kind : BitVec 32) : Prop where
  type : pthreadMutexType k = pthreadMutexType kind
  elision : pthreadMutexTypeElision k = pthreadMutexTypeElision kind
  protocol : protocolOf k = protocolOf kind
  basic : basicOf k = basicOf kind

/-- A kind and itself. -/
theorem SameMasked.refl (kind : BitVec 32) : SameMasked kind kind := ⟨rfl, rfl, rfl, rfl⟩

/-- A kind with the process-shared bit, and without. -/
theorem sameMasked_flag (kind : BitVec 32) : SameMasked (kind ||| psharedBit) kind where
  type := flag_and kind (by decide)
  elision := flag_and kind (by decide)
  protocol := by
    rw [protocolOf, flag_and kind (by decide), flag_and kind (by decide),
      flag_and kind (by decide)]
    rfl
  basic := by
    rw [basicOf, flag_and kind (by decide)]
    rfl

/-- No case label has the bit. -/
theorem switchKind_flag (kind : BitVec 32) : switchKind (kind ||| psharedBit) = .invalid := by
  have hbit : (kind ||| psharedBit) &&& psharedBit = psharedBit := by
    rw [BitVec.and_or_distrib_right, BitVec.and_self]
    ext i hi
    simp only [BitVec.getElem_or, BitVec.getElem_and]
    cases psharedBit[i] <;> simp
  have hne : ∀ label : BitVec 32, label &&& psharedBit = 0 → kind ||| psharedBit ≠ label := by
    rintro label hlabel rfl
    rw [hbit] at hlabel
    exact absurd hlabel (by decide)
  have hall : specialKinds.all (fun label => label &&& psharedBit = 0) = true := by decide
  have hspecial : kind ||| psharedBit ∉ specialKinds := by
    intro hmem
    have hno := of_decide_eq_true (List.all_eq_true.mp hall _ hmem)
    rw [hbit] at hno
    exact absurd hno (by decide)
  rw [switchKind, if_neg (hne 0 (by decide)), if_neg (hne 1 (by decide)),
    if_neg (hne 2 (by decide)), if_neg (hne 3 (by decide)), if_neg hspecial]

/-! ### The calls that mask it -/

/-- The mutex with another kind. -/
def setKind (k : BitVec 32) (m : MutexData) : MutexData := { m with kind := k }

/-- The state with another kind. -/
def State.setKind (k : BitVec 32) (s : State) : State := s.set (Calls.setKind k s.mutex)

/-- The same end of a call, on a mutex with another kind. -/
def endKind (k : BitVec 32) (r : Outcome × State) : Outcome × State := (r.1, r.2.setKind k)

section

variable {k : BitVec 32}

/-- The kind does not matter to a deeper level. -/
theorem bumpCount_setKind (s : State) : bumpCount (s.setKind k) = endKind k (bumpCount s) := by
  simp only [bumpCount, apply_ite (endKind k)]
  rfl

/-- The kind does not matter to the recursive case of a trylock. -/
theorem trylockRecursive_setKind (id : ℕ) (s : State) :
    trylockRecursive id (s.setKind k) = endKind k (trylockRecursive id s) := by
  simp only [trylockRecursive, bumpCount_setKind, apply_ite (endKind k)]
  rfl

/-- It does not matter to the other basic kinds of a trylock. -/
theorem trylockSimple_setKind (id : ℕ) (s : State) :
    trylockSimple id (s.setKind k) = endKind k (trylockSimple id s) := by
  simp only [trylockSimple, apply_ite (endKind k)]
  rfl

/-- It does not matter to the robust case of a trylock. -/
theorem trylockRobust_setKind (id : ℕ) (κ : BasicKind) (s : State) :
    trylockRobust id κ (s.setKind k) = endKind k (trylockRobust id κ s) := by
  simp only [trylockRobust, bumpCount_setKind, apply_ite (endKind k)]
  rfl

/-- It does not matter to what follows an acquisition with priority inheritance. -/
theorem trylockPi_after_setKind (S : Sys) (id : ℕ) (robust : Bool) (oldval : ℕ) (s : State) :
    trylockPi.after S id robust oldval (s.setKind k) =
      endKind k (trylockPi.after S id robust oldval s) := by
  simp only [trylockPi.after, apply_ite (endKind k)]
  rfl

/-- It does not matter to the priority-inheritance case of a trylock. -/
theorem trylockPi_setKind (S : Sys) (id : ℕ) (robust : Bool) (κ : BasicKind) (s : State) :
    trylockPi S id robust κ (s.setKind k) = endKind k (trylockPi S id robust κ s) := by
  simp only [trylockPi, bumpCount_setKind, apply_ite (endKind k), ← trylockPi_after_setKind]
  rfl

/-- It does not matter to the priority-protect case of a trylock. -/
theorem trylockPp_setKind (S : Sys) (id : ℕ) (κ : BasicKind) (s : State) :
    trylockPp S id κ (s.setKind k) = endKind k (trylockPp S id κ s) := by
  have hprio : (s.setKind k).prio = s.prio := rfl
  have hlock : (s.setKind k).mutex.lock = s.mutex.lock := rfl
  simp only [trylockPp, bumpCount_setKind, apply_ite (endKind k), hprio, hlock]
  generalize pthreadCurrentPriority S.toSched s.prio = current
  cases tppChangePriority S.toSched (-1) ((s.mutex.lock &&& prioCeilingMask) >>> prioCeilingShift :)
      current.2 with
  | error a => rfl
  | ok r =>
    simp only [apply_ite (endKind k)]
    cases tppChangePriority S.toSched ((s.mutex.lock &&& prioCeilingMask) >>> prioCeilingShift :)
        (-1) r.2 with
    | error a => rfl
    | ok r' => rfl

/-- **Trylock** masks the kind. -/
theorem doMutexTrylock_setKind (S : Sys) (id : ℕ) {s : State} (h : SameMasked k s.mutex.kind) :
    doMutexTrylock S id (s.setKind k) = endKind k (doMutexTrylock S id s) := by
  have htype : pthreadMutexTypeElision (s.setKind k).mutex.kind =
      pthreadMutexTypeElision s.mutex.kind := h.elision
  simp only [doMutexTrylock, htype, trylockRecursive_setKind, trylockSimple_setKind,
    trylockRobust_setKind, trylockPi_setKind, trylockPp_setKind, apply_ite (endKind k)]
  cases switchKind (pthreadMutexTypeElision s.mutex.kind) with
  | basic κ => cases κ <;> rfl
  | invalid => rfl
  | special => cases protocolOf (pthreadMutexTypeElision s.mutex.kind) <;> rfl

/-- It does not matter to `pp:` of an unlock. -/
theorem unlockPp_setKind (S : Sys) (s : State) :
    unlockPp S (s.setKind k) = endKind k (unlockPp S s) := by
  have hprio : (s.setKind k).prio = s.prio := rfl
  have hlock : (s.setKind k).mutex.lock = s.mutex.lock := rfl
  simp only [unlockPp, hprio, hlock]
  split <;> rfl

/-- It does not matter to the unlock of a recursive mutex with priority protection. -/
theorem unlockPpRecursive_setKind (S : Sys) (id : ℕ) (s : State) :
    unlockPpRecursive S id (s.setKind k) = endKind k (unlockPpRecursive S id s) := by
  simp only [unlockPpRecursive, apply_ite (endKind k), ← unlockPp_setKind]
  rfl

/-- An unlock of a special kind reads the masked kind only. -/
theorem pthreadMutexUnlockFull_setKind (S : Sys) (id : ℕ) {s : State}
    (h : SameMasked k s.mutex.kind) :
    pthreadMutexUnlockFull S id (s.setKind k) = endKind k (pthreadMutexUnlockFull S id s) := by
  have htype : pthreadMutexType (s.setKind k).mutex.kind = pthreadMutexType s.mutex.kind := h.type
  simp only [pthreadMutexUnlockFull, htype]
  cases switchKind (pthreadMutexType s.mutex.kind) with
  | basic κ => rfl
  | invalid => rfl
  | special =>
    cases protocolOf (pthreadMutexType s.mutex.kind) <;>
      cases basicOf (pthreadMutexType s.mutex.kind) <;>
      simp only [apply_ite (endKind k), ← unlockPp_setKind, ← unlockPpRecursive_setKind] <;> rfl

/-- **Unlock** masks it too. -/
theorem pthreadMutexUnlock_setKind (S : Sys) (id : ℕ) {s : State}
    (h : SameMasked k s.mutex.kind) :
    pthreadMutexUnlock S id (s.setKind k) = endKind k (pthreadMutexUnlock S id s) := by
  have htype : pthreadMutexType (s.setKind k).mutex.kind = pthreadMutexType s.mutex.kind := h.type
  have helision : pthreadMutexTypeElision (s.setKind k).mutex.kind =
      pthreadMutexTypeElision s.mutex.kind := h.elision
  simp only [pthreadMutexUnlock, htype, helision, pthreadMutexUnlockFull_setKind S id h,
    apply_ite (endKind k)]
  rfl

/-- The kind does not matter to the end of a lock that has the word. -/
theorem lockTaken_setKind (id : ℕ) (t : LockTarget) (s : State) :
    lockTaken id t (s.setKind k) = endKind k (lockTaken id t s) := by
  simp only [lockTaken, apply_ite (endKind k)]
  cases t <;> rfl

/-- It does not matter to the end of a lock with priority inheritance. -/
theorem lockPiTaken_setKind (S : Sys) (id : ℕ) (robust : Bool) (oldval : ℕ) (s : State) :
    lockPiTaken S id robust oldval (s.setKind k) = endKind k (lockPiTaken S id robust oldval s) := by
  simp only [lockPiTaken, apply_ite (endKind k)]
  rfl

/-- It does not matter to the system call of a lock with priority inheritance. -/
theorem lockPiWait_setKind (S : Sys) (id : ℕ) (robust : Bool) (κ : BasicKind) (s : State) :
    lockPiWait S id robust κ (s.setKind k) = endKind k (lockPiWait S id robust κ s) := by
  have hlock : (s.setKind k).mutex.lock = s.mutex.lock := rfl
  simp only [lockPiWait, hlock]
  cases S.futexLockPi id s.mutex.lock with
  | sleeps lock => rfl
  | returns errno lock =>
    simp only [apply_ite (endKind k), ← lockPiTaken_setKind]
    rfl

/-- It does not matter to the end of a lock with a ceiling. -/
theorem lockPpTaken_setKind (id : ℕ) (s : State) :
    lockPpTaken id (s.setKind k) = endKind k (lockPpTaken id s) := by
  simp only [lockPpTaken, apply_ite (endKind k)]
  rfl

/-- A lock call that sleeps only asks for the protocol. -/
theorem resume_setKind (S : Sys) (id : ℕ) (w : Wait) {s : State}
    (h : SameMasked k s.mutex.kind) : resume S id w (s.setKind k) = endKind k (resume S id w s) := by
  have hprotocol : protocolOf (s.setKind k).mutex.kind = protocolOf s.mutex.kind := h.protocol
  have hbasic : basicOf (s.setKind k).mutex.kind = basicOf s.mutex.kind := h.basic
  cases w with
  | lll t =>
    simp only [resume, apply_ite (endKind k), ← lockTaken_setKind]
    rfl
  | futexLockPi => simp only [resume, hprotocol, hbasic, lockPiWait_setKind]
  | ceiling ceilval =>
    simp only [resume, apply_ite (endKind k), ← lockPpTaken_setKind]
    rfl

end

/-- The `switch` of **lock** does not: it knows no kind with the bit. -/
theorem lock_invalid (S : Sys) (id : ℕ) {s : State} (h : switchKind s.mutex.kind = .invalid) :
    pthreadMutexLock S id s = (.ret eINVAL, s) := by
  simp only [pthreadMutexLock, h]

/-! ### Two processes -/

variable {ι : Type} [DecidableEq ι]

/-- The process whose mutex has another kind. -/
def Process.setKind (k : BitVec 32) (p : Process ι) : Process ι :=
  { p with real := p.real.map (Calls.setKind k) }

/-- It does not matter to what a call leaves in the process. -/
theorem finish_setKind (k : BitVec 32) (p : Process ι) (t : ι) (r : Outcome × State) :
    (p.setKind k).finish t (endKind k r) = ((p.finish t r).1, (p.finish t r).2.setKind k) := rfl

/-- What an event does to a mutex of another kind, where no lock call asks for the kind. -/
theorem serve_setKind (S : Sys) (id : ι → ℕ) (e : Event ι) (p : Process ι) {m : MutexData}
    {k : BitVec 32} (hreal : p.real = some m) (hk : SameMasked k m.kind)
    (he : (∀ t, e ≠ .call t .lock) ∨ switchKind k = .invalid ∧ switchKind m.kind = .invalid) :
    serve S id e (p.setKind k) = ((serve S id e p).1, (serve S id e p).2.setKind k) := by
  have hreal' : (p.setKind k).real = some (Calls.setKind k m) :=
    congrArg (Option.map (Calls.setKind k)) hreal
  have hgone : (p.setKind k).gone = p.gone := rfl
  have hstatus : ∀ t, (p.setKind k).status t = p.status t := fun _ => rfl
  have hstate : ∀ t, (⟨Calls.setKind k m, (p.setKind k).prio t, []⟩ : State) =
      State.setKind k ⟨m, p.prio t, []⟩ := fun _ => rfl
  by_cases hg : p.gone = true
  · simp only [serve, hgone, if_pos hg]
  cases e with
  | wake t =>
    simp only [serve, hgone, if_neg hg, hstatus, hreal, hreal']
    cases p.status t with
    | outside | hanging => rfl
    | sleeping w =>
      -- the thread goes on with the protocol that it slept with
      simp only [hstate, resume_setKind (s := ⟨m, p.prio t, []⟩) S (id t) w hk]
      exact finish_setKind k p t _
  | call t op =>
    simp only [serve, hgone, if_neg hg, hstatus, hreal, hreal']
    cases p.status t with
    | sleeping w | hanging => rfl
    | outside =>
      cases op with
      | lock =>
        -- the only `switch` that does not mask the kind, which knows neither of the two
        obtain ⟨hinvalid, hinvalid'⟩ := he.resolve_left fun h => h t rfl
        simp only [Option.getD_some, hstate, lock_invalid S (id t) (s := ⟨m, p.prio t, []⟩) hinvalid',
          lock_invalid S (id t) (s := State.setKind k ⟨m, p.prio t, []⟩) hinvalid]
        exact finish_setKind k p t (.ret eINVAL, ⟨m, p.prio t, []⟩)
      | trylock =>
        simp only [Option.getD_some, hstate,
          doMutexTrylock_setKind (s := ⟨m, p.prio t, []⟩) S (id t) hk]
        exact finish_setKind k p t _
      | unlock =>
        simp only [hstate, pthreadMutexUnlock_setKind (s := ⟨m, p.prio t, []⟩) S (id t) hk]
        exact finish_setKind k p t _

/-- The mutex stays there. -/
theorem serve_real (S : Sys) (id : ι → ℕ) (e : Event ι) (p : Process ι) {m : MutexData}
    (hreal : p.real = some m) : ∃ m', (serve S id e p).2.real = some m' := by
  by_cases hg : p.gone = true
  · simp only [serve, if_pos hg]
    exact ⟨m, hreal⟩
  cases e with
  | wake t =>
    simp only [serve, if_neg hg, hreal]
    cases p.status t with
    | outside | hanging => exact ⟨m, hreal⟩
    | sleeping w => exact ⟨_, rfl⟩
  | call t op =>
    simp only [serve, if_neg hg, hreal]
    cases p.status t with
    | sleeping w | hanging => exact ⟨m, hreal⟩
    | outside => cases op <;> exact ⟨_, rfl⟩

/-- Its kind stays the same. -/
theorem serve_kind (S : Sys) (id : ι → ℕ) (e : Event ι) (p : Process ι) {m : MutexData}
    (hreal : p.real = some m) (he : (∀ t, e ≠ .call t .lock) ∨ switchKind m.kind = .invalid) :
    ∃ m', (serve S id e p).2.real = some m' ∧ m'.kind = m.kind := by
  obtain ⟨m', hm'⟩ := serve_real S id e p hreal
  -- a call does the same on the mutex with its own kind written again
  have hself : p.setKind m.kind = p := by
    rw [Process.setKind, hreal]
    rw [show (some m).map (Calls.setKind m.kind) = p.real from hreal.symm]
  have hserve := serve_setKind S id e p hreal (SameMasked.refl m.kind)
    (he.imp_right fun h => ⟨h, h⟩)
  rw [hself] at hserve
  have hsecond := congrArg (fun r => r.2.real) hserve
  simp only [Process.setKind, hm', Option.map_some, Option.some.injEq] at hsecond
  exact ⟨m', hm', show m'.kind = (Calls.setKind m.kind m').kind from congrArg _ hsecond⟩

/-- What a thread sees of a call, and the mutex that it leaves. -/
def observe (r : Option Answer × Process ι) :
    Option Answer × Option (ℕ × ℕ × BitVec 32 × BitVec 32) :=
  (r.1, r.2.real.map fun m => (m.lock, m.owner, m.count, m.nusers))

omit [DecidableEq ι] in
/-- What is observed does not tell the kind. -/
theorem observe_setKind (k : BitVec 32) (answer : Option Answer) (p : Process ι) :
    observe (answer, p.setKind k) = observe (answer, p) := by
  simp only [observe, Process.setKind, Option.map_map]
  rfl

/-- **Two runs** on mutexes whose kinds are the same to every mask. -/
theorem trace_setKind (S : Sys) (id : ι → ℕ) (es : List (Event ι)) {p : Process ι} {m : MutexData}
    {k : BitVec 32} (hreal : p.real = some m) (hk : SameMasked k m.kind)
    (hes : (∀ t, .call t .lock ∉ es) ∨ switchKind k = .invalid ∧ switchKind m.kind = .invalid) :
    (trace S id es (p.setKind k)).map observe = (trace S id es p).map observe := by
  induction es generalizing p m with
  | nil => rfl
  | cons e es ih =>
    have he : (∀ t, e ≠ .call t .lock) ∨ switchKind k = .invalid ∧ switchKind m.kind = .invalid :=
      hes.imp_left fun h t heq => h t (heq ▸ List.mem_cons_self ..)
    obtain ⟨m', hm', hkind⟩ := serve_kind S id e p hreal (he.imp_right fun h => h.2)
    rw [trace, trace, List.map_cons, List.map_cons, serve_setKind S id e p hreal hk he]
    simp only
    rw [observe_setKind, ih hm' (hkind ▸ hk) ?_]
    rw [hkind]
    exact hes.imp_left fun h t hmem => h t (List.mem_cons_of_mem _ hmem)

/-! ### The flag of an attribute -/

/-- The flag sets the bit of the kind, and nothing else. -/
theorem mutexInit_pshared {w : BitVec 32} (hw : w &&& attrFlagRobust = 0) :
    (mutexInit (w ||| attrFlagPshared) {}).2 =
      setKind ((mutexInit w {}).2.kind ||| psharedBit) (mutexInit w {}).2 := by
  have hmask : ∀ mask, attrFlagPshared &&& mask = 0 →
      (w ||| attrFlagPshared) &&& mask = w &&& mask := by
    intro mask h
    rw [BitVec.and_or_distrib_right, h]
    exact BitVec.or_zero
  have hprotocol := hmask attrProtocolMask (by decide)
  have hrobust := hmask attrFlagRobust (by decide)
  have hceiling := hmask attrPrioCeilingMask (by decide)
  have hbits := hmask (~~~attrFlagBits) (by decide)
  have hset : (w ||| attrFlagPshared) &&& (attrFlagPshared ||| attrFlagRobust) ≠ 0 := by
    rw [BitVec.and_or_distrib_right]
    intro h
    exact absurd (BitVec.or_eq_zero_iff.mp h).2 (by decide)
  have hno : ∀ q r : Prop, ¬ (q ∧ r ∧ w &&& attrFlagRobust ≠ 0) := fun _ _ h => h.2.2 hw
  simp only [mutexInit, hprotocol, hrobust, hceiling, hbits, if_pos hset, if_neg (hno _ _), setKind]
  by_cases hflag : w &&& (attrFlagPshared ||| attrFlagRobust) ≠ 0
  · simp only [if_pos hflag, BitVec.or_assoc, BitVec.or_self]
  · simp only [if_neg hflag]

/-! ### A system in which a lock call is noticed -/

/-- A system in which nothing works: no memory, no scheduler calls. -/
def failingSys : Sys where
  fifoMinPrio := 1
  fifoMaxPrio := 99
  calloc := false
  schedGetparam := .error 1
  schedGetscheduler := .error 1
  schedSetscheduler _ _ := .error 1
  futexLockPi _ lock := .sleeps lock
  futexTrylockPi _ lock := (eWOULDBLOCK, lock)
  futexUnlockPi _ _ := 0
  noReturn := 0

/-- The data of a thread that never got any; on a mutex with priority inheritance, where `inherit`
    holds, nobody died. -/
structure Quiet (inherit : Prop) (s : State) : Prop where
  tpp : s.prio.tpp = none
  schedSet : s.prio.schedSet = false
  policySet : s.prio.policySet = false
  lock : inherit → s.mutex.lock ≤ futexTidMask

/-- A call returns, and leaves the data so. -/
def Returns (inherit : Prop) (r : Outcome × State) : Prop :=
  (∃ code, r.1 = .ret code) ∧ Quiet inherit r.2

/-- The kinds that a lock call knows. -/
theorem known_kind {kind : BitVec 32} (h : switchKind kind ≠ .invalid) :
    (∃ κ : BasicKind, kind = κ.code) ∨ ∃ (π : Protocol) (κ : BasicKind), kind = π.code κ := by
  unfold switchKind at h
  split_ifs at h with h0 h1 h2 h3 h4
  · exact .inl ⟨.timed, h0⟩
  · exact .inl ⟨.recursive, h1⟩
  · exact .inl ⟨.errorcheck, h2⟩
  · exact .inl ⟨.adaptive, h3⟩
  -- the list of the special labels is gone through
  · have hall : specialKinds.all (fun kind =>
        [Protocol.robust, .inherit, .inheritRobust, .protect].any fun π =>
          [BasicKind.timed, .recursive, .errorcheck, .adaptive].any fun κ =>
            kind = π.code κ) = true := by decide
    have hany := List.all_eq_true.mp hall kind h4
    simp only [List.any_eq_true, decide_eq_true_eq] at hany
    obtain ⟨π, -, κ, -, hkind⟩ := hany
    exact .inr ⟨π, κ, hkind⟩
  · exact absurd rfl h

/-- A trylock leaves the kind as it is. -/
theorem doMutexTrylock_kind (S : Sys) (id : ℕ) (s : State) :
    (doMutexTrylock S id s).2.mutex.kind = s.mutex.kind := by
  have h := doMutexTrylock_setKind S id (SameMasked.refl s.mutex.kind)
  exact congrArg (fun r => r.2.mutex.kind) h

/-- An unlock leaves the kind as it is. -/
theorem pthreadMutexUnlock_kind (S : Sys) (id : ℕ) (s : State) :
    (pthreadMutexUnlock S id s).2.mutex.kind = s.mutex.kind := by
  have h := pthreadMutexUnlock_setKind S id (SameMasked.refl s.mutex.kind)
  exact congrArg (fun r => r.2.mutex.kind) h

section

variable {inherit : Prop} {id : ℕ} {s : State}

/-- The priority of a thread stays unknown. -/
theorem pthreadCurrentPriority_failing (h : Quiet inherit s) :
    pthreadCurrentPriority failingSys.toSched s.prio = (-1, { s.prio with schedpolicy := -1 }) := by
  simp only [pthreadCurrentPriority, Prio.learn, h.schedSet, h.policySet, failingSys,
    Bool.false_eq_true, if_false]

/-- Without memory no priority is raised or given back. -/
theorem tppChangePriority_failing {p : Prio} (h : p.tpp = none) (previous new : ℤ) :
    tppChangePriority failingSys.toSched previous new p = .ok (eNOMEM, p) := by
  simp only [tppChangePriority, Prio.tppData, h, failingSys, Bool.false_eq_true, if_false]

/-- A return from a quiet state. -/
theorem Quiet.returns (h : Quiet inherit s) (code : ℕ) : Returns inherit (.ret code, s) :=
  ⟨⟨code, rfl⟩, h⟩

/-- A change that keeps the word of a mutex with priority inheritance small. -/
theorem Quiet.set (h : Quiet inherit s) {m : MutexData}
    (hlock : inherit → m.lock ≤ futexTidMask) : Quiet inherit (s.set m) :=
  ⟨h.tpp, h.schedSet, h.policySet, hlock⟩

/-- A deeper level returns. -/
theorem bumpCount_returns (h : Quiet inherit s) : Returns inherit (bumpCount s) := by
  unfold bumpCount
  split
  · exact h.returns _
  · refine Quiet.returns (h.set ?_) _
    exact h.lock

/-- The recursive case of a trylock returns. -/
theorem trylockRecursive_returns (h : Quiet inherit s) (hno : ¬ inherit) :
    Returns inherit (trylockRecursive id s) := by
  unfold trylockRecursive
  split_ifs
  · exact bumpCount_returns h
  · exact (h.set fun hi => absurd hi hno).returns _
  · exact h.returns _

/-- The other basic kinds return. -/
theorem trylockSimple_returns (h : Quiet inherit s) (hno : ¬ inherit) :
    Returns inherit (trylockSimple id s) := by
  unfold trylockSimple
  split_ifs
  · exact (h.set fun hi => absurd hi hno).returns _
  · exact h.returns _

/-- The robust case returns. -/
theorem trylockRobust_returns {κ : BasicKind} (h : Quiet inherit s) (hno : ¬ inherit) :
    Returns inherit (trylockRobust id κ s) := by
  have hset : ∀ m, Quiet inherit (s.set m) := fun m => h.set fun hi => absurd hi hno
  simp only [trylockRobust]
  split_ifs
  · exact (hset _).returns _
  · exact h.returns _
  · exact bumpCount_returns h
  · exact h.returns _
  · exact (hset _).returns _
  · exact (hset _).returns _
  · exact (hset _).returns _

/-- The priority-inheritance case returns. -/
theorem trylockPi_returns {robust : Bool} {κ : BasicKind} (hid : id ≤ futexTidMask)
    (h : Quiet inherit s) (hlock : s.mutex.lock ≤ futexTidMask) :
    Returns inherit (trylockPi failingSys id robust κ s) := by
  have hdied := and_futexOwnerDied hlock
  simp only [trylockPi, hdied, if_true]
  split_ifs
  · exact h.returns _
  · exact bumpCount_returns h
  · simp only [trylockPi.after, Nat.zero_and, ne_eq, not_true_eq_false, if_false]
    split_ifs
    · exact ⟨⟨_, rfl⟩, h.tpp, h.schedSet, h.policySet, fun _ => Nat.zero_le _⟩
    · exact (Quiet.set (h.set fun _ => hid) fun _ => hid).returns _
  · exact h.returns _

/-- The priority-protect case returns. -/
theorem trylockPp_returns {κ : BasicKind} (h : Quiet inherit s) :
    Returns inherit (trylockPp failingSys id κ s) := by
  have hlow : ∀ n : ℕ, ¬ (-1 : ℤ) > n := fun n => by omega
  have hne : eNOMEM ≠ 0 := by decide
  simp only [trylockPp, pthreadCurrentPriority_failing h, if_neg (hlow _),
    tppChangePriority_failing (p := { s.prio with schedpolicy := -1 }) h.tpp, if_pos hne]
  split_ifs
  · exact h.returns _
  · exact bumpCount_returns h
  · exact ⟨⟨_, rfl⟩, h.tpp, h.schedSet, h.policySet, h.lock⟩

/-- A trylock returns. -/
theorem trylock_returns (hkind : switchKind s.mutex.kind ≠ .invalid) (hid : id ≤ futexTidMask)
    (h : Quiet (s.mutex.kind &&& prioInherit ≠ 0) s) :
    Returns (s.mutex.kind &&& prioInherit ≠ 0) (doMutexTrylock failingSys id s) := by
  rcases known_kind hkind with ⟨κ, hκ⟩ | ⟨π, κ, hκ⟩
  · have hno : ¬ s.mutex.kind &&& prioInherit ≠ 0 := by
      rw [hκ]
      cases κ <;> decide
    rw [doMutexTrylock_basic (by rw [hκ, typeElision_code])]
    split_ifs
    · exact trylockRecursive_returns h hno
    · exact trylockSimple_returns h hno
  · rw [doMutexTrylock_protocol (by rw [hκ, typeElision_protocol])]
    cases π with
    | robust =>
      refine trylockRobust_returns h ?_
      rw [hκ]
      cases κ <;> decide
    | inherit | inheritRobust =>
      refine trylockPi_returns hid h (h.lock ?_)
      rw [hκ]
      cases κ <;> decide
    | protect => exact trylockPp_returns h

/-- `normal:` of an unlock returns. -/
theorem unlockNormal_returns (h : Quiet inherit s) : Returns inherit (unlockNormal s) :=
  Quiet.returns (h.set fun _ => Nat.zero_le _) 0

/-- `robust:` of an unlock returns. -/
theorem unlockRobust_returns (h : Quiet inherit s) (newowner : ℕ) :
    Returns inherit (unlockRobust newowner s) :=
  Quiet.returns (h.set fun _ => Nat.zero_le _) 0

/-- `pp:` of an unlock returns. -/
theorem unlockPp_returns (h : Quiet inherit s) : Returns inherit (unlockPp failingSys s) := by
  simp only [unlockPp, tppChangePriority_failing h.tpp]
  exact ⟨⟨_, rfl⟩, h.tpp, h.schedSet, h.policySet, fun hi => Nat.and_le_left.trans (h.lock hi)⟩

/-- The case of a recursive mutex with priority protection returns. -/
theorem unlockPpRecursive_returns (h : Quiet inherit s) :
    Returns inherit (unlockPpRecursive failingSys id s) := by
  simp only [unlockPpRecursive]
  split_ifs
  · exact h.returns _
  · refine Quiet.returns (h.set ?_) _
    exact h.lock
  · refine unlockPp_returns (h.set ?_)
    exact h.lock

/-- An unlock of a special kind returns. -/
theorem unlockFull_returns {π : Protocol} {κ : BasicKind} (hkind : s.mutex.kind = π.code κ)
    (h : Quiet inherit s) : Returns inherit (pthreadMutexUnlockFull failingSys id s) := by
  have hset : ∀ m : MutexData, m.lock = s.mutex.lock → Quiet inherit (s.set m) := fun m hm =>
    h.set fun hi => hm ▸ h.lock hi
  simp only [pthreadMutexUnlockFull, hkind, type_protocol, switchKind_protocol, protocolOf_code,
    basicOf_code]
  cases π with
  | robust =>
    cases κ with
    | recursive =>
      simp only
      split_ifs
      · refine Quiet.returns ?_ _
        exact hset _ rfl
      · refine unlockRobust_returns ?_ _
        exact hset _ rfl
      · exact h.returns _
      · refine Quiet.returns ?_ _
        exact hset _ rfl
      · refine unlockRobust_returns ?_ _
        exact hset _ rfl
    | timed | errorcheck | adaptive =>
      simp only
      split_ifs
      · exact h.returns _
      · exact unlockRobust_returns h _
      · exact unlockRobust_returns h _
  | inherit =>
    cases κ with
    | recursive =>
      simp only
      split_ifs
      · exact h.returns _
      · refine Quiet.returns ?_ _
        exact hset _ rfl
      · refine unlockPpRecursive_returns ?_
        exact hset _ rfl
    | timed | errorcheck | adaptive => exact unlockPpRecursive_returns h
  | inheritRobust => exact unlockPpRecursive_returns h
  | protect =>
    cases κ with
    | recursive => exact unlockPpRecursive_returns h
    | errorcheck =>
      simp only
      split_ifs
      · exact h.returns _
      · exact unlockPp_returns h
    | timed | adaptive => exact unlockPp_returns h

/-- An unlock returns. -/
theorem unlock_returns_failing (hkind : switchKind s.mutex.kind ≠ .invalid)
    (h : Quiet inherit s) : Returns inherit (pthreadMutexUnlock failingSys id s) := by
  rcases known_kind hkind with ⟨κ, hκ⟩ | ⟨π, κ, hκ⟩
  · have hcount : ∀ n, Quiet inherit (s.set { s.mutex with count := n }) := fun n => h.set h.lock
    rw [unlock_basic hκ]
    cases κ with
    | timed | adaptive => exact unlockNormal_returns h
    | recursive =>
      simp only
      split_ifs
      · exact h.returns _
      · exact (hcount _).returns _
      · exact unlockNormal_returns (hcount _)
    | errorcheck =>
      simp only
      split_ifs
      · exact h.returns _
      · exact unlockNormal_returns h
  · have htype : pthreadMutexType s.mutex.kind = π.code κ := by rw [hκ, type_protocol]
    rw [pthreadMutexUnlock_protocol htype]
    exact unlockFull_returns hκ h

/-- A return of another number is not one of `EINVAL`. -/
theorem ret_ne {code : ℕ} (h : code ≠ eINVAL) : Outcome.ret code ≠ .ret eINVAL :=
  fun heq => h (Outcome.ret.inj heq)

/-- A deeper level does not return `EINVAL`. -/
theorem bumpCount_ne : (bumpCount s).1 ≠ .ret eINVAL := by
  unfold bumpCount
  split
  · exact ret_ne (by decide)
  · exact ret_ne (by decide)

/-- The end of a lock that has the word does not return `EINVAL`. -/
theorem lockTaken_ne {t : LockTarget} : (lockTaken id t s).1 ≠ .ret eINVAL := by
  cases t with
  | recursive | simple | adaptive cnt =>
    simp only [lockTaken]
    split
    · exact fun h => by cases h
    · exact ret_ne (by decide)

/-- `LLL_MUTEX_LOCK` does not return `EINVAL`. -/
theorem lllLock_ne {t : LockTarget} : (lllLock id t s).1 ≠ .ret eINVAL := by
  unfold lllLock
  split_ifs
  · exact lockTaken_ne
  · exact fun h => by cases h

/-- A lock with priority inheritance does not return `EINVAL`. -/
theorem lockPi_ne {robust : Bool} {κ : BasicKind} :
    (lockPi failingSys id robust κ s).1 ≠ .ret eINVAL := by
  simp only [lockPi]
  split_ifs
  · exact ret_ne (by decide)
  · exact bumpCount_ne
  · simp only [lockPiTaken, Nat.zero_and, ne_eq, not_true_eq_false, if_false]
    split_ifs
    · exact ret_ne (by decide)
    · exact ret_ne (by decide)
  · exact fun h => by cases h

/-- A lock with a ceiling does not return `EINVAL`, when the scheduler calls fail. -/
theorem lockPp_ne {κ : BasicKind} (h : Quiet inherit s) :
    (lockPp failingSys id κ s).1 ≠ .ret eINVAL := by
  have hlow : ∀ n : ℕ, ¬ (-1 : ℤ) > n := fun n => by omega
  have hne : eNOMEM ≠ 0 := by decide
  simp only [lockPp, pthreadCurrentPriority_failing h, if_neg (hlow _),
    tppChangePriority_failing (p := { s.prio with schedpolicy := -1 }) h.tpp, if_pos hne]
  split_ifs
  · exact ret_ne (by decide)
  · exact bumpCount_ne
  · exact ret_ne (by decide)

/-- A lock call is not refused as that of an unknown kind. -/
theorem lock_ne_invalid (id : ℕ) (hkind : switchKind s.mutex.kind ≠ .invalid) (h : Quiet inherit s) :
    (pthreadMutexLock failingSys id s).1 ≠ .ret eINVAL := by
  rcases known_kind hkind with ⟨κ, hκ⟩ | ⟨π, κ, hκ⟩
  · rw [lock_basic hκ]
    cases κ with
    | timed => exact lllLock_ne
    | recursive =>
      simp only
      split_ifs
      · exact bumpCount_ne
      · exact lllLock_ne
    | errorcheck =>
      simp only
      split_ifs
      · exact ret_ne (by decide)
      · exact lllLock_ne
    | adaptive =>
      simp only [lockAdaptive]
      split_ifs
      · exact lockTaken_ne
      · exact lllLock_ne
  · simp only [pthreadMutexLock, hκ, switchKind_protocol, protocolOf_code, basicOf_code]
    cases π with
    | robust =>
      simp only
      split_ifs
      · exact fun h => by cases h
      · exact ret_ne (by decide)
    | inherit | inheritRobust => exact lockPi_ne
    | protect => exact lockPp_ne h

end

/-! ### The first lock call -/

/-- A process in which no call has been refused memory, slept or failed, with a mutex of a kind
    that a lock call knows. -/
structure QuietProcess (kind : BitVec 32) (p : Process ι) : Prop where
  gone : p.gone = false
  outside : ∀ t, p.status t = .outside
  real : ∃ m, p.real = some m ∧ m.kind = kind ∧
    ∀ t, Quiet (kind &&& prioInherit ≠ 0) ⟨m, p.prio t, []⟩

/-- A call that returns leaves the process quiet. -/
theorem QuietProcess.finish {kind : BitVec 32} {p : Process ι} (h : QuietProcess kind p) (t : ι)
    {r : Outcome × State} (hr : Returns (kind &&& prioInherit ≠ 0) r)
    (hkind : r.2.mutex.kind = kind) : QuietProcess kind (p.finish t r).2 := by
  obtain ⟨o, s⟩ := r
  obtain ⟨⟨code, rfl⟩, hquiet⟩ := hr
  obtain ⟨m, -, -, hm⟩ := h.real
  refine ⟨rfl, fun j => ?_, s.mutex, rfl, hkind, fun j => ?_⟩
  · by_cases hj : j = t
    · rw [hj]
      exact Function.update_self ..
    · simp only [Process.finish, Function.update_of_ne hj]
      exact h.outside j
  · by_cases hj : j = t
    · subst hj
      simp only [Process.finish, Function.update_self]
      exact ⟨hquiet.tpp, hquiet.schedSet, hquiet.policySet, hquiet.lock⟩
    · simp only [Process.finish, Function.update_of_ne hj]
      exact ⟨(hm j).tpp, (hm j).schedSet, (hm j).policySet, hquiet.lock⟩

/-- Without lock calls the process stays quiet. -/
theorem QuietProcess.serve {id : ι → ℕ} (hid : ∀ t, id t ≤ futexTidMask) {kind : BitVec 32}
    (hkind : switchKind kind ≠ .invalid) {p : Process ι} (h : QuietProcess kind p) {e : Event ι}
    (he : ∀ t, e ≠ .call t .lock) : QuietProcess kind (Calls.serve failingSys id e p).2 := by
  obtain ⟨m, hreal, rfl, hm⟩ := h.real
  cases e with
  | wake t =>
    simp only [Calls.serve, h.gone, Bool.false_eq_true, if_false, h.outside]
    exact h
  | call t op =>
    simp only [Calls.serve, h.gone, Bool.false_eq_true, if_false, h.outside, hreal]
    cases op with
    | lock => exact absurd rfl (he t)
    | trylock =>
      refine h.finish t (trylock_returns (s := ⟨m, p.prio t, []⟩) hkind (hid t) (hm t)) ?_
      exact doMutexTrylock_kind ..
    | unlock =>
      refine h.finish t (unlock_returns_failing (s := ⟨m, p.prio t, []⟩) hkind (hm t)) ?_
      exact pthreadMutexUnlock_kind ..

/-- A lock call tells the kinds apart. -/
theorem QuietProcess.lock_answer {id : ι → ℕ} {kind k : BitVec 32}
    (hkind : switchKind kind ≠ .invalid) (hk : switchKind k = .invalid) {p : Process ι}
    (h : QuietProcess kind p) (t : ι) :
    (Calls.serve failingSys id (.call t .lock) (p.setKind k)).1 ≠
      (Calls.serve failingSys id (.call t .lock) p).1 := by
  obtain ⟨m, hreal, rfl, hm⟩ := h.real
  have hreal' : (p.setKind k).real = some (Calls.setKind k m) :=
    congrArg (Option.map (Calls.setKind k)) hreal
  have hgone : (p.setKind k).gone = false := h.gone
  have hout : (p.setKind k).status t = .outside := h.outside t
  have hne := lock_ne_invalid (id t) (s := ⟨m, p.prio t, []⟩) hkind (hm t)
  have hinvalid := lock_invalid failingSys (id t)
    (s := ⟨Calls.setKind k m, (p.setKind k).prio t, []⟩) hk
  simp only [Calls.serve, hgone, h.gone, Bool.false_eq_true, if_false, hout, h.outside, hreal,
    hreal', Option.getD_some, Process.finish, hinvalid, ne_eq, Option.some.injEq, Outcome.answer]
  cases hr : (pthreadMutexLock failingSys (id t) ⟨m, p.prio t, []⟩).1 with
  | ret code =>
    rw [hr] at hne
    exact fun heq => hne (congrArg Outcome.ret (Answer.ret.inj heq).symm)
  | sleeps w | hangs | abort f => exact fun heq => by cases heq

/-- So a run with a lock call is seen to differ. -/
theorem QuietProcess.no_lock {id : ι → ℕ} (hid : ∀ t, id t ≤ futexTidMask) {kind k : BitVec 32}
    (hkind : switchKind kind ≠ .invalid) (hk : switchKind k = .invalid)
    (hmask : SameMasked k kind) (es : List (Event ι)) {p : Process ι} (h : QuietProcess kind p)
    (hsame : (trace failingSys id es (p.setKind k)).map observe =
      (trace failingSys id es p).map observe) (t : ι) : .call t .lock ∉ es := by
  induction es generalizing p with
  | nil => exact List.not_mem_nil
  | cons e es ih =>
    rw [trace, trace, List.map_cons, List.map_cons, List.cons.injEq] at hsame
    obtain ⟨hhead, htail⟩ := hsame
    have hno : ∀ j, e ≠ .call j .lock := by
      rintro j rfl
      have hanswer := congrArg Prod.fst hhead
      exact h.lock_answer hkind hk j hanswer
    -- the other events leave the two runs as they were
    obtain ⟨m, hreal, hm, -⟩ := h.real
    rw [serve_setKind failingSys id e p hreal (hm ▸ hmask) (.inl hno)] at htail
    rw [List.mem_cons, not_or]
    exact ⟨(hno t).symm, ih (h.serve hid hkind hno) htail⟩

/-! ### With and without the flag -/

/-- Only a mutex with a ceiling starts with a lock word other than 0, and no lock call knows one
    that has priority inheritance as well. -/
theorem mutexInit_lock {w : BitVec 32} (hw : w &&& attrFlagRobust = 0)
    (hkind : switchKind (mutexInit w {}).2.kind ≠ .invalid)
    (hinherit : (mutexInit w {}).2.kind &&& prioInherit ≠ 0) : (mutexInit w {}).2.lock = 0 := by
  have hno : ∀ q r : Prop, ¬ (q ∧ r ∧ w &&& attrFlagRobust ≠ 0) := fun _ _ h => h.2.2 hw
  have hboth : (mutexInit w {}).2.kind &&& prioProtect = 0 := by
    rcases known_kind hkind with ⟨κ, hκ⟩ | ⟨π, κ, hκ⟩
    · rw [hκ]
      cases κ <;> decide
    · rw [hκ] at hinherit ⊢
      cases π with
      | robust | inherit | inheritRobust => cases κ <;> decide
      | protect =>
        refine absurd ?_ hinherit
        cases κ <;> decide
  -- the lock word gets a ceiling in one case only, which sets the bit of priority protection
  by_cases hprotect : w &&& attrProtocolMask = attrPrioProtect
  · have hne : ¬ attrPrioProtect = attrPrioInherit := by decide
    have hbit : ∀ kind : BitVec 32, (kind ||| prioProtect) &&& prioProtect ≠ 0 := by
      intro kind h
      rw [BitVec.and_or_distrib_right, BitVec.and_self] at h
      exact absurd (BitVec.or_eq_zero_iff.mp h).2 (by decide)
    simp only [mutexInit, hprotect, if_neg hne, if_true, if_neg (hno _ _)] at hboth
    split at hboth
    · rw [BitVec.or_assoc, BitVec.or_comm prioProtect, ← BitVec.or_assoc] at hboth
      exact absurd hboth (hbit _)
    · exact absurd hboth (hbit _)
  · simp only [mutexInit, if_neg (hno _ _), if_neg hprotect]

/-- A process with a mutex of an attribute word. -/
def initialisedBy (w : BitVec 32) (prio : ι → Prio) : Process ι :=
  { initialised w with prio := prio }

/-- **The process-shared flag is seen.**  In every system a sequence of calls gives the same with
    and without the flag if and only if it has no lock call, or the lock call does not know the
    kind anyway: the flag is set already, or the word has bits that mean nothing. -/
theorem pshared_unobserved_iff (id : ι → ℕ) (hid : ∀ t, id t ≤ futexTidMask) (w : BitVec 32)
    (hw : w &&& attrFlagRobust = 0) (es : List (Event ι)) :
    (∀ S prio, (trace S id es (initialisedBy (w ||| attrFlagPshared) prio)).map observe =
        (trace S id es (initialisedBy w prio)).map observe) ↔
      switchKind (mutexInit w {}).2.kind = .invalid ∨ ∀ t, .call t .lock ∉ es := by
  have hflag : ∀ prio : ι → Prio, initialisedBy (w ||| attrFlagPshared) prio =
      (initialisedBy w prio).setKind ((mutexInit w {}).2.kind ||| psharedBit) := by
    intro prio
    simp only [initialisedBy, initialised, mutexInit_pshared hw, Process.setKind, Option.map_some]
  have hmask := sameMasked_flag (mutexInit w {}).2.kind
  have hinvalid := switchKind_flag (mutexInit w {}).2.kind
  simp only [hflag]
  constructor
  · intro hsame
    by_cases hkind : switchKind (mutexInit w {}).2.kind = .invalid
    · exact .inl hkind
    · refine .inr fun t => ?_
      refine QuietProcess.no_lock hid hkind hinvalid hmask es ?_
        (hsame failingSys fun _ => {}) t
      -- the process starts quiet
      refine ⟨rfl, fun _ => rfl, _, rfl, rfl, fun _ => ⟨rfl, rfl, rfl, fun hinherit => ?_⟩⟩
      rw [mutexInit_lock hw hkind hinherit]
      exact Nat.zero_le _
  · intro h S prio
    exact trace_setKind S id es rfl hmask (h.symm.imp_right fun hkind => ⟨hinvalid, hkind⟩)

/-- A trylock and an unlock do not show the process-shared bit. -/
theorem pshared_unobserved_iff_trylock :
    (trace linuxSys (fun _ => 5) [.call () .trylock, .call () .unlock]
        (initialisedBy (BasicKind.recursive.code ||| attrFlagPshared) fun _ => {})).map observe =
      (trace linuxSys (fun _ => 5) [.call () .trylock, .call () .unlock]
        (initialisedBy BasicKind.recursive.code fun _ => {})).map observe :=
  (pshared_unobserved_iff (fun _ : Unit => 5) (by decide) BasicKind.recursive.code (by decide)
    [.call () .trylock, .call () .unlock]).mpr (.inr (by decide)) linuxSys fun _ => {}

/-- One lock call on a normal mutex: it succeeds, but not with the flag. -/
theorem pshared_lock_refused :
    (trace linuxSys (fun _ => 5) [.call () .lock]
        (initialisedBy BasicKind.timed.code fun _ : Unit => {})).map Prod.fst = [some (.ret 0)] ∧
      (trace linuxSys (fun _ => 5) [.call () .lock]
        (initialisedBy (BasicKind.timed.code ||| attrFlagPshared) fun _ : Unit => {})).map
          Prod.fst = [some (.ret eINVAL)] := by
  decide

end SyncPerf.Calls
