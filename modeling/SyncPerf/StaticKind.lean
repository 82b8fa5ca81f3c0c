import SyncPerf.CallSequence

namespace SyncPerf.Calls

/-!
# Static initialisers and their kind

`create_mutex` gives a nominal mutex a slot with zeroed memory, so its real mutex is a normal one,
whatever the static initialiser said.  This module compares it with a mutex that
`pthread_mutex_init` made of the same kind.

* `Plain` — a lock that knows no kinds: who holds it, who waits;
* `Tells` — the calls by which the kinds can be told apart;
* `Refines.serve` — a mutex of any kind is such a lock, up to those calls;
* `static_kind_iff` — the two mutexes answer alike in exactly the sequences without them.
-/

variable {ι : Type} [DecidableEq ι]

/-! ### A lock without kinds -/

/-- Whether no lock or trylock was called yet, who holds the lock, and who waits for it. -/
structure Plain (ι : Type) where
  fresh : Bool := true
  holder : Option ι := none
  waiting : ι → Bool := fun _ => false

/-- After an event of thread `t`. -/
def Plain.after (p : Plain ι) (t : ι) (holder : Option ι) (waits : Bool) : Plain ι :=
  ⟨false, holder, Function.update p.waiting t waits⟩

/-- One event: a taken lock blocks, and anybody may unlock. -/
def Plain.serve (e : Event ι) (p : Plain ι) : Option Answer × Plain ι :=
  match e with
  | .call t op =>
    if p.waiting t then (none, p)
    else match op, p.holder with
      | .lock, none | .trylock, none => (some (.ret 0), p.after t (some t) false)
      | .lock, some h => (some .blocks, p.after t (some h) true)
      | .trylock, some h => (some (.ret eBUSY), p.after t (some h) false)
      | .unlock, _ => (some (.ret 0), p.after t none false)
  | .wake t =>
    if p.waiting t then
      match p.holder with
      | none => (some (.ret 0), p.after t (some t) false)
      | some h => (some .blocks, p.after t (some h) true)
    else (none, p)

/-- The kinds that check their owner. -/
def Checks (κ : BasicKind) : Prop := κ = .recursive ∨ κ = .errorcheck

/-- A call that a mutex of kind `κ` answers in its own way: a nested acquisition, or an unlock by
    another thread. -/
def Differs (κ : BasicKind) (p : Plain ι) : Event ι → Prop
  | .call t .lock => p.waiting t = false ∧ p.holder = some t ∧ Checks κ
  | .call t .trylock => p.waiting t = false ∧ p.holder = some t ∧ κ = .recursive
  | .call t .unlock => p.waiting t = false ∧ p.holder ≠ some t ∧ Checks κ
  | .wake _ => False

/-- A call by which a static initialiser can be told from `pthread_mutex_init`: one of those, or an
    unlock that comes first. -/
def Tells (κ : BasicKind) (p : Plain ι) (e : Event ι) : Prop :=
  Differs κ p e ∨ p.fresh = true ∧ ∃ t, e = .call t .unlock

/-- No call of the sequence tells them apart. -/
def Unobserved (κ : BasicKind) : Plain ι → List (Event ι) → Prop
  | _, [] => True
  | p, e :: es => ¬ Tells κ p e ∧ Unobserved κ (p.serve e).2 es

/-! ### The calls on a mutex of a basic kind -/

/-- The mutex is free. -/
structure Idle (κ : BasicKind) (m : MutexData) : Prop where
  kind : m.kind = κ.code
  lock : m.lock = lllLockInitializer
  owner : m.owner = 0

/-- Thread `id` holds the mutex, once. -/
structure Taken (κ : BasicKind) (id : ℕ) (m : MutexData) : Prop where
  kind : m.kind = κ.code
  lock : m.lock ≠ lllLockInitializer
  owner : m.owner = id
  count : κ = .recursive → m.count = 1

/-- A taken word is not a free one. -/
theorem locked_ne : lllLockInitializerLocked ≠ lllLockInitializer := by decide

/-- A marked word is not a free one. -/
theorem waiters_ne : lllLockInitializerWaiters ≠ lllLockInitializer := by decide

/-- A lock on a basic kind. -/
theorem lock_basic {S : Sys} {id : ℕ} {κ : BasicKind} {s : State} (hkind : s.mutex.kind = κ.code) :
    pthreadMutexLock S id s =
      match κ with
      | .recursive => if s.mutex.owner = id then bumpCount s else lllLock id .recursive s
      | .errorcheck => if s.mutex.owner = id then (.ret eDEADLK, s) else lllLock id .simple s
      | .timed => lllLock id .simple s
      | .adaptive => lockAdaptive id s := by
  simp only [pthreadMutexLock, hkind, switchKind_code]
  cases κ <;> rfl

/-- A second level is possible. -/
theorem bumpCount_one {s : State} (h : s.mutex.count = 1) : (bumpCount s).1 = .ret 0 := by
  rw [bumpCount, h]
  rfl

/-- A thread that has the word takes a mutex without an owner. -/
theorem lockTaken_ok {κ : BasicKind} {id : ℕ} {t : LockTarget} {s : State}
    (hkind : s.mutex.kind = κ.code) (hlock : s.mutex.lock ≠ lllLockInitializer)
    (howner : s.mutex.owner = 0) (ht : t = .recursive ↔ κ = .recursive) :
    (lockTaken id t s).1 = .ret 0 ∧ Taken κ id (lockTaken id t s).2.mutex := by
  cases t with
  | recursive =>
    simp only [lockTaken, howner, ne_eq, not_true_eq_false, if_false, if_true]
    exact ⟨trivial, hkind, hlock, rfl, fun _ => rfl⟩
  | simple | adaptive cnt =>
    simp only [lockTaken, howner, ne_eq, not_true_eq_false, if_false, reduceCtorEq]
    exact ⟨trivial, hkind, hlock, rfl, fun hκ => absurd (ht.mpr hκ) (by simp)⟩

/-- `LLL_MUTEX_LOCK` takes a free mutex. -/
theorem lllLock_idle {κ : BasicKind} {id : ℕ} {t : LockTarget} {s : State} (h : Idle κ s.mutex)
    (ht : t = .recursive ↔ κ = .recursive) :
    (lllLock id t s).1 = .ret 0 ∧ Taken κ id (lllLock id t s).2.mutex := by
  rw [lllLock, if_pos h.lock]
  exact lockTaken_ok h.kind locked_ne h.owner ht

/-- Locking a free mutex. -/
theorem lock_idle {S : Sys} {κ : BasicKind} {id : ℕ} {s : State} (h : Idle κ s.mutex)
    (hid : id ≠ 0) :
    (pthreadMutexLock S id s).1 = .ret 0 ∧ Taken κ id (pthreadMutexLock S id s).2.mutex := by
  have hother : ¬ s.mutex.owner = id := by
    rw [h.owner]
    exact hid.symm
  rw [lock_basic h.kind]
  cases κ with
  | timed => exact lllLock_idle h (by simp)
  | recursive =>
    rw [if_neg hother]
    exact lllLock_idle h (by simp)
  | errorcheck =>
    simp only [if_neg hother]
    exact lllLock_idle h (by simp)
  | adaptive =>
    simp only [lockAdaptive, if_pos h.lock]
    exact lockTaken_ok h.kind locked_ne h.owner (by simp)

/-- A lock call sleeps, and leaves the mutex as it was but for the mark in its word. -/
def Blocked (κ : BasicKind) (s : State) (r : Outcome × State) : Prop :=
  ∃ t, r.1 = .sleeps (.lll t) ∧ (t = .recursive ↔ κ = .recursive) ∧
    r.2.mutex = { s.mutex with lock := lllLockInitializerWaiters }

/-- `LLL_MUTEX_LOCK` waits for a taken mutex. -/
theorem lllLock_blocked {κ : BasicKind} {id : ℕ} {t : LockTarget} {s : State}
    (hlock : s.mutex.lock ≠ lllLockInitializer) (ht : t = .recursive ↔ κ = .recursive) :
    Blocked κ s (lllLock id t s) := by
  rw [lllLock, if_neg hlock]
  exact ⟨t, rfl, ht, rfl⟩

/-- Locking a taken mutex that one does not own, or whose kind does not ask. -/
theorem lock_blocked {S : Sys} {κ : BasicKind} {id : ℕ} {s : State} (hkind : s.mutex.kind = κ.code)
    (hlock : s.mutex.lock ≠ lllLockInitializer) (hother : Checks κ → s.mutex.owner ≠ id) :
    Blocked κ s (pthreadMutexLock S id s) := by
  rw [lock_basic hkind]
  cases κ with
  | timed => exact lllLock_blocked hlock (by simp)
  | recursive =>
    simp only [if_neg (hother (.inl rfl))]
    exact lllLock_blocked hlock (by simp)
  | errorcheck =>
    simp only [if_neg (hother (.inr rfl))]
    exact lllLock_blocked hlock (by simp)
  | adaptive =>
    simp only [lockAdaptive, if_neg hlock]
    exact lllLock_blocked hlock (by simp)

/-- A lock that waits goes on waiting while the mutex is taken. -/
theorem resume_blocked {S : Sys} {κ : BasicKind} {id : ℕ} {t : LockTarget} {s : State}
    (hlock : s.mutex.lock ≠ lllLockInitializer) (ht : t = .recursive ↔ κ = .recursive) :
    Blocked κ s (resume S id (.lll t) s) := by
  simp only [resume, if_neg hlock]
  exact ⟨t, rfl, ht, rfl⟩

/-- A sleeper that finds the mutex free takes it. -/
theorem resume_idle {S : Sys} {κ : BasicKind} (id : ℕ) {t : LockTarget} {s : State}
    (h : Idle κ s.mutex) (ht : t = .recursive ↔ κ = .recursive) :
    (resume S id (.lll t) s).1 = .ret 0 ∧ Taken κ id (resume S id (.lll t) s).2.mutex := by
  simp only [resume, if_pos h.lock]
  exact lockTaken_ok h.kind waiters_ne h.owner ht

/-- A trylock of a basic kind. -/
theorem trylock_basic {S : Sys} {id : ℕ} {κ : BasicKind} {s : State}
    (hkind : s.mutex.kind = κ.code) :
    doMutexTrylock S id s =
      if κ = .recursive then trylockRecursive id s else trylockSimple id s :=
  doMutexTrylock_basic (by rw [hkind, typeElision_code])

/-- Trying a free mutex. -/
theorem trylock_idle {S : Sys} {κ : BasicKind} {id : ℕ} {s : State} (h : Idle κ s.mutex)
    (hid : id ≠ 0) :
    (doMutexTrylock S id s).1 = .ret 0 ∧ Taken κ id (doMutexTrylock S id s).2.mutex := by
  have hother : ¬ s.mutex.owner = id := by
    rw [h.owner]
    exact hid.symm
  rw [trylock_basic h.kind]
  split
  · simp only [trylockRecursive, if_neg hother, if_pos h.lock]
    exact ⟨trivial, h.kind, locked_ne, rfl, fun _ => rfl⟩
  · rename_i hκ
    simp only [trylockSimple, if_pos h.lock]
    exact ⟨trivial, h.kind, locked_ne, rfl,
      fun h => absurd h hκ⟩

/-- Trying a taken mutex that is not recursive, or not one's own. -/
theorem trylock_busy {S : Sys} {κ : BasicKind} (id : ℕ) {s : State} (hkind : s.mutex.kind = κ.code)
    (hlock : s.mutex.lock ≠ lllLockInitializer) (hother : κ = .recursive → s.mutex.owner ≠ id) :
    doMutexTrylock S id s = (.ret eBUSY, s) := by
  rw [trylock_basic hkind]
  split
  · rename_i hκ
    simp only [trylockRecursive, if_neg (hother hκ), if_neg hlock]
  · simp only [trylockSimple, if_neg hlock]

/-- An unlock of a basic kind. -/
theorem unlock_basic {S : Sys} {id : ℕ} {κ : BasicKind} {s : State}
    (hkind : s.mutex.kind = κ.code) :
    pthreadMutexUnlock S id s =
      match κ with
      | .recursive =>
        if s.mutex.owner ≠ id then (.ret ePERM, s)
        else if s.mutex.count - 1 ≠ 0 then
          (.ret 0, s.set { s.mutex with count := s.mutex.count - 1 })
        else unlockNormal (s.set { s.mutex with count := s.mutex.count - 1 })
      | .errorcheck =>
        if s.mutex.owner ≠ id ∨ s.mutex.lock = lllLockInitializer then (.ret ePERM, s)
        else unlockNormal s
      | .timed | .adaptive => unlockNormal s := by
  simp only [pthreadMutexUnlock, hkind, typeElision_code, type_code]
  cases κ <;> rfl

/-- Unlocking a mutex: by its holder, or where the kind does not ask. -/
theorem unlock_ok {S : Sys} {κ : BasicKind} (id : ℕ) {s : State} (hkind : s.mutex.kind = κ.code)
    (h : Checks κ → Taken κ id s.mutex) :
    (pthreadMutexUnlock S id s).1 = .ret 0 ∧ Idle κ (pthreadMutexUnlock S id s).2.mutex := by
  rw [unlock_basic hkind]
  cases κ with
  | timed | adaptive => exact ⟨rfl, hkind, rfl, rfl⟩
  | recursive =>
    have htaken := h (.inl rfl)
    have hcount : s.mutex.count - 1 = 0 := by
      rw [htaken.count rfl]
      rfl
    simp only [htaken.owner, hcount, ne_eq, not_true_eq_false, if_false]
    exact ⟨rfl, hkind, rfl, rfl⟩
  | errorcheck =>
    have htaken := h (.inr rfl)
    have hno : ¬ (s.mutex.owner ≠ id ∨ s.mutex.lock = lllLockInitializer) :=
      not_or.mpr ⟨not_not.mpr htaken.owner, htaken.lock⟩
    simp only [if_neg hno]
    exact ⟨rfl, hkind, rfl, rfl⟩

/-! ### Any kind is a plain lock -/

/-- The mutex is as the plain lock has it. -/
def MutexLike (κ : BasicKind) (id : ι → ℕ) : Option ι → MutexData → Prop
  | none, m => Idle κ m
  | some t, m => Taken κ (id t) m

/-- A process with a real mutex of kind `κ` is as the plain lock has it. -/
structure Refines (κ : BasicKind) (id : ι → ℕ) (p : Plain ι) (c : Process ι) : Prop where
  gone : c.gone = false
  real : ∃ m, c.real = some m ∧ MutexLike κ id p.holder m
  outside : ∀ t, p.waiting t = false → c.status t = .outside
  sleeping : ∀ t, p.waiting t = true →
    ∃ target, c.status t = .sleeping (.lll target) ∧ (target = .recursive ↔ κ = .recursive)

/-- A call of a thread ends, and the thread is outside. -/
theorem Refines.returned {κ : BasicKind} {id : ι → ℕ} {p : Plain ι} {c : Process ι} {t : ι}
    {r : Outcome × State} {code : ℕ} {holder : Option ι} (h : Refines κ id p c)
    (hcode : r.1 = .ret code) (hm : MutexLike κ id holder r.2.mutex) :
    (c.finish t r).1 = some (.ret code) ∧
      Refines κ id (p.after t holder false) (c.finish t r).2 := by
  obtain ⟨o, s⟩ := r
  simp only at hcode hm
  subst hcode
  refine ⟨rfl, rfl, ⟨_, rfl, hm⟩, ?_, ?_⟩
  · intro j hj
    by_cases hjt : j = t
    · rw [hjt]
      exact Function.update_self ..
    · simp only [Plain.after, Function.update_of_ne hjt] at hj
      simp only [Process.finish, Function.update_of_ne hjt]
      exact h.outside j hj
  · intro j hj
    by_cases hjt : j = t
    · rw [hjt] at hj
      simp [Plain.after] at hj
    · simp only [Plain.after, Function.update_of_ne hjt] at hj
      simp only [Process.finish, Function.update_of_ne hjt]
      exact h.sleeping j hj

/-- A call of a thread goes to sleep. -/
theorem Refines.blocked {κ : BasicKind} {id : ι → ℕ} {p : Plain ι} {c : Process ι} {t h₀ : ι}
    {s : State} {r : Outcome × State} (h : Refines κ id p c) (hblocked : Blocked κ s r)
    (hm : Taken κ (id h₀) s.mutex) :
    (c.finish t r).1 = some .blocks ∧
      Refines κ id (p.after t (some h₀) true) (c.finish t r).2 := by
  obtain ⟨o, s'⟩ := r
  obtain ⟨target, hcode, htarget, hmutex⟩ := hblocked
  simp only at hcode hmutex
  subst hcode
  have hm' : Taken κ (id h₀) s'.mutex := by
    rw [hmutex]
    exact ⟨hm.kind, waiters_ne, hm.owner,
      hm.count⟩
  refine ⟨rfl, rfl, ⟨_, rfl, hm'⟩, ?_, ?_⟩
  · intro j hj
    by_cases hjt : j = t
    · rw [hjt] at hj
      simp [Plain.after] at hj
    · simp only [Plain.after, Function.update_of_ne hjt] at hj
      simp only [Process.finish, Function.update_of_ne hjt]
      exact h.outside j hj
  · intro j hj
    by_cases hjt : j = t
    · rw [hjt]
      exact ⟨target, Function.update_self .., htarget⟩
    · simp only [Plain.after, Function.update_of_ne hjt] at hj
      simp only [Process.finish, Function.update_of_ne hjt]
      exact h.sleeping j hj

variable {id : ι → ℕ}

/-- A call on a free mutex. -/
theorem Refines.call_free {S : Sys} (hid : ∀ t, id t ≠ 0) {κ : BasicKind} {p : Plain ι}
    {c : Process ι} {t : ι} {op : CallOp} (h : Refines κ id p c) (hout : p.waiting t = false)
    (hholder : p.holder = none) (hdiffers : ¬ Differs κ p (.call t op)) :
    (Calls.serve S id (.call t op) c).1 = (p.serve (.call t op)).1 ∧
      Refines κ id (p.serve (.call t op)).2 (Calls.serve S id (.call t op) c).2 := by
  obtain ⟨m, hreal, hm⟩ := h.real
  rw [hholder] at hm
  have hidle : Idle κ m := hm
  unfold Calls.serve Plain.serve
  simp only [h.gone, Bool.false_eq_true, if_false, h.outside t hout, hreal, hout, hholder]
  cases op with
  | lock =>
    obtain ⟨hcode, htaken⟩ := lock_idle (S := S) (s := ⟨m, c.prio t, []⟩) hidle (hid t)
    exact h.returned hcode htaken
  | trylock =>
    obtain ⟨hcode, htaken⟩ := trylock_idle (S := S) (s := ⟨m, c.prio t, []⟩) hidle (hid t)
    exact h.returned hcode htaken
  | unlock =>
    -- nobody has the mutex, so that a kind that checks the owner would answer in its own way
    have hchecks : ¬ Checks κ := fun hκ => hdiffers ⟨hout, by simp [hholder], hκ⟩
    obtain ⟨hcode, hidle'⟩ := unlock_ok (S := S) (id t) (s := ⟨m, c.prio t, []⟩)
      hidle.kind (fun hκ => absurd hκ hchecks)
    exact h.returned hcode hidle'

/-- A call on a mutex that a thread has, this one or another. -/
theorem Refines.call_held {S : Sys} (hinj : Function.Injective id) {κ : BasicKind} {p : Plain ι}
    {c : Process ι} {t h₀ : ι} {op : CallOp} (h : Refines κ id p c) (hout : p.waiting t = false)
    (hholder : p.holder = some h₀) (hdiffers : ¬ Differs κ p (.call t op)) :
    (Calls.serve S id (.call t op) c).1 = (p.serve (.call t op)).1 ∧
      Refines κ id (p.serve (.call t op)).2 (Calls.serve S id (.call t op) c).2 := by
  obtain ⟨m, hreal, hm⟩ := h.real
  rw [hholder] at hm
  have htaken : Taken κ (id h₀) m := hm
  -- where the caller's own mutex is treated apart, the owner is somebody else
  have hother : ∀ {q : Prop}, (p.holder = some t → ¬ q) → q → m.owner ≠ id t := by
    intro q hq hq' howner
    refine hq ?_ hq'
    rw [hholder, hinj (htaken.owner.symm.trans howner)]
  unfold Calls.serve Plain.serve
  simp only [h.gone, Bool.false_eq_true, if_false, h.outside t hout, hreal, hout, hholder]
  cases op with
  | lock =>
    refine h.blocked (lock_blocked (s := ⟨m, c.prio t, []⟩) htaken.kind htaken.lock ?_) htaken
    exact hother fun hsome hκ => hdiffers ⟨hout, hsome, hκ⟩
  | trylock =>
    have hbusy := trylock_busy (S := S) (id t) (s := ⟨m, c.prio t, []⟩) htaken.kind
      htaken.lock (hother fun hsome hκ => hdiffers ⟨hout, hsome, hκ⟩)
    have hcode : (doMutexTrylock S (id t) ⟨m, c.prio t, []⟩).1 = .ret eBUSY := by rw [hbusy]
    have hkept : Taken κ (id h₀) (doMutexTrylock S (id t) ⟨m, c.prio t, []⟩).2.mutex := by
      rw [hbusy]
      exact htaken
    exact h.returned hcode hkept
  | unlock =>
    -- a kind that checks the owner finds the caller
    have hchecks : Checks κ → Taken κ (id t) m := by
      intro hκ
      have hsome : p.holder = some t := by
        by_contra hne
        exact hdiffers ⟨hout, hne, hκ⟩
      rw [hholder] at hsome
      rwa [← Option.some.inj hsome]
    obtain ⟨hcode, hidle⟩ := unlock_ok (S := S) (id t) (s := ⟨m, c.prio t, []⟩) htaken.kind hchecks
    exact h.returned hcode hidle

/-- A wake-up of a thread that sleeps in a lock call. -/
theorem Refines.wake {S : Sys} {κ : BasicKind} {p : Plain ι} {c : Process ι} {t : ι}
    (h : Refines κ id p c) (hwait : p.waiting t = true) :
    (Calls.serve S id (.wake t) c).1 = (p.serve (.wake t)).1 ∧
      Refines κ id (p.serve (.wake t)).2 (Calls.serve S id (.wake t) c).2 := by
  obtain ⟨m, hreal, hm⟩ := h.real
  obtain ⟨target, hst, htarget⟩ := h.sleeping t hwait
  unfold Calls.serve Plain.serve
  simp only [h.gone, Bool.false_eq_true, if_false, hst, hreal, hwait, if_true]
  cases hholder : p.holder with
  | none =>
    rw [hholder] at hm
    obtain ⟨hcode, htaken⟩ := resume_idle (S := S) (id t) (s := ⟨m, c.prio t, []⟩) hm htarget
    exact h.returned hcode htaken
  | some h₀ =>
    rw [hholder] at hm
    have htaken : Taken κ (id h₀) m := hm
    exact h.blocked (resume_blocked (s := ⟨m, c.prio t, []⟩) htaken.lock htarget) htaken

/-- **A mutex of any basic kind is a plain lock**, up to the calls that it answers in its own
    way. -/
theorem Refines.serve {S : Sys} (hid : ∀ t, id t ≠ 0) (hinj : Function.Injective id)
    {κ : BasicKind} {p : Plain ι} {c : Process ι} {e : Event ι} (h : Refines κ id p c)
    (hdiffers : ¬ Differs κ p e) :
    (Calls.serve S id e c).1 = (p.serve e).1 ∧
      Refines κ id (p.serve e).2 (Calls.serve S id e c).2 := by
  cases e with
  | call t op =>
    by_cases hwait : p.waiting t = true
    · -- the thread is in a call already
      obtain ⟨target, hst, -⟩ := h.sleeping t hwait
      unfold Calls.serve Plain.serve
      simp only [h.gone, Bool.false_eq_true, if_false, hst, hwait, if_true]
      exact ⟨trivial, h⟩
    · have hout := Bool.eq_false_iff.mpr hwait
      cases hholder : p.holder with
      | none => exact h.call_free hid hout hholder hdiffers
      | some h₀ => exact h.call_held hinj hout hholder hdiffers
  | wake t =>
    by_cases hwait : p.waiting t = true
    · exact h.wake hwait
    · have hst := h.outside t (Bool.eq_false_iff.mpr hwait)
      unfold Calls.serve Plain.serve
      simp only [h.gone, Bool.false_eq_true, if_false, hst, hwait]
      exact ⟨trivial, h⟩

/-- The calls that a mutex answers in its own way it answers otherwise than the plain lock. -/
theorem Refines.differs {S : Sys} (hid : ∀ t, id t ≠ 0) (hinj : Function.Injective id)
    {κ : BasicKind} {p : Plain ι} {c : Process ι} {e : Event ι} (h : Refines κ id p c)
    (hdiffers : Differs κ p e) : (Calls.serve S id e c).1 ≠ (p.serve e).1 := by
  obtain ⟨m, hreal, hm⟩ := h.real
  cases e with
  | wake t => exact hdiffers.elim
  | call t op =>
    cases op with
    | lock =>
      obtain ⟨hwait, hholder, hκ⟩ := hdiffers
      rw [hholder] at hm
      have htaken : Taken κ (id t) m := hm
      unfold Calls.serve Plain.serve
      simp only [h.gone, Bool.false_eq_true, if_false, h.outside t hwait, hreal,
        Option.getD_some, hwait, hholder, Process.finish]
      rw [lock_basic htaken.kind]
      rcases hκ with rfl | rfl
      · simp only [if_pos htaken.owner, bumpCount_one (s := ⟨m, c.prio t, []⟩) (htaken.count rfl)]
        decide
      · simp only [if_pos htaken.owner]
        decide
    | trylock =>
      obtain ⟨hwait, hholder, rfl⟩ := hdiffers
      rw [hholder] at hm
      have htaken : Taken .recursive (id t) m := hm
      unfold Calls.serve Plain.serve
      simp only [h.gone, Bool.false_eq_true, if_false, h.outside t hwait, hreal,
        Option.getD_some, hwait, hholder, Process.finish]
      rw [trylock_basic htaken.kind]
      simp only [if_true, trylockRecursive, if_pos htaken.owner,
        bumpCount_one (s := ⟨m, c.prio t, []⟩) (htaken.count rfl)]
      decide
    | unlock =>
      obtain ⟨hwait, hholder, hκ⟩ := hdiffers
      have howner : m.owner ≠ id t ∧ m.kind = κ.code := by
        cases hh : p.holder with
        | none =>
          rw [hh] at hm
          have hidle : Idle κ m := hm
          exact ⟨hidle.owner ▸ (hid t).symm, hidle.kind⟩
        | some h₀ =>
          rw [hh] at hm hholder
          have htaken : Taken κ (id h₀) m := hm
          refine ⟨fun heq => hholder ?_, htaken.kind⟩
          rw [hinj (htaken.owner.symm.trans heq)]
      unfold Calls.serve Plain.serve
      simp only [h.gone, Bool.false_eq_true, if_false, h.outside t hwait, hreal, hwait,
        Process.finish]
      rw [unlock_basic howner.2]
      rcases hκ with rfl | rfl
      · simp only [if_pos howner.1]
        decide
      · simp only [if_pos (Or.inl howner.1 : _ ∨ m.lock = lllLockInitializer)]
        decide

/-! ### The two mutexes -/

/-- A mutex with a static initialiser is a normal one, made by the first lock or trylock. -/
def StaticRefines (id : ι → ℕ) (p : Plain ι) (c : Process ι) : Prop :=
  p.fresh = false ∧ Refines .timed id p c ∨
    p.fresh = true ∧ c.real = none ∧ (∀ t, p.waiting t = false) ∧
      Refines .timed id p { c with real := some {} }

omit [DecidableEq ι] in
/-- A timed mutex does not differ from the one that the code makes. -/
theorem not_differs_timed (p : Plain ι) (e : Event ι) : ¬ Differs .timed p e := by
  cases e with
  | wake t => exact id
  | call t op => cases op <;> simp [Differs, Checks]

/-- It answers as a plain lock, unless an unlock comes first. -/
theorem StaticRefines.serve {S : Sys} (hid : ∀ t, id t ≠ 0) (hinj : Function.Injective id)
    {p : Plain ι} {c : Process ι} {e : Event ι} (h : StaticRefines id p c)
    (hunlock : ¬ (p.fresh = true ∧ ∃ t, e = .call t .unlock)) :
    (Calls.serve S id e c).1 = (p.serve e).1 ∧
      StaticRefines id (p.serve e).2 (Calls.serve S id e c).2 := by
  rcases h with ⟨hfresh, hrefines⟩ | ⟨hfresh, hreal, hwaiting, hrefines⟩
  · obtain ⟨hanswer, hrefines'⟩ := hrefines.serve (S := S) hid hinj (not_differs_timed p e)
    refine ⟨hanswer, .inl ⟨?_, hrefines'⟩⟩
    cases e with
    | wake t =>
      simp only [Plain.serve]
      split
      · split <;> rfl
      · exact hfresh
    | call t op =>
      simp only [Plain.serve]
      split
      · exact hfresh
      · split <;> rfl
  · have hst : ∀ t, c.status t = .outside := fun t => hrefines.outside t (hwaiting t)
    have hgone : c.gone = false := hrefines.gone
    cases e with
    | wake t =>
      unfold Calls.serve Plain.serve
      simp only [hgone, Bool.false_eq_true, if_false, hst, hwaiting]
      exact ⟨trivial, .inr ⟨hfresh, hreal, hwaiting, hrefines⟩⟩
    | call t op =>
      -- the new slot is a normal mutex
      have hserve : op ≠ .unlock →
          Calls.serve S id (.call t op) c =
            Calls.serve S id (.call t op) { c with real := some {} } := by
        intro hop
        unfold Calls.serve
        simp only [hgone, Bool.false_eq_true, if_false, hst, hreal]
        cases op with
        | unlock => exact absurd rfl hop
        | lock | trylock => rfl
      have hop : op ≠ .unlock := by
        rintro rfl
        exact hunlock ⟨hfresh, t, rfl⟩
      obtain ⟨hanswer, hrefines'⟩ :=
        hrefines.serve (S := S) hid hinj (not_differs_timed p (.call t op))
      rw [hserve hop]
      refine ⟨hanswer, .inl ⟨?_, hrefines'⟩⟩
      unfold Plain.serve
      simp only [hwaiting, Bool.false_eq_true, if_false]
      split <;> rfl

/-- An unlock of a mutex of any kind returns. -/
theorem unlock_returns {S : Sys} {κ : BasicKind} (id : ℕ) {s : State}
    (hkind : s.mutex.kind = κ.code) : ∃ code, (pthreadMutexUnlock S id s).1 = .ret code := by
  rw [unlock_basic hkind]
  cases κ with
  | timed | adaptive => exact ⟨0, rfl⟩
  | recursive =>
    simp only
    split
    · exact ⟨ePERM, rfl⟩
    · split <;> exact ⟨0, rfl⟩
  | errorcheck =>
    simp only
    split
    · exact ⟨ePERM, rfl⟩
    · exact ⟨0, rfl⟩

omit [DecidableEq ι] in
/-- The kind of the mutex is the one it was made with. -/
theorem MutexLike.kind {κ : BasicKind} {holder : Option ι} {m : MutexData}
    (h : MutexLike κ id holder m) : m.kind = κ.code := by
  cases holder with
  | none => exact Idle.kind h
  | some t => exact Taken.kind h

/-- An unlock that comes first fails an assertion on a static initialiser only. -/
theorem first_unlock {S : Sys} {κ : BasicKind} {p : Plain ι} {c d : Process ι} {t : ι}
    (hc : StaticRefines id p c) (hd : Refines κ id p d) (hfresh : p.fresh = true) :
    (serve S id (.call t .unlock) c).1 ≠ (serve S id (.call t .unlock) d).1 := by
  rcases hc with ⟨hfresh', -⟩ | ⟨-, hreal, hwaiting, hrefines⟩
  · rw [hfresh] at hfresh'
    exact absurd hfresh' (by decide)
  · have hgone : c.gone = false := hrefines.gone
    have hst : c.status t = .outside := hrefines.outside t (hwaiting t)
    obtain ⟨m, hm, hlike⟩ := hd.real
    obtain ⟨code, hcode⟩ :=
      unlock_returns (S := S) (id t) (s := ⟨m, d.prio t, []⟩) hlike.kind
    unfold Calls.serve
    simp only [hgone, hd.gone, Bool.false_eq_true, if_false, hst, hreal, hm,
      hd.outside t (hwaiting t), Process.finish, hcode, Outcome.answer]
    simp

/-- The next call tells the two mutexes apart exactly when it is one that does. -/
theorem answer_eq_iff {S : Sys} (hid : ∀ t, id t ≠ 0) (hinj : Function.Injective id)
    {κ : BasicKind} {p : Plain ι} {c d : Process ι} {e : Event ι} (hc : StaticRefines id p c)
    (hd : Refines κ id p d) :
    (serve S id e c).1 = (serve S id e d).1 ↔ ¬ Tells κ p e := by
  by_cases hunlock : p.fresh = true ∧ ∃ t, e = .call t .unlock
  · obtain ⟨hfresh, t, rfl⟩ := hunlock
    have htells : Tells κ p (.call t .unlock) := .inr ⟨hfresh, t, rfl⟩
    exact iff_of_false (first_unlock hc hd hfresh) (not_not.mpr htells)
  · rw [(hc.serve (S := S) hid hinj hunlock).1]
    by_cases hdiffers : Differs κ p e
    · exact iff_of_false (hd.differs hid hinj hdiffers).symm (not_not.mpr (.inl hdiffers))
    · refine iff_of_true (hd.serve hid hinj hdiffers).1.symm ?_
      rintro (h | h)
      · exact hdiffers h
      · exact hunlock h

/-- Two mutexes that are as the same plain lock answer alike up to the first call that tells them
    apart. -/
theorem answers_eq_iff {S : Sys} (hid : ∀ t, id t ≠ 0) (hinj : Function.Injective id)
    {κ : BasicKind} (es : List (Event ι)) {p : Plain ι} {c d : Process ι}
    (hc : StaticRefines id p c) (hd : Refines κ id p d) :
    (trace S id es c).map Prod.fst = (trace S id es d).map Prod.fst ↔ Unobserved κ p es := by
  induction es generalizing p c d with
  | nil => exact iff_of_true rfl trivial
  | cons e es ih =>
    simp only [trace, List.map_cons, List.cons.injEq, Unobserved, answer_eq_iff hid hinj hc hd]
    refine and_congr_right fun hno => ?_
    obtain ⟨hdiffers, hunlock⟩ := not_or.mp hno
    exact ih (hc.serve hid hinj hunlock).2 (hd.serve hid hinj hdiffers).2

omit [DecidableEq ι] in
/-- A mutex that `pthread_mutex_init` made is a free one. -/
theorem initialised_refines (κ : BasicKind) : Refines κ id {} (initialised κ.code) where
  gone := rfl
  real := ⟨_, rfl, by cases κ <;> exact ⟨rfl, rfl, rfl⟩⟩
  outside := fun _ _ => rfl
  sleeping := fun _ h => absurd h Bool.false_ne_true

omit [DecidableEq ι] in
/-- A static mutex before its first use. -/
theorem static_refines (κ : BasicKind) : StaticRefines id {} (static κ.code) :=
  .inr ⟨rfl, rfl, fun _ => rfl, rfl, ⟨_, rfl, rfl, rfl, rfl⟩, fun _ _ => rfl,
    fun _ h => absurd h Bool.false_ne_true⟩

/-- **A static initialiser does not keep its kind.**  A sequence of calls is answered on it as on a
    mutex of `pthread_mutex_init` with the same kind exactly when no unlock comes first, and there
    is no nested acquisition and no unlock by another thread that the kind would have to notice. -/
theorem static_kind_iff (S : Sys) (id : ι ↪ Tid) (κ : BasicKind) (es : List (Event ι)) :
    (trace S (fun t => (id t).val) es (static κ.code)).map Prod.fst =
        (trace S (fun t => (id t).val) es (initialised κ.code)).map Prod.fst ↔
      Unobserved κ {} es :=
  answers_eq_iff (fun t => (id t).property.1.ne') (fun _ _ h => id.injective (Subtype.ext h)) es
    (static_refines κ) (initialised_refines κ)

/-- A recursive mutex that one thread locks twice: with a static initialiser the thread waits for
    itself. -/
theorem static_recursive_blocks :
    let es : List (Event Unit) := [.call () .lock, .call () .lock]
    (trace linuxSys (fun _ => 5) es (static BasicKind.recursive.code)).map Prod.fst =
        [some (.ret 0), some .blocks] ∧
      (trace linuxSys (fun _ => 5) es (initialised BasicKind.recursive.code)).map Prod.fst =
        [some (.ret 0), some (.ret 0)] := by
  decide

end SyncPerf.Calls
