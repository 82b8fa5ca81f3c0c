import SyncPerf.PrioBalance
import SyncPerf.ProcessShared

namespace SyncPerf.PrioProtect

open Calls

/-!
# Which priority-protect mutexes can be used

`pthread_mutex_init` copies the ceiling of an attribute into the lock word as it is: the code that
raises a ceiling of 0 to the lowest priority of `SCHED_FIFO` is commented out.  The calls take the
ceiling out of the word again, and hand it to `__pthread_tpp_change_priority`, which asserts that it
is a priority of `SCHED_FIFO`.

* `answers` — sequences of calls in which the kernel and the C library answer every call anew;
* `CeilingWord`, `Keeps`, `Sound` — the ceiling stays in the word, and the waits are for it;
* `lockPp_first` — the first lock call;
* `Usable`, `protect_usable` — what a mutex is for, and which attributes give one.
-/

/-! ### Sequences of calls -/

section Answers

variable {ι : Type} [DecidableEq ι]

/-- The answers of a sequence of calls and wake-ups. -/
def answers (id : ι → ℕ) : List (Sys × Calls.Event ι) → Process ι → List (Option Answer)
  | [], _ => []
  | (S, e) :: es, p => (serve S id e p).1 :: answers id es (serve S id e p).2

end Answers

/-! ### The ceiling stays in the word -/

/-- The word of a priority-protect mutex holds the ceiling, and low bits. -/
structure CeilingWord (ceiling : ℕ) (κ : BasicKind) (m : MutexData) : Prop where
  kind : m.kind = Protocol.protect.code κ
  lock : ∃ b ≤ 2, m.lock = ceilvalOf ceiling + b

/-- The end of a call: the word is as before, a wait is for the ceiling, and no assertion about a
    priority has failed. -/
structure Keeps (ceiling : ℕ) (κ : BasicKind) (r : Outcome × State) : Prop where
  word : CeilingWord ceiling κ r.2.mutex
  waits : ∀ w, r.1 = .sleeps w → w = .ceiling (ceilvalOf ceiling)
  inRange : ∀ a, r.1 ≠ .abort (.prio a)

/-- A priority of `SCHED_FIFO`. -/
def Sched.Has (S : Sched) (ceiling : ℕ) : Prop :=
  S.fifoMinPrio ≤ ceiling ∧ (ceiling : ℤ) ≤ S.fifoMaxPrio

/-- The assertions hold of priorities of `SCHED_FIFO`. -/
theorem tppChangePriority_ok {S : Sched} (previousPrio newPrio : ℤ) (p : Prio)
    (hnew : newPrio = -1 ∨ S.fifoMinPrio ≤ newPrio ∧ newPrio ≤ S.fifoMaxPrio)
    (hprevious : previousPrio = -1 ∨
      S.fifoMinPrio ≤ previousPrio ∧ previousPrio ≤ S.fifoMaxPrio) :
    ∃ r, tppChangePriority S previousPrio newPrio p = .ok r := by
  unfold tppChangePriority
  split
  · exact ⟨_, rfl⟩
  · rw [if_neg (not_not.mpr hnew), if_neg (not_not.mpr hprevious)]
    split
    · exact ⟨_, rfl⟩
    · split <;> exact ⟨_, rfl⟩

/-- The assertions hold when a thread is raised to a priority of `SCHED_FIFO`. -/
theorem Sched.Has.raise {S : Sched} {ceiling : ℕ} (hS : Sched.Has S ceiling) (p : Prio) :
    ∃ r, tppChangePriority S (-1) ceiling p = .ok r :=
  tppChangePriority_ok (-1) ceiling p (.inr hS) (.inl rfl)

/-- And when it falls back from it. -/
theorem Sched.Has.lower {S : Sched} {ceiling : ℕ} (hS : Sched.Has S ceiling) (p : Prio) :
    ∃ r, tppChangePriority S ceiling (-1) p = .ok r :=
  tppChangePriority_ok ceiling (-1) p (.inl rfl) (.inr hS)

section Calls

variable {S : Sys} {id ceiling : ℕ} {κ : BasicKind} {s : State}

namespace CeilingWord

variable {m m' : MutexData}

/-- What does not touch the word and the kind. -/
theorem beside (h : CeilingWord ceiling κ m) (hkind : m'.kind = m.kind)
    (hlock : m'.lock = m.lock) : CeilingWord ceiling κ m' :=
  ⟨hkind.trans h.kind, by rw [hlock]; exact h.lock⟩

/-- A new word with the same ceiling. -/
theorem mark (h : CeilingWord ceiling κ m) (hkind : m'.kind = m.kind) {b : ℕ} (hb : b ≤ 2)
    (hlock : m'.lock = ceilvalOf ceiling ||| b) : CeilingWord ceiling κ m' :=
  ⟨hkind.trans h.kind, b, hb, hlock.trans (ceilval_or hb)⟩

/-- The ceiling bits of the word. -/
theorem and_mask (h : CeilingWord ceiling κ m) (hc : ceiling < 4096) :
    m.lock &&& prioCeilingMask = ceilvalOf ceiling := by
  obtain ⟨b, hb, hlock⟩ := h.lock
  rw [hlock, ceilval_and hc hb]

/-- The ceiling of the word. -/
theorem ceilingOf_lock (h : CeilingWord ceiling κ m) (hc : ceiling < 4096) :
    (m.lock &&& prioCeilingMask) >>> prioCeilingShift = ceiling := by
  obtain ⟨b, hb, hlock⟩ := h.lock
  rw [hlock]
  exact ceilingOf_add hc hb

end CeilingWord

/-- A call that returns. -/
theorem Keeps.ret {code : ℕ} (h : CeilingWord ceiling κ s.mutex) :
    Keeps ceiling κ (.ret code, s) :=
  ⟨h, fun _ heq => absurd heq Outcome.noConfusion, fun _ heq => absurd heq Outcome.noConfusion⟩

/-- A call that fails another assertion. -/
theorem Keeps.abort {f : Fault} (h : CeilingWord ceiling κ s.mutex) (hf : ∀ a, f ≠ .prio a) :
    Keeps ceiling κ (.abort f, s) :=
  ⟨h, fun _ heq => absurd heq Outcome.noConfusion, fun a heq => hf a (Outcome.abort.inj heq)⟩

/-- A deeper level keeps the ceiling. -/
theorem bumpCount_keeps (h : CeilingWord ceiling κ s.mutex) : Keeps ceiling κ (bumpCount s) := by
  unfold bumpCount
  split
  · exact .ret h
  · exact .ret (h.beside rfl rfl)

/-- The end of a lock keeps the ceiling. -/
theorem lockPpTaken_keeps (h : CeilingWord ceiling κ s.mutex) :
    Keeps ceiling κ (lockPpTaken id s) := by
  unfold lockPpTaken
  split
  · exact .abort h fun _ heq => by cases heq
  · exact .ret (h.beside rfl rfl)

/-- A lock that waits keeps the ceiling. -/
theorem lockPpWait_keeps (h : CeilingWord ceiling κ s.mutex) :
    Keeps ceiling κ (lockPpWait (ceilvalOf ceiling) s) := by
  refine ⟨?_, fun w heq => (Outcome.sleeps.inj heq).symm, fun _ heq => absurd heq
    Outcome.noConfusion⟩
  by_cases hone : s.mutex.lock = ceilvalOf ceiling ||| 1
  · exact h.mark rfl le_rfl (if_pos hone)
  · exact h.beside rfl (if_neg hone)

/-- **The priority-protect case of a lock call.** -/
theorem lockPp_keeps (h : CeilingWord ceiling κ s.mutex) (hc : ceiling < 4096)
    (hS : Sched.Has S.toSched ceiling) : Keeps ceiling κ (lockPp S id κ s) := by
  unfold lockPp
  split
  · exact .ret h
  split
  · exact bumpCount_keeps h
  simp only [h.ceilingOf_lock hc]
  split
  · exact .ret h
  obtain ⟨⟨code, prio⟩, hraise⟩ := hS.raise (pthreadCurrentPriority S.toSched s.prio).2
  rw [hraise]
  simp only
  split
  · exact .ret h
  split
  · exact lockPpTaken_keeps (h.mark rfl (by omega) rfl)
  · exact lockPpWait_keeps h

/-- **The priority-protect case of a trylock call.** -/
theorem trylockPp_keeps (h : CeilingWord ceiling κ s.mutex) (hc : ceiling < 4096)
    (hS : Sched.Has S.toSched ceiling) : Keeps ceiling κ (trylockPp S id κ s) := by
  unfold trylockPp
  split
  · exact .ret h
  split
  · exact bumpCount_keeps h
  simp only [h.ceilingOf_lock hc]
  split
  · exact .ret h
  obtain ⟨⟨code, prio⟩, hraise⟩ := hS.raise (pthreadCurrentPriority S.toSched s.prio).2
  rw [hraise]
  simp only
  split
  · exact .ret h
  split
  · obtain ⟨⟨_, prio'⟩, hlower⟩ := hS.lower prio
    rw [hlower]
    exact .ret h
  split
  · exact .abort (h.mark rfl (by omega) rfl) fun _ heq => by cases heq
  · exact .ret (h.mark rfl (b := 1) (by omega) rfl)

/-- **The release** takes the low bits off. -/
theorem unlockPp_keeps (h : CeilingWord ceiling κ s.mutex) (hc : ceiling < 4096)
    (hS : Sched.Has S.toSched ceiling) : Keeps ceiling κ (unlockPp S s) := by
  unfold unlockPp
  simp only [h.and_mask hc, ceilval_toInt hc]
  obtain ⟨⟨code, prio⟩, hlower⟩ := hS.lower s.prio
  rw [hlower]
  exact .ret ⟨h.kind, 0, by omega, rfl⟩

/-- A lock on a mutex with priority protection. -/
theorem pthreadMutexLock_protect (h : s.mutex.kind = Protocol.protect.code κ) :
    Calls.pthreadMutexLock S id s = lockPp S id κ s := by
  simp only [Calls.pthreadMutexLock, h, switchKind_protocol, protocolOf_code, basicOf_code]

/-- A lock keeps the ceiling. -/
theorem pthreadMutexLock_keeps (h : CeilingWord ceiling κ s.mutex) (hc : ceiling < 4096)
    (hS : Sched.Has S.toSched ceiling) : Keeps ceiling κ (Calls.pthreadMutexLock S id s) := by
  rw [pthreadMutexLock_protect h.kind]
  exact lockPp_keeps h hc hS

/-- A trylock keeps the ceiling. -/
theorem doMutexTrylock_keeps (h : CeilingWord ceiling κ s.mutex) (hc : ceiling < 4096)
    (hS : Sched.Has S.toSched ceiling) : Keeps ceiling κ (doMutexTrylock S id s) := by
  have hkind : pthreadMutexTypeElision s.mutex.kind = Protocol.protect.code κ := by
    rw [h.kind, typeElision_protocol]
  rw [doMutexTrylock_protocol hkind]
  exact trylockPp_keeps h hc hS

/-- The unlock of a recursive mutex keeps the ceiling. -/
theorem unlockPpRecursive_keeps (h : CeilingWord ceiling κ s.mutex) (hc : ceiling < 4096)
    (hS : Sched.Has S.toSched ceiling) : Keeps ceiling κ (unlockPpRecursive S id s) := by
  unfold unlockPpRecursive
  split
  · exact .ret h
  simp only
  split
  · exact .ret (h.beside rfl rfl)
  · exact unlockPp_keeps (h.beside rfl rfl) hc hS

/-- An unlock keeps the ceiling. -/
theorem pthreadMutexUnlock_keeps (h : CeilingWord ceiling κ s.mutex) (hc : ceiling < 4096)
    (hS : Sched.Has S.toSched ceiling) : Keeps ceiling κ (pthreadMutexUnlock S id s) := by
  have htype : pthreadMutexType s.mutex.kind = Protocol.protect.code κ := by
    rw [h.kind, type_protocol]
  rw [pthreadMutexUnlock_protocol htype]
  simp only [pthreadMutexUnlockFull, h.kind, type_protocol, switchKind_protocol,
    protocolOf_code, basicOf_code]
  cases κ with
  | recursive => exact unlockPpRecursive_keeps h hc hS
  | errorcheck =>
    simp only
    split
    · exact .ret h
    · exact unlockPp_keeps h hc hS
  | timed | adaptive => exact unlockPp_keeps h hc hS

/-- A wait for the ceiling goes on. -/
theorem resume_keeps (h : CeilingWord ceiling κ s.mutex) :
    Keeps ceiling κ (resume S id (.ceiling (ceilvalOf ceiling)) s) := by
  unfold resume
  simp only
  split
  · exact lockPpTaken_keeps (h.mark rfl le_rfl rfl)
  · exact lockPpWait_keeps h

end Calls

/-! ### Sequences keep it -/

section Sequences

variable {ι : Type} [DecidableEq ι] {id : ι → ℕ} {ceiling : ℕ} {κ : BasicKind} {S : Sys}
  {p : Process ι}

/-- The word of the mutex is one, and the threads that sleep wait for its ceiling. -/
structure Sound (ceiling : ℕ) (κ : BasicKind) (p : Process ι) : Prop where
  real : ∃ m, p.real = some m ∧ CeilingWord ceiling κ m
  waits : ∀ t w, p.status t = .sleeping w → w = .ceiling (ceilvalOf ceiling)

/-- The end of a call. -/
theorem Sound.finish (hp : Sound ceiling κ p) (t : ι) {r : Outcome × State}
    (hr : Keeps ceiling κ r) : Sound ceiling κ (p.finish t r).2 := by
  refine ⟨⟨_, rfl, hr.word⟩, fun u w hstatus => ?_⟩
  have hstatus' : Function.update p.status t r.1.status u = .sleeping w := hstatus
  by_cases hu : u = t
  · rw [hu, Function.update_self] at hstatus'
    refine hr.waits w ?_
    cases hout : r.1 with
    | sleeps w' =>
      rw [hout] at hstatus'
      rw [Status.sleeping.inj hstatus']
    | ret code | hangs | abort f =>
      rw [hout] at hstatus'
      cases hstatus'
  · rw [Function.update_of_ne hu] at hstatus'
    exact hp.waits u w hstatus'

/-- Its answer. -/
theorem Keeps.answer {r : Outcome × State} (hr : Keeps ceiling κ r) (a : PrioAssert) :
    r.1.answer ≠ .abort (.prio a) := by
  have hin := hr.inRange a
  cases hout : r.1 with
  | abort f =>
    rw [hout] at hin
    exact fun heq => hin (congrArg Outcome.abort (Answer.abort.inj heq))
  | ret code | sleeps w | hangs => exact fun heq => absurd heq Answer.noConfusion

/-- **One event** keeps the process sound. -/
theorem Sound.serve (hp : Sound ceiling κ p) (id : ι → ℕ) (hc : ceiling < 4096)
    (hS : Sched.Has S.toSched ceiling) (e : Calls.Event ι) :
    Sound ceiling κ (serve S id e p).2 ∧
      ∀ a, (Calls.serve S id e p).1 ≠ some (.abort (.prio a)) := by
  obtain ⟨m, hreal, hm⟩ := hp.real
  have hend : ∀ t {r : Outcome × State}, Keeps ceiling κ r → Sound ceiling κ (p.finish t r).2 ∧
      ∀ a, (p.finish t r).1 ≠ some (.abort (.prio a)) := fun t r hr =>
    ⟨hp.finish t hr, fun a heq => hr.answer a (Option.some.inj heq)⟩
  have hnone : Sound ceiling κ p ∧ ∀ a, none ≠ some (Answer.abort (.prio a)) :=
    ⟨hp, fun a heq => by cases heq⟩
  unfold Calls.serve
  split
  · exact hnone
  cases e with
  | call t op =>
    simp only [hreal]
    cases hstatus : p.status t with
    | outside =>
      cases op with
      | lock => exact hend t (pthreadMutexLock_keeps hm hc hS)
      | trylock => exact hend t (doMutexTrylock_keeps hm hc hS)
      | unlock => exact hend t (pthreadMutexUnlock_keeps hm hc hS)
    | sleeping w | hanging => exact hnone
  | wake t =>
    simp only [hreal]
    cases hstatus : p.status t with
    | sleeping w =>
      obtain rfl := hp.waits t w hstatus
      exact hend t (resume_keeps hm)
    | outside | hanging => exact hnone

/-- **A sequence** violates no assertion about a priority. -/
theorem Sound.answers (hp : Sound ceiling κ p) (hc : ceiling < 4096)
    {es : List (Sys × Calls.Event ι)} (hes : ∀ x ∈ es, Sched.Has x.1.toSched ceiling)
    (a : PrioAssert) : some (.abort (.prio a)) ∉ answers id es p := by
  induction es generalizing p with
  | nil => exact List.not_mem_nil
  | cons x es ih =>
    obtain ⟨S, e⟩ := x
    obtain ⟨hnext, hno⟩ := hp.serve id hc (hes _ List.mem_cons_self) e
    rw [PrioProtect.answers, List.mem_cons, not_or]
    exact ⟨fun heq => hno a heq.symm, ih hnext fun x hx => hes x (List.mem_cons_of_mem _ hx)⟩

end Sequences

/-! ### The first lock call -/

/-- The counters have room for one more mutex with this ceiling. -/
def HasRoom (S : Sched) (p : Prio) (ceiling : ℕ) : Prop :=
  ∃ tpp, p.tppData S = some tpp ∧ tpp.priomap ((ceiling : ℤ) - S.fifoMinPrio).toNat + 1 ≠ 0

/-- **Raising the priority to a ceiling** needs one in the range, and room in the counters. -/
theorem tppChangePriority_raise_iff {S : Sched} {fifoMinPrio fifoMaxPrio : ℤ}
    (hS : S.Succeeds fifoMinPrio fifoMaxPrio) {ceiling : ℕ} (hmax : (ceiling : ℤ) ≤ fifoMaxPrio)
    (p : Prio) :
    (∃ p', tppChangePriority S (-1) ceiling p = .ok (0, p')) ↔
      fifoMinPrio ≤ ceiling ∧ HasRoom S p ceiling := by
  have hne : (ceiling : ℤ) ≠ -1 := by omega
  constructor
  · rintro ⟨p', hcall⟩
    unfold tppChangePriority at hcall
    split at hcall
    · have hcode : eNOMEM = 0 := congrArg Prod.fst (Except.ok.inj hcall)
      exact absurd hcode (by decide)
    · rename_i tpp htpp
      split at hcall
      · cases hcall
      · rename_i hrange
        have hin := (not_not.mp hrange).resolve_left hne
        refine ⟨hS.min ▸ hin.1, tpp, htpp, fun hfull => ?_⟩
        have hnone : tpp.change S.fifoMinPrio (-1) ceiling = none := by
          simp only [PriorityProtectionData.change, hfull, ne_eq, hne, not_false_eq_true, and_self,
            if_true]
        rw [hnone] at hcall
        simp only [true_or, not_true_eq_false, if_false] at hcall
        have hcode : eAGAIN = 0 := congrArg Prod.fst (Except.ok.inj hcall)
        exact absurd hcode (by decide)
  · rintro ⟨hmin, tpp, htpp, hroom⟩
    rw [hS.min] at hroom
    obtain ⟨r, hchange⟩ : ∃ r, tpp.change fifoMinPrio (-1) ceiling = some r := by
      simp only [PriorityProtectionData.change, ne_eq, hne, not_false_eq_true, true_and, hroom,
        if_false, if_true]
      exact ⟨_, rfl⟩
    obtain ⟨p', hcall, -⟩ := tppChangePriority_of_change hS htpp (.inr ⟨hmin, hmax⟩) (.inl rfl)
      hchange
    exact ⟨p', hcall⟩

section First

variable {S : Sys} {id : ℕ} {κ : BasicKind} {s : State} {fifoMinPrio fifoMaxPrio : ℤ} {ceiling : ℕ}

/-- **The first lock call** of a thread that may use the ceiling. -/
theorem lockPp_first (hS : S.toSched.Succeeds fifoMinPrio fifoMaxPrio)
    (hlock : s.mutex.lock = ceilvalOf ceiling) (howner : s.mutex.owner = 0) (hid : 0 < id)
    (hc : ceiling < 4096) (hmax : (ceiling : ℤ) ≤ fifoMaxPrio)
    (hcurrent : (pthreadCurrentPriority S.toSched s.prio).1 ≤ ceiling) :
    (lockPp S id κ s).1 = .ret 0 ↔ fifoMinPrio ≤ ceiling ∧ HasRoom S.toSched s.prio ceiling := by
  have hceil : (s.mutex.lock &&& prioCeilingMask) >>> prioCeilingShift = ceiling := by
    rw [hlock]
    exact ceilingOf_add (b := 0) hc (by omega)
  -- asking for the current priority changes no counter
  have hroom : HasRoom S.toSched (pthreadCurrentPriority S.toSched s.prio).2 ceiling ↔
      HasRoom S.toSched s.prio ceiling := by
    simp only [HasRoom, Prio.tppData, pthreadCurrentPriority_tpp]
  rw [← hroom, ← tppChangePriority_raise_iff hS hmax]
  simp only [lockPp, howner, hid.ne, false_and, if_false, hceil, not_lt.mpr hcurrent]
  cases tppChangePriority S.toSched (-1) ceiling (pthreadCurrentPriority S.toSched s.prio).2 with
  | error a => simp
  | ok r =>
    obtain ⟨code, p'⟩ := r
    simp only [Except.ok.injEq, Prod.mk.injEq]
    by_cases hcode : code = 0
    · subst hcode
      have htaken : s.mutex.lock = ceiling <<< prioCeilingShift := hlock
      simp [htaken, lockPpTaken, State.set]
    · simp [hcode]

end First

/-! ### Which attributes give a usable mutex -/

/-- A kind with the bit of priority protection that a lock call knows. -/
theorem switchKind_protectBit {kind : BitVec 32} (hbit : kind &&& prioProtect = prioProtect) :
    switchKind kind = .invalid ∨ ∃ κ, kind = Protocol.protect.code κ := by
  have hne : ∀ label : BitVec 32, label &&& prioProtect = 0 → kind ≠ label := by
    rintro label hlabel rfl
    rw [hbit] at hlabel
    exact absurd hlabel (by decide)
  rw [switchKind, if_neg (hne 0 (by decide)), if_neg (hne 1 (by decide)),
    if_neg (hne 2 (by decide)), if_neg (hne 3 (by decide))]
  split
  · rename_i hmem
    have hall : specialKinds.all (fun label => label &&& prioProtect = 0 ∨
        label = Protocol.protect.code (basicOf label)) = true := by decide
    rcases of_decide_eq_true (List.all_eq_true.mp hall _ hmem) with hzero | hcode
    · rw [hbit] at hzero
      exact absurd hzero (by decide)
    · exact .inr ⟨_, hcode⟩
  · exact .inl rfl

/-- An attribute whose ceiling is a priority of `SCHED_FIFO`, of a private mutex, and of a kind that
    a lock call knows. -/
structure Protects (fifoMinPrio : ℤ) (attr : BitVec 32) : Prop where
  ceiling : fifoMinPrio ≤ attrCeiling attr
  pshared : attr &&& attrFlagPshared = 0
  kind : ∃ κ, attr &&& ~~~attrFlagBits ||| prioProtect = Protocol.protect.code κ

section Attributes

variable {ι : Type} [DecidableEq ι]

/-- What a mutex is for: no sequence of calls violates an assertion about a priority, and the first
    lock call of thread `t` returns 0. -/
structure Usable (id : ι → ℕ) (fifoMinPrio fifoMaxPrio : ℤ) (S : Sys) (t : ι) (p : Process ι) :
    Prop where
  inRange : ∀ es : List (Sys × Calls.Event ι),
    (∀ x ∈ es, x.1.fifoMinPrio = fifoMinPrio ∧ x.1.fifoMaxPrio = fifoMaxPrio) →
      ∀ a, some (.abort (.prio a)) ∉ answers id es p
  lock : (serve S id (.call t .lock) p).1 = some (.ret 0)

/-- A call that is seen to return has returned. -/
theorem answer_eq_ret {o : Outcome} {code : ℕ} : some o.answer = some (.ret code) ↔
    o = .ret code := by
  cases o <;> simp [Outcome.answer]

/-- A lock call that does not know the kind. -/
theorem pthreadMutexLock_invalid {S : Sys} {i : ℕ} {s : State}
    (h : switchKind s.mutex.kind = .invalid) : (Calls.pthreadMutexLock S i s).1 = .ret eINVAL := by
  simp only [Calls.pthreadMutexLock, h]

/-- **Which mutexes can be used.**  A mutex with priority protection that is not robust can be used
    by a thread that may use its ceiling exactly when the ceiling is not below the priorities of
    `SCHED_FIFO`, the attribute is not process-shared and names a basic kind, and the thread's
    counters have room for the mutex. -/
theorem protect_usable (id : ι → ℕ) {attr : BitVec 32}
    (hprotect : attr &&& attrProtocolMask = attrPrioProtect)
    (hrobust : attr &&& attrFlagRobust = 0) {fifoMinPrio fifoMaxPrio : ℤ}
    (hmax : (attrCeiling attr : ℤ) ≤ fifoMaxPrio) {S : Sys}
    (hS : S.toSched.Succeeds fifoMinPrio fifoMaxPrio) {t : ι} (hid : 0 < id t) {prio : ι → Prio}
    (hcurrent : (pthreadCurrentPriority S.toSched (prio t)).1 ≤ attrCeiling attr) :
    Usable id fifoMinPrio fifoMaxPrio S t (initialisedBy attr prio) ↔
      Protects fifoMinPrio attr ∧ HasRoom S.toSched (prio t) (attrCeiling attr) := by
  have hreal : (mutexInit attr {}).2 =
      { lock := ceilvalOf (attrCeiling attr), kind := protectKind attr } := by
    rw [mutexInit_ceiling hprotect hrobust]
  have hc := attrCeiling_lt attr
  -- the first lock call works on the mutex that was initialised
  have hserve : ∀ code, (serve S id (.call t .lock) (initialisedBy attr prio)).1 = some (.ret code) ↔
      (Calls.pthreadMutexLock S (id t)
        ⟨{ lock := ceilvalOf (attrCeiling attr), kind := protectKind attr }, prio t, []⟩).1 =
          .ret code := by
    intro code
    rw [← hreal]
    exact answer_eq_ret
  have hfirst : ∀ κ, protectKind attr = Protocol.protect.code κ →
      ((serve S id (.call t .lock) (initialisedBy attr prio)).1 = some (.ret 0) ↔
        fifoMinPrio ≤ attrCeiling attr ∧ HasRoom S.toSched (prio t) (attrCeiling attr)) := by
    intro κ hκ
    rw [hserve, pthreadMutexLock_protect hκ]
    exact lockPp_first hS rfl rfl hid hc hmax hcurrent
  constructor
  · intro huse
    by_cases hpshared : attr &&& attrFlagPshared = 0
    · have hkind : protectKind attr = attr &&& ~~~attrFlagBits ||| prioProtect :=
        if_neg (not_not.mpr hpshared)
      have hbit : (attr &&& ~~~attrFlagBits ||| prioProtect) &&& prioProtect = prioProtect := by
        rw [BitVec.and_or_distrib_right]
        ext i hi
        simp only [BitVec.getElem_or, BitVec.getElem_and]
        cases prioProtect[i] <;> simp
      rcases switchKind_protectBit hbit with hinvalid | ⟨κ, hκ⟩
      · have hlock := (hserve 0).mp huse.lock
        rw [pthreadMutexLock_invalid (by rw [hkind]; exact hinvalid)] at hlock
        exact absurd hlock (by decide)
      · obtain ⟨hmin, hroom⟩ := (hfirst κ (hkind.trans hκ)).mp huse.lock
        exact ⟨⟨hmin, hpshared, κ, hκ⟩, hroom⟩
    · -- the flag of a shared mutex is not masked
      have hkind : protectKind attr = attr &&& ~~~attrFlagBits ||| prioProtect ||| psharedBit :=
        if_pos hpshared
      have hlock := (hserve 0).mp huse.lock
      rw [pthreadMutexLock_invalid (by rw [hkind]; exact switchKind_flag _)] at hlock
      exact absurd hlock (by decide)
  · rintro ⟨⟨hmin, hpshared, κ, hκ⟩, hroom⟩
    have hkind : protectKind attr = Protocol.protect.code κ :=
      (if_neg (not_not.mpr hpshared)).trans hκ
    have hsound : Sound (attrCeiling attr) κ (initialisedBy attr prio) := by
      refine ⟨⟨_, rfl, ?_⟩, fun _ _ heq => by cases heq⟩
      rw [hreal]
      exact ⟨hkind, 0, by omega, rfl⟩
    refine ⟨fun es hes a => hsound.answers hc (fun x hx => ?_) a,
      (hfirst κ hkind).mpr ⟨hmin, hroom⟩⟩
    obtain ⟨hxmin, hxmax⟩ := hes x hx
    exact ⟨hxmin ▸ hmin, hxmax ▸ hmax⟩

end Attributes

/-- A recursive mutex with the ceiling 10. -/
def ceilingTen : BitVec 32 := BasicKind.recursive.code ||| attrPrioProtect ||| 10 <<< 12

/-- A mutex with ceiling 10 is usable. -/
theorem protect_usable_ceilingTen :
    Usable (fun _ : Unit => 5) 1 99 linuxSys () (initialisedBy ceilingTen fun _ => {}) :=
  (protect_usable (fun _ => 5) (by decide) (by decide) (by decide) linuxSys_succeeds (by decide)
    (by decide)).mpr ⟨⟨by decide, by decide, .recursive, by decide⟩, _, rfl, by decide⟩

/-- **A ceiling that was never set** stays 0: the first lock call fails the assertion. -/
theorem noCeiling_aborts :
    (mutexInit attrPrioProtect {}).1 = 0 ∧
      (pthreadCurrentPriority linuxSys.toSched {}).1 ≤ attrCeiling attrPrioProtect ∧
      answers (fun _ => 5) [(linuxSys, .call () .lock)]
        (initialisedBy attrPrioProtect fun _ => {}) = [some (.abort (.prio .newPrio))] := by
  decide

end SyncPerf.PrioProtect
