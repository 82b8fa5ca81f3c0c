import SyncPerf.PrioBalance
import SyncPerf.Wakeups

namespace SyncPerf.PrioWakeups

open Interleaving Calls PrioProtect Wakeups

/-!
# Sleeping for a priority-protect mutex

The steps of `PrioSteps` with the futex system calls: `lll_futex_wait` puts a thread to sleep while
the word is `ceilval | 2`, and an unlock that has put the bare ceiling into a word with low bits
above 1 goes on to `lll_futex_wake`.  A word of `ceilval | 1` that an unlock clears wakes nobody,
so that a thread must have marked the word before it sleeps.

* `Local`, `Shared`, `next`, `system` — threads that also sleep and wake each other;
* `NextCase`, `next_eq_some` — what a step does;
* `Inv`, `Inv.step` — the invariant of `PrioBalance`, and whom the sleeping threads can rely on;
* `protect_no_lost_wakeup` — nobody sleeps for nothing.
-/

/-! ### The system -/

variable {ι M : Type}

/-- A thread: its place in the calls, whether its `lll_futex_wait` has been entered, and the mutex
    for which its unlock still has to call `lll_futex_wake`. -/
structure Local (M : Type) where
  base : PrioProtect.Local M
  entered : Bool := false
  owes : Option M := none

/-- The mutexes, and the threads that the kernel has queued up for each. -/
structure Shared (ι M : Type) where
  mutexes : M → MutexData
  waiters : M → Finset ι

/-- What a thread does next: a call or a step of it; a signal ends its wait; its wake-up takes a
    thread of the kernel's choice out of the queue, or finds nobody there. -/
inductive Action (ι M : Type)
  | base (a : PrioProtect.Action M)
  | signal
  | wake (j : ι)
  | nobody

/-- What an unlock has to wake for after its compare-and-exchange:
    `(oldval & ~PTHREAD_MUTEX_PRIO_CEILING_MASK) > 1`. -/
def owed (b : PrioProtect.Local M) (f : M → MutexData) : Option M :=
  match b.stage with
  | .release _ n (.cas oldval) =>
    if (f n).lock = oldval ∧ 1 < oldval - (oldval &&& prioCeilingMask) then some n else none
  | _ => none

variable [DecidableEq ι] [DecidableEq M]

/-- The shared data, with other sleepers at one futex. -/
def Shared.setWaiters (s : Shared ι M) (n : M) (q : Finset ι) : Shared ι M :=
  { s with waiters := Function.update s.waiters n q }

/-- A step of the calls. -/
def baseStep (id : ι → ℕ) (fifoMinPrio : ℤ) (i : ι) (a : PrioProtect.Action M) (l : Local M)
    (s : Shared ι M) : Option (Local M × Shared ι M) :=
  (PrioProtect.next id fifoMinPrio i a l.base s.mutexes).map fun r =>
    (⟨r.1, false, owed l.base s.mutexes⟩, { s with mutexes := r.2 })

/-- One step of thread `i`. -/
def next (id : ι → ℕ) (fifoMinPrio : ℤ) (i : ι) (a : Action ι M) (l : Local M) (s : Shared ι M) :
    Option (Local M × Shared ι M) :=
  match a, l.owes, l.base.stage with
  -- the kernel compares the word, and what the call returns is not looked at
  | .base (.run S), none, .acquire _ n (.futexWait ceiling) =>
    if l.entered then
      if i ∈ s.waiters n then none else baseStep id fifoMinPrio i (.run S) l s
    else if (s.mutexes n).lock = ceilvalOf ceiling ||| 2 then
      some ({ l with entered := true }, s.setWaiters n (insert i (s.waiters n)))
    else baseStep id fifoMinPrio i (.run S) l s
  | .base a, none, _ => baseStep id fifoMinPrio i a l s
  | .signal, _, .acquire _ n (.futexWait _) =>
    if l.entered then some (l, s.setWaiters n ((s.waiters n).erase i)) else none
  | .wake j, some n, _ =>
    if j ∈ s.waiters n then
      some ({ l with owes := none }, s.setWaiters n ((s.waiters n).erase j))
    else none
  | .nobody, some n, _ => if s.waiters n = ∅ then some ({ l with owes := none }, s) else none
  | _, _, _ => none

/-- The threads over the mutexes and their futexes. -/
def system (id : ι → ℕ) (fifoMinPrio : ℤ) :
    System ι (Action ι M) (Local M) (Shared ι M) :=
  ⟨next id fifoMinPrio⟩

/-- What a step of thread `i` does. -/
inductive NextCase (id : ι → ℕ) (fifoMinPrio : ℤ) (i : ι) (l : Local M) (s : Shared ι M) :
    Action ι M → Local M → Shared ι M → Prop
  | base {a : PrioProtect.Action M} {b : PrioProtect.Local M} {f : M → MutexData}
      (howes : l.owes = none)
      (hawake : l.entered = true → ∀ mode n ceiling,
        l.base.stage = .acquire mode n (.futexWait ceiling) → i ∉ s.waiters n)
      (hnext : PrioProtect.next id fifoMinPrio i a l.base s.mutexes = some (b, f)) :
      NextCase id fifoMinPrio i l s (.base a) ⟨b, false, owed l.base s.mutexes⟩ ⟨f, s.waiters⟩
  | sleep {S : Sched} {mode : Mode} {n : M} {ceiling : ℕ} (howes : l.owes = none)
      (hst : l.base.stage = .acquire mode n (.futexWait ceiling))
      (hword : (s.mutexes n).lock = ceilvalOf ceiling ||| 2) :
      NextCase id fifoMinPrio i l s (.base (.run S)) { l with entered := true }
        (s.setWaiters n (insert i (s.waiters n)))
  | signal {mode : Mode} {n : M} {ceiling : ℕ}
      (hst : l.base.stage = .acquire mode n (.futexWait ceiling)) :
      NextCase id fifoMinPrio i l s .signal l (s.setWaiters n ((s.waiters n).erase i))
  | wake {j : ι} {n : M} (howes : l.owes = some n) (hj : j ∈ s.waiters n) :
      NextCase id fifoMinPrio i l s (.wake j) { l with owes := none }
        (s.setWaiters n ((s.waiters n).erase j))
  | nobody {n : M} (howes : l.owes = some n) (hq : s.waiters n = ∅) :
      NextCase id fifoMinPrio i l s .nobody { l with owes := none } s

/-- A step is one of the cases. -/
theorem next_eq_some {id : ι → ℕ} {fifoMinPrio : ℤ} {i : ι} {a : Action ι M} {l l' : Local M}
    {s s' : Shared ι M} (h : next id fifoMinPrio i a l s = some (l', s')) :
    NextCase id fifoMinPrio i l s a l' s' := by
  have hbase : ∀ a, l.owes = none →
      (l.entered = true → ∀ mode n ceiling,
        l.base.stage = .acquire mode n (.futexWait ceiling) → i ∉ s.waiters n) →
      baseStep id fifoMinPrio i a l s = some (l', s') →
      NextCase id fifoMinPrio i l s (.base a) l' s' := by
    intro a howes hawake hstep
    obtain ⟨⟨b, f⟩, hnext, heq⟩ := Option.map_eq_some_iff.mp hstep
    obtain ⟨rfl, rfl⟩ := Prod.mk.inj heq
    exact .base howes hawake hnext
  unfold next at h
  split at h
  next S mode n ceiling howes hst =>
    split at h
    next =>
      split at h
      next => cases h
      next hi =>
        refine hbase _ howes (fun _ mode' n' ceiling' hst' => ?_) h
        rw [hst] at hst'
        cases hst'
        exact hi
    next hent =>
      split at h
      next hword =>
        obtain ⟨rfl, rfl⟩ := Prod.mk.inj (Option.some.inj h)
        exact .sleep howes hst hword
      next => exact hbase _ howes (fun he => absurd he hent) h
  next a howes hno =>
    refine hbase _ howes (fun _ mode n ceiling hst => ?_) h
    cases a with
    | run S => exact (hno S mode n ceiling hst rfl).elim
    | _ => simp [baseStep, PrioProtect.next, hst] at h
  next mode n ceiling hst =>
    split at h
    next =>
      obtain ⟨rfl, rfl⟩ := Prod.mk.inj (Option.some.inj h)
      exact .signal hst
    next => cases h
  next j n howes =>
    split at h
    next hj =>
      obtain ⟨rfl, rfl⟩ := Prod.mk.inj (Option.some.inj h)
      exact .wake howes hj
    next => cases h
  next n howes =>
    split at h
    next hq =>
      obtain ⟨rfl, rfl⟩ := Prod.mk.inj (Option.some.inj h)
      exact .nobody howes hq
    next => cases h
  next => cases h

/-! ### The invariant -/

/-- The word of a mutex that tells an unlock to wake somebody. -/
def Marked (ceil : M → ℕ) (f : M → MutexData) (n : M) : Prop :=
  (f n).lock = ceilvalOf (ceil n) ||| 2

/-- The points from which a thread marks the word, finds it marked, or takes the mutex with it. -/
def contends : AcquirePC → Bool
  | .waiters _ | .futexWait _ | .casWaiters _ => true
  | _ => false

/-- The thread is bound to leave the word of `n` marked, or to wake a thread. -/
def Busy (n : M) (l : Local M) : Prop :=
  l.owes = some n ∨ ∃ mode p, l.base.stage = .acquire mode n p ∧ contends p = true

/-- The threads and the mutexes without the queues. -/
def base (c : Config ι (Local M) (Shared ι M)) :
    Config ι (PrioProtect.Local M) (M → MutexData) :=
  ⟨fun i => (c.loc i).base, c.sh.mutexes⟩

/-- The calls are as they were without the queues; a queued thread is in `lll_futex_wait`, and can
    rely on a marked word or on a thread outside the queue. -/
structure Inv (id : ι → ℕ) (fifoMinPrio : ℤ) (ceil : M → ℕ) (κ : M → BasicKind)
    (c : Config ι (Local M) (Shared ι M)) : Prop where
  base : PrioProtect.Inv id fifoMinPrio ceil κ (base c)
  queued : ∀ n, ∀ j ∈ c.sh.waiters n, (c.loc j).entered = true ∧
    ∃ mode ceiling, (c.loc j).base.stage = .acquire mode n (.futexWait ceiling)
  owing : ∀ j n, (c.loc j).owes = some n →
    ∃ decr o, (c.loc j).base.stage = .release decr n (.lower o)
  covered : ∀ n, Covered (c.sh.waiters n) (Marked ceil c.sh.mutexes n) (Busy n) c.loc

/-! ### The steps of the calls -/

section Steps

variable {id : ι → ℕ} {fifoMinPrio fifoMaxPrio : ℤ} {ceil : M → ℕ} {n : M}

omit [DecidableEq ι] [DecidableEq M] in
/-- A marked word is not a free one. -/
theorem marked_ne_free : ceilvalOf (ceil n) ||| 2 ≠ ceilvalOf (ceil n) := by
  rw [ceilval_or le_rfl]
  omega

omit [DecidableEq ι] [DecidableEq M] in
/-- An acquisition that does not contend leaves a marked word alone. -/
theorem acquireStep_marked {S : Sched} {id : ℕ} {mode : Mode} {p : AcquirePC} {prio : Prio}
    {m : MutexData} (hp : contends p = false) (hok : ∀ ceiling, p = .cas ceiling → ceiling = ceil n)
    (h : m.lock = ceilvalOf (ceil n) ||| 2) :
    (acquireStep S id mode p prio m).2.2.lock = ceilvalOf (ceil n) ||| 2 := by
  cases p with
  | cas ceiling =>
    obtain rfl := hok ceiling rfl
    have hne : m.lock ≠ ceilvalOf (ceil n) := by
      rw [h]
      exact marked_ne_free
    simp only [acquireStep, if_neg hne]
    split <;> exact h
  | waiters ceiling | futexWait ceiling | casWaiters ceiling => cases hp
  | lower ceiling =>
    simp only [acquireStep]
    split <;> exact h
  | _ => exact h

omit [DecidableEq ι] [DecidableEq M] in
/-- Only the compare-and-exchange of a release changes the word. -/
theorem releaseStep_lock {S : Sched} {id : ℕ} {decr : Bool} {p : ReleasePC} {prio : Prio}
    {m : MutexData} (hp : ∀ oldval, p = .cas oldval → m.lock ≠ oldval) :
    (releaseStep S id decr p prio m).2.2.lock = m.lock := by
  cases p with
  | cas oldval => simp only [releaseStep, if_neg (hp oldval rfl)]
  | lower oldprio =>
    simp only [releaseStep]
    split <;> rfl
  | _ => rfl

omit [DecidableEq ι] [DecidableEq M] in
/-- A release of a marked mutex has somebody to wake. -/
theorem owed_marked (hceil : ceil n < 4096) {b : PrioProtect.Local M} {f : M → MutexData}
    {decr : Bool} {oldval : ℕ} (hst : b.stage = .release decr n (.cas oldval))
    (hsame : (f n).lock = oldval) (hmark : Marked ceil f n) : owed b f = some n := by
  have hold : oldval = ceilvalOf (ceil n) + 2 := by
    rw [← hsame, hmark, ceilval_or le_rfl]
  have hlow : oldval - (oldval &&& prioCeilingMask) = 2 := by
    rw [hold, ceilval_and hceil le_rfl]
    omega
  unfold owed
  rw [hst]
  simp only [hsame, hlow, true_and]
  exact if_pos (by decide)

omit [DecidableEq ι] in
/-- **A step of the calls** and one mutex: the thread was not relied on, and leaves a mark that is
    there; or it leaves the word marked; or it can be relied on. -/
theorem base_covers (hceil : Ceilings fifoMinPrio fifoMaxPrio ceil) {i : ι} {l : Local M}
    {f f' : M → MutexData} {a : PrioProtect.Action M} {b : PrioProtect.Local M}
    (hok : LocalOk fifoMinPrio ceil l.base) (howes : l.owes = none)
    (hword : ∃ b ≤ 2, (f n).lock = ceilvalOf (ceil n) + b)
    (hnext : PrioProtect.next id fifoMinPrio i a l.base f = some (b, f')) :
    ¬ Busy n l ∧ (Marked ceil f n → Marked ceil f' n) ∨ Marked ceil f' n ∨
      Busy n ⟨b, false, owed l.base f⟩ := by
  obtain ⟨bits, hbits, hlock⟩ := hword
  have hidle : (∀ mode p, l.base.stage = .acquire mode n p → contends p = false) → ¬ Busy n l := by
    rintro hno (ho | ⟨mode, p, hst, hp⟩)
    · rw [howes] at ho
      cases ho
    · rw [hno mode p hst] at hp
      cases hp
  have hstage := hok.stage
  unfold PrioProtect.next at hnext
  split at hnext
  next mode n' hst =>
    obtain ⟨p, -, heq⟩ := Option.map_eq_some_iff.mp hnext
    obtain ⟨-, rfl⟩ := Prod.mk.inj heq
    refine .inl ⟨hidle fun mode p h => ?_, fun h => h⟩
    rw [hst] at h
    cases h
  next decr n' hst =>
    obtain ⟨p, -, heq⟩ := Option.map_eq_some_iff.mp hnext
    obtain ⟨-, rfl⟩ := Prod.mk.inj heq
    refine .inl ⟨hidle fun mode p h => ?_, fun h => h⟩
    rw [hst] at h
    cases h
  next S mode n' p hst =>
    obtain ⟨rfl, rfl⟩ := Prod.mk.inj (Option.some.inj hnext)
    rw [hst] at hstage
    by_cases hn : n = n'
    · subst hn
      have hgo : ∀ {l' : PrioProtect.Local M} {p' : AcquirePC}, contends p' = true →
          Busy n ⟨l'.afterAcquire mode n (.goto p'), false, owed l.base f⟩ :=
        fun hp' => .inr ⟨mode, _, rfl, hp'⟩
      unfold Marked at *
      rw [Function.update_self]
      cases p with
      | waiters ceiling =>
        -- the word is marked here, or by somebody else already
        obtain rfl : ceiling = ceil n := hstage.1
        have hand : (f n).lock &&& prioCeilingMask = ceilvalOf (ceil n) := by
          rw [hlock]
          exact ceilval_and (hceil.lt n) hbits
        simp only [acquireStep, hand, ne_eq, not_true_eq_false, if_false]
        by_cases hone : (f n).lock = ceilvalOf (ceil n) ||| 1
        · rw [if_pos hone]
          exact .inr (.inl rfl)
        · rw [if_neg hone]
          by_cases hfree : (f n).lock = ceilvalOf (ceil n)
          · rw [if_neg (not_not.mpr hfree)]
            exact .inr (.inr (hgo rfl))
          · refine .inr (.inl ?_)
            rw [ceilval_or (by omega)] at hone ⊢
            omega
      | futexWait ceiling => exact .inr (.inr (hgo rfl))
      | casWaiters ceiling =>
        obtain rfl : ceiling = ceil n := hstage.1
        simp only [acquireStep]
        split
        next => exact .inr (.inl rfl)
        next => exact .inr (.inr (hgo rfl))
      | cas ceiling =>
        refine .inl ⟨hidle fun mode' p' h => ?_, fun h => ?_⟩
        · rw [hst] at h
          cases h
          rfl
        · refine acquireStep_marked rfl (fun ceiling' h => ?_) h
          cases h
          exact hstage.1
      | _ =>
        refine .inl ⟨hidle fun mode' p' h => ?_, fun h => ?_⟩
        · rw [hst] at h
          cases h
          rfl
        · exact acquireStep_marked rfl (fun _ h => by cases h) h
    · refine .inl ⟨hidle fun mode' p' h => ?_, fun h => ?_⟩
      · rw [hst] at h
        cases h
        exact absurd rfl hn
      · unfold Marked at *
        rwa [Function.update_of_ne hn]
  next S decr n' p hst =>
    obtain ⟨rfl, rfl⟩ := Prod.mk.inj (Option.some.inj hnext)
    have hnot : ¬ Busy n l := hidle fun mode' p' h => by rw [hst] at h; cases h
    by_cases hn : n = n'
    · subst hn
      by_cases hcas : ∃ oldval, p = .cas oldval ∧ (f n).lock = oldval
      · obtain ⟨oldval, rfl, hsame⟩ := hcas
        by_cases hmark : Marked ceil f n
        · exact .inr (.inr (.inl (owed_marked (hceil.lt n) hst hsame hmark)))
        · exact .inl ⟨hnot, fun h => absurd h hmark⟩
      · refine .inl ⟨hnot, fun h => ?_⟩
        unfold Marked at *
        rw [Function.update_self, releaseStep_lock fun oldval hp hsame => hcas ⟨oldval, hp, hsame⟩]
        exact h
    · refine .inl ⟨hnot, fun h => ?_⟩
      unfold Marked at *
      rwa [Function.update_of_ne hn]
  next => cases hnext

omit [DecidableEq ι] in
/-- A thread that has given up a mutex with sleeping threads is to be lowered next. -/
theorem owed_stage {i : ι} {l b : PrioProtect.Local M} {f f' : M → MutexData}
    {a : PrioProtect.Action M} (howed : owed l f = some n)
    (hnext : PrioProtect.next id fifoMinPrio i a l f = some (b, f')) :
    ∃ decr o, b.stage = .release decr n (.lower o) := by
  unfold owed at howed
  split at howed
  next decr n' oldval hst =>
    split at howed
    next hlow =>
      cases howed
      unfold PrioProtect.next at hnext
      split at hnext
      next h => rw [hst] at h; cases h
      next h => rw [hst] at h; cases h
      next h => rw [hst] at h; cases h
      next h =>
        rw [hst] at h
        cases h
        obtain ⟨rfl, -⟩ := Prod.mk.inj (Option.some.inj hnext)
        simp only [releaseStep, if_pos hlow.1]
        exact ⟨decr, _, rfl⟩
      next => cases hnext
    next => cases howed
  next => cases howed

end Steps

/-! ### Every run -/

/-- The scheduler calls of a step succeed, and it releases a mutex only for its holder. -/
def Proper (fifoMinPrio fifoMaxPrio : ℤ) (κ : M → BasicKind)
    (x : Event ι (Action ι M) (Local M) (Shared ι M)) : Prop :=
  ∀ a, x.act = .base a → Scheduled fifoMinPrio fifoMaxPrio ⟨base x.pre, x.who, a⟩ ∧
    Legal κ ⟨base x.pre, x.who, a⟩

section Run

variable {id : ι → ℕ} {fifoMinPrio fifoMaxPrio : ℤ} {ceil : M → ℕ} {κ : M → BasicKind}
  {c d : Config ι (Local M) (Shared ι M)} {i : ι}

omit [DecidableEq M] in
/-- A step of a thread, without the futexes. -/
theorem base_update (l : Local M) (s : Shared ι M) :
    base ⟨Function.update c.loc i l, s⟩ =
      ⟨Function.update (base c).loc i l.base, s.mutexes⟩ := by
  refine congrArg (Config.mk · s.mutexes) ?_
  funext j
  by_cases hj : j = i
  · subst hj
    simp only [Function.update_self]
  · simp only [Function.update_of_ne hj]
    rfl

/-- A step that leaves the calls where they are. -/
theorem base_inv_same {l : Local M} {s : Shared ι M}
    (hI : PrioProtect.Inv id fifoMinPrio ceil κ (base c)) (hl : l.base = (c.loc i).base)
    (hs : s.mutexes = c.sh.mutexes) :
    PrioProtect.Inv id fifoMinPrio ceil κ (base ⟨Function.update c.loc i l, s⟩) := by
  rw [base_update, hl, hs, show (c.loc i).base = (base c).loc i from rfl, Function.update_eq_self]
  exact hI

omit [DecidableEq ι] in
/-- A queued thread is bound to contend. -/
theorem Inv.queued_busy (hI : Inv id fifoMinPrio ceil κ c) {n : M} {j : ι}
    (hj : j ∈ c.sh.waiters n) : Busy n (c.loc j) := by
  obtain ⟨-, mode, ceiling, hst⟩ := hI.queued n j hj
  exact .inr ⟨mode, _, hst, rfl⟩

omit [DecidableEq ι] in
/-- A thread that owes a wake-up waits for nothing, and is relied on for that mutex only. -/
theorem Inv.of_owes (hI : Inv id fifoMinPrio ceil κ c) {n : M} (howes : (c.loc i).owes = some n) :
    (∀ n', i ∉ c.sh.waiters n') ∧ ∀ n', n' ≠ n → ¬ Busy n' (c.loc i) := by
  obtain ⟨decr, o, hst⟩ := hI.owing i n howes
  refine ⟨fun n' hi => ?_, fun n' hn' hb => ?_⟩
  · obtain ⟨-, mode, ceiling, hst'⟩ := hI.queued n' i hi
    rw [hst] at hst'
    cases hst'
  · rcases hb with ho | ⟨mode, p, hst', -⟩
    · rw [howes] at ho
      exact hn' (Option.some.inj ho).symm
    · rw [hst] at hst'
      cases hst'

omit [DecidableEq ι] in
/-- The queues after one of them changed, seen from another mutex. -/
theorem setWaiters_of_ne {s : Shared ι M} {n n' : M} {q : Finset ι} (h : n' ≠ n) :
    (s.setWaiters n q).waiters n' = s.waiters n' := Function.update_of_ne h ..

omit [DecidableEq ι] in
/-- The sleepers that were put there. -/
theorem setWaiters_self {s : Shared ι M} {n : M} {q : Finset ι} :
    (s.setWaiters n q).waiters n = q := Function.update_self ..

/-- A wake-up adds no sleepers. -/
theorem mem_of_mem_erased {s : Shared ι M} {n n' : M} {j k : ι}
    (h : k ∈ (s.setWaiters n ((s.waiters n).erase j)).waiters n') : k ∈ s.waiters n' := by
  by_cases hn : n' = n
  · subst hn
    rw [setWaiters_self] at h
    exact Finset.mem_of_mem_erase h
  · rwa [setWaiters_of_ne hn] at h

/-- **Step lemma.** -/
theorem Inv.step (hceil : Ceilings fifoMinPrio fifoMaxPrio ceil) (hinj : Function.Injective id)
    (hid : ∀ t, 0 < id t) {a : Action ι M} (hI : Inv id fifoMinPrio ceil κ c)
    (hstep : (system id fifoMinPrio).step c i a = some d)
    (hproper : Proper fifoMinPrio fifoMaxPrio κ ⟨c, i, a⟩) : Inv id fifoMinPrio ceil κ d := by
  obtain ⟨l, s, hnext, rfl⟩ := System.step_eq_some.mp hstep
  have howing : ∀ {l : Local M}, (∀ n, l.owes = some n → ∃ decr o,
      l.base.stage = .release decr n (.lower o)) → ∀ j n,
      (Function.update c.loc i l j).owes = some n →
      ∃ decr o, (Function.update c.loc i l j).base.stage = .release decr n (.lower o) :=
    fun hl => forall_update (P := fun _ (l : Local M) => ∀ n, l.owes = some n →
      ∃ decr o, l.base.stage = .release decr n (.lower o)) hl fun j _ => hI.owing j
  cases next_eq_some hnext with
  | @base a b f howes hawake hnext' =>
    -- a thread that takes a step of the calls is in no queue
    have hnotq : ∀ n, i ∉ c.sh.waiters n := by
      intro n hi
      obtain ⟨hent, mode, ceiling, hst⟩ := hI.queued n i hi
      exact hawake hent mode n ceiling hst hi
    obtain ⟨hsched, hlegal⟩ := hproper a rfl
    have hbase : (PrioProtect.system id fifoMinPrio).step (PrioWakeups.base c) i a =
        some (PrioWakeups.base ⟨Function.update c.loc i ⟨b, false, owed (c.loc i).base c.sh.mutexes⟩,
          ⟨f, c.sh.waiters⟩⟩) := by
      rw [base_update]
      exact System.step_eq_some.mpr ⟨b, f, hnext', rfl⟩
    refine ⟨hI.base.step hceil hinj hid hbase hsched hlegal, fun n j hj => ?_,
      howing fun n ho => owed_stage ho hnext', fun n => ?_⟩
    · have hji : j ≠ i := by
        rintro rfl
        exact hnotq n hj
      simp only [Function.update_of_ne hji]
      exact hI.queued n j hj
    · obtain ⟨bits, hbits, hlock, -⟩ := hI.base.words.lock n
      rcases base_covers hceil (hI.base.ok i) howes ⟨bits, hbits, hlock⟩ hnext' with
        ⟨hidle, hmark⟩ | hmark | hbusy
      · exact (hI.covered n).keep hmark hidle
      · exact .of_marked hmark
      · exact .of_busy hbusy (hnotq n)
  | @sleep S mode n ceiling howes hst hword =>
    obtain rfl : ceiling = ceil n := by
      have hstage := (hI.base.ok i).stage
      rw [show ((PrioWakeups.base c).loc i).stage = _ from hst] at hstage
      exact hstage.1
    refine ⟨base_inv_same hI.base rfl rfl, fun n' j hj => ?_, howing fun n ho => hI.owing i n ho,
      fun n' => ?_⟩
    · by_cases hji : j = i
      · subst hji
        simp only [Function.update_self]
        refine ⟨trivial, ?_⟩
        by_cases hn : n' = n
        · subst hn
          exact ⟨mode, _, hst⟩
        · rw [setWaiters_of_ne hn] at hj
          exact (hI.queued n' j hj).2
      · simp only [Function.update_of_ne hji]
        refine hI.queued n' j ?_
        by_cases hn : n' = n
        · subst hn
          rw [setWaiters_self, Finset.mem_insert] at hj
          exact hj.resolve_left hji
        · rwa [setWaiters_of_ne hn] at hj
    · by_cases hn : n' = n
      · subst hn
        exact .of_marked hword
      · rw [setWaiters_of_ne hn]
        exact (hI.covered n').stay fun hb => hb
  | @signal mode n ceiling hst =>
    refine ⟨base_inv_same hI.base rfl rfl, fun n' j hj => ?_, howing fun n ho => hI.owing i n ho,
      fun n' => ?_⟩
    · rw [Function.update_eq_self]
      exact hI.queued n' j (mem_of_mem_erased hj)
    · by_cases hn : n' = n
      · subst hn
        rw [setWaiters_self]
        exact .of_busy (.inr ⟨mode, _, hst, rfl⟩) (Finset.notMem_erase i _)
      · rw [setWaiters_of_ne hn]
        exact (hI.covered n').stay fun hb => hb
  | @wake j n howes hj =>
    obtain ⟨hnotq, hidle⟩ := hI.of_owes howes
    have hji : j ≠ i := by
      rintro rfl
      exact hnotq n hj
    refine ⟨base_inv_same hI.base rfl rfl, fun n' k hk => ?_, howing fun n ho => (by cases ho),
      fun n' => ?_⟩
    · have hk' : k ∈ c.sh.waiters n' := mem_of_mem_erased hk
      have hki : k ≠ i := by
        rintro rfl
        exact hnotq n' hk'
      simp only [Function.update_of_ne hki]
      exact hI.queued n' k hk'
    · by_cases hn : n' = n
      · subst hn
        rw [setWaiters_self]
        exact .wake (hI.queued_busy hj) hji
      · rw [setWaiters_of_ne hn]
        exact (hI.covered n').keep (fun h => h) (hidle n' hn)
  | @nobody n howes hq =>
    obtain ⟨hnotq, hidle⟩ := hI.of_owes howes
    refine ⟨base_inv_same hI.base rfl rfl, fun n' k hk => ?_, howing fun n ho => (by cases ho),
      fun n' => ?_⟩
    · have hki : k ≠ i := by
        rintro rfl
        exact hnotq n' hk
      simp only [Function.update_of_ne hki]
      exact hI.queued n' k hk
    · by_cases hn : n' = n
      · subst hn
        rw [hq]
        exact .of_empty
      · exact (hI.covered n').keep (fun h => h) (hidle n' hn)

/-- The start: the calls as `PrioBalance` starts them, and nobody in a queue. -/
structure Fresh (attr : M → BitVec 32) (c : Config ι (Local M) (Shared ι M)) : Prop where
  base : PrioProtect.Fresh attr (base c)
  waiters : ∀ n, c.sh.waiters n = ∅
  owes : ∀ i, (c.loc i).owes = none

/-- **No wake-up is lost.**  In every run of lock, trylock and unlock calls, and of the releases and
    re-acquisitions of `pthread_cond_wait`, on private priority-protect mutexes with ceilings in the
    range of `SCHED_FIFO`, in which the scheduler calls succeed and normal and adaptive mutexes are
    only released by their holders, with wake-ups of the kernel's choice and waits that end by a
    signal: when a thread sleeps for a mutex, then some thread has it, by the calls that it has made
    or by the one that it is in, and the word makes that thread's unlock wake somebody, or a thread
    that does not sleep is in the loop of its lock or about to wake.  So nobody sleeps for a free
    mutex when the threads that do not sleep for it are in no call. -/
theorem protect_no_lost_wakeup (id : ι → ℕ) (attr : M → BitVec 32) (κ : M → BasicKind)
    (fifoMinPrio fifoMaxPrio : ℤ) (hinj : Function.Injective id) (hid : ∀ t, 0 < id t)
    (hattr : ∀ n, ProtectAttr (attr n) (κ n))
    (hrange : ∀ n, fifoMinPrio ≤ attrCeiling (attr n) ∧ (attrCeiling (attr n) : ℤ) ≤ fifoMaxPrio)
    {tr : List (Event ι (Action ι M) (Local M) (Shared ι M))} (hinit : Fresh attr c)
    (hrun : Run (system id fifoMinPrio) c tr d)
    (hproper : ∀ x ∈ tr, Proper fifoMinPrio fifoMaxPrio κ x) (n : M) :
    (∀ i ∈ d.sh.waiters n,
      (∃ t, n ∈ (d.loc t).base.held ∧
        ((d.loc t).base.stage.Beside n → 0 < (d.loc t).base.depth n) ∧
        (d.sh.mutexes n).lock = attrCeiling (attr n) <<< 19 ||| 2) ∨
      ∃ j, j ∉ d.sh.waiters n ∧ Busy n (d.loc j)) ∧
    ((d.sh.mutexes n).lock = attrCeiling (attr n) <<< 19 →
      (∀ j, j ∉ d.sh.waiters n → (d.loc j).base.stage = .outside) → d.sh.waiters n = ∅) := by
  have hceil : Ceilings fifoMinPrio fifoMaxPrio fun n => attrCeiling (attr n) :=
    ⟨fun n => attrCeiling_lt (attr n), hrange⟩
  have hinv₀ : Inv id fifoMinPrio (fun n => attrCeiling (attr n)) κ c := by
    refine ⟨PrioProtect.Inv.initial hattr hid hinit.base, fun n j hj => ?_, fun j n ho => ?_,
      fun n => ?_⟩
    · rw [hinit.waiters n] at hj
      exact absurd hj (Finset.notMem_empty j)
    · rw [hinit.owes j] at ho
      cases ho
    · rw [hinit.waiters n]
      exact .of_empty
  have hI : Inv id fifoMinPrio (fun n => attrCeiling (attr n)) κ d :=
    hrun.invariant_of (I := Inv id fifoMinPrio (fun n => attrCeiling (attr n)) κ) hproper hinv₀
      fun d i a e hI hG hstep => hI.step hceil hinj hid hstep hG
  refine ⟨fun i hi => ?_, fun hfree hout => ?_⟩
  · rcases hI.covered n ⟨i, hi⟩ with hmark | ⟨j, hj, hjq⟩
    · -- a word with low bits is the word of a mutex that somebody has
      obtain ⟨b, hb, hlock, hiff⟩ := hI.base.words.lock n
      have hword : (d.sh.mutexes n).lock = ceilvalOf (attrCeiling (attr n)) + 2 := by
        rw [← ceilval_or le_rfl]
        exact hmark
      have hb2 : b ≠ 0 := by
        have hlock' : (d.sh.mutexes n).lock = ceilvalOf (attrCeiling (attr n)) + b := hlock
        omega
      obtain ⟨t, ht⟩ := hiff.mp hb2
      exact .inl ⟨t, ht, fun hst => ((hI.base.nests t n).idle hst).held_iff.mp ht, hmark⟩
    · exact .inr ⟨j, hjq, hj⟩
  · refine (hI.covered n).of_idle (fun hmark => ?_) fun j hj => ?_
    · exact @marked_ne_free _ (fun n => attrCeiling (attr n)) n (hmark.symm.trans hfree)
    · by_contra hjq
      have hst := hout j hjq
      rcases hj with ho | ⟨mode, p, hst', -⟩
      · obtain ⟨decr, o, hst'⟩ := hI.owing j n ho
        rw [hst] at hst'
        cases hst'
      · rw [hst] at hst'
        cases hst'

end Run

/-! ### A thread that sleeps -/

/-- Thread `i` calls a lock on mutex `m` and takes `n` steps in it. -/
def lockSteps (i m : Fin 2) (n : ℕ) : List (Fin 2 × Action (Fin 2) (Fin 2)) :=
  (i, .base (.acquire (.lock .incr) m)) :: List.replicate n (i, .base (.run linuxSys.toSched))

/-- One thread locks a mutex, and another one waits for it. -/
def sleepSchedule : List (Fin 2 × Action (Fin 2) (Fin 2)) :=
  lockSteps ⟨0, Nat.two_pos⟩ ⟨0, Nat.two_pos⟩ 9 ++ lockSteps ⟨1, Nat.one_lt_two⟩ ⟨0, Nat.two_pos⟩ 6

/-- Two threads outside, and nobody asleep. -/
def sleepStart : Config (Fin 2) (Local (Fin 2)) (Shared (Fin 2) (Fin 2)) :=
  ⟨fun t => { base := sampleStart.loc t }, ⟨sampleStart.sh, fun _ => ∅⟩⟩

/-- What they do. -/
def sleepRun : List (Event (Fin 2) (Action (Fin 2) (Fin 2)) (Local (Fin 2))
    (Shared (Fin 2) (Fin 2))) × Config (Fin 2) (Local (Fin 2)) (Shared (Fin 2) (Fin 2)) :=
  (system sampleIds 1).execute sleepStart sleepSchedule rfl

/-- The scheduler calls of the run succeed. -/
theorem sleepRun_proper : ∀ x ∈ sleepRun.1, Proper 1 99 (fun _ => .recursive) x := by
  intro x hx a hact
  refine ⟨fun S hS => ?_, fun _ _ _ h => by cases h with | inl h => cases h | inr h => cases h⟩
  have hmem := (system sampleIds 1).execute_act _ _ _ hx
  simp only at hS
  rw [hact, hS] at hmem
  simp only [sleepSchedule, lockSteps, List.mem_append, List.mem_cons, List.mem_replicate,
    Prod.mk.injEq, Action.base.injEq] at hmem
  rcases hmem with (⟨-, h⟩ | ⟨-, -, h⟩) | ⟨-, h⟩ | ⟨-, -, h⟩
  · cases h
  · cases h
    exact linuxSys_succeeds
  · cases h
  · cases h
    exact linuxSys_succeeds

/-- A thread sleeps, and another one has the mutex. -/
theorem protect_no_lost_wakeup_sleepRun :
    (∃ t, 0 ∈ (sleepRun.2.loc t).base.held ∧
        ((sleepRun.2.loc t).base.stage.Beside 0 → 0 < (sleepRun.2.loc t).base.depth 0) ∧
        (sleepRun.2.sh.mutexes 0).lock = attrCeiling (sampleAttr 0) <<< 19 ||| 2) ∨
      ∃ j, j ∉ sleepRun.2.sh.waiters 0 ∧ Busy 0 (sleepRun.2.loc j) :=
  (protect_no_lost_wakeup sampleIds sampleAttr (fun _ => .recursive) 1 99
    (fun t u h => Fin.ext (Nat.add_left_cancel h)) (by decide)
    (fun n => ⟨by revert n; decide, by revert n; decide, by revert n; decide⟩) (by decide)
    ⟨⟨fun _ => rfl, fun _ => rfl, fun _ => rfl, fun _ => rfl, fun _ _ => rfl, fun _ => rfl⟩,
      fun _ => rfl, fun _ => rfl⟩ ((system sampleIds 1).execute_run _ _ _) sleepRun_proper 0).1 1
    (by decide)

end SyncPerf.PrioWakeups
