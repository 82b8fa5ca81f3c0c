import SyncPerf.Levels

namespace SyncPerf.XThread

/-!
# Life cycles of threads

The threads of a process under the bookkeeping of `xthread`.  A thread gets its index before
`pthread_create` starts it; it ends in `startThread`; it is joined, and `thread_join` then marks
the exit, or it is detached and nobody joins it.  The steps of different threads come in any order.

* `Life`, `Life.next` — a created thread for the real library, and what happens to it;
* `lifeRun` — a process under a sequence of such events;
* `LifeInv` — the threads alive are the real ones and those lost to `xthread`;
* `aliveThreads_faithful_iff` — none is lost exactly when no detached thread ends.
-/

/-! ### One thread -/

/-- From `allocThreadIndex` to the end of `startThread`. -/
inductive Phase
  | starting
  | running
  | ended
  deriving DecidableEq

/-- Whether a `pthread_join` has returned, and whether its `thread_join` has marked the exit. -/
inductive Join
  | none
  | returned
  | marked
  deriving DecidableEq

/-- A created thread. -/
structure Life where
  phase : Phase := .starting
  detached : Bool := false
  join : Join := .none
  deriving DecidableEq

/-- A thread that just got its index. -/
def Life.new : Life := {}

/-- What happens to a created thread. -/
inductive LifeEvent
  /-- `pthread_create` succeeds, with or without `PTHREAD_CREATE_DETACHED`. -/
  | created (detached : Bool)
  | finish
  | detach
  /-- A `pthread_join` for it returns. -/
  | joined
  /-- The `thread_join` around it calls `markThreadExit`. -/
  | exit
  deriving DecidableEq

/-- The thread after the event, where the real library allows it: a detached thread is not joined,
    and no thread twice. -/
def Life.next : LifeEvent → Life → Option Life
  | .created d, ⟨.starting, _, _⟩ => some ⟨.running, d, .none⟩
  | .finish, ⟨.running, d, j⟩ => some ⟨.ended, d, j⟩
  | .detach, ⟨.running, false, .none⟩ => some ⟨.running, true, .none⟩
  | .detach, ⟨.ended, false, .none⟩ => some ⟨.ended, true, .none⟩
  | .joined, ⟨.ended, false, .none⟩ => some ⟨.ended, false, .returned⟩
  | .exit, ⟨.ended, false, .returned⟩ => some ⟨.ended, false, .marked⟩
  | _, _ => none

/-- What an event requires, and what it does. -/
theorem Life.next_cases {t t' : Life} {e : LifeEvent} (h : t.next e = some t') :
    (∃ d, e = .created d ∧ t.phase = .starting ∧ t' = ⟨.running, d, .none⟩) ∨
    (e = .finish ∧ t.phase = .running ∧ t' = { t with phase := .ended }) ∨
    (e = .detach ∧ t.detached = false ∧ t.join = .none ∧ t' = { t with detached := true }) ∨
    (e = .joined ∧ t = ⟨.ended, false, .none⟩ ∧ t' = ⟨.ended, false, .returned⟩) ∨
    (e = .exit ∧ t = ⟨.ended, false, .returned⟩ ∧ t' = ⟨.ended, false, .marked⟩) := by
  unfold Life.next at h
  split at h
  · exact .inl ⟨_, rfl, rfl, (Option.some.inj h).symm⟩
  · exact .inr (.inl ⟨rfl, rfl, (Option.some.inj h).symm⟩)
  · exact .inr (.inr (.inl ⟨rfl, rfl, rfl, (Option.some.inj h).symm⟩))
  · exact .inr (.inr (.inl ⟨rfl, rfl, rfl, (Option.some.inj h).symm⟩))
  · exact .inr (.inr (.inr (.inl ⟨rfl, rfl, (Option.some.inj h).symm⟩)))
  · exact .inr (.inr (.inr (.inr ⟨rfl, rfl, (Option.some.inj h).symm⟩)))
  · exact absurd h (by simp)

/-- A thread that runs, or that `thread_join` still has to return for. -/
def Life.real (t : Life) : Bool := t.phase ≠ .ended || (!t.detached && t.join ≠ .marked)

/-- The exit of the thread has been marked. -/
def Life.marked (t : Life) : Bool := t.join = .marked

/-- A detached thread that has ended. -/
def Life.lost (t : Life) : Bool := t.detached && t.phase = .ended

/-- Only a thread that has ended is joined, and no detached one. -/
def Life.Sound (t : Life) : Prop := t.join ≠ .none → t.phase = .ended ∧ t.detached = false

/-- A thread stays sound. -/
theorem Life.Sound.next {t t' : Life} {e : LifeEvent} (h : t.Sound) (hnext : t.next e = some t') :
    t'.Sound := by
  rcases Life.next_cases hnext with ⟨d, -, -, rfl⟩ | ⟨-, hrun, rfl⟩ | ⟨-, -, hjoin, rfl⟩ |
    ⟨-, -, rfl⟩ | ⟨-, -, rfl⟩
  · exact fun hj => absurd rfl hj
  · intro hj
    exact ⟨rfl, (h hj).2⟩
  · exact fun hj => absurd hjoin hj
  · exact fun _ => ⟨rfl, rfl⟩
  · exact fun _ => ⟨rfl, rfl⟩

/-- The exit of a thread marks it, which was not marked. -/
theorem Life.marked_exit {t t' : Life} (hnext : t.next .exit = some t') :
    t.marked = false ∧ t'.marked = true := by
  rcases Life.next_cases hnext with ⟨d, he, -⟩ | ⟨he, -⟩ | ⟨he, -⟩ | ⟨he, -⟩ | ⟨-, rfl, rfl⟩
  · exact absurd he (by simp)
  · exact absurd he (by simp)
  · exact absurd he (by simp)
  · exact absurd he (by simp)
  · exact ⟨rfl, rfl⟩

/-- No other event marks a thread. -/
theorem Life.marked_of_ne {t t' : Life} {e : LifeEvent} (h : t.Sound)
    (hnext : t.next e = some t') (hne : e ≠ .exit) : t'.marked = t.marked := by
  rcases Life.next_cases hnext with ⟨d, -, hstart, rfl⟩ | ⟨-, -, rfl⟩ | ⟨-, -, -, rfl⟩ |
    ⟨-, rfl, rfl⟩ | ⟨rfl, -⟩
  · have hjoin : t.join = .none := by
      by_contra hj
      rw [(h hj).1] at hstart
      exact absurd hstart (by simp)
    rw [Life.marked, Life.marked, hjoin]
  · rfl
  · rfl
  · rfl
  · exact absurd rfl hne

/-- A thread that is lost stays so. -/
theorem Life.lost_next {t t' : Life} {e : LifeEvent} (hnext : t.next e = some t')
    (h : t.lost = true) : t'.lost = true := by
  simp only [Life.lost, Bool.and_eq_true, decide_eq_true_eq] at h
  obtain ⟨hdetached, hended⟩ := h
  rcases Life.next_cases hnext with ⟨d, -, hstart, -⟩ | ⟨-, hrun, -⟩ | ⟨-, hno, -⟩ | ⟨-, rfl, -⟩ |
    ⟨-, rfl, -⟩
  · rw [hended] at hstart
    exact absurd hstart (by simp)
  · rw [hended] at hrun
    exact absurd hrun (by simp)
  · rw [hdetached] at hno
    exact absurd hno (by simp)
  · exact absurd hdetached (by simp)
  · exact absurd hdetached (by simp)

/-- Every created thread is real, marked, or lost. -/
theorem length_eq_counts {ts : List Life} (h : ∀ t ∈ ts, t.Sound) :
    ts.length = ts.countP Life.real + ts.countP Life.marked + ts.countP Life.lost := by
  induction ts with
  | nil => rfl
  | cons t ts ih =>
    have hrest := ih fun t' hmem => h t' (List.mem_cons_of_mem _ hmem)
    have hsound := h t (List.mem_cons_self ..)
    have hone : (if t.real = true then 1 else 0) + (if t.marked = true then 1 else 0) +
        (if t.lost = true then 1 else 0) = 1 := by
      obtain ⟨phase, detached, join⟩ := t
      cases join with
      | none => cases phase <;> cases detached <;> rfl
      | returned | marked =>
        obtain ⟨hended, hdetached⟩ := hsound (by simp)
        simp only at hended hdetached
        subst hended hdetached
        rfl
    rw [List.length_cons, List.countP_cons, List.countP_cons, List.countP_cons, hrest]
    omega

/-! ### The process -/

/-- The bookkeeping, and the created threads: thread `i` of the list has the index `i + 1`. -/
structure LifeState where
  x : XThread
  threads : List Life

/-- A `thread_create` takes an index, or something happens to a created thread. -/
inductive Event
  | alloc (current tid : ℕ) (now : Clock)
  | thread (i : ℕ) (e : LifeEvent) (now : Clock)

/-- What an event of a created thread does to the bookkeeping: `startThread` notes the runtime, and
    `thread_join` the exit. -/
def record (i : ℕ) (now : Clock) (x : XThread) : LifeEvent → Except Fault XThread
  | .finish => .ok (startThreadEnd (i + 1) now.thread x)
  | .exit => markThreadExit now x
  | _ => .ok x

/-- One event, where it is possible and the bookkeeping does not fail. -/
def lifeStep (s : LifeState) : Event → Option LifeState
  | .alloc current tid now =>
    match allocThreadIndex current tid now s.x with
    | .error _ => none
    | .ok (_, x) => some ⟨x, s.threads ++ [Life.new]⟩
  | .thread i e now =>
    match s.threads[i]? with
    | none => none
    | some t =>
      match t.next e, record i now s.x e with
      | some t', .ok x => some ⟨x, s.threads.set i t'⟩
      | _, _ => none

/-- Several events, one after the other. -/
def lifeSteps : List Event → LifeState → Option LifeState
  | [], s => some s
  | e :: es, s => (lifeStep s e).bind (lifeSteps es)

/-- A process from `initialize` on. -/
def lifeRun (tid : ℕ) (begin : Clock) (es : List Event) : Option LifeState :=
  match initializeXThread tid begin {} with
  | .error _ => none
  | .ok x => lifeSteps es ⟨x, []⟩

/-- The initial thread, and the created ones that run or still have to be joined. -/
def LifeState.alive (s : LifeState) : ℕ := 1 + s.threads.countP Life.real

/-- What holds in every state of a process. -/
structure LifeInv (s : LifeState) : Prop where
  sound : ∀ t ∈ s.threads, t.Sound
  count : s.x.aliveThreads + s.threads.countP Life.marked = 1 + s.threads.length
  le : s.x.aliveThreads ≤ maxAliveThreads
  tiled : s.x.levels.Tiled
  level : s.x.threadLevel < maxThreadLevels

/-- **The count.**  `xthread` counts the threads that are alive and those it lost. -/
theorem LifeInv.aliveThreads {s : LifeState} (h : LifeInv s) :
    s.x.aliveThreads = s.alive + s.threads.countP Life.lost := by
  have hcount := h.count
  rw [length_eq_counts h.sound] at hcount
  rw [LifeState.alive]
  omega

/-- An operation that succeeds does what the levels say. -/
theorem applyOp_levels {x y : XThread} {op : Op} (h : applyOp op x = .ok y)
    (hpos : 1 ≤ x.aliveThreads) (hacc : OpAccepted x.threadIndex x.aliveThreads op)
    (hlegal : JoinLegal x.aliveThreads op) (hlevel : x.threadLevel < maxThreadLevels) :
    y.levels = x.levels.after op ∧ y.threadLevel < maxThreadLevels := by
  have hf := applyOp_follows hpos hacc hlegal hlevel
  by_cases hlt : (x.levels.after op).level < maxThreadLevels
  · obtain ⟨z, hz, hlevels⟩ := hf.inside hlt
    obtain rfl := Except.ok.inj (h.symm.trans hz)
    exact ⟨hlevels, by rw [← hlevels] at hlt; exact hlt⟩
  · rw [hf.outside (Nat.not_lt.mp hlt)] at h
    exact absurd h (by simp)

/-- What an event of the process requires, and what it does. -/
theorem lifeStep_cases {s s' : LifeState} {ev : Event} (h : lifeStep s ev = some s') :
    (∃ current tid now index x, ev = .alloc current tid now ∧
      allocThreadIndex current tid now s.x = .ok (index, x) ∧ s' = ⟨x, s.threads ++ [Life.new]⟩) ∨
    (∃ i e now t t' x, ev = .thread i e now ∧ s.threads[i]? = some t ∧ t.next e = some t' ∧
      record i now s.x e = .ok x ∧ s' = ⟨x, s.threads.set i t'⟩) := by
  cases ev with
  | alloc current tid now =>
    simp only [lifeStep] at h
    split at h
    · exact absurd h (by simp)
    · rename_i index x hx
      exact .inl ⟨current, tid, now, index, x, rfl, hx, (Option.some.inj h).symm⟩
  | thread i e now =>
    simp only [lifeStep] at h
    split at h
    · exact absurd h (by simp)
    · rename_i t ht
      split at h
      · rename_i t' x hnext hx
        exact .inr ⟨i, e, now, t, t', x, rfl, ht, hnext, hx, (Option.some.inj h).symm⟩
      · exact absurd h (by simp)

/-- A creation keeps the invariant. -/
theorem LifeInv.alloc {s : LifeState} (hI : LifeInv s) {current tid index : ℕ} {now : Clock}
    {x : XThread} (hx : allocThreadIndex current tid now s.x = .ok (index, x)) :
    LifeInv ⟨x, s.threads ++ [Life.new]⟩ := by
  obtain ⟨hlt, hstep⟩ := allocThreadIndex_ok hx hI.tiled.pos hI.le
  -- for the levels it is a `thread_create` that succeeds
  have hop : applyOp (.threadCreate current tid 0 now) s.x = .ok x := by
    rw [applyOp, threadCreate, hx]
    rfl
  obtain ⟨hlevels, hlevel⟩ := applyOp_levels hop hI.tiled.pos
    ⟨(allocThreadIndex_index hx).2.1, hlt⟩ trivial hI.level
  have halive : x.aliveThreads = s.x.aliveThreads + 1 := hstep.alive
  refine ⟨?_, ?_, ?_, ?_, hlevel⟩
  · intro t ht
    rcases List.mem_append.mp ht with ht | ht
    · exact hI.sound t ht
    · rw [List.mem_singleton.mp ht]
      exact fun hj => absurd rfl hj
  · have hcount := hI.count
    simp only [List.countP_append, List.length_append, List.length_singleton, halive]
    rw [show [Life.new].countP Life.marked = 0 from rfl]
    omega
  · show x.aliveThreads ≤ maxAliveThreads
    rw [halive]
    exact hlt
  · show x.levels.Tiled
    rw [hlevels]
    exact hI.tiled.after trivial

/-- The count of the marked threads when one of them changes. -/
theorem countP_set_marked {ts : List Life} {i : ℕ} {t : Life} (t' : Life) (ht : ts[i]? = some t) :
    (ts.set i t').countP Life.marked + (if t.marked then 1 else 0) =
      ts.countP Life.marked + (if t'.marked then 1 else 0) := by
  obtain ⟨hi, rfl⟩ := List.getElem?_eq_some_iff.mp ht
  rw [List.countP_set hi]
  have hle : (if ts[i].marked = true then 1 else 0) ≤ ts.countP Life.marked := by
    split
    · rename_i hmarked
      exact List.countP_pos_iff.mpr ⟨ts[i], List.getElem_mem hi, hmarked⟩
    · exact Nat.zero_le _
  omega

/-- An event of one thread keeps the invariant. -/
theorem LifeInv.thread {s : LifeState} (hI : LifeInv s) {i : ℕ} {e : LifeEvent} {now : Clock}
    {t t' : Life} {x : XThread} (ht : s.threads[i]? = some t) (hnext : t.next e = some t')
    (hx : record i now s.x e = .ok x) : LifeInv ⟨x, s.threads.set i t'⟩ := by
  have hsound : t.Sound := hI.sound t (List.mem_of_getElem? ht)
  have hsound' : ∀ u ∈ s.threads.set i t', u.Sound := by
    intro u hu
    rcases List.mem_or_eq_of_mem_set hu with hu | rfl
    · exact hI.sound u hu
    · exact hsound.next hnext
  have hset := countP_set_marked t' ht
  have hcount := hI.count
  by_cases he : e = .exit
  · subst he
    obtain ⟨hno, hyes⟩ := Life.marked_exit hnext
    simp only [hno, hyes, Bool.false_eq_true, if_false, if_true] at hset
    -- an unmarked thread besides the initial one
    have htwo : 2 ≤ s.x.aliveThreads := by
      have := List.countP_le_length (p := Life.marked) (l := s.threads.set i t')
      rw [List.length_set] at this
      omega
    have hstep := markThreadExit_ok (show markThreadExit now s.x = .ok x from hx) htwo
    -- and for the levels a `thread_join` that succeeds
    have hop : applyOp (.threadJoin 0 now) s.x = .ok x := by
      rw [applyOp, threadJoin, if_pos rfl, show markThreadExit now s.x = .ok x from hx]
      rfl
    obtain ⟨hlevels, hlevel⟩ := applyOp_levels hop hI.tiled.pos trivial (fun _ => htwo) hI.level
    have halive : x.aliveThreads = s.x.aliveThreads - 1 := hstep.alive
    have hle := hI.le
    refine ⟨hsound', ?_, show x.aliveThreads ≤ _ by omega, ?_, hlevel⟩
    · simp only [List.length_set, halive]
      omega
    · show x.levels.Tiled
      rw [hlevels]
      exact hI.tiled.after fun _ => htwo
  · have hsame : x.levels = s.x.levels := by
      cases e with
      | exit => exact absurd rfl he
      | finish | created d | detach | joined =>
        obtain rfl := Except.ok.inj hx
        rfl
    have hmarked := Life.marked_of_ne hsound hnext he
    rw [hmarked, Nat.add_right_cancel_iff] at hset
    have halive : x.aliveThreads = s.x.aliveThreads := congrArg Levels.alive hsame
    refine ⟨hsound', ?_, ?_, ?_, ?_⟩
    · simp only [List.length_set, halive, hset]
      exact hcount
    · show x.aliveThreads ≤ _
      rw [halive]
      exact hI.le
    · show x.levels.Tiled
      rw [hsame]
      exact hI.tiled
    · show x.threadLevel < _
      rw [show x.threadLevel = _ from congrArg Levels.level hsame]
      exact hI.level

/-- Every event keeps the invariant. -/
theorem LifeInv.step {s s' : LifeState} {ev : Event} (hI : LifeInv s)
    (h : lifeStep s ev = some s') : LifeInv s' := by
  rcases lifeStep_cases h with ⟨current, tid, now, index, x, -, hx, rfl⟩ |
    ⟨i, e, now, t, t', x, -, ht, hnext, hx, rfl⟩
  · exact hI.alloc hx
  · exact hI.thread ht hnext hx

/-- Several events keep the invariant. -/
theorem LifeInv.steps {s s' : LifeState} {es : List Event} (hI : LifeInv s)
    (h : lifeSteps es s = some s') : LifeInv s' := by
  induction es generalizing s with
  | nil =>
    obtain rfl := Option.some.inj h
    exact hI
  | cons ev es ih =>
    obtain ⟨s₁, hstep, hrest⟩ := Option.bind_eq_some_iff.mp h
    exact ih (hI.step hstep) hrest

/-- **Runs.** -/
theorem LifeInv.run {tid : ℕ} {begin : Clock} {es : List Event} {s : LifeState}
    (h : lifeRun tid begin es = some s) : LifeInv s := by
  obtain ⟨x, hx, hlevels⟩ := initializeXThread_levels tid begin
  rw [lifeRun, hx] at h
  have halive : x.aliveThreads = 1 := congrArg Levels.alive hlevels
  refine LifeInv.steps ⟨?_, ?_, ?_, ?_, ?_⟩ h
  · exact fun t ht => absurd ht List.not_mem_nil
  · exact halive
  · show x.aliveThreads ≤ _
    rw [halive]
    decide
  · show x.levels.Tiled
    rw [hlevels]
    exact Levels.first_tiled _
  · show x.threadLevel < _
    rw [show x.threadLevel = _ from congrArg Levels.level hlevels]
    exact show 0 < maxThreadLevels by decide

/-! ### Lost threads -/

/-- Every thread that was detached is still running. -/
def NoneLost (s : LifeState) : Prop := ∀ t ∈ s.threads, t.detached = true → t.phase ≠ .ended

/-- No thread is lost when none is counted as lost. -/
theorem noneLost_iff (s : LifeState) : NoneLost s ↔ s.threads.countP Life.lost = 0 := by
  simp only [NoneLost, List.countP_eq_zero, Life.lost, Bool.and_eq_true, decide_eq_true_eq,
    not_and]

/-- What is lost in a state was not lost before only if it was not yet lost. -/
theorem NoneLost.of_step {s s' : LifeState} {ev : Event} (h : NoneLost s')
    (hstep : lifeStep s ev = some s') : NoneLost s := by
  rw [noneLost_iff, List.countP_eq_zero] at h ⊢
  intro u hu hlost
  rcases lifeStep_cases hstep with ⟨current, tid, now, index, x, -, -, rfl⟩ |
    ⟨i, e, now, t, t', x, -, ht, hnext, -, rfl⟩
  · exact h u (List.mem_append_left _ hu) hlost
  · obtain ⟨j, hj, rfl⟩ := List.getElem_of_mem hu
    obtain ⟨hi, rfl⟩ := List.getElem?_eq_some_iff.mp ht
    by_cases hij : i = j
    · subst hij
      exact h t' (List.mem_set hi _) (Life.lost_next hnext hlost)
    · refine h s.threads[j] ?_ hlost
      rw [List.mem_iff_getElem]
      exact ⟨j, by rwa [List.length_set], by rw [List.getElem_set_ne hij]⟩

/-- A lost thread stays lost. -/
theorem NoneLost.of_steps {s s' : LifeState} {es : List Event} (h : NoneLost s')
    (hsteps : lifeSteps es s = some s') : NoneLost s := by
  induction es generalizing s with
  | nil =>
    obtain rfl := Option.some.inj hsteps
    exact h
  | cons ev es ih =>
    obtain ⟨s₁, hstep, hrest⟩ := Option.bind_eq_some_iff.mp hsteps
    exact (ih hrest).of_step hstep

/-- The bookkeeping is right about the threads that are alive: it counts no more, so that
    `allocThreadIndex` finds too many only if there are, and a process whose created threads have
    all ended and been joined or detached is in a serial level. -/
structure Faithful (s : LifeState) : Prop where
  count : s.x.aliveThreads ≤ s.alive
  abort : s.x.aliveThreads ≥ maxAliveThreads → s.alive ≥ maxAliveThreads
  serial : (∀ t ∈ s.threads, t.phase = .ended ∧ (t.join = .marked ∨ t.detached = true)) →
    s.x.isMultithreading = false ∧ s.x.threadLevel % 2 = 0

/-- The count of alive threads is right exactly when none is lost. -/
theorem LifeInv.faithful_iff {s : LifeState} (hI : LifeInv s) : Faithful s ↔ NoneLost s := by
  rw [noneLost_iff]
  have hcount := hI.aliveThreads
  constructor
  · intro h
    have := h.count
    omega
  · intro hnone
    refine ⟨by omega, by omega, fun hgone => ?_⟩
    have hreal : s.threads.countP Life.real = 0 := by
      rw [List.countP_eq_zero]
      intro t ht hreal
      obtain ⟨hended, hjoin | hdetached⟩ := hgone t ht
      · simp [Life.real, hended, hjoin] at hreal
      · simp [Life.real, hended, hdetached] at hreal
    have hone : s.x.aliveThreads = 1 := by
      rw [hcount, LifeState.alive, hreal, hnone]
    have hserial : ¬ 1 < s.x.levels.alive := by
      show ¬ 1 < s.x.aliveThreads
      omega
    refine ⟨Bool.eq_false_iff.mpr fun hmulti => hserial (hI.tiled.parallel.mp hmulti), ?_⟩
    have hodd : ¬ s.x.threadLevel % 2 = 1 := fun hodd => hserial (hI.tiled.odd.mpr hodd)
    omega

/-- Some events, and then others. -/
theorem lifeSteps_append (pre post : List Event) (s : LifeState) :
    lifeSteps (pre ++ post) s = (lifeSteps pre s).bind (lifeSteps post) := by
  induction pre generalizing s with
  | nil => rfl
  | cons ev pre ih =>
    simp only [List.cons_append, lifeSteps, Option.bind_assoc]
    exact congrArg _ (funext ih)

/-- A run, and then other events. -/
theorem lifeRun_append (tid : ℕ) (begin : Clock) (pre post : List Event) :
    lifeRun tid begin (pre ++ post) = (lifeRun tid begin pre).bind (lifeSteps post) := by
  obtain ⟨x, hx, -⟩ := initializeXThread_levels tid begin
  rw [lifeRun, lifeRun, hx]
  exact lifeSteps_append pre post ⟨x, []⟩

/-- **The threads that are alive.**  In every state of a process the bookkeeping is right about them
    if and only if no detached thread ends. -/
theorem aliveThreads_faithful_iff (tid : ℕ) (begin : Clock) (es : List Event) (s : LifeState)
    (h : lifeRun tid begin es = some s) :
    (∀ pre post s', es = pre ++ post → lifeRun tid begin pre = some s' → Faithful s') ↔
      ∀ t ∈ s.threads, t.detached = true → t.phase ≠ .ended := by
  constructor
  · intro hall
    exact (LifeInv.run h).faithful_iff.mp (hall es [] s (List.append_nil es).symm h)
  · rintro hnone pre post s' rfl hpre
    rw [lifeRun_append, hpre] at h
    exact (LifeInv.run hpre).faithful_iff.mpr (NoneLost.of_steps hnone h)

/-- A thread that is created, ends and is joined. -/
def joinedThread : List Event :=
  [.alloc 0 1 ⟨0, 0, 0⟩, .thread 0 (.created false) ⟨0, 0, 0⟩, .thread 0 .finish ⟨0, 0, 0⟩,
   .thread 0 .joined ⟨0, 0, 0⟩, .thread 0 .exit ⟨0, 0, 0⟩]

/-- The count is right all along when the thread is joined. -/
theorem aliveThreads_faithful_iff_joinedThread :
    ∃ s, lifeRun 1 ⟨0, 0, 0⟩ joinedThread = some s ∧
      ∀ pre post s', joinedThread = pre ++ post → lifeRun 1 ⟨0, 0, 0⟩ pre = some s' →
        Faithful s' :=
  ⟨_, rfl, (aliveThreads_faithful_iff 1 ⟨0, 0, 0⟩ joinedThread _ rfl).mpr (by
    intro t ht
    obtain rfl := List.mem_singleton.mp ht
    exact fun hdetached => absurd hdetached Bool.false_ne_true)⟩

/-- A thread that is created detached and ends. -/
def detachedThread : List Event :=
  [.alloc 0 1 ⟨0, 0, 0⟩, .thread 0 (.created true) ⟨0, 0, 0⟩, .thread 0 .finish ⟨0, 0, 0⟩]

/-- Only the initial thread is left, and two are counted, in a parallel level. -/
theorem detachedThread_counted :
    (lifeRun 1 ⟨0, 0, 0⟩ detachedThread).map
        (fun s => (s.x.aliveThreads, s.alive, s.x.isMultithreading, s.x.threadLevel)) =
      some (2, 1, true, 1) := by
  decide

end SyncPerf.XThread
