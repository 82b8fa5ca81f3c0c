import SyncPerf.Lifecycle

namespace SyncPerf.XThread

/-!
# What a thread creation writes

`allocThreadIndex` does all its bookkeeping before `pthread_create` is called, and notes the level of
a new thread before it changes the level.

* `Reached` — what holds in every state of a process;
* `SameBookkeeping`, `threadCreate_failed` — a creation that fails is counted like any other one;
* `allocThreadIndex_view` — what a creation writes into the threads' entries;
* `CreatedAlone`, `levelIndex_iff` — the level that a thread has noted.
-/

/-! ### Reachable states -/

/-- What holds in every state of a process. -/
structure Reached (x : XThread) : Prop where
  tiled : x.levels.Tiled
  le : x.aliveThreads ≤ maxAliveThreads
  level : x.threadLevel < maxThreadLevels

/-- An event that succeeds was accepted. -/
theorem Reached.accepted {x y : XThread} (hx : Reached x) {op : Op} (h : applyOp op x = .ok y) :
    OpAccepted x.threadIndex x.aliveThreads op := by
  cases op with
  | threadCreate current tid result now =>
    obtain ⟨index, halloc⟩ := applyOp_threadCreate h
    exact ⟨(allocThreadIndex_index halloc).2.1, (allocThreadIndex_ok halloc hx.tiled.pos hx.le).1⟩
  | threadJoin ret now | startThreadEnd current now => trivial

/-- **One event.** -/
theorem Reached.applyOp {x y : XThread} (hx : Reached x) {op : Op} (h : applyOp op x = .ok y)
    (hlegal : JoinLegal x.aliveThreads op) : Reached y ∧ y.levels = x.levels.after op := by
  obtain ⟨hlevels, hlevel⟩ := applyOp_levels h hx.tiled.pos (hx.accepted h) hlegal hx.level
  have hle := (applyOp_ok h hlegal hx.tiled.pos hx.le).1
  exact ⟨⟨hlevels ▸ hx.tiled.after hlegal, hle, hlevel⟩, hlevels⟩

/-- The count of alive threads follows the operation. -/
theorem Reached.aliveThreads {x y : XThread} {op : Op} (h : y.levels = x.levels.after op) :
    y.aliveThreads = aliveAfter x.aliveThreads op :=
  (congrArg Levels.alive h).trans (Levels.after_alive ..)

/-- **Runs.** -/
theorem Reached.runOps {x y : XThread} (hx : Reached x) {ops : List Op} (h : runOps ops x = .ok y)
    (hlegal : JoinsLegal x.aliveThreads ops) : Reached y ∧ y.levels = x.levels.run ops := by
  induction ops generalizing x with
  | nil =>
    obtain rfl := Except.ok.inj h
    exact ⟨hx, rfl⟩
  | cons op ops ih =>
    rw [XThread.runOps] at h
    split at h
    · cases h
    · rename_i z hz
      obtain ⟨hreached, hlevels⟩ := hx.applyOp hz hlegal.1
      have hlegal' : JoinsLegal z.aliveThreads ops := by
        rw [Reached.aliveThreads hlevels]
        exact hlegal.2
      obtain ⟨hy, hrun⟩ := ih hreached h hlegal'
      rw [hlevels] at hrun
      exact ⟨hy, hrun⟩

/-- Every state of a process is reached from the first one. -/
theorem begun_reached {tid : ℕ} {begin : Clock} {ops : List Op} {x : XThread}
    (h : begun tid begin ops = .ok x) (hlegal : JoinsLegal 1 ops) :
    Reached x ∧ x.levels = (Levels.first begin.start).run ops := by
  obtain ⟨x₀, hx₀, hlevels⟩ := initializeXThread_levels tid begin
  have halive : x₀.aliveThreads = 1 := congrArg Levels.alive hlevels
  have hlevel : x₀.threadLevel = 0 := congrArg Levels.level hlevels
  have hreached : Reached x₀ := by
    refine ⟨hlevels ▸ Levels.first_tiled begin.start, ?_, ?_⟩
    · rw [halive]
      decide
    · rw [hlevel]
      decide
  rw [begun, hx₀] at h
  rw [← hlevels]
  exact hreached.runOps h (by rw [halive]; exact hlegal)

/-! ### A creation that fails -/

/-- The counters, the phase and the ranges of the levels are the same. -/
structure SameBookkeeping (x y : XThread) : Prop where
  aliveThreads : y.aliveThreads = x.aliveThreads
  threadLevel : y.threadLevel = x.threadLevel
  isMultithreading : y.isMultithreading = x.isMultithreading
  beginIndex : ∀ l, (y.threadLevelInfo l).beginIndex = (x.threadLevelInfo l).beginIndex
  endIndex : ∀ l, (y.threadLevelInfo l).endIndex = (x.threadLevelInfo l).endIndex

/-- Joins that succeed. -/
def joins (n : ℕ) (now : Clock) : List Op := List.replicate n (.threadJoin 0 now)

/-- There are threads to join. -/
theorem joins_legal {n alive : ℕ} (now : Clock) (h : n < alive) : JoinsLegal alive (joins n now) := by
  induction n generalizing alive with
  | zero => trivial
  | succ n ih => exact ⟨fun _ => by omega, @ih (alive - 1) (by omega)⟩

/-- Every join leaves one thread less. -/
theorem joins_alive (v : Levels) (n : ℕ) (now : Clock) :
    (v.run (joins n now)).alive = v.alive - n := by
  induction n generalizing v with
  | zero => rfl
  | succ n ih =>
    have hcons : joins (n + 1) now = .threadJoin 0 now :: joins n now := rfl
    rw [hcons, Levels.run_cons, ih, Levels.after_alive, aliveAfter, if_pos rfl]
    omega

/-- **A failed creation is counted.**  In every state of a process a call of `thread_create` whose
    `pthread_create` fails changes the bookkeeping; and when afterwards all other threads are
    joined, the process is in a parallel phase instead of a serial one. -/
theorem threadCreate_failed {tid : ℕ} {begin : Clock} {ops : List Op} {x : XThread}
    (hx : begun tid begin ops = .ok x) (hlegal : JoinsLegal 1 ops) {current ptid : ℕ}
    {result r : ℤ} {now : Clock} {y : XThread}
    (h : threadCreate current ptid result now x = .ok (r, y)) (_hfail : result ≠ 0) :
    ¬ SameBookkeeping x y ∧
      ∀ later, JoinsLegal x.aliveThreads (joins (x.aliveThreads - 1) later) ∧
        ∀ x' y', runOps (joins (x.aliveThreads - 1) later) x = .ok x' →
          runOps (joins (x.aliveThreads - 1) later) y = .ok y' →
          x'.isMultithreading = false ∧ y'.isMultithreading = true := by
  have hreached := (begun_reached hx hlegal).1
  have happly : applyOp (.threadCreate current ptid result now) x = .ok y := by
    rw [XThread.applyOp, h]
    rfl
  obtain ⟨hy, hlevels⟩ := hreached.applyOp happly trivial
  have hpos : 1 ≤ x.aliveThreads := hreached.tiled.pos
  have halive : y.aliveThreads = x.aliveThreads + 1 := Reached.aliveThreads hlevels
  refine ⟨fun hsame => ?_, fun later => ⟨joins_legal later (by omega), fun x' y' hx' hy' => ?_⟩⟩
  · have heq := hsame.aliveThreads
    omega
  · obtain ⟨hreachedx, hrunx⟩ := hreached.runOps hx' (joins_legal later (by omega))
    obtain ⟨hreachedy, hruny⟩ := hy.runOps hy' (joins_legal later (by omega))
    have hone : x'.aliveThreads = x.aliveThreads - (x.aliveThreads - 1) :=
      (congrArg Levels.alive hrunx).trans (joins_alive ..)
    have htwo : y'.aliveThreads = y.aliveThreads - (x.aliveThreads - 1) :=
      (congrArg Levels.alive hruny).trans (joins_alive ..)
    refine ⟨Bool.eq_false_iff.mpr fun hp => ?_, hreachedy.tiled.parallel.mpr ?_⟩
    · have hmany : 1 < x'.aliveThreads := hreachedx.tiled.parallel.mp hp
      omega
    · show 1 < y'.aliveThreads
      omega

/-- The initial thread creates a thread, and `pthread_create` fails with `EAGAIN`. -/
theorem failed_first : ∃ x y, begun 1 ⟨0, 0, 0⟩ [] = .ok x ∧
    threadCreate 0 1 11 ⟨1, 1, 1⟩ x = .ok (11, y) := ⟨_, _, rfl, rfl⟩

/-- A creation that fails changes the bookkeeping of a new process. -/
theorem threadCreate_failed_first : ∃ x y, begun 1 ⟨0, 0, 0⟩ [] = .ok x ∧
    threadCreate 0 1 11 ⟨1, 1, 1⟩ x = .ok (11, y) ∧ ¬ SameBookkeeping x y := by
  obtain ⟨x, y, hx, hy⟩ := failed_first
  exact ⟨x, y, hx, hy, (threadCreate_failed hx trivial hy (by decide)).1⟩

/-- **After that call** two threads are alive, in a parallel level. -/
theorem failed_first_counted : ∃ x y, begun 1 ⟨0, 0, 0⟩ [] = .ok x ∧
    threadCreate 0 1 11 ⟨1, 1, 1⟩ x = .ok (11, y) ∧
    x.aliveThreads = 1 ∧ x.threadLevel = 0 ∧ x.isMultithreading = false ∧
    y.aliveThreads = 2 ∧ y.threadLevel = 1 ∧ y.isMultithreading = true :=
  ⟨_, _, rfl, rfl, rfl, rfl, rfl, rfl, rfl, rfl⟩

/-! ### The entries of the threads -/

section

variable {α : Type} {view : Thread → α} {x y z : XThread}

/-- What `view` shows of the threads' entries is the same. -/
def SameThreads (view : Thread → α) (x y : XThread) : Prop :=
  ∀ j, view (y.threads j) = view (x.threads j)

/-- `view` shows nothing of a thread's parent and children. -/
def ApartFromFamily (view : Thread → α) : Prop :=
  ∀ t childBeginIndex childEndIndex pindex parentRuntime,
    view { t with
      childBeginIndex := childBeginIndex, childEndIndex := childEndIndex
      pindex := pindex, parentRuntime := parentRuntime } = view t

/-- A process and itself. -/
theorem SameThreads.refl (x : XThread) : SameThreads view x x := fun _ => rfl

/-- A write that `view` does not show. -/
theorem SameThreads.modifyThread (h : SameThreads view x y) (i : ℕ) {f : Thread → Thread}
    (hf : ∀ t, view (f t) = view t) : SameThreads view x (y.modifyThread i f) := by
  intro j
  rw [← h j]
  unfold XThread.modifyThread
  by_cases hj : j = i
  · simp only [hj, Function.update_self, hf]
  · simp only [Function.update_of_ne hj]

/-- A change of a level's entry leaves the threads alone. -/
theorem SameThreads.modifyLevel (h : SameThreads view x y)
    {f : ThreadLevelInfo → ThreadLevelInfo} (hz : modifyLevel y f = .ok z) :
    SameThreads view x z := by
  obtain ⟨-, rfl⟩ := modifyLevel_ok hz
  exact h

/-- The beginning of the next level leaves the threads alone. -/
theorem SameThreads.nextLevel (h : SameThreads view x y) {index : ℕ} {now : Clock}
    (hz : nextLevel y index now = .ok z) : SameThreads view x z := by
  obtain ⟨-, rfl⟩ := nextLevel_ok hz
  exact h

/-- The end of a thread writes no entry. -/
theorem markThreadExit_view (view : Thread → α) {now : Clock} (h : markThreadExit now x = .ok y) :
    SameThreads view x y := by
  unfold markThreadExit at h
  simp only at h
  split at h
  · obtain ⟨-, rfl⟩ := nextLevel_ok h
    exact .refl x
  · obtain rfl := Except.ok.inj h
    exact .refl x

/-- **A new thread** gets its entry, and the others keep theirs, but for parents and children. -/
theorem allocThreadIndex_view (view : Thread → α) (hview : ApartFromFamily view)
    {current tid index : ℕ} {now : Clock} (h : allocThreadIndex current tid now x = .ok (index, y)) (j : ℕ) :
    view (y.threads j) =
      if j = x.threadIndex then
        view { x.threads j with
          ptid := tid, index := x.threadIndex, levelIndex := x.threadLevel
          startTime := getTsc now.thread }
      else view (x.threads j) := by
  -- the entry is written first
  obtain ⟨x₁, hx₁⟩ : ∃ x₁, x₁ = modifyThread
      { x with
        threadIndex := (x.threadIndex + 1) % 2 ^ 64
        aliveThreads := (x.aliveThreads + 1) % 2 ^ 64 } x.threadIndex fun t =>
      { t with ptid := tid, index := x.threadIndex, levelIndex := x.threadLevel,
               startTime := getTsc now.thread } := ⟨_, rfl⟩
  have hkeep : SameThreads view x₁ y := by
    have hself : SameThreads view x₁ x₁ := .refl x₁
    simp only [allocThreadIndex] at h
    rw [← hx₁] at h
    split at h
    · cases h
    · split at h
      · cases h
      · rename_i z hz
        have hleveled : SameThreads view x₁ z := by
          split at hz
          · exact hself.modifyLevel hz
          · split at hz
            · -- the parent notes its first child
              refine SameThreads.nextLevel (SameThreads.modifyThread ?_ current ?_) hz
              · exact hself
              · exact fun t => hview t _ _ t.pindex t.parentRuntime
            · split at hz
              · split at hz
                · cases hz
                · rename_i w hw
                  obtain rfl := Except.ok.inj hz
                  refine (hself.modifyLevel hw).modifyThread current fun t => ?_
                  split
                  · exact hview t t.childBeginIndex _ t.pindex t.parentRuntime
                  · rfl
              · obtain rfl := Except.ok.inj hz
                exact hself
        split at h
        · obtain ⟨-, rfl⟩ := Prod.mk.inj (Except.ok.inj h)
          exact hleveled.modifyThread _ fun t => hview t t.childBeginIndex t.childEndIndex _ _
        · obtain ⟨-, rfl⟩ := Prod.mk.inj (Except.ok.inj h)
          exact hleveled.modifyThread _ fun t => hview t t.childBeginIndex t.childEndIndex _ _
  rw [hkeep j, hx₁, modifyThread]
  by_cases hj : j = x.threadIndex
  · rw [if_pos hj, hj]
    simp only [Function.update_self]
  · rw [if_neg hj]
    simp only [Function.update_of_ne hj]

end

/-! ### The level that a thread has noted -/

/-- A new thread notes the level that is current before its creation, and the others keep theirs. -/
theorem allocThreadIndex_levelIndex {x y : XThread} {current tid index : ℕ} {now : Clock}
    (h : allocThreadIndex current tid now x = .ok (index, y)) (j : ℕ) :
    (y.threads j).levelIndex =
      if j = x.threadIndex then x.threadLevel else (x.threads j).levelIndex :=
  allocThreadIndex_view Thread.levelIndex (fun _ _ _ _ _ => rfl) h j

/-- No event changes the noted level of a thread that is there. -/
theorem applyOp_levelIndex {x y : XThread} {op : Op} (h : applyOp op x = .ok y) {j : ℕ}
    (hj : j < x.threadIndex) :
    (y.threads j).levelIndex = (x.threads j).levelIndex ∧ j < y.threadIndex := by
  cases op with
  | threadCreate current tid result now =>
    obtain ⟨index, halloc⟩ := applyOp_threadCreate h
    refine ⟨?_, ?_⟩
    · rw [allocThreadIndex_levelIndex halloc, if_neg hj.ne]
    · rw [(allocThreadIndex_index halloc).2.2]
      exact Nat.lt_succ_of_lt hj
  | threadJoin ret now =>
    obtain ⟨-, hexit⟩ | ⟨-, rfl⟩ := applyOp_threadJoin h
    · exact ⟨markThreadExit_view Thread.levelIndex hexit j, (markThreadExit_index hexit).symm ▸ hj⟩
    · exact ⟨rfl, hj⟩
  | startThreadEnd current now =>
    obtain rfl := Except.ok.inj h
    have hsame : SameThreads Thread.levelIndex x (startThreadEnd current now.thread x) :=
      (SameThreads.refl x).modifyThread current fun t => rfl
    exact ⟨hsame j, hj⟩

/-- Later operations leave a thread's `levelIndex` alone. -/
theorem runOps_levelIndex {x y : XThread} {ops : List Op} (h : runOps ops x = .ok y) {j : ℕ}
    (hj : j < x.threadIndex) : (y.threads j).levelIndex = (x.threads j).levelIndex := by
  induction ops generalizing x with
  | nil =>
    obtain rfl := Except.ok.inj h
    rfl
  | cons op ops ih =>
    rw [runOps] at h
    split at h
    · cases h
    · rename_i z hz
      obtain ⟨hkeep, hlt⟩ := applyOp_levelIndex hz hj
      rw [ih h hlt, hkeep]

/-- Some operations, and then others. -/
theorem runOps_append (pre post : List Op) (x : XThread) :
    runOps (pre ++ post) x =
      match runOps pre x with
      | .error e => .error e
      | .ok y => runOps post y := by
  induction pre generalizing x with
  | nil => rfl
  | cons op pre ih =>
    rw [List.cons_append, runOps, runOps]
    cases applyOp op x with
    | error e => rfl
    | ok y => exact ih y

/-- A process does some operations, and then others. -/
theorem begun_append {tid : ℕ} {begin : Clock} {pre : List Op} {y : XThread}
    (h : begun tid begin pre = .ok y) (post : List Op) :
    begun tid begin (pre ++ post) = runOps post y := by
  unfold begun at h ⊢
  cases hinit : initializeXThread tid begin {} with
  | error e =>
    rw [hinit] at h
    cases h
  | ok x =>
    rw [hinit] at h
    simp only at h ⊢
    rw [runOps_append, h]

/-- Thread `i` is created while only one thread is alive. -/
def CreatedAlone (tid : ℕ) (begin : Clock) (ops : List Op) (i : ℕ) : Prop :=
  ∃ pre current ptid result now post x,
    ops = pre ++ .threadCreate current ptid result now :: post ∧
    begun tid begin pre = .ok x ∧ x.threadIndex = i ∧ x.aliveThreads = 1

/-- The state `x` before the creation of a thread, and the level `l` in which it is created. -/
theorem levelIndex_of_created {tid : ℕ} {begin : Clock} {pre post : List Op} {current ptid : ℕ}
    {result : ℤ} {now : Clock} {x z : XThread} (hx : begun tid begin pre = .ok x)
    (hlegal : JoinsLegal 1 (pre ++ .threadCreate current ptid result now :: post))
    (hz : begun tid begin (pre ++ .threadCreate current ptid result now :: post) = .ok z) :
    (z.threads x.threadIndex).levelIndex = x.threadLevel ∧
      ∃ y, begun tid begin (pre ++ [.threadCreate current ptid result now]) = .ok y ∧
        y.threadLevel = if x.aliveThreads = 1 then x.threadLevel + 1 else x.threadLevel := by
  have hreached := (begun_reached hx hlegal.of_append).1
  rw [begun_append hx, runOps] at hz
  split at hz
  · cases hz
  · rename_i y hy
    have hlevels := (hreached.applyOp hy trivial).2
    have hindex : y.threadIndex = x.threadIndex + 1 :=
      (congrArg Levels.created hlevels).trans (Levels.after_created ..)
    have hlevel := (congrArg Levels.level hlevels).trans (Levels.after_level ..)
    refine ⟨?_, y, ?_, ?_⟩
    · rw [runOps_levelIndex hz (by omega)]
      obtain ⟨index, halloc⟩ := applyOp_threadCreate hy
      rw [allocThreadIndex_levelIndex halloc, if_pos rfl]
    · rw [begun_append hx, runOps, hy]
      rfl
    · rw [show y.threadLevel = _ from hlevel]
      simp only [changesLevel, decide_eq_true_eq]
      rfl

/-- **The noted level.**  A thread has noted the parallel level in which it was created, whose range
    it is in, exactly when another thread was alive besides its creator; the first thread of a
    parallel level has noted the serial level before it. -/
theorem levelIndex_iff (tid : ℕ) (begin : Clock) (ops : List Op) (hacc : OpsAccepted 1 1 ops)
    (hlegal : JoinsLegal 1 ops) (hlevels : (levelChanges 1 ops).length < maxThreadLevels) :
    ∃ z, begun tid begin ops = .ok z ∧ ∀ i, 1 ≤ i → i < z.threadIndex →
      ∃ l, CreatedIn tid begin ops i l ∧ InRange z.threadLevelInfo z.threadLevel l i ∧
        ((z.threads i).levelIndex = l ↔ ¬ CreatedAlone tid begin ops i) ∧
        (CreatedAlone tid begin ops i → (z.threads i).levelIndex + 1 = l) := by
  have hsplit : ops ++ [] = ops := List.append_nil ops
  obtain ⟨z, hz, hzlevels⟩ := @begun_ok _ tid begin ops []
    (by rw [hsplit]; exact hacc) (by rw [hsplit]; exact hlegal) (by rw [hsplit]; exact hlevels)
  have hfirst := Levels.first_tiled begin.start
  have hrange : ∀ {i l}, InRange z.threadLevelInfo z.threadLevel l i ↔
      CreatedIn tid begin ops i l := by
    intro i l
    rw [createdIn_iff hacc hlegal hlevels, ← hfirst.inRange_iff rfl hlegal, ← hzlevels]
    rfl
  have htiled : z.levels.Tiled := (begun_reached hz hlegal).1.tiled
  refine ⟨z, hz, fun i hpos hlt => ?_⟩
  obtain ⟨l, hl⟩ := (htiled.ranges.cover i).mpr ⟨hpos, hlt⟩
  have hcreated := hrange.mp hl
  have halone : CreatedAlone tid begin ops i → (z.threads i).levelIndex + 1 = l := by
    rintro ⟨pre, current, ptid, result, now, post, x, rfl, hx, rfl, hone⟩
    obtain ⟨hnoted, y, hy, hlevel⟩ := levelIndex_of_created hx hlegal hz
    rw [if_pos hone] at hlevel
    -- the thread is in one level only
    have hin : InRange z.threadLevelInfo z.threadLevel y.threadLevel x.threadIndex :=
      hrange.mpr ⟨pre, current, ptid, result, now, post, x, y, rfl, hx, hy, rfl, rfl⟩
    rw [hnoted, ← hlevel]
    exact htiled.ranges.unique hin hl
  refine ⟨l, hcreated, hl, ⟨fun hnoted h => ?_, fun hnot => ?_⟩, halone⟩
  · have := halone h
    omega
  · obtain ⟨pre, current, ptid, result, now, post, x, y, rfl, hx, hy, rfl, rfl⟩ := hcreated
    obtain ⟨hnoted, y', hy', hlevel⟩ := levelIndex_of_created hx hlegal hz
    obtain rfl := Except.ok.inj (hy.symm.trans hy')
    have hmany : x.aliveThreads ≠ 1 := fun hone =>
      hnot ⟨pre, current, ptid, result, now, post, x, rfl, hx, rfl, hone⟩
    rw [hnoted, hlevel, if_neg hmany]

/-- The initial thread creates two threads. -/
def twoThreads : List Op := [.threadCreate 0 1 0 ⟨1, 1, 1⟩, .threadCreate 0 1 0 ⟨2, 2, 2⟩]

/-- The operations are accepted. -/
theorem twoThreads_accepted : OpsAccepted 1 1 twoThreads :=
  ⟨⟨by decide, by decide⟩, ⟨by decide, by decide⟩, trivial⟩

/-- One thread is created alone, and one beside it. -/
theorem levelIndex_iff_twoThreads :
    ∃ z, begun 1 ⟨0, 0, 0⟩ twoThreads = .ok z ∧ ∀ i, 1 ≤ i → i < z.threadIndex →
      ∃ l, CreatedIn 1 ⟨0, 0, 0⟩ twoThreads i l ∧
        ((z.threads i).levelIndex = l ↔ ¬ CreatedAlone 1 ⟨0, 0, 0⟩ twoThreads i) := by
  obtain ⟨z, hz, hthreads⟩ := levelIndex_iff 1 ⟨0, 0, 0⟩ twoThreads twoThreads_accepted
    ⟨trivial, trivial, trivial⟩ (by decide)
  refine ⟨z, hz, fun i hpos hlt => ?_⟩
  obtain ⟨l, hl, -, hnoted, -⟩ := hthreads i hpos hlt
  exact ⟨l, hl, hnoted⟩

/-- **The first thread of the level** has noted the serial level before, and the second one the
    parallel level of both. -/
theorem twoThreads_noted :
    ∃ z, begun 1 ⟨0, 0, 0⟩ twoThreads = .ok z ∧ CreatedIn 1 ⟨0, 0, 0⟩ twoThreads 1 1 ∧
      CreatedIn 1 ⟨0, 0, 0⟩ twoThreads 2 1 ∧ (z.threads 1).levelIndex = 0 ∧
      (z.threads 2).levelIndex = 1 := by
  refine ⟨_, rfl, ?_, ?_, rfl, rfl⟩
  · exact ⟨[], 0, 1, 0, ⟨1, 1, 1⟩, [.threadCreate 0 1 0 ⟨2, 2, 2⟩], _, _, rfl, rfl, rfl, rfl, rfl⟩
  · exact ⟨[.threadCreate 0 1 0 ⟨1, 1, 1⟩], 0, 1, 0, ⟨2, 2, 2⟩, [], _, _, rfl, rfl, rfl, rfl, rfl⟩

end SyncPerf.XThread
