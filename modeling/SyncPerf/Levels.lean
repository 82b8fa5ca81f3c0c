import SyncPerf.Report
import Mathlib.Algebra.BigOperators.Field
import Mathlib.Algebra.Order.BigOperators.Group.Finset

namespace SyncPerf.XThread

open Report

/-!
# Thread levels

The level bookkeeping of a run by itself: `Levels` has the counters and the level array, and
`Levels.after` says what an event does to them where nothing fails.

* `Follows`, `runOps_follows` — a run does what `Levels` does, until the array ends;
* `levelOutOfRange_iff` — the array is left exactly when a run changes the level too often;
* `Tiled`, `levels_tile` — parallel levels have the threads that they created, without gaps, and
  the levels share out the cycles of the run.
-/

/-! ### The levels of a run -/

section

variable [Rounding]

/-- The part of `XThread` that the levels need. -/
structure Levels where
  created : ℕ
  alive : ℕ
  parallel : Bool
  level : ℕ
  info : ℕ → ThreadLevelInfo

def levels (x : XThread) : Levels :=
  ⟨x.threadIndex, x.aliveThreads, x.isMultithreading, x.threadLevel, x.threadLevelInfo⟩

/-- The next level, serial and parallel in turn. -/
def Levels.next (v : Levels) (parallel : Bool) (now : Clock) : Levels :=
  { v with
    parallel := parallel
    level := v.level + 1
    info := started (stopped v.info v.level now.stop) (v.level + 1) v.created now.start }

/-- The levels after an event: the second thread that is alive makes a parallel level of it. -/
def Levels.after (v : Levels) : Op → Levels
  | .threadCreate _ _ _ now =>
    if v.alive = 1 then { v.next true now with created := v.created + 1, alive := v.alive + 1 }
    else { v with
      created := v.created + 1
      alive := v.alive + 1
      info := extended v.info v.level v.created }
  | .threadJoin ret now =>
    if ret = 0 then
      if v.alive = 2 then { v.next false now with alive := v.alive - 1 }
      else { v with alive := v.alive - 1 }
    else v
  | .startThreadEnd _ _ => v

def Levels.run (v : Levels) (ops : List Op) : Levels := ops.foldl Levels.after v

/-- The first change comes first. -/
theorem Levels.run_cons (v : Levels) (op : Op) (ops : List Op) :
    v.run (op :: ops) = (v.after op).run ops := rfl

/-- Two sequences, one after the other. -/
theorem Levels.run_append (v : Levels) (ops ops' : List Op) :
    v.run (ops ++ ops') = (v.run ops).run ops' := List.foldl_append ..

/-- Level 0, when the initial thread has index 0. -/
def Levels.first (now : BitVec 64) : Levels where
  created := 1
  alive := 1
  parallel := false
  level := 0
  info := started (fun _ => {}) 0 0 now

/-- An operation does to the levels what `v` says, if the array has that many. -/
structure Follows (r : Except Fault XThread) (v : Levels) : Prop where
  inside : v.level < maxThreadLevels → ∃ y, r = .ok y ∧ y.levels = v
  outside : maxThreadLevels ≤ v.level → r = .error .levelOutOfRange

/-- The number of threads ever created after an event. -/
def createdAfter (created : ℕ) : Op → ℕ
  | .threadCreate _ _ _ _ => created + 1
  | _ => created

/-- `allocThreadIndex` accepts the event: it is no creation of a thread too many. -/
def OpAccepted (created alive : ℕ) : Op → Prop
  | .threadCreate _ _ _ _ => created < maxThreads ∧ alive < maxAliveThreads
  | _ => True

/-- `allocThreadIndex` accepts all events of a sequence. -/
def OpsAccepted (created alive : ℕ) : List Op → Prop
  | [] => True
  | op :: ops =>
    OpAccepted created alive op ∧ OpsAccepted (createdAfter created op) (aliveAfter alive op) ops

/-- How many threads there have been after a change. -/
@[simp] theorem Levels.after_created (v : Levels) (op : Op) :
    (v.after op).created = createdAfter v.created op := by
  cases op with
  | threadCreate current tid result now =>
    simp only [Levels.after, createdAfter]
    split <;> rfl
  | threadJoin ret now =>
    simp only [Levels.after, createdAfter]
    split
    · split <;> rfl
    · rfl
  | startThreadEnd current now => rfl

/-- How many are alive after a change. -/
@[simp] theorem Levels.after_alive (v : Levels) (op : Op) :
    (v.after op).alive = aliveAfter v.alive op := by
  cases op with
  | threadCreate current tid result now =>
    simp only [Levels.after, aliveAfter]
    split <;> rfl
  | threadJoin ret now =>
    simp only [Levels.after, aliveAfter]
    split
    · split <;> rfl
    · rfl
  | startThreadEnd current now => rfl

/-- Which level it is after a change. -/
theorem Levels.after_level (v : Levels) (op : Op) :
    (v.after op).level = if changesLevel v.alive op then v.level + 1 else v.level := by
  cases op with
  | threadCreate current tid result now =>
    simp only [Levels.after, changesLevel, decide_eq_true_eq]
    split <;> rfl
  | threadJoin ret now =>
    simp only [Levels.after, changesLevel, decide_eq_true_eq]
    by_cases hret : ret = 0
    · simp only [hret, if_true, true_and]
      split <;> rfl
    · simp only [hret, if_false, false_and]
  | startThreadEnd current now => rfl

/-- The current level is the number of level changes. -/
theorem Levels.run_level (v : Levels) (ops : List Op) :
    (v.run ops).level = v.level + (levelChanges v.alive ops).length := by
  induction ops generalizing v with
  | nil => rfl
  | cons op ops ih =>
    rw [Levels.run_cons, ih, Levels.after_level, Levels.after_alive, levelChanges]
    split
    · rw [List.length_cons]
      omega
    · rfl

omit [Rounding] in
/-- The initial thread stays. -/
theorem aliveAfter_pos {alive : ℕ} {op : Op} (hpos : 1 ≤ alive) (hlegal : JoinLegal alive op) :
    1 ≤ aliveAfter alive op := by
  cases op with
  | threadCreate current tid result now => exact Nat.le_add_left ..
  | threadJoin ret now =>
    simp only [aliveAfter]
    split
    · rename_i hret
      have := hlegal hret
      omega
    · exact hpos
  | startThreadEnd current now => exact hpos

/-! ### A run follows its levels -/

omit [Rounding] in
/-- A change of the entry of the current level. -/
theorem modifyLevel_follows {x : XThread} {f : ThreadLevelInfo → ThreadLevelInfo} :
    Follows (modifyLevel x f) { x.levels with
      info := Function.update x.threadLevelInfo x.threadLevel
        (f (x.threadLevelInfo x.threadLevel)) } := by
  refine ⟨fun hlt => ?_, fun hle => ?_⟩
  · exact ⟨_, if_pos hlt, rfl⟩
  · exact if_neg (Nat.not_lt.mpr hle)

/-- The beginning of the next level. -/
theorem nextLevel_follows {x : XThread} {index : ℕ} {now : Clock}
    (hlevel : x.threadLevel < maxThreadLevels) :
    Follows (nextLevel x index now) { x.levels with
      level := x.threadLevel + 1
      info := started (stopped x.threadLevelInfo x.threadLevel now.stop) (x.threadLevel + 1) index
        now.start } := by
  rw [nextLevel, stopThreadLevelInfo, modifyLevel, if_pos hlevel]
  exact modifyLevel_follows

omit [Rounding] in
/-- What is done to other fields afterwards does not matter. -/
theorem Follows.map {r : Except Fault XThread} {v : Levels} {f : XThread → XThread}
    (hf : ∀ y, (f y).levels = y.levels) :
    Follows r v → Follows (match r with
      | .error e => .error e
      | .ok y => .ok (f y)) v := by
  intro h
  refine ⟨fun hlt => ?_, fun hle => ?_⟩
  · obtain ⟨y, rfl, hy⟩ := h.inside hlt
    exact ⟨f y, rfl, (hf y).trans hy⟩
  · rw [h.outside hle]

omit [Rounding] in
/-- A result that carries the new thread's index with it. -/
theorem Follows.withIndex {r : Except Fault XThread} {v : Levels} {index : ℕ}
    {f : XThread → XThread} (hf : ∀ y, (f y).levels = y.levels) :
    Follows r v → Follows (Except.map Prod.snd (match r with
      | .error e => .error e
      | .ok y => .ok (index, f y))) v := by
  intro h
  have hmap := h.map hf
  cases r with
  | error e => exact hmap
  | ok y => exact hmap

/-- The creation of a thread that `allocThreadIndex` accepts. -/
theorem allocThreadIndex_follows {x : XThread} {current tid : ℕ} {result : ℤ} {now : Clock}
    (hpos : 1 ≤ x.aliveThreads) (hacc : OpAccepted x.threadIndex x.aliveThreads
      (.threadCreate current tid result now)) (hlevel : x.threadLevel < maxThreadLevels) :
    Follows ((allocThreadIndex current tid now x).map Prod.snd)
      (x.levels.after (.threadCreate current tid result now)) := by
  obtain ⟨hcreated, halive⟩ := hacc
  simp only [maxThreads, maxAliveThreads] at hcreated halive
  have hint : intOf x.aliveThreads = x.aliveThreads := intOf_of_lt (by omega)
  have hindex : (x.threadIndex + 1) % 2 ^ 64 = x.threadIndex + 1 := Nat.mod_eq_of_lt (by omega)
  have hsucc : (x.aliveThreads + 1) % 2 ^ 64 = x.aliveThreads + 1 := Nat.mod_eq_of_lt (by omega)
  have hno : ¬ (x.threadIndex ≥ maxThreads ∨ (x.aliveThreads : ℤ) ≥ maxAliveThreads) := by
    simp only [maxThreads, maxAliveThreads]
    omega
  have hne : ¬ (x.aliveThreads : ℤ) = 0 := by omega
  simp only [allocThreadIndex, hint, hindex, hsucc, if_neg hno, if_neg hne, Levels.after]
  by_cases hone : x.aliveThreads = 1
  · have hone' : (x.aliveThreads : ℤ) = 1 := by omega
    simp only [if_pos hone']
    rw [if_pos (show x.levels.alive = 1 from hone)]
    refine Follows.withIndex (fun _ => rfl) ?_
    exact nextLevel_follows (x := modifyThread _ _ _) hlevel
  · have hone' : ¬ (x.aliveThreads : ℤ) = 1 := by omega
    have hmany : (x.aliveThreads : ℤ) > 1 := by omega
    simp only [if_neg hone', if_pos hmany]
    rw [if_neg (show ¬ x.levels.alive = 1 from hone)]
    refine Follows.withIndex (fun _ => rfl) ?_
    refine Follows.map (fun _ => rfl) ?_
    exact modifyLevel_follows (x := modifyThread _ _ _)

/-- A join that succeeds. -/
theorem markThreadExit_follows {x : XThread} (now : Clock) (hpos : 2 ≤ x.aliveThreads)
    (hlevel : x.threadLevel < maxThreadLevels) :
    Follows (markThreadExit now x) (x.levels.after (.threadJoin 0 now)) := by
  have hpred : dec64 x.aliveThreads = x.aliveThreads - 1 := if_neg (by omega)
  simp only [markThreadExit, hpred, Levels.after, if_true]
  by_cases htwo : x.aliveThreads = 2
  · rw [if_pos (by omega), if_pos (show x.levels.alive = 2 from htwo)]
    exact nextLevel_follows (x := { x with aliveThreads := _, isMultithreading := _ }) hlevel
  · rw [if_neg (by omega), if_neg (show ¬ x.levels.alive = 2 from htwo)]
    exact ⟨fun _ => ⟨_, rfl, rfl⟩, fun hle => absurd hlevel (Nat.not_lt.mpr hle)⟩

/-- **One event.** -/
theorem applyOp_follows {x : XThread} {op : Op} (hpos : 1 ≤ x.aliveThreads)
    (hacc : OpAccepted x.threadIndex x.aliveThreads op) (hlegal : JoinLegal x.aliveThreads op)
    (hlevel : x.threadLevel < maxThreadLevels) : Follows (applyOp op x) (x.levels.after op) := by
  have hsame : ∀ y : XThread, y.levels = x.levels → Follows (.ok y) x.levels := fun y hy =>
    ⟨fun _ => ⟨y, rfl, hy⟩, fun hle => absurd hlevel (Nat.not_lt.mpr hle)⟩
  cases op with
  | threadCreate current tid result now =>
    have h := allocThreadIndex_follows hpos hacc hlevel
    rw [applyOp, threadCreate]
    cases hr : allocThreadIndex current tid now x with
    | error e =>
      rw [hr] at h
      exact h
    | ok r =>
      rw [hr] at h
      exact h
  | threadJoin ret now =>
    rw [applyOp, threadJoin]
    by_cases hret : ret = 0
    · have h := markThreadExit_follows now (hlegal hret) hlevel
      rw [if_pos hret]
      subst hret
      cases hr : markThreadExit now x with
      | error e =>
        rw [hr] at h
        exact h
      | ok y =>
        rw [hr] at h
        exact h
    · rw [if_neg hret, Levels.after, if_neg hret]
      exact hsame x rfl
  | startThreadEnd current now => exact hsame _ rfl

/-- **Runs.** -/
theorem runOps_follows {x : XThread} {ops : List Op} (hpos : 1 ≤ x.aliveThreads)
    (hacc : OpsAccepted x.threadIndex x.aliveThreads ops) (hlegal : JoinsLegal x.aliveThreads ops)
    (hlevel : x.threadLevel < maxThreadLevels) : Follows (runOps ops x) (x.levels.run ops) := by
  induction ops generalizing x with
  | nil => exact ⟨fun _ => ⟨x, rfl, rfl⟩, fun hle => absurd hlevel (Nat.not_lt.mpr hle)⟩
  | cons op ops ih =>
    have hstep := applyOp_follows hpos hacc.1 hlegal.1 hlevel
    rw [Levels.run_cons, runOps]
    by_cases hlt : (x.levels.after op).level < maxThreadLevels
    · obtain ⟨y, hy, hlevels⟩ := hstep.inside hlt
      have halive : y.aliveThreads = aliveAfter x.aliveThreads op :=
        (congrArg Levels.alive hlevels).trans (Levels.after_alive ..)
      have hcreated : y.threadIndex = createdAfter x.threadIndex op :=
        (congrArg Levels.created hlevels).trans (Levels.after_created ..)
      have hpos' : 1 ≤ y.aliveThreads := by
        rw [halive]
        exact aliveAfter_pos hpos hlegal.1
      rw [hy, ← hlevels]
      refine ih hpos' ?_ (halive ▸ hlegal.2) (by rw [← hlevels] at hlt; exact hlt)
      rw [hcreated, halive]
      exact hacc.2
    · -- the array ends here, and no later event could make the level smaller
      have hle := Nat.not_lt.mp hlt
      rw [hstep.outside hle]
      refine ⟨fun h => absurd h ?_, fun _ => rfl⟩
      rw [Levels.run_level]
      omega

/-- A process begins in its first level. -/
theorem initializeXThread_levels (tid : ℕ) (now : Clock) :
    ∃ x, initializeXThread tid now {} = .ok x ∧ x.levels = .first now.start :=
  ⟨_, rfl, rfl⟩

/-- The state after `initialize` and some events. -/
def begun (tid : ℕ) (begin : Clock) (ops : List Op) : Except Fault XThread :=
  match initializeXThread tid begin {} with
  | .error e => .error e
  | .ok x => runOps ops x

/-- Creations and joins lead to the levels that they say. -/
theorem begun_follows (tid : ℕ) (begin : Clock) {ops : List Op} (hacc : OpsAccepted 1 1 ops)
    (hlegal : JoinsLegal 1 ops) :
    Follows (begun tid begin ops) ((Levels.first begin.start).run ops) := by
  obtain ⟨x, hx, hlevels⟩ := initializeXThread_levels tid begin
  have halive : x.aliveThreads = 1 := congrArg Levels.alive hlevels
  have hcreated : x.threadIndex = 1 := congrArg Levels.created hlevels
  have hlevel : x.threadLevel = 0 := congrArg Levels.level hlevels
  rw [begun, hx, ← hlevels]
  refine runOps_follows halive.ge ?_ (halive ▸ hlegal) (by rw [hlevel]; decide)
  rw [hcreated, halive]
  exact hacc

/-- The level array when the process has ended. -/
def Levels.stop (v : Levels) (now : BitVec 64) : Levels :=
  { v with info := stopped v.info v.level now }

/-- So does a whole process, which closes its last level. -/
theorem process_follows (tid : ℕ) (begin : Clock) {ops : List Op} (finish : BitVec 64)
    (hacc : OpsAccepted 1 1 ops) (hlegal : JoinsLegal 1 ops) :
    Follows (process tid begin ops finish)
      (((Levels.first begin.start).run ops).stop finish) := by
  have hrun := begun_follows tid begin hacc hlegal
  obtain ⟨x, hx, -⟩ := initializeXThread_levels tid begin
  rw [begun, hx] at hrun
  rw [process, hx]
  refine ⟨fun hlt => ?_, fun hle => ?_⟩
  · obtain ⟨y, hy, hlevels⟩ := hrun.inside hlt
    simp only at hy
    have hlevel : y.threadLevel < maxThreadLevels := by
      rw [show y.threadLevel = _ from congrArg Levels.level hlevels]
      exact hlt
    simp only [hy]
    rw [← hlevels]
    simp only [finalize, stopThreadLevelInfo]
    exact modifyLevel_follows.inside hlevel
  · have hy := hrun.outside hle
    simp only at hy
    simp only [hy]

/-! ### The size of the level array -/

/-- **The level array.**  A run that `allocThreadIndex` accepts leaves the array exactly when the
    number of its level changes is not below `MAX_THREAD_LEVELS`. -/
theorem levelOutOfRange_iff (tid : ℕ) (begin : Clock) (ops : List Op) (finish : BitVec 64)
    (hacc : OpsAccepted 1 1 ops) (hlegal : JoinsLegal 1 ops) :
    process tid begin ops finish ≠ .error .levelOutOfRange ↔
      (levelChanges 1 ops).length < maxThreadLevels := by
  have h := process_follows tid begin finish hacc hlegal
  have hlevel : (((Levels.first begin.start).run ops).stop finish).level =
      (levelChanges 1 ops).length :=
    (Levels.run_level ..).trans (Nat.zero_add _)
  constructor
  · intro hne
    by_contra hle
    exact hne (h.outside (by rw [hlevel]; exact Nat.not_lt.mp hle))
  · intro hlt
    obtain ⟨y, hy, -⟩ := h.inside (by rw [hlevel]; exact hlt)
    rw [hy]
    exact nofun

end

/-- A program that creates a thread and joins it, `n` times. -/
def forkJoins : ℕ → List Op
  | 0 => []
  | n + 1 => .threadCreate 0 1 0 ⟨0, 0, 0⟩ :: .threadJoin 0 ⟨0, 0, 0⟩ :: forkJoins n

/-- A fork and a join change the level twice. -/
theorem forkJoins_changes (n : ℕ) : (levelChanges 1 (forkJoins n)).length = 2 * n := by
  induction n with
  | zero => rfl
  | succ n ih =>
    rw [Nat.mul_succ, ← ih]
    rfl

/-- Every join has a thread to join. -/
theorem forkJoins_legal (n : ℕ) : JoinsLegal 1 (forkJoins n) := by
  induction n with
  | zero => trivial
  | succ n ih => exact ⟨trivial, fun _ => le_rfl, ih⟩

/-- One thread more is alive at a time, and the table has room for all. -/
theorem forkJoins_accepted {created n : ℕ} (h : created + n ≤ maxThreads) :
    OpsAccepted created 1 (forkJoins n) := by
  induction n generalizing created with
  | zero => trivial
  | succ n ih =>
    have hone : 1 < maxAliveThreads := by decide
    have hle : created + 1 + n ≤ maxThreads := by omega
    exact ⟨⟨by omega, hone⟩, trivial, ih hle⟩

/-- 127 forks and joins stay inside the level array. -/
theorem levelOutOfRange_iff_forkJoins :
    process 1 ⟨0, 0, 0⟩ (forkJoins 127) 0 ≠ .error .levelOutOfRange :=
  (levelOutOfRange_iff 1 ⟨0, 0, 0⟩ (forkJoins 127) 0 (forkJoins_accepted (by decide))
    (forkJoins_legal 127)).mpr (by rw [forkJoins_changes]; decide)

/-- Half as many threads as there are levels are too many, one after the other. -/
theorem forkJoins_leaves {n : ℕ} (hcreated : 1 + n ≤ maxThreads) (hlevels : maxThreadLevels ≤ 2 * n) :
    process 1 ⟨0, 0, 0⟩ (forkJoins n) 0 = .error .levelOutOfRange := by
  refine (process_follows 1 ⟨0, 0, 0⟩ 0 (forkJoins_accepted hcreated) (forkJoins_legal n)).outside ?_
  rw [Levels.stop, Levels.run_level, show (Levels.first 0).alive = 1 from rfl, forkJoins_changes]
  exact hlevels.trans (Nat.le_add_left ..)

/-- 128 forks and joins leave it. -/
theorem forkJoins_levelOutOfRange :
    OpsAccepted 1 1 (forkJoins 128) ∧ JoinsLegal 1 (forkJoins 128) ∧
      process 1 ⟨0, 0, 0⟩ (forkJoins 128) 0 = .error .levelOutOfRange :=
  ⟨forkJoins_accepted (by decide), forkJoins_legal 128, forkJoins_leaves (by decide) (by decide)⟩

/-! ### The threads of a level -/

/-- The first thread that a parallel level may create, the parallel levels being numbered from
    0. -/
def firstIndex (info : ℕ → ThreadLevelInfo) : ℕ → ℕ
  | 0 => 1
  | k + 1 => (info (2 * k + 1)).endIndex + 1

/-- The parallel levels up to the current one share out the threads with an index below
    `created`, without gaps. -/
structure Ranges (info : ℕ → ThreadLevelInfo) (level created : ℕ) : Prop where
  range : ∀ k, 2 * k + 1 ≤ level →
    (info (2 * k + 1)).beginIndex = firstIndex info k ∧
      (info (2 * k + 1)).beginIndex ≤ (info (2 * k + 1)).endIndex
  created : firstIndex info ((level + 1) / 2) = created

/-- Two level arrays have the same threads in the parallel levels below `n`. -/
def SameRanges (n : ℕ) (info info' : ℕ → ThreadLevelInfo) : Prop :=
  ∀ k, 2 * k + 1 < n → (info' (2 * k + 1)).beginIndex = (info (2 * k + 1)).beginIndex ∧
    (info' (2 * k + 1)).endIndex = (info (2 * k + 1)).endIndex

/-- The first indices of the parallel levels. -/
theorem SameRanges.firstIndex {n k : ℕ} {info info' : ℕ → ThreadLevelInfo}
    (h : SameRanges n info info') (hk : 2 * k ≤ n) : firstIndex info' k = firstIndex info k := by
  cases k with
  | zero => rfl
  | succ k => exact congrArg (· + 1) (h k (by omega)).2

/-- The end of a level leaves its begin index alone. -/
theorem stopped_beginIndex [Rounding] (info : ℕ → ThreadLevelInfo) (l k : ℕ) (now : BitVec 64) :
    (stopped info l now k).beginIndex = (info k).beginIndex := by
  unfold stopped
  by_cases hk : k = l
  · rw [hk, Function.update_self]
  · rw [Function.update_of_ne hk]

/-- The end of a level leaves its end index alone. -/
theorem stopped_endIndex [Rounding] (info : ℕ → ThreadLevelInfo) (l k : ℕ) (now : BitVec 64) :
    (stopped info l now k).endIndex = (info k).endIndex := by
  unfold stopped
  by_cases hk : k = l
  · rw [hk, Function.update_self]
  · rw [Function.update_of_ne hk]

/-- A new level leaves the ranges of the levels before it alone. -/
theorem sameRanges_started [Rounding] (info : ℕ → ThreadLevelInfo) (l index : ℕ) (now : Clock) :
    SameRanges (l + 1) info (started (stopped info l now.stop) (l + 1) index now.start) := by
  intro k hk
  rw [started, Function.update_of_ne hk.ne, stopped_beginIndex, stopped_endIndex]
  exact ⟨rfl, rfl⟩

/-- So does a thread more in the current level. -/
theorem sameRanges_extended (info : ℕ → ThreadLevelInfo) (l index : ℕ) :
    SameRanges l info (extended info l index) := by
  intro k hk
  rw [extended, Function.update_of_ne hk.ne]
  exact ⟨rfl, rfl⟩

/-- A serial level follows. -/
theorem Ranges.serial {info info' : ℕ → ThreadLevelInfo} {l n : ℕ} (h : Ranges info l n)
    (hodd : l % 2 = 1) (hsame : SameRanges (l + 1) info info') : Ranges info' (l + 1) n where
  range := fun k hk => by
    rw [(hsame k (by omega)).1, (hsame k (by omega)).2, hsame.firstIndex (by omega)]
    exact h.range k (by omega)
  created := by
    rw [show (l + 1 + 1) / 2 = (l + 1) / 2 by omega, hsame.firstIndex (by omega)]
    exact h.created

/-- A parallel level follows, with one thread. -/
theorem Ranges.parallel {info info' : ℕ → ThreadLevelInfo} {l n : ℕ} (h : Ranges info l n)
    (heven : l % 2 = 0) (hsame : SameRanges (l + 1) info info')
    (hbegin : (info' (l + 1)).beginIndex = n) (hend : (info' (l + 1)).endIndex = n) :
    Ranges info' (l + 1) (n + 1) where
  range := fun k hk => by
    by_cases hlast : 2 * k + 1 = l + 1
    · rw [hlast, hbegin, hend, hsame.firstIndex (by omega), ← h.created,
        show (l + 1) / 2 = k by omega]
      exact ⟨rfl, le_rfl⟩
    · rw [(hsame k (by omega)).1, (hsame k (by omega)).2, hsame.firstIndex (by omega)]
      exact h.range k (by omega)
  created := by
    rw [show (l + 1 + 1) / 2 = l / 2 + 1 by omega, firstIndex, show 2 * (l / 2) + 1 = l + 1 by omega,
      hend]

/-- The current parallel level gets one more thread. -/
theorem Ranges.extend {info : ℕ → ThreadLevelInfo} {l n : ℕ} (h : Ranges info l n)
    (hodd : l % 2 = 1) : Ranges (extended info l n) l (n + 1) := by
  have hsame := sameRanges_extended info l n
  have hlast := h.range (l / 2) (by omega)
  have hcreated := h.created
  rw [show (l + 1) / 2 = l / 2 + 1 by omega, firstIndex] at hcreated
  rw [show 2 * (l / 2) + 1 = l by omega] at hlast hcreated
  have hinfo : extended info l n l = { info l with endIndex := n } := by
    rw [extended, Function.update_self, if_pos (by omega)]
  refine ⟨fun k hk => ?_, ?_⟩
  · by_cases hl : 2 * k + 1 = l
    · rw [hl, hinfo, hsame.firstIndex (by omega), show k = l / 2 by omega]
      exact ⟨hlast.1, show (info l).beginIndex ≤ n by omega⟩
    · rw [(hsame k (by omega)).1, (hsame k (by omega)).2, hsame.firstIndex (by omega)]
      exact h.range k hk
  · rw [show (l + 1) / 2 = l / 2 + 1 by omega, firstIndex, show 2 * (l / 2) + 1 = l by omega, hinfo]

/-- Serial and parallel levels alternate, and the parallel ones have the threads. -/
structure Levels.Tiled (v : Levels) : Prop where
  pos : 1 ≤ v.alive
  parallel : v.parallel = true ↔ 1 < v.alive
  odd : 1 < v.alive ↔ v.level % 2 = 1
  ranges : Ranges v.info v.level v.created

/-- **One event** keeps the levels tiled. -/
theorem Levels.Tiled.after [Rounding] {v : Levels} (h : v.Tiled) {op : Op} (hlegal : JoinLegal v.alive op) :
    (v.after op).Tiled := by
  obtain ⟨hpos, hparallel, hodd, hranges⟩ := h
  cases op with
  | threadCreate current tid result now =>
    simp only [Levels.after]
    split
    · -- a parallel level begins after a serial one
      rename_i hone
      have heven : v.level % 2 = 0 := by omega
      have hself : started (stopped v.info v.level now.stop) (v.level + 1) v.created now.start
          (v.level + 1) = _ := Function.update_self ..
      refine ⟨Nat.le_add_left .., ?_, ?_, ?_⟩
      · exact iff_of_true rfl (show 1 < v.alive + 1 by omega)
      · exact iff_of_true (show 1 < v.alive + 1 by omega) (show (v.level + 1) % 2 = 1 by omega)
      · exact hranges.parallel heven (sameRanges_started v.info v.level v.created now)
          (congrArg ThreadLevelInfo.beginIndex hself) (congrArg ThreadLevelInfo.endIndex hself)
    · -- the parallel level gets one more thread
      rename_i hone
      have hmany : 1 < v.alive := by omega
      refine ⟨Nat.le_add_left .., ?_, ?_, ?_⟩
      · exact iff_of_true (hparallel.mpr hmany) (show 1 < v.alive + 1 by omega)
      · exact iff_of_true (show 1 < v.alive + 1 by omega) (hodd.mp hmany)
      · exact hranges.extend (hodd.mp hmany)
  | threadJoin ret now =>
    simp only [Levels.after]
    split
    · rename_i hret
      have htwo := hlegal hret
      split
      · -- only one thread is left: a serial level begins
        rename_i heq
        have hodd' : v.level % 2 = 1 := hodd.mp (by omega)
        refine ⟨show 1 ≤ v.alive - 1 by omega, ?_, ?_, ?_⟩
        · exact iff_of_false Bool.false_ne_true (show ¬ 1 < v.alive - 1 by omega)
        · exact iff_of_false (show ¬ 1 < v.alive - 1 by omega)
            (show ¬ (v.level + 1) % 2 = 1 by omega)
        · exact hranges.serial hodd' (sameRanges_started v.info v.level v.created now)
      · rename_i hne
        refine ⟨show 1 ≤ v.alive - 1 by omega, ?_, ?_, hranges⟩
        · exact iff_of_true (hparallel.mpr (by omega)) (show 1 < v.alive - 1 by omega)
        · exact iff_of_true (show 1 < v.alive - 1 by omega) (hodd.mp (by omega))
    · exact ⟨hpos, hparallel, hodd, hranges⟩
  | startThreadEnd current now => exact ⟨hpos, hparallel, hodd, hranges⟩

/-- The levels tile the time after any creations and joins. -/
theorem Levels.Tiled.run [Rounding] {v : Levels} (h : v.Tiled) {ops : List Op}
    (hlegal : JoinsLegal v.alive ops) : (v.run ops).Tiled := by
  induction ops generalizing v with
  | nil => exact h
  | cons op ops ih => exact ih (h.after hlegal.1) (by rw [Levels.after_alive]; exact hlegal.2)

/-- The first level is all there is at first. -/
theorem Levels.first_tiled (now : BitVec 64) : (Levels.first now).Tiled where
  pos := le_rfl
  parallel := iff_of_false Bool.false_ne_true (lt_irrefl 1)
  odd := iff_of_false (lt_irrefl 1) (show ¬ (0 % 2 = 1) by decide)
  ranges := ⟨fun k hk => absurd (show 2 * k + 1 ≤ 0 from hk) (by omega),
    show firstIndex _ ((0 + 1) / 2) = 1 from rfl⟩

/-! ### Which thread is in which level -/

/-- Thread `i` is in the range of the parallel level `l`. -/
structure InRange (info : ℕ → ThreadLevelInfo) (level l i : ℕ) : Prop where
  odd : l % 2 = 1
  le : l ≤ level
  begin_le : (info l).beginIndex ≤ i
  le_end : i ≤ (info l).endIndex

/-- A value between the first and the last of a sequence is between two neighbours. -/
theorem exists_step {f : ℕ → ℕ} {m i : ℕ} (h0 : f 0 ≤ i) (hm : i < f m) :
    ∃ k < m, f k ≤ i ∧ i < f (k + 1) := by
  induction m with
  | zero => exact absurd h0 (Nat.not_le.mpr hm)
  | succ m ih =>
    by_cases hlt : i < f m
    · obtain ⟨k, hk, h⟩ := ih hlt
      exact ⟨k, hk.trans (Nat.lt_succ_self m), h⟩
    · exact ⟨m, Nat.lt_succ_self m, Nat.not_lt.mp hlt, hm⟩

section

variable {info : ℕ → ThreadLevelInfo} {level created : ℕ}

/-- A parallel level in terms of the first indices. -/
theorem Ranges.inRange_iff (h : Ranges info level created) {k i : ℕ} :
    InRange info level (2 * k + 1) i ↔
      2 * k + 1 ≤ level ∧ firstIndex info k ≤ i ∧ i < firstIndex info (k + 1) := by
  constructor
  · rintro ⟨-, hle, hbegin, hend⟩
    rw [(h.range k hle).1] at hbegin
    exact ⟨hle, hbegin, Nat.lt_succ_of_le hend⟩
  · rintro ⟨hle, hbegin, hend⟩
    rw [← (h.range k hle).1] at hbegin
    exact ⟨by omega, hle, hbegin, Nat.le_of_lt_succ hend⟩

/-- A parallel level begins above the one before it. -/
theorem Ranges.firstIndex_lt (h : Ranges info level created) {k : ℕ} (hk : 2 * k + 1 ≤ level) :
    firstIndex info k < firstIndex info (k + 1) := by
  obtain ⟨hbegin, hle⟩ := h.range k hk
  rw [← hbegin]
  exact Nat.lt_succ_of_le hle

/-- Later parallel levels begin higher. -/
theorem Ranges.firstIndex_le (h : Ranges info level created) {j k : ℕ} (hjk : j ≤ k)
    (hk : 2 * k ≤ level + 1) : firstIndex info j ≤ firstIndex info k := by
  induction k, hjk using Nat.le_induction with
  | base => exact le_rfl
  | succ k hjk ih => exact (ih (by omega)).trans (h.firstIndex_lt (by omega)).le

/-- The ranges are disjoint and increasing. -/
theorem Ranges.disjoint (h : Ranges info level created) {l l' : ℕ} (hl : l % 2 = 1)
    (hl' : l' % 2 = 1) (hlt : l < l') (hle : l' ≤ level) :
    (info l).endIndex < (info l').beginIndex := by
  obtain ⟨k, rfl⟩ : ∃ k, l = 2 * k + 1 := ⟨l / 2, by omega⟩
  obtain ⟨k', rfl⟩ : ∃ k', l' = 2 * k' + 1 := ⟨l' / 2, by omega⟩
  rw [(h.range k' hle).1]
  exact h.firstIndex_le (j := k + 1) (by omega) (by omega)

/-- Together they contain all indices but that of the initial thread. -/
theorem Ranges.cover (h : Ranges info level created) (i : ℕ) :
    (∃ l, InRange info level l i) ↔ 1 ≤ i ∧ i < created := by
  constructor
  · rintro ⟨l, hl⟩
    obtain ⟨k, rfl⟩ : ∃ k, l = 2 * k + 1 := ⟨l / 2, by have := hl.odd; omega⟩
    obtain ⟨hle, hbegin, hend⟩ := h.inRange_iff.mp hl
    refine ⟨(h.firstIndex_le (Nat.zero_le k) (by omega)).trans hbegin, hend.trans_le ?_⟩
    rw [← h.created]
    exact h.firstIndex_le (by omega) (by omega)
  · rintro ⟨hpos, hlt⟩
    rw [← h.created] at hlt
    obtain ⟨k, hk, hstep⟩ := exists_step (f := firstIndex info) hpos hlt
    exact ⟨2 * k + 1, h.inRange_iff.mpr ⟨by omega, hstep⟩⟩

/-- A thread is in one range only. -/
theorem Ranges.unique (h : Ranges info level created) {l l' i : ℕ} (hl : InRange info level l i)
    (hl' : InRange info level l' i) : l = l' := by
  rcases Nat.lt_trichotomy l l' with hlt | heq | hlt
  · have := h.disjoint hl.odd hl'.odd hlt hl'.le
    have := hl.le_end
    have := hl'.begin_le
    omega
  · exact heq
  · have := h.disjoint hl'.odd hl.odd hlt hl.le
    have := hl'.le_end
    have := hl.begin_le
    omega

end

section

variable {info info' : ℕ → ThreadLevelInfo} {level created : ℕ}

/-- The ranges are a matter of the first and last indices alone. -/
theorem Ranges.congr (h : Ranges info level created)
    (hsame : ∀ l, (info' l).beginIndex = (info l).beginIndex ∧
      (info' l).endIndex = (info l).endIndex) : Ranges info' level created := by
  have hidx : SameRanges (level + 2) info info' := fun k _ => hsame _
  refine ⟨fun k hk => ?_, ?_⟩
  · rw [(hsame _).1, (hsame _).2, hidx.firstIndex (by omega)]
    exact h.range k hk
  · rw [hidx.firstIndex (by omega)]
    exact h.created

/-- Being in the range of a level depends on its two indices only. -/
theorem inRange_congr {l i : ℕ} (hsame : (info' l).beginIndex = (info l).beginIndex ∧
    (info' l).endIndex = (info l).endIndex) :
    InRange info' level l i ↔ InRange info level l i := by
  constructor
  · rintro ⟨hodd, hle, hbegin, hend⟩
    exact ⟨hodd, hle, hsame.1 ▸ hbegin, hsame.2 ▸ hend⟩
  · rintro ⟨hodd, hle, hbegin, hend⟩
    exact ⟨hodd, hle, hsame.1 ▸ hbegin, hsame.2 ▸ hend⟩

end

/-- A thread stays in the range of an earlier level. -/
theorem SameRanges.inRange {info info' : ℕ → ThreadLevelInfo} {n level level' l i : ℕ}
    (hsame : SameRanges n info info') (h : InRange info level l i) (hl : l < n)
    (hle : level ≤ level') : InRange info' level' l i := by
  obtain ⟨k, rfl⟩ : ∃ k, l = 2 * k + 1 := ⟨l / 2, by have := h.odd; omega⟩
  obtain ⟨hbegin, hend⟩ := hsame k hl
  exact ⟨h.odd, h.le.trans hle, hbegin ▸ h.begin_le, hend ▸ h.le_end⟩

/-- A thread more does not put another one out of its range. -/
theorem InRange.extended {info : ℕ → ThreadLevelInfo} {level l i : ℕ}
    (h : InRange info level l i) (index : ℕ) :
    InRange (XThread.extended info level index) level l i := by
  by_cases hl : l = level
  · subst hl
    have hself : XThread.extended info l index l = _ := Function.update_self ..
    refine ⟨h.odd, le_rfl, ?_, ?_⟩
    · rw [hself]
      split <;> exact h.begin_le
    · rw [hself]
      split
      · rename_i hlt
        exact h.le_end.trans hlt.le
      · exact h.le_end
  · have := h.le
    exact (sameRanges_extended info level index).inRange h (by omega) le_rfl

/-- No event takes a thread out of its range. -/
theorem InRange.after [Rounding] {v : Levels} {l i : ℕ} (h : InRange v.info v.level l i) (op : Op) :
    InRange (v.after op).info (v.after op).level l i := by
  have hnext : ∀ now : Clock, InRange (started (stopped v.info v.level now.stop) (v.level + 1)
      v.created now.start) (v.level + 1) l i := fun now =>
    (sameRanges_started v.info v.level v.created now).inRange h (Nat.lt_succ_of_le h.le)
      (Nat.le_succ _)
  cases op with
  | threadCreate current tid result now =>
    simp only [Levels.after]
    split
    · exact hnext now
    · exact h.extended v.created
  | threadJoin ret now =>
    simp only [Levels.after]
    split
    · split
      · exact hnext now
      · exact h
    · exact h
  | startThreadEnd current now => exact h

/-- What is in the range of a level stays there. -/
theorem InRange.run [Rounding] {v : Levels} {l i : ℕ} (h : InRange v.info v.level l i) (ops : List Op) :
    InRange (v.run ops).info (v.run ops).level l i := by
  induction ops generalizing v with
  | nil => exact h
  | cons op ops ih => exact ih (h.after op)

/-- A new thread is in the range of the level that it leaves behind. -/
theorem Levels.Tiled.created_inRange [Rounding] {v : Levels} (h : v.Tiled) (current tid : ℕ) (result : ℤ)
    (now : Clock) :
    InRange (v.after (.threadCreate current tid result now)).info
      (v.after (.threadCreate current tid result now)).level
      (v.after (.threadCreate current tid result now)).level v.created := by
  have hafter : (v.after (.threadCreate current tid result now)).Tiled := h.after trivial
  generalize hw : v.after (.threadCreate current tid result now) = w at hafter ⊢
  have hcreated : w.created = v.created + 1 := by
    rw [← hw]
    exact Levels.after_created ..
  have halive : w.alive = v.alive + 1 := by
    rw [← hw]
    exact Levels.after_alive ..
  have hodd : w.level % 2 = 1 := hafter.odd.mp (by have := h.pos; omega)
  have hrange := hafter.ranges.created
  rw [hcreated, show (w.level + 1) / 2 = w.level / 2 + 1 by omega] at hrange
  have hlast := (hafter.ranges.inRange_iff (k := w.level / 2) (i := v.created)).mpr
    ⟨by omega, ?_, by omega⟩
  · rwa [show 2 * (w.level / 2) + 1 = w.level by omega] at hlast
  · have := hafter.ranges.firstIndex_lt (k := w.level / 2) (by omega)
    omega

/-- Thread `i` is created in level `l` of a run. -/
def Levels.CreatedIn [Rounding] (v : Levels) (ops : List Op) (i l : ℕ) : Prop :=
  ∃ pre current tid result now post, ops = pre ++ .threadCreate current tid result now :: post ∧
    (v.run pre).created = i ∧
    (v.run (pre ++ [.threadCreate current tid result now])).level = l

/-- The first part of a legal sequence is legal. -/
theorem JoinsLegal.of_append {alive : ℕ} {pre post : List Op}
    (h : JoinsLegal alive (pre ++ post)) : JoinsLegal alive pre := by
  induction pre generalizing alive with
  | nil => trivial
  | cons op pre ih => exact ⟨h.1, ih h.2⟩

/-- Every index that is handed out in a run belongs to a level. -/
theorem Levels.exists_createdIn [Rounding] {v : Levels} {ops : List Op} {i : ℕ} (hlow : v.created ≤ i)
    (hhigh : i < (v.run ops).created) : ∃ l, v.CreatedIn ops i l := by
  induction ops generalizing v with
  | nil => exact absurd hlow (Nat.not_le.mpr hhigh)
  | cons op ops ih =>
    by_cases hlow' : (v.after op).created ≤ i
    · obtain ⟨l, pre, current, tid, result, now, post, rfl, hcreated, hlevel⟩ := ih hlow' hhigh
      exact ⟨l, op :: pre, current, tid, result, now, post, rfl, hcreated, hlevel⟩
    · -- the index is handed out by the first event, which creates a thread
      rw [Levels.after_created] at hlow'
      cases op with
      | threadCreate current tid result now =>
        have hi : v.created = i := by
          simp only [createdAfter] at hlow'
          omega
        exact ⟨_, [], current, tid, result, now, ops, rfl, hi, rfl⟩
      | threadJoin ret now => exact absurd hlow hlow'
      | startThreadEnd current now => exact absurd hlow hlow'

/-- **The threads of a parallel level** are those that it creates. -/
theorem Levels.Tiled.inRange_iff [Rounding] {v : Levels} (h : v.Tiled) (hcreated : v.created = 1)
    {ops : List Op} (hlegal : JoinsLegal v.alive ops) {i l : ℕ} :
    InRange (v.run ops).info (v.run ops).level l i ↔ v.CreatedIn ops i l := by
  have hrun := h.run hlegal
  -- a thread is in the range of its level when it is created, and stays there
  have hback : ∀ {l}, v.CreatedIn ops i l → InRange (v.run ops).info (v.run ops).level l i := by
    rintro l ⟨pre, current, tid, result, now, post, rfl, rfl, rfl⟩
    have hpre := h.run hlegal.of_append
    have hpost := (hpre.created_inRange current tid result now).run post
    rw [Levels.run_append, Levels.run_append]
    exact hpost
  refine ⟨fun hrange => ?_, hback⟩
  -- conversely every index has a level, and it is in one range only
  obtain ⟨hpos, hlt⟩ := (hrun.ranges.cover i).mp ⟨l, hrange⟩
  obtain ⟨l', hl'⟩ := Levels.exists_createdIn (hcreated.le.trans hpos) hlt
  rwa [hrun.ranges.unique hrange (hback hl')]

/-! ### The time of the levels -/

/-- The clock stands still within an event. -/
def Clock.Still (now : Clock) : Prop := now.thread = now.stop ∧ now.stop = now.start

/-- The levels change at events of the run. -/
theorem levelChanges_clock {alive : ℕ} {ops : List Op} {now : Clock}
    (h : now ∈ levelChanges alive ops) : ∃ op ∈ ops, now = op.clock := by
  induction ops generalizing alive with
  | nil => exact absurd h List.not_mem_nil
  | cons op ops ih =>
    rw [levelChanges] at h
    split at h
    · rcases List.mem_cons.mp h with rfl | h
      · exact ⟨op, List.mem_cons_self .., rfl⟩
      · obtain ⟨op', hmem, hop⟩ := ih h
        exact ⟨op', List.mem_cons_of_mem _ hmem, hop⟩
    · obtain ⟨op', hmem, hop⟩ := ih h
      exact ⟨op', List.mem_cons_of_mem _ hmem, hop⟩

section

variable [Rounding] {info : ℕ → ThreadLevelInfo}

/-- The first `n` levels share out the cycles from `t` to `u`, each of them converting its own. -/
def SharesCycles (info : ℕ → ThreadLevelInfo) (n t u : ℕ) : Prop :=
  ∃ cycles : ℕ → ℕ, (∀ l < n, (info l).elapse = millis (cycles l)) ∧
    t + ∑ l ∈ Finset.range n, cycles l = u

/-- The next level takes the cycles up to its end. -/
theorem SharesCycles.succ {n t u v : ℕ} (h : SharesCycles info n t u) (hle : u ≤ v)
    (hnext : (info n).elapse = millis (v - u)) : SharesCycles info (n + 1) t v := by
  obtain ⟨cycles, helapse, hsum⟩ := h
  refine ⟨Function.update cycles n (v - u), fun l hl => ?_, ?_⟩
  · by_cases hn : l = n
    · rw [hn, Function.update_self, hnext]
    · rw [Function.update_of_ne hn, helapse l (by omega)]
  · have hbelow : ∑ l ∈ Finset.range n, Function.update cycles n (v - u) l =
        ∑ l ∈ Finset.range n, cycles l :=
      Finset.sum_congr rfl fun l hl => Function.update_of_ne (Finset.mem_range.mp hl).ne _ _
    rw [Finset.sum_range_succ, hbelow, Function.update_self]
    omega

/-- Where no time passes within an event, the levels that have ended took all the cycles up to the
    start of the current one. -/
theorem Timed.sharesCycles {t₀ last : BitVec 64} {changes : List Clock}
    (h : Timed t₀ info changes) (hord : Ordered t₀ changes last)
    (hstill : ∀ now ∈ changes, now.Still) :
    SharesCycles info changes.length t₀.toNat (lastStart t₀ changes).toNat := by
  induction changes generalizing last with
  | nil => exact ⟨fun _ => 0, by simp, by simp [lastStart]⟩
  | cons now rest ih =>
    obtain ⟨hrest, helapse, -⟩ := h
    have hbelow := ih hrest hord.1 fun now' hmem => hstill now' (List.mem_cons_of_mem _ hmem)
    have hstart : now.stop = now.start := (hstill now (List.mem_cons_self ..)).2
    have hle : lastStart t₀ rest ≤ now.start := hstart ▸ hord.1.lastStart_le
    rw [hstart, getElapsed2ms_cycles hle] at helapse
    exact hbelow.succ (BitVec.le_def.mp hle) helapse

/-- The elapsed times add up to the whole, but for a relative error of two roundings. -/
theorem SharesCycles.sum_error {n t u : ℕ} (h : SharesCycles info n t u) {ε : ℚ}
    (hround : ∀ q, |Rounding.round q - q| ≤ ε * |q|) :
    |∑ l ∈ Finset.range n, (info l).elapse - ((u : ℚ) - t) / cpuFreq| ≤
      ((1 + ε) ^ 2 - 1) * (((u : ℚ) - t) / cpuFreq) := by
  obtain ⟨cycles, helapse, rfl⟩ := h
  have hwhole : ((t + ∑ l ∈ Finset.range n, cycles l : ℕ) - t : ℚ) / cpuFreq =
      ∑ l ∈ Finset.range n, (cycles l : ℚ) / cpuFreq := by
    rw [Nat.cast_add, add_sub_cancel_left, Nat.cast_sum, Finset.sum_div]
  rw [hwhole, ← Finset.sum_sub_distrib, Finset.mul_sum]
  refine (Finset.abs_sum_le_sum_abs ..).trans (Finset.sum_le_sum fun l hl => ?_)
  rw [helapse l (Finset.mem_range.mp hl)]
  exact millis_error hround (cycles l)

end

/-! ### The levels of a process -/

/-- A prefix of an accepted sequence is accepted. -/
theorem OpsAccepted.of_append {created alive : ℕ} {pre post : List Op}
    (h : OpsAccepted created alive (pre ++ post)) : OpsAccepted created alive pre := by
  induction pre generalizing created alive with
  | nil => trivial
  | cons op pre ih => exact ⟨h.1, ih h.2⟩

section

variable [Rounding]

/-- A process whose level changes fit in the array reaches the state after every part of its
    run. -/
theorem begun_ok (tid : ℕ) (begin : Clock) {pre post : List Op}
    (hacc : OpsAccepted 1 1 (pre ++ post)) (hlegal : JoinsLegal 1 (pre ++ post))
    (hlevels : (levelChanges 1 (pre ++ post)).length < maxThreadLevels) :
    ∃ y, begun tid begin pre = .ok y ∧ y.levels = (Levels.first begin.start).run pre := by
  refine (begun_follows tid begin hacc.of_append hlegal.of_append).inside ?_
  have hall := Levels.run_level (Levels.first begin.start) (pre ++ post)
  rw [Levels.run_append, Levels.run_level] at hall
  have hzero : (Levels.first begin.start).level = 0 := rfl
  have hone : (Levels.first begin.start).alive = 1 := rfl
  rw [hzero, hone] at hall
  omega

/-- Thread `i` is created in level `l` of a process. -/
def CreatedIn (tid : ℕ) (begin : Clock) (ops : List Op) (i l : ℕ) : Prop :=
  ∃ pre current ptid result now post x y,
    ops = pre ++ .threadCreate current ptid result now :: post ∧
    begun tid begin pre = .ok x ∧
    begun tid begin (pre ++ [.threadCreate current ptid result now]) = .ok y ∧
    x.threadIndex = i ∧ y.threadLevel = l

/-- Where a thread was created, by the source and by the levels. -/
theorem createdIn_iff {tid : ℕ} {begin : Clock} {ops : List Op} {i l : ℕ}
    (hacc : OpsAccepted 1 1 ops) (hlegal : JoinsLegal 1 ops)
    (hlevels : (levelChanges 1 ops).length < maxThreadLevels) :
    CreatedIn tid begin ops i l ↔ (Levels.first begin.start).CreatedIn ops i l := by
  have hsplit : ∀ (pre post : List Op), ops = pre ++ post → ∃ y, begun tid begin pre = .ok y ∧
      y.levels = (Levels.first begin.start).run pre := by
    rintro pre post rfl
    exact begun_ok tid begin hacc hlegal hlevels
  constructor
  · rintro ⟨pre, current, ptid, result, now, post, x, y, hops, hx, hy, rfl, rfl⟩
    obtain ⟨x', hx', hlx⟩ := hsplit pre _ hops
    obtain ⟨y', hy', hly⟩ := hsplit (pre ++ [.threadCreate current ptid result now]) post
      (by rw [hops, List.append_assoc, List.singleton_append])
    obtain rfl := Except.ok.inj (hx.symm.trans hx')
    obtain rfl := Except.ok.inj (hy.symm.trans hy')
    exact ⟨pre, current, ptid, result, now, post, hops, (congrArg Levels.created hlx).symm,
      (congrArg Levels.level hly).symm⟩
  · rintro ⟨pre, current, ptid, result, now, post, hops, rfl, rfl⟩
    obtain ⟨x, hx, hlx⟩ := hsplit pre _ hops
    obtain ⟨y, hy, hly⟩ := hsplit (pre ++ [.threadCreate current ptid result now]) post
      (by rw [hops, List.append_assoc, List.singleton_append])
    exact ⟨pre, current, ptid, result, now, post, x, y, hops, hx, hy, congrArg Levels.created hlx,
      congrArg Levels.level hly⟩

/-- How the levels of a process `z` with events `ops` tile its run. -/
structure LevelsTile (tid : ℕ) (begin : Clock) (ops : List Op) (finish : BitVec 64)
    (z : XThread) : Prop where
  phases : ∀ pre post, ops = pre ++ post → ∃ y, begun tid begin pre = .ok y ∧
    (y.isMultithreading = true ↔ 1 < y.aliveThreads) ∧
    (1 < y.aliveThreads ↔ y.threadLevel % 2 = 1)
  cycles : SharesCycles z.threadLevelInfo (z.threadLevel + 1) begin.start.toNat finish.toNat
  elapse : (∀ q, Rounding.round q = q) → totalElapse z = processTime begin.start finish
  rounded : ∀ ε, (∀ q, |Rounding.round q - q| ≤ ε * |q|) →
    |totalElapse z - processTime begin.start finish| ≤
      ((1 + ε) ^ 2 - 1) * processTime begin.start finish
  nonempty : ∀ l ≤ z.threadLevel, l % 2 = 1 →
    (z.threadLevelInfo l).beginIndex ≤ (z.threadLevelInfo l).endIndex
  disjoint : ∀ l l', l % 2 = 1 → l' % 2 = 1 → l < l' → l' ≤ z.threadLevel →
    (z.threadLevelInfo l).endIndex < (z.threadLevelInfo l').beginIndex
  cover : ∀ i, (∃ l, InRange z.threadLevelInfo z.threadLevel l i) ↔ 1 ≤ i ∧ i < z.threadIndex
  created : ∀ i l, InRange z.threadLevelInfo z.threadLevel l i ↔ CreatedIn tid begin ops i l

/-- **The levels tile the run.**  With joins of threads that were created, a clock that only
    advances between events, and no more levels than the array has; the times add up in cycles, and
    in milliseconds as far as the arithmetic is exact. -/
theorem levels_tile (tid : ℕ) (begin : Clock) (ops : List Op) (finish : BitVec 64)
    (hacc : OpsAccepted 1 1 ops) (hlegal : JoinsLegal 1 ops)
    (hlevels : (levelChanges 1 ops).length < maxThreadLevels)
    (hclock : ClockMonotone begin.start ops finish) (hstill : ∀ op ∈ ops, op.clock.Still) :
    ∃ z, process tid begin ops finish = .ok z ∧ LevelsTile tid begin ops finish z := by
  have hfollows := process_follows tid begin finish hacc hlegal
  have hlevel : ((Levels.first begin.start).run ops).level = (levelChanges 1 ops).length :=
    (Levels.run_level ..).trans (Nat.zero_add _)
  have hfirst := Levels.first_tiled begin.start
  have htiled : ((Levels.first begin.start).run ops).Tiled := hfirst.run hlegal
  obtain ⟨z, hz, hzlevels⟩ := hfollows.inside (by rw [Levels.stop, hlevel]; exact hlevels)
  -- `finalize` only writes a time
  have hsame : ∀ l, (z.threadLevelInfo l).beginIndex =
        (((Levels.first begin.start).run ops).info l).beginIndex ∧
      (z.threadLevelInfo l).endIndex = (((Levels.first begin.start).run ops).info l).endIndex := by
    intro l
    rw [show z.threadLevelInfo = _ from congrArg Levels.info hzlevels]
    exact ⟨stopped_beginIndex .., stopped_endIndex ..⟩
  have hzlevel : z.threadLevel = ((Levels.first begin.start).run ops).level :=
    congrArg Levels.level hzlevels
  have hzcreated : z.threadIndex = ((Levels.first begin.start).run ops).created :=
    congrArg Levels.created hzlevels
  have hrange : Ranges z.threadLevelInfo z.threadLevel z.threadIndex := by
    rw [hzlevel, hzcreated]
    exact htiled.ranges.congr hsame
  -- the levels before the last one took the cycles up to its start, and the last one the rest
  have hcycles : SharesCycles z.threadLevelInfo (z.threadLevel + 1) begin.start.toNat
      finish.toNat := by
    obtain ⟨hI, hlast⟩ := process_ok hz hlegal hclock
    have hchanges : ∀ now ∈ (levelChanges 1 ops).reverse, now.Still := by
      intro now hmem
      obtain ⟨op, hop, rfl⟩ := levelChanges_clock (List.mem_reverse.mp hmem)
      exact hstill op hop
    have hbelow := hI.timed.sharesCycles hI.ordered hchanges
    rw [getElapsed2ms_cycles hI.ordered.lastStart_le] at hlast
    rw [← hI.level] at hbelow
    exact hbelow.succ (BitVec.le_def.mp hI.ordered.lastStart_le) hlast
  refine ⟨z, hz, ?_, hcycles, fun hexact => ?_, fun ε => hcycles.sum_error, ?_, ?_, hrange.cover,
    ?_⟩
  · -- the state in the middle of the run is a prefix's
    rintro pre post rfl
    obtain ⟨y, hy, hylevels⟩ := begun_ok tid begin hacc hlegal hlevels
    have hpre : ((Levels.first begin.start).run pre).Tiled := hfirst.run hlegal.of_append
    rw [← hylevels] at hpre
    exact ⟨y, hy, hpre.parallel, hpre.odd⟩
  · -- exact arithmetic has no error
    have hzero : ∀ q, |Rounding.round q - q| ≤ 0 * |q| := fun q => by
      rw [hexact, sub_self, abs_zero, zero_mul]
    have herror := hcycles.sum_error hzero
    rw [add_zero, one_pow, sub_self, zero_mul] at herror
    exact sub_eq_zero.mp (abs_nonpos_iff.mp herror)
  · intro l hl hodd
    have h := hrange.range (l / 2) (by omega)
    rw [show 2 * (l / 2) + 1 = l by omega] at h
    exact h.2
  · intro l l' hl hl' hlt hle
    exact hrange.disjoint hl hl' hlt hle
  · intro i l
    rw [createdIn_iff hacc hlegal hlevels, ← hfirst.inRange_iff rfl hlegal, hzlevel]
    exact inRange_congr (hsame l)

end

/-- In doubles the levels add up to the time of the process, but for the error of two roundings. -/
theorem LevelsTile.double {tid : ℕ} {begin : Clock} {ops : List Op} {finish : BitVec 64}
    {z : XThread} (h : @LevelsTile Rounding.double tid begin ops finish z) :
    |totalElapse z - processTime begin.start finish| ≤
      ((1 + 2 ^ (-(53 : ℕ) : ℤ)) ^ 2 - 1) * processTime begin.start finish :=
  @LevelsTile.rounded Rounding.double _ _ _ _ _ h _ (BinaryRounding.roundBits_error 53)

/-- Two threads, one after the other, then two at a time. -/
def twoPhases : List Op :=
  [.threadCreate 0 1 0 ⟨10, 10, 10⟩, .threadJoin 0 ⟨20, 20, 20⟩,
   .threadCreate 0 1 0 ⟨30, 30, 30⟩, .threadCreate 0 1 0 ⟨40, 40, 40⟩]

/-- Two threads created and joined one after the other. -/
theorem levels_tile_twoPhases :
    ∃ z, process 1 ⟨0, 0, 0⟩ twoPhases 50 = .ok z ∧ LevelsTile 1 ⟨0, 0, 0⟩ twoPhases 50 z :=
  levels_tile 1 ⟨0, 0, 0⟩ twoPhases 50 (by simp [twoPhases, OpsAccepted, OpAccepted,
      createdAfter, aliveAfter, maxThreads, maxAliveThreads])
    (by simp [twoPhases, JoinsLegal, JoinLegal, aliveAfter]) (by decide)
    (by simp [twoPhases, ClockMonotone, Clock.From, Op.clock])
    (by simp [twoPhases, Clock.Still, Op.clock])

/-- A thread is created one cycle after the start of a process, which ends four cycles later. -/
def forkAtOnce : List Op := [.threadCreate 0 1 0 ⟨1, 1, 1⟩]

/-- **Doubles.**  The elapsed times do not add up to the time of the process, nor to the double that
    a conversion of all its cycles gives. -/
theorem forkAtOnce_rounded :
    OpsAccepted 1 1 forkAtOnce ∧ JoinsLegal 1 forkAtOnce ∧
      (levelChanges 1 forkAtOnce).length < maxThreadLevels ∧ ClockMonotone 0 forkAtOnce 5 ∧
      (∀ op ∈ forkAtOnce, op.clock.Still) ∧
      ∃ z, @process Rounding.double 1 ⟨0, 0, 0⟩ forkAtOnce 5 = .ok z ∧
        totalElapse z ≠ processTime 0 5 ∧
        Rounding.double.round (totalElapse z) ≠ @getElapsed2ms Rounding.double (getTsc 0) 5 := by
  refine ⟨?_, ?_, by decide, ?_, ?_, _, rfl, ?_, ?_⟩
  · simp [forkAtOnce, OpsAccepted, OpAccepted, maxThreads, maxAliveThreads]
  · simp [forkAtOnce, JoinsLegal, JoinLegal]
  · simp [forkAtOnce, ClockMonotone, Clock.From, Op.clock]
  · simp [forkAtOnce, Clock.Still, Op.clock]
  · decide +kernel
  · decide +kernel

end SyncPerf.XThread
