import SyncPerf.FineTime
import SyncPerf.RecordEntries
import Mathlib.Data.List.Basic

namespace SyncPerf

/-!
# Threads and thread levels

The bookkeeping of `xthread`: thread indices are handed out under the global lock, and the run
is cut into levels, serial and parallel in turn, whose times are kept in an array.

* `XThread.allocThreadIndex`, `threadCreate`, `threadJoin`, `finalize` — the operations; each makes
  its own clock readings (`Clock`);
* `runOps` — a sequence of operations;
* `levelChanges` — the clocks of the operations that close a level and open the next;
* `LevelInv` — what the level array holds after any sequence of operations.
-/

/-! ### The state -/

/-- `thread_t`: the fields of the bookkeeping. -/
structure Thread where
  index : ℕ := 0
  pindex : ℕ := 0
  ptid : ℕ := 0
  childBeginIndex : ℕ := 0
  childEndIndex : ℕ := 0
  startTime : TimeInfo := {}
  actualRuntime : ℚ := 0
  parentRuntime : ℚ := 0
  levelIndex : ℕ := 0

/-- `struct threadLevelInfo`. -/
structure ThreadLevelInfo where
  beginIndex : ℕ := 0
  endIndex : ℕ := 0
  startTime : TimeInfo := {}
  elapse : ℚ := 0

/-- The fields of `class xthread`.  The two arrays have `MAX_THREADS` and `MAX_THREAD_LEVELS`
    elements; the bounds are checked where they are indexed. -/
structure XThread where
  threadIndex : ℕ := 0
  aliveThreads : ℕ := 0
  isMultithreading : Bool := false
  threads : ℕ → Thread := fun _ => {}
  threadLevel : ℕ := 0
  threadLevelInfo : ℕ → ThreadLevelInfo := fun _ => {}

namespace XThread

/-- How an operation can fail: the `abort()` of `allocThreadIndex`, or an access outside
    `_threadLevelInfo`. -/
inductive Fault
  | abort
  | levelOutOfRange
  deriving DecidableEq

/-- The readings of one operation, in the order in which it makes them: the start time of a
    thread, the end of the current level, the start of the next. -/
structure Clock where
  thread : BitVec 64
  stop : BitVec 64
  start : BitVec 64

/-- An `unsigned long` assigned to an `int`. -/
def intOf (n : ℕ) : ℤ := (BitVec.ofNat 32 n).toInt

/-- A small one keeps its value. -/
theorem intOf_of_lt {n : ℕ} (h : n < 2 ^ 31) : intOf n = n := by
  rw [intOf, BitVec.toInt_ofNat']
  simp only [Int.bmod]
  omega

/-! ### Levels -/

section

variable [Rounding]

/-- Write the entry of a thread. -/
def modifyThread (x : XThread) (i : ℕ) (f : Thread → Thread) : XThread :=
  { x with threads := Function.update x.threads i (f (x.threads i)) }

/-- Write the entry of the current level, which must lie inside the array. -/
def modifyLevel (x : XThread) (f : ThreadLevelInfo → ThreadLevelInfo) : Except Fault XThread :=
  if x.threadLevel < maxThreadLevels then
    .ok { x with threadLevelInfo :=
      Function.update x.threadLevelInfo x.threadLevel (f (x.threadLevelInfo x.threadLevel)) }
  else .error .levelOutOfRange

/-- `updateThreadLevelInfo`. -/
def updateThreadLevelInfo (x : XThread) (threadindex : ℕ) : Except Fault XThread :=
  modifyLevel x fun info =>
    if info.endIndex < threadindex then { info with endIndex := threadindex } else info

/-- `startThreadLevelInfo`. -/
def startThreadLevelInfo (x : XThread) (threadIndex : ℕ) (now : BitVec 64) :
    Except Fault XThread :=
  modifyLevel x fun info =>
    { info with startTime := getTsc now, beginIndex := threadIndex, endIndex := threadIndex }

/-- `stopThreadLevelInfo`. -/
def stopThreadLevelInfo (x : XThread) (now : BitVec 64) : Except Fault XThread :=
  modifyLevel x fun info => { info with elapse := getElapsed2ms info.startTime now }

/-- The end of the current level and the start of the next, as `allocThreadIndex` and
    `markThreadExit` both do it. -/
def nextLevel (x : XThread) (index : ℕ) (now : Clock) : Except Fault XThread :=
  match stopThreadLevelInfo x now.stop with
  | .error e => .error e
  | .ok x => startThreadLevelInfo { x with threadLevel := x.threadLevel + 1 } index now.start

/-! ### Operations -/

/-- `getParentRuntime`: an `unsigned long`, to which the double is truncated. -/
def getParentRuntime (x : XThread) (index : ℕ) : ℕ := ⌊(x.threads index).actualRuntime⌋.toNat

/-- `allocThreadIndex`, called by the thread with index `current` and kernel id `tid`. -/
def allocThreadIndex (current tid : ℕ) (now : Clock) (x : XThread) :
    Except Fault (ℕ × XThread) :=
  let index := x.threadIndex
  let alivethreads := intOf x.aliveThreads
  let x := { x with
    threadIndex := (x.threadIndex + 1) % 2 ^ 64
    aliveThreads := (x.aliveThreads + 1) % 2 ^ 64 }
  if index ≥ maxThreads ∨ alivethreads ≥ maxAliveThreads then .error .abort
  else
    let x := modifyThread x index fun t =>
      { t with ptid := tid, index := index, levelIndex := x.threadLevel,
               startTime := getTsc now.thread }
    let leveled : Except Fault XThread :=
      if alivethreads = 0 then startThreadLevelInfo x index now.start
      else if alivethreads = 1 then
        nextLevel (modifyThread { x with isMultithreading := true } current fun t =>
          { t with childBeginIndex := index, childEndIndex := index }) index now
      else if alivethreads > 1 then
        match updateThreadLevelInfo x index with
        | .error e => .error e
        | .ok x => .ok (modifyThread x current fun t =>
            if index > t.childEndIndex then { t with childEndIndex := index } else t)
      else .ok x
    match leveled with
    | .error e => .error e
    | .ok x =>
      if alivethreads = 0 then
        .ok (index, modifyThread x index fun t => { t with pindex := 0, parentRuntime := 0 })
      else
        -- `getParentRuntime` is asked for the old `pindex` of the entry
        .ok (index, modifyThread x index fun t =>
          { t with parentRuntime := getParentRuntime x t.pindex,
                   pindex := (x.threads current).index })

/-- `initialize`: the counters and both arrays are cleared, `_threadLevel` is not; then the
    initial thread takes index 0. -/
def initializeXThread (tid : ℕ) (now : Clock) (x : XThread) : Except Fault XThread :=
  match allocThreadIndex 0 tid now { x with
    aliveThreads := 0, threadIndex := 0, threads := fun _ => {},
    threadLevelInfo := fun _ => {} } with
  | .error e => .error e
  | .ok (_, x) => .ok x

/-- The decrement of an `unsigned long`. -/
def dec64 (n : ℕ) : ℕ := if n = 0 then 2 ^ 64 - 1 else n - 1

/-- `markThreadExit`. -/
def markThreadExit (now : Clock) (x : XThread) : Except Fault XThread :=
  let x := { x with aliveThreads := dec64 x.aliveThreads }
  if x.aliveThreads = 1 then
    nextLevel { x with isMultithreading := false } x.threadIndex now
  else .ok x

/-- `thread_create`: the index is taken before `pthread_create` is called, whose result is only
    handed on. -/
def threadCreate (current tid : ℕ) (result : ℤ) (now : Clock) (x : XThread) :
    Except Fault (ℤ × XThread) :=
  match allocThreadIndex current tid now x with
  | .error e => .error e
  | .ok (_, x) => .ok (result, x)

/-- `thread_join`: `ret` is what the real `pthread_join` returned. -/
def threadJoin (ret : ℤ) (now : Clock) (x : XThread) : Except Fault (ℤ × XThread) :=
  if ret = 0 then
    match markThreadExit now x with
    | .error e => .error e
    | .ok x => .ok (ret, x)
  else .ok (ret, x)

/-- The end of `startThread`: the thread notes its own runtime. -/
def startThreadEnd (current : ℕ) (now : BitVec 64) (x : XThread) : XThread :=
  modifyThread x current fun t => { t with actualRuntime := getElapsed2ms t.startTime now }

/-- `finalize`. -/
def finalize (now : BitVec 64) (x : XThread) : Except Fault XThread := stopThreadLevelInfo x now

/-- One event of the thread library. -/
inductive Op
  | threadCreate (current tid : ℕ) (result : ℤ) (now : Clock)
  | threadJoin (ret : ℤ) (now : Clock)
  | startThreadEnd (current : ℕ) (now : Clock)

/-- The readings of an event. -/
def Op.clock : Op → Clock
  | .threadCreate _ _ _ now => now
  | .threadJoin _ now => now
  | .startThreadEnd _ now => now

/-- One event. -/
def applyOp (op : Op) (x : XThread) : Except Fault XThread :=
  match op with
  | .threadCreate current tid result now => (threadCreate current tid result now x).map Prod.snd
  | .threadJoin ret now => (threadJoin ret now x).map Prod.snd
  | .startThreadEnd current now => .ok (startThreadEnd current now.thread x)

/-- A sequence of events. -/
def runOps : List Op → XThread → Except Fault XThread
  | [], x => .ok x
  | op :: ops, x =>
    match applyOp op x with
    | .error e => .error e
    | .ok x => runOps ops x

/-- The whole process: `initialize`, a sequence of events and `finalize`, over the zeroed static
    storage of `getInstance`. -/
def process (tid : ℕ) (begin : Clock) (ops : List Op) (finish : BitVec 64) :
    Except Fault XThread :=
  match initializeXThread tid begin {} with
  | .error e => .error e
  | .ok x =>
    match runOps ops x with
    | .error e => .error e
    | .ok x => finalize finish x

/-! ### What an operation does to the levels -/

/-- The level array after `startThreadLevelInfo` at level `l`. -/
def started (info : ℕ → ThreadLevelInfo) (l index : ℕ) (now : BitVec 64) : ℕ → ThreadLevelInfo :=
  Function.update info l
    { info l with startTime := getTsc now, beginIndex := index, endIndex := index }

/-- The level array after `stopThreadLevelInfo` at level `l`. -/
def stopped (info : ℕ → ThreadLevelInfo) (l : ℕ) (now : BitVec 64) : ℕ → ThreadLevelInfo :=
  Function.update info l { info l with elapse := getElapsed2ms (info l).startTime now }

/-- The level array after `updateThreadLevelInfo` at level `l`. -/
def extended (info : ℕ → ThreadLevelInfo) (l threadindex : ℕ) : ℕ → ThreadLevelInfo :=
  Function.update info l
    (if (info l).endIndex < threadindex then { info l with endIndex := threadindex } else info l)

omit [Rounding] in
/-- A write to the current level is inside the array. -/
theorem modifyLevel_ok {x y : XThread} {f : ThreadLevelInfo → ThreadLevelInfo}
    (h : modifyLevel x f = .ok y) :
    x.threadLevel < maxThreadLevels ∧
      y = { x with threadLevelInfo :=
        Function.update x.threadLevelInfo x.threadLevel (f (x.threadLevelInfo x.threadLevel)) } := by
  unfold modifyLevel at h
  split at h
  · rename_i hlt
    exact ⟨hlt, (Except.ok.inj h).symm⟩
  · exact absurd h (by simp)

/-- A level change stops level `l`, starts level `l + 1`, and changes nothing else. -/
theorem nextLevel_ok {x y : XThread} {index : ℕ} {now : Clock}
    (h : nextLevel x index now = .ok y) :
    x.threadLevel + 1 < maxThreadLevels ∧
      y = { x with
        threadLevel := x.threadLevel + 1
        threadLevelInfo := started (stopped x.threadLevelInfo x.threadLevel now.stop)
          (x.threadLevel + 1) index now.start } := by
  unfold nextLevel at h
  split at h
  · exact absurd h (by simp)
  · rename_i z hz
    obtain ⟨_, rfl⟩ := modifyLevel_ok hz
    obtain ⟨hlt, rfl⟩ := modifyLevel_ok h
    exact ⟨hlt, rfl⟩

/-- `finalize` stops the current level and changes nothing else. -/
theorem finalize_ok {x y : XThread} {now : BitVec 64} (h : finalize now x = .ok y) :
    y = { x with threadLevelInfo := stopped x.threadLevelInfo x.threadLevel now } := by
  rw [finalize, stopThreadLevelInfo] at h
  exact (modifyLevel_ok h).2

/-- The level part of a state after an operation: the number of threads alive, and the levels
    as they were, changed, or with a later end index. -/
structure LevelStep (x y : XThread) (alive : ℕ) (change : Option Clock) : Prop where
  alive : y.aliveThreads = alive
  levels : match change with
    | some now => ∃ index, y.threadLevel = x.threadLevel + 1 ∧
        y.threadLevelInfo = started (stopped x.threadLevelInfo x.threadLevel now.stop)
          (x.threadLevel + 1) index now.start
    | none => y.threadLevel = x.threadLevel ∧
        (y.threadLevelInfo = x.threadLevelInfo ∨
          ∃ index, y.threadLevelInfo = extended x.threadLevelInfo x.threadLevel index)

/-- `allocThreadIndex` in a process with a thread alive: one more is alive, and the second one
    ends the serial level. -/
theorem allocThreadIndex_ok {x y : XThread} {current tid index : ℕ} {now : Clock}
    (h : allocThreadIndex current tid now x = .ok (index, y)) (hpos : 1 ≤ x.aliveThreads)
    (hle : x.aliveThreads ≤ maxAliveThreads) :
    x.aliveThreads < maxAliveThreads ∧
      LevelStep x y (x.aliveThreads + 1) (if x.aliveThreads = 1 then some now else none) := by
  have hint : intOf x.aliveThreads = x.aliveThreads :=
    intOf_of_lt (by simp only [maxAliveThreads] at hle; omega)
  have hsucc : (x.aliveThreads + 1) % 2 ^ 64 = x.aliveThreads + 1 :=
    Nat.mod_eq_of_lt (by simp only [maxAliveThreads] at hle; omega)
  unfold allocThreadIndex at h
  simp only [hint, hsucc] at h
  split at h
  · exact absurd h (by simp)
  · rename_i habort
    have hlt : x.aliveThreads < maxAliveThreads := by omega
    refine ⟨hlt, ?_⟩
    have hne : ¬ ((x.aliveThreads : ℤ) = 0) := by omega
    simp only [hne, if_false] at h
    split at h
    · exact absurd h (by simp)
    · rename_i z hz
      obtain ⟨-, rfl⟩ := Prod.mk.inj (Except.ok.inj h)
      by_cases hone : x.aliveThreads = 1
      · rw [if_pos (by omega)] at hz
        rw [if_pos hone]
        obtain ⟨-, rfl⟩ := nextLevel_ok hz
        exact ⟨rfl, _, rfl, rfl⟩
      · rw [if_neg (by omega), if_pos (by omega)] at hz
        rw [if_neg hone]
        split at hz
        · exact absurd hz (by simp)
        · rename_i w hw
          obtain rfl := Except.ok.inj hz
          obtain ⟨-, rfl⟩ := modifyLevel_ok hw
          exact ⟨rfl, rfl, .inr ⟨_, rfl⟩⟩

/-- An index that `allocThreadIndex` hands out is the next one, and below `MAX_THREADS`. -/
theorem allocThreadIndex_index {x y : XThread} {current tid index : ℕ} {now : Clock}
    (h : allocThreadIndex current tid now x = .ok (index, y)) :
    index = x.threadIndex ∧ x.threadIndex < maxThreads ∧ y.threadIndex = x.threadIndex + 1 := by
  unfold allocThreadIndex at h
  simp only at h
  split at h
  · exact absurd h (by simp)
  · rename_i habort
    have hlt : x.threadIndex < maxThreads := by omega
    have hsucc : (x.threadIndex + 1) % 2 ^ 64 = x.threadIndex + 1 :=
      Nat.mod_eq_of_lt (by simp only [maxThreads] at hlt; omega)
    split at h
    · exact absurd h (by simp)
    · rename_i z hz
      -- none of the four ways through the levels touches the cursor
      have hcur : z.threadIndex = x.threadIndex + 1 := by
        rw [hsucc] at hz
        split at hz
        · obtain ⟨-, rfl⟩ := modifyLevel_ok hz
          rfl
        · split at hz
          · obtain ⟨-, rfl⟩ := nextLevel_ok hz
            rfl
          · split at hz
            · split at hz
              · exact absurd hz (by simp)
              · rename_i w hw
                obtain ⟨-, rfl⟩ := modifyLevel_ok hw
                obtain rfl := Except.ok.inj hz
                rfl
            · obtain rfl := Except.ok.inj hz
              rfl
      split at h
      · obtain ⟨rfl, rfl⟩ := Prod.mk.inj (Except.ok.inj h)
        exact ⟨rfl, hlt, hcur⟩
      · obtain ⟨rfl, rfl⟩ := Prod.mk.inj (Except.ok.inj h)
        exact ⟨rfl, hlt, hcur⟩

/-- A thread that ends gives no index back. -/
theorem markThreadExit_index {x y : XThread} {now : Clock} (h : markThreadExit now x = .ok y) :
    y.threadIndex = x.threadIndex := by
  unfold markThreadExit at h
  simp only at h
  split at h
  · obtain ⟨-, rfl⟩ := nextLevel_ok h
    rfl
  · obtain rfl := Except.ok.inj h
    rfl

/-- `markThreadExit` with two threads alive ends the parallel level. -/
theorem markThreadExit_ok {x y : XThread} {now : Clock} (h : markThreadExit now x = .ok y)
    (hpos : 2 ≤ x.aliveThreads) :
    LevelStep x y (x.aliveThreads - 1) (if x.aliveThreads = 2 then some now else none) := by
  have hpred : dec64 x.aliveThreads = x.aliveThreads - 1 := if_neg (by omega)
  unfold markThreadExit at h
  simp only [hpred] at h
  by_cases htwo : x.aliveThreads = 2
  · rw [if_pos (by omega)] at h
    rw [if_pos htwo]
    obtain ⟨-, rfl⟩ := nextLevel_ok h
    exact ⟨rfl, _, rfl, rfl⟩
  · rw [if_neg (by omega)] at h
    rw [if_neg htwo]
    obtain rfl := Except.ok.inj h
    exact ⟨rfl, rfl, .inl rfl⟩

/-- The number of threads alive after an event. -/
def aliveAfter (alive : ℕ) : Op → ℕ
  | .threadCreate _ _ _ _ => alive + 1
  | .threadJoin ret _ => if ret = 0 then alive - 1 else alive
  | .startThreadEnd _ _ => alive

/-- The event ends the current level: the second thread is created, or joined. -/
def changesLevel (alive : ℕ) : Op → Bool
  | .threadCreate _ _ _ _ => alive = 1
  | .threadJoin ret _ => ret = 0 ∧ alive = 2
  | .startThreadEnd _ _ => false

/-- A join can only succeed for a thread other than the joining one. -/
def JoinLegal (alive : ℕ) : Op → Prop
  | .threadJoin ret _ => ret = 0 → 2 ≤ alive
  | _ => True

/-- A creation that is accepted. -/
theorem applyOp_threadCreate {current tid : ℕ} {result : ℤ} {now : Clock} {x y : XThread}
    (h : applyOp (.threadCreate current tid result now) x = .ok y) :
    ∃ index, allocThreadIndex current tid now x = .ok (index, y) := by
  rw [applyOp, threadCreate] at h
  split at h
  · cases h
  · rename_i index z hz
    obtain rfl := Except.ok.inj h
    exact ⟨index, hz⟩

/-- A join that is accepted. -/
theorem applyOp_threadJoin {ret : ℤ} {now : Clock} {x y : XThread}
    (h : applyOp (.threadJoin ret now) x = .ok y) :
    ret = 0 ∧ markThreadExit now x = .ok y ∨ ret ≠ 0 ∧ y = x := by
  rw [applyOp, threadJoin] at h
  split at h
  · rename_i hret
    split at h
    · cases h
    · rename_i z hz
      obtain rfl := Except.ok.inj h
      exact .inl ⟨hret, hz⟩
  · rename_i hret
    exact .inr ⟨hret, (Except.ok.inj h).symm⟩

/-- What an event does to the levels. -/
theorem applyOp_ok {op : Op} {x y : XThread} (h : applyOp op x = .ok y)
    (hlegal : JoinLegal x.aliveThreads op) (hpos : 1 ≤ x.aliveThreads)
    (hle : x.aliveThreads ≤ maxAliveThreads) :
    y.aliveThreads ≤ maxAliveThreads ∧
      LevelStep x y (aliveAfter x.aliveThreads op)
        (if changesLevel x.aliveThreads op then some op.clock else none) := by
  cases op with
  | threadCreate current tid result now =>
    obtain ⟨index, halloc⟩ := applyOp_threadCreate h
    obtain ⟨hlt, hstep⟩ := allocThreadIndex_ok halloc hpos hle
    refine ⟨by rw [hstep.alive]; exact hlt, ?_⟩
    simpa [aliveAfter, changesLevel, Op.clock] using hstep
  | threadJoin ret now =>
    obtain ⟨hret, hexit⟩ | ⟨hret, rfl⟩ := applyOp_threadJoin h
    · have hstep := markThreadExit_ok hexit (hlegal hret)
      refine ⟨by rw [hstep.alive]; omega, ?_⟩
      simpa [aliveAfter, changesLevel, Op.clock, hret] using hstep
    · exact ⟨hle, by simp [aliveAfter, hret], by simp [changesLevel, hret]⟩
  | startThreadEnd current now =>
    obtain rfl := Except.ok.inj h
    exact ⟨hle, rfl, rfl, .inl rfl⟩

/-! ### The level times of a run

The clocks of the level changes are listed with the latest first, so that the level array is
described by recursion on the list. -/

/-- When the current level was started. -/
def lastStart (t₀ : BitVec 64) : List Clock → BitVec 64
  | [] => t₀
  | now :: _ => now.start

/-- The level array holds the times of the level changes. -/
def Timed (t₀ : BitVec 64) (info : ℕ → ThreadLevelInfo) : List Clock → Prop
  | [] => (info 0).startTime = getTsc t₀
  | now :: changes =>
    Timed t₀ info changes ∧
      (info changes.length).elapse = getElapsed2ms (getTsc (lastStart t₀ changes)) now.stop ∧
      (info (changes.length + 1)).startTime = getTsc now.start

/-- The readings of the level changes never run backwards. -/
def Ordered (t₀ : BitVec 64) : List Clock → BitVec 64 → Prop
  | [], last => t₀ ≤ last
  | now :: changes, last => Ordered t₀ changes now.stop ∧ now.stop ≤ now.start ∧ now.start ≤ last

theorem Timed.startTime {t₀ : BitVec 64} {info : ℕ → ThreadLevelInfo} {changes : List Clock}
    (h : Timed t₀ info changes) :
    (info changes.length).startTime = getTsc (lastStart t₀ changes) := by
  cases changes with
  | nil => exact h
  | cons now rest => exact h.2.2

/-- Only the start times up to the current level and the elapsed times below it matter. -/
theorem Timed.congr {t₀ : BitVec 64} {info info' : ℕ → ThreadLevelInfo} {changes : List Clock}
    (h : Timed t₀ info changes)
    (hstart : ∀ l ≤ changes.length, (info' l).startTime = (info l).startTime)
    (helapse : ∀ l < changes.length, (info' l).elapse = (info l).elapse) :
    Timed t₀ info' changes := by
  induction changes with
  | nil => exact (hstart 0 le_rfl).trans h
  | cons now rest ih =>
    simp only [List.length_cons] at hstart helapse
    obtain ⟨hrest, hel, hst⟩ := h
    refine ⟨ih hrest (fun l hl => hstart l (by omega)) (fun l hl => helapse l (by omega)), ?_, ?_⟩
    · rw [helapse _ (by omega), hel]
    · rw [hstart _ (by omega), hst]

/-- Stopping the current level leaves its start and the levels below it alone. -/
theorem Timed.stop {t₀ : BitVec 64} {info : ℕ → ThreadLevelInfo} {changes : List Clock}
    (h : Timed t₀ info changes) (now : BitVec 64) :
    Timed t₀ (stopped info changes.length now) changes := by
  refine h.congr (fun l _ => ?_) (fun l hl => ?_)
  · unfold stopped
    by_cases hl : l = changes.length
    · rw [hl, Function.update_self]
    · rw [Function.update_of_ne hl]
  · unfold stopped
    rw [Function.update_of_ne hl.ne]

/-- A level change adds its clock. -/
theorem Timed.change {t₀ : BitVec 64} {info : ℕ → ThreadLevelInfo} {changes : List Clock}
    (h : Timed t₀ info changes) (index : ℕ) (now : Clock) :
    Timed t₀ (started (stopped info changes.length now.stop) (changes.length + 1) index now.start)
      (now :: changes) := by
  have hne : ∀ l ≤ changes.length, l ≠ changes.length + 1 := fun l hl => by omega
  refine ⟨(h.stop now.stop).congr (fun l hl => ?_) (fun l hl => ?_), ?_, ?_⟩
  · rw [started, Function.update_of_ne (hne l hl)]
  · rw [started, Function.update_of_ne (hne l hl.le)]
  · rw [started, Function.update_of_ne (hne _ le_rfl), stopped, Function.update_self,
      h.startTime]
  · rw [started, Function.update_self]

/-- A later end index leaves the times alone. -/
theorem Timed.extend {t₀ : BitVec 64} {info : ℕ → ThreadLevelInfo} {changes : List Clock}
    (h : Timed t₀ info changes) (l index : ℕ) : Timed t₀ (extended info l index) changes := by
  have hsame : ∀ k, (extended info l index k).startTime = (info k).startTime ∧
      (extended info l index k).elapse = (info k).elapse := by
    intro k
    unfold extended
    by_cases hk : k = l
    · subst hk
      rw [Function.update_self]
      split <;> exact ⟨rfl, rfl⟩
    · rw [Function.update_of_ne hk]
      exact ⟨rfl, rfl⟩
  exact h.congr (fun k _ => (hsame k).1) (fun k _ => (hsame k).2)

omit [Rounding] in
theorem Ordered.mono {t₀ last last' : BitVec 64} {changes : List Clock}
    (h : Ordered t₀ changes last) (hle : last ≤ last') : Ordered t₀ changes last' := by
  cases changes with
  | nil => exact BitVec.le_trans h hle
  | cons now rest => exact ⟨h.1, h.2.1, BitVec.le_trans h.2.2 hle⟩

omit [Rounding] in
theorem Ordered.toLast {t₀ last : BitVec 64} {changes : List Clock}
    (h : Ordered t₀ changes last) : Ordered t₀ changes (lastStart t₀ changes) := by
  cases changes with
  | nil => exact BitVec.le_refl _
  | cons now rest => exact ⟨h.1, h.2.1, BitVec.le_refl _⟩

omit [Rounding] in
theorem Ordered.lastStart_le {t₀ last : BitVec 64} {changes : List Clock}
    (h : Ordered t₀ changes last) : lastStart t₀ changes ≤ last := by
  cases changes with
  | nil => exact h
  | cons now rest => exact h.2.2

omit [Rounding] in
/-- Every level starts after the first one and not after the current one. -/
theorem Ordered.start_le {t₀ last : BitVec 64} {changes : List Clock}
    (h : Ordered t₀ changes last) :
    t₀ ≤ lastStart t₀ changes ∧
      ∀ now ∈ changes, t₀ ≤ now.start ∧ now.start ≤ lastStart t₀ changes := by
  induction changes generalizing last with
  | nil => exact ⟨BitVec.le_refl _, by simp⟩
  | cons now rest ih =>
    obtain ⟨hrest, hstop, -⟩ := h
    obtain ⟨hfirst, hall⟩ := ih hrest
    have hlast : lastStart t₀ rest ≤ now.start := BitVec.le_trans hrest.lastStart_le hstop
    refine ⟨BitVec.le_trans hfirst hlast, fun now' hmem => ?_⟩
    rcases List.mem_cons.mp hmem with rfl | hmem
    · exact ⟨BitVec.le_trans hfirst hlast, BitVec.le_refl _⟩
    · exact ⟨(hall now' hmem).1, BitVec.le_trans (hall now' hmem).2 hlast⟩

/-! ### Runs -/

/-- What holds after a sequence of events with level changes `changes` (latest first), the
    clock being at `last`. -/
structure LevelInv (t₀ last : BitVec 64) (changes : List Clock) (x : XThread) : Prop where
  pos : 1 ≤ x.aliveThreads
  le : x.aliveThreads ≤ maxAliveThreads
  level : x.threadLevel = changes.length
  timed : Timed t₀ x.threadLevelInfo changes
  ordered : Ordered t₀ changes last

/-- The clock does not run backwards within an event. -/
def Clock.From (last : BitVec 64) (now : Clock) : Prop :=
  last ≤ now.thread ∧ now.thread ≤ now.stop ∧ now.stop ≤ now.start

/-- The clock does not run backwards from `t` over the events to `last`. -/
def ClockMonotone (t : BitVec 64) : List Op → BitVec 64 → Prop
  | [], last => t ≤ last
  | op :: ops, last => op.clock.From t ∧ ClockMonotone op.clock.start ops last

/-- Every join of the sequence is legal, `alive` threads being alive before it. -/
def JoinsLegal (alive : ℕ) : List Op → Prop
  | [] => True
  | op :: ops => JoinLegal alive op ∧ JoinsLegal (aliveAfter alive op) ops

/-- The clocks of the level changes of a sequence of events, in order. -/
def levelChanges (alive : ℕ) : List Op → List Clock
  | [] => []
  | op :: ops =>
    if changesLevel alive op then op.clock :: levelChanges (aliveAfter alive op) ops
    else levelChanges (aliveAfter alive op) ops

/-- One event keeps the invariant. -/
theorem LevelInv.applyOp {t₀ last : BitVec 64} {changes : List Clock} {x y : XThread} {op : Op}
    (hI : LevelInv t₀ last changes x) (h : applyOp op x = .ok y)
    (hlegal : JoinLegal x.aliveThreads op) (hclock : op.clock.From last) :
    y.aliveThreads = aliveAfter x.aliveThreads op ∧
      LevelInv t₀ op.clock.start
        (if changesLevel x.aliveThreads op then op.clock :: changes else changes) y := by
  obtain ⟨hle, hstep⟩ := applyOp_ok h hlegal hI.pos hI.le
  have hpos : 1 ≤ y.aliveThreads := by
    rw [hstep.alive]
    cases op with
    | threadCreate current tid result now => exact Nat.le_add_left _ _
    | threadJoin ret now =>
      simp only [aliveAfter]
      split
      · rename_i hret
        have := hlegal hret
        omega
      · exact hI.pos
    | startThreadEnd current now => exact hI.pos
  obtain ⟨hthread, hstop, hstart⟩ := hclock
  have hlast : last ≤ op.clock.stop := BitVec.le_trans hthread hstop
  refine ⟨hstep.alive, ?_⟩
  have hlevels := hstep.levels
  by_cases hchange : changesLevel x.aliveThreads op = true
  · rw [if_pos hchange] at hlevels ⊢
    obtain ⟨index, hlevel, hinfo⟩ := hlevels
    refine ⟨hpos, hle, by rw [hlevel, hI.level, List.length_cons], ?_, ?_⟩
    · rw [hinfo, hI.level]
      exact hI.timed.change index op.clock
    · exact ⟨hI.ordered.mono hlast, hstart, BitVec.le_refl _⟩
  · rw [if_neg hchange] at hlevels ⊢
    obtain ⟨hlevel, hinfo⟩ := hlevels
    refine ⟨hpos, hle, by rw [hlevel, hI.level], ?_,
      hI.ordered.mono (BitVec.le_trans hlast hstart)⟩
    rcases hinfo with hinfo | ⟨index, hinfo⟩
    · rw [hinfo]
      exact hI.timed
    · rw [hinfo]
      exact hI.timed.extend _ _

/-- **Runs.**  After any sequence of events the level array holds the times of the level
    changes of that sequence. -/
theorem LevelInv.runOps {t₀ t last : BitVec 64} {changes : List Clock} {x y : XThread}
    {ops : List Op} (hI : LevelInv t₀ t changes x) (h : runOps ops x = .ok y)
    (hlegal : JoinsLegal x.aliveThreads ops) (hclock : ClockMonotone t ops last) :
    LevelInv t₀ last ((levelChanges x.aliveThreads ops).reverse ++ changes) y := by
  induction ops generalizing x t changes with
  | nil =>
    obtain rfl := Except.ok.inj h
    exact ⟨hI.pos, hI.le, hI.level, hI.timed, hI.ordered.mono hclock⟩
  | cons op ops ih =>
    simp only [XThread.runOps] at h
    split at h
    · exact absurd h (by simp)
    · rename_i z hz
      obtain ⟨halive, hI'⟩ := hI.applyOp hz hlegal.1 hclock.1
      have hrest := ih hI' h (halive ▸ hlegal.2) hclock.2
      rw [halive] at hrest
      simp only [levelChanges]
      split
      · rename_i hchange
        rw [if_pos hchange] at hrest
        simpa using hrest
      · rename_i hchange
        rw [if_neg hchange] at hrest
        exact hrest

/-- `initialize` starts level 0 with the initial thread alive. -/
theorem LevelInv.initial {tid : ℕ} {now : Clock} {x y : XThread} (hx : x.threadLevel = 0)
    (h : initializeXThread tid now x = .ok y) :
    y.aliveThreads = 1 ∧ LevelInv now.start now.start [] y := by
  simp only [initializeXThread, allocThreadIndex, show intOf 0 = 0 from rfl] at h
  rw [if_neg (by decide)] at h
  simp only [if_true, startThreadLevelInfo] at h
  split at h
  · exact absurd h (by simp)
  · rename_i i w hw
    split at hw
    · exact absurd hw (by simp)
    · rename_i z hz
      obtain ⟨-, rfl⟩ := modifyLevel_ok hz
      obtain ⟨-, rfl⟩ := Prod.mk.inj (Except.ok.inj hw)
      obtain rfl := Except.ok.inj h
      refine ⟨rfl, le_rfl, show 1 ≤ maxAliveThreads by decide, hx, ?_, BitVec.le_refl _⟩
      show (Function.update (fun _ : ℕ => ({} : ThreadLevelInfo)) x.threadLevel _ 0).startTime = _
      rw [hx, Function.update_self]

/-- **The process.**  When it ends, the last level has the time since its own start, and the
    levels below it the times between the level changes. -/
theorem process_ok {tid : ℕ} {begin : Clock} {ops : List Op} {finish : BitVec 64} {z : XThread}
    (h : process tid begin ops finish = .ok z) (hlegal : JoinsLegal 1 ops)
    (hclock : ClockMonotone begin.start ops finish) :
    LevelInv begin.start finish (levelChanges 1 ops).reverse z ∧
      (z.threadLevelInfo z.threadLevel).elapse =
        getElapsed2ms (getTsc (lastStart begin.start (levelChanges 1 ops).reverse)) finish := by
  unfold process at h
  split at h
  · exact absurd h (by simp)
  · rename_i x hx
    split at h
    · exact absurd h (by simp)
    · rename_i y hy
      obtain ⟨halive, hinit⟩ := LevelInv.initial rfl hx
      have hI := hinit.runOps hy (halive ▸ hlegal) hclock
      rw [halive, List.append_nil] at hI
      obtain rfl := finalize_ok h
      refine ⟨⟨hI.pos, hI.le, hI.level, hI.level ▸ hI.timed.stop finish, hI.ordered⟩, ?_⟩
      show (stopped y.threadLevelInfo y.threadLevel finish y.threadLevel).elapse = _
      rw [stopped, Function.update_self, hI.level, hI.timed.startTime]

end

/-! ### A run without a pause before its last level -/

/-- No cycles are no time. -/
theorem getElapsed2ms_self (t : BitVec 64) : getElapsed2ms (getTsc t) t = 0 := by
  rw [getElapsed2ms_of_le (BitVec.le_refl t), sub_self, zero_div]

/-- The last level starts with the process exactly when every level change does. -/
theorem Ordered.lastStart_eq_iff {t₀ last : BitVec 64} {changes : List Clock}
    (h : Ordered t₀ changes last) :
    lastStart t₀ changes = t₀ ↔ ∀ now ∈ changes, now.start = t₀ := by
  constructor
  · intro heq now hmem
    obtain ⟨hge, hle⟩ := h.start_le.2 now hmem
    exact BitVec.le_antisymm (heq ▸ hle) hge
  · intro hall
    cases changes with
    | nil => rfl
    | cons now rest => exact hall now (List.mem_cons_self ..)

/-- When the last level starts with the process, all earlier levels took no time. -/
theorem Timed.elapse_zero {t₀ : BitVec 64} {info : ℕ → ThreadLevelInfo} {changes : List Clock}
    (h : Timed t₀ info changes) (hord : Ordered t₀ changes t₀) :
    ∀ l < changes.length, (info l).elapse = 0 := by
  induction changes with
  | nil => simp
  | cons now rest ih =>
    obtain ⟨hrest, hel, -⟩ := h
    obtain ⟨hord', hstop, hstart⟩ := hord
    -- the readings of the last change are squeezed between `t₀` and `t₀`
    have hnow : now.stop = t₀ :=
      BitVec.le_antisymm (BitVec.le_trans hstop hstart)
        (BitVec.le_trans hord'.start_le.1 hord'.lastStart_le)
    rw [hnow] at hord' hel
    have hlast : lastStart t₀ rest = t₀ :=
      BitVec.le_antisymm hord'.lastStart_le hord'.start_le.1
    intro l hl
    rw [List.length_cons] at hl
    by_cases hl' : l < rest.length
    · exact ih hrest hord' l hl'
    · rw [show l = rest.length by omega, hel, hlast, getElapsed2ms_self]

end XThread

end SyncPerf
