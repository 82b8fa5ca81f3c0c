import SyncPerf.RecordEntries
import SyncPerf.XThread
import Mathlib.Algebra.BigOperators.Group.Finset.Basic
import Mathlib.Algebra.Order.Field.Basic
import Mathlib.Data.Rat.Cast.Order
import Mathlib.Tactic.Ring
import Mathlib.Tactic.Linarith

namespace SyncPerf.Report

open scoped BigOperators

/-!
# The report's classification

`Report::print` sums the counters of a mutex over all threads, computes its conflict rate and
its acquisition frequency and puts it into one of three lists.  The sums and the factor 100 are
`unsigned int` arithmetic; the divisions are taken as exact rationals.

* `print` — the loop over the mutexes with the loop over the threads inside;
* `ReportExact` — the classification by the unbounded sums;
* `RatesKept` — when wrap-around crosses no threshold;
* `print_exact_iff` — the report is exact if and only if that is so for every used mutex;
* `reportedElapse`, `reportedElapse_eq_iff` — the time that the access counts are divided by.
-/

/-! ### `Report::print` -/

/-- `THRESHOLD_CONFLICT`, in percent. -/
def thresholdConflict : ℚ := 5

/-- `THRESHOLD_FREQUENCY`, per millisecond. -/
def thresholdFrequency : ℚ := 1

/-- `sync_perf_t`: the rates of one mutex.  `index` is the loop index it was made at, by which
    the lists are compared; the call sites are not part of the classification. -/
structure SyncPerfEntry where
  index : ℕ
  conflictRate : ℚ
  frequency : ℚ

/-- The three lists a mutex can be reported in. -/
inductive Quadrant
  | highConflictHighFreq
  | highConflictLowFreq
  | lowConflictHighFreq
  deriving DecidableEq

/-- The three vectors of `Report::print`. -/
structure Quadrants where
  highConflictHighFreq : List SyncPerfEntry := []
  highConflictLowFreq : List SyncPerfEntry := []
  lowConflictHighFreq : List SyncPerfEntry := []

namespace Quadrants

/-- One of the three vectors. -/
def get (l : Quadrants) : Quadrant → List SyncPerfEntry
  | .highConflictHighFreq => l.highConflictHighFreq
  | .highConflictLowFreq => l.highConflictLowFreq
  | .lowConflictHighFreq => l.lowConflictHighFreq

/-- `push_back` on one of the three vectors. -/
def pushBack (l : Quadrants) (q : Quadrant) (e : SyncPerfEntry) : Quadrants :=
  match q with
  | .highConflictHighFreq => { l with highConflictHighFreq := l.highConflictHighFreq ++ [e] }
  | .highConflictLowFreq => { l with highConflictLowFreq := l.highConflictLowFreq ++ [e] }
  | .lowConflictHighFreq => { l with lowConflictHighFreq := l.lowConflictHighFreq ++ [e] }

/-- The loop indices of a vector's entries. -/
def ids (l : Quadrants) (q : Quadrant) : List ℕ := (l.get q).map SyncPerfEntry.index

theorem ids_pushBack (l : Quadrants) (q q' : Quadrant) (e : SyncPerfEntry) :
    (l.pushBack q e).ids q' = if q = q' then l.ids q' ++ [e.index] else l.ids q' := by
  cases q <;> cases q' <;> simp [ids, get, pushBack]

end Quadrants

/-- The loop `total += per_thd_data->…` over the threads, in `unsigned int`. -/
def totalCount (k : Counter) (perThdData : ℕ → ThreadMutex) : ℕ → ℕ
  | 0 => 0
  | n + 1 => (totalCount k perThdData n + (perThdData n).get k) % 2 ^ 32

/-- `100*total_fail_count`, in `unsigned int`. -/
def hundredTimes (totalFailCount : ℕ) : ℕ := (100 * totalFailCount) % 2 ^ 32

/-- The list (if any) an entry's rates put it in. -/
def quadrantOf (e : SyncPerfEntry) : Option Quadrant :=
  if e.conflictRate > thresholdConflict then
    if e.frequency > thresholdFrequency then some .highConflictHighFreq
    else some .highConflictLowFreq
  else
    if e.frequency > thresholdFrequency then some .lowConflictHighFreq
    else none

/-- The entry of mutex `i`, from the sums of its records. -/
def syncPerfEntry (elapsed : ℚ) (perThdData : ℕ → ThreadMutex) (threads i : ℕ) :
    SyncPerfEntry where
  index := i
  conflictRate := (hundredTimes (totalCount .fail perThdData threads) : ℚ) /
    (totalCount .access perThdData threads : ℚ)
  frequency := (totalCount .access perThdData threads : ℚ) / elapsed

/-- The body of the loop over the mutexes. -/
def printMutex (elapsed : ℚ) (perThdData : ℕ → ThreadMutex) (threads i : ℕ) (l : Quadrants) :
    Quadrants :=
  if totalCount .access perThdData threads > 0 then
    let e := syncPerfEntry elapsed perThdData threads i
    match quadrantOf e with
    | some q => l.pushBack q e
    | none => l
  else l

/-- `Report::print`, the classification: mutexes `0 … n - 1`, with the records of mutex `i` and
    thread `t` in `perThdData i t`, over the elapsed time `elapsed_time_for_freq`. -/
def print (elapsed : ℚ) (perThdData : ℕ → ℕ → ThreadMutex) (threads : ℕ) : ℕ → Quadrants
  | 0 => {}
  | n + 1 => printMutex elapsed (perThdData n) threads n (print elapsed perThdData threads n)

/-! ### The exact classification -/

/-- The unbounded sum of a counter over the threads. -/
def exactCount (k : Counter) (perThdData : ℕ → ThreadMutex) (threads : ℕ) : ℕ :=
  ∑ t ∈ Finset.range threads, (perThdData t).get k

/-- The list that the exact sums `A` (accesses) and `F` (failures) decide. -/
def exactQuadrant (A F : ℕ) (E : ℚ) : Option Quadrant :=
  if 100 * (F : ℚ) > thresholdConflict * A then
    if (A : ℚ) > thresholdFrequency * E then some .highConflictHighFreq
    else some .highConflictLowFreq
  else
    if (A : ℚ) > thresholdFrequency * E then some .lowConflictHighFreq
    else none

/-- The used mutexes that belong into list `q`, in index order. -/
def exactIds (elapsed : ℚ) (perThdData : ℕ → ℕ → ThreadMutex) (threads n : ℕ) (q : Quadrant) :
    List ℕ :=
  (List.range n).filter fun i =>
    0 < exactCount .access (perThdData i) threads ∧
      exactQuadrant (exactCount .access (perThdData i) threads)
        (exactCount .fail (perThdData i) threads) elapsed = some q

/-- The report is exact: each list holds just the mutexes that belong into it, no mutex is in
    two lists, and every list is in index order. -/
structure ReportExact (elapsed : ℚ) (perThdData : ℕ → ℕ → ThreadMutex) (threads n : ℕ) :
    Prop where
  lists : ∀ q, (print elapsed perThdData threads n).ids q = exactIds elapsed perThdData threads n q
  once : ∀ i q q', i ∈ (print elapsed perThdData threads n).ids q →
    i ∈ (print elapsed perThdData threads n).ids q' → q = q'
  ordered : ∀ q, ((print elapsed perThdData threads n).ids q).Pairwise (· < ·)

/-! ### When wrap-around crosses no threshold -/

/-- How far the exact counts are above the conflict threshold: `100·F − 5·A`. -/
def margin (A F : ℕ) : ℤ := 100 * F - 5 * A

/-- What the wrap-around takes away from that margin: the multiples of `2 ^ 32` that `100·F`
    loses, less five times those that `A` loses. -/
def lost (A F : ℕ) : ℤ := 2 ^ 32 * ((100 * F / 2 ^ 32 : ℕ) - 5 * (A / 2 ^ 32 : ℕ))

/-- Wrap-around crosses no threshold: the elapsed time is not between what is left of `A` and
    `A`, and zero is not between the margin and what is left of it (when nothing is left of
    `A` the mutex must not be above the conflict threshold at all). -/
structure RatesKept (A F : ℕ) (E : ℚ) : Prop where
  frequency : ¬ (((A % 2 ^ 32 : ℕ) : ℚ) ≤ E ∧ E < A)
  conflict : if A % 2 ^ 32 = 0 then margin A F ≤ 0
    else ¬ (0 < margin A F ∧ margin A F ≤ lost A F) ∧
      ¬ (lost A F < margin A F ∧ margin A F ≤ 0)

/-- Counts that do not wrap keep their rates. -/
theorem ratesKept_of_lt {A F : ℕ} {E : ℚ} (hA : 0 < A) (hA' : A < 2 ^ 32)
    (hF : 100 * F < 2 ^ 32) : RatesKept A F E where
  frequency := by
    rw [Nat.mod_eq_of_lt hA']
    rintro ⟨h1, h2⟩
    linarith
  conflict := by
    rw [Nat.mod_eq_of_lt hA', if_neg hA.ne']
    have hlost : lost A F = 0 := by
      unfold lost
      omega
    rw [hlost]
    omega

/-! ### What the loops compute -/

/-- The `unsigned int` sum is the exact sum modulo `2 ^ 32`. -/
theorem totalCount_eq (k : Counter) (perThdData : ℕ → ThreadMutex) (threads : ℕ) :
    totalCount k perThdData threads = exactCount k perThdData threads % 2 ^ 32 := by
  induction threads with
  | zero => rfl
  | succ n ih =>
    have hsucc : exactCount k perThdData (n + 1) =
        exactCount k perThdData n + (perThdData n).get k := Finset.sum_range_succ _ _
    rw [totalCount, ih, hsucc]
    omega

/-- The factor 100 is taken modulo `2 ^ 32` too. -/
theorem hundredTimes_totalCount (perThdData : ℕ → ThreadMutex) (threads : ℕ) :
    hundredTimes (totalCount .fail perThdData threads) =
      100 * exactCount .fail perThdData threads % 2 ^ 32 := by
  rw [hundredTimes, totalCount_eq]
  omega

/-- The list that the loop body puts a mutex with exact sums `A` and `F` into. -/
def codeQuadrant (A F : ℕ) (E : ℚ) : Option Quadrant :=
  if A % 2 ^ 32 > 0 then
    quadrantOf ⟨0, ((100 * F % 2 ^ 32 : ℕ) : ℚ) / ((A % 2 ^ 32 : ℕ) : ℚ),
      ((A % 2 ^ 32 : ℕ) : ℚ) / E⟩
  else none

/-- One round of the loop appends the mutex to the list that `codeQuadrant` names. -/
theorem ids_printMutex (E : ℚ) (perThdData : ℕ → ThreadMutex) (threads i : ℕ) (l : Quadrants)
    (q : Quadrant) :
    (printMutex E perThdData threads i l).ids q =
      if codeQuadrant (exactCount .access perThdData threads)
        (exactCount .fail perThdData threads) E = some q then l.ids q ++ [i] else l.ids q := by
  have hcode : codeQuadrant (exactCount .access perThdData threads)
      (exactCount .fail perThdData threads) E =
      if totalCount .access perThdData threads > 0 then
        quadrantOf (syncPerfEntry E perThdData threads i)
      else none := by
    rw [codeQuadrant, syncPerfEntry, hundredTimes_totalCount, totalCount_eq]
    rfl
  simp only [hcode, printMutex]
  by_cases hA : totalCount .access perThdData threads > 0
  · simp only [if_pos hA]
    cases hq : quadrantOf (syncPerfEntry E perThdData threads i) with
    | none => simp
    | some q' => simp [Quadrants.ids_pushBack, syncPerfEntry]
  · simp [if_neg hA]

/-- The lists of the whole report, as the loop makes them. -/
theorem ids_print (E : ℚ) (perThdData : ℕ → ℕ → ThreadMutex) (threads n : ℕ) (q : Quadrant) :
    (print E perThdData threads n).ids q = (List.range n).filter fun i =>
      codeQuadrant (exactCount .access (perThdData i) threads)
        (exactCount .fail (perThdData i) threads) E = some q := by
  induction n with
  | zero => cases q <;> rfl
  | succ n ih =>
    rw [print, ids_printMutex, ih, List.range_succ, List.filter_append]
    split
    · rename_i h
      simp [h]
    · rename_i h
      simp [h]

/-! ### When the two classifications agree -/

/-- A classification is the pair of its two comparisons. -/
theorem quadrant_eq_iff {c f c' f' : Prop} [Decidable c] [Decidable f] [Decidable c']
    [Decidable f'] :
    (if c then if f then some Quadrant.highConflictHighFreq else some .highConflictLowFreq
      else if f then some .lowConflictHighFreq else none) =
    (if c' then if f' then some Quadrant.highConflictHighFreq else some .highConflictLowFreq
      else if f' then some .lowConflictHighFreq else none) ↔ ((c ↔ c') ∧ (f ↔ f')) := by
  by_cases c <;> by_cases f <;> by_cases c' <;> by_cases f' <;> simp [*]

/-- Being in no list is failing both comparisons. -/
theorem none_eq_quadrant_iff {c f : Prop} [Decidable c] [Decidable f] :
    (none = if c then if f then some Quadrant.highConflictHighFreq else some .highConflictLowFreq
      else if f then some .lowConflictHighFreq else none) ↔ (¬ c ∧ ¬ f) := by
  by_cases c <;> by_cases f <;> simp [*]

/-- The frequency comparison survives the wrap-around. -/
theorem frequency_iff {A : ℕ} {E : ℚ} :
    ((((A % 2 ^ 32 : ℕ) : ℚ) > E) ↔ ((A : ℚ) > E)) ↔
      ¬ (((A % 2 ^ 32 : ℕ) : ℚ) ≤ E ∧ E < A) := by
  have hle : ((A % 2 ^ 32 : ℕ) : ℚ) ≤ A := by exact_mod_cast Nat.mod_le A (2 ^ 32)
  constructor
  · rintro h ⟨h1, h2⟩
    exact absurd (h.mpr h2) (not_lt.mpr h1)
  · intro h
    constructor
    · intro h1
      linarith
    · intro h2
      by_contra h1
      exact h ⟨not_lt.mp h1, h2⟩

/-- The conflict comparison survives the wrap-around, something of `A` being left. -/
theorem conflict_iff {A F : ℕ} :
    ((100 * F % 2 ^ 32 > 5 * (A % 2 ^ 32)) ↔ (100 * F > 5 * A)) ↔
      ¬ (0 < margin A F ∧ margin A F ≤ lost A F) ∧
        ¬ (lost A F < margin A F ∧ margin A F ≤ 0) := by
  unfold margin lost
  have hF := Nat.div_add_mod (100 * F) (2 ^ 32)
  have hA := Nat.div_add_mod A (2 ^ 32)
  omega

/-- The conflict rate is above the threshold when the wrapped counts say so. -/
theorem conflictRate_gt_iff {a g : ℕ} (ha : 0 < a) :
    (g : ℚ) / (a : ℚ) > thresholdConflict ↔ g > 5 * a := by
  have ha' : (0 : ℚ) < a := by exact_mod_cast ha
  rw [gt_iff_lt, lt_div_iff₀ ha', thresholdConflict]
  constructor <;> intro h <;> exact_mod_cast h

/-- The frequency is above the threshold when the wrapped count says so. -/
theorem frequency_gt_iff {a : ℕ} {E : ℚ} (hE : 0 < E) :
    (a : ℚ) / E > thresholdFrequency ↔ (a : ℚ) > E := by
  rw [gt_iff_lt, lt_div_iff₀ hE, thresholdFrequency, one_mul]

/-- **One mutex.**  The code classifies a used mutex exactly if and only if wrap-around
    crosses no threshold. -/
theorem codeQuadrant_eq_iff {A F : ℕ} {E : ℚ} (hE : 0 < E) :
    codeQuadrant A F E = exactQuadrant A F E ↔ RatesKept A F E := by
  have hexact : (100 * (F : ℚ) > thresholdConflict * A) ↔ 100 * F > 5 * A := by
    rw [thresholdConflict]
    constructor <;> intro h <;> exact_mod_cast h
  have hfreq : ((A : ℚ) > thresholdFrequency * E) ↔ (A : ℚ) > E := by
    rw [thresholdFrequency, one_mul]
  unfold codeQuadrant exactQuadrant quadrantOf
  by_cases ha : A % 2 ^ 32 > 0
  · rw [if_pos ha]
    simp only [quadrant_eq_iff, conflictRate_gt_iff ha, frequency_gt_iff hE, hexact, hfreq,
      conflict_iff, frequency_iff]
    constructor
    · rintro ⟨hc, hf⟩
      exact ⟨hf, by rw [if_neg (by omega)]; exact hc⟩
    · intro h
      have hc := h.conflict
      rw [if_neg (by omega)] at hc
      exact ⟨hc, h.frequency⟩
  · have ha0 : A % 2 ^ 32 = 0 := by omega
    have hmargin : margin A F ≤ 0 ↔ ¬ 100 * F > 5 * A := by
      unfold margin
      omega
    rw [if_neg ha, none_eq_quadrant_iff, hexact, hfreq]
    constructor
    · rintro ⟨hc, hf⟩
      exact ⟨fun h => hf h.2, by rw [if_pos ha0]; exact hmargin.mpr hc⟩
    · intro h
      have hc := h.conflict
      have hf := h.frequency
      rw [if_pos ha0] at hc
      rw [ha0] at hf
      exact ⟨hmargin.mp hc, fun hgt => hf ⟨by exact_mod_cast hE.le, hgt⟩⟩

/-! ### The report -/

/-- A mutex that was never acquired is in no list. -/
theorem codeQuadrant_zero (F : ℕ) (E : ℚ) : codeQuadrant 0 F E = none := rfl

/-- The lists are the exact ones just when the loop body classifies every used mutex exactly. -/
theorem lists_iff (E : ℚ) (perThdData : ℕ → ℕ → ThreadMutex) (threads n : ℕ) :
    (∀ q, (print E perThdData threads n).ids q = exactIds E perThdData threads n q) ↔
      ∀ i < n, 0 < exactCount .access (perThdData i) threads →
        codeQuadrant (exactCount .access (perThdData i) threads)
            (exactCount .fail (perThdData i) threads) E =
          exactQuadrant (exactCount .access (perThdData i) threads)
            (exactCount .fail (perThdData i) threads) E := by
  simp only [ids_print, exactIds]
  constructor
  · intro h i hi hpos
    -- membership of `i` in each of the three lists pins the optional quadrant down
    refine Option.ext fun q => ?_
    have hmem := congrArg (i ∈ ·) (h q)
    simpa [hi, hpos] using hmem
  · intro h q
    refine List.filter_congr fun i hi => ?_
    have hi' : i < n := List.mem_range.mp hi
    by_cases hpos : 0 < exactCount .access (perThdData i) threads
    · simp [h i hi' hpos, hpos]
    · have hzero : exactCount .access (perThdData i) threads = 0 := by omega
      simp [hzero, codeQuadrant_zero]

/-- No mutex is reported twice: the loop body names one list. -/
theorem ids_once (E : ℚ) (perThdData : ℕ → ℕ → ThreadMutex) (threads n i : ℕ) (q q' : Quadrant)
    (h : i ∈ (print E perThdData threads n).ids q)
    (h' : i ∈ (print E perThdData threads n).ids q') : q = q' := by
  rw [ids_print, List.mem_filter, decide_eq_true_eq] at h h'
  exact Option.some.inj (h.2.symm.trans h'.2)

/-- The lists are in index order, whatever the counters are. -/
theorem ids_ordered (E : ℚ) (perThdData : ℕ → ℕ → ThreadMutex) (threads n : ℕ) (q : Quadrant) :
    ((print E perThdData threads n).ids q).Pairwise (· < ·) := by
  rw [ids_print]
  exact List.Pairwise.filter _ List.pairwise_lt_range

/-- **The report.**  `Report::print` classifies every mutex by its exact conflict rate and
    frequency if and only if wrap-around crosses no threshold at any used mutex. -/
theorem print_exact_iff (E : ℚ) (perThdData : ℕ → ℕ → ThreadMutex) (threads n : ℕ)
    (hE : 0 < E) :
    ReportExact E perThdData threads n ↔
      ∀ i < n, 0 < exactCount .access (perThdData i) threads →
        RatesKept (exactCount .access (perThdData i) threads)
          (exactCount .fail (perThdData i) threads) E := by
  have hlists := lists_iff E perThdData threads n
  simp only [codeQuadrant_eq_iff hE] at hlists
  constructor
  · intro h
    exact hlists.mp h.lists
  · intro h
    exact ⟨hlists.mpr h, ids_once E perThdData threads n, ids_ordered E perThdData threads n⟩

/-- One mutex and one thread that met a conflict at each of its 42949673 acquisitions. -/
def busyData : ℕ → ℕ → ThreadMutex := fun _ _ =>
  { accessCount := 42949673, failCount := 42949673 }

/-- Its margin is lost with the product. -/
theorem print_exact_iff_busyData : ¬ ReportExact 1000 busyData 1 1 := by
  intro hexact
  have hkept := (print_exact_iff 1000 busyData 1 1 (by norm_num)).mp hexact 0 one_pos (by decide)
  exact absurd hkept.conflict (by decide +kernel)

/-- The counters of the busy mutex fit their 32 bits, its 32-bit product is 4: the conflict rate
    of 100 percent is lost. -/
theorem print_not_exact :
    (∀ i t k, (busyData i t).get k < 2 ^ 32) ∧ ¬ ReportExact 1000 busyData 1 1 := by
  constructor
  · intro i t k
    cases k <;> simp [busyData, ThreadMutex.get]
  · intro h
    have hl := h.lists .highConflictHighFreq
    simp [ids_print, exactIds, exactCount, busyData, ThreadMutex.get, codeQuadrant,
      exactQuadrant, quadrantOf, thresholdConflict, thresholdFrequency] at hl
    norm_num at hl
    exact absurd hl (by decide)

/-! ### The elapsed time

`print` divides the access counts by the time of one thread level. -/

/-- `thd_level->elapse`, the level being number `getTotalThreadLevels()`. -/
def reportedElapse (x : XThread) : ℚ := (x.threadLevelInfo x.threadLevel).elapse

/-- `elapsed_time_for_freq`: no less than 1000 milliseconds. -/
def elapsedTimeForFreq (x : XThread) : ℚ :=
  if reportedElapse x < 1000 then 1000 else reportedElapse x

/-- The time of all levels together. -/
def totalElapse (x : XThread) : ℚ :=
  ∑ l ∈ Finset.range (x.threadLevel + 1), (x.threadLevelInfo l).elapse

/-- The milliseconds from `initialize` to `finalize`. -/
def processTime (begin finish : BitVec 64) : ℚ := ((finish.toNat : ℚ) - begin.toNat) / cpuFreq

/-- The last level's time is that of the process just when it starts with the process. -/
theorem elapsed_eq_processTime_iff {t₀ t finish : BitVec 64} (hle : t ≤ finish) :
    getElapsed2ms (getTsc t) finish = processTime t₀ finish ↔ t = t₀ := by
  have hfreq : cpuFreq ≠ 0 := by norm_num [cpuFreq]
  rw [getElapsed2ms_of_le hle, processTime, div_left_inj' hfreq, sub_right_inj, Nat.cast_inj,
    BitVec.toNat_inj]

/-- **The elapsed time.**  The report divides by the time from `initialize` to `finalize`, the sum
    over all levels, if and only if every level change happened at the very reading of
    `initialize`: access counts of earlier levels are set against the time of the last one. -/
theorem reportedElapse_eq_iff {tid : ℕ} {begin : XThread.Clock} {ops : List XThread.Op}
    {finish : BitVec 64} {z : XThread} (h : XThread.process tid begin ops finish = .ok z)
    (hlegal : XThread.JoinsLegal 1 ops)
    (hclock : XThread.ClockMonotone begin.start ops finish) :
    (reportedElapse z = processTime begin.start finish ∧ reportedElapse z = totalElapse z) ↔
      ∀ now ∈ XThread.levelChanges 1 ops, now.start = begin.start := by
  obtain ⟨hI, hlast⟩ := XThread.process_ok h hlegal hclock
  have hmem : (∀ now ∈ (XThread.levelChanges 1 ops).reverse, now.start = begin.start) ↔
      ∀ now ∈ XThread.levelChanges 1 ops, now.start = begin.start := by simp
  rw [← hmem, ← hI.ordered.lastStart_eq_iff]
  have hprocess : reportedElapse z = processTime begin.start finish ↔
      XThread.lastStart begin.start (XThread.levelChanges 1 ops).reverse = begin.start := by
    rw [reportedElapse, hlast]
    exact elapsed_eq_processTime_iff hI.ordered.lastStart_le
  rw [hprocess]
  refine ⟨fun h => h.1, fun h => ⟨h, ?_⟩⟩
  -- the levels below the last one add nothing
  have hord : XThread.Ordered begin.start (XThread.levelChanges 1 ops).reverse begin.start := by
    have := hI.ordered.toLast
    rwa [h] at this
  have hzero := hI.timed.elapse_zero hord
  rw [totalElapse, Finset.sum_range_succ, Finset.sum_eq_zero, zero_add, reportedElapse]
  intro l hl
  exact hzero l (by rw [← hI.level]; exact Finset.mem_range.mp hl)

/-- A process that creates a thread after 1000 milliseconds and ends 1000 milliseconds later. -/
def forkLater : List XThread.Op :=
  [.threadCreate 0 1 0 ⟨2000000000, 2000000000, 2000000000⟩]

theorem forkLater_ok :
    ∃ z, XThread.process 1 ⟨0, 0, 0⟩ forkLater 4000000000 = .ok z ∧
      XThread.JoinsLegal 1 forkLater ∧ XThread.ClockMonotone 0 forkLater 4000000000 := by
  refine ⟨_, rfl, ⟨trivial, trivial⟩, ?_⟩
  simp only [forkLater, XThread.ClockMonotone, XThread.Clock.From, XThread.Op.clock]
  decide

theorem reportedElapse_eq_iff_forkLater :
    ∃ z, XThread.process 1 ⟨0, 0, 0⟩ forkLater 4000000000 = .ok z ∧
      ((reportedElapse z = processTime 0 4000000000 ∧ reportedElapse z = totalElapse z) ↔
        ∀ now ∈ XThread.levelChanges 1 forkLater, now.start = 0) := by
  obtain ⟨z, hz, hlegal, hclock⟩ := forkLater_ok
  exact ⟨z, hz, reportedElapse_eq_iff hz hlegal hclock⟩

/-- The report then divides by 1000 milliseconds, the process having run for 2000. -/
theorem reportedElapse_forkLater :
    ∃ z, XThread.process 1 ⟨0, 0, 0⟩ forkLater 4000000000 = .ok z ∧
      XThread.JoinsLegal 1 forkLater ∧ XThread.ClockMonotone 0 forkLater 4000000000 ∧
      reportedElapse z = 1000 ∧ processTime 0 4000000000 = 2000 := by
  obtain ⟨z, hz, hlegal, hclock⟩ := forkLater_ok
  have h0 : BitVec.toNat (0 : BitVec 64) = 0 := rfl
  have h2 : BitVec.toNat (2000000000 : BitVec 64) = 2000000000 := rfl
  have h4 : BitVec.toNat (4000000000 : BitVec 64) = 4000000000 := rfl
  refine ⟨z, hz, hlegal, hclock, ?_, ?_⟩
  · rw [reportedElapse, (XThread.process_ok hz hlegal hclock).2]
    have hle : (2000000000 : BitVec 64) ≤ 4000000000 := by decide
    show getElapsed2ms (getTsc 2000000000) 4000000000 = 1000
    rw [getElapsed2ms_of_le hle, h2, h4]
    norm_num [cpuFreq]
  · rw [processTime, h0, h4]
    norm_num [cpuFreq]

end SyncPerf.Report
