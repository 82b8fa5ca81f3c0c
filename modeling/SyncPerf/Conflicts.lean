import SyncPerf.Counting

namespace SyncPerf

open Interleaving

/-!
# Conflict counting

What the conflict counts of a run say about its accesses, and about the calls that had to wait.

* `SpinFails`, `NoWrap` — the steps at which conflicts can outrun accesses;
* `fail_le_access_run`, `conflicts_le_accesses` — without them, conflicts never exceed accesses.
-/

variable {ι : Type}

/-! ### Conflicts and accesses -/

/-- The conflicts that an operation may still count for the access that it has counted. -/
def Phase.budget : Phase → ℕ
  | .counted => 1
  | _ => 0

/-- The step is an attempt of the adaptive spin loop that finds the lock word taken. -/
def SpinFails (x : Event ι Action Local Shared) : Prop :=
  match x.act, (x.pre.loc x.who).cur with
  | .step _, some (m, pc) => pc.Retried (x.pre.sh.mutexes m)
  | _, _ => False

/-- The step wraps no counter around. -/
def NoWrap (x : Event ι Action Local Shared) : Prop :=
  match x.act, (x.pre.loc x.who).cur with
  | .step _, some (m, pc) =>
    match pc.stores with
    | some k => (x.pre.sh.record (x.pre.loc x.who) m).get k + 1 < 2 ^ 32
    | none => True
  | _, _ => True

/-- Conflicts within their budget stay there: a step spends what it counts, and only a failed
    attempt of the spin loop is granted a new budget without a new access. -/
theorem Phase.Step.budget {retried : Prop} {q q' : Phase} {k : Option Counter}
    (h : Phase.Step retried q k q') (hno : ¬ retried) {r : ThreadMutex}
    (hwrap : ∀ k', k = some k' → r.get k' + 1 < 2 ^ 32)
    (hle : r.get .fail + q.budget ≤ r.get .access) :
    (r.count k).get .fail + q'.budget ≤ (r.count k).get .access := by
  rw [ThreadMutex.get_count, ThreadMutex.get_count]
  cases h with
  | stay ha hf =>
    rw [if_neg ha, if_neg hf]
    exact hle
  | access =>
    rw [if_neg (by simp), if_pos rfl, inc32_eq (hwrap _ rfl)]
    simp only [Phase.budget] at hle ⊢
    omega
  | fail =>
    rw [if_pos rfl, if_neg (by simp), inc32_eq (hwrap _ rfl)]
    simp only [Phase.budget] at hle ⊢
    omega
  | settle =>
    rw [if_neg (by simp), if_neg (by simp)]
    simp only [Phase.budget] at hle ⊢
    omega
  | retry h => exact absurd h hno

/-- The two conditions, at a step of an operation. -/
theorem OpEvent.guards {tid : ι ↪ Tid} {j : ι} {m : ℕ} {x : Event ι Action Local Shared} {pc : PC}
    {cell cell' : Cell} {f : Flow PC} (h : OpEvent tid j m x pc cell f cell') (hwrap : NoWrap x)
    (hspin : ¬ SpinFails x) :
    ¬ pc.Retried cell.mutex ∧ ∀ k, pc.stores = some k → cell.record.get k + 1 < 2 ^ 32 := by
  obtain ⟨ch, hact, -⟩ := h.step
  have hcur := Local.cur_of_view h.at_pc
  obtain rfl := h.who
  rw [h.mutex, h.record]
  simp only [NoWrap, SpinFails, hact, hcur] at hwrap hspin
  refine ⟨hspin, fun k hk => ?_⟩
  rw [hk] at hwrap
  exact hwrap

variable [DecidableEq ι]

/-- One record of a run in which no attempt of the spin loop fails: the conflicts, with the one
    that a call in progress may still count, are at most the accesses. -/
theorem fail_le_access_run {tid : ι ↪ Tid} {c d : Config ι Local Shared}
    {tr : List (Event ι Action Local Shared)} (hinit : Initial c)
    (hrun : Run (machine tid) c tr d) (hwrap : ∀ x ∈ tr, NoWrap x)
    (hspin : ∀ x ∈ tr, ¬ SpinFails x) (j : ι) {m : ℕ} (hm : m < maxSyncEntries) :
    (d.sh.record (d.loc j) m).get .fail + (phaseAt ((d.loc j).view m).pc).budget ≤
      (d.sh.record (d.loc j) m).get .access := by
  refine (record_run (.initial hinit j m) hrun hm (I := fun tr pc r =>
    (∀ x ∈ tr, NoWrap x ∧ ¬ SpinFails x) → r.get .fail + (phaseAt pc).budget ≤ r.get .access)
    ?_ ?_ ?_ ?_).2 fun x hx => ⟨hwrap x hx, hspin x hx⟩
  · intro _
    rw [hinit.loc]
    exact le_rfl
  · intro tr x pc r _ ih hG
    exact ih fun y hy => hG y (List.mem_append_left _ hy)
  · intro tr x op r _ _ ih hG
    have hle := ih fun y hy => hG y (List.mem_append_left _ hy)
    -- a call starts without a budget
    have hentry : (phaseAt (some op.entry)).budget = 0 := by cases op <;> rfl
    rw [hentry]
    exact hle
  · intro tr x pc cell f cell' _ hev ih hG
    have hle := ih fun y hy => hG y (List.mem_append_left _ hy)
    obtain ⟨hnowrap, hnospin⟩ := hG x (by simp)
    obtain ⟨hno, hsmall⟩ := hev.guards hnowrap hnospin
    have hcounts := hev.counts
    have hrec : cell'.record = cell.record.count pc.stores := hcounts.record
    rw [phaseAt_target, hrec]
    exact hcounts.phase.budget hno hsmall hle

omit [DecidableEq ι] in
/-- Every record belongs to a thread, or is still zero. -/
theorem IndexInv.record_cases {c : Config ι Local Shared} (hI : IndexInv c) {m t : ℕ}
    (hm : m < maxSyncEntries) (ht : t < maxThreads) :
    (∃ j, c.sh.threadSyncData (getThreadMutexData m t) = c.sh.record (c.loc j) m) ∨
      c.sh.threadSyncData (getThreadMutexData m t) = {} := by
  by_cases hlt : t < c.sh.xthread.threadIndex
  · obtain ⟨j, hj⟩ := hI.surj t hlt
    exact .inl ⟨j, (Shared.record_of_index hj).symm⟩
  · exact .inr (hI.unused m hm t ht (not_lt.mp hlt))

/-- A mutex none of whose records has more conflicts than accesses has a rate of at most 100
    percent, if the report's sum of its accesses does not wrap around. -/
theorem conflictRate_le {elapsed : ℚ} {perThdData : ℕ → ThreadMutex} {threads i : ℕ}
    (hle : ∀ t < threads, (perThdData t).get .fail ≤ (perThdData t).get .access)
    (hsmall : Report.exactCount .access perThdData threads < 2 ^ 32) :
    (Report.syncPerfEntry elapsed perThdData threads i).conflictRate ≤ 100 := by
  have hsum : Report.exactCount .fail perThdData threads ≤
      Report.exactCount .access perThdData threads :=
    Finset.sum_le_sum fun t ht => hle t (Finset.mem_range.mp ht)
  have htotal : Report.totalCount .access perThdData threads =
      Report.exactCount .access perThdData threads := by
    rw [Report.totalCount_eq, Nat.mod_eq_of_lt hsmall]
  have hhundred : Report.hundredTimes (Report.totalCount .fail perThdData threads) ≤
      100 * Report.totalCount .access perThdData threads := by
    rw [Report.hundredTimes_totalCount, htotal]
    omega
  show (Report.hundredTimes (Report.totalCount .fail perThdData threads) : ℚ) /
    (Report.totalCount .access perThdData threads : ℚ) ≤ 100
  refine div_le_of_le_mul₀ (Nat.cast_nonneg _) (by norm_num) ?_
  exact_mod_cast hhundred

/-- **Conflicts never exceed acquisitions**, in every run in which no attempt of the adaptive spin
    loop finds the lock word taken and no counter wraps around: no record has more conflicts than
    accesses, and the report gives no mutex a conflict rate above 100 percent. -/
theorem conflicts_le_accesses {tid : ι ↪ Tid} {c₀ c : Config ι Local Shared}
    {tr : List (Event ι Action Local Shared)} (hinit : Initial c₀)
    (hrun : Run (machine tid) c₀ tr c) (hwrap : ∀ x ∈ tr, NoWrap x)
    (hspin : ∀ x ∈ tr, ¬ SpinFails x) :
    ∀ m < maxSyncEntries,
      (∀ t < maxThreads, (c.sh.threadSyncData (getThreadMutexData m t)).failCount ≤
        (c.sh.threadSyncData (getThreadMutexData m t)).accessCount) ∧
      ∀ elapsed, Report.exactCount .access
          (fun t => c.sh.threadSyncData (getThreadMutexData m t)) c.sh.xthread.threadIndex < 2 ^ 32 →
        (Report.syncPerfEntry elapsed (fun t => c.sh.threadSyncData (getThreadMutexData m t))
          c.sh.xthread.threadIndex m).conflictRate ≤ 100 := by
  have hI := IndexInv.run hinit hrun
  intro m hm
  have hrecord : ∀ t < maxThreads, (c.sh.threadSyncData (getThreadMutexData m t)).get .fail ≤
      (c.sh.threadSyncData (getThreadMutexData m t)).get .access := by
    intro t ht
    rcases hI.record_cases hm ht with ⟨j, hj⟩ | hzero
    · rw [hj]
      have hle := fail_le_access_run hinit hrun hwrap hspin j hm
      omega
    · rw [hzero]
      exact le_rfl
  exact ⟨hrecord, fun elapsed hsmall =>
    conflictRate_le (fun t ht => hrecord t (ht.trans_le hI.le)) hsmall⟩

instance (m : MutexData) (p : LockPC) : Decidable (p.Retried m) := by
  apply LockPC.casesOn (motive := fun p => Decidable (p.Retried m)) p <;> intros <;>
    first | exact instDecidableNot | exact isFalse id

instance (m : MutexData) (pc : PC) : Decidable (pc.Retried m) := by
  apply PC.casesOn (motive := fun pc => Decidable (pc.Retried m)) pc <;> intros <;>
    first | exact inferInstanceAs (Decidable (LockPC.Retried m _)) | exact isFalse id

instance (x : Event ι Action Local Shared) : Decidable (SpinFails x) := by
  obtain ⟨c, i, a⟩ := x
  dsimp only [SpinFails]
  generalize (c.loc i).cur = cur
  cases a with
  | step ch =>
    cases cur with
    | none => exact isFalse id
    | some cur => exact inferInstanceAs (Decidable (cur.2.Retried (c.sh.mutexes cur.1)))
  | _ => exact isFalse id

instance (x : Event ι Action Local Shared) : Decidable (NoWrap x) := by
  obtain ⟨c, i, a⟩ := x
  dsimp only [NoWrap]
  generalize (c.loc i).cur = cur
  cases a with
  | step ch =>
    cases cur with
    | none => exact isTrue trivial
    | some cur =>
      dsimp only
      generalize cur.2.stores = stores
      cases stores with
      | none => exact isTrue trivial
      | some k => exact Nat.decLt _ _
  | _ => exact isTrue trivial

theorem conflicts_le_accesses_bothLock :
    (∀ x ∈ bothLockEnd.1, NoWrap x) ∧ (∀ x ∈ bothLockEnd.1, ¬ SpinFails x) ∧
      (Report.syncPerfEntry 1000 (fun t => bothLockEnd.2.sh.threadSyncData (getThreadMutexData 0 t))
        bothLockEnd.2.sh.xthread.threadIndex 0).conflictRate ≤ 100 := by
  have hrun : Run (machine pairTid) pairStart bothLockEnd.1 bothLockEnd.2 :=
    System.execute_run _ _ _ _
  have hwrap : ∀ x ∈ bothLockEnd.1, NoWrap x := by decide +kernel
  have hspin : ∀ x ∈ bothLockEnd.1, ¬ SpinFails x := by decide +kernel
  have hle := conflicts_le_accesses pairStart_initial hrun hwrap hspin 0 (by decide)
  exact ⟨hwrap, hspin, hle.2 1000 (by decide +kernel)⟩

/-! ### Retries of the spin loop -/

/-- The start of the process, all mutexes adaptive. -/
def adaptiveStart : Config Bool Local Shared :=
  { pairStart with sh := { pairStart.sh with
    mutexes := fun _ => { kind := BasicKind.adaptive.code } } }

theorem adaptiveStart_initial : Initial adaptiveStart :=
  ⟨fun _ => rfl, fun _ => rfl, rfl, rfl, rfl⟩

/-- One thread locks an adaptive mutex; the other one fails in `lll_trylock` and then twice more
    in the spin loop. -/
def spinning : List (Bool × Action) :=
  List.flatten [pairSetup, [(false, .call 0 .lock)], List.replicate 9 (false, .step {}),
    [(true, .call 0 .lock)], List.replicate 14 (true, .step {})]

/-- What the run leads to. -/
def spinningEnd := (machine pairTid).execute adaptiveStart spinning (by decide +kernel)

/-- Three conflicts for one access of the second thread, and a rate of 150 percent. -/
theorem spinning_exceeds :
    Initial adaptiveStart ∧
      Run (machine pairTid) adaptiveStart spinningEnd.1 spinningEnd.2 ∧
      (∀ x ∈ spinningEnd.1, NoWrap x) ∧
      (spinningEnd.2.sh.threadSyncData (getThreadMutexData 0 1)).accessCount = 1 ∧
      (spinningEnd.2.sh.threadSyncData (getThreadMutexData 0 1)).failCount = 3 ∧
      (Report.syncPerfEntry 1000
        (fun t => spinningEnd.2.sh.threadSyncData (getThreadMutexData 0 t))
        spinningEnd.2.sh.xthread.threadIndex 0).conflictRate = 150 := by
  refine ⟨adaptiveStart_initial, System.execute_run _ _ _ _, by decide +kernel, by decide +kernel,
    by decide +kernel, ?_⟩
  have hfail : Report.hundredTimes (Report.totalCount .fail
      (fun t => spinningEnd.2.sh.threadSyncData (getThreadMutexData 0 t))
      spinningEnd.2.sh.xthread.threadIndex) = 300 := by decide +kernel
  have haccess : Report.totalCount .access
      (fun t => spinningEnd.2.sh.threadSyncData (getThreadMutexData 0 t))
      spinningEnd.2.sh.xthread.threadIndex = 2 := by decide +kernel
  simp only [Report.syncPerfEntry, hfail, haccess]
  norm_num

end SyncPerf
