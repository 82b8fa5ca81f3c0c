import SyncPerf.Records
import SyncPerf.Report

namespace SyncPerf

open Interleaving

/-!
# Access counting

However the threads interleave, the accesses that the report sums for a mutex are the calls of
`pthread_mutex_lock` and `pthread_mutex_trylock` on it.

* `isAccess`, `isAccessBy` — the calls that are counted, of all threads and of one;
* `access_run` — one record counts the calls of its thread;
* `access_counting` — the sum over all threads.
-/

variable {ι : Type}

/-! ### The calls that are counted -/

/-- The step is a call of `pthread_mutex_lock` or `pthread_mutex_trylock` on `m`. -/
def isAccess (m : ℕ) (x : Event ι Action Local Shared) : Bool :=
  match x.act with
  | .call m' .lock | .call m' .trylock => m' = m
  | _ => false

variable [DecidableEq ι]

/-- That call is made by thread `j`. -/
def isAccessBy (j : ι) (m : ℕ) (x : Event ι Action Local Shared) : Bool :=
  x.who = j ∧ isAccess m x

omit [DecidableEq ι] in
theorem isAccess_on {m : ℕ} {x : Event ι Action Local Shared} (h : isAccess m x = true)
    (l : Local) : x.act.on l m := by
  unfold isAccess at h
  split at h
  · rename_i m' hact
    have hm : m' = m := of_decide_eq_true h
    rw [hact]
    exact hm
  · rename_i m' hact
    have hm : m' = m := of_decide_eq_true h
    rw [hact]
    exact hm
  · exact absurd h (by simp)

/-- The access of an operation in its first phase is still to be counted. -/
def Phase.pending : Phase → ℕ
  | .arriving => 1
  | _ => 0

/-- The counted access is no longer pending. -/
theorem Phase.Step.pending {retried : Prop} {q q' : Phase} {k : Option Counter}
    (h : Phase.Step retried q k q') :
    q.pending = q'.pending + if k = some .access then 1 else 0 := by
  cases h with
  | stay ha hf => rw [if_neg ha, Nat.add_zero]
  | access => rfl
  | fail => rfl
  | settle => rfl
  | retry h => rfl

/-- Storing a counter adds one to it, modulo `2 ^ 32`, and leaves the others alone. -/
theorem ThreadMutex.get_count (r : ThreadMutex) (k : Counter) (stores : Option Counter) :
    (r.count stores).get k =
      if stores = some k then inc32 (r.get k) else r.get k := by
  cases stores with
  | none => rfl
  | some k' =>
    by_cases h : k' = k
    · rw [h, if_pos rfl, ThreadMutex.count, ThreadMutex.get_set_self]
    · rw [if_neg (fun h' => h (Option.some.inj h')), ThreadMutex.count,
        ThreadMutex.get_set_ne _ _ (Ne.symm h)]

/-- **One record.**  The access count of a record, with the access of a call in progress that is
    still to be counted, is the number of calls of its thread on its mutex, modulo `2 ^ 32`. -/
theorem access_run {tid : ι ↪ Tid} {c d : Config ι Local Shared}
    {tr : List (Event ι Action Local Shared)} (hinit : Initial c)
    (hrun : Run (machine tid) c tr d) (j : ι) {m : ℕ} (hm : m < maxSyncEntries) :
    ((d.sh.record (d.loc j) m).get .access + (phaseAt ((d.loc j).view m).pc).pending) % 2 ^ 32 =
      tr.countP (isAccessBy j m) % 2 ^ 32 := by
  refine (record_run (.initial hinit j m) hrun hm (I := fun tr pc r =>
    (r.get .access + (phaseAt pc).pending) % 2 ^ 32 = tr.countP (isAccessBy j m) % 2 ^ 32)
    ?_ ?_ ?_ ?_).2
  · rw [hinit.loc]
    rfl
  · intro tr x pc r hnot ih
    -- an event elsewhere is no access of this thread to this mutex
    have hno : isAccessBy j m x = false := by
      by_contra hyes
      obtain ⟨hwho, haccess⟩ := of_decide_eq_true (eq_true_of_ne_false hyes)
      exact hnot hwho (isAccess_on haccess _)
    rw [List.countP_append, List.countP_singleton, hno]
    exact ih
  · intro tr x op r hwho hact ih
    -- the access of a call is pending from its start on
    have hentry : (phaseAt (some op.entry)).pending = if isAccessBy j m x then 1 else 0 := by
      cases op <;> simp [isAccessBy, isAccess, hwho, hact] <;> rfl
    have hidle : (phaseAt none).pending = 0 := rfl
    rw [List.countP_append, List.countP_singleton, hentry]
    rw [hidle] at ih
    omega
  · intro tr x pc cell f cell' _ hev ih
    have hno : isAccessBy j m x = false := by
      obtain ⟨ch, hact, -⟩ := hev.step
      simp [isAccessBy, isAccess, hact]
    have hcounts := hev.counts
    have hpend := hcounts.phase.pending
    have hrec : cell'.record = cell.record.count pc.stores := hcounts.record
    rw [List.countP_append, List.countP_singleton, hno, phaseAt_target, hrec,
      ThreadMutex.get_count]
    have hphase : (phaseAt (some pc)).pending = pc.phase.pending := rfl
    rw [hphase, hpend] at ih
    -- the store of the access count is where it stops to be pending
    by_cases hacc : pc.stores = some .access
    · simp only [hacc, if_true, inc32] at ih ⊢
      simp only [Bool.false_eq_true, if_false]
      omega
    · simp only [if_neg hacc] at ih ⊢
      exact ih

/-! ### All threads -/

/-- Elements that all have a number below `n` are counted number by number. -/
theorem countP_eq_sum {α : Type} {l : List α} {n : ℕ} {f : α → Option ℕ} {p : α → Bool}
    (h : ∀ x ∈ l, p x → ∃ t < n, f x = some t) :
    l.countP p = ∑ t ∈ Finset.range n, l.countP fun x => p x && decide (f x = some t) := by
  induction l with
  | nil => simp
  | cons x l ih =>
    simp only [List.countP_cons, Finset.sum_add_distrib]
    rw [ih fun y hy => h y (List.mem_cons_of_mem x hy)]
    congr 1
    by_cases hp : p x = true
    · obtain ⟨t, ht, hfx⟩ := h x List.mem_cons_self hp
      simp [hp, hfx, ht]
    · simp [hp]

/-- A call is made with an index. -/
theorem call_index {tid : ι ↪ Tid} {c d : Config ι Local Shared} {i : ι} {m : ℕ} {op : Op}
    (h : (machine tid).step c i (.call m op) = some d) : ∃ t, (c.loc i).index = some t := by
  obtain ⟨l, s, hnext, rfl⟩ := System.step_eq_some.mp h
  have hnext' : next (tid i).val (.call m op) (c.loc i) c.sh = some (l, s) := hnext
  obtain ⟨-, hcase⟩ := next_eq_some hnext'
  generalize c.loc i = li at hcase
  cases hcase with
  | call hidx hcur hm => exact ⟨_, hidx⟩

/-- **Access counting loses and misplaces nothing.**  When no thread is inside an operation, the
    accesses that the report sums for a mutex are the calls of `pthread_mutex_lock` and
    `pthread_mutex_trylock` on it, modulo `2 ^ 32`.  The `int` product in the address of a record
    does not overflow, distinct records have distinct addresses inside the mapped array, and the
    report's sum reaches every thread that took a step. -/
theorem access_counting {tid : ι ↪ Tid} {c₀ c : Config ι Local Shared}
    {tr : List (Event ι Action Local Shared)} (hinit : Initial c₀)
    (hrun : Run (machine tid) c₀ tr c) (hidle : ∀ i, (c.loc i).cur = none) :
    (∀ m < maxSyncEntries,
      Report.totalCount .access (fun t => c.sh.threadSyncData (getThreadMutexData m t))
        c.sh.xthread.threadIndex = tr.countP (isAccess m) % 2 ^ 32) ∧
    (∀ t < maxThreads, t * maxSyncEntries < 2 ^ 31) ∧
    (∀ m < maxSyncEntries, ∀ t < maxThreads,
      getThreadMutexData m t = t * maxSyncEntries + m ∧
        getThreadMutexData m t < maxSyncEntries * maxThreads) ∧
    (∀ m < maxSyncEntries, ∀ m' < maxSyncEntries, ∀ t < maxThreads, ∀ t' < maxThreads,
      getThreadMutexData m t = getThreadMutexData m' t' → m = m' ∧ t = t') ∧
    (∀ x ∈ tr, ∀ t, (x.pre.loc x.who).index = some t →
      t < c.sh.xthread.threadIndex ∧ t < maxThreads) := by
  have hI := IndexInv.run hinit hrun
  refine ⟨fun m hm => ?_, fun t ht => ?_, fun m hm t ht => ?_, fun m hm m' hm' t ht t' ht' h => ?_,
    fun x hx t ht => ?_⟩
  · -- every access was made with one of the indices that were handed out
    have hindexed : ∀ x ∈ tr, isAccess m x → ∃ t < c.sh.xthread.threadIndex,
        (c.loc x.who).index = some t := by
      intro x hx haccess
      obtain ⟨e, he⟩ := hrun.enabled x hx
      have hcall : ∃ m' op, x.act = .call m' op := by
        unfold isAccess at haccess
        split at haccess <;> first | exact ⟨_, _, by assumption⟩ | exact absurd haccess (by simp)
      obtain ⟨m', op, hact⟩ := hcall
      rw [hact] at he
      obtain ⟨t, ht⟩ := call_index he
      have hend := index_run hrun x hx x.who t ht
      exact ⟨t, hI.lt _ _ hend, hend⟩
    rw [Report.totalCount_eq, countP_eq_sum hindexed, Report.exactCount]
    -- thread by thread
    rw [Finset.sum_nat_mod, Finset.sum_nat_mod _ _ fun t => List.countP _ tr]
    congr 1
    refine Finset.sum_congr rfl fun t ht => ?_
    obtain ⟨j, hj⟩ := hI.surj t (Finset.mem_range.mp ht)
    have hone := access_run hinit hrun j hm
    rw [Shared.record_of_index hj, Local.view_of_none (hidle j)] at hone
    have hby : tr.countP (isAccessBy j m) =
        tr.countP fun x => isAccess m x && decide ((c.loc x.who).index = some t) := by
      refine List.countP_congr fun x hx => ?_
      have hwho : x.who = j ↔ (c.loc x.who).index = some t :=
        ⟨fun h => h ▸ hj, fun h => hI.inj _ _ _ h hj⟩
      simp only [isAccessBy, Bool.and_eq_true, decide_eq_true_eq, hwho]
      exact and_comm
    rw [← hby]
    exact hone
  · simp only [maxThreads, maxSyncEntries] at *
    omega
  · exact ⟨getThreadMutexData_eq hm ht, getThreadMutexData_lt hm ht⟩
  · exact getThreadMutexData_inj hm ht hm' ht' h
  · have hlt := hI.lt _ _ (index_run hrun x hx x.who t ht)
    exact ⟨hlt, hlt.trans_le hI.le⟩

/-- Two threads lock a mutex; they load and store their access counts in turns, and the second
    one has to wait until the first one unlocks. -/
def bothLock : List (Bool × Action) :=
  List.flatten [pairSetup, [(false, .call 0 .lock), (true, .call 0 .lock)],
    (List.replicate 3 [(false, .step {}), (true, .step {})]).flatten,
    List.replicate 7 (false, .step {}), List.replicate 4 (true, .step {}),
    [(false, .call 0 .unlock)], List.replicate 5 (false, .step {}),
    List.replicate 5 (true, .step {})]

/-- What the run leads to. -/
def bothLockEnd := (machine pairTid).execute pairStart bothLock (by decide +kernel)

theorem access_counting_bothLock :
    bothLockEnd.2.sh.xthread.threadIndex = 2 ∧
      Report.totalCount .access
        (fun t => bothLockEnd.2.sh.threadSyncData (getThreadMutexData 0 t))
        bothLockEnd.2.sh.xthread.threadIndex = 2 := by
  have hrun : Run (machine pairTid) pairStart bothLockEnd.1 bothLockEnd.2 :=
    System.execute_run _ _ _ _
  have hcount := access_counting pairStart_initial hrun (by decide +kernel)
  refine ⟨by decide +kernel, ?_⟩
  rw [hcount.1 0 (by decide)]
  decide +kernel

end SyncPerf
