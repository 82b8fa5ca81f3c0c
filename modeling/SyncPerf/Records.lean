import SyncPerf.Machine

namespace SyncPerf

open Interleaving

/-!
# One writer for every record

The counters are incremented without any synchronisation.  That is sound because every record
has one writer: thread indices are handed out once each, and distinct pairs of a mutex and a
thread index use distinct records.

* `IndexInv` — who has which index, and that no record is used before its index is handed out;
* `Shared.record` — the record of a thread on a mutex;
* `RecordStep`, `IndexInv.recordStep` — what a step of the machine does to one record;
* `PC.stores`, `PC.Loaded`, `PC.phase`, `opStep_counts` — what a step of an operation counts;
* `record_run` — the induction rule for the record of one thread on one mutex.
-/

variable {ι : Type}

/-! ### Thread indices -/

/-- Thread indices are handed out once each, from 0 upwards; the operations run on mutexes that
    have records, and records at indices not yet handed out are zero. -/
structure IndexInv (c : Config ι Local Shared) : Prop where
  lt : ∀ i idx, (c.loc i).index = some idx → idx < c.sh.xthread.threadIndex
  le : c.sh.xthread.threadIndex ≤ maxThreads
  inj : ∀ i j idx, (c.loc i).index = some idx → (c.loc j).index = some idx → i = j
  surj : ∀ idx < c.sh.xthread.threadIndex, ∃ i, (c.loc i).index = some idx
  cur : ∀ i m pc, (c.loc i).cur = some (m, pc) → m < maxSyncEntries
  unused : ∀ m < maxSyncEntries, ∀ t < maxThreads, c.sh.xthread.threadIndex ≤ t →
    c.sh.threadSyncData (getThreadMutexData m t) = {}

/-- The invariant holds at first. -/
theorem IndexInv.initial {c : Config ι Local Shared} (hinit : Initial c) : IndexInv c where
  lt i idx h := by
    rw [hinit.loc] at h
    exact absurd h (by simp)
  le := by
    rw [hinit.xthread]
    exact Nat.zero_le _
  inj i j idx h := by
    rw [hinit.loc] at h
    exact absurd h (by simp)
  surj idx h := by
    rw [hinit.xthread] at h
    exact absurd h (Nat.not_lt_zero _)
  cur i m pc h := by
    rw [hinit.loc] at h
    exact absurd h (by simp)
  unused m _ t _ _ := hinit.records _

/-- The index of a thread is below `MAX_THREADS`. -/
theorem IndexInv.index_lt {c : Config ι Local Shared} (hI : IndexInv c) {i : ι} {idx : ℕ}
    (h : (c.loc i).index = some idx) : idx < maxThreads :=
  (hI.lt i idx h).trans_le hI.le

/-- The record of a thread on mutex `m`; before it has an index it has counted nothing. -/
def Shared.record (s : Shared) (l : Local) (m : ℕ) : ThreadMutex :=
  match l.index with
  | some idx => s.threadSyncData (getThreadMutexData m idx)
  | none => {}

/-- The record of a thread that has an index. -/
theorem Shared.record_of_index {s : Shared} {l : Local} {m idx : ℕ} (h : l.index = some idx) :
    s.record l m = s.threadSyncData (getThreadMutexData m idx) := by
  rw [Shared.record, h]

/-- A failed assertion does not change the records. -/
theorem Shared.record_aborted (s : Shared) (x : Option Assert) (l : Local) (m : ℕ) :
    ({ s with aborted := x } : Shared).record l m = s.record l m := by
  unfold Shared.record
  rfl

/-- The record after a step of its thread. -/
theorem Shared.record_setCell_self {s : Shared} {l : Local} {m idx : ℕ} (h : l.index = some idx)
    (cell : Cell) : (s.setCell m idx cell).record l m = cell.record := by
  rw [Shared.record_of_index h]
  exact Function.update_self ..

/-- A step of one thread leaves the record of another thread, or on another mutex, alone. -/
theorem Shared.record_setCell_ne {s : Shared} {l : Local} {m m' idx : ℕ} (hm : m < maxSyncEntries)
    (hidx : idx < maxThreads) (hm' : m' < maxSyncEntries)
    (hl : ∀ idx', l.index = some idx' → idx' < maxThreads)
    (hne : m' = m → l.index ≠ some idx) (cell : Cell) :
    (s.setCell m idx cell).record l m' = s.record l m' := by
  unfold Shared.record
  cases hi : l.index with
  | none => rfl
  | some idx' =>
    have haddr : getThreadMutexData m' idx' ≠ getThreadMutexData m idx := by
      intro h
      obtain ⟨rfl, rfl⟩ := getThreadMutexData_inj hm' (hl idx' hi) hm hidx h
      exact hne rfl hi
    simp only [Shared.setCell]
    rw [Function.update_of_ne haddr]

/-! ### What a step does to a record -/

variable [DecidableEq ι]

/-- The action starts an operation on `m`, or is a step of one. -/
def Action.on (a : Action) (l : Local) (m : ℕ) : Prop :=
  match a with
  | .call m' _ => m' = m
  | .step _ => (l.view m).pc ≠ none
  | _ => False

/-- What a step of thread `i` does to the record of thread `j` on mutex `m` and to the program
    point of `j` there: nothing, the start of an operation, or a step of one. -/
inductive RecordStep (tid : ι ↪ Tid) (c : Config ι Local Shared) (i : ι) (a : Action)
    (d : Config ι Local Shared) (j : ι) (m : ℕ) : Prop
  | other (hother : i = j → ¬ a.on (c.loc j) m)
      (hpc : ((d.loc j).view m).pc = ((c.loc j).view m).pc)
      (hrec : d.sh.record (d.loc j) m = c.sh.record (c.loc j) m)
  | call {op : Op} (hi : i = j) (ha : a = .call m op) (hpc : ((c.loc j).view m).pc = none)
      (hpc' : ((d.loc j).view m).pc = some op.entry)
      (hrec : d.sh.record (d.loc j) m = c.sh.record (c.loc j) m)
  | step {pc : PC} {ch : Choice} {f : Flow PC} {cell cell' : Cell} (hi : i = j)
      (ha : a = .step ch) (hpc : ((c.loc j).view m).pc = some pc)
      (hmutex : cell.mutex = c.sh.mutexes m) (hcell : cell.record = c.sh.record (c.loc j) m)
      (h : opStep (tid j).val ch pc cell = (f, cell'))
      (hpc' : ((d.loc j).view m).pc = (View.after pc f 0).pc)
      (hrec : d.sh.record (d.loc j) m = cell'.record)

/-- **Every record has one writer.** -/
theorem IndexInv.recordStep {tid : ι ↪ Tid} {c d : Config ι Local Shared} {i : ι} {a : Action}
    (hI : IndexInv c) (h : (machine tid).step c i a = some d) (j : ι) {m : ℕ}
    (hm : m < maxSyncEntries) : RecordStep tid c i a d j m := by
  obtain ⟨l, s, hnext, rfl⟩ := System.step_eq_some.mp h
  obtain ⟨-, hcase⟩ := next_eq_some hnext
  by_cases hj : j = i
  · subst hj
    generalize hl : c.loc j = lj at hcase
    -- the record is that of the stepping thread
    have hself : ∀ (l : Local) (s : Shared), (⟨Function.update c.loc j l, s⟩ :
        Config ι Local Shared).loc j = l := fun l s => Function.update_self ..
    cases hcase with
    | @start current tid' idx now x hidx hx =>
      refine .other (fun _ => id) (by rw [hself, hl]; rfl) ?_
      -- the records at a new index are still zero
      obtain ⟨rfl, hlt, -⟩ := XThread.allocThreadIndex_index hx
      rw [hself, Shared.record_of_index rfl, hl, Shared.record, hidx]
      exact hI.unused m hm _ hlt le_rfl
    | join hx =>
      exact .other (fun _ => id) (by rw [hself, hl]) (by rw [hself, hl]; rfl)
    | @call m' idx op hidx hcur hm' =>
      by_cases hmm : m' = m
      · subst hmm
        refine .call rfl rfl ?_ ?_ ?_
        · rw [hl, Local.view_of_none hcur]
        · rw [hself]
          simp [Local.view]
        · rw [hself, hl]
          rfl
      · refine .other (fun _ => hmm) ?_ ?_
        · rw [hself, hl, Local.view_of_none hcur]
          simp [Local.view, hmm]
        · rw [hself, hl]
          rfl
    | @step idx m' pc ch f cell hidx hcur hop =>
      by_cases hmm : m = m'
      · subst hmm
        refine .step rfl rfl ?_ rfl ?_ hop ?_ ?_
        · rw [hl, Local.view_of_cur hcur]
        · rw [hl, Shared.record_of_index hidx]
          rfl
        · rw [hself, Local.view_after_self hcur]
          cases f <;> rfl
        · rw [hself, Shared.record_aborted]
          exact Shared.record_setCell_self hidx cell
      · refine .other (fun _ hon => hon ?_) ?_ ?_
        · rw [hl, Local.view_of_ne hcur hmm]
        · rw [hself, hl, Local.view_after_ne hcur hmm]
        · rw [hself, hl, Shared.record_aborted]
          have hlt : ∀ idx', lj.index = some idx' → idx' < maxThreads := fun idx' hi =>
            hI.index_lt (i := j) (hl ▸ hi)
          exact Shared.record_setCell_ne (hI.cur j m' pc (hl ▸ hcur)) (hlt idx hidx) hm hlt
            (fun h => absurd h hmm) cell
  · -- a thread writes at its own addresses only
    have hne : ∀ (l : Local) (s : Shared), (⟨Function.update c.loc i l, s⟩ :
        Config ι Local Shared).loc j = c.loc j := fun l s => Function.update_of_ne hj ..
    refine .other (fun h => absurd h.symm hj) (by rw [hne]) ?_
    rw [hne]
    generalize hl : c.loc i = li at hcase
    cases hcase with
    | start hidx hx => rfl
    | join hx => rfl
    | call hidx hcur hm' => rfl
    | @step idx m' pc ch f cell hidx hcur hop =>
      rw [Shared.record_aborted]
      exact Shared.record_setCell_ne (hI.cur i m' pc (hl ▸ hcur)) (hI.index_lt (i := i) (hl ▸ hidx))
        hm (fun idx' hi => hI.index_lt hi)
        (fun _ hi => hj (hI.inj j i idx hi (hl ▸ hidx))) cell

/-- A step of thread `i` that hands out no index. -/
theorem IndexInv.of_index {c : Config ι Local Shared} (hI : IndexInv c) {i : ι} {l : Local}
    {s : Shared} (hidx : l.index = (c.loc i).index)
    (hcur : ∀ m pc, l.cur = some (m, pc) → m < maxSyncEntries)
    (hthr : s.xthread.threadIndex = c.sh.xthread.threadIndex)
    (hunused : ∀ m < maxSyncEntries, ∀ t < maxThreads, c.sh.xthread.threadIndex ≤ t →
      s.threadSyncData (getThreadMutexData m t) = {}) :
    IndexInv ⟨Function.update c.loc i l, s⟩ := by
  have hkeep : ∀ j, (Function.update c.loc i l j).index = (c.loc j).index := by
    intro j
    by_cases hj : j = i
    · rw [hj, Function.update_self, hidx]
    · rw [Function.update_of_ne hj]
  refine ⟨?_, ?_, ?_, ?_, ?_, ?_⟩
  · intro j idx hj
    rw [hkeep] at hj
    rw [hthr]
    exact hI.lt j idx hj
  · rw [hthr]
    exact hI.le
  · intro j k idx hj hk
    rw [hkeep] at hj hk
    exact hI.inj j k idx hj hk
  · intro idx hlt
    rw [hthr] at hlt
    obtain ⟨j, hj⟩ := hI.surj idx hlt
    exact ⟨j, (hkeep j).trans hj⟩
  · exact forall_update (P := fun (_ : ι) (lj : Local) => ∀ m pc, lj.cur = some (m, pc) →
      m < maxSyncEntries) hcur fun j _ => hI.cur j
  · rw [hthr]
    exact hunused

/-- A step that hands the next index to thread `i`. -/
theorem IndexInv.start {c : Config ι Local Shared} (hI : IndexInv c) {i : ι} {l : Local}
    {s : Shared} (hnone : (c.loc i).index = none)
    (hidx : l.index = some c.sh.xthread.threadIndex)
    (hcur : l.cur = (c.loc i).cur) (hlt : c.sh.xthread.threadIndex < maxThreads)
    (hthr : s.xthread.threadIndex = c.sh.xthread.threadIndex + 1)
    (hrec : s.threadSyncData = c.sh.threadSyncData) :
    IndexInv ⟨Function.update c.loc i l, s⟩ := by
  have hold : ∀ j idx, (Function.update c.loc i l j).index = some idx →
      idx < c.sh.xthread.threadIndex ∧ (c.loc j).index = some idx ∨
        idx = c.sh.xthread.threadIndex ∧ j = i := by
    intro j idx hj
    by_cases hji : j = i
    · rw [hji, Function.update_self, hidx] at hj
      exact .inr ⟨(Option.some.inj hj).symm, hji⟩
    · rw [Function.update_of_ne hji] at hj
      exact .inl ⟨hI.lt j idx hj, hj⟩
  refine ⟨?_, ?_, ?_, ?_, ?_, ?_⟩
  · intro j idx hj
    rw [hthr]
    rcases hold j idx hj with ⟨h, -⟩ | ⟨h, -⟩ <;> omega
  · rw [hthr]
    exact hlt
  · intro j k idx hj hk
    rcases hold j idx hj with ⟨hlj, hj⟩ | ⟨hlj, rfl⟩ <;>
      rcases hold k idx hk with ⟨hlk, hk⟩ | ⟨hlk, rfl⟩
    · exact hI.inj j k idx hj hk
    · omega
    · omega
    · rfl
  · intro idx hle
    rw [hthr] at hle
    by_cases h : idx = c.sh.xthread.threadIndex
    · refine ⟨i, ?_⟩
      simp only [Function.update_self, hidx, h]
    · obtain ⟨j, hj⟩ := hI.surj idx (by omega)
      have hji : j ≠ i := by
        rintro rfl
        rw [hnone] at hj
        exact absurd hj (by simp)
      refine ⟨j, ?_⟩
      simp only [Function.update_of_ne hji]
      exact hj
  · refine forall_update (P := fun (_ : ι) (lj : Local) => ∀ m pc, lj.cur = some (m, pc) →
      m < maxSyncEntries) ?_ fun j _ => hI.cur j
    rw [hcur]
    exact hI.cur i
  · intro m hm t ht hle
    rw [hthr] at hle
    rw [hrec]
    exact hI.unused m hm t ht (by omega)

/-- **One step of the machine keeps the indices in order.** -/
theorem IndexInv.step {tid : ι ↪ Tid} {c d : Config ι Local Shared} {i : ι} {a : Action}
    (hI : IndexInv c) (h : (machine tid).step c i a = some d) : IndexInv d := by
  obtain ⟨l, s, hnext, rfl⟩ := System.step_eq_some.mp h
  obtain ⟨-, hcase⟩ := next_eq_some hnext
  have hcur_i := hI.cur i
  generalize hl : c.loc i = li at hcase hcur_i
  cases hcase with
  | start hidx hx =>
    obtain ⟨rfl, hlt, hnew⟩ := XThread.allocThreadIndex_index hx
    exact hI.start (hl ▸ hidx) rfl (by rw [hl]) hlt hnew rfl
  | join hx => exact hI.of_index (by rw [hl]) hcur_i (XThread.markThreadExit_index hx) hI.unused
  | call hidx hcur hm' =>
    refine hI.of_index (by rw [hl]) (fun m pc h => ?_) rfl hI.unused
    obtain ⟨rfl, -⟩ := Prod.mk.inj (Option.some.inj h)
    exact hm'
  | @step idx m' pc ch f cell hidx hcur hop =>
    have hm' := hcur_i m' pc hcur
    have hidx' := hI.lt i idx (hl ▸ hidx)
    refine hI.of_index (by rw [hl]; rfl) (fun m pc' h => ?_) rfl (fun m hm t ht hle => ?_)
    · cases f with
      | goto pc'' =>
        obtain ⟨rfl, -⟩ := Prod.mk.inj (Option.some.inj h)
        exact hm'
      | ret code => exact absurd h (by simp [Local.after])
      | abort x => exact hcur_i m pc' h
    · -- the stepping thread's index is one that was handed out
      have haddr : getThreadMutexData m t ≠ getThreadMutexData m' idx := by
        intro h
        obtain ⟨-, rfl⟩ := getThreadMutexData_inj hm ht hm' (hidx'.trans_le hI.le) h
        omega
      simp only [Shared.setCell]
      rw [Function.update_of_ne haddr]
      exact hI.unused m hm t ht hle

/-- A thread keeps its index. -/
theorem index_step {tid : ι ↪ Tid} {c d : Config ι Local Shared} {i : ι} {a : Action}
    (h : (machine tid).step c i a = some d) (j : ι) {t : ℕ} (hj : (c.loc j).index = some t) :
    (d.loc j).index = some t := by
  obtain ⟨l, s, hnext, rfl⟩ := System.step_eq_some.mp h
  obtain ⟨-, hcase⟩ := next_eq_some hnext
  have hself : l.index = some t ∨ j ≠ i := by
    by_cases hji : j = i
    · refine .inl ?_
      rw [hji] at hj
      generalize c.loc i = li at hcase hj
      cases hcase with
      | start hidx hx => exact absurd (hidx.symm.trans hj) (by simp)
      | join hx => exact hj
      | call hidx hcur hm' => exact hj
      | step hidx hcur hop => exact hj
    · exact .inr hji
  rcases hself with hl | hji
  · by_cases hji : j = i
    · simp only [hji, Function.update_self, hl]
    · simp only [Function.update_of_ne hji, hj]
  · simp only [Function.update_of_ne hji, hj]

/-- A thread that took a step with an index still has it at the end of the run. -/
theorem index_run {tid : ι ↪ Tid} {c d : Config ι Local Shared}
    {tr : List (Event ι Action Local Shared)} (hrun : Run (machine tid) c tr d) :
    ∀ x ∈ tr, ∀ j t, (x.pre.loc j).index = some t → (d.loc j).index = some t := by
  refine hrun.history (I := fun tr d => ∀ x ∈ tr, ∀ j t, (x.pre.loc j).index = some t →
    (d.loc j).index = some t) (by simp) ?_
  intro tr d i a e ih hs x hx j t hj
  refine index_step hs j ?_
  rcases List.mem_append.mp hx with hx | hx
  · exact ih x hx j t hj
  · rw [List.mem_singleton.mp hx] at hj
    exact hj

/-- The indices are in order in every run. -/
theorem IndexInv.run {tid : ι ↪ Tid} {c d : Config ι Local Shared}
    {tr : List (Event ι Action Local Shared)} (hinit : Initial c)
    (hrun : Run (machine tid) c tr d) : IndexInv d :=
  hrun.invariant (.initial hinit) fun _ _ _ _ hI h => hI.step h

/-! ### Counting steps

A plain `++` on a counter is a load and a store.  Between the two nobody else writes the record,
so the loaded value is still the counter. -/

/-- The counter that a lock operation stores at a program point. -/
def LockPC.stores : LockPC → Option Counter
  | .accessStore _ => some .access
  | .failStore _ | .adFailStore _ _ _ => some .fail
  | _ => none

/-- The counter that a trylock stores at a program point. -/
def TryPC.stores : TryPC → Option Counter
  | .accessStore _ => some .access
  | .failStore _ => some .fail
  | .trylockFailStore _ => some .trylockFail
  | _ => none

/-- The counter that an operation stores at a program point. -/
def PC.stores : PC → Option Counter
  | .lock p => p.stores
  | .trylock p => p.stores
  | .condCountStore _ => some .condWaits
  | _ => none

/-- The program points that only the counting build has. -/
def LockPC.counting : LockPC → Bool
  | .access | .accessStore _ | .probe | .fail | .failStore _ | .adFail _ _ | .adFailStore _ _ _ =>
    true
  | _ => false

/-- The value that was loaded is still the counter. -/
def LockPC.Loaded (r : ThreadMutex) : LockPC → Prop
  | .accessStore v => v = r.get .access
  | .failStore v | .adFailStore _ _ v => v = r.get .fail
  | _ => True

/-- The same in a trylock. -/
def TryPC.Loaded (r : ThreadMutex) : TryPC → Prop
  | .accessStore v => v = r.get .access
  | .failStore v => v = r.get .fail
  | .trylockFailStore v => v = r.get .trylockFail
  | _ => True

/-- The value that was loaded is still the counter, and the re-acquisition after a wait is not
    at a point where it would count. -/
def PC.Loaded (r : ThreadMutex) : PC → Prop
  | .lock p => p.Loaded r
  | .trylock p => p.Loaded r
  | .condCountStore v => v = r.get .condWaits
  | .condRelock p => p.counting = false
  | _ => True

/-- The record after the store of a counter, if there is one. -/
def ThreadMutex.count (r : ThreadMutex) : Option Counter → ThreadMutex
  | some k => r.set k (inc32 (r.get k))
  | none => r

/-- The test of the spin loop has nothing loaded. -/
theorem adCheck_loaded (cnt : ℕ) (maxCnt : ℤ) (r : ThreadMutex) : (adCheck cnt maxCnt).Loaded r := by
  unfold adCheck
  split <;> trivial

/-- The test of the spin loop does not count. -/
theorem adCheck_counting (cnt : ℕ) (maxCnt : ℤ) : (adCheck cnt maxCnt).counting = false := by
  unfold adCheck
  split <;> rfl

/-! ### Phases of an operation -/

/-- How far an operation is with its counting: its access is still to be counted; it is counted,
    and a conflict may be; or neither will be any more. -/
inductive Phase
  | arriving
  | counted
  | settled
  deriving DecidableEq

/-- How a step that stores counter `k` moves an operation from phase to phase.  `retried` says
    that it is an attempt of the adaptive spin loop that finds the word taken. -/
inductive Phase.Step (retried : Prop) : Phase → Option Counter → Phase → Prop
  | stay {q : Phase} {k : Option Counter} (ha : k ≠ some .access) (hf : k ≠ some .fail) :
      Step retried q k q
  | access : Step retried .arriving (some .access) .counted
  | fail : Step retried .counted (some .fail) .settled
  | settle : Step retried .counted none .settled
  | retry (h : retried) : Step retried .settled none .counted

/-- A step that stores no counter. -/
theorem Phase.Step.silent {retried : Prop} (q : Phase) : Phase.Step retried q none q :=
  .stay (by simp) (by simp)

/-- The phase of a lock at a program point. -/
def LockPC.phase : LockPC → Phase
  | .stat | .access | .accessStore _ => .arriving
  | .kind | .errOwner | .probe | .fail | .failStore _ => .counted
  | .adTry | .adSpins | .adFail _ _ | .adFailStore _ _ _ => .counted
  | _ => .settled

/-- The phase of a trylock at a program point. -/
def TryPC.phase : TryPC → Phase
  | .stat | .access | .accessStore _ => .arriving
  | .trylockFail | .trylockFailStore _ => .settled
  | _ => .counted

/-- The phase of an operation at a program point; the other operations count neither accesses
    nor conflicts. -/
def PC.phase : PC → Phase
  | .lock p => p.phase
  | .trylock p => p.phase
  | _ => .settled

/-- The program point after a step from `p`; a failed assertion leaves the thread where it is. -/
def Flow.target {P : Type} (p : P) : Flow P → Option P
  | .goto q => some q
  | .ret _ => none
  | .abort _ => some p

/-- The phase after a step from a point in phase `q`. -/
def Flow.phase {P : Type} (phase : P → Phase) (q : Phase) : Flow P → Phase
  | .goto p => phase p
  | .ret _ => .settled
  | .abort _ => q

/-- The step is an attempt of the spin loop that finds the word taken. -/
def LockPC.Retried (m : MutexData) : LockPC → Prop
  | .adRetry _ _ => m.lock ≠ lllLockInitializer
  | _ => False

/-- The test of the spin loop is past the counting. -/
theorem adCheck_phase (cnt : ℕ) (maxCnt : ℤ) : (adCheck cnt maxCnt).phase = .settled := by
  unfold adCheck
  split <;> rfl

/-- What a step of an operation at `p` does to the record of its thread. -/
structure Counts {P : Type} (stores : Option Counter) (Loaded : ThreadMutex → P → Prop)
    (phase : P → Phase) (retried : Prop) (p : P) (c : Cell) (r : Flow P × Cell) : Prop where
  record : r.2.record = c.record.count stores
  loaded : ∀ p', r.1.target p = some p' → Loaded (c.record.count stores) p'
  phase : Phase.Step retried (phase p) stores (r.1.phase phase (phase p))

section

variable {P : Type} {stores : Option Counter} {Loaded : ThreadMutex → P → Prop} {phase : P → Phase}
  {retried : Prop} {p p' : P} {c c' : Cell}

/-- A step on to another program point. -/
theorem Counts.goto (hrec : c'.record = c.record.count stores)
    (hloaded : Loaded (c.record.count stores) p')
    (hstep : Phase.Step retried (phase p) stores (phase p')) :
    Counts stores Loaded phase retried p c (.goto p', c') where
  record := hrec
  loaded q h := by
    obtain rfl : p' = q := Option.some.inj h
    exact hloaded
  phase := hstep

/-- A failed assertion. -/
theorem Counts.abort {a : Assert} (hrec : c'.record = c.record.count stores)
    (hloaded : Loaded (c.record.count stores) p)
    (hstep : Phase.Step retried (phase p) stores (phase p)) :
    Counts stores Loaded phase retried p c (.abort a, c') where
  record := hrec
  loaded q h := by
    obtain rfl : p = q := Option.some.inj h
    exact hloaded
  phase := hstep

/-- The last step of an operation. -/
theorem Counts.ret {code : ℕ} (hrec : c'.record = c.record.count stores)
    (hstep : Phase.Step retried (phase p) stores .settled) :
    Counts stores Loaded phase retried p c (.ret code, c') where
  record := hrec
  loaded _ h := by cases h
  phase := hstep

end

/-- A step of the lock operation counts what its program point says. -/
theorem pthreadMutexLock_counts {id : ℕ} {env : Special} {p : LockPC} {c : Cell}
    (hp : p.Loaded c.record) :
    Counts p.stores LockPC.Loaded LockPC.phase (p.Retried c.mutex) p c
      (pthreadMutexLock .incr id env p c) := by
  cases p with
  | stat => exact .goto rfl trivial (.silent _)
  | access => exact .goto rfl rfl (.silent _)
  | accessStore v =>
    obtain rfl : v = _ := hp
    exact .goto rfl trivial .access
  | kind =>
    simp only [pthreadMutexLock, Build.dispatch]
    refine ⟨rfl, fun p' h => ?_, ?_⟩
    · split at h <;> cases h <;> trivial
    · split
      · exact .settle
      · exact .silent _
      · exact .silent _
      · exact .silent _
      · exact .settle
      · exact .settle
  | recOwner =>
    simp only [pthreadMutexLock]
    split <;> exact .goto rfl trivial (.silent _)
  | recCount =>
    simp only [pthreadMutexLock]
    split
    · exact .ret rfl (.silent _)
    · exact .goto rfl trivial (.silent _)
  | recCountStore v => exact .ret rfl (.silent _)
  | errOwner =>
    simp only [pthreadMutexLock]
    split
    · exact .ret rfl .settle
    · exact .goto rfl trivial (.silent _)
  | probe =>
    simp only [pthreadMutexLock]
    split
    · exact .goto rfl trivial (.silent _)
    · exact .goto rfl trivial .settle
  | fail => exact .goto rfl rfl (.silent _)
  | failStore v =>
    obtain rfl : v = _ := hp
    exact .goto rfl trivial .fail
  | conflictStat => exact .goto rfl trivial (.silent _)
  | cas t =>
    simp only [pthreadMutexLock]
    split
    · cases t <;> exact .goto rfl trivial (.silent _)
    · exact .goto rfl trivial (.silent _)
  | wait t =>
    simp only [pthreadMutexLock]
    split
    · cases t <;> exact .goto rfl trivial (.silent _)
    · exact .goto rfl trivial (.silent _)
  | adTry =>
    simp only [pthreadMutexLock]
    split
    · exact .goto rfl trivial .settle
    · exact .goto rfl trivial (.silent _)
  | adSpins => exact .goto rfl trivial (.silent _)
  | adFail cnt maxCnt => exact .goto rfl rfl (.silent _)
  | adFailStore cnt maxCnt v =>
    obtain rfl : v = _ := hp
    refine .goto rfl (adCheck_loaded ..) ?_
    rw [adCheck_phase]
    exact .fail
  | adRetry cnt maxCnt =>
    simp only [pthreadMutexLock]
    split
    · exact .goto rfl trivial (.silent _)
    · rename_i hlock
      exact .goto rfl trivial (.retry hlock)
  | adSpinsLoad cnt => exact .goto rfl trivial (.silent _)
  | adSpinsStore v => exact .goto rfl trivial (.silent _)
  | assertOwner recursive =>
    simp only [pthreadMutexLock]
    split
    · split
      · exact .goto rfl trivial (.silent _)
      · exact .goto rfl trivial (.silent _)
    · exact .abort rfl trivial (.silent _)
  | recInit => exact .goto rfl trivial (.silent _)
  | setOwner => exact .goto rfl trivial (.silent _)
  | nusers => exact .goto rfl trivial (.silent _)
  | nusersStore v => exact .ret rfl (.silent _)
  | special => exact .ret rfl (.silent _)

/-- A step after which `result` is returned, or counted as a failure first. -/
theorem Counts.of_result {p : TryPC} {c c' : Cell} (result : ℕ) (hs : p.stores = none)
    (hphase : p.phase = .counted) (hrec : c'.record = c.record) :
    Counts p.stores TryPC.Loaded TryPC.phase False p c (tryResult result, c') := by
  rw [hs]
  by_cases hbusy : result = eBUSY
  · rw [tryResult, if_pos hbusy]
    refine .goto hrec trivial ?_
    rw [hphase]
    exact .silent _
  · rw [tryResult, if_neg hbusy]
    refine .ret hrec ?_
    rw [hphase]
    exact .settle

/-- A step of the trylock operation counts what its program point says. -/
theorem pthreadMutexTrylock_counts {id : ℕ} {env : Special} {p : TryPC} {c : Cell}
    (hp : p.Loaded c.record) :
    Counts p.stores TryPC.Loaded TryPC.phase False p c (pthreadMutexTrylock id env p c) := by
  cases p with
  | stat => exact .goto rfl trivial (.silent _)
  | access => exact .goto rfl rfl (.silent _)
  | accessStore v =>
    obtain rfl : v = _ := hp
    exact .goto rfl trivial .access
  | kind =>
    simp only [pthreadMutexTrylock, tryDispatch]
    split
    · exact .abort rfl trivial (.silent _)
    · split
      · exact .goto rfl trivial (.silent _)
      · split
        · exact .goto rfl trivial (.silent _)
        · exact .goto rfl trivial (.silent _)
        · exact .goto rfl trivial (.silent _)
        · exact .of_result _ rfl rfl rfl
  | recOwner =>
    simp only [pthreadMutexTrylock]
    split <;> exact .goto rfl trivial (.silent _)
  | recCount =>
    simp only [pthreadMutexTrylock]
    split
    · exact .of_result _ rfl rfl rfl
    · exact .goto rfl trivial (.silent _)
  | recCountStore v => exact .of_result _ rfl rfl rfl
  | cas recursive =>
    simp only [pthreadMutexTrylock]
    split
    · exact .goto rfl trivial (.silent _)
    · exact .of_result _ rfl rfl rfl
  | setOwner recursive =>
    simp only [pthreadMutexTrylock]
    split <;> exact .goto rfl trivial (.silent _)
  | recInit => exact .goto rfl trivial (.silent _)
  | nusers => exact .goto rfl trivial (.silent _)
  | nusersStore v => exact .of_result _ rfl rfl rfl
  | special => exact .of_result _ rfl rfl rfl
  | fail => exact .goto rfl rfl (.silent _)
  | failStore v =>
    obtain rfl : v = _ := hp
    exact .goto rfl trivial .fail
  | trylockFail => exact .goto rfl rfl (.silent _)
  | trylockFailStore v =>
    obtain rfl : v = _ := hp
    exact .ret rfl (.stay (by simp [TryPC.stores]) (by simp [TryPC.stores]))

/-- The re-acquisition after a wait counts nothing. -/
theorem condLock_record (id : ℕ) (env : Special) {p : LockPC} (c : Cell)
    (hp : p.counting = false) :
    (pthreadMutexLock .noIncr id env p c).2.record = c.record ∧
      ∀ p', (pthreadMutexLock .noIncr id env p c).1 = .goto p' → p'.counting = false := by
  cases p with
  | access | accessStore v | probe | fail | failStore v | adFail cnt maxCnt
  | adFailStore cnt maxCnt v => exact absurd hp (by simp [LockPC.counting])
  | kind =>
    refine ⟨rfl, fun p' h => ?_⟩
    simp only [pthreadMutexLock, Build.dispatch] at h
    split at h <;> cases h <;> rfl
  | cas t =>
    simp only [pthreadMutexLock]
    split
    · cases t <;> exact ⟨by trivial, fun p' h => by cases h; rfl⟩
    · exact ⟨by trivial, fun p' h => by cases h; rfl⟩
  | wait t =>
    simp only [pthreadMutexLock]
    split
    · cases t <;> exact ⟨by trivial, fun p' h => by cases h; rfl⟩
    · exact ⟨by trivial, fun p' h => by cases h; rfl⟩
  | adSpins => exact ⟨by trivial, fun p' h => by cases h; exact adCheck_counting ..⟩
  | adRetry cnt maxCnt =>
    simp only [pthreadMutexLock]
    split
    · exact ⟨by trivial, fun p' h => by cases h; rfl⟩
    · exact ⟨by trivial, fun p' h => by cases h; exact adCheck_counting ..⟩
  | recOwner | recCount | errOwner | adTry | assertOwner recursive =>
    simp only [pthreadMutexLock]
    repeat' split
    all_goals exact ⟨by trivial, fun p' h => by cases h <;> rfl⟩
  | _ => exact ⟨rfl, fun p' h => by cases h <;> rfl⟩

/-- An unlock counts nothing. -/
theorem pthreadMutexUnlockUsercnt_record (decr : Bool) (id : ℕ) (env : Special) (p : UnlPC)
    (c : Cell) : (pthreadMutexUnlockUsercnt decr id env p c).2.record = c.record := by
  cases p
  all_goals
    simp only [pthreadMutexUnlockUsercnt]
    repeat' split
  all_goals rfl

/-- A destroy counts nothing. -/
theorem pthreadMutexDestroy_record (p : DesPC) (c : Cell) :
    (pthreadMutexDestroy p c).2.record = c.record := by
  cases p
  all_goals
    simp only [pthreadMutexDestroy]
    repeat' split
  all_goals rfl

/-- The step is an attempt of the spin loop of `pthread_mutex_lock` that finds the word taken. -/
def PC.Retried (m : MutexData) : PC → Prop
  | .lock p => p.Retried m
  | _ => False

/-- The counting of an operation, seen as a step of the thread. -/
theorem Counts.map {P : Type} {stores : Option Counter} {Loaded : ThreadMutex → P → Prop}
    {phase : P → Phase} {retried : Prop} {p : P} {c : Cell} {r : Flow P × Cell}
    (h : Counts stores Loaded phase retried p c r) (f : P → PC)
    (hloaded : ∀ x p, Loaded x p → (f p).Loaded x) (hphase : ∀ p, (f p).phase = phase p) :
    Counts stores PC.Loaded PC.phase retried (f p) c (r.1.map f, r.2) := by
  obtain ⟨hrec, hload, hstep⟩ := h
  refine ⟨hrec, fun p' h' => ?_, ?_⟩
  · cases hr : r.1 with
    | goto q =>
      rw [hr] at h'
      obtain rfl : f q = p' := Option.some.inj h'
      exact hloaded _ _ (hload q (by rw [hr]; rfl))
    | ret code => rw [hr] at h'; cases h'
    | abort a =>
      rw [hr] at h'
      obtain rfl : f p = p' := Option.some.inj h'
      exact hloaded _ _ (hload p (by rw [hr]; rfl))
  · rw [hphase]
    cases hr : r.1 with
    | goto q =>
      rw [hr] at hstep
      show Phase.Step _ _ _ (f q).phase
      rw [hphase]
      exact hstep
    | ret code => rw [hr] at hstep; exact hstep
    | abort a => rw [hr] at hstep; exact hstep

/-- A step that counts nothing, in an operation that is settled. -/
theorem Counts.of_settled {pc : PC} {retried : Prop} {c : Cell} {r : Flow PC × Cell}
    (hs : pc.stores = none) (hphase : pc.phase = .settled) (hrec : r.2.record = c.record)
    (hp : pc.Loaded c.record)
    (hnext : ∀ pc', r.1 = .goto pc' → pc'.Loaded c.record ∧ pc'.phase = .settled) :
    Counts pc.stores PC.Loaded PC.phase retried pc c r := by
  rw [hs]
  refine ⟨hrec, fun pc' h => ?_, ?_⟩
  · cases hr : r.1 with
    | goto q =>
      rw [hr] at h
      obtain rfl := Option.some.inj h
      exact (hnext q hr).1
    | ret code => rw [hr] at h; cases h
    | abort a =>
      rw [hr] at h
      obtain rfl := Option.some.inj h
      exact hp
  · rw [hphase]
    cases hr : r.1 with
    | goto q =>
      show Phase.Step _ _ _ q.phase
      rw [(hnext q hr).2]
      exact .silent _
    | ret code => exact .silent _
    | abort a => exact .silent _

/-- **Every step of an operation counts what its program point says.** -/
theorem opStep_counts {id : ℕ} {ch : Choice} {pc : PC} {c : Cell} (hp : pc.Loaded c.record) :
    Counts pc.stores PC.Loaded PC.phase (pc.Retried c.mutex) pc c (opStep id ch pc c) := by
  cases pc with
  | lock p => exact (pthreadMutexLock_counts hp).map .lock (fun _ _ h => h) (fun _ => rfl)
  | trylock p => exact (pthreadMutexTrylock_counts hp).map .trylock (fun _ _ h => h) (fun _ => rfl)
  | unlock p =>
    refine .of_settled rfl rfl (pthreadMutexUnlockUsercnt_record ..) trivial fun pc' h => ?_
    simp only [opStep] at h
    cases hr : (pthreadMutexUnlockUsercnt true id ch.special p c).1 <;> rw [hr] at h <;> cases h
    exact ⟨trivial, rfl⟩
  | condRelease p =>
    refine .of_settled rfl rfl (pthreadMutexUnlockUsercnt_record ..) trivial fun pc' h => ?_
    simp only [opStep] at h
    cases hr : (pthreadMutexUnlockUsercnt false id ch.special p c).1 with
    | goto q =>
      rw [hr] at h
      cases h
      exact ⟨trivial, rfl⟩
    | ret code =>
      rw [hr] at h
      simp only [afterRelease] at h
      split at h <;> cases h
      exact ⟨trivial, rfl⟩
    | abort a => rw [hr] at h; cases h
  | condCount => exact ⟨rfl, fun p' h => by cases h; rfl, .silent _⟩
  | condCountStore v =>
    obtain rfl : v = _ := hp
    exact ⟨rfl, fun p' h => by cases h; trivial, .stay (by simp [PC.stores]) (by simp [PC.stores])⟩
  | condBlocked =>
    simp only [opStep]
    split
    · exact ⟨rfl, fun p' h => by cases h; trivial, .silent _⟩
    · exact ⟨rfl, fun p' h => by cases h; rfl, .silent _⟩
  | condRelock p =>
    obtain ⟨hrec, hnext⟩ := condLock_record id ch.special c hp
    refine .of_settled rfl rfl hrec hp fun pc' h => ?_
    simp only [opStep] at h
    cases hr : (pthreadMutexLock .noIncr id ch.special p c).1 <;> rw [hr] at h <;> cases h
    exact ⟨hnext _ hr, rfl⟩
  | destroy p =>
    refine .of_settled rfl rfl (pthreadMutexDestroy_record ..) trivial fun pc' h => ?_
    simp only [opStep] at h
    cases hr : (pthreadMutexDestroy p c).1 <;> rw [hr] at h <;> cases h
    exact ⟨trivial, rfl⟩

/-! ### Runs, seen from one record -/

/-- The phase of a thread with one mutex, from its program point there. -/
def phaseAt (pc : Option PC) : Phase :=
  match pc with
  | some pc => pc.phase
  | none => .settled

/-- The loaded value of a thread, if it is at a store, is still the counter. -/
def LoadedAt (r : ThreadMutex) (pc : Option PC) : Prop :=
  ∀ p, pc = some p → p.Loaded r

/-- The phase after a step. -/
theorem phaseAt_target (pc : PC) (f : Flow PC) :
    phaseAt (f.target pc) = f.phase PC.phase pc.phase := by
  cases f <;> rfl

/-- One step of thread `j`'s own operation on mutex `m`, at `pc`. -/
structure OpEvent (tid : ι ↪ Tid) (j : ι) (m : ℕ) (x : Event ι Action Local Shared) (pc : PC)
    (cell : Cell) (f : Flow PC) (cell' : Cell) : Prop where
  who : x.who = j
  at_pc : ((x.pre.loc j).view m).pc = some pc
  mutex : cell.mutex = x.pre.sh.mutexes m
  record : cell.record = x.pre.sh.record (x.pre.loc j) m
  loaded : pc.Loaded cell.record
  step : ∃ ch, x.act = .step ch ∧ opStep (tid j).val ch pc cell = (f, cell')

omit [DecidableEq ι] in
/-- What such a step counts. -/
theorem OpEvent.counts {tid : ι ↪ Tid} {j : ι} {m : ℕ} {x : Event ι Action Local Shared} {pc : PC}
    {cell cell' : Cell} {f : Flow PC} (h : OpEvent tid j m x pc cell f cell') :
    Counts pc.stores PC.Loaded PC.phase (pc.Retried cell.mutex) pc cell (f, cell') := by
  obtain ⟨ch, -, hop⟩ := h.step
  rw [← hop]
  exact opStep_counts h.loaded

/-- What the record rule starts from: the indices are in order, and the thread's loaded value is
    current. -/
structure RecordInv (c : Config ι Local Shared) (j : ι) (m : ℕ) : Prop where
  index : IndexInv c
  loaded : LoadedAt (c.sh.record (c.loc j) m) ((c.loc j).view m).pc

omit [DecidableEq ι] in
/-- The invariant holds at first. -/
theorem RecordInv.initial {c : Config ι Local Shared} (hinit : Initial c) (j : ι) (m : ℕ) :
    RecordInv c j m := by
  refine ⟨.initial hinit, fun p hp => ?_⟩
  rw [hinit.loc] at hp
  exact absurd hp (by simp [Local.view])

/-- **Record rule.**  What is kept when a thread starts an operation on the mutex, or takes a
    step of one, holds of its record on the mutex at the end of every run. -/
theorem record_run {tid : ι ↪ Tid} {c d : Config ι Local Shared}
    {tr : List (Event ι Action Local Shared)} {j : ι} {m : ℕ} (hc : RecordInv c j m)
    (hrun : Run (machine tid) c tr d) (hm : m < maxSyncEntries)
    {I : List (Event ι Action Local Shared) → Option PC → ThreadMutex → Prop}
    (hstart : I [] ((c.loc j).view m).pc (c.sh.record (c.loc j) m))
    (hother : ∀ tr x pc r, (x.who = j → ¬ x.act.on (x.pre.loc j) m) → I tr pc r →
      I (tr ++ [x]) pc r)
    (hcall : ∀ tr x op r, x.who = j → x.act = .call m op → I tr none r →
      I (tr ++ [x]) (some op.entry) r)
    (hstep : ∀ tr x pc cell f cell', Run (machine tid) c tr x.pre →
      OpEvent tid j m x pc cell f cell' → I tr (some pc) cell.record →
      I (tr ++ [x]) (f.target pc) cell'.record) :
    RecordInv d j m ∧ I tr ((d.loc j).view m).pc (d.sh.record (d.loc j) m) := by
  refine (hrun.history (I := fun tr d => Run (machine tid) c tr d ∧ RecordInv d j m ∧
    I tr ((d.loc j).view m).pc (d.sh.record (d.loc j) m)) ⟨.refl, hc, hstart⟩ ?_).2
  rintro tr c i a d ⟨hrun, ⟨hI, hload⟩, hinv⟩ h
  refine ⟨hrun.snoc h, ?_⟩
  cases hI.recordStep h j hm with
  | other hnot hpc hrec =>
    refine ⟨⟨hI.step h, ?_⟩, ?_⟩
    · rw [hpc, hrec]
      exact hload
    · rw [hpc, hrec]
      exact hother _ _ _ _ hnot hinv
  | @call op hi ha hpc hpc' hrec =>
    rw [hpc] at hinv
    refine ⟨⟨hI.step h, ?_⟩, ?_⟩
    · rw [hpc']
      intro p hp
      obtain rfl := Option.some.inj hp
      cases op <;> trivial
    · rw [hpc', hrec]
      exact hcall _ _ _ _ hi ha hinv
  | @step pc ch f cell cell' hi ha hpc hmutex hcell hop hpc' hrec =>
    have hev : OpEvent tid j m ⟨c, i, a⟩ pc cell f cell' :=
      ⟨hi, hpc, hmutex, hcell, hcell ▸ hload pc hpc, ch, ha, hop⟩
    have htarget : (View.after pc f 0).pc = f.target pc := by cases f <;> rfl
    refine ⟨⟨hI.step h, ?_⟩, ?_⟩
    · rw [hpc', htarget, hrec, hev.counts.record]
      exact fun p hp => hev.counts.loaded p hp
    · rw [hpc', htarget, hrec]
      exact hstep _ _ _ _ _ _ hrun hev (hcell ▸ hpc ▸ hinv)

/-- In every run the loaded values are current. -/
theorem RecordInv.run {tid : ι ↪ Tid} {c d : Config ι Local Shared}
    {tr : List (Event ι Action Local Shared)} (hinit : Initial c)
    (hrun : Run (machine tid) c tr d) (j : ι) {m : ℕ} (hm : m < maxSyncEntries) :
    RecordInv d j m :=
  (record_run (I := fun _ _ _ => True) (.initial hinit j m) hrun hm trivial
    (fun _ _ _ _ _ _ => trivial) (fun _ _ _ _ _ _ _ => trivial)
    fun _ _ _ _ _ _ _ _ _ => trivial).1

end SyncPerf
