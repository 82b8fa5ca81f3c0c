import SyncPerf.LazyInstall

namespace SyncPerf.ReportStart

open Interleaving
open LazyInstall (MutexT)

/-!
# The start of the report

The report is made when the process exits, by the thread that calls `exit` or is interrupted by the
signal.  Nobody stops the other threads: `Report::print` reads `_cur`, goes through the entries
below it, and asserts of each that it has its own index, while other threads may still be in
`create_mutex`.

* `Heap`, `Local`, `next` — `create_mutex` and the loop of the report, step by step;
* `InSlot` — a thread that has got a slot and has not yet put the index into it;
* `Inv`, `Inv.step` — what an entry holds meanwhile;
* `report_assertion_iff` — when the assertion holds.
-/

/-! ### The model -/

/-- Where the process can abort: the exhausted pool, or the assertion of the report. -/
inductive Abort
  | getNextIndex
  | entryIndex
  deriving DecidableEq

/-- The shared state. -/
structure Heap where
  syncVars : RecordEntries MutexT
  exiting : Bool := false
  abort : Option Abort := none

/-- The program points of `create_mutex`, with the `entry_index` that was got. -/
inductive CreatePoint
  | outside
  | getNextIndex
  | stackCount (i : ℕ)
  | entryIndex (i : ℕ)
  deriving DecidableEq

/-- The program points of the report: it reads `_cur`, then looks at entry `i` of
    `total_sync_vars`. -/
inductive ReportPoint
  | getEntriesNumb
  | check (totalSyncVars i : ℕ)
  | written
  deriving DecidableEq

/-- A thread.  What it was doing when its report started is not taken up again. -/
structure Local where
  create : CreatePoint := .outside
  report : Option ReportPoint := none
  deriving DecidableEq

/-- What happens next: a mutex is created, the process exits in this thread, or it goes on. -/
inductive Action
  | create
  | exit
  | run
  deriving DecidableEq

/-- A step of `create_mutex`. -/
def createMutex (p : CreatePoint) (s : Heap) : Option (CreatePoint × Heap) :=
  match p with
  | .outside => none
  | .getNextIndex =>
    match s.syncVars.getNextIndex with
    | (some i, r) => some (.stackCount i, { s with syncVars := r })
    | (none, r) => some (.outside, { s with syncVars := r, abort := some .getNextIndex })
  | .stackCount i =>
    some (.entryIndex i,
      { s with syncVars := s.syncVars.modifyEntry i fun m => { m with stackCount := 0 } })
  | .entryIndex i =>
    some (.outside,
      { s with syncVars := s.syncVars.modifyEntry i fun m => { m with entryIndex := i } })

/-- A step of `Report::print`; the sums over the threads, which come between two checks, read other
    data.  `total_sync_vars` is an `int`, which has room for a `_cur` up to `_total`. -/
def print (p : ReportPoint) (s : Heap) : Option (ReportPoint × Heap) :=
  match p with
  | .getEntriesNumb => some (.check s.syncVars.cur 0, s)
  | .check totalSyncVars i =>
    if i < totalSyncVars then
      if (s.syncVars.start i).entryIndex = i then some (.check totalSyncVars (i + 1), s)
      else some (.check totalSyncVars i, { s with abort := some .entryIndex })
    else some (.written, s)
  | .written => none

variable {ι : Type}

/-- One step of a thread. -/
def next (_ : ι) (a : Action) (l : Local) (s : Heap) : Option (Local × Heap) :=
  if s.abort.isSome then none
  else
    match l.report, a with
    | none, .create =>
      if l.create = .outside then some ({ l with create := .getNextIndex }, s) else none
    | none, .exit =>
      if s.exiting then none
      else some ({ l with report := some .getEntriesNumb }, { s with exiting := true })
    | none, .run => (createMutex l.create s).map fun r => ({ l with create := r.1 }, r.2)
    | some p, .run => (print p s).map fun r => ({ l with report := some r.1 }, r.2)
    | some _, _ => none

/-- Threads that create mutexes, and the one that makes the report. -/
def system : System ι Action Local Heap := ⟨next⟩

/-- The pool before: the slots that were handed out have their indices, the others are as `mmap`
    left them. -/
structure Initial (c : Config ι Local Heap) : Prop where
  outside : ∀ t, c.loc t = {}
  cur : c.sh.syncVars.cur ≤ c.sh.syncVars.total
  created : ∀ i < c.sh.syncVars.cur, (c.sh.syncVars.start i).entryIndex = i
  unused : ∀ i, c.sh.syncVars.cur ≤ i → (c.sh.syncVars.start i).entryIndex = 0
  running : c.sh.abort = none

/-- What happened in a run. -/
abbrev Trace (ι : Type) := List (Event ι Action Local Heap)

/-! ### What an entry holds -/

/-- The thread has got slot `i` and has not yet stored its index. -/
def InSlot (i : ℕ) (l : Local) : Prop := l.create = .stackCount i ∨ l.create = .entryIndex i

instance (i : ℕ) (l : Local) : Decidable (InSlot i l) := inferInstanceAs (Decidable (_ ∨ _))

/-- The invariant of the runs in which the process has not aborted. -/
structure Inv (c : Config ι Local Heap) : Prop where
  cur : c.sh.syncVars.cur ≤ c.sh.syncVars.total
  unused : ∀ i, c.sh.syncVars.cur ≤ i → (c.sh.syncVars.start i).entryIndex = 0
  inside : ∀ t i, InSlot i (c.loc t) →
    i < c.sh.syncVars.cur ∧ (c.sh.syncVars.start i).entryIndex = 0
  unique : ∀ i t u, InSlot i (c.loc t) → InSlot i (c.loc u) → t = u
  created : ∀ i < c.sh.syncVars.cur, (∀ t, ¬ InSlot i (c.loc t)) →
    (c.sh.syncVars.start i).entryIndex = i
  reading : ∀ t n i, (c.loc t).report = some (.check n i) → n ≤ c.sh.syncVars.cur

/-- The invariant holds at first. -/
theorem Inv.initial {c : Config ι Local Heap} (h : Initial c) : Inv c where
  cur := h.cur
  unused := h.unused
  inside t i hi := by
    rw [h.outside t] at hi
    exact absurd hi (by simp [InSlot])
  unique i t u hi _ := by
    rw [h.outside t] at hi
    exact absurd hi (by simp [InSlot])
  created i hi _ := h.created i hi
  reading t n i hi := by
    rw [h.outside t] at hi
    exact absurd hi (by simp)

/-- **An entry that is handed out** has its index, unless its thread is still on the way to store
    it; the first one has it in any case. -/
theorem Inv.entryIndex_iff {c : Config ι Local Heap} (h : Inv c) {i : ℕ}
    (hi : i < c.sh.syncVars.cur) :
    (c.sh.syncVars.start i).entryIndex = i ↔ ¬ (i ≠ 0 ∧ ∃ t, InSlot i (c.loc t)) := by
  by_cases hin : ∃ t, InSlot i (c.loc t)
  · obtain ⟨t, ht⟩ := hin
    rw [(h.inside t i ht).2]
    constructor
    · rintro rfl ⟨h0, -⟩
      exact h0 rfl
    · intro hnot
      by_contra hne
      exact hnot ⟨Ne.symm hne, t, ht⟩
  · exact ⟨fun _ hnot => hin hnot.2, fun _ => h.created i hi fun t ht => hin ⟨t, ht⟩⟩

/-! ### The steps -/

/-- A step that hands out no slot and stores no index. -/
structure Quiet (l l' : Local) (s s' : Heap) : Prop where
  cur : s'.syncVars.cur = s.syncVars.cur
  total : s'.syncVars.total = s.syncVars.total
  entryIndex : ∀ i, (s'.syncVars.start i).entryIndex = (s.syncVars.start i).entryIndex
  inSlot : ∀ i, InSlot i l' ↔ InSlot i l
  reading : ∀ n i, l'.report = some (.check n i) →
    n = s.syncVars.cur ∨ ∃ j, l.report = some (.check n j)

/-- A step of `get_next_index` that hands out the slot at the cursor. -/
structure HandsOut (l l' : Local) (s s' : Heap) : Prop where
  notFull : s.syncVars.cur < s.syncVars.total
  cur : s'.syncVars.cur = s.syncVars.cur + 1
  total : s'.syncVars.total = s.syncVars.total
  start : s'.syncVars.start = s.syncVars.start
  before : ∀ i, ¬ InSlot i l
  inSlot : ∀ i, InSlot i l' ↔ i = s.syncVars.cur
  report : l'.report = none

/-- A step that stores the index of slot `i`. -/
structure Stores (i : ℕ) (l l' : Local) (s s' : Heap) : Prop where
  cur : s'.syncVars.cur = s.syncVars.cur
  total : s'.syncVars.total = s.syncVars.total
  self : (s'.syncVars.start i).entryIndex = i
  other : ∀ j, j ≠ i → s'.syncVars.start j = s.syncVars.start j
  before : ∀ j, InSlot j l ↔ j = i
  after : ∀ j, ¬ InSlot j l'
  report : l'.report = none

/-- A thread that is not in `create_mutex` is in no slot. -/
theorem not_inSlot {l : Local} {i : ℕ} (h : l.create = .outside ∨ l.create = .getNextIndex) :
    ¬ InSlot i l := by
  rcases h with h | h <;> simp [InSlot, h]

/-- What a step of `create_mutex` does to the pool. -/
theorem createMutex_cases {l : Local} {p : CreatePoint} {s s' : Heap}
    (h : createMutex l.create s = some (p, s')) (hreport : l.report = none)
    (hcur : s.syncVars.cur ≤ s.syncVars.total) (hrunning : s'.abort = none) :
    Quiet l { l with create := p } s s' ∨ HandsOut l { l with create := p } s s' ∨
      ∃ i, Stores i l { l with create := p } s s' := by
  unfold createMutex at h
  split at h
  next => exact absurd h (by simp)
  next hpoint =>
    rcases Nat.lt_or_eq_of_le hcur with hlt | heq
    · rw [s.syncVars.getNextIndex_of_lt hlt] at h
      obtain ⟨rfl, rfl⟩ := Prod.mk.inj (Option.some.inj h)
      refine .inr (.inl ⟨hlt, rfl, rfl, rfl, fun i => not_inSlot (.inr hpoint), fun i => ?_,
        hreport⟩)
      simp [InSlot, eq_comm]
    · rw [s.syncVars.getNextIndex_of_eq heq] at h
      obtain ⟨rfl, rfl⟩ := Prod.mk.inj (Option.some.inj h)
      exact absurd hrunning (by simp)
  next i hpoint =>
    obtain ⟨rfl, rfl⟩ := Prod.mk.inj (Option.some.inj h)
    refine .inl ⟨rfl, rfl, fun j => ?_, fun j => ?_, fun n j hj => absurd hj (by simp [hreport])⟩
    · by_cases hj : j = i
      · rw [hj, RecordEntries.modifyEntry_start_self]
      · rw [RecordEntries.modifyEntry_start_ne _ _ hj]
    · simp [InSlot, hpoint]
  next i hpoint =>
    obtain ⟨rfl, rfl⟩ := Prod.mk.inj (Option.some.inj h)
    refine .inr (.inr ⟨i, rfl, rfl, by rw [RecordEntries.modifyEntry_start_self],
      fun j hj => by simp only [RecordEntries.modifyEntry_start_ne _ _ hj], fun j => ?_,
      fun j => not_inSlot (.inl rfl), hreport⟩)
    simp [InSlot, hpoint, eq_comm]

/-- A step of the report leaves the pool alone. -/
theorem print_quiet {l : Local} {p p' : ReportPoint} {s s' : Heap} (h : print p s = some (p', s'))
    (hreport : l.report = some p) : Quiet l { l with report := some p' } s s' := by
  unfold print at h
  split at h
  next =>
    obtain ⟨rfl, rfl⟩ := Prod.mk.inj (Option.some.inj h)
    refine ⟨rfl, rfl, fun _ => rfl, fun _ => Iff.rfl, fun n i hi => .inl ?_⟩
    simp only [Option.some.injEq, ReportPoint.check.injEq] at hi
    exact hi.1.symm
  next totalSyncVars i =>
    split at h
    · split at h <;> obtain ⟨rfl, rfl⟩ := Prod.mk.inj (Option.some.inj h)
      all_goals
        refine ⟨rfl, rfl, fun _ => rfl, fun _ => Iff.rfl, fun n j hj => .inr ⟨i, ?_⟩⟩
        simp only [Option.some.injEq, ReportPoint.check.injEq] at hj
        rw [hreport, hj.1]
    · obtain ⟨rfl, rfl⟩ := Prod.mk.inj (Option.some.inj h)
      exact ⟨rfl, rfl, fun _ => rfl, fun _ => Iff.rfl, fun n j hj => absurd hj (by simp)⟩
  next => exact absurd h (by simp)

/-- A process that has aborted takes no step. -/
theorem running_of_next {t : ι} {a : Action} {l l' : Local} {s s' : Heap}
    (h : next t a l s = some (l', s')) : s.abort = none := by
  unfold next at h
  split at h
  · exact absurd h (by simp)
  · rename_i hab
    simpa using hab

/-- **The steps** that do not abort. -/
theorem next_cases {t : ι} {a : Action} {l l' : Local} {s s' : Heap}
    (h : next t a l s = some (l', s')) (hcur : s.syncVars.cur ≤ s.syncVars.total)
    (hrunning : s'.abort = none) :
    Quiet l l' s s' ∨ HandsOut l l' s s' ∨ ∃ i, Stores i l l' s s' := by
  have hab := running_of_next h
  unfold next at h
  rw [hab, Option.isSome_none, if_neg Bool.false_ne_true] at h
  split at h
  next hreport =>
    split at h
    next hpoint =>
      obtain ⟨rfl, rfl⟩ := Prod.mk.inj (Option.some.inj h)
      refine .inl ⟨rfl, rfl, fun _ => rfl, fun i => ?_, fun n i hi => absurd hi (by simp [hreport])⟩
      exact iff_of_false (not_inSlot (.inr rfl)) (not_inSlot (.inl hpoint))
    next => exact absurd h (by simp)
  next hreport =>
    split at h
    next => exact absurd h (by simp)
    next =>
      obtain ⟨rfl, rfl⟩ := Prod.mk.inj (Option.some.inj h)
      exact .inl ⟨rfl, rfl, fun _ => rfl, fun _ => Iff.rfl, fun n i hi => absurd hi (by simp)⟩
  next hreport =>
    obtain ⟨r, hr, heq⟩ := Option.map_eq_some_iff.mp h
    obtain ⟨rfl, rfl⟩ := Prod.mk.inj heq
    exact createMutex_cases hr hreport hcur hrunning
  next p hreport =>
    obtain ⟨r, hr, heq⟩ := Option.map_eq_some_iff.mp h
    obtain ⟨rfl, rfl⟩ := Prod.mk.inj heq
    exact .inl (print_quiet hr hreport)
  next => exact absurd h (by simp)

/-! ### The invariant is kept -/

section Step

variable [DecidableEq ι] {c : Config ι Local Heap} {t : ι} {l : Local} {s : Heap}

/-- The report of each thread goes up to the cursor at most. -/
theorem Inv.reading_update (hI : Inv c) {m : ℕ} (hm : c.sh.syncVars.cur ≤ m)
    (hl : ∀ n i, l.report = some (.check n i) → n ≤ m) :
    ∀ u n i, (Function.update c.loc t l u).report = some (.check n i) → n ≤ m :=
  forall_update (P := fun (_ : ι) (l' : Local) => ∀ n i, l'.report = some (.check n i) → n ≤ m) hl
    fun u _ n i hu => (hI.reading u n i hu).trans hm

/-- A step that leaves the pool alone keeps the invariant. -/
theorem Inv.quiet (hI : Inv c) (h : Quiet (c.loc t) l c.sh s) :
    Inv ⟨Function.update c.loc t l, s⟩ := by
  -- nobody's slot has changed
  have hslot : ∀ u i, InSlot i (Function.update c.loc t l u) ↔ InSlot i (c.loc u) := fun u =>
    forall_update (P := fun u l' => ∀ i, InSlot i l' ↔ InSlot i (c.loc u)) h.inSlot
      (fun u _ i => Iff.rfl) u
  refine ⟨?_, fun i hi => ?_, fun u i hu => ?_, fun i u v hu hv => ?_, fun i hi hout => ?_,
    fun u n i hu => ?_⟩
  · rw [h.cur, h.total]
    exact hI.cur
  · rw [h.cur] at hi
    rw [h.entryIndex]
    exact hI.unused i hi
  · rw [h.cur, h.entryIndex]
    exact hI.inside u i ((hslot u i).mp hu)
  · exact hI.unique i u v ((hslot u i).mp hu) ((hslot v i).mp hv)
  · rw [h.cur] at hi
    rw [h.entryIndex]
    exact hI.created i hi fun u hu => hout u ((hslot u i).mpr hu)
  · refine hI.reading_update h.cur.ge (fun n i hl => ?_) u n i hu
    rw [h.cur]
    rcases h.reading n i hl with rfl | ⟨j, hj⟩
    · exact le_rfl
    · exact hI.reading t n j hj

/-- The step that hands out a slot keeps the invariant. -/
theorem Inv.handsOut (hI : Inv c) (h : HandsOut (c.loc t) l c.sh s) :
    Inv ⟨Function.update c.loc t l, s⟩ := by
  have hself : ∀ i, InSlot i (Function.update c.loc t l t) ↔ i = c.sh.syncVars.cur := fun i => by
    rw [Function.update_self, h.inSlot]
  refine ⟨?_, fun i hi => ?_, fun u i hu => ?_, fun i => ?_, fun i hi hout => ?_,
    fun u n i hu => ?_⟩
  · rw [h.cur, h.total]
    exact h.notFull
  · rw [h.cur] at hi
    rw [h.start]
    exact hI.unused i (Nat.le_of_succ_le hi)
  · rw [h.cur, h.start]
    by_cases hut : u = t
    · subst hut
      rw [(hself i).mp hu]
      exact ⟨Nat.lt_succ_self _, hI.unused _ le_rfl⟩
    · simp only [Function.update_of_ne hut] at hu
      obtain ⟨hlt, hzero⟩ := hI.inside u i hu
      exact ⟨Nat.lt_succ_of_lt hlt, hzero⟩
  · -- nobody was in the slot that is handed out
    refine unique_update (hI.unique i) fun hi => .inr fun u hu => ?_
    rw [(h.inSlot i).mp hi] at hu
    exact absurd (hI.inside u _ hu).1 (lt_irrefl _)
  · rw [h.cur] at hi
    rw [h.start]
    have hne : i ≠ c.sh.syncVars.cur := fun heq => hout t ((hself i).mpr heq)
    refine hI.created i (by omega) fun u hu => ?_
    by_cases hut : u = t
    · exact h.before i (hut ▸ hu)
    · refine hout u ?_
      simp only [Function.update_of_ne hut]
      exact hu
  · refine hI.reading_update (h.cur ▸ Nat.le_succ _) (fun n i hl => ?_) u n i hu
    exact absurd hl (by simp [h.report])

/-- The stores to a slot keep the invariant. -/
theorem Inv.stores (hI : Inv c) {i : ℕ} (h : Stores i (c.loc t) l c.sh s) :
    Inv ⟨Function.update c.loc t l, s⟩ := by
  have hin : InSlot i (c.loc t) := (h.before i).mpr rfl
  have hi := (hI.inside t i hin).1
  have hafter : ∀ j, ¬ InSlot j (Function.update c.loc t l t) := fun j => by
    rw [Function.update_self]
    exact h.after j
  refine ⟨?_, fun j hj => ?_, fun u j hu => ?_, fun j => ?_, fun j hj hout => ?_,
    fun u n j hu => ?_⟩
  · rw [h.cur, h.total]
    exact hI.cur
  · rw [h.cur] at hj
    rw [h.other j (by omega)]
    exact hI.unused j hj
  · have hut : u ≠ t := fun hut => hafter j (hut ▸ hu)
    simp only [Function.update_of_ne hut] at hu
    -- no other thread is in this slot
    have hji : j ≠ i := by
      rintro rfl
      exact hut (hI.unique j u t hu hin)
    rw [h.cur, h.other j hji]
    exact hI.inside u j hu
  · exact unique_update (hI.unique j) fun hj => absurd hj (h.after j)
  · rw [h.cur] at hj
    by_cases hji : j = i
    · rw [hji]
      exact h.self
    · rw [h.other j hji]
      refine hI.created j hj fun u hu => ?_
      have hut : u ≠ t := by
        rintro rfl
        exact hji ((h.before j).mp hu)
      refine hout u ?_
      simp only [Function.update_of_ne hut]
      exact hu
  · refine hI.reading_update h.cur.ge (fun n j hl => ?_) u n j hu
    exact absurd hl (by simp [h.report])

/-- **One step** of the system keeps the invariant, as long as the process runs. -/
theorem Inv.step {a : Action} {d : Config ι Local Heap} (hI : c.sh.abort = none → Inv c)
    (h : system.step c t a = some d) (hrunning : d.sh.abort = none) : Inv d := by
  obtain ⟨l, s, hnext, rfl⟩ := System.step_eq_some.mp h
  have hnext' : next t a (c.loc t) c.sh = some (l, s) := hnext
  have hI' : Inv c := hI (running_of_next hnext')
  rcases next_cases hnext' hI'.cur hrunning with hquiet | hhands | ⟨i, hstores⟩
  · exact hI'.quiet hquiet
  · exact hI'.handsOut hhands
  · exact hI'.stores hstores

end Step

/-! ### Runs -/

/-- The entry that a step of the report looks at. -/
def checked (x : Event ι Action Local Heap) : Option ℕ :=
  match (x.pre.loc x.who).report, x.act with
  | some (.check totalSyncVars i), .run => if i < totalSyncVars then some i else none
  | _, _ => none

/-- `assert(m->entry_index == i)`. -/
def AssertionHolds (x : Event ι Action Local Heap) : Prop :=
  ∀ i ∈ checked x, (x.pre.sh.syncVars.start i).entryIndex = i

/-- The step looks at an entry other than the first while a thread is on the way to store its
    index. -/
def ChecksReserved (x : Event ι Action Local Heap) : Prop :=
  ∃ i ∈ checked x, i ≠ 0 ∧ ∃ t, InSlot i (x.pre.loc t)

instance [Fintype ι] (x : Event ι Action Local Heap) : Decidable (ChecksReserved x) :=
  inferInstanceAs (Decidable (∃ i ∈ checked x, _))

variable [DecidableEq ι] {c₀ c : Config ι Local Heap} {tr : Trace ι}

/-- The invariant holds after every run that has not aborted. -/
theorem Inv.run (hinit : Initial c₀) (hrun : Run system c₀ tr c) (hrunning : c.sh.abort = none) :
    Inv c :=
  hrun.invariant (I := fun c => c.sh.abort = none → Inv c) (fun _ => Inv.initial hinit)
    (fun _ _ _ _ hI hs => Inv.step hI hs) hrunning

omit [DecidableEq ι] in
/-- The entries that a step checks. -/
theorem mem_checked_iff {x : Event ι Action Local Heap} {i : ℕ} :
    i ∈ checked x ↔
      ∃ n, (x.pre.loc x.who).report = some (.check n i) ∧ x.act = .run ∧ i < n := by
  rw [Option.mem_def, checked]
  split
  next n j hreport hact =>
    rw [hreport, hact]
    by_cases hj : j < n
    · rw [if_pos hj]
      simp only [Option.some.injEq, ReportPoint.check.injEq, true_and]
      refine ⟨fun h => ⟨n, ⟨rfl, h⟩, h ▸ hj⟩, fun ⟨_, h, _⟩ => h.2⟩
    · rw [if_neg hj]
      simp only [reduceCtorEq, Option.some.injEq, ReportPoint.check.injEq, true_and, false_iff]
      rintro ⟨n', ⟨rfl, rfl⟩, hlt⟩
      exact hj hlt
  next hother =>
    simp only [reduceCtorEq, false_iff]
    rintro ⟨n, hreport, hact, -⟩
    exact hother n i hreport hact

/-- **The assertion** holds unless another thread is on the way to store the index. -/
theorem assertionHolds_iff (hinit : Initial c₀) (hrun : Run system c₀ tr c) :
    ∀ x ∈ tr, (AssertionHolds x ↔ ¬ ChecksReserved x) := by
  intro x hx
  obtain ⟨tr', hpre⟩ := hrun.pre x hx
  obtain ⟨d, hd⟩ := hrun.enabled x hx
  obtain ⟨l, s, hnext, -⟩ := System.step_eq_some.mp hd
  have hnext' : next x.who x.act (x.pre.loc x.who) x.pre.sh = some (l, s) := hnext
  have hI : Inv x.pre := Inv.run hinit hpre (running_of_next hnext')
  have hentry : ∀ i ∈ checked x, ((x.pre.sh.syncVars.start i).entryIndex = i ↔
      ¬ (i ≠ 0 ∧ ∃ t, InSlot i (x.pre.loc t))) := by
    intro i hi
    obtain ⟨n, hreport, -, hlt⟩ := mem_checked_iff.mp hi
    exact hI.entryIndex_iff (hlt.trans_le (hI.reading _ _ _ hreport))
  constructor
  · rintro hholds ⟨i, hi, hreserved⟩
    exact (hentry i hi).mp (hholds i hi) hreserved
  · intro hnot i hi
    exact (hentry i hi).mpr fun hreserved => hnot ⟨i, hi, hreserved⟩

/-- `create_mutex` does not fail the assertion of the report. -/
theorem createMutex_abort {p p' : CreatePoint} {s s' : Heap} (h : createMutex p s = some (p', s'))
    (hrunning : s.abort = none) : s'.abort ≠ some .entryIndex := by
  unfold createMutex at h
  split at h
  next => exact absurd h (by simp)
  next => split at h <;> obtain ⟨rfl, rfl⟩ := Prod.mk.inj (Option.some.inj h) <;> simp [hrunning]
  all_goals
    obtain ⟨rfl, rfl⟩ := Prod.mk.inj (Option.some.inj h)
    simp [hrunning]

/-- When the report fails its assertion. -/
theorem print_abort_iff {p p' : ReportPoint} {s s' : Heap} (h : print p s = some (p', s'))
    (hrunning : s.abort = none) :
    s'.abort = some .entryIndex ↔
      ∃ n i, p = .check n i ∧ i < n ∧ (s.syncVars.start i).entryIndex ≠ i := by
  unfold print at h
  split at h
  next =>
    obtain ⟨rfl, rfl⟩ := Prod.mk.inj (Option.some.inj h)
    simp [hrunning]
  next totalSyncVars i =>
    split at h
    next hi =>
      split at h
      next heq =>
        obtain ⟨rfl, rfl⟩ := Prod.mk.inj (Option.some.inj h)
        simp [hrunning, heq]
      next hne =>
        obtain ⟨rfl, rfl⟩ := Prod.mk.inj (Option.some.inj h)
        exact iff_of_true rfl ⟨_, i, rfl, hi, hne⟩
    next hi =>
      obtain ⟨rfl, rfl⟩ := Prod.mk.inj (Option.some.inj h)
      simp [hrunning, hi]
  next => exact absurd h (by simp)

omit [DecidableEq ι] in
/-- The same for an event of a run. -/
theorem not_assertionHolds_iff {x : Event ι Action Local Heap} :
    ¬ AssertionHolds x ↔ ∃ n i, (x.pre.loc x.who).report = some (.check n i) ∧ x.act = .run ∧
      i < n ∧ (x.pre.sh.syncVars.start i).entryIndex ≠ i := by
  simp only [AssertionHolds, mem_checked_iff, not_forall, exists_prop]
  constructor
  · rintro ⟨i, ⟨n, hreport, hact, hlt⟩, hne⟩
    exact ⟨n, i, hreport, hact, hlt, hne⟩
  · rintro ⟨n, i, hreport, hact, hlt, hne⟩
    exact ⟨i, ⟨n, hreport, hact, hlt⟩, hne⟩

/-- The process aborts with the assertion of the report just when it fails. -/
theorem aborts_iff {d e : Config ι Local Heap} {t : ι} {a : Action}
    (h : system.step d t a = some e) :
    e.sh.abort = some .entryIndex ↔ ¬ AssertionHolds ⟨d, t, a⟩ := by
  obtain ⟨l, s, hnext, rfl⟩ := System.step_eq_some.mp h
  have hnext' : next t a (d.loc t) d.sh = some (l, s) := hnext
  have hrunning := running_of_next hnext'
  rw [not_assertionHolds_iff]
  unfold next at hnext'
  rw [hrunning, Option.isSome_none, if_neg Bool.false_ne_true] at hnext'
  split at hnext'
  next hreport =>
    split at hnext'
    next =>
      obtain ⟨rfl, rfl⟩ := Prod.mk.inj (Option.some.inj hnext')
      simp [hrunning]
    next => exact absurd hnext' (by simp)
  next hreport =>
    split at hnext'
    next => exact absurd hnext' (by simp)
    next =>
      obtain ⟨rfl, rfl⟩ := Prod.mk.inj (Option.some.inj hnext')
      simp
  next hreport =>
    obtain ⟨r, hr, heq⟩ := Option.map_eq_some_iff.mp hnext'
    obtain ⟨rfl, rfl⟩ := Prod.mk.inj heq
    exact iff_of_false (createMutex_abort hr hrunning) (by simp [hreport])
  next p hreport =>
    obtain ⟨r, hr, heq⟩ := Option.map_eq_some_iff.mp hnext'
    obtain ⟨rfl, rfl⟩ := Prod.mk.inj heq
    rw [print_abort_iff hr hrunning]
    simp [hreport]
  next => exact absurd hnext' (by simp)

/-- A run ends with the assertion of the report just when it has failed in a step. -/
theorem run_aborts_iff (hinit : Initial c₀) (hrun : Run system c₀ tr c) :
    c.sh.abort = some .entryIndex ↔ ¬ ∀ x ∈ tr, AssertionHolds x := by
  refine hrun.history
    (I := fun tr c => c.sh.abort = some .entryIndex ↔ ¬ ∀ x ∈ tr, AssertionHolds x) ?_ ?_
  · simp [hinit.running]
  · intro tr d t a e ih hs
    obtain ⟨l, s, hnext, -⟩ := System.step_eq_some.mp hs
    have hrunning : d.sh.abort = none := running_of_next (t := t) hnext
    -- the process was running, so that no assertion had failed before
    have hbefore : ∀ x ∈ tr, AssertionHolds x := by
      by_contra hfailed
      have habort := ih.mpr hfailed
      rw [hrunning] at habort
      exact absurd habort (by simp)
    rw [aborts_iff hs]
    simp only [List.mem_append, List.mem_singleton]
    constructor
    · exact fun hfails hall => hfails (hall _ (.inr rfl))
    · intro hfails hlast
      refine hfails fun x hx => ?_
      rcases hx with hx | rfl
      · exact hbefore x hx
      · exact hlast

/-- **The start of the report.**  In every run, every assertion of the report holds and the process
    does not abort with one, just when no entry other than the first is looked at while a thread
    stands between getting that slot and storing its index. -/
theorem report_assertion_iff (hinit : Initial c₀) (hrun : Run system c₀ tr c) :
    ((∀ x ∈ tr, AssertionHolds x) ∧ c.sh.abort ≠ some .entryIndex) ↔
      ∀ x ∈ tr, ¬ ChecksReserved x := by
  have hholds := assertionHolds_iff hinit hrun
  have habort := run_aborts_iff hinit hrun
  constructor
  · rintro ⟨hall, -⟩ x hx
    exact (hholds x hx).mp (hall x hx)
  · intro hnone
    have hall : ∀ x ∈ tr, AssertionHolds x := fun x hx => (hholds x hx).mpr (hnone x hx)
    exact ⟨hall, fun h => habort.mp h hall⟩

/-- **The report is written.**  Once `_cur` was read, the thread that makes the report gets to its
    end when nobody is on the way to store the index of an entry that it has still to look at. -/
theorem report_written {t : ι} {n i : ℕ} (hI : Inv c) (hrunning : c.sh.abort = none)
    (hreport : (c.loc t).report = some (.check n i)) (hi : i ≤ n)
    (hstored : ∀ j, i ≤ j → j < n → j ≠ 0 → ∀ u, ¬ InSlot j (c.loc u)) :
    ∃ tr d, Run system c tr d ∧ (∀ x ∈ tr, x.who = t) ∧ (d.loc t).report = some .written ∧
      d.sh = c.sh := by
  induction k : n - i generalizing c i with
  | zero =>
    have hn : ¬ i < n := by omega
    have hstep : system.step c t .run = some ⟨Function.update c.loc t
        { c.loc t with report := some .written }, c.sh⟩ := by
      refine System.step_eq_some.mpr ⟨_, _, ?_, rfl⟩
      show next t .run (c.loc t) c.sh = _
      unfold next
      rw [hrunning, hreport]
      simp [print, hn]
    refine ⟨_, _, Run.snoc Run.refl hstep, fun x hx => ?_, ?_, rfl⟩
    · rw [List.nil_append, List.mem_singleton] at hx
      rw [hx]
    · simp only [Function.update_self]
  | succ k ih =>
    have hlt : i < n := by omega
    have hcur : i < c.sh.syncVars.cur := hlt.trans_le (hI.reading t n i hreport)
    have hentry : (c.sh.syncVars.start i).entryIndex = i :=
      (hI.entryIndex_iff hcur).mpr fun ⟨h0, u, hu⟩ => hstored i le_rfl hlt h0 u hu
    have hstep : system.step c t .run = some ⟨Function.update c.loc t
        { c.loc t with report := some (.check n (i + 1)) }, c.sh⟩ := by
      refine System.step_eq_some.mpr ⟨_, _, ?_, rfl⟩
      show next t .run (c.loc t) c.sh = _
      unfold next
      rw [hrunning, hreport]
      simp [print, hlt, hentry]
    have hself : ∀ j, InSlot j { c.loc t with report := some (.check n (i + 1)) } →
        InSlot j (c.loc t) := fun j hj => hj
    have hslot : ∀ u j, InSlot j (Function.update c.loc t
        { c.loc t with report := some (.check n (i + 1)) } u) → InSlot j (c.loc u) := fun u =>
      forall_update (P := fun u l => ∀ j, InSlot j l → InSlot j (c.loc u)) hself
        (fun u _ j hj => hj) u
    obtain ⟨tr, d, hrun, hwho, hend, hsame⟩ := ih (Inv.step (fun _ => hI) hstep hrunning) hrunning
      (by simp only [Function.update_self]) hlt
      (fun j hij hjn h0 u hu => hstored j (Nat.le_of_succ_le hij) hjn h0 u (hslot u j hu))
      (by omega)
    refine ⟨_, d, Run.trans (Run.snoc Run.refl hstep) hrun, fun x hx => ?_, hend, hsame⟩
    rcases List.mem_append.mp hx with hx | hx
    · rw [List.nil_append, List.mem_singleton] at hx
      rw [hx]
    · exact hwho x hx

/-! ### Two threads -/

/-- A new pool of four slots, and two threads. -/
def initialized : Config Bool Local Heap where
  loc := fun _ => {}
  sh := { syncVars := ⟨fun _ => {}, 4, 0, by decide⟩ }

/-- A process that has just been initialised. -/
theorem initialized_initial : Initial initialized where
  outside _ := rfl
  cur := by decide
  created i hi := absurd hi (Nat.not_lt_zero i)
  unused _ _ := rfl
  running := rfl

/-- One thread creates a mutex. -/
def creation : List (Bool × Action) := (false, .create) :: List.replicate 3 (false, .run)

/-- Two mutexes are created, then the other thread exits. -/
def exitAfter : List (Bool × Action) :=
  creation ++ creation ++ (true, .exit) :: List.replicate 4 (true, .run)

/-- What the run leads to. -/
def exitAfterEnd := system.execute initialized exitAfter rfl

/-- A report after the only call finds its entry. -/
theorem report_assertion_iff_after :
    (∀ x ∈ exitAfterEnd.1, AssertionHolds x) ∧ exitAfterEnd.2.sh.abort ≠ some .entryIndex :=
  (report_assertion_iff initialized_initial (system.execute_run _ _ _)).mpr (by decide +kernel)

/-- The second creation has got its slot when the other thread exits. -/
def exitDuring : List (Bool × Action) :=
  creation ++ [(false, .create), (false, .run)] ++ (true, .exit) :: List.replicate 3 (true, .run)

/-- What the run leads to. -/
def exitDuringEnd := system.execute initialized exitDuring rfl

/-- **The process aborts** instead of writing the report. -/
theorem exitDuring_aborts :
    Initial initialized ∧ Run system initialized exitDuringEnd.1 exitDuringEnd.2 ∧
      exitDuringEnd.2.sh.syncVars.cur ≤ exitDuringEnd.2.sh.syncVars.total ∧
      exitDuringEnd.2.sh.abort = some .entryIndex :=
  ⟨initialized_initial, system.execute_run _ _ _, by decide +kernel, by decide +kernel⟩

end SyncPerf.ReportStart
