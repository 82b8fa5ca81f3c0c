import SyncPerf.Conflicts

namespace SyncPerf

open Interleaving
open scoped BigOperators

/-!
# The two accounting systems

Lock calls, conflicts and condition waits are counted twice: in the records, for every thread and
every mutex, and in the statistics of the whole process.  The two are incremented at different
places, not all of which are on the same paths.

* `Account` — what is counted, with the counters of both sides;
* `Account.onlyRecorded`, `Account.due` — the steps that the statistics miss, and what an operation
  has counted on one side so far;
* `opStep_balanced` — what each step of an operation does to the difference;
* `recorded` — the sum over all records;
* `recorded_run`, `accounts_agree` — the difference over a run, and when there is none.
-/

/-! ### The accounts -/

/-- What is counted twice. -/
inductive Account
  | locks
  | conflicts
  | condWaits
  deriving DecidableEq

/-- The counter of a record. -/
def Account.counter : Account → Counter
  | .locks => .access
  | .conflicts => .fail
  | .condWaits => .condWaits

/-- The counter of the process. -/
def Stats.get (s : Stats) : Account → ℕ
  | .locks => s.totalLocks
  | .conflicts => s.totalConflicts
  | .condWaits => s.totalCondWaits

/-- The statistics after an increment, if there is one. -/
def Stats.count (s : Stats) : Option Account → Stats
  | some .locks => { s with totalLocks := inc64 s.totalLocks }
  | some .conflicts => { s with totalConflicts := inc64 s.totalConflicts }
  | some .condWaits => { s with totalCondWaits := inc64 s.totalCondWaits }
  | none => s

/-- What one statistic is after an operation has counted. -/
theorem Stats.get_count (s : Stats) (a : Account) (k : Option Account) :
    (s.count k).get a = if k = some a then inc64 (s.get a) else s.get a := by
  rcases k with _ | k
  · rfl
  · cases k <;> cases a <;> rfl

/-- The statistics that a lock operation increments at a program point. -/
def LockPC.account (b : Build) : LockPC → Option Account
  | .stat => match b with
    | .incr => some .locks
    | .noIncr => some .condWaits
  | .conflictStat => some .conflicts
  | _ => none

/-- The statistics that a trylock increments at a program point. -/
def TryPC.account : TryPC → Option Account
  | .stat => some .locks
  | _ => none

/-- The statistics that an operation increments at a program point. -/
def PC.account : PC → Option Account
  | .lock p => p.account .incr
  | .condRelock p => p.account .noIncr
  | .trylock p => p.account
  | _ => none

/-- A step of the lock operation, in both builds. -/
theorem pthreadMutexLock_stats (b : Build) (id : ℕ) (env : Special) (p : LockPC) (c : Cell) :
    (pthreadMutexLock b id env p c).2.stats = c.stats.count (p.account b) := by
  cases p with
  | stat => cases b <;> rfl
  | recCount | cas t | adTry | adRetry cnt maxCnt | assertOwner recursive | errOwner =>
    simp only [pthreadMutexLock]
    split <;> rfl
  | _ => rfl

/-- What a step of a trylock counts. -/
theorem pthreadMutexTrylock_stats (id : ℕ) (env : Special) (p : TryPC) (c : Cell) :
    (pthreadMutexTrylock id env p c).2.stats = c.stats.count p.account := by
  cases p with
  | recCount | cas recursive =>
    simp only [pthreadMutexTrylock]
    split <;> rfl
  | _ => rfl

/-- A step of an unlock counts nothing. -/
theorem pthreadMutexUnlockUsercnt_stats (decr : Bool) (id : ℕ) (env : Special) (p : UnlPC)
    (c : Cell) : (pthreadMutexUnlockUsercnt decr id env p c).2.stats = c.stats := by
  cases p with
  | adaptive type =>
    simp only [pthreadMutexUnlockUsercnt]
    split
    · rfl
    · split <;> rfl
  | recOwner | errOwner | errLocked =>
    simp only [pthreadMutexUnlockUsercnt]
    split <;> rfl
  | _ => rfl

/-- A step of a destroy counts nothing. -/
theorem pthreadMutexDestroy_stats (p : DesPC) (c : Cell) :
    (pthreadMutexDestroy p c).2.stats = c.stats := by
  cases p with
  | nusers =>
    simp only [pthreadMutexDestroy]
    split <;> rfl
  | _ => rfl

/-- **Every step of an operation** increments the statistics that its program point says. -/
theorem opStep_stats (id : ℕ) (ch : Choice) (pc : PC) (c : Cell) :
    (opStep id ch pc c).2.stats = c.stats.count pc.account := by
  cases pc with
  | lock p => exact pthreadMutexLock_stats ..
  | trylock p => exact pthreadMutexTrylock_stats ..
  | unlock p => exact pthreadMutexUnlockUsercnt_stats ..
  | condRelease p => exact pthreadMutexUnlockUsercnt_stats ..
  | condRelock p => exact pthreadMutexLock_stats ..
  | destroy p => exact pthreadMutexDestroy_stats ..
  | condCount | condCountStore v | condBlocked => rfl

/-! ### What the statistics miss -/

/-- The step leads to a count in the record that the statistics do not have: the spin loop of an
    adaptive mutex finds the word taken, a trylock fails, or a thread that was woken in
    `pthread_cond_wait` waits once more. -/
def Account.onlyRecorded (a : Account) (pc : PC) (ch : Choice) (m : MutexData) : Bool :=
  match a, pc with
  | .conflicts, .lock .adTry | .conflicts, .lock (.adRetry _ _) => m.lock ≠ lllLockInitializer
  | .conflicts, .trylock (.cas _) => m.lock ≠ lllLockInitializer
  | .conflicts, .trylock .special => ch.special.code = eBUSY
  | .condWaits, .condBlocked => ch.again
  | _, _ => false

/-- By how much an operation is ahead with the record at a program point, what the statistics miss
    apart. -/
def Account.due (a : Account) (pc : PC) : ℤ :=
  match a, pc with
  | .locks, .lock .access | .locks, .lock (.accessStore _) => -1
  | .locks, .trylock .access | .locks, .trylock (.accessStore _) => -1
  | .conflicts, .lock .conflictStat | .conflicts, .condRelock .conflictStat => 1
  | .conflicts, .lock .adSpins | .conflicts, .lock (.adFail _ _) => -1
  | .conflicts, .lock (.adFailStore _ _ _) => -1
  | .conflicts, .trylock .fail | .conflicts, .trylock (.failStore _) => -1
  | .condWaits, .condBlocked | .condWaits, .condRelock .stat => 1
  | _, _ => 0

/-- The same of a thread that may be in no operation on the mutex. -/
def Account.dueAt (a : Account) : Option PC → ℤ
  | some pc => a.due pc
  | none => 0

/-- One for a condition that holds. -/
def tally (p : Prop) [Decidable p] : ℤ := if p then 1 else 0

/-- What a step counts on one side is what it is ahead afterwards, or what the statistics miss. -/
def Balanced (a : Account) (pc : PC) (ch : Choice) (m : MutexData) (f : Flow PC) : Prop :=
  tally (pc.stores = some a.counter) + a.due pc =
    tally (pc.account = some a) + tally (a.onlyRecorded pc ch m) + a.dueAt (f.target pc)

section Balance

variable {a : Account} {pc : PC} {ch : Choice} {m : MutexData} {f : Flow PC}

/-- A step for which it is known whether the statistics miss it. -/
theorem Balanced.of_missed {missed : Bool} (hmissed : a.onlyRecorded pc ch m = missed)
    (h : tally (pc.stores = some a.counter) + a.due pc =
      tally (pc.account = some a) + tally missed + a.dueAt (f.target pc)) :
    Balanced a pc ch m f := by
  rw [Balanced, hmissed]
  exact h

/-- The test at the end of the body of the spin loop. -/
theorem adCheck_due (a : Account) (cnt : ℕ) (maxCnt : ℤ) :
    a.due (.lock (adCheck cnt maxCnt)) = 0 ∧ a.due (.condRelock (adCheck cnt maxCnt)) = 0 := by
  unfold adCheck
  split <;> cases a <;> exact ⟨rfl, rfl⟩

variable {id : ℕ} {c : Cell}

/-- `pthread_mutex_lock`: the statistics miss what the spin loop records. -/
theorem lock_balanced (p : LockPC) : Balanced a (.lock p) ch c.mutex
    ((pthreadMutexLock .incr id ch.special p c).1.map .lock) := by
  cases p with
  | kind =>
    simp only [pthreadMutexLock, Build.dispatch]
    split <;> cases a <;> rfl
  | recOwner | probe | errOwner | recCount | assertOwner recursive =>
    simp only [pthreadMutexLock]
    repeat' split
    all_goals cases a <;> rfl
  | cas t | wait t =>
    simp only [pthreadMutexLock]
    split <;> cases t <;> cases a <;> rfl
  | adTry | adRetry cnt maxCnt =>
    simp only [pthreadMutexLock]
    split
    · rename_i hfree
      cases a with
      | conflicts => exact .of_missed (decide_eq_false (not_not.mpr hfree)) rfl
      | locks | condWaits => rfl
    · rename_i htaken
      cases a with
      | conflicts => exact .of_missed (decide_eq_true htaken) rfl
      | locks | condWaits => rfl
  | adFailStore cnt maxCnt v =>
    show _ = tally _ + tally _ + a.due (.lock (adCheck cnt maxCnt))
    rw [(adCheck_due a cnt maxCnt).1]
    cases a <;> rfl
  | _ => cases a <;> rfl

/-- `__pthread_mutex_cond_lock`, which records nothing. -/
theorem condRelock_balanced {p : LockPC} (hp : p.counting = false) :
    Balanced a (.condRelock p) ch c.mutex
      ((pthreadMutexLock .noIncr id ch.special p c).1.map .condRelock) := by
  cases p with
  | access | accessStore v | probe | fail | failStore v | adFail cnt maxCnt
  | adFailStore cnt maxCnt v => exact absurd hp (by simp [LockPC.counting])
  | kind =>
    simp only [pthreadMutexLock, Build.dispatch]
    split <;> cases a <;> rfl
  | recOwner | errOwner | recCount | assertOwner recursive | adTry =>
    simp only [pthreadMutexLock]
    repeat' split
    all_goals cases a <;> rfl
  | cas t | wait t =>
    simp only [pthreadMutexLock]
    split <;> cases t <;> cases a <;> rfl
  | adSpins =>
    show _ = tally _ + tally _ + a.due (.condRelock (adCheck _ _))
    rw [(adCheck_due ..).2]
    cases a <;> rfl
  | adRetry cnt maxCnt =>
    simp only [pthreadMutexLock]
    split
    · cases a <;> rfl
    · show _ = tally _ + tally _ + a.due (.condRelock (adCheck cnt maxCnt))
      rw [(adCheck_due ..).2]
      cases a <;> rfl
  | _ => cases a <;> rfl

/-- `pthread_mutex_trylock`: the statistics miss its failures. -/
theorem trylock_balanced (p : TryPC) : Balanced a (.trylock p) ch c.mutex
    ((pthreadMutexTrylock id ch.special p c).1.map .trylock) := by
  cases p with
  | kind =>
    simp only [pthreadMutexTrylock, tryDispatch]
    repeat' split
    all_goals cases a <;> rfl
  | recOwner | recCount | setOwner recursive =>
    simp only [pthreadMutexTrylock]
    split <;> cases a <;> rfl
  | cas recursive =>
    simp only [pthreadMutexTrylock]
    split
    · rename_i hfree
      cases a with
      | conflicts => exact .of_missed (decide_eq_false (not_not.mpr hfree)) rfl
      | locks | condWaits => rfl
    · rename_i htaken
      cases a with
      | conflicts => exact .of_missed (decide_eq_true htaken) rfl
      | locks | condWaits => rfl
  | special =>
    simp only [pthreadMutexTrylock, tryResult]
    split
    · rename_i hbusy
      cases a with
      | conflicts => exact .of_missed (decide_eq_true hbusy) rfl
      | locks | condWaits => rfl
    · rename_i hbusy
      cases a with
      | conflicts => exact .of_missed (decide_eq_false hbusy) rfl
      | locks | condWaits => rfl
  | _ => cases a <;> rfl

/-- An operation that is not part of a lock or of a wait is even at every point. -/
theorem Balanced.even (hstores : pc.stores = none) (haccount : pc.account = none)
    (hmissed : a.onlyRecorded pc ch m = false) (hdue : a.due pc = 0)
    (htarget : a.dueAt (f.target pc) = 0) : Balanced a pc ch m f := by
  rw [Balanced, hstores, haccount, hmissed, hdue, htarget]
  rfl

/-- **Every step of an operation** is balanced. -/
theorem opStep_balanced (hp : pc.Loaded c.record) :
    Balanced a pc ch c.mutex (opStep id ch pc c).1 := by
  cases pc with
  | lock p => exact lock_balanced p
  | trylock p => exact trylock_balanced p
  | condRelock p => exact condRelock_balanced hp
  | unlock p =>
    refine .even rfl rfl (by cases a <;> rfl) (by cases a <;> rfl) ?_
    simp only [opStep]
    cases (pthreadMutexUnlockUsercnt true id ch.special p c).1 <;> cases a <;> rfl
  | destroy p =>
    refine .even rfl rfl (by cases a <;> rfl) (by cases a <;> rfl) ?_
    simp only [opStep]
    cases (pthreadMutexDestroy p c).1 <;> cases a <;> rfl
  | condRelease p =>
    refine .even rfl rfl (by cases a <;> rfl) (by cases a <;> rfl) ?_
    simp only [opStep]
    cases (pthreadMutexUnlockUsercnt false id ch.special p c).1 with
    | ret code =>
      simp only [afterRelease]
      split <;> cases a <;> rfl
    | goto q | abort x => cases a <;> rfl
  | condCount | condCountStore v => cases a <;> rfl
  | condBlocked =>
    -- a thread that waits once more is recorded once more
    simp only [opStep]
    cases hagain : ch.again with
    | false =>
      cases a with
      | condWaits => exact .of_missed hagain rfl
      | locks | conflicts => rfl
    | true =>
      cases a with
      | condWaits => exact .of_missed hagain rfl
      | locks | conflicts => rfl

/-- What a step counts on the two sides, and that it is balanced. -/
theorem opStep_counted {cell : Cell} (a : Account) (hp : pc.Loaded c.record)
    (hop : opStep id ch pc c = (f, cell)) :
    cell.record = c.record.count pc.stores ∧ cell.stats = c.stats.count pc.account ∧
      Balanced a pc ch c.mutex f := by
  have hrecord : (opStep id ch pc c).2.record = c.record.count pc.stores :=
    (opStep_counts hp).record
  have hstats := opStep_stats id ch pc c
  have hbalanced : Balanced a pc ch c.mutex (opStep id ch pc c).1 := opStep_balanced hp
  rw [hop] at hrecord hstats hbalanced
  exact ⟨hrecord, hstats, hbalanced⟩

end Balance

/-! ### Runs -/

/-- The mutexes and threads that have records. -/
@[irreducible] def recordKeys : Finset (ℕ × ℕ) := Finset.range maxSyncEntries ×ˢ Finset.range maxThreads

/-- The records of all mutexes and threads. -/
theorem mem_recordKeys {x : ℕ × ℕ} :
    x ∈ recordKeys ↔ x.1 < maxSyncEntries ∧ x.2 < maxThreads := by
  unfold recordKeys
  exact Finset.mem_product.trans (and_congr Finset.mem_range Finset.mem_range)

/-- The record of a mutex and a thread. -/
def Shared.recordAt (sh : Shared) (x : ℕ × ℕ) : ThreadMutex :=
  sh.threadSyncData (getThreadMutexData x.1 x.2)

/-- The sum of a counter over the records of all mutexes and all threads. -/
def recorded (k : Counter) (sh : Shared) : ℕ := ∑ x ∈ recordKeys, (sh.recordAt x).get k

/-- One record is one of the terms. -/
theorem le_recorded (k : Counter) (sh : Shared) {x : ℕ × ℕ} (hx : x ∈ recordKeys) :
    (sh.recordAt x).get k ≤ recorded k sh :=
  Finset.single_le_sum (f := fun x => (sh.recordAt x).get k) (fun _ _ => Nat.zero_le _) hx

/-- A step of one thread on one mutex changes one record. -/
theorem recordAt_setCell (sh : Shared) {m t : ℕ} (ht : (m, t) ∈ recordKeys) (cell : Cell)
    {x : ℕ × ℕ} (hx : x ∈ recordKeys) :
    (sh.setCell m t cell).recordAt x = Function.update sh.recordAt (m, t) cell.record x := by
  obtain ⟨m', t'⟩ := x
  obtain ⟨hm', ht'⟩ := mem_recordKeys.mp hx
  obtain ⟨hm, ht⟩ := mem_recordKeys.mp ht
  simp only [Shared.recordAt, Shared.setCell]
  by_cases heq : (m', t') = (m, t)
  · obtain ⟨rfl, rfl⟩ := Prod.mk.inj heq
    rw [Function.update_self, Function.update_self]
  · -- another record has another address
    have haddr : getThreadMutexData m' t' ≠ getThreadMutexData m t := by
      intro h
      obtain ⟨rfl, rfl⟩ := getThreadMutexData_inj hm' ht' hm ht h
      exact heq rfl
    rw [Function.update_of_ne haddr, Function.update_of_ne heq]
    rfl

/-- So the sum changes by what this record does. -/
theorem recorded_setCell (k : Counter) (sh : Shared) {m t : ℕ} (hkey : (m, t) ∈ recordKeys)
    (cell : Cell) : recorded k (sh.setCell m t cell) + (sh.cell m t).record.get k =
      cell.record.get k + recorded k sh := by
  have hterms : recorded k (sh.setCell m t cell) =
      ∑ x ∈ recordKeys, (Function.update sh.recordAt (m, t) cell.record x).get k :=
    Finset.sum_congr rfl fun x hx => by rw [recordAt_setCell sh hkey cell hx]
  rw [hterms]
  exact MapTotals.sum_update (fun r : ThreadMutex => r.get k) sh.recordAt hkey cell.record

/-- What the records are ahead of the statistics. -/
def Shared.difference (sh : Shared) (a : Account) : ℤ :=
  (recorded a.counter sh : ℤ) - sh.stats.get a

/-- What a thread's operation is ahead. -/
def Local.due (l : Local) (a : Account) : ℤ :=
  match l.cur with
  | some (_, pc) => a.due pc
  | none => 0

/-- What the operation is ahead with after a step. -/
theorem Local.due_after {l : Local} {m : ℕ} {pc : PC} (h : l.cur = some (m, pc)) (a : Account)
    (f : Flow PC) : (l.after m pc f).due a = a.dueAt (f.target pc) := by
  cases f with
  | goto pc' | ret code => rfl
  | abort x =>
    show l.due a = a.due pc
    rw [Local.due, h]

variable {ι : Type}

/-- The step is one that the statistics miss. -/
def OnlyRecorded (a : Account) (x : Event ι Action Local Shared) : Bool :=
  match x.act, (x.pre.loc x.who).cur with
  | .step ch, some (m, pc) => a.onlyRecorded pc ch (x.pre.sh.mutexes m)
  | _, _ => false

/-- The step wraps no counter of the process around. -/
def NoStatWrap (x : Event ι Action Local Shared) : Bool :=
  match x.act, (x.pre.loc x.who).cur with
  | .step _, some (_, pc) =>
    match pc.account with
    | some a => x.pre.sh.stats.get a + 1 < 2 ^ 64
    | none => true
  | _, _ => true

/-- Without wrapping, an increment is one more. -/
theorem get_count_of_lt {a : Account} {pc : PC} {r : ThreadMutex} {s : Stats}
    (hr : ∀ k, pc.stores = some k → r.get k + 1 < 2 ^ 32)
    (hs : ∀ a, pc.account = some a → s.get a + 1 < 2 ^ 64) :
    ((r.count pc.stores).get a.counter : ℤ) = r.get a.counter + tally (pc.stores = some a.counter) ∧
      ((s.count pc.account).get a : ℤ) = s.get a + tally (pc.account = some a) := by
  rw [ThreadMutex.get_count, Stats.get_count]
  constructor
  · by_cases h : pc.stores = some a.counter
    · rw [if_pos h, inc32_eq (hr _ h), tally, if_pos h]
      push_cast
      rfl
    · rw [if_neg h, tally, if_neg h, add_zero]
  · by_cases h : pc.account = some a
    · rw [if_pos h, inc64, Nat.mod_eq_of_lt (hs a h), tally, if_pos h]
      push_cast
      rfl
    · rw [if_neg h, tally, if_neg h, add_zero]

variable [DecidableEq ι]

/-- **One step** of the machine changes the difference by what the statistics miss, and by what the
    thread is ahead afterwards. -/
theorem difference_step {tid : ι ↪ Tid} {c₀ c d : Config ι Local Shared}
    {tr : List (Event ι Action Local Shared)} (hinit : Initial c₀)
    (hrun : Run (machine tid) c₀ tr c) {i : ι} {act : Action}
    (hstep : (machine tid).step c i act = some d) (hwrap : NoWrap ⟨c, i, act⟩)
    (hstat : NoStatWrap ⟨c, i, act⟩) (a : Account) :
    d.sh.difference a + (c.loc i).due a =
      c.sh.difference a + tally (OnlyRecorded a ⟨c, i, act⟩) + (d.loc i).due a := by
  have hI := IndexInv.run hinit hrun
  have hcurrent : ∀ m, m < maxSyncEntries →
      LoadedAt (c.sh.record (c.loc i) m) ((c.loc i).view m).pc := fun m hm =>
    (RecordInv.run hinit hrun i hm).loaded
  obtain ⟨l, s, hnext, rfl⟩ := System.step_eq_some.mp hstep
  obtain ⟨-, hcase⟩ := next_eq_some hnext
  have hself : (⟨Function.update c.loc i l, s⟩ : Config ι Local Shared).loc i = l :=
    Function.update_self ..
  rw [hself]
  have hlt := hI.lt i
  have hcur' := hI.cur i
  generalize hl : c.loc i = li at hcase hlt hcur' hcurrent ⊢
  cases hcase with
  | start hidx hx | join hx =>
    simp only [OnlyRecorded, tally, Bool.false_eq_true, if_false, add_zero]
    rfl
  | @call m idx op hidx hcur hm =>
    have hentry : a.due op.entry = 0 := by cases op <;> cases a <;> rfl
    have hidle : li.due a = 0 := by rw [Local.due, hcur]
    show _ = _ + a.due op.entry
    rw [hidle, hentry]
    simp [OnlyRecorded, tally]
  | @step idx m pc ch f cell hidx hcur hop =>
    have hkey : (m, idx) ∈ recordKeys :=
      mem_recordKeys.mpr ⟨hcur' m pc hcur, (hlt idx hidx).trans_le hI.le⟩
    have hload : pc.Loaded (c.sh.cell m idx).record := by
      have hat := hcurrent m (hcur' m pc hcur) pc (by rw [Local.view_of_cur hcur])
      rwa [Shared.record_of_index hidx] at hat
    have hmissed : OnlyRecorded a ⟨c, i, .step ch⟩ = a.onlyRecorded pc ch (c.sh.mutexes m) := by
      simp only [OnlyRecorded, hl, hcur]
    have hrecord : ∀ k, pc.stores = some k → (c.sh.cell m idx).record.get k + 1 < 2 ^ 32 := by
      intro k hk
      simp only [NoWrap, hl, hcur, hk, Shared.record_of_index hidx] at hwrap
      exact hwrap
    have hstats : ∀ b, pc.account = some b → c.sh.stats.get b + 1 < 2 ^ 64 := by
      intro b hb
      simp only [NoStatWrap, hl, hcur, hb] at hstat
      exact of_decide_eq_true hstat
    -- what the step counts on each side
    obtain ⟨hcount, hcount'⟩ := get_count_of_lt (a := a) hrecord hstats
    obtain ⟨hcellRecord, hcellStats, hbalanced⟩ :
        cell.record = (c.sh.cell m idx).record.count pc.stores ∧
          cell.stats = c.sh.stats.count pc.account ∧ Balanced a pc ch (c.sh.mutexes m) f :=
      opStep_counted a hload hop
    have hsum := recorded_setCell a.counter c.sh hkey cell
    have hbefore : li.due a = a.due pc := by rw [Local.due, hcur]
    rw [Local.due_after hcur, hbefore, hmissed]
    rw [hcellRecord] at hsum
    show (recorded a.counter (c.sh.setCell m idx cell) : ℤ) - cell.stats.get a + _ = _
    rw [hcellStats, hcount', Shared.difference]
    unfold Balanced at hbalanced
    omega

/-- A sum of ones is a number of elements. -/
theorem sum_tally {α : Type} (p : α → Bool) (l : List α) :
    (l.map fun x => tally (p x)).sum = l.countP p := by
  induction l with
  | nil => rfl
  | cons x l ih =>
    rw [List.map_cons, List.sum_cons, ih, List.countP_cons]
    cases p x <;> simp [tally, add_comm]

/-- **The difference over a run.**  When no call is in progress and no counter has wrapped around,
    the records are ahead of the statistics by the steps that the statistics miss. -/
theorem recorded_run {tid : ι ↪ Tid} {c₀ c : Config ι Local Shared}
    {tr : List (Event ι Action Local Shared)} (hinit : Initial c₀)
    (hrun : Run (machine tid) c₀ tr c) (hidle : ∀ i, (c.loc i).cur = none)
    (hwrap : ∀ x ∈ tr, NoWrap x) (hstat : ∀ x ∈ tr, NoStatWrap x) (a : Account) :
    recorded a.counter c.sh = c.sh.stats.get a + tr.countP (OnlyRecorded a) := by
  have hledger := hrun.ledger (fun sh => sh.difference a) (fun l => l.due a)
    (fun x => tally (OnlyRecorded a x)) (J := (tr.map Event.who).toFinset)
    (fun x hx => List.mem_toFinset.mpr (List.mem_map_of_mem hx)) fun x hx d hd => by
      obtain ⟨tr', hpre⟩ := hrun.pre x hx
      exact difference_step hinit hpre hd (hwrap x hx) (hstat x hx) a
  -- nobody is in a call at the start or at the end
  have hzero : ∀ l : Local, l.cur = none → l.due a = 0 := fun l hl => by rw [Local.due, hl]
  have hfirst : ∀ j, (c₀.loc j).due a = 0 := fun j => hzero _ (by rw [hinit.loc])
  have hlast : ∀ j, (c.loc j).due a = 0 := fun j => hzero _ (hidle j)
  -- and all counters were zero
  have hstart : c₀.sh.difference a = 0 := by
    have hrecords : recorded a.counter c₀.sh = 0 := by
      refine Finset.sum_eq_zero fun x _ => ?_
      rw [Shared.recordAt, hinit.records]
      cases a <;> rfl
    rw [Shared.difference, hrecords, hinit.stats]
    cases a <;> rfl
  simp only [hfirst, hlast, Finset.sum_const_zero, hstart, sum_tally] at hledger
  rw [Shared.difference] at hledger
  omega

/-- The two accounting systems agree. -/
structure Agree (sh : Shared) : Prop where
  locks : sh.stats.totalLocks = recorded .access sh
  conflicts : sh.stats.totalConflicts = recorded .fail sh
  condWaits : sh.stats.totalCondWaits = recorded .condWaits sh

/-- **When the two accounting systems agree.**  In every run, when no call is in progress and no
    counter has wrapped around, the lock calls agree; and so do the conflicts and the condition
    waits exactly when no attempt of the spin loop has found the lock word taken, no trylock has
    failed, and no thread that was woken in `pthread_cond_wait` has waited once more. -/
theorem accounts_agree {tid : ι ↪ Tid} {c₀ c : Config ι Local Shared}
    {tr : List (Event ι Action Local Shared)} (hinit : Initial c₀)
    (hrun : Run (machine tid) c₀ tr c) (hidle : ∀ i, (c.loc i).cur = none)
    (hwrap : ∀ x ∈ tr, NoWrap x) (hstat : ∀ x ∈ tr, NoStatWrap x) :
    c.sh.stats.totalLocks = recorded .access c.sh ∧
      (Agree c.sh ↔ ∀ x ∈ tr, ∀ a, OnlyRecorded a x = false) := by
  have hall := recorded_run hinit hrun hidle hwrap hstat
  -- no step of a run is missed by the count of the lock calls
  have hlocks : tr.countP (OnlyRecorded .locks) = 0 := by
    rw [List.countP_eq_zero]
    intro x _
    unfold OnlyRecorded
    split
    · exact Bool.false_ne_true
    · exact Bool.false_ne_true
  have hnone : ∀ a, tr.countP (OnlyRecorded a) = 0 ↔ ∀ x ∈ tr, OnlyRecorded a x = false := by
    intro a
    simp only [List.countP_eq_zero, Bool.not_eq_true]
  have hlocks' := hall .locks
  have hconflicts := hall .conflicts
  have hwaits := hall .condWaits
  simp only [Stats.get, Account.counter] at hlocks' hconflicts hwaits
  refine ⟨by omega, fun hagree x hx a => ?_, fun hno => ?_⟩
  · cases a with
    | locks => exact (hnone .locks).mp hlocks x hx
    | conflicts =>
      have := hagree.conflicts
      exact (hnone .conflicts).mp (by omega) x hx
    | condWaits =>
      have := hagree.condWaits
      exact (hnone .condWaits).mp (by omega) x hx
  · have hc := (hnone .conflicts).mpr fun x hx => hno x hx .conflicts
    have hw := (hnone .condWaits).mpr fun x hx => hno x hx .condWaits
    exact ⟨by omega, by omega, by omega⟩

/-- Records and statistics after two locks. -/
theorem accounts_agree_bothLock : Agree bothLockEnd.2.sh := by
  have hrun : Run (machine pairTid) pairStart bothLockEnd.1 bothLockEnd.2 :=
    System.execute_run _ _ _ _
  have hseen : ∀ x ∈ bothLockEnd.1, NoWrap x ∧ NoStatWrap x ∧ OnlyRecorded .locks x = false ∧
      OnlyRecorded .conflicts x = false ∧ OnlyRecorded .condWaits x = false := by decide +kernel
  refine (accounts_agree pairStart_initial hrun (by decide +kernel) (fun x hx => (hseen x hx).1)
    fun x hx => (hseen x hx).2.1).2.mpr fun x hx a => ?_
  obtain ⟨-, -, hlocks, hconflicts, hwaits⟩ := hseen x hx
  cases a with
  | locks => exact hlocks
  | conflicts => exact hconflicts
  | condWaits => exact hwaits

/-- One thread locks a mutex, the other one tries it in vain, and the first one waits on a condition
    variable, where it is woken twice. -/
def unseen : List (Bool × Action) :=
  List.flatten [pairSetup, [(false, .call 0 .lock)], List.replicate 10 (false, .step {}),
    [(true, .call 0 .trylock)], List.replicate 9 (true, .step {}), [(false, .call 0 .condWait)],
    List.replicate 5 (false, .step {}), [(false, .step { again := true })],
    List.replicate 8 (false, .step {})]

/-- What the run leads to. -/
def unseenEnd := (machine pairTid).execute pairStart unseen (by decide +kernel)

/-- **The two disagree**: a conflict and a condition wait more are recorded. -/
theorem unseen_disagree :
    Initial pairStart ∧ Run (machine pairTid) pairStart unseenEnd.1 unseenEnd.2 ∧
      (∀ i, (unseenEnd.2.loc i).cur = none) ∧
      (∀ x ∈ unseenEnd.1, NoWrap x ∧ NoStatWrap x) ∧
      unseenEnd.2.sh.stats = ⟨2, 1, 0⟩ ∧ 1 ≤ recorded .fail unseenEnd.2.sh ∧
      2 ≤ recorded .condWaits unseenEnd.2.sh ∧ ¬ Agree unseenEnd.2.sh := by
  have hstats : unseenEnd.2.sh.stats = ⟨2, 1, 0⟩ := by decide +kernel
  have hkey : ∀ t < 2, (0, t) ∈ recordKeys := fun t ht =>
    mem_recordKeys.mpr ⟨show 0 < maxSyncEntries by decide, ht.trans (by decide)⟩
  have hfail : (unseenEnd.2.sh.recordAt (0, 1)).get .fail = 1 := by decide +kernel
  have hwaits : (unseenEnd.2.sh.recordAt (0, 0)).get .condWaits = 2 := by decide +kernel
  have hfail' := le_recorded .fail unseenEnd.2.sh (hkey 1 (by decide))
  have hwaits' := le_recorded .condWaits unseenEnd.2.sh (hkey 0 (by decide))
  rw [hfail] at hfail'
  rw [hwaits] at hwaits'
  refine ⟨pairStart_initial, System.execute_run _ _ _ _, by decide +kernel, by decide +kernel, hstats,
    hfail', hwaits', fun hagree => ?_⟩
  have hconflicts := hagree.conflicts
  rw [hstats] at hconflicts
  simp only at hconflicts
  omega

end SyncPerf
