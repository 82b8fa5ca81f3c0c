import SyncPerf.Contention

namespace SyncPerf

open Interleaving

/-!
# The report of a run

What the totals and lists of the report say about the steps of the run that it ends.

* `PC.counts`, `isCounted` — the events that the four counters of a record count;
* `PC.uncounted`, `opStep_met` — an event that is not stored yet;
* `counter_run`, `report_totals` — the totals are the numbers of events;
* `report_of_run` — the lists are what these numbers decide.
-/

/-! ### What is counted -/

/-- The places at which a lock finds that the mutex is contended: waiters are announced when an
    error checking or normal mutex is probed, `lll_trylock` has failed on an adaptive one, or it
    fails again in the spin loop. -/
def LockPC.contended (m : MutexData) : LockPC → Bool
  | .probe => m.lock = lllLockInitializerWaiters
  | .adSpins => true
  | .adRetry _ _ => m.lock ≠ lllLockInitializer
  | _ => false

/-- The places from which a trylock returns `EBUSY`. -/
def TryPC.busy (m : MutexData) (env : Special) : TryPC → Bool
  | .cas _ => m.lock ≠ lllLockInitializer
  | .special => env.code = eBUSY
  | _ => false

/-- The places at which the release of a mutex in `pthread_cond_wait` succeeds. -/
def UnlPC.released (env : Special) : UnlPC → Bool
  | .word => true
  | .recCountStore v => v ≠ 1
  | .special => env.code = 0
  | .type | .recursive _ | .adaptive _ | .recOwner | .recCount | .errOwner | .errLocked | .owner |
    .nusers | .nusersStore _ => false

/-- The steps of an operation that counter `k` counts; accesses are counted by calls. -/
def PC.counts (k : Counter) (m : MutexData) (ch : Choice) : PC → Bool
  | .lock p => k = .fail ∧ p.contended m
  | .trylock p => (k = .fail ∨ k = .trylockFail) ∧ p.busy m ch.special
  | .condRelease p => k = .condWaits ∧ p.released ch.special
  | .condBlocked => k = .condWaits ∧ ch.again
  | _ => false

variable {ι : Type}

/-- The step is an event on `m` that counter `k` counts: a call of `pthread_mutex_lock` or
    `pthread_mutex_trylock`, a probe of a lock that finds waiters announced (on an adaptive mutex an
    attempt that fails) or a trylock that finds the mutex taken, a futex wait of
    `pthread_cond_wait`, or a trylock that fails. -/
def isCounted (k : Counter) (m : ℕ) (x : Event ι Action Local Shared) : Bool :=
  match k, x.act, (x.pre.loc x.who).cur with
  | .access, _, _ => isAccess m x
  | k, .step ch, some (m', pc) => m' = m ∧ pc.counts k (x.pre.sh.mutexes m) ch
  | _, _, _ => false

/-! ### What is still to be stored -/

/-- A lock has met a conflict and not stored it yet. -/
def LockPC.failing : LockPC → Bool
  | .fail | .failStore _ | .adFail _ _ | .adFailStore _ _ _ => true
  | _ => false

/-- A trylock has found the word taken and not stored the conflict yet. -/
def TryPC.failing : TryPC → Bool
  | .fail | .failStore _ => true
  | _ => false

/-- It has not stored its failure yet. -/
def TryPC.tryFailing : TryPC → Bool
  | .fail | .failStore _ | .trylockFail | .trylockFailStore _ => true
  | _ => false

/-- The thread has met an event that counter `k` counts, and has not stored it yet. -/
def PC.uncounted (k : Counter) : PC → Bool
  | .lock p => k = .fail ∧ p.failing
  | .trylock p => k = .fail ∧ p.failing ∨ k = .trylockFail ∧ p.tryFailing
  | .condCount | .condCountStore _ => k = .condWaits
  | _ => false

/-- The number of events that are still to be stored. -/
def uncountedAt (k : Counter) (pc : Option PC) : ℕ :=
  match pc with
  | some pc => (pc.uncounted k).toNat
  | none => 0

/-- **A step of a lock** stores the events that it or an earlier step has met. -/
theorem pthreadMutexLock_met (id : ℕ) (env : Special) {p : LockPC} (c : Cell) :
    uncountedAt .fail (((pthreadMutexLock .incr id env p c).1.target p).map .lock) +
        (if p.stores = some .fail then 1 else 0) =
      p.failing.toNat + (p.contended c.mutex).toNat := by
  cases p with
  | adFailStore cnt maxCnt v =>
    simp only [pthreadMutexLock, adCheck]
    split <;> rfl
  | cas t | wait t =>
    simp only [pthreadMutexLock]
    split <;> cases t <;> rfl
  | kind =>
    simp only [pthreadMutexLock, Build.dispatch]
    split <;> rfl
  | _ =>
    simp only [pthreadMutexLock]
    repeat' split
    all_goals
      simp_all [Flow.target, uncountedAt, PC.uncounted, LockPC.failing, LockPC.contended,
        LockPC.stores, lllLockInitializerWaiters, Build.adBody]

theorem eBUSY_ne : (0 : ℕ) ≠ eBUSY ∧ eAGAIN ≠ eBUSY ∧ eINVAL ≠ eBUSY := by decide

/-- A step of a trylock, likewise, for both counters. -/
theorem pthreadMutexTrylock_met (id : ℕ) (env : Special) {p : TryPC} (c : Cell) {k : Counter}
    (hk : k = .fail ∨ k = .trylockFail) :
    uncountedAt k (((pthreadMutexTrylock id env p c).1.target p).map .trylock) +
        (if p.stores = some k then 1 else 0) =
      ((PC.trylock p).uncounted k).toNat + (p.busy c.mutex env).toNat := by
  obtain ⟨h0, hagain, hinval⟩ := eBUSY_ne
  cases p with
  | kind =>
    have hstores : ¬ TryPC.kind.stores = some k := by simp [TryPC.stores]
    simp only [pthreadMutexTrylock, tryDispatch, tryResult, if_neg hinval, if_neg hstores]
    rcases hk with rfl | rfl <;> repeat' split
    all_goals rfl
  | special =>
    simp only [pthreadMutexTrylock, tryResult, TryPC.busy]
    rcases hk with rfl | rfl <;> split <;> simp_all [Flow.target, uncountedAt, PC.uncounted,
      TryPC.failing, TryPC.tryFailing, TryPC.stores]
  | _ =>
    simp only [pthreadMutexTrylock, tryResult, if_neg h0, if_neg hagain]
    rcases hk with rfl | rfl <;> repeat' split
    all_goals
      simp_all [Flow.target, uncountedAt, PC.uncounted, TryPC.failing, TryPC.tryFailing,
        TryPC.busy, TryPC.stores]

theorem unlDispatch_ne_zero (kind : BitVec 32) : unlDispatch kind ≠ .ret 0 := by
  unfold unlDispatch
  simp only
  generalize pthreadMutexTypeElision kind = type
  generalize switchKind (pthreadMutexType kind) = case
  split
  · split
    · exact fun h => by cases h
    · decide
  · split
    · exact fun h => by cases h
    · split <;> exact fun h => by cases h

/-- The release of a mutex in `pthread_cond_wait` succeeds from these places. -/
theorem pthreadMutexUnlockUsercnt_released (id : ℕ) (env : Special) (p : UnlPC) (c : Cell) :
    ((pthreadMutexUnlockUsercnt false id env p c).1 = .ret 0) ↔ p.released env = true := by
  cases p with
  | type => simp [pthreadMutexUnlockUsercnt, unlDispatch_ne_zero, UnlPC.released]
  | recCountStore v =>
    have hone : v - 1 = 0 ↔ v = 1 := ⟨fun h => by bv_omega, fun h => by bv_omega⟩
    simp only [pthreadMutexUnlockUsercnt, UnlPC.released, ne_eq, hone]
    split <;> simp_all
  | _ =>
    simp only [pthreadMutexUnlockUsercnt, UnlPC.released]
    repeat' split
    all_goals simp [ePERM]

/-- The release of a mutex in `pthread_cond_wait`, as a step of the wait. -/
theorem condRelease_met (id : ℕ) (env : Special) (p : UnlPC) (c : Cell) {k : Counter} :
    uncountedAt k ((afterRelease (pthreadMutexUnlockUsercnt false id env p c).1).target
        (.condRelease p)) = (decide (k = .condWaits ∧ p.released env)).toNat := by
  have hreleased := pthreadMutexUnlockUsercnt_released id env p c
  cases hr : (pthreadMutexUnlockUsercnt false id env p c).1 with
  | ret code =>
    rw [hr] at hreleased
    by_cases hcode : code = 0
    · simp_all [afterRelease, Flow.target, uncountedAt, PC.uncounted]
    · simp_all [afterRelease, Flow.target, uncountedAt]
  | goto q =>
    rw [hr] at hreleased
    simp_all [afterRelease, Flow.target, uncountedAt, PC.uncounted]
  | abort x =>
    rw [hr] at hreleased
    simp_all [afterRelease, Flow.target, uncountedAt, PC.uncounted]

/-- **A step of an operation** stores the events that it or an earlier step has met. -/
theorem opStep_met {id : ℕ} {ch : Choice} {pc : PC} {c : Cell} {k : Counter}
    (hk : k ≠ .access) :
    uncountedAt k ((opStep id ch pc c).1.target pc) + (if pc.stores = some k then 1 else 0) =
      (pc.uncounted k).toNat + (pc.counts k c.mutex ch).toNat := by
  cases pc with
  | lock p =>
    simp only [opStep, Flow.target_map]
    by_cases hfail : k = .fail
    · subst hfail
      have hmet : (PC.lock p).uncounted .fail = p.failing := by simp [PC.uncounted]
      have hcounts : (PC.lock p).counts .fail c.mutex ch = p.contended c.mutex := by
        simp [PC.counts]
      rw [hmet, hcounts]
      exact pthreadMutexLock_met id ch.special c
    · -- a lock meets and stores nothing else
      have hstores : ¬ p.stores = some k := by
        cases p <;> simp [LockPC.stores, Ne.symm hk, Ne.symm hfail]
      cases (pthreadMutexLock .incr id ch.special p c).1 <;>
        simp [Flow.target, uncountedAt, PC.uncounted, PC.counts, PC.stores, hfail, hstores]
  | trylock p =>
    simp only [opStep, Flow.target_map]
    by_cases hboth : k = .fail ∨ k = .trylockFail
    · have hcounts : (PC.trylock p).counts k c.mutex ch = p.busy c.mutex ch.special := by
        simp [PC.counts, hboth]
      rw [hcounts]
      exact pthreadMutexTrylock_met id ch.special c hboth
    · have hfail : k ≠ .fail := fun h => hboth (.inl h)
      have htry : k ≠ .trylockFail := fun h => hboth (.inr h)
      have hstores : ¬ p.stores = some k := by
        cases p <;> simp [TryPC.stores, Ne.symm hk, Ne.symm hfail, Ne.symm htry]
      cases (pthreadMutexTrylock id ch.special p c).1 <;>
        simp [Flow.target, uncountedAt, PC.uncounted, PC.counts, PC.stores, hfail, htry, hstores]
  | unlock p =>
    simp only [opStep, Flow.target_map]
    cases (pthreadMutexUnlockUsercnt true id ch.special p c).1 <;> rfl
  | condRelease p =>
    have h := condRelease_met id ch.special p c (k := k)
    simpa [opStep, PC.uncounted, PC.counts, PC.stores] using h
  | condCount => cases k <;> rfl
  | condCountStore v => cases k <;> rfl
  | condBlocked =>
    simp only [opStep, PC.counts, PC.uncounted, PC.stores]
    cases ch.again <;> cases k <;> rfl
  | condRelock p =>
    simp only [opStep, Flow.target_map]
    cases (pthreadMutexLock .noIncr id ch.special p c).1 <;> rfl
  | destroy p =>
    simp only [opStep, Flow.target_map]
    cases (pthreadMutexDestroy p c).1 <;> rfl

/-! ### One record -/

section Runs

variable [DecidableEq ι]

/-- That event is one of thread `j`. -/
def isCountedBy (k : Counter) (j : ι) (m : ℕ) (x : Event ι Action Local Shared) : Bool :=
  x.who = j ∧ isCounted k m x

/-- Which events those of a step are. -/
theorem isCountedBy_step {k : Counter} (hk : k ≠ .access) {tid : ι ↪ Tid} {j : ι} {m : ℕ}
    {x : Event ι Action Local Shared} {pc : PC} {cell cell' : Cell} {f : Flow PC} {ch : Choice}
    (h : OpEvent tid j m x pc cell f cell') (hact : x.act = .step ch) :
    isCountedBy k j m x = pc.counts k cell.mutex ch := by
  have hcur := Local.cur_of_view h.at_pc
  obtain rfl := h.who
  rw [h.mutex]
  cases k with
  | access => exact absurd rfl hk
  | _ => simp [isCountedBy, isCounted, hact, hcur]

omit [DecidableEq ι] in
/-- An event on `m` is a call on it, or a step of one. -/
theorem isCounted_on {k : Counter} {m : ℕ} {x : Event ι Action Local Shared}
    (h : isCounted k m x = true) : x.act.on (x.pre.loc x.who) m := by
  unfold isCounted at h
  split at h
  · exact isAccess_on h _
  · rename_i hact hcur
    rw [hact]
    simp only [Bool.decide_and, Bool.decide_eq_true, Bool.and_eq_true, decide_eq_true_eq] at h
    simp [Action.on, Local.view, hcur, h.1]
  · exact absurd h (by simp)

/-- **One record.**  A counter, with the event of a call in progress that is still to be stored, is
    the number of its events, modulo `2 ^ 32`. -/
theorem counter_run {tid : ι ↪ Tid} {c d : Config ι Local Shared}
    {tr : List (Event ι Action Local Shared)} (hinit : Initial c)
    (hrun : Run (machine tid) c tr d) (j : ι) {m : ℕ} (hm : m < maxSyncEntries) {k : Counter}
    (hk : k ≠ .access) :
    ((d.sh.record (d.loc j) m).get k + uncountedAt k ((d.loc j).view m).pc) % 2 ^ 32 =
      tr.countP (isCountedBy k j m) % 2 ^ 32 := by
  refine (record_run (.initial hinit j m) hrun hm (I := fun tr pc r =>
    (r.get k + uncountedAt k pc) % 2 ^ 32 = tr.countP (isCountedBy k j m) % 2 ^ 32)
    ?_ ?_ ?_ ?_).2
  · rw [hinit.loc]
    cases k <;> rfl
  · intro tr x pc r hnot ih
    have hno : isCountedBy k j m x = false := by
      by_contra hyes
      obtain ⟨rfl, hcounted⟩ := of_decide_eq_true (eq_true_of_ne_false hyes)
      exact hnot rfl (isCounted_on hcounted)
    rw [List.countP_append, List.countP_singleton, hno]
    exact ih
  · intro tr x op r hwho hact ih
    -- a call has met nothing yet
    have hentry : uncountedAt k (some op.entry) = 0 := by
      cases op <;> simp [uncountedAt, Op.entry, PC.uncounted, LockPC.failing, TryPC.failing,
        TryPC.tryFailing]
    have hno : isCountedBy k j m x = false := by
      cases k <;> first | exact absurd rfl hk | simp [isCountedBy, isCounted, hact]
    rw [List.countP_append, List.countP_singleton, hentry, hno]
    exact ih
  · intro tr x pc cell f cell' _ hev ih
    obtain ⟨ch, hact, hop⟩ := hev.step
    have hcounted := @opStep_met (tid j).val ch pc cell k hk
    rw [hop] at hcounted
    have hrec : cell'.record = cell.record.count pc.stores := hev.counts.record
    have hat : uncountedAt k (some pc) = (pc.uncounted k).toNat := rfl
    rw [List.countP_append, List.countP_singleton, isCountedBy_step hk hev hact, hrec,
      ThreadMutex.get_count]
    rw [hat] at ih
    have hbool : ∀ b : Bool, (if b = true then 1 else 0) = b.toNat := by decide
    rw [hbool]
    simp only at hcounted
    by_cases hstores : pc.stores = some k
    · simp only [hstores, if_true, inc32] at hcounted ⊢
      omega
    · simp only [if_neg hstores] at hcounted ⊢
      omega

/-! ### The totals -/

/-- A call, or a step of one, is made with an index. -/
theorem on_index {tid : ι ↪ Tid} {c d : Config ι Local Shared} {i : ι} {a : Action} {m : ℕ}
    (h : (machine tid).step c i a = some d) (hon : a.on (c.loc i) m) :
    ∃ t, (c.loc i).index = some t := by
  obtain ⟨l, s, hnext, rfl⟩ := System.step_eq_some.mp h
  have hnext' : next (tid i).val a (c.loc i) c.sh = some (l, s) := hnext
  obtain ⟨-, hcase⟩ := next_eq_some hnext'
  generalize c.loc i = li at hcase hon
  cases hcase with
  | start hidx h => exact hon.elim
  | join h => exact hon.elim
  | call hidx hcur hm => exact ⟨_, hidx⟩
  | step hidx hcur h => exact ⟨_, hidx⟩

/-- When the thread is in no operation, everything is stored. -/
theorem counter_idle {tid : ι ↪ Tid} {c d : Config ι Local Shared}
    {tr : List (Event ι Action Local Shared)} (hinit : Initial c)
    (hrun : Run (machine tid) c tr d) {j : ι} (hidle : (d.loc j).cur = none) {m : ℕ}
    (hm : m < maxSyncEntries) (k : Counter) :
    (d.sh.record (d.loc j) m).get k % 2 ^ 32 = tr.countP (isCountedBy k j m) % 2 ^ 32 := by
  by_cases hk : k = .access
  · subst hk
    have hone := access_run hinit hrun j hm
    rw [Local.view_of_none hidle] at hone
    exact hone
  · have hone := counter_run hinit hrun j hm hk
    rw [Local.view_of_none hidle] at hone
    exact hone

/-- The sum of a counter over the records of a mutex. -/
theorem exactCount_run {tid : ι ↪ Tid} {c₀ c : Config ι Local Shared}
    {tr : List (Event ι Action Local Shared)} (hinit : Initial c₀)
    (hrun : Run (machine tid) c₀ tr c) (hidle : ∀ i, (c.loc i).cur = none) {m : ℕ}
    (hm : m < maxSyncEntries) (k : Counter) :
    Report.exactCount k (fun t => c.sh.threadSyncData (getThreadMutexData m t))
        c.sh.xthread.threadIndex % 2 ^ 32 = tr.countP (isCounted k m) % 2 ^ 32 := by
  have hI := IndexInv.run hinit hrun
  -- every event was met with one of the indices that were handed out
  have hindexed : ∀ x ∈ tr, isCounted k m x → ∃ t < c.sh.xthread.threadIndex,
      (c.loc x.who).index = some t := by
    intro x hx hcounted
    obtain ⟨e, he⟩ := hrun.enabled x hx
    obtain ⟨t, ht⟩ := on_index he (isCounted_on hcounted)
    have hend := index_run hrun x hx x.who t ht
    exact ⟨t, hI.lt _ _ hend, hend⟩
  rw [countP_eq_sum hindexed, Report.exactCount, Finset.sum_nat_mod,
    Finset.sum_nat_mod _ _ fun t => List.countP _ tr]
  congr 1
  refine Finset.sum_congr rfl fun t ht => ?_
  obtain ⟨j, hj⟩ := hI.surj t (Finset.mem_range.mp ht)
  have hone := counter_idle hinit hrun (hidle j) hm k
  rw [Shared.record_of_index hj] at hone
  have hby : tr.countP (isCountedBy k j m) =
      tr.countP fun x => isCounted k m x && decide ((c.loc x.who).index = some t) := by
    refine List.countP_congr fun x hx => ?_
    have hwho : x.who = j ↔ (c.loc x.who).index = some t :=
      ⟨fun h => h ▸ hj, fun h => hI.inj _ _ _ h hj⟩
    simp only [isCountedBy, Bool.and_eq_true, decide_eq_true_eq, hwho]
    exact and_comm
  rw [← hby]
  exact hone

/-- **The totals of the report are the events of the run**, modulo `2 ^ 32`: when no thread is in an
    operation, the accesses, conflicts, waits for condition variables and failed trylocks that the
    report sums for a mutex are the calls, the contended locks and failed trylocks, the waits, and
    the failed trylocks that the run has made on it. -/
theorem report_totals {tid : ι ↪ Tid} {c₀ c : Config ι Local Shared}
    {tr : List (Event ι Action Local Shared)} (hinit : Initial c₀)
    (hrun : Run (machine tid) c₀ tr c) (hidle : ∀ i, (c.loc i).cur = none) :
    ∀ k, ∀ m < maxSyncEntries,
      Report.totalCount k (fun t => c.sh.threadSyncData (getThreadMutexData m t))
        c.sh.xthread.threadIndex = tr.countP (isCounted k m) % 2 ^ 32 := by
  intro k m hm
  rw [Report.totalCount_eq]
  exact exactCount_run hinit hrun hidle hm k

/-! ### The lists -/

omit [DecidableEq ι] in
/-- The loop body sees the sums modulo `2 ^ 32` only. -/
theorem codeQuadrant_congr {A A' F F' : ℕ} {E : ℚ} (hA : A % 2 ^ 32 = A' % 2 ^ 32)
    (hF : F % 2 ^ 32 = F' % 2 ^ 32) : Report.codeQuadrant A F E = Report.codeQuadrant A' F' E := by
  have hhundred : 100 * F % 2 ^ 32 = 100 * F' % 2 ^ 32 := by
    rw [Nat.mul_mod, hF, ← Nat.mul_mod]
  rw [Report.codeQuadrant, Report.codeQuadrant, hA, hhundred]

omit [DecidableEq ι] in
theorem elapsedTimeForFreq_pos (x : XThread) : 0 < Report.elapsedTimeForFreq x := by
  unfold Report.elapsedTimeForFreq
  split
  · norm_num
  · rename_i hge
    exact lt_of_lt_of_le (by norm_num) (not_lt.mp hge)

/-- **The report of a run.**  When no thread is in an operation, and the accesses of no mutex, nor a
    hundred times its conflicts, reach `2 ^ 32`: a mutex is in the list that the numbers of its
    calls and of its contended locks and failed trylocks decide, in the order of the mutexes, and
    a mutex that was never locked is in none. -/
theorem report_of_run {tid : ι ↪ Tid} {c₀ c : Config ι Local Shared}
    {tr : List (Event ι Action Local Shared)} (hinit : Initial c₀)
    (hrun : Run (machine tid) c₀ tr c) (hidle : ∀ i, (c.loc i).cur = none) {n : ℕ}
    (hn : n ≤ maxSyncEntries)
    (hsmall : ∀ m < n, tr.countP (isCounted .access m) < 2 ^ 32 ∧
      100 * tr.countP (isCounted .fail m) < 2 ^ 32) :
    ∀ q, (Report.print (Report.elapsedTimeForFreq c.sh.xthread)
        (fun m t => c.sh.threadSyncData (getThreadMutexData m t)) c.sh.xthread.threadIndex n).ids
          q =
      (List.range n).filter fun m => 0 < tr.countP (isCounted .access m) ∧
        Report.exactQuadrant (tr.countP (isCounted .access m)) (tr.countP (isCounted .fail m))
          (Report.elapsedTimeForFreq c.sh.xthread) = some q := by
  intro q
  rw [Report.ids_print]
  refine List.filter_congr fun m hm => ?_
  have hm' := List.mem_range.mp hm
  obtain ⟨hA, hF⟩ := hsmall m hm'
  have hlt : m < maxSyncEntries := hm'.trans_le hn
  rw [codeQuadrant_congr (exactCount_run hinit hrun hidle hlt .access)
    (exactCount_run hinit hrun hidle hlt .fail)]
  rcases Nat.eq_zero_or_pos (tr.countP (isCounted .access m)) with hzero | hpos
  · rw [hzero, Report.codeQuadrant_zero]
    simp
  · rw [(Report.codeQuadrant_eq_iff (elapsedTimeForFreq_pos _)).mpr
      (Report.ratesKept_of_lt hpos hA hF)]
    simp [hpos]

end Runs

/-- One thread locks a mutex, a trylock of the other one fails, and the mutex is unlocked. -/
def tryFails := (machine pairTid).execute pairStart
  (List.flatten [pairSetup, [(false, .call 0 .lock)], List.replicate 10 (false, .step {}),
    [(true, .call 0 .trylock)], List.replicate 9 (true, .step {}), [(false, .call 0 .unlock)],
    List.replicate 5 (false, .step {})]) (by decide +kernel)

theorem report_totals_tryFails :
    Report.totalCount .trylockFail
        (fun t => tryFails.2.sh.threadSyncData (getThreadMutexData 0 t))
        tryFails.2.sh.xthread.threadIndex = tryFails.1.countP (isCounted .trylockFail 0) % 2 ^ 32 ∧
      tryFails.1.countP (isCounted .trylockFail 0) = 1 := by
  have hrun : Run (machine pairTid) pairStart tryFails.1 tryFails.2 := System.execute_run _ _ _ _
  exact ⟨report_totals pairStart_initial hrun (by decide +kernel) .trylockFail 0 (by decide),
    by decide +kernel⟩

/-- Half of its accesses were conflicts, and two accesses in a second are few. -/
theorem report_of_run_tryFails :
    (Report.print (Report.elapsedTimeForFreq tryFails.2.sh.xthread)
        (fun m t => tryFails.2.sh.threadSyncData (getThreadMutexData m t))
        tryFails.2.sh.xthread.threadIndex 1).ids .highConflictLowFreq = [0] := by
  have hrun : Run (machine pairTid) pairStart tryFails.1 tryFails.2 := System.execute_run _ _ _ _
  rw [report_of_run pairStart_initial hrun (by decide +kernel) (by decide) (by decide +kernel)]
  decide +kernel

end SyncPerf
