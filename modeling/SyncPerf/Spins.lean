import Mathlib.Algebra.BigOperators.Ring.Finset
import SyncPerf.Conflicts

namespace SyncPerf

open Interleaving

/-!
# Adaptive mutexes

A lock of an adaptive mutex counts a conflict for every round of its spin loop, and the number of
rounds depends on `__spins`, which it adjusts at the end.

* `LockPC.CntOk`, `pthreadMutexLock_cntOk` — the counter of the spin loop and its limit;
* `LockPC.rounds`, `pthreadMutexLock_rounds` — the rounds that a call may still make;
* `conflicts_le_rounds` — a record has at most 101 conflicts for an access;
* `SpinsOk`, `spins_bounded` — how far `__spins` goes.
-/

/-! ### The spin loop -/

/-- The counter of the spin loop and its limit, `cnt` and `max_cnt`. -/
def LockPC.CntOk : LockPC → Prop
  | .adFail cnt maxCnt | .adFailStore cnt maxCnt _ =>
    (cnt = 0 ∨ (cnt : ℤ) ≤ maxCnt) ∧ maxCnt ≤ maxAdaptiveCount
  | .adRetry cnt maxCnt => (cnt : ℤ) ≤ maxCnt ∧ maxCnt ≤ maxAdaptiveCount
  | .cas (.adaptive cnt) | .wait (.adaptive cnt) | .adSpinsLoad cnt => cnt ≤ 101
  | _ => True

/-- The limit of a spin loop, as a number. -/
theorem maxAdaptiveCount_eq : maxAdaptiveCount = 100 := rfl

/-- The test of the spin loop keeps the counter within its limit. -/
theorem adCheck_cntOk {cnt : ℕ} {maxCnt : ℤ} (hcnt : cnt = 0 ∨ (cnt : ℤ) ≤ maxCnt)
    (hmax : maxCnt ≤ maxAdaptiveCount) : (adCheck cnt maxCnt).CntOk := by
  have h100 := maxAdaptiveCount_eq
  unfold adCheck
  split
  · show cnt + 1 ≤ 101
    omega
  · exact ⟨by push_cast; omega, hmax⟩

/-- The body of the spin loop keeps the counter within its limit. -/
theorem Build.adBody_cntOk (b : Build) {cnt : ℕ} {maxCnt : ℤ}
    (hcnt : cnt = 0 ∨ (cnt : ℤ) ≤ maxCnt) (hmax : maxCnt ≤ maxAdaptiveCount) :
    (b.adBody cnt maxCnt).CntOk := by
  cases b with
  | incr => exact ⟨hcnt, hmax⟩
  | noIncr => exact adCheck_cntOk hcnt hmax

/-- A step of a lock leaves the counter within its limit. -/
theorem pthreadMutexLock_cntOk (b : Build) (id : ℕ) (env : Special) {p : LockPC} (c : Cell)
    (h : p.CntOk) : ∀ p', (pthreadMutexLock b id env p c).1 = .goto p' → p'.CntOk := by
  intro p' hp'
  cases p with
  | stat => cases b <;> cases hp' <;> trivial
  | kind =>
    simp only [pthreadMutexLock, Build.dispatch] at hp'
    split at hp' <;> cases hp' <;> first | trivial | (cases b <;> trivial)
  | errOwner =>
    simp only [pthreadMutexLock] at hp'
    split at hp' <;> cases hp'
    cases b <;> trivial
  | cas t =>
    simp only [pthreadMutexLock] at hp'
    split at hp' <;> cases hp' <;> cases t <;> exact h
  | wait t =>
    simp only [pthreadMutexLock] at hp'
    cases hp'
    split
    · cases t <;> exact h
    · cases t <;> exact h
  | adSpins =>
    cases hp'
    exact b.adBody_cntOk (.inl rfl) (min_le_left _ _)
  | adFail cnt maxCnt =>
    cases hp'
    exact h
  | adFailStore cnt maxCnt v =>
    cases hp'
    exact adCheck_cntOk h.1 h.2
  | adRetry cnt maxCnt =>
    simp only [pthreadMutexLock] at hp'
    have h100 := maxAdaptiveCount_eq
    split at hp' <;> cases hp'
    · show cnt ≤ 101
      have := h.1
      have := h.2
      omega
    · exact b.adBody_cntOk (.inr h.1) h.2
  | recOwner | probe | recCount | adTry | assertOwner recursive =>
    simp only [pthreadMutexLock] at hp'
    repeat' split at hp'
    all_goals cases hp'
    all_goals trivial
  | setOwner => cases b <;> cases hp'; trivial
  | recCountStore v | nusersStore v | special => cases hp'
  | access | accessStore v | fail | failStore v | conflictStat | adSpinsLoad cnt | adSpinsStore v
  | recInit | nusers =>
    cases hp'
    trivial

/-! ### Rounds -/

/-- The conflicts that a lock operation may still count for the access that it has counted. -/
def LockPC.rounds : LockPC → ℕ
  | .kind | .errOwner | .probe | .fail | .failStore _ | .adTry | .adSpins => 101
  | .adFail cnt _ | .adFailStore cnt _ _ | .adRetry cnt _ => 101 - cnt
  | _ => 0

/-- The conflicts that an operation may still count for the access that it has counted. -/
def PC.rounds : PC → ℕ
  | .lock p => p.rounds
  | .trylock p => p.phase.budget
  | _ => 0

/-- What a step at a point that stores a counter spends on a conflict. -/
def spent (k : Option Counter) : ℕ := if k = some .fail then 1 else 0

/-- What an access grants. -/
def granted (k : Option Counter) : ℕ := if k = some .access then 101 else 0

/-- The rounds left after a step. -/
def roundsAt (pc : Option PC) : ℕ :=
  match pc with
  | some pc => pc.rounds
  | none => 0

/-- The counter of the spin loop, wherever the thread is. -/
def CntOkAt (pc : Option PC) : Prop :=
  match pc with
  | some (.lock p) => p.CntOk
  | _ => True

/-- The test of the spin loop leaves one round less. -/
theorem adCheck_rounds {cnt : ℕ} {maxCnt : ℤ} (hcnt : cnt = 0 ∨ (cnt : ℤ) ≤ maxCnt)
    (hmax : maxCnt ≤ maxAdaptiveCount) : (adCheck cnt maxCnt).rounds + 1 ≤ 101 - cnt := by
  have h100 := maxAdaptiveCount_eq
  unfold adCheck
  split
  · show 0 + 1 ≤ 101 - cnt
    omega
  · show 101 - (cnt + 1) + 1 ≤ 101 - cnt
    omega

/-- **A step of a lock** pays for the conflict that it counts. -/
theorem pthreadMutexLock_rounds (id : ℕ) (env : Special) {p : LockPC} (c : Cell) (h : p.CntOk) :
    roundsAt (((pthreadMutexLock .incr id env p c).1.target p).map .lock) + spent p.stores ≤
      p.rounds + granted p.stores := by
  cases p with
  | kind =>
    simp only [pthreadMutexLock, Build.dispatch]
    split <;> simp [Flow.target, roundsAt, PC.rounds, LockPC.rounds, spent, LockPC.stores]
  | adFailStore cnt maxCnt v => exact adCheck_rounds h.1 h.2
  | adRetry cnt maxCnt =>
    simp only [pthreadMutexLock]
    split
    · exact Nat.zero_le _
    · exact le_rfl
  | cas t | wait t =>
    simp only [pthreadMutexLock]
    split <;> cases t <;> exact le_rfl
  | adSpins => exact le_rfl
  | _ =>
    simp only [pthreadMutexLock]
    repeat' split
    all_goals
      simp [Flow.target, roundsAt, PC.rounds, LockPC.rounds, spent, granted, LockPC.stores]

/-- Where no attempt of the spin loop is, a step pays for the conflict that it counts. -/
theorem Phase.Step.rounds {q q' : Phase} {k : Option Counter} (h : Phase.Step False q k q') :
    q'.budget + spent k ≤ q.budget + granted k := by
  cases h with
  | stay ha hf => simp [spent, granted, ha, hf]
  | access => decide
  | fail => decide
  | settle => decide
  | retry h => exact h.elim

/-- **A step of an operation** pays for the conflict that it counts. -/
theorem opStep_rounds {id : ℕ} {ch : Choice} {pc : PC} {c : Cell} (hloaded : pc.Loaded c.record)
    (h : CntOkAt (some pc)) :
    CntOkAt ((opStep id ch pc c).1.target pc) ∧
      roundsAt ((opStep id ch pc c).1.target pc) + spent pc.stores ≤
        pc.rounds + granted pc.stores := by
  cases pc with
  | lock p =>
    have hstep := pthreadMutexLock_rounds id ch.special c h
    have hcnt := pthreadMutexLock_cntOk .incr id ch.special c h
    simp only [opStep]
    cases hr : (pthreadMutexLock .incr id ch.special p c).1 with
    | goto p' =>
      rw [hr] at hstep
      exact ⟨hcnt p' hr, hstep⟩
    | ret code =>
      rw [hr] at hstep
      exact ⟨trivial, hstep⟩
    | abort x =>
      rw [hr] at hstep
      exact ⟨h, hstep⟩
  | trylock p =>
    have hphase := (@opStep_counts id ch (.trylock p) c hloaded).phase.rounds
    simp only [opStep] at hphase ⊢
    cases hr : (pthreadMutexTrylock id ch.special p c).1 <;> rw [hr] at hphase <;>
      exact ⟨trivial, hphase⟩
  | unlock p =>
    simp only [opStep]
    cases (pthreadMutexUnlockUsercnt true id ch.special p c).1 <;>
      exact ⟨trivial, Nat.zero_le _⟩
  | condRelease p =>
    simp only [opStep]
    cases (pthreadMutexUnlockUsercnt false id ch.special p c).1 with
    | ret code =>
      simp only [afterRelease]
      split <;> exact ⟨trivial, Nat.zero_le _⟩
    | _ => exact ⟨trivial, Nat.zero_le _⟩
  | condCount | condCountStore v => exact ⟨trivial, Nat.zero_le _⟩
  | condBlocked =>
    simp only [opStep]
    split <;> exact ⟨trivial, Nat.zero_le _⟩
  | condRelock p =>
    simp only [opStep]
    cases (pthreadMutexLock .noIncr id ch.special p c).1 <;> exact ⟨trivial, Nat.zero_le _⟩
  | destroy p =>
    simp only [opStep]
    cases (pthreadMutexDestroy p c).1 <;> exact ⟨trivial, Nat.zero_le _⟩

/-! ### Conflicts and accesses -/

section Runs

variable {ι : Type} [DecidableEq ι]

omit [DecidableEq ι] in
/-- A step of an operation wraps no counter around. -/
theorem OpEvent.noWrap {tid : ι ↪ Tid} {j : ι} {m : ℕ} {x : Event ι Action Local Shared} {pc : PC}
    {cell cell' : Cell} {f : Flow PC} (h : OpEvent tid j m x pc cell f cell') (hwrap : NoWrap x)
    {k : Counter} (hk : pc.stores = some k) :
    inc32 (cell.record.get k) = cell.record.get k + 1 := by
  obtain ⟨ch, hact, -⟩ := h.step
  have hcur := Local.cur_of_view h.at_pc
  obtain rfl := h.who
  simp only [NoWrap, hact, hcur, hk] at hwrap
  rw [h.record]
  exact inc32_eq hwrap

/-- One record of a run: the conflicts, with the ones that a call in progress may still count, are
    at most 101 for an access. -/
theorem fail_le_rounds_run {tid : ι ↪ Tid} {c d : Config ι Local Shared}
    {tr : List (Event ι Action Local Shared)} (hinit : Initial c)
    (hrun : Run (machine tid) c tr d) (hwrap : ∀ x ∈ tr, NoWrap x) (j : ι) {m : ℕ}
    (hm : m < maxSyncEntries) :
    (d.sh.record (d.loc j) m).get .fail + roundsAt ((d.loc j).view m).pc ≤
      101 * (d.sh.record (d.loc j) m).get .access := by
  refine ((record_run (.initial hinit j m) hrun hm (I := fun tr pc r => CntOkAt pc ∧
    ((∀ x ∈ tr, NoWrap x) → r.get .fail + roundsAt pc ≤ 101 * r.get .access))
    ?_ ?_ ?_ ?_).2).2 hwrap
  · refine ⟨?_, fun _ => ?_⟩ <;> rw [hinit.loc]
    · trivial
    · exact Nat.zero_le _
  · intro tr x pc r _ ih
    exact ⟨ih.1, fun hG => ih.2 fun y hy => hG y (List.mem_append_left _ hy)⟩
  · intro tr x op r _ _ ih
    refine ⟨by cases op <;> trivial, fun hG => ?_⟩
    -- a call starts without rounds
    have hentry : roundsAt (some op.entry) = 0 := by cases op <;> rfl
    rw [hentry]
    exact ih.2 fun y hy => hG y (List.mem_append_left _ hy)
  · intro tr x pc cell f cell' _ hev ih
    obtain ⟨ch, hact, hop⟩ := hev.step
    obtain ⟨hcnt, hrounds⟩ := @opStep_rounds (tid j).val ch pc cell hev.loaded ih.1
    rw [hop] at hcnt hrounds
    refine ⟨hcnt, fun hG => ?_⟩
    have hle := ih.2 fun y hy => hG y (List.mem_append_left _ hy)
    have hnowrap := hG x (by simp)
    have hrec : cell'.record = cell.record.count pc.stores := hev.counts.record
    have hfail : (cell.record.count pc.stores).get .fail =
        cell.record.get .fail + spent pc.stores := by
      rw [ThreadMutex.get_count, spent]
      split
      · rename_i hk
        exact hev.noWrap hnowrap hk
      · rfl
    have haccess : 101 * (cell.record.count pc.stores).get .access =
        101 * cell.record.get .access + granted pc.stores := by
      rw [ThreadMutex.get_count, granted]
      split
      · rename_i hk
        rw [hev.noWrap hnowrap hk, Nat.mul_succ]
      · rfl
    have hat : roundsAt (some pc) = pc.rounds := rfl
    show cell'.record.get .fail + roundsAt (f.target pc) ≤ 101 * cell'.record.get .access
    rw [hrec, hfail, haccess]
    simp only at hrounds
    omega

omit [DecidableEq ι] in
/-- A mutex none of whose records has more than 101 conflicts for an access has a rate of at most
    10100 percent, if the report's sum of its accesses does not wrap around. -/
theorem conflictRate_le_rounds {elapsed : ℚ} {perThdData : ℕ → ThreadMutex} {threads i : ℕ}
    (hle : ∀ t < threads, (perThdData t).get .fail ≤ 101 * (perThdData t).get .access)
    (hsmall : Report.exactCount .access perThdData threads < 2 ^ 32) :
    (Report.syncPerfEntry elapsed perThdData threads i).conflictRate ≤ 10100 := by
  have hsum : Report.exactCount .fail perThdData threads ≤
      101 * Report.exactCount .access perThdData threads := by
    unfold Report.exactCount
    rw [Finset.mul_sum]
    exact Finset.sum_le_sum fun t ht => hle t (Finset.mem_range.mp ht)
  have htotal : Report.totalCount .access perThdData threads =
      Report.exactCount .access perThdData threads := by
    rw [Report.totalCount_eq, Nat.mod_eq_of_lt hsmall]
  have hhundred : Report.hundredTimes (Report.totalCount .fail perThdData threads) ≤
      10100 * Report.totalCount .access perThdData threads := by
    rw [Report.hundredTimes_totalCount, htotal]
    refine (Nat.mod_le _ _).trans ?_
    omega
  show (Report.hundredTimes (Report.totalCount .fail perThdData threads) : ℚ) /
    (Report.totalCount .access perThdData threads : ℚ) ≤ 10100
  refine div_le_of_le_mul₀ (Nat.cast_nonneg _) (by norm_num) ?_
  exact_mod_cast hhundred

/-- **Conflicts are bounded by the spin loop**, in every run in which no counter wraps around: a
    record has at most 101 conflicts for each access, and the report gives no mutex a conflict rate
    above 10100 percent. -/
theorem conflicts_le_rounds {tid : ι ↪ Tid} {c₀ c : Config ι Local Shared}
    {tr : List (Event ι Action Local Shared)} (hinit : Initial c₀)
    (hrun : Run (machine tid) c₀ tr c) (hwrap : ∀ x ∈ tr, NoWrap x) :
    ∀ m < maxSyncEntries,
      (∀ t < maxThreads, (c.sh.threadSyncData (getThreadMutexData m t)).failCount ≤
        101 * (c.sh.threadSyncData (getThreadMutexData m t)).accessCount) ∧
      ∀ elapsed, Report.exactCount .access (fun t => c.sh.threadSyncData (getThreadMutexData m t))
          c.sh.xthread.threadIndex < 2 ^ 32 →
        (Report.syncPerfEntry elapsed (fun t => c.sh.threadSyncData (getThreadMutexData m t))
          c.sh.xthread.threadIndex m).conflictRate ≤ 10100 := by
  have hI := IndexInv.run hinit hrun
  intro m hm
  have hrecord : ∀ t < maxThreads, (c.sh.threadSyncData (getThreadMutexData m t)).get .fail ≤
      101 * (c.sh.threadSyncData (getThreadMutexData m t)).get .access := by
    intro t ht
    rcases hI.record_cases hm ht with ⟨j, hj⟩ | hzero
    · rw [hj]
      have hle := fail_le_rounds_run hinit hrun hwrap j hm
      omega
    · rw [hzero]
      exact Nat.zero_le _
  exact ⟨hrecord, fun elapsed hsmall =>
    conflictRate_le_rounds (fun t ht => hrecord t (ht.trans_le hI.le)) hsmall⟩

/-- Three conflicts of one call that spins. -/
theorem conflicts_le_rounds_spinning :
    (spinningEnd.2.sh.threadSyncData (getThreadMutexData 0 1)).failCount = 3 ∧
      (Report.syncPerfEntry 1000 (fun t => spinningEnd.2.sh.threadSyncData (getThreadMutexData 0 t))
        spinningEnd.2.sh.xthread.threadIndex 0).conflictRate ≤ 10100 := by
  have hrun : Run (machine pairTid) adaptiveStart spinningEnd.1 spinningEnd.2 :=
    System.execute_run _ _ _ _
  have hle := conflicts_le_rounds adaptiveStart_initial hrun (by decide +kernel) 0 (by decide)
  exact ⟨by decide +kernel, hle.2 1000 (by decide +kernel)⟩

end Runs

/-! ### `__spins` -/

/-- A mutex of a basic kind, or a destroyed one, whose `__spins` the spin loop has set. -/
structure MutexData.SpinsOk (m : MutexData) : Prop where
  kind : (∃ κ : BasicKind, m.kind = κ.code) ∨ m.kind = destroyedKind
  nonneg : 0 ≤ m.spins
  le : m.spins ≤ 94

/-- The places of a lock on such a mutex; `v` is the new `__spins`. -/
def LockPC.Basic : LockPC → Prop
  | .adSpinsStore v => 0 ≤ v ∧ v ≤ 94
  | .special => False
  | _ => True

/-- What a lock knows of the spin loop. -/
def LockPC.SpinsOk (p : LockPC) : Prop := p.CntOk ∧ p.Basic

/-- The test of the spin loop is in the code of a basic kind. -/
theorem adCheck_basic (cnt : ℕ) (maxCnt : ℤ) : (adCheck cnt maxCnt).Basic := by
  unfold adCheck
  split <;> trivial

/-- The body of the spin loop is in the code of a basic kind. -/
theorem Build.adBody_basic (b : Build) (cnt : ℕ) (maxCnt : ℤ) : (b.adBody cnt maxCnt).Basic := by
  cases b with
  | incr => trivial
  | noIncr => exact adCheck_basic cnt maxCnt

/-- What follows `lll_lock` is in the code of a basic kind. -/
theorem LockTarget.next_basic (t : LockTarget) : t.next.Basic := by
  cases t <;> trivial

/-- `__spins += (cnt - __spins) / 8`, for at most 101 rounds. -/
theorem spins_adjusted {spins : ℤ} {cnt : ℕ} (h0 : 0 ≤ spins) (h94 : spins ≤ 94)
    (hcnt : cnt ≤ 101) :
    0 ≤ spins + ((cnt : ℤ) - spins).tdiv 8 ∧ spins + ((cnt : ℤ) - spins).tdiv 8 ≤ 94 := by
  rcases le_total spins cnt with hle | hle
  · rw [Int.tdiv_eq_ediv_of_nonneg (by omega)]
    omega
  · have hneg : ((cnt : ℤ) - spins).tdiv 8 = -((spins - cnt) / 8) := by
      rw [← Int.tdiv_eq_ediv_of_nonneg (by omega), ← Int.neg_tdiv, neg_sub]
    rw [hneg]
    omega

/-- The case of a basic kind, or of a destroyed mutex. -/
theorem MutexData.SpinsOk.switchKind_ne {m : MutexData} (h : m.SpinsOk) :
    switchKind m.kind ≠ .special := by
  rcases h.kind with ⟨κ, hκ⟩ | hκ <;> rw [hκ]
  · rw [switchKind_code]
    simp
  · rw [switchKind_destroyed]
    simp

/-- **A step of a lock** keeps `__spins` where the spin loop sets it. -/
theorem pthreadMutexLock_spins (b : Build) (id : ℕ) (env : Special) {p : LockPC} {c : Cell}
    (hp : p.SpinsOk) (hm : c.mutex.SpinsOk) :
    (pthreadMutexLock b id env p c).2.mutex.SpinsOk ∧
      ∀ p', (pthreadMutexLock b id env p c).1 = .goto p' → p'.SpinsOk := by
  have hcnt := pthreadMutexLock_cntOk b id env c hp.1
  refine ⟨?_, fun p' hp' => ⟨hcnt p' hp', ?_⟩⟩
  · have hfields : ∀ m : MutexData, m.kind = c.mutex.kind → m.spins = c.mutex.spins → m.SpinsOk :=
      fun m hk hs => ⟨hk ▸ hm.kind, hs ▸ hm.nonneg, hs ▸ hm.le⟩
    cases p with
    | adSpinsStore v => exact ⟨hm.kind, hp.2.1, hp.2.2⟩
    | special => exact hp.2.elim
    | stat => cases b <;> exact hm
    | _ =>
      simp only [pthreadMutexLock]
      repeat' split
      all_goals exact hfields _ rfl rfl
  · cases p with
    | adSpinsLoad cnt =>
      cases hp'
      exact spins_adjusted hm.nonneg hm.le hp.1
    | kind =>
      simp only [pthreadMutexLock, Build.dispatch] at hp'
      split at hp' <;> cases hp' <;> first | trivial | skip
      · cases b <;> trivial
      · rename_i hspecial
        exact hm.switchKind_ne hspecial
    | stat | setOwner => cases b <;> cases hp' <;> trivial
    | cas t =>
      simp only [pthreadMutexLock] at hp'
      split at hp' <;> cases hp'
      · exact t.next_basic
      · trivial
    | wait t =>
      cases hp'
      split
      · exact t.next_basic
      · trivial
    | errOwner =>
      simp only [pthreadMutexLock] at hp'
      split at hp' <;> cases hp'
      cases b <;> trivial
    | adSpins =>
      cases hp'
      exact b.adBody_basic _ _
    | adFailStore cnt maxCnt v =>
      cases hp'
      exact adCheck_basic _ _
    | adRetry cnt maxCnt =>
      simp only [pthreadMutexLock] at hp'
      split at hp' <;> cases hp'
      · trivial
      · exact b.adBody_basic _ _
    | _ =>
      simp only [pthreadMutexLock] at hp'
      repeat' split at hp'
      all_goals cases hp'
      all_goals trivial

/-- A step of a trylock leaves `__spins` alone. -/
theorem pthreadMutexTrylock_spins (id : ℕ) (env : Special) {p : TryPC} {c : Cell}
    (hp : p ≠ .special) (hm : c.mutex.SpinsOk) :
    (pthreadMutexTrylock id env p c).2.mutex.SpinsOk ∧
      (pthreadMutexTrylock id env p c).1 ≠ .goto .special := by
  have hfields : ∀ m : MutexData, m.kind = c.mutex.kind → m.spins = c.mutex.spins → m.SpinsOk :=
    fun m hk hs => ⟨hk ▸ hm.kind, hs ▸ hm.nonneg, hs ▸ hm.le⟩
  cases p with
  | special => exact absurd rfl hp
  | kind =>
    refine ⟨hm, ?_⟩
    show tryDispatch c.mutex.kind ≠ _
    rcases hm.kind with ⟨κ, hκ⟩ | hκ <;> rw [hκ]
    · rw [tryDispatch_code]
      split <;> simp
    · decide
  | _ =>
    simp only [pthreadMutexTrylock, tryResult]
    repeat' split
    all_goals exact ⟨hfields _ rfl rfl, by simp⟩

/-- A step of an unlock leaves `__spins` alone. -/
theorem pthreadMutexUnlockUsercnt_spins (decr : Bool) (id : ℕ) (env : Special) {p : UnlPC}
    {c : Cell} (hp : p ≠ .special) (hm : c.mutex.SpinsOk) :
    (pthreadMutexUnlockUsercnt decr id env p c).2.mutex.SpinsOk ∧
      (pthreadMutexUnlockUsercnt decr id env p c).1 ≠ .goto .special := by
  have hfields : ∀ m : MutexData, m.kind = c.mutex.kind → m.spins = c.mutex.spins → m.SpinsOk :=
    fun m hk hs => ⟨hk ▸ hm.kind, hs ▸ hm.nonneg, hs ▸ hm.le⟩
  cases p with
  | special => exact absurd rfl hp
  | type =>
    refine ⟨hm, ?_⟩
    show unlDispatch c.mutex.kind ≠ _
    rcases hm.kind with ⟨κ, hκ⟩ | hκ <;> rw [hκ]
    · cases κ <;> decide
    · decide
  | _ =>
    simp only [pthreadMutexUnlockUsercnt]
    repeat' split
    all_goals exact ⟨hfields _ rfl rfl, by simp⟩

/-- The places of an operation on a mutex of a basic kind. -/
def PC.SpinsOk : PC → Prop
  | .lock p | .condRelock p => p.SpinsOk
  | .trylock p => p ≠ .special
  | .unlock p | .condRelease p => p ≠ .special
  | _ => True

/-- **A step of an operation** keeps `__spins` where the spin loop sets it. -/
theorem opStep_spins {id : ℕ} {ch : Choice} {pc : PC} {c : Cell} (hp : pc.SpinsOk)
    (hm : c.mutex.SpinsOk) : (opStep id ch pc c).2.mutex.SpinsOk ∧
      ∀ pc', (opStep id ch pc c).1 = .goto pc' → pc'.SpinsOk := by
  cases pc with
  | lock p =>
    obtain ⟨hmutex, hnext⟩ := pthreadMutexLock_spins .incr id ch.special hp hm
    refine ⟨hmutex, fun pc' h => ?_⟩
    simp only [opStep] at h
    cases hr : (pthreadMutexLock .incr id ch.special p c).1 <;> rw [hr] at h <;> cases h
    exact hnext _ hr
  | condRelock p =>
    obtain ⟨hmutex, hnext⟩ := pthreadMutexLock_spins .noIncr id ch.special hp hm
    refine ⟨hmutex, fun pc' h => ?_⟩
    simp only [opStep] at h
    cases hr : (pthreadMutexLock .noIncr id ch.special p c).1 <;> rw [hr] at h <;> cases h
    exact hnext _ hr
  | trylock p =>
    obtain ⟨hmutex, hnext⟩ := pthreadMutexTrylock_spins id ch.special hp hm
    refine ⟨hmutex, fun pc' h => ?_⟩
    simp only [opStep] at h
    cases hr : (pthreadMutexTrylock id ch.special p c).1 <;> rw [hr] at h hnext <;> cases h
    exact fun heq => hnext (congrArg Flow.goto heq)
  | unlock p =>
    obtain ⟨hmutex, hnext⟩ := pthreadMutexUnlockUsercnt_spins true id ch.special hp hm
    refine ⟨hmutex, fun pc' h => ?_⟩
    simp only [opStep] at h
    cases hr : (pthreadMutexUnlockUsercnt true id ch.special p c).1 <;> rw [hr] at h hnext <;>
      cases h
    exact fun heq => hnext (congrArg Flow.goto heq)
  | condRelease p =>
    obtain ⟨hmutex, hnext⟩ := pthreadMutexUnlockUsercnt_spins false id ch.special hp hm
    refine ⟨hmutex, fun pc' h => ?_⟩
    simp only [opStep] at h
    cases hr : (pthreadMutexUnlockUsercnt false id ch.special p c).1 with
    | goto q =>
      rw [hr] at h hnext
      cases h
      exact fun heq => hnext (congrArg Flow.goto heq)
    | ret code =>
      rw [hr] at h
      simp only [afterRelease] at h
      split at h <;> cases h
      trivial
    | abort x => rw [hr] at h; cases h
  | condCount => exact ⟨hm, fun pc' h => by cases h; trivial⟩
  | condCountStore v => exact ⟨hm, fun pc' h => by cases h; trivial⟩
  | condBlocked =>
    refine ⟨hm, fun pc' h => ?_⟩
    cases h
    split
    · trivial
    · exact ⟨trivial, trivial⟩
  | destroy p =>
    refine ⟨?_, fun pc' h => ?_⟩
    · cases p with
      | store => exact ⟨.inr rfl, hm.nonneg, hm.le⟩
      | kind => exact hm
      | nusers =>
        simp only [opStep, pthreadMutexDestroy]
        split <;> exact hm
    · simp only [opStep] at h
      cases hr : (pthreadMutexDestroy p c).1 <;> rw [hr] at h <;> cases h
      trivial

/-- **Spinning stays short.**  In every run on mutexes of the basic kinds, whatever the threads call
    and in whatever order: `__spins` never leaves 0 to 94, and the loop never has a limit above 100
    or a counter above its limit. -/
theorem spins_bounded {ι : Type} [DecidableEq ι] {tid : ι ↪ Tid} {kinds : ℕ → BasicKind}
    {c₀ c : Config ι Local Shared} {tr : List (Event ι Action Local Shared)} (hinit : Initial c₀)
    (hfresh : Fresh kinds c₀) (hrun : Run (machine tid) c₀ tr c) :
    (∀ m, 0 ≤ (c.sh.mutexes m).spins ∧ (c.sh.mutexes m).spins ≤ 94) ∧
      ∀ i m cnt maxCnt, ((c.loc i).cur = some (m, .lock (.adRetry cnt maxCnt)) ∨
        (c.loc i).cur = some (m, .condRelock (.adRetry cnt maxCnt))) →
          (cnt : ℤ) ≤ maxCnt ∧ maxCnt ≤ maxAdaptiveCount := by
  have hI := hrun.invariant (I := fun c => (∀ m, (c.sh.mutexes m).SpinsOk) ∧
    ∀ i m pc, (c.loc i).cur = some (m, pc) → pc.SpinsOk) ?_ ?_
  · refine ⟨fun m => ⟨(hI.1 m).nonneg, (hI.1 m).le⟩, fun i m cnt maxCnt h => ?_⟩
    rcases h with h | h <;> exact (hI.2 i m _ h).1
  · refine ⟨fun m => ?_, fun i m pc h => ?_⟩
    · rw [hfresh m]
      exact ⟨.inl ⟨_, rfl⟩, le_rfl, Int.zero_le_ofNat 94⟩
    · rw [hinit.loc i] at h
      cases h
  · rintro c i a d ⟨hm, hpc⟩ hs
    obtain ⟨l', s', hnext, rfl⟩ := System.step_eq_some.mp hs
    -- a thread that is in an operation afterwards is at a place that it may be at
    have hloc : (∀ m pc, l'.cur = some (m, pc) → pc.SpinsOk) →
        ∀ j m pc, (Function.update c.loc i l' j).cur = some (m, pc) → pc.SpinsOk := fun hl' =>
      forall_update (P := fun _ (l : Local) => ∀ m pc, l.cur = some (m, pc) → pc.SpinsOk) hl'
        fun j _ => hpc j
    cases (next_eq_some hnext).2 with
    | start hidx h => exact ⟨hm, hloc (hpc i)⟩
    | join h => exact ⟨hm, hloc (hpc i)⟩
    | @call m idx op hidx hcur hlt =>
      refine ⟨hm, hloc fun m' pc h => ?_⟩
      cases h
      cases op <;> first | exact ⟨trivial, trivial⟩ | trivial | exact fun h => by cases h
    | @step idx m pc ch f cell hidx hcur h =>
      obtain ⟨hmutex, hgoto⟩ := @opStep_spins (tid i).val ch pc (c.sh.cell m idx)
        (hpc i m pc hcur) (hm m)
      rw [h] at hmutex hgoto
      refine ⟨fun m' => ?_, hloc fun m' pc' h' => ?_⟩
      · by_cases hmm : m' = m
        · subst hmm
          simpa [Shared.setCell] using hmutex
        · simpa [Shared.setCell, hmm] using hm m'
      · cases f with
        | goto pc'' =>
          cases h'
          exact hgoto _ rfl
        | ret code => cases h'
        | abort x => exact hpc i m' pc' h'

/-- The mutexes are new. -/
theorem adaptiveStart_fresh : Fresh (fun _ => .adaptive) adaptiveStart := fun _ => rfl

/-- The thread spins up to the limit and goes to sleep; the mutex is unlocked, and it gets it. -/
def spunEnd := (machine pairTid).execute adaptiveStart
  (List.flatten [spinning, List.replicate 28 (true, .step {}), [(false, .call 0 .unlock)],
    List.replicate 7 (false, .step {}), List.replicate 7 (true, .step {})]) (by decide +kernel)

/-- The mean after one spin loop. -/
theorem spins_bounded_spun :
    (spunEnd.2.sh.mutexes 0).spins = 1 ∧ (spunEnd.2.sh.mutexes 0).spins ≤ 94 := by
  have hrun : Run (machine pairTid) adaptiveStart spunEnd.1 spunEnd.2 := System.execute_run _ _ _ _
  exact ⟨by decide +kernel, ((spins_bounded adaptiveStart_initial adaptiveStart_fresh hrun).1 0).2⟩

end SyncPerf
