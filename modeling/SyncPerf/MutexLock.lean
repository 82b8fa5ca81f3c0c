import SyncPerf.PthreadP
import SyncPerf.OwnedLock

namespace SyncPerf

open OwnedLock

/-!
# `pthread_mutex_lock`

The body of `mutex_lock.c` from the point where the real mutex is known, in both builds: as
`pthread_mutex_lock`, and with `NO_INCR` as `__pthread_mutex_cond_lock`.  Every access to shared
memory is a step of its own, except that `lll_lock` and its siblings are atomic on the lock
word; a plain `++` is a load and a store.

* `LockPC`, `pthreadMutexLock` — the program points and the steps;
* `LockPC.status`, `LockPC.Ok` — the stage of a thread at a program point, and what it knows
  there;
* `pthreadMutexLock_good` — every step is a move of the owned-lock discipline.
-/

/-! ### The steps -/

/-- What follows the acquisition by `lll_lock`: the end of the recursive case, of the error
    checking and normal case, or of the adaptive one with its spin count. -/
inductive LockTarget
  | recursive
  | simple
  | adaptive (cnt : ℕ)
  deriving DecidableEq

/-- The program points.  A point named `…Store` comes after the load that it names. -/
inductive LockPC
  | stat
  | access
  | accessStore (v : ℕ)
  | kind
  | recOwner
  | recCount
  | recCountStore (v : BitVec 32)
  | errOwner
  | probe
  | fail
  | failStore (v : ℕ)
  | conflictStat
  | cas (t : LockTarget)
  | wait (t : LockTarget)
  | adTry
  | adSpins
  | adFail (cnt : ℕ) (maxCnt : ℤ)
  | adFailStore (cnt : ℕ) (maxCnt : ℤ) (v : ℕ)
  | adRetry (cnt : ℕ) (maxCnt : ℤ)
  | adSpinsLoad (cnt : ℕ)
  | adSpinsStore (v : ℤ)
  | assertOwner (recursive : Bool)
  | recInit
  | setOwner
  | nusers
  | nusersStore (v : BitVec 32)
  | special
  deriving DecidableEq

/-- `MAX_ADAPTIVE_COUNT`. -/
def maxAdaptiveCount : ℤ := 100

/-- The value that `lll_lock` and `lll_trylock` put into a free lock word; `lll_cond_lock` and
    `lll_cond_trylock` assume waiters. -/
def Build.acquired : Build → ℕ
  | .incr => lllLockInitializerLocked
  | .noIncr => lllLockInitializerWaiters

/-- Where `lll_lock` returns to. -/
def LockTarget.next : LockTarget → LockPC
  | .recursive => .assertOwner true
  | .simple => .assertOwner false
  | .adaptive cnt => .adSpinsLoad cnt

/-- The test `cnt++ >= max_cnt` in the body of the spin loop. -/
def adCheck (cnt : ℕ) (maxCnt : ℤ) : LockPC :=
  if (cnt : ℤ) ≥ maxCnt then .cas (.adaptive (cnt + 1)) else .adRetry (cnt + 1) maxCnt

/-- The start of the body of the spin loop; `inc_fail_count` is compiled out with `NO_INCR`. -/
def Build.adBody (b : Build) (cnt : ℕ) (maxCnt : ℤ) : LockPC :=
  match b with
  | .incr => .adFail cnt maxCnt
  | .noIncr => adCheck cnt maxCnt

/-- The `switch` on `__kind`, unmasked. -/
def Build.dispatch (b : Build) (kind : BitVec 32) : Flow LockPC :=
  match switchKind kind with
  | .basic .recursive => .goto .recOwner
  | .basic .errorcheck => .goto .errOwner
  -- the conflict probe is compiled out with `NO_INCR`
  | .basic .timed => .goto (match b with | .incr => .probe | .noIncr => .cas .simple)
  | .basic .adaptive => .goto .adTry
  | .special => .goto .special
  | .invalid => .ret eINVAL

/-- One step of thread `id`; `env` is what a special mutex's code did. -/
def pthreadMutexLock (b : Build) (id : ℕ) (env : Special) (p : LockPC) (c : Cell) :
    Flow LockPC × Cell :=
  let m := c.mutex
  match p with
  | .stat =>
    match b with
    | .incr =>
      (.goto .access, { c with stats :=
        { c.stats with totalLocks := inc64 c.stats.totalLocks } })
    | .noIncr =>
      (.goto .kind, { c with stats :=
        { c.stats with totalCondWaits := inc64 c.stats.totalCondWaits } })
  -- `inc_access_count`
  | .access => (.goto (.accessStore (c.record.get .access)), c)
  | .accessStore v => (.goto .kind, { c with record := c.record.set .access (inc32 v) })
  | .kind => (b.dispatch m.kind, c)
  -- `PTHREAD_MUTEX_RECURSIVE_NP`: bump the counter of a mutex that is ours
  | .recOwner => (.goto (if m.owner = id then .recCount else .cas .recursive), c)
  | .recCount =>
    if m.count + 1 = 0 then (.ret eAGAIN, c) else (.goto (.recCountStore m.count), c)
  | .recCountStore v => (.ret 0, { c with mutex := { m with count := v + 1 } })
  -- `PTHREAD_MUTEX_ERRORCHECK_NP` falls through to the normal case
  | .errOwner =>
    if m.owner = id then (.ret eDEADLK, c)
    else (.goto (match b with | .incr => .probe | .noIncr => .cas .simple), c)
  -- `PTHREAD_MUTEX_TIMED_NP`: count a conflict when there are waiters
  | .probe => (.goto (if m.lock = 2 then .fail else .cas .simple), c)
  | .fail => (.goto (.failStore (c.record.get .fail)), c)
  | .failStore v => (.goto .conflictStat, { c with record := c.record.set .fail (inc32 v) })
  | .conflictStat =>
    (.goto (.cas .simple), { c with stats :=
      { c.stats with totalConflicts := inc64 c.stats.totalConflicts } })
  -- `lll_lock`: a compare-and-exchange, then exchanges with 2 until the word was free
  | .cas t =>
    if m.lock = lllLockInitializer then
      (.goto t.next, { c with mutex := { m with lock := b.acquired } })
    else (.goto (.wait t), c)
  | .wait t =>
    (.goto (if m.lock = lllLockInitializer then t.next else .wait t),
      { c with mutex := { m with lock := lllLockInitializerWaiters } })
  -- `PTHREAD_MUTEX_ADAPTIVE_NP`: `lll_trylock`, then the spin loop
  | .adTry =>
    if m.lock = lllLockInitializer then
      (.goto (.assertOwner false), { c with mutex := { m with lock := b.acquired } })
    else (.goto .adSpins, c)
  | .adSpins => (.goto (b.adBody 0 (min maxAdaptiveCount (m.spins * 2 + 10))), c)
  | .adFail cnt maxCnt => (.goto (.adFailStore cnt maxCnt (c.record.get .fail)), c)
  | .adFailStore cnt maxCnt v =>
    (.goto (adCheck cnt maxCnt), { c with record := c.record.set .fail (inc32 v) })
  | .adRetry cnt maxCnt =>
    if m.lock = lllLockInitializer then
      (.goto (.adSpinsLoad cnt), { c with mutex := { m with lock := b.acquired } })
    else (.goto (b.adBody cnt maxCnt), c)
  | .adSpinsLoad cnt => (.goto (.adSpinsStore (m.spins + ((cnt : ℤ) - m.spins).tdiv 8)), c)
  | .adSpinsStore v => (.goto (.assertOwner false), { c with mutex := { m with spins := v } })
  -- `assert (mutex->__data.__owner == 0)`, then the ownership is recorded
  | .assertOwner recursive =>
    if m.owner = 0 then (.goto (if recursive then .recInit else .setOwner), c)
    else (.abort .owner, c)
  | .recInit => (.goto .setOwner, { c with mutex := { m with count := 1 } })
  | .setOwner =>
    (match b with | .incr => .goto .nusers | .noIncr => .ret 0,
      { c with mutex := { m with owner := id } })
  | .nusers => (.goto (.nusersStore m.nusers), c)
  | .nusersStore v => (.ret 0, { c with mutex := { m with nusers := v + 1 } })
  | .special => (.ret env.code, { c with mutex := env.mutex })

/-! ### Every step is a move -/

/-- The fields that the ownership discipline is about. -/
def MutexData.fields (m : MutexData) : Word := ⟨m.lock, m.count.toNat, m.owner, m.nusers.toNat⟩

/-- The kind is `PTHREAD_MUTEX_RECURSIVE_NP`. -/
def BasicKind.isRecursive (κ : BasicKind) : Bool := κ = .recursive

/-- The stage of a thread between two operations, from the depth to which it holds the mutex. -/
def outside (held : ℕ) : Status := if held = 0 then .free else .holder held

/-- A thread that has the mutex is its holder. -/
theorem outside_of_pos {held : ℕ} (h : 0 < held) : outside held = .holder held :=
  if_neg (Nat.ne_of_gt h)

/-- A holder has the word. -/
theorem outside_word {held : ℕ} (h : 0 < held) : (outside held).word = true := by
  rw [outside_of_pos h]
  rfl

/-- The stage in which the lock operation starts: a thread that re-acquires is still a user. -/
def Build.before (b : Build) (held : ℕ) : Status :=
  match b with
  | .incr => outside held
  | .noIncr => .waiter

/-- The stage of a thread at a program point. -/
def LockPC.status (b : Build) (held : ℕ) : LockPC → Status
  | .adSpinsLoad _ | .adSpinsStore _ | .assertOwner _ | .recInit | .setOwner =>
    .taken (b = .noIncr)
  | .nusers | .nusersStore _ => .owned
  | _ => b.before held

/-- The stage after a step from `p`. -/
def LockPC.after (b : Build) (held : ℕ) (p : LockPC) : Flow LockPC → Status
  | .goto p' => p'.status b held
  | .ret code => if code = 0 then .holder (held + 1) else b.before held
  | .abort _ => p.status b held

/-- What a thread knows at a program point, the mutex being of kind `κ`. -/
def LockPC.Ok (κ : BasicKind) (b : Build) (held : ℕ) (m : MutexData) : LockPC → Prop
  | .stat | .access | .accessStore _ | .kind => True
  | .recOwner => κ = .recursive
  | .recCount => κ = .recursive ∧ 0 < held
  | .recCountStore v => κ = .recursive ∧ 0 < held ∧ v = m.count ∧ v + 1 ≠ 0
  | .errOwner | .probe | .fail | .failStore _ | .conflictStat => κ ≠ .recursive
  | .cas t | .wait t => t = .recursive ↔ κ = .recursive
  | .adTry | .adSpins | .adFail _ _ | .adFailStore _ _ _ | .adRetry _ _ => κ ≠ .recursive
  | .adSpinsLoad _ | .adSpinsStore _ => κ ≠ .recursive ∧ held = 0
  | .assertOwner recursive => (recursive = true ↔ κ = .recursive) ∧ held = 0
  | .recInit => κ = .recursive ∧ held = 0
  | .setOwner => held = 0 ∧ (κ = .recursive → m.count = 1)
  | .nusers => b = .incr ∧ held = 0 ∧ (κ = .recursive → m.count = 1)
  | .nusersStore v => b = .incr ∧ held = 0 ∧ (κ = .recursive → m.count = 1) ∧ v = m.nusers
  | .special => False

/-- A step is good: it is a move, keeps the kind, leads to a point whose knowledge holds, and
    does not fail the assertion. -/
structure LockGood (κ : BasicKind) (b : Build) (id held : ℕ) (p : LockPC) (m : MutexData)
    (r : Flow LockPC × Cell) : Prop where
  kind : r.2.mutex.kind = m.kind
  move : Move κ.isRecursive id (p.status b held) m.fields (p.after b held r.1) r.2.mutex.fields
  ok : match r.1 with
    | .goto p' => p'.Ok κ b held r.2.mutex
    | .ret _ => True
    | .abort _ => False

/-- A step that leaves the mutex and the stage alone is good when its target's knowledge holds. -/
theorem LockGood.of_eq {κ : BasicKind} {b : Build} {id held : ℕ} {p : LockPC} {m : MutexData}
    {r : Flow LockPC × Cell} (hm : r.2.mutex = m) (hs : p.after b held r.1 = p.status b held)
    (hok : match r.1 with
      | .goto p' => p'.Ok κ b held m
      | .ret _ => True
      | .abort _ => False) : LockGood κ b id held p m r where
  kind := by rw [hm]
  move := by rw [hm, hs]; exact Move.stutter ..
  ok := by rw [hm]; exact hok

/-- Taking the free word is a move, and only a thread that does not hold the mutex can do it. -/
theorem Build.acquire_move {κ : BasicKind} {b : Build} {id bound held : ℕ} {m : MutexData}
    (hknow : Knows κ.isRecursive id bound (b.before held) m.fields)
    (hheld : b = .noIncr → held = 0) (hlock : m.lock = 0) {v : ℕ} (hv : v ≠ 0) :
    held = 0 ∧ Move κ.isRecursive id (b.before held) m.fields (.taken (b = .noIncr))
      { m.fields with lock := v } := by
  cases b with
  | incr =>
    by_cases h0 : held = 0
    · subst h0
      exact ⟨rfl, Move.acquire hlock hv⟩
    · exact absurd hlock (hknow.lock (by simp [Build.before, outside, h0, Status.word]))
  | noIncr => exact ⟨hheld rfl, Move.reacquire hlock hv⟩

/-- The word of a taken mutex is not that of a free one. -/
theorem Build.acquired_ne_zero (b : Build) : b.acquired ≠ 0 := by
  cases b <;> decide

/-- Behind `lll_lock` the thread has the word. -/
theorem LockTarget.status_next (t : LockTarget) (b : Build) (held : ℕ) :
    t.next.status b held = .taken (b = .noIncr) := by
  cases t <;> rfl

/-- What a thread knows behind `lll_lock`. -/
theorem LockTarget.next_ok {t : LockTarget} {κ : BasicKind} {b : Build} {m : MutexData}
    (h : t = .recursive ↔ κ = .recursive) : t.next.Ok κ b 0 m := by
  cases t <;> simp_all [LockTarget.next, LockPC.Ok]

/-- `lll_lock` takes the free word, and returns to its target. -/
theorem LockTarget.take_good {κ : BasicKind} {b : Build} {id bound held : ℕ} {p : LockPC}
    {t : LockTarget} {c : Cell} (hp : p.status b held = b.before held)
    (ht : t = .recursive ↔ κ = .recursive)
    (hknow : Knows κ.isRecursive id bound (b.before held) c.mutex.fields)
    (hheld : b = .noIncr → held = 0) (hlock : c.mutex.lock = 0) {v : ℕ} (hv : v ≠ 0) :
    LockGood κ b id held p c.mutex
      (.goto t.next, { c with mutex := { c.mutex with lock := v } }) := by
  obtain ⟨h0, hmove⟩ := Build.acquire_move hknow hheld hlock hv
  refine ⟨rfl, ?_, h0 ▸ LockTarget.next_ok ht⟩
  show Move _ _ (p.status b held) _ (t.next.status b held) _
  rw [hp, t.status_next]
  exact hmove

/-- Finding oneself recorded as the owner before the acquisition means holding the mutex. -/
theorem Build.pos_of_owner {κ : BasicKind} {b : Build} {id bound held : ℕ} {m : MutexData}
    (hknow : Knows κ.isRecursive id bound (b.before held) m.fields) (howner : m.owner = id) :
    b = .incr ∧ 0 < held := by
  have hown := hknow.owner.mp howner
  cases b with
  | incr =>
    refine ⟨rfl, ?_⟩
    by_contra h0
    rw [Build.before, outside, if_pos (by omega)] at hown
    exact absurd hown (by decide)
  | noIncr => exact absurd hown (show ¬ (Status.waiter.own = true) by decide)

/-- A fresh recursive mutex has the count 1, as a number. -/
theorem count_eq_one {κ : BasicKind} {m : MutexData} (h : κ = .recursive → m.count = 1) :
    κ.isRecursive → m.fields.count = 1 := by
  intro hrec
  show m.count.toNat = 1
  rw [h (of_decide_eq_true hrec)]
  rfl

/-- One level deeper: the count is the old one plus one, which did not wrap. -/
theorem enter_move {id held : ℕ} {m : MutexData} (hpos : 0 < held) (hcount : m.count + 1 ≠ 0) :
    Move (BasicKind.isRecursive .recursive) id (outside held) m.fields (.holder (held + 1))
      { m.fields with count := (m.count + 1).toNat } := by
  rw [outside_of_pos hpos, toNat_add_one hcount]
  exact Move.enter rfl

/-- The acquisition is complete: the holder is counted among the users. -/
theorem addUser_move {κ : BasicKind} {id bound : ℕ} {s : Status} {m : MutexData}
    (hknow : Knows κ.isRecursive id bound s m.fields) (hbound : bound < 2 ^ 31)
    (hcount : κ = .recursive → m.count = 1) :
    Move κ.isRecursive id .owned m.fields (.holder 1)
      { m.fields with users := (m.nusers + 1).toNat } := by
  have hle : m.nusers.toNat ≤ bound := hknow.users_le
  rw [toNat_add_one (add_one_ne_zero (by omega))]
  exact Move.addUser (count_eq_one hcount)

/-- What a thread knows before `lll_lock` in the normal case. -/
theorem simple_ok {κ : BasicKind} (hκ : κ ≠ .recursive) (b : Build) (held : ℕ) (m : MutexData) :
    (LockPC.cas .simple).Ok κ b held m := by
  simp [LockPC.Ok, hκ]

/-- The test of the spin loop changes nothing. -/
theorem adCheck_status (b : Build) (held cnt : ℕ) (maxCnt : ℤ) :
    (adCheck cnt maxCnt).status b held = b.before held := by
  unfold adCheck
  split <;> rfl

/-- What a thread knows behind the test of the spin loop. -/
theorem adCheck_ok {κ : BasicKind} (hκ : κ ≠ .recursive) (b : Build) (held cnt : ℕ) (maxCnt : ℤ)
    (m : MutexData) : (adCheck cnt maxCnt).Ok κ b held m := by
  unfold adCheck
  split <;> simp [LockPC.Ok, hκ]

/-- The body of the spin loop changes nothing. -/
theorem Build.adBody_status (b : Build) (held cnt : ℕ) (maxCnt : ℤ) :
    (b.adBody cnt maxCnt).status b held = b.before held := by
  cases b with
  | incr => rfl
  | noIncr => exact adCheck_status ..

/-- What a thread knows in the body of the spin loop. -/
theorem Build.adBody_ok {κ : BasicKind} (hκ : κ ≠ .recursive) (b : Build) (held cnt : ℕ)
    (maxCnt : ℤ) (m : MutexData) : (b.adBody cnt maxCnt).Ok κ b held m := by
  cases b with
  | incr => exact hκ
  | noIncr => exact adCheck_ok hκ ..

/-- **Every step of the lock operation is good**, in both builds. -/
theorem pthreadMutexLock_good {κ : BasicKind} {b : Build} {id bound held : ℕ} {p : LockPC}
    {c : Cell} (env : Special) (hkind : c.mutex.kind = κ.code ∨ c.mutex.kind = destroyedKind)
    (hok : p.Ok κ b held c.mutex) (hheld : b = .noIncr → held = 0)
    (hknow : Knows κ.isRecursive id bound (p.status b held) c.mutex.fields)
    (hbound : bound < 2 ^ 31) :
    LockGood κ b id held p c.mutex (pthreadMutexLock b id env p c) := by
  cases p with
  | stat => cases b <;> exact .of_eq rfl rfl trivial
  | access => exact .of_eq rfl rfl trivial
  | accessStore v => exact .of_eq rfl rfl trivial
  | kind =>
    rcases hkind with hk | hk
    · simp only [pthreadMutexLock, Build.dispatch, hk, switchKind_code]
      cases κ <;> cases b <;> exact .of_eq rfl rfl (by simp [LockPC.Ok])
    · simp only [pthreadMutexLock, Build.dispatch, hk, switchKind_destroyed]
      exact .of_eq rfl rfl trivial
  | recOwner =>
    have hκ : κ = .recursive := hok
    by_cases howner : c.mutex.owner = id
    · simp only [pthreadMutexLock, if_pos howner]
      exact .of_eq rfl rfl ⟨hκ, (Build.pos_of_owner hknow howner).2⟩
    · simp only [pthreadMutexLock, if_neg howner]
      exact .of_eq rfl rfl (by simp [LockPC.Ok, hκ])
  | recCount =>
    obtain ⟨hκ, hpos⟩ := hok
    simp only [pthreadMutexLock]
    split
    · exact .of_eq rfl rfl trivial
    · rename_i hcount
      exact .of_eq rfl rfl ⟨hκ, hpos, rfl, hcount⟩
  | recCountStore v =>
    obtain ⟨rfl, hpos, rfl, hcount⟩ := hok
    cases b with
    | incr =>
      exact ⟨rfl, enter_move hpos hcount, trivial⟩
    | noIncr => exact absurd (hheld rfl) (by omega)
  | errOwner =>
    have hκ : κ ≠ .recursive := hok
    by_cases howner : c.mutex.owner = id
    · simp only [pthreadMutexLock, if_pos howner]
      exact .of_eq rfl rfl trivial
    · simp only [pthreadMutexLock, if_neg howner]
      cases b with
      | incr => exact .of_eq rfl rfl hκ
      | noIncr => exact .of_eq rfl rfl (simple_ok hκ ..)
  | probe =>
    have hκ : κ ≠ .recursive := hok
    by_cases hlock : c.mutex.lock = 2
    · simp only [pthreadMutexLock, if_pos hlock]
      exact .of_eq rfl rfl hκ
    · simp only [pthreadMutexLock, if_neg hlock]
      exact .of_eq rfl rfl (simple_ok hκ ..)
  | fail => exact .of_eq rfl rfl hok
  | failStore v => exact .of_eq rfl rfl hok
  | conflictStat =>
    have hκ : κ ≠ .recursive := hok
    exact .of_eq rfl rfl (simple_ok hκ ..)
  | cas t =>
    simp only [pthreadMutexLock]
    by_cases hlock : c.mutex.lock = lllLockInitializer
    · rw [if_pos hlock]
      exact LockTarget.take_good rfl hok hknow hheld hlock b.acquired_ne_zero
    · rw [if_neg hlock]
      exact .of_eq rfl rfl hok
  | wait t =>
    simp only [pthreadMutexLock]
    by_cases hlock : c.mutex.lock = lllLockInitializer
    · rw [if_pos hlock]
      exact LockTarget.take_good rfl hok hknow hheld hlock (by decide)
    · rw [if_neg hlock]
      exact ⟨rfl, Move.quiet ⟨fun _ => hlock, fun _ => Nat.succ_ne_zero 1⟩, hok⟩
  | adTry =>
    have hκ : κ ≠ .recursive := hok
    simp only [pthreadMutexLock]
    by_cases hlock : c.mutex.lock = lllLockInitializer
    · rw [if_pos hlock]
      obtain ⟨h0, hmove⟩ := Build.acquire_move hknow hheld hlock b.acquired_ne_zero
      exact ⟨rfl, hmove, by simp [LockPC.Ok, hκ, h0]⟩
    · rw [if_neg hlock]
      exact .of_eq rfl rfl hκ
  | adSpins => exact .of_eq rfl (b.adBody_status ..) (b.adBody_ok hok ..)
  | adFail cnt maxCnt => exact .of_eq rfl rfl hok
  | adFailStore cnt maxCnt v => exact .of_eq rfl (adCheck_status ..) (adCheck_ok hok ..)
  | adRetry cnt maxCnt =>
    have hκ : κ ≠ .recursive := hok
    simp only [pthreadMutexLock]
    by_cases hlock : c.mutex.lock = lllLockInitializer
    · rw [if_pos hlock]
      obtain ⟨h0, hmove⟩ := Build.acquire_move hknow hheld hlock b.acquired_ne_zero
      exact ⟨rfl, hmove, hκ, h0⟩
    · rw [if_neg hlock]
      exact .of_eq rfl (b.adBody_status ..) (b.adBody_ok hκ ..)
  | adSpinsLoad cnt => exact .of_eq rfl rfl hok
  | adSpinsStore v =>
    exact ⟨rfl, Move.stutter .., ⟨fun h => absurd h (by decide), fun h => absurd h hok.1⟩, hok.2⟩
  | assertOwner recursive =>
    -- the word is ours and we are not recorded yet, so the field is clear
    have hclear : c.mutex.owner = 0 := hknow.clear rfl rfl
    simp only [pthreadMutexLock, if_pos hclear]
    obtain ⟨hrec, h0⟩ := hok
    cases recursive with
    | true => exact .of_eq rfl rfl ⟨hrec.mp rfl, h0⟩
    | false => exact .of_eq rfl rfl ⟨h0, fun hκ => absurd (hrec.mpr hκ) (by decide)⟩
  | recInit => exact ⟨rfl, Move.initCount, hok.2, fun _ => rfl⟩
  | setOwner =>
    obtain ⟨h0, hcount⟩ := hok
    cases b with
    | incr => exact ⟨rfl, Move.setOwner, rfl, h0, hcount⟩
    | noIncr =>
      subst h0
      exact ⟨rfl, Move.restoreOwner (count_eq_one hcount), trivial⟩
  | nusers => exact .of_eq rfl rfl ⟨hok.1, hok.2.1, hok.2.2, rfl⟩
  | nusersStore v =>
    obtain ⟨rfl, rfl, hcount, rfl⟩ := hok
    exact ⟨rfl, addUser_move hknow hbound hcount, trivial⟩
  | special => exact hok.elim

/-- What a thread knows is stable as long as the count and the number of users are, which they
    are for a thread with the word. -/
theorem LockPC.Ok.frame {κ : BasicKind} {b : Build} {held : ℕ} {p : LockPC} {m m' : MutexData}
    (h : p.Ok κ b held m) (hheld : b = .noIncr → held = 0)
    (hm : (p.status b held).word → m'.count = m.count ∧ m'.nusers = m.nusers) :
    p.Ok κ b held m' := by
  cases p with
  | recCountStore v =>
    obtain ⟨hκ, hpos, hv, hne⟩ := h
    cases b with
    | incr =>
      exact ⟨hκ, hpos, hv.trans (hm (outside_word hpos)).1.symm, hne⟩
    | noIncr => exact absurd (hheld rfl) (by omega)
  | setOwner => exact ⟨h.1, fun hκ => (hm rfl).1.trans (h.2 hκ)⟩
  | nusers => exact ⟨h.1, h.2.1, fun hκ => (hm rfl).1.trans (h.2.2 hκ)⟩
  | nusersStore v =>
    obtain ⟨hb, h0, hcount, hv⟩ := h
    exact ⟨hb, h0, fun hκ => (hm rfl).1.trans (hcount hκ), hv.trans (hm rfl).2.symm⟩
  | _ => exact h

end SyncPerf
