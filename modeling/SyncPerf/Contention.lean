import SyncPerf.Conflicts

namespace SyncPerf

open Interleaving

/-!
# The conflicts of one call

Which calls of `pthread_mutex_lock` that find the lock word taken count a conflict.  A timed or
error checking mutex is probed for waiters before the acquisition, an adaptive one counts in its
spin loop, and a recursive one counts nothing.

* `lockAt`, `Waits`, `Probes` — the steps of a call that the question is about;
* `LockPC.CallOk`, `pthreadMutexLock_call` — how many conflicts a call has counted at a program
  point, and why;
* `call_run` — the count of a whole call;
* `conflict_counted_iff` — the calls that count.
-/

/-! ### What a call has counted -/

/-- The step is an attempt to acquire the mutex that finds the lock word taken. -/
def LockPC.FindsTaken (m : MutexData) : LockPC → Prop
  | .cas _ | .wait _ | .adTry | .adRetry _ _ => m.lock ≠ lllLockInitializer
  | _ => False

/-- The step is the probe for waiters, and finds the word saying that there are. -/
def LockPC.ProbesWaiters (m : MutexData) : LockPC → Prop
  | .probe => m.lock = lllLockInitializerWaiters
  | _ => False

/-- The kinds that are locked by the simple code. -/
def BasicKind.Simple (κ : BasicKind) : Prop := κ = .timed ∨ κ = .errorcheck

/-- What a finished acquisition has counted: `n` conflicts, `probed` and `waited` saying whether
    the probe found waiters and whether an attempt found the word taken. -/
def Grown (κ : BasicKind) (probed waited : Prop) (n : ℕ) : Prop :=
  n ≤ 101 ∧
    match κ with
    | .timed | .errorcheck => 0 < n ↔ probed
    | .recursive => n = 0
    | .adaptive => waited → 0 < n

/-- What a call has counted at a program point. -/
def LockPC.CallOk (κ : BasicKind) (probed waited : Prop) (n : ℕ) : LockPC → Prop
  | .stat | .access | .accessStore _ | .kind => n = 0 ∧ ¬ probed ∧ ¬ waited
  | .recOwner | .recCount | .recCountStore _ | .assertOwner true | .recInit =>
    κ = .recursive ∧ n = 0
  | .errOwner | .probe => κ.Simple ∧ n = 0 ∧ ¬ probed
  | .fail | .failStore _ => κ.Simple ∧ n = 0 ∧ probed
  | .conflictStat => κ.Simple ∧ n = 1 ∧ probed
  | .cas .recursive | .wait .recursive => κ = .recursive ∧ n = 0
  | .cas .simple | .wait .simple => κ.Simple ∧ Grown κ probed waited n
  | .adTry => κ = .adaptive ∧ n = 0 ∧ ¬ waited
  | .adSpins => κ = .adaptive ∧ n = 0
  | .adFail cnt maxCnt | .adFailStore cnt maxCnt _ =>
    κ = .adaptive ∧ n = cnt ∧ (cnt = 0 ∨ (cnt : ℤ) ≤ maxCnt) ∧ maxCnt ≤ maxAdaptiveCount
  | .adRetry cnt maxCnt =>
    κ = .adaptive ∧ n = cnt ∧ 0 < cnt ∧ (cnt : ℤ) ≤ maxCnt ∧ maxCnt ≤ maxAdaptiveCount
  | .cas (.adaptive _) | .wait (.adaptive _) | .adSpinsLoad _ | .adSpinsStore _ =>
    κ = .adaptive ∧ 0 < n ∧ n ≤ 101
  | .assertOwner false | .setOwner | .nusers | .nusersStore _ => Grown κ probed waited n
  | .special => False

/-- What a call has counted when it is at a program point, or has returned. -/
def CallAt (κ : BasicKind) (probed waited : Prop) (n : ℕ) : Option LockPC → Prop
  | some p => p.CallOk κ probed waited n
  | none => Grown κ probed waited n

/-- The conflicts that a step counts. -/
def LockPC.fails (p : LockPC) : ℕ := if p.stores = some .fail then 1 else 0

/-- How the count has grown in the calls without a spin loop. -/
theorem Grown.of_simple {κ : BasicKind} {probed waited : Prop} {n : ℕ} (hκ : κ.Simple)
    (hle : n ≤ 101) (hn : 0 < n ↔ probed) : Grown κ probed waited n := by
  rcases hκ with rfl | rfl <;> exact ⟨hle, hn⟩

/-- On a simple kind it does not matter whether an attempt found the word taken. -/
theorem Grown.waited {κ : BasicKind} {probed waited : Prop} {n : ℕ} (hκ : κ.Simple)
    (h : Grown κ probed waited n) (waited' : Prop) : Grown κ probed waited' n := by
  rcases hκ with rfl | rfl <;> exact h

/-- What the test of the spin loop leaves of the count. -/
theorem adCheck_callOk {probed waited : Prop} {n cnt : ℕ} {maxCnt : ℤ} (hn : n = cnt)
    (hcnt : cnt = 0 ∨ (cnt : ℤ) ≤ maxCnt) (hmax : maxCnt ≤ maxAdaptiveCount) :
    (adCheck cnt maxCnt).CallOk .adaptive probed waited (n + 1) := by
  have h100 : maxAdaptiveCount = 100 := rfl
  unfold adCheck
  split
  · exact ⟨rfl, by omega, by omega⟩
  · exact ⟨rfl, by omega, by omega, by omega, hmax⟩

/-- Where `lll_lock` returns to, nothing more has been counted. -/
theorem LockTarget.callOk {t : LockTarget} {κ : BasicKind} {probed waited : Prop} {n : ℕ}
    (h : (LockPC.cas t).CallOk κ probed waited n) (waited' : Prop) :
    t.next.CallOk κ probed waited' n := by
  cases t with
  | simple => exact h.2.waited h.1 _
  | _ => exact h

/-- **A step of a call** counts what its program point says, and the knowledge of the next one
    follows. -/
theorem pthreadMutexLock_call {κ : BasicKind} {probed waited : Prop} {n : ℕ} (id : ℕ)
    (env : Special) {p : LockPC} (c : Cell) (hok : p.CallOk κ probed waited n)
    (hkind : p = .kind → c.mutex.kind = κ.code) :
    CallAt κ (probed ∨ p.ProbesWaiters c.mutex) (waited ∨ p.FindsTaken c.mutex) (n + p.fails)
      ((pthreadMutexLock .incr id env p c).1.target p) := by
  cases p with
  | stat | access | accessStore v =>
    simp only [LockPC.ProbesWaiters, LockPC.FindsTaken, or_false]
    exact hok
  | kind =>
    obtain ⟨rfl, hp, hw⟩ := hok
    simp only [LockPC.ProbesWaiters, LockPC.FindsTaken, or_false, pthreadMutexLock, Build.dispatch,
      hkind rfl, switchKind_code]
    cases κ with
    | timed => exact ⟨.inl rfl, rfl, hp⟩
    | recursive => exact ⟨rfl, rfl⟩
    | errorcheck => exact ⟨.inr rfl, rfl, hp⟩
    | adaptive => exact ⟨rfl, rfl, hw⟩
  | recOwner =>
    simp only [LockPC.ProbesWaiters, LockPC.FindsTaken, or_false, pthreadMutexLock]
    split <;> exact hok
  | recCount =>
    obtain ⟨rfl, rfl⟩ := hok
    simp only [LockPC.ProbesWaiters, LockPC.FindsTaken, or_false, pthreadMutexLock]
    split
    · exact ⟨Nat.zero_le _, rfl⟩
    · exact ⟨rfl, rfl⟩
  | recCountStore v =>
    obtain ⟨rfl, rfl⟩ := hok
    exact ⟨Nat.zero_le _, rfl⟩
  | errOwner =>
    obtain ⟨hκ, rfl, hp⟩ := hok
    simp only [LockPC.ProbesWaiters, LockPC.FindsTaken, or_false, pthreadMutexLock]
    split
    · exact .of_simple hκ (Nat.zero_le _) ⟨fun h => absurd h (by decide), fun h => absurd h hp⟩
    · exact ⟨hκ, rfl, hp⟩
  | probe =>
    obtain ⟨hκ, rfl, hp⟩ := hok
    simp only [LockPC.ProbesWaiters, LockPC.FindsTaken, or_false, pthreadMutexLock]
    split
    · rename_i hlock
      exact ⟨hκ, rfl, .inr hlock⟩
    · rename_i hlock
      refine ⟨hκ, .of_simple hκ (Nat.zero_le _) ⟨fun h => absurd h (by decide), fun h => ?_⟩⟩
      rcases h with h | h
      · exact absurd h hp
      · exact absurd h hlock
  | fail =>
    simp only [LockPC.ProbesWaiters, LockPC.FindsTaken, or_false]
    exact hok
  | failStore v =>
    obtain ⟨hκ, rfl, hp⟩ := hok
    simp only [LockPC.ProbesWaiters, LockPC.FindsTaken, or_false]
    exact ⟨hκ, rfl, hp⟩
  | conflictStat =>
    obtain ⟨hκ, rfl, hp⟩ := hok
    simp only [LockPC.ProbesWaiters, LockPC.FindsTaken, or_false]
    exact ⟨hκ, .of_simple hκ (by decide) ⟨fun _ => hp, fun _ => by decide⟩⟩
  | cas t =>
    simp only [LockPC.ProbesWaiters, or_false, pthreadMutexLock]
    split
    · exact LockTarget.callOk hok _
    · cases t with
      | simple => exact ⟨hok.1, hok.2.waited hok.1 _⟩
      | _ => exact hok
  | wait t =>
    have hcas : (LockPC.cas t).CallOk κ probed waited n := by cases t <;> exact hok
    simp only [LockPC.ProbesWaiters, or_false, pthreadMutexLock]
    split
    · exact LockTarget.callOk hcas _
    · cases t with
      | simple => exact ⟨hok.1, hok.2.waited hok.1 _⟩
      | _ => exact hok
  | adTry =>
    obtain ⟨rfl, rfl, hw⟩ := hok
    simp only [LockPC.ProbesWaiters, LockPC.FindsTaken, or_false, pthreadMutexLock]
    split
    · rename_i hlock
      exact ⟨Nat.zero_le _, fun h => h.elim (fun h => absurd h hw) fun h => absurd hlock h⟩
    · exact ⟨rfl, rfl⟩
  | adSpins =>
    obtain ⟨rfl, rfl⟩ := hok
    exact ⟨rfl, rfl, .inl rfl, min_le_left _ _⟩
  | adFail cnt maxCnt => exact hok
  | adFailStore cnt maxCnt v =>
    obtain ⟨rfl, hn, hcnt, hmax⟩ := hok
    exact adCheck_callOk hn hcnt hmax
  | adRetry cnt maxCnt =>
    obtain ⟨rfl, rfl, hpos, hle, hmax⟩ := hok
    have h100 : maxAdaptiveCount = 100 := rfl
    simp only [LockPC.ProbesWaiters, pthreadMutexLock]
    split
    · exact ⟨rfl, hpos, show n ≤ 101 by omega⟩
    · exact ⟨rfl, rfl, .inr hle, hmax⟩
  | adSpinsLoad cnt => exact hok
  | adSpinsStore v => exact ⟨hok.2.2, hok.1 ▸ fun _ => hok.2.1⟩
  | assertOwner recursive =>
    simp only [LockPC.ProbesWaiters, LockPC.FindsTaken, or_false, pthreadMutexLock]
    cases recursive with
    | true => split <;> exact hok
    | false => split <;> exact hok
  | recInit =>
    obtain ⟨rfl, rfl⟩ := hok
    exact ⟨Nat.zero_le _, rfl⟩
  | setOwner | nusers | nusersStore v =>
    simp only [LockPC.ProbesWaiters, LockPC.FindsTaken, or_false]
    exact hok
  | special => exact hok.elim

/-! ### A whole call -/

variable {ι : Type}

variable [DecidableEq ι]

/-- Where in `pthread_mutex_lock` on `m` the step is, if it is one of thread `i` there. -/
def lockAt (i : ι) (m : ℕ) (x : Event ι Action Local Shared) : Option LockPC :=
  match x.act, (x.pre.loc i).cur with
  | .step _, some (m', .lock p) => if x.who = i ∧ m' = m then some p else none
  | _, _ => none

/-- The call finds the lock word taken when it tries to acquire the mutex. -/
def Waits (i : ι) (m : ℕ) (x : Event ι Action Local Shared) : Prop :=
  ∃ p ∈ lockAt i m x, p.FindsTaken (x.pre.sh.mutexes m)

/-- The call probes for waiters, and finds some. -/
def Probes (i : ι) (m : ℕ) (x : Event ι Action Local Shared) : Prop :=
  ∃ p ∈ lockAt i m x, p.ProbesWaiters (x.pre.sh.mutexes m)

/-- The step belongs to one call by thread `i` on a mutex `m` of kind `κ`: the thread does not
    call anything else, and where the call reads the kind, it is `κ`. -/
structure InCall (i : ι) (m : ℕ) (κ : BasicKind) (x : Event ι Action Local Shared) : Prop where
  noCall : x.who = i → ∀ m' op, x.act ≠ .call m' op
  kind : lockAt i m x = some .kind → (x.pre.sh.mutexes m).kind = κ.code

/-- A step of a call is one that the thread takes on the mutex. -/
theorem on_of_lockAt {i : ι} {m : ℕ} {p : LockPC} {x : Event ι Action Local Shared}
    (h : p ∈ lockAt i m x) : x.who = i ∧ x.act.on (x.pre.loc i) m := by
  unfold lockAt at h
  split at h
  · rename_i ch m' p' hact hcur
    split at h
    · rename_i hwho
      obtain ⟨hwho, rfl⟩ := hwho
      refine ⟨hwho, ?_⟩
      rw [hact]
      show ((x.pre.loc i).view m').pc ≠ none
      rw [Local.view_of_cur hcur]
      simp
    · exact absurd h (by simp)
  · exact absurd h (by simp)

/-- A step of a lock is at its program point. -/
theorem OpEvent.lockAt {tid : ι ↪ Tid} {i : ι} {m : ℕ} {x : Event ι Action Local Shared}
    {p : LockPC} {cell cell' : Cell} {f : Flow PC}
    (h : OpEvent tid i m x (.lock p) cell f cell') : lockAt i m x = some p := by
  obtain ⟨ch, hact, -⟩ := h.step
  simp only [SyncPerf.lockAt, hact, Local.cur_of_view h.at_pc]
  rw [if_pos ⟨h.who, trivial⟩]

/-- When the step of a lock finds the word taken. -/
theorem waits_iff {i : ι} {m : ℕ} {p : LockPC} {x : Event ι Action Local Shared}
    (h : lockAt i m x = some p) : Waits i m x ↔ p.FindsTaken (x.pre.sh.mutexes m) := by
  simp [Waits, h]

/-- When it finds the word marked for waiters. -/
theorem probes_iff {i : ι} {m : ℕ} {p : LockPC} {x : Event ι Action Local Shared}
    (h : lockAt i m x = some p) : Probes i m x ↔ p.ProbesWaiters (x.pre.sh.mutexes m) := by
  simp [Probes, h]

/-- An element of a list with one more at its end. -/
theorem exists_mem_append_singleton {α : Type} {P : α → Prop} {l : List α} {x : α} :
    (∃ y ∈ l ++ [x], P y) ↔ (∃ y ∈ l, P y) ∨ P x := by
  simp only [List.mem_append, List.mem_singleton, or_and_right, exists_or, exists_eq_left]

/-- Where a step leads, with other names for the points. -/
theorem Flow.target_map {P Q : Type} (f : P → Q) (p : P) (r : Flow P) :
    (r.map f).target (f p) = (r.target p).map f := by
  cases r <;> rfl

/-- The fail count after a step of a call. -/
theorem fail_after {r r' : ThreadMutex} {p : LockPC} {f₀ n : ℕ}
    (h : r.get .fail = (f₀ + n) % 2 ^ 32) (hrec : r' = r.count p.stores) :
    r'.get .fail = (f₀ + (n + p.fails)) % 2 ^ 32 := by
  rw [hrec, ThreadMutex.get_count, LockPC.fails]
  split
  · rw [inc32, h]
    omega
  · exact h

/-- **A whole call.**  From its start on, the fail count has grown by what the program point of
    the call says. -/
theorem call_run {tid : ι ↪ Tid} {κ : BasicKind} {c d : Config ι Local Shared}
    {tr : List (Event ι Action Local Shared)} {i : ι} {m f₀ : ℕ} (hc : RecordInv c i m)
    (hrun : Run (machine tid) c tr d) (hm : m < maxSyncEntries)
    (hstart : (c.loc i).cur = some (m, .lock .stat))
    (hf₀ : (c.sh.record (c.loc i) m).get .fail = f₀) (hlt : f₀ < 2 ^ 32)
    (hcall : ∀ x ∈ tr, InCall i m κ x) :
    ∃ n q, (d.sh.record (d.loc i) m).get .fail = (f₀ + n) % 2 ^ 32 ∧
      ((d.loc i).view m).pc = q.map PC.lock ∧
      CallAt κ (∃ x ∈ tr, Probes i m x) (∃ x ∈ tr, Waits i m x) n q := by
  refine (record_run hc hrun hm (I := fun tr pc r => (∀ x ∈ tr, InCall i m κ x) →
    ∃ n q, r.get .fail = (f₀ + n) % 2 ^ 32 ∧ pc = q.map PC.lock ∧
      CallAt κ (∃ x ∈ tr, Probes i m x) (∃ x ∈ tr, Waits i m x) n q) ?_ ?_ ?_ ?_).2 hcall
  · intro _
    refine ⟨0, some .stat, ?_, ?_, rfl, by simp, by simp⟩
    · rw [hf₀, Nat.add_zero, Nat.mod_eq_of_lt hlt]
    · rw [Local.view_of_cur hstart]
      rfl
  · intro tr x pc r hnot ih hG
    obtain ⟨n, q, hn, hq, hcallat⟩ := ih fun y hy => hG y (List.mem_append_left _ hy)
    refine ⟨n, q, hn, hq, ?_⟩
    -- an event elsewhere neither probes nor waits
    have hprobes : ¬ Probes i m x := fun ⟨_, hat, _⟩ =>
      hnot (on_of_lockAt hat).1 (on_of_lockAt hat).2
    have hwaits : ¬ Waits i m x := fun ⟨_, hat, _⟩ =>
      hnot (on_of_lockAt hat).1 (on_of_lockAt hat).2
    simp only [exists_mem_append_singleton, hprobes, hwaits, or_false]
    exact hcallat
  · intro tr x op r hwho hact _ hG
    exact absurd hact ((hG x (by simp)).noCall hwho m op)
  · intro tr x pc cell f cell' _ hev ih hG
    obtain ⟨n, q, hn, hq, hcallat⟩ := ih fun y hy => hG y (List.mem_append_left _ hy)
    cases q with
    | none => exact absurd hq (by simp)
    | some p =>
      obtain rfl : pc = .lock p := Option.some.inj hq
      obtain ⟨ch, hact, hop⟩ := hev.step
      have hat : lockAt i m x = some p := hev.lockAt
      -- the event is a step of the call at the point `p`
      have hstep := pthreadMutexLock_call (tid i).val ch.special cell
        hcallat fun hp => by
          rw [hev.mutex]
          exact (hG x (by simp)).kind (hp ▸ hat)
      simp only [opStep, Prod.mk.injEq] at hop
      obtain ⟨rfl, rfl⟩ := hop
      refine ⟨n + p.fails, (pthreadMutexLock .incr (tid i).val ch.special p cell).1.target p,
        fail_after hn hev.counts.record, Flow.target_map .., ?_⟩
      simp only [exists_mem_append_singleton, probes_iff hat, waits_iff hat, ← hev.mutex]
      exact hstep

/-- A fail count is an `unsigned int`. -/
theorem fail_lt_run {tid : ι ↪ Tid} {c d : Config ι Local Shared}
    {tr : List (Event ι Action Local Shared)} (hinit : Initial c)
    (hrun : Run (machine tid) c tr d) (j : ι) {m : ℕ} (hm : m < maxSyncEntries) :
    RecordInv d j m ∧ (d.sh.record (d.loc j) m).get .fail < 2 ^ 32 := by
  refine record_run (.initial hinit j m) hrun hm (I := fun _ _ r => r.get .fail < 2 ^ 32)
    ?_ (fun _ _ _ _ _ ih => ih) (fun _ _ _ _ _ _ ih => ih) ?_
  · rw [hinit.loc]
    exact Nat.two_pow_pos 32
  · intro tr x pc cell f cell' _ hev ih
    have hrec : cell'.record = cell.record.count pc.stores := hev.counts.record
    rw [hrec, ThreadMutex.get_count]
    split
    · exact Nat.mod_lt _ (Nat.two_pow_pos 32)
    · exact ih

/-- An `unsigned int` counter has grown from `x` to `y`, without coming all the way round. -/
def Grows (x y : ℕ) : Prop := ∃ k, 0 < k ∧ k < 2 ^ 32 ∧ y = (x + k) % 2 ^ 32

/-- **Which conflicts are counted.**  A call of `pthread_mutex_lock` that finds the lock word
    taken when it tries to acquire the mutex, and then returns, has counted a conflict if and only
    if the mutex is adaptive, or it is timed or error checking and the call's probe read a lock
    word that says there are waiters. -/
theorem conflict_counted_iff {tid : ι ↪ Tid} {κ : BasicKind} {c₀ c d : Config ι Local Shared}
    {tr₀ tr : List (Event ι Action Local Shared)} {i : ι} {m : ℕ} (hinit : Initial c₀)
    (hrun₀ : Run (machine tid) c₀ tr₀ c) (hstart : (c.loc i).cur = some (m, .lock .stat))
    (hrun : Run (machine tid) c tr d) (hcall : ∀ x ∈ tr, InCall i m κ x)
    (hend : (d.loc i).cur = none) (hwait : ∃ x ∈ tr, Waits i m x) :
    Grows (c.sh.record (c.loc i) m).failCount (d.sh.record (d.loc i) m).failCount ↔
      κ = .adaptive ∨ κ.Simple ∧ ∃ x ∈ tr, Probes i m x := by
  have hm := (IndexInv.run hinit hrun₀).cur i m _ hstart
  obtain ⟨hc, hlt⟩ := fail_lt_run hinit hrun₀ i hm
  obtain ⟨n, q, hn, hq, hgrown⟩ := call_run hc hrun hm hstart rfl hlt hcall
  rw [Local.view_of_none hend] at hq
  obtain rfl : q = none := by
    cases q with
    | none => rfl
    | some p => exact absurd hq (by simp)
  -- a call counts at most 101 conflicts, so that the counter cannot come round
  have hgrows : Grows (c.sh.record (c.loc i) m).failCount (d.sh.record (d.loc i) m).failCount ↔
      0 < n := by
    have hle := hgrown.1
    constructor
    · rintro ⟨k, hpos, hk, hd⟩
      by_contra h0
      have hsame : ((c.sh.record (c.loc i) m).failCount + k) % 2 ^ 32 =
          ((c.sh.record (c.loc i) m).failCount + n) % 2 ^ 32 := hd.symm.trans hn
      have hlt' : (c.sh.record (c.loc i) m).failCount < 2 ^ 32 := hlt
      omega
    · intro hpos
      exact ⟨n, hpos, by omega, hn⟩
  have hkind := hgrown.2
  rw [hgrows]
  cases κ with
  | timed =>
    have hprobed : 0 < n ↔ ∃ x ∈ tr, Probes i m x := hkind
    rw [hprobed]
    exact ⟨fun h => .inr ⟨.inl rfl, h⟩, fun h => h.elim (fun h => by cases h) And.right⟩
  | errorcheck =>
    have hprobed : 0 < n ↔ ∃ x ∈ tr, Probes i m x := hkind
    rw [hprobed]
    exact ⟨fun h => .inr ⟨.inr rfl, h⟩, fun h => h.elim (fun h => by cases h) And.right⟩
  | recursive =>
    obtain rfl : n = 0 := hkind
    refine ⟨fun h => absurd h (by decide), fun h => ?_⟩
    rcases h with h | ⟨h | h, -⟩ <;> cases h
  | adaptive => exact ⟨fun _ => .inl rfl, fun _ => hkind hwait⟩

/-! ### A call that counts, and one that does not -/

instance (m : MutexData) (p : LockPC) : Decidable (p.FindsTaken m) := by
  apply LockPC.casesOn (motive := fun p => Decidable (p.FindsTaken m)) p <;> intros <;>
    first | exact instDecidableNot | exact isFalse id

instance (i : ι) (m : ℕ) (x : Event ι Action Local Shared) : Decidable (Waits i m x) := by
  unfold Waits
  infer_instance

instance (a : Action) : Decidable (∀ m op, a ≠ .call m op) :=
  match a with
  | .call m op => isFalse fun h => h m op rfl
  | .start .. | .join _ | .step _ => isTrue nofun

instance (i : ι) (m : ℕ) (κ : BasicKind) (x : Event ι Action Local Shared) :
    Decidable (InCall i m κ x) :=
  decidable_of_iff ((x.who = i → ∀ m' op, x.act ≠ .call m' op) ∧
    (lockAt i m x = some .kind → (x.pre.sh.mutexes m).kind = κ.code))
    ⟨fun h => ⟨h.1, h.2⟩, fun h => ⟨h.noCall, h.kind⟩⟩

/-- One thread holds an adaptive mutex, and the other one calls `pthread_mutex_lock`. -/
def spinCalled := (machine pairTid).execute adaptiveStart
  (List.flatten [pairSetup, [(false, .call 0 .lock)], List.replicate 9 (false, .step {}),
    [(true, .call 0 .lock)]]) (by decide +kernel)

/-- The call fails in `lll_trylock` and counts that; the holder unlocks; the first retry succeeds. -/
def spinReturned := (machine pairTid).execute spinCalled.2
  (List.flatten [List.replicate 8 (true, .step {}), [(false, .call 0 .unlock)],
    List.replicate 7 (false, .step {}), List.replicate 7 (true, .step {})]) (by decide +kernel)

/-- The count grows in a call that spins. -/
theorem conflict_counted_spin :
    Grows (spinCalled.2.sh.record (spinCalled.2.loc true) 0).failCount
      (spinReturned.2.sh.record (spinReturned.2.loc true) 0).failCount := by
  have hiff := conflict_counted_iff (κ := .adaptive) (i := true) (m := 0) adaptiveStart_initial
    (System.execute_run (machine pairTid) _ _ _ : Run _ _ spinCalled.1 spinCalled.2)
    (by decide +kernel)
    (System.execute_run (machine pairTid) _ _ _ : Run _ _ spinReturned.1 spinReturned.2)
    (by decide +kernel) (by decide +kernel) (by decide +kernel)
  exact hiff.mpr (.inl rfl)

/-- One thread holds a normal mutex, and the other one calls `pthread_mutex_lock`. -/
def firstWaiterCalled := (machine pairTid).execute pairStart
  (List.flatten [pairSetup, [(false, .call 0 .lock)], List.replicate 10 (false, .step {}),
    [(true, .call 0 .lock)]]) (by decide +kernel)

/-- The call finds the word taken and waits until the holder unlocks; when it probed the word,
    nobody was waiting yet. -/
def firstWaiterReturned := (machine pairTid).execute firstWaiterCalled.2
  (List.flatten [List.replicate 7 (true, .step {}), [(false, .call 0 .unlock)],
    List.replicate 5 (false, .step {}), List.replicate 5 (true, .step {})]) (by decide +kernel)

/-- The first thread that has to wait is not counted. -/
theorem firstWaiter_not_counted :
    Initial pairStart ∧
      Run (machine pairTid) pairStart firstWaiterCalled.1 firstWaiterCalled.2 ∧
      (firstWaiterCalled.2.loc true).cur = some (0, .lock .stat) ∧
      Run (machine pairTid) firstWaiterCalled.2 firstWaiterReturned.1 firstWaiterReturned.2 ∧
      (∀ x ∈ firstWaiterReturned.1, InCall true 0 .timed x) ∧
      (firstWaiterReturned.2.loc true).cur = none ∧
      (∃ x ∈ firstWaiterReturned.1, Waits true 0 x) ∧
      ¬ Grows (firstWaiterCalled.2.sh.record (firstWaiterCalled.2.loc true) 0).failCount
        (firstWaiterReturned.2.sh.record (firstWaiterReturned.2.loc true) 0).failCount := by
  refine ⟨pairStart_initial, System.execute_run _ _ _ _, by decide +kernel,
    System.execute_run _ _ _ _, by decide +kernel, by decide +kernel, by decide +kernel, ?_⟩
  have hbefore : (firstWaiterCalled.2.sh.record (firstWaiterCalled.2.loc true) 0).failCount = 0 := by
    decide +kernel
  have hafter :
      (firstWaiterReturned.2.sh.record (firstWaiterReturned.2.loc true) 0).failCount = 0 := by
    decide +kernel
  rw [hbefore, hafter]
  rintro ⟨k, hpos, hk, hd⟩
  omega

end SyncPerf
