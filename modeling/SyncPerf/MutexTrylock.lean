import SyncPerf.MutexLock

namespace SyncPerf

open OwnedLock

/-!
# `pthread_mutex_trylock`

`mutex_trylock.c` in the `WITH_TRYLOCK` build, from the point where the real mutex is known: the
counting of the wrapper around `do_mutex_trylock`, and `do_mutex_trylock` itself.

* `TryPC`, `pthreadMutexTrylock` — the program points and the steps;
* `pthreadMutexTrylock_good` — every step is a move of the owned-lock discipline.
-/

/-! ### The steps -/

/-- The program points; the last five count a failed attempt. -/
inductive TryPC
  | stat
  | access
  | accessStore (v : ℕ)
  | kind
  | recOwner
  | recCount
  | recCountStore (v : BitVec 32)
  | cas (recursive : Bool)
  | setOwner (recursive : Bool)
  | recInit
  | nusers
  | nusersStore (v : BitVec 32)
  | special
  | fail
  | failStore (v : ℕ)
  | trylockFail
  | trylockFailStore (v : ℕ)
  deriving DecidableEq

/-- `result` is returned, after the failure counts when it is `EBUSY`. -/
def tryResult (result : ℕ) : Flow TryPC := if result = eBUSY then .goto .fail else .ret result

/-- The `switch` on `PTHREAD_MUTEX_TYPE_ELISION`. -/
def tryDispatch (kind : BitVec 32) : Flow TryPC :=
  let type := pthreadMutexTypeElision kind
  -- the case of a timed mutex with elision starts with an assertion that it is not reached
  if type = elisionNp then .abort .elision
  else if type = BasicKind.recursive.code ||| elisionNp then .goto .recOwner
  else
    match switchKind type with
    | .basic .recursive => .goto .recOwner
    | .basic _ => .goto (.cas false)
    | .special => .goto .special
    | .invalid => tryResult eINVAL

/-- One step of thread `id`; `env` is what a special mutex's code did. -/
def pthreadMutexTrylock (id : ℕ) (env : Special) (p : TryPC) (c : Cell) : Flow TryPC × Cell :=
  let m := c.mutex
  match p with
  | .stat =>
    (.goto .access, { c with stats :=
      { c.stats with totalLocks := inc64 c.stats.totalLocks } })
  -- `inc_access_count`
  | .access => (.goto (.accessStore (c.record.get .access)), c)
  | .accessStore v => (.goto .kind, { c with record := c.record.set .access (inc32 v) })
  -- `do_mutex_trylock`
  | .kind => (tryDispatch m.kind, c)
  | .recOwner => (.goto (if m.owner = id then .recCount else .cas true), c)
  | .recCount =>
    if m.count + 1 = 0 then (tryResult eAGAIN, c) else (.goto (.recCountStore m.count), c)
  | .recCountStore v => (tryResult 0, { c with mutex := { m with count := v + 1 } })
  | .cas recursive =>
    if m.lock = lllLockInitializer then
      (.goto (.setOwner recursive), { c with mutex := { m with lock := lllLockInitializerLocked } })
    else (tryResult eBUSY, c)
  -- the ownership is recorded, for a recursive mutex with a count of one
  | .setOwner recursive =>
    (.goto (if recursive then .recInit else .nusers), { c with mutex := { m with owner := id } })
  | .recInit => (.goto .nusers, { c with mutex := { m with count := 1 } })
  | .nusers => (.goto (.nusersStore m.nusers), c)
  | .nusersStore v => (tryResult 0, { c with mutex := { m with nusers := v + 1 } })
  | .special => (tryResult env.code, { c with mutex := env.mutex })
  -- `inc_trylock_fail_count`
  | .fail => (.goto (.failStore (c.record.get .fail)), c)
  | .failStore v => (.goto .trylockFail, { c with record := c.record.set .fail (inc32 v) })
  | .trylockFail => (.goto (.trylockFailStore (c.record.get .trylockFail)), c)
  | .trylockFailStore v => (.ret eBUSY, { c with record := c.record.set .trylockFail (inc32 v) })

/-! ### Every step is a move -/

/-- The stage of a thread at a program point. -/
def TryPC.status (held : ℕ) : TryPC → Status
  | .setOwner _ => .taken false
  | .recInit | .nusers | .nusersStore _ => .owned
  | _ => outside held

/-- The stage after a step from `p`. -/
def TryPC.after (held : ℕ) (p : TryPC) : Flow TryPC → Status
  | .goto p' => p'.status held
  | .ret code => if code = 0 then .holder (held + 1) else outside held
  | .abort _ => p.status held

/-- What a thread knows at a program point, the mutex being of kind `κ`. -/
def TryPC.Ok (κ : BasicKind) (held : ℕ) (m : MutexData) : TryPC → Prop
  | .recOwner => κ = .recursive
  | .recCount => κ = .recursive ∧ 0 < held
  | .recCountStore v => κ = .recursive ∧ 0 < held ∧ v = m.count ∧ v + 1 ≠ 0
  | .cas recursive => recursive = true ↔ κ = .recursive
  | .setOwner recursive => (recursive = true ↔ κ = .recursive) ∧ held = 0
  | .recInit => κ = .recursive ∧ held = 0
  | .nusers => held = 0 ∧ (κ = .recursive → m.count = 1)
  | .nusersStore v => held = 0 ∧ (κ = .recursive → m.count = 1) ∧ v = m.nusers
  | .special => False
  | _ => True

/-- A step is good: it is a move, keeps the kind, leads to a point whose knowledge holds, and
    fails no assertion. -/
structure TryGood (κ : BasicKind) (id held : ℕ) (p : TryPC) (m : MutexData)
    (r : Flow TryPC × Cell) : Prop where
  kind : r.2.mutex.kind = m.kind
  move : Move κ.isRecursive id (p.status held) m.fields (p.after held r.1) r.2.mutex.fields
  ok : match r.1 with
    | .goto p' => p'.Ok κ held r.2.mutex
    | .ret _ => True
    | .abort _ => False

/-- A step that leaves the mutex and the stage alone is good when its target's knowledge holds. -/
theorem TryGood.of_eq {κ : BasicKind} {id held : ℕ} {p : TryPC} {m : MutexData}
    {r : Flow TryPC × Cell} (hm : r.2.mutex = m) (hs : p.after held r.1 = p.status held)
    (hok : match r.1 with
      | .goto p' => p'.Ok κ held m
      | .ret _ => True
      | .abort _ => False) : TryGood κ id held p m r where
  kind := by rw [hm]
  move := by rw [hm, hs]; exact Move.stutter ..
  ok := by rw [hm]; exact hok

/-- The dispatch on a basic kind, or on a destroyed mutex. -/
theorem tryDispatch_code (κ : BasicKind) :
    tryDispatch κ.code = if κ = .recursive then .goto .recOwner else .goto (.cas false) := by
  cases κ <;> rfl

theorem tryDispatch_destroyed : tryDispatch destroyedKind = .ret eINVAL := by decide

/-- **Every step of the trylock operation is good.** -/
theorem pthreadMutexTrylock_good {κ : BasicKind} {id bound held : ℕ} {p : TryPC} {c : Cell}
    (env : Special) (hkind : c.mutex.kind = κ.code ∨ c.mutex.kind = destroyedKind)
    (hok : p.Ok κ held c.mutex)
    (hknow : Knows κ.isRecursive id bound (p.status held) c.mutex.fields)
    (hbound : bound < 2 ^ 31) :
    TryGood κ id held p c.mutex (pthreadMutexTrylock id env p c) := by
  cases p with
  | stat => exact .of_eq rfl rfl trivial
  | access => exact .of_eq rfl rfl trivial
  | accessStore v => exact .of_eq rfl rfl trivial
  | kind =>
    rcases hkind with hk | hk
    · simp only [pthreadMutexTrylock, hk, tryDispatch_code]
      split
      · rename_i hκ
        exact .of_eq rfl rfl hκ
      · rename_i hκ
        exact .of_eq rfl rfl ⟨fun h => absurd h (by decide), fun h => absurd h hκ⟩
    · simp only [pthreadMutexTrylock, hk, tryDispatch_destroyed]
      exact .of_eq rfl rfl trivial
  | recOwner =>
    have hκ : κ = .recursive := hok
    by_cases howner : c.mutex.owner = id
    · simp only [pthreadMutexTrylock, if_pos howner]
      exact .of_eq rfl rfl ⟨hκ, (Build.pos_of_owner (b := .incr) hknow howner).2⟩
    · simp only [pthreadMutexTrylock, if_neg howner]
      exact .of_eq rfl rfl ⟨fun _ => hκ, fun _ => rfl⟩
  | recCount =>
    obtain ⟨hκ, hpos⟩ := hok
    simp only [pthreadMutexTrylock]
    split
    · exact .of_eq rfl rfl trivial
    · rename_i hcount
      exact .of_eq rfl rfl ⟨hκ, hpos, rfl, hcount⟩
  | recCountStore v =>
    obtain ⟨rfl, hpos, rfl, hcount⟩ := hok
    exact ⟨rfl, enter_move hpos hcount, trivial⟩
  | cas recursive =>
    simp only [pthreadMutexTrylock]
    by_cases hlock : c.mutex.lock = lllLockInitializer
    · rw [if_pos hlock]
      obtain ⟨h0, hmove⟩ := Build.acquire_move (b := .incr) hknow (fun h => absurd h (by decide))
        hlock (v := 1) (by decide)
      exact ⟨rfl, hmove, hok, h0⟩
    · rw [if_neg hlock]
      exact .of_eq rfl rfl trivial
  | setOwner recursive =>
    obtain ⟨hrec, h0⟩ := hok
    cases recursive with
    | true => exact ⟨rfl, Move.setOwner, hrec.mp rfl, h0⟩
    | false => exact ⟨rfl, Move.setOwner, h0, fun hκ => absurd (hrec.mpr hκ) (by decide)⟩
  | recInit => exact ⟨rfl, Move.initCountOwned, hok.2, fun _ => rfl⟩
  | nusers => exact .of_eq rfl rfl ⟨hok.1, hok.2, rfl⟩
  | nusersStore v =>
    obtain ⟨h0, hcount, rfl⟩ := hok
    subst h0
    exact ⟨rfl, addUser_move hknow hbound hcount, trivial⟩
  | special => exact hok.elim
  | fail => exact .of_eq rfl rfl trivial
  | failStore v => exact .of_eq rfl rfl trivial
  | trylockFail => exact .of_eq rfl rfl trivial
  | trylockFailStore v => exact .of_eq rfl rfl trivial

/-- What a thread knows is stable as long as the count and the number of users are. -/
theorem TryPC.Ok.frame {κ : BasicKind} {held : ℕ} {p : TryPC} {m m' : MutexData}
    (h : p.Ok κ held m)
    (hm : (p.status held).word → m'.count = m.count ∧ m'.nusers = m.nusers) :
    p.Ok κ held m' := by
  cases p with
  | recCountStore v =>
    obtain ⟨hκ, hpos, hv, hne⟩ := h
    exact ⟨hκ, hpos, hv.trans (hm (outside_word hpos)).1.symm, hne⟩
  | nusers => exact ⟨h.1, fun hκ => (hm rfl).1.trans (h.2 hκ)⟩
  | nusersStore v =>
    obtain ⟨h0, hcount, hv⟩ := h
    exact ⟨h0, fun hκ => (hm rfl).1.trans (hcount hκ), hv.trans (hm rfl).2.symm⟩
  | _ => exact h

end SyncPerf
