import SyncPerf.MutexTrylock

namespace SyncPerf

open OwnedLock

/-!
# `pthread_mutex_unlock` and `pthread_mutex_destroy`

`__pthread_mutex_unlock_usercnt` of `mutex_unlock.c`, which `pthread_mutex_unlock` calls with
`decr` set and `pthread_cond_wait` without, and `mutex_destroy.c`, both from the point where the
real mutex is known.

* `UnlPC`, `pthreadMutexUnlockUsercnt` — the program points and the steps of an unlock;
* `DesPC`, `pthreadMutexDestroy` — those of a destroy;
* `pthreadMutexUnlockUsercnt_good` — every step of an unlock is a move of the owned-lock
  discipline.
-/

/-! ### The steps -/

/-- The program points; `type` is the local of that name. -/
inductive UnlPC
  | type
  | recursive (type : BitVec 32)
  | adaptive (type : BitVec 32)
  | recOwner
  | recCount
  | recCountStore (v : BitVec 32)
  | errOwner
  | errLocked
  | owner
  | nusers
  | nusersStore (v : BitVec 32)
  | word
  | special
  deriving DecidableEq

/-- The first tests on `type`; `__pthread_mutex_unlock_full` switches on `PTHREAD_MUTEX_TYPE`. -/
def unlDispatch (kind : BitVec 32) : Flow UnlPC :=
  let type := pthreadMutexTypeElision kind
  if type &&& ~~~(kindMask ||| elisionFlags) ≠ 0 then
    match switchKind (pthreadMutexType kind) with
    | .special => .goto .special
    | _ => .ret eINVAL
  else if type = BasicKind.timed.code then .goto .owner
  -- the branch for elision ends without a return value
  else if type = elisionNp then .goto .special
  else .goto (.recursive type)

/-- One step of thread `id`; `env` is what a special mutex's code did. -/
def pthreadMutexUnlockUsercnt (decr : Bool) (id : ℕ) (env : Special) (p : UnlPC) (c : Cell) :
    Flow UnlPC × Cell :=
  let m := c.mutex
  match p with
  | .type => (unlDispatch m.kind, c)
  -- the kind is read again by each of the next two tests
  | .recursive type =>
    (.goto (if pthreadMutexType m.kind = BasicKind.recursive.code then .recOwner
      else .adaptive type), c)
  | .adaptive type =>
    if pthreadMutexType m.kind = BasicKind.adaptive.code then (.goto .owner, c)
    else if type = BasicKind.errorcheck.code then (.goto .errOwner, c)
    else (.abort .type, c)
  | .recOwner => if m.owner ≠ id then (.ret ePERM, c) else (.goto .recCount, c)
  -- `if (--mutex->__data.__count != 0) return 0;`
  | .recCount => (.goto (.recCountStore m.count), c)
  | .recCountStore v =>
    (if v - 1 ≠ 0 then .ret 0 else .goto .owner, { c with mutex := { m with count := v - 1 } })
  | .errOwner => if m.owner ≠ id then (.ret ePERM, c) else (.goto .errLocked, c)
  | .errLocked => if m.lock = lllLockInitializer then (.ret ePERM, c) else (.goto .owner, c)
  -- `normal:`
  | .owner =>
    (.goto (if decr then .nusers else .word), { c with mutex := { m with owner := 0 } })
  | .nusers => (.goto (.nusersStore m.nusers), c)
  | .nusersStore v => (.goto .word, { c with mutex := { m with nusers := v - 1 } })
  -- `lll_unlock`
  | .word => (.ret 0, { c with mutex := { m with lock := lllLockInitializer } })
  | .special => (.ret env.code, { c with mutex := env.mutex })

/-- The program points of `pthread_mutex_destroy`. -/
inductive DesPC
  | kind
  | nusers
  | store
  deriving DecidableEq

/-- One step. -/
def pthreadMutexDestroy (p : DesPC) (c : Cell) : Flow DesPC × Cell :=
  let m := c.mutex
  match p with
  | .kind => (.goto (if m.kind &&& robustNormal = 0 then .nusers else .store), c)
  | .nusers => if m.nusers ≠ 0 then (.ret eBUSY, c) else (.goto .store, c)
  | .store => (.ret 0, { c with mutex := { m with kind := destroyedKind } })

/-! ### Every step is a move -/

/-- The stage of a thread at a program point. -/
def UnlPC.status (decr : Bool) (held : ℕ) : UnlPC → Status
  | .owner => .leaving
  | .nusers | .nusersStore _ => .taken true
  | .word => .taken !decr
  | _ => outside held

/-- The stage after a step from `p`: without `decr` the thread stays a user. -/
def UnlPC.after (decr : Bool) (held : ℕ) (p : UnlPC) : Flow UnlPC → Status
  | .goto p' => p'.status decr held
  | .ret code =>
    if code = 0 then (if decr then outside (held - 1) else .waiter) else outside held
  | .abort _ => p.status decr held

/-- What a thread knows at a program point, the mutex being of kind `κ`. -/
def UnlPC.Ok (κ : BasicKind) (decr : Bool) (held : ℕ) (m : MutexData) : UnlPC → Prop
  | .type => True
  | .recursive t => t = κ.code ∧ κ ≠ .timed
  | .adaptive t => t = κ.code ∧ κ ≠ .timed ∧ (0 < held → κ ≠ .recursive)
  | .recOwner => κ = .recursive
  | .recCount => κ = .recursive ∧ 0 < held
  | .recCountStore v => κ = .recursive ∧ 0 < held ∧ v = m.count
  | .errOwner => κ = .errorcheck
  | .errLocked => κ = .errorcheck ∧ 0 < held
  | .owner | .word => held = 1
  | .nusers => decr = true ∧ held = 1
  | .nusersStore v => decr = true ∧ held = 1 ∧ v = m.nusers
  | .special => False

/-- Who may unlock: the kinds that do not check their owner only the holder, and
    `pthread_cond_wait` only at depth one. -/
structure UnlLegal (κ : BasicKind) (decr : Bool) (held : ℕ) : Prop where
  holder : κ = .timed ∨ κ = .adaptive → 0 < held
  depth : decr = false → held = 1

/-- A step is good: it is a move, keeps the kind and leads to a point whose knowledge holds.  The
    assertion on `type` can fail, when the mutex is destroyed between two reads of its kind. -/
structure UnlGood (κ : BasicKind) (decr : Bool) (id held : ℕ) (p : UnlPC) (m : MutexData)
    (r : Flow UnlPC × Cell) : Prop where
  kind : r.2.mutex.kind = m.kind
  move : Move κ.isRecursive id (p.status decr held) m.fields (p.after decr held r.1)
    r.2.mutex.fields
  ok : match r.1 with
    | .goto p' => p'.Ok κ decr held r.2.mutex
    | .ret _ => True
    | .abort a => a = .type

/-- A step that leaves the mutex and the stage alone is good when its target's knowledge holds. -/
theorem UnlGood.of_eq {κ : BasicKind} {decr : Bool} {id held : ℕ} {p : UnlPC} {m : MutexData}
    {r : Flow UnlPC × Cell} (hm : r.2.mutex = m)
    (hs : p.after decr held r.1 = p.status decr held)
    (hok : match r.1 with
      | .goto p' => p'.Ok κ decr held m
      | .ret _ => True
      | .abort a => a = .type) : UnlGood κ decr id held p m r where
  kind := by rw [hm]
  move := by rw [hm, hs]; exact Move.stutter ..
  ok := by rw [hm]; exact hok

/-- A holder at depth one starts to leave. -/
theorem UnlGood.leave {κ : BasicKind} {decr : Bool} {id : ℕ} {p : UnlPC} {c : Cell}
    (hs : p.status decr 1 = .holder 1) :
    UnlGood κ decr id 1 p c.mutex (.goto .owner, c) where
  kind := rfl
  move := by rw [hs]; exact Move.leave
  ok := rfl

theorem unlDispatch_code (κ : BasicKind) :
    unlDispatch κ.code = if κ = .timed then .goto .owner else .goto (.recursive κ.code) := by
  cases κ <;> rfl

theorem unlDispatch_destroyed : unlDispatch destroyedKind = .ret eINVAL := by decide

/-- An unlock goes on from its first test only with a kind that is not destroyed. -/
theorem unlDispatch_goto {κ : BasicKind} {kind : BitVec 32} {p : UnlPC}
    (hkind : kind = κ.code ∨ kind = destroyedKind) (h : unlDispatch kind = .goto p) :
    kind = κ.code := by
  rcases hkind with hk | hk
  · exact hk
  · rw [hk, unlDispatch_destroyed] at h
    exact absurd h (by simp)

/-- What the first test returns is an error. -/
theorem unlDispatch_ret {κ : BasicKind} {kind : BitVec 32} {code : ℕ}
    (hkind : kind = κ.code ∨ kind = destroyedKind) (h : unlDispatch kind = .ret code) :
    code ≠ 0 := by
  rcases hkind with hk | hk
  · rw [hk, unlDispatch_code] at h
    split at h <;> exact absurd h (by simp)
  · rw [hk, unlDispatch_destroyed, Flow.ret.injEq] at h
    rw [← h]
    decide

/-- The second test of the kind is only reached from the first. -/
theorem eq_type_of_goto_recursive {decr : Bool} {id : ℕ} {env : Special} {p : UnlPC} {c : Cell}
    {t : BitVec 32} (h : (pthreadMutexUnlockUsercnt decr id env p c).1 = .goto (.recursive t)) :
    p = .type := by
  cases p <;> simp only [pthreadMutexUnlockUsercnt] at h <;> first
    | rfl
    | (repeat' split at h) <;> simp at h

/-- Only the recursive kind is held deeper than once. -/
theorem held_eq_one {κ : BasicKind} {id bound held : ℕ} {m : MutexData}
    (hknow : Knows κ.isRecursive id bound (outside held) m.fields) (hpos : 0 < held)
    (hκ : κ ≠ .recursive) : held = 1 := by
  exact (hknow.depth held (outside_of_pos hpos)).2.2 (by simp [BasicKind.isRecursive, hκ])

/-- **Every step of an unlock is good.** -/
theorem pthreadMutexUnlockUsercnt_good {κ : BasicKind} {decr : Bool} {id bound held : ℕ}
    {p : UnlPC} {c : Cell} (env : Special)
    (hkind : c.mutex.kind = κ.code ∨ c.mutex.kind = destroyedKind)
    (hheld : ∀ t, p = .recursive t → 0 < held → c.mutex.kind = κ.code)
    (hlegal : UnlLegal κ decr held) (hok : p.Ok κ decr held c.mutex)
    (hknow : Knows κ.isRecursive id bound (p.status decr held) c.mutex.fields) :
    UnlGood κ decr id held p c.mutex (pthreadMutexUnlockUsercnt decr id env p c) := by
  cases p with
  | type =>
    rcases hkind with hk | hk
    · simp only [pthreadMutexUnlockUsercnt, hk, unlDispatch_code]
      by_cases hκ : κ = .timed
      · obtain rfl := held_eq_one hknow (hlegal.holder (.inl hκ)) (by simp [hκ])
        rw [if_pos hκ]
        exact .leave rfl
      · rw [if_neg hκ]
        exact .of_eq rfl rfl ⟨rfl, hκ⟩
    · simp only [pthreadMutexUnlockUsercnt, hk, unlDispatch_destroyed]
      exact .of_eq rfl rfl trivial
  | recursive type =>
    obtain ⟨rfl, hκ⟩ := hok
    have hread : pthreadMutexType c.mutex.kind = BasicKind.recursive.code → κ = .recursive := by
      rcases hkind with hk | hk
      · rw [hk, type_code]
        exact code_inj.mp
      · rw [hk]
        exact fun h => absurd h (by decide)
    simp only [pthreadMutexUnlockUsercnt]
    split
    · rename_i h
      exact .of_eq rfl rfl (hread h)
    · rename_i h
      refine .of_eq rfl rfl ⟨rfl, hκ, fun hpos hrec => h ?_⟩
      rw [hheld _ rfl hpos, hrec, type_code]
  | adaptive type =>
    obtain ⟨rfl, hκ, hrec⟩ := hok
    have hread : pthreadMutexType c.mutex.kind = BasicKind.adaptive.code → κ = .adaptive := by
      rcases hkind with hk | hk
      · rw [hk, type_code]
        exact code_inj.mp
      · rw [hk]
        exact fun h => absurd h (by decide)
    simp only [pthreadMutexUnlockUsercnt]
    split
    · rename_i h
      have hκ' := hread h
      obtain rfl := held_eq_one hknow (hlegal.holder (.inr hκ')) (by simp [hκ'])
      exact .leave rfl
    · split
      · rename_i h
        exact .of_eq rfl rfl (code_inj.mp h)
      · exact .of_eq rfl rfl rfl
  | recOwner =>
    have hκ : κ = .recursive := hok
    by_cases howner : c.mutex.owner = id
    · simp only [pthreadMutexUnlockUsercnt, ne_eq, howner, not_true_eq_false, if_false]
      exact .of_eq rfl rfl ⟨hκ, (Build.pos_of_owner (b := .incr) hknow howner).2⟩
    · simp only [pthreadMutexUnlockUsercnt, ne_eq, howner, not_false_eq_true, if_true]
      exact .of_eq rfl rfl trivial
  | recCount => exact .of_eq rfl rfl ⟨hok.1, hok.2, rfl⟩
  | recCountStore v =>
    obtain ⟨rfl, hpos, rfl⟩ := hok
    have hs : outside held = .holder held := outside_of_pos hpos
    have hcount : c.mutex.count.toNat = held := (hknow.depth held hs).2.1 rfl
    have hsub := toNat_sub_one (x := c.mutex.count) (by omega)
    simp only [pthreadMutexUnlockUsercnt]
    by_cases hne : c.mutex.count - 1 = 0
    · -- the last level: the count is zero now
      have hone : held = 1 := by
        have : (c.mutex.count - 1).toNat = 0 := by rw [hne]; rfl
        omega
      subst hone
      simp only [ne_eq, hne, not_true_eq_false, if_false]
      exact ⟨rfl, Move.leave, rfl⟩
    · have hmore : 1 < held := by
        by_contra hle
        refine hne (BitVec.eq_of_toNat_eq ?_)
        rw [hsub]
        show _ = 0
        omega
      simp only [ne_eq, hne, not_false_eq_true, if_true]
      cases decr with
      | false => exact absurd (hlegal.depth rfl) (by omega)
      | true =>
        refine ⟨rfl, ?_, trivial⟩
        show Move _ _ (outside held) _ (outside (held - 1))
          { c.mutex.fields with count := (c.mutex.count - 1).toNat }
        obtain ⟨n, rfl⟩ : ∃ n, held = n + 1 := ⟨held - 1, by omega⟩
        have hn : 0 < n := by omega
        rw [hs, hsub, show n + 1 - 1 = n from rfl, outside_of_pos hn]
        exact Move.exit rfl hn
  | errOwner =>
    have hκ : κ = .errorcheck := hok
    by_cases howner : c.mutex.owner = id
    · simp only [pthreadMutexUnlockUsercnt, ne_eq, howner, not_true_eq_false, if_false]
      exact .of_eq rfl rfl ⟨hκ, (Build.pos_of_owner (b := .incr) hknow howner).2⟩
    · simp only [pthreadMutexUnlockUsercnt, ne_eq, howner, not_false_eq_true, if_true]
      exact .of_eq rfl rfl trivial
  | errLocked =>
    obtain ⟨hκ, hpos⟩ := hok
    simp only [pthreadMutexUnlockUsercnt]
    split
    · exact .of_eq rfl rfl trivial
    · obtain rfl := held_eq_one hknow hpos (by simp [hκ])
      exact .leave rfl
  | owner =>
    have hone : held = 1 := hok
    cases decr with
    | false => exact ⟨rfl, Move.disown, hone⟩
    | true => exact ⟨rfl, Move.disown, rfl, hone⟩
  | nusers => exact .of_eq rfl rfl ⟨hok.1, hok.2, rfl⟩
  | nusersStore v =>
    obtain ⟨rfl, hone, rfl⟩ := hok
    refine ⟨rfl, ?_, hone⟩
    show Move _ _ (.taken true) _ (.taken false)
      { c.mutex.fields with users := (c.mutex.nusers - 1).toNat }
    rw [toNat_sub_one hknow.users]
    exact Move.dropUser
  | word =>
    have hone : held = 1 := hok
    subst hone
    cases decr with
    | false => exact ⟨rfl, Move.suspend, trivial⟩
    | true => exact ⟨rfl, Move.release, trivial⟩
  | special => exact hok.elim

/-- What a thread knows is stable as long as the count and the number of users are. -/
theorem UnlPC.Ok.frame {κ : BasicKind} {decr : Bool} {held : ℕ} {p : UnlPC} {m m' : MutexData}
    (h : p.Ok κ decr held m)
    (hm : (p.status decr held).word → m'.count = m.count ∧ m'.nusers = m.nusers) :
    p.Ok κ decr held m' := by
  cases p with
  | recCountStore v =>
    obtain ⟨hκ, hpos, hv⟩ := h
    exact ⟨hκ, hpos, hv.trans (hm (outside_word hpos)).1.symm⟩
  | nusersStore v => exact ⟨h.1, h.2.1, h.2.2.trans (hm rfl).2.symm⟩
  | _ => exact h

end SyncPerf
