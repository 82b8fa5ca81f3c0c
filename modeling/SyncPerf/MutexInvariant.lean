import SyncPerf.Machine

namespace SyncPerf

open Interleaving OwnedLock

/-!
# The mutex invariant

Every mutex of a basic kind obeys the owned-lock discipline in every run of the machine: each
step of an operation is a move of `OwnedLock`, so the lock word, the owner, the count and the
number of users fit together whatever the threads do.

* `PC.status`, `PC.Ok`, `opStep_good` — the steps of all operations as moves;
* `MutexInv`, `MachineInv` — the invariant of one mutex, and of the machine;
* `Legal`, `DestroyValid` — what the application, and the check in `pthread_mutex_destroy`, must
  provide;
* `mutex_invariant` — mutual exclusion and the meaning of the fields in every run.
-/

/-! ### The steps of all operations -/

/-- The stage of a thread at a program point. -/
def PC.status (held : ℕ) : PC → Status
  | .lock p => p.status .incr held
  | .trylock p => p.status held
  | .unlock p => p.status true held
  | .condRelease p => p.status false held
  | .condCount | .condCountStore _ | .condBlocked => .waiter
  | .condRelock p => p.status .noIncr held
  | .destroy _ => outside held

/-- The stage after a step at `pc`. -/
def PC.after (held : ℕ) (pc : PC) (f : Flow PC) : Status :=
  match f with
  | .goto pc' => pc'.status (heldAfter pc f held)
  | .ret _ => outside (heldAfter pc f held)
  | .abort _ => pc.status held

/-- What a thread knows at a program point.  From the moment it has read the kind on its way to
    give the mutex up until it has it again, the mutex cannot have been destroyed. -/
def PC.Ok (κ : BasicKind) (held : ℕ) (m : MutexData) : PC → Prop
  | .lock p => p.Ok κ .incr held m
  | .trylock p => p.Ok κ held m
  | .unlock p => UnlLegal κ true held ∧ p.Ok κ true held m ∧
      ∀ t, p = .recursive t → 0 < held → m.kind = κ.code
  | .condRelease p => UnlLegal κ false held ∧ p.Ok κ false held m ∧
      (p ≠ .type → m.kind = κ.code)
  | .condCount | .condCountStore _ | .condBlocked => held = 0 ∧ m.kind = κ.code
  | .condRelock p => held = 0 ∧ p.Ok κ .noIncr 0 m ∧ m.kind = κ.code
  | .destroy _ => True

/-- The step that makes a mutex invalid. -/
def PC.destroys (pc : PC) : Prop := pc = .destroy .store

/-- A step is good: it is a move, keeps the kind unless it is the store of a destroy, leads to a
    point whose knowledge holds, and does not fail the assertion on the owner. -/
structure OpGood (κ : BasicKind) (id held : ℕ) (pc : PC) (m : MutexData)
    (r : Flow PC × Cell) : Prop where
  kind : r.2.mutex.kind = m.kind ∨ pc.destroys ∧ r.2.mutex.kind = destroyedKind
  move : Move κ.isRecursive id (pc.status held) m.fields (pc.after held r.1) r.2.mutex.fields
  ok : match r.1 with
    | .goto pc' => pc'.Ok κ (heldAfter pc r.1 held) r.2.mutex
    | .ret _ => True
    | .abort a => a = .type

/-- Between operations, and before the first step of one, the stage is given by the depth. -/
theorem Op.status_entry (op : Op) (held : ℕ) : op.entry.status held = outside held := by
  cases op <;> rfl

/-- `__pthread_mutex_cond_lock` can only return 0 while the mutex is not destroyed. -/
theorem condLock_ret {κ : BasicKind} {id bound : ℕ} {p : LockPC} {c : Cell} {env : Special}
    {code : ℕ} (hkind : c.mutex.kind = κ.code) (hok : p.Ok κ .noIncr 0 c.mutex)
    (hknow : Knows κ.isRecursive id bound (p.status .noIncr 0) c.mutex.fields)
    (h : (pthreadMutexLock .noIncr id env p c).1 = .ret code) : code = 0 := by
  cases p with
  | kind =>
    simp only [pthreadMutexLock, Build.dispatch, hkind, switchKind_code] at h
    cases κ <;> exact absurd h (by simp)
  | recCount => exact absurd hok.2 (by simp)
  | recCountStore v => exact absurd hok.2.1 (by simp)
  | errOwner =>
    simp only [pthreadMutexLock] at h
    split at h
    · rename_i howner
      have hpos : 0 < 0 := (Build.pos_of_owner (b := .noIncr) hknow howner).2
      exact absurd hpos (by decide)
    · exact absurd h (by simp)
  | cas t =>
    simp only [pthreadMutexLock] at h
    split at h <;> exact absurd h (by simp)
  | adTry =>
    simp only [pthreadMutexLock] at h
    split at h <;> exact absurd h (by simp)
  | adRetry cnt maxCnt =>
    simp only [pthreadMutexLock] at h
    split at h <;> exact absurd h (by simp)
  | assertOwner recursive =>
    simp only [pthreadMutexLock] at h
    split at h <;> exact absurd h (by simp)
  | setOwner =>
    simp only [pthreadMutexLock, Flow.ret.injEq] at h
    exact h.symm
  | nusersStore v =>
    simp only [pthreadMutexLock, Flow.ret.injEq] at h
    exact h.symm
  | special => exact hok.elim
  | _ => exact absurd h (by simp [pthreadMutexLock])

/-- The stage after a step of a lock. -/
theorem PC.after_lock (held : ℕ) (p : LockPC) (f : Flow LockPC) :
    PC.after held (.lock p) (f.map .lock) = p.after .incr held f := by
  cases f with
  | goto p' => rfl
  | ret code =>
    simp only [PC.after, Flow.map, heldAfter, LockPC.after]
    split <;> rfl
  | abort a => rfl

/-- The stage after a step of a trylock. -/
theorem PC.after_trylock (held : ℕ) (p : TryPC) (f : Flow TryPC) :
    PC.after held (.trylock p) (f.map .trylock) = p.after held f := by
  cases f with
  | goto p' => rfl
  | ret code =>
    simp only [PC.after, Flow.map, heldAfter, TryPC.after]
    split <;> rfl
  | abort a => rfl

/-- The stage after a step of an unlock. -/
theorem PC.after_unlock (held : ℕ) (p : UnlPC) (f : Flow UnlPC) :
    PC.after held (.unlock p) (f.map .unlock) = p.after true held f := by
  cases f with
  | goto p' => rfl
  | ret code =>
    simp only [PC.after, Flow.map, heldAfter, UnlPC.after]
    split <;> rfl
  | abort a => rfl

/-- The stage after a step of the release in a wait. -/
theorem PC.after_condRelease (held : ℕ) (p : UnlPC) (f : Flow UnlPC) :
    PC.after held (.condRelease p) (afterRelease f) = p.after false held f := by
  cases f with
  | goto p' => rfl
  | ret code =>
    simp only [afterRelease, UnlPC.after]
    by_cases hcode : code = 0
    · simp only [hcode, ne_eq, not_true_eq_false, if_false, if_true]
      rfl
    · simp only [hcode, ne_eq, not_false_eq_true, if_true, if_false]
      rfl
  | abort a => rfl

/-- The stage after a step of the re-acquisition in a wait. -/
theorem PC.after_condRelock (p : LockPC) {f : Flow LockPC} (hret : ∀ code, f = .ret code → code = 0) :
    PC.after 0 (.condRelock p) (f.map .condRelock) = p.after .noIncr 0 f := by
  cases f with
  | goto p' => rfl
  | ret code =>
    rw [hret code rfl]
    rfl
  | abort a => rfl

/-- **Every step of every operation is good.** -/
theorem opStep_good {κ : BasicKind} {id bound held : ℕ} {pc : PC} {c : Cell} (ch : Choice)
    (hkind : c.mutex.kind = κ.code ∨ c.mutex.kind = destroyedKind) (hok : pc.Ok κ held c.mutex)
    (hknow : Knows κ.isRecursive id bound (pc.status held) c.mutex.fields)
    (hbound : bound < 2 ^ 31) :
    OpGood κ id held pc c.mutex (opStep id ch pc c) := by
  cases pc with
  | lock p =>
    have hgood := pthreadMutexLock_good ch.special hkind hok (fun h => absurd h (by decide))
      hknow hbound
    refine ⟨.inl hgood.kind, PC.after_lock held p _ ▸ hgood.move, ?_⟩
    have hok' := hgood.ok
    simp only [opStep]
    cases hf : (pthreadMutexLock .incr id ch.special p c).1 with
    | goto p' => rw [hf] at hok'; exact hok'
    | ret code => trivial
    | abort a => rw [hf] at hok'; exact hok'.elim
  | trylock p =>
    have hgood := pthreadMutexTrylock_good ch.special hkind hok hknow hbound
    refine ⟨.inl hgood.kind, PC.after_trylock held p _ ▸ hgood.move, ?_⟩
    have hok' := hgood.ok
    simp only [opStep]
    cases hf : (pthreadMutexTrylock id ch.special p c).1 with
    | goto p' => rw [hf] at hok'; exact hok'
    | ret code => trivial
    | abort a => rw [hf] at hok'; exact hok'.elim
  | unlock p =>
    obtain ⟨hlegal, hok, hheld⟩ := hok
    have hgood := pthreadMutexUnlockUsercnt_good ch.special hkind hheld hlegal hok hknow
    refine ⟨.inl hgood.kind, PC.after_unlock held p _ ▸ hgood.move, ?_⟩
    have hok' := hgood.ok
    simp only [opStep]
    cases hf : (pthreadMutexUnlockUsercnt true id ch.special p c).1 with
    | goto p' =>
      rw [hf] at hok'
      refine ⟨hlegal, hok', fun t ht _ => ?_⟩
      subst ht
      obtain rfl := eq_type_of_goto_recursive hf
      exact unlDispatch_goto hkind hf
    | ret code => trivial
    | abort a => rw [hf] at hok'; exact hok'
  | condRelease p =>
    obtain ⟨hlegal, hok, hheld⟩ := hok
    have hgood := pthreadMutexUnlockUsercnt_good ch.special hkind
      (fun t ht _ => hheld (by simp [ht])) hlegal hok hknow
    refine ⟨.inl hgood.kind, PC.after_condRelease held p _ ▸ hgood.move, ?_⟩
    have hok' := hgood.ok
    have hk' := hgood.kind
    simp only [opStep]
    cases hf : (pthreadMutexUnlockUsercnt false id ch.special p c).1 with
    | goto p' =>
      rw [hf] at hok'
      refine ⟨hlegal, hok', fun _ => hk'.trans ?_⟩
      by_cases hp : p = .type
      · subst hp
        exact unlDispatch_goto hkind hf
      · exact hheld hp
    | ret code =>
      by_cases hcode : code = 0
      · subst hcode
        have hp : p ≠ .type := by
          rintro rfl
          exact unlDispatch_ret hkind hf rfl
        refine ⟨?_, hk'.trans (hheld hp)⟩
        show held - 1 = 0
        rw [hlegal.depth rfl]
      · simp only [afterRelease, hcode, ne_eq, not_false_eq_true, if_true]
    | abort a => rw [hf] at hok'; exact hok'
  | condCount => exact ⟨.inl rfl, Move.stutter .., hok⟩
  | condCountStore v => exact ⟨.inl rfl, Move.stutter .., hok⟩
  | condBlocked =>
    cases hagain : ch.again with
    | true =>
      simp only [opStep, hagain, if_true]
      exact ⟨.inl rfl, Move.stutter .., hok⟩
    | false =>
      simp only [opStep, hagain]
      exact ⟨.inl rfl, Move.stutter .., hok.1, trivial, hok.2⟩
  | condRelock p =>
    obtain ⟨rfl, hok, hk⟩ := hok
    have hgood := pthreadMutexLock_good ch.special hkind hok (fun _ => rfl) hknow hbound
    have hret : ∀ code, (pthreadMutexLock .noIncr id ch.special p c).1 = .ret code → code = 0 :=
      fun code => condLock_ret hk hok hknow
    refine ⟨.inl hgood.kind, PC.after_condRelock p hret ▸ hgood.move, ?_⟩
    have hok' := hgood.ok
    simp only [opStep]
    cases hf : (pthreadMutexLock .noIncr id ch.special p c).1 with
    | goto p' =>
      rw [hf] at hok'
      exact ⟨rfl, hok', hgood.kind.trans hk⟩
    | ret code => trivial
    | abort a => rw [hf] at hok'; exact hok'.elim
  | destroy p =>
    cases p with
    | kind => exact ⟨.inl rfl, Move.stutter .., trivial⟩
    | nusers =>
      simp only [opStep, pthreadMutexDestroy]
      split
      · exact ⟨.inl rfl, Move.stutter .., trivial⟩
      · exact ⟨.inl rfl, Move.stutter .., trivial⟩
    | store => exact ⟨.inr ⟨rfl, rfl⟩, Move.stutter .., trivial⟩

/-- What a thread knows is stable while the count and the number of users are, and while the
    mutex is not destroyed under a thread that is counted as a user. -/
theorem PC.Ok.frame {κ : BasicKind} {held : ℕ} {pc : PC} {m m' : MutexData}
    (h : pc.Ok κ held m)
    (hm : (pc.status held).word → m'.count = m.count ∧ m'.nusers = m.nusers)
    (hk : 0 < (pc.status held).users → m.kind = κ.code → m'.kind = κ.code) :
    pc.Ok κ held m' := by
  cases pc with
  | lock p => exact LockPC.Ok.frame h (fun h => absurd h (by decide)) hm
  | trylock p => exact TryPC.Ok.frame h hm
  | unlock p =>
    obtain ⟨hlegal, hok, hheld⟩ := h
    refine ⟨hlegal, hok.frame hm, fun t ht hpos => hk ?_ (hheld t ht hpos)⟩
    rw [ht]
    show 0 < (outside held).users
    rw [outside_of_pos hpos]
    exact Nat.one_pos
  | condRelease p =>
    obtain ⟨hlegal, hok, hheld⟩ := h
    obtain rfl := hlegal.depth rfl
    refine ⟨hlegal, hok.frame hm, fun hp => hk ?_ (hheld hp)⟩
    cases p <;> exact Nat.one_pos
  | condCount => exact ⟨h.1, hk Nat.one_pos h.2⟩
  | condCountStore v => exact ⟨h.1, hk Nat.one_pos h.2⟩
  | condBlocked => exact ⟨h.1, hk Nat.one_pos h.2⟩
  | condRelock p =>
    obtain ⟨rfl, hok, hkind⟩ := h
    refine ⟨rfl, hok.frame (fun _ => rfl) hm, hk ?_ hkind⟩
    cases p <;> first | exact Nat.one_pos | exact absurd hok.1 (by decide)
  | destroy p => trivial

/-! ### Views -/

namespace View

/-- The stage of a thread. -/
def status (v : View) : Status :=
  match v.pc with
  | some pc => pc.status v.held
  | none => outside v.held

/-- What a thread knows. -/
def Ok (κ : BasicKind) (m : MutexData) (v : View) : Prop :=
  match v.pc with
  | some pc => pc.Ok κ v.held m
  | none => True

/-- The stage of the view after a step. -/
theorem status_after (pc : PC) (f : Flow PC) (held : ℕ) :
    (after pc f held).status = pc.after held f := by
  cases f with
  | goto pc' => rfl
  | ret code => rfl
  | abort a => cases pc <;> rfl

end View

/-- A thread that holds the mutex has the word. -/
theorem View.word_of_held {κ : BasicKind} {m : MutexData} {v : View} (hok : v.Ok κ m)
    (hpos : 0 < v.held) : v.status.word := by
  have hout : (outside v.held).word := outside_word hpos
  unfold View.Ok at hok
  unfold View.status
  cases hpc : v.pc with
  | none => exact hout
  | some pc =>
    rw [hpc] at hok
    cases pc with
    | lock p => cases p <;> first | exact hout | rfl
    | trylock p => cases p <;> first | exact hout | rfl
    | unlock p => cases p <;> first | exact hout | rfl
    | condRelease p => cases p <;> first | exact hout | rfl
    | destroy p => exact hout
    | _ => exact absurd hok.1 (by omega)

/-! ### The invariant of the machine -/

variable {ι : Type}

/-- Different threads have different ids. -/
theorem tid_val_injective (tid : ι ↪ Tid) : Function.Injective fun i => (tid i).val :=
  fun _ _ h => tid.injective (Subtype.ext h)

variable [Fintype ι]

/-- The invariant of one mutex of kind `κ`. -/
structure MutexInv (tid : ι ↪ Tid) (κ : BasicKind) (m : ℕ) (c : Config ι Local Shared) : Prop where
  lock : Inv κ.isRecursive (fun i => (tid i).val) (fun i => ((c.loc i).view m).status)
    (c.sh.mutexes m).fields
  kind : (c.sh.mutexes m).kind = κ.code ∨ (c.sh.mutexes m).kind = destroyedKind
  ok : c.sh.aborted = none → ∀ i, ((c.loc i).view m).Ok κ (c.sh.mutexes m)
  held : ∀ i, 0 < (c.loc i).held m → ((c.loc i).view m).status.word

/-- The invariant of all mutexes, and no failed assertion on an owner. -/
structure MachineInv (tid : ι ↪ Tid) (kinds : ℕ → BasicKind) (c : Config ι Local Shared) :
    Prop where
  mutex : ∀ m, MutexInv tid (kinds m) m c
  abort : c.sh.aborted = none ∨ c.sh.aborted = some .type

/-- The application calls `pthread_mutex_unlock` and `pthread_cond_wait` only where it may. -/
def Legal (kinds : ℕ → BasicKind) (x : Event ι Action Local Shared) : Prop :=
  match x.act with
  | .call m .unlock => UnlLegal (kinds m) true ((x.pre.loc x.who).held m)
  | .call m .condWait => UnlLegal (kinds m) false ((x.pre.loc x.who).held m)
  | _ => True

/-- The check of `pthread_mutex_destroy` still holds when it makes the mutex invalid. -/
def DestroyValid (x : Event ι Action Local Shared) : Prop :=
  match (x.pre.loc x.who).cur with
  | some (m, .destroy .store) =>
    (x.pre.sh.mutexes m).kind = destroyedKind ∨ (x.pre.sh.mutexes m).nusers = 0
  | _ => True

/-- Fewer threads than positive thread ids. -/
theorem card_lt (tid : ι ↪ Tid) : Fintype.card ι < 2 ^ 31 := by
  have hinj : Function.Injective fun i => (⟨(tid i).val - 1, by
      have := (tid i).property
      omega⟩ : Fin (2 ^ 31 - 1)) := by
    intro i j h
    have hi := (tid i).property
    have hj := (tid j).property
    have hval : (tid i).val - 1 = (tid j).val - 1 := congrArg Fin.val h
    exact tid.injective (Subtype.ext (by omega))
  have hcard := Fintype.card_le_of_injective _ hinj
  rw [Fintype.card_fin] at hcard
  omega

/-- What a thread may conclude from the fields of a mutex. -/
theorem MutexInv.knows {tid : ι ↪ Tid} {κ : BasicKind} {m : ℕ} {c : Config ι Local Shared}
    (hI : MutexInv tid κ m c) (i : ι) :
    Knows κ.isRecursive (tid i).val (Fintype.card ι) ((c.loc i).view m).status
      (c.sh.mutexes m).fields :=
  hI.lock.knows (tid_val_injective tid) (fun i => (tid i).ne_zero) i

/-- The invariant holds at the start. -/
theorem MachineInv.initial {tid : ι ↪ Tid} {kinds : ℕ → BasicKind} {c : Config ι Local Shared}
    (hinit : Initial c) (hfresh : Fresh kinds c) : MachineInv tid kinds c := by
  have hview : ∀ i m, (c.loc i).view m = ⟨none, 0⟩ := by
    intro i m
    rw [hinit.loc]
    rfl
  refine ⟨fun m => ⟨?_, ?_, fun _ i => ?_, fun i hi => ?_⟩, .inl hinit.aborted⟩
  · simp only [hview, hfresh m]
    exact Inv.initial ..
  · rw [hfresh m]
    exact .inl rfl
  · rw [hview]
    trivial
  · rw [hinit.loc] at hi
    exact absurd hi (by simp)

/-! ### Quiescent states -/

/-- The thread waits for the lock word, or for the condition variable. -/
def PC.blocked : PC → Bool
  | .lock (.wait _) | .condBlocked | .condRelock (.wait _) => true
  | _ => false

/-- The thread has released the mutex inside `pthread_cond_wait` and not yet re-acquired it. -/
def PC.waiting : PC → Bool
  | .condCount | .condCountStore _ | .condBlocked | .condRelock _ => true
  | _ => false

/-- No thread is inside an operation on the mutex, except blocked. -/
def Quiescent (m : ℕ) (c : Config ι Local Shared) : Prop :=
  ∀ i pc, (c.loc i).cur = some (m, pc) → pc.blocked

/-- The thread waits for a condition variable with mutex `m`. -/
def Local.waits (l : Local) (m : ℕ) : Bool :=
  match (l.view m).pc with
  | some pc => pc.waiting
  | none => false

/-- What the fields of a mutex of kind `κ` mean in a quiescent state. -/
structure FieldsFit (tid : ι ↪ Tid) (κ : BasicKind) (m : ℕ) (c : Config ι Local Shared) :
    Prop where
  lock : (c.sh.mutexes m).lock ≠ 0 ↔ ∃ i, 0 < (c.loc i).held m
  owner : ∀ i, 0 < (c.loc i).held m → (c.sh.mutexes m).owner = (tid i).val
  noOwner : (∀ i, (c.loc i).held m = 0) → (c.sh.mutexes m).owner = 0
  count : κ = .recursive → ∀ i, 0 < (c.loc i).held m →
    (c.sh.mutexes m).count.toNat = (c.loc i).held m
  nusers : (c.sh.mutexes m).nusers.toNat =
    (Finset.univ.filter fun i => 0 < (c.loc i).held m).card +
      (Finset.univ.filter fun i => (c.loc i).waits m = true).card

/-- The stage of a thread in a quiescent state. -/
theorem MutexInv.status_of_quiescent {tid : ι ↪ Tid} {κ : BasicKind} {m : ℕ}
    {c : Config ι Local Shared} (hI : MutexInv tid κ m c) (hq : Quiescent m c) (i : ι) :
    ((c.loc i).view m).status =
        (if (c.loc i).waits m then .waiter else outside ((c.loc i).held m)) ∧
      ((c.loc i).waits m → (c.loc i).held m = 0) := by
  have hheld := hI.held i
  unfold Local.waits
  cases hcur : (c.loc i).cur with
  | none =>
    rw [Local.view_of_none hcur]
    exact ⟨rfl, by simp⟩
  | some x =>
    obtain ⟨m', pc⟩ := x
    by_cases hm : m = m'
    · subst hm
      rw [Local.view_of_cur hcur] at hheld ⊢
      have hblocked := hq i pc hcur
      cases pc with
      | lock p => cases p <;> first | exact ⟨rfl, by simp [PC.waiting]⟩ | simp [PC.blocked] at hblocked
      | condBlocked =>
        refine ⟨rfl, fun _ => ?_⟩
        by_contra hne
        exact absurd (hheld (by omega)) (by simp [View.status, PC.status, Status.word])
      | condRelock p =>
        cases p with
        | wait t =>
          refine ⟨rfl, fun _ => ?_⟩
          by_contra hne
          exact absurd (hheld (by omega)) (by simp [View.status, PC.status, LockPC.status,
            Build.before, Status.word])
        | _ => simp [PC.blocked] at hblocked
      | _ => simp [PC.blocked] at hblocked
    · rw [Local.view_of_ne hcur hm]
      exact ⟨rfl, by simp⟩

/-- The invariant, read off a quiescent state. -/
theorem MutexInv.fieldsFit {tid : ι ↪ Tid} {κ : BasicKind} {m : ℕ} {c : Config ι Local Shared}
    (hI : MutexInv tid κ m c) (hq : Quiescent m c) : FieldsFit tid κ m c := by
  have hholds : ∀ i, 0 < (c.loc i).held m →
      ((c.loc i).view m).status = .holder ((c.loc i).held m) := by
    intro i hpos
    obtain ⟨hs, hw⟩ := hI.status_of_quiescent hq i
    rw [hs, if_neg (fun h => by have := hw h; omega), outside_of_pos hpos]
  -- in a quiescent state nobody is between taking the word and recording it
  have hword : ∀ i, ((c.loc i).view m).status.word → 0 < (c.loc i).held m := by
    intro i hi
    by_contra hne
    obtain ⟨hs, -⟩ := hI.status_of_quiescent hq i
    rw [hs, outside, if_pos (by omega : (c.loc i).held m = 0)] at hi
    split at hi <;> exact absurd hi (by decide)
  refine ⟨?_, ?_, ?_, ?_, ?_⟩
  · refine hI.lock.locked.trans ⟨?_, ?_⟩
    · rintro ⟨i, hi⟩
      exact ⟨i, hword i hi⟩
    · rintro ⟨i, hi⟩
      exact ⟨i, hI.held i hi⟩
  · intro i hi
    have howner := hI.lock.owner i (hI.held i hi)
    rwa [hholds i hi] at howner
  · intro hnone
    refine hI.lock.unowned ?_
    by_contra hlock
    obtain ⟨i, hi⟩ := hI.lock.locked.mp hlock
    have := hword i hi
    have := hnone i
    omega
  · intro hκ i hi
    exact (hI.lock.depth i _ (hholds i hi)).2.1 (by simp [BasicKind.isRecursive, hκ])
  · have husers : (c.sh.mutexes m).nusers.toNat =
        ∑ i, ((if 0 < (c.loc i).held m then 1 else 0) +
          (if (c.loc i).waits m = true then 1 else 0)) := by
      refine hI.lock.users.trans (Finset.sum_congr rfl fun i _ => ?_)
      obtain ⟨hs, hw⟩ := hI.status_of_quiescent hq i
      rw [hs]
      by_cases hwait : (c.loc i).waits m = true
      · rw [if_pos hwait, if_pos hwait, if_neg (by have := hw hwait; omega)]
        rfl
      · rw [if_neg hwait, if_neg hwait, outside]
        split
        · rw [if_neg (by omega)]
          rfl
        · rw [if_pos (by omega)]
          rfl
    rw [husers, Finset.sum_add_distrib, Finset.card_filter, Finset.card_filter]

/-! ### Steps -/

/-- What another thread knows is stable under a move of thread `i`: a user of the mutex keeps the
    check of `pthread_mutex_destroy` from passing. -/
theorem MutexInv.ok_of_ne {tid : ι ↪ Tid} {κ : BasicKind} {m : ℕ} {c : Config ι Local Shared}
    (hI : MutexInv tid κ m c) (hab : c.sh.aborted = none) {i j : ι} (hj : j ≠ i) {st : Status}
    {m' : MutexData}
    (hmove : Move κ.isRecursive (tid i).val ((c.loc i).view m).status (c.sh.mutexes m).fields
      st m'.fields)
    (hkind : m'.kind = (c.sh.mutexes m).kind ∨
      ((c.sh.mutexes m).kind = destroyedKind ∨ (c.sh.mutexes m).nusers = 0)) :
    ((c.loc j).view m).Ok κ m' := by
  have hokj := hI.ok hab j
  unfold View.Ok at hokj ⊢
  cases hpc : ((c.loc j).view m).pc with
  | none => trivial
  | some pcj =>
    rw [hpc] at hokj
    have hstatusj : ((c.loc j).view m).status = pcj.status ((c.loc j).view m).held := by
      rw [View.status, hpc]
    refine hokj.frame (fun hw => ?_) (fun hu hk => ?_)
    · obtain ⟨-, hcount, husers⟩ := hI.lock.frame (j := j) hmove hj (by rwa [hstatusj])
      exact ⟨BitVec.eq_of_toNat_eq hcount, BitVec.eq_of_toNat_eq husers⟩
    · rcases hkind with hsame | hd | h0
      · rw [hsame, hk]
      · exact absurd (hk.symm.trans hd) (code_ne_destroyed κ)
      · have hpos := hI.lock.users_le_sum j
        rw [hstatusj] at hpos
        have hzero : (c.sh.mutexes m).fields.users = 0 := by
          show (c.sh.mutexes m).nusers.toNat = 0
          rw [h0]
          rfl
        omega

variable [DecidableEq ι]

/-- A step of thread `i` that leaves its stage with `m` and the mutex `m` alone. -/
theorem MutexInv.of_status {tid : ι ↪ Tid} {κ : BasicKind} {m : ℕ} {c : Config ι Local Shared}
    (hI : MutexInv tid κ m c) (hab : c.sh.aborted = none) {i : ι} {l : Local} {s : Shared}
    (hstatus : (l.view m).status = ((c.loc i).view m).status)
    (hheld : l.held m = (c.loc i).held m)
    (hok : ((c.loc i).view m).Ok κ (c.sh.mutexes m) → (l.view m).Ok κ (c.sh.mutexes m))
    (hmutex : s.mutexes m = c.sh.mutexes m) :
    MutexInv tid κ m ⟨Function.update c.loc i l, s⟩ := by
  have hall : ∀ j, ((Function.update c.loc i l j).view m).status = ((c.loc j).view m).status := by
    intro j
    by_cases hj : j = i
    · rw [hj, Function.update_self, hstatus]
    · rw [Function.update_of_ne hj]
  refine ⟨?_, ?_, fun _ => ?_, ?_⟩
  · simp only [hall, hmutex]
    exact hI.lock
  · simp only [hmutex]
    exact hI.kind
  · simp only [hmutex]
    exact forall_update (P := fun (_ : ι) (lj : Local) => (lj.view m).Ok κ (c.sh.mutexes m))
      (hok (hI.ok hab i)) fun j _ => hI.ok hab j
  · refine forall_update
      (P := fun (_ : ι) (lj : Local) => 0 < lj.held m → (lj.view m).status.word) ?_
      fun j _ => hI.held j
    rw [hheld, hstatus]
    exact hI.held i

/-- A step of thread `i` that leaves its view of `m` and the mutex `m` alone. -/
theorem MutexInv.of_view {tid : ι ↪ Tid} {κ : BasicKind} {m : ℕ} {c : Config ι Local Shared}
    (hI : MutexInv tid κ m c) (hab : c.sh.aborted = none) {i : ι} {l : Local} {s : Shared}
    (hview : l.view m = (c.loc i).view m) (hmutex : s.mutexes m = c.sh.mutexes m) :
    MutexInv tid κ m ⟨Function.update c.loc i l, s⟩ :=
  hI.of_status hab (by rw [hview]) (congrArg View.held hview) (by rw [hview]; exact id) hmutex

/-- A step of thread `i` of an operation on the mutex itself. -/
theorem MutexInv.opStep {tid : ι ↪ Tid} {κ : BasicKind} {m : ℕ} {c : Config ι Local Shared}
    (hI : MutexInv tid κ m c) (hab : c.sh.aborted = none) {i : ι} {l : Local} {s : Shared}
    {pc : PC} (hcur : (c.loc i).view m = ⟨some pc, (c.loc i).held m⟩) {r : Flow PC × Cell}
    (hgood : OpGood κ (tid i).val ((c.loc i).held m) pc (c.sh.mutexes m) r)
    (hvalid : pc.destroys →
      (c.sh.mutexes m).kind = destroyedKind ∨ (c.sh.mutexes m).nusers = 0)
    (hview : l.view m = View.after pc r.1 ((c.loc i).held m))
    (hmutex : s.mutexes m = r.2.mutex) (habort : s.aborted = r.1.failed) :
    MutexInv tid κ m ⟨Function.update c.loc i l, s⟩ := by
  have hstatus : ((c.loc i).view m).status = pc.status ((c.loc i).held m) := by
    rw [hcur]
    rfl
  -- the step is a move of the owned lock by this thread alone
  have hmove : Move κ.isRecursive (tid i).val ((c.loc i).view m).status (c.sh.mutexes m).fields
      (l.view m).status r.2.mutex.fields := by
    rw [hview, View.status_after, hstatus]
    exact hgood.move
  have hupdate : (fun j => ((Function.update c.loc i l j).view m).status) =
      Function.update (fun j => ((c.loc j).view m).status) i (l.view m).status :=
    Function.comp_update (fun l : Local => (l.view m).status) c.loc i l
  have hself : r.1.failed = none → (l.view m).Ok κ r.2.mutex := by
    intro hne
    rw [hview]
    have hok := hgood.ok
    unfold View.Ok View.after
    cases hf : r.1 with
    | goto pc' => rw [hf] at hok; exact hok
    | ret code => trivial
    | abort a => rw [hf] at hne; exact absurd hne (by simp [Flow.failed])
  refine ⟨?_, ?_, fun hab' => ?_, ?_⟩
  · show Inv _ _ (fun j => ((Function.update c.loc i l j).view m).status) (s.mutexes m).fields
    rw [hupdate, hmutex]
    exact hI.lock.move hmove
  · show (s.mutexes m).kind = _ ∨ (s.mutexes m).kind = _
    rw [hmutex]
    rcases hgood.kind with hk | ⟨-, hk⟩
    · rw [hk]
      exact hI.kind
    · exact .inr hk
  · refine forall_update (P := fun (_ : ι) (lj : Local) => (lj.view m).Ok κ (s.mutexes m)) ?_
      fun j hj => ?_
    · rw [hmutex]
      exact hself (habort.symm.trans hab')
    · rw [hmutex]
      exact hI.ok_of_ne hab hj hmove (hgood.kind.imp id fun h => hvalid h.1)
  · refine forall_update
      (P := fun (_ : ι) (lj : Local) => 0 < lj.held m → (lj.view m).status.word) ?_
      fun j _ => hI.held j
    cases hf : r.1.failed with
    | none => exact View.word_of_held (hself hf)
    | some a =>
      -- the failed assertion leaves the thread as it was
      obtain ⟨a', ha'⟩ : ∃ a', r.1 = .abort a' := by
        cases hr : r.1 <;> simp_all [Flow.failed]
      have hsame : l.view m = (c.loc i).view m := by
        rw [hview, hcur, ha']
        cases pc <;> rfl
      rw [hsame, show l.held m = (c.loc i).held m from congrArg View.held hsame]
      exact hI.held i

/-- **One step of the machine keeps the invariant.** -/
theorem MachineInv.step {tid : ι ↪ Tid} {kinds : ℕ → BasicKind} {c d : Config ι Local Shared}
    {i : ι} {a : Action} (hI : MachineInv tid kinds c) (hlegal : Legal kinds ⟨c, i, a⟩)
    (hvalid : DestroyValid ⟨c, i, a⟩) (h : (machine tid).step c i a = some d) :
    MachineInv tid kinds d := by
  obtain ⟨l, s, hnext, rfl⟩ := System.step_eq_some.mp h
  obtain ⟨hab, hcase⟩ := next_eq_some hnext
  generalize hl : c.loc i = li at hcase
  cases hcase with
  | start hidx hx =>
    exact ⟨fun m => (hI.mutex m).of_view hab (by rw [hl]; rfl) rfl, .inl hab⟩
  | join hx =>
    exact ⟨fun m => (hI.mutex m).of_view hab (by rw [hl]) rfl, .inl hab⟩
  | @call m idx op hidx hcur hm =>
    refine ⟨fun m' => ?_, .inl hab⟩
    by_cases hm' : m' = m
    · subst hm'
      have hview : (c.loc i).view m' = ⟨none, li.held m'⟩ := by
        rw [hl]
        exact Local.view_of_none hcur
      have hview' : ({ li with cur := some (m', op.entry) } : Local).view m' =
          ⟨some op.entry, li.held m'⟩ := Local.view_of_cur rfl
      refine (hI.mutex m').of_status hab ?_ (by rw [hl]) (fun _ => ?_) rfl
      · rw [hview, hview']
        exact op.status_entry _
      · rw [hview']
        have hlegal' := hlegal
        simp only [Legal, hl] at hlegal'
        cases op with
        | lock => trivial
        | trylock => trivial
        | unlock => exact ⟨hlegal', trivial, fun t ht => absurd ht (by simp)⟩
        | condWait => exact ⟨hlegal', trivial, fun hp => absurd rfl hp⟩
        | destroy => trivial
    · refine (hI.mutex m').of_view hab ?_ rfl
      rw [hl, Local.view_of_none hcur]
      exact Local.view_of_ne rfl hm'
  | @step idx m pc ch f cell hidx hcur hop =>
    -- the thread's own knowledge makes its step good
    have hgood : ∀ κ, MutexInv tid κ m c →
        OpGood κ (tid i).val (li.held m) pc (c.sh.mutexes m) (f, cell) := by
      intro κ hm
      have hview : (c.loc i).view m = ⟨some pc, li.held m⟩ := by
        rw [hl]
        exact Local.view_of_cur hcur
      have hok := hm.ok hab i
      have hknow := hm.knows i
      rw [hview] at hok hknow
      rw [← hop]
      exact opStep_good (c := c.sh.cell m idx) ch hm.kind hok hknow (card_lt tid)
    refine ⟨fun m' => ?_, ?_⟩
    · by_cases hm' : m' = m
      · subst hm'
        have hview : (c.loc i).view m' = ⟨some pc, (c.loc i).held m'⟩ := by
          rw [hl]
          exact Local.view_of_cur hcur
        refine (hI.mutex m').opStep hab hview (r := (f, cell)) ?_ ?_ ?_ ?_ rfl
        · rw [hl]
          exact hgood _ (hI.mutex m')
        · intro hdes
          have hv := hvalid
          simp only [DestroyValid, hl, hcur] at hv
          rw [show pc = .destroy .store from hdes] at hv
          exact hv
        · rw [hl]
          exact Local.view_after_self hcur f
        · exact Function.update_self ..
      · refine (hI.mutex m').of_view hab ?_ ?_
        · rw [hl]
          exact Local.view_after_ne hcur hm' f
        · exact Function.update_of_ne hm' ..
    · show f.failed = none ∨ f.failed = some .type
      have hok := (hgood _ (hI.mutex m)).ok
      cases f with
      | goto pc' => exact .inl rfl
      | ret code => exact .inl rfl
      | abort a =>
        have ha : a = .type := hok
        rw [ha]
        exact .inr rfl

/-- **The mutex invariant.**  In every run of any number of threads, in which the application
    unlocks and waits only where it may and the check of `pthread_mutex_destroy` still holds when
    it invalidates a mutex: at most one thread holds a mutex, the assertion on the owner never
    fails, and in quiescent states the lock word, the owner, the count and the number of users
    say who holds the mutex, how deep, and how many threads use it. -/
theorem mutex_invariant {tid : ι ↪ Tid} {kinds : ℕ → BasicKind} {c₀ c : Config ι Local Shared}
    {tr : List (Event ι Action Local Shared)} (hinit : Initial c₀) (hfresh : Fresh kinds c₀)
    (hrun : Run (machine tid) c₀ tr c) (hlegal : ∀ x ∈ tr, Legal kinds x)
    (hvalid : ∀ x ∈ tr, DestroyValid x) :
    (∀ m i j, 0 < (c.loc i).held m → 0 < (c.loc j).held m → i = j) ∧
    c.sh.aborted ≠ some .owner ∧
    ∀ m, Quiescent m c → FieldsFit tid (kinds m) m c := by
  have hI : MachineInv tid kinds c :=
    hrun.invariant_of (G := fun x => Legal kinds x ∧ DestroyValid x)
      (fun x hx => ⟨hlegal x hx, hvalid x hx⟩) (.initial hinit hfresh)
      fun d i a e hd hG hs => hd.step hG.1 hG.2 hs
  refine ⟨fun m i j hi hj => ?_, ?_, fun m hq => (hI.mutex m).fieldsFit hq⟩
  · have hm := hI.mutex m
    exact hm.lock.unique i j (hm.held i hi) (hm.held j hj)
  · rcases hI.abort with h | h <;> rw [h] <;> simp

/-! ### Runs of two threads -/

instance (κ : BasicKind) (decr : Bool) (held : ℕ) : Decidable (UnlLegal κ decr held) :=
  decidable_of_iff ((κ = .timed ∨ κ = .adaptive → 0 < held) ∧ (decr = false → held = 1))
    ⟨fun h => ⟨h.1, h.2⟩, fun h => ⟨h.holder, h.depth⟩⟩

instance (kinds : ℕ → BasicKind) (x : Event ι Action Local Shared) : Decidable (Legal kinds x) :=
  match x with
  | ⟨_, _, .start ..⟩ | ⟨_, _, .join _⟩ | ⟨_, _, .step _⟩ => isTrue trivial
  | ⟨_, _, .call _ .lock⟩ | ⟨_, _, .call _ .trylock⟩ | ⟨_, _, .call _ .destroy⟩ => isTrue trivial
  | ⟨c, i, .call m .unlock⟩ =>
    inferInstanceAs (Decidable (UnlLegal (kinds m) true ((c.loc i).held m)))
  | ⟨c, i, .call m .condWait⟩ =>
    inferInstanceAs (Decidable (UnlLegal (kinds m) false ((c.loc i).held m)))

instance (x : Event ι Action Local Shared) : Decidable (DestroyValid x) := by
  obtain ⟨c, i, a⟩ := x
  dsimp only [DestroyValid]
  generalize (c.loc i).cur = cur
  rcases cur with _ | ⟨m, pc⟩
  · exact isTrue trivial
  · cases pc with
    | destroy p => cases p <;> first | exact isTrue trivial | exact instDecidableOr
    | _ => exact isTrue trivial

/-- One thread locks, the other one then waits for the lock word. -/
def contention : List (Bool × Action) :=
  List.flatten [pairSetup, [(false, .call 0 .lock)], List.replicate 10 (false, .step {}),
    [(true, .call 0 .lock)], List.replicate 7 (true, .step {})]

/-- What the run leads to. -/
def contentionEnd := (machine pairTid).execute pairStart contention (by decide +kernel)

/-- The fields of a mutex that somebody holds. -/
theorem mutex_invariant_contention :
    Quiescent 0 contentionEnd.2 ∧ 0 < (contentionEnd.2.loc false).held 0 ∧
      FieldsFit pairTid .timed 0 contentionEnd.2 := by
  have hrun : Run (machine pairTid) pairStart contentionEnd.1 contentionEnd.2 :=
    System.execute_run _ _ _ _
  have hinv := mutex_invariant pairStart_initial pairStart_fresh hrun (by decide +kernel)
    (by decide +kernel)
  have hcur : (contentionEnd.2.loc false).cur = none ∧
      (contentionEnd.2.loc true).cur = some (0, .lock (.wait .simple)) := by decide +kernel
  have hq : Quiescent 0 contentionEnd.2 := by
    intro i pc h
    cases i with
    | false =>
      rw [hcur.1] at h
      exact absurd h (by simp)
    | true =>
      rw [hcur.2, Option.some.injEq, Prod.mk.injEq] at h
      rw [← h.2]
      rfl
  exact ⟨hq, by decide +kernel, hinv.2.2 0 hq⟩

/-! ### A destroy that races with the first lock

`pthread_mutex_destroy` finds no user; before it stores the invalid kind another thread locks the
mutex and waits on a condition variable.  When that thread comes back it is turned away, and
stays counted as a user. -/

/-- The steps of both threads, the destroy of the second in two parts. -/
def destroyRace : List (Bool × Action) :=
  List.flatten [pairSetup, [(true, .call 0 .destroy)], List.replicate 2 (true, .step {}),
    [(false, .call 0 .lock)], List.replicate 10 (false, .step {}), [(false, .call 0 .condWait)],
    List.replicate 5 (false, .step {}), [(true, .step {})], List.replicate 3 (false, .step {})]

/-- What the race leads to. -/
def destroyRaceEnd := (machine pairTid).execute pairStart destroyRace (by decide +kernel)

/-- After the race nobody holds the mutex or waits with it, and it has one user. -/
theorem destroyRace_not_fit :
    Run (machine pairTid) pairStart destroyRaceEnd.1 destroyRaceEnd.2 ∧
      (∀ x ∈ destroyRaceEnd.1, Legal (fun _ => .timed) x) ∧ Quiescent 0 destroyRaceEnd.2 ∧
      ¬ FieldsFit pairTid .timed 0 destroyRaceEnd.2 := by
  refine ⟨System.execute_run _ _ _ _, by decide +kernel, ?_, fun h => ?_⟩
  · have hidle : ∀ i, (destroyRaceEnd.2.loc i).cur = none := by decide +kernel
    intro i pc hcur
    rw [hidle i] at hcur
    exact absurd hcur (by simp)
  · have hone : (destroyRaceEnd.2.sh.mutexes 0).nusers.toNat ≠
        (Finset.univ.filter fun i => 0 < (destroyRaceEnd.2.loc i).held 0).card +
          (Finset.univ.filter fun i => (destroyRaceEnd.2.loc i).waits 0 = true).card := by
      decide +kernel
    exact hone h.nusers

end SyncPerf
