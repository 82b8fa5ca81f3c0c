import SyncPerf.ProcessShared
import SyncPerf.RobustSteps

namespace SyncPerf.Robust

open Interleaving Calls

/-!
# Robust mutexes among several threads

A thread that has acquired a robust mutex by trylock has it for itself until its unlock; a lock
call never gets it, because it does not know the kind.

* `LocalOk`, `Shared`, `Moves` — what a thread relies on, and what it leaves to the others;
* `trylockStep_good`, `unlockStep_good` — every step keeps both;
* `mutexInit_robust`, `RobustKind` — the kind that `pthread_mutex_init` stores;
* `robust_iff` — the mutex excludes, and can be locked exactly as long as no lock call finds it
  free.
-/

variable {ι : Type}

/-! ### What a thread relies on -/

/-- What a thread knows at a point of a trylock, `hold` being what it has to give back. -/
def TryPC.Ok (κ : BasicKind) (id hold : ℕ) (m : MutexData) : TryPC → Prop
  | .word | .cas | .piWord | .piCas => True
  | .test oldval => oldval ≤ futexTidMask ∧ (oldval = id → m.lock = id)
  | .bump => κ = .recursive ∧ m.lock = id
  | .bumpLoad => κ = .recursive ∧ m.lock = id ∧ m.count + 1 ≠ 0
  | .bumpStore v => κ = .recursive ∧ m.lock = id ∧ v = m.count ∧ v + 1 ≠ 0
  | .recoverable oldval => oldval = 0 ∧ m.lock = id ∧ hold = 0
  | .piRecoverable | .owner => m.lock = id ∧ hold = 0
  | .nusers | .nusersStore _ | .count => m.lock = id ∧ hold = 0 ∧ m.owner = id
  | _ => False

/-- What a thread knows at a point of an unlock. -/
def UnlockPC.Ok (κ : BasicKind) (id hold : ℕ) (m : MutexData) : UnlockPC → Prop
  | .recTid | .recInconsistent | .recOwner _ => True
  | .recCount _ => m.owner = id
  | .recCountStore _ v => m.owner = id ∧ v = m.count
  | .tid => κ ≠ .recursive
  | .locked | .inconsistent => κ ≠ .recursive ∧ m.lock = id
  | .owner _ newowner => newowner = 0 ∧ m.lock = id ∧ hold = 0
  | .nusers _ | .nusersStore _ _ | .word | .ppWord => m.lock = id ∧ hold = 0 ∧ m.owner = 0
  | .ppCas oldval => oldval = id ∧ m.lock = id ∧ hold = 0 ∧ m.owner = 0
  | _ => False

/-- What a thread knows where it is. -/
def Stage.Ok (κ : BasicKind) (id hold : ℕ) (m : MutexData) : Stage → Prop
  | .trylock p => p.Ok κ id hold m
  | .unlock p => p.Ok κ id hold m
  | _ => True

/-- Away from these points, a thread that is recorded as the owner has counted its
    acquisitions. -/
def Stage.settled : Stage → Bool
  | .trylock .nusers | .trylock (.nusersStore _) | .trylock .count => false
  | .unlock (.owner _ _) | .unlock (.nusers _) | .unlock (.nusersStore _ _) => false
  | .unlock .word | .unlock .ppWord | .unlock (.ppCas _) => false
  | _ => true

/-- What holds of a thread with this id and the mutex. -/
structure LocalOk (κ : BasicKind) (id : ℕ) (l : Local) (m : MutexData) : Prop where
  has : 0 < l.hold → m.lock = id
  once : κ ≠ .recursive → l.hold ≤ 1
  owner : m.owner = id → m.lock = id
  counted : m.owner = id → l.stage.settled = true → m.count.toNat = l.hold ∧ 0 < l.hold
  point : l.stage.Ok κ id l.hold m

/-- What holds of the mutex: no mark of a dead owner, in the word or in the owner field. -/
structure Shared (kind : BitVec 32) (m : MutexData) : Prop where
  kind : m.kind = kind
  lock : m.lock ≤ futexTidMask
  owner : m.owner ≤ futexTidMask

/-- What a step of the thread with this id leaves to the others: a word that has another id, with
    the fields beside it, and the ids of others in the owner field. -/
structure Moves (id : ℕ) (m m' : MutexData) : Prop where
  frame : m.lock ≠ id → m.lock ≠ 0 →
    m'.lock = m.lock ∧ m'.owner = m.owner ∧ m'.count = m.count
  owner : m'.owner = m.owner ∨ m'.owner = 0 ∨ m'.owner = id

/-- A word with the thread's id is not touched by another one's move, nor are the fields. -/
structure Kept (id : ℕ) (m m' : MutexData) : Prop where
  lock : m.lock = id → m'.lock = id
  ownerEq : m.lock = id → m'.owner = m.owner
  count : m.lock = id → m'.count = m.count
  owner : m'.owner = id → m.owner = id

/-- A step of another thread keeps what this one knows. -/
theorem Moves.kept {id id' : ℕ} {m m' : MutexData} (h : Moves id' m m') (hne : id ≠ id')
    (hid : 0 < id) : Kept id m m' := by
  have hframe : m.lock = id → m'.lock = m.lock ∧ m'.owner = m.owner ∧ m'.count = m.count := by
    intro hlock
    apply h.frame
    · rw [hlock]
      exact hne
    · rw [hlock]
      exact hid.ne'
  refine ⟨fun hl => (hframe hl).1.trans hl, fun hl => (hframe hl).2.1, fun hl => (hframe hl).2.2,
    fun ho => ?_⟩
  rcases h.owner with heq | heq | heq
  · exact heq.symm.trans ho
  · exact absurd (ho.symm.trans heq) hid.ne'
  · exact absurd (ho.symm.trans heq) hne

/-- The knowledge at a point of a trylock is kept. -/
theorem TryPC.Ok.kept {κ : BasicKind} {id hold : ℕ} {m m' : MutexData} {p : TryPC}
    (h : p.Ok κ id hold m) (hk : Kept id m m') : p.Ok κ id hold m' := by
  cases p with
  | word | cas | piWord | piCas => trivial
  | test oldval => exact ⟨h.1, fun heq => hk.lock (h.2 heq)⟩
  | bump => exact ⟨h.1, hk.lock h.2⟩
  | bumpLoad =>
    obtain ⟨hrec, hlock, hne⟩ := h
    refine ⟨hrec, hk.lock hlock, ?_⟩
    rw [hk.count hlock]
    exact hne
  | bumpStore v => exact ⟨h.1, hk.lock h.2.1, h.2.2.1.trans (hk.count h.2.1).symm, h.2.2.2⟩
  | recoverable oldval => exact ⟨h.1, hk.lock h.2.1, h.2.2⟩
  | piRecoverable | owner => exact ⟨hk.lock h.1, h.2⟩
  | nusers | nusersStore v | count =>
    exact ⟨hk.lock h.1, h.2.1, (hk.ownerEq h.1).trans h.2.2⟩
  | _ => exact h.elim

/-- The knowledge at a point of an unlock is kept. -/
theorem UnlockPC.Ok.kept {κ : BasicKind} {id hold : ℕ} {m m' : MutexData} {p : UnlockPC}
    (h : p.Ok κ id hold m) (howner : m.owner = id → m.lock = id) (hk : Kept id m m') :
    p.Ok κ id hold m' := by
  cases p with
  | recTid | recInconsistent | recOwner pp => trivial
  | recCount pp => exact (hk.ownerEq (howner h)).trans h
  | recCountStore pp v =>
    have hlock := howner h.1
    exact ⟨(hk.ownerEq hlock).trans h.1, h.2.trans (hk.count hlock).symm⟩
  | tid => exact h
  | locked | inconsistent => exact ⟨h.1, hk.lock h.2⟩
  | owner pp newowner => exact ⟨h.1, hk.lock h.2.1, h.2.2⟩
  | nusers pp | nusersStore pp v | word | ppWord =>
    exact ⟨hk.lock h.1, h.2.1, (hk.ownerEq h.1).trans h.2.2⟩
  | ppCas oldval =>
    obtain ⟨heq, hlock, hzero, hcleared⟩ := h
    exact ⟨heq, hk.lock hlock, hzero, (hk.ownerEq hlock).trans hcleared⟩
  | _ => exact h.elim

namespace LocalOk

variable {κ : BasicKind} {id id' : ℕ} {l : Local} {m m' : MutexData}

/-- **The others' moves.**  What a thread relies on is not touched by another one. -/
theorem frame (h : LocalOk κ id l m) (hmoves : Moves id' m m') (hne : id ≠ id') (hid : 0 < id) :
    LocalOk κ id l m' := by
  have hk := hmoves.kept hne hid
  refine ⟨fun hh => hk.lock (h.has hh), h.once, fun ho => hk.lock (h.owner (hk.owner ho)),
    fun ho hs => ?_, ?_⟩
  · rw [hk.count (h.owner (hk.owner ho))]
    exact h.counted (hk.owner ho) hs
  · have hpoint := h.point
    cases hst : l.stage with
    | trylock p =>
      rw [hst] at hpoint
      exact TryPC.Ok.kept hpoint hk
    | unlock p =>
      rw [hst] at hpoint
      exact UnlockPC.Ok.kept hpoint h.owner hk
    | _ => trivial

end LocalOk

/-- No live thread has one of the two values that the owner field takes after a death. -/
theorem Shared.alive {kind : BitVec 32} {m : MutexData} (h : Shared kind m) :
    m.owner ≠ mutexInconsistent ∧ m.owner ≠ mutexNotrecoverable := by
  have := h.owner
  rw [futexTidMask] at this
  constructor
  · rw [mutexInconsistent]
    omega
  · rw [mutexNotrecoverable]
    omega

/-! ### A thread's own step -/

/-- A step of a thread is good: what holds of the mutex and of the thread is kept, and the others
    do not notice it. -/
structure Good (kind : BitVec 32) (κ : BasicKind) (id : ℕ) (m : MutexData) (l' : Local)
    (m' : MutexData) : Prop where
  shared : Shared kind m'
  ok : LocalOk κ id l' m'
  moves : Moves id m m'

/-- A mutex and itself. -/
theorem Moves.refl (id : ℕ) (m : MutexData) : Moves id m m := ⟨fun _ _ => ⟨rfl, rfl, rfl⟩, .inl rfl⟩

/-- A thread that has the word, or takes a free one, may change it and the fields beside it. -/
theorem Moves.of_lock {id : ℕ} {m m' : MutexData} (hlock : m.lock = id ∨ m.lock = 0)
    (howner : m'.owner = m.owner ∨ m'.owner = 0 ∨ m'.owner = id) : Moves id m m' :=
  ⟨fun hne hfree => absurd hlock (not_or.mpr ⟨hne, hfree⟩), howner⟩

namespace Good

variable {kind : BitVec 32} {κ : BasicKind} {id : ℕ} {l l' : Local} {m : MutexData}

/-- A step that only reads. -/
theorem read (hm : Shared kind m) (h : LocalOk κ id l m) (hhold : l'.hold = l.hold)
    (hsettled : l'.stage.settled = true → l.stage.settled = true)
    (hpoint : l'.stage.Ok κ id l.hold m) : Good kind κ id m l' m := by
  refine ⟨hm, ⟨?_, ?_, h.owner, fun ho hs => ?_, ?_⟩, Moves.refl id m⟩
  · rw [hhold]
    exact h.has
  · rw [hhold]
    exact h.once
  · rw [hhold]
    exact h.counted ho (hsettled hs)
  · rw [hhold]
    exact hpoint

end Good

section Step

variable {kind : BitVec 32} {id : ℕ} {l : Local} {m : MutexData}

/-- The test for the own id: a thread that finds it has the word. -/
theorem ownWord_good {κ : BasicKind} (hm : Shared kind m) (h : LocalOk κ id l m) {oldval : ℕ}
    {p : TryPC} (holdval : oldval ≤ futexTidMask) (hlock : oldval = id → m.lock = id)
    (hsettled : l.stage.settled = true) (hp : p.Ok κ id l.hold m) :
    Good kind κ id m (l.afterTrylock (ownWord id κ oldval p)) m := by
  unfold ownWord
  rw [and_futexTidMask_of_le holdval]
  split
  · exact .read hm h rfl (fun _ => hsettled) trivial
  · split
    · rename_i _ hrec
      exact .read hm h rfl (fun _ => hsettled) ⟨hrec.2, hlock hrec.1⟩
    · exact .read hm h rfl (fun _ => hsettled) hp

/-- A compare-and-exchange of 0 with the id: the thread has the word, and nothing to give back. -/
theorem taken_good {κ : BasicKind} (hm : Shared kind m) (h : LocalOk κ id l m)
    (hid : 0 < id ∧ id ≤ futexTidMask) (hfree : m.lock = 0) {p : TryPC}
    (hp : l.hold = 0 → p.Ok κ id l.hold { m with lock := id }) :
    Good kind κ id m { l with stage := .trylock p } { m with lock := id } := by
  have hhold : l.hold = 0 := by
    by_contra hpos
    have := h.has (Nat.pos_of_ne_zero hpos)
    omega
  have howner : m.owner ≠ id := by
    intro ho
    have := h.owner ho
    omega
  refine ⟨⟨hm.kind, hid.2, hm.owner⟩, ⟨fun _ => rfl, h.once, fun _ => rfl, ?_, hp hhold⟩,
    Moves.of_lock (.inr hfree) (.inl rfl)⟩
  exact fun ho _ => absurd ho howner

/-- **A step of a trylock** is good. -/
theorem trylockStep_good {S : Sys} {p : TryPC} (hm : Shared kind m)
    (h : LocalOk (basicOf (pthreadMutexTypeElision kind)) id l m) (hst : l.stage = .trylock p)
    (hid : 0 < id ∧ id ≤ futexTidMask) :
    Good kind (basicOf (pthreadMutexTypeElision kind)) id m
      (l.afterTrylock (trylockStep S id p m).1) (trylockStep S id p m).2 := by
  have hpoint := h.point
  rw [hst] at hpoint
  -- whether the acquisitions are counted at this point
  have hsettled : (Stage.trylock p).settled = true → l.stage.settled = true := by
    rw [hst]
    exact fun h => h
  have hkind := hm.kind
  cases p with
  | word => exact .read hm h rfl (fun _ => hsettled rfl) ⟨hm.lock, fun heq => heq⟩
  | test oldval =>
    simp only [trylockStep, hkind, and_futexOwnerDied hpoint.1, ne_eq, not_true_eq_false, if_false]
    exact ownWord_good hm h hpoint.1 hpoint.2 (hsettled rfl) trivial
  | bump =>
    simp only [trylockStep]
    split
    · exact .read hm h rfl (fun _ => hsettled rfl) trivial
    · rename_i hcount
      exact .read hm h rfl (fun _ => hsettled rfl) ⟨hpoint.1, hpoint.2, hcount⟩
  | bumpLoad =>
    obtain ⟨hrec, hlock, hcount⟩ := hpoint
    exact .read hm h rfl (fun _ => hsettled rfl) ⟨hrec, hlock, rfl, hcount⟩
  | bumpStore v =>
    obtain ⟨hrec, hlock, hv, hne⟩ := hpoint
    refine ⟨⟨hm.kind, hm.lock, hm.owner⟩, ⟨fun _ => hlock, fun hno => absurd hrec hno, h.owner,
      fun ho _ => ?_, trivial⟩, Moves.of_lock (.inl hlock) (.inl rfl)⟩
    obtain ⟨hcount, -⟩ := h.counted ho (hsettled rfl)
    refine ⟨?_, Nat.succ_pos _⟩
    show (v + 1).toNat = l.hold + 1
    rw [toNat_add_one hne, hv, hcount]
  | cas =>
    by_cases hfree : m.lock = 0
    · simp only [trylockStep, hfree, ne_eq, not_true_eq_false, false_and, if_false, if_true]
      exact taken_good hm h hid hfree fun hhold => ⟨rfl, rfl, hhold⟩
    · -- another thread, or this one, has the word
      simp only [trylockStep, hfree, ne_eq, not_false_eq_true, and_futexOwnerDied hm.lock, and_self,
        if_true, if_false]
      exact .read hm h rfl (fun _ => hsettled rfl) trivial
  | recoverable oldval =>
    obtain ⟨rfl, hlock, hhold⟩ := hpoint
    simp only [trylockStep, hm.alive.2, if_false, Nat.zero_and, ne_eq, not_true_eq_false]
    exact .read hm h rfl (fun _ => hsettled rfl) ⟨hlock, hhold⟩
  | piWord =>
    simp only [trylockStep, hkind]
    exact ownWord_good hm h hm.lock (fun heq => heq) (hsettled rfl) trivial
  | piCas =>
    by_cases hfree : m.lock = 0
    · simp only [trylockStep, hfree, if_true]
      exact taken_good hm h hid hfree fun hhold => ⟨rfl, hhold⟩
    · simp only [trylockStep, hfree, if_false, and_futexOwnerDied hm.lock, if_true]
      exact .read hm h rfl (fun _ => hsettled rfl) trivial
  | piRecoverable =>
    simp only [trylockStep, hm.alive.2, and_false, if_false]
    exact .read hm h rfl (fun _ => hsettled rfl) hpoint
  | owner =>
    obtain ⟨hlock, hhold⟩ := hpoint
    exact ⟨⟨hm.kind, hm.lock, hid.2⟩, ⟨fun _ => hlock, h.once, fun _ => hlock,
      fun _ hs => absurd hs Bool.false_ne_true, hlock, hhold, rfl⟩,
      Moves.of_lock (.inl hlock) (.inr (.inr rfl))⟩
  | nusers => exact .read hm h rfl (fun hs => by cases hs) hpoint
  | nusersStore v =>
    obtain ⟨hlock, hhold, howner⟩ := hpoint
    exact ⟨⟨hm.kind, hm.lock, hm.owner⟩, ⟨h.has, h.once, h.owner,
      fun _ hs => absurd hs Bool.false_ne_true, hlock, hhold, howner⟩,
      Moves.of_lock (.inl hlock) (.inl rfl)⟩
  | count =>
    obtain ⟨hlock, hhold, howner⟩ := hpoint
    -- the call returns 0: one more to give back
    have hone : (Local.acquired l (.ret 0)).hold = 1 := by
      show l.hold + 1 = 1
      rw [hhold]
    refine ⟨⟨hm.kind, hm.lock, hm.owner⟩, ⟨fun _ => hlock, fun _ => hone.le, fun _ => hlock,
      fun _ _ => ?_, trivial⟩, Moves.of_lock (.inl hlock) (.inl rfl)⟩
    show BitVec.toNat 1 = (Local.acquired l (.ret 0)).hold ∧ 0 < (Local.acquired l (.ret 0)).hold
    rw [hone]
    exact ⟨rfl, Nat.one_pos⟩
  | _ => exact hpoint.elim

/-- A word is given back: the thread has nothing more to give back, and is not recorded. -/
theorem givenBack_good {κ : BasicKind} {l' : Local} {word : ℕ} (hm : Shared kind m)
    (hid : 0 < id) (hlock : m.lock = id) (howner : m.owner = 0) (hword : word ≤ futexTidMask)
    (hhold : l'.hold = 0) (hpoint : l'.stage.Ok κ id 0 { m with lock := word }) :
    Good kind κ id m l' { m with lock := word } := by
  have hne : m.owner ≠ id := by
    rw [howner]
    exact hid.ne
  refine ⟨⟨hm.kind, hword, hm.owner⟩, ⟨fun hpos => ?_, fun _ => ?_, fun ho => absurd ho hne,
    fun ho _ => absurd ho hne, ?_⟩, Moves.of_lock (.inl hlock) (.inl rfl)⟩
  · omega
  · omega
  · rw [hhold]
    exact hpoint

/-- The thread after a step of an unlock from `p`. -/
def Local.stepUnlock (l : Local) (p : UnlockPC) (r : Next UnlockPC × Prio × MutexData) : Local :=
  { l with prio := r.2.1, hold := if p.matches then l.hold - 1 else l.hold }.afterUnlock r.1

/-- **A step of an unlock** is good. -/
theorem unlockStep_good {S : Sys} {κ : BasicKind} {p : UnlockPC} (hm : Shared kind m)
    (h : LocalOk κ id l m) (hst : l.stage = .unlock p) (hid : 0 < id ∧ id ≤ futexTidMask) :
    Good kind κ id m (l.stepUnlock p (unlockStep S id p l.prio m))
      (unlockStep S id p l.prio m).2.2 := by
  have hpoint := h.point
  rw [hst] at hpoint
  have hsettled : (Stage.unlock p).settled = true → l.stage.settled = true := by
    rw [hst]
    exact fun h => h
  cases p with
  | recTid =>
    refine .read hm h rfl (fun _ => hsettled rfl) ?_
    simp only [unlockStep, Local.stepUnlock, Local.afterUnlock]
    split <;> trivial
  | recInconsistent =>
    simp only [unlockStep, hm.alive.1, if_false]
    exact .read hm h rfl (fun _ => hsettled rfl) trivial
  | recOwner pp =>
    by_cases howner : m.owner = id
    · simp only [unlockStep, howner, ne_eq, not_true_eq_false, if_false]
      exact .read hm h rfl (fun _ => hsettled rfl) howner
    · simp only [unlockStep, ne_eq, howner, not_false_eq_true, if_true]
      exact .read hm h rfl (fun _ => hsettled rfl) trivial
  | recCount pp => exact .read hm h rfl (fun _ => hsettled rfl) ⟨hpoint, rfl⟩
  | recCountStore pp v =>
    obtain ⟨howner, hv⟩ := hpoint
    obtain ⟨hcount, hpos⟩ := h.counted howner (hsettled rfl)
    have hlock := h.owner howner
    -- the level in the count is the one that the thread gives back
    have hsub : (v - 1).toNat = l.hold - 1 := by
      rw [hv, toNat_sub_one (by rw [hcount]; exact hpos), hcount]
    have honce : κ ≠ .recursive → l.hold - 1 ≤ 1 := fun hκ => by
      have := h.once hκ
      omega
    have hmoves : Moves id m { m with count := v - 1 } := Moves.of_lock (.inl hlock) (.inl rfl)
    by_cases hlast : v - 1 = 0
    · simp only [unlockStep, hlast, ne_eq, not_true_eq_false, if_false]
      rw [hlast] at hsub hmoves
      exact ⟨⟨hm.kind, hm.lock, hm.owner⟩, ⟨fun _ => hlock, honce, fun _ => hlock,
        fun _ hs => absurd hs Bool.false_ne_true, rfl, hlock, hsub.symm⟩, hmoves⟩
    · simp only [unlockStep, ne_eq, hlast, not_false_eq_true, if_true]
      refine ⟨⟨hm.kind, hm.lock, hm.owner⟩, ⟨fun _ => hlock, honce, fun _ => hlock,
        fun _ _ => ⟨hsub, ?_⟩, trivial⟩, hmoves⟩
      -- a level is left
      show 0 < l.hold - 1
      rw [← hsub]
      apply Nat.pos_of_ne_zero
      exact fun h0 => hlast (BitVec.eq_of_toNat_eq h0)
  | tid =>
    by_cases hown : m.lock &&& futexTidMask = id
    · simp only [unlockStep, hown, ne_eq, not_true_eq_false, if_false]
      exact .read hm h rfl (fun _ => hsettled rfl)
        ⟨hpoint, (and_futexTidMask_of_le hm.lock).symm.trans hown⟩
    · simp only [unlockStep, ne_eq, hown, not_false_eq_true, if_true]
      exact .read hm h rfl (fun _ => hsettled rfl) trivial
  | locked =>
    have hne : ¬ m.lock = lllLockInitializer := by
      rw [hpoint.2]
      exact hid.1.ne'
    simp only [unlockStep, hne, if_false]
    exact .read hm h rfl (fun _ => hsettled rfl) hpoint
  | inconsistent =>
    obtain ⟨hκ, hlock⟩ := hpoint
    have honce := h.once hκ
    simp only [unlockStep, hm.alive.1, if_false]
    refine ⟨hm, ⟨fun _ => hlock, fun _ => ?_, h.owner, fun _ hs => absurd hs Bool.false_ne_true,
      rfl, hlock, ?_⟩, Moves.refl id m⟩
    · show l.hold - 1 ≤ 1
      omega
    · show l.hold - 1 = 0
      omega
  | owner pp newowner =>
    obtain ⟨rfl, hlock, hhold⟩ := hpoint
    have hne : (0 : ℕ) ≠ id := hid.1.ne
    exact ⟨⟨hm.kind, hm.lock, Nat.zero_le _⟩, ⟨fun _ => hlock, h.once, fun ho => absurd ho hne,
      fun ho _ => absurd ho hne, hlock, hhold, rfl⟩, Moves.of_lock (.inl hlock) (.inr (.inl rfl))⟩
  | nusers pp => exact .read hm h rfl (fun hs => absurd hs Bool.false_ne_true) hpoint
  | nusersStore pp v =>
    obtain ⟨hlock, hhold, howner⟩ := hpoint
    refine ⟨⟨hm.kind, hm.lock, hm.owner⟩, ⟨h.has, h.once, h.owner, fun ho _ => ?_, ?_⟩,
      Moves.of_lock (.inl hlock) (.inl rfl)⟩
    · exact absurd (howner.symm.trans ho) hid.1.ne
    · cases pp <;> exact ⟨hlock, hhold, howner⟩
  | word =>
    obtain ⟨hlock, hhold, howner⟩ := hpoint
    exact givenBack_good hm hid.1 hlock howner (Nat.zero_le _) hhold trivial
  | ppWord =>
    obtain ⟨hlock, hhold, howner⟩ := hpoint
    exact .read hm h rfl (fun hs => absurd hs Bool.false_ne_true) ⟨hlock, hlock, hhold, howner⟩
  | ppCas oldval =>
    obtain ⟨rfl, hlock, hhold, howner⟩ := hpoint
    have hle : oldval &&& prioCeilingMask ≤ futexTidMask := Nat.and_le_left.trans hid.2
    simp only [unlockStep, hlock, ne_eq, not_true_eq_false, if_false]
    -- whatever the code for priority protection makes of the word, the thread has given it back
    split <;> exact givenBack_good hm hid.1 hlock howner hle hhold trivial
  | _ => exact hpoint.elim

end Step

/-! ### The kind of a robust mutex -/

/-- What `pthread_mutex_init` stores for a robust attribute that it accepts. -/
theorem mutexInit_robust {attr : BitVec 32} {m : MutexData} (hrobust : attr &&& attrFlagRobust ≠ 0)
    (haccepted : (mutexInit attr m).1 = 0) :
    ∃ kind, (mutexInit attr m).2 = { kind := kind ||| robustNormal ||| psharedBit } := by
  have hprotocol : attr &&& attrProtocolMask = attrPrioNone ∨
      attr &&& attrProtocolMask = attrPrioInherit := by
    by_contra hno
    obtain ⟨hnone, hinherit⟩ := not_or.mp hno
    unfold mutexInit at haccepted
    rw [if_pos ⟨hnone, hinherit, hrobust⟩] at haccepted
    exact absurd haccepted (by decide : eNOTSUP ≠ 0)
  have hflag : attr &&& (attrFlagPshared ||| attrFlagRobust) ≠ 0 := by
    rw [BitVec.and_or_distrib_left]
    exact fun h => hrobust (BitVec.or_eq_zero_iff.mp h).2
  rcases hprotocol with hnone | hinherit
  · refine ⟨attr &&& ~~~attrFlagBits, ?_⟩
    simp only [mutexInit, hnone, hrobust, hflag, ne_eq, not_true_eq_false, false_and, if_false,
      not_false_eq_true, if_true, show attrPrioNone ≠ attrPrioInherit by decide,
      show attrPrioNone ≠ attrPrioProtect by decide]
  · refine ⟨attr &&& ~~~attrFlagBits ||| prioInherit, ?_⟩
    simp only [mutexInit, hinherit, hrobust, hflag, ne_eq, not_true_eq_false, and_false, false_and,
      if_false, not_false_eq_true, if_true, show attrPrioInherit ≠ attrPrioProtect by decide]
    congr 1
    ac_rfl

/-- A type with the robust bit meets a robust label or none. -/
theorem switchKind_robust {type : BitVec 32} (h : type &&& robustNormal ≠ 0) :
    switchKind type = .invalid ∨ switchKind type = .special ∧
      (protocolOf type = .robust ∨ protocolOf type = .inheritRobust) := by
  by_cases hinvalid : switchKind type = .invalid
  · exact .inl hinvalid
  · refine .inr ?_
    rcases known_kind hinvalid with ⟨κ, rfl⟩ | ⟨π, κ, rfl⟩
    · exact absurd (by cases κ <;> decide) h
    · refine ⟨switchKind_protocol π κ, ?_⟩
      rw [protocolOf_code]
      cases π with
      | robust => exact .inl rfl
      | inheritRobust => exact .inr rfl
      | _ => exact absurd (by cases κ <;> decide) h

/-- Masking a kind keeps what the mask has. -/
theorem and_robust (kind mask : BitVec 32) (h : mask &&& robustNormal = robustNormal) :
    (kind ||| robustNormal ||| psharedBit) &&& mask &&& robustNormal ≠ 0 := by
  rw [BitVec.and_assoc, h, BitVec.and_or_distrib_right, BitVec.and_or_distrib_right,
    BitVec.and_self]
  intro h0
  exact absurd (BitVec.or_eq_zero_iff.mp (BitVec.or_eq_zero_iff.mp h0).1).2 (by decide)

/-- Both types of a kind have its basic part. -/
theorem basicOf_type (kind : BitVec 32) :
    basicOf (pthreadMutexType kind) = basicOf (pthreadMutexTypeElision kind) := by
  simp only [basicOf, pthreadMutexType, pthreadMutexTypeElision, BitVec.and_assoc]
  rfl

variable {kind : BitVec 32}

/-- A trylock call goes to the word, or is refused. -/
theorem trylockSwitch_robust (h : pthreadMutexTypeElision kind &&& robustNormal ≠ 0) :
    trylockSwitch kind = some (.done (.ret eINVAL)) ∨ trylockSwitch kind = some (.goto .word) ∨
      trylockSwitch kind = some (.goto .piWord) := by
  have hlabel : ¬ (pthreadMutexTypeElision kind = elisionNp ∨
      pthreadMutexTypeElision kind = BasicKind.recursive.code ||| elisionNp) := by
    rintro (htype | htype)
    · exact h (by rw [htype]; decide)
    · exact h (by rw [htype]; decide)
  unfold trylockSwitch
  rw [if_neg hlabel]
  rcases switchKind_robust h with hinvalid | ⟨hspecial, hprotocol | hprotocol⟩
  · simp only [hinvalid, true_or]
  · simp only [hspecial, hprotocol, true_or, or_true]
  · simp only [hspecial, hprotocol, or_true]

/-- An unlock call goes to a test of the ownership, or is refused; which one depends on whether the
    mutex is recursive. -/
theorem unlockSwitch_robust (helision : pthreadMutexTypeElision kind &&& robustNormal ≠ 0)
    (htype : pthreadMutexType kind &&& robustNormal ≠ 0) :
    unlockSwitch kind = some (.done (.ret eINVAL)) ∨ unlockSwitch kind = some (.goto .recTid) ∨
      unlockSwitch kind = some (.goto (.recOwner true)) ∨
      unlockSwitch kind = some (.goto .tid) ∧ basicOf (pthreadMutexType kind) ≠ .recursive := by
  have hfull : pthreadMutexTypeElision kind &&& ~~~(kindMask ||| elisionFlags) ≠ 0 := by
    intro h0
    apply helision
    have := congrArg (· &&& robustNormal) h0
    have hmask : ~~~(kindMask ||| elisionFlags) &&& robustNormal = robustNormal := by decide
    rw [show (0 : BitVec 32) &&& robustNormal = 0 by decide] at this
    simpa only [BitVec.and_assoc, hmask] using this
  unfold unlockSwitch
  rw [if_neg hfull]
  rcases switchKind_robust htype with hinvalid | ⟨hspecial, hprotocol | hprotocol⟩
  · simp only [hinvalid, true_or]
  · simp only [hspecial, hprotocol]
    cases hbasic : basicOf (pthreadMutexType kind) <;> simp
  · simp only [hspecial, hprotocol]
    cases hbasic : basicOf (pthreadMutexType kind) <;> simp

/-! ### Every run -/

/-- What a kind that `pthread_mutex_init` stored for a robust attribute has in common. -/
structure RobustKind (kind : BitVec 32) : Prop where
  lock : switchKind kind = .invalid
  elision : pthreadMutexTypeElision kind &&& robustNormal ≠ 0
  type : pthreadMutexType kind &&& robustNormal ≠ 0

/-- The kinds that `pthread_mutex_init` stores. -/
theorem robustKind (kind : BitVec 32) : RobustKind (kind ||| robustNormal ||| psharedBit) where
  lock := switchKind_flag _
  elision := and_robust kind _ (by decide)
  type := and_robust kind _ (by decide)

/-- What holds of all threads and the mutex. -/
structure Inv (id : ι → ℕ) (kind : BitVec 32) (c : Config ι Local MutexData) : Prop where
  shared : Shared kind c.sh
  ok : ∀ t, LocalOk (basicOf (pthreadMutexTypeElision kind)) (id t) (c.loc t) c.sh

variable {id : ι → ℕ}

/-- A thread's next step is good. -/
theorem next_good (hkind : RobustKind kind) {t : ι} {a : Action} {l l' : Local}
    {m m' : MutexData} (hid : 0 < id t ∧ id t ≤ futexTidMask) (hm : Shared kind m)
    (h : LocalOk (basicOf (pthreadMutexTypeElision kind)) (id t) l m)
    (hnext : next id t a l m = some (l', m')) :
    Good kind (basicOf (pthreadMutexTypeElision kind)) (id t) m l' m' := by
  unfold next at hnext
  split at hnext
  · rename_i S hst
    have hinvalid := lock_invalid S (id t) (s := ⟨m, l.prio, []⟩)
      (by rw [hm.kind]; exact hkind.lock)
    simp only [hinvalid, Option.some.injEq, Prod.mk.injEq] at hnext
    obtain ⟨rfl, rfl⟩ := hnext
    exact .read hm h rfl (fun _ => by rw [hst]; rfl) trivial
  · rename_i hst
    rw [hm.kind] at hnext
    have hout : ∀ l' : Local, l'.stage.settled = true → l.stage.settled = true := by
      intro _ _
      rw [hst]
      rfl
    rcases trylockSwitch_robust hkind.elision with hswitch | hswitch | hswitch <;>
      rw [hswitch] at hnext <;>
      obtain ⟨rfl, rfl⟩ := Prod.mk.inj (Option.some.inj hnext) <;>
      exact .read hm h rfl (hout _) trivial
  · rename_i hst
    rw [hm.kind] at hnext
    have hout : ∀ l' : Local, l'.stage.settled = true → l.stage.settled = true := by
      intro _ _
      rw [hst]
      rfl
    rcases unlockSwitch_robust hkind.elision hkind.type with hswitch | hswitch | hswitch | hswitch
    · rw [hswitch] at hnext
      obtain ⟨rfl, rfl⟩ := Prod.mk.inj (Option.some.inj hnext)
      exact .read hm h rfl (hout _) trivial
    · rw [hswitch] at hnext
      obtain ⟨rfl, rfl⟩ := Prod.mk.inj (Option.some.inj hnext)
      exact .read hm h rfl (hout _) trivial
    · rw [hswitch] at hnext
      obtain ⟨rfl, rfl⟩ := Prod.mk.inj (Option.some.inj hnext)
      exact .read hm h rfl (hout _) trivial
    · obtain ⟨hswitch, hbasic⟩ := hswitch
      rw [hswitch] at hnext
      obtain ⟨rfl, rfl⟩ := Prod.mk.inj (Option.some.inj hnext)
      rw [basicOf_type] at hbasic
      exact .read hm h rfl (hout _) hbasic
  · rename_i S p hst
    obtain ⟨rfl, rfl⟩ := Prod.mk.inj (Option.some.inj hnext)
    exact trylockStep_good hm h hst hid
  · rename_i S p hst
    obtain ⟨rfl, rfl⟩ := Prod.mk.inj (Option.some.inj hnext)
    exact unlockStep_good hm h hst hid
  · exact absurd hnext (by simp)

variable [DecidableEq ι]

/-- **The invariant is kept** by every step. -/
theorem Inv.step (hkind : RobustKind kind) (hinj : Function.Injective id)
    (hid : ∀ t, 0 < id t ∧ id t ≤ futexTidMask) {c d : Config ι Local MutexData} {t : ι}
    {a : Action} (hI : Inv id kind c) (hstep : (system id).step c t a = some d) :
    Inv id kind d := by
  obtain ⟨l, m, hnext, rfl⟩ := System.step_eq_some.mp hstep
  have hgood := next_good hkind (hid t) hI.shared (hI.ok t) hnext
  refine ⟨hgood.shared, ?_⟩
  refine forall_update (P := fun u l => LocalOk (basicOf (pthreadMutexTypeElision kind)) (id u) l m)
    hgood.ok fun u hu => ?_
  exact (hI.ok u).frame hgood.moves (fun h => hu (hinj h)) (hid u).1

omit [DecidableEq ι] in
/-- The invariant excludes. -/
theorem Inv.excludes (hinj : Function.Injective id) {c : Config ι Local MutexData}
    (hI : Inv id kind c) : Excludes id c := by
  refine ⟨fun t ht => ?_, fun t u ht hu => ?_⟩
  · rw [and_futexTidMask_of_le hI.shared.lock]
    exact (hI.ok t).has ht
  · exact hinj (((hI.ok t).has ht).symm.trans ((hI.ok u).has hu))

/-- The start: a mutex just initialised, and every thread outside. -/
def Fresh (m : MutexData) (c : Config ι Local MutexData) : Prop :=
  c.sh = m ∧ ∀ t, (c.loc t).stage = .outside ∧ (c.loc t).hold = 0

omit [DecidableEq ι] in
/-- The invariant holds at first. -/
theorem Inv.initial (hid : ∀ t, 0 < id t ∧ id t ≤ futexTidMask) {c : Config ι Local MutexData}
    (hinit : Fresh { kind := kind } c) : Inv id kind c := by
  obtain ⟨hsh, hloc⟩ := hinit
  refine ⟨?_, fun t => ?_⟩
  · rw [hsh]
    exact ⟨rfl, Nat.zero_le _, Nat.zero_le _⟩
  · obtain ⟨hstage, hhold⟩ := hloc t
    rw [hsh]
    have hne : (0 : ℕ) ≠ id t := (hid t).1.ne
    refine ⟨fun hpos => ?_, fun _ => ?_, fun ho => absurd ho hne, fun ho _ => absurd ho hne, ?_⟩
    · omega
    · omega
    · rw [hstage]
      trivial

/-- **Robust mutexes.**  For every attribute with the robust flag that `pthread_mutex_init`
    accepts, and every run of lock, trylock and unlock calls of threads that do not die: that lock
    calls on the free mutex return 0 and that the mutex excludes holds if and only if no lock call
    meets the free mutex. -/
theorem robust_iff (attr : BitVec 32) (m₀ : MutexData) (id : ι → ℕ)
    (hrobust : attr &&& attrFlagRobust ≠ 0) (haccepted : (mutexInit attr m₀).1 = 0)
    (hinj : Function.Injective id) (hid : ∀ t, 0 < id t ∧ id t ≤ futexTidMask)
    {c₀ c : Config ι Local MutexData} {tr : List (Event ι Action Local MutexData)}
    (hinit : Fresh (mutexInit attr m₀).2 c₀) (hrun : Run (system id) c₀ tr c) :
    ((∀ x ∈ tr, LocksFree x → lockOutcome id x = some (.ret 0)) ∧
      (∀ x ∈ tr, Excludes id x.pre) ∧ Excludes id c) ↔
    ∀ x ∈ tr, ¬ LocksFree x := by
  obtain ⟨k, hk⟩ := mutexInit_robust hrobust haccepted
  rw [hk] at hinit
  have hkind := robustKind k
  have hinv : (∀ x ∈ tr, Inv id (k ||| robustNormal ||| psharedBit) x.pre) ∧
      Inv id (k ||| robustNormal ||| psharedBit) c := by
    refine hrun.history (I := fun tr c =>
      (∀ x ∈ tr, Inv id (k ||| robustNormal ||| psharedBit) x.pre) ∧
        Inv id (k ||| robustNormal ||| psharedBit) c) ⟨by simp, Inv.initial hid hinit⟩ ?_
    intro tr d t a e ih hstep
    refine ⟨fun x hx => ?_, ih.2.step hkind hinj hid hstep⟩
    rcases List.mem_append.mp hx with hx | hx
    · exact ih.1 x hx
    · rw [List.mem_singleton.mp hx]
      exact ih.2
  constructor
  · rintro ⟨hlock, -⟩ x hx hfree
    have hret := hlock x hx hfree
    obtain ⟨⟨S, hact⟩, -⟩ := hfree
    -- the `switch` does not know the kind
    have hinvalid := lock_invalid S (id x.who) (s := ⟨x.pre.sh, (x.pre.loc x.who).prio, []⟩)
      (by rw [(hinv.1 x hx).shared.kind]; exact hkind.lock)
    simp only [lockOutcome, hact, hinvalid] at hret
    exact absurd hret (by decide)
  · intro hno
    exact ⟨fun x hx hfree => absurd hfree (hno x hx),
      fun x hx => (hinv.1 x hx).excludes hinj, hinv.2.excludes hinj⟩

/-! ### A run -/

/-- The attribute of a normal robust mutex. -/
def robustAttr : BitVec 32 := attrFlagRobust ||| BasicKind.timed.code

/-- Thread ids 5 and 6. -/
def twoIds (t : Bool) : ℕ := if t then 6 else 5

/-- Two threads, and the mutex as it was initialised. -/
def robustStart : Config Bool Local MutexData := ⟨fun _ => {}, (mutexInit robustAttr {}).2⟩

/-- A lock call on it. -/
def firstLock : List (Event Bool Action Local MutexData) × Config Bool Local MutexData :=
  (system twoIds).execute robustStart [(false, .lock linuxSys)] rfl

/-- It is refused. -/
theorem robust_lock_refused :
    (mutexInit robustAttr {}).1 = 0 ∧
      Fresh (mutexInit robustAttr {}).2 robustStart ∧
      Run (system twoIds) robustStart firstLock.1 firstLock.2 ∧
      ¬ ∀ x ∈ firstLock.1, LocksFree x → lockOutcome twoIds x = some (.ret 0) := by
  refine ⟨rfl, ⟨rfl, fun _ => ⟨rfl, rfl⟩⟩, (system twoIds).execute_run _ _ _, fun hall => ?_⟩
  have hret := hall ⟨robustStart, false, .lock linuxSys⟩ (List.mem_singleton.mpr rfl)
    ⟨⟨linuxSys, rfl⟩, by decide⟩
  have hrefused : lockOutcome twoIds ⟨robustStart, false, .lock linuxSys⟩ =
      some (.ret eINVAL) := rfl
  rw [hrefused] at hret
  exact absurd hret (by decide)

/-- A trylock of one thread, which gets the mutex; an unlock; and a lock call of the other one. -/
def lockRefused : List (Event Bool Action Local MutexData) × Config Bool Local MutexData :=
  (system twoIds).execute robustStart
    (List.flatten [[(false, .trylock)], List.replicate 8 (false, .run linuxSys), [(false, .unlock)],
      List.replicate 7 (false, .run linuxSys), [(true, .lock linuxSys)]]) rfl

/-- The two ids are different. -/
theorem twoIds_injective : Function.Injective twoIds := by
  intro t u h
  cases t <;> cases u <;> first | rfl | cases h

/-- The lock of a free mutex is refused. -/
theorem robust_iff_lockRefused :
    ((∀ x ∈ lockRefused.1, LocksFree x → lockOutcome twoIds x = some (.ret 0)) ∧
      (∀ x ∈ lockRefused.1, Excludes twoIds x.pre) ∧ Excludes twoIds lockRefused.2) ↔
    ∀ x ∈ lockRefused.1, ¬ LocksFree x :=
  robust_iff robustAttr {} twoIds (by decide) rfl twoIds_injective (by decide)
    ⟨rfl, fun _ => ⟨rfl, rfl⟩⟩ ((system twoIds).execute_run _ _ _)

end SyncPerf.Robust
