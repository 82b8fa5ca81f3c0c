import SyncPerf.RobustLock
import SyncPerf.RobustList

namespace SyncPerf.RobustList

open Calls Robust

/-!
# A thread and one of its robust mutexes

What a thread knows of the word and the owner field of a robust mutex at each point of a trylock or
an unlock, with what it knows of its list and of `list_op_pending`.

* `Ids`, `WordOk` — thread ids and lock words;
* `TryPoint.Knows`, `UnlockPoint.Knows` — the knowledge at a point;
* `View`, `Moves` — how a mutex looks to a thread, and what a thread does to it;
* `trylockStep_ok`, `unlockStep_ok` — every step keeps both.
-/

variable {ι : Type}

/-! ### Words -/

/-- The thread ids are different, positive, and fit into a lock word. -/
structure Ids (id : ι → ℕ) : Prop where
  inj : Function.Injective id
  pos : ∀ i, 0 < id i
  le : ∀ i, id i ≤ futexTidMask

/-- A lock word is free, or has an id, or is left from a dead thread. -/
def WordOk (id : ι → ℕ) (lock : ℕ) : Prop := lock = 0 ∨ lock = futexOwnerDied ∨ ∃ j, lock = id j

section Words

variable {id : ι → ℕ} {lock : ℕ} {i : ι}

/-- No id is the mark of a dead owner. -/
theorem Ids.ne_died (h : Ids id) (i : ι) : id i ≠ futexOwnerDied := by
  have := h.le i
  rw [futexTidMask] at this
  rw [futexOwnerDied]
  omega

/-- The owner's part of a word is an id only when the word is. -/
theorem WordOk.tid_eq (h : WordOk id lock) (hids : Ids id) :
    lock &&& futexTidMask = id i ↔ lock = id i := by
  have hpos := hids.pos i
  rcases h with rfl | rfl | ⟨j, rfl⟩
  · rw [Nat.zero_and]
  · have hmask : futexOwnerDied &&& futexTidMask = 0 := by decide
    rw [hmask]
    exact iff_of_false hpos.ne (hids.ne_died i).symm
  · rw [and_futexTidMask_of_le (hids.le j)]

/-- A word with the mark of a dead owner has nothing else in it. -/
theorem WordOk.died (h : WordOk id lock) (hids : Ids id) (hd : lock &&& futexOwnerDied ≠ 0) :
    lock = futexOwnerDied := by
  rcases h with rfl | rfl | ⟨j, rfl⟩
  · exact absurd (Nat.zero_and _) hd
  · rfl
  · exact absurd (and_futexOwnerDied (hids.le j)) hd

end Words

/-! ### What a thread knows -/

/-- A mutex that has the id is on the list, or it is not recoverable. -/
def Found (id : ℕ) (mem : Prop) (v : MutexData) : Prop :=
  v.lock = id → mem ∨ v.owner = mutexNotrecoverable

/-- What thread `i` knows at a point of `do_mutex_trylock`; `mem` says that the mutex is on its
    list. -/
def TryKnows (id : ι → ℕ) (i : ι) (mem : Prop) (v : MutexData) : Robust.TryPC → Prop
  | .word | .cas => Found (id i) mem v
  | .test oldval => Found (id i) mem v ∧ WordOk id oldval
  | .inherit oldval => Found (id i) mem v ∧ oldval = futexOwnerDied
  | .inheritCount | .inheritOwner => v.lock = id i ∧ ¬ mem
  | .recoverable oldval =>
    oldval = 0 ∧ v.lock = id i ∧ ¬ mem ∨ oldval = futexOwnerDied ∧ Found (id i) mem v
  | .giveUp oldval | .giveUpWord oldval => Found (id i) mem v ∧ oldval ≠ id i
  | .bump | .bumpLoad | .bumpStore _ => True
  | .owner | .nusers | .nusersStore _ | .count => v.lock = id i ∧ mem
  | _ => False

/-- Past the clearing of `list_op_pending`. -/
def tryLate : Robust.TryPC → Bool
  | .bump | .bumpLoad | .bumpStore _ | .owner | .nusers | .nusersStore _ | .count => true
  | _ => false

/-- What an unlock stores in the owner field is nobody's id. -/
def Nobody (w : ℕ) : Prop := w = 0 ∨ futexTidMask < w

/-- What the thread knows at a point of `__pthread_mutex_unlock_full`. -/
def UnlockKnows (id : ι → ℕ) (i : ι) (mem : Prop) (v : MutexData) : UnlockPC → Prop
  | .recTid | .tid => v.lock = id i → mem
  | .recInconsistent | .lost | .lostStore _ | .recCount false | .recCountStore false _ | .locked
  | .inconsistent => v.lock = id i ∧ mem
  | .recOwner false => True
  | .owner false newowner => v.lock = id i ∧ ¬ mem ∧ Nobody newowner
  | .nusers false | .nusersStore false _ | .word => v.lock = id i ∧ ¬ mem ∧ v.owner ≠ id i
  | _ => False

/-- Past the dequeue. -/
def unlockLate : UnlockPC → Bool
  | .owner _ _ | .nusers _ | .nusersStore _ _ | .word => true
  | _ => false

/-- What a thread knows in a trylock, the operations on its list included. -/
def TryPoint.Knows (id : ι → ℕ) (i : ι) (mem : Prop) (v : MutexData) : TryPoint → Prop
  | .pending => True
  | .run p => TryKnows id i mem v p
  | .enqueue _ rest =>
    v.lock = id i ∧ ¬ mem ∧ (rest = .goto .owner ∨ ∃ code, rest = .done (.ret code))
  | .clear rest =>
    Found (id i) mem v ∧ (rest = .goto .bump ∨ rest = .goto .owner ∧ v.lock = id i ∧ mem ∨
      ∃ code, rest = .done (.ret code))

/-- What a thread knows in an unlock, the operations on its list included. -/
def UnlockPoint.Knows (id : ι → ℕ) (i : ι) (mem : Prop) (v : MutexData) : UnlockPoint → Prop
  | .run p => UnlockKnows id i mem v p
  | .pending rest => v.lock = id i ∧ mem ∧ ∃ w, rest = .owner false w ∧ Nobody w
  | .dequeue _ rest => v.lock = id i ∧ ∃ w, rest = .owner false w ∧ Nobody w
  | .clear o => v.lock ≠ id i ∧ ∃ code, o = .ret code

/-- Where `list_op_pending` names the mutex. -/
def TryPoint.announced : TryPoint → Bool
  | .pending => false
  | .run p => !tryLate p
  | .enqueue _ _ | .clear _ => true

/-- The same in an unlock. -/
def UnlockPoint.announced : UnlockPoint → Bool
  | .run p => unlockLate p
  | .pending _ => false
  | .dequeue _ _ | .clear _ => true

/-- Where the owner field may still have the id of the thread, with the mutex off the list. -/
def UnlockPoint.releases : UnlockPoint → Bool
  | .run (.owner _ _) | .dequeue _ _ => true
  | _ => false

/-! ### A step on the mutex -/

/-- How a mutex looks to the thread with this id: `mem` says that it is on the list, `pend` that
    `list_op_pending` names it, and `rel` that it is being given back. -/
structure View (id : ℕ) (mem pend rel : Prop) (v : MutexData) : Prop where
  word : mem → v.lock = id
  found : v.lock = id → mem ∨ pend ∨ v.owner = mutexNotrecoverable
  owner : v.owner = id → v.lock = id ∧ (mem ∨ rel)

/-- What a step of the thread with this id does to a mutex. -/
structure Moves (id : ℕ) (v v' : MutexData) : Prop where
  kind : v'.kind = v.kind
  lock : v'.lock = v.lock ∨ (v.lock = 0 ∨ v.lock = futexOwnerDied) ∧ v'.lock = id ∨
    v.lock = id ∧ (v'.lock = 0 ∨ v'.lock = futexOwnerDied)
  owner : v'.owner = v.owner ∨ v.lock = id ∧ (v'.owner = id ∨ Nobody v'.owner)

/-- The kind, the word and the owner are as before. -/
structure Quiet (v v' : MutexData) : Prop where
  kind : v'.kind = v.kind
  lock : v'.lock = v.lock
  owner : v'.owner = v.owner

/-- A mutex and itself. -/
theorem Quiet.refl (v : MutexData) : Quiet v v := ⟨rfl, rfl, rfl⟩

section Quiet

variable {id : ℕ} {mem pend rel : Prop} {v v' : MutexData}

/-- A step that leaves kind, word and owner alone is one of any thread. -/
theorem Quiet.moves (h : Quiet v v') : Moves id v v' := ⟨h.kind, .inl h.lock, .inl h.owner⟩

/-- It keeps what a thread has found out. -/
theorem Quiet.found (h : Quiet v v') (hf : Found id mem v) : Found id mem v' := by
  unfold Found at *
  rwa [h.lock, h.owner]

/-- It keeps what a thread sees. -/
theorem Quiet.view (h : Quiet v v') (hv : View id mem pend rel v) : View id mem pend rel v' := by
  obtain ⟨hword, hfound, howner⟩ := hv
  constructor
  · rwa [h.lock]
  · rwa [h.lock, h.owner]
  · rwa [h.lock, h.owner]

/-- A word that did not have the id is taken. -/
theorem View.take (hv : View id mem pend rel v) (hne : v.lock ≠ id) (hpend : pend)
    (hlock : v'.lock = id) (howner : v'.owner = v.owner) : View id mem pend rel v' := by
  refine ⟨fun _ => hlock, fun _ => .inr (.inl hpend), fun ho => ?_⟩
  rw [howner] at ho
  exact absurd (hv.owner ho).1 hne

end Quiet

/-- A step of a trylock leads to `r` and leaves `v'`; `late` tells whether `list_op_pending` is
    cleared. -/
structure TryGood (id : ι → ℕ) (i : ι) (mem : Prop) (late : Bool) (v : MutexData)
    (r : TryPoint ⊕ Outcome) (v' : MutexData) : Prop where
  moves : Moves (id i) v v'
  view : View (id i) mem (late = false) False v'
  point : match r with
    | .inl q => q.Knows id i mem v' ∧ q.announced = !late
    | .inr o => late = true ∧ ∃ code, o = .ret code

section Trylock

variable {id : ι → ℕ} {i : ι} {mem : Prop} {v : MutexData}

/-- A step of a trylock that changes counters only. -/
theorem TryGood.quiet {late : Bool} {r : TryPoint ⊕ Outcome} {v' : MutexData} (hq : Quiet v v')
    (hv : View (id i) mem (late = false) False v)
    (hpoint : match r with
      | .inl q => q.Knows id i mem v' ∧ q.announced = !late
      | .inr o => late = true ∧ ∃ code, o = .ret code) :
    TryGood id i mem late v r v' :=
  ⟨hq.moves, hq.view hv, hpoint⟩

/-- No thread has one of the two values that the owner field takes after a death. -/
theorem Ids.ne_owner (h : Ids id) (i : ι) :
    id i ≠ mutexInconsistent ∧ id i ≠ mutexNotrecoverable := by
  have := h.le i
  rw [futexTidMask] at this
  rw [mutexInconsistent, mutexNotrecoverable]
  constructor <;> omega

/-- **A step of `do_mutex_trylock`.** -/
theorem trylockStep_ok (hids : Ids id) (S : Sys) {p : Robust.TryPC} (h : TryKnows id i mem v p)
    (hv : View (id i) mem (tryLate p = false) False v) (hw : WordOk id v.lock) :
    TryGood id i mem (tryLate p) v (afterTry p (trylockStep S (id i) p v).1)
      (trylockStep S (id i) p v).2 := by
  have hdied := hids.ne_died i
  have hpos := hids.pos i
  cases p with
  | word => exact .quiet (.refl v) hv ⟨⟨h, hw⟩, rfl⟩
  | test oldval =>
    obtain ⟨hfound, hold⟩ := h
    simp only [trylockStep]
    by_cases hd : oldval &&& futexOwnerDied ≠ 0
    · rw [if_pos hd]
      exact .quiet (.refl v) hv ⟨⟨hfound, hold.died hids hd⟩, rfl⟩
    · rw [if_neg hd]
      unfold ownWord
      split
      next => exact .quiet (.refl v) hv ⟨⟨hfound, .inr (.inr ⟨_, rfl⟩)⟩, rfl⟩
      next =>
        split
        next => exact .quiet (.refl v) hv ⟨⟨hfound, .inl rfl⟩, rfl⟩
        next => exact .quiet (.refl v) hv ⟨hfound, rfl⟩
  | inherit oldval =>
    obtain ⟨hfound, rfl⟩ := h
    have hbits : id i ||| (futexOwnerDied &&& futexWaiters) = id i := by
      have hzero : futexOwnerDied &&& futexWaiters = 0 := by decide
      rw [hzero, Nat.or_zero]
    simp only [trylockStep, hbits]
    split
    next heq =>
      -- the word of a dead owner is taken over
      have hne : v.lock ≠ id i := by
        rw [heq]
        exact hdied.symm
      exact ⟨⟨rfl, .inr (.inl ⟨.inr heq, rfl⟩), .inl rfl⟩, hv.take hne rfl rfl rfl,
        ⟨rfl, fun hmem => hne (hv.word hmem)⟩, rfl⟩
    next => exact .quiet (.refl v) hv ⟨⟨hfound, hw⟩, rfl⟩
  | inheritCount => exact .quiet ⟨rfl, rfl, rfl⟩ hv ⟨h, rfl⟩
  | inheritOwner =>
    have hnobody : Nobody mutexInconsistent := .inr (by decide)
    refine ⟨⟨rfl, .inl rfl, .inr ⟨h.1, .inr hnobody⟩⟩,
      ⟨fun _ => h.1, fun _ => .inr (.inl rfl), fun ho => ?_⟩,
      ⟨h.1, h.2, .inr ⟨_, rfl⟩⟩, rfl⟩
    exact absurd ho.symm (hids.ne_owner i).1
  | bump =>
    simp only [trylockStep]
    split
    next => exact .quiet (.refl v) hv ⟨rfl, _, rfl⟩
    next => exact .quiet (.refl v) hv ⟨trivial, rfl⟩
  | bumpLoad => exact .quiet (.refl v) hv ⟨trivial, rfl⟩
  | bumpStore w => exact .quiet ⟨rfl, rfl, rfl⟩ hv ⟨rfl, _, rfl⟩
  | cas =>
    simp only [trylockStep]
    by_cases hz : v.lock = 0
    · have hne : v.lock ≠ id i := by
        rw [hz]
        exact hpos.ne
      rw [if_neg (fun hc => hc.1 hz), if_pos hz]
      exact ⟨⟨rfl, .inr (.inl ⟨.inl hz, rfl⟩), .inl rfl⟩, hv.take hne rfl rfl rfl,
        .inl ⟨hz, rfl, fun hmem => hne (hv.word hmem)⟩, rfl⟩
    · rw [if_neg hz]
      split
      next => exact .quiet (.refl v) hv ⟨⟨h, .inr (.inr ⟨_, rfl⟩)⟩, rfl⟩
      next hbusy =>
        have hd : v.lock &&& futexOwnerDied ≠ 0 := fun hd => hbusy ⟨hz, hd⟩
        exact .quiet (.refl v) hv ⟨.inr ⟨hw.died hids hd, h⟩, rfl⟩
  | recoverable oldval =>
    simp only [trylockStep]
    have hold : oldval ≠ id i ∧ WordOk id oldval := by
      rcases h with ⟨rfl, -⟩ | ⟨rfl, -⟩
      · exact ⟨hpos.ne, .inl rfl⟩
      · exact ⟨hdied.symm, .inr (.inl rfl)⟩
    split
    next hnot => exact .quiet (.refl v) hv ⟨⟨fun _ => .inr hnot, hold.1⟩, rfl⟩
    next =>
      rcases h with ⟨rfl, hlock, hmem⟩ | ⟨rfl, hfound⟩
      · rw [if_neg (by simp)]
        exact .quiet (.refl v) hv ⟨⟨hlock, hmem, .inl rfl⟩, rfl⟩
      · rw [if_pos (by decide)]
        exact .quiet (.refl v) hv ⟨⟨hfound, hold.2⟩, rfl⟩
  | giveUp oldval => exact .quiet ⟨rfl, rfl, rfl⟩ hv ⟨h, rfl⟩
  | giveUpWord oldval =>
    simp only [trylockStep, if_neg h.2]
    exact .quiet (.refl v) hv ⟨⟨h.1, .inr (.inr ⟨_, rfl⟩)⟩, rfl⟩
  | owner =>
    exact ⟨⟨rfl, .inl rfl, .inr ⟨h.1, .inl rfl⟩⟩,
      ⟨fun _ => h.1, fun _ => .inl h.2, fun _ => ⟨h.1, .inl h.2⟩⟩, h, rfl⟩
  | nusers => exact .quiet (.refl v) hv ⟨h, rfl⟩
  | nusersStore w => exact .quiet ⟨rfl, rfl, rfl⟩ hv ⟨h, rfl⟩
  | count => exact .quiet ⟨rfl, rfl, rfl⟩ hv ⟨rfl, _, rfl⟩
  | _ => exact h.elim

end Trylock

/-- The point that a step of an unlock leads to. -/
def UnlockGood (id : ι → ℕ) (i : ι) (mem : Prop) (late : Bool) (v' : MutexData) :
    UnlockPoint ⊕ Outcome → Prop
  | .inl q => q.Knows id i mem v' ∧ q.announced = late ∧
      View (id i) mem (late = true) (q.releases = true) v'
  | .inr o => late = false ∧ (∃ code, o = .ret code) ∧ View (id i) mem (late = true) False v'

section Unlock

variable {id : ι → ℕ} {i : ι} {mem : Prop} {v : MutexData}

/-- Nobody's number is the id of no thread. -/
theorem Nobody.ne {w : ℕ} (h : Nobody w) (hids : Ids id) (i : ι) : w ≠ id i := by
  have hpos := hids.pos i
  have hle := hids.le i
  rcases h with rfl | h
  · exact hpos.ne
  · omega

/-- A view without the mutex being given back, from one where it may be. -/
theorem View.settled {pend rel rel' : Prop} (hv : View (id i) mem pend rel v)
    (h : mem ∨ v.owner ≠ id i) : View (id i) mem pend rel' v := by
  refine ⟨hv.word, hv.found, fun ho => ?_⟩
  rcases h with hmem | hne
  · exact ⟨(hv.owner ho).1, .inl hmem⟩
  · exact absurd ho hne

/-- **A step of `__pthread_mutex_unlock_full`.** -/
theorem unlockStep_ok (hids : Ids id) (S : Sys) (prio : Prio) {p : UnlockPC}
    (h : UnlockKnows id i mem v p)
    (hv : View (id i) mem (unlockLate p = true) ((UnlockPoint.run p).releases = true) v)
    (hw : WordOk id v.lock) :
    Moves (id i) v (unlockStep S (id i) p prio v).2.2 ∧
      UnlockGood id i mem (unlockLate p) (unlockStep S (id i) p prio v).2.2
        (afterUnlock p (unlockStep S (id i) p prio v).1) := by
  have hquiet : Moves (id i) v v := (Quiet.refl v).moves
  cases p with
  | recTid =>
    simp only [unlockStep, hw.tid_eq hids]
    split
    next heq => exact ⟨hquiet, ⟨heq, h heq⟩, rfl, hv⟩
    next => exact ⟨hquiet, trivial, rfl, hv⟩
  | recInconsistent =>
    simp only [unlockStep]
    split
    next => exact ⟨hquiet, h, rfl, hv⟩
    next => exact ⟨hquiet, trivial, rfl, hv⟩
  | lost => exact ⟨hquiet, h, rfl, hv⟩
  | lostStore w =>
    have hq : Quiet v { v with count := w - 1 } := ⟨rfl, rfl, rfl⟩
    simp only [unlockStep]
    split
    next => exact ⟨hq.moves, rfl, ⟨_, rfl⟩, hq.view (hv.settled (.inl h.2))⟩
    next => exact ⟨hq.moves, ⟨h.1, h.2, _, rfl, .inr (by decide)⟩, rfl, hq.view hv⟩
  | recOwner pp =>
    cases pp with
    | true => exact h.elim
    | false =>
      simp only [unlockStep]
      split
      next => exact ⟨hquiet, rfl, ⟨_, rfl⟩, hv.settled (.inr ‹_›)⟩
      next heq =>
        obtain ⟨hlock, hmem⟩ := hv.owner (not_not.mp heq)
        rcases hmem with hmem | hrel
        · exact ⟨hquiet, ⟨hlock, hmem⟩, rfl, hv⟩
        · exact absurd hrel (by decide)
  | recCount pp =>
    cases pp with
    | true => exact h.elim
    | false => exact ⟨hquiet, h, rfl, hv⟩
  | recCountStore pp w =>
    cases pp with
    | true => exact h.elim
    | false =>
      have hq : Quiet v { v with count := w - 1 } := ⟨rfl, rfl, rfl⟩
      simp only [unlockStep]
      split
      next => exact ⟨hq.moves, rfl, ⟨_, rfl⟩, hq.view (hv.settled (.inl h.2))⟩
      next => exact ⟨hq.moves, ⟨h.1, h.2, _, rfl, .inl rfl⟩, rfl, hq.view hv⟩
  | tid =>
    simp only [unlockStep, ne_eq, hw.tid_eq hids]
    split
    next hne =>
      refine ⟨hquiet, rfl, ⟨_, rfl⟩, hv.settled (.inr fun ho => hne (hv.owner ho).1)⟩
    next heq => exact ⟨hquiet, ⟨not_not.mp heq, h (not_not.mp heq)⟩, rfl, hv⟩
  | locked =>
    simp only [unlockStep]
    split
    next => exact ⟨hquiet, rfl, ⟨_, rfl⟩, hv.settled (.inl h.2)⟩
    next => exact ⟨hquiet, h, rfl, hv⟩
  | inconsistent =>
    simp only [unlockStep]
    refine ⟨hquiet, ⟨h.1, h.2, _, rfl, ?_⟩, rfl, hv⟩
    split
    next => exact .inr (by decide)
    next => exact .inl rfl
  | owner pp newowner =>
    cases pp with
    | true => exact h.elim
    | false =>
      obtain ⟨hlock, hmem, hnobody⟩ := h
      have hne : newowner ≠ id i := hnobody.ne hids i
      exact ⟨⟨rfl, .inl rfl, .inr ⟨hlock, .inr hnobody⟩⟩, ⟨hlock, hmem, hne⟩, rfl,
        ⟨fun _ => hlock, fun _ => .inr (.inl rfl), fun ho => absurd ho hne⟩⟩
  | nusers pp =>
    cases pp with
    | true => exact h.elim
    | false => exact ⟨hquiet, h, rfl, hv⟩
  | nusersStore pp w =>
    cases pp with
    | true => exact h.elim
    | false =>
      have hq : Quiet v { v with nusers := w - 1 } := ⟨rfl, rfl, rfl⟩
      exact ⟨hq.moves, h, rfl, hq.view hv⟩
  | word =>
    obtain ⟨hlock, hmem, hne⟩ := h
    have hfree : (0 : ℕ) ≠ id i := (hids.pos i).ne
    exact ⟨⟨rfl, .inr (.inr ⟨hlock, .inl rfl⟩), .inl rfl⟩, ⟨hfree, _, rfl⟩, rfl,
      ⟨fun hm => absurd hm hmem, fun hl => absurd hl hfree, fun ho => absurd ho hne⟩⟩
  | _ => exact h.elim

end Unlock

end SyncPerf.RobustList
