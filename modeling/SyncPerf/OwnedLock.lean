import Mathlib.Algebra.Order.BigOperators.Group.Finset
import SyncPerf.Interleaving

namespace OwnedLock

open scoped BigOperators

/-!
# Locks that record their owner

A lock word with three fields beside it: who owns the lock, how often the owner has entered it,
and how many threads use it.  The fields are written at other moments than the lock word, so a
thread passes through stages in which it has the word but is not, or no longer, recorded.

* `Status` — the stage of a thread;
* `Move` — what a thread may do to the fields at its stage;
* `Inv`, `Inv.move` — the invariant of the fields and all stages, kept by every move;
* `Knows`, `Inv.knows`, `Inv.frame` — what a thread may conclude from the fields, and what the
  moves of others leave alone.
-/

/-- The fields of a lock: the lock word (0 when free), the owner's id, its depth and the number
    of users. -/
structure Word where
  lock : ℕ
  count : ℕ
  owner : ℕ
  users : ℕ

/-- The stage of a thread.  `taken` has the word without being recorded as the owner, `owned` is
    recorded but not yet counted as a user, `leaving` is still recorded; a `waiter` has given up
    the lock but is still counted as a user. -/
inductive Status
  | free
  | waiter
  | taken (user : Bool)
  | owned
  | holder (n : ℕ)
  | leaving
  deriving DecidableEq

namespace Status

/-- The thread has the lock word. -/
def word : Status → Bool
  | .free | .waiter => false
  | .taken _ | .owned | .holder _ | .leaving => true

/-- The thread is recorded as the owner. -/
def own : Status → Bool
  | .owned | .holder _ | .leaving => true
  | .free | .waiter | .taken _ => false

/-- How often the thread is counted among the users. -/
def users : Status → ℕ
  | .waiter | .taken true | .holder _ | .leaving => 1
  | .free | .taken false | .owned => 0

theorem word_of_own {s : Status} (h : s.own) : s.word := by
  cases s <;> simp_all [own, word]

end Status

/-- The moves of a thread with id `id` on a lock, recursive or not. -/
inductive Move (recursive : Bool) (id : ℕ) : Status → Word → Status → Word → Prop
  /-- No field changes, except between two values of a held lock word. -/
  | quiet {s : Status} {w : Word} {v : ℕ} (h : v ≠ 0 ↔ w.lock ≠ 0) :
      Move recursive id s w s { w with lock := v }
  | acquire {w : Word} {v : ℕ} (h : w.lock = 0) (hv : v ≠ 0) :
      Move recursive id .free w (.taken false) { w with lock := v }
  | reacquire {w : Word} {v : ℕ} (h : w.lock = 0) (hv : v ≠ 0) :
      Move recursive id .waiter w (.taken true) { w with lock := v }
  | initCount {w : Word} {user : Bool} {v : ℕ} :
      Move recursive id (.taken user) w (.taken user) { w with count := v }
  | initCountOwned {w : Word} {v : ℕ} :
      Move recursive id .owned w .owned { w with count := v }
  | setOwner {w : Word} :
      Move recursive id (.taken false) w .owned { w with owner := id }
  | restoreOwner {w : Word} (h : recursive → w.count = 1) :
      Move recursive id (.taken true) w (.holder 1) { w with owner := id }
  | addUser {w : Word} (h : recursive → w.count = 1) :
      Move recursive id .owned w (.holder 1) { w with users := w.users + 1 }
  | enter {w : Word} {n : ℕ} (h : recursive) :
      Move recursive id (.holder n) w (.holder (n + 1)) { w with count := w.count + 1 }
  | exit {w : Word} {n : ℕ} (h : recursive) (hn : 0 < n) :
      Move recursive id (.holder (n + 1)) w (.holder n) { w with count := w.count - 1 }
  | leave {w : Word} {v : ℕ} :
      Move recursive id (.holder 1) w .leaving { w with count := v }
  | disown {w : Word} :
      Move recursive id .leaving w (.taken true) { w with owner := 0 }
  | dropUser {w : Word} :
      Move recursive id (.taken true) w (.taken false) { w with users := w.users - 1 }
  | release {w : Word} :
      Move recursive id (.taken false) w .free { w with lock := 0 }
  | suspend {w : Word} :
      Move recursive id (.taken true) w .waiter { w with lock := 0 }

namespace Move

variable {recursive : Bool} {id : ℕ} {s s' : Status} {w w' : Word}

/-- The word is only taken when it is free. -/
theorem word_or (h : Move recursive id s w s' w') (hw : s'.word) : s.word ∨ w.lock = 0 := by
  cases h <;> simp_all [Status.word]

/-- The lock word stays nonzero with the thread that has it, and stays as it was with one that
    has it neither before nor after. -/
theorem locked (h : Move recursive id s w s' w') (hs : s.word → w.lock ≠ 0) :
    w'.lock ≠ 0 ↔ if s.word || s'.word then (s'.word : Prop) else w.lock ≠ 0 := by
  cases h <;> simp_all [Status.word]
  case quiet => cases s <;> simp_all

/-- With the word, the owner field is the thread's id or zero, as its stage says. -/
theorem owner (h : Move recursive id s w s' w') (hs' : s'.word)
    (hs : s.word → w.owner = if s.own then id else 0) (hfree : w.lock = 0 → w.owner = 0) :
    w'.owner = if s'.own then id else 0 := by
  cases h <;> simp_all [Status.word, Status.own]

/-- The word is given up with the owner field cleared. -/
theorem owner_zero (h : Move recursive id s w s' w') (hw : s.word) (hw' : s'.word = false)
    (hs : s.word → w.owner = if s.own then id else 0) : w'.owner = 0 := by
  cases h <;> simp_all [Status.word, Status.own]

/-- The number of users changes with the thread's own share. -/
theorem users (h : Move recursive id s w s' w') (hs : s.users ≤ w.users) :
    w'.users + s.users = w.users + s'.users := by
  cases h <;> simp_all [Status.users]

/-- The depth of the holder. -/
theorem depth (h : Move recursive id s w s' w')
    (hs : ∀ n, s = .holder n →
      0 < n ∧ (recursive → w.count = n) ∧ (recursive = false → n = 1)) :
    ∀ n, s' = .holder n → 0 < n ∧ (recursive → w'.count = n) ∧ (recursive = false → n = 1) := by
  intro n hn
  cases h <;> simp_all
  case restoreOwner => omega
  case addUser => omega
  case enter => omega

/-- A thread without the word leaves the fields alone. -/
theorem frame (h : Move recursive id s w s' w') (hs : s.word = false) :
    w'.owner = w.owner ∧ w'.count = w.count ∧ w'.users = w.users := by
  cases h <;> simp_all [Status.word]

end Move

/-- Doing nothing is a move. -/
theorem Move.stutter (recursive : Bool) (id : ℕ) (s : Status) (w : Word) :
    Move recursive id s w s w := Move.quiet Iff.rfl

/-- What a thread at stage `s` may conclude from the fields, at most `bound` threads being
    there. -/
structure Knows (recursive : Bool) (id bound : ℕ) (s : Status) (w : Word) : Prop where
  lock : s.word → w.lock ≠ 0
  owner : w.owner = id ↔ s.own
  clear : s.word → s.own = false → w.owner = 0
  users : s.users ≤ w.users
  users_le : w.users ≤ bound
  depth : ∀ n, s = .holder n →
    0 < n ∧ (recursive → w.count = n) ∧ (recursive = false → n = 1)

/-! ### The invariant -/

variable {ι : Type} [Fintype ι]

/-- The invariant of a lock and the stages of all threads. -/
structure Inv (recursive : Bool) (id : ι → ℕ) (st : ι → Status) (w : Word) : Prop where
  unique : ∀ i j, (st i).word → (st j).word → i = j
  locked : w.lock ≠ 0 ↔ ∃ i, (st i).word
  owner : ∀ i, (st i).word → w.owner = if (st i).own then id i else 0
  unowned : w.lock = 0 → w.owner = 0
  users : w.users = ∑ i, (st i).users
  depth : ∀ i n, st i = .holder n →
    0 < n ∧ (recursive → w.count = n) ∧ (recursive = false → n = 1)

namespace Inv

variable {recursive : Bool} {id : ι → ℕ} {st : ι → Status} {w w' : Word} {i : ι} {s' : Status}

/-- A fresh lock. -/
theorem initial (recursive : Bool) (id : ι → ℕ) (count : ℕ) :
    Inv recursive id (fun _ => .free) ⟨0, count, 0, 0⟩ where
  unique := by simp [Status.word]
  locked := by simp [Status.word]
  owner := by simp [Status.word]
  unowned := fun _ => rfl
  users := by simp [Status.users]
  depth := by simp

theorem lock_ne_zero (hI : Inv recursive id st w) (h : (st i).word) : w.lock ≠ 0 :=
  hI.locked.mpr ⟨i, h⟩

theorem users_le_sum (hI : Inv recursive id st w) (i : ι) : (st i).users ≤ w.users := by
  rw [hI.users]
  exact Finset.single_le_sum (f := fun j => (st j).users) (fun _ _ => Nat.zero_le _)
    (Finset.mem_univ i)

/-- No more users than threads. -/
theorem users_le_card (hI : Inv recursive id st w) : w.users ≤ Fintype.card ι := by
  rw [hI.users, Fintype.card, Finset.card_eq_sum_ones]
  refine Finset.sum_le_sum fun j _ => ?_
  cases st j with
  | taken user => cases user <;> decide
  | holder n => exact le_rfl
  | _ => decide

/-- **The owner test.**  A thread finds its own id in the owner field just when it is recorded. -/
theorem owner_eq_iff (hI : Inv recursive id st w) (hinj : Function.Injective id)
    (hid : ∀ i, id i ≠ 0) (i : ι) : w.owner = id i ↔ (st i).own := by
  constructor
  · intro h
    by_cases hlock : w.lock = 0
    · exact absurd (h.symm.trans (hI.unowned hlock)) (hid i)
    · obtain ⟨j, hj⟩ := hI.locked.mp hlock
      have howner := hI.owner j hj
      split at howner
      · rename_i hown
        have : i = j := hinj (h.symm.trans howner)
        rw [this]
        exact hown
      · exact absurd (h.symm.trans howner) (hid i)
  · intro h
    rw [hI.owner i (Status.word_of_own h), if_pos h]

/-- With the word and unrecorded, the owner field is clear. -/
theorem owner_eq_zero (hI : Inv recursive id st w) (hw : (st i).word)
    (hown : (st i).own = false) : w.owner = 0 := by
  rw [hI.owner i hw, hown]
  rfl

/-- The invariant, as one thread sees it. -/
theorem knows (hI : Inv recursive id st w) (hinj : Function.Injective id) (hid : ∀ i, id i ≠ 0)
    (i : ι) : Knows recursive (id i) (Fintype.card ι) (st i) w where
  lock := hI.lock_ne_zero
  owner := hI.owner_eq_iff hinj hid i
  clear := hI.owner_eq_zero
  users := hI.users_le_sum i
  users_le := hI.users_le_card
  depth := hI.depth i

/-- The fields stay as they are for a thread with the word while another one moves. -/
theorem frame (hI : Inv recursive id st w) {j : ι} (h : Move recursive (id i) (st i) w s' w')
    (hji : j ≠ i) (hj : (st j).word) :
    w'.owner = w.owner ∧ w'.count = w.count ∧ w'.users = w.users := by
  refine h.frame ?_
  by_contra hi
  exact hji (hI.unique j i hj (by simpa using hi))

variable [DecidableEq ι]

/-- **Moves keep the invariant.** -/
theorem move (hI : Inv recursive id st w) (h : Move recursive (id i) (st i) w s' w') :
    Inv recursive id (Function.update st i s') w' := by
  have hother : ∀ j, j ≠ i → Function.update st i s' j = st j := fun j hj =>
    Function.update_of_ne hj _ _
  -- nobody else has the word when `i` has it, before or after
  have hexcl : (st i).word ∨ s'.word → ∀ j, j ≠ i → ¬ (st j).word := by
    intro hw j hj hjw
    have hi : (st i).word ∨ w.lock = 0 := by
      rcases hw with hw | hw
      · exact .inl hw
      · exact h.word_or hw
    rcases hi with hi | hi
    · exact hj (hI.unique j i hjw hi)
    · exact hI.lock_ne_zero hjw hi
  have hlocked := h.locked hI.lock_ne_zero
  refine ⟨?_, ?_, ?_, ?_, ?_, ?_⟩
  · intro j k hj hk
    by_cases hji : j = i
    · by_cases hki : k = i
      · rw [hji, hki]
      · rw [hji, Function.update_self] at hj
        rw [hother k hki] at hk
        exact absurd hk (hexcl (.inr hj) k hki)
    · rw [hother j hji] at hj
      by_cases hki : k = i
      · rw [hki, Function.update_self] at hk
        exact absurd hj (hexcl (.inr hk) j hji)
      · rw [hother k hki] at hk
        exact hI.unique j k hj hk
  · rw [hlocked]
    by_cases hw : ((st i).word || s'.word) = true
    · rw [if_pos hw]
      constructor
      · intro hs'
        exact ⟨i, by rw [Function.update_self]; exact hs'⟩
      · rintro ⟨j, hj⟩
        by_cases hji : j = i
        · rwa [hji, Function.update_self] at hj
        · rw [hother j hji] at hj
          exact absurd hj (hexcl (by simpa using hw) j hji)
    · rw [if_neg hw, hI.locked]
      have hnone : ¬ (st i).word ∧ ¬ s'.word := by simpa using hw
      constructor
      · rintro ⟨j, hj⟩
        have hji : j ≠ i := fun hji => hnone.1 (hji ▸ hj)
        exact ⟨j, by rw [hother j hji]; exact hj⟩
      · rintro ⟨j, hj⟩
        by_cases hji : j = i
        · rw [hji, Function.update_self] at hj
          exact absurd hj hnone.2
        · rw [hother j hji] at hj
          exact ⟨j, hj⟩
  · intro j hj
    by_cases hji : j = i
    · subst hji
      rw [Function.update_self] at hj ⊢
      exact h.owner hj (hI.owner j) hI.unowned
    · rw [hother j hji] at hj ⊢
      have hi : (st i).word = false := by
        by_contra hi
        exact hexcl (.inl (by simpa using hi)) j hji hj
      rw [(h.frame hi).1]
      exact hI.owner j hj
  · intro hfree
    have hs' : s'.word = false := by
      by_contra hs'
      refine hlocked.mpr ?_ hfree
      simp_all
    by_cases hi : (st i).word = true
    · exact h.owner_zero hi hs' (hI.owner i)
    · have hi' : (st i).word = false := by simpa using hi
      rw [(h.frame hi').1]
      refine hI.unowned ?_
      by_contra hne
      refine hlocked.mpr ?_ hfree
      simp_all
  · have hsum := Interleaving.sum_update Status.users st i s'
    have husers := h.users (hI.users_le_sum i)
    rw [hI.users] at husers
    omega
  · intro j n hj
    by_cases hji : j = i
    · subst hji
      rw [Function.update_self] at hj
      exact h.depth (hI.depth j) n hj
    · rw [hother j hji] at hj
      have hjw : (st j).word := by rw [hj]; rfl
      have hi : (st i).word = false := by
        by_contra hi
        exact hexcl (.inl (by simpa using hi)) j hji hjw
      rw [(h.frame hi).2.1]
      exact hI.depth j n hj

end Inv

end OwnedLock
