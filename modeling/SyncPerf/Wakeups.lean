import Mathlib.Data.Finset.Erase
import SyncPerf.Interleaving

namespace Wakeups

/-!
# Sleeping threads and their wake-ups

Threads sleep in a queue until another thread takes them out.  A shared word may be *marked*: who
gives it up then goes on to wake somebody.  A thread is *busy* when it is bound to mark the word
or to wake a thread before it can sleep or leave.  The queue is covered when its threads do not
sleep for nothing.

* `Covered` — the word is marked, or a thread that is not in the queue is busy;
* `Covered.of_marked`, `Covered.of_busy`, `Covered.keep`, `Covered.stay`,
  `Covered.wake` — the steps that keep it;
* `Covered.of_idle` — without a mark and without a busy thread nobody sleeps.
-/

variable {ι ℓ : Type}

/-- When threads sleep, the word is marked, or a thread that does not sleep is busy. -/
def Covered (queue : Finset ι) (marked : Prop) (busy : ℓ → Prop) (loc : ι → ℓ) : Prop :=
  queue.Nonempty → marked ∨ ∃ j, busy (loc j) ∧ j ∉ queue

variable {queue : Finset ι} {marked marked' : Prop} {busy : ℓ → Prop} {loc : ι → ℓ} {i j : ι}
  {l : ℓ}

theorem Covered.of_empty : Covered ∅ marked busy loc := fun h => absurd h (by simp)

theorem Covered.of_marked (h : marked) : Covered queue marked busy loc := fun _ => .inl h

variable [DecidableEq ι]

/-- The stepping thread is busy afterwards. -/
theorem Covered.of_busy (h : busy l) (hi : i ∉ queue) :
    Covered queue marked busy (Function.update loc i l) :=
  fun _ => .inr ⟨i, by rwa [Function.update_self], hi⟩

/-- The queue stays, the mark stays, and the stepping thread was not what covered the queue. -/
theorem Covered.keep (h : Covered queue marked busy loc) (hmark : marked → marked')
    (hbusy : ¬ busy (loc i)) : Covered queue marked' busy (Function.update loc i l) := by
  intro hq
  rcases h hq with h | ⟨j, hj, hjq⟩
  · exact .inl (hmark h)
  · refine .inr ⟨j, ?_, hjq⟩
    have hji : j ≠ i := by
      rintro rfl
      exact hbusy hj
    rwa [Function.update_of_ne hji]

/-- The queue and the mark stay, and the stepping thread stays busy if it was. -/
theorem Covered.stay (h : Covered queue marked busy loc) (hbusy : busy (loc i) → busy l) :
    Covered queue marked busy (Function.update loc i l) := by
  intro hq
  rcases h hq with h | ⟨j, hj, hjq⟩
  · exact .inl h
  · refine .inr ⟨j, ?_, hjq⟩
    by_cases hji : j = i
    · subst hji
      rw [Function.update_self]
      exact hbusy hj
    · rwa [Function.update_of_ne hji]

/-- A thread is taken out of the queue, and is busy. -/
theorem Covered.wake (hj : busy (loc j)) (hji : j ≠ i) :
    Covered (queue.erase j) marked busy (Function.update loc i l) :=
  fun _ => .inr ⟨j, by rwa [Function.update_of_ne hji], Finset.notMem_erase j queue⟩

/-- When the word is not marked and every busy thread sleeps, nobody sleeps. -/
theorem Covered.of_idle (h : Covered queue marked busy loc) (hmark : ¬ marked)
    (hidle : ∀ j, busy (loc j) → j ∈ queue) : queue = ∅ := by
  by_contra hne
  rcases h (Finset.nonempty_iff_ne_empty.mpr hne) with h | ⟨j, hj, hjq⟩
  · exact hmark h
  · exact hjq (hidle j hj)

end Wakeups
