import Mathlib.Logic.Function.Basic
import Mathlib.Tactic.Common

namespace Coherence

/-!
# Relaxed accesses

A memory in which every location keeps all the values ever stored there, in the order of their
times; a thread remembers, for every location, the time of the last value that it has read or
written (its view).  A relaxed load may return any value that is not older than the view; a relaxed
store takes any free time after it.  Nothing orders the accesses to different locations.

* `load`, `store` — the accesses, with the time that the memory picks;
* `InitialisedTo` — a memory in which every store to a location writes the same value;
* `Seen` — a thread that can only read this value;
* `load_spec`, `store_spec` — what an access gives, in such a memory.
-/

/-- The values stored at a location, with their times. -/
abbrev Memory (L V : Type) := L → ℕ → Option V

/-- For every location, the time of the last value that a thread has read or written. -/
abbrev View (L : Type) := L → ℕ

variable {L V : Type} [DecidableEq L]

/-- The memory in which nothing was stored yet. -/
def unwritten (init : L → V) : Memory L V := fun l t => if t = 0 then some (init l) else none

/-- A relaxed load of the value stored at time `t`. -/
def load (m : Memory L V) (view : View L) (l : L) (t : ℕ) : Option (V × View L) :=
  if view l ≤ t then (m l t).map fun v => (v, Function.update view l t) else none

/-- A relaxed store at time `t`. -/
def store (m : Memory L V) (view : View L) (l : L) (t : ℕ) (v : V) :
    Option (Memory L V × View L) :=
  if view l < t ∧ m l t = none then
    some (Function.update m l (Function.update (m l) t (some v)), Function.update view l t)
  else none

/-- What a load can return. -/
theorem load_eq_some {m : Memory L V} {view view' : View L} {l : L} {t : ℕ} {v : V} :
    load m view l t = some (v, view') ↔
      view l ≤ t ∧ m l t = some v ∧ view' = Function.update view l t := by
  unfold load
  split
  · rename_i hle
    rw [Option.map_eq_some_iff]
    simp only [Prod.mk.injEq]
    constructor
    · rintro ⟨v', hv, rfl, rfl⟩
      exact ⟨hle, hv, rfl⟩
    · rintro ⟨-, hv, rfl⟩
      exact ⟨v, hv, rfl, rfl⟩
  · rename_i hle
    simp [hle]

/-- What a store leaves. -/
theorem store_eq_some {m m' : Memory L V} {view view' : View L} {l : L} {t : ℕ} {v : V} :
    store m view l t v = some (m', view') ↔
      view l < t ∧ m l t = none ∧
        m' = Function.update m l (Function.update (m l) t (some v)) ∧
        view' = Function.update view l t := by
  unfold store
  split
  · rename_i h
    simp [h, eq_comm]
  · rename_i h
    simp only [reduceCtorEq, false_iff, not_and]
    intro hlt hnone
    exact absurd ⟨hlt, hnone⟩ h

/-! ### At-least-once initialisation -/

section InitialisedTo

variable {init final : L → V}

/-- The first value of every location is `init`, and every other one is `final`. -/
structure InitialisedTo (init final : L → V) (m : Memory L V) : Prop where
  first : ∀ l, m l 0 = some (init l)
  rest : ∀ l t v, 0 < t → m l t = some v → v = final l

/-- A thread with this view reads the final value of `l`. -/
def Seen (init final : L → V) (view : View L) (l : L) : Prop := 0 < view l ∨ init l = final l

omit [DecidableEq L] in
/-- A later view has seen as much. -/
theorem Seen.mono {view view' : View L} {l : L} (h : Seen init final view l)
    (hle : view l ≤ view' l) : Seen init final view' l :=
  h.imp_left fun hpos => Nat.lt_of_lt_of_le hpos hle

omit [DecidableEq L] in
/-- A memory that has not been written. -/
theorem initialisedTo_unwritten (init final : L → V) :
    InitialisedTo init final (unwritten init) where
  first l := rfl
  rest l t v ht h := by
    rw [unwritten, if_neg (Nat.ne_of_gt ht)] at h
    cases h

/-- Views only move forward. -/
theorem update_le {view : View L} {l : L} {t : ℕ} (h : view l ≤ t) (l' : L) :
    view l' ≤ Function.update view l t l' := by
  by_cases hl : l' = l
  · rw [hl, Function.update_self]
    exact h
  · exact Nat.le_of_eq (Function.update_of_ne hl t view).symm

/-- **A load** gives the initial value, or the final value and the thread has seen it; and a thread
    that has seen it never reads the initial value again. -/
theorem load_spec {m : Memory L V} (hm : InitialisedTo init final m) {view view' : View L} {l : L}
    {t : ℕ} {v : V} (h : load m view l t = some (v, view')) :
    (v ≠ init l ∨ Seen init final view' l → v = final l ∧ Seen init final view' l) ∧
      ∀ l', Seen init final view l' → Seen init final view' l' := by
  obtain ⟨hle, hv, rfl⟩ := load_eq_some.mp h
  refine ⟨fun hor => ?_, fun l' hs => hs.mono (update_le hle l')⟩
  rcases Nat.eq_zero_or_pos t with rfl | hpos
  · -- the initial value was read
    obtain rfl : init l = v := Option.some.inj ((hm.first l).symm.trans hv)
    rcases hor with hne | hs
    · exact absurd rfl hne
    · rcases hs with hpos | heq
      · rw [Function.update_self] at hpos
        exact absurd hpos (Nat.lt_irrefl 0)
      · exact ⟨heq, .inr heq⟩
  · refine ⟨hm.rest l t v hpos hv, .inl ?_⟩
    rw [Function.update_self]
    exact hpos

/-- **A store** of the final value keeps the memory as it should be, and the thread has seen it. -/
theorem store_spec {m m' : Memory L V} (hm : InitialisedTo init final m) {view view' : View L}
    {l : L} {t : ℕ} (h : store m view l t (final l) = some (m', view')) :
    InitialisedTo init final m' ∧ Seen init final view' l ∧
      ∀ l', Seen init final view l' → Seen init final view' l' := by
  obtain ⟨hlt, hnone, rfl, rfl⟩ := store_eq_some.mp h
  have hpos : 0 < t := Nat.lt_of_le_of_lt (Nat.zero_le _) hlt
  refine ⟨⟨fun l' => ?_, fun l' t' v ht' hv => ?_⟩, .inl ?_,
    fun l' hs => hs.mono (update_le (Nat.le_of_lt hlt) l')⟩
  · by_cases hl : l' = l
    · subst hl
      rw [Function.update_self, Function.update_of_ne (Nat.ne_of_lt hpos)]
      exact hm.first l'
    · rw [Function.update_of_ne hl]
      exact hm.first l'
  · by_cases hl : l' = l
    · subst hl
      rw [Function.update_self] at hv
      by_cases htt : t' = t
      · rw [htt, Function.update_self] at hv
        exact (Option.some.inj hv).symm
      · rw [Function.update_of_ne htt] at hv
        exact hm.rest l' t' v ht' hv
    · rw [Function.update_of_ne hl] at hv
      exact hm.rest l' t' v ht' hv
  · rw [Function.update_self]
    exact hpos

end InitialisedTo

end Coherence
