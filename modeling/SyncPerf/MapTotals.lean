import Mathlib.Algebra.BigOperators.Group.Finset.Piecewise
import Mathlib.Data.Finmap

namespace MapTotals

/-!
# Totals over a finite map

* `total f m` — the sum of `f` over the entries of a map;
* `total_insert` — what writing an entry does to it;
* `sum_update` — the same for a function on a finite set;
* `sum_countP_fiber` — counts by key add up to the count over all keys.
-/

section Total

variable {α β M : Type} [DecidableEq α] [AddCommMonoid M]

/-- The sum of `f` over the entries. -/
def total (f : β → M) (m : Finmap fun _ : α => β) : M :=
  ∑ a ∈ m.keys, (m.lookup a).elim 0 f

omit [AddCommMonoid M] in
theorem keys_insert (m : Finmap fun _ : α => β) (a : α) (b : β) :
    (m.insert a b).keys = insert a m.keys := by
  ext a'
  rw [Finmap.mem_keys, Finmap.mem_insert, Finset.mem_insert, Finmap.mem_keys]

/-- What does not stand in the map adds nothing, so that the sum may be split at any key. -/
theorem total_split (f : β → M) (m : Finmap fun _ : α => β) (a : α) :
    total f m = (m.lookup a).elim 0 f + ∑ a' ∈ m.keys.erase a, (m.lookup a').elim 0 f := by
  by_cases ha : a ∈ m.keys
  · exact (Finset.add_sum_erase _ _ ha).symm
  · have hnone : m.lookup a = none := Finmap.lookup_eq_none.mpr fun h => ha (Finmap.mem_keys.mpr h)
    rw [total, Finset.erase_eq_of_notMem ha, hnone]
    exact (zero_add _).symm

/-- **An entry is written**: its old value leaves the sum, and its new one joins it. -/
theorem total_insert (f : β → M) (m : Finmap fun _ : α => β) (a : α) (b : β) :
    total f (m.insert a b) + (m.lookup a).elim 0 f = f b + total f m := by
  have hrest : ∑ a' ∈ (m.insert a b).keys.erase a, ((m.insert a b).lookup a').elim 0 f =
      ∑ a' ∈ m.keys.erase a, (m.lookup a').elim 0 f := by
    rw [keys_insert, Finset.erase_insert_eq_erase]
    refine Finset.sum_congr rfl fun a' ha' => ?_
    rw [Finmap.lookup_insert_of_ne m (Finset.ne_of_mem_erase ha')]
  rw [total_split f (m.insert a b) a, total_split f m a, hrest, Finmap.lookup_insert]
  simp only [Option.elim_some]
  rw [add_assoc, add_comm (∑ a' ∈ _, _)]

end Total

/-- One value of a function is replaced. -/
theorem sum_update {α β M : Type} [DecidableEq α] [AddCommMonoid M] {s : Finset α} (g : β → M)
    (d : α → β) {i : α} (hi : i ∈ s) (b : β) :
    ∑ a ∈ s, g (Function.update d i b a) + g (d i) = g b + ∑ a ∈ s, g (d a) := by
  have hrest : ∑ a ∈ s.erase i, g (Function.update d i b a) = ∑ a ∈ s.erase i, g (d a) := by
    refine Finset.sum_congr rfl fun a ha => ?_
    rw [Function.update_of_ne (Finset.ne_of_mem_erase ha)]
  rw [← Finset.add_sum_erase s _ hi, ← Finset.add_sum_erase s (fun a => g (d a)) hi, hrest,
    Function.update_self, add_assoc, add_comm (∑ a ∈ _, _)]

/-- Counts by key add up to the count of the elements with one of the keys. -/
theorem sum_countP_fiber {α γ : Type} [DecidableEq α] (s : Finset α) (g : γ → α) (l : List γ) :
    ∑ a ∈ s, l.countP (fun x => g x = a) = l.countP fun x => g x ∈ s := by
  induction l with
  | nil => simp
  | cons x l ih =>
    simp only [List.countP_cons, Finset.sum_add_distrib, ih, decide_eq_true_eq,
      Finset.sum_ite_eq s (g x) fun _ => 1]

end MapTotals
