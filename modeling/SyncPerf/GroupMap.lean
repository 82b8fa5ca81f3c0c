import Mathlib.Data.List.Lex
import Mathlib.Data.List.Perm.Basic
import Mathlib.Tactic.Linarith

namespace GroupMap

/-!
# Values grouped by key

Pairs of a key and a value are put one after the other into an ordered map from keys to lists, and
keys are selected by the list that they have got.

* `valuesOf` — the values of a key, in the order in which they come;
* `add`, `addAll` — the map as it grows;
* `getElem?_addAll` — what is in it in the end;
* `select`, `select_addAll_perm` — the keys that are selected do not depend on the order of the
  pairs.
-/

variable {κ ν : Type}

/-- The values of a key. -/
def valuesOf [DecidableEq κ] (k : κ) (pairs : List (κ × ν)) : List ν :=
  (pairs.filter fun p => p.1 = k).map Prod.snd

variable [Ord κ]

/-- A value is put behind the others of its key. -/
def add (m : Std.TreeMap κ (List ν)) (k : κ) (v : ν) : Std.TreeMap κ (List ν) :=
  match m[k]? with
  | some vs => m.insert k (vs ++ [v])
  | none => m.insert k [v]

/-- The pairs are put in from the first to the last. -/
def addAll (m : Std.TreeMap κ (List ν)) (pairs : List (κ × ν)) : Std.TreeMap κ (List ν) :=
  pairs.foldl (fun m p => add m p.1 p.2) m

/-- The keys, in their order, with a list of this kind. -/
def select (p : List ν → Bool) (m : Std.TreeMap κ (List ν)) : List κ :=
  (m.toList.filter fun e => p e.2).map Prod.fst

/-! ### What is in the map -/

section Values

variable {κ ν : Type} [DecidableEq κ]

/-- A pair of the key adds its value. -/
theorem valuesOf_cons_self (k : κ) (v : ν) (pairs : List (κ × ν)) :
    valuesOf k ((k, v) :: pairs) = v :: valuesOf k pairs := by
  rw [valuesOf, List.filter_cons_of_pos (by simp), List.map_cons, valuesOf]

/-- A pair of another key adds nothing. -/
theorem valuesOf_cons_ne {k k' : κ} (h : k' ≠ k) (v : ν) (pairs : List (κ × ν)) :
    valuesOf k ((k', v) :: pairs) = valuesOf k pairs := by
  rw [valuesOf, List.filter_cons_of_neg (by simp [h]), valuesOf]

/-- The values of a key are those that it is paired with. -/
theorem mem_valuesOf {k : κ} {v : ν} {pairs : List (κ × ν)} :
    v ∈ valuesOf k pairs ↔ (k, v) ∈ pairs := by
  rw [valuesOf, List.mem_map]
  constructor
  · rintro ⟨⟨k', v'⟩, hfilter, rfl⟩
    obtain ⟨hmem, hk⟩ := List.mem_filter.mp hfilter
    obtain rfl : k' = k := of_decide_eq_true hk
    exact hmem
  · intro hmem
    exact ⟨(k, v), List.mem_filter.mpr ⟨hmem, decide_eq_true rfl⟩, rfl⟩

/-- The order of the pairs is one of the values. -/
theorem valuesOf_perm (k : κ) {pairs pairs' : List (κ × ν)} (h : pairs.Perm pairs') :
    (valuesOf k pairs).Perm (valuesOf k pairs') :=
  (h.filter _).map _

variable [Ord κ] [Std.TransOrd κ] [Std.LawfulEqOrd κ]

/-- What a key has after an addition. -/
theorem getElem?_add (m : Std.TreeMap κ (List ν)) (k k' : κ) (v : ν) :
    (add m k v)[k']? = if k = k' then some ((m[k]?).getD [] ++ [v]) else m[k']? := by
  rw [add]
  cases hk : m[k]? <;>
    simp only [Std.TreeMap.getElem?_insert, Std.LawfulEqCmp.compare_eq_iff_eq] <;> rfl

/-- **What is in the map**, when it has taken the pairs. -/
theorem getElem?_addAll (m : Std.TreeMap κ (List ν)) (pairs : List (κ × ν)) (k : κ) :
    (addAll m pairs)[k]? =
      if valuesOf k pairs = [] then m[k]? else some ((m[k]?).getD [] ++ valuesOf k pairs) := by
  induction pairs generalizing m with
  | nil => rfl
  | cons p pairs ih =>
    obtain ⟨k', v⟩ := p
    show (addAll (add m k' v) pairs)[k]? = _
    rw [ih, getElem?_add]
    by_cases hk : k' = k
    · subst hk
      rw [if_pos rfl, valuesOf_cons_self, if_neg (List.cons_ne_nil _ _), Option.getD_some]
      split
      next hnil => rw [hnil]
      next => rw [List.append_assoc, List.singleton_append]
    · rw [if_neg hk, valuesOf_cons_ne hk]

end Values

/-! ### The keys that are selected -/

section Select

variable [Std.TransOrd κ]

/-- They come in the order of the keys. -/
theorem select_pairwise (p : List ν → Bool) (m : Std.TreeMap κ (List ν)) :
    (select p m).Pairwise fun a b => compare a b = .lt :=
  List.Pairwise.map _ (fun _ _ h => h) (Std.TreeMap.ordered_keys_toList.filter _)

variable [Std.LawfulEqOrd κ]

/-- The selected keys are those whose values meet the test. -/
theorem mem_select {p : List ν → Bool} {m : Std.TreeMap κ (List ν)} {k : κ} :
    k ∈ select p m ↔ ∃ vs, m[k]? = some vs ∧ p vs := by
  rw [select, List.mem_map]
  constructor
  · rintro ⟨⟨k, vs⟩, hmem, rfl⟩
    obtain ⟨hmem, hp⟩ := List.mem_filter.mp hmem
    exact ⟨vs, Std.TreeMap.mem_toList_iff_getElem?_eq_some.mp hmem, hp⟩
  · rintro ⟨vs, hmem, hp⟩
    exact ⟨(k, vs),
      List.mem_filter.mpr ⟨Std.TreeMap.mem_toList_iff_getElem?_eq_some.mpr hmem, hp⟩, rfl⟩

/-- No key comes twice. -/
theorem select_nodup (p : List ν → Bool) (m : Std.TreeMap κ (List ν)) : (select p m).Nodup := by
  refine (select_pairwise p m).imp fun {a b} h => ?_
  rintro rfl
  rw [Std.ReflOrd.compare_self] at h
  exact absurd h (by decide)

/-- Two selections of the same keys are the same list. -/
theorem select_eq {p : List ν → Bool} {m m' : Std.TreeMap κ (List ν)}
    (h : ∀ k, k ∈ select p m ↔ k ∈ select p m') : select p m = select p m' := by
  have hperm := (List.perm_ext_iff_of_nodup (select_nodup p m) (select_nodup p m')).mpr h
  refine hperm.eq_of_pairwise (fun a b _ _ hab hba => ?_) (select_pairwise p m)
    (select_pairwise p m')
  rw [Std.OrientedOrd.eq_swap, hba] at hab
  exact absurd hab (by decide)

variable [DecidableEq κ]

/-- The keys that a list of pairs selects. -/
theorem mem_select_addAll {p : List ν → Bool} {pairs : List (κ × ν)} {k : κ} :
    k ∈ select p (addAll ∅ pairs) ↔ valuesOf k pairs ≠ [] ∧ p (valuesOf k pairs) := by
  rw [mem_select, getElem?_addAll]
  by_cases hnil : valuesOf k pairs = []
  · simp [hnil]
  · simp [hnil]

/-- **The order of the pairs** does not matter to a selection that looks at the values only. -/
theorem select_addAll_perm {p : List ν → Bool} (hp : ∀ vs vs' : List ν, vs.Perm vs' → p vs = p vs')
    {pairs pairs' : List (κ × ν)} (h : pairs.Perm pairs') :
    select p (addAll ∅ pairs) = select p (addAll ∅ pairs') := by
  refine select_eq fun k => ?_
  have hvalues := valuesOf_perm k h
  have hnil : valuesOf k pairs = [] ↔ valuesOf k pairs' = [] :=
    ⟨fun h => List.nil_perm.mp (h ▸ hvalues), fun h => List.perm_nil.mp (h ▸ hvalues)⟩
  rw [mem_select_addAll, mem_select_addAll, hp _ _ hvalues, Ne, Ne, hnil]

end Select

end GroupMap
