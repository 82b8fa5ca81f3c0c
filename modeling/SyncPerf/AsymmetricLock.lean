import Mathlib.Algebra.Order.Ring.Rat
import Mathlib.Algebra.Order.Group.Unbundled.Abs
import SyncPerf.GroupMap

namespace SyncPerf.AsymmetricLock

/-!
# Asymmetric locks

`Report::print` puts the conflict rate of a mutex under each of its contexts, and
`findAsymmetricLock` reports the contexts whose rates are far apart: the same line of code that is
blocked often on one mutex and seldom on another.  The rates are taken as exact rationals.

* `updateCallStackMap`, `feed` — the map as the report fills it;
* `extremes`, `findAsymmetricLock` — the loops over the rates of a context and over the map;
* `asymmetric_iff` — what the inner loop decides;
* `asymmetricLocks_spec` — the contexts that are reported, in any order of the mutexes.
-/

/-- `Map`: the rates of each context. -/
abbrev Map : Type := Std.TreeMap (List Char) (List ℚ)

/-- A mutex as the report comes to it: its conflict rate and the texts of its contexts. -/
structure Mutex where
  conflictRate : ℚ
  contexts : List (List Char)

/-! ### The functions -/

/-- `updateCallStackMap`. -/
def updateCallStackMap (callStackMap : Map) (callContexts : List Char) (conflictRate : ℚ) : Map :=
  match callStackMap[callContexts]? with
  | some rates => callStackMap.insert callContexts (rates ++ [conflictRate])
  | none => callStackMap.insert callContexts [conflictRate]

/-- The loops of `Report::print` over the mutexes and their contexts. -/
def feed : List Mutex → Map → Map
  | [], callStackMap => callStackMap
  | m :: mutexes, callStackMap =>
    feed mutexes (m.contexts.foldl
      (fun callStackMap s => updateCallStackMap callStackMap s m.conflictRate) callStackMap)

/-- The loop over the rates of a context, with `min` and `max`. -/
def extremes : List ℚ → ℚ → ℚ → ℚ × ℚ
  | [], min, max => (min, max)
  | r :: rates, min, max => extremes rates (if min > r then r else min) (if max < r then r else max)

/-- The threshold of `findAsymmetricLock`, in percent. -/
def threshold : ℚ := 10

/-- What is asked of the rates of a context. -/
def asymmetric (rates : List ℚ) : Bool :=
  rates.length > 1 ∧
    (extremes rates (rates.headD 0) (rates.headD 0)).2 -
      (extremes rates (rates.headD 0) (rates.headD 0)).1 > threshold

/-- `findAsymmetricLock`. -/
def findAsymmetricLock (callStackMap : Map) (results : List (List Char)) : List (List Char) :=
  callStackMap.toList.foldl
    (fun results it => if asymmetric it.2 then results ++ [it.1] else results) results

/-- The contexts that are reported. -/
def asymmetricLocks (mutexes : List Mutex) : List (List Char) :=
  findAsymmetricLock (feed mutexes ∅) []

/-! ### The rates of a context -/

/-- What the loop over the rates keeps: `min` and `max` are rates that were seen, and no rate that
    was seen is beyond them. -/
structure Extremes (seen : List ℚ) (min max : ℚ) : Prop where
  min_mem : min ∈ seen
  max_mem : max ∈ seen
  min_le : ∀ r ∈ seen, min ≤ r
  le_max : ∀ r ∈ seen, r ≤ max

/-- One turn. -/
theorem Extremes.step {seen : List ℚ} {min max : ℚ} (h : Extremes seen min max) (r : ℚ) :
    Extremes (seen ++ [r]) (if min > r then r else min) (if max < r then r else max) where
  min_mem := by
    split
    · exact List.mem_append_right _ List.mem_cons_self
    · exact List.mem_append_left _ h.min_mem
  max_mem := by
    split
    · exact List.mem_append_right _ List.mem_cons_self
    · exact List.mem_append_left _ h.max_mem
  min_le r' hr' := by
    rcases List.mem_append.mp hr' with hr' | hr'
    · have hle := h.min_le r' hr'
      split <;> linarith
    · rw [List.mem_singleton.mp hr']
      split <;> linarith
  le_max r' hr' := by
    rcases List.mem_append.mp hr' with hr' | hr'
    · have hle := h.le_max r' hr'
      split <;> linarith
    · rw [List.mem_singleton.mp hr']
      split <;> linarith

/-- **The inner loop** finds the least and the greatest rate. -/
theorem extremes_spec {seen : List ℚ} {min max : ℚ} (h : Extremes seen min max) (rates : List ℚ) :
    Extremes (seen ++ rates) (extremes rates min max).1 (extremes rates min max).2 := by
  induction rates generalizing seen min max with
  | nil =>
    rw [List.append_nil]
    exact h
  | cons r rates ih =>
    have hstep := ih (h.step r)
    rw [List.append_assoc, List.singleton_append] at hstep
    exact hstep

/-- The loop over the rates finds the least and the greatest. -/
theorem extremes_of_cons (first : ℚ) (rest : List ℚ) :
    Extremes (first :: rest) (extremes (first :: rest) first first).1
      (extremes (first :: rest) first first).2 := by
  have hstart : Extremes [first] first first :=
    ⟨List.mem_singleton_self _, List.mem_singleton_self _,
      fun r hr => (List.mem_singleton.mp hr).ge, fun r hr => (List.mem_singleton.mp hr).le⟩
  -- the first rate is looked at twice
  have hloop := extremes_spec hstart (first :: rest)
  have hmem : ∀ {r : ℚ}, r ∈ [first] ++ first :: rest ↔ r ∈ first :: rest := by simp
  exact ⟨hmem.mp hloop.min_mem, hmem.mp hloop.max_mem, fun r hr => hloop.min_le r (hmem.mpr hr),
    fun r hr => hloop.le_max r (hmem.mpr hr)⟩

/-- **What is asked** of the rates: two of them are further apart than the threshold. -/
theorem asymmetric_iff (rates : List ℚ) :
    asymmetric rates ↔ ∃ r ∈ rates, ∃ r' ∈ rates, threshold < |r - r'| := by
  rw [asymmetric, decide_eq_true_iff]
  cases rates with
  | nil => simp
  | cons first rest =>
    rw [List.headD_cons]
    have h := extremes_of_cons first rest
    constructor
    · rintro ⟨-, hfar⟩
      exact ⟨_, h.max_mem, _, h.min_mem, hfar.trans_le (le_abs_self _)⟩
    · rintro ⟨r, hr, r', hr', hfar⟩
      have hspread := abs_sub_le_of_le_of_le (h.min_le r hr) (h.le_max r hr) (h.min_le r' hr')
        (h.le_max r' hr')
      refine ⟨?_, hfar.trans_le hspread⟩
      -- a single rate is not apart from itself
      by_contra hlength
      have hrest : rest = [] := List.eq_nil_of_length_eq_zero (by simpa using hlength)
      rw [hrest] at hr hr'
      rw [List.mem_singleton.mp hr, List.mem_singleton.mp hr', sub_self, abs_zero] at hfar
      exact absurd hfar (by decide +kernel)

/-- The test does not depend on the order of the rates. -/
theorem asymmetric_perm {rates rates' : List ℚ} (h : rates.Perm rates') :
    asymmetric rates = asymmetric rates' := by
  rw [Bool.eq_iff_iff, asymmetric_iff, asymmetric_iff]
  simp only [h.mem_iff]

/-! ### The map -/

/-- `updateCallStackMap` is an addition to the map. -/
theorem updateCallStackMap_eq_add (callStackMap : Map) (callContexts : List Char)
    (conflictRate : ℚ) :
    updateCallStackMap callStackMap callContexts conflictRate =
      GroupMap.add callStackMap callContexts conflictRate := by
  rw [updateCallStackMap, GroupMap.add]
  cases callStackMap[callContexts]? <;> rfl

/-- The pairs that are fed into the map. -/
def pairs (mutexes : List Mutex) : List (List Char × ℚ) :=
  mutexes.flatMap fun m => m.contexts.map fun s => (s, m.conflictRate)

/-- The pairs of the first mutex come first. -/
theorem pairs_cons (m : Mutex) (mutexes : List Mutex) :
    pairs (m :: mutexes) = (m.contexts.map fun s => (s, m.conflictRate)) ++ pairs mutexes :=
  List.flatMap_cons

/-- The loop over the mutexes adds all their pairs. -/
theorem feed_eq_addAll (mutexes : List Mutex) (callStackMap : Map) :
    feed mutexes callStackMap = GroupMap.addAll callStackMap (pairs mutexes) := by
  induction mutexes generalizing callStackMap with
  | nil => rfl
  | cons m mutexes ih =>
    rw [feed, ih, pairs_cons, GroupMap.addAll, GroupMap.addAll, List.foldl_append, List.foldl_map]
    simp only [updateCallStackMap_eq_add]

/-- `findAsymmetricLock` selects the asymmetric keys. -/
theorem findAsymmetricLock_eq_select (callStackMap : Map) (results : List (List Char)) :
    findAsymmetricLock callStackMap results =
      results ++ GroupMap.select asymmetric callStackMap := by
  rw [findAsymmetricLock, GroupMap.select]
  generalize callStackMap.toList = entries
  induction entries generalizing results with
  | nil => exact (List.append_nil results).symm
  | cons it entries ih =>
    rw [List.foldl_cons, ih]
    by_cases hit : asymmetric it.2
    · have hfilter : (it :: entries).filter (fun e => asymmetric e.2) =
          it :: entries.filter fun e => asymmetric e.2 := List.filter_cons_of_pos hit
      rw [if_pos hit, hfilter, List.map_cons, List.append_assoc, List.singleton_append]
    · have hfilter : (it :: entries).filter (fun e => asymmetric e.2) =
          entries.filter fun e => asymmetric e.2 := List.filter_cons_of_neg hit
      rw [if_neg hit, hfilter]

/-- The report is one selection from one map. -/
theorem asymmetricLocks_eq (mutexes : List Mutex) :
    asymmetricLocks mutexes = GroupMap.select asymmetric (GroupMap.addAll ∅ (pairs mutexes)) := by
  rw [asymmetricLocks, findAsymmetricLock_eq_select, feed_eq_addAll, List.nil_append]

/-! ### The contexts that are reported -/

/-- The same mutexes in another order, with the contexts of each in another order. -/
def Reordered (mutexes mutexes' : List Mutex) : Prop :=
  ∃ ms, mutexes.Perm ms ∧
    List.Forall₂ (fun m m' => m.conflictRate = m'.conflictRate ∧ m.contexts.Perm m'.contexts)
      ms mutexes'

/-- Reordered mutexes have reordered pairs. -/
theorem pairs_perm {mutexes mutexes' : List Mutex} (h : Reordered mutexes mutexes') :
    (pairs mutexes).Perm (pairs mutexes') := by
  obtain ⟨ms, hperm, hcontexts⟩ := h
  refine (hperm.flatMap_right _).trans ?_
  clear hperm
  induction hcontexts with
  | nil => exact List.Perm.nil
  | cons hm _ ih =>
    rw [List.flatMap_cons, pairs_cons, hm.1]
    exact (hm.2.map _).append ih

/-- **Asymmetric locks**: the contexts that have two rates further apart than the threshold, each
    once, and the same list in any order of the mutexes and of their contexts. -/
theorem asymmetricLocks_spec (mutexes : List Mutex) :
    (∀ s, s ∈ asymmetricLocks mutexes ↔
      ∃ r r', (s, r) ∈ pairs mutexes ∧ (s, r') ∈ pairs mutexes ∧ 10 < |r - r'|) ∧
      (asymmetricLocks mutexes).Nodup ∧
      ∀ mutexes', Reordered mutexes mutexes' →
        asymmetricLocks mutexes' = asymmetricLocks mutexes := by
  refine ⟨fun s => ?_, ?_, fun mutexes' h => ?_⟩
  · rw [asymmetricLocks_eq, GroupMap.mem_select_addAll, asymmetric_iff]
    simp only [GroupMap.mem_valuesOf, threshold]
    constructor
    · rintro ⟨-, r, hr, r', hr', hfar⟩
      exact ⟨r, r', hr, hr', hfar⟩
    · rintro ⟨r, r', hr, hr', hfar⟩
      exact ⟨List.ne_nil_of_mem (GroupMap.mem_valuesOf.mpr hr), r, hr, r', hr', hfar⟩
  · rw [asymmetricLocks_eq]
    exact GroupMap.select_nodup _ _
  · rw [asymmetricLocks_eq, asymmetricLocks_eq]
    exact (GroupMap.select_addAll_perm (fun _ _ => asymmetric_perm) (pairs_perm h)).symm

/-- Two mutexes that are met in the other order. -/
theorem asymmetricLocks_spec_swapped :
    asymmetricLocks [⟨5, [['g'], ['f']]⟩, ⟨20, [['f']]⟩] =
      asymmetricLocks [⟨20, [['f']]⟩, ⟨5, [['g'], ['f']]⟩] :=
  (asymmetricLocks_spec [⟨20, [['f']]⟩, ⟨5, [['g'], ['f']]⟩]).2.2 _
    ⟨_, List.Perm.swap _ _ _, .cons ⟨rfl, .rfl⟩ (.cons ⟨rfl, .rfl⟩ .nil)⟩

example : asymmetricLocks [⟨20, [['f']]⟩, ⟨5, [['g'], ['f']]⟩] = [['f']] := by decide +kernel

end SyncPerf.AsymmetricLock
