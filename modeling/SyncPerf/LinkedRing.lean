import Mathlib.Data.List.Nodup
import Mathlib.Logic.Function.Basic

namespace LinkedRing

/-!
# Doubly linked lists

Nodes with a forward and a backward pointer, as two functions.  The two directions are kept apart,
since an operation on such a list changes one pointer after the other, and in between they do not
agree.

* `NextSeg`, `PrevSeg` — the pointers lead from a node along a list of nodes to another one;
* `first`, `last` — the ends of a segment;
* `NextSeg.insert`, `PrevSeg.insert`, `NextSeg.remove`, `PrevSeg.remove` — one pointer is set, and
  the segment has a node more or less;
* `follow`, `follow_eq` — reading the list off the forward pointers.
-/

variable {N : Type}

/-! ### Segments -/

/-- The forward pointers lead from `a` along `l` to `b`. -/
def NextSeg (next : N → Option N) : N → List N → N → Prop
  | a, [], b => next a = some b
  | a, x :: l, b => next a = some x ∧ NextSeg next x l b

/-- The backward pointers lead from `b` back along `l` to `a`. -/
def PrevSeg (prev : N → Option N) : N → List N → N → Prop
  | a, [], b => prev b = some a
  | a, x :: l, b => prev x = some a ∧ PrevSeg prev x l b

/-- The node behind the start of a segment. -/
def first (l : List N) (b : N) : N := l.head?.getD b

/-- The node before the end of a segment. -/
def last (a : N) : List N → N
  | [] => a
  | x :: l => last x l

variable {next prev : N → Option N} {a b c x : N} {l l' : List N}

@[simp] theorem first_nil : first [] b = b := rfl

@[simp] theorem first_cons : first (x :: l) b = x := rfl

@[simp] theorem last_nil : last a [] = a := rfl

@[simp] theorem last_cons : last a (x :: l) = last x l := rfl

/-- The first node of a chain is one of it. -/
theorem first_mem : first l b ∈ l ++ [b] := by
  cases l <;> simp

/-- The last node of a chain is one of it. -/
theorem last_mem : last a l ∈ a :: l := by
  induction l generalizing a with
  | nil => simp
  | cons x l ih => exact List.mem_cons_of_mem a (ih (a := x))

/-- What follows the node before a chain. -/
theorem NextSeg.next_eq (h : NextSeg next a l b) : next a = some (first l b) := by
  cases l with
  | nil => exact h
  | cons x l => exact h.1

/-- A forward segment is cut at a node. -/
theorem nextSeg_append :
    NextSeg next a (l ++ x :: l') b ↔ NextSeg next a l x ∧ NextSeg next x l' b := by
  induction l generalizing a with
  | nil => exact Iff.rfl
  | cons y l ih =>
    simp only [List.cons_append, NextSeg, ih]
    exact and_assoc.symm

/-- A backward segment is cut at a node. -/
theorem prevSeg_append :
    PrevSeg prev a (l ++ x :: l') b ↔ PrevSeg prev a l x ∧ PrevSeg prev x l' b := by
  induction l generalizing a with
  | nil => exact Iff.rfl
  | cons y l ih =>
    simp only [List.cons_append, PrevSeg, ih]
    exact and_assoc.symm

/-- A chain stays one as long as its pointers are the same. -/
theorem NextSeg.congr {next' : N → Option N} (h : NextSeg next a l b)
    (heq : ∀ n ∈ a :: l, next' n = next n) : NextSeg next' a l b := by
  induction l generalizing a with
  | nil => exact (heq a (by simp)).trans h
  | cons x l ih =>
    exact ⟨(heq a (by simp)).trans h.1, ih h.2 fun n hn => heq n (List.mem_cons_of_mem a hn)⟩

/-- The same backwards. -/
theorem PrevSeg.congr {prev' : N → Option N} (h : PrevSeg prev a l b)
    (heq : ∀ n ∈ l ++ [b], prev' n = prev n) : PrevSeg prev' a l b := by
  induction l generalizing a with
  | nil => exact (heq b (by simp)).trans h
  | cons x l ih =>
    exact ⟨(heq x (by simp)).trans h.1, ih h.2 fun n hn => heq n (List.mem_cons_of_mem x hn)⟩

/-- The last backward pointer leads to the last node. -/
theorem PrevSeg.prev_last (h : PrevSeg prev a l b) : prev b = some (last a l) := by
  induction l generalizing a with
  | nil => exact h
  | cons x l ih => exact ih h.2

/-! ### One pointer is set -/

variable [DecidableEq N]

/-- A store to a node that is not on the chain. -/
theorem NextSeg.update {v : Option N} (h : NextSeg next a l b) (hn : c ∉ a :: l) :
    NextSeg (Function.update next c v) a l b := by
  refine h.congr fun n hmem => Function.update_of_ne ?_ ..
  rintro rfl
  exact hn hmem

/-- The same backwards. -/
theorem PrevSeg.update {v : Option N} (h : PrevSeg prev a l b) (hn : c ∉ l ++ [b]) :
    PrevSeg (Function.update prev c v) a l b := by
  refine h.congr fun n hmem => Function.update_of_ne ?_ ..
  rintro rfl
  exact hn hmem

/-- A new first node: the start of the segment points to it, and it leads on. -/
theorem NextSeg.insert (h : NextSeg next x l b) (ha : a ∉ x :: l) :
    NextSeg (Function.update next a (some x)) a (x :: l) b :=
  ⟨Function.update_self .., h.update ha⟩

/-- Another node leads into the segment. -/
theorem NextSeg.start (h : NextSeg next a l b) (hc : c ∉ l) :
    NextSeg (Function.update next c (next a)) c l b := by
  cases l with
  | nil => exact (Function.update_self ..).trans h
  | cons x l => exact ⟨(Function.update_self ..).trans h.1, h.2.update hc⟩

/-- The first node of a segment points back to another node. -/
theorem PrevSeg.insert (h : PrevSeg prev a l b) (hnodup : (l ++ [b]).Nodup) :
    PrevSeg (Function.update prev (first l b) (some c)) c l b := by
  cases l with
  | nil => exact Function.update_self ..
  | cons x l =>
    refine ⟨Function.update_self .., h.2.update ?_⟩
    exact (List.nodup_cons.mp hnodup).1

/-- The node before `x` points to the node behind it. -/
theorem NextSeg.remove (h : NextSeg next a (l ++ x :: l') b)
    (hnodup : (a :: (l ++ x :: l')).Nodup) :
    NextSeg (Function.update next (last a l) (next x)) a (l ++ l') b := by
  induction l generalizing a with
  | nil =>
    have hx := h.2.next_eq
    have ha : a ∉ l' := fun hmem => (List.nodup_cons.mp hnodup).1 (by simp [hmem])
    cases l' with
    | nil =>
      simp only [List.append_nil, last_nil, NextSeg, Function.update_self]
      exact hx
    | cons y l' =>
      exact ⟨(Function.update_self ..).trans hx, h.2.2.update ha⟩
  | cons y l ih =>
    have hnodup' := (List.nodup_cons.mp hnodup).2
    have ha : a ≠ last y l := by
      rintro rfl
      refine (List.nodup_cons.mp hnodup).1 (List.mem_append_left _ ?_)
      exact last_mem
    exact ⟨(Function.update_of_ne ha ..).trans h.1, ih h.2 hnodup'⟩

/-- The node behind `x` points back to the node before it. -/
theorem PrevSeg.remove (h : PrevSeg prev a (l ++ x :: l') b)
    (hnodup : (l ++ x :: l' ++ [b]).Nodup) :
    PrevSeg (Function.update prev (first l' b) (prev x)) a (l ++ l') b := by
  obtain ⟨hl, hl'⟩ := prevSeg_append.mp h
  have hx : prev x = some (last a l) := hl.prev_last
  rw [hx]
  induction l generalizing a with
  | nil =>
    refine hl'.insert ?_
    have hd : (x :: (l' ++ [b])).Nodup := by simpa using hnodup
    exact (List.nodup_cons.mp hd).2
  | cons y l ih =>
    have hd : (y :: (l ++ x :: l' ++ [b])).Nodup := by simpa using hnodup
    obtain ⟨hy, hd'⟩ := List.nodup_cons.mp hd
    refine ⟨?_, ih h.2 hd' hl.2 hx⟩
    have hne : y ≠ first l' b := by
      rintro rfl
      refine hy ?_
      have hmem : first l' b ∈ l' ++ [b] := first_mem
      rcases List.mem_append.mp hmem with hm | hm
      · exact List.mem_append_left _ (List.mem_append_right _ (List.mem_cons_of_mem x hm))
      · exact List.mem_append_right _ hm
    exact (Function.update_of_ne hne ..).trans hl.1

/-! ### Reading a list -/

/-- The nodes from `a` on until `b`, `fuel` at most. -/
def follow (next : N → Option N) (b : N) : ℕ → N → List N
  | 0, _ => []
  | fuel + 1, a =>
    match next a with
    | none => []
    | some x => if x = b then [] else x :: follow next b fuel x

/-- A segment is read off, given the fuel. -/
theorem follow_eq {fuel : ℕ} (h : NextSeg next a l b) (hb : b ∉ l) (hfuel : l.length < fuel) :
    follow next b fuel a = l := by
  induction l generalizing a fuel with
  | nil =>
    cases fuel with
    | zero => rfl
    | succ fuel =>
      have ha : next a = some b := h
      simp [follow, ha]
  | cons x l ih =>
    cases fuel with
    | zero => exact absurd hfuel (by simp)
    | succ fuel =>
      have hxb : x ≠ b := fun hxb => hb (by simp [hxb])
      simp only [follow, h.1, if_neg hxb]
      rw [ih h.2 (fun hmem => hb (List.mem_cons_of_mem x hmem)) (by simpa using hfuel)]

end LinkedRing
