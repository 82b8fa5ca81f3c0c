import Mathlib.Logic.Function.Basic
import Mathlib.Data.List.TakeWhile

namespace CString

/-!
# Strings in memory

Strings that are ended by a character of their own, over a memory that maps addresses to characters.

* `storeAll` — characters that are stored one after the other;
* `strcpy`, `written` — a copy of a string with the character behind it, and where it is put;
* `read` — the string at an address;
* `read_of_holds` — what is in memory is read, and nothing else.
-/

variable {α : Type}

/-- Characters are stored at consecutive addresses. -/
def storeAll (mem : ℕ → α) (dst : ℕ) : List α → ℕ → α
  | [] => mem
  | c :: cs => storeAll (Function.update mem dst c) (dst + 1) cs

/-- A store of several bytes leaves the others alone. -/
theorem storeAll_outside {mem : ℕ → α} {dst a : ℕ} {cs : List α}
    (h : a < dst ∨ dst + cs.length ≤ a) : storeAll mem dst cs a = mem a := by
  induction cs generalizing mem dst with
  | nil => rfl
  | cons c cs ih =>
    rw [List.length_cons] at h
    rw [storeAll, ih (by omega), Function.update_of_ne (by omega)]

/-- It puts each byte where it belongs. -/
theorem storeAll_inside {mem : ℕ → α} {dst k : ℕ} {cs : List α} (h : k < cs.length) :
    storeAll mem dst cs (dst + k) = cs[k] := by
  induction cs generalizing mem dst k with
  | nil => exact absurd h (Nat.not_lt_zero k)
  | cons c cs ih =>
    cases k with
    | zero =>
      rw [storeAll, storeAll_outside (.inl (by omega))]
      exact Function.update_self ..
    | succ k =>
      have hstep := @ih (Function.update mem dst c) (dst + 1) k (Nat.lt_of_succ_lt_succ h)
      rw [storeAll, List.getElem_cons_succ, ← hstep]
      congr 1
      omega

variable [DecidableEq α] (nul : α)

/-- The string that is made up by the characters of a buffer. -/
def cstr (s : List α) : List α := s.takeWhile (· ≠ nul)

/-- A text without a null byte is a string as it is. -/
theorem cstr_eq_self {s : List α} (h : nul ∉ s) : cstr nul s = s := by
  refine List.takeWhile_eq_self_iff.mpr fun c hc => decide_eq_true ?_
  rintro rfl
  exact h hc

/-- A string is copied, with the character that ends it. -/
def strcpy (mem : ℕ → α) (dst : ℕ) (s : List α) : ℕ → α := storeAll mem dst (cstr nul s ++ [nul])

/-- The addresses that a copy writes. -/
def written (dst : ℕ) (s : List α) : List ℕ := List.range' dst ((cstr nul s).length + 1)

/-- The string stands at an address. -/
structure Holds (mem : ℕ → α) (src : ℕ) (s : List α) : Prop where
  chars : ∀ k (h : k < s.length), mem (src + k) = s[k]
  ended : mem (src + s.length) = nul

variable {nul} {mem mem' : ℕ → α} {src dst : ℕ} {s : List α}

/-- `strcpy` leaves the bytes alone that it does not write. -/
theorem strcpy_outside {a : ℕ} (h : a ∉ written nul dst s) : strcpy nul mem dst s a = mem a := by
  rw [written, List.mem_range'_1] at h
  refine storeAll_outside ?_
  rw [List.length_append, List.length_singleton]
  omega

/-- **A copy** stands where it was put. -/
theorem strcpy_holds (mem : ℕ → α) (dst : ℕ) (hs : nul ∉ s) :
    Holds nul (strcpy nul mem dst s) dst s := by
  unfold strcpy
  rw [cstr_eq_self nul hs]
  refine ⟨fun k hk => ?_, ?_⟩
  · have hlt : k < (s ++ [nul]).length := by
      rw [List.length_append]
      omega
    rw [storeAll_inside hlt, List.getElem_append_left hk]
  · have hlt : s.length < (s ++ [nul]).length := by simp
    rw [storeAll_inside hlt, List.getElem_concat_length rfl]

omit [DecidableEq α] in
/-- A string stays as long as nothing is stored in it. -/
theorem Holds.of_same (h : Holds nul mem src s)
    (hsame : ∀ k ≤ s.length, mem' (src + k) = mem (src + k)) : Holds nul mem' src s where
  chars k hk := (hsame k hk.le).trans (h.chars k hk)
  ended := (hsame s.length le_rfl).trans h.ended

/-- A copy over the end of a string makes one string of both. -/
theorem Holds.strcpy_behind {t : List α} (h : Holds nul mem src s) (ht : nul ∉ t) :
    Holds nul (strcpy nul mem (src + s.length) t) src (s ++ t) := by
  have hcopy := strcpy_holds mem (src + s.length) ht
  refine ⟨fun k hk => ?_, ?_⟩
  · by_cases hlt : k < s.length
    · have hbefore : src + k ∉ written nul (src + s.length) t := by
        rw [written, List.mem_range'_1]
        omega
      rw [strcpy_outside hbefore, h.chars k hlt, List.getElem_append_left hlt]
    · rw [List.length_append] at hk
      have hchar := hcopy.chars (k - s.length) (by omega)
      rw [List.getElem_append_right (by omega), ← hchar]
      congr 1
      omega
  · rw [List.length_append, ← Nat.add_assoc]
    exact hcopy.ended

variable (nul) in
/-- The string at an address, of which `n` characters may be looked at. -/
def read (mem : ℕ → α) : ℕ → ℕ → Option (List α)
  | _, 0 => none
  | src, n + 1 => if mem src = nul then some [] else (read mem (src + 1) n).map (mem src :: ·)

/-- **The string that stands at an address** is read. -/
theorem read_of_holds (h : Holds nul mem src s) (hs : nul ∉ s) {n : ℕ} (hn : s.length < n) :
    read nul mem src n = some s := by
  induction s generalizing src n with
  | nil =>
    obtain ⟨n, rfl⟩ := Nat.exists_eq_succ_of_ne_zero hn.ne'
    have hend : mem src = nul := h.ended
    rw [read, if_pos hend]
  | cons c cs ih =>
    obtain ⟨n, rfl⟩ := Nat.exists_eq_succ_of_ne_zero (Nat.ne_zero_of_lt hn)
    obtain ⟨hc, hcs⟩ := not_or.mp (List.mem_cons.not.mp hs)
    have hfirst : mem src = c := h.chars 0 (Nat.succ_pos _)
    have hrest : Holds nul mem (src + 1) cs := by
      refine ⟨fun k hk => ?_, ?_⟩
      · have hchar := h.chars (k + 1) (Nat.succ_lt_succ hk)
        rw [List.getElem_cons_succ] at hchar
        rw [← hchar]
        congr 1
        omega
      · rw [← h.ended, List.length_cons]
        congr 1
        omega
    have hne : mem src ≠ nul := by
      rw [hfirst]
      exact Ne.symm hc
    rw [read, if_neg hne, ih hrest hcs (Nat.lt_of_succ_lt_succ hn), hfirst]
    rfl

end CString
