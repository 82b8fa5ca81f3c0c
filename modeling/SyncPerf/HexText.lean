import Mathlib.Algebra.Ring.Nat
import Mathlib.Data.List.Lex

namespace HexText

/-!
# Numbers in hexadecimal text

Digits as they are written, in lower case and without leading zeros, and as a reader takes them, up
to the first character that is none.

* `digits`, `digitVal` — a number as text, and the value of a character;
* `scan` — the reader;
* `scan_digits` — a number is read back, whatever comes behind it.
-/

/-- A number, without leading zeros. -/
def digits (n : ℕ) : List Char := Nat.toDigits 16 n

/-- The value of a digit, of either case. -/
def digitVal (c : Char) : Option ℕ :=
  if '0' ≤ c ∧ c ≤ '9' then some (c.toNat - '0'.toNat)
  else if 'a' ≤ c ∧ c ≤ 'f' then some (c.toNat - 'a'.toNat + 10)
  else if 'A' ≤ c ∧ c ≤ 'F' then some (c.toNat - 'A'.toNat + 10)
  else none

/-- The digits at the front of a text are taken into a number; the text behind them is left. -/
def scan : ℕ → List Char → ℕ × List Char
  | n, [] => (n, [])
  | n, c :: cs =>
    match digitVal c with
    | some d => scan (16 * n + d) cs
    | none => (n, c :: cs)

theorem digitVal_digitChar {d : ℕ} (h : d < 16) : digitVal d.digitChar = some d := by
  have hall : ∀ d < 16, digitVal d.digitChar = some d := by decide
  exact hall d h

theorem scan_digitChar {d : ℕ} (h : d < 16) (n : ℕ) (cs : List Char) :
    scan n (d.digitChar :: cs) = scan (16 * n + d) cs := by
  rw [scan, digitVal_digitChar h]

theorem scan_stop {c : Char} (h : digitVal c = none) (n : ℕ) (cs : List Char) :
    scan n (c :: cs) = (n, c :: cs) := by
  rw [scan, h]

/-- The digits of a number leave the reader with it. -/
theorem scan_digits_append (n : ℕ) (cs : List Char) : scan 0 (digits n ++ cs) = scan n cs := by
  induction n using Nat.strong_induction_on generalizing cs with
  | _ n ih =>
    rw [digits, Nat.toDigits_eq_if (by decide)]
    split
    next h =>
      rw [List.singleton_append, scan_digitChar h, Nat.zero_add]
    next h =>
      have hfront := ih (n / 16) (Nat.div_lt_self (by omega) (by decide))
        ((n % 16).digitChar :: cs)
      rw [List.append_assoc, List.singleton_append]
      refine hfront.trans ?_
      rw [scan_digitChar (Nat.mod_lt n (by decide)), Nat.div_add_mod]

/-- **A number** is read up to the character behind it. -/
theorem scan_digits (n : ℕ) {c : Char} (h : digitVal c = none) (cs : List Char) :
    scan 0 (digits n ++ c :: cs) = (n, c :: cs) := by
  rw [scan_digits_append, scan_stop h]

/-- Numbers in front of a separator are told apart. -/
theorem digits_append_inj {m n : ℕ} {c : Char} (hc : digitVal c = none) {cs cs' : List Char}
    (h : digits m ++ c :: cs = digits n ++ c :: cs') : m = n ∧ cs = cs' := by
  have hm := scan_digits m hc cs
  rw [h, scan_digits n hc cs'] at hm
  obtain ⟨hnum, hrest⟩ := Prod.mk.inj hm
  exact ⟨hnum.symm, (List.cons.inj hrest).2.symm⟩

/-- A number is written in digits only. -/
theorem digitVal_ne_none_of_mem {n : ℕ} {c : Char} (h : c ∈ digits n) : digitVal c ≠ none := by
  induction n using Nat.strong_induction_on with
  | _ n ih =>
    rw [digits, Nat.toDigits_eq_if (by decide)] at h
    split at h
    next hn =>
      rw [List.mem_singleton.mp h, digitVal_digitChar hn]
      exact Option.some_ne_none n
    next hn =>
      rcases List.mem_append.mp h with hc | hc
      · exact ih (n / 16) (Nat.div_lt_self (by omega) (by decide)) hc
      · rw [List.mem_singleton.mp hc, digitVal_digitChar (Nat.mod_lt n (by decide))]
        exact Option.some_ne_none _

/-- A number below a power of sixteen has that many digits. -/
theorem length_digits_le {k n : ℕ} (hk : 0 < k) (h : n < 16 ^ k) : (digits n).length ≤ k :=
  (Nat.length_toDigits_le_iff (by decide) hk).mpr h

end HexText
