import SyncPerf.BinaryRounding
import Mathlib.Tactic.NormNum
import Mathlib.Tactic.Ring

namespace SyncPerf

open BinaryRounding

/-!
# Fine time

The time stamps of `finetime.c`: a reading of the cycle counter is kept in two words, and the
difference of two readings is converted to milliseconds.  A double is the rational that it stands
for, and `Rounding` says how the result of an operation becomes one.

* `Rounding` — the arithmetic of doubles, exact where nothing else is said;
* `getTsc` — a reading, split into its 32-bit words;
* `getElapsedCycle`, `getElapsed2ms` — the time between two readings;
* `getElapsedCycle_of_le` — on a counter that does not run backwards it is the difference;
* `millis_error` — how far the milliseconds are from the quotient;
* `getElapsedCycle_eq_iff` — when it is the difference of any two readings.
-/

/-- How the results of operations on doubles are rounded. -/
class Rounding where
  round : ℚ → ℚ

/-- Exact arithmetic: every rational is a double. -/
instance (priority := low) Rounding.exact : Rounding where
  round q := q

/-- The arithmetic of `double`, for results that neither overflow nor become subnormal. -/
@[reducible] def Rounding.double : Rounding where
  round := roundBits 53

/-- `struct timeinfo`: two `unsigned long` words of 32 bits each. -/
structure TimeInfo where
  low : BitVec 64 := 0
  high : BitVec 64 := 0
  deriving DecidableEq

/-- `TSC_MAX`. -/
def tscMax : BitVec 64 := 0xFFFFFFFF#64

/-- `cpu_freq`, in kHz. -/
def cpuFreq : ℚ := 2000000

/-- `get_tsc`: `rdtsc` leaves the low and the high half of the counter in two registers. -/
def getTsc (reading : BitVec 64) : TimeInfo where
  low := (reading.setWidth 32).setWidth 64
  high := ((reading >>> 32).setWidth 32).setWidth 64

/-- The 64-bit value of a time stamp: `low | high << 32`. -/
def TimeInfo.word (ti : TimeInfo) : BitVec 64 := ti.low ||| (ti.high <<< 32)

/-- `get_elapsed_cycle`. -/
def getElapsedCycle (start stop : TimeInfo) : BitVec 64 :=
  if stop.high < start.high then (tscMax - start.word) + stop.word
  else stop.word - start.word

/-- `(double)cycles / cpu_freq`. -/
def millis [Rounding] (cycles : ℕ) : ℚ := Rounding.round (Rounding.round cycles / cpuFreq)

/-- `get_elapsed2ms` with a null `stop`: the time since `start`, the counter being read now. -/
def getElapsed2ms [Rounding] (start : TimeInfo) (reading : BitVec 64) : ℚ :=
  millis (getElapsedCycle start (getTsc reading)).toNat

/-- The two words of a reading make up the reading. -/
theorem getTsc_word (reading : BitVec 64) : (getTsc reading).word = reading := by
  simp only [getTsc, TimeInfo.word]
  ext i hi
  by_cases h : i < 32
  · simp [h, BitVec.getLsbD_eq_getElem hi]
  · have h32 : i - 32 < 32 := by omega
    simp [h, h32, show 32 + (i - 32) = i by omega, BitVec.getLsbD_eq_getElem hi]

/-- The high word is the quotient by `2 ^ 32`. -/
theorem getTsc_high_toNat (reading : BitVec 64) :
    (getTsc reading).high.toNat = reading.toNat / 2 ^ 32 := by
  have hlt := reading.isLt
  simp only [getTsc, BitVec.toNat_setWidth, BitVec.toNat_ushiftRight, Nat.shiftRight_eq_div_pow]
  omega

/-- **No wrap-around.**  On readings in order the elapsed cycles are the difference. -/
theorem getElapsedCycle_of_le {b e : BitVec 64} (h : b ≤ e) :
    getElapsedCycle (getTsc b) (getTsc e) = e - b := by
  have hle : b.toNat / 2 ^ 32 ≤ e.toNat / 2 ^ 32 :=
    Nat.div_le_div_right (BitVec.le_def.mp h)
  have hhigh : ¬ (getTsc e).high < (getTsc b).high := by
    rw [BitVec.lt_def, getTsc_high_toNat, getTsc_high_toNat]
    omega
  rw [getElapsedCycle, if_neg hhigh, getTsc_word, getTsc_word]

/-- The cycles between two readings in order are converted. -/
theorem getElapsed2ms_cycles [Rounding] {b e : BitVec 64} (h : b ≤ e) :
    getElapsed2ms (getTsc b) e = millis (e.toNat - b.toNat) := by
  rw [getElapsed2ms, getElapsedCycle_of_le h, BitVec.toNat_sub_of_le h]

/-- The milliseconds between two readings in order. -/
theorem getElapsed2ms_of_le {b e : BitVec 64} (h : b ≤ e) :
    getElapsed2ms (getTsc b) e = ((e.toNat : ℚ) - b.toNat) / cpuFreq := by
  rw [getElapsed2ms_cycles h, ← Nat.cast_sub (BitVec.le_def.mp h)]
  rfl

/-- Two roundings, each with a relative error of at most `ε`. -/
theorem millis_error [Rounding] {ε : ℚ} (hround : ∀ q, |Rounding.round q - q| ≤ ε * |q|)
    (cycles : ℕ) :
    |millis cycles - cycles / cpuFreq| ≤ ((1 + ε) ^ 2 - 1) * (cycles / cpuFreq) := by
  have hfreq : 0 < cpuFreq := by norm_num [cpuFreq]
  have hε : 0 ≤ ε := by simpa using (abs_nonneg _).trans (hround 1)
  have hcycles : (0 : ℚ) ≤ cycles := Nat.cast_nonneg cycles
  generalize hr : Rounding.round (cycles : ℚ) = r
  have hconverted : |r - cycles| ≤ ε * cycles := by
    simpa only [abs_of_nonneg hcycles, hr] using hround cycles
  have hsize : |r| ≤ (1 + ε) * cycles := by
    have htriangle := abs_add_le (r - cycles) cycles
    rw [sub_add_cancel, abs_of_nonneg hcycles] at htriangle
    linarith
  have hquotient : |millis cycles - r / cpuFreq| ≤ ε * ((1 + ε) * cycles / cpuFreq) := by
    calc |millis cycles - r / cpuFreq|
        ≤ ε * (|r| / cpuFreq) := by
          simpa only [millis, hr, abs_div, abs_of_pos hfreq] using hround (r / cpuFreq)
      _ ≤ ε * ((1 + ε) * cycles / cpuFreq) :=
          mul_le_mul_of_nonneg_left (div_le_div_of_nonneg_right hsize hfreq.le) hε
  calc |millis cycles - cycles / cpuFreq|
      ≤ |millis cycles - r / cpuFreq| + |r / cpuFreq - cycles / cpuFreq| := abs_sub_le ..
    _ ≤ ε * ((1 + ε) * cycles / cpuFreq) + ε * cycles / cpuFreq := by
        rw [← sub_div, abs_div, abs_of_pos hfreq]
        exact add_le_add hquotient (div_le_div_of_nonneg_right hconverted hfreq.le)
    _ = ((1 + ε) ^ 2 - 1) * (cycles / cpuFreq) := by ring

/-! ### Wrap-around -/

/-- The high word has become smaller exactly when the counter has wrapped around to another one. -/
theorem getTsc_high_lt_iff (b d : BitVec 64) :
    (getTsc (b + d)).high < (getTsc b).high ↔
      2 ^ 64 ≤ b.toNat + d.toNat ∧ b.toNat % 2 ^ 32 + d.toNat < 2 ^ 64 := by
  have hb := b.isLt
  have hd := d.isLt
  rw [BitVec.lt_def, getTsc_high_toNat, getTsc_high_toNat, BitVec.toNat_add]
  omega

/-- **The elapsed cycles** are those that have passed exactly when the counter has not wrapped
    around, or has come back to the same high word. -/
theorem getElapsedCycle_eq_iff (b d : BitVec 64) :
    getElapsedCycle (getTsc b) (getTsc (b + d)) = d ↔
      b.toNat + d.toNat < 2 ^ 64 ∨ 2 ^ 64 ≤ b.toNat % 2 ^ 32 + d.toNat := by
  have hhigh := getTsc_high_lt_iff b d
  rw [getElapsedCycle, getTsc_word, getTsc_word]
  by_cases hlt : (getTsc (b + d)).high < (getTsc b).high
  · -- the correction is not the one for a counter of 64 bits
    obtain ⟨hwrapped, hother⟩ := hhigh.mp hlt
    rw [if_pos hlt]
    refine iff_of_false (fun heq => ?_) (by omega)
    have hmax : tscMax + d = 0#64 + d := by
      rw [← BitVec.sub_add_cancel tscMax b, BitVec.add_assoc, heq, BitVec.zero_add]
    exact absurd ((BitVec.add_left_inj d).mp hmax) (by decide)
  · rw [if_neg hlt, BitVec.add_comm, BitVec.add_sub_cancel]
    refine iff_of_true rfl ?_
    by_contra hnot
    exact hlt (hhigh.mpr (by omega))

/-- **One cycle across the wrap-around** is taken for `2 ^ 32`. -/
theorem getElapsedCycle_wrapped :
    getElapsedCycle (getTsc (BitVec.allOnes 64)) (getTsc (BitVec.allOnes 64 + 1)) = 0x100000000 := by
  decide

end SyncPerf
