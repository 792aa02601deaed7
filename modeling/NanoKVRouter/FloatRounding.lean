/-
**Rounding to the nearest float.**

The floats of a binary format are the multiples of a power of two that depends on the size of the
number: the significand has a fixed number of digits, and below the least exponent the floats are
evenly spaced.  A result is rounded to the nearest float; of two that are equally near, the one with
the even significand is taken.  Overflow is left out: the exponent has no upper bound.

Main definitions:

* `roundEven` — the nearest integer, ties to even;
* `FloatFormat`, `FloatFormat.round` — a binary format and its nearest float;
* `binary64` — the format of double precision.

Main results:

* `FloatFormat.round_mono` — **rounding is monotone**;
* `FloatFormat.abs_round_sub_le` — a number is rounded by half a step at most;
* `FloatFormat.le_round_iff` — a number is rounded up to an odd float exactly if it lies beyond the
  middle between this float and the one before.
-/

import Mathlib.Algebra.Order.Archimedean.Basic
import Mathlib.Algebra.Order.Round
import Mathlib.Data.Int.Log
import Mathlib.Data.Rat.Floor
import Mathlib.Tactic.FieldSimp
import Mathlib.Tactic.Linarith
import Mathlib.Tactic.Positivity
import Mathlib.Tactic.Ring

set_option relaxedAutoImplicit false
set_option autoImplicit false

namespace NanoKVRouter

/-! ### Integers -/

/-- The nearest integer; of two that are equally near, the even one. -/
def roundEven (x : ℚ) : ℤ :=
  if 2 * Int.fract x < 1 ∨ 2 * Int.fract x = 1 ∧ ⌊x⌋ % 2 = 0 then ⌊x⌋ else ⌊x⌋ + 1

@[simp] theorem roundEven_intCast (n : ℤ) : roundEven n = n := by
  simp [roundEven]

/-- **A number is rounded by a half** at most. -/
theorem abs_roundEven_sub_le (x : ℚ) : |(roundEven x : ℚ) - x| ≤ 1 / 2 := by
  have hfract : Int.fract x = x - ⌊x⌋ := rfl
  have hlo := Int.fract_nonneg x
  rw [roundEven, abs_le]
  split
  · rename_i h
    have hle : 2 * Int.fract x ≤ 1 := h.elim le_of_lt fun h => h.1.le
    constructor <;> linarith
  · rename_i h
    have hge : 1 ≤ 2 * Int.fract x := not_lt.1 fun hlt => h (Or.inl hlt)
    have hhi := Int.fract_lt_one x
    rw [Int.cast_add, Int.cast_one]
    constructor <;> linarith

/-- A number beyond the middle of two integers is rounded to the upper one or above. -/
theorem le_roundEven_of_lt {m : ℤ} {x : ℚ} (h : (m : ℚ) - 1 / 2 < x) : m ≤ roundEven x := by
  have hx := (abs_le.1 (abs_roundEven_sub_le x)).1
  have hlt : ((m - 1 : ℤ) : ℚ) < roundEven x := by
    rw [Int.cast_sub, Int.cast_one]
    linarith
  have := Int.cast_lt.1 hlt
  omega

/-- The middle between an even integer and the next one is rounded down. -/
theorem roundEven_middle {m : ℤ} (h : m % 2 = 0) : roundEven ((m : ℚ) + 1 / 2) = m := by
  have hfloor : ⌊(m : ℚ) + 1 / 2⌋ = m := by
    rw [Int.floor_eq_iff]
    constructor <;> linarith
  have hfract : Int.fract ((m : ℚ) + 1 / 2) = 1 / 2 := by
    rw [Int.fract, hfloor]
    ring
  rw [roundEven, hfract, hfloor, if_pos (Or.inr ⟨by norm_num, h⟩)]

theorem roundEven_mono {x y : ℚ} (h : x ≤ y) : roundEven x ≤ roundEven y := by
  have hfx : Int.fract x = x - ⌊x⌋ := rfl
  have hfy : Int.fract y = y - ⌊y⌋ := rfl
  rcases (Int.floor_le_floor h).lt_or_eq with hlt | heq
  · have hx : roundEven x ≤ ⌊x⌋ + 1 := by
      rw [roundEven]
      split <;> omega
    have hy : ⌊y⌋ ≤ roundEven y := by
      rw [roundEven]
      split <;> omega
    omega
  · rw [roundEven, roundEven, ← heq]
    split
    · split <;> omega
    · rename_i hx
      rw [if_neg]
      rintro (hy | ⟨hy, heven⟩)
      · exact hx (Or.inl (by rw [hfy, ← heq] at hy; linarith))
      · refine hx ?_
        rcases h.lt_or_eq with hxy | rfl
        · exact Or.inl (by rw [hfy, ← heq] at hy; linarith)
        · exact Or.inr ⟨hy, heven⟩

theorem roundEven_neg (x : ℚ) : roundEven (-x) = -roundEven x := by
  by_cases hx : Int.fract x = 0
  · obtain ⟨n, rfl⟩ : ∃ n : ℤ, (n : ℚ) = x := ⟨⌊x⌋, by
      rw [Int.fract] at hx
      linarith⟩
    rw [← Int.cast_neg, roundEven_intCast, roundEven_intCast]
  · have hpos : 0 < Int.fract x := lt_of_le_of_ne (Int.fract_nonneg x) (Ne.symm hx)
    have hlt := Int.fract_lt_one x
    have hfx : Int.fract x = x - ⌊x⌋ := rfl
    have hfloor : ⌊-x⌋ = -⌊x⌋ - 1 := by
      rw [Int.floor_eq_iff]
      push_cast
      constructor <;> linarith
    have hfract : Int.fract (-x) = 1 - Int.fract x := Int.fract_neg hx
    rw [roundEven, roundEven, hfract, hfloor]
    rcases lt_trichotomy (2 * Int.fract x) 1 with h | h | h
    · have hnot : ¬ (2 * (1 - Int.fract x) < 1 ∨
          2 * (1 - Int.fract x) = 1 ∧ (-⌊x⌋ - 1) % 2 = 0) := by
        rintro (h' | ⟨h', -⟩) <;> linarith
      rw [if_neg hnot, if_pos (Or.inl h)]
      ring
    · have hone : 2 * (1 - Int.fract x) = 1 := by linarith
      rw [hone, h]
      simp only [lt_irrefl, true_and, false_or]
      rcases Int.emod_two_eq_zero_or_one ⌊x⌋ with heven | hodd
      · rw [if_neg (by omega), if_pos heven]
        ring
      · rw [if_pos (by omega), if_neg (by omega)]
        ring
    · have hnot : ¬ (2 * Int.fract x < 1 ∨ 2 * Int.fract x = 1 ∧ ⌊x⌋ % 2 = 0) := by
        rintro (h' | ⟨h', -⟩) <;> linarith
      rw [if_pos (Or.inl (by linarith)), if_neg hnot]
      ring

/-! ### Floats -/

/-- A binary format: the digits of the significand behind the first one, and the least exponent. -/
structure FloatFormat where
  digits : ℕ
  least : ℤ

/-- Double precision. -/
def binary64 : FloatFormat where
  digits := 52
  least := -1074

namespace FloatFormat

variable (F : FloatFormat)

/-- The exponent of the step between the floats around a number. -/
def exponent (x : ℚ) : ℤ := max (Int.log 2 |x| - F.digits) F.least

/-- The float nearest to a number. -/
def round (x : ℚ) : ℚ := roundEven (x / 2 ^ F.exponent x) * 2 ^ F.exponent x

variable {F}

theorem two_zpow_pos (e : ℤ) : (0 : ℚ) < 2 ^ e := zpow_pos two_pos e

@[simp] theorem round_zero : F.round 0 = 0 := by
  rw [round, zero_div, ← Int.cast_zero, roundEven_intCast, Int.cast_zero, zero_mul]

theorem round_neg (x : ℚ) : F.round (-x) = -F.round x := by
  have hexp : F.exponent (-x) = F.exponent x := by rw [exponent, abs_neg, exponent]
  rw [round, hexp, neg_div, roundEven_neg, Int.cast_neg, neg_mul, round]

theorem round_nonneg {x : ℚ} (h : 0 ≤ x) : 0 ≤ F.round x := by
  have h0 : (0 : ℤ) ≤ roundEven (x / 2 ^ F.exponent x) := by
    have := roundEven_mono (div_nonneg h (two_zpow_pos (F.exponent x)).le)
    rwa [← Int.cast_zero, roundEven_intCast] at this
  exact mul_nonneg (Int.cast_nonneg h0) (two_zpow_pos _).le

theorem abs_round (x : ℚ) : |F.round x| = F.round |x| := by
  rcases le_total 0 x with h | h
  · rw [abs_of_nonneg h, abs_of_nonneg (round_nonneg h)]
  · rw [abs_of_nonpos h, round_neg]
    have := round_nonneg (F := F) (neg_nonneg.2 h)
    rw [round_neg] at this
    exact abs_of_nonpos (neg_nonneg.1 this)

/-- **A number is rounded by half a step** at most. -/
theorem abs_round_sub_le (x : ℚ) : |F.round x - x| ≤ 2 ^ F.exponent x / 2 := by
  have hpos := two_zpow_pos (F.exponent x)
  have heq : F.round x - x =
      ((roundEven (x / 2 ^ F.exponent x) : ℚ) - x / 2 ^ F.exponent x) * 2 ^ F.exponent x := by
    rw [round, sub_mul, div_mul_cancel₀ _ hpos.ne']
  have hle := mul_le_mul_of_nonneg_right (abs_roundEven_sub_le (x / 2 ^ F.exponent x)) hpos.le
  rw [heq, abs_mul, abs_of_pos hpos]
  linarith

theorem exponent_mono {x y : ℚ} (hx : 0 < x) (h : x ≤ y) : F.exponent x ≤ F.exponent y := by
  rw [exponent, exponent, abs_of_pos hx, abs_of_pos (hx.trans_le h)]
  exact max_le_max_right _ (Int.sub_le_sub_right (Int.log_mono_right hx h) _)

/-- A multiple of the step of a number is rounded to itself with that step. -/
theorem roundEven_div_zpow (m : ℤ) {e f : ℤ} (h : e ≤ f) :
    (roundEven ((m : ℚ) * 2 ^ f / 2 ^ e) : ℚ) * 2 ^ e = m * 2 ^ f := by
  have hne : (2 : ℚ) ≠ 0 := two_ne_zero
  have hsplit : (m : ℚ) * 2 ^ f / 2 ^ e = ((m * 2 ^ (f - e).toNat : ℤ) : ℚ) := by
    rw [mul_div_assoc, ← zpow_sub₀ hne, Int.cast_mul, Int.cast_pow, Int.cast_ofNat, ← zpow_natCast,
      Int.toNat_of_nonneg (by omega)]
  rw [hsplit, roundEven_intCast, ← hsplit, div_mul_cancel₀ _ (two_zpow_pos e).ne']

/-- **Rounding is monotone** on positive numbers. -/
theorem round_mono {x y : ℚ} (hx : 0 < x) (h : x ≤ y) : F.round x ≤ F.round y := by
  have hy := hx.trans_le h
  have hex := two_zpow_pos (F.exponent x)
  have hey := two_zpow_pos (F.exponent y)
  rcases (exponent_mono (F := F) hx h).lt_or_eq with hlt | heq
  · -- the power of two below the larger number lies between both, and is a float of both steps
    have hexp : F.exponent y = Int.log 2 y - F.digits := by
      rw [exponent, exponent, abs_of_pos hx, abs_of_pos hy] at hlt
      rw [exponent, abs_of_pos hy]
      have := le_max_right (Int.log 2 x - F.digits) F.least
      omega
    have hlog : Int.log 2 x < Int.log 2 y := by
      have := le_max_left (Int.log 2 |x| - F.digits) F.least
      rw [← exponent, abs_of_pos hx] at this
      omega
    have hpow : ∀ e ≤ Int.log 2 y,
        (roundEven ((2 : ℚ) ^ Int.log 2 y / 2 ^ e) : ℚ) * 2 ^ e = 2 ^ Int.log 2 y := by
      intro e he
      have := roundEven_div_zpow 1 he
      rwa [Int.cast_one, one_mul] at this
    have hxp : x ≤ 2 ^ Int.log 2 y :=
      (Int.lt_zpow_succ_log_self one_lt_two x).le.trans
        (zpow_le_zpow_right₀ one_le_two (by omega))
    have hpy : (2 : ℚ) ^ Int.log 2 y ≤ y := Int.zpow_log_le_self one_lt_two hy
    calc F.round x ≤ roundEven ((2 : ℚ) ^ Int.log 2 y / 2 ^ F.exponent x) * 2 ^ F.exponent x :=
          mul_le_mul_of_nonneg_right (Int.cast_le.2 (roundEven_mono
            (div_le_div_of_nonneg_right hxp hex.le))) hex.le
      _ = roundEven ((2 : ℚ) ^ Int.log 2 y / 2 ^ F.exponent y) * 2 ^ F.exponent y := by
          rw [hpow _ (by omega), hpow _ (by omega)]
      _ ≤ F.round y := mul_le_mul_of_nonneg_right (Int.cast_le.2 (roundEven_mono
            (div_le_div_of_nonneg_right hpy hey.le))) hey.le
  · rw [round, round, heq]
    exact mul_le_mul_of_nonneg_right (Int.cast_le.2 (roundEven_mono
      (div_le_div_of_nonneg_right h hey.le))) hey.le

/-- The exponent of a number with a full significand. -/
theorem exponent_eq {e : ℤ} {x : ℚ} (he : F.least ≤ e) (hlo : 2 ^ (F.digits + e) ≤ x)
    (hhi : x < 2 ^ (F.digits + e + 1)) : F.exponent x = e := by
  have hx : 0 < x := (two_zpow_pos _).trans_le hlo
  have hlog : Int.log 2 x = F.digits + e := by
    refine le_antisymm ?_ ?_
    · have := (Int.lt_zpow_iff_log_lt one_lt_two hx).1 hhi
      omega
    · exact (Int.zpow_le_iff_le_log one_lt_two hx).1 hlo
  rw [exponent, abs_of_pos hx, hlog, add_sub_cancel_left, max_eq_left he]

/-- **A number is rounded up to an odd float** exactly if it lies beyond the middle between this
float and the one before. -/
theorem le_round_iff {m e : ℤ} (he : F.least ≤ e) (hlo : 2 ^ F.digits < m)
    (hhi : m < 2 ^ (F.digits + 1)) (hodd : m % 2 = 1) {x : ℚ} (hx : 0 < x) :
    (m : ℚ) * 2 ^ e ≤ F.round x ↔ ((m : ℚ) - 1 / 2) * 2 ^ e < x := by
  have hpos := two_zpow_pos e
  have hlo' : ((2 : ℚ) ^ F.digits) + 1 ≤ m := by exact_mod_cast Int.add_one_le_of_lt hlo
  have hhi' : (m : ℚ) < 2 ^ (F.digits + 1) := by exact_mod_cast hhi
  have hscale : ∀ d : ℕ, (2 : ℚ) ^ ((d : ℤ) + e) = 2 ^ d * 2 ^ e := by
    intro d
    rw [zpow_add₀ two_ne_zero, zpow_natCast]
  have hscale' : (2 : ℚ) ^ ((F.digits : ℤ) + e + 1) = 2 ^ (F.digits + 1) * 2 ^ e := by
    rw [add_right_comm, ← Nat.cast_succ, hscale]
  have hbinade : ∀ y : ℚ, (2 : ℚ) ^ F.digits * 2 ^ e ≤ y → y < 2 ^ (F.digits + 1) * 2 ^ e →
      F.round y = roundEven (y / 2 ^ e) * 2 ^ e := by
    intro y hy hy'
    have hexp : F.exponent y = e := exponent_eq he (by rwa [hscale]) (by rwa [hscale'])
    rw [round, hexp]
  constructor
  · -- the middle itself goes to the even neighbour below, and rounding is monotone
    intro h
    by_contra hle
    have hmiddle : F.round (((m : ℚ) - 1 / 2) * 2 ^ e) = ((m - 1 : ℤ) : ℚ) * 2 ^ e := by
      rw [hbinade _ (mul_le_mul_of_nonneg_right (by linarith) hpos.le)
        (mul_lt_mul_of_pos_right (by linarith) hpos), mul_div_cancel_right₀ _ hpos.ne']
      have heq : (m : ℚ) - 1 / 2 = ((m - 1 : ℤ) : ℚ) + 1 / 2 := by
        rw [Int.cast_sub, Int.cast_one]
        ring
      rw [heq, roundEven_middle (by omega)]
    have hmono := round_mono (F := F) hx (not_lt.1 hle)
    rw [hmiddle] at hmono
    have hlt := mul_le_mul_iff_of_pos_right hpos |>.1 (h.trans hmono)
    have hodd_le := Int.cast_le.1 hlt
    omega
  · intro h
    have hm : F.round ((m : ℚ) * 2 ^ e) = m * 2 ^ e := by
      rw [hbinade _ (mul_le_mul_of_nonneg_right (by linarith) hpos.le)
        (mul_lt_mul_of_pos_right hhi' hpos), mul_div_cancel_right₀ _ hpos.ne', roundEven_intCast]
    -- beyond the float by monotonicity, between the middle and the float as an integer
    rcases le_total ((m : ℚ) * 2 ^ e) x with hge | hle
    · rw [← hm]
      have hm0 : (0 : ℚ) < m := lt_of_lt_of_le (by positivity) hlo'
      exact round_mono (mul_pos hm0 hpos) hge
    · have hxlo : (2 : ℚ) ^ F.digits * 2 ^ e ≤ x :=
        (mul_le_mul_of_nonneg_right (by linarith) hpos.le).trans h.le
      rw [hbinade x hxlo (hle.trans_lt (mul_lt_mul_of_pos_right hhi' hpos))]
      refine mul_le_mul_of_nonneg_right (Int.cast_le.2 (le_roundEven_of_lt ?_)) hpos.le
      rwa [lt_div_iff₀ hpos]

end FloatFormat

end NanoKVRouter
