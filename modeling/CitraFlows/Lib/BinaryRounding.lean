-- SUMMARY: Rounding to the nearest binary floating-point number: what is rounded is a number of the format, and stays below its limit.
import Mathlib.Data.Int.Log
import Mathlib.Data.Rat.Floor
import Mathlib.Tactic.Linarith
import Mathlib.Tactic.Ring

/-!
# Binary rounding

A format has numbers `k * 2 ^ e` with a significand `k` of a fixed number of bits and an exponent
that is not too small. A rational number is rounded to the nearest of them, and of two nearest to the
one with an even significand. Exponents have no upper end here; `round_lt` is what a limit needs.
-/

namespace BinaryRounding

/-! ## Integers -/

/-- The nearest integer; of two nearest the even one -/
def roundEven (q : ℚ) : ℤ :=
  let n := ⌊q⌋
  if q - n < 1 / 2 then n
  else if 1 / 2 < q - n then n + 1
  else if n % 2 = 0 then n
  else n + 1

@[simp] theorem roundEven_intCast (n : ℤ) : roundEven (n : ℚ) = n := by
  simp [roundEven]

theorem abs_roundEven_sub_le (q : ℚ) : |(roundEven q : ℚ) - q| ≤ 1 / 2 := by
  have hlow := Int.floor_le q
  have hhigh := Int.lt_floor_add_one q
  rw [abs_le]
  unfold roundEven
  dsimp only
  split_ifs <;> push_cast <;> constructor <;> linarith

theorem abs_roundEven_le {q : ℚ} {n : ℤ} (h : |q| < n + 1 / 2) : |roundEven q| ≤ n := by
  have herror := abs_le.mp (abs_roundEven_sub_le q)
  obtain ⟨hlow, hhigh⟩ := abs_lt.mp h
  have habove : (roundEven q : ℚ) < ((n + 1 : ℤ) : ℚ) := by
    push_cast
    linarith
  have hbelow : ((-(n + 1) : ℤ) : ℚ) < roundEven q := by
    push_cast
    linarith
  have habove' := Int.cast_lt.mp habove
  have hbelow' := Int.cast_lt.mp hbelow
  exact abs_le.mpr ⟨by omega, by omega⟩

/-! ## Formats -/

/-- The bits of a significand after its first one, and the least exponent -/
structure Format where
  bits : ℕ
  least : ℤ

namespace Format

variable (F : Format) {x y : ℚ}

/-- The exponent at which a number is rounded -/
def exponent (x : ℚ) : ℤ := max F.least (Int.log 2 |x| - F.bits)

def significand (x : ℚ) : ℤ := roundEven (x / 2 ^ F.exponent x)

/-- The nearest number of the format -/
def round (x : ℚ) : ℚ := F.significand x * 2 ^ F.exponent x

theorem least_le_exponent (x : ℚ) : F.least ≤ F.exponent x := le_max_left _ _

theorem two_zpow_pos (e : ℤ) : (0 : ℚ) < 2 ^ e := zpow_pos (by norm_num) e

theorem two_zpow_bits : (2 : ℚ) ^ (F.bits + 1 : ℤ) = 2 ^ (F.bits + 1) := by
  rw [← zpow_natCast]
  norm_cast

/-- A number is less than a significand of one bit more. -/
theorem abs_lt_zpow (x : ℚ) : |x| < 2 ^ (F.bits + 1 : ℤ) * 2 ^ F.exponent x := by
  have hlog : |x| < (2 : ℕ) ^ (Int.log 2 |x| + 1) := Int.lt_zpow_succ_log_self Nat.one_lt_two |x|
  have hexponent : Int.log 2 |x| - F.bits ≤ F.exponent x := le_max_right _ _
  rw [← zpow_add₀ (by norm_num)]
  refine hlog.trans_le ?_
  push_cast
  exact zpow_le_zpow_right₀ (by norm_num) (by omega)

theorem abs_div_zpow (x : ℚ) (e : ℤ) : |x / 2 ^ e| = |x| / 2 ^ e := by
  rw [abs_div, abs_of_pos (two_zpow_pos e)]

theorem abs_significand_le (x : ℚ) : |F.significand x| ≤ 2 ^ (F.bits + 1) := by
  refine abs_roundEven_le ?_
  rw [abs_div_zpow, div_lt_iff₀ (two_zpow_pos _)]
  have h := F.abs_lt_zpow x
  have hpos := two_zpow_pos (F.exponent x)
  rw [two_zpow_bits] at h
  push_cast
  linarith

/-! ## What is rounded is a number of the format -/

theorem round_of_multiple {k : ℤ} (h : x = k * 2 ^ F.exponent x) : F.round x = x := by
  have hquotient : x / 2 ^ F.exponent x = k := by
    rw [div_eq_iff (two_zpow_pos _).ne']
    exact h
  rw [round, significand, hquotient, roundEven_intCast, ← h]

theorem multiple_of_le {k e e' : ℤ} (h : e' ≤ e) :
    ∃ j : ℤ, (k : ℚ) * 2 ^ e = j * 2 ^ e' := by
  obtain ⟨n, rfl⟩ := Int.le.dest h
  refine ⟨k * 2 ^ n, ?_⟩
  rw [zpow_add₀ (by norm_num), zpow_natCast]
  push_cast
  ring

theorem exponent_le {k e : ℤ} (he : F.least ≤ e) (hk : |k| < 2 ^ (F.bits + 1)) (hne : k ≠ 0) :
    F.exponent (k * 2 ^ e) ≤ e := by
  have habs : |(k : ℚ) * 2 ^ e| = |(k : ℚ)| * 2 ^ e := by rw [abs_mul, abs_of_pos (two_zpow_pos e)]
  have hpos : (0 : ℚ) < |(k : ℚ) * 2 ^ e| := by
    rw [habs]
    exact mul_pos (abs_pos.mpr (Int.cast_ne_zero.mpr hne)) (two_zpow_pos e)
  have hk' : |(k : ℚ)| < 2 ^ (F.bits + 1) := by exact_mod_cast hk
  have hlt : |(k : ℚ) * 2 ^ e| < (2 : ℕ) ^ (F.bits + 1 + e : ℤ) := by
    rw [habs]
    push_cast
    rw [zpow_add₀ (by norm_num), two_zpow_bits]
    exact mul_lt_mul_of_pos_right hk' (two_zpow_pos e)
  have hlog := (Int.lt_zpow_iff_log_lt Nat.one_lt_two hpos).mp hlt
  exact max_le he (by omega)

theorem round_number {k e : ℤ} (he : F.least ≤ e) (hk : |k| < 2 ^ (F.bits + 1)) :
    F.round (k * 2 ^ e) = k * 2 ^ e := by
  by_cases hne : k = 0
  · exact F.round_of_multiple (k := 0) (by rw [hne, Int.cast_zero, zero_mul, zero_mul])
  · obtain ⟨j, hj⟩ := multiple_of_le (k := k) (F.exponent_le he hk hne)
    exact F.round_of_multiple hj

/-- Rounding again changes nothing. -/
theorem round_round (x : ℚ) : F.round (F.round x) = F.round x := by
  have hk := F.abs_significand_le x
  rcases hk.lt_or_eq with hlt | heq
  · exact F.round_number (F.least_le_exponent x) hlt
  · -- a significand of one bit more is even
    obtain ⟨j, hj⟩ : (2 : ℤ) ∣ F.significand x := by
      rw [← dvd_abs, heq, pow_succ]
      exact Dvd.intro_left _ rfl
    have hhalf : F.round x = j * 2 ^ (F.exponent x + 1) := by
      rw [round, hj, zpow_add_one₀ (by norm_num)]
      push_cast
      ring
    rw [hj, abs_mul, abs_two, pow_succ'] at heq
    have hj' : |j| < 2 ^ (F.bits + 1) := by
      rw [pow_succ']
      have hpos : (0 : ℤ) < 2 ^ F.bits := by positivity
      omega
    rw [hhalf]
    exact F.round_number ((F.least_le_exponent x).trans (by omega)) hj'

/-! ## Limits -/

/-- What is rounded down at the last exponent is not rounded beyond it. -/
theorem abs_round_le {e : ℤ} (he : F.least ≤ e)
    (h : |x| < (2 ^ (F.bits + 1) - 1 / 2) * 2 ^ e) :
    |F.round x| ≤ (2 ^ (F.bits + 1) - 1) * 2 ^ e := by
  have hone : (1 : ℚ) ≤ 2 ^ F.bits := one_le_pow₀ (by norm_num)
  by_cases hx : x = 0
  · have hzero : F.round x = 0 := by
      rw [hx]
      exact F.round_of_multiple (k := 0) (by rw [Int.cast_zero, zero_mul])
    rw [hzero, abs_zero]
    refine mul_nonneg ?_ (two_zpow_pos e).le
    rw [pow_succ]
    linarith
  have habs : |F.round x| = |(F.significand x : ℚ)| * 2 ^ F.exponent x := by
    rw [round, abs_mul, abs_of_pos (two_zpow_pos _)]
  have hcast : |(F.significand x : ℚ)| = ((|F.significand x| : ℤ) : ℚ) := (Int.cast_abs).symm
  rw [habs, hcast]
  rcases lt_trichotomy (F.exponent x) e with hlt | heq | hgt
  · have hk : ((|F.significand x| : ℤ) : ℚ) ≤ 2 ^ (F.bits + 1) := by
      exact_mod_cast F.abs_significand_le x
    have hstep : (2 : ℚ) * 2 ^ F.exponent x ≤ 2 ^ e := by
      rw [mul_comm, ← zpow_add_one₀ (by norm_num)]
      exact zpow_le_zpow_right₀ (by norm_num) (by omega)
    calc ((|F.significand x| : ℤ) : ℚ) * 2 ^ F.exponent x
        ≤ 2 ^ (F.bits + 1) * 2 ^ F.exponent x :=
          mul_le_mul_of_nonneg_right hk (two_zpow_pos _).le
      _ = 2 ^ F.bits * (2 * 2 ^ F.exponent x) := by rw [pow_succ]; ring
      _ ≤ 2 ^ F.bits * 2 ^ e := mul_le_mul_of_nonneg_left hstep (by linarith)
      _ ≤ (2 ^ (F.bits + 1) - 1) * 2 ^ e := by
          refine mul_le_mul_of_nonneg_right ?_ (two_zpow_pos e).le
          rw [pow_succ]
          linarith
  · have hk : |F.significand x| ≤ 2 ^ (F.bits + 1) - 1 := by
      refine abs_roundEven_le ?_
      rw [abs_div_zpow, div_lt_iff₀ (two_zpow_pos _), heq]
      push_cast
      linarith
    rw [heq]
    refine mul_le_mul_of_nonneg_right ?_ (two_zpow_pos e).le
    exact_mod_cast hk
  · -- the exponent is that of the number, which would be too large
    exfalso
    have hexponent : F.exponent x = Int.log 2 |x| - F.bits :=
      (max_choice _ _).resolve_left fun h => by
        have : F.exponent x = F.least := h
        omega
    have hlow : ((2 : ℕ) : ℚ) ^ Int.log 2 |x| ≤ |x| :=
      Int.zpow_log_le_self Nat.one_lt_two (abs_pos.mpr hx)
    have hpow : (2 : ℚ) ^ (F.bits + 1 : ℤ) * 2 ^ e ≤ 2 ^ Int.log 2 |x| := by
      rw [← zpow_add₀ (by norm_num)]
      exact zpow_le_zpow_right₀ (by norm_num) (by omega)
    rw [two_zpow_bits] at hpow
    rw [Nat.cast_ofNat] at hlow
    have he := two_zpow_pos e
    linarith

end Format

end BinaryRounding
