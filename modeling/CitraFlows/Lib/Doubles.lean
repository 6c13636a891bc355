-- SUMMARY: Double-precision numbers: rounding, the infinities, and sums that are exact or not.
import CitraFlows.Lib.BinaryRounding

/-!
# Double-precision numbers

A double is a number of the format `binary64` below its limit, an infinity, or no number. What is
computed is rounded to it, so that a sum may differ from the sum of its parts: `ExactSum` says that
it does not.

Not modelled: the sign of a zero.
-/

namespace Doubles

def binary64 : BinaryRounding.Format where
  bits := 52
  least := -1074

/-- A double, without the zero of a sign -/
inductive FloatValue where
  | number (x : ℚ)
  | infinite (negative : Bool)
  | nan
  deriving DecidableEq

/-- From here on a number is rounded to an infinity. -/
def floatLimit : ℕ := 2 ^ 1024 - 2 ^ 970

/-- A double: a number is one of the format, and below its limit. -/
structure Double where
  value : FloatValue
  number : ∀ x, value = .number x → binary64.round x = x ∧ |x| < floatLimit

theorem Double.ext' {x y : Double} (h : x.value = y.value) : x = y := by
  cases x
  cases y
  cases h
  rfl

/-! ## Rounding -/

theorem floatLimit_eq : (floatLimit : ℚ) = (2 ^ (52 + 1) - 1 / 2) * 2 ^ (971 : ℤ) := by
  have hnat : floatLimit = (2 ^ 54 - 1) * 2 ^ 970 := by
    rw [floatLimit, Nat.sub_mul, ← pow_add, Nat.one_mul]
  have hzpow : (2 : ℚ) ^ (971 : ℤ) = 2 * 2 ^ 970 := by
    rw [← pow_succ', ← zpow_natCast]
    rfl
  have hscaled (k : ℕ) :
      (((2 ^ 54 - 1) * 2 ^ k : ℕ) : ℚ) = (2 ^ (52 + 1) - 1 / 2) * (2 * 2 ^ k) := by
    push_cast
    ring
  rw [hnat, hzpow]
  exact hscaled 970

theorem abs_round_lt {x : ℚ} (h : |x| < floatLimit) : |binary64.round x| < floatLimit := by
  rw [floatLimit_eq] at h ⊢
  refine (binary64.abs_round_le (by decide) h).trans_lt ?_
  exact mul_lt_mul_of_pos_right (by norm_num [binary64]) (zpow_pos (by norm_num) _)

/-- The double next to a number -/
def toDouble (x : ℚ) : Double :=
  if h : (floatLimit : ℚ) ≤ |x| then
    { value := .infinite (x < 0), number := fun _ h => (by cases h) }
  else
    { value := .number (binary64.round x)
      number := by
        rintro y ⟨⟩
        exact ⟨binary64.round_round x, abs_round_lt (not_le.mp h)⟩ }

theorem toDouble_of_number {n : Double} {x : ℚ} (h : n.value = .number x) : toDouble x = n := by
  obtain ⟨hround, hlt⟩ := n.number x h
  refine Double.ext' ?_
  rw [toDouble, dif_neg (not_le.mpr hlt), h]
  exact congrArg FloatValue.number hround

/-- Small integers are doubles. -/
theorem toDouble_int {n : ℤ} (h : |n| < 2 ^ 53) : (toDouble n).value = .number n := by
  have hround : binary64.round (n : ℚ) = n := by
    have hone := binary64.round_number (k := n) (e := 0) (by decide) h
    rwa [zpow_zero, mul_one] at hone
  have hlt : |(n : ℚ)| < floatLimit := by
    rw [floatLimit_eq]
    have hsmall : |(n : ℚ)| < 2 ^ 53 := by exact_mod_cast h
    have hone : (1 : ℚ) ≤ 2 ^ (970 : ℤ) := one_le_zpow₀ (by norm_num) (by decide)
    have hpow : (2 : ℚ) ^ (971 : ℤ) = 2 ^ (970 : ℤ) * 2 := zpow_add_one₀ (by norm_num) 970
    rw [hpow]
    generalize (2 : ℚ) ^ (970 : ℤ) = t at hone ⊢
    linarith
  rw [toDouble, dif_neg (not_le.mpr hlt)]
  exact congrArg FloatValue.number hround

/-! ## Sums -/

namespace Double

def zero : Double := toDouble 0

/-- `x + y` -/
def add (x y : Double) : Double :=
  match x.value, y.value with
  | .number a, .number b => toDouble (a + b)
  | .number _, _ => y
  | _, .number _ => x
  | _, _ => if x.value = y.value then x else { value := .nan, number := fun _ h => (by cases h) }

/-- The sum is the sum of the numbers. -/
def ExactSum (x y : Double) : Prop :=
  match x.value, y.value, (x.add y).value with
  | .number a, .number b, .number c => c = a + b
  | _, _, _ => False

instance (x y : Double) : Decidable (x.ExactSum y) := by
  unfold ExactSum
  split <;> infer_instance

theorem ExactSum.exists {x y : Double} (h : x.ExactSum y) :
    ∃ a b, x.value = .number a ∧ y.value = .number b ∧ (x.add y).value = .number (a + b) := by
  unfold ExactSum at h
  split at h
  next a b c hx hy hsum => exact ⟨a, b, hx, hy, h ▸ hsum⟩
  next => exact absurd h not_false

end Double

/-- A tenth and a fifth, as doubles, do not add up exactly. -/
example : ¬ (toDouble (1 / 10)).ExactSum (toDouble (1 / 5)) := by decide +kernel

end Doubles
