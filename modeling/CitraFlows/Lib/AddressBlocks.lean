-- SUMMARY: Finite tables of blocks of addresses, compared and covered by looking at the ends of their blocks.
import Mathlib.Algebra.Ring.Nat
import Mathlib.Order.Interval.Basic

/-!
# Address blocks

A registry of addresses is a finite table of intervals. Whether one table lies within
another, whether two of them are apart, and how far a table reaches without a hole are
computed from the ends of the blocks. Each computation is sound for the membership of
every single address.
-/

namespace CitraFlows.AddressBlocks

/-! ## Tables -/

section Tables

variable {α : Type*} [LinearOrder α]

/-- Whether an address lies in some block of a table. -/
def contains (t : List (NonemptyInterval α)) (x : α) : Bool :=
  t.any fun b => b.fst ≤ x ∧ x ≤ b.snd

/-- Every block of `t` lies in one block of `u`. -/
def within (t u : List (NonemptyInterval α)) : Bool :=
  t.all fun b => u.any fun c => b ≤ c

/-- No block of `t` meets a block of `u`. -/
def apart (t u : List (NonemptyInterval α)) : Bool :=
  t.all fun b => u.all fun c => b.snd < c.fst ∨ c.snd < b.fst

variable {t u : List (NonemptyInterval α)} {x : α}

theorem contains_iff : contains t x = true ↔ ∃ b ∈ t, x ∈ b := by
  simp [contains, NonemptyInterval.mem_def]

@[simp] theorem contains_append :
    contains (t ++ u) x = (contains t x || contains u x) := by
  simp [contains]

theorem contains_of_within (h : within t u = true) (hx : contains t x = true) :
    contains u x = true := by
  obtain ⟨b, hb, hxb⟩ := contains_iff.mp hx
  simp only [within, List.all_eq_true, List.any_eq_true, decide_eq_true_eq] at h
  obtain ⟨c, hc, hbc⟩ := h b hb
  rw [NonemptyInterval.le_def] at hbc
  rw [NonemptyInterval.mem_def] at hxb
  exact contains_iff.mpr ⟨c, hc, le_trans hbc.1 hxb.1, le_trans hxb.2 hbc.2⟩

theorem not_contains_of_apart (h : apart t u = true) (hx : contains t x = true) :
    contains u x = false := by
  obtain ⟨b, hb, hxb⟩ := contains_iff.mp hx
  simp only [apart, List.all_eq_true, decide_eq_true_eq] at h
  rw [← Bool.not_eq_true, contains_iff]
  rintro ⟨c, hc, hxc⟩
  rw [NonemptyInterval.mem_def] at hxb hxc
  cases h b hb c hc with
  | inl before => exact absurd (lt_of_le_of_lt hxb.2 before) (not_lt_of_ge hxc.1)
  | inr behind => exact absurd (lt_of_le_of_lt hxc.2 behind) (not_lt_of_ge hxb.1)

end Tables

/-! ## Prefixes -/

/-- The addresses of `width` bits that agree with `base` in their first `len` bits. -/
def ofPrefix (width base len : ℕ) : NonemptyInterval ℕ where
  fst := base / 2 ^ (width - len) * 2 ^ (width - len)
  snd := base / 2 ^ (width - len) * 2 ^ (width - len) + (2 ^ (width - len) - 1)
  fst_le_snd := Nat.le_add_right _ _

/-- Membership in a prefix compares what is left of the address under the mask. -/
theorem mem_ofPrefix {width base len x : ℕ} :
    x ∈ ofPrefix width base len ↔ x / 2 ^ (width - len) = base / 2 ^ (width - len) := by
  have size : 0 < 2 ^ (width - len) := Nat.two_pow_pos _
  rw [NonemptyInterval.mem_def, Nat.div_eq_iff size, Nat.add_sub_assoc size]
  rfl

/-! ## Coverage -/

/-- The first address from `lo` on that a walk along a table finds in no block. -/
def covered (lo : ℕ) : List (NonemptyInterval ℕ) → ℕ
  | [] => lo
  | b :: bs => covered (if b.fst ≤ lo ∧ lo ≤ b.snd then b.snd + 1 else lo) bs

theorem contains_of_lt_covered {t : List (NonemptyInterval ℕ)} {lo x : ℕ}
    (hlo : lo ≤ x) (hx : x < covered lo t) : contains t x = true := by
  induction t generalizing lo with
  | nil => exact absurd hlo (Nat.not_le_of_lt hx)
  | cons b bs ih =>
    simp only [contains, List.any_cons, Bool.or_eq_true, decide_eq_true_eq]
    by_cases here : b.fst ≤ x ∧ x ≤ b.snd
    · exact Or.inl here
    · refine Or.inr (ih ?_ hx)
      split
      · rename_i entered
        exact Nat.lt_of_not_le fun hsnd => here ⟨le_trans entered.1 hlo, hsnd⟩
      · exact hlo

end CitraFlows.AddressBlocks
