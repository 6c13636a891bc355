-- SUMMARY: A set of integers enumerated in order from a bound on: its neighbours are the neighbours of the enumeration.
import Mathlib.Data.Finset.Card
import Mathlib.Order.Bounds.Basic
import Mathlib.Tactic.Linarith
import Mathlib.Tactic.Ring

/-!
# Enumeration in order

A first element and a successor function enumerate the elements of a set of integers
from a bound on. Every element has a place in the enumeration, and two elements with
nothing between them have consecutive places. The place of an element is bounded by any
finite set that has the elements before it.
-/

namespace CitraFlows.Enumeration

variable {S : Set ℤ} {lo t u : ℤ} {first : Option ℤ} {succ : ℤ → Option ℤ} {n : ℕ}

/-- The least element of `S` from `lo` on, when there is one -/
def IsNext (S : Set ℤ) (lo : ℤ) : Option ℤ → Prop
  | some u => IsLeast {v | lo ≤ v ∧ v ∈ S} u
  | none => ∀ v, lo ≤ v → v ∉ S

theorem IsNext.unique {o o' : Option ℤ} (h : IsNext S lo o) (h' : IsNext S lo o') : o = o' := by
  cases o with
  | none =>
    cases o' with
    | none => rfl
    | some u => exact absurd h'.1.2 (h u h'.1.1)
  | some u =>
    cases o' with
    | none => exact absurd h.1.2 (h' u h.1.1)
    | some u' => rw [IsLeast.unique h h']

/-- Where there is an element, there is a least one. -/
theorem IsNext.exists_isLeast {o : Option ℤ} (h : IsNext S lo o) (hlo : lo ≤ t) (ht : t ∈ S) :
    ∃ u, o = some u ∧ IsLeast {v | lo ≤ v ∧ v ∈ S} u := by
  cases o with
  | none => exact absurd ht (h t hlo)
  | some u => exact ⟨u, rfl, h⟩

/-- A bound may be lowered over a stretch without elements. -/
theorem IsNext.lower {hi : ℤ} {o : Option ℤ} (h : IsNext S hi o) (hlo : lo ≤ hi)
    (hgap : ∀ v, lo ≤ v → v < hi → v ∉ S) : IsNext S lo o := by
  have above : ∀ v, lo ≤ v → v ∈ S → hi ≤ v := fun v hv hmem =>
    le_of_not_gt fun hlt => hgap v hv hlt hmem
  cases o with
  | none => exact fun v hv hmem => h v (above v hv hmem) hmem
  | some u => exact ⟨⟨le_trans hlo h.1.1, h.1.2⟩, fun v hv => h.2 ⟨above v hv.1 hv.2, hv.2⟩⟩

/-- The element at a place of the enumeration -/
def nth (first : Option ℤ) (succ : ℤ → Option ℤ) : ℕ → Option ℤ
  | 0 => first
  | n + 1 => (nth first succ n).bind succ

theorem nth_none : nth none succ n = none := by
  induction n with
  | zero => rfl
  | succ n ih => rw [nth, ih, Option.bind_none]

theorem nth_succ_first : nth first succ (n + 1) = nth (first.bind succ) succ n := by
  induction n with
  | zero => rfl
  | succ n ih => rw [nth, ih, nth]

/-- `first` and `succ` run through the elements of `S` from `lo` on. -/
structure Enumerates (S : Set ℤ) (lo : ℤ) (first : Option ℤ) (succ : ℤ → Option ℤ) : Prop where
  first_isNext : IsNext S lo first
  succ_isNext : ∀ t, IsNext S (t + 1) (succ t)

/-- Two elements from `lo` on with nothing between them -/
def Neighbours (S : Set ℤ) (lo t u : ℤ) : Prop :=
  lo ≤ t ∧ t ∈ S ∧ IsNext S (t + 1) (some u)

namespace Enumerates

theorem mem (h : Enumerates S lo first succ) (ht : nth first succ n = some t) :
    lo ≤ t ∧ t ∈ S := by
  induction n generalizing t with
  | zero =>
    have := h.first_isNext
    rw [show first = some t from ht] at this
    exact this.1
  | succ n ih =>
    obtain ⟨s, hs, hst⟩ := Option.bind_eq_some_iff.mp ht
    have next := h.succ_isNext s
    rw [hst] at next
    exact ⟨by linarith [(ih hs).1, next.1.1], next.1.2⟩

/-- Up to any place, the enumeration has met an element or is still below it. -/
theorem met_or_below (h : Enumerates S lo first succ) (hlo : lo ≤ t) (ht : t ∈ S) (k : ℕ) :
    (∃ n, nth first succ n = some t) ∨ ∃ u, nth first succ k = some u ∧ lo + k ≤ u ∧ u < t := by
  induction k with
  | zero =>
    obtain ⟨u, hfirst, least⟩ := h.first_isNext.exists_isLeast hlo ht
    cases lt_or_eq_of_le (least.2 ⟨hlo, ht⟩) with
    | inl hlt => exact Or.inr ⟨u, hfirst, by simpa using least.1.1, hlt⟩
    | inr heq => exact Or.inl ⟨0, by rw [← heq]; exact hfirst⟩
  | succ k ih =>
    cases ih with
    | inl met => exact Or.inl met
    | inr below =>
      obtain ⟨u, hu, hku, hut⟩ := below
      have step : nth first succ (k + 1) = succ u := by rw [nth, hu, Option.bind_some]
      obtain ⟨v, hsucc, least⟩ := (h.succ_isNext u).exists_isLeast hut ht
      cases lt_or_eq_of_le (least.2 ⟨hut, ht⟩) with
      | inl hlt => exact Or.inr ⟨v, step.trans hsucc, by push_cast; linarith [least.1.1], hlt⟩
      | inr heq => exact Or.inl ⟨k + 1, by rw [step, hsucc, heq]⟩

/-- Every element has a place. -/
theorem exists_nth (h : Enumerates S lo first succ) (hlo : lo ≤ t) (ht : t ∈ S) :
    ∃ n, nth first succ n = some t := by
  cases h.met_or_below hlo ht (t - lo).toNat with
  | inl met => exact met
  | inr below =>
    obtain ⟨u, -, hku, hut⟩ := below
    rw [Int.toNat_of_nonneg (by linarith)] at hku
    linarith

theorem neighbours_iff (h : Enumerates S lo first succ) :
    Neighbours S lo t u ↔ ∃ n, nth first succ n = some t ∧ nth first succ (n + 1) = some u := by
  constructor
  · rintro ⟨hlo, ht, next⟩
    obtain ⟨n, hn⟩ := h.exists_nth hlo ht
    refine ⟨n, hn, ?_⟩
    rw [nth, hn, Option.bind_some]
    exact (h.succ_isNext t).unique next
  · rintro ⟨n, hn, hn'⟩
    rw [nth, hn, Option.bind_some] at hn'
    obtain ⟨hlo, ht⟩ := h.mem hn
    exact ⟨hlo, ht, hn' ▸ h.succ_isNext t⟩

/-- An element with another one after it is followed by one no later than that. -/
theorem exists_pair (h : Enumerates S lo first succ) (hlo : lo ≤ t) (ht : t ∈ S) (hu : u ∈ S)
    (htu : t < u) :
    ∃ n v, nth first succ n = some t ∧ nth first succ (n + 1) = some v ∧ v ≤ u := by
  obtain ⟨n, hn⟩ := h.exists_nth hlo ht
  obtain ⟨v, hsucc, least⟩ := (h.succ_isNext t).exists_isLeast htu hu
  exact ⟨n, v, hn, by rw [nth, hn, Option.bind_some, hsucc], least.2 ⟨htu, hu⟩⟩

/-- The place of an element is bounded by the number of elements before it. -/
theorem place_le (h : Enumerates S lo first succ) (ht : nth first succ n = some t)
    (before : Finset ℤ) (hbefore : ∀ v, lo ≤ v → v < t → v ∈ S → v ∈ before) :
    n ≤ before.card := by
  induction n generalizing t before with
  | zero => exact Nat.zero_le _
  | succ n ih =>
    obtain ⟨s, hs, hst⟩ := Option.bind_eq_some_iff.mp ht
    have next := h.succ_isNext s
    rw [hst] at next
    have hlt : s < t := by linarith [next.1.1]
    obtain ⟨hlo, hmem⟩ := h.mem hs
    have hsbefore := hbefore s hlo hlt hmem
    -- the elements before `s` are those before `t` without `s`
    have fewer := ih hs (before.erase s) fun v hv hvs hvS =>
      Finset.mem_erase.mpr ⟨hvs.ne, hbefore v hv (hvs.trans hlt) hvS⟩
    rw [Finset.card_erase_of_mem hsbefore] at fewer
    have := Finset.card_pos.mpr ⟨s, hsbefore⟩
    omega

/-- An element in place `n` has `n` elements before it. -/
theorem exists_before (h : Enumerates S lo first succ) (ht : nth first succ n = some t) :
    ∃ before : Finset ℤ, before.card ≤ n ∧ ∀ v, lo ≤ v → v < t → v ∈ S → v ∈ before := by
  induction n generalizing t with
  | zero =>
    have next := h.first_isNext
    rw [show first = some t from ht] at next
    exact ⟨∅, le_rfl, fun v hv hvt hmem => absurd hvt (not_lt.mpr (next.2 ⟨hv, hmem⟩))⟩
  | succ n ih =>
    obtain ⟨s, hs, hst⟩ := Option.bind_eq_some_iff.mp ht
    obtain ⟨before, hcard, hbefore⟩ := ih hs
    have next := h.succ_isNext s
    rw [hst] at next
    refine ⟨insert s before, (Finset.card_insert_le s before).trans (Nat.succ_le_succ hcard), ?_⟩
    intro v hv hvt hmem
    rcases lt_trichotomy v s with hlt | heq | hgt
    · exact Finset.mem_insert_of_mem (hbefore v hv hlt hmem)
    · exact heq ▸ Finset.mem_insert_self v before
    · exact absurd hvt (not_lt.mpr (next.2 ⟨hgt, hmem⟩))

end Enumerates

end CitraFlows.Enumeration
