-- SUMMARY: Trimming lists at both ends: what is left has no blank there, and is all there is to a list between blanks.
import Mathlib.Data.List.Basic
import Mathlib.Data.List.TakeWhile

/-!
# Trimming

`trim` takes the blanks off both ends of a list, as the trimming of texts does in every
language, whatever counts as blank there. A trimmed list is one it leaves alone.
-/

namespace CitraFlows.Trimming

variable {α : Type*}

def trim (blank : α → Bool) (xs : List α) : List α :=
  ((xs.dropWhile blank).reverse.dropWhile blank).reverse

/-- No blank stands at either end. -/
structure Trimmed (blank : α → Bool) (xs : List α) : Prop where
  head : ∀ x ∈ xs.head?, blank x = false
  last : ∀ x ∈ xs.getLast?, blank x = false

variable {blank : α → Bool} {xs ys lead trail : List α}

theorem dropWhile_eq_self (h : ∀ x ∈ xs.head?, blank x = false) : xs.dropWhile blank = xs := by
  cases xs with
  | nil => rfl
  | cons x xs => exact List.dropWhile_cons_of_neg (by simp [h x rfl])

theorem head_dropWhile : ∀ x ∈ (xs.dropWhile blank).head?, blank x = false := by
  intro x hx
  have := List.head?_dropWhile_not blank xs
  rw [Option.mem_def.mp hx] at this
  simpa using this

namespace Trimmed

theorem nil : Trimmed blank [] where
  head _ h := by cases h
  last _ h := by cases h

theorem reverse (h : Trimmed blank xs) : Trimmed blank xs.reverse where
  head x hx := h.last x (by rwa [List.head?_reverse] at hx)
  last x hx := h.head x (by rwa [List.getLast?_reverse] at hx)

theorem trim_eq (h : Trimmed blank xs) : trim blank xs = xs := by
  rw [trim, dropWhile_eq_self h.head, dropWhile_eq_self h.reverse.head, List.reverse_reverse]

/-- The ends of a list are those of its first and last part. -/
theorem between (hxs : Trimmed blank xs) (hys : Trimmed blank ys) (hx : xs ≠ []) (hy : ys ≠ [])
    (mid : List α) : Trimmed blank (xs ++ mid ++ ys) where
  head x h := hxs.head x (by rwa [List.append_assoc, List.head?_append_of_ne_nil _ hx] at h)
  last x h := hys.last x (by rwa [List.getLast?_append_of_ne_nil _ hy] at h)

theorem intercalate {parts : List (List α)} (h : ∀ part ∈ parts, part ≠ [] ∧ Trimmed blank part)
    (sep : List α) :
    Trimmed blank (sep.intercalate parts) ∧ (parts ≠ [] → sep.intercalate parts ≠ []) := by
  induction parts with
  | nil => exact ⟨by simpa using nil, fun hne => absurd rfl hne⟩
  | cons first rest ih =>
    obtain ⟨hne, hfirst⟩ := h first (by simp)
    have hrest := ih fun part hpart => h part (by simp [hpart])
    cases rest with
    | nil => simpa using ⟨hfirst, hne⟩
    | cons second rest =>
      rw [List.intercalate_cons_cons]
      exact ⟨hfirst.between hrest.1 hne (hrest.2 (by simp)) sep, fun _ => by simp [hne]⟩

end Trimmed

theorem trimmed_trim : Trimmed blank (trim blank xs) := by
  have hlast : Trimmed blank (trim blank xs).reverse := by
    rw [trim, List.reverse_reverse]
    refine ⟨head_dropWhile, fun x hx => ?_⟩
    -- what is left of the reversed list ends where the list starts
    have hhead : ∀ x ∈ (xs.dropWhile blank).head?, blank x = false := head_dropWhile
    refine hhead x ?_
    obtain ⟨before, hbefore⟩ := List.dropWhile_suffix (l := (xs.dropWhile blank).reverse) blank
    rw [← List.getLast?_reverse, ← hbefore, List.getLast?_append, Option.mem_def.mp hx]
    rfl
  simpa using hlast.reverse

theorem trim_trim : trim blank (trim blank xs) = trim blank xs :=
  trimmed_trim.trim_eq

/-- A change that keeps the blanks apart from the rest goes through. -/
theorem trim_map {f : α → α} (h : ∀ x, blank (f x) = blank x) :
    trim blank (xs.map f) = (trim blank xs).map f := by
  have hcomp : blank ∘ f = blank := funext h
  rw [trim, trim, List.dropWhile_map, hcomp, ← List.map_reverse, List.dropWhile_map, hcomp,
    ← List.map_reverse]

/-! ## Lists between blanks -/

theorem trim_blank_append (h : ∀ x ∈ lead, blank x = true) :
    trim blank (lead ++ xs) = trim blank xs := by
  rw [trim, List.dropWhile_append_of_pos h, trim]

theorem trim_append_blank (h : ∀ x ∈ trail, blank x = true) :
    trim blank (xs ++ trail) = trim blank xs := by
  have hreverse : ∀ x ∈ trail.reverse, blank x = true := fun x hx => h x (List.mem_reverse.mp hx)
  rw [trim, trim, List.dropWhile_append]
  split_ifs with hempty
  · rw [List.isEmpty_iff.mp hempty, List.dropWhile_eq_nil_iff.mpr h]
  · rw [List.reverse_append, List.dropWhile_append_of_pos hreverse]

theorem trim_eq_nil (h : ∀ x ∈ xs, blank x = true) : trim blank xs = [] := by
  have hnil : trim blank ([] ++ xs) = trim blank [] := trim_append_blank h
  simpa [trim] using hnil

end CitraFlows.Trimming
