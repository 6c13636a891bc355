-- SUMMARY: Splitting a list at its separators: its parts are the longest stretches without one.
import Mathlib.Data.List.Basic

/-!
# Splitting lists

`splitOnP` cuts a list at the elements that separate. A stretch of the list is one of its parts if
and only if it has no separator in it, and one at each end that is not an end of the list.
-/

namespace CitraFlows.Splitting

variable {α : Type*} {separates : α → Bool} {xs part : List α}

/-- A stretch that is a part: there is no separator in it, and what surrounds it starts and ends
with one. -/
structure PartOf (separates : α → Bool) (part xs : List α) : Prop where
  inside : ∀ x ∈ part, separates x = false
  around : ∃ before after, xs = before ++ part ++ after ∧
    (∀ x ∈ before.getLast?, separates x = true) ∧ ∀ x ∈ after.head?, separates x = true

theorem exists_separator (h : ¬ ∀ x ∈ xs, separates x = false) :
    ∃ lead sep rest, xs = lead ++ sep :: rest ∧ (∀ x ∈ lead, separates x = false) ∧
      separates sep = true := by
  induction xs with
  | nil => simp at h
  | cons x xs ih =>
    cases hx : separates x with
    | true => exact ⟨[], x, xs, rfl, by simp, hx⟩
    | false =>
      have hxs : ¬ ∀ x ∈ xs, separates x = false := fun hall =>
        h (List.forall_mem_cons.mpr ⟨hx, hall⟩)
      obtain ⟨lead, sep, rest, rfl, hlead, hsep⟩ := ih hxs
      exact ⟨x :: lead, sep, rest, rfl, List.forall_mem_cons.mpr ⟨hx, hlead⟩, hsep⟩

theorem partOf_of_mem (h : part ∈ xs.splitOnP separates) : PartOf separates part xs := by
  induction hn : xs.length using Nat.strongRecOn generalizing xs with
  | _ n ih =>
    by_cases hxs : ∀ x ∈ xs, separates x = false
    · rw [List.splitOnP_eq_singleton hxs, List.mem_singleton] at h
      subst h
      exact ⟨hxs, [], [], by simp, by simp, by simp⟩
    · obtain ⟨lead, sep, rest, rfl, hlead, hsep⟩ := exists_separator hxs
      rw [List.splitOnP_append_cons_of_forall_mem hlead sep hsep, List.mem_cons] at h
      rcases h with rfl | h
      · exact ⟨hlead, [], sep :: rest, rfl, by simp, by simpa using hsep⟩
      · obtain ⟨hinside, before, after, rfl, hbefore, hafter⟩ :=
          ih rest.length (by simp [← hn]; omega) h rfl
        refine ⟨hinside, lead ++ sep :: before, after, by simp, fun x hx => ?_, hafter⟩
        -- what is before the part now ends as it did, or with the separator
        cases before with
        | nil =>
          obtain rfl : sep = x := by simpa using hx
          exact hsep
        | cons y before =>
          refine hbefore x ?_
          rwa [List.getLast?_append_of_ne_nil _ (List.cons_ne_nil _ _),
            List.getLast?_cons_cons] at hx

theorem PartOf.mem (h : PartOf separates part xs) : part ∈ xs.splitOnP separates := by
  obtain ⟨hinside, before, after, rfl, hbefore, hafter⟩ := h
  have hpart : part ∈ (part ++ after).splitOnP separates := by
    cases after with
    | nil => simp [List.splitOnP_eq_singleton hinside]
    | cons sep after =>
      rw [List.splitOnP_append_cons_of_forall_mem hinside sep (hafter sep rfl)]
      exact List.mem_cons_self
  rcases List.eq_nil_or_concat before with rfl | ⟨before, sep, rfl⟩
  · simpa using hpart
  · have hsep : separates sep = true := hbefore sep (by simp)
    rw [List.concat_eq_append, List.append_assoc, List.append_assoc, List.singleton_append,
      List.splitOnP_append_cons _ _ hsep]
    exact List.mem_append_right _ hpart

theorem mem_splitOnP_iff : part ∈ xs.splitOnP separates ↔ PartOf separates part xs :=
  ⟨partOf_of_mem, PartOf.mem⟩

end CitraFlows.Splitting
