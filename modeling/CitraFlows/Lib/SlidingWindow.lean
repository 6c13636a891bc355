-- SUMMARY: Logs of times in a sliding window: pruning loses nothing later windows need, and a capped log is capped in every window.
import Mathlib.Algebra.Order.Group.Defs
import Mathlib.Data.List.Induction
import Mathlib.Order.Lattice
import Mathlib.Tactic.Linarith

/-!
# Sliding windows

A log holds the times at which something was admitted, oldest first. Its recent part at
a moment is what lies less than a window's length before. Pruning a log to its recent
part changes no later recent part. A log whose every entry found less than a limit of
recent ones before it has at most that many in any stretch of the window's length.
-/

namespace CitraFlows.SlidingWindow

variable {α : Type*} [AddCommGroup α] [LinearOrder α]
variable {window now later t : α} {log : List α} {limit : ℤ}

/-- The entries less than `window` before `now` -/
def recent (window now : α) (log : List α) : List α :=
  log.filter fun t => now - t < window

@[simp] theorem recent_append (log' : List α) :
    recent window now (log ++ log') = recent window now log ++ recent window now log' :=
  List.filter_append ..

section Order

variable [IsOrderedAddMonoid α]

/-- What is recent later was recent before. -/
theorem recent_recent (h : now ≤ later) :
    recent window later (recent window now log) = recent window later log := by
  rw [recent, recent, List.filter_filter]
  refine List.filter_congr fun t _ => ?_
  have kept : later - t < window → now - t < window := lt_of_le_of_lt (sub_le_sub_right h t)
  simpa using kept

/-- Up to `now`, the recent entries are those after `now - window`. -/
theorem length_recent (h : ∀ t ∈ log, t ≤ now) :
    (recent window now log).length = log.countP fun t => now - window < t ∧ t ≤ now := by
  rw [recent, ← List.countP_eq_length_filter]
  refine List.countP_congr fun t ht => ?_
  simp [sub_lt_comm, h t ht]

/-- Two times of a stretch are less than `window` apart. -/
def Narrow (window : α) (stretch : α → Bool) : Prop :=
  ∀ t u, stretch t = true → stretch u = true → u - t < window

theorem narrow_Ioc (s : α) : Narrow window fun t => s < t ∧ t ≤ s + window := by
  intro t u ht hu
  simp only [decide_eq_true_eq] at ht hu
  calc u - t < u - s := sub_lt_sub_left ht.1 u
    _ ≤ window := sub_le_iff_le_add'.mpr hu.2

theorem narrow_Ico (s : α) : Narrow window fun t => s ≤ t ∧ t < s + window := by
  intro t u ht hu
  simp only [decide_eq_true_eq] at ht hu
  calc u - t ≤ u - s := sub_le_sub_left ht.1 u
    _ < window := sub_lt_iff_lt_add'.mpr hu.2

end Order

/-- A split of a list at one of its elements is a split at the last one or before it. -/
theorem split_concat {β : Type*} {l before after : List β} {x y : β}
    (h : l ++ [x] = before ++ y :: after) :
    (before = l ∧ y = x) ∨ ∃ after', l = before ++ y :: after' := by
  cases List.eq_nil_or_concat after with
  | inl hnil =>
    subst hnil
    obtain ⟨hl, hx⟩ := List.append_inj' h rfl
    exact Or.inl ⟨hl.symm, (List.singleton_inj.mp hx).symm⟩
  | inr hconcat =>
    obtain ⟨after', z, rfl⟩ := hconcat
    rw [List.concat_eq_append, ← List.cons_append, ← List.append_assoc] at h
    exact Or.inr ⟨after', (List.append_inj' h rfl).1⟩

/-! ## Capped logs -/

/-- Every entry of an ordered log found fewer than `limit` recent ones before it. -/
structure Capped (limit : ℤ) (window : α) (log : List α) : Prop where
  ordered : log.Pairwise (· ≤ ·)
  fewer : ∀ before t after, log = before ++ t :: after →
    ((recent window t before).length : ℤ) < limit

namespace Capped

theorem nil : Capped limit window [] where
  ordered := List.Pairwise.nil
  fewer before t after h := by simp at h

theorem of_append {log' : List α} (h : Capped limit window (log ++ log')) :
    Capped limit window log where
  ordered := (List.pairwise_append.mp h.ordered).1
  fewer before t after heq := h.fewer before t (after ++ log') (by simp [heq])

theorem concat (h : Capped limit window log) (hlast : ∀ u ∈ log, u ≤ t)
    (hfewer : ((recent window t log).length : ℤ) < limit) :
    Capped limit window (log ++ [t]) where
  ordered := List.pairwise_append.mpr ⟨h.ordered, List.pairwise_singleton _ _, by simpa using hlast⟩
  fewer before u after heq := by
    cases split_concat heq with
    | inl last =>
      obtain ⟨rfl, rfl⟩ := last
      exact hfewer
    | inr earlier =>
      obtain ⟨after', heq⟩ := earlier
      exact h.fewer before u after' heq

/-- The last entry of a stretch counts all others of it among its recent ones. -/
theorem countP_le (h : Capped limit window log) {stretch : α → Bool}
    (hnarrow : Narrow window stretch) : (log.countP stretch : ℤ) ≤ max limit 0 := by
  induction log using List.reverseRecOn with
  | nil => simp
  | append_singleton log t ih =>
    rw [List.countP_append, List.countP_singleton]
    cases ht : stretch t with
    | false => simpa using ih h.of_append
    | true =>
      have inside : log.countP stretch ≤ (recent window t log).length := by
        rw [recent, ← List.countP_eq_length_filter]
        refine List.countP_mono_left fun u _ hu => ?_
        simpa using hnarrow u t hu ht
      have fewer := h.fewer log t [] rfl
      have : (log.countP stretch : ℤ) + 1 ≤ limit := by omega
      simpa using Or.inl this

end Capped

end CitraFlows.SlidingWindow
