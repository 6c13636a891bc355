-- SUMMARY: Overlapping windows over a list: they are bounded, and all but the overlaps of them is the list again.
import Mathlib.Data.List.Basic

/-!
# Overlapping windows

A window of a fixed size moves over a list in steps that are shorter than itself, until it
starts past the end. Taking the overlap off every window but the first leaves the list.
-/

namespace CitraFlows.Windows

/-- A window moves on, because the overlap is shorter than it. -/
structure Frame where
  size : ℕ
  overlap : ℕ
  overlap_lt : overlap < size

variable {α : Type*} {xs window : List α} {start : ℕ}

/-- The windows from `start` on -/
def windowsFrom (f : Frame) (xs : List α) (start : ℕ) : List (List α) :=
  if start < xs.length then
    (xs.drop start).take f.size :: windowsFrom f xs (start + (f.size - f.overlap))
  else []
termination_by xs.length - start
decreasing_by
  have := f.overlap_lt
  omega

/-- The windows without what they share with the ones before -/
def recover (overlap : ℕ) : List (List α) → List α
  | [] => []
  | first :: rest => first ++ rest.flatMap (List.drop overlap)

variable {f : Frame}

theorem windowsFrom_of_lt (h : start < xs.length) :
    windowsFrom f xs start =
      (xs.drop start).take f.size :: windowsFrom f xs (start + (f.size - f.overlap)) := by
  rw [windowsFrom, if_pos h]

theorem windowsFrom_of_le (h : xs.length ≤ start) : windowsFrom f xs start = [] := by
  rw [windowsFrom, if_neg (Nat.not_lt.mpr h)]

theorem windowsFrom_bounded (h : window ∈ windowsFrom f xs start) :
    window ≠ [] ∧ window.length ≤ f.size := by
  induction start using windowsFrom.induct f xs with
  | case1 start hlt ih =>
    rw [windowsFrom_of_lt hlt] at h
    cases List.mem_cons.mp h with
    | inl first =>
      have hsize := f.overlap_lt
      rw [first, ← List.length_pos_iff, List.length_take, List.length_drop]
      omega
    | inr later => exact ih later
  | case2 start hge =>
    rw [windowsFrom_of_le (Nat.not_lt.mp hge)] at h
    cases h

/-- What the windows add to the overlap of the first one is the rest of the list. -/
theorem flatMap_drop_windowsFrom :
    (windowsFrom f xs start).flatMap (List.drop f.overlap) = xs.drop (start + f.overlap) := by
  induction start using windowsFrom.induct f xs with
  | case1 start hlt ih =>
    have hstep : xs.drop (start + (f.size - f.overlap) + f.overlap) =
        (xs.drop (start + f.overlap)).drop (f.size - f.overlap) := by
      rw [List.drop_drop, Nat.add_right_comm]
    rw [windowsFrom_of_lt hlt, List.flatMap_cons, ih, hstep, List.drop_take, List.drop_drop,
      List.take_append_drop]
  | case2 start hge =>
    rw [windowsFrom_of_le (Nat.not_lt.mp hge), List.flatMap_nil, List.drop_eq_nil_of_le]
    omega

theorem recover_windowsFrom : recover f.overlap (windowsFrom f xs 0) = xs := by
  cases xs with
  | nil =>
    rw [windowsFrom_of_le (Nat.zero_le _)]
    rfl
  | cons x xs =>
    have hsize : 0 + (f.size - f.overlap) + f.overlap = f.size := by
      have := f.overlap_lt
      omega
    rw [windowsFrom_of_lt (Nat.succ_pos _), recover, flatMap_drop_windowsFrom, hsize,
      List.drop_zero, List.take_append_drop]

end CitraFlows.Windows
