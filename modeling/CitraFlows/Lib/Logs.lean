-- SUMMARY: Logs: what holds of every event together with the events before it.
import Mathlib.Data.List.Basic

/-!
# Logs

A log lists what has happened, the latest event last. A property of an event may speak of what came
before it.
-/

namespace Logs

variable {ε : Type*} {P Q : List ε → ε → Prop} {log : List ε} {e : ε}

/-- `P` holds of every event and the log before it. -/
def Always (P : List ε → ε → Prop) (log : List ε) : Prop :=
  ∀ before e after, log = before ++ e :: after → P before e

theorem Always.nil : Always P ([] : List ε) := by
  intro before e after h
  cases before <;> cases h

/-- One more event. -/
theorem Always.concat (h : Always P log) (he : P log e) : Always P (log ++ [e]) := by
  intro before e' after hsplit
  rcases List.eq_nil_or_concat after with rfl | ⟨after', last, rfl⟩
  · obtain ⟨rfl, hlast⟩ := List.append_inj' hsplit rfl
    cases hlast
    exact he
  · have hlog : log ++ [e] = (before ++ e' :: after') ++ [last] := by simpa using hsplit
    exact h before e' after' (List.append_inj' hlog rfl).1

/-- More events of which `P` holds whatever came before. -/
theorem Always.append (h : Always P log) {events : List ε}
    (hevents : ∀ e ∈ events, ∀ before, P before e) : Always P (log ++ events) := by
  induction events generalizing log with
  | nil => simpa using h
  | cons e events ih =>
      have hone : Always P (log ++ [e]) := h.concat (hevents e (by simp) log)
      simpa using ih hone fun e' he' => hevents e' (List.mem_cons_of_mem _ he')

theorem Always.mono (h : Always P log) (hPQ : ∀ before e, P before e → Q before e) :
    Always Q log :=
  fun before e after hsplit => hPQ before e (h before e after hsplit)

end Logs
