-- SUMMARY: What the moves of a run spend, and a potential that pays for it.
import CitraFlows.Lib.Noninterference

/-!
# Potentials

Some moves of a run spend something: a retry, an attempt, a credit. `spent` adds it up along the
run. A potential pays for a move if it falls by at least what the move spends; then a whole run
spends no more than the potential it begins with (`Run.spent_le`), in whatever order the processes
take their steps.
-/

namespace Processes.System

variable {G L ι α ε : Type} {S : System G L ι α ε}
  {ok : Configuration G L → Move ι α ε → Prop} {spends : Configuration G L → Move ι α ε → Nat}
  {c d e : Configuration G L} {m : Move ι α ε} {ms ms' : List (Move ι α ε)}

/-! ## Runs -/

theorem Run.append (h : S.Run ok c ms d) (h' : S.Run ok d ms' e) : S.Run ok c (ms ++ ms') e := by
  induction h with
  | nil c => exact h'
  | cons hok hm _ ih => exact .cons hok hm (ih h')

/-- What is played is a run. -/
theorem run_of_play [∀ c m, Decidable (ok c m)] (h : S.play ok ms c = some d) :
    S.Run ok c ms d := by
  induction ms generalizing c with
  | nil =>
      cases h
      exact .nil _
  | cons m ms ih =>
      simp only [play] at h
      split at h
      next hok =>
        obtain ⟨c', hm, hplay⟩ := Option.bind_eq_some_iff.mp h
        exact .cons hok hm (ih hplay)
      next => cases h

/-- A run that begins with a step of process `i`. -/
theorem Run.step_inv {i : Nat} {a : α} (h : S.Run ok c (.step i a :: ms) e) :
    ∃ l g l', c.proc i = some l ∧ S.step i a c.shared l = some (g, l') ∧
      S.Run ok ⟨g, c.procs.set i (some l')⟩ ms e := by
  cases h with
  | cons hok hm hrun =>
      obtain ⟨l, hl, hm⟩ := Option.bind_eq_some_iff.mp hm
      obtain ⟨⟨g, l'⟩, hstep, rfl⟩ := Option.map_eq_some_iff.mp hm
      exact ⟨l, g, l', hl, hstep, hrun⟩

/-! ## Spending -/

/-- What the moves of a run spend together. -/
def spent (S : System G L ι α ε) (spends : Configuration G L → Move ι α ε → Nat) :
    Configuration G L → List (Move ι α ε) → Nat
  | _, [] => 0
  | c, m :: ms => spends c m + ((S.apply c m).map fun d => S.spent spends d ms).getD 0

@[simp] theorem spent_nil (c : Configuration G L) : S.spent spends c [] = 0 := rfl

theorem spent_cons (hm : S.apply c m = some d) :
    S.spent spends c (m :: ms) = spends c m + S.spent spends d ms := by
  rw [spent, hm]
  rfl

theorem Run.spent_append (h : S.Run ok c ms d) :
    S.spent spends c (ms ++ ms') = S.spent spends c ms + S.spent spends d ms' := by
  induction h with
  | nil c => simp
  | cons _ hm _ ih => rw [List.cons_append, spent_cons hm, spent_cons hm, ih, Nat.add_assoc]

/-- While `J` holds, the potential falls by at least what a move spends. -/
structure Pays (S : System G L ι α ε) (ok : Configuration G L → Move ι α ε → Prop)
    (J : Configuration G L → Prop) (spends : Configuration G L → Move ι α ε → Nat)
    (potential : Configuration G L → Int) : Prop where
  keeps : ∀ {c d m}, J c → ok c m → S.apply c m = some d → J d
  pays : ∀ {c d m}, J c → ok c m → S.apply c m = some d → spends c m + potential d ≤ potential c

variable {J : Configuration G L → Prop} {potential : Configuration G L → Int}

/-- A run spends what the potential loses, at most. -/
theorem Run.spent_le (hpays : S.Pays ok J spends potential) (hc : J c) (h : S.Run ok c ms d) :
    J d ∧ S.spent spends c ms + potential d ≤ potential c := by
  induction h with
  | nil c => exact ⟨hc, by simp⟩
  | cons hok hm _ ih =>
      obtain ⟨hd, hrest⟩ := ih (hpays.keeps hc hok hm)
      have hfirst := hpays.pays hc hok hm
      refine ⟨hd, ?_⟩
      rw [spent_cons hm]
      push_cast
      omega

end Processes.System
