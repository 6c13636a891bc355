-- SUMMARY: Programs whose commands may raise: try and finally, and rules for how such a program may end.
import CitraFlows.Lib.Interleaving

/-!
# Programs that may raise

A `Raising` program ends with a result or an exception. `attempt` is the `try` of Python, the
handlers being a case analysis on what it gives; `tryFinally` runs a program whatever happens.

`Finishes R Q p` says how the program may end if the commands answer as `R` admits, and `Raises R E p`
which exceptions it may raise; the rules follow the structure of the program.
-/

namespace Interleaving

abbrev Raising (κ : Type) (ρ : κ → Type) (ε : Type) := ExceptT ε (Prog κ ρ)

variable {κ ε α β : Type} {ρ : κ → Type}

namespace Raising

/-- A command that answers with a value or an exception. -/
def perform {ρ : κ → Type} (c : κ) : Raising κ (fun c => Except ε (ρ c)) ε (ρ c) :=
  ExceptT.mk (Prog.perform c)

def raise (e : ε) : Raising κ ρ ε α := ExceptT.mk (pure (.error e))

/-- How the program ends, as a value. -/
def attempt (p : Raising κ ρ ε α) : Raising κ ρ ε (Except ε α) :=
  ExceptT.mk (p.run >>= fun r => pure (.ok r))

/-- `try: p finally: q`. An exception of `q` takes the place of how `p` ended. -/
def tryFinally (p : Raising κ ρ ε α) (q : Raising κ ρ ε Unit) : Raising κ ρ ε α := do
  let r ← attempt p
  q
  match r with
  | .ok a => return a
  | .error e => raise e

/-- `for x in xs: …` -/
def forEach : List α → (α → Raising κ ρ ε Unit) → Raising κ ρ ε Unit
  | [], _ => pure ()
  | x :: xs, f => do
      f x
      forEach xs f

/-- Along answers in `R` the program ends in `Q`. -/
def Finishes (R : (c : κ) → ρ c → Prop) (Q : Except ε α → Prop) (p : Raising κ ρ ε α) : Prop :=
  p.run.Along (fun _ => True) R Q

/-- Along answers in `R` the program raises nothing but exceptions in `E`. -/
def Raises (R : (c : κ) → ρ c → Prop) (E : ε → Prop) (p : Raising κ ρ ε α) : Prop :=
  Finishes R (fun r => ∀ e, r = .error e → E e) p

section
variable {R : (c : κ) → ρ c → Prop} {E : ε → Prop} {Q : Except ε α → Prop} {Q' : Except ε β → Prop}

theorem Finishes.ret {a : α} (h : Q (.ok a)) : Finishes R Q (pure a : Raising κ ρ ε α) := h

theorem Finishes.mono {Q' : Except ε α → Prop} {p : Raising κ ρ ε α} (h : Finishes R Q p)
    (hQ : ∀ r, Q r → Q' r) : Finishes R Q' p :=
  Prog.Along.mono h hQ

/-- The rest is run unless an exception was raised. -/
theorem Finishes.bind {p : Raising κ ρ ε α} {f : α → Raising κ ρ ε β} (h : Finishes R Q p)
    (hf : ∀ a, Q (.ok a) → Finishes R Q' (f a)) (he : ∀ e, Q (.error e) → Q' (.error e)) :
    Finishes R Q' (p >>= f) := by
  refine Prog.Along.bind h fun r hr => ?_
  cases r with
  | ok a => exact hf a hr
  | error e => exact he e hr

theorem Finishes.perform {ρ : κ → Type} {R : (c : κ) → Except ε (ρ c) → Prop} {c : κ}
    {Q : Except ε (ρ c) → Prop} (h : ∀ r, R c r → Q r) : Finishes R Q (Raising.perform c) :=
  ⟨trivial, h⟩

/-- What handles the end of a program decides. -/
theorem Finishes.attempt_bind {p : Raising κ ρ ε α} {f : Except ε α → Raising κ ρ ε β}
    (h : Finishes R Q p) (hf : ∀ r, Q r → Finishes R Q' (f r)) : Finishes R Q' (Raising.attempt p >>= f) := by
  have hattempt : Finishes R (fun r => ∃ a, r = .ok a ∧ Q a) (Raising.attempt p) :=
    Prog.Along.bind h fun r hr => ⟨r, rfl, hr⟩
  refine hattempt.bind (fun r hr => ?_) fun e he => ?_
  · obtain ⟨a, ha, hr⟩ := hr
    cases ha
    exact hf r hr
  · obtain ⟨a, ha, -⟩ := he
    cases ha

theorem Raises.ret (a : α) : Raises R E (pure a : Raising κ ρ ε α) := by
  intro e he
  cases he

theorem Raises.raise {e : ε} (h : E e) : Raises R E (Raising.raise e : Raising κ ρ ε α) := by
  intro e' he
  cases he
  exact h

theorem Raises.mono {E' : ε → Prop} {p : Raising κ ρ ε α} (h : Raises R E p)
    (hE : ∀ e, E e → E' e) : Raises R E' p :=
  Finishes.mono h fun _ hr e he => hE e (hr e he)

theorem Raises.bind {p : Raising κ ρ ε α} {f : α → Raising κ ρ ε β} (h : Raises R E p)
    (hf : ∀ a, Raises R E (f a)) : Raises R E (p >>= f) := by
  refine Finishes.bind h (fun a _ => hf a) fun e he e' heq => ?_
  cases heq
  exact he e rfl

/-- After a program that raises nothing, the rest is run. -/
theorem Finishes.of_quiet {p : Raising κ ρ ε α} {f : α → Raising κ ρ ε β}
    (h : Raises R (fun _ => False) p) (hf : ∀ a, Finishes R Q' (f a)) : Finishes R Q' (p >>= f) :=
  Finishes.bind h (fun a _ => hf a) fun e he => (he e rfl).elim

/-- An exception raised, in the program or in `finally`, is one of theirs. -/
theorem Raises.tryFinally {p : Raising κ ρ ε α} {q : Raising κ ρ ε Unit} (hp : Raises R E p)
    (hq : Raises R E q) : Raises R E (Raising.tryFinally p q) := by
  refine Finishes.attempt_bind hp fun r hr => hq.bind fun _ => ?_
  cases r with
  | ok a => exact Raises.ret a
  | error e => exact Raises.raise (hr e rfl)

theorem Raises.forEach {xs : List α} {f : α → Raising κ ρ ε Unit}
    (hf : ∀ x ∈ xs, Raises R E (f x)) : Raises R E (Raising.forEach xs f) := by
  induction xs with
  | nil => exact Raises.ret ()
  | cons x xs ih =>
      exact (hf x List.mem_cons_self).bind fun _ => ih fun y hy => hf y (List.mem_cons_of_mem _ hy)

end

end Raising

end Interleaving
