-- SUMMARY: Programs over a shared state that interleave command by command, may crash between any two commands, and are verified one by one.
import Mathlib.Logic.Function.Basic
import Mathlib.Data.Finset.Basic

/-!
# Interleaved programs

A `Prog` is a tree of commands: each command is answered, and the answer selects the rest
of the program. A `Pool` runs any number of programs over one shared state, one command of
one program at a time; programs start at any time, any set of them may crash between two
commands, and the shared state may drift by itself (time passes).

Programs are verified one at a time against a `Discipline`: an invariant of the shared
state, and a preorder in which every step moves it. A program is `Safe` in a state when each
of its commands keeps the invariant and moves along the preorder, even if other programs
have moved the state along it before. `Reachable.sound` puts the programs together.
-/

namespace Interleaving

/-! ## Programs -/

/-- A program: done with a result, or a command whose answer selects the rest. -/
inductive Prog (κ : Type) (ρ : κ → Type) (α : Type) where
  | ret (a : α)
  | call (c : κ) (k : ρ c → Prog κ ρ α)

variable {σ κ ω α β : Type} {ρ : κ → Type}

namespace Prog

def bind : Prog κ ρ α → (α → Prog κ ρ β) → Prog κ ρ β
  | .ret a, f => f a
  | .call c k, f => .call c fun r => (k r).bind f

instance : Monad (Prog κ ρ) where
  pure := .ret
  bind := bind

/-- One command. -/
def perform (c : κ) : Prog κ ρ (ρ c) := .call c .ret

/-- `for x in xs: …` -/
def forEach : List α → (α → Prog κ ρ Unit) → Prog κ ρ Unit
  | [], _ => .ret ()
  | x :: xs, f => (f x).bind fun _ => forEach xs f

end Prog

/-- The program after so many commands, whose answers are given in order. -/
def Prog.follow (answers : Nat → (c : κ) → ρ c) : Nat → Prog κ ρ α → Prog κ ρ α
  | n + 1, .call c k => (k (answers 0 c)).follow (fun i => answers (i + 1)) n
  | _, p => p

/-- A program comes to its end, whatever the answers are. -/
theorem Prog.follow_ends (p : Prog κ ρ α) (answers : Nat → (c : κ) → ρ c) :
    ∃ n a, p.follow answers n = .ret a := by
  induction p generalizing answers with
  | ret a => exact ⟨0, a, rfl⟩
  | call c k ih =>
      obtain ⟨n, a, h⟩ := ih (answers 0 c) fun i => answers (i + 1)
      exact ⟨n + 1, a, h⟩

/-- What the commands do. `ω` is what the program does not decide: the outcome of a call
outside, a random delay. -/
structure World (σ κ : Type) (ρ : κ → Type) (ω : Type) where
  run : (c : κ) → ω → σ → ρ c × σ

/-- Run as many commands of a program as there are outcomes. -/
def World.play (W : World σ κ ρ ω) : List ω → Prog κ ρ α → σ → Prog κ ρ α × σ
  | w :: ws, .call c k, s => W.play ws (k (W.run c w s).1) (W.run c w s).2
  | _, p, s => (p, s)

/-! ## Safe programs -/

/-- An invariant of the shared state, and a preorder in which every step moves it. -/
structure Discipline (σ : Type) where
  inv : σ → Prop
  grows : σ → σ → Prop
  refl : ∀ s, grows s s
  trans : ∀ {s₁ s₂ s₃}, grows s₁ s₂ → grows s₂ s₃ → grows s₁ s₃

/-- The assertion stays true when other programs move the state. -/
def Discipline.Stable (D : Discipline σ) (P : σ → Prop) : Prop :=
  ∀ {s s'}, D.grows s s' → P s → P s'

section
variable (W : World σ κ ρ ω) (D : Discipline σ) (allowed : κ → σ → Prop)

/-- From `P` the command keeps the invariant, moves along the preorder, and its answer and
the new state satisfy `Q`. -/
def Spec (P : σ → Prop) (c : κ) (Q : ρ c → σ → Prop) : Prop :=
  ∀ s w, D.inv s → P s → allowed c s →
    D.inv (W.run c w s).2 ∧ D.grows s (W.run c w s).2 ∧ Q (W.run c w s).1 (W.run c w s).2

/-- Every command of the program keeps the discipline, and its result satisfies `Q`. -/
def Safe (Q : α → σ → Prop) : Prog κ ρ α → σ → Prop
  | .ret a, s => Q a s
  | .call c k, s => ∀ s₁, D.grows s s₁ → D.inv s₁ → allowed c s₁ → ∀ w,
      D.inv (W.run c w s₁).2 ∧ D.grows s₁ (W.run c w s₁).2 ∧
        Safe Q (k (W.run c w s₁).1) (W.run c w s₁).2

end

section
variable {W : World σ κ ρ ω} {D : Discipline σ} {allowed : κ → σ → Prop}

/-- A safe program stays safe when other programs move the state. -/
theorem Safe.mono {Q : α → σ → Prop} (hQ : ∀ a, D.Stable (Q a)) {p : Prog κ ρ α} {s s' : σ}
    (h : Safe W D allowed Q p s) (hs : D.grows s s') : Safe W D allowed Q p s' := by
  cases p with
  | ret a => exact hQ a hs h
  | call c k => exact fun s₁ hs₁ => h s₁ (D.trans hs hs₁)

theorem Safe.ret {Q : α → σ → Prop} {a : α} {s : σ} (h : Q a s) :
    Safe W D allowed Q (pure a : Prog κ ρ α) s :=
  h

/-- The rest of a program starts in a later state: what is stable may be carried over. -/
theorem Safe.bind {Q : α → σ → Prop} {Q' : β → σ → Prop} {p : Prog κ ρ α}
    {f : α → Prog κ ρ β} {s : σ} (h : Safe W D allowed Q p s)
    (hf : ∀ a s', D.grows s s' → Q a s' → Safe W D allowed Q' (f a) s') :
    Safe W D allowed Q' (p >>= f) s := by
  induction p generalizing s with
  | ret a => exact hf a s (D.refl s) h
  | call c k ih =>
      intro s₁ hs₁ hinv ha w
      obtain ⟨hinv', hgrows, hk⟩ := h s₁ hs₁ hinv ha w
      exact ⟨hinv', hgrows, ih _ hk fun a s' hs' =>
        hf a s' (D.trans hs₁ (D.trans hgrows hs'))⟩

theorem Safe.weaken {Q Q' : α → σ → Prop} {p : Prog κ ρ α} {s : σ}
    (h : Safe W D allowed Q p s) (hQ : ∀ a s', Q a s' → Q' a s') :
    Safe W D allowed Q' p s := by
  induction p generalizing s with
  | ret a => exact hQ a s h
  | call c k ih =>
      intro s₁ hs₁ hinv ha w
      obtain ⟨hinv', hgrows, hk⟩ := h s₁ hs₁ hinv ha w
      exact ⟨hinv', hgrows, ih _ hk⟩

/-- A command with a stable precondition. -/
theorem Safe.perform {P : σ → Prop} {c : κ} {Q : ρ c → σ → Prop} {s : σ}
    (hspec : Spec W D allowed P c Q) (hP : D.Stable P) (h : P s) :
    Safe W D allowed Q (Prog.perform c : Prog κ ρ (ρ c)) s :=
  fun s₁ hs₁ hinv ha w => hspec s₁ w hinv (hP hs₁ h) ha

/-- A loop is safe when its body is, in every later state. -/
theorem Safe.forEach {xs : List α} {f : α → Prog κ ρ Unit} {s : σ}
    (hf : ∀ x ∈ xs, ∀ s', D.grows s s' → Safe W D allowed (fun _ _ => True) (f x) s') :
    Safe W D allowed (fun _ _ => True) (Prog.forEach xs f) s := by
  induction xs generalizing s with
  | nil => exact trivial
  | cons x xs ih =>
      exact (hf x List.mem_cons_self s (D.refl s)).bind fun _ s' hs' _ =>
        ih fun y hy s'' hs'' => hf y (List.mem_cons_of_mem _ hy) s'' (D.trans hs' hs'')

end

/-! ## What a program may come to -/

/-- Along answers in `R`, every command of the program is in `P`, and its result in `Q`. -/
def Prog.Along (P : κ → Prop) (R : (c : κ) → ρ c → Prop) (Q : α → Prop) : Prog κ ρ α → Prop
  | .ret a => Q a
  | .call c k => P c ∧ ∀ r, R c r → (k r).Along P R Q

namespace Prog.Along

variable {P : κ → Prop} {R : (c : κ) → ρ c → Prop}

theorem bind {Q : α → Prop} {Q' : β → Prop} {p : Prog κ ρ α} {f : α → Prog κ ρ β}
    (h : p.Along P R Q) (hf : ∀ a, Q a → (f a).Along P R Q') : (p >>= f).Along P R Q' := by
  induction p with
  | ret a => exact hf a h
  | call c k ih => exact ⟨h.1, fun r hr => ih r (h.2 r hr)⟩

theorem perform {c : κ} (h : P c) : (Prog.perform c : Prog κ ρ (ρ c)).Along P R (R c) :=
  ⟨h, fun _ hr => hr⟩

theorem ret {Q : α → Prop} {a : α} (h : Q a) : (pure a : Prog κ ρ α).Along P R Q := h

theorem mono {Q Q' : α → Prop} {p : Prog κ ρ α} (h : p.Along P R Q) (hQ : ∀ a, Q a → Q' a) :
    p.Along P R Q' := by
  induction p with
  | ret a => exact hQ a h
  | call c k ih => exact ⟨h.1, fun r hr => ih r (h.2 r hr)⟩

theorem forEach {xs : List α} {f : α → Prog κ ρ Unit}
    (hf : ∀ x ∈ xs, (f x).Along P R fun _ => True) :
    (Prog.forEach xs f).Along P R fun _ => True := by
  induction xs with
  | nil => exact trivial
  | cons x xs ih =>
      exact (hf x List.mem_cons_self).bind fun _ _ =>
        ih fun y hy => hf y (List.mem_cons_of_mem _ hy)

end Prog.Along

/-! ## Pools -/

/-- Programs over one shared state; an idle task has the program that is done. -/
structure Pool (σ κ : Type) (ρ : κ → Type) where
  shared : σ
  tasks : Nat → Prog κ ρ Unit

/-- Which programs may start in a state, and how the state moves by itself. -/
structure System (σ κ : Type) (ρ : κ → Type) (ω : Type) extends World σ κ ρ ω where
  starts : σ → Prog κ ρ Unit → Prop
  drift : σ → σ → Prop

/-- One step of a pool. Commands are taken in states that `allowed` admits. -/
inductive Step (S : System σ κ ρ ω) (allowed : κ → σ → Prop) : Pool σ κ ρ → Pool σ κ ρ → Prop
    where
  | start {s : σ} {t : Nat → Prog κ ρ Unit} (i : Nat) {p : Prog κ ρ Unit}
      (hidle : t i = .ret ()) (hp : S.starts s p) :
      Step S allowed ⟨s, t⟩ ⟨s, Function.update t i p⟩
  | exec {s : σ} {t : Nat → Prog κ ρ Unit} (i : Nat) {c : κ} {k : ρ c → Prog κ ρ Unit} (w : ω)
      (hnext : t i = .call c k) (ha : allowed c s) :
      Step S allowed ⟨s, t⟩ ⟨(S.run c w s).2, Function.update t i (k (S.run c w s).1)⟩
  | crash {s : σ} {t : Nat → Prog κ ρ Unit} (dead : Finset Nat) :
      Step S allowed ⟨s, t⟩ ⟨s, fun i => if i ∈ dead then .ret () else t i⟩
  | drift {s s' : σ} {t : Nat → Prog κ ρ Unit} (h : S.drift s s') :
      Step S allowed ⟨s, t⟩ ⟨s', t⟩

/-- The pools reached from a shared state in which nothing runs. -/
inductive Reachable (S : System σ κ ρ ω) (allowed : κ → σ → Prop) (s₀ : σ) : Pool σ κ ρ → Prop
    where
  | init : Reachable S allowed s₀ ⟨s₀, fun _ => .ret ()⟩
  | step {p p' : Pool σ κ ρ} (h : Reachable S allowed s₀ p) (hstep : Step S allowed p p') :
      Reachable S allowed s₀ p'

section
variable {S : System σ κ ρ ω} {D : Discipline σ} {allowed : κ → σ → Prop}

/-- The shared state keeps the invariant and every task is safe. -/
def Pool.Sound (S : System σ κ ρ ω) (D : Discipline σ) (allowed : κ → σ → Prop)
    (p : Pool σ κ ρ) : Prop :=
  D.inv p.shared ∧ ∀ i, Safe S.toWorld D allowed (fun _ _ => True) (p.tasks i) p.shared

/-- One step keeps a pool sound, if the programs that start are safe. -/
theorem Step.sound
    (hstart : ∀ s p, D.inv s → S.starts s p → Safe S.toWorld D allowed (fun _ _ => True) p s)
    (hdrift : ∀ s s', D.inv s → S.drift s s' → D.inv s' ∧ D.grows s s') {p p' : Pool σ κ ρ}
    (h : p.Sound S D allowed) (hstep : Step S allowed p p') : p'.Sound S D allowed := by
  obtain ⟨hinv, hsafe⟩ := h
  have hmono {q : Prog κ ρ Unit} {s s' : σ} (hq : Safe S.toWorld D allowed (fun _ _ => True) q s)
      (hs : D.grows s s') : Safe S.toWorld D allowed (fun _ _ => True) q s' :=
    hq.mono (fun _ _ _ _ _ => trivial) hs
  cases hstep with
  | start i hidle hp =>
      refine ⟨hinv, fun j => ?_⟩
      by_cases hj : j = i
      · subst hj
        simpa using hstart _ _ hinv hp
      · simpa [hj] using hsafe j
  | exec i w hnext ha =>
      have hi := hsafe i
      simp only [hnext] at hi
      obtain ⟨hinv', hgrows, hk⟩ := hi _ (D.refl _) hinv ha w
      refine ⟨hinv', fun j => ?_⟩
      by_cases hj : j = i
      · subst hj
        simpa using hk
      · simpa [hj] using hmono (hsafe j) hgrows
  | crash dead =>
      refine ⟨hinv, fun j => ?_⟩
      by_cases hj : j ∈ dead
      · simp [hj, Safe]
      · simpa [hj] using hsafe j
  | drift hd =>
      obtain ⟨hinv', hgrows⟩ := hdrift _ _ hinv hd
      exact ⟨hinv', fun j => hmono (hsafe j) hgrows⟩

/-- Every pool reached is sound: the invariant holds whatever the order of the steps. -/
theorem Reachable.sound
    (hstart : ∀ s p, D.inv s → S.starts s p → Safe S.toWorld D allowed (fun _ _ => True) p s)
    (hdrift : ∀ s s', D.inv s → S.drift s s' → D.inv s' ∧ D.grows s s') {s₀ : σ}
    (h₀ : D.inv s₀) {p : Pool σ κ ρ} (h : Reachable S allowed s₀ p) : p.Sound S D allowed := by
  induction h with
  | init => exact ⟨h₀, fun _ => trivial⟩
  | step _ hstep ih => exact hstep.sound hstart hdrift ih

end

/-! ## Running one task -/

/-- Every command played is allowed where it is taken. -/
def World.Admits (W : World σ κ ρ ω) (allowed : κ → σ → Prop) : List ω → Prog κ ρ α → σ → Prop
  | w :: ws, .call c k, s =>
      allowed c s ∧ W.Admits allowed ws (k (W.run c w s).1) (W.run c w s).2
  | _, _, _ => True

theorem World.admits_of_forall (W : World σ κ ρ ω) {allowed : κ → σ → Prop}
    (h : ∀ c s, allowed c s) (ws : List ω) (p : Prog κ ρ α) (s : σ) : W.Admits allowed ws p s := by
  induction ws generalizing p s with
  | nil => exact trivial
  | cons w ws ih =>
      cases p with
      | ret a => exact trivial
      | call c k => exact ⟨h c s, ih _ _⟩

section
variable {S : System σ κ ρ ω} {allowed : κ → σ → Prop} {s₀ : σ}

/-- A task may go on alone for any number of commands that are allowed. -/
theorem Reachable.play {p : Pool σ κ ρ} (h : Reachable S allowed s₀ p) (i : Nat) (ws : List ω)
    (hadmits : S.Admits allowed ws (p.tasks i) p.shared) :
    Reachable S allowed s₀ ⟨(S.play ws (p.tasks i) p.shared).2,
      Function.update p.tasks i (S.play ws (p.tasks i) p.shared).1⟩ := by
  induction ws generalizing p with
  | nil => simpa [World.play] using h
  | cons w ws ih =>
      cases hp : p.tasks i with
      | ret a => simpa [World.play, ← hp] using h
      | call c k =>
          rw [hp] at hadmits
          have h' := h.step (Step.exec (S := S) i w hp hadmits.1)
          have hadmits' := hadmits.2
          simpa [World.play] using ih h' (by simpa using hadmits')

/-- An idle task may start a program and go on alone. -/
theorem Reachable.startPlay {p : Pool σ κ ρ} (h : Reachable S allowed s₀ p) {i : Nat}
    (hidle : p.tasks i = .ret ()) {q : Prog κ ρ Unit} (hq : S.starts p.shared q) (ws : List ω)
    (hadmits : S.Admits allowed ws q p.shared) :
    Reachable S allowed s₀ ⟨(S.play ws q p.shared).2,
      Function.update p.tasks i (S.play ws q p.shared).1⟩ := by
  have h' := h.step (Step.start i hidle hq)
  simpa using h'.play i ws (by simpa using hadmits)

end

end Interleaving
