-- SUMMARY: Noninterference of processes: a run without the steps of the hidden processes looks the same to the others.
import CitraFlows.Lib.Processes

/-!
# Noninterference

Some processes, and some changes of the shared state, are hidden. `purge` takes their moves out
of a run. If a visible step does the same on two shared states that agree on what is visible, and
a hidden step leaves that as it is (`Unwinding`), then the purged run can be played, and at its end
every visible process is where it is at the end of the whole run.

A hidden process still starts in the purged run, so the processes keep their numbers.
-/

namespace Processes

variable {G L ι α ε : Type}

namespace Configuration

theorem proc_concat (g g' : G) (ps : List (Option L)) (l : L) (i : Nat) :
    (⟨g', ps ++ [some l]⟩ : Configuration G L).proc i =
      if i = ps.length then some l else (⟨g, ps⟩ : Configuration G L).proc i := by
  by_cases hlt : i < ps.length
  · rw [if_neg (Nat.ne_of_lt hlt)]
    simp [proc, List.getElem?_append_left hlt]
  · by_cases heq : i = ps.length
    · subst heq
      simp [proc]
    · rw [if_neg heq, proc, proc, List.getElem?_eq_none (by simp; omega),
        List.getElem?_eq_none (by simp; omega)]

theorem proc_set_eq {c : Configuration G L} {i : Nat} {l : L} (hi : c.proc i = some l) (g : G)
    (o : Option L) (j : Nat) :
    (⟨g, c.procs.set i o⟩ : Configuration G L).proc j = if j = i then o else c.proc j := by
  by_cases heq : j = i
  · subst heq
    simp [proc, lt_of_proc hi]
  · rw [if_neg heq]
    exact proc_set_ne heq

theorem proc_crash (c : Configuration G L) (g : G) (i j : Nat) :
    (⟨g, c.procs.set i none⟩ : Configuration G L).proc j = if j = i then none else c.proc j := by
  by_cases heq : j = i
  · subst heq
    by_cases hlt : j < c.procs.length
    · simp [proc, hlt]
    · rw [if_pos rfl, proc, List.getElem?_eq_none (by simpa using hlt), Option.join_none]
  · rw [if_neg heq]
    exact proc_set_ne heq

end Configuration

/-! ## Runs, move by move -/

/-- A run whose moves all meet the condition. -/
inductive System.Run (S : System G L ι α ε) (ok : Configuration G L → Move ι α ε → Prop) :
    Configuration G L → List (Move ι α ε) → Configuration G L → Prop
  | nil (c : Configuration G L) : S.Run ok c [] c
  | cons {c d e : Configuration G L} {m : Move ι α ε} {ms : List (Move ι α ε)} (hok : ok c m)
      (hm : S.apply c m = some d) (hrun : S.Run ok d ms e) : S.Run ok c (m :: ms) e

theorem System.Run.reaches {S : System G L ι α ε} {ok : Configuration G L → Move ι α ε → Prop}
    {c c' : Configuration G L} {ms : List (Move ι α ε)} (h : S.Run ok c ms c') :
    S.Reaches ok c c' := by
  induction h with
  | nil c => exact .refl
  | cons hok hm _ ih => exact .head ⟨_, hok, hm⟩ ih

theorem System.Run.mono {S : System G L ι α ε} {ok ok' : Configuration G L → Move ι α ε → Prop}
    (hsub : ∀ c m, ok c m → ok' c m) {c c' : Configuration G L} {ms : List (Move ι α ε)}
    (h : S.Run ok c ms c') : S.Run ok' c ms c' := by
  induction h with
  | nil c => exact .nil c
  | cons hok hm _ ih => exact .cons (hsub _ _ hok) hm ih

/-! ## What is hidden -/

structure Hidden (G L ε : Type) where
  proc : L → Bool
  env : ε → G → Bool

namespace Hidden

variable (H : Hidden G L ε)

/-- A start and a loss are never hidden. -/
def move (c : Configuration G L) : Move ι α ε → Bool
  | .step i _ => (c.proc i).any H.proc
  | .env e => H.env e c.shared
  | .spawn _ | .crash _ => false

/-- Both processes are hidden, or neither is and they are related. -/
def Same (rel : L → L → Prop) (l m : L) : Prop :=
  H.proc m = H.proc l ∧ (H.proc l = false → rel l m)

/-- The visible parts of two configurations correspond. -/
structure Matches (sim : G → G → Prop) (rel : L → L → Prop) (c d : Configuration G L) : Prop where
  shared : sim c.shared d.shared
  length : d.procs.length = c.procs.length
  procs : ∀ i, Option.Rel (H.Same rel) (c.proc i) (d.proc i)

variable {H} {sim : G → G → Prop} {rel : L → L → Prop} {c d : Configuration G L}

theorem Matches.refl (hsim : ∀ g, sim g g) (hrel : ∀ l, rel l l) (c : Configuration G L) :
    H.Matches sim rel c c where
  shared := hsim c.shared
  length := rfl
  procs i := by
    cases c.proc i with
    | none => exact .none
    | some l => exact .some ⟨rfl, fun _ => hrel l⟩

theorem Matches.proc (h : H.Matches sim rel c d) {i : Nat} {l : L} (hi : c.proc i = some l) :
    ∃ m, d.proc i = some m ∧ H.Same rel l m := by
  have hrel := h.procs i
  rw [hi] at hrel
  cases hd : d.proc i with
  | none =>
      rw [hd] at hrel
      cases hrel
  | some m =>
      rw [hd] at hrel
      cases hrel with
      | some hsame => exact ⟨m, rfl, hsame⟩

theorem Matches.spawn (h : H.Matches sim rel c d) {g g' : G} {l m : L} (hg : sim g g')
    (hsame : H.Same rel l m) :
    H.Matches sim rel ⟨g, c.procs ++ [some l]⟩ ⟨g', d.procs ++ [some m]⟩ where
  shared := hg
  length := by simp [h.length]
  procs i := by
    rw [Configuration.proc_concat c.shared, Configuration.proc_concat d.shared, h.length]
    by_cases hi : i = c.procs.length
    · rw [if_pos hi, if_pos hi]
      exact .some hsame
    · rw [if_neg hi, if_neg hi]
      exact h.procs i

/-- A process moves in both. -/
theorem Matches.move (h : H.Matches sim rel c d) {g g' : G} {i : Nat} {l l' m m' : L}
    (hl : c.proc i = some l) (hm : d.proc i = some m) (hg : sim g g')
    (hsame : H.Same rel l' m') :
    H.Matches sim rel ⟨g, c.procs.set i (some l')⟩ ⟨g', d.procs.set i (some m')⟩ where
  shared := hg
  length := by simp [h.length]
  procs j := by
    rw [Configuration.proc_set_eq hl, Configuration.proc_set_eq hm]
    by_cases hj : j = i
    · rw [if_pos hj, if_pos hj]
      exact .some hsame
    · rw [if_neg hj, if_neg hj]
      exact h.procs j

/-- A hidden process moves in the first one only. -/
theorem Matches.hide (h : H.Matches sim rel c d) {g : G} {i : Nat} {l l' : L}
    (hl : c.proc i = some l) (hg : sim g d.shared) (hhidden : H.proc l = true)
    (hstill : H.proc l' = true) : H.Matches sim rel ⟨g, c.procs.set i (some l')⟩ d where
  shared := hg
  length := by simp [h.length]
  procs j := by
    rw [Configuration.proc_set_eq hl]
    by_cases hj : j = i
    · obtain ⟨m, hm, hsame⟩ := h.proc hl
      rw [if_pos hj, hj, hm]
      refine .some ⟨by rw [hsame.1, hhidden, hstill], fun hvisible => ?_⟩
      rw [hstill] at hvisible
      cases hvisible
    · rw [if_neg hj]
      exact h.procs j

theorem Matches.crash (h : H.Matches sim rel c d) (i : Nat) :
    H.Matches sim rel ⟨c.shared, c.procs.set i none⟩ ⟨d.shared, d.procs.set i none⟩ where
  shared := h.shared
  length := by simp [h.length]
  procs j := by
    rw [Configuration.proc_crash, Configuration.proc_crash]
    by_cases hj : j = i
    · rw [if_pos hj, if_pos hj]
      exact .none
    · rw [if_neg hj, if_neg hj]
      exact h.procs j

end Hidden

/-! ## Purging -/

namespace System

variable (S : System G L ι α ε) (H : Hidden G L ε)

/-- A run without its hidden moves. -/
def purge : List (Move ι α ε) → Configuration G L → List (Move ι α ε)
  | [], _ => []
  | m :: ms, c =>
      let rest := (S.apply c m).elim [] (purge ms)
      if H.move c m then rest else m :: rest

/-- A visible move is possible on both sides and keeps what is visible alike, a hidden one leaves
it as it is. The moves of either run satisfy `q`, on which the invariant rests; those of the whole
run may have to meet a further condition. -/
structure Unwinding (q : Move ι α ε → Prop) (ok : Configuration G L → Move ι α ε → Prop)
    (I : Nat → G → Prop) (P : G → Nat → L → Prop) (sim : G → G → Prop) (rel : L → L → Prop) :
    Prop where
  invariant : S.Invariant (fun _ m => q m) I P
  allowed : ∀ {c : Configuration G L} {m : Move ι α ε}, ok c m → q m
  spawn : ∀ {c d : Configuration G L} {x : ι} {g : G} {l : L}, Inv I P c → Inv I P d →
    sim c.shared d.shared → ok c (.spawn x) → S.spawn c.procs.length x c.shared = some (g, l) →
    ∃ g' m, S.spawn c.procs.length x d.shared = some (g', m) ∧ sim g g' ∧ H.Same rel l m
  see : ∀ {c d : Configuration G L} {i : Nat} {a : α} {l m l' : L} {g : G}, Inv I P c →
    Inv I P d → sim c.shared d.shared → ok c (.step i a) → c.proc i = some l →
    d.proc i = some m → H.proc l = false → H.proc m = false → rel l m →
    S.step i a c.shared l = some (g, l') →
    ∃ g' m', S.step i a d.shared m = some (g', m') ∧ sim g g' ∧ H.Same rel l' m'
  hide : ∀ {c d : Configuration G L} {i : Nat} {a : α} {l l' : L} {g : G}, Inv I P c →
    Inv I P d → sim c.shared d.shared → ok c (.step i a) → c.proc i = some l →
    H.proc l = true → S.step i a c.shared l = some (g, l') → sim g d.shared ∧ H.proc l' = true
  envSee : ∀ {c d : Configuration G L} {e : ε} {g : G}, Inv I P c → Inv I P d →
    sim c.shared d.shared → ok c (.env e) → H.env e c.shared = false →
    S.env e c.shared = some g → ∃ g', S.env e d.shared = some g' ∧ sim g g'
  envHide : ∀ {c d : Configuration G L} {e : ε} {g : G}, Inv I P c → Inv I P d →
    sim c.shared d.shared → ok c (.env e) → H.env e c.shared = true →
    S.env e c.shared = some g → sim g d.shared

variable {S H} {q : Move ι α ε → Prop} {ok : Configuration G L → Move ι α ε → Prop}
  {I : Nat → G → Prop} {P : G → Nat → L → Prop} {sim : G → G → Prop} {rel : L → L → Prop}
  {c c' d : Configuration G L} {m : Move ι α ε} {ms : List (Move ι α ε)}

/-- A visible move. -/
theorem Unwinding.visible (U : S.Unwinding H q ok I P sim rel) (hc : Inv I P c) (hd : Inv I P d)
    (hmatches : H.Matches sim rel c d) (hok : ok c m) (hm : S.apply c m = some c')
    (hvisible : H.move c m = false) :
    ∃ d', S.apply d m = some d' ∧ H.Matches sim rel c' d' := by
  cases m with
  | spawn x =>
      obtain ⟨⟨g, l⟩, hs, rfl⟩ := Option.map_eq_some_iff.mp hm
      obtain ⟨g', l', hs', hg, hsame⟩ := U.spawn hc hd hmatches.shared hok hs
      refine ⟨⟨g', d.procs ++ [some l']⟩, ?_, hmatches.spawn hg hsame⟩
      simp [apply, hmatches.length, hs']
  | step i a =>
      obtain ⟨l, hl, hm⟩ := Option.bind_eq_some_iff.mp hm
      obtain ⟨⟨g, l'⟩, hs, rfl⟩ := Option.map_eq_some_iff.mp hm
      obtain ⟨k, hk, hsame⟩ := hmatches.proc hl
      have hlv : H.proc l = false := by simpa [Hidden.move, hl] using hvisible
      obtain ⟨g', k', hs', hg, hsame'⟩ := U.see hc hd hmatches.shared hok hl hk hlv
        (hsame.1.trans hlv) (hsame.2 hlv) hs
      refine ⟨⟨g', d.procs.set i (some k')⟩, ?_, hmatches.move hl hk hg hsame'⟩
      simp [apply, hk, hs']
  | crash i =>
      cases hm
      exact ⟨_, rfl, hmatches.crash i⟩
  | env e =>
      obtain ⟨g, hs, rfl⟩ := Option.map_eq_some_iff.mp hm
      obtain ⟨g', hs', hg⟩ := U.envSee hc hd hmatches.shared hok hvisible hs
      exact ⟨{ d with shared := g' }, by simp [apply, hs'], ⟨hg, hmatches.length, hmatches.procs⟩⟩

/-- A hidden move. -/
theorem Unwinding.hidden (U : S.Unwinding H q ok I P sim rel) (hc : Inv I P c) (hd : Inv I P d)
    (hmatches : H.Matches sim rel c d) (hok : ok c m) (hm : S.apply c m = some c')
    (hhidden : H.move c m = true) : H.Matches sim rel c' d := by
  cases m with
  | spawn x => cases hhidden
  | crash i => cases hhidden
  | step i a =>
      obtain ⟨l, hl, hm⟩ := Option.bind_eq_some_iff.mp hm
      obtain ⟨⟨g, l'⟩, hs, rfl⟩ := Option.map_eq_some_iff.mp hm
      have hlh : H.proc l = true := by simpa [Hidden.move, hl] using hhidden
      obtain ⟨hg, hstill⟩ := U.hide hc hd hmatches.shared hok hl hlh hs
      exact hmatches.hide hl hg hlh hstill
  | env e =>
      obtain ⟨g, hs, rfl⟩ := Option.map_eq_some_iff.mp hm
      exact ⟨U.envHide hc hd hmatches.shared hok hhidden hs, hmatches.length, hmatches.procs⟩

/-- The purged run can be played, and what is visible at its end is what is visible at the end of
the whole run. -/
theorem Unwinding.noninterference (U : S.Unwinding H q ok I P sim rel) (hc : Inv I P c)
    (hd : Inv I P d) (hmatches : H.Matches sim rel c d) (hrun : S.Run ok c ms c') :
    ∃ d', S.Run (fun _ m => q m) d (S.purge H ms c) d' ∧ Inv I P d' ∧
      H.Matches sim rel c' d' := by
  induction hrun generalizing d with
  | nil c => exact ⟨d, .nil d, hd, hmatches⟩
  | @cons c₁ c₂ c₃ m ms hok hm _ ih =>
      have hc₂ : Inv I P c₂ := U.invariant.steps hc ⟨m, U.allowed hok, hm⟩
      rw [purge, hm]
      cases hhidden : H.move c₁ m with
      | true => exact ih hc₂ hd (U.hidden hc hd hmatches hok hm hhidden)
      | false =>
          obtain ⟨d₂, hd₂, hmatches₂⟩ := U.visible hc hd hmatches hok hm hhidden
          have hinv : Inv I P d₂ := U.invariant.steps hd ⟨m, U.allowed hok, hd₂⟩
          obtain ⟨d₃, hrun₃, hd₃, hmatches₃⟩ := ih hc₂ hinv hmatches₂
          exact ⟨d₃, .cons (U.allowed hok) hd₂ hrun₃, hd₃, hmatches₃⟩

end System

end Processes
