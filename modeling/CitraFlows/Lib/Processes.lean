-- SUMMARY: Processes with states of their own over one shared state: they start, take steps in any order and may be lost, and an invariant is shown step by step.
import Mathlib.Logic.Relation

/-!
# Processes

A `System` says how a process starts, what a step of it does to the shared state and to its
own, and how the shared state moves by itself. What a process does not decide (an answer from
outside, a choice of a caller) is the input of its step, so a run is a list of moves that can
be played. Processes are numbered in the order of their starts and a number is never used
again, so the shared state may name the process that has done something.

The runs of interest may be those whose moves all meet a condition. `Invariant` says what each
kind of move has to keep; `Reaches.inv` follows any such run.
-/

namespace Processes

structure System (G L ι α ε : Type) where
  spawn : Nat → ι → G → Option (G × L)
  step : Nat → α → G → L → Option (G × L)
  env : ε → G → Option G

/-- The shared state and the processes by number; one that was lost has no state. -/
structure Configuration (G L : Type) where
  shared : G
  procs : List (Option L)

inductive Move (ι α ε : Type) where
  | spawn (x : ι)
  | step (i : Nat) (a : α)
  | crash (i : Nat)
  | env (e : ε)

variable {G L ι α ε : Type}

namespace Configuration

/-- The state of process `i`, if it has started and was not lost. -/
def proc (c : Configuration G L) (i : Nat) : Option L := c.procs[i]?.join

theorem proc_eq_some {c : Configuration G L} {i : Nat} {l : L} :
    c.proc i = some l ↔ c.procs[i]? = some (some l) := by
  exact Option.join_eq_some_iff

theorem lt_of_proc {c : Configuration G L} {i : Nat} {l : L} (h : c.proc i = some l) :
    i < c.procs.length := by
  obtain ⟨hlt, -⟩ := List.getElem?_eq_some_iff.mp (proc_eq_some.mp h)
  exact hlt

/-- The processes after a start: the new one, and the old ones. -/
theorem proc_append {g g' : G} {ps : List (Option L)} {l m : L} {i : Nat}
    (h : (⟨g', ps ++ [some l]⟩ : Configuration G L).proc i = some m) :
    (i = ps.length ∧ m = l) ∨ (⟨g, ps⟩ : Configuration G L).proc i = some m := by
  rw [proc_eq_some] at h ⊢
  by_cases hi : i < ps.length
  · exact Or.inr (by simpa [List.getElem?_append_left hi] using h)
  · rw [List.getElem?_append_right (by omega)] at h
    obtain ⟨hlt, hl⟩ := List.getElem?_eq_some_iff.mp h
    simp only [List.length_singleton] at hlt
    obtain rfl : i = ps.length := by omega
    exact Or.inl ⟨rfl, by simpa using hl.symm⟩

/-- The processes after one of them has changed or was lost. -/
theorem proc_set {g g' : G} {ps : List (Option L)} {o : Option L} {m : L} {i j : Nat}
    (h : (⟨g', ps.set i o⟩ : Configuration G L).proc j = some m) :
    (j = i ∧ o = some m) ∨ j ≠ i ∧ (⟨g, ps⟩ : Configuration G L).proc j = some m := by
  rw [proc_eq_some] at h ⊢
  by_cases hj : j = i
  · subst hj
    obtain ⟨hlt, hl⟩ := List.getElem?_eq_some_iff.mp h
    exact Or.inl ⟨rfl, by simpa using hl⟩
  · rw [List.getElem?_set_ne (Ne.symm hj)] at h
    exact Or.inr ⟨hj, h⟩

theorem proc_append_left {g g' : G} {ps : List (Option L)} {o : Option L} {m : L} {i : Nat}
    (h : (⟨g, ps⟩ : Configuration G L).proc i = some m) :
    (⟨g', ps ++ [o]⟩ : Configuration G L).proc i = some m := by
  have hlt := lt_of_proc h
  rw [proc_eq_some] at h ⊢
  rwa [List.getElem?_append_left hlt]

theorem proc_set_ne {g g' : G} {ps : List (Option L)} {o : Option L} {i j : Nat} (h : j ≠ i) :
    (⟨g', ps.set i o⟩ : Configuration G L).proc j = (⟨g, ps⟩ : Configuration G L).proc j := by
  simp [proc, List.getElem?_set_ne (Ne.symm h)]

theorem proc_set_self {c : Configuration G L} {g : G} {i : Nat} {l m : L}
    (h : c.proc i = some l) :
    (⟨g, c.procs.set i (some m)⟩ : Configuration G L).proc i = some m := by
  rw [proc_eq_some]
  simp [lt_of_proc h]

/-- Every process but the `i`-th satisfies `k`. -/
def others (c : Configuration G L) (i : Nat) (k : L → Bool) : Bool :=
  (List.range c.procs.length).all fun j => j = i || (c.proc j).all k

theorem others_eq_true {c : Configuration G L} {i : Nat} {k : L → Bool} :
    c.others i k = true ↔ ∀ j m, j ≠ i → c.proc j = some m → k m = true := by
  simp only [others, List.all_eq_true, List.mem_range, Bool.or_eq_true, decide_eq_true_eq,
    Option.all_eq_true]
  constructor
  · intro h j m hne hj
    exact (h j (lt_of_proc hj)).resolve_left hne m hj
  · intro h j _
    by_cases hne : j = i
    · exact Or.inl hne
    · exact Or.inr fun m hj => h j m hne hj

/-- At most one process satisfies `k`. -/
def AtMostOne (c : Configuration G L) (k : L → Bool) : Prop :=
  ∀ i j l m, c.proc i = some l → c.proc j = some m → k l = true → k m = true → i = j

theorem AtMostOne.append {c : Configuration G L} {g : G} {l : L} {k : L → Bool}
    (hc : c.AtMostOne k) (hnew : k l = true → ∀ j m, c.proc j = some m → k m = false) :
    (⟨g, c.procs ++ [some l]⟩ : Configuration G L).AtMostOne k := by
  intro i j m m' hi hj hm hm'
  rcases proc_append (g := c.shared) hi with ⟨rfl, rfl⟩ | hold
  · rcases proc_append (g := c.shared) hj with ⟨rfl, -⟩ | hold
    · rfl
    · simp [hnew hm j m' hold] at hm'
  · rcases proc_append (g := c.shared) hj with ⟨-, rfl⟩ | hold'
    · simp [hnew hm' i m hold] at hm
    · exact hc i j m m' hold hold' hm hm'

/-- A process that has changed or was lost satisfies `k` only if no other one does. -/
theorem AtMostOne.set {c : Configuration G L} {g : G} {i : Nat} {o : Option L} {k : L → Bool}
    (hc : c.AtMostOne k)
    (hnew : ∀ l, o = some l → k l = true → ∀ j m, j ≠ i → c.proc j = some m → k m = false) :
    (⟨g, c.procs.set i o⟩ : Configuration G L).AtMostOne k := by
  intro p q m m' hp hq hm hm'
  rcases proc_set (g := c.shared) hp with ⟨rfl, heq⟩ | ⟨hpne, hold⟩
  · rcases proc_set (g := c.shared) hq with ⟨rfl, -⟩ | ⟨hqne, hold⟩
    · rfl
    · simp [hnew m heq hm q m' hqne hold] at hm'
  · rcases proc_set (g := c.shared) hq with ⟨rfl, heq⟩ | ⟨hqne, hold'⟩
    · simp [hnew m' heq hm' p m hpne hold] at hm
    · exact hc p q m m' hold hold' hm hm'

/-- How many processes satisfy `k`. -/
def count (c : Configuration G L) (k : L → Bool) : Nat := c.procs.countP fun o => o.any k

theorem count_append (c : Configuration G L) (g : G) (l : L) (k : L → Bool) :
    (⟨g, c.procs ++ [some l]⟩ : Configuration G L).count k =
      c.count k + if k l then 1 else 0 := by
  simp [count, List.countP_append, List.countP_cons]

/-- One process has changed or was lost. -/
theorem count_set {c : Configuration G L} {g : G} {i : Nat} {l : L} {o : Option L}
    (hi : c.proc i = some l) (k : L → Bool) :
    (⟨g, c.procs.set i o⟩ : Configuration G L).count k + (if k l then 1 else 0) =
      c.count k + if o.any k then 1 else 0 := by
  obtain ⟨hlt, hl⟩ := List.getElem?_eq_some_iff.mp (proc_eq_some.mp hi)
  have hpos : k l = true → 0 < c.procs.countP fun o => o.any k := fun hk =>
    List.countP_pos_iff.mpr ⟨some l, hl ▸ List.getElem_mem hlt, hk⟩
  simp only [count, List.countP_set hlt, hl, Option.any_some]
  split
  next hk =>
    have := hpos hk
    omega
  next => omega

/-- One process has moved. -/
theorem count_move {c : Configuration G L} {g : G} {i : Nat} {l m : L} (hi : c.proc i = some l)
    (k : L → Bool) :
    (⟨g, c.procs.set i (some m)⟩ : Configuration G L).count k + (if k l then 1 else 0) =
      c.count k + if k m then 1 else 0 :=
  count_set hi k

/-- A move that the predicate does not see. -/
theorem count_move_of_eq {c : Configuration G L} {g : G} {i : Nat} {l m : L}
    (hi : c.proc i = some l) {k : L → Bool} (hk : k m = k l) :
    (⟨g, c.procs.set i (some m)⟩ : Configuration G L).count k = c.count k := by
  have hmove := count_move (g := g) (m := m) hi k
  rw [hk] at hmove
  exact Nat.add_right_cancel hmove

/-- Predicates that exclude each other are counted by themselves. -/
theorem count_or (c : Configuration G L) (k₁ k₂ : L → Bool)
    (hne : ∀ l, k₁ l = true → k₂ l = false) :
    (c.count fun l => k₁ l || k₂ l) = c.count k₁ + c.count k₂ := by
  have hsplit : ∀ ps : List (Option L), (ps.countP fun o => o.any fun l => k₁ l || k₂ l) =
      (ps.countP fun o => o.any k₁) + ps.countP fun o => o.any k₂ := by
    intro ps
    induction ps with
    | nil => rfl
    | cons o ps ih =>
        simp only [List.countP_cons, ih]
        cases o with
        | none => simp
        | some l =>
            have := hne l
            cases h₁ : k₁ l <;> cases h₂ : k₂ l <;> simp_all <;> omega
  exact hsplit c.procs

theorem count_mono {c : Configuration G L} {k₁ k₂ : L → Bool}
    (h : ∀ l, k₁ l = true → k₂ l = true) : c.count k₁ ≤ c.count k₂ := by
  refine List.countP_mono_left fun o _ ho => ?_
  obtain ⟨l, rfl, hl⟩ := (Option.any_eq_true _ _).mp ho
  exact (Option.any_eq_true _ _).mpr ⟨l, rfl, h l hl⟩

theorem count_pos {c : Configuration G L} {i : Nat} {l : L} {k : L → Bool}
    (hi : c.proc i = some l) (hk : k l = true) : 0 < c.count k :=
  List.countP_pos_iff.mpr ⟨some l, List.mem_of_getElem? (proc_eq_some.mp hi), hk⟩

theorem exists_of_count_pos {c : Configuration G L} {k : L → Bool} (h : 0 < c.count k) :
    ∃ i l, c.proc i = some l ∧ k l = true := by
  obtain ⟨o, ho, hk⟩ := List.countP_pos_iff.mp h
  obtain ⟨l, rfl, hl⟩ := (Option.any_eq_true _ _).mp hk
  obtain ⟨i, hi⟩ := List.mem_iff_getElem?.mp ho
  exact ⟨i, l, proc_eq_some.mpr hi, hl⟩

/-- At most one process satisfies what is counted once at most. -/
theorem eq_of_count_le_one {c : Configuration G L} {k : L → Bool} (hle : c.count k ≤ 1) {i j : Nat}
    {l m : L} (hi : c.proc i = some l) (hj : c.proc j = some m) (hl : k l = true)
    (hm : k m = true) : i = j := by
  refine Decidable.byContradiction fun hne => ?_
  -- without the first one, the second one still counts
  have hset := count_set (g := c.shared) (o := none) hi k
  have hpos : 0 < (⟨c.shared, c.procs.set i none⟩ : Configuration G L).count k :=
    count_pos ((proc_set_ne (g := c.shared) (Ne.symm hne)).trans hj) hm
  simp only [hl, if_true, Option.any_none, Bool.false_eq_true, if_false] at hset
  omega

theorem count_eq_zero {c : Configuration G L} {k : L → Bool} :
    c.count k = 0 ↔ ∀ i l, c.proc i = some l → k l = false := by
  simp only [count, List.countP_eq_zero, Bool.not_eq_true]
  constructor
  · intro h i l hi
    exact h (some l) (List.mem_of_getElem? (proc_eq_some.mp hi))
  · intro h o ho
    cases o with
    | none => rfl
    | some l =>
        obtain ⟨i, hi⟩ := List.mem_iff_getElem?.mp ho
        exact h i l (proc_eq_some.mpr hi)

/-- The loss of a process that does not satisfy `k`. -/
theorem count_crash {c : Configuration G L} {g : G} {i : Nat} {k : L → Bool}
    (hi : ∀ l, c.proc i = some l → k l = false) :
    (⟨g, c.procs.set i none⟩ : Configuration G L).count k = c.count k := by
  cases hp : c.proc i with
  | some l => simpa [hi l hp] using count_set (g := g) (o := none) hp k
  | none =>
      by_cases hlt : i < c.procs.length
      · have hnone : c.procs[i] = none := by
          simpa [proc, List.getElem?_eq_getElem hlt] using hp
        simp [count, List.countP_set hlt, hnone]
      · rw [List.set_eq_of_length_le (by omega)]
        rfl

theorem count_crash_le {c : Configuration G L} {g : G} {i : Nat} {k : L → Bool} :
    (⟨g, c.procs.set i none⟩ : Configuration G L).count k ≤ c.count k := by
  cases hp : c.proc i with
  | some l =>
      have := count_set (g := g) (o := none) hp k
      simp only [Option.any_none, Bool.false_eq_true, if_false] at this
      omega
  | none => exact Nat.le_of_eq (count_crash fun l hl => by simp [hp] at hl)

end Configuration

namespace System

variable (S : System G L ι α ε)

/-- The configuration after a move, if the move is possible. -/
def apply (c : Configuration G L) : Move ι α ε → Option (Configuration G L)
  | .spawn x =>
      (S.spawn c.procs.length x c.shared).map fun r => ⟨r.1, c.procs ++ [some r.2]⟩
  | .step i a =>
      (c.proc i).bind fun l =>
        (S.step i a c.shared l).map fun r => ⟨r.1, c.procs.set i (some r.2)⟩
  | .crash i => some { c with procs := c.procs.set i none }
  | .env e => (S.env e c.shared).map fun g => { c with shared := g }

/-- A move that meets the condition. -/
def Steps (ok : Configuration G L → Move ι α ε → Prop) (c c' : Configuration G L) : Prop :=
  ∃ m, ok c m ∧ S.apply c m = some c'

/-- A run whose moves all meet the condition. -/
def Reaches (ok : Configuration G L → Move ι α ε → Prop) : Configuration G L → Configuration G L → Prop :=
  Relation.ReflTransGen (S.Steps ok)

/-- What each kind of move does. -/
theorem Steps.cases {S : System G L ι α ε} {ok : Configuration G L → Move ι α ε → Prop}
    {c c' : Configuration G L} (h : S.Steps ok c c') :
    (∃ x g l, ok c (.spawn x) ∧ S.spawn c.procs.length x c.shared = some (g, l) ∧
      c' = ⟨g, c.procs ++ [some l]⟩) ∨
    (∃ i a l g l', ok c (.step i a) ∧ c.proc i = some l ∧
      S.step i a c.shared l = some (g, l') ∧ c' = ⟨g, c.procs.set i (some l')⟩) ∨
    (∃ i, ok c (.crash i) ∧ c' = { c with procs := c.procs.set i none }) ∨
    ∃ e g, ok c (.env e) ∧ S.env e c.shared = some g ∧ c' = { c with shared := g } := by
  obtain ⟨m, hok, hm⟩ := h
  cases m with
  | spawn x =>
      obtain ⟨⟨g, l⟩, hs, rfl⟩ := Option.map_eq_some_iff.mp hm
      exact Or.inl ⟨x, g, l, hok, hs, rfl⟩
  | step i a =>
      obtain ⟨l, hl, hm⟩ := Option.bind_eq_some_iff.mp hm
      obtain ⟨⟨g, l'⟩, hs, rfl⟩ := Option.map_eq_some_iff.mp hm
      exact Or.inr (Or.inl ⟨i, a, l, g, l', hok, hl, hs, rfl⟩)
  | crash i =>
      cases hm
      exact Or.inr (Or.inr (Or.inl ⟨i, hok, rfl⟩))
  | env e =>
      obtain ⟨g, hs, rfl⟩ := Option.map_eq_some_iff.mp hm
      exact Or.inr (Or.inr (Or.inr ⟨e, g, hok, hs, rfl⟩))

/-! ## Invariants -/

/-- The shared state satisfies `I`, given how many processes have started, and every process
satisfies `P`. -/
def Inv (I : Nat → G → Prop) (P : G → Nat → L → Prop) (c : Configuration G L) : Prop :=
  I c.procs.length c.shared ∧ ∀ i l, c.proc i = some l → P c.shared i l

/-- Before any process has started there is only the shared state to see to. -/
theorem Inv.of_start {I : Nat → G → Prop} {P : G → Nat → L → Prop} {c : Configuration G L}
    (hstart : c.procs = []) (hI : I 0 c.shared) : Inv I P c := by
  refine ⟨by simpa [hstart] using hI, fun i l hi => ?_⟩
  simp [Configuration.proc, hstart] at hi

/-- Each kind of move keeps what is assumed of the shared state and of every process. A lost
process leaves the rest as it is, so there is nothing to keep. -/
structure Invariant (ok : Configuration G L → Move ι α ε → Prop) (I : Nat → G → Prop)
    (P : G → Nat → L → Prop) : Prop where
  spawn : ∀ {c : Configuration G L} {x : ι} {g : G} {l : L}, Inv I P c → ok c (.spawn x) →
    S.spawn c.procs.length x c.shared = some (g, l) →
    I (c.procs.length + 1) g ∧ P g c.procs.length l ∧
      ∀ j m, c.proc j = some m → P g j m
  step : ∀ {c : Configuration G L} {i : Nat} {a : α} {l : L} {g : G} {l' : L}, Inv I P c →
    ok c (.step i a) → c.proc i = some l → S.step i a c.shared l = some (g, l') →
    I c.procs.length g ∧ P g i l' ∧ ∀ j m, j ≠ i → c.proc j = some m → P g j m
  env : ∀ {c : Configuration G L} {e : ε} {g : G}, Inv I P c → ok c (.env e) →
    S.env e c.shared = some g →
    I c.procs.length g ∧ ∀ j m, c.proc j = some m → P g j m

variable {S} {ok : Configuration G L → Move ι α ε → Prop} {I : Nat → G → Prop}
  {P : G → Nat → L → Prop}

theorem Invariant.steps (h : S.Invariant ok I P) {c c' : Configuration G L} (hc : Inv I P c)
    (hstep : S.Steps ok c c') : Inv I P c' := by
  rcases hstep.cases with ⟨x, g, l, hok, hs, rfl⟩ | ⟨i, a, l, g, l', hok, hl, hs, rfl⟩ |
    ⟨i, -, rfl⟩ | ⟨e, g, hok, hs, rfl⟩
  · obtain ⟨hI, hnew, hold⟩ := h.spawn hc hok hs
    refine ⟨by simpa using hI, fun j m hj => ?_⟩
    rcases Configuration.proc_append hj with ⟨rfl, rfl⟩ | hj
    · exact hnew
    · exact hold j m hj
  · obtain ⟨hI, hself, hothers⟩ := h.step hc hok hl hs
    refine ⟨by simpa using hI, fun j m hj => ?_⟩
    rcases Configuration.proc_set hj with ⟨rfl, hm⟩ | ⟨hne, hj⟩
    · cases hm
      exact hself
    · exact hothers j m hne hj
  · refine ⟨by simpa using hc.1, fun j m hj => ?_⟩
    rcases Configuration.proc_set hj with ⟨-, hm⟩ | ⟨-, hj⟩
    · cases hm
    · exact hc.2 j m hj
  · obtain ⟨hI, hothers⟩ := h.env hc hok hs
    exact ⟨hI, hothers⟩

/-- What every move keeps, a run keeps. -/
theorem Reaches.keeps {J : Configuration G L → Prop} (hJ : ∀ c c', J c → S.Steps ok c c' → J c')
    {c c' : Configuration G L} (hc : J c) (h : S.Reaches ok c c') : J c' := by
  induction h with
  | refl => exact hc
  | tail _ hstep ih => exact hJ _ _ ih hstep

theorem Reaches.inv (h : S.Invariant ok I P) {c c' : Configuration G L} (hc : Inv I P c)
    (hreach : S.Reaches ok c c') : Inv I P c' :=
  hreach.keeps (fun _ _ => h.steps) hc

/-- What every move keeps while the invariant holds, a run keeps. -/
theorem Reaches.lasts (h : S.Invariant ok I P) {J : Configuration G L → Prop}
    (hJ : ∀ c c', Inv I P c → J c → S.Steps ok c c' → J c') {c c' : Configuration G L}
    (hc : Inv I P c) (hbegin : J c) (hreach : S.Reaches ok c c') : J c' := by
  have hboth : Inv I P c' ∧ J c' :=
    Reaches.keeps (J := fun d => Inv I P d ∧ J d)
      (fun d d' hd hstep => ⟨h.steps hd.1 hstep, hJ d d' hd.1 hd.2 hstep⟩) ⟨hc, hbegin⟩ hreach
  exact hboth.2

/-- What every move keeps may be assumed at every move of a run. -/
theorem Reaches.assuming {J : Configuration G L → Prop}
    (hJ : ∀ c c', J c → S.Steps ok c c' → J c') {c c' : Configuration G L} (hc : J c)
    (h : S.Reaches ok c c') : S.Reaches (fun c m => ok c m ∧ J c) c c' ∧ J c' := by
  induction h with
  | refl => exact ⟨.refl, hc⟩
  | @tail d d' _ hstep ih =>
      obtain ⟨m, hok, hm⟩ := hstep
      exact ⟨ih.1.tail ⟨m, ⟨hok, ih.2⟩, hm⟩, hJ d d' ih.2 ⟨m, hok, hm⟩⟩

/-! ## Exclusion -/

/-- If a process comes to satisfy `k` only while no other one does, at most one process ever
satisfies it. -/
theorem Steps.atMostOne {k : L → Bool}
    (hspawn : ∀ n x g g' l, S.spawn n x g = some (g', l) → k l = false)
    (hstep : ∀ (c : Configuration G L) i a l g l', ok c (.step i a) → c.proc i = some l →
      S.step i a c.shared l = some (g, l') → k l' = true →
      k l = true ∨ c.others i (fun m => !k m) = true)
    {c c' : Configuration G L} (hc : c.AtMostOne k) (h : S.Steps ok c c') : c'.AtMostOne k := by
  rcases h.cases with ⟨x, g, l, -, hs, rfl⟩ | ⟨i, a, l, g, l', hok, hl, hs, rfl⟩ |
    ⟨i, -, rfl⟩ | ⟨e, g, -, -, rfl⟩
  · refine hc.append fun hl => ?_
    simp [hspawn _ _ _ _ _ hs] at hl
  · refine hc.set fun m heq hm j m' hne hj => ?_
    cases heq
    rcases hstep c i a l g l' hok hl hs hm with hold | hnone
    · exact Bool.eq_false_iff.mpr fun hm' => hne (hc j i m' l hj hl hm' hold)
    · simpa using Configuration.others_eq_true.mp hnone j m' hne hj
  · exact hc.set fun m heq => by cases heq
  · exact hc

/-! ## Playing a run -/

/-- Play the moves while they are possible and meet the condition. -/
def play (S : System G L ι α ε) (ok : Configuration G L → Move ι α ε → Prop)
    [∀ c m, Decidable (ok c m)] : List (Move ι α ε) → Configuration G L → Option (Configuration G L)
  | [], c => some c
  | m :: ms, c => if ok c m then (S.apply c m).bind (S.play ok ms) else none

/-- What is played is reached. -/
theorem reaches_of_play [∀ c m, Decidable (ok c m)] {ms : List (Move ι α ε)}
    {c c' : Configuration G L} (h : S.play ok ms c = some c') : S.Reaches ok c c' := by
  induction ms generalizing c with
  | nil =>
      cases h
      exact .refl
  | cons m ms ih =>
      simp only [play] at h
      split at h
      next hok =>
        obtain ⟨d, hd, h⟩ := Option.bind_eq_some_iff.mp h
        exact .head ⟨m, hok, hd⟩ (ih h)
      next => cases h

/-- What holds where a played run ends. -/
theorem exists_reaches_of_play (S : System G L ι α ε)
    (ok : Configuration G L → Move ι α ε → Prop) [∀ c m, Decidable (ok c m)]
    (ms : List (Move ι α ε)) (c : Configuration G L) (P : Configuration G L → Bool)
    (h : (S.play ok ms c).any P = true) : ∃ c', S.Reaches ok c c' ∧ P c' = true := by
  obtain ⟨c', hplay, hP⟩ := (Option.any_eq_true _ _).mp h
  exact ⟨c', reaches_of_play hplay, hP⟩

end System

end Processes
