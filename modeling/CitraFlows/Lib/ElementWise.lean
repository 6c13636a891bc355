-- SUMMARY: Two lists related element by element: what the relation carries over, sums, and computations that may fail.
import Mathlib.Algebra.Ring.Nat
import Mathlib.Data.List.Forall2

/-!
# Lists element by element

`List.Forall₂` relates the elements of two lists in their order. A computation that is run on every
element of a list, and stops at the first that fails, is such a relation when it returns.
-/

namespace ElementWise

variable {α β ε : Type} {as : List α} {bs : List β} {R S : α → β → Prop}

/-- The relation may use where its left side comes from. -/
theorem forall₂_of_mem (h : List.Forall₂ R as bs) (himp : ∀ a ∈ as, ∀ b, R a b → S a b) :
    List.Forall₂ S as bs :=
  ((List.forall₂_and_left as bs).mpr ⟨himp, h⟩).imp fun _ b h => h.1 b h.2

theorem forall₂_and (h : List.Forall₂ R as bs) (h' : List.Forall₂ S as bs) :
    List.Forall₂ (fun a b => R a b ∧ S a b) as bs :=
  List.Forall₂.mp (fun _ _ => And.intro) h h'

theorem forall₂_comp {γ : Type} {T : β → γ → Prop} {cs : List γ} :
    List.Forall₂ (fun a c => ∃ b, R a b ∧ T b c) as cs ↔
      ∃ bs, List.Forall₂ R as bs ∧ List.Forall₂ T bs cs := by
  constructor
  · intro h
    induction h with
    | nil => exact ⟨[], .nil, .nil⟩
    | cons hac _ ih =>
        obtain ⟨b, hab, hbc⟩ := hac
        obtain ⟨bs, has, hcs⟩ := ih
        exact ⟨b :: bs, .cons hab has, .cons hbc hcs⟩
  · rintro ⟨bs, has, hcs⟩
    induction has generalizing cs with
    | nil =>
        cases hcs
        exact .nil
    | cons hab _ ih =>
        cases hcs with
        | cons hbc hcs => exact .cons ⟨_, hab, hbc⟩ (ih hcs)

theorem exists_forall₂ (h : ∀ a ∈ as, ∃ b, R a b) : ∃ bs, List.Forall₂ R as bs := by
  induction as with
  | nil => exact ⟨[], .nil⟩
  | cons a as ih =>
      obtain ⟨⟨b, hb⟩, h⟩ := List.forall_mem_cons.mp h
      obtain ⟨bs, hbs⟩ := ih h
      exact ⟨b :: bs, .cons hb hbs⟩

theorem exists_of_mem_right (h : List.Forall₂ R as bs) : ∀ b ∈ bs, ∃ a ∈ as, R a b := by
  induction h with
  | nil => exact fun _ h => (by cases h)
  | cons hab _ ih =>
      refine List.forall_mem_cons.mpr ⟨⟨_, List.mem_cons_self, hab⟩, fun b hb => ?_⟩
      obtain ⟨a, ha, h⟩ := ih b hb
      exact ⟨a, List.mem_cons_of_mem _ ha, h⟩

theorem exists_of_mem_left (h : List.Forall₂ R as bs) : ∀ a ∈ as, ∃ b ∈ bs, R a b :=
  exists_of_mem_right h.flip

theorem optionRel_comp {γ : Type} {T : β → γ → Prop} {U : α → γ → Prop} {x : Option α}
    {y : Option β} {z : Option γ} (h : Option.Rel R x y) (h' : Option.Rel T y z)
    (himp : ∀ a b c, R a b → T b c → U a c) : Option.Rel U x z := by
  cases h with
  | none =>
      cases h'
      exact .none
  | some h =>
      cases h' with
      | some h' => exact .some (himp _ _ _ h h')

/-! ## Sums -/

section

variable {f : α → Nat} {g : β → Nat}

theorem sum_map_le (h : List.Forall₂ (fun a b => g b ≤ f a) as bs) :
    (bs.map g).sum ≤ (as.map f).sum := by
  induction h with
  | nil => exact Nat.le_refl _
  | cons hab _ ih => exact Nat.add_le_add hab ih

theorem sum_map_eq (h : List.Forall₂ (fun a b => g b = f a) as bs) :
    (bs.map g).sum = (as.map f).sum := by
  induction h with
  | nil => rfl
  | cons hab _ ih => rw [List.map_cons, List.sum_cons, List.map_cons, List.sum_cons, hab, ih]

/-- Sums of parts that are no larger are equal only if the parts are. -/
theorem eq_of_sum_map_eq (h : List.Forall₂ (fun a b => g b ≤ f a) as bs)
    (heq : (bs.map g).sum = (as.map f).sum) : List.Forall₂ (fun a b => g b = f a) as bs := by
  induction h with
  | nil => exact .nil
  | cons hab hrest ih =>
      have hle := sum_map_le hrest
      rw [List.map_cons, List.sum_cons, List.map_cons, List.sum_cons] at heq
      exact .cons (by omega) (ih (by omega))

end

/-! ## Computations that may fail -/

variable {f : α → Except ε β}

/-- A check of every element passes exactly when each single check does. -/
theorem forM_eq_ok {f : α → Except ε Unit} :
    as.forM f = .ok () ↔ ∀ a ∈ as, f a = .ok () := by
  induction as with
  | nil => simp [pure, Except.pure]
  | cons a as ih =>
      rw [List.forall_mem_cons, ← ih]
      cases h : f a with
      | error e => simp [List.forM, h, bind, Except.bind]
      | ok u => simp [List.forM, h, bind, Except.bind]

/-- The results are those of the elements. -/
theorem mapM_eq_ok : as.mapM f = .ok bs ↔ List.Forall₂ (fun a b => f a = .ok b) as bs := by
  induction as generalizing bs with
  | nil =>
      rw [List.mapM_nil, List.forall₂_nil_left_iff]
      exact ⟨fun h => (Except.ok.inj h).symm, fun h => h ▸ rfl⟩
  | cons a as ih =>
      rw [List.mapM_cons, List.forall₂_cons_left_iff]
      constructor
      · intro h
        cases ha : f a with
        | error e =>
            rw [ha] at h
            cases h
        | ok b =>
            cases has : as.mapM f with
            | error e =>
                rw [ha, has] at h
                cases h
            | ok bs' =>
                rw [ha, has] at h
                cases h
                exact ⟨b, bs', rfl, ih.mp has, rfl⟩
      · rintro ⟨b, bs', ha, has, rfl⟩
        rw [ha, ih.mpr has]
        rfl

theorem exists_mapM (h : ∀ a ∈ as, ∃ b, f a = .ok b) : ∃ bs, as.mapM f = .ok bs :=
  (exists_forall₂ h).imp fun _ => mapM_eq_ok.mpr

end ElementWise
