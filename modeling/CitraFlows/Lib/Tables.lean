-- SUMMARY: Tables: documents under ids of their own, in the order of their insertion, and the part of a table that a predicate selects.
import Mathlib.Logic.Function.Basic

/-!
# Tables

A table holds documents under ids, and remembers the order in which they were inserted. A reader
who may see some of the documents only sees the restriction of the table to them; a write to one
document is a write to the restriction or leaves it as it is.
-/

/-- Documents under ids, in the order of their insertion. -/
structure Table (α : Type) where
  ids : List String := []
  get : String → Option α := fun _ => none

namespace Table

variable {α : Type} {t u : Table α} {p q : α → Bool} {id : String} {x : α} {f : α → α}

/-- The id was inserted. -/
def has (t : Table α) (id : String) : Bool := t.ids.contains id || (t.get id).isSome

def insert (t : Table α) (id : String) (x : α) : Table α where
  ids := t.ids ++ [id]
  get := Function.update t.get id (some x)

/-- A change of one document, if it is there. -/
def modify (t : Table α) (id : String) (f : α → α) : Table α :=
  { t with get := Function.update t.get id ((t.get id).map f) }

/-- The documents that satisfy a predicate, in the order of their insertion. -/
def select (t : Table α) (p : α → Bool) : List α := t.ids.filterMap fun id => (t.get id).filter p

/-- The table without the documents that do not satisfy a predicate. -/
def restrict (t : Table α) (p : α → Bool) : Table α where
  ids := t.ids.filter fun id => (t.get id).any p
  get id := (t.get id).filter p

@[simp] theorem get_restrict : (t.restrict p).get id = (t.get id).filter p := rfl

@[simp] theorem get_insert_self : (t.insert id x).get id = some x := Function.update_self ..

@[simp] theorem get_modify_self : (t.modify id f).get id = (t.get id).map f :=
  Function.update_self ..

theorem get_insert_of_ne {id' : String} (h : id' ≠ id) : (t.insert id x).get id' = t.get id' :=
  Function.update_of_ne h ..

theorem get_modify_of_ne {id' : String} (h : id' ≠ id) : (t.modify id f).get id' = t.get id' :=
  Function.update_of_ne h ..

theorem has_of_get (h : t.get id = some x) : t.has id = true := by simp [has, h]

theorem has_eq_false : t.has id = false ↔ id ∉ t.ids ∧ t.get id = none := by simp [has]

theorem has_insert {id' : String} : (t.insert id x).has id' = (t.has id' || id' == id) := by
  by_cases heq : id' = id
  · subst heq
    simp [has]
  · rw [has, get_insert_of_ne heq, beq_eq_false_iff_ne.mpr heq, Bool.or_false, has]
    simp [insert, heq]

theorem has_modify {id' : String} : (t.modify id f).has id' = t.has id' := by
  by_cases heq : id' = id
  · subst heq
    simp [has, modify]
  · rw [has, get_modify_of_ne heq]
    rfl

theorem mem_select : x ∈ t.select p ↔ ∃ id ∈ t.ids, t.get id = some x ∧ p x = true := by
  simp [select, List.mem_filterMap, Option.filter_eq_some_iff]

/-- What holds of all documents holds after an insertion. -/
theorem forall_get_insert {P : String → α → Prop} (h : ∀ id x, t.get id = some x → P id x)
    (hx : P id x) : ∀ id' y, (t.insert id x).get id' = some y → P id' y := by
  intro id' y hy
  by_cases heq : id' = id
  · subst heq
    rw [get_insert_self] at hy
    cases hy
    exact hx
  · exact h id' y ((get_insert_of_ne heq).symm.trans hy)

theorem forall_get_modify {P : String → α → Prop} (h : ∀ id x, t.get id = some x → P id x)
    (hf : ∀ x, t.get id = some x → P id (f x)) :
    ∀ id' y, (t.modify id f).get id' = some y → P id' y := by
  intro id' y hy
  by_cases heq : id' = id
  · subst heq
    rw [get_modify_self] at hy
    obtain ⟨x, hx, rfl⟩ := Option.map_eq_some_iff.mp hy
    exact hf x hx
  · exact h id' y ((get_modify_of_ne heq).symm.trans hy)

/-- A change of what is not there. -/
theorem modify_of_none (h : t.get id = none) : t.modify id f = t := by
  have hget : Function.update t.get id ((t.get id).map f) = t.get := by
    rw [h, Option.map_none, ← h, Function.update_eq_self]
  rw [modify, hget]

/-! ## Restrictions -/

theorem restrict_congr (h : ∀ id x, t.get id = some x → p x = q x) :
    t.restrict p = t.restrict q := by
  have hany : ∀ id, (t.get id).any p = (t.get id).any q := by
    intro id
    cases hx : t.get id with
    | none => rfl
    | some x => exact h id x hx
  have hfilter : ∀ id, (t.get id).filter p = (t.get id).filter q := by
    intro id
    cases hx : t.get id with
    | none => rfl
    | some x => rw [Option.filter_some, Option.filter_some, h id x hx]
  simp only [restrict, hany, hfilter]

theorem select_restrict (hsub : ∀ x, q x = true → p x = true) :
    (t.restrict p).select q = t.select q := by
  have hfilter : ∀ id, ((t.get id).filter p).filter q = (t.get id).filter q := by
    intro id
    cases hx : t.get id with
    | none => rfl
    | some x =>
        cases hq : q x with
        | true => simp [Option.filter_some, hsub x hq]
        | false => cases hp : p x <;> simp [Option.filter_some, hp, hq]
  have hids : ∀ ids : List String,
      ((ids.filter fun id => (t.get id).any p).filterMap fun id => ((t.get id).filter p).filter q) =
        ids.filterMap fun id => (t.get id).filter q := by
    intro ids
    induction ids with
    | nil => rfl
    | cons id ids ih =>
        cases hx : (t.get id).any p with
        | true =>
            rw [List.filter_cons, hx, if_pos rfl, List.filterMap_cons, List.filterMap_cons, hfilter,
              ih]
        | false =>
            have hnone : (t.get id).filter q = none := by
              rw [← hfilter]
              cases hid : t.get id with
              | none => rfl
              | some x =>
                  rw [hid, Option.any_some] at hx
                  simp [Option.filter_some, hx]
            rw [List.filter_cons, hx, if_neg (by simp), List.filterMap_cons, hnone]
            exact ih
  exact hids t.ids

/-- What is selected among the documents that are kept depends on the restriction only. -/
theorem select_eq_of_restrict (h : t.restrict p = u.restrict p)
    (hsub : ∀ x, q x = true → p x = true) : t.select q = u.select q := by
  rw [← select_restrict hsub, h, select_restrict hsub]

theorem filter_get_of_restrict (h : t.restrict p = u.restrict p) (id : String) :
    (t.get id).filter p = (u.get id).filter p :=
  congrFun (congrArg get h) id

/-- A document that is kept is the same in both tables. -/
theorem get_of_restrict (h : t.restrict p = u.restrict p) (hx : t.get id = some x)
    (hp : p x = true) : u.get id = some x := by
  have hfilter := filter_get_of_restrict h id
  rw [hx, Option.filter_some, if_pos hp] at hfilter
  exact (Option.filter_eq_some_iff.mp hfilter.symm).1

private theorem ids_update (hid : id ∉ t.ids) (o : Option α) :
    (t.ids.filter fun i => (Function.update t.get id o i).any p) =
      t.ids.filter fun i => (t.get i).any p := by
  refine List.filter_congr fun i hi => ?_
  have hne : i ≠ id := by
    rintro rfl
    exact hid hi
  rw [Function.update_of_ne hne]

private theorem filter_update (t : Table α) (id : String) (o : Option α) :
    (fun i => (Function.update t.get id o i).filter p) =
      Function.update (fun i => (t.get i).filter p) id (o.filter p) := by
  funext i
  by_cases heq : i = id
  · rw [heq, Function.update_self, Function.update_self]
  · rw [Function.update_of_ne heq, Function.update_of_ne heq]

/-- A new document that is kept. -/
theorem restrict_insert (hnew : t.has id = false) (hx : p x = true) :
    (t.insert id x).restrict p = (t.restrict p).insert id x := by
  obtain ⟨hid, -⟩ := has_eq_false.mp hnew
  unfold restrict insert
  congr 1
  · rw [List.filter_append, ids_update hid, List.filter_cons_of_pos (by simp [hx]), List.filter_nil]
  · exact (filter_update t id (some x)).trans (by rw [Option.filter_some, if_pos hx])

/-- A new document that is not kept. -/
theorem restrict_insert_of_not (hnew : t.has id = false) (hx : p x = false) :
    (t.insert id x).restrict p = t.restrict p := by
  obtain ⟨hid, hnone⟩ := has_eq_false.mp hnew
  unfold restrict insert
  congr 1
  · rw [List.filter_append, ids_update hid, List.filter_cons_of_neg (by simp [hx]), List.filter_nil,
      List.append_nil]
  · refine (filter_update t id (some x)).trans ?_
    rw [Option.filter_some, if_neg (by simp [hx])]
    exact Function.update_eq_self_iff.mpr (by rw [hnone]; rfl)

/-- A change after which a document is kept if it was before. -/
theorem restrict_modify (hf : ∀ x, t.get id = some x → p (f x) = p x) :
    (t.modify id f).restrict p = (t.restrict p).modify id f := by
  have hmap : ((t.get id).map f).filter p = ((t.get id).filter p).map f := by
    cases hx : t.get id with
    | none => rfl
    | some x =>
        rw [Option.map_some, Option.filter_some, Option.filter_some, hf x hx]
        split <;> rfl
  unfold restrict modify
  congr 1
  · refine List.filter_congr fun i _ => ?_
    show (Function.update t.get id ((t.get id).map f) i).any p = (t.get i).any p
    by_cases heq : i = id
    · subst heq
      rw [Function.update_self]
      cases hx : t.get i with
      | none => rfl
      | some x => exact hf x hx
    · rw [Function.update_of_ne heq]
  · exact (filter_update t id _).trans (by rw [hmap])

/-- A change of a document that is not kept. -/
theorem restrict_modify_of_not (hf : ∀ x, t.get id = some x → p (f x) = p x)
    (hx : (t.get id).any p = false) : (t.modify id f).restrict p = t.restrict p := by
  rw [restrict_modify hf, modify_of_none]
  rw [get_restrict, Option.filter_eq_none_iff]
  intro x hid hp
  rw [hid, Option.any_some, hp] at hx
  cases hx

end Table
