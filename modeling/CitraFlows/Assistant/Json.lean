-- SUMMARY: JSON values as Python compares and changes them: equality, and dicts with their assignments and removals.
import CitraFlows.Python
import Mathlib.Data.List.Sort

/-!
# JSON values

The assistant's tools and the diff compare ids with `==` and change dicts in place. Two values
are equal if their parts are, in a fixed order of the keys; a bool and a float may equal an
integer.
-/

namespace CitraFlows

namespace Value

/-! ## Equality -/

/-- A part of a value; a list and a dict say how many elements follow. -/
inductive Part where
  | none
  | number (x : Rat)
  | text (s : String)
  | list (length : Nat)
  | dict (length : Nat)
  | key (name : String)
  deriving DecidableEq

mutual

/-- The parts of a value, the entries of a dict in the order of their keys. -/
def parts : Value → List Part
  | .none => [.none]
  | .bool b => [.number (if b then 1 else 0)]
  | .int n => [.number n]
  | .float x => [.number x.val]
  | .str s => [.text s]
  | .list xs => .list xs.length :: partsList xs
  | .dict fields =>
      .dict fields.length ::
        ((partsFields fields).insertionSort (·.1 ≤ ·.1)).flatMap fun p => .key p.1 :: p.2

private def partsList : List Value → List Part
  | [] => []
  | v :: vs => parts v ++ partsList vs

private def partsFields : List (String × Value) → List (String × List Part)
  | [] => []
  | p :: ps => partsField p :: partsFields ps

private def partsField : String × Value → String × List Part
  | (k, v) => (k, parts v)

end

/-- `a == b` -/
def eq (a b : Value) : Bool := a.parts = b.parts

@[simp] theorem eq_iff {a b : Value} : eq a b = true ↔ a.parts = b.parts := by
  simp [eq]

example : eq (.dict [("a", .int 1), ("b", .bool true)])
    (.dict [("b", .float ⟨1, "1.0"⟩), ("a", .bool true)]) = true := by decide +kernel

/-- Only `None` equals `None`. -/
theorem parts_eq_none {v : Value} : v.parts = [.none] ↔ v = .none := by
  cases v <;> simp [parts]

end Value

/-! ## Dicts -/

/-- The entries of a dict, in the order of their insertion. -/
abbrev Entries := List (String × Value)

namespace Entries

/-- `d[key] = value` -/
def put (key : String) (value : Value) : Entries → Entries
  | [] => [(key, value)]
  | (k, v) :: d => if k = key then (k, value) :: d else (k, v) :: put key value d

/-- `d.pop(key, None)` -/
def pop (key : String) (d : Entries) : Entries := d.filter (·.1 ≠ key)

/-- `d.update(e)` -/
def update (d e : Entries) : Entries := e.foldl (fun d p => d.put p.1 p.2) d

/-- `d.setdefault(key, value)` -/
def setdefault (key : String) (value : Value) (d : Entries) : Entries :=
  if (Value.field d key).isSome then d else d.put key value

/-- `d.get(key) or default` -/
def getOr (d : Entries) (key : String) (default : Value) : Value :=
  if (Value.getD d key).truthy then Value.getD d key else default

variable {key key' : String} {value : Value} {d : Entries}

@[simp] theorem field_put_self : Value.field (d.put key value) key = some value := by
  induction d with
  | nil => simp [put, Value.field]
  | cons p d ih =>
      obtain ⟨k, v⟩ := p
      simp only [put]
      split
      next heq => simp [Value.field, heq]
      next hne =>
        have hkey : (key == k) = false := by simpa using Ne.symm hne
        simpa [Value.field, List.lookup_cons, hkey] using ih

theorem field_put_of_ne (hne : key' ≠ key) :
    Value.field (d.put key value) key' = Value.field d key' := by
  induction d with
  | nil =>
      have hkey : (key' == key) = false := by simpa using hne
      simp [put, Value.field, List.lookup_cons, hkey]
  | cons p d ih =>
      obtain ⟨k, v⟩ := p
      simp only [put]
      split
      next heq =>
        subst heq
        have hkey : (key' == k) = false := by simpa using hne
        simp [Value.field, List.lookup_cons, hkey]
      next =>
        simp only [Value.field, List.lookup_cons] at ih ⊢
        split
        next => rfl
        next => exact ih

@[simp] theorem getD_put_self : Value.getD (d.put key value) key = value := by
  simp [Value.getD]

theorem getD_put_of_ne (hne : key' ≠ key) :
    Value.getD (d.put key value) key' = Value.getD d key' := by
  rw [Value.getD, Value.getD, field_put_of_ne hne]

/-- An entry that is there stays. -/
theorem field_setdefault_self :
    Value.field (d.setdefault key value) key = some ((Value.field d key).getD value) := by
  unfold setdefault
  split
  next hsome =>
    obtain ⟨v, hv⟩ := Option.isSome_iff_exists.mp hsome
    simp [hv]
  next hnone => simp [Option.not_isSome_iff_eq_none.mp hnone]

theorem field_setdefault_of_ne (hne : key' ≠ key) :
    Value.field (d.setdefault key value) key' = Value.field d key' := by
  unfold setdefault
  split
  next => rfl
  next => exact field_put_of_ne hne

/-- The entries under other keys, in their order. -/
theorem filter_put (p : String → Bool) (hkey : p key = false) :
    (d.put key value).filter (fun e => p e.1) = d.filter fun e => p e.1 := by
  induction d with
  | nil => simp [put, hkey]
  | cons e d ih =>
      obtain ⟨k, v⟩ := e
      simp only [put]
      split
      next heq =>
        subst heq
        simp [hkey]
      next => rw [List.filter_cons, List.filter_cons, ih]

theorem filter_setdefault (p : String → Bool) (hkey : p key = false) :
    (d.setdefault key value).filter (fun e => p e.1) = d.filter fun e => p e.1 := by
  unfold setdefault
  split
  next => rfl
  next => exact filter_put p hkey

theorem field_filter (p : String → Bool) (hkey : p key = true) :
    Value.field (d.filter fun e => p e.1) key = Value.field d key := by
  induction d with
  | nil => rfl
  | cons e d ih =>
      obtain ⟨k, v⟩ := e
      simp only [Value.field] at ih ⊢
      rw [List.filter_cons]
      split
      next =>
        rw [List.lookup_cons, List.lookup_cons, ih]
      next hk =>
        have hne : (key == k) = false := by
          rw [beq_eq_false_iff_ne]
          rintro rfl
          exact hk hkey
        rw [ih, List.lookup_cons, hne]

theorem field_filter_none (p : String → Bool) (hkey : p key = false) :
    Value.field (d.filter fun e => p e.1) key = none := by
  rw [Value.field, List.lookup_eq_none_iff]
  intro e he
  obtain ⟨-, hp⟩ := List.mem_filter.mp he
  rw [bne_iff_ne]
  rintro rfl
  rw [hkey] at hp
  cases hp

end Entries

end CitraFlows
