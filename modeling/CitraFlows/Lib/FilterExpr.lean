-- SUMMARY: Boolean filter expressions of vector stores: comparisons of fields with constants, joined by and and or, how their texts are read and what they mean.
import Mathlib.Data.List.Basic
import Mathlib.Data.List.TakeWhile

/-!
# Filter expressions

`field == "text" and other == 5 or field == "y"` is a disjunction of conjunctions of comparisons.
A text constant stands in double quotes and ends at the next one; other constants end at a blank.
Of the expressions that stores accept this is the part without parentheses, escapes and other
operators: what is outside of it is not read here.
-/

namespace FilterExpr

structure Comparison (V : Type) where
  field : List Char
  value : V

/-- A disjunction of conjunctions -/
abbrev Expr (V : Type) := List (List (Comparison V))

variable {V : Type}

def Expr.Holds (equals : List Char → V → Prop) (e : Expr V) : Prop :=
  ∃ conj ∈ e, ∀ c ∈ conj, equals c.field c.value

theorem Expr.holds_singleton {equals : List Char → V → Prop} {conj : List (Comparison V)} :
    Expr.Holds equals [conj] ↔ ∀ c ∈ conj, equals c.field c.value := by
  simp [Expr.Holds]

/-! ## Reading -/

def isFieldChar (c : Char) : Bool := c.isAlphanum || c = '_'

section

variable (string : List Char → V) (constant : List Char → Option V)

/-- A constant, and what follows it -/
def readLiteral : List Char → Option (V × List Char)
  | '"' :: cs =>
      match cs.dropWhile (· ≠ '"') with
      | [] => none
      | _ :: rest =>
          if '\\' ∈ cs.takeWhile (· ≠ '"') then none
          else some (string (cs.takeWhile (· ≠ '"')), rest)
  | cs => (constant (cs.takeWhile (· ≠ ' '))).map fun v => (v, cs.dropWhile (· ≠ ' '))

/-- A comparison, and what follows it; what is a constant is no field. -/
def readComparison (cs : List Char) : Option (Comparison V × List Char) :=
  if cs.takeWhile isFieldChar = [] ∨ (constant (cs.takeWhile isFieldChar)).isSome then none
  else
    match cs.dropWhile isFieldChar with
    | ' ' :: '=' :: '=' :: ' ' :: rest =>
        (readLiteral string constant rest).map fun r => (⟨cs.takeWhile isFieldChar, r.1⟩, r.2)
    | _ => none

/-- A comparison in front of a conjunction -/
def andThen (c : Comparison V) : Expr V → Expr V
  | [] => [[c]]
  | conj :: e => (c :: conj) :: e

/-- An expression; `fuel` bounds the number of its comparisons. -/
def readFrom : Nat → List Char → Option (Expr V)
  | 0, _ => none
  | fuel + 1, cs =>
      match readComparison string constant cs with
      | none => none
      | some (c, []) => some [[c]]
      | some (c, ' ' :: 'a' :: 'n' :: 'd' :: ' ' :: rest) => (readFrom fuel rest).map (andThen c)
      | some (c, ' ' :: 'o' :: 'r' :: ' ' :: rest) => (readFrom fuel rest).map ([c] :: ·)
      | some _ => none

def readExpr (cs : List Char) : Option (Expr V) := readFrom string constant cs.length cs

/-! ## Texts that are written -/

/-- The text is a constant. -/
inductive IsLiteral : List Char → V → Prop
  | string {body : List Char} : '"' ∉ body → '\\' ∉ body →
      IsLiteral ('"' :: (body ++ ['"'])) (string body)
  | constant {c : Char} {cs : List Char} {v : V} : c ≠ '"' → ' ' ∉ c :: cs →
      constant (c :: cs) = some v → IsLiteral (c :: cs) v

/-- A field that is written as it is -/
def IsField (field : List Char) : Prop :=
  field ≠ [] ∧ (∀ c ∈ field, isFieldChar c = true) ∧ constant field = none

/-- A value that is written as a text or as a constant -/
def IsValue (v : V) : Prop :=
  (∃ body, '"' ∉ body ∧ '\\' ∉ body ∧ v = string body) ∨ ∃ cs, constant cs = some v

/-- A comparison as it is written -/
structure Written (V : Type) where
  field : List Char
  literal : List Char
  value : V

def Written.comparison (w : Written V) : Comparison V := { field := w.field, value := w.value }

def comparisonText (field literal : List Char) : List Char := field ++ (" == ".toList ++ literal)

variable {string constant}

theorem takeWhile_stop (p : Char → Bool) (xs ys : List Char) (hxs : ∀ x ∈ xs, p x = true)
    (hys : ∀ y ∈ ys.head?, p y = false) :
    (xs ++ ys).takeWhile p = xs ∧ (xs ++ ys).dropWhile p = ys := by
  rw [List.takeWhile_append_of_pos hxs, List.dropWhile_append_of_pos hxs]
  cases ys with
  | nil => simp
  | cons y ys => simp [hys y rfl]

theorem IsLiteral.read {literal rest : List Char} {v : V} (h : IsLiteral string constant literal v)
    (hrest : ∀ c ∈ rest.head?, c = ' ') :
    readLiteral string constant (literal ++ rest) = some (v, rest) := by
  cases h with
  | @string body hquote hescape =>
      have hstop := takeWhile_stop (· ≠ '"') body ('"' :: rest)
        (fun c hc => decide_eq_true fun h => hquote (h ▸ hc)) (by simp)
      rw [List.cons_append, List.append_assoc, List.singleton_append, readLiteral, hstop.1, hstop.2]
      simp [hescape]
  | @constant c cs v hc hblank hconstant =>
      have hstop := takeWhile_stop (· ≠ ' ') (c :: cs) rest
        (fun d hd => decide_eq_true fun h => hblank (h ▸ hd))
        (fun d hd => by simp [hrest d hd])
      rw [List.cons_append] at hstop ⊢
      rw [readLiteral, hstop.1, hstop.2, hconstant]
      · rfl
      · intro cs' heq
        exact hc (List.cons.inj heq).1

theorem readComparison_append {field literal rest : List Char} {v : V}
    (hfield : IsField constant field)
    (h : IsLiteral string constant literal v) (hrest : ∀ c ∈ rest.head?, c = ' ') :
    readComparison string constant (comparisonText field literal ++ rest) =
      some (⟨field, v⟩, rest) := by
  have hstop := takeWhile_stop isFieldChar field (" == ".toList ++ (literal ++ rest))
    hfield.2.1 (by simp [isFieldChar])
  have hname : ¬ (field = [] ∨ (constant field).isSome = true) := by
    rw [hfield.2.2]
    exact fun h => h.elim hfield.1 (fun h => by cases h)
  rw [comparisonText, List.append_assoc, List.append_assoc, readComparison, hstop.1, hstop.2,
    if_neg hname]
  simp only [String.reduceToList, List.cons_append, List.nil_append, h.read hrest, Option.map_some]

/-- Written comparisons with `and` between them -/
def conjunctionText (ws : List (Written V)) : List Char :=
  " and ".toList.intercalate (ws.map fun w => comparisonText w.field w.literal)

theorem conjunctionText_cons (w w' : Written V) (ws : List (Written V)) :
    conjunctionText (w :: w' :: ws) =
      comparisonText w.field w.literal ++ (" and ".toList ++ conjunctionText (w' :: ws)) := by
  rw [conjunctionText, List.map_cons, List.map_cons, List.intercalate_cons_cons, List.append_assoc]
  rfl

theorem length_conjunctionText (ws : List (Written V)) :
    ws.length ≤ (conjunctionText ws).length := by
  induction ws with
  | nil => exact Nat.zero_le _
  | cons w ws ih =>
      cases ws with
      | nil =>
          simp only [conjunctionText, comparisonText, List.map_singleton,
            List.intercalate_singleton, List.length_append, List.length_singleton]
          simp
          omega
      | cons w' ws =>
          rw [conjunctionText_cons, List.length_append, List.length_append, List.length_cons]
          have hand : " and ".toList.length = 5 := by simp
          omega

/-- A conjunction is read as the comparisons that are written. -/
theorem readFrom_conjunction {ws : List (Written V)} (hne : ws ≠ [])
    (hfield : ∀ w ∈ ws, IsField constant w.field)
    (hliteral : ∀ w ∈ ws, IsLiteral string constant w.literal w.value) {fuel : Nat}
    (hfuel : ws.length ≤ fuel) :
    readFrom string constant fuel (conjunctionText ws) = some [ws.map Written.comparison] := by
  induction ws generalizing fuel with
  | nil => cases hne rfl
  | cons w ws ih =>
      obtain ⟨fuel, rfl⟩ : ∃ k, fuel = k + 1 := Nat.exists_eq_add_one.mpr (by simp at hfuel; omega)
      have hw := hfield w List.mem_cons_self
      have hlit := hliteral w List.mem_cons_self
      cases ws with
      | nil =>
          have hread : readComparison string constant (comparisonText w.field w.literal ++ []) =
              some (w.comparison, []) := readComparison_append hw hlit (by simp)
          rw [List.append_nil] at hread
          rw [conjunctionText, List.map_singleton, List.intercalate_singleton, readFrom, hread]
          rfl
      | cons w' ws =>
          have hread := readComparison_append hw hlit
            (show ∀ c ∈ (" and ".toList ++ conjunctionText (w' :: ws)).head?, c = ' ' by simp)
          have hrest := ih (List.cons_ne_nil w' ws)
            (fun v hv => hfield v (List.mem_cons_of_mem w hv))
            (fun v hv => hliteral v (List.mem_cons_of_mem w hv)) (Nat.le_of_succ_le_succ hfuel)
          rw [conjunctionText_cons, readFrom, hread]
          simp only [String.reduceToList, List.cons_append, List.nil_append, hrest, Option.map_some]
          rfl

theorem readExpr_conjunction {ws : List (Written V)} (hne : ws ≠ [])
    (hfield : ∀ w ∈ ws, IsField constant w.field)
    (hliteral : ∀ w ∈ ws, IsLiteral string constant w.literal w.value) :
    readExpr string constant (conjunctionText ws) = some [ws.map Written.comparison] :=
  readFrom_conjunction hne hfield hliteral (length_conjunctionText ws)

/-! ## What is read -/

theorem isValue_of_readLiteral {cs : List Char} {r : V × List Char}
    (h : readLiteral string constant cs = some r) : IsValue string constant r.1 := by
  unfold readLiteral at h
  split at h
  next cs =>
    split at h
    next => cases h
    next =>
      split at h
      next => cases h
      next hescape =>
        cases h
        refine .inl ⟨_, fun hquote => ?_, hescape, rfl⟩
        have hne := List.mem_takeWhile_imp hquote
        simp at hne
  next =>
    obtain ⟨v, hv, rfl⟩ := Option.map_eq_some_iff.mp h
    exact .inr ⟨_, hv⟩

/-- The field and the value of a comparison that is read -/
def Comparison.IsRead (string : List Char → V) (constant : List Char → Option V)
    (c : Comparison V) : Prop :=
  IsField constant c.field ∧ IsValue string constant c.value

theorem isRead_of_readComparison {cs : List Char} {r : Comparison V × List Char}
    (h : readComparison string constant cs = some r) : r.1.IsRead string constant := by
  unfold readComparison at h
  split at h
  next => cases h
  next hname =>
    rw [not_or, Bool.not_eq_true, Option.isSome_eq_false_iff, Option.isNone_iff_eq_none] at hname
    split at h
    next =>
      obtain ⟨r, hr, rfl⟩ := Option.map_eq_some_iff.mp h
      exact ⟨⟨hname.1, fun c hc => List.mem_takeWhile_imp hc, hname.2⟩, isValue_of_readLiteral hr⟩
    next => cases h

/-- All comparisons of an expression that is read -/
def Expr.IsRead (string : List Char → V) (constant : List Char → Option V) (e : Expr V) : Prop :=
  e ≠ [] ∧ ∀ conj ∈ e, ∀ c ∈ conj, c.IsRead string constant

theorem Expr.IsRead.andThen {c : Comparison V} {e : Expr V} (hc : c.IsRead string constant)
    (he : e.IsRead string constant) : Expr.IsRead string constant (andThen c e) := by
  obtain ⟨hne, hall⟩ := he
  cases e with
  | nil => cases hne rfl
  | cons conj e =>
      obtain ⟨hconj, he⟩ := List.forall_mem_cons.mp hall
      exact ⟨List.cons_ne_nil _ _, List.forall_mem_cons.mpr
        ⟨List.forall_mem_cons.mpr ⟨hc, hconj⟩, he⟩⟩

theorem isRead_of_readFrom {fuel : Nat} {cs : List Char} {e : Expr V}
    (h : readFrom string constant fuel cs = some e) : e.IsRead string constant := by
  induction fuel generalizing cs e with
  | zero => cases h
  | succ fuel ih =>
      rw [readFrom] at h
      split at h
      next => cases h
      next c hread =>
        cases h
        have hc : c.IsRead string constant := isRead_of_readComparison hread
        exact ⟨List.cons_ne_nil _ _, by simpa using hc⟩
      next c rest hread =>
        obtain ⟨e, he, rfl⟩ := Option.map_eq_some_iff.mp h
        exact (ih he).andThen (isRead_of_readComparison hread)
      next c rest hread =>
        obtain ⟨e, he, rfl⟩ := Option.map_eq_some_iff.mp h
        have hc : c.IsRead string constant := isRead_of_readComparison hread
        exact ⟨List.cons_ne_nil _ _, List.forall_mem_cons.mpr ⟨by simpa using hc, (ih he).2⟩⟩
      next => cases h

end

end FilterExpr
