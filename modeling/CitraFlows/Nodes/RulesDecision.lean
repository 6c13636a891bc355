-- SUMMARY: When the rules engine decides, without a model, just the rule that the text states.
import CitraFlows.Nodes.RulesText
import CitraFlows.Nodes.SqlGuards
import Mathlib

/-!
# Rules that are decided as they are written

A rule is a conjunction or a disjunction of comparisons, with its text. The engine decides it on
the fields that it names if there is no `or` in it, if no name is cut or rewritten on the way from
the text to the keys of the record, and if no number is rounded.
-/

namespace CitraFlows

open Python
open SqlGuards (toNat_of_isAlpha isspace_of_isAlpha)

namespace RulesText

/-! ## Rules and their texts -/

def Blank (cs : List Char) : Prop := ∀ c ∈ cs, isspace c = true

instance (cs : List Char) : Decidable (Blank cs) :=
  List.decidableBAll (fun c => isspace c = true) cs

/-- The characters operators are made of -/
def isOpChar (c : Char) : Bool := c = '<' || c = '>' || c = '=' || c = '!'

/-- The spellings of an operator -/
def Op.spellings : Op → List String
  | .lt => ["<"]
  | .le => ["<="]
  | .gt => [">"]
  | .ge => [">="]
  | .eq => ["==", "="]
  | .ne => ["!=", "<>"]

/-- A comparison of a field with a number, as it is written. The operator does not go on what
stands before it. -/
structure Comparison where
  field : List Char
  gap : List Char
  op : Op
  sign : List Char
  space : List Char
  numeral : List Char
  number : Rat
  gap_blank : Blank gap
  space_blank : Blank space
  sign_spells : String.ofList sign ∈ op.spellings
  sign_alone : ∀ c ∈ (field ++ gap).getLast?, isOpChar c = false
  numeral_reads : matchNumber numeral = some (number, [])

def Comparison.text (c : Comparison) : List Char :=
  c.field ++ (c.gap ++ (c.sign ++ (c.space ++ c.numeral)))

inductive Connective where
  | and
  | or
  deriving DecidableEq

def Connective.text : Connective → String
  | .and => "and"
  | .or => "or"

/-- What stands between two comparisons -/
inductive Joint where
  | comma (left right : List Char)
  | word (left w right : List Char)
  | commaWord (left middle w right : List Char)

def Joint.text : Joint → List Char
  | .comma left right => left ++ (',' :: right)
  | .word left w right => left ++ (w ++ right)
  | .commaWord left middle w right => left ++ (',' :: (middle ++ (w ++ right)))

/-- The joint stands for the connective: a comma alone stands for `and`, and the word may be in
capitals. -/
def Joint.Joins (connective : Connective) : Joint → Prop
  | .comma left right => connective = .and ∧ Blank left ∧ Blank right
  | .word left w right =>
      Blank left ∧ left ≠ [] ∧ Blank right ∧ right ≠ [] ∧
        w.map Char.toLower = connective.text.toList
  | .commaWord left middle w right =>
      Blank left ∧ Blank middle ∧ Blank right ∧ right ≠ [] ∧
        w.map Char.toLower = connective.text.toList

def joinedText : List (Joint × Comparison) → List Char
  | [] => []
  | p :: rest => p.1.text ++ (p.2.text ++ joinedText rest)

/-- A conjunction or a disjunction of comparisons -/
structure Rule where
  connective : Connective
  lead : List Char
  first : Comparison
  rest : List (Joint × Comparison)
  trail : List Char
  lead_blank : Blank lead
  trail_blank : Blank trail
  joins : ∀ p ∈ rest, p.1.Joins connective

def Rule.text (rule : Rule) : List Char :=
  rule.lead ++ (rule.first.text ++ joinedText rule.rest ++ rule.trail)

def Rule.comparisons (rule : Rule) : List Comparison :=
  rule.first :: rule.rest.map Prod.snd

/-! ## What a rule says of a record -/

/-- The number of a field that holds a plain one -/
def plainNumber : Value → Option Rat
  | .int n => some n
  | .float x => some x.val
  | _ => none

section

variable (r : Reader)

/-- The field of a record with the spelling of the rule, or else one with that spelling in
another case -/
def ownEntry (field : List Char) (item : List (String × Value)) : Option (String × Value) :=
  (item.find? fun p => p.1.toList = field) <|>
    item.find? fun p => lowerText r p.1.toList = lowerText r field

def Comparison.value (c : Comparison) (item : List (String × Value)) : Option Rat :=
  (ownEntry r c.field item).bind fun p => plainNumber p.2

/-- The comparison holds of the record's own number; the number in the text is a float. -/
def Comparison.holds (c : Comparison) (item : List (String × Value)) : Bool :=
  (c.value r item).any fun x => c.op.holds x (r.round c.number)

def Rule.holds (rule : Rule) (item : List (String × Value)) : Bool :=
  match rule.connective with
  | .and => rule.comparisons.all (·.holds r item)
  | .or => rule.comparisons.any (·.holds r item)

/-- The text is the one of the rule, and the items are records with a plain number in each field
that it names. -/
structure Rule.Stated (rule : Rule) (rulesText : String) (items : List Value) : Prop where
  text : rulesText.toList = rule.text
  records : ∀ item ∈ items, ∃ fields, item = .dict fields ∧
    ∀ c ∈ rule.comparisons, (c.value r fields).isSome = true

/-- If there are results, `passed` says of each record whether the rule holds of it. -/
def Rule.Decided (rule : Rule) (rulesText : String) (items : List Value) : Prop :=
  ∀ results, tryDeterministicEval r rulesText items = some results →
    ∀ (i : Nat) fields, items[i]? = some (.dict fields) →
      ∃ result, results[i]? = some (.dict result) ∧
        Value.field result "record_index" = some (.int i) ∧
        Value.field result "passed" = some (.bool (rule.holds r fields))

/-! ## Rules that are read as they are written -/

/-- The field comes through the text as it is: it has no white space around it, no underscore, no
comma and no word `and` in it, and the comparison does not begin with an `if`. -/
structure Comparison.Plain (c : Comparison) : Prop where
  nonempty : c.field ≠ []
  head : ∀ x ∈ c.field.head?, isspace x = false
  last : ∀ x ∈ c.field.getLast?, isspace x = false
  underscore : '_' ∉ c.field
  whole : splitConjuncts r false (lowerText r c.field) = [lowerText r c.field]
  no_if : ∀ x rest, lowerText r c.text = 'i' :: 'f' :: x :: rest → isspace x = false

/-- The first key of the record that reads like the field is the field's own, and a float holds
its number. -/
structure Comparison.Resolves (c : Comparison) (item : List (String × Value)) : Prop where
  first : ∀ p, (item.find? fun p => normKey r p.1 = lowerText r c.field) = some p →
    ownEntry r c.field item = some p
  exact : ∀ k n, ownEntry r c.field item = some (k, .int n) → r.round n = n

/-- What the rule, its text and the records must be like for the engine to decide that rule -/
structure Rule.Plain (rule : Rule) (rulesText : String) (items : List Value) : Prop where
  conjunction : rule.rest = [] ∨ rule.connective = .and
  comparisons : ∀ c ∈ rule.comparisons, c.Plain r
  preamble : ∀ p ∈ preambles, ¬ p.toList <+: lowerText r (strip rulesText.toList)
  records : ∀ fields, .dict fields ∈ items → ∀ c ∈ rule.comparisons, c.Resolves r fields

end

/-! ## Characters -/

theorem isspace_of_isDecimal {c : Char} (h : isDecimal c = true) : isspace c = false := by
  rw [isDecimal, digitValue, Option.isSome_map, List.find?_isSome] at h
  obtain ⟨z, hz, hc⟩ := h
  rw [decide_eq_true_eq] at hc
  have hbound : ∀ z ∈ decimalZeros, ¬ ((0x09 ≤ z + 9 ∧ z ≤ 0x0d) ∨ (0x1c ≤ z + 9 ∧ z ≤ 0x20) ∨
      (0x85 ≤ z + 9 ∧ z ≤ 0x85) ∨ (0xa0 ≤ z + 9 ∧ z ≤ 0xa0) ∨ (0x1680 ≤ z + 9 ∧ z ≤ 0x1680) ∨
      (0x2000 ≤ z + 9 ∧ z ≤ 0x205f) ∨ (0x3000 ≤ z + 9 ∧ z ≤ 0x3000)) := by
    decide
  have hz := hbound z hz
  simp only [isspace, Bool.or_eq_false_iff, decide_eq_false_iff_not]
  omega

theorem isOpChar_cases {c : Char} (h : isOpChar c = true) :
    c = '<' ∨ c = '>' ∨ c = '=' ∨ c = '!' := by
  simpa [isOpChar, or_assoc] using h

theorem isspace_of_isOpChar {c : Char} (h : isOpChar c = true) : isspace c = false := by
  obtain rfl | rfl | rfl | rfl := isOpChar_cases h <;> decide

/-- The characters of numbers and blanks around them -/
def isNumberChar (c : Char) : Bool := isDecimal c || c = '.' || c = '-' || isspace c

theorem isNumberChar_of_isOpChar {c : Char} (h : isOpChar c = true) : isNumberChar c = false := by
  obtain rfl | rfl | rfl | rfl := isOpChar_cases h <;> decide +kernel

theorem Blank.append {cs ds : List Char} (hcs : Blank cs) (hds : Blank ds) : Blank (cs ++ ds) := by
  intro c hc
  rcases List.mem_append.mp hc with hc | hc
  · exact hcs c hc
  · exact hds c hc

theorem Blank.dropWhile {cs : List Char} (h : Blank cs) (rest : List Char) :
    (cs ++ rest).dropWhile isspace = rest.dropWhile isspace :=
  List.dropWhile_append_of_pos h

/-- What stands between blanks, with none at its own ends -/
theorem strip_between {lead body trail : List Char} (hlead : Blank lead) (htrail : Blank trail)
    (hbody : Trimming.Trimmed isspace body) : strip (lead ++ (body ++ trail)) = body := by
  rw [strip_eq_trim, Trimming.trim_blank_append hlead, Trimming.trim_append_blank htrail,
    hbody.trim_eq]

/-! ## Numbers -/

/-- A number is digits, or digits with a dot among them. -/
theorem matchUnsigned_some {cs rest : List Char} {q : Rat}
    (h : matchUnsigned cs = some (q, rest)) :
    ∃ whole, cs = whole ++ rest ∧ (∀ c ∈ whole, isDecimal c = true ∨ c = '.') ∧
      (∃ c, whole.head? = some c ∧ isDecimal c = true) ∧
      ∃ c, whole.getLast? = some c ∧ isDecimal c = true := by
  have hdigits : ∀ ds : List Char, ∀ c ∈ ds.takeWhile isDecimal, isDecimal c = true :=
    fun ds => List.all_eq_true.mp (List.all_takeWhile)
  have hcs := (List.takeWhile_append_dropWhile (p := isDecimal) (l := cs)).symm
  simp only [matchUnsigned] at h
  by_cases hne : cs.takeWhile isDecimal = []
  · rw [if_pos hne] at h
    cases h
  rw [if_neg hne] at h
  have hhead : ∀ l, ∃ c, (cs.takeWhile isDecimal ++ l).head? = some c ∧ isDecimal c = true := by
    intro l
    refine ⟨(cs.takeWhile isDecimal).head hne, ?_, hdigits cs _ (List.head_mem hne)⟩
    rw [List.head?_append_of_ne_nil _ hne, List.head?_eq_some_head]
  have hlast : ∀ {ds : List Char}, ds.takeWhile isDecimal ≠ [] →
      ∃ c, (ds.takeWhile isDecimal).getLast? = some c ∧ isDecimal c = true := fun {ds} hds =>
    ⟨_, List.getLast?_eq_some_getLast hds, hdigits ds _ (List.getLast_mem hds)⟩
  split at h
  · rename_i rest' hdrop
    rw [hdrop] at hcs
    split at h
    · cases h
      exact ⟨_, hcs, fun c hc => .inl (hdigits cs c hc), by simpa using hhead [], hlast hne⟩
    · rename_i hpart
      cases h
      refine ⟨cs.takeWhile isDecimal ++ '.' :: rest'.takeWhile isDecimal, ?_, ?_, hhead _, ?_⟩
      · rw [List.append_assoc, List.cons_append, List.takeWhile_append_dropWhile]
        exact hcs
      · intro c hc
        rcases List.mem_append.mp hc with hc | hc
        · exact .inl (hdigits cs c hc)
        · rcases List.mem_cons.mp hc with rfl | hc
          · exact .inr rfl
          · exact .inl (hdigits _ c hc)
      · obtain ⟨c, hc, hdec⟩ := hlast hpart
        exact ⟨c, by rw [List.getLast?_append, List.getLast?_cons, hc]; rfl, hdec⟩
  · cases h
    exact ⟨_, hcs, fun c hc => .inl (hdigits cs c hc), by simpa using hhead [], hlast hne⟩

/-- A number with its sign: its characters, the first one and the last one -/
theorem matchNumber_some {cs rest : List Char} {q : Rat} (h : matchNumber cs = some (q, rest)) :
    ∃ number, cs = number ++ rest ∧
      (∀ c ∈ number, isDecimal c = true ∨ c = '.' ∨ c = '-') ∧
      (∃ c, number.head? = some c ∧ (isDecimal c = true ∨ c = '-')) ∧
      ∃ c, number.getLast? = some c ∧ isDecimal c = true := by
  unfold matchNumber at h
  split at h
  · rename_i cs
    obtain ⟨⟨q', rest'⟩, hmatch, heq⟩ := Option.map_eq_some_iff.mp h
    cases heq
    obtain ⟨whole, rfl, hwhole, -, c, hc, hdec⟩ := matchUnsigned_some hmatch
    refine ⟨'-' :: whole, rfl, ?_, ⟨'-', rfl, .inr rfl⟩, c, ?_, hdec⟩
    · intro c hc
      rcases List.mem_cons.mp hc with rfl | hc
      · exact .inr (.inr rfl)
      · exact (hwhole c hc).imp_right .inl
    · rw [List.getLast?_cons, hc]
      rfl
  · obtain ⟨whole, hcs, hwhole, ⟨c, hc, hdec⟩, hlast⟩ := matchUnsigned_some h
    exact ⟨whole, hcs, fun c hc => (hwhole c hc).imp_right .inl, ⟨c, hc, .inl hdec⟩, hlast⟩

/-! ## The tail of a comparison -/

theorem matchOp_some {cs rest : List Char} {op : Op} (h : matchOp cs = some (op, rest)) :
    ∃ sign, cs = sign ++ rest ∧ ∀ c ∈ sign, isOpChar c = true := by
  unfold matchOp at h
  split at h <;> cases h
  · exact ⟨['<', '='], rfl, forall_mem_of_all (by decide)⟩
  · exact ⟨['>', '='], rfl, forall_mem_of_all (by decide)⟩
  · exact ⟨['!', '='], rfl, forall_mem_of_all (by decide)⟩
  · exact ⟨['<', '>'], rfl, forall_mem_of_all (by decide)⟩
  · exact ⟨['<'], rfl, forall_mem_of_all (by decide)⟩
  · exact ⟨['>'], rfl, forall_mem_of_all (by decide)⟩
  · exact ⟨['=', '='], rfl, forall_mem_of_all (by decide)⟩
  · exact ⟨['='], rfl, forall_mem_of_all (by decide)⟩

theorem matchOp_sign {sign rest : List Char} {op : Op} (h : String.ofList sign ∈ op.spellings)
    (hrest : ∀ c ∈ rest.head?, isOpChar c = false) : matchOp (sign ++ rest) = some (op, rest) := by
  have hsign : ∀ s : String, String.ofList sign = s → sign = s.toList := by
    rintro s rfl
    rw [String.toList_ofList]
  have hne : ∀ c cs, rest = c :: cs → c ≠ '=' ∧ c ≠ '>' := by
    rintro c cs rfl
    have hc := hrest c rfl
    constructor <;> rintro rfl <;> cases hc
  cases op with
  | lt =>
      rw [hsign "<" (by simpa [Op.spellings] using h)]
      cases rest with
      | nil => rfl
      | cons c cs => simp [matchOp, (hne c cs rfl).1, (hne c cs rfl).2]
  | gt =>
      rw [hsign ">" (by simpa [Op.spellings] using h)]
      cases rest with
      | nil => rfl
      | cons c cs => simp [matchOp, (hne c cs rfl).1]
  | le =>
      rw [hsign "<=" (by simpa [Op.spellings] using h)]
      rfl
  | ge =>
      rw [hsign ">=" (by simpa [Op.spellings] using h)]
      rfl
  | eq =>
      have h : String.ofList sign = "==" ∨ String.ofList sign = "=" := by
        simpa [Op.spellings] using h
      rcases h with h | h
      · rw [hsign "==" h]
        rfl
      · rw [hsign "=" h]
        cases rest with
        | nil => rfl
        | cons c cs => simp [matchOp, (hne c cs rfl).1]
  | ne =>
      have h : String.ofList sign = "!=" ∨ String.ofList sign = "<>" := by
        simpa [Op.spellings] using h
      rcases h with h | h
      · rw [hsign "!=" h]
        rfl
      · rw [hsign "<>" h]
        rfl

theorem Comparison.sign_head (c : Comparison) :
    ∃ x sign, c.sign = x :: sign ∧ isOpChar x = true := by
  have hsign : ∀ s : String, String.ofList c.sign = s → c.sign = s.toList := by
    rintro s rfl
    rw [String.toList_ofList]
  have hmem := c.sign_spells
  cases hop : c.op <;> rw [hop] at hmem <;>
    simp only [Op.spellings, List.mem_cons, List.not_mem_nil, or_false] at hmem
  case eq =>
    rcases hmem with h | h
    · exact ⟨'=', ['='], hsign _ h, rfl⟩
    · exact ⟨'=', [], hsign _ h, rfl⟩
  case ne =>
    rcases hmem with h | h
    · exact ⟨'!', ['='], hsign _ h, rfl⟩
    · exact ⟨'<', ['>'], hsign _ h, rfl⟩
  all_goals exact ⟨_, _, hsign _ hmem, rfl⟩

theorem Comparison.sign_chars (c : Comparison) : ∀ x ∈ c.sign, isOpChar x = true := by
  have hop : matchOp (c.sign ++ []) = some (c.op, []) := matchOp_sign c.sign_spells (by simp)
  obtain ⟨sign, heq, hsign⟩ := matchOp_some hop
  rw [List.append_cancel_right heq]
  exact hsign

theorem Comparison.numeral_chars (c : Comparison) :
    ∀ x ∈ c.numeral, isDecimal x = true ∨ x = '.' ∨ x = '-' := by
  obtain ⟨number, hnumeral, hchars, -, -⟩ := matchNumber_some c.numeral_reads
  rw [List.append_nil] at hnumeral
  rw [hnumeral]
  exact hchars

theorem Comparison.numeral_last (c : Comparison) :
    ∃ x, c.numeral.getLast? = some x ∧ isDecimal x = true := by
  obtain ⟨number, hnumeral, -, -, hlast⟩ := matchNumber_some c.numeral_reads
  rw [List.append_nil] at hnumeral
  rw [hnumeral]
  exact hlast

/-- A tail leaves only a number and blanks behind its operator. -/
theorem matchTail_some {cs : List Char} {op : Op} {q : Rat} (h : matchTail cs = some (op, q)) :
    ∃ sign rest, cs.dropWhile isspace = sign ++ rest ∧ (∀ c ∈ sign, isOpChar c = true) ∧
      ∀ c ∈ rest, isNumberChar c = true := by
  unfold matchTail at h
  split at h
  · cases h
  rename_i op' rest hop
  obtain ⟨sign, hsign, hchars⟩ := matchOp_some hop
  refine ⟨sign, rest, hsign, hchars, ?_⟩
  split at h
  · cases h
  rename_i q' rest' hnumber
  obtain ⟨number, hrest, hdigits, -, -⟩ := matchNumber_some hnumber
  split at h
  swap
  · cases h
  rename_i hend
  intro c hc
  rw [← List.takeWhile_append_dropWhile (p := isspace) (l := rest), hrest] at hc
  simp only [List.mem_append] at hc
  rcases hc with hc | hc | hc
  · simp [isNumberChar, List.all_eq_true.mp List.all_takeWhile c hc]
  · rcases hdigits c hc with hc | rfl | rfl
    · simp [isNumberChar, hc]
    · rfl
    · rfl
  · simp [isNumberChar, List.all_eq_true.mp hend c hc]

theorem Comparison.matchTail_eq (c : Comparison) :
    matchTail (c.gap ++ (c.sign ++ (c.space ++ c.numeral))) = some (c.op, c.number) := by
  obtain ⟨number, hnumeral, hchars, ⟨d, hd, hdec⟩, -⟩ := matchNumber_some c.numeral_reads
  rw [List.append_nil] at hnumeral
  obtain ⟨x, sign, hsign, hx⟩ := c.sign_head
  have hd_space : isspace d = false := by
    rcases hdec with hdec | rfl
    · exact isspace_of_isDecimal hdec
    · decide
  have hd_op : isOpChar d = false := by
    rcases hdec with hdec | rfl
    · by_contra h
      have h := isNumberChar_of_isOpChar (Bool.eq_true_of_not_eq_false h)
      simp [isNumberChar, hdec] at h
    · decide
  have hop : matchOp (c.sign ++ (c.space ++ c.numeral)) = some (c.op, c.space ++ c.numeral) := by
    refine matchOp_sign c.sign_spells fun y hy => ?_
    rw [hnumeral] at hy
    rcases hspace : c.space with _ | ⟨z, space⟩
    · rw [hspace, List.nil_append, hd] at hy
      cases hy
      exact hd_op
    · rw [hspace] at hy
      cases hy
      by_contra h
      have h := isspace_of_isOpChar (Bool.eq_true_of_not_eq_false h)
      rw [c.space_blank y (by rw [hspace]; exact List.mem_cons_self)] at h
      cases h
  have hsign_head : (c.sign ++ (c.space ++ c.numeral)).dropWhile isspace =
      c.sign ++ (c.space ++ c.numeral) := by
    rw [hsign, List.cons_append, List.dropWhile_cons, isspace_of_isOpChar hx]
    rfl
  have hnumber_head : c.numeral.dropWhile isspace = c.numeral := by
    refine Trimming.dropWhile_eq_self fun y hy => ?_
    rw [hnumeral, hd] at hy
    cases hy
    exact hd_space
  unfold matchTail
  rw [c.gap_blank.dropWhile, hsign_head, hop]
  simp only [c.space_blank.dropWhile, hnumber_head, c.numeral_reads, List.all_nil, if_true]

/-- No tail begins inside a field: an operator would stand in the number. -/
theorem Comparison.matchTail_none (c : Comparison) {before cs : List Char}
    (hfield : ∀ x ∈ (cs ++ c.gap).getLast?, isOpChar x = false) (hne : cs ≠ [])
    (hlast : ∀ x ∈ cs.getLast?, isspace x = false) :
    matchTail (cs ++ (c.gap ++ (c.sign ++ before))) = none := by
  cases htail : matchTail (cs ++ (c.gap ++ (c.sign ++ before))) with
  | none => rfl
  | some m =>
      exfalso
      obtain ⟨op, q⟩ := m
      obtain ⟨sign, rest, heq, hsign, hrest⟩ := matchTail_some htail
      obtain ⟨x, xs, hx, hop⟩ := c.sign_head
      have hdrop : cs.dropWhile isspace ≠ [] := by
        intro h
        have hspace := List.dropWhile_eq_nil_iff.mp h _ (List.getLast_mem hne)
        rw [hlast _ (List.getLast?_eq_some_getLast hne)] at hspace
        cases hspace
      have hsuffix : (cs.dropWhile isspace ++ c.gap).getLast? = (cs ++ c.gap).getLast? := by
        conv_rhs => rw [← List.takeWhile_append_dropWhile (p := isspace) (l := cs),
          List.append_assoc]
        exact (List.getLast?_append_of_ne_nil _ (by simp [hdrop])).symm
      rw [List.dropWhile_append, if_neg (by simpa using hdrop), ← List.append_assoc] at heq
      rcases List.append_eq_append_iff.mp heq with ⟨op, hsplit, -⟩ | ⟨field, -, hsplit⟩
      · have hmem := List.getLast_mem (l := cs.dropWhile isspace ++ c.gap) (by simp [hdrop])
        have hlast := hfield _ (hsuffix ▸ List.getLast?_eq_some_getLast (by simp [hdrop]))
        rw [hsign _ (hsplit ▸ List.mem_append_left _ hmem)] at hlast
        cases hlast
      · have hx := hrest x (by rw [hsplit, hx]; simp)
        rw [isNumberChar_of_isOpChar hop] at hx
        cases hx

section

variable (r : Reader)

/-! ## A text in small letters -/

theorem lowerText_append (cs ds : List Char) :
    lowerText r (cs ++ ds) = lowerText r cs ++ lowerText r ds :=
  List.flatMap_append

theorem lowerText_cons (c : Char) (cs : List Char) :
    lowerText r (c :: cs) = r.lower c ++ lowerText r cs :=
  List.flatMap_cons

theorem lowerText_self {cs : List Char} (h : ∀ c ∈ cs, r.lower c = [c]) : lowerText r cs = cs := by
  rw [lowerText, List.flatMap_congr h]
  exact List.flatMap_singleton' cs

theorem Blank.lowerText_eq {cs : List Char} (h : Blank cs) : lowerText r cs = cs :=
  lowerText_self r fun c hc => r.lower_space c (h c hc)

theorem Reader.lower_ne_nil (c : Char) : r.lower c ≠ [] := by
  cases h : isspace c with
  | true =>
      rw [r.lower_space c h]
      exact List.cons_ne_nil c []
  | false => exact (r.lower_nonspace c h).1

theorem lowerText_ne_nil {cs : List Char} (h : cs ≠ []) : lowerText r cs ≠ [] := by
  obtain ⟨c, cs, rfl⟩ := List.exists_cons_of_ne_nil h
  simp [lowerText, r.lower_ne_nil]

theorem mem_lowerText_head {cs : List Char} {d : Char} (h : d ∈ (lowerText r cs).head?) :
    ∃ c ∈ cs.head?, d ∈ r.lower c := by
  cases cs with
  | nil => cases h
  | cons c cs =>
      rw [lowerText, List.flatMap_cons, List.head?_append_of_ne_nil _ (r.lower_ne_nil c)] at h
      exact ⟨c, rfl, List.mem_of_mem_head? h⟩

theorem mem_lowerText_getLast {cs : List Char} {d : Char} (h : d ∈ (lowerText r cs).getLast?) :
    ∃ c ∈ cs.getLast?, d ∈ r.lower c := by
  rcases cs.eq_nil_or_concat with rfl | ⟨cs, c, rfl⟩
  · cases h
  · rw [List.concat_eq_append, lowerText_append,
      show lowerText r [c] = r.lower c from List.flatMap_singleton _ _,
      List.getLast?_append_of_ne_nil _ (r.lower_ne_nil c)] at h
    exact ⟨c, by simp, List.mem_of_getLast? h⟩

/-- A character that is no letter comes from itself only. -/
theorem Reader.eq_of_mem_lower {c d : Char} (h : d ∈ r.lower c) (halpha : d.isAlpha = false)
    (hascii : d.toNat < 128) : c = d := by
  rcases r.lower_new c d h with heq | hd | hd
  · exact heq.symm
  · rw [halpha] at hd
    cases hd
  · omega

theorem Reader.eq_of_isOpChar {c d : Char} (h : d ∈ r.lower c) (hd : isOpChar d = true) : c = d := by
  obtain rfl | rfl | rfl | rfl := isOpChar_cases hd <;>
    exact r.eq_of_mem_lower h (by decide) (by decide)

theorem lowerText_sign (c : Comparison) : lowerText r c.sign = c.sign := by
  refine lowerText_self r fun x hx => ?_
  obtain rfl | rfl | rfl | rfl := isOpChar_cases (c.sign_chars x hx) <;>
    exact r.lower_ascii _ (by decide)

theorem lowerText_numeral (c : Comparison) : lowerText r c.numeral = c.numeral := by
  refine lowerText_self r fun x hx => ?_
  rcases c.numeral_chars x hx with hx | rfl | rfl
  · exact r.lower_digit x hx
  · exact r.lower_ascii _ (by decide)
  · exact r.lower_ascii _ (by decide)

/-- The text of a comparison after its field -/
def Comparison.tail (c : Comparison) : List Char :=
  c.gap ++ (c.sign ++ (c.space ++ c.numeral))

theorem Comparison.lowerText_text (c : Comparison) :
    lowerText r c.text = lowerText r c.field ++ c.tail := by
  rw [Comparison.text, Comparison.tail, lowerText_append, lowerText_append, lowerText_append,
    lowerText_append, c.gap_blank.lowerText_eq r, c.space_blank.lowerText_eq r,
    lowerText_sign r c, lowerText_numeral r c]

theorem Comparison.low_alone (c : Comparison) :
    ∀ x ∈ (lowerText r c.field ++ c.gap).getLast?, isOpChar x = false := by
  intro x hx
  rw [← c.gap_blank.lowerText_eq r, ← lowerText_append] at hx
  obtain ⟨y, hy, hmem⟩ := mem_lowerText_getLast r hx
  by_contra hop
  have hop := Bool.eq_true_of_not_eq_false hop
  have heq := r.eq_of_isOpChar hmem hop
  have hno := c.sign_alone y hy
  rw [heq, hop] at hno
  cases hno

/-! ## One comparison is read -/

/-- The field is the whole text before the gap, if there is no line break in it. -/
theorem Comparison.matchField_some (c : Comparison) {cs tried : List Char}
    {m : List Char × Op × Rat} (hne : cs ≠ [])
    (hlast : ∀ x ∈ cs.getLast?, isspace x = false)
    (hop : ∀ x ∈ (cs ++ c.gap).getLast?, isOpChar x = false)
    (h : matchField tried (cs ++ c.tail) = some m) : m = (tried ++ cs, c.op, c.number) := by
  induction cs generalizing tried with
  | nil => cases hne rfl
  | cons x cs ih =>
      rw [List.cons_append, matchField] at h
      split at h
      · cases h
      · by_cases hcs : cs = []
        · rw [hcs, List.nil_append, Comparison.tail, c.matchTail_eq] at h
          cases h
          rw [hcs]
        · have hlast' : ∀ y ∈ cs.getLast?, isspace y = false := fun y hy =>
            hlast y (by rwa [List.getLast?_cons_of_ne_nil hcs])
          have hop' : ∀ y ∈ (cs ++ c.gap).getLast?, isOpChar y = false := fun y hy =>
            hop y (by rwa [List.cons_append, List.getLast?_cons_of_ne_nil (by simp [hcs])])
          rw [Comparison.tail, c.matchTail_none hop' hcs hlast'] at h
          rw [ih hcs hlast' hop' h, List.append_assoc]
          rfl

section

variable {r} {c : Comparison} (h : c.Plain r)
include h

theorem Comparison.Plain.low_head : ∀ x ∈ (lowerText r c.field).head?, isspace x = false := by
  intro x hx
  obtain ⟨y, hy, hmem⟩ := mem_lowerText_head r hx
  exact (r.lower_nonspace y (h.head y hy)).2 x hmem

theorem Comparison.Plain.low_last : ∀ x ∈ (lowerText r c.field).getLast?, isspace x = false := by
  intro x hx
  obtain ⟨y, hy, hmem⟩ := mem_lowerText_getLast r hx
  exact (r.lower_nonspace y (h.last y hy)).2 x hmem

theorem Comparison.Plain.low_underscore : '_' ∉ lowerText r c.field := by
  intro hmem
  obtain ⟨y, hy, hmem⟩ := List.mem_flatMap.mp hmem
  exact h.underscore (r.eq_of_mem_lower hmem (by decide) (by decide) ▸ hy)

theorem Comparison.Plain.strip_low : strip (lowerText r c.field) = lowerText r c.field :=
  Trimming.Trimmed.trim_eq ⟨h.low_head, h.low_last⟩

theorem Comparison.Plain.fieldStarts_eq :
    fieldStarts (lowerText r c.text) = [lowerText r c.text] := by
  unfold fieldStarts
  split
  · rename_i rest heq
    cases rest with
    | nil => rw [heq]; rfl
    | cons x rest =>
        have hx := h.no_if x rest heq
        rw [List.takeWhile_cons, hx]
        simp [heq]
  · rfl

/-- The comparison that the regular expression finds is the one that is written. -/
theorem Comparison.Plain.parseConjunct_some {condition : Condition}
    (hparse : parseConjunct r (lowerText r c.text) = some condition) :
    condition = ⟨lowerText r c.field, c.op, r.round c.number⟩ := by
  rw [parseConjunct, h.fieldStarts_eq, List.findSome?_singleton] at hparse
  obtain ⟨m, hm, rfl⟩ := Option.map_eq_some_iff.mp hparse
  rw [c.lowerText_text] at hm
  rw [c.matchField_some (lowerText_ne_nil r h.nonempty) h.low_last (c.low_alone r) hm]
  simp only [List.nil_append, h.strip_low]

end

/-! ## The text is cut where it says so -/

/-- A text put in front of the first part -/
def prepend (cs : List Char) : List (List Char) → List (List Char)
  | [] => [cs]
  | part :: parts => (cs ++ part) :: parts

theorem prepend_prepend (cs ds : List Char) (parts : List (List Char)) :
    prepend cs (prepend ds parts) = prepend (cs ++ ds) parts := by
  cases parts with
  | nil => rfl
  | cons part parts => simp [prepend]

theorem splitConjuncts_comma (afterWord : Bool) (cs : List Char) :
    splitConjuncts r afterWord (',' :: cs) = [] :: splitConjuncts r false cs := by
  rw [splitConjuncts]
  · rfl
  · simp

theorem splitConjuncts_and {cs : List Char} (h : cs.head?.any r.word = false) :
    splitConjuncts r false ('a' :: 'n' :: 'd' :: cs) = [] :: splitConjuncts r true cs := by
  rw [splitConjuncts, h]
  rfl

theorem splitConjuncts_char {afterWord : Bool} {c : Char} {cs : List Char} (hc : c ≠ ',')
    (hand : ∀ ds, c :: cs = 'a' :: 'n' :: 'd' :: ds →
      (!afterWord && !ds.head?.any r.word) = false) :
    splitConjuncts r afterWord (c :: cs) = prepend [c] (splitConjuncts r (r.word c) cs) := by
  rw [splitConjuncts.eq_def]
  split
  · rename_i heq
    cases heq
  · rename_i ds heq
    cases heq
    rw [hand ds rfl]
    simp only [Bool.false_eq_true, if_false]
    split <;> rename_i hparts <;> rw [hparts] <;> rfl
  · rename_i heq
    cases heq
    rw [if_neg hc]
    split <;> rename_i hparts <;> rw [hparts] <;> rfl

theorem splitConjuncts_ne_nil (afterWord : Bool) (cs : List Char) :
    splitConjuncts r afterWord cs ≠ [] := by
  rw [splitConjuncts.eq_def]
  split
  · simp
  · split
    · simp
    · split <;> simp
  · split
    · simp
    · split <;> simp

theorem prepend_nil_splitConjuncts (afterWord : Bool) (cs : List Char) :
    prepend [] (splitConjuncts r afterWord cs) = splitConjuncts r afterWord cs := by
  cases h : splitConjuncts r afterWord cs with
  | nil => cases splitConjuncts_ne_nil r afterWord cs h
  | cons part parts => rfl

/-- Whether the character before what follows a text is one of a word -/
def wordBefore (afterWord : Bool) (cs : List Char) : Bool :=
  (cs.getLast?.map r.word).getD afterWord

theorem wordBefore_cons (afterWord : Bool) (c : Char) (cs : List Char) :
    wordBefore r afterWord (c :: cs) = wordBefore r (r.word c) cs := by
  rw [wordBefore, List.getLast?_cons, wordBefore]
  cases cs.getLast? <;> rfl

theorem wordBefore_blank {afterWord : Bool} {cs : List Char} (h : Blank cs)
    (hnil : cs = [] → afterWord = false) : wordBefore r afterWord cs = false := by
  rw [wordBefore]
  cases hlast : cs.getLast? with
  | none => exact hnil (List.getLast?_eq_none_iff.mp hlast)
  | some c => exact r.word_space c (h c (List.mem_of_getLast? hlast))

/-- A run without commas and without an `a` -/
theorem splitConjuncts_run {afterWord : Bool} {cs : List Char} (rest : List Char)
    (h : ∀ c ∈ cs, c ≠ ',' ∧ c ≠ 'a') :
    splitConjuncts r afterWord (cs ++ rest) =
      prepend cs (splitConjuncts r (wordBefore r afterWord cs) rest) := by
  induction cs generalizing afterWord with
  | nil => exact (prepend_nil_splitConjuncts r afterWord rest).symm
  | cons c cs ih =>
      have hc := h c List.mem_cons_self
      rw [List.cons_append, splitConjuncts_char r hc.1
        (fun ds heq => absurd (List.cons.inj heq).1 hc.2),
        ih fun d hd => h d (List.mem_cons_of_mem c hd), prepend_prepend, wordBefore_cons]
      rfl

/-- A text before a character of no word does not end inside an `and`. -/
theorem and_append {c : Char} {cs rest ds : List Char} (hrest : ∀ c ∈ rest.head?, r.word c = false)
    (h : c :: (cs ++ rest) = 'a' :: 'n' :: 'd' :: ds) :
    ∃ ds', c :: cs = 'a' :: 'n' :: 'd' :: ds' ∧ ds = ds' ++ rest := by
  have hword : r.word 'n' = true ∧ r.word 'd' = true := by
    rw [r.word_ascii 'n' (by decide), r.word_ascii 'd' (by decide)]
    decide
  obtain ⟨rfl, hn⟩ := List.cons.inj h
  rcases cs with _ | ⟨n, cs⟩
  · replace hn : rest = 'n' :: 'd' :: ds := hn
    rw [hrest 'n' (by rw [hn]; rfl)] at hword
    cases hword.1
  obtain ⟨rfl, hd⟩ := List.cons.inj hn
  rcases cs with _ | ⟨d, cs⟩
  · replace hd : rest = 'd' :: ds := hd
    rw [hrest 'd' (by rw [hd]; rfl)] at hword
    cases hword.2
  obtain ⟨rfl, hds⟩ := List.cons.inj hd
  exact ⟨cs, rfl, hds.symm⟩

/-- A text that is not cut by itself is not cut before a character of no word either. -/
theorem splitConjuncts_whole {afterWord : Bool} {cs rest : List Char}
    (h : splitConjuncts r afterWord cs = [cs]) (hrest : ∀ c ∈ rest.head?, r.word c = false) :
    splitConjuncts r afterWord (cs ++ rest) =
      prepend cs (splitConjuncts r (wordBefore r afterWord cs) rest) := by
  induction cs generalizing afterWord with
  | nil => exact (prepend_nil_splitConjuncts r afterWord rest).symm
  | cons c cs ih =>
      have hc : c ≠ ',' := by
        rintro rfl
        rw [splitConjuncts_comma] at h
        cases h
      have hand : ∀ ds, c :: cs = 'a' :: 'n' :: 'd' :: ds →
          (!afterWord && !ds.head?.any r.word) = false := by
        intro ds heq
        by_contra hcut
        rw [heq, splitConjuncts, Bool.eq_true_of_not_eq_false hcut, if_pos rfl] at h
        cases h
      have hand' : ∀ ds, c :: (cs ++ rest) = 'a' :: 'n' :: 'd' :: ds →
          (!afterWord && !ds.head?.any r.word) = false := by
        intro ds heq
        obtain ⟨ds', hds', rfl⟩ := and_append r hrest heq
        have hwhole := hand ds' hds'
        cases ds' with
        | nil =>
            rw [List.head?_nil, Option.any_none, Bool.not_false, Bool.and_true] at hwhole
            rw [hwhole, Bool.false_and]
        | cons d ds' => exact hwhole
      rw [splitConjuncts_char r hc hand] at h
      have hcs : splitConjuncts r (r.word c) cs = [cs] := by
        cases hparts : splitConjuncts r (r.word c) cs with
        | nil => cases splitConjuncts_ne_nil r _ _ hparts
        | cons part parts =>
            rw [hparts] at h
            cases h
            rfl
      rw [List.cons_append, splitConjuncts_char r hc hand', ih hcs, prepend_prepend,
        wordBefore_cons]
      rfl

/-- The parts of a text: the comparisons between blanks, and blank parts -/
inductive Pieces : List (List Char) → List Comparison → Prop
  | nil : Pieces [] []
  | blank {part parts comparisons} : Blank part → Pieces parts comparisons →
      Pieces (part :: parts) comparisons
  | comparison {before c after parts comparisons} : Blank before → Blank after →
      Pieces parts comparisons →
      Pieces ((before ++ (lowerText r c.text ++ after)) :: parts) (c :: comparisons)

theorem Blank.no_cut {cs : List Char} (h : Blank cs) : ∀ x ∈ cs, x ≠ ',' ∧ x ≠ 'a' := by
  intro x hx
  have hspace := h x hx
  constructor <;> rintro rfl <;> revert hspace <;> decide

theorem Comparison.tail_chars (c : Comparison) : ∀ x ∈ c.tail, x ≠ ',' ∧ x ≠ 'a' := by
  intro x hx
  simp only [Comparison.tail, List.mem_append] at hx
  rcases hx with hx | hx | hx | hx
  · exact c.gap_blank.no_cut x hx
  · obtain rfl | rfl | rfl | rfl := isOpChar_cases (c.sign_chars x hx) <;> decide
  · exact c.space_blank.no_cut x hx
  · rcases c.numeral_chars x hx with hx | rfl | rfl
    · constructor <;> rintro rfl <;> revert hx <;> decide +kernel
    · decide
    · decide

theorem Comparison.tail_head (c : Comparison) (rest : List Char) :
    ∀ x ∈ (c.tail ++ rest).head?, r.word x = false := by
  intro x hx
  obtain ⟨y, sign, hsign, hop⟩ := c.sign_head
  cases hgap : c.gap with
  | nil =>
      rw [Comparison.tail, hgap, hsign] at hx
      cases hx
      obtain rfl | rfl | rfl | rfl := isOpChar_cases hop <;>
        exact r.word_ascii _ (by decide)
  | cons z gap =>
      rw [Comparison.tail, hgap] at hx
      cases hx
      exact r.word_space _ (c.gap_blank _ (by rw [hgap]; exact List.mem_cons_self))

/-- A comparison between blanks stays in one part. -/
theorem Comparison.Plain.split_text {c : Comparison} (h : c.Plain r) {before : List Char}
    {afterWord : Bool} (hbefore : Blank before) (hnil : before = [] → afterWord = false)
    (rest : List Char) :
    ∃ afterWord', splitConjuncts r afterWord (before ++ (lowerText r c.text ++ rest)) =
      prepend (before ++ lowerText r c.text) (splitConjuncts r afterWord' rest) := by
  refine ⟨wordBefore r (wordBefore r false (lowerText r c.field)) c.tail, ?_⟩
  rw [splitConjuncts_run r _ hbefore.no_cut, wordBefore_blank r hbefore hnil, c.lowerText_text,
    List.append_assoc, splitConjuncts_whole r h.whole (c.tail_head r rest),
    splitConjuncts_run r _ c.tail_chars, prepend_prepend, prepend_prepend, List.append_assoc]

theorem lowerText_and {w : List Char} (h : w.map Char.toLower = "and".toList) :
    lowerText r w = ['a', 'n', 'd'] := by
  have hlower : ∀ c ∈ w, r.lower c = [c.toLower] := by
    intro c hc
    have hmem : c.toLower ∈ "and".toList := h ▸ List.mem_map_of_mem hc
    have halpha : ∀ d ∈ "and".toList, d.isAlpha = true := forall_mem_of_all (by decide)
    have halpha := halpha _ hmem
    rw [Char.isAlpha_toLower_eq_isAlpha] at halpha
    exact r.lower_ascii c (toNat_of_isAlpha halpha).2
  rw [lowerText, List.flatMap_congr hlower, ← List.map_eq_flatMap, h]
  rfl

theorem word_head_blank {cs : List Char} (h : Blank cs) (hne : cs ≠ []) (rest : List Char) :
    (cs ++ rest).head?.any r.word = false := by
  obtain ⟨c, cs, rfl⟩ := List.exists_cons_of_ne_nil hne
  exact r.word_space c (h c List.mem_cons_self)

/-- A conjunction is cut into its comparisons. -/
theorem pieces_joinedText {rest : List (Joint × Comparison)} :
    ∀ {c : Comparison}, (∀ p ∈ rest, p.1.Joins .and) →
      (∀ d ∈ c :: rest.map Prod.snd, d.Plain r) →
      ∀ {before : List Char} {afterWord : Bool}, Blank before →
      (before = [] → afterWord = false) →
      Pieces r (splitConjuncts r afterWord
        (before ++ (lowerText r c.text ++ lowerText r (joinedText rest))))
        (c :: rest.map Prod.snd) := by
  induction rest with
  | nil =>
      intro c _ hplain before afterWord hbefore hnil
      obtain ⟨w, hsplit⟩ := (hplain c List.mem_cons_self).split_text r hbefore hnil []
      have hnone : Blank [] := fun x hx => by cases hx
      have hpiece : Pieces r [before ++ (lowerText r c.text ++ [])] [c] :=
        .comparison hbefore hnone .nil
      rw [List.append_nil] at hpiece
      change Pieces r (splitConjuncts r afterWord (before ++ (lowerText r c.text ++ []))) [c]
      rw [hsplit, splitConjuncts, prepend, List.append_nil]
      exact hpiece
  | cons p rest ih =>
      obtain ⟨joint, d⟩ := p
      intro c hjoins hplain before afterWord hbefore hnil
      obtain ⟨w, hsplit⟩ := (hplain c List.mem_cons_self).split_text r hbefore hnil
        (lowerText r (joinedText ((joint, d) :: rest)))
      have hjoint := hjoins (joint, d) List.mem_cons_self
      have hrest := @ih d (fun p hp => hjoins p (List.mem_cons_of_mem _ hp))
        (fun e he => hplain e (List.mem_cons_of_mem c he))
      have hparts : ∀ left parts, prepend (before ++ lowerText r c.text) (prepend left ([] :: parts)) =
          (before ++ (lowerText r c.text ++ left)) :: parts := by
        intro left parts
        simp [prepend]
      rw [hsplit]
      cases joint with
      | comma left right =>
          obtain ⟨-, hleft, hright⟩ := hjoint
          have htext : lowerText r (joinedText ((.comma left right, d) :: rest)) =
              left ++ (',' :: (right ++ (lowerText r d.text ++ lowerText r (joinedText rest)))) := by
            simp [joinedText, Joint.text, lowerText_append, lowerText_cons, hleft.lowerText_eq r,
              r.lower_ascii ',' (by decide), hright.lowerText_eq r]
          rw [htext, splitConjuncts_run r _ hleft.no_cut, splitConjuncts_comma, hparts]
          exact .comparison hbefore hleft (hrest hright fun _ => rfl)
      | word left w right =>
          obtain ⟨hleft, hleft_ne, hright, hright_ne, hw⟩ := hjoint
          have htext : lowerText r (joinedText ((.word left w right, d) :: rest)) =
              left ++ ('a' :: 'n' :: 'd' ::
                (right ++ (lowerText r d.text ++ lowerText r (joinedText rest)))) := by
            simp [joinedText, Joint.text, lowerText_append, hleft.lowerText_eq r,
              lowerText_and r hw, hright.lowerText_eq r]
          rw [htext, splitConjuncts_run r _ hleft.no_cut,
            wordBefore_blank r hleft fun h => absurd h hleft_ne,
            splitConjuncts_and r (word_head_blank r hright hright_ne _), hparts]
          exact .comparison hbefore hleft (hrest hright fun h => absurd h hright_ne)
      | commaWord left middle w right =>
          obtain ⟨hleft, hmiddle, hright, hright_ne, hw⟩ := hjoint
          have htext : lowerText r (joinedText ((.commaWord left middle w right, d) :: rest)) =
              left ++ (',' :: (middle ++ ('a' :: 'n' :: 'd' ::
                (right ++ (lowerText r d.text ++ lowerText r (joinedText rest)))))) := by
            simp [joinedText, Joint.text, lowerText_append, lowerText_cons, hleft.lowerText_eq r,
              r.lower_ascii ',' (by decide), hmiddle.lowerText_eq r, lowerText_and r hw,
              hright.lowerText_eq r]
          rw [htext, splitConjuncts_run r _ hleft.no_cut, splitConjuncts_comma,
            splitConjuncts_run r _ hmiddle.no_cut, wordBefore_blank r hmiddle fun _ => rfl,
            splitConjuncts_and r (word_head_blank r hright hright_ne _), hparts, prepend,
            List.append_nil]
          exact .comparison hbefore hleft (.blank hmiddle (hrest hright fun h => absurd h hright_ne))

/-! ## The parts are read -/

theorem Blank.strip_eq {cs : List Char} (h : Blank cs) : strip cs = [] :=
  Trimming.trim_eq_nil h

/-- A part holds its comparison between its blanks. -/
theorem Comparison.Plain.strip_text {c : Comparison} (h : c.Plain r) {before after : List Char}
    (hbefore : Blank before) (hafter : Blank after) :
    strip (before ++ (lowerText r c.text ++ after)) = lowerText r c.text := by
  have hlow := lowerText_ne_nil r h.nonempty
  rw [c.lowerText_text]
  refine strip_between hbefore hafter ⟨?_, ?_⟩
  · intro x hx
    rw [List.head?_append_of_ne_nil _ hlow] at hx
    exact h.low_head x hx
  · intro x hx
    obtain ⟨d, hd, hdec⟩ := c.numeral_last
    have hlast : (lowerText r c.field ++ c.tail).getLast? = some d := by
      simp only [Comparison.tail, List.getLast?_append, hd, Option.some_or]
    rw [hlast] at hx
    cases hx
    exact isspace_of_isDecimal hdec

/-- The condition that a comparison is read as -/
def Comparison.condition (c : Comparison) : Condition where
  phrase := lowerText r c.field
  op := c.op
  threshold := r.round c.number

theorem Pieces.parseConditions_some {parts : List (List Char)} {comparisons : List Comparison}
    (h : Pieces r parts comparisons) (hplain : ∀ c ∈ comparisons, c.Plain r)
    {conditions : List Condition} (hparse : parseConditions r parts = some conditions) :
    conditions = comparisons.map (Comparison.condition r) := by
  induction h generalizing conditions with
  | nil =>
      cases hparse
      rfl
  | blank hblank _ ih =>
      rw [parseConditions, hblank.strip_eq] at hparse
      exact ih hplain hparse
  | @comparison before c after parts comparisons hbefore hafter _ ih =>
      have hc := hplain c List.mem_cons_self
      rw [parseConditions, hc.strip_text r hbefore hafter,
        if_neg (by simp [c.lowerText_text, lowerText_ne_nil r hc.nonempty])] at hparse
      cases hcondition : parseConjunct r (lowerText r c.text) with
      | none =>
          rw [hcondition] at hparse
          cases hparse
      | some condition =>
          cases hrest : parseConditions r parts with
          | none =>
              rw [hcondition, hrest] at hparse
              cases hparse
          | some conditions' =>
              rw [hcondition, hrest] at hparse
              cases hparse
              rw [hc.parseConjunct_some hcondition,
                ih (fun d hd => hplain d (List.mem_cons_of_mem c hd)) hrest]
              rfl

theorem removePreambles_eq {cs : List Char} (h : ∀ p ∈ preambles, ¬ p.toList <+: cs) :
    removePreambles cs = cs := by
  have hfold : ∀ ps : List String, (∀ p ∈ ps, ¬ p.toList <+: cs) →
      ps.foldl (fun cs p =>
        if p.toList.isPrefixOf cs then strip (cs.drop p.length) else cs) cs = cs := by
    intro ps hps
    induction ps with
    | nil => rfl
    | cons p ps ih =>
        rw [List.foldl_cons, if_neg (by simpa using hps p List.mem_cons_self)]
        exact ih fun q hq => hps q (List.mem_cons_of_mem p hq)
  exact hfold preambles h

/-- The text of a rule ends in a digit. -/
theorem joinedText_last (c : Comparison) (rest : List (Joint × Comparison)) :
    ∃ x, (c.text ++ joinedText rest).getLast? = some x ∧ isDecimal x = true := by
  induction rest generalizing c with
  | nil =>
      obtain ⟨x, hx, hdec⟩ := c.numeral_last
      refine ⟨x, ?_, hdec⟩
      simp only [joinedText, List.append_nil, Comparison.text, List.getLast?_append, hx,
        Option.some_or]
  | cons p rest ih =>
      obtain ⟨x, hx, hdec⟩ := ih p.2
      refine ⟨x, ?_, hdec⟩
      rw [joinedText, List.getLast?_append, List.getLast?_append, hx]
      rfl

/-- The text of a rule without blanks around it -/
theorem Rule.strip_text {rule : Rule} (h : ∀ c ∈ rule.comparisons, c.Plain r) :
    strip rule.text = rule.first.text ++ joinedText rule.rest := by
  have hfirst := h rule.first List.mem_cons_self
  have hne : rule.first.text ≠ [] := by simp [Comparison.text, hfirst.nonempty]
  refine strip_between rule.lead_blank rule.trail_blank ⟨?_, ?_⟩
  · intro x hx
    rw [List.head?_append_of_ne_nil _ hne, Comparison.text,
      List.head?_append_of_ne_nil _ hfirst.nonempty] at hx
    exact hfirst.head x hx
  · intro x hx
    obtain ⟨d, hd, hdec⟩ := joinedText_last rule.first rule.rest
    rw [hd] at hx
    cases hx
    exact isspace_of_isDecimal hdec

/-- A plain conjunction is read as the comparisons it is made of. -/
theorem Rule.parseRules_some {rule : Rule} {rulesText : String} {items : List Value}
    (htext : rulesText.toList = rule.text) (h : rule.Plain r rulesText items)
    {conditions : List Condition} (hparse : parseRules r rulesText = some conditions) :
    conditions = rule.comparisons.map (Comparison.condition r) := by
  have hjoins : ∀ p ∈ rule.rest, p.1.Joins .and := by
    intro p hp
    rcases h.conjunction with hrest | hand
    · rw [hrest] at hp
      cases hp
    · exact hand ▸ rule.joins p hp
  have hblank : Blank [] := fun x hx => by cases hx
  have hpieces : Pieces r (splitConjuncts r false
      ([] ++ (lowerText r rule.first.text ++ lowerText r (joinedText rule.rest))))
      rule.comparisons :=
    pieces_joinedText r hjoins h.comparisons hblank fun _ => rfl
  have hcs : removePreambles (lowerText r (strip rulesText.toList)) =
      lowerText r rule.first.text ++ lowerText r (joinedText rule.rest) := by
    have hpreamble := h.preamble
    rw [htext, rule.strip_text r h.comparisons, lowerText_append] at hpreamble ⊢
    exact removePreambles_eq hpreamble
  rw [parseRules, hcs] at hparse
  obtain ⟨conditions', hconditions, hsome⟩ := Option.bind_eq_some_iff.mp hparse
  split at hsome
  · cases hsome
  · cases hsome
    exact hpieces.parseConditions_some r h.comparisons hconditions

/-! ## The comparisons are decided -/

theorem ownEntry_mem {field : List Char} {item : List (String × Value)} {p : String × Value}
    (h : ownEntry r field item = some p) : p ∈ item := by
  cases hfind : item.find? fun p => p.1.toList = field with
  | none =>
      rw [ownEntry, hfind] at h
      exact List.mem_of_find?_eq_some h
  | some q =>
      rw [ownEntry, hfind] at h
      cases h
      exact List.mem_of_find?_eq_some hfind

/-- A field is found under its own key. -/
theorem Comparison.Resolves.extractNumeric_eq {c : Comparison} {item : List (String × Value)}
    (hplain : c.Plain r) (h : c.Resolves r item) {x : Rat} (hx : c.value r item = some x) :
    extractNumeric r item (lowerText r c.field) = some x := by
  obtain ⟨p, hown, hnumber⟩ := Option.bind_eq_some_iff.mp hx
  have hreads : normKey r p.1 = lowerText r c.field := by
    have hlower : lowerText r p.1.toList = lowerText r c.field := by
      cases hfind : item.find? fun p => p.1.toList = c.field with
      | none =>
          rw [ownEntry, hfind] at hown
          simpa using List.find?_some hown
      | some q =>
          rw [ownEntry, hfind] at hown
          cases hown
          have hspelled : p.1.toList = c.field := by simpa using List.find?_some hfind
          rw [hspelled]
    rw [normKey, hlower]
    refine (List.map_congr_left fun x hx => if_neg ?_).trans (List.map_id _)
    rintro rfl
    exact hplain.low_underscore hx
  have hfound : (item.find? fun p => normKey r p.1 = lowerText r c.field).isSome = true := by
    rw [List.find?_isSome]
    exact ⟨p, ownEntry_mem r hown, decide_eq_true hreads⟩
  obtain ⟨q, hq⟩ := Option.isSome_iff_exists.mp hfound
  have heq := hown.symm.trans (h.first q hq)
  cases heq
  have hnum : toNumber r p.2 = some x := by
    obtain ⟨k, v⟩ := p
    cases v with
    | int n =>
        cases hnumber
        rw [toNumber, h.exact k n hown]
    | float y =>
        cases hnumber
        rw [toNumber]
    | none => cases hnumber
    | bool b => cases hnumber
    | str s => cases hnumber
    | list xs => cases hnumber
    | dict fields => cases hnumber
  rw [extractNumeric, directMatch, hq, Option.map_some, hnum]

theorem evalCondition_of_some {item : List (String × Value)} {d : Condition} {x : Rat}
    (h : extractNumeric r item d.phrase = some x) :
    (evalCondition r item d).1 = d.op.holds x d.threshold := by
  rw [evalCondition, h]
  by_cases hholds : d.op.holds x d.threshold = true
  · simp only [hholds, if_true]
  · simp only [hholds, Bool.false_eq_true, if_false]

/-- What the engine says of one comparison is what the rule says. -/
theorem Comparison.Resolves.evalCondition_fst {c : Comparison} {item : List (String × Value)}
    (hplain : c.Plain r) (h : c.Resolves r item) (hvalue : (c.value r item).isSome = true) :
    (evalCondition r item (c.condition r)).1 = c.holds r item := by
  obtain ⟨x, hx⟩ := Option.isSome_iff_exists.mp hvalue
  rw [Comparison.holds, hx, Option.any_some]
  exact evalCondition_of_some r (h.extractNumeric_eq r hplain hx)

theorem evalRecords_getElem? {conditions : List Condition} {items : List Value} (k i : Nat) :
    (evalRecords r conditions k items)[i]? = items[i]?.map fun item =>
      .dict [("record_index", .int ((k + i : Nat))),
        ("passed", .bool (evalRecord r conditions item).1),
        ("reason", .str (evalRecord r conditions item).2)] := by
  induction items generalizing k i with
  | nil => rfl
  | cons item items ih =>
      cases i with
      | zero => rfl
      | succ i =>
          rw [evalRecords, List.getElem?_cons_succ, ih, List.getElem?_cons_succ,
            Nat.add_right_comm, Nat.add_assoc]

/-- A plain conjunction is decided on the fields that it names, in every record. -/
theorem Rule.decided_of_plain {rule : Rule} {rulesText : String} {items : List Value}
    (hstated : rule.Stated r rulesText items) (h : rule.Plain r rulesText items) :
    rule.Decided r rulesText items := by
  intro results hresults i fields hi
  obtain ⟨conditions, hparse, rfl⟩ := Option.map_eq_some_iff.mp hresults
  have hconditions := rule.parseRules_some r hstated.text h hparse
  have hmem : .dict fields ∈ items := List.mem_of_getElem? hi
  obtain ⟨fields', heq, hvalues⟩ := hstated.records _ hmem
  cases heq
  refine ⟨_, by rw [evalRecords_getElem?, hi]; rfl, by simp [Value.field], ?_⟩
  have hpassed : (evalRecord r conditions (.dict fields)).1 = rule.holds r fields := by
    have hholds : rule.holds r fields = rule.comparisons.all (·.holds r fields) := by
      rw [Rule.holds]
      rcases h.conjunction with hrest | hand
      · rw [Rule.comparisons, hrest]
        cases rule.connective <;> simp
      · rw [hand]
    rw [hholds, evalRecord, hconditions, List.map_map, List.all_map, Bool.eq_iff_iff,
      List.all_eq_true, List.all_eq_true]
    refine forall₂_congr fun c hc => ?_
    rw [← (h.records fields hmem c hc).evalCondition_fst r (h.comparisons c hc) (hvalues c hc)]
    rfl
  rw [← hpassed]
  rfl

end

/-! ## Two rules -/

theorem toLower_cases (c : Char) :
    c.toLower = c ∨ (c.isAlpha = true ∧ c.toLower.isAlpha = true) := by
  rw [Char.isAlpha_toLower_eq_isAlpha]
  cases hupper : c.isUpper with
  | true =>
      have halpha : c.isAlpha = true := by rw [Char.isAlpha, hupper, Bool.true_or]
      exact .inr ⟨halpha, halpha⟩
  | false => exact .inl (Char.toLower_eq_of_not_isUpper (by simp [hupper]))

theorem isDecimal_of_isAlpha {c : Char} (h : c.isAlpha = true) : isDecimal c = false := by
  by_contra hdec
  have hdec := Bool.eq_true_of_not_eq_false hdec
  rw [isDecimal, digitValue, Option.isSome_map, List.find?_isSome] at hdec
  obtain ⟨z, hz, hc⟩ := hdec
  rw [decide_eq_true_eq] at hc
  have hbound : ∀ z ∈ decimalZeros, z + 9 < 65 ∨ 128 ≤ z := by decide
  have hz := hbound z hz
  have halpha := toNat_of_isAlpha h
  omega

/-- A reader for texts of ASCII characters, with floats as near as one likes -/
def asciiReader : Reader where
  lower c := [c.toLower]
  word c := c.isAlphanum || c == '_'
  round q := q
  repr q := toString q
  lower_ascii _ _ := rfl
  lower_space c h := by
    rcases toLower_cases c with hc | ⟨hc, -⟩
    · rw [hc]
    · rw [isspace_of_isAlpha hc] at h
      cases h
  lower_digit c h := by
    replace h : isDecimal c = true := h
    rcases toLower_cases c with hc | ⟨hc, -⟩
    · rw [hc]
    · rw [isDecimal_of_isAlpha hc] at h
      cases h
  lower_nonspace c h := by
    refine ⟨List.cons_ne_nil _ _, fun d hd => ?_⟩
    rw [List.mem_singleton.mp hd]
    rcases toLower_cases c with hc | ⟨-, hc⟩
    · rwa [hc]
    · exact isspace_of_isAlpha hc
  lower_new c d hd := by
    rw [List.mem_singleton.mp hd]
    exact (toLower_cases c).imp id fun h => .inl h.2
  word_ascii := Agent.Interpreter.ascii.isWord_ascii
  word_space c h := by
    by_contra hword
    have hword := Bool.eq_true_of_not_eq_false hword
    rw [Char.isAlphanum, Bool.or_eq_true, Bool.or_eq_true, beq_iff_eq] at hword
    rcases hword with (halpha | hdigit) | rfl
    · rw [isspace_of_isAlpha halpha] at h
      cases h
    · rw [isspace_of_isDigit hdigit] at h
      cases h
    · cases h

/-- `score > 70` -/
def highScore : Comparison where
  field := "score".toList
  gap := [' ']
  op := .gt
  sign := ['>']
  space := [' ']
  numeral := "70".toList
  number := 70
  gap_blank := by decide
  space_blank := by decide
  sign_spells := by decide
  sign_alone := forall_mem_of_optionAll (by decide)
  numeral_reads := by decide +kernel

/-- `Salary<12` -/
def lowSalary : Comparison where
  field := "Salary".toList
  gap := []
  op := .lt
  sign := ['<']
  space := []
  numeral := "12".toList
  number := 12
  gap_blank := by decide
  space_blank := by decide
  sign_spells := by decide
  sign_alone := forall_mem_of_optionAll (by decide)
  numeral_reads := by decide +kernel

/-- The two with a word between them -/
def highScoreAnd (connective : Connective) (w : List Char)
    (h : w.map Char.toLower = connective.text.toList) : Rule where
  connective := connective
  lead := []
  first := highScore
  rest := [(.word [' '] w [' '], lowSalary)]
  trail := []
  lead_blank := by decide
  trail_blank := by decide
  joins := by
    intro p hp
    rw [List.mem_singleton.mp hp]
    exact ⟨by decide, by decide, by decide, by decide, h⟩

/-- `score > 70 or Salary<12` -/
def eitherRule : Rule := highScoreAnd .or ['o', 'r'] (by decide)

/-- `score > 70 AND Salary<12` -/
def bothRule : Rule := highScoreAnd .and ['A', 'N', 'D'] (by decide)

def applicant (score salary : Int) : Value := .dict [("score", .int score), ("salary", .int salary)]

/-- One good score is enough for the rule, and the applicant is turned down by the salary. -/
theorem good_score_rejected :
    ¬ ∀ (r : Reader) (rule : Rule) (rulesText : String) (items : List Value),
      rule.Stated r rulesText items → rule.Decided r rulesText items := by
  intro hall
  have hstated : eitherRule.Stated asciiReader "score > 70 or Salary<12" [applicant 80 20] := by
    refine ⟨by decide +kernel, fun item hitem => ?_⟩
    rw [List.mem_singleton.mp hitem]
    exact ⟨_, rfl, by decide +kernel⟩
  cases hresults : tryDeterministicEval asciiReader "score > 70 or Salary<12" [applicant 80 20] with
  | none =>
      have hsome : (tryDeterministicEval asciiReader "score > 70 or Salary<12"
          [applicant 80 20]).isSome = true := by decide +kernel
      rw [hresults] at hsome
      cases hsome
  | some results =>
      have hpassed : ((tryDeterministicEval asciiReader "score > 70 or Salary<12"
          [applicant 80 20]).bind fun results => results[0]?.bind fun result =>
            result.asDict.bind fun fields => (Value.field fields "passed").map Value.truthy) =
          some false := by
        decide +kernel
      obtain ⟨result, hresult, -, hholds⟩ :=
        hall _ _ _ _ hstated results hresults 0 _ rfl
      rw [hresults, Option.bind_some, hresult, Option.bind_some, Value.asDict_dict,
        Option.bind_some, hholds, Option.map_some] at hpassed
      have hrule : eitherRule.holds asciiReader [("score", .int 80), ("salary", .int 20)] = true := by
        decide +kernel
      rw [hrule] at hpassed
      cases hpassed

theorem highScore_plain : highScore.Plain asciiReader where
  nonempty := by decide +kernel
  head := forall_mem_of_optionAll (by decide)
  last := forall_mem_of_optionAll (by decide)
  underscore := by decide +kernel
  whole := by decide +kernel
  no_if x rest h := by
    have hhead : (lowerText asciiReader highScore.text).head? = some 's' := by decide +kernel
    rw [h] at hhead
    cases hhead

theorem lowSalary_plain : lowSalary.Plain asciiReader where
  nonempty := by decide +kernel
  head := forall_mem_of_optionAll (by decide)
  last := forall_mem_of_optionAll (by decide)
  underscore := by decide +kernel
  whole := by decide +kernel
  no_if x rest h := by
    have hhead : (lowerText asciiReader lowSalary.text).head? = some 's' := by decide +kernel
    rw [h] at hhead
    cases hhead

theorem highScore_resolves (score salary : Int) :
    highScore.Resolves asciiReader [("score", .int score), ("salary", .int salary)] where
  first p hp := by
    have hreads : normKey asciiReader "score" = lowerText asciiReader highScore.field := by
      decide +kernel
    have hspelled : "score".toList = highScore.field := by decide +kernel
    rw [List.find?_cons_of_pos (by exact decide_eq_true hreads)] at hp
    rw [ownEntry, List.find?_cons_of_pos (by exact decide_eq_true hspelled)]
    exact hp
  exact _ _ _ := rfl

theorem lowSalary_resolves (score salary : Int) :
    lowSalary.Resolves asciiReader [("score", .int score), ("salary", .int salary)] where
  first p hp := by
    have hscore : ¬ normKey asciiReader "score" = lowerText asciiReader lowSalary.field := by
      decide +kernel
    have hsalary : normKey asciiReader "salary" = lowerText asciiReader lowSalary.field := by
      decide +kernel
    have hspelled : ¬ "score".toList = lowSalary.field ∧ ¬ "salary".toList = lowSalary.field := by
      decide +kernel
    have hlower : ¬ lowerText asciiReader "score".toList = lowerText asciiReader lowSalary.field ∧
        lowerText asciiReader "salary".toList = lowerText asciiReader lowSalary.field := by
      decide +kernel
    rw [List.find?_cons_of_neg (by exact mt of_decide_eq_true hscore),
      List.find?_cons_of_pos (by exact decide_eq_true hsalary)] at hp
    rw [ownEntry, List.find?_cons_of_neg (by exact mt of_decide_eq_true hspelled.1),
      List.find?_cons_of_neg (by exact mt of_decide_eq_true hspelled.2), List.find?_nil,
      List.find?_cons_of_neg (by exact mt of_decide_eq_true hlower.1),
      List.find?_cons_of_pos (by exact decide_eq_true hlower.2)]
    exact hp
  exact _ _ _ := rfl

/-- The same comparisons with an `AND` are decided as they stand. -/
theorem bothRule_decided :
    bothRule.Decided asciiReader "score > 70 AND Salary<12" [applicant 80 10, applicant 80 20] := by
  refine Rule.decided_of_plain asciiReader ⟨by decide +kernel, ?_⟩ ⟨.inr rfl, ?_, by decide +kernel, ?_⟩
  · intro item hitem
    simp only [List.mem_cons, List.not_mem_nil, or_false] at hitem
    rcases hitem with rfl | rfl
    · exact ⟨_, rfl, by decide +kernel⟩
    · exact ⟨_, rfl, by decide +kernel⟩
  · intro c hc
    rcases List.mem_cons.mp hc with rfl | hc
    · exact highScore_plain
    · rw [List.mem_singleton.mp hc]
      exact lowSalary_plain
  · intro fields hfields c hc
    have hfields : ∃ score salary : Int,
        fields = [("score", .int score), ("salary", .int salary)] := by
      simp only [List.mem_cons, List.not_mem_nil, or_false] at hfields
      rcases hfields with h | h <;> cases h <;> exact ⟨_, _, rfl⟩
    obtain ⟨score, salary, rfl⟩ := hfields
    rcases List.mem_cons.mp hc with rfl | hc
    · exact highScore_resolves score salary
    · rw [List.mem_singleton.mp hc]
      exact lowSalary_resolves score salary

end RulesText

end CitraFlows
