-- SUMMARY: How the rules engine reads a rules text and decides it on the fields of a record, without a model.
import CitraFlows.Assistant.Json
import Mathlib.Data.Rat.Defs
import Mathlib.Algebra.Order.Field.Rat

/-!
# Rules as text

`_try_deterministic_eval` cuts a rules text at `and` and commas, reads each piece as a comparison
of a field with a number, and looks the field up in each record, more and more loosely. A piece
that is no comparison leaves the rules to the model.

Not modelled: floats that are no numbers, and the form of a sigma at the end of a word.
-/

namespace CitraFlows

open Python

namespace RulesText

/-- What the interpreter brings: `str.lower` and `\w` of a character, by the Unicode tables, the
float next to a number, and how it is printed. -/
structure Reader where
  lower : Char → List Char
  word : Char → Bool
  round : Rat → Rat
  repr : Rat → String
  lower_ascii : ∀ c : Char, c.toNat < 128 → lower c = [c.toLower]
  lower_space : ∀ c, isspace c = true → lower c = [c]
  lower_digit : ∀ c, (digitValue c).isSome = true → lower c = [c]
  lower_nonspace : ∀ c, isspace c = false → lower c ≠ [] ∧ ∀ d ∈ lower c, isspace d = false
  lower_new : ∀ c, ∀ d ∈ lower c, d = c ∨ d.isAlpha = true ∨ 128 ≤ d.toNat
  word_ascii : ∀ c : Char, c.toNat < 128 → word c = (c.isAlphanum || c == '_')
  word_space : ∀ c, isspace c = true → word c = false

/-! ## Numbers -/

def isDecimal (c : Char) : Bool := (digitValue c).isSome

/-- The number that digits denote, after those before them. -/
def digitsValue (acc : Nat) (cs : List Char) : Nat :=
  cs.foldl (fun acc c => acc * 10 + (digitValue c).getD 0) acc

/-- `\d+(?:\.\d+)?` at the head of a text: the number, and what follows -/
def matchUnsigned (cs : List Char) : Option (Rat × List Char) :=
  let whole := cs.takeWhile isDecimal
  if whole = [] then none
  else
    match cs.dropWhile isDecimal with
    | '.' :: rest =>
        let part := rest.takeWhile isDecimal
        if part = [] then some (digitsValue 0 whole, '.' :: rest)
        else
          some (digitsValue (digitsValue 0 whole) part / (10 : Rat) ^ part.length,
            rest.dropWhile isDecimal)
    | rest => some (digitsValue 0 whole, rest)

/-- `-?\d+(?:\.\d+)?` -/
def matchNumber : List Char → Option (Rat × List Char)
  | '-' :: cs => (matchUnsigned cs).map fun r => (-r.1, r.2)
  | cs => matchUnsigned cs

/-- `re.search` for a number -/
def searchNumber : List Char → Option Rat
  | [] => none
  | c :: cs =>
      match matchNumber (c :: cs) with
      | some (q, _) => some q
      | none => searchNumber cs

section

variable (r : Reader)

mutual

/-- `_to_number` -/
def toNumber : Value → Option Rat
  | .none => none
  | .bool b => some (if b then 1 else 0)
  | .int n => some (r.round n)
  | .float x => some x.val
  | .str s => (searchNumber s.toList).map r.round
  | .list xs => headNumber xs
  | .dict fields =>
      match ["score", "value", "amount", "total"].findSome? fun k =>
          List.lookup k (fieldNumbers fields) with
      | some n => n
      | none => (fieldNumbers fields).findSome? Prod.snd

private def headNumber : List Value → Option Rat
  | [] => none
  | v :: _ => toNumber v

private def fieldNumbers : List (String × Value) → List (String × Option Rat)
  | [] => []
  | p :: ps => fieldNumber p :: fieldNumbers ps

private def fieldNumber : String × Value → String × Option Rat
  | (k, v) => (k, toNumber v)

end

/-! ## Reading a rules text -/

/-- `text.lower()` -/
def lowerText (cs : List Char) : List Char := cs.flatMap r.lower

/-- The preambles that are removed -/
def preambles : List String :=
  ["for each candidate:", "for each record:", "for each item:", "each candidate must have:", "if "]

/-- `if text.startswith(prefix): text = text[len(prefix):].strip()`, for each preamble -/
def removePreambles (cs : List Char) : List Char :=
  preambles.foldl (fun cs p => if p.toList.isPrefixOf cs then strip (cs.drop p.length) else cs) cs

/-- `re.split(r'\band\b|,', text)`, after a character of a word or not -/
def splitConjuncts (afterWord : Bool) : List Char → List (List Char)
  | [] => [[]]
  | 'a' :: 'n' :: 'd' :: cs =>
      if !afterWord && !cs.head?.any r.word then [] :: splitConjuncts true cs
      else
        match splitConjuncts (r.word 'a') ('n' :: 'd' :: cs) with
        | [] => [['a']]
        | part :: parts => ('a' :: part) :: parts
  | c :: cs =>
      if c = ',' then [] :: splitConjuncts false cs
      else
        match splitConjuncts (r.word c) cs with
        | [] => [[c]]
        | part :: parts => (c :: part) :: parts

/-- The operators, after their spelling is normalized -/
inductive Op where
  | lt
  | le
  | gt
  | ge
  | eq
  | ne
  deriving DecidableEq

def Op.text : Op → String
  | .lt => "<"
  | .le => "<="
  | .gt => ">"
  | .ge => ">="
  | .eq => "=="
  | .ne => "!="

def Op.holds (op : Op) (x y : Rat) : Bool :=
  match op with
  | .lt => x < y
  | .le => x ≤ y
  | .gt => y < x
  | .ge => y ≤ x
  | .eq => x = y
  | .ne => x ≠ y

/-- `<=|>=|!=|<>|<|>|==|=` -/
def matchOp : List Char → Option (Op × List Char)
  | '<' :: '=' :: cs => some (.le, cs)
  | '>' :: '=' :: cs => some (.ge, cs)
  | '!' :: '=' :: cs => some (.ne, cs)
  | '<' :: '>' :: cs => some (.ne, cs)
  | '<' :: cs => some (.lt, cs)
  | '>' :: cs => some (.gt, cs)
  | '=' :: '=' :: cs => some (.eq, cs)
  | '=' :: cs => some (.eq, cs)
  | _ => none

/-- The rest of the pattern after the field: `\s*(op)\s*(number)\s*$` -/
def matchTail (cs : List Char) : Option (Op × Rat) :=
  match matchOp (cs.dropWhile isspace) with
  | none => none
  | some (op, cs) =>
      match matchNumber (cs.dropWhile isspace) with
      | none => none
      | some (q, cs) => if cs.all isspace then some (op, q) else none

/-- The shortest field before a tail, with what was tried before it: `(.+?)` -/
def matchField (tried : List Char) : List Char → Option (List Char × Op × Rat)
  | [] => none
  | c :: cs =>
      if c = '\n' then none
      else
        match matchTail cs with
        | some (op, q) => some (tried ++ [c], op, q)
        | none => matchField (tried ++ [c]) cs

/-- Where the field may start: behind an `if` and some white space, as much as possible first, or
at the beginning -/
def fieldStarts (cs : List Char) : List (List Char) :=
  match cs with
  | 'i' :: 'f' :: rest =>
      ((List.range (rest.takeWhile isspace).length).map fun n =>
        rest.drop ((rest.takeWhile isspace).length - n)) ++ [cs]
  | _ => [cs]

/-- A comparison: `field_phrase, op, threshold` -/
structure Condition where
  phrase : List Char
  op : Op
  threshold : Rat
  deriving DecidableEq

/-- The comparison of a piece -/
def parseConjunct (conj : List Char) : Option Condition :=
  ((fieldStarts conj).findSome? (matchField [])).map fun m =>
    { phrase := strip m.1, op := m.2.1, threshold := r.round m.2.2 }

/-- `conditions`; `none` if a piece is no comparison. -/
def parseConditions : List (List Char) → Option (List Condition)
  | [] => some []
  | conj :: conjuncts =>
      if (strip conj).isEmpty then parseConditions conjuncts
      else do
        let condition ← parseConjunct r (strip conj)
        let conditions ← parseConditions conjuncts
        return condition :: conditions

/-- The conditions of a rules text; `none` if there are none. -/
def parseRules (rulesText : String) : Option (List Condition) :=
  (parseConditions r
    (splitConjuncts r false (removePreambles (lowerText r (strip rulesText.toList))))).bind
      fun conditions => if conditions.isEmpty then none else some conditions

/-! ## Looking a field up -/

/-- `key.lower().replace("_", " ")` -/
def normKey (key : String) : List Char :=
  (lowerText r key.toList).map fun c => if c = '_' then ' ' else c

/-- `text.split()` -/
def splitWords (cs : List Char) : List (List Char) :=
  (cs.splitOnP isspace).filter (· ≠ [])

/-- `_to_number(d["score"])` of a dict that has one -/
def scoreNumber (d : List (String × Value)) : Option Rat :=
  (Value.field d "score").bind (toNumber r)

/-- The value of the key that the phrase spells -/
def directMatch (phrase : List Char) (item : List (String × Value)) : Option (Option Rat) :=
  (item.find? fun p => normKey r p.1 = phrase).map fun p => toNumber r p.2

/-- `_to_number(val)`, but of a list of dicts the score of the first one, or any number of it -/
def looseNumber : Value → Option Rat
  | .list (.dict d :: rest) =>
      scoreNumber r d <|> d.findSome? (fun p => toNumber r p.2) <|>
        toNumber r (.list (.dict d :: rest))
  | val => toNumber r val

/-- A key whose first word is the first word of the phrase, and that has a number -/
def firstWordMatch (phrase : List Char) (item : List (String × Value)) : Option Rat :=
  match splitWords phrase with
  | [] => none
  | word :: _ =>
      item.findSome? fun p =>
        if (splitWords (normKey r p.1)).head? = some word then looseNumber r p.2 else none

/-- `_to_number(val)`, but of a list of dicts the score of the first one -/
def listScore : Value → Option Rat
  | .list (.dict d :: rest) => scoreNumber r d <|> toNumber r (.list (.dict d :: rest))
  | val => toNumber r val

/-- The first key that is a part of the phrase, or has it as a part -/
def substringMatch (phrase : List Char) (item : List (String × Value)) : Option (Option Rat) :=
  let phraseStripped := phrase.filter (· ≠ ' ')
  (item.find? fun p =>
    let keyStripped := (lowerText r p.1.toList).filter fun c => c ≠ '_' ∧ c ≠ ' '
    phraseStripped <:+: keyStripped ∨ keyStripped <:+: phraseStripped).map
      fun p => listScore r p.2

/-- The last word of the phrase inside the value of a key that has the first one as a part -/
def nestedMatch (phrase : List Char) (item : List (String × Value)) : Option (Option Rat) :=
  match splitWords phrase with
  | container :: word :: words =>
      item.findSome? fun p =>
        if container <:+: normKey r p.1 then
          match p.2.asDict.bind fun d =>
              Value.field d (String.ofList (words.getLastD word)) with
          | some v => some (toNumber r v)
          | none => (toNumber r p.2).map some
        else none
  | _ => none

/-- `_extract_numeric` -/
def extractNumeric (item : List (String × Value)) (phrase : List Char) : Option Rat :=
  match directMatch r phrase item with
  | some n => n
  | none =>
      match firstWordMatch r phrase item with
      | some n => some n
      | none =>
          match substringMatch r phrase item with
          | some n => n
          | none =>
              match nestedMatch r phrase item with
              | some n => n
              | none => (Value.field item "_score").bind (toNumber r)

/-! ## Deciding -/

/-- One condition of one record: does it hold, and the reason given -/
def evalCondition (item : List (String × Value)) (c : Condition) : Bool × String :=
  match extractNumeric r item c.phrase with
  | none =>
      (false, String.ofList c.phrase ++ " could not be evaluated (field not found)")
  | some val =>
      let requirement := "(" ++ c.op.text ++ " " ++ r.repr c.threshold ++ ")"
      if c.op.holds val c.threshold then
        (true, String.ofList c.phrase ++ " (" ++ r.repr val ++ ") meets requirement " ++
          requirement)
      else
        (false, String.ofList c.phrase ++ " (" ++ r.repr val ++ ") does not meet requirement " ++
          requirement)

/-- The evaluation of one record: `passed` and `reason` -/
def evalRecord (conditions : List Condition) : Value → Bool × String
  | .dict item =>
      let outcomes := conditions.map (evalCondition r item)
      (outcomes.all Prod.fst, "; ".intercalate (outcomes.map Prod.snd))
  | _ => (false, "Record is not a dict")

/-- The evaluations of the records, numbered from `i` on -/
def evalRecords (conditions : List Condition) (i : Nat) : List Value → List Value
  | [] => []
  | item :: items =>
      .dict [("record_index", .int i), ("passed", .bool (evalRecord r conditions item).1),
        ("reason", .str (evalRecord r conditions item).2)] ::
      evalRecords conditions (i + 1) items

/-- `_try_deterministic_eval` -/
def tryDeterministicEval (rulesText : String) (items : List Value) : Option (List Value) :=
  (parseRules r rulesText).map fun conditions => evalRecords r conditions 0 items

end

end RulesText

end CitraFlows
