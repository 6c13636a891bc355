-- SUMMARY: The Python values and text operations the workflow engine computes with.
import CitraFlows.Lib.Trimming
import Mathlib.Data.List.AList
import Mathlib.Data.Finset.Card
import Mathlib.Data.Rat.Defs

/-!
# Python values

Node outputs, node configurations and workflow variables are JSON values held as
Python objects. This file fixes their shape, their truth value, their text, and
the few text operations (`strip`, `lower`, `replace`, `split`, `isdigit`, `int`)
the engine applies to labels, handles and field paths.
-/

namespace CitraFlows

namespace Python

/-! ## Text -/

/-- The characters `str.isspace` accepts, which are the ones `str.strip` removes. -/
def isspace (c : Char) : Bool :=
  let n := c.toNat
  (0x09 ≤ n ∧ n ≤ 0x0d) || (0x1c ≤ n ∧ n ≤ 0x20) || n = 0x85 || n = 0xa0 || n = 0x1680 ||
    (0x2000 ≤ n ∧ n ≤ 0x200a) || n = 0x2028 || n = 0x2029 || n = 0x202f || n = 0x205f ||
    n = 0x3000

theorem isspace_of_isDigit {c : Char} (h : c.isDigit = true) : isspace c = false := by
  obtain ⟨h₁, h₂⟩ : 48 ≤ c.toNat ∧ c.toNat ≤ 57 := by
    simpa [Char.isDigit, UInt32.le_iff_toNat_le] using h
  simp only [isspace, Bool.or_eq_false_iff, decide_eq_false_iff_not]
  omega

/-- `str.strip()` on the characters of a string. -/
def strip (cs : List Char) : List Char :=
  ((cs.dropWhile isspace).reverse.dropWhile isspace).reverse

theorem strip_eq_trim (cs : List Char) : strip cs = Trimming.trim isspace cs :=
  rfl

/-- `str.lower()` of one character, as far as the result can be ASCII text. Outside
the ASCII letters only the Kelvin sign has an ASCII lower case; every other
character keeps a non-ASCII lower case, so leaving it alone changes no comparison
with an ASCII token. -/
def lowerChar (c : Char) : Char :=
  if c.toNat = 0x212a then 'k' else c.toLower

def lower (cs : List Char) : List Char := cs.map lowerChar

/-- `str.upper()` of one character, as far as the result can be ASCII text. -/
def upperChar (c : Char) : List Char :=
  match c.toNat with
  | 0x131 => ['I']
  | 0x17f => ['S']
  | 0xdf => ['S', 'S']
  | 0xfb00 => ['F', 'F']
  | 0xfb01 => ['F', 'I']
  | 0xfb02 => ['F', 'L']
  | 0xfb03 => ['F', 'F', 'I']
  | 0xfb04 => ['F', 'F', 'L']
  | 0xfb05 | 0xfb06 => ['S', 'T']
  | _ => [c.toUpper]

def upper (cs : List Char) : List Char := cs.flatMap upperChar

/-- The code points of the decimal zeros (general category `Nd`): each starts a run
of ten digits. -/
def decimalZeros : List Nat :=
  [0x30, 0x660, 0x6f0, 0x7c0, 0x966, 0x9e6, 0xa66, 0xae6, 0xb66, 0xbe6, 0xc66, 0xce6, 0xd66,
   0xde6, 0xe50, 0xed0, 0xf20, 0x1040, 0x1090, 0x17e0, 0x1810, 0x1946, 0x19d0, 0x1a80, 0x1a90,
   0x1b50, 0x1bb0, 0x1c40, 0x1c50, 0xa620, 0xa8d0, 0xa900, 0xa9d0, 0xa9f0, 0xaa50, 0xabf0,
   0xff10, 0x104a0, 0x10d30, 0x11066, 0x110f0, 0x11136, 0x111d0, 0x112f0, 0x11450, 0x114d0,
   0x11650, 0x116c0, 0x11730, 0x118e0, 0x11950, 0x11c50, 0x11d50, 0x11da0, 0x11f50, 0x16a60,
   0x16ac0, 0x16b50, 0x1d7ce, 0x1d7d8, 0x1d7e2, 0x1d7ec, 0x1d7f6, 0x1e140, 0x1e2f0, 0x1e4f0,
   0x1e950, 0x1fbf0]

/-- The value of a decimal digit character, as `int` reads it. -/
def digitValue (c : Char) : Option Nat :=
  (decimalZeros.find? fun z => z ≤ c.toNat ∧ c.toNat < z + 10).map (c.toNat - ·)

/-- The ranges of characters with a digit value that are not decimal digits, such as
superscripts: `str.isdigit` accepts them and `int` does not. -/
def otherDigits : List (Nat × Nat) :=
  [(0xb2, 0xb3), (0xb9, 0xb9), (0x1369, 0x1371), (0x19da, 0x19da), (0x2070, 0x2070),
   (0x2074, 0x2079), (0x2080, 0x2089), (0x2460, 0x2468), (0x2474, 0x247c), (0x2488, 0x2490),
   (0x24ea, 0x24ea), (0x24f5, 0x24fd), (0x24ff, 0x24ff), (0x2776, 0x277e), (0x2780, 0x2788),
   (0x278a, 0x2792), (0x10a40, 0x10a43), (0x10e60, 0x10e68), (0x11052, 0x1105a),
   (0x1f100, 0x1f10a)]

/-- `str.isdigit()`. -/
def isdigit (cs : List Char) : Bool :=
  !cs.isEmpty && cs.all fun c =>
    (digitValue c).isSome || otherDigits.any fun r => r.1 ≤ c.toNat ∧ c.toNat ≤ r.2

/-- The digits of an integer literal: single underscores may stand between digits. -/
def readDigits : List Char → Nat → Option Nat
  | [], acc => some acc
  | [c], acc => (digitValue c).map (acc * 10 + ·)
  | c :: d :: cs, acc =>
      match digitValue c with
      | none => none
      | some v =>
          if d = '_' then
            match cs with
            | [] => none
            | e :: es => readDigits (e :: es) (acc * 10 + v)
          else readDigits (d :: cs) (acc * 10 + v)

/-- `int(text)`: surrounding white space and one sign are allowed; `none` stands for
`ValueError`. -/
def int (cs : List Char) : Option Int :=
  match strip cs with
  | [] => none
  | '+' :: c :: cs => (readDigits (c :: cs) 0).map Int.ofNat
  | '-' :: c :: cs => (readDigits (c :: cs) 0).map fun n => -(n : Int)
  | cs => (readDigits cs 0).map Int.ofNat

/-- `text.replace(old, "")` for a non-empty `old`: the occurrences are found from the
left and do not overlap. `fuel` bounds the characters still to be read. -/
def removeAll (old : List Char) : Nat → List Char → List Char
  | 0, cs => cs
  | _ + 1, [] => []
  | fuel + 1, c :: cs =>
      if old.isPrefixOf (c :: cs) then removeAll old fuel ((c :: cs).drop old.length)
      else c :: removeAll old fuel cs

/-- `text.split(".")`. -/
def splitDots : List Char → List (List Char)
  | [] => [[]]
  | c :: cs =>
      if c = '.' then [] :: splitDots cs
      else
        match splitDots cs with
        | [] => [[c]]
        | part :: parts => (c :: part) :: parts

end Python

/-! ## Values -/

/-- A Python float: its value and the text `repr` gives it. -/
structure PyFloat where
  val : Rat
  repr : String
  deriving DecidableEq

/-- A JSON value as Python holds it. The entries of a `dict` are in insertion order. -/
inductive Value where
  | none
  | bool (b : Bool)
  | int (n : Int)
  | float (x : PyFloat)
  | str (s : String)
  | list (xs : List Value)
  | dict (fields : List (String × Value))

/-- A mapping from names to values, such as the workflow variables. -/
abbrev Variables := AList (fun _ : String => Value)

namespace Value

/-- `bool(value)`. -/
def truthy : Value → Bool
  | .none => false
  | .bool b => b
  | .int n => n ≠ 0
  | .float x => x.val ≠ 0
  | .str s => s ≠ ""
  | .list xs => !xs.isEmpty
  | .dict fields => !fields.isEmpty

/-- `type(value).__name__`. -/
def typeName : Value → String
  | .none => "NoneType"
  | .bool _ => "bool"
  | .int _ => "int"
  | .float _ => "float"
  | .str _ => "str"
  | .list _ => "list"
  | .dict _ => "dict"

/-- The entries of a dict; `none` for any other value. -/
def asDict : Value → Option (List (String × Value))
  | .dict fields => some fields
  | _ => Option.none

/-- The elements of a list; `none` for any other value. -/
def asList : Value → Option (List Value)
  | .list xs => some xs
  | _ => Option.none

/-- `fields.get(key)`, with `none` for an absent key. -/
def field (fields : List (String × Value)) (key : String) : Option Value :=
  fields.lookup key

/-- `fields.get(key)` as Python returns it: `None` for an absent key. -/
def getD (fields : List (String × Value)) (key : String) : Value :=
  (field fields key).getD .none

/-- `value == n` for an integer `n`: a bool or a float may equal an integer. -/
def eqInt : Value → Int → Bool
  | .int m, n => m = n
  | .bool b, n => (if b then 1 else 0) = n
  | .float x, n => x.val = n
  | _, _ => false

/-- `value == text` for a string. -/
def eqStr : Value → String → Bool
  | .str s, t => s = t
  | _, _ => false

def isNone : Value → Bool
  | .none => true
  | _ => false

/-- `int(value)`: a float is cut off towards zero; `none` stands for `TypeError` and
`ValueError`. -/
def toInt : Value → Option Int
  | .bool b => some (if b then 1 else 0)
  | .int n => some n
  | .float x => some (x.val.num.tdiv x.val.den)
  | .str s => Python.int s.toList
  | .none | .list _ | .dict _ => Option.none

@[simp] theorem eqInt_int (m n : Int) : eqInt (.int m) n = decide (m = n) := rfl

@[simp] theorem eqStr_str (s t : String) : eqStr (.str s) t = decide (s = t) := rfl

@[simp] theorem asDict_dict (fields : List (String × Value)) :
    (Value.dict fields).asDict = some fields := rfl

theorem asDict_eq_some {v : Value} {fields : List (String × Value)} :
    v.asDict = some fields ↔ v = .dict fields := by
  cases v <;> simp [asDict]

@[simp] theorem asList_list (xs : List Value) : (Value.list xs).asList = some xs := rfl

/-! ## The text of a value -/

/-- How `repr` writes one character of a string quoted by `quote`. -/
def reprChar (quote : Char) (c : Char) : List Char :=
  let hex (n : Nat) : Char := Nat.digitChar n
  if c = quote ∨ c = '\\' then ['\\', c]
  else if c = '\n' then ['\\', 'n']
  else if c = '\r' then ['\\', 'r']
  else if c = '\t' then ['\\', 't']
  else if c.toNat < 0x20 ∨ (0x7f ≤ c.toNat ∧ c.toNat ≤ 0xa0) ∨ c.toNat = 0xad then
    ['\\', 'x', hex (c.toNat / 16), hex (c.toNat % 16)]
  else [c]

/-- `repr` of a string: single quotes, unless the text holds one and no double quote. -/
def reprStr (s : String) : String :=
  let quote := if '\'' ∈ s.toList ∧ '"' ∉ s.toList then '"' else '\''
  String.ofList (quote :: s.toList.flatMap (reprChar quote) ++ [quote])

mutual

/-- `repr(value)`. -/
def repr : Value → String
  | .none => "None"
  | .bool b => if b then "True" else "False"
  | .int n => toString n
  | .float x => x.repr
  | .str s => reprStr s
  | .list xs => "[" ++ ", ".intercalate (reprList xs) ++ "]"
  | .dict fields => "\x7b" ++ ", ".intercalate (reprFields fields) ++ "\x7d"

private def reprList : List Value → List String
  | [] => []
  | v :: vs => repr v :: reprList vs

private def reprFields : List (String × Value) → List String
  | [] => []
  | p :: ps => reprField p :: reprFields ps

private def reprField : String × Value → String
  | (k, v) => reprStr k ++ ": " ++ repr v

end

/-- `str(value)`: a string is its own text, anything else is its `repr`. -/
def text : Value → String
  | .str s => s
  | v => repr v

@[simp] theorem text_str (s : String) : text (.str s) = s := rfl

end Value

/-! ## Errors -/

/-- The Python exceptions the engine itself can raise, by what their text is made of. -/
inductive PyError where
  /-- `x.get` on a value that is not a dict. -/
  | attributeError (typeName attr : String)
  | keyError (key : String)
  | valueError (message : String)
  | typeError (message : String)
  | runtimeError (message : String)
  deriving DecidableEq

/-- A computation that returns has returned at each of its steps. -/
theorem ok_of_bind {ε α β : Type} {x : Except ε α} {f : α → Except ε β} {b : β}
    (h : x >>= f = .ok b) : ∃ a, x = .ok a ∧ f a = .ok b := by
  cases x with
  | error e => cases h
  | ok a => exact ⟨a, rfl, h⟩

theorem bind_eq_ok {ε α β : Type} {x : Except ε α} {f : α → Except ε β} {b : β} :
    x >>= f = .ok b ↔ ∃ a, x = .ok a ∧ f a = .ok b :=
  ⟨ok_of_bind, fun ⟨_, hx, hf⟩ => by rw [hx]; exact hf⟩

/-- A check that raises lets through what it does not refuse. -/
theorem refuse_eq_ok {ε α : Type} {c : Prop} [Decidable c] {e : ε} {x : Except ε α} {a : α} :
    (if c then throw e else x) = .ok a ↔ ¬c ∧ x = .ok a := by
  by_cases hc : c
  · simp [hc, throw, throwThe, MonadExceptOf.throw]
  · simp [hc]

/-- A property of the members of a list is decided on each of them. -/
theorem forall_mem_of_all {α : Type} {p : α → Prop} [DecidablePred p] {l : List α}
    (h : (l.all fun a => decide (p a)) = true) : ∀ a ∈ l, p a := by
  simpa using h

theorem forall_mem_of_optionAll {α : Type} {p : α → Prop} [DecidablePred p] {o : Option α}
    (h : (o.all fun a => decide (p a)) = true) : ∀ a ∈ o, p a := by
  intro a ha
  rw [Option.mem_def.mp ha] at h
  exact of_decide_eq_true h

/-- `str(exc)`. -/
def PyError.message : PyError → String
  | .attributeError t a => "'" ++ t ++ "' object has no attribute '" ++ a ++ "'"
  | .keyError k => Value.reprStr k
  | .valueError m => m
  | .typeError m => m
  | .runtimeError m => m

end CitraFlows
