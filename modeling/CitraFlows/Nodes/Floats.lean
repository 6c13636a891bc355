-- SUMMARY: What int() and float() read: numbers, texts, and the floats that are no numbers.
import CitraFlows.Lib.Doubles
import CitraFlows.Nodes.RulesText

/-!
# Floats

`float` takes numbers and texts, and rounds what they denote. A text may also stand for an infinity
or for `nan`, or be too large for a number; an integer that is too large raises.
-/

namespace CitraFlows

open Python
open Doubles (FloatValue floatLimit toDouble)
open RulesText (isDecimal digitsValue)

namespace Floats

/-- An exception that is neither a `TypeError` nor a `ValueError`. -/
structure OverflowError where
  message : String
  deriving DecidableEq

/-- `int(text)`, which refuses texts of more than 4300 digits. -/
def intText (cs : List Char) : Option Int :=
  if 4300 < (cs.filter isDecimal).length then none else Python.int cs

/-- Underscores may stand between digits. -/
def dropUnderscores (afterDigit : Bool) : List Char → Option (List Char)
  | [] => some []
  | c :: cs =>
      if c = '_' then
        if afterDigit && cs.head?.any isDecimal then dropUnderscores false cs else none
      else (dropUnderscores (isDecimal c) cs).map (c :: ·)

/-- The exponent of a float literal -/
def readExponent : List Char → Option Int
  | [] => some 0
  | e :: cs =>
      if e = 'e' ∨ e = 'E' then
        let (negative, digits) := match cs with
          | '-' :: ds => (true, ds)
          | '+' :: ds => (false, ds)
          | ds => (false, ds)
        if digits.isEmpty || !digits.all isDecimal then none
        else some (if negative then -(digitsValue 0 digits : Int) else digitsValue 0 digits)
      else none

/-- `n * 10 ** e` -/
def scaled (n : Nat) : Int → Rat
  | .ofNat k => n * 10 ^ k
  | .negSucc k => n / 10 ^ (k + 1)

/-- An unsigned float literal -/
def readDecimal (cs : List Char) : Option Rat :=
  let whole := cs.takeWhile isDecimal
  let (part, rest) := match cs.dropWhile isDecimal with
    | '.' :: rest => (rest.takeWhile isDecimal, rest.dropWhile isDecimal)
    | rest => ([], rest)
  if whole.isEmpty && part.isEmpty then none
  else
    (readExponent rest).map fun e =>
      scaled (digitsValue (digitsValue 0 whole) part) (e - part.length)

/-- `float(text)` -/
def floatText (cs : List Char) : Option FloatValue :=
  let (negative, body) := match strip cs with
    | '-' :: cs => (true, cs)
    | '+' :: cs => (false, cs)
    | cs => (false, cs)
  match String.ofList (body.map Char.toLower) with
  | "inf" | "infinity" => some (.infinite negative)
  | "nan" => some .nan
  | _ => do
      let x ← (dropUnderscores false body).bind readDecimal
      return (toDouble (if negative then -x else x)).value

example : floatText " -1_0.5e1 ".toList = some (.number (-105)) := by decide +kernel

end Floats

open Doubles Floats in
/-- `float(value)`; `none` stands for `TypeError` and `ValueError`. -/
def Value.toFloat : Value → Except OverflowError (Option FloatValue)
  | .bool b => .ok (some (.number (if b then 1 else 0)))
  | .int n =>
      if floatLimit ≤ n.natAbs then .error ⟨"int too large to convert to float"⟩
      else .ok (some (toDouble n).value)
  | .float x => .ok (some (toDouble x.val).value)
  | .str s => .ok (floatText s.toList)
  | .none | .list _ | .dict _ => .ok Option.none

end CitraFlows
