-- SUMMARY: Interpolation of dotted placeholders in the texts of a node's config.
import CitraFlows.Assistant.Json

/-!
# Dotted templates

`utils/template.py` replaces `{{item.x}}`, `{{var.x}}` and `{{x}}` in a text. A placeholder that
resolves to nothing stays.
-/

namespace CitraFlows

open Python

namespace Template

/-- What `\{\{\s*([\w.]+)\s*\}\}` matches at the head of a text: the key and what follows. The
characters of `\w` are a parameter. -/
def matchDotted (word : Char → Bool) : List Char → Option (List Char × List Char)
  | '{' :: '{' :: cs =>
      let body := cs.dropWhile isspace
      let inKey := fun c => word c || c = '.'
      match body.takeWhile inKey, (body.dropWhile inKey).dropWhile isspace with
      | [], _ => none
      | key, '}' :: '}' :: rest => some (key, rest)
      | _, _ => none
  | _ => none

/-- `_lookup` -/
def lookup (item : Entries) (vars : Variables) (key : List Char) : Value :=
  if '.' ∈ key then
    let ns := String.ofList (key.takeWhile (· ≠ '.'))
    let name := String.ofList ((key.dropWhile (· ≠ '.')).drop 1)
    if ns = "item" then Value.getD item name
    else if ns ∈ ["var", "vars", "variables"] then (vars.lookup name).getD .none
    else .none
  else (vars.lookup (String.ofList key)).getD .none

/-- `_DOTTED_PATTERN.sub(_replacer, text)`; `fuel` bounds the characters still to be read. -/
def substitute (word : Char → Bool) (look : List Char → Value) : Nat → List Char → List Char
  | 0, cs => cs
  | _ + 1, [] => []
  | fuel + 1, c :: cs =>
      match matchDotted word (c :: cs) with
      | none => c :: substitute word look fuel cs
      | some (key, rest) =>
          let value := match look key with
            | .none => (c :: cs).take ((c :: cs).length - rest.length)
            | v => v.text.toList
          value ++ substitute word look fuel rest

/-- `interpolate_dotted` -/
def interpolateDotted (word : Char → Bool) (item : Entries) (vars : Variables) (text : String) :
    String :=
  String.ofList (substitute word (lookup item vars) text.length text.toList)

theorem substitute_of_no_brace (word : Char → Bool) (look : List Char → Value) (fuel : Nat)
    {cs : List Char} (h : '{' ∉ cs) : substitute word look fuel cs = cs := by
  induction fuel generalizing cs with
  | zero => rfl
  | succ fuel ih =>
      cases cs with
      | nil => rfl
      | cons c cs =>
          rw [List.mem_cons, not_or] at h
          have hhead : matchDotted word (c :: cs) = none := by
            unfold matchDotted
            split
            next heq => exact absurd (List.cons.inj heq).1.symm h.1
            next => rfl
          rw [substitute, hhead]
          exact congrArg (c :: ·) (ih h.2)

/-- A text without a brace stays as it is. -/
theorem interpolateDotted_of_no_brace (word : Char → Bool) (item : Entries) (vars : Variables)
    {text : String} (h : '{' ∉ text.toList) : interpolateDotted word item vars text = text := by
  rw [interpolateDotted, substitute_of_no_brace word _ _ h, String.ofList_toList]

example : interpolateDotted Char.isAlphanum [("id", .int 7)] ∅ "claims/{{ item.id }}/{{ x }}" =
    "claims/7/{{ x }}" := by decide +kernel

end Template

end CitraFlows
