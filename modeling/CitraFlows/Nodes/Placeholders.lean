-- SUMMARY: The placeholders of the reranker and the MCP server: how they are found in a text, and what stands for them.
import CitraFlows.Lib.Scanning
import CitraFlows.Python

/-!
# Placeholders with paths

The reranker and the MCP server each have a copy of the same `_resolve`: the expression between
double braces is a path into the item or the variables, and what it does not find is an empty text.
-/

namespace CitraFlows

open Python
open Scanning (Pattern sub)

namespace Placeholders

/-- `\{\{\s*([^}]+?)\s*\}\}`: the expression without the blanks around it, and what follows. -/
def bracePattern : Pattern (List Char)
  | '{' :: '{' :: cs =>
      match cs.dropWhile (· ≠ '}') with
      | '}' :: '}' :: rest =>
          if cs.takeWhile (· ≠ '}') = [] then none
          else some (strip (cs.takeWhile (· ≠ '}')), rest)
      | _ => none
  | _ => none

/-- What `_resolve` reads -/
structure Scope where
  item : Value
  vars : Variables
  /-- `str` of what `getattr` finds on the way from a value that is no dict, empty for `None` -/
  getattr : Value → List String → String

/-- A mapping as a dict -/
def asValue (vars : Variables) : Value := .dict (vars.entries.map fun e => (e.1, e.2))

/-- `"" if cur is None else str(cur)` -/
def shown : Value → String
  | .none => ""
  | v => v.text

/-- `for part in filter(None, path.split("."))` -/
def walk (getattr : Value → List String → String) : Value → List String → String
  | cur, [] => shown cur
  | .dict fields, part :: parts =>
      match Value.getD fields part with
      | .none => ""
      | cur => walk getattr cur parts
  | cur, part :: parts => getattr cur (part :: parts)

/-- `_resolve` -/
def resolve (scope : Scope) (expr : List Char) : String :=
  let root := String.ofList (expr.takeWhile (· ≠ '.'))
  let path := (expr.dropWhile (· ≠ '.')).drop 1
  let cur :=
    if root ∈ ["item", "items"] then scope.item
    else if root ∈ ["var", "vars", "variables"] then asValue scope.vars
    else (scope.vars.lookup root).getD .none
  walk scope.getattr cur (((splitDots path).filter (· ≠ [])).map String.ofList)

/-- `re.sub` with `_resolve` -/
def render (scope : Scope) (template : String) : String :=
  String.ofList (sub bracePattern (fun expr _ => (resolve scope expr).toList) template.toList)

example : render ⟨.dict [("q", .str "x")], ∅, fun _ _ => ""⟩ "a \x7b\x7b item.q \x7d\x7d\x7b\x7by\x7d\x7d" = "a x" := by
  decide +kernel

variable {cs expr rest : List Char}

theorem bracePattern_eq (h : bracePattern cs = some (expr, rest)) :
    ∃ body, cs = '{' :: '{' :: body ++ '}' :: '}' :: rest ∧ body ≠ [] ∧ '}' ∉ body ∧
      expr = strip body := by
  unfold bracePattern at h
  split at h
  next cs =>
    split at h
    next rest' hrest =>
      obtain ⟨hne, hsome⟩ := Option.ite_none_left_eq_some.mp h
      cases hsome
      refine ⟨cs.takeWhile (· ≠ '}'), ?_, hne, fun hmem => ?_, rfl⟩
      · rw [List.cons_append, List.cons_append, ← hrest, List.takeWhile_append_dropWhile]
      · simpa using List.all_eq_true.mp List.all_takeWhile '}' hmem
    next => cases h
  next => cases h

theorem bracePattern_lawful : bracePattern.Lawful := by
  intro cs expr rest h
  obtain ⟨body, heq, -⟩ := bracePattern_eq h
  exact ⟨'{', '{' :: body ++ ['}', '}'], by simp [heq]⟩

/-- What is written out is matched. -/
theorem bracePattern_placeholder {body : List Char} (hne : body ≠ []) (hbody : '}' ∉ body)
    (rest : List Char) :
    bracePattern ('{' :: '{' :: body ++ '}' :: '}' :: rest) = some (strip body, rest) := by
  have hchars : ∀ c ∈ body, decide (c ≠ '}') = true := by
    intro c hc
    exact decide_eq_true fun h => hbody (h ▸ hc)
  have htake : (body ++ '}' :: '}' :: rest).takeWhile (· ≠ '}') = body := by
    rw [List.takeWhile_append_of_pos hchars]
    simp
  have hdrop : (body ++ '}' :: '}' :: rest).dropWhile (· ≠ '}') = '}' :: '}' :: rest := by
    rw [List.dropWhile_append_of_pos hchars]
    simp
  simp only [bracePattern, List.cons_append, htake, hdrop, if_neg hne]

end Placeholders

end CitraFlows
