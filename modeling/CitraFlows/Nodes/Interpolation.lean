-- SUMMARY: Interpolation of the workflow's variables into a text, and which of them the result depends on.
import CitraFlows.Lib.Scanning
import CitraFlows.Python

/-!
# Interpolation of variables

`interpolate_variables` replaces `{{name}}` in a text by the variable of that name. A placeholder
without a variable stays. What a variable's value brings in is not looked at again.
-/

namespace CitraFlows

open Scanning (Pattern captures sub)

section

/- The characters of `\w`. -/
variable (word : Char → Bool)

/-- `_VAR_PATTERN`: `\{\{(\w+)\}\}` -/
def varPattern : Pattern (List Char)
  | '{' :: '{' :: cs =>
      match cs.dropWhile word with
      | '}' :: '}' :: rest =>
          if cs.takeWhile word = [] then none else some (cs.takeWhile word, rest)
      | _ => none
  | _ => none

/-- The text that stands for a placeholder: `_replacer` -/
def resolve (vars : Variables) (key placeholder : List Char) : List Char :=
  match vars.lookup (String.ofList key) with
  | some v => v.text.toList
  | none => placeholder

/-- `interpolate_variables` -/
def interpolateVariables (vars : Variables) (text : List Char) : List Char :=
  if text.isEmpty || vars.entries.isEmpty then text
  else sub (varPattern word) (resolve vars) text

/-- The names whose placeholders occur in a text. -/
def placeholders (text : List Char) : List String :=
  (captures (varPattern word) text).map String.ofList

end

variable {word : Char → Bool} {cs key rest : List Char}

theorem varPattern_eq (h : varPattern word cs = some (key, rest)) :
    cs = '{' :: '{' :: key ++ '}' :: '}' :: rest ∧ key ≠ [] ∧ ∀ c ∈ key, word c = true := by
  unfold varPattern at h
  split at h
  next cs =>
    split at h
    next rest' hrest =>
      obtain ⟨hne, hsome⟩ := Option.ite_none_left_eq_some.mp h
      cases hsome
      refine ⟨?_, hne, fun c hc => List.all_eq_true.mp List.all_takeWhile c hc⟩
      rw [List.cons_append, List.cons_append, ← hrest, List.takeWhile_append_dropWhile]
    next => cases h
  next => cases h

theorem varPattern_lawful : (varPattern word).Lawful := by
  intro cs key rest h
  obtain ⟨heq, -, -⟩ := varPattern_eq h
  exact ⟨'{', '{' :: key ++ ['}', '}'], by simp [heq]⟩

/-- What is written out is matched, if a brace is no character of a name. -/
theorem varPattern_placeholder (hbrace : word '}' = false) (hne : key ≠ [])
    (hkey : ∀ c ∈ key, word c = true) (rest : List Char) :
    varPattern word ('{' :: '{' :: key ++ '}' :: '}' :: rest) = some (key, rest) := by
  have htake : (key ++ '}' :: '}' :: rest).takeWhile word = key := by
    rw [List.takeWhile_append_of_pos hkey, List.takeWhile_cons, hbrace]
    simp
  have hdrop : (key ++ '}' :: '}' :: rest).dropWhile word = '}' :: '}' :: rest := by
    rw [List.dropWhile_append_of_pos hkey, List.dropWhile_cons, hbrace]
    simp
  simp only [varPattern, List.cons_append, htake, hdrop, if_neg hne]

/-- The early returns make no difference. -/
theorem interpolateVariables_eq_sub (vars : Variables) (text : List Char) :
    interpolateVariables word vars text = sub (varPattern word) (resolve vars) text := by
  unfold interpolateVariables
  split
  next hempty =>
    rcases Bool.or_eq_true_iff.mp hempty with htext | hvars
    · rw [List.isEmpty_iff.mp htext]
      rfl
    · have hnone : resolve vars = fun _ placeholder => placeholder := by
        funext key placeholder
        have hlookup : vars.lookup (String.ofList key) = none := by
          rw [AList.lookup_eq_none, AList.mem_keys, AList.keys, List.isEmpty_iff.mp hvars]
          simp
        rw [resolve, hlookup]
      rw [hnone, Scanning.sub_id varPattern_lawful]
  next => rfl

theorem mem_placeholders {text : List Char} {name : String} :
    name ∈ placeholders word text ↔
      ∃ key ∈ captures (varPattern word) text, String.ofList key = name :=
  List.mem_map

/-- The result depends on the variables whose placeholders occur, and on no others. -/
theorem interpolateVariables_agree_iff {text : List Char} {names : List String} :
    (∀ vars vars' : Variables, (∀ name ∈ names, vars.lookup name = vars'.lookup name) →
      interpolateVariables word vars text = interpolateVariables word vars' text) ↔
    placeholders word text ⊆ names := by
  simp only [interpolateVariables_eq_sub]
  constructor
  · intro h name hname
    refine Decidable.byContradiction fun hnot => ?_
    -- the placeholder is there without the variable, and gone with an empty one
    obtain ⟨key, hkey, rfl⟩ := mem_placeholders.mp hname
    have hsame := h ∅ (AList.insert (String.ofList key) (.str "") ∅) fun name hmem => by
      have hne : name ≠ String.ofList key := fun heq => hnot (heq ▸ hmem)
      rw [AList.lookup_insert_ne hne]
    have hkept : sub (varPattern word) (resolve ∅) text = text := by
      have hid : resolve ∅ = fun _ placeholder => placeholder := by
        funext key placeholder
        simp [resolve]
      rw [hid, Scanning.sub_id varPattern_lawful]
    have hempty : ∀ other tok, resolve (AList.insert (String.ofList key) (.str "") ∅) other tok =
        if String.ofList other = String.ofList key then [] else tok := by
      intro other tok
      by_cases hother : String.ofList other = String.ofList key
      · rw [if_pos hother, resolve, hother, AList.lookup_insert]
        rfl
      · rw [if_neg hother, resolve, AList.lookup_insert_ne hother]
        rfl
    have hshort : (sub (varPattern word) (resolve (AList.insert (String.ofList key) (.str "") ∅))
        text).length < text.length := by
      refine Scanning.sub_length_lt varPattern_lawful (fun other tok => ?_) hkey fun c tok => ?_
      · rw [hempty]
        split <;> simp
      · rw [hempty, if_pos rfl]
        simp
    rw [← hsame, hkept] at hshort
    exact Nat.lt_irrefl _ hshort
  · intro hsub vars vars' hagree
    refine Scanning.sub_congr varPattern_lawful fun key hkey => ?_
    funext placeholder
    rw [resolve, resolve, hagree _ (hsub (mem_placeholders.mpr ⟨key, hkey, rfl⟩))]

example : interpolateVariables Char.isAlphanum (AList.insert "id" (.int 7) ∅)
    "\x7b\x7bid\x7d\x7d of \x7b\x7bx\x7d\x7d".toList = "7 of \x7b\x7bx\x7d\x7d".toList := by
  decide +kernel

end CitraFlows
