-- SUMMARY: What the prompt of an LLM node and the email of an email_sender node are rendered to, and when their data is taken for template text.
import CitraFlows.Assistant.Json
import CitraFlows.Lib.Templates
import CitraFlows.Nodes.Interpolation
import CitraFlows.Nodes.Logic

/-!
# Rendering

`LLMProcessorNode` and `EmailSenderNode` put their items into the text of the author first, and
interpolate the variables into what comes out. `Verbatim` says that only the author's text is
looked through for placeholders, and that what was put in stays as it is; `Sealed` says that a
variable the author has not written makes no difference.
-/

namespace CitraFlows

open Python
open Scanning (Pattern literal sub replaceAll)
open Templates (AllApart Apart Segment Step flat putAll runAll)

namespace Rendering

/-- What the nodes take from their surroundings: the characters of `\w`, `json.dumps(value,
default=str)`, with `indent=2` in an email, and the limits of `config.py`. -/
structure Setting where
  word : Char → Bool
  dumps : Value → String
  dumpsIndented : Value → String
  maxLlmPromptSize : Nat := 30000
  maxLlmItemSize : Nat := 15000
  maxEmailBodySize : Nat := 10000

/-- The name between double braces. -/
def placeholder (name : String) : List Char := '{' :: '{' :: name.toList ++ ['}', '}']

/-! ## The prompt -/

/-- `_enforce_llm_size` -/
def enforceLlmSize (data : String) (limit : Nat) (nodeLabel : String) :
    Except PyError (List Char) :=
  if limit < data.length then
    .error (.valueError (nodeLabel ++ " input data (" ++ toString data.length ++
      " chars) exceeds LLM prompt limit (" ++ toString limit ++ "). Add a filter/transform node " ++
      "upstream to reduce data size, or set the corresponding WF_MAX_LLM_* environment variable " ++
      "to increase the limit."))
  else .ok data.toList

/-- The prompt of `LLMProcessorNode` before the variables. -/
def promptText (cfg : Setting) (template : String) (items : List Value) :
    Except PyError (List Char) := do
  let data ← enforceLlmSize (cfg.dumps (.list items)) cfg.maxLlmPromptSize "LLM Processor"
  let prompt := replaceAll (placeholder "data") data template.toList
  match items with
  | [item] =>
      let item ← enforceLlmSize (cfg.dumps item) cfg.maxLlmItemSize "LLM Processor item"
      return replaceAll (placeholder "item") item prompt
  | _ => return prompt

/-- The prompt of `LLMProcessorNode` -/
def renderPrompt (cfg : Setting) (template : String) (items : List Value) (vars : Variables) :
    Except PyError (List Char) :=
  (promptText cfg template items).map (interpolateVariables cfg.word vars)

/-! ## The table of an email -/

/-- An int or a float, and no bool. -/
def plainNumber : Value → Option Rat
  | .int n => some n
  | .float x => some x.val
  | _ => none

/-- `_rank_sort_key` -/
def rankSortKey : Value → Nat × Rat
  | .dict rec =>
      match plainNumber (Value.getD rec "rank") with
      | some x => (0, x)
      | none =>
          match ["score", "llm_score", "_score"].findSome? fun sk =>
              plainNumber (Value.getD rec sk) with
          | some x => (1, -x)
          | none => (2, 0)
  | _ => (2, 0)

/-- The records best first, if all of them are dicts. -/
def ranked (items : List Value) : List Value :=
  if items.all fun rec => rec.asDict.isSome then
    items.insertionSort fun a b =>
      (rankSortKey a).1 < (rankSortKey b).1 ∨
        (rankSortKey a).1 = (rankSortKey b).1 ∧ (rankSortKey a).2 ≤ (rankSortKey b).2
  else items

/-- `_FRIENDLY_COLS` -/
def friendlyCols : List (String × String) :=
  [("rank", "Rank"), ("full name", "Candidate Name"), ("full_name", "Candidate Name"),
    ("name", "Candidate Name"), ("email", "Email"), ("phone", "Phone"), ("score", "Score"),
    ("llm_score", "Score"), ("_score", "Score"), ("evaluation info", "Score"),
    ("classification", "Classification"), ("decision", "Decision"),
    ("recommendation", "Decision"), ("recommended_next_step", "Next Step"),
    ("next_step", "Next Step"), ("reason", "Reason"), ("reasoning", "Reason"),
    ("_rule_reason", "Reason"), ("skills", "Skills"), ("_status", "Status"),
    ("_rule_passed", "Status")]

/-- `_pick_email_columns`: pairs of a display name and a key. -/
def pickEmailColumns (rec : Entries) : List (String × String) :=
  let picked := friendlyCols.foldl (fun picked col =>
    if (Value.field rec col.1).isSome && picked.all (·.1 ≠ col.2) then picked ++ [(col.2, col.1)]
    else picked) []
  if picked.isEmpty then rec.map fun e => (e.1, e.1) else picked

/-- `_fmt_cell` -/
def fmtCell : Value → String
  | .bool b => if b then "Selected" else "Rejected"
  | .list xs => ", ".intercalate (xs.map Value.text)
  | .dict rec =>
      match Value.getD rec "score" with
      | .none => ", ".intercalate (rec.map fun e => e.1 ++ ": " ++ e.2.text)
      | score => score.text
  | v =>
      if lower v.text.toList = "true".toList then "Selected"
      else if lower v.text.toList = "false".toList then "Rejected"
      else v.text

/-- `html.escape` -/
def escape (s : String) : String :=
  String.ofList (s.toList.flatMap fun c =>
    if c = '&' then "&amp;".toList
    else if c = '<' then "&lt;".toList
    else if c = '>' then "&gt;".toList
    else if c = '"' then "&quot;".toList
    else if c = '\'' then "&#x27;".toList
    else [c])

/-- The row of a record, by its number. -/
def row (cols : List (String × String)) (rec : Value) (i : Nat) : Except PyError String :=
  match rec with
  | .dict rec =>
      let bg := if i % 2 = 0 then "#ffffff" else "#f9f9f9"
      .ok ("<tr>" ++ String.join (cols.map fun col =>
        "<td style='padding:8px;border:1px solid #ccc;background:" ++ bg ++ "'>" ++
          escape (fmtCell ((Value.field rec col.2).getD (.str ""))) ++ "</td>") ++ "</tr>")
  | v => .error (.attributeError v.typeName "get")

/-- `items_rows_only` and the table with its head. -/
def itemsTable (first : Entries) (items : List Value) : Except PyError (String × String) := do
  let cols := pickEmailColumns first
  let header := String.join (cols.map fun col =>
    "<th style='padding:8px;border:1px solid #ccc;background:#f0f4ff;font-weight:bold'>" ++
      escape col.1 ++ "</th>")
  let rows ← items.zipIdx.mapM fun r => row cols r.1 r.2
  return (String.join rows,
    "<table style='border-collapse:collapse;width:100%;font-family:Arial,sans-serif;" ++
      "font-size:13px'><thead><tr>" ++ header ++ "</tr></thead><tbody>" ++ String.join rows ++
      "</tbody></table><p style='color:#666;font-size:12px'>Total records: " ++
      toString items.length ++ "</p>")

/-! ## The email -/

/-- `\{\{items\[(\d+)\]\.(\w+)\}\}` -/
def itemPath (word : Char → Bool) : Pattern (List Char × List Char) := fun cs =>
  let opening := '{' :: '{' :: "items[".toList
  let digit := fun c => (digitValue c).isSome
  if opening.isPrefixOf cs then
    let body := cs.drop opening.length
    match body.dropWhile digit with
    | ']' :: '.' :: path =>
        match path.dropWhile word with
        | '}' :: '}' :: rest =>
            if body.takeWhile digit = [] ∨ path.takeWhile word = [] then none
            else some ((body.takeWhile digit, path.takeWhile word), rest)
        | _ => none
    | _ => none
  else none

/-- `_expand_item_path` -/
def expandItemPath (items : List Value) (path : List Char × List Char) (written : List Char) :
    List Char :=
  match (int path.1).bind fun n => (items[n.toNat]?).bind Value.asDict with
  | some rec => ((Value.field rec (String.ofList path.2)).map (·.text.toList)).getD written
  | none => written

/-- The fields of the first record, one after the other. -/
def expandFields (first : Entries) (text : List Char) : List Char :=
  first.foldl (fun text e =>
    if placeholder e.1 <:+: text then replaceAll (placeholder e.1) e.2.text.toList text else text)
    text

/-- The record whose fields may be written without a path. -/
def firstRecord (items : List Value) : Option Entries := items.head?.bind Value.asDict

/-- What stands for `data` and for `items_table` in the body. -/
def bodyParts (cfg : Setting) (bodyTemplate : String) (items : List Value) (inputData : Value) :
    Except PyError (List Char × List Char) :=
  match firstRecord items with
  | some first => do
      let (rows, table) ← itemsTable first items
      if "<table".toList <:+: lower bodyTemplate.toList then return (rows.toList, rows.toList)
      else return (table.toList, table.toList)
  | none =>
      let nothing := "<p><em>No candidate records found.</em></p>".toList
      let data := cfg.dumpsIndented inputData
      -- the size counts only where the template asks for the data
      if placeholder "data" <:+: bodyTemplate.toList then
        if cfg.maxEmailBodySize < data.length then
          .error (.valueError ("Email body data (" ++ toString data.length ++
            " chars) exceeds limit (" ++ toString cfg.maxEmailBodySize ++ "). Add a filter/" ++
            "transform node upstream to reduce data size, or set WF_MAX_EMAIL_BODY_SIZE to " ++
            "increase the limit."))
        else .ok (data.toList, nothing)
      else .ok ([], nothing)

/-- The subject and the body of `EmailSenderNode` before the variables. -/
def emailTexts (cfg : Setting) (subject bodyTemplate : String) (ctx : NodeContext) :
    Except PyError (List Char × List Char) := do
  let items := ranked ctx.items
  let (data, table) ← bodyParts cfg bodyTemplate items ctx.inputData
  let body := replaceAll (placeholder "data") data bodyTemplate.toList
  let body := replaceAll (placeholder "items_table") table body
  let body := sub (itemPath cfg.word) (expandItemPath items) body
  match firstRecord items with
  | some first => return (expandFields first subject.toList, expandFields first body)
  | none => return (subject.toList, body)

/-- The subject and the body of `EmailSenderNode` -/
def renderEmail (cfg : Setting) (subject bodyTemplate : String) (ctx : NodeContext)
    (vars : Variables) : Except PyError (List Char × List Char) :=
  (emailTexts cfg subject bodyTemplate ctx).map fun t =>
    (interpolateVariables cfg.word vars t.1, interpolateVariables cfg.word vars t.2)

/-! ## Data as data -/

/-- What stands for a text that is looked for as it is. -/
def literalStep (old new : List Char) : Step := ⟨Unit, literal old, fun _ => some new⟩

/-- What stands for the placeholders of the variables. -/
def variableStep (word : Char → Bool) (vars : Variables) : Step :=
  ⟨List Char, varPattern word, fun key => (vars.lookup (String.ofList key)).map (·.text.toList)⟩

/-- What the items put into a prompt, and where. -/
def promptValues (cfg : Setting) (items : List Value) :
    Except PyError (List (List Char × List Char)) := do
  let data ← enforceLlmSize (cfg.dumps (.list items)) cfg.maxLlmPromptSize "LLM Processor"
  match items with
  | [item] =>
      let item ← enforceLlmSize (cfg.dumps item) cfg.maxLlmItemSize "LLM Processor item"
      return [(placeholder "data", data), (placeholder "item", item)]
  | _ => return [(placeholder "data", data)]

/-- The steps of a prompt before the variables. -/
def promptSteps (values : List (List Char × List Char)) : List Step :=
  values.map fun v => literalStep v.1 v.2

/-- What the first record puts in. -/
def fieldSteps (items : List Value) : List Step :=
  match firstRecord items with
  | some first => first.map fun e => literalStep (placeholder e.1) e.2.text.toList
  | none => []

/-- The field of an item, if it is there. -/
def itemField (items : List Value) (path : List Char × List Char) : Option (List Char) := do
  let n ← int path.1
  let rec ← (← items[n.toNat]?).asDict
  return (← Value.field rec (String.ofList path.2)).text.toList

/-- What stands for the paths into the items. -/
def itemStep (word : Char → Bool) (items : List Value) : Step :=
  ⟨List Char × List Char, itemPath word, itemField items⟩

/-- The steps of the body of an email before the variables, by the values of its data and its
table. -/
def bodySteps (cfg : Setting) (items : List Value) (values : List Char × List Char) : List Step :=
  literalStep (placeholder "data") values.1 :: literalStep (placeholder "items_table") values.2 ::
    itemStep cfg.word items :: fieldSteps items

/-- For every mapping what comes out is the text of the author, with the values in the places of
its placeholders: no step looks at what an earlier one has put in. -/
def Verbatim {ρ : Type} (word : Char → Bool) (template : String) (values : Except PyError ρ)
    (steps : ρ → List Step) (render : Variables → Except PyError (List Char)) : Prop :=
  ∀ vars, render vars = values.map fun v =>
    flat ((variableStep word vars).put (putAll (steps v) [.written template.toList]))

/-- The variables whose placeholders are not in the text of the author make no difference. -/
def Sealed {ρ : Type} (word : Char → Bool) (template : String) (render : Variables → ρ) : Prop :=
  ∀ vars vars' : Variables,
    (∀ name ∈ placeholders word template.toList, vars.lookup name = vars'.lookup name) →
      render vars = render vars'

/-- The steps come to the text of the author and the values. In it no placeholder of a variable
lies in a value, or partly in one, and there is none that the author has not written. -/
structure Intact (word : Char → Bool) (template : String) (steps : List Step) : Prop where
  text : runAll steps template.toList = flat (putAll steps [.written template.toList])
  apart : Apart (varPattern word) (putAll steps [.written template.toList])
  names : placeholders word (runAll steps template.toList) ⊆ placeholders word template.toList

/-! ## Rendering in steps -/

theorem literalStep_run (old new text : List Char) :
    (literalStep old new).run text = replaceAll old new text := rfl

theorem variableStep_run (word : Char → Bool) (vars : Variables) (text : List Char) :
    (variableStep word vars).run text = interpolateVariables word vars text := by
  rw [interpolateVariables_eq_sub, Step.run]
  congr 1
  funext key tok
  simp only [variableStep, Step.replace, resolve]
  cases vars.lookup (String.ofList key) <;> rfl

theorem promptText_eq (cfg : Setting) (template : String) (items : List Value) :
    promptText cfg template items =
      (promptValues cfg items).map fun v => runAll (promptSteps v) template.toList := by
  unfold promptText promptValues
  cases enforceLlmSize (cfg.dumps (.list items)) cfg.maxLlmPromptSize "LLM Processor" with
  | error e => rfl
  | ok data =>
      match items with
      | [] => rfl
      | [item] =>
          simp only [bind, Except.bind, pure, Except.pure]
          cases enforceLlmSize (cfg.dumps item) cfg.maxLlmItemSize "LLM Processor item" <;> rfl
      | _ :: _ :: _ => rfl

theorem replaceAll_of_absent {old new text : List Char} (h : ¬ old <:+: text) :
    replaceAll old new text = text := by
  induction text with
  | nil => rfl
  | cons c text ih =>
      have hnone : literal old (c :: text) = none := by
        rw [literal, if_neg]
        exact fun hprefix => h (List.isPrefixOf_iff_prefix.mp hprefix).isInfix
      rw [replaceAll, Scanning.sub_of_none hnone]
      exact congrArg (c :: ·) (ih fun hinfix => h (List.infix_cons hinfix))

theorem expandFields_eq (first : Entries) (text : List Char) :
    expandFields first text =
      runAll (first.map fun e => literalStep (placeholder e.1) e.2.text.toList) text := by
  induction first generalizing text with
  | nil => rfl
  | cons e first ih =>
      have hstep : (if placeholder e.1 <:+: text then
          replaceAll (placeholder e.1) e.2.text.toList text else text) =
            (literalStep (placeholder e.1) e.2.text.toList).run text := by
        rw [literalStep_run]
        split
        next => rfl
        next hnot => rw [replaceAll_of_absent hnot]
      rw [expandFields, List.foldl_cons, hstep, ← expandFields, ih]
      rfl

theorem itemStep_run (word : Char → Bool) (items : List Value) (text : List Char) :
    (itemStep word items).run text = sub (itemPath word) (expandItemPath items) text := by
  rw [Step.run]
  congr 1
  funext path written
  simp only [itemStep, Step.replace, expandItemPath, itemField]
  cases int path.1 with
  | none => rfl
  | some n =>
      cases hitem : items[n.toNat]? with
      | none => simp [hitem]
      | some item =>
          cases hrec : item.asDict with
          | none => simp [hitem, hrec]
          | some rec =>
              cases hfield : Value.field rec (String.ofList path.2) <;>
                simp [hitem, hrec, hfield]

theorem emailTexts_eq (cfg : Setting) (subject bodyTemplate : String) (ctx : NodeContext) :
    emailTexts cfg subject bodyTemplate ctx =
      (bodyParts cfg bodyTemplate (ranked ctx.items) ctx.inputData).map fun v =>
        (runAll (fieldSteps (ranked ctx.items)) subject.toList,
          runAll (bodySteps cfg (ranked ctx.items) v) bodyTemplate.toList) := by
  unfold emailTexts
  dsimp only
  generalize bodyParts cfg bodyTemplate (ranked ctx.items) ctx.inputData = values
  cases values with
  | error e => rfl
  | ok values =>
      simp only [bind, Except.bind, pure, Except.pure, Except.map, bodySteps, fieldSteps, runAll,
        List.foldl_cons, literalStep_run, itemStep_run]
      cases firstRecord (ranked ctx.items) with
      | none => simp only [List.foldl_nil]
      | some first => simp only [expandFields_eq, runAll]

theorem map_map {α β γ : Type} (x : Except PyError α) (f : α → β) (g : β → γ) :
    (x.map f).map g = x.map fun a => g (f a) := by
  cases x <;> rfl

theorem varPattern_local {word : Char → Bool} : Templates.Local (varPattern word) := by
  intro cs key rest more h
  have hbrace : word '}' = false := by
    unfold varPattern at h
    split at h
    next cs =>
      split at h
      next hdrop =>
        have hhead := List.head?_dropWhile_not word cs
        rw [hdrop] at hhead
        simpa using hhead
      next => cases h
    next => cases h
  obtain ⟨rfl, hne, hkey⟩ := varPattern_eq h
  rw [List.append_assoc]
  exact varPattern_placeholder hbrace hne hkey (rest ++ more)

/-- What is put for a variable shows whether its placeholder was looked for. -/
theorem variableStep_shows {word : Char → Bool} {c : Char} {tok rest key : List Char}
    (h : varPattern word (c :: tok ++ rest) = some (key, rest)) :
    ∃ vars d ds, (variableStep word vars).replace key (c :: tok) = d :: ds ∧ d ≠ c := by
  obtain ⟨heq, -⟩ := varPattern_eq h
  obtain rfl : c = '{' := (List.cons.inj heq).1
  refine ⟨AList.insert (String.ofList key) (.str "x") ∅, 'x', [], ?_, by decide⟩
  have hvalue : (variableStep word (AList.insert (String.ofList key) (.str "x") ∅)).value key =
      some ['x'] := by
    simp only [variableStep, AList.lookup_insert]
    rfl
  exact congrArg (Option.getD · ('{' :: tok)) hvalue

/-- A text that is interpolated last is what the author and the values make, and does not depend
on other variables, exactly where it is intact before the variables. -/
theorem asData_iff {ρ : Type} {word : Char → Bool} {template : String} {values : Except PyError ρ}
    {steps : ρ → List Step} {render : Variables → Except PyError (List Char)}
    (hrender : ∀ vars, render vars =
      values.map fun v => interpolateVariables word vars (runAll (steps v) template.toList)) :
    Verbatim word template values steps render ∧ Sealed word template render ↔
      ∀ v, values = .ok v → Intact word template (steps v) := by
  cases values with
  | error e =>
      constructor
      · intro _ v hv
        cases hv
      · intro _
        exact ⟨hrender, fun vars vars' _ => (hrender vars).trans (hrender vars').symm⟩
  | ok v =>
      let text := runAll (steps v) template.toList
      have hrun : ∀ vars, render vars = .ok (interpolateVariables word vars text) := hrender
      have hsealed : Sealed word template render ↔
          placeholders word text ⊆ placeholders word template.toList := by
        rw [← interpolateVariables_agree_iff]
        refine forall₃_congr fun vars vars' _ => ?_
        rw [hrun, hrun, Except.ok.injEq]
      rw [hsealed]
      constructor
      · rintro ⟨hverbatim, hnames⟩ w hw
        cases hw
        have hsame : ∀ vars, (variableStep word vars).run text =
            flat ((variableStep word vars).put (putAll (steps v) [.written template.toList])) := by
          intro vars
          rw [variableStep_run]
          exact Except.ok.inj ((hrun vars).symm.trans (hverbatim vars))
        have htext : text = flat (putAll (steps v) [.written template.toList]) := by
          have hempty := hsame ∅
          have hnone : (variableStep word ∅).replace = fun _ tok => tok := rfl
          rw [Step.run, Templates.flat_put, hnone] at hempty
          exact (Scanning.sub_id varPattern_lawful text).symm.trans
            (hempty.trans (Templates.source_spared varPattern_lawful _))
        refine ⟨htext, ?_, hnames⟩
        refine Templates.apart_of_sub_eq varPattern_lawful varPattern_local
          (F := fun f => ∃ vars, f = (variableStep word vars).replace) ?_ ?_
        · intro c tok rest key h
          obtain ⟨vars, d, ds, hshow, hne⟩ := variableStep_shows h
          exact ⟨_, ⟨vars, rfl⟩, d, ds, hshow, hne⟩
        · rintro _ ⟨vars, rfl⟩
          rw [← htext]
          exact (hsame vars).trans (Templates.flat_put _)
      · intro h
        obtain ⟨htext, hapart, hnames⟩ := h v rfl
        refine ⟨fun vars => (hrun vars).trans (congrArg Except.ok ?_), hnames⟩
        rw [← variableStep_run]
        exact (congrArg _ htext).trans (Apart.run_eq hapart)

/-- The tables cut down to ASCII; the data of the run below is not dumped. -/
def asciiSetting : Setting where
  word c := c.isAlphanum || c == '_'
  dumps _ := ""
  dumpsIndented _ := ""

/-- One applicant, whose name is a placeholder. -/
def applicants : NodeContext where
  nodeId := "send"
  config := []
  inputData := .list [.dict [("name", .str "\x7b\x7bapi_key\x7d\x7d")]]
  vars := ∅
  userId := "u1"
  executionId := "run-1"
  environment := "prod"
  jwtToken := none
  workflowId := "wf-1"
  workflowName := "intake"
  ownerType := "user"
  ownerId := "u1"
  orgId := "acme"
  deptIds := []
  authorUserId := "u1"
  linkedSmartAppId := none

end Rendering

end CitraFlows
