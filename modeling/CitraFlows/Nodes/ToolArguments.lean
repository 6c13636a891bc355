-- SUMMARY: The arguments of a tool call: what the MCP server node renders a template to, and which values leave its structure alone.
import CitraFlows.Lib.ElementWise
import CitraFlows.Lib.JsonHoles
import CitraFlows.Nodes.Logic
import CitraFlows.Nodes.Placeholders

/-!
# Tool arguments

`McpServerNode` puts the values of an item into the text of its arguments, and reads the result as
JSON. The template has a value of its own: its JSON value, with the placeholders as holes of its
strings. It is compared with what is read after the rendering.
-/

namespace CitraFlows

open Python
open JsonText (Symbol Content Json Plain read fill fillText)
open Placeholders (Scope bracePattern render)
open Scanning (scan)

namespace ToolArguments

/-! ## Rendering the arguments -/

/-- The members of a dict -/
abbrev Arguments := List (Content Empty × Json Empty)

/-- `json.loads` -/
def loads (text : String) : Option (Json Empty) := (read (text.toList.map .char)).map Json.collapse

/-- `_render_args`, where `explain` is the text of a `JSONDecodeError` -/
def renderArgs (explain : String → String) (scope : Scope) (template : String) :
    Except NodeError Arguments :=
  let rendered := render scope template
  match loads (if rendered = "" then "\x7b\x7d" else rendered) with
  | some (.object args) => .ok args
  | some _ => .error { message := "Arguments must be a JSON object." }
  | none =>
      .error
        { message := "Arguments did not parse as JSON after interpolation: " ++ explain rendered ++
            ". Rendered: " ++ String.ofList (rendered.toList.take 200) }

/-- `sources` -/
def sources (ctx : NodeContext) : List Value :=
  if ((Value.field ctx.config "per_item").getD (.bool true)).truthy && !ctx.items.isEmpty then
    ctx.items
  else [.dict []]

/-- What the placeholders of a call may refer to -/
def callScope (getattr : Value → List String → String) (ctx : NodeContext) (item : Value) :
    Scope where
  item := item
  vars := ctx.vars
  getattr := getattr

/-- `raw_args`, which `re.sub` takes for a text -/
def rawArguments (config : List (String × Value)) : Except NodeError String :=
  match Value.getD config "arguments" with
  | .str s => .ok (if s = "" then "\x7b\x7d" else s)
  | v =>
      if v.truthy then
        .error { message := "expected string or bytes-like object, got '" ++ v.typeName ++ "'" }
      else .ok "\x7b\x7d"

/-- The arguments of the calls of `McpServerNode.execute`, one for each source -/
def callArguments (explain : String → String) (getattr : Value → List String → String)
    (ctx : NodeContext) : Except NodeError (List Arguments) := do
  let template ← rawArguments ctx.config
  (sources ctx).mapM fun item => renderArgs explain (callScope getattr ctx item) template

/-! ## The value of a template -/

/-- A placeholder: its expression, and the text that it is -/
abbrev Placeholder := List Char × List Char

def symbol : Scanning.Piece (List Char) → Symbol Placeholder
  | .char c => .char c
  | .found expr text => .hole (expr, text)

/-- The JSON value of a template; `none` if it has none, or a placeholder stands outside of its
strings. -/
def templateValue (template : String) : Option (Json Placeholder) :=
  read ((scan bracePattern template.toList).map symbol)

/-- The text that stands for a placeholder -/
def referenced (scope : Scope) (p : Placeholder) : List Char :=
  (Placeholders.resolve scope p.1).toList

/-- The template's own value, with the referenced texts in its strings -/
def filled (scope : Scope) (v : Json Placeholder) : Json Empty :=
  v.collapse.map (fill (referenced scope)) (fill (referenced scope))

/-- The keys and the nesting of a value -/
def shape (v : Json Empty) : Json Empty := v.map id fun _ => []

/-- The template is rendered to its own value, and the values of two items have one shape. -/
structure Structured (explain : String → String) (scope scope' : Scope) (template : String)
    (v : Json Placeholder) : Prop where
  first : ∃ args, renderArgs explain scope template = .ok args ∧ .object args = filled scope v
  second : ∃ args, renderArgs explain scope' template = .ok args ∧ .object args = filled scope' v
  alike : ∀ args args', renderArgs explain scope template = .ok args →
    renderArgs explain scope' template = .ok args' → shape (.object args) = shape (.object args')

/-- What may stand between the braces of a placeholder, without the blanks around it -/
structure Expression where
  text : List Char
  written : ∃ body, body ≠ [] ∧ '}' ∉ body ∧ text = strip body

/-- The placeholders of a string are among these. -/
def HolesIn (es : Expression → Prop) (s : Content Placeholder) : Prop :=
  ∀ p, .inr p ∈ s → ∃ e : Expression, e.text = p.1 ∧ es e

/-- Every template with such placeholders in its keys and in its other strings keeps its
structure. -/
def Keeps (explain : String → String) (scope scope' : Scope) (keys values : Expression → Prop) :
    Prop :=
  ∀ template fields, templateValue template = some (.object fields) →
    (Json.object fields).All (HolesIn keys) (HolesIn values) →
      Structured explain scope scope' template (.object fields)

/-! ## Plain values -/

variable {scope : Scope} {template : String} {v : Json Placeholder}

theorem fillText_symbols (scope : Scope) (template : String) :
    fillText (referenced scope) ((scan bracePattern template.toList).map symbol) =
      ((render scope template).toList.map .char : List (Symbol Empty)) := by
  rw [render, String.toList_ofList, Scanning.sub, fillText, List.flatMap_map, List.map_flatMap]
  refine List.flatMap_congr fun piece _ => ?_
  cases piece with
  | char c => rfl
  | found expr text => rfl

/-- A string without holes -/
def NoHoles (s : Content Placeholder) : Prop := ∀ p, .inr p ∉ s

theorem NoHoles.eq_units {s : Content Placeholder} (h : NoHoles s) :
    ∃ us : List Nat, s = us.map .inl := by
  induction s with
  | nil => exact ⟨[], rfl⟩
  | cons x s ih =>
      obtain ⟨us, rfl⟩ := ih fun p hp => h p (List.mem_cons_of_mem x hp)
      cases x with
      | inl u => exact ⟨u :: us, rfl⟩
      | inr p => exact absurd List.mem_cons_self (h p)

theorem fill_noHoles {s : Content Placeholder} (h : NoHoles s) (ρ ρ' : Placeholder → List Char) :
    (fill ρ s : Content Empty) = fill ρ' s := by
  obtain ⟨us, rfl⟩ := h.eq_units
  rw [JsonText.fill_units, JsonText.fill_units]

theorem fill_injective (ρ : Placeholder → List Char) {s s' : Content Placeholder} (h : NoHoles s)
    (h' : NoHoles s') (heq : (fill ρ s : Content Empty) = fill ρ s') : s = s' := by
  obtain ⟨us, rfl⟩ := h.eq_units
  obtain ⟨us', rfl⟩ := h'.eq_units
  rw [JsonText.fill_units, JsonText.fill_units] at heq
  rw [(List.map_injective_iff.mpr Sum.inl_injective) heq]

/-- With plain texts in the strings and no placeholders in the keys, the rendered template is read
as its own value. -/
theorem loads_render (hread : templateValue template = some v)
    (hv : v.All NoHoles fun s => ∀ p, .inr p ∈ s → Plain (referenced scope p)) :
    loads (render scope template) = some (filled scope v) := by
  have hholes : ∀ p, .hole p ∈ (scan bracePattern template.toList).map symbol →
      Plain (referenced scope p) := by
    intro p hp
    obtain ⟨s, hs, hmem⟩ := JsonText.hole_mem_strings hread hp
    exact (hv.mem_strings s hs).elim (fun h => absurd hmem (h p)) fun h => h p hmem
  have hrendered := JsonText.read_fill (G := Empty) hholes hread
  rw [fillText_symbols] at hrendered
  rw [loads, hrendered, Option.map_some, filled]
  exact congrArg some (JsonText.Json.collapse_map (fun s s' h h' => fill_injective _ h h') hv)

theorem loads_empty : loads "" = none := by rfl

theorem renderArgs_of_loads (explain : String → String) {args : Arguments}
    (h : loads (render scope template) = some (.object args)) :
    renderArgs explain scope template = .ok args := by
  have hne : render scope template ≠ "" := by
    intro heq
    rw [heq, loads_empty] at h
    cases h
  simp only [renderArgs, if_neg hne, h]

/-- Without placeholders in the keys, the shape is that of the template. -/
theorem shape_filled {Q : Content Placeholder → Prop} (hv : v.All NoHoles Q)
    (scope scope' : Scope) : shape (filled scope v) = shape (filled scope' v) := by
  rw [shape, shape, filled, filled, Json.map_map, Json.map_map]
  exact JsonText.Json.map_congr
    (fun s hs => fill_noHoles hs (referenced scope) (referenced scope')) (fun _ _ => rfl)
    hv.collapse

theorem structured_of_plain (explain : String → String) {scope scope' : Scope}
    {fields : List (Content Placeholder × Json Placeholder)}
    (hread : templateValue template = some (.object fields))
    (hv : (Json.object fields).All NoHoles fun s => ∀ p, .inr p ∈ s →
      Plain (referenced scope p) ∧ Plain (referenced scope' p)) :
    Structured explain scope scope' template (.object fields) := by
  have hfirst : (Json.object fields).All NoHoles fun s => ∀ p, .inr p ∈ s →
      Plain (referenced scope p) := hv.mono (fun _ h => h) fun _ h p hp => (h p hp).1
  have hsecond : (Json.object fields).All NoHoles fun s => ∀ p, .inr p ∈ s →
      Plain (referenced scope' p) := hv.mono (fun _ h => h) fun _ h p hp => (h p hp).2
  have hargs := renderArgs_of_loads explain (loads_render hread hfirst)
  have hargs' := renderArgs_of_loads explain (loads_render hread hsecond)
  refine ⟨⟨_, hargs, rfl⟩, ⟨_, hargs', rfl⟩, fun args args' h h' => ?_⟩
  rw [hargs] at h
  rw [hargs'] at h'
  cases h
  cases h'
  exact shape_filled hv scope scope'

/-! ## Placeholders in keys -/

theorem loads_of_renderArgs {explain : String → String} {args : Arguments}
    (h : renderArgs explain scope template = .ok args) :
    loads (if render scope template = "" then "\x7b\x7d" else render scope template) =
      some (.object args) := by
  simp only [renderArgs] at h
  split at h
  next args' hloads =>
    cases h
    exact hloads
  next => cases h
  next => cases h

/-- What is read has every key once. -/
theorem nodup_keys {explain : String → String} {args : Arguments}
    (h : renderArgs explain scope template = .ok args) : (args.map Prod.fst).Nodup := by
  obtain ⟨v, -, hv⟩ := Option.map_eq_some_iff.mp (loads_of_renderArgs h)
  cases v with
  | object fields =>
      rw [Json.collapse] at hv
      cases hv
      exact KeyedLists.nodup_dictBy
  | scalar cs => cases hv
  | string s => cases hv
  | array xs => cases hv

/-- The text of a placeholder -/
def placeholderText (body : List Char) : List Char := '{' :: '{' :: body ++ ['}', '}']

theorem scan_placeholder {body : List Char} (hne : body ≠ []) (hbody : '}' ∉ body)
    (rest : List Char) : scan bracePattern (placeholderText body ++ rest) =
      .found (strip body) (placeholderText body) :: scan bracePattern rest := by
  have hmatch : bracePattern ('{' :: ('{' :: body ++ ['}', '}']) ++ rest) =
      some (strip body, rest) := by
    have h := Placeholders.bracePattern_placeholder hne hbody rest
    simpa using h
  exact Scanning.scan_of_some Placeholders.bracePattern_lawful hmatch

/-- Characters that start no placeholder are read one by one. -/
theorem scan_chars {cs : List Char} (h : '{' ∉ cs) (rest : List Char) :
    scan bracePattern (cs ++ rest) = cs.map .char ++ scan bracePattern rest := by
  induction cs with
  | nil => rfl
  | cons c cs ih =>
      rw [List.mem_cons, not_or] at h
      have hnone : bracePattern (c :: (cs ++ rest)) = none := by
        unfold bracePattern
        split
        next heq => exact absurd (List.cons.inj heq).1.symm h.1
        next => rfl
      rw [List.cons_append, Scanning.scan_of_none hnone, ih h.2]
      rfl

/-- The brace of an object starts no placeholder. -/
theorem scan_object {cs : List Char} (h : '{' ∉ cs) (rest : List Char) :
    scan bracePattern ('{' :: '"' :: (cs ++ rest)) =
      .char '{' :: .char '"' :: (cs.map .char ++ scan bracePattern rest) := by
  have hquote : '{' ∉ '"' :: cs := by simpa using h
  rw [Scanning.scan_of_none rfl, ← List.cons_append, scan_chars hquote rest]
  rfl

/-- One expression twice as a key, once with a blank in front -/
def doubleKey (body : List Char) : String :=
  String.ofList ('{' :: '"' :: ([] ++ (placeholderText body ++ ("\":0,\"".toList ++
    (placeholderText (' ' :: body) ++ "\":0\x7d".toList)))))

theorem templateValue_doubleKey {body : List Char} (hne : body ≠ []) (hbody : '}' ∉ body) :
    templateValue (doubleKey body) = some (.object
      [([.inr (strip body, placeholderText body)], .scalar ['0']),
        ([.inr (strip body, placeholderText (' ' :: body))], .scalar ['0'])]) := by
  have hblank : '}' ∉ ' ' :: body := by simpa using hbody
  have hstrip : strip (' ' :: body) = strip body := by simp [strip, isspace]
  have hlast : scan bracePattern "\":0\x7d".toList =
      ['"', ':', '0', '}'].map Scanning.Piece.char := by rfl
  rw [templateValue, doubleKey, String.toList_ofList, scan_object List.not_mem_nil,
    scan_placeholder hne hbody, scan_chars (by decide), scan_placeholder (by simp) hblank, hstrip,
    hlast]
  rfl

/-- The two keys become one. -/
theorem not_structured_doubleKey {explain : String → String} {scope scope' : Scope}
    {body : List Char} : ¬ Structured explain scope scope' (doubleKey body) (.object
      [([.inr (strip body, placeholderText body)], .scalar ['0']),
        ([.inr (strip body, placeholderText (' ' :: body))], .scalar ['0'])]) := by
  intro h
  obtain ⟨args, hargs, heq⟩ := h.first
  have hne : ([.inr (strip body, placeholderText body)] : Content Placeholder) ≠
      [.inr (strip body, placeholderText (' ' :: body))] := by
    intro hsame
    have hlength := congrArg (fun s : Content Placeholder => s.map fun
      | .inl _ => 0
      | .inr p => p.2.length) hsame
    simp [placeholderText] at hlength
  have hnodup := nodup_keys hargs
  simp only [filled, Json.collapse, JsonText.collapseFields_eq, List.map_cons, List.map_nil,
    KeyedLists.dictBy, List.foldl_cons, List.foldl_nil, KeyedLists.put, if_neg hne, Json.map,
    JsonText.mapFields_eq, JsonText.fill_hole, Json.object.injEq] at heq
  rw [heq] at hnodup
  simp [referenced] at hnodup

/-! ## Values that are not plain -/

/-- One expression as the only value, under the empty key -/
def singleValue (body : List Char) : String :=
  String.ofList ('{' :: '"' :: ("\":\"".toList ++ (placeholderText body ++ "\"\x7d".toList)))

theorem scan_singleValue {body : List Char} (hne : body ≠ []) (hbody : '}' ∉ body) :
    scan bracePattern (singleValue body).toList =
      .char '{' :: .char '"' :: ("\":\"".toList.map .char ++
        .found (strip body) (placeholderText body) :: "\"\x7d".toList.map .char) := by
  have hlast : scan bracePattern "\"\x7d".toList = "\"\x7d".toList.map .char := by rfl
  rw [singleValue, String.toList_ofList, scan_object (by decide), scan_placeholder hne hbody, hlast]

theorem templateValue_singleValue {body : List Char} (hne : body ≠ []) (hbody : '}' ∉ body) :
    templateValue (singleValue body) =
      some (.object [([], .string [.inr (strip body, placeholderText body)])]) := by
  rw [templateValue, scan_singleValue hne hbody]
  rfl

theorem render_singleValue {body : List Char} (hne : body ≠ []) (hbody : '}' ∉ body) :
    render scope (singleValue body) =
      String.ofList (JsonText.spliced (Placeholders.resolve scope (strip body)).toList) := by
  rw [render, Scanning.sub, scan_singleValue hne hbody]
  simp [Scanning.Piece.replace, JsonText.spliced_eq]

/-- A text that is not plain is not read as it is. -/
theorem plain_of_renderArgs {explain : String → String} {args : Arguments} {body : List Char}
    (hne : body ≠ []) (hbody : '}' ∉ body)
    (hargs : renderArgs explain scope (singleValue body) = .ok args)
    (heq : .object args =
      filled scope (.object [([], .string [.inr (strip body, placeholderText body)])])) :
    Plain (Placeholders.resolve scope (strip body)).toList := by
  by_contra hplain
  have hload := loads_of_renderArgs hargs
  have hsome : render scope (singleValue body) ≠ "" := by
    rw [render_singleValue hne hbody]
    intro h
    have := congrArg String.toList h
    simp [JsonText.spliced_eq] at this
  rw [if_neg hsome, loads, render_singleValue hne hbody, String.toList_ofList] at hload
  obtain ⟨v, hread, hv⟩ := Option.map_eq_some_iff.mp hload
  have hshort : v.collapse.All
      (fun s => s.length < (JsonText.content (Placeholders.resolve scope (strip body)).toList :
        Content Empty).length)
      fun s => s.length < (JsonText.content (Placeholders.resolve scope (strip body)).toList :
        Content Empty).length :=
    (v.all_of_strings (JsonText.length_lt_of_not_plain hplain hread)).collapse
  have hown : filled scope (.object [([], .string [.inr (strip body, placeholderText body)])]) =
      .object
        [([], .string (JsonText.content (Placeholders.resolve scope (strip body)).toList))] := by
    simp [filled, Json.collapse, JsonText.collapseFields_eq, KeyedLists.dictBy, KeyedLists.put,
      Json.map, JsonText.mapFields_eq, referenced]
    rfl
  rw [hv, heq, hown] at hshort
  have hlt := hshort.mem_strings (JsonText.content (Placeholders.resolve scope (strip body)).toList)
    (by simp [Json.strings, JsonText.stringsFields_eq])
  exact hlt.elim (Nat.lt_irrefl _) (Nat.lt_irrefl _)

/-! ## Main results -/

theorem holesIn_single {es : Expression → Prop} {e : Expression} {text : List Char} (he : es e) :
    HolesIn es [.inr (e.text, text)] := by
  intro p hp
  simp only [List.mem_singleton, Sum.inr.injEq] at hp
  exact ⟨e, by rw [hp], he⟩

/-- A list is rendered if all of its elements are. -/
theorem mapM_ok {α β : Type} {f : α → Except NodeError β} {l : List α}
    (h : ∀ x ∈ l, ∃ y, f x = .ok y) :
    ∃ ys, l.mapM f = .ok ys ∧ ys.length = l.length ∧ ∀ y ∈ ys, ∃ x ∈ l, f x = .ok y := by
  obtain ⟨ys, hys⟩ := ElementWise.exists_mapM h
  have hrelated := ElementWise.mapM_eq_ok.mp hys
  exact ⟨ys, hys, hrelated.length_eq.symm, ElementWise.exists_of_mem_right hrelated⟩

/-- Plain values of all items make a call for each of them, all of one shape. -/
theorem calls_alike (explain : String → String) {getattr : Value → List String → String}
    {ctx : NodeContext} {fields : List (Content Placeholder × Json Placeholder)}
    (hraw : rawArguments ctx.config = .ok template)
    (hread : templateValue template = some (.object fields))
    (hfields : (Json.object fields).All NoHoles fun s => ∀ p, .inr p ∈ s →
      ∀ item ∈ sources ctx, Plain (referenced (callScope getattr ctx item) p)) :
    ∃ calls, callArguments explain getattr ctx = .ok calls ∧
      calls.length = (sources ctx).length ∧
      ∀ args ∈ calls, ∀ args' ∈ calls, shape (.object args) = shape (.object args') := by
  have hitems : ∀ item ∈ sources ctx, ∀ item' ∈ sources ctx,
      Structured explain (callScope getattr ctx item) (callScope getattr ctx item') template
        (.object fields) := fun item hitem item' hitem' =>
    structured_of_plain explain hread
      (hfields.mono (fun _ h => h) fun _ h p hp => ⟨h p hp item hitem, h p hp item' hitem'⟩)
  obtain ⟨calls, hcalls, hlength, hmem⟩ := mapM_ok (l := sources ctx)
    (f := fun item => renderArgs explain (callScope getattr ctx item) template) fun item hitem =>
      (hitems item hitem item hitem).first.imp fun _ h => h.1
  refine ⟨calls, ?_, hlength, fun args hargs args' hargs' => ?_⟩
  · rw [callArguments, hraw]
    exact hcalls
  · obtain ⟨item, hitem, hrender⟩ := hmem args hargs
    obtain ⟨item', hitem', hrender'⟩ := hmem args' hargs'
    exact (hitems item hitem item' hitem').alike args args' hrender hrender'

/-- For two items, every template keeps its structure if and only if no placeholder stands in a
key, and the placeholders of the other strings stand for plain texts. -/
theorem keeps_iff (explain : String → String) (scope scope' : Scope)
    (keys values : Expression → Prop) :
    Keeps explain scope scope' keys values ↔
      (∀ e, ¬ keys e) ∧ ∀ e, values e →
        Plain (Placeholders.resolve scope e.text).toList ∧
          Plain (Placeholders.resolve scope' e.text).toList := by
  constructor
  · intro h
    refine ⟨fun e he => ?_, fun e he => ?_⟩
    · obtain ⟨body, hne, hbody, htext⟩ := e.written
      refine not_structured_doubleKey (h _ _ (templateValue_doubleKey hne hbody)
        (.object (fun f hf => ?_) fun f hf => ?_))
      · rw [← htext] at hf
        rcases List.mem_cons.mp hf with rfl | hf
        · exact holesIn_single he
        · rw [List.mem_singleton.mp hf]
          exact holesIn_single he
      · rcases List.mem_cons.mp hf with rfl | hf
        · exact .scalar _
        · rw [List.mem_singleton.mp hf]
          exact .scalar _
    · obtain ⟨body, hne, hbody, htext⟩ := e.written
      have hstructured := h _ _ (templateValue_singleValue hne hbody)
        (.object (fun f hf => ?_) fun f hf => ?_)
      · obtain ⟨args, hargs, heq⟩ := hstructured.first
        obtain ⟨args', hargs', heq'⟩ := hstructured.second
        rw [htext]
        exact ⟨plain_of_renderArgs hne hbody hargs heq, plain_of_renderArgs hne hbody hargs' heq'⟩
      · rw [List.mem_singleton.mp hf]
        exact fun p hp => by cases hp
      · rw [List.mem_singleton.mp hf, ← htext]
        exact .string (holesIn_single he)
  · rintro ⟨hkeys, hvalues⟩ template fields hread hfields
    refine structured_of_plain explain hread (hfields.mono (fun s hs p hp => ?_) fun s hs p hp => ?_)
    · obtain ⟨e, -, he⟩ := hs p hp
      exact hkeys e he
    · obtain ⟨e, htext, he⟩ := hs p hp
      rw [referenced, referenced, ← htext]
      exact hvalues e he

/-- All values of the item and the variables are strings. -/
def StringValued (scope : Scope) : Prop :=
  (∃ fields, scope.item = .dict fields ∧ ∀ f ∈ fields, ∃ s, f.2 = .str s) ∧
    ∀ e ∈ scope.vars.entries, ∃ s, e.2 = .str s

/-- The question ends its string and goes on with another argument. -/
def injection : Scope where
  item := .dict [("q", .str "x\",\"admin\":\"yes")]
  vars := ∅
  getattr _ _ := ""

def queryTemplate : String := "\x7b\"query\":\"\x7b\x7b item.q \x7d\x7d\"\x7d"

def queryFields : List (Content Placeholder × Json Placeholder) :=
  [(JsonText.content "query".toList,
    .string [.inr ("item.q".toList, "\x7b\x7b item.q \x7d\x7d".toList)])]

/-- The call has a second argument that is not in the template. -/
theorem argument_added : ¬ ∀ explain scope scope' template fields, StringValued scope →
    StringValued scope' → templateValue template = some (.object fields) →
      Structured explain scope scope' template (.object fields) := by
  intro h
  have hstrings : StringValued injection := by
    refine ⟨⟨_, rfl, fun f hf => ?_⟩, fun e he => by cases he⟩
    rw [List.mem_singleton.mp hf]
    exact ⟨_, rfl⟩
  have hread : templateValue queryTemplate = some (.object queryFields) := by
    have htext : queryTemplate.toList = '{' :: '"' :: ("query\":\"".toList ++
        (placeholderText " item.q ".toList ++ "\"\x7d".toList)) := by decide
    have hlast : scan bracePattern "\"\x7d".toList = "\"\x7d".toList.map .char := by rfl
    have hstrip : strip " item.q ".toList = "item.q".toList := by decide
    have hlex : JsonText.lexFrom .between ((.char '{' :: .char '"' :: ("query\":\"".toList.map .char ++
        .found "item.q".toList (placeholderText " item.q ".toList) ::
          "\"\x7d".toList.map .char)).map symbol) =
        some [.punct '{', .string (JsonText.content "query".toList), .punct ':',
          .string [.inr ("item.q".toList, "\x7b\x7b item.q \x7d\x7d".toList)], .punct '}'] := by
      decide +kernel
    rw [templateValue, htext, scan_object (by decide), scan_placeholder (by decide) (by decide),
      hlast, hstrip, JsonText.read, hlex]
    rfl
  obtain ⟨args, hargs, heq⟩ :=
    (h (fun _ => "") injection injection _ _ hstrings hstrings hread).first
  have htwo : (renderArgs (fun _ => "") injection queryTemplate).toOption.map List.length =
      some 2 := by decide +kernel
  rw [hargs] at htwo
  simp only [filled, queryFields, Json.collapse, JsonText.collapseFields_eq, List.map_cons,
    List.map_nil, KeyedLists.dictBy, List.foldl_cons, List.foldl_nil, KeyedLists.put, Json.map,
    JsonText.mapFields_eq, Json.object.injEq] at heq
  rw [heq] at htwo
  cases htwo

end ToolArguments

end CitraFlows
