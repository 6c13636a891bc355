-- SUMMARY: The searches that a vector_search node issues for its items, and when a query that is no template for one of them ends them.
import CitraFlows.Agents.Loop
import CitraFlows.Nodes.Logic
import CitraFlows.Nodes.Template

/-!
# Vector search

`VectorSearchNode` renders its query for each item and searches with it. It takes a query that was
rendered to its own text for one without placeholders, and searches no more.
-/

namespace CitraFlows

open Python

namespace VectorSearch

/-! ## The configuration -/

/-- What a searcher is called with. -/
structure Request where
  provider : String
  url : String
  apiKey : Value
  collection : String
  queryText : String
  vector : Option Value
  topK : Int
  queryFilter : Value

/-- How a search ends. -/
inductive SearchEnd where
  | found (hits : List Value)
  | importError (text : String)
  | raised (exc : NodeError)

structure VectorEnv where
  /-- The characters of `\w` -/
  word : Char → Bool
  /-- `json.loads` -/
  loads : String → Agent.Loaded
  /-- `_SEARCHERS[provider]`, after the searches of the run before it -/
  search : List Request → Request → SearchEnd

/-- `_DRIVER_HINT`, whose keys are those of `_SEARCHERS` -/
def driverHint : List (String × String) :=
  [("milvus", "pymilvus"), ("qdrant", "qdrant-client"), ("weaviate", "weaviate-client"),
    ("pgvector", "psycopg[binary] + pgvector"), ("chroma", "chromadb")]

/-- `ctx.config.get(key) or default`, on which a method of texts is called -/
def configText (config : List (String × Value)) (key default method : String) :
    Except NodeError String :=
  let v := Value.getD config key
  if v.truthy then
    match v with
    | .str s => .ok s
    | v => .error { message := (PyError.attributeError v.typeName method).message }
  else .ok default

/-- `_parse_filter` -/
def parseFilter (loads : String → Agent.Loaded) (raw : Value) : Except NodeError Value :=
  let invalid : NodeError :=
    { message := "Filter must be valid JSON (or a backend filter string). Got: " ++ raw.repr }
  if raw.truthy then
    match raw with
    | .dict fields => .ok (.dict fields)
    | .str text =>
        match loads text with
        | .value v => .ok v
        | .decodeError => .error invalid
        | .raised exc => .error exc
    | _ => .error invalid
  else .ok .none

/-- The locals of `execute` before its loop -/
structure Settings where
  provider : String
  url : String
  apiKey : Value
  collection : String
  topK : Int
  rawQuery : String
  vecField : String
  queryFilter : Value

def stripText (s : String) : String := String.ofList (strip s.toList)

/-- `execute`, up to its loop -/
def prepare (loads : String → Agent.Loaded) (config : List (String × Value)) :
    Except NodeError Settings := do
  let provider ← configText config "provider" "qdrant" "lower"
  let provider := String.ofList (lower provider.toList)
  let url := stripText (← configText config "url" "" "strip")
  let collection := stripText (← configText config "collection" "" "strip")
  if url = "" ∨ collection = "" then
    throw { message := "Vector Search needs both a URL and a collection name." }
  let configured := Value.getD config "top_k"
  let wanted := if configured.truthy then configured else .int 5
  let some topK := wanted.toInt | throw { message := Agent.intError wanted }
  let apiKey := Value.getD config "api_key"
  let apiKey := if apiKey.truthy then apiKey else .str ""
  let rawQuery := stripText (← configText config "query_text" "" "strip")
  let vecField := stripText (← configText config "query_vector_field" "" "strip")
  if rawQuery = "" ∧ vecField = "" then
    throw { message := "Vector Search needs either Query Text (to embed) or a Query Vector " ++
      "Field (a precomputed vector on the item)." }
  let queryFilter ← parseFilter loads (Value.getD config "filter")
  if (driverHint.lookup provider).isNone then
    throw { message := "Unsupported vector provider '" ++ provider ++ "'. Supported: chroma, " ++
      "milvus, pgvector, qdrant, weaviate." }
  return { provider, url, apiKey, collection, topK, rawQuery, vecField, queryFilter }

/-! ## The loop -/

section

variable (word : Char → Bool) (cfg : Settings) (vars : Variables)

/-- `query_text` -/
def queryText (item : Value) : String :=
  if cfg.rawQuery = "" then ""
  else Template.interpolateDotted word (item.asDict.getD []) vars cfg.rawQuery

/-- `vector` -/
def itemVector (item : Value) : Except NodeError (Option Value) :=
  let missing : NodeError :=
    { message := "Item has no '" ++ cfg.vecField ++ "' field to search with. Set Query Text " ++
        "instead, or correct the field name." }
  if cfg.rawQuery ≠ "" then .ok none
  else if item.truthy then
    match item with
    | .dict fields =>
        match Value.getD fields cfg.vecField with
        | .none => .error missing
        | v => .ok (some v)
    | v => .error { message := (PyError.attributeError v.typeName "get").message }
  else .error missing

/-- What is searched for an item. -/
def request (item : Value) : Except NodeError Request :=
  (itemVector cfg item).map fun vector =>
    { provider := cfg.provider
      url := cfg.url
      apiKey := cfg.apiKey
      collection := cfg.collection
      queryText := queryText word cfg vars item
      vector := vector
      topK := cfg.topK
      queryFilter := cfg.queryFilter }

end

/-- The `ValueError` for a client that is not installed -/
def notInstalled (provider text : String) : NodeError where
  message := "The " ++ provider ++ " client is not installed in this deployment. Add `" ++
    (driverHint.lookup provider).getD provider ++
    "` to your requirements and redeploy. (" ++ text ++ ")"

/-- One search: the hits, or the end of the node -/
def searchItem (env : VectorEnv) (cfg : Settings) (vars : Variables) (item : Value)
    (log : List Request) : List Request × Except NodeError (List Value) :=
  match request env.word cfg vars item with
  | .error exc => (log, .error exc)
  | .ok req =>
      match env.search log req with
      | .found hits => (log ++ [req], .ok hits)
      | .importError text => (log ++ [req], .error (notInstalled cfg.provider text))
      | .raised exc => (log ++ [req], .error exc)

/-- `for item in items`, with the searches and the results so far -/
def searchLoop (env : VectorEnv) (cfg : Settings) (vars : Variables) :
    List Value → List Request → List Value → List Request × Except NodeError (List Value)
  | [], log, results => (log, .ok results)
  | item :: items, log, results =>
      match searchItem env cfg vars item log with
      | (log, .error exc) => (log, .error exc)
      | (log, .ok hits) =>
          if cfg.rawQuery ≠ "" ∧ queryText env.word cfg vars item = cfg.rawQuery then
            (log, .ok (results ++ hits))
          else searchLoop env cfg vars items log (results ++ hits)

/-- `list(ctx.items or [{}])` -/
def searchedItems (ctx : NodeContext) : List Value :=
  if ctx.items.isEmpty then [.dict []] else ctx.items

def output (cfg : Settings) (results : List Value) : Value :=
  makeOutput results [("matched", .int results.length), ("provider", .str cfg.provider),
    ("collection", .str cfg.collection)]

/-- `VectorSearchNode.execute`: the searches that it issues, and how it ends -/
def execute (env : VectorEnv) (ctx : NodeContext) : List Request × Except NodeError Value :=
  match prepare env.loads ctx.config with
  | .error exc => ([], .error exc)
  | .ok cfg =>
      let (log, results) := searchLoop env cfg ctx.vars (searchedItems ctx) [] []
      (log, results.map (output cfg))

/-! ## One search per item -/

/-- The template contains a placeholder. -/
def HasPlaceholder (word : Char → Bool) (template : String) : Prop :=
  ∃ before after found, template.toList = before ++ after ∧
    Template.matchDotted word after = some found

/-- The searches of all items -/
def searchAll (env : VectorEnv) (cfg : Settings) (vars : Variables) :
    List Value → List Request → List Value → List Request × Except NodeError (List Value)
  | [], log, results => (log, .ok results)
  | item :: items, log, results =>
      match searchItem env cfg vars item log with
      | (log, .error exc) => (log, .error exc)
      | (log, .ok hits) => searchAll env cfg vars items log (results ++ hits)

/-- With a placeholder in its template, the node searches for every item; without one, it searches
once. -/
def Covers (env : VectorEnv) (ctx : NodeContext) : Prop :=
  ∀ cfg, prepare env.loads ctx.config = .ok cfg → cfg.rawQuery ≠ "" →
    (HasPlaceholder env.word cfg.rawQuery →
      execute env ctx =
        (searchAll env cfg ctx.vars (searchedItems ctx) [] []).map id (.map (output cfg))) ∧
    (¬ HasPlaceholder env.word cfg.rawQuery →
      execute env ctx =
        (searchAll env cfg ctx.vars ((searchedItems ctx).take 1) [] []).map id
          (.map (output cfg)))

variable {env : VectorEnv} {cfg : Settings} {vars : Variables} {log : List Request}
  {items results : List Value}

/-- A text without placeholders stays as it is. -/
theorem substitute_of_no_match {word : Char → Bool} (look : List Char → Value) (fuel : Nat)
    {cs : List Char} (h : ∀ before after, cs = before ++ after →
      Template.matchDotted word after = none) :
    Template.substitute word look fuel cs = cs := by
  induction fuel generalizing cs with
  | zero => rfl
  | succ fuel ih =>
      cases cs with
      | nil => rfl
      | cons c cs =>
          rw [Template.substitute, h [] (c :: cs) rfl]
          exact congrArg (c :: ·) (ih fun before after heq => h (c :: before) after (by rw [heq]; rfl))

theorem queryText_static (h : ¬ HasPlaceholder env.word cfg.rawQuery) (item : Value) :
    queryText env.word cfg vars item = cfg.rawQuery := by
  unfold queryText
  split
  next hempty => exact hempty.symm
  next =>
    have hnone : ∀ before after, cfg.rawQuery.toList = before ++ after →
        Template.matchDotted env.word after = none := by
      intro before after heq
      cases hmatch : Template.matchDotted env.word after with
      | none => rfl
      | some found => exact absurd ⟨before, after, found, heq, hmatch⟩ h
    rw [Template.interpolateDotted, substitute_of_no_match _ _ hnone, String.ofList_toList]

/-- The loop covers its items if none before the last is rendered to the template. -/
theorem searchLoop_eq_searchAll (env : VectorEnv)
    (h : ∀ item ∈ items.dropLast, queryText env.word cfg vars item ≠ cfg.rawQuery)
    (log : List Request) (results : List Value) :
    searchLoop env cfg vars items log results = searchAll env cfg vars items log results := by
  induction items generalizing log results with
  | nil => rfl
  | cons item items ih =>
      rw [searchLoop, searchAll]
      split
      next => rfl
      next log' hits _ =>
        cases items with
        | nil =>
            split
            · rfl
            · rfl
        | cons next items =>
            have hitem : queryText env.word cfg vars item ≠ cfg.rawQuery :=
              h item (by simp)
            rw [if_neg fun hstatic => hitem hstatic.2]
            exact ih (fun item hmem => h item (by simp [hmem])) log' (results ++ hits)

/-- A first item that is rendered to the template is the last one that is searched for. -/
theorem searchLoop_static {item : Value} (hraw : cfg.rawQuery ≠ "")
    (h : queryText env.word cfg vars item = cfg.rawQuery) (log : List Request)
    (results : List Value) :
    searchLoop env cfg vars (item :: items) log results =
      searchAll env cfg vars [item] log results := by
  rw [searchLoop, searchAll]
  split
  next => rfl
  next => rw [if_pos ⟨hraw, h⟩, searchAll]

/-! ## A store without matches -/

/-- Every search finds nothing. -/
def emptyStore (word : Char → Bool) (loads : String → Agent.Loaded) : VectorEnv where
  word := word
  loads := loads
  search _ _ := .found []

theorem searchItem_emptyStore {word : Char → Bool} {loads : String → Agent.Loaded}
    (hraw : cfg.rawQuery ≠ "") (item : Value) (log : List Request) :
    ∃ req, searchItem (emptyStore word loads) cfg vars item log = (log ++ [req], .ok []) := by
  unfold searchItem request itemVector
  simp [hraw, Except.map, emptyStore]

/-- There every item has its search. -/
theorem searchAll_emptyStore {word : Char → Bool} {loads : String → Agent.Loaded}
    (hraw : cfg.rawQuery ≠ "") (items : List Value) (log : List Request) (results : List Value) :
    (searchAll (emptyStore word loads) cfg vars items log results).1.length =
      log.length + items.length := by
  induction items generalizing log results with
  | nil => rfl
  | cons item items ih =>
      obtain ⟨req, hitem⟩ : ∃ req,
          searchItem (emptyStore word loads) cfg vars item log = (log ++ [req], .ok []) :=
        searchItem_emptyStore hraw item log
      rw [searchAll, hitem]
      simp only
      rw [ih, List.length_append, List.length_singleton, List.length_cons]
      omega

/-- There the loop leaves the items out that come after a static one. -/
theorem searchLoop_emptyStore {word : Char → Bool} {loads : String → Agent.Loaded}
    (hraw : cfg.rawQuery ≠ "")
    (h : ∃ item ∈ items.dropLast, queryText word cfg vars item = cfg.rawQuery)
    (log : List Request) (results : List Value) :
    (searchLoop (emptyStore word loads) cfg vars items log results).1.length <
      log.length + items.length := by
  induction items generalizing log results with
  | nil => simp at h
  | cons item items ih =>
      obtain ⟨req, hitem⟩ : ∃ req,
          searchItem (emptyStore word loads) cfg vars item log = (log ++ [req], .ok []) :=
        searchItem_emptyStore hraw item log
      obtain ⟨static, hmem, hstatic⟩ := h
      cases items with
      | nil => simp at hmem
      | cons next items =>
          rw [searchLoop, hitem]
          simp only
          split
          next => simp
          next hdynamic =>
            have hne : static ≠ item := by
              rintro rfl
              exact hdynamic ⟨hraw, hstatic⟩
            have hlater : static ∈ (next :: items).dropLast := by
              rw [List.dropLast_cons_cons, List.mem_cons] at hmem
              exact hmem.resolve_left hne
            have hrest := ih ⟨static, hlater, hstatic⟩ (log ++ [req]) (results ++ [])
            rw [List.length_append, List.length_singleton] at hrest
            rw [List.length_cons]
            omega

/-! ## Main results -/

theorem execute_of_prepare (env : VectorEnv) {ctx : NodeContext}
    (hcfg : prepare env.loads ctx.config = .ok cfg) :
    execute env ctx =
      (searchLoop env cfg ctx.vars (searchedItems ctx) [] []).map id (.map (output cfg)) := by
  rw [execute, hcfg]
  rfl

/-- On a store without matches, an item before the last that is rendered to the template leaves
out those after it. -/
theorem not_covers {word : Char → Bool} {loads : String → Agent.Loaded} {ctx : NodeContext}
    (hcfg : prepare loads ctx.config = .ok cfg) (hraw : cfg.rawQuery ≠ "")
    (hplaceholder : HasPlaceholder word cfg.rawQuery)
    (h : ∃ item ∈ (searchedItems ctx).dropLast, queryText word cfg ctx.vars item = cfg.rawQuery) :
    ¬ Covers (emptyStore word loads) ctx := by
  intro hcovers
  have hsame := (hcovers cfg hcfg hraw).1 hplaceholder
  rw [execute_of_prepare (emptyStore word loads) hcfg] at hsame
  have hlog := congrArg Prod.fst hsame
  rw [Prod.map_fst, Prod.map_fst, id_eq, id_eq] at hlog
  have hless : (searchLoop (emptyStore word loads) cfg ctx.vars (searchedItems ctx) []
      []).1.length < ([] : List Request).length + (searchedItems ctx).length :=
    searchLoop_emptyStore hraw h [] []
  have hall : (searchAll (emptyStore word loads) cfg ctx.vars (searchedItems ctx) []
      []).1.length = ([] : List Request).length + (searchedItems ctx).length :=
    searchAll_emptyStore hraw (searchedItems ctx) [] []
  rw [hlog, hall] at hless
  exact Nat.lt_irrefl _ hless

theorem searchedItems_cons (ctx : NodeContext) :
    ∃ item items, searchedItems ctx = item :: items := by
  unfold searchedItems
  split
  next => exact ⟨_, _, rfl⟩
  next hne => exact List.exists_cons_of_ne_nil fun hnil => hne (List.isEmpty_iff.mpr hnil)

/-- A node covers its items, whatever the searches find, if and only if no item before the last is
rendered to the template. -/
theorem covers_iff (word : Char → Bool) (loads : String → Agent.Loaded) (ctx : NodeContext) :
    (∀ search, Covers { word, loads, search } ctx) ↔
      ∀ cfg, prepare loads ctx.config = .ok cfg → cfg.rawQuery ≠ "" →
        HasPlaceholder word cfg.rawQuery →
          ∀ item ∈ (searchedItems ctx).dropLast,
            queryText word cfg ctx.vars item ≠ cfg.rawQuery := by
  constructor
  · intro h cfg hcfg hraw hplaceholder item hmem hstatic
    exact not_covers hcfg hraw hplaceholder ⟨item, hmem, hstatic⟩ (h (emptyStore word loads).search)
  · intro h search cfg hcfg hraw
    rw [execute_of_prepare { word, loads, search } hcfg]
    refine ⟨fun hplaceholder => ?_, fun hnone => ?_⟩
    · have hloop : searchLoop { word, loads, search } cfg ctx.vars (searchedItems ctx) [] [] =
          searchAll { word, loads, search } cfg ctx.vars (searchedItems ctx) [] [] :=
        searchLoop_eq_searchAll { word, loads, search } (h cfg hcfg hraw hplaceholder) [] []
      rw [hloop]
    · obtain ⟨item, items, hcons⟩ := searchedItems_cons ctx
      have hloop : searchLoop { word, loads, search } cfg ctx.vars (item :: items) [] [] =
          searchAll { word, loads, search } cfg ctx.vars [item] [] [] :=
        searchLoop_static hraw (queryText_static hnone item) [] []
      rw [hcons, hloop]
      rfl

/-- Three items, the second one without a question -/
def questions : NodeContext :=
  { nodeId := "search"
    config := [("url", .str "http://vector-db"), ("collection", .str "documents"),
      ("query_text", .str "\x7b\x7b item.question \x7d\x7d")]
    inputData := .list [.dict [("question", .str "Who?")], .dict [],
      .dict [("question", .str "Why?")]]
    vars := ∅
    userId := "u"
    executionId := "ex"
    environment := "test"
    jwtToken := none
    workflowId := "wf"
    workflowName := "wf"
    ownerType := "org"
    ownerId := ""
    orgId := ""
    deptIds := []
    authorUserId := ""
    linkedSmartAppId := none }

def questionsSettings : Settings where
  provider := "qdrant"
  url := "http://vector-db"
  apiKey := .str ""
  collection := "documents"
  topK := 5
  rawQuery := "\x7b\x7b item.question \x7d\x7d"
  vecField := ""
  queryFilter := .none

/-- The second question is missing, and the third one is not searched for. -/
theorem third_question_skipped : ¬ ∀ env ctx, Covers env ctx := by
  intro h
  have hprepare : prepare (fun _ => .decodeError) questions.config = .ok questionsSettings := by
    rfl
  have hplaceholder : HasPlaceholder Char.isAlphanum questionsSettings.rawQuery :=
    ⟨[], questionsSettings.rawQuery.toList, ("item.question".toList, []), rfl, by decide +kernel⟩
  exact not_covers hprepare (by decide) hplaceholder
    ⟨.dict [], by simp [searchedItems, questions, NodeContext.items], by decide +kernel⟩ (h _ _)

end VectorSearch

end CitraFlows
