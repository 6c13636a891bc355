-- SUMMARY: The reranker: which items the reply of a rerank service leaves, in which order, and when every item is there once.
import CitraFlows.Lib.StableSort
import CitraFlows.Nodes.Floats
import CitraFlows.Nodes.Placeholders
import CitraFlows.Nodes.VectorSearch
import Mathlib.Data.List.Duplicate

/-!
# Reranking

`RerankerNode` sends the texts of its items to a service, which names them by their positions, and
puts the items in the order of the scores. Items without a text are not sent. The reply is checked
for positions that are out of range, and for nothing else. Its numbers are finite here; a score that
is an infinity or no number is a text.
-/

namespace CitraFlows

open Python
open Doubles (FloatValue toDouble)
open Floats (OverflowError intText)
open StableSort (sortBy sortPlaces place)
open VectorSearch (configText stripText)

namespace Reranking

/-! ## Numbers -/

/-- `int(value)` -/
def readInt (v : Value) : Except NodeError Int :=
  let read := match v with
    | .str s => intText s.toList
    | v => v.toInt
  match read, v with
  | some n, _ => .ok n
  | none, .str s =>
      let digits := (s.toList.filter RulesText.isDecimal).length
      if 4300 < digits then
        .error { message := "Exceeds the limit (4300 digits) for integer string conversion: value " ++
          "has " ++ toString digits ++ " digits; use sys.set_int_max_str_digits() to increase the " ++
          "limit" }
      else .error { message := Agent.intError v }
  | none, v => .error { message := Agent.intError v }

/-- `float(value)` -/
def readFloat (v : Value) : Except NodeError FloatValue :=
  match v.toFloat, v with
  | .ok (some x), _ => .ok x
  | .ok none, .str s =>
      .error { message := "could not convert string to float: " ++ Value.reprStr s }
  | .ok none, v =>
      .error { message := "float() argument must be a string or a real number, not '" ++
        v.typeName ++ "'" }
  | .error e, _ => .error { message := e.message }

/-- Where a score stands among those that compare. -/
def rank : FloatValue → WithBot (WithTop Rat)
  | .number x => ((x : WithTop Rat) : WithBot (WithTop Rat))
  | .infinite true => ⊥
  | .infinite false => ((⊤ : WithTop Rat) : WithBot (WithTop Rat))
  | .nan => ⊥

/-- `a <= b` -/
def scoreLe (a b : FloatValue) : Prop := a ≠ .nan ∧ b ≠ .nan ∧ rank a ≤ rank b

/-- What is raised where a condition does not hold -/
def require (holds : Bool) (message : String) : Except NodeError Unit :=
  if holds then .ok () else .error { message }

/-! ## The reply -/

/-- A position among the documents, and its score -/
abbrev Row := Nat × FloatValue

/-- The rows of the reply -/
def replyRows (body : Value) : Except NodeError (List Value) :=
  let unrecognised (got : String) : NodeError :=
    { message := "Rerank response had no recognisable results list. Got keys: " ++ got }
  match body with
  | .dict fields =>
      match ["results", "reranked_chunks", "data", "documents"].findSome? fun key =>
          (Value.field fields key).bind Value.asList with
      | some rows => .ok rows
      | none =>
          let keys := (fields.map Prod.fst).insertionSort (· ≤ ·)
          .error (unrecognised (Value.list ((keys.take 8).map .str)).repr)
  | .list rows => .ok rows
  | v => .error (unrecognised v.typeName)

/-- The value under the first of the keys that is there -/
def firstOf (fields : List (String × Value)) (keys : List String) : Value :=
  (keys.findSome? (Value.field fields)).getD .none

/-- `float(score) if score is not None else 0.0` -/
def readScore : Value → Except NodeError FloatValue
  | .none => .ok (.number 0)
  | score => readFloat score

/-- One row of the reply, if it is used -/
def readRow (docs : Nat) : Value → Except NodeError (Option Row)
  | .dict fields =>
      match firstOf fields ["index", "idx"] with
      | .none => .ok none
      | index => do
          let idx ← readInt index
          require (0 ≤ idx ∧ idx < docs) ("Rerank service returned index " ++ toString idx ++
            " for " ++ toString docs ++
            " document(s). Refusing to guess which item it meant.")
          let score ← readScore (firstOf fields ["relevance_score", "score", "_score"])
          return some (idx.toNat, score)
  | _ => .ok none

/-- The loop of `_parse_rerank` -/
def readRows (docs : Nat) : List Value → Except NodeError (List Row)
  | [] => .ok []
  | r :: rs => do
      let row ← readRow docs r
      let rows ← readRows docs rs
      return row.toList ++ rows

/-- `_parse_rerank`, before its sort -/
def usableRows (body : Value) (docs : Nat) : Except NodeError (List Row) := do
  let rows ← readRows docs (← replyRows body)
  require (rows ≠ []) "Rerank response contained no usable \x7bindex, score\x7d rows."
  return rows

/-- `out.sort(key=lambda t: t[1], reverse=True)`. Among scores that do not compare, the order that
comes out is not specified. -/
structure Sorting where
  sort : List Row → List Row
  perm : ∀ rows, (sort rows).Perm rows
  compared : ∀ rows, (∀ row ∈ rows, row.2 ≠ .nan) →
    sort rows = sortBy (fun row => OrderDual.toDual (rank row.2)) rows

/-- `_parse_rerank` -/
def parseRerank (sorting : Sorting) (body : Value) (docs : Nat) : Except NodeError (List Row) :=
  (usableRows body docs).map sorting.sort

/-! ## The node -/

structure Request where
  endpoint : String
  timeout : FloatValue
  /-- The `Authorization` header -/
  authorization : Option String
  query : String
  documents : List String
  model : Option Value
  /-- `payload["top_n"]`, zero if it is not there -/
  topN : Int

structure RerankEnv where
  getattr : Value → List String → String
  /-- A float as a JSON value -/
  float : FloatValue → Value
  /-- The body of the response, or what the request raises -/
  post : Request → Except NodeError Value
  sorting : Sorting

/-- The locals of `execute` before the request -/
structure Task where
  scoreField : String
  items : List Value
  /-- `keep_idx` with `docs` -/
  kept : List (Nat × String)
  request : Request

/-- The text of an item; `none` if there is none. -/
def itemText (field : String) (item : Value) : Except NodeError (Option String) :=
  if item.truthy then
    match item with
    | .dict fields =>
        match Value.getD fields field with
        | .none => .ok none
        | raw => .ok (if strip raw.text.toList = [] then none else some raw.text)
    | v => .error { message := (PyError.attributeError v.typeName "get").message }
  else .ok none

/-- The positions and the texts of the items that are sent -/
def keepTexts (field : String) : Nat → List Value → Except NodeError (List (Nat × String))
  | _, [] => .ok []
  | i, item :: items => do
      let text ← itemText field item
      let rest ← keepTexts field (i + 1) items
      return (text.map (i, ·)).toList ++ rest

/-- `config.get(key) or default` for a number -/
def configNumber (config : List (String × Value)) (key : String) (default : Int) : Value :=
  if (Value.getD config key).truthy then Value.getD config key else .int default

/-- `_render` -/
def renderQuery (getattr : Value → List String → String) (ctx : NodeContext) :
    Except NodeError String :=
  let scope : Placeholders.Scope := ⟨ctx.items.head?.getD (.dict []), ctx.vars, getattr⟩
  let template := Value.getD ctx.config "query"
  match template with
  | .str s => .ok (Placeholders.render scope s)
  | v =>
      if v.truthy then
        .error { message := "expected string or bytes-like object, got '" ++ v.typeName ++ "'" }
      else .ok ""

def rstripSlash (s : String) : String := String.ofList (s.toList.reverse.dropWhile (· = '/')).reverse

/-- `execute`, up to its request -/
def prepare (getattr : Value → List String → String) (ctx : NodeContext) :
    Except NodeError Task := do
  let endpoint := rstripSlash (stripText (← configText ctx.config "endpoint" "" "strip"))
  require (endpoint ≠ "") "Rerank node needs an endpoint."
  let field := stripText (← configText ctx.config "text_field" "text" "strip")
  let scoreField := stripText (← configText ctx.config "score_field" "relevance_score" "strip")
  let topN ← readInt (configNumber ctx.config "top_n" 0)
  let timeout ← readFloat (configNumber ctx.config "timeout_seconds" 60)
  let query ← renderQuery getattr ctx
  require (strip query.toList ≠ []) "Rerank node needs a non-empty query after interpolation."
  let kept ← keepTexts field 0 ctx.items
  let key := Value.getD ctx.config "api_key"
  let model := Value.getD ctx.config "model"
  return {
    scoreField
    items := ctx.items
    kept
    request :=
      { endpoint, timeout, query, topN
        authorization := if key.truthy then some ("Bearer " ++ key.text) else none
        documents := kept.map Prod.snd
        model := if model.truthy then some model else none } }

/-- An item of the output: the position in the input it comes from, its score if it was ranked -/
structure Hit where
  source : Nat
  score : Option FloatValue
  item : Value

structure Output where
  hits : List Hit
  reranked : Nat
  candidates : Option Nat

def Output.value (out : Output) : Value :=
  makeOutput (out.hits.map Hit.item) (("reranked", .int out.reranked) ::
    (out.candidates.map fun n => ("candidates", .int n)).toList)

/-- `xs[:n]` -/
def sliceTo {α : Type} (xs : List α) (n : Int) : List α :=
  xs.take (if n < 0 then xs.length + n else n).toNat

/-- `{**(src or {}), score_field: score}` -/
def Task.hit (task : Task) (float : FloatValue → Value) (row : Row) : Hit :=
  let source := ((task.kept[row.1]?).map Prod.fst).getD 0
  { source
    score := some row.2
    item := .dict (Entries.put task.scoreField (float row.2)
      (((task.items[source]?).bind Value.asDict).getD [])) }

/-- The items as they came -/
def passThrough (items : List Value) : List Hit :=
  items.zipIdx.map fun p => { source := p.2, score := none, item := p.1 }

/-- `execute` from its request on -/
def finish (env : RerankEnv) (task : Task) : Except NodeError Output :=
  if task.kept = [] then
    .ok { hits := passThrough task.items, reranked := 0, candidates := none }
  else do
    let body ← env.post task.request
    let ranked ← parseRerank env.sorting body task.kept.length
    let out := ranked.map (task.hit env.float)
    let out := if task.request.topN = 0 then out else sliceTo out task.request.topN
    return { hits := out, reranked := out.length, candidates := some task.kept.length }

/-- `RerankerNode.execute` -/
def execute (env : RerankEnv) (ctx : NodeContext) : Except NodeError Output :=
  (prepare env.getattr ctx).bind (finish env)

/-! ## The law -/

/-- The rows name every document that was submitted. -/
def NamesAll (docs : Nat) (rows : List Row) : Prop := ∀ i < docs, i ∈ rows.map Prod.fst

/-- No score is greater than one before it. -/
def NotIncreasing (hits : List Hit) : Prop :=
  hits.Pairwise fun h h' => ∀ s ∈ h.score, ∀ s' ∈ h'.score, scoreLe s' s

/-- Every item is there at most once, no more than the wanted number, and, where all are kept and
all submitted documents are named, every item in the order of the scores. -/
structure Permutes (env : RerankEnv) (task : Task) (out : Output) : Prop where
  once : (out.hits.map Hit.source).Nodup
  bounded : 0 < task.request.topN → (out.hits.length : Int) ≤ task.request.topN
  complete : ∀ body rows, task.request.topN = 0 → task.kept ≠ [] →
    env.post task.request = .ok body → usableRows body task.kept.length = .ok rows →
    NamesAll task.kept.length rows →
    (out.hits.map Hit.source).Perm (List.range task.items.length) ∧ NotIncreasing out.hits

def Reranks (env : RerankEnv) (ctx : NodeContext) : Prop :=
  ∀ task out, prepare env.getattr ctx = .ok task → execute env ctx = .ok out →
    Permutes env task out

/-- The greatest score first -/
abbrev scoreKey (row : Row) : (WithBot (WithTop Rat))ᵒᵈ := OrderDual.toDual (rank row.2)

/-- How many of `n` rows are left. -/
def keptCount (topN : Int) (n : Nat) : Nat :=
  if topN = 0 then n else (if topN < 0 then n + topN else topN).toNat

/-- The rows compare. -/
def Comparable (rows : List Row) : Prop := ∀ row ∈ rows, row.2 ≠ .nan

/-- Of two rows for one document at most one is kept, and a reply that names all documents has a
score for every item. -/
structure Fits (topN : Int) (docs items : Nat) (rows : List Row) : Prop where
  once : Comparable rows → ∀ x ∈ rows.zipIdx, ∀ y ∈ rows.zipIdx, x.2 < y.2 → x.1.1 = y.1.1 →
    keptCount topN rows.length ≤ place scoreKey rows x ∨
      keptCount topN rows.length ≤ place scoreKey rows y
  unordered : ¬ Comparable rows →
    (rows.map Prod.fst).Nodup ∨ keptCount topN rows.length ≤ 1
  complete : topN = 0 → NamesAll docs rows →
    docs = items ∧ (rows.length ≤ 1 ∨ Comparable rows)

/-! ## What is sent -/

/-- The positions of the items that are sent, in their order -/
theorem keepTexts_sublist {field : String} {items : List Value} {i : Nat}
    {kept : List (Nat × String)} (h : keepTexts field i items = .ok kept) :
    (kept.map Prod.fst).Sublist (List.range' i items.length) := by
  induction items generalizing i kept with
  | nil =>
      cases h
      exact List.Sublist.slnil
  | cons item items ih =>
      obtain ⟨text, -, h⟩ := ok_of_bind h
      obtain ⟨rest, hrest, h⟩ := ok_of_bind h
      cases h
      rw [List.length_cons, List.range'_succ]
      cases text with
      | none => exact (ih hrest).cons i
      | some t => exact (ih hrest).cons_cons i

theorem prepare_ok {getattr : Value → List String → String} {ctx : NodeContext} {task : Task}
    (h : prepare getattr ctx = .ok task) : task.items = ctx.items ∧
      (task.kept.map Prod.fst).Sublist (List.range task.items.length) := by
  obtain ⟨endpoint, -, h⟩ := ok_of_bind h
  obtain ⟨-, -, h⟩ := ok_of_bind h
  obtain ⟨field, -, h⟩ := ok_of_bind h
  obtain ⟨scoreField, -, h⟩ := ok_of_bind h
  obtain ⟨topN, -, h⟩ := ok_of_bind h
  obtain ⟨timeout, -, h⟩ := ok_of_bind h
  obtain ⟨query, -, h⟩ := ok_of_bind h
  obtain ⟨-, -, h⟩ := ok_of_bind h
  obtain ⟨kept, hkept, h⟩ := ok_of_bind h
  cases h
  refine ⟨rfl, ?_⟩
  rw [List.range_eq_range']
  exact keepTexts_sublist hkept

/-! ## What is used of the reply -/

theorem require_ok {holds : Bool} {message : String} {u : Unit}
    (h : require holds message = .ok u) : holds = true := by
  cases holds with
  | true => rfl
  | false => cases h

theorem readRow_lt {docs : Nat} {r : Value} {row : Row} (h : readRow docs r = .ok (some row)) :
    row.1 < docs := by
  cases r with
  | dict fields =>
      rw [readRow] at h
      split at h
      next => cases h
      next =>
        obtain ⟨idx, -, h⟩ := ok_of_bind h
        obtain ⟨_, hrange, h⟩ := ok_of_bind h
        obtain ⟨score, -, h⟩ := ok_of_bind h
        cases h
        have hrange := of_decide_eq_true (require_ok hrange)
        change idx.toNat < docs
        omega
  | none => cases h
  | bool b => cases h
  | int n => cases h
  | float x => cases h
  | str s => cases h
  | list xs => cases h

theorem readRows_lt {docs : Nat} {rs : List Value} {rows : List Row}
    (h : readRows docs rs = .ok rows) : ∀ row ∈ rows, row.1 < docs := by
  induction rs generalizing rows with
  | nil =>
      cases h
      exact fun row hrow => by cases hrow
  | cons r rs ih =>
      obtain ⟨row, hrow, h⟩ := ok_of_bind h
      obtain ⟨rest, hrest, h⟩ := ok_of_bind h
      cases h
      intro row' hmem
      rcases List.mem_append.mp hmem with hmem | hmem
      · exact readRow_lt (hrow.trans (congrArg _ (Option.mem_toList.mp hmem)))
      · exact ih hrest row' hmem

theorem usableRows_ok {body : Value} {docs : Nat} {rows : List Row}
    (h : usableRows body docs = .ok rows) : rows ≠ [] ∧ ∀ row ∈ rows, row.1 < docs := by
  obtain ⟨reply, -, h⟩ := ok_of_bind h
  obtain ⟨rows', hrows, h⟩ := ok_of_bind h
  obtain ⟨_, hne, h⟩ := ok_of_bind h
  cases h
  exact ⟨of_decide_eq_true (require_ok hne), readRows_lt hrows⟩

/-! ## What is left of the rows -/

/-- The position of an item, by the position of its document -/
def sourceOf (kept : List (Nat × String)) (i : Nat) : Nat := ((kept[i]?).map Prod.fst).getD 0

/-- The output for the rows of a reply -/
def rankedOutput (env : RerankEnv) (task : Task) (rows : List Row) : Output :=
  let left := (env.sorting.sort rows).take (keptCount task.request.topN rows.length)
  { hits := left.map (task.hit env.float)
    reranked := left.length
    candidates := some task.kept.length }

variable {env : RerankEnv} {task : Task} {out : Output} {body : Value} {rows : List Row}

theorem slice_eq_take {α : Type} (xs : List α) (topN : Int) :
    (if topN = 0 then xs else sliceTo xs topN) = xs.take (keptCount topN xs.length) := by
  unfold keptCount sliceTo
  split
  next => rw [List.take_length]
  next => rfl

theorem finish_of_reply (hkept : task.kept ≠ []) (hpost : env.post task.request = .ok body)
    (hrows : usableRows body task.kept.length = .ok rows) :
    finish env task = .ok (rankedOutput env task rows) := by
  have hlength : (env.sorting.sort rows).length = rows.length :=
    (env.sorting.perm rows).length_eq
  rw [finish, if_neg hkept, hpost]
  simp only [parseRerank, hrows, Except.map, bind, Except.bind, pure, Except.pure, slice_eq_take,
    List.length_map, hlength, ← List.map_take, rankedOutput]

theorem finish_ok (hkept : task.kept ≠ []) (h : finish env task = .ok out) :
    ∃ body rows, env.post task.request = .ok body ∧
      usableRows body task.kept.length = .ok rows ∧ out = rankedOutput env task rows := by
  have hrun := h
  rw [finish, if_neg hkept] at hrun
  obtain ⟨body, hpost, hrun⟩ := ok_of_bind hrun
  cases hrows : usableRows body task.kept.length with
  | error e =>
      rw [parseRerank, hrows] at hrun
      cases hrun
  | ok rows =>
      rw [finish_of_reply hkept hpost hrows] at h
      cases h
      exact ⟨body, rows, hpost, hrows, rfl⟩

theorem sources_map (float : FloatValue → Value) (l : List Row) :
    (l.map (task.hit float)).map Hit.source = (l.map Prod.fst).map (sourceOf task.kept) := by
  rw [List.map_map, List.map_map]
  rfl

theorem sourceOf_eq {kept : List (Nat × String)} {i : Nat} (h : i < kept.length) :
    sourceOf kept i = (kept.map Prod.fst).get ⟨i, by simpa using h⟩ := by
  simp [sourceOf, h]

section

variable (hsent : (task.kept.map Prod.fst).Sublist (List.range task.items.length))

include hsent

/-- Different documents come from different items. -/
theorem nodup_sources (float : FloatValue → Value) {l : List Row}
    (hl : ∀ row ∈ l, row.1 < task.kept.length) :
    ((l.map (task.hit float)).map Hit.source).Nodup ↔ (l.map Prod.fst).Nodup := by
  rw [sources_map]
  refine ⟨List.Nodup.of_map _, fun h => h.map_on ?_⟩
  intro i hi j hj heq
  obtain ⟨row, hrow, rfl⟩ := List.mem_map.mp hi
  obtain ⟨row', hrow', rfl⟩ := List.mem_map.mp hj
  rw [sourceOf_eq (hl row hrow), sourceOf_eq (hl row' hrow')] at heq
  exact ((hsent.nodup List.nodup_range).getElem_inj_iff).mp heq

/-- If all items are sent, a document has the position of its item. -/
theorem sourceOf_of_all (hall : task.kept.length = task.items.length) {i : Nat}
    (h : i < task.kept.length) : sourceOf task.kept i = i := by
  have heq : task.kept.map Prod.fst = List.range task.items.length :=
    hsent.eq_of_length (by simpa using hall)
  rw [sourceOf_eq h]
  simp [heq]

end

/-- Of rows that compare, the first ones are those with few before them. -/
theorem nodup_take_sort {c : Nat} :
    (((sortBy scoreKey rows).take c).map Prod.fst).Nodup ↔
      ∀ x ∈ rows.zipIdx, ∀ y ∈ rows.zipIdx, x.2 < y.2 → x.1.1 = y.1.1 →
        c ≤ place scoreKey rows x ∨ c ≤ place scoreKey rows y := by
  have hmem : ∀ x ∈ rows.zipIdx, x ∈ (sortPlaces scoreKey rows).take c ↔
      place scoreKey rows x < c := fun x hx => StableSort.mem_take_sortPlaces hx c
  have hpos : ((sortPlaces scoreKey rows).take c).Pairwise fun x y => x.2 ≠ y.2 :=
    (StableSort.sortPlaces_positions rows).sublist (List.take_sublist _ _)
  have hsub : ∀ x ∈ (sortPlaces scoreKey rows).take c, x ∈ rows.zipIdx := fun x hx =>
    (StableSort.sortPlaces_perm rows).mem_iff.mp (List.mem_of_mem_take hx)
  rw [← StableSort.map_sortPlaces, ← List.map_take, List.map_map]
  constructor
  · intro h x hx y hy hlt heq
    by_contra hcon
    obtain ⟨hx', hy'⟩ := not_or.mp hcon
    have hsame : x = y := List.inj_on_of_nodup_map h ((hmem x hx).mpr (not_le.mp hx'))
      ((hmem y hy).mpr (not_le.mp hy')) heq
    exact hlt.ne (congrArg Prod.snd hsame)
  · intro h
    rw [List.Nodup, List.pairwise_map]
    refine hpos.imp_of_mem fun {x y} hx hy hne heq => ?_
    have hx' := (hmem x (hsub x hx)).mp hx
    have hy' := (hmem y (hsub y hy)).mp hy
    rcases lt_or_gt_of_ne hne with hlt | hlt
    · exact (h x (hsub x hx) y (hsub y hy) hlt heq).elim hx'.not_ge hy'.not_ge
    · exact (h y (hsub y hy) x (hsub x hx) hlt heq.symm).elim hy'.not_ge hx'.not_ge

/-! ## Replies that fit -/

theorem sort_lt (hrows : usableRows body task.kept.length = .ok rows) (c : Nat) :
    ∀ row ∈ (env.sorting.sort rows).take c, row.1 < task.kept.length := fun row hrow =>
  (usableRows_ok hrows).2 row ((env.sorting.perm rows).mem_iff.mp (List.mem_of_mem_take hrow))

theorem keptCount_le {topN : Int} (h : 0 < topN) (n : Nat) : (keptCount topN n : Int) ≤ topN := by
  rw [keptCount, if_neg h.ne', if_neg (by omega)]
  omega

/-- What is left of fitting rows is one row for each document. -/
theorem nodup_left (h : Fits task.request.topN task.kept.length task.items.length rows) :
    (((env.sorting.sort rows).take (keptCount task.request.topN rows.length)).map
      Prod.fst).Nodup := by
  by_cases hcompared : Comparable rows
  · rw [env.sorting.compared rows hcompared]
    exact nodup_take_sort.mpr (h.once hcompared)
  · rcases h.unordered hcompared with hnodup | hone
    · have hsorted : ((env.sorting.sort rows).map Prod.fst).Nodup :=
        ((env.sorting.perm rows).map Prod.fst).nodup_iff.mpr hnodup
      exact hsorted.sublist ((List.take_sublist _ _).map Prod.fst)
    · have hlength : (((env.sorting.sort rows).take
          (keptCount task.request.topN rows.length)).map Prod.fst).length ≤ 1 := by
        rw [List.length_map, List.length_take]
        omega
      match hleft : ((env.sorting.sort rows).take
          (keptCount task.request.topN rows.length)).map Prod.fst with
      | [] => exact List.nodup_nil
      | [x] => exact List.nodup_singleton x
      | x :: y :: l =>
          rw [hleft] at hlength
          simp at hlength

/-- Rows that name every document once are those of all documents. -/
theorem perm_range (hrows : usableRows body task.kept.length = .ok rows)
    (hnodup : (rows.map Prod.fst).Nodup) (hall : NamesAll task.kept.length rows) :
    (rows.map Prod.fst).Perm (List.range task.kept.length) := by
  refine (List.perm_ext_iff_of_nodup hnodup List.nodup_range).mpr fun i => ?_
  rw [List.mem_range]
  refine ⟨fun hi => ?_, hall i⟩
  obtain ⟨row, hrow, rfl⟩ := List.mem_map.mp hi
  exact (usableRows_ok hrows).2 row hrow

theorem permutes_of_fits
    (hsent : (task.kept.map Prod.fst).Sublist (List.range task.items.length))
    (hrows : usableRows body task.kept.length = .ok rows) (hpost : env.post task.request = .ok body)
    (h : Fits task.request.topN task.kept.length task.items.length rows) :
    Permutes env task (rankedOutput env task rows) where
  once := by
    rw [rankedOutput]
    exact (nodup_sources hsent env.float (sort_lt hrows _)).mpr (nodup_left h)
  bounded hpos := by
    have hle := keptCount_le hpos rows.length
    simp only [rankedOutput, List.length_map, List.length_take]
    omega
  complete body' rows' hzero _ hpost' hrows' hall := by
    rw [hpost] at hpost'
    cases hpost'
    rw [hrows] at hrows'
    cases hrows'
    obtain ⟨hdocs, hscores⟩ := h.complete hzero hall
    have htake : (env.sorting.sort rows).take (keptCount task.request.topN rows.length) =
        env.sorting.sort rows := by
      rw [keptCount, if_pos hzero, ← (env.sorting.perm rows).length_eq, List.take_length]
    have hnodup : (((env.sorting.sort rows).take
        (keptCount task.request.topN rows.length)).map Prod.fst).Nodup := nodup_left h
    rw [htake] at hnodup
    have hperm : ((env.sorting.sort rows).map Prod.fst).Perm (rows.map Prod.fst) :=
      (env.sorting.perm rows).map Prod.fst
    simp only [rankedOutput, htake]
    constructor
    · have hsame : ((env.sorting.sort rows).map Prod.fst).map (sourceOf task.kept) =
          (env.sorting.sort rows).map Prod.fst := by
        conv_rhs => rw [← List.map_id ((env.sorting.sort rows).map Prod.fst)]
        refine List.map_congr_left fun i hi => ?_
        obtain ⟨row, hrow, rfl⟩ := List.mem_map.mp hi
        exact sourceOf_of_all hsent hdocs
          ((usableRows_ok hrows).2 row ((env.sorting.perm rows).mem_iff.mp hrow))
      rw [sources_map, hsame, ← hdocs]
      exact hperm.trans (perm_range hrows (hperm.nodup_iff.mp hnodup) hall)
    · rw [NotIncreasing, List.pairwise_map]
      rcases hscores with hone | hcompared
      · match hsort : env.sorting.sort rows with
        | [] => exact List.Pairwise.nil
        | [x] => exact List.pairwise_singleton _ x
        | x :: y :: l =>
            have hlength := (env.sorting.perm rows).length_eq
            rw [hsort, List.length_cons, List.length_cons] at hlength
            omega
      · rw [env.sorting.compared rows hcompared]
        refine (StableSort.sortBy_pairwise rows).imp_of_mem fun {x y} hx hy hle s hs s' hs' => ?_
        cases hs
        cases hs'
        have hmem : ∀ z ∈ sortBy scoreKey rows, z ∈ rows := fun z hz =>
          (StableSort.sortBy_perm rows).mem_iff.mp hz
        exact ⟨hcompared y (hmem y hy), hcompared x (hmem x hx), OrderDual.toDual_le_toDual.mp hle⟩

/-! ## Replies that do not fit -/

/-- The stable sort, also where scores do not compare -/
def stableSorting : Sorting where
  sort := sortBy scoreKey
  perm := StableSort.sortBy_perm
  compared _ _ := rfl

/-- Rows that do not compare come out in another order. -/
def sortingTo (rows sorted : List Row) (hperm : sorted.Perm rows) (hnot : ¬ Comparable rows) :
    Sorting where
  sort l := if l = rows then sorted else sortBy scoreKey l
  perm l := by
    split
    next heq => rwa [heq]
    next => exact StableSort.sortBy_perm l
  compared l hl := by
    split
    next heq => exact absurd (heq ▸ hl) hnot
    next => rfl

/-- Two rows for one document may be put first. -/
theorem exists_double (h : ¬ (rows.map Prod.fst).Nodup) :
    ∃ x y rest, List.Perm (x :: y :: rest) rows ∧ x.1 = y.1 := by
  obtain ⟨i, hi⟩ := List.exists_duplicate_iff_not_nodup.mpr h
  obtain ⟨double, hsub, heq⟩ := List.sublist_map_iff.mp (List.duplicate_iff_sublist.mp hi)
  obtain ⟨rest, hrest⟩ := hsub.exists_perm_append
  obtain ⟨x, l, rfl, hx, hl⟩ := List.map_eq_cons_iff.mp heq.symm
  obtain ⟨y, l, rfl, hy, hl⟩ := List.map_eq_cons_iff.mp hl
  obtain rfl := List.map_eq_nil_iff.mp hl
  exact ⟨x, y, rest, hrest.symm, hx.trans hy.symm⟩

theorem fits_of_permutes
    (hsent : (task.kept.map Prod.fst).Sublist (List.range task.items.length))
    (hkept : task.kept ≠ []) (hpost : env.post task.request = .ok body)
    (hrows : usableRows body task.kept.length = .ok rows)
    (h : ∀ sorting, Permutes { env with sorting } task
      (rankedOutput { env with sorting } task rows)) :
    Fits task.request.topN task.kept.length task.items.length rows where
  once _ := by
    have honce := (h stableSorting).once
    rw [rankedOutput, nodup_sources hsent _ (sort_lt hrows _)] at honce
    exact nodup_take_sort.mp honce
  unordered hnot := by
    by_contra hcon
    obtain ⟨hdouble, hmany⟩ := not_or.mp hcon
    obtain ⟨x, y, rest, hperm, hsame⟩ := exists_double hdouble
    have honce := (h (sortingTo rows _ hperm hnot)).once
    rw [rankedOutput, nodup_sources hsent _ (sort_lt hrows _)] at honce
    have hsort : (sortingTo rows _ hperm hnot).sort rows = x :: y :: rest := if_pos rfl
    obtain ⟨c, hc⟩ : ∃ c, keptCount task.request.topN rows.length = c + 2 :=
      ⟨keptCount task.request.topN rows.length - 2, by omega⟩
    simp only [hsort, hc, List.take_succ_cons, List.map_cons, List.nodup_cons] at honce
    exact honce.1 (hsame ▸ List.mem_cons_self)
  complete hzero hall := by
    obtain ⟨hperm, hscores⟩ := (h stableSorting).complete body rows hzero hkept hpost hrows hall
    have htake : (sortBy scoreKey rows).take (keptCount task.request.topN rows.length) =
        sortBy scoreKey rows := by
      have hlength : (sortBy scoreKey rows).length = rows.length := StableSort.length_sortBy rows
      rw [keptCount, if_pos hzero, ← hlength, List.take_length]
    have hsort : stableSorting.sort rows = sortBy scoreKey rows := rfl
    simp only [rankedOutput, hsort, htake] at hperm hscores
    constructor
    · -- Every item is the source of a document.
      have hsub : List.range task.items.length ⊆ task.kept.map Prod.fst := by
        intro i hi
        have hmem := hperm.mem_iff.mpr hi
        rw [sources_map, List.map_map] at hmem
        obtain ⟨row, hrow, rfl⟩ := List.mem_map.mp hmem
        have hlt := (usableRows_ok hrows).2 row ((StableSort.sortBy_perm rows).mem_iff.mp hrow)
        rw [Function.comp_apply, sourceOf_eq hlt]
        exact List.getElem_mem _
      have hge := (List.subperm_of_subset List.nodup_range hsub).length_le
      have hle := hsent.length_le
      simp only [List.length_map, List.length_range] at hge hle
      exact le_antisymm hle hge
    · by_contra hcon
      obtain ⟨hmany, hnot⟩ := not_or.mp hcon
      refine hnot fun row hrow => ?_
      have hmem : row ∈ sortBy scoreKey rows := (StableSort.sortBy_perm rows).mem_iff.mpr hrow
      rw [NotIncreasing, List.pairwise_map] at hscores
      have hlength : (sortBy scoreKey rows).length = rows.length := StableSort.length_sortBy rows
      match hsorted : sortBy scoreKey rows with
      | [] =>
          rw [hsorted] at hmem
          cases hmem
      | [x] =>
          rw [hsorted, List.length_singleton] at hlength
          omega
      | x :: y :: l =>
          rw [hsorted] at hmem hscores
          obtain ⟨hx, hrest⟩ := List.pairwise_cons.mp hscores
          rcases List.mem_cons.mp hmem with rfl | hmem
          · exact (hx y List.mem_cons_self row.2 rfl y.2 rfl).2.1
          · exact (hx row hmem x.2 rfl row.2 rfl).1

/-! ## Main results -/

theorem finish_without_texts (hkept : task.kept = []) : finish env task =
    .ok { hits := passThrough task.items, reranked := 0, candidates := none } := by
  rw [finish, if_pos hkept]

theorem permutes_passThrough (hkept : task.kept = []) :
    Permutes env task { hits := passThrough task.items, reranked := 0, candidates := none } ↔
      (0 < task.request.topN → (task.items.length : Int) ≤ task.request.topN) := by
  have hsources : (passThrough task.items).map Hit.source = List.range task.items.length := by
    rw [passThrough, List.map_map, List.range_eq_range', ← List.zipIdx_map_snd 0 task.items]
    rfl
  have hlength : (passThrough task.items).length = task.items.length := by
    rw [passThrough, List.length_map, List.length_zipIdx]
  constructor
  · intro h hpos
    simpa [hlength] using h.bounded hpos
  · intro h
    refine ⟨?_, fun hpos => ?_, fun body rows _ hne => absurd hkept hne⟩
    · rw [hsources]
      exact List.nodup_range
    · rw [hlength]
      exact h hpos

/-- A node reranks its items, whatever comes of scores that do not compare, if and only if the
reply fits, and there is no bound that items without texts exceed. -/
theorem reranks_iff (getattr : Value → List String → String) (float : FloatValue → Value)
    (post : Request → Except NodeError Value) (ctx : NodeContext) :
    (∀ sorting, Reranks { getattr, float, post, sorting } ctx) ↔
      ∀ task, prepare getattr ctx = .ok task →
        (task.kept = [] → 0 < task.request.topN →
          (task.items.length : Int) ≤ task.request.topN) ∧
        (task.kept ≠ [] → ∀ body rows, post task.request = .ok body →
          usableRows body task.kept.length = .ok rows →
            Fits task.request.topN task.kept.length task.items.length rows) := by
  have hexec : ∀ sorting task, prepare getattr ctx = .ok task →
      execute { getattr, float, post, sorting } ctx =
        finish { getattr, float, post, sorting } task := by
    intro sorting task htask
    rw [execute, htask]
    rfl
  constructor
  · intro h task htask
    obtain ⟨-, hsent⟩ := prepare_ok htask
    constructor
    · intro hkept
      refine (permutes_passThrough hkept).mp (h stableSorting task _ htask ?_)
      rw [hexec stableSorting task htask, finish_without_texts hkept]
    · intro hkept body rows hpost hrows
      refine @fits_of_permutes { getattr, float, post, sorting := stableSorting } task body rows
        hsent hkept hpost hrows fun sorting => h sorting task _ htask ?_
      rw [hexec sorting task htask, finish_of_reply hkept hpost hrows]
  · intro h sorting task out htask hout
    obtain ⟨-, hsent⟩ := prepare_ok htask
    obtain ⟨hpass, hreply⟩ := h task htask
    rw [hexec sorting task htask] at hout
    by_cases hkept : task.kept = []
    · rw [finish_without_texts hkept] at hout
      cases hout
      exact (permutes_passThrough hkept).mpr (hpass hkept)
    · obtain ⟨body, rows, hpost, hrows, rfl⟩ := finish_ok hkept hout
      exact permutes_of_fits hsent hrows hpost (hreply hkept body rows hpost hrows)

/-- Two passages, both with a text -/
def passages : NodeContext :=
  { VectorSearch.questions with
    config := [("endpoint", .str "http://reranker"), ("query", .str "invoices"), ("top_n", .int 10),
      ("timeout_seconds", .float ⟨60, "60.0"⟩)]
    inputData := .list [.dict [("text", .str "first")], .dict [("text", .str "second")]] }

/-- The service names the first passage twice. -/
def twiceNamed : Value :=
  .dict [("results", .list
    [.dict [("index", .int 0), ("relevance_score", .float ⟨9 / 10, "0.9"⟩)],
      .dict [("index", .int 0), ("relevance_score", .float ⟨4 / 5, "0.8"⟩)]])]

def twiceNamedRows : List Row :=
  [(0, (toDouble (9 / 10)).value), (0, (toDouble (4 / 5)).value)]

def rerankService : RerankEnv where
  getattr _ _ := ""
  float
    | .number x => .float ⟨x, toString x⟩
    | _ => .none
  post _ := .ok twiceNamed
  sorting := stableSorting

def passagesTask : Task where
  scoreField := "relevance_score"
  items := passages.items
  kept := [(0, "first"), (1, "second")]
  request :=
    { endpoint := "http://reranker"
      timeout := (toDouble 60).value
      authorization := none
      query := "invoices"
      documents := ["first", "second"]
      model := none
      topN := 10 }

private theorem prepare_passages :
    prepare rerankService.getattr passages = .ok passagesTask := by rfl

private theorem usableRows_twiceNamed :
    usableRows twiceNamed passagesTask.kept.length = .ok twiceNamedRows := by rfl

/-- The first passage is in the output twice. -/
theorem passage_twice : ¬ ∀ env ctx, Reranks env ctx := by
  intro h
  have htask := prepare_passages
  have hrows := usableRows_twiceNamed
  have hexec : execute rerankService passages =
      .ok (rankedOutput rerankService passagesTask twiceNamedRows) := by
    rw [execute, htask]
    exact finish_of_reply (by decide) rfl hrows
  have honce := (h rerankService passages passagesTask _ htask hexec).once
  rw [rankedOutput, nodup_sources (prepare_ok htask).2 _ (sort_lt hrows _)] at honce
  have hplaces := nodup_take_sort.mp honce _ List.mem_cons_self _
    (List.mem_cons_of_mem _ List.mem_cons_self) Nat.zero_lt_one rfl
  have hbound : ∀ x, place scoreKey twiceNamedRows x ≤ 2 := fun x => List.countP_le_length
  have hkept : keptCount passagesTask.request.topN twiceNamedRows.length = 10 := by decide
  rw [hkept] at hplaces
  rcases hplaces with hplace | hplace
  · exact absurd (hplace.trans (hbound _)) (by decide)
  · exact absurd (hplace.trans (hbound _)) (by decide)

end Reranking

end CitraFlows
