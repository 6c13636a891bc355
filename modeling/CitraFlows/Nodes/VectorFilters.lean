-- SUMMARY: The metadata filters of a vector search: what each backend is asked for, and when that is the filter that was given.
import CitraFlows.Lib.FilterExpr
import CitraFlows.Nodes.Reranking
import CitraFlows.Nodes.SwitchRouting
import CitraFlows.Nodes.VectorSearch

/-!
# Metadata filters

The five searches take the same parsed filter and hand it over in five ways: as it is, as an
expression text, as clauses, as columns with parameters. `Backends` says how the stores evaluate
what they get, as far as it is documented; a store may always reject a filter. A filter is
honoured by all such stores exactly if it `Fits`.

A search also fails before its predicate is issued, where its client, its query vector or its
table is not what it needs. `Clients` stands for the parts of this that are not the program's.
-/

namespace CitraFlows

open Reranking (readFloat)
open SwitchRouterNode (iterate)
open VectorSearch (VectorEnv Request SearchEnd Settings prepare itemVector request searchItem
  searchLoop searchedItems)

namespace VectorFilters

/-! ## What is handed over -/

/-- The keys of `_SEARCHERS` -/
inductive Provider where
  | qdrant
  | milvus
  | weaviate
  | pgvector
  | chroma
  deriving DecidableEq

/-- `_SEARCHERS[provider]` -/
def searchers : String → Option Provider
  | "qdrant" => some .qdrant
  | "milvus" => some .milvus
  | "weaviate" => some .weaviate
  | "pgvector" => some .pgvector
  | "chroma" => some .chroma
  | _ => none

/-- The predicate of a search -/
inductive Predicate where
  | qdrant (queryFilter : Value)
  | milvus (filter : String)
  | weaviate (filters : List (String × Value))
  | pgvector (clauses : List String) (params : List Value)
  | chroma (filter : Value)

/-- `_dict_to_milvus_expr` -/
def dictToMilvusExpr (d : List (String × Value)) : String :=
  " and ".intercalate (d.map fun p =>
    match p.2 with
    | .str v => p.1 ++ " == \"" ++ v ++ "\""
    | v => p.1 ++ " == " ++ v.text)

/-- The clauses of `_dict_to_weaviate_filter`, which are combined by `&` -/
def dictToWeaviateFilter : Value → Except PyError (List (String × Value))
  | .dict (p :: d) => .ok (p :: d)
  | d => .error (.valueError
      ("Weaviate filters must be a JSON object of property/value pairs, got " ++ d.repr))

/-- `str(key).replace("_", "").isalnum()` -/
def safeColumn (alnum : Char → Bool) (key : String) : Bool :=
  let cs := key.toList.filter (· ≠ '_')
  !cs.isEmpty && cs.all alnum

def columnClause (key : String) : String := "\"" ++ key ++ "\" = %s"

/-- The clauses of `_search_pgvector`, which are joined by `AND`, and their parameters -/
def pgvectorClauses (alnum : Char → Bool) :
    List (String × Value) → Except PyError (List String × List Value)
  | [] => .ok ([], [])
  | (key, value) :: d =>
      if safeColumn alnum key then do
        let (clauses, params) ← pgvectorClauses alnum d
        return (columnClause key :: clauses, value :: params)
      else .error (.valueError ("Unsafe filter column for pgvector: " ++ Value.reprStr key))

/-- The predicate that the search of a provider is issued with, if there is one -/
def predicate (alnum : Char → Bool) (provider : Provider) (queryFilter : Value) :
    Except PyError (Option Predicate) :=
  match provider with
  | .qdrant => .ok (if queryFilter.truthy then some (.qdrant queryFilter) else none)
  | .milvus =>
      if queryFilter.truthy then
        match queryFilter with
        | .str s => .ok (some (.milvus s))
        | .dict d => .ok (some (.milvus (dictToMilvusExpr d)))
        | v => .error (.attributeError v.typeName "items")
      else .ok none
  | .weaviate =>
      if queryFilter.truthy then
        (dictToWeaviateFilter queryFilter).map fun filters => some (.weaviate filters)
      else .ok none
  | .pgvector =>
      match queryFilter with
      | .dict (p :: d) =>
          (pgvectorClauses alnum (p :: d)).map fun r => some (.pgvector r.1 r.2)
      | _ => .ok none
  | .chroma => .ok (if queryFilter.truthy then some (.chroma queryFilter) else none)

/-! ## The searches -/

/-- How a search ends that was not issued. -/
inductive Failure where
  | importError (text : String)
  | raised (exc : NodeError)

def Failure.ends : Failure → SearchEnd
  | .importError text => .importError text
  | .raised exc => .raised exc

/-- What a search needs of the deployment and of the stores, by the searches before it. -/
structure Clients where
  /-- `import` of the client -/
  imports : Provider → List Request → Request → Except Failure Unit
  /-- `_embed` -/
  embed : List Request → Request → Except Failure Value
  /-- The connection, from the URL on; with the collection for Weaviate and Chroma, and with
  `_pg_scalar_columns` for pgvector -/
  opens : Provider → List Request → Request → Except Failure Unit
  /-- What comes of a search that is issued -/
  answers : List Request → Request → SearchEnd

section

variable (c : Clients) (log : List Request) (req : Request)

/-- `if vector is None: vector = await _embed(ctx, query_text)` -/
def queryVector : Except Failure Value :=
  match req.vector with
  | none => c.embed log req
  | some v => .ok v

/-- `vec_literal`, which takes vectors of what `float` reads. -/
def vectorLiteral (v : Value) : Except Failure (List Doubles.FloatValue) :=
  match iterate v with
  | .error e => .error (.raised { message := e.message })
  | .ok xs => (xs.mapM readFloat).mapError .raised

/-- The predicate that is built from the filter -/
def built (alnum : Char → Bool) (provider : Provider) (queryFilter : Value) :
    Except Failure (Option Predicate) :=
  (predicate alnum provider queryFilter).mapError fun e => .raised { message := e.message }

/-- `_search_qdrant` and the others, up to the search that the client is asked for. -/
def issue (alnum : Char → Bool) (provider : Provider) : Except Failure (Option Predicate) :=
  match provider with
  | .qdrant | .milvus => do
      c.imports provider log req
      let _ ← queryVector c log req
      c.opens provider log req
      built alnum provider req.queryFilter
  | .weaviate | .chroma => do
      c.imports provider log req
      c.opens provider log req
      built alnum provider req.queryFilter
  | .pgvector => do
      c.imports provider log req
      let vector ← queryVector c log req
      if safeColumn alnum req.collection = false then
        throw (.raised { message :=
          "Unsafe table name for pgvector: " ++ Value.reprStr req.collection })
      let _ ← vectorLiteral vector
      let pred ← built alnum provider req.queryFilter
      c.opens provider log req
      return pred

/-- `_SEARCHERS[provider]` -/
def Clients.search (alnum : Char → Bool) : SearchEnd :=
  match searchers req.provider with
  | none => .raised { message := (PyError.keyError req.provider).message }
  | some provider =>
      match issue c log req alnum provider with
      | .error failure => failure.ends
      | .ok _ => c.answers log req

end

theorem columnClause_inj {key key' : String} (h : columnClause key = columnClause key') :
    key = key' := by
  have hlist := congrArg String.toList h
  simp only [columnClause, String.toList_append] at hlist
  rw [List.append_left_inj, List.append_right_inj] at hlist
  exact String.toList_inj.mp hlist

/-! ## What the stores make of it -/

def isScalar : Value → Bool
  | .list _ => false
  | .dict _ => false
  | _ => true

/-- The fields and values of a flat filter object -/
def flat : Value → Option (List (String × Value))
  | .dict d => if d.all fun p => isScalar p.2 then some d else none
  | _ => none

/-- The fields of a Qdrant filter -/
def qdrantFields : List String := ["must", "should", "must_not", "min_should"]

/-- The characters and constants that decide how a filter is written and read -/
structure Texts where
  /-- `str.isalnum` of a character -/
  alnum : Char → Bool
  /-- A constant of Milvus that is no text -/
  constant : List Char → Option Value
  constant_int : ∀ n : Int, constant (toString n).toList = some (.int n)
  constant_bool : ∀ b, constant (Value.bool b).text.toList = some (.bool b)
  constant_chars : ∀ cs v, constant cs = some v → cs ≠ [] ∧ '"' ∉ cs ∧ ' ' ∉ cs
  constant_value : ∀ cs v, constant cs = some v → v ≠ .none ∧ ∀ s, v ≠ .str s
  constant_float : ∀ cs x, constant cs = some (.float x) →
    constant x.repr.toList = some (.float x)

def Texts.readMilvus (t : Texts) (s : String) : Option (FilterExpr.Expr Value) :=
  FilterExpr.readExpr (fun body => .str (String.ofList body)) t.constant s.toList

/-- Qdrant rejects the flat object: a filter has the fields `qdrantFields`, none of which is a
scalar. -/
def QdrantRejects (d : List (String × Value)) : Prop := ∃ f ∈ d, f.1 ∉ qdrantFields ∨ f.2 ≠ .none

/-- The stores, by the predicates they evaluate: `none` if they reject what they get.

Milvus reads comparisons as `FilterExpr` does. A Weaviate clause and an SQL clause compare one
field, and nothing equals `NULL`. A `where` of Chroma has one entry. -/
structure Backends (t : Texts) where
  Record : Type
  /-- The field of the record equals the scalar, as the store compares them. -/
  equals : Record → String → Value → Prop
  qdrant : Value → Option (Record → Prop)
  milvus : String → Option (Record → Prop)
  weaviate : String → Value → Option (Record → Prop)
  postgres : String → Value → Option (Record → Prop)
  chroma : Value → Option (Record → Prop)
  qdrant_rejects : ∀ d, flat (.dict d) = some d → QdrantRejects d → qdrant (.dict d) = none
  milvus_reads : ∀ s e p, t.readMilvus s = some e → milvus s = some p →
    ∀ record, p record ↔ e.Holds fun field v => equals record (String.ofList field) v
  weaviate_equal : ∀ key v p, isScalar v = true → weaviate key v = some p →
    ∀ record, p record ↔ equals record key v
  postgres_equal : ∀ key v p, safeColumn t.alnum key = true → isScalar v = true →
    postgres (columnClause key) v = some p → ∀ record, p record ↔ v ≠ .none ∧ equals record key v
  chroma_equal : ∀ key v p, isScalar v = true → chroma (.dict [(key, v)]) = some p →
    ∀ record, p record ↔ equals record key v
  chroma_rejects : ∀ d, 1 < d.length → chroma (.dict d) = none

/-- All of the predicates, if none of them is rejected -/
def allOf {R : Type} : List (Option (R → Prop)) → Option (R → Prop)
  | [] => some fun _ => True
  | p :: ps => do
      let p ← p
      let q ← allOf ps
      return fun record => p record ∧ q record

variable {t : Texts}

/-- Which records satisfy the predicate -/
def Backends.meaning (b : Backends t) : Predicate → Option (b.Record → Prop)
  | .qdrant v => b.qdrant v
  | .milvus s => b.milvus s
  | .weaviate filters => allOf (filters.map fun f => b.weaviate f.1 f.2)
  | .pgvector clauses params => allOf (List.zipWith b.postgres clauses params)
  | .chroma v => b.chroma v

/-! ## Filters that are honoured -/

/-- There is no filter. -/
def NoFilter (v : Value) : Prop := v = .none ∨ v = .dict []

/-- The search fails, or its predicate is satisfied by the records whose fields equal all the
values of a flat filter object; what is no such object is not dropped. -/
def Meets {ε : Type} (b : Backends t) (v : Value) : Except ε (Option Predicate) → Prop
  | .error _ => True
  | .ok none => NoFilter v
  | .ok (some pred) =>
      ∀ fields, flat v = some fields → ∀ p, b.meaning pred = some p →
        ∀ record, p record ↔ ∀ f ∈ fields, b.equals record f.1 f.2

def Honoured (b : Backends t) (provider : Provider) (v : Value) : Prop :=
  Meets b v (predicate t.alnum provider v)

/-- The node among its clients -/
def Clients.env (c : Clients) (alnum word : Char → Bool) (loads : String → Agent.Loaded) :
    VectorEnv where
  word := word
  loads := loads
  search log req := c.search log req alnum

/-- Every search of the node honours its filter. -/
def Honours (b : Backends t) (c : Clients) (word : Char → Bool) (loads : String → Agent.Loaded)
    (ctx : NodeContext) : Prop :=
  ∀ log req later,
    (VectorSearch.execute (c.env t.alnum word loads) ctx).1 = log ++ req :: later →
      ∀ provider, searchers req.provider = some provider →
        Meets b req.queryFilter (issue c log req t.alnum provider)

/-- A search that needs nothing more to be issued than its predicate: its client is there and
connects, and where the query is embedded here there is a vector; pgvector needs a table name of
letters, digits and underscores, and a vector of floats. -/
structure Reaches (c : Clients) (alnum : Char → Bool) (provider : Provider) (log : List Request)
    (req : Request) : Prop where
  imported : c.imports provider log req = .ok ()
  vector : provider ∈ [.qdrant, .milvus, .pgvector] → ∃ v, queryVector c log req = .ok v ∧
    (provider = .pgvector → ∃ xs, vectorLiteral v = .ok xs)
  table : provider = .pgvector → safeColumn alnum req.collection = true
  opened : c.opens provider log req = .ok ()

/-- The filter reaches the search: it is there and, for pgvector, it is an object. -/
def Kept (provider : Provider) (v : Value) : Prop :=
  NoFilter v ∨ v.truthy = true ∧ (provider = .pgvector → v.asDict.isSome = true)

/-- A field and its value are in the expression what they are in the filter. -/
def MilvusPlain (t : Texts) (f : String × Value) : Prop :=
  FilterExpr.IsField t.constant f.1.toList ∧
    match f.2 with
    | .str s => '"' ∉ s.toList ∧ '\\' ∉ s.toList
    | .float x => t.constant x.repr.toList = some (.float x)
    | .none => False
    | _ => True

/-- A flat filter object means to the store what it says, or is rejected. -/
def FlatFits (t : Texts) (provider : Provider) (fields : List (String × Value)) : Prop :=
  match provider with
  | .qdrant => QdrantRejects fields
  | .milvus => ∀ f ∈ fields, MilvusPlain t f
  | .pgvector => (∃ f ∈ fields, safeColumn t.alnum f.1 = false) ∨ ∀ f ∈ fields, f.2 ≠ .none
  | _ => True

structure Fits (t : Texts) (provider : Provider) (v : Value) : Prop where
  kept : Kept provider v
  flat_fits : ∀ fields, flat v = some fields → fields ≠ [] → FlatFits t provider fields

/-! ## The translations -/

theorem flat_eq_some {v : Value} {fields : List (String × Value)} (h : flat v = some fields) :
    v = .dict fields ∧ ∀ f ∈ fields, isScalar f.2 = true := by
  cases v with
  | dict d =>
      rw [flat] at h
      split at h
      next hall =>
        cases h
        exact ⟨rfl, List.all_eq_true.mp hall⟩
      next => cases h
  | none => cases h
  | bool b => cases h
  | int n => cases h
  | float x => cases h
  | str s => cases h
  | list xs => cases h

theorem allOf_map {R α : Type} {l : List α} {f : α → Option (R → Prop)} {P : α → R → Prop}
    (hf : ∀ x ∈ l, ∀ q, f x = some q → ∀ record, q record ↔ P x record) {p : R → Prop}
    (h : allOf (l.map f) = some p) (record : R) : p record ↔ ∀ x ∈ l, P x record := by
  induction l generalizing p with
  | nil =>
      cases h
      simp
  | cons x l ih =>
      rw [List.map_cons, allOf] at h
      obtain ⟨q, hq, h⟩ := Option.bind_eq_some_iff.mp h
      obtain ⟨q', hq', h⟩ := Option.bind_eq_some_iff.mp h
      cases h
      rw [List.forall_mem_cons]
      exact and_congr (hf x List.mem_cons_self q hq record)
        (ih (fun y hy => hf y (List.mem_cons_of_mem x hy)) hq')

/-- The clauses are those of the columns, all of which are safe. -/
theorem pgvectorClauses_ok {alnum : Char → Bool} {d : List (String × Value)}
    {r : List String × List Value} (h : pgvectorClauses alnum d = .ok r) :
    r = (d.map fun f => columnClause f.1, d.map Prod.snd) ∧
      ∀ f ∈ d, safeColumn alnum f.1 = true := by
  induction d generalizing r with
  | nil =>
      cases h
      exact ⟨rfl, fun f hf => by cases hf⟩
  | cons f d ih =>
      obtain ⟨key, value⟩ := f
      rw [pgvectorClauses] at h
      split at h
      next hsafe =>
        cases hrest : pgvectorClauses alnum d with
        | error e =>
            rw [hrest] at h
            cases h
        | ok r' =>
            rw [hrest] at h
            cases h
            obtain ⟨rfl, hall⟩ := ih hrest
            exact ⟨rfl, List.forall_mem_cons.mpr ⟨hsafe, hall⟩⟩
      next => cases h

/-! ## Expressions for Milvus -/

/-- `f"{v}"`, in quotes for a string -/
def literalText : Value → List Char
  | .str s => '"' :: (s.toList ++ ['"'])
  | v => v.text.toList

def written (f : String × Value) : FilterExpr.Written Value where
  field := f.1.toList
  literal := literalText f.2
  value := f.2

theorem dictToMilvusExpr_toList (d : List (String × Value)) :
    (dictToMilvusExpr d).toList = FilterExpr.conjunctionText (d.map written) := by
  rw [dictToMilvusExpr, String.toList_intercalate, FilterExpr.conjunctionText, List.map_map,
    List.map_map]
  refine congrArg _ (List.map_congr_left fun f _ => ?_)
  obtain ⟨k, v⟩ := f
  cases v <;> simp [written, literalText, FilterExpr.comparisonText]

theorem toString_int_chars (n : Int) :
    ∃ c cs, (toString n).toList = c :: cs ∧ ∀ d ∈ c :: cs, d.isDigit = true ∨ d = '-' := by
  have hdigits : ∀ k : Nat, ∀ d ∈ (Nat.repr k).toList, d.isDigit = true := by
    intro k d hd
    rw [Nat.toList_repr] at hd
    exact Nat.isDigit_of_mem_toDigits (by decide) (by decide) hd
  cases n with
  | ofNat k =>
      have htext : (toString (Int.ofNat k)).toList = (Nat.repr k).toList := rfl
      obtain ⟨c, cs, hcs⟩ := List.exists_cons_of_ne_nil
        (show (Nat.repr k).toList ≠ [] by rw [Nat.toList_repr]; exact Nat.toDigits_ne_nil)
      exact ⟨c, cs, htext.trans hcs, fun d hd => .inl (hdigits k d (hcs ▸ hd))⟩
  | negSucc k =>
      have htext : (toString (Int.negSucc k)).toList = '-' :: (Nat.repr (k + 1)).toList := by
        change ("-" ++ Nat.repr (k + 1)).toList = _
        rw [String.toList_append]
        rfl
      refine ⟨'-', _, htext, fun d hd => ?_⟩
      rcases List.mem_cons.mp hd with rfl | hd
      · exact .inr rfl
      · exact .inl (hdigits (k + 1) d hd)

theorem isLiteral_written {f : String × Value} (hscalar : isScalar f.2 = true)
    (h : MilvusPlain t f) :
    FilterExpr.IsLiteral (fun body => .str (String.ofList body)) t.constant (written f).literal
      (written f).value := by
  obtain ⟨k, v⟩ := f
  obtain ⟨-, hv⟩ := h
  cases v with
  | none => cases hv
  | bool x =>
      have hconstant := t.constant_bool x
      cases x with
      | true =>
          have htext : (Value.bool true).text.toList = ['T', 'r', 'u', 'e'] := by
            simp [Value.text, Value.repr]
          simp only [written, literalText, htext] at hconstant ⊢
          exact .constant (by decide) (by decide) hconstant
      | false =>
          have htext : (Value.bool false).text.toList = ['F', 'a', 'l', 's', 'e'] := by
            simp [Value.text, Value.repr]
          simp only [written, literalText, htext] at hconstant ⊢
          exact .constant (by decide) (by decide) hconstant
  | int n =>
      have hconstant := t.constant_int n
      obtain ⟨c, cs, htext, hchars⟩ := toString_int_chars n
      have hliteral : literalText (.int n) = c :: cs := htext
      rw [htext] at hconstant
      have hne : ∀ x, x.isDigit = false → x ≠ '-' → x ∉ c :: cs := by
        intro x hdigit hminus hmem
        rcases hchars x hmem with h | h
        · rw [hdigit] at h
          cases h
        · exact hminus h
      simp only [written, hliteral]
      exact .constant (fun h => hne '"' (by decide) (by decide) (h ▸ List.mem_cons_self))
        (hne ' ' (by decide) (by decide)) hconstant
  | float x =>
      have hconstant : t.constant x.repr.toList = some (.float x) := hv
      obtain ⟨hne, hquote, hblank⟩ := t.constant_chars _ _ hconstant
      obtain ⟨c, cs, hrepr⟩ := List.exists_cons_of_ne_nil hne
      have hliteral : literalText (.float x) = c :: cs := hrepr
      rw [hrepr] at hconstant hquote hblank
      simp only [written, hliteral]
      exact .constant (fun h => hquote (h ▸ List.mem_cons_self)) hblank hconstant
  | str s =>
      have hvalue : Value.str s = .str (String.ofList s.toList) := by rw [String.ofList_toList]
      simp only [written, literalText]
      rw [hvalue]
      exact .string hv.1 hv.2
  | list xs => cases hscalar
  | dict d => cases hscalar

/-- The expression of a plain filter is its conjunction. -/
theorem readMilvus_dictToMilvusExpr {d : List (String × Value)} (hne : d ≠ [])
    (hscalar : ∀ f ∈ d, isScalar f.2 = true) (h : ∀ f ∈ d, MilvusPlain t f) :
    t.readMilvus (dictToMilvusExpr d) =
      some [(d.map written).map FilterExpr.Written.comparison] := by
  rw [Texts.readMilvus, dictToMilvusExpr_toList]
  refine FilterExpr.readExpr_conjunction (by simpa using hne) ?_ ?_
  · intro w hw
    obtain ⟨f, hf, rfl⟩ := List.mem_map.mp hw
    exact (h f hf).1
  · intro w hw
    obtain ⟨f, hf, rfl⟩ := List.mem_map.mp hw
    exact isLiteral_written (hscalar f hf) (h f hf)

/-! ## Each store -/

section

variable {b : Backends t} {d : List (String × Value)}

theorem milvus_honours (hne : d ≠ []) (hscalar : ∀ f ∈ d, isScalar f.2 = true)
    (h : ∀ f ∈ d, MilvusPlain t f) {p : b.Record → Prop}
    (hp : b.milvus (dictToMilvusExpr d) = some p) (record : b.Record) :
    p record ↔ ∀ f ∈ d, b.equals record f.1 f.2 := by
  rw [b.milvus_reads _ _ _ (readMilvus_dictToMilvusExpr hne hscalar h) hp,
    FilterExpr.Expr.holds_singleton, List.map_map, List.forall_mem_map]
  refine forall₂_congr fun f _ => ?_
  change b.equals record (String.ofList f.1.toList) f.2 ↔ _
  rw [String.ofList_toList]

theorem weaviate_honours (hscalar : ∀ f ∈ d, isScalar f.2 = true) {p : b.Record → Prop}
    (hp : allOf (d.map fun f => b.weaviate f.1 f.2) = some p) (record : b.Record) :
    p record ↔ ∀ f ∈ d, b.equals record f.1 f.2 :=
  allOf_map (fun f hf q hq => b.weaviate_equal f.1 f.2 q (hscalar f hf) hq) hp record

theorem pgvector_reads (hscalar : ∀ f ∈ d, isScalar f.2 = true)
    (hsafe : ∀ f ∈ d, safeColumn t.alnum f.1 = true) {p : b.Record → Prop}
    (hp : b.meaning (.pgvector (d.map fun f => columnClause f.1) (d.map Prod.snd)) = some p)
    (record : b.Record) : p record ↔ ∀ f ∈ d, f.2 ≠ .none ∧ b.equals record f.1 f.2 := by
  rw [Backends.meaning, List.zipWith_map, List.zipWith_self] at hp
  have hclause : ∀ f ∈ d, ∀ q, b.postgres (columnClause f.1) f.2 = some q →
      ∀ record, q record ↔ f.2 ≠ .none ∧ b.equals record f.1 f.2 := fun f hf q hq =>
    b.postgres_equal f.1 f.2 q (hsafe f hf) (hscalar f hf) hq
  exact allOf_map hclause hp record

theorem pgvector_honours (hscalar : ∀ f ∈ d, isScalar f.2 = true)
    (hsafe : ∀ f ∈ d, safeColumn t.alnum f.1 = true) (hnull : ∀ f ∈ d, f.2 ≠ .none)
    {p : b.Record → Prop}
    (hp : b.meaning (.pgvector (d.map fun f => columnClause f.1) (d.map Prod.snd)) = some p)
    (record : b.Record) : p record ↔ ∀ f ∈ d, b.equals record f.1 f.2 := by
  rw [pgvector_reads hscalar hsafe hp]
  exact forall₂_congr fun f hf => and_iff_right (hnull f hf)

theorem chroma_honours (hne : d ≠ []) (hscalar : ∀ f ∈ d, isScalar f.2 = true)
    {p : b.Record → Prop} (hp : b.chroma (.dict d) = some p) (record : b.Record) :
    p record ↔ ∀ f ∈ d, b.equals record f.1 f.2 := by
  obtain ⟨f, rest, rfl⟩ := List.exists_cons_of_ne_nil hne
  cases rest with
  | nil =>
      rw [b.chroma_equal f.1 f.2 p (hscalar f List.mem_cons_self) hp, List.forall_mem_singleton]
  | cons g rest =>
      rw [b.chroma_rejects (f :: g :: rest) (by simp)] at hp
      cases hp

end

theorem ne_nil_of_truthy {v : Value} {fields : List (String × Value)} (hflat : flat v = some fields)
    (h : v.truthy = true) : fields ≠ [] := by
  obtain ⟨rfl, -⟩ := flat_eq_some hflat
  rintro rfl
  cases h

/-- A filter that fits is honoured by its store. -/
theorem honoured_of_fits {b : Backends t} {provider : Provider} {v : Value}
    (h : Fits t provider v) : Honoured b provider v := by
  rcases h.kept with hnone | ⟨htruthy, hobject⟩
  · rcases hnone with rfl | rfl
    · cases provider <;> exact .inl rfl
    · cases provider <;> exact .inr rfl
  have hfits : ∀ fields, flat v = some fields → FlatFits t provider fields := fun fields hflat =>
    h.flat_fits fields hflat (ne_nil_of_truthy hflat htruthy)
  cases provider with
  | qdrant =>
      have hpred : predicate t.alnum .qdrant v = .ok (some (.qdrant v)) := by
        rw [predicate, if_pos htruthy]
      rw [Honoured, hpred]
      intro fields hflat p hp
      have hreject := hfits fields hflat
      obtain ⟨rfl, -⟩ := flat_eq_some hflat
      rw [Backends.meaning, b.qdrant_rejects fields hflat hreject] at hp
      cases hp
  | milvus =>
      cases v with
      | dict d =>
          have hpred : predicate t.alnum .milvus (.dict d) =
              .ok (some (.milvus (dictToMilvusExpr d))) := by
            rw [predicate, if_pos htruthy]
          rw [Honoured, hpred]
          intro fields hflat p hp
          have hplain := hfits fields hflat
          have hne := ne_nil_of_truthy hflat htruthy
          obtain ⟨heq, hscalar⟩ := flat_eq_some hflat
          cases heq
          exact milvus_honours hne hscalar hplain hp
      | str s =>
          have hpred : predicate t.alnum .milvus (.str s) = .ok (some (.milvus s)) := by
            rw [predicate, if_pos htruthy]
          rw [Honoured, hpred]
          intro fields hflat
          cases hflat
      | none => cases htruthy
      | _ =>
          simp only [Honoured, predicate, htruthy, if_true]
          trivial
  | weaviate =>
      rw [Honoured, predicate, if_pos htruthy]
      cases hfilters : dictToWeaviateFilter v with
      | error e => trivial
      | ok filters =>
          intro fields hflat p hp
          obtain ⟨rfl, hscalar⟩ := flat_eq_some hflat
          obtain ⟨f, rest, rfl⟩ := List.exists_cons_of_ne_nil (ne_nil_of_truthy hflat htruthy)
          cases hfilters
          exact weaviate_honours hscalar hp
  | pgvector =>
      obtain ⟨d, hd⟩ := Option.isSome_iff_exists.mp (hobject rfl)
      obtain rfl := Value.asDict_eq_some.mp hd
      cases d with
      | nil => cases htruthy
      | cons f rest =>
          rw [Honoured, predicate]
          cases hclauses : pgvectorClauses t.alnum (f :: rest) with
          | error e => trivial
          | ok r =>
              intro fields hflat p hp
              have hcolumns := hfits fields hflat
              obtain ⟨heq, hscalar⟩ := flat_eq_some hflat
              cases heq
              obtain ⟨rfl, hsafe⟩ := pgvectorClauses_ok hclauses
              rcases hcolumns with ⟨g, hg, hunsafe⟩ | hnull
              · rw [hsafe g hg] at hunsafe
                cases hunsafe
              · exact pgvector_honours hscalar hsafe hnull hp
  | chroma =>
      have hpred : predicate t.alnum .chroma v = .ok (some (.chroma v)) := by
        rw [predicate, if_pos htruthy]
      rw [Honoured, hpred]
      intro fields hflat p hp
      have hne := ne_nil_of_truthy hflat htruthy
      obtain ⟨rfl, hscalar⟩ := flat_eq_some hflat
      exact chroma_honours hne hscalar hp

/-- A filter that is honoured is not dropped. -/
theorem kept_of_honoured {b : Backends t} {provider : Provider} {v : Value}
    (h : Honoured b provider v) : Kept provider v := by
  by_contra hkept
  have hnone : ¬ NoFilter v := fun hv => hkept (.inl hv)
  have hpred : predicate t.alnum provider v = .ok none := by
    cases htruthy : v.truthy with
    | true =>
        have hprovider : provider = .pgvector ∧ v.asDict.isSome = false := by
          by_contra hcon
          refine hkept (.inr ⟨htruthy, fun hpg => ?_⟩)
          by_contra hobject
          exact hcon ⟨hpg, Bool.eq_false_of_not_eq_true hobject⟩
        obtain ⟨rfl, hobject⟩ := hprovider
        cases v <;> first | rfl | cases hobject
    | false =>
        cases provider with
        | pgvector =>
            cases v with
            | dict d =>
                cases d with
                | nil => exact absurd (.inr rfl) hnone
                | cons f d => cases htruthy
            | _ => rfl
        | _ => simp only [predicate, htruthy, Bool.false_eq_true, if_false]
  rw [Honoured, hpred] at h
  exact hnone h

/-! ## Stores that accept what they may -/

open Classical in
/-- A record is the fields and values that it has; a text that is not read is no condition. -/
noncomputable def laxStores (t : Texts) : Backends t where
  Record := String → Value → Prop
  equals record := record
  qdrant v := if ∃ d, flat v = some d ∧ QdrantRejects d then none else some fun _ => True
  milvus s := some fun record => ∀ e, t.readMilvus s = some e →
    e.Holds fun field => record (String.ofList field)
  weaviate key v := some fun record => record key v
  postgres clause v := some fun record => v ≠ .none ∧ ∀ key, clause = columnClause key → record key v
  chroma v :=
    if ∃ d, v = .dict d ∧ 1 < d.length then none
    else some fun record => ∀ key w, v = .dict [(key, w)] → record key w
  qdrant_rejects d hflat hreject := if_pos ⟨d, hflat, hreject⟩
  milvus_reads s e p hread hp record := by
    cases hp
    refine ⟨fun h => h e hread, fun h e' hread' => ?_⟩
    rw [hread] at hread'
    cases hread'
    exact h
  weaviate_equal key v p _ hp record := by
    cases hp
    rfl
  postgres_equal key v p _ _ hp record := by
    cases hp
    refine and_congr_right fun _ => ⟨fun h => h key rfl, fun h key' heq => ?_⟩
    rwa [← columnClause_inj heq]
  chroma_equal key v p _ hp record := by
    rw [if_neg] at hp
    · cases hp
      refine ⟨fun h => h key v rfl, fun h key' w heq => ?_⟩
      cases heq
      exact h
    · rintro ⟨d, heq, hlength⟩
      cases heq
      exact Nat.lt_irrefl 1 hlength
  chroma_rejects d hlength := if_pos ⟨d, rfl, hlength⟩

theorem truthy_of_flat {v : Value} {fields : List (String × Value)} (hflat : flat v = some fields)
    (hne : fields ≠ []) : v.truthy = true := by
  obtain ⟨rfl, -⟩ := flat_eq_some hflat
  obtain ⟨f, rest, rfl⟩ := List.exists_cons_of_ne_nil hne
  rfl

/-- A comparison that Milvus reads is that of a plain field and its value. -/
theorem milvusPlain_of_isRead {c : FilterExpr.Comparison Value}
    (h : c.IsRead (fun body => .str (String.ofList body)) t.constant) :
    MilvusPlain t (String.ofList c.field, c.value) := by
  obtain ⟨hfield, hvalue⟩ := h
  refine ⟨by rwa [String.toList_ofList], ?_⟩
  obtain ⟨field, v⟩ := c
  rcases hvalue with ⟨body, hquote, hescape, hv⟩ | ⟨cs, hconstant⟩
  · change v = _ at hv
    subst hv
    change '"' ∉ (String.ofList body).toList ∧ '\\' ∉ (String.ofList body).toList
    rw [String.toList_ofList]
    exact ⟨hquote, hescape⟩
  · change t.constant cs = some v at hconstant
    cases v with
    | none => exact (t.constant_value cs _ hconstant).1 rfl
    | str s => exact absurd rfl ((t.constant_value cs _ hconstant).2 s)
    | float x => exact t.constant_float cs x hconstant
    | bool b => trivial
    | int n => trivial
    | list xs => trivial
    | dict d => trivial

theorem allOf_isSome {R α : Type} {l : List α} {f : α → Option (R → Prop)}
    (h : ∀ x ∈ l, (f x).isSome = true) : ∃ p, allOf (l.map f) = some p := by
  induction l with
  | nil => exact ⟨_, rfl⟩
  | cons x l ih =>
      obtain ⟨hx, hl⟩ := List.forall_mem_cons.mp h
      obtain ⟨p, hp⟩ := Option.isSome_iff_exists.mp hx
      obtain ⟨q, hq⟩ := ih hl
      exact ⟨_, by rw [List.map_cons, allOf, hp, hq]; rfl⟩

theorem pgvectorClauses_of_safe {alnum : Char → Bool} {d : List (String × Value)}
    (h : ∀ f ∈ d, safeColumn alnum f.1 = true) :
    pgvectorClauses alnum d = .ok (d.map fun f => columnClause f.1, d.map Prod.snd) := by
  induction d with
  | nil => rfl
  | cons f d ih =>
      obtain ⟨hf, hd⟩ := List.forall_mem_cons.mp h
      rw [pgvectorClauses, if_pos hf, ih hd]
      rfl

/-- What the lax stores honour fits. -/
theorem fits_of_honoured {provider : Provider} {v : Value}
    (h : Honoured (laxStores t) provider v) : Fits t provider v := by
  refine ⟨kept_of_honoured h, fun fields hflat hne => ?_⟩
  have htruthy := truthy_of_flat hflat hne
  rw [Honoured] at h
  cases provider with
  | qdrant =>
      by_contra haccept
      rw [predicate, if_pos htruthy] at h
      have hmeaning : (laxStores t).meaning (.qdrant v) = some fun _ => True := by
        refine if_neg ?_
        rintro ⟨d, hd, hreject⟩
        rw [hflat] at hd
        cases hd
        exact haccept hreject
      -- No field of this record equals anything.
      obtain ⟨f, rest, rfl⟩ := List.exists_cons_of_ne_nil hne
      exact (h _ hflat _ hmeaning fun _ _ => False).mp trivial f List.mem_cons_self
  | milvus =>
      intro f hf
      by_contra hplain
      obtain ⟨rfl, -⟩ := flat_eq_some hflat
      rw [predicate, if_pos htruthy] at h
      -- Every field of this record equals everything but `f` its value.
      refine (h _ hflat _ rfl fun k w => (k, w) ≠ f).mp (fun e hread => ?_) f hf rfl
      obtain ⟨hne, hall⟩ := FilterExpr.isRead_of_readFrom hread
      obtain ⟨conj, rest, rfl⟩ := List.exists_cons_of_ne_nil hne
      refine ⟨conj, List.mem_cons_self, fun c hc heq => hplain ?_⟩
      rw [← heq]
      exact milvusPlain_of_isRead (hall conj List.mem_cons_self c hc)
  | pgvector =>
      by_contra hcolumns
      obtain ⟨hsafe, hnull⟩ := not_or.mp hcolumns
      obtain ⟨rfl, hscalar⟩ := flat_eq_some hflat
      have hsafe : ∀ f ∈ fields, safeColumn t.alnum f.1 = true := fun f hf =>
        Bool.eq_true_of_not_eq_false fun hunsafe => hsafe ⟨f, hf, hunsafe⟩
      obtain ⟨g, rest, rfl⟩ := List.exists_cons_of_ne_nil hne
      have hpred : predicate t.alnum .pgvector (.dict (g :: rest)) =
          .ok (some (.pgvector ((g :: rest).map fun f => columnClause f.1)
            ((g :: rest).map Prod.snd))) := by
        rw [predicate, pgvectorClauses_of_safe hsafe]
        rfl
      rw [hpred] at h
      obtain ⟨p, hp⟩ := allOf_isSome (l := g :: rest)
        (f := fun f => (laxStores t).postgres (columnClause f.1) f.2) fun _ _ => rfl
      have hmeaning : (laxStores t).meaning (.pgvector ((g :: rest).map fun f => columnClause f.1)
          ((g :: rest).map Prod.snd)) = some p := by
        rw [Backends.meaning, List.zipWith_map, List.zipWith_self]
        exact hp
      -- Every field of this record equals everything.
      have hall := (h _ hflat p hmeaning fun _ _ => True).mpr fun _ _ => trivial
      refine hnull fun f hf => ?_
      exact ((pgvector_reads hscalar hsafe hmeaning _).mp hall f hf).1
  | weaviate => trivial
  | chroma => trivial

/-! ## The searches that are issued -/

section

variable {env : VectorEnv} {cfg : Settings} {vars : Variables} {item : Value}
  {items : List Value} {req : Request} {log : List Request}

def IsFor (cfg : Settings) (req : Request) : Prop :=
  req.provider = cfg.provider ∧ req.queryFilter = cfg.queryFilter

theorem isFor_of_request {word : Char → Bool} (h : request word cfg vars item = .ok req) :
    IsFor cfg req := by
  rw [request] at h
  cases hv : itemVector cfg item with
  | error exc =>
      rw [hv] at h
      cases h
  | ok vector =>
      rw [hv] at h
      cases h
      exact ⟨rfl, rfl⟩

theorem searchItem_error (env : VectorEnv) {exc : NodeError}
    (h : request env.word cfg vars item = .error exc) (log : List Request) : searchItem env cfg vars item log = (log, .error exc) := by
  rw [searchItem, h]

theorem searchItem_ok (h : request env.word cfg vars item = .ok req) (log : List Request) :
    (searchItem env cfg vars item log).1 = log ++ [req] ∧
      ((∀ hits, env.search log req ≠ .found hits) →
        ∃ exc, searchItem env cfg vars item log = (log ++ [req], .error exc)) := by
  simp only [searchItem, h]
  cases hsearch : env.search log req with
  | found hits => exact ⟨rfl, fun hnone => absurd rfl (hnone hits)⟩
  | importError text => exact ⟨rfl, fun _ => ⟨_, rfl⟩⟩
  | raised exc => exact ⟨rfl, fun _ => ⟨_, rfl⟩⟩

/-- Every search has the provider and the filter of the settings. -/
theorem searchLoop_log (env : VectorEnv) (cfg : Settings) (vars : Variables) (items : List Value)
    (log : List Request) (results : List Value) :
    ∃ reqs, (searchLoop env cfg vars items log results).1 = log ++ reqs ∧
      ∀ req ∈ reqs, IsFor cfg req := by
  induction items generalizing log results with
  | nil => exact ⟨[], (List.append_nil log).symm, fun req h => by cases h⟩
  | cons item items ih =>
      rw [searchLoop]
      cases hreq : request env.word cfg vars item with
      | error exc =>
          rw [searchItem_error env hreq]
          exact ⟨[], (List.append_nil log).symm, fun req h => by cases h⟩
      | ok req =>
          have hfor := isFor_of_request hreq
          have hlog := (searchItem_ok hreq log).1
          have hone : ∃ reqs, log ++ [req] = log ++ reqs ∧ ∀ req ∈ reqs, IsFor cfg req :=
            ⟨[req], rfl, List.forall_mem_singleton.mpr hfor⟩
          split
          next log' exc heq =>
            rw [heq] at hlog
            rwa [show log' = log ++ [req] from hlog]
          next log' hits heq =>
            rw [heq] at hlog
            obtain rfl : log' = log ++ [req] := hlog
            split
            · exact hone
            · obtain ⟨reqs, hloop, hall⟩ := ih (log ++ [req]) (results ++ hits)
              refine ⟨req :: reqs, ?_, List.forall_mem_cons.mpr ⟨hfor, hall⟩⟩
              rw [hloop, List.append_assoc, List.singleton_append]

/-- The first item is searched for first, and alone if that search fails. -/
theorem searchLoop_first (env : VectorEnv) (items : List Value)
    (h : request env.word cfg vars item = .ok req) (log : List Request) (results : List Value) :
    (∃ later, (searchLoop env cfg vars (item :: items) log results).1 = log ++ req :: later) ∧
      ((∀ hits, env.search log req ≠ .found hits) →
        (searchLoop env cfg vars (item :: items) log results).1 = log ++ [req]) := by
  obtain ⟨hlog, hfail⟩ := searchItem_ok h log
  refine ⟨?_, fun hnone => ?_⟩
  · rw [searchLoop]
    split
    next log' exc heq =>
      rw [heq] at hlog
      exact ⟨[], hlog⟩
    next log' hits heq =>
      rw [heq] at hlog
      obtain rfl : log' = log ++ [req] := hlog
      split
      · exact ⟨[], rfl⟩
      · obtain ⟨reqs, hreqs⟩ := searchLoop_log env cfg vars items (log ++ [req]) (results ++ hits)
        exact ⟨reqs, by rw [hreqs.1, List.append_assoc, List.singleton_append]⟩
  · obtain ⟨exc, heq⟩ := hfail hnone
    rw [searchLoop, heq]

end

/-! ## Main results -/

section

variable {c : Clients} {alnum : Char → Bool} {provider : Provider} {log : List Request}
  {req : Request}

theorem issue_of_reaches (h : Reaches c alnum provider log req) :
    issue c log req alnum provider = built alnum provider req.queryFilter := by
  obtain ⟨himported, hvector, htable, hopened⟩ := h
  cases provider with
  | weaviate => simp [issue, himported, hopened, bind, Except.bind]
  | chroma => simp [issue, himported, hopened, bind, Except.bind]
  | qdrant =>
      obtain ⟨v, hv, -⟩ := hvector (by decide)
      simp [issue, himported, hv, hopened, bind, Except.bind]
  | milvus =>
      obtain ⟨v, hv, -⟩ := hvector (by decide)
      simp [issue, himported, hv, hopened, bind, Except.bind]
  | pgvector =>
      obtain ⟨v, hv, hfloats⟩ := hvector (by decide)
      obtain ⟨xs, hxs⟩ := hfloats rfl
      simp only [issue, himported, hv, hxs, htable rfl, hopened, bind, Except.bind, pure,
        Except.pure, Bool.true_eq_false, if_false]
      cases built alnum .pgvector req.queryFilter <;> rfl

theorem reaches_of_issue {pred : Option Predicate}
    (h : issue c log req alnum provider = .ok pred) :
    Reaches c alnum provider log req ∧ built alnum provider req.queryFilter = .ok pred := by
  have hreaches : Reaches c alnum provider log req := by
    cases provider with
    | weaviate | chroma =>
        obtain ⟨_, himported, h⟩ := ok_of_bind h
        obtain ⟨_, hopened, -⟩ := ok_of_bind h
        exact ⟨himported, fun hmem => absurd hmem (by decide), fun heq => (by cases heq), hopened⟩
    | qdrant | milvus =>
        obtain ⟨_, himported, h⟩ := ok_of_bind h
        obtain ⟨v, hv, h⟩ := ok_of_bind h
        obtain ⟨_, hopened, -⟩ := ok_of_bind h
        exact ⟨himported, fun _ => ⟨v, hv, fun heq => by cases heq⟩, fun heq => (by cases heq),
          hopened⟩
    | pgvector =>
        obtain ⟨_, himported, h⟩ := ok_of_bind h
        obtain ⟨v, hv, h⟩ := ok_of_bind h
        obtain ⟨htable, h⟩ := refuse_eq_ok.mp h
        obtain ⟨xs, hxs, h⟩ := ok_of_bind h
        obtain ⟨_, -, h⟩ := ok_of_bind h
        obtain ⟨_, hopened, -⟩ := ok_of_bind h
        exact ⟨himported, fun _ => ⟨v, hv, fun _ => ⟨xs, hxs⟩⟩,
          fun _ => Bool.eq_true_of_not_eq_false htable, hopened⟩
  refine ⟨hreaches, ?_⟩
  rwa [issue_of_reaches hreaches] at h

theorem meets_built {b : Backends t} {v : Value} :
    Meets b v (built t.alnum provider v) ↔ Honoured b provider v := by
  rw [Honoured, built]
  cases predicate t.alnum provider v with
  | error e => exact Iff.rfl
  | ok pred => cases pred <;> exact Iff.rfl

theorem meets_issue_of_fits {b : Backends t} (h : Fits t provider req.queryFilter) :
    Meets b req.queryFilter (issue c log req t.alnum provider) := by
  cases hissue : issue c log req t.alnum provider with
  | error failure => trivial
  | ok pred =>
      have hmeets := meets_built.mpr (honoured_of_fits (b := b) h)
      rwa [(reaches_of_issue hissue).2] at hmeets

/-- A search that is not issued finds nothing. -/
theorem search_of_issue_error {failure : Failure}
    (hprovider : searchers req.provider = some provider)
    (h : issue c log req alnum provider = .error failure) (hits : List Value) :
    c.search log req alnum ≠ .found hits := by
  rw [Clients.search, hprovider]
  simp only [h]
  cases failure <;> exact fun heq => by cases heq

end

/-- Where the first search of a node reaches its store, the filter of the settings is honoured. -/
theorem honoured_of_honours {b : Backends t} {c : Clients} {word : Char → Bool}
    {loads : String → Agent.Loaded} {ctx : NodeContext} (h : Honours b c word loads ctx)
    {cfg : Settings} (hcfg : prepare loads ctx.config = .ok cfg) {item : Value}
    (hitem : item ∈ (searchedItems ctx).head?) {req : Request}
    (hreq : request word cfg ctx.vars item = .ok req) {provider : Provider}
    (hprovider : searchers cfg.provider = some provider)
    (hreaches : Reaches c t.alnum provider [] req) : Honoured b provider cfg.queryFilter := by
  let env := c.env t.alnum word loads
  obtain ⟨items, hitems⟩ := List.head?_eq_some_iff.mp hitem
  obtain ⟨hsame, hfilter⟩ := isFor_of_request hreq
  obtain ⟨later, hlater⟩ := (searchLoop_first env items hreq [] []).1
  have hlog : (VectorSearch.execute env ctx).1 = [] ++ req :: later := by
    rw [VectorSearch.execute_of_prepare env hcfg, hitems]
    exact hlater
  have hmeets := h [] req later hlog provider (by rw [hsame, hprovider])
  rwa [issue_of_reaches hreaches, meets_built, hfilter] at hmeets

/-- A node honours its filter with all stores that evaluate predicates as they are documented if
and only if, unless its first search fails before a predicate is issued, the filter fits the
provider that is searched. -/
theorem honours_iff (t : Texts) (c : Clients) (word : Char → Bool) (loads : String → Agent.Loaded)
    (ctx : NodeContext) :
    (∀ b : Backends t, Honours b c word loads ctx) ↔
      ∀ cfg, prepare loads ctx.config = .ok cfg →
        ∀ item ∈ (searchedItems ctx).head?, ∀ req, request word cfg ctx.vars item = .ok req →
          ∀ provider, searchers cfg.provider = some provider →
            Reaches c t.alnum provider [] req → Fits t provider cfg.queryFilter := by
  obtain ⟨item, items, hitems⟩ := VectorSearch.searchedItems_cons ctx
  let env := c.env t.alnum word loads
  have hexecute : ∀ cfg, prepare loads ctx.config = .ok cfg →
      (VectorSearch.execute env ctx).1 = (searchLoop env cfg ctx.vars (item :: items) [] []).1 := by
    intro cfg hcfg
    rw [VectorSearch.execute_of_prepare env hcfg, hitems]
    rfl
  constructor
  · intro h cfg hcfg first hfirst req hreq provider hprovider hreaches
    exact fits_of_honoured
      (honoured_of_honours (h (laxStores t)) hcfg hfirst hreq hprovider hreaches)
  · intro h b log req later hlog provider hprovider
    cases hcfg : prepare loads ctx.config with
    | error exc =>
        have hnone : (VectorSearch.execute env ctx).1 = [] := by
          have hprepare : prepare env.loads ctx.config = .error exc := hcfg
          rw [VectorSearch.execute, hprepare]
        rw [show c.env t.alnum word loads = env from rfl, hnone] at hlog
        simp at hlog
    | ok cfg =>
        have hloop := (hexecute cfg hcfg).symm.trans hlog
        obtain ⟨reqs, hreqs, hall⟩ := searchLoop_log env cfg ctx.vars (item :: items) [] []
        obtain ⟨hsame, hfilter⟩ : IsFor cfg req :=
          hall req (by rw [← List.nil_append reqs, ← hreqs, hloop]; simp)
        cases hreq : request word cfg ctx.vars item with
        | error exc =>
            have hnone : (searchLoop env cfg ctx.vars (item :: items) [] []).1 = [] := by
              rw [searchLoop, searchItem_error env hreq]
            rw [hnone] at hloop
            simp at hloop
        | ok first =>
            obtain ⟨hfirst, -⟩ := isFor_of_request hreq
            obtain ⟨⟨others, hothers⟩, halone⟩ := searchLoop_first env items hreq [] []
            cases hissue : issue c [] first t.alnum provider with
            | ok pred =>
                refine meets_issue_of_fits ?_
                rw [hfilter]
                exact h cfg hcfg item (by simp [hitems]) first hreq provider
                  (by rw [← hsame, hprovider]) (reaches_of_issue hissue).1
            | error failure =>
                -- the first search was not issued, and the node has ended with it
                have hone := halone fun hits => search_of_issue_error
                  (by rw [hfirst, ← hsame, hprovider]) hissue hits
                rw [hone] at hloop
                obtain ⟨rfl, rfl, -⟩ : log = [] ∧ req = first ∧ later = [] := by
                  cases log with
                  | nil => simpa [eq_comm] using hloop
                  | cons r log => simp at hloop
                rw [hissue]
                trivial

/-- The integer of its own text -/
def readInt : List Char → Int
  | '-' :: cs => -(Nat.ofDigitChars 10 cs 0 : Int)
  | cs => Nat.ofDigitChars 10 cs 0

theorem readInt_toString (n : Int) : readInt (toString n).toList = n := by
  cases n with
  | ofNat k =>
      have htext : (toString (Int.ofNat k)).toList = Nat.toDigits 10 k := Nat.toList_repr
      have hminus : ∀ cs, Nat.toDigits 10 k ≠ '-' :: cs := by
        intro cs hcs
        have hdigit := Nat.isDigit_of_mem_toDigits (n := k) (b := 10) (c := '-') (by decide)
          (by decide) (hcs ▸ List.mem_cons_self)
        exact absurd hdigit (by decide)
      rw [htext, readInt, Nat.ofDigitChars_ten_toDigits]
      · rfl
      · exact hminus
  | negSucc k =>
      have htext : (toString (Int.negSucc k)).toList = '-' :: Nat.toDigits 10 (k + 1) := by
        change ("-" ++ Nat.repr (k + 1)).toList = _
        rw [String.toList_append, Nat.toList_repr]
        rfl
      rw [htext, readInt, Nat.ofDigitChars_ten_toDigits]
      rfl

/-- The constants are `True`, `False` and the integers as they are written. -/
def plainConstant (cs : List Char) : Option Value :=
  if cs = "True".toList then some (.bool true)
  else if cs = "False".toList then some (.bool false)
  else if (toString (readInt cs)).toList = cs then some (.int (readInt cs))
  else none

theorem plainConstant_eq_some {cs : List Char} {v : Value} (h : plainConstant cs = some v) :
    (cs = "True".toList ∨ cs = "False".toList) ∧ (∃ b, v = .bool b) ∨
      ∃ n : Int, cs = (toString n).toList ∧ v = .int n := by
  unfold plainConstant at h
  split at h
  next htrue =>
    cases h
    exact .inl ⟨.inl htrue, true, rfl⟩
  next =>
    split at h
    next hfalse =>
      cases h
      exact .inl ⟨.inr hfalse, false, rfl⟩
    next =>
      split at h
      next htext =>
        cases h
        exact .inr ⟨_, htext.symm, rfl⟩
      next => cases h

/-- The text of an integer is neither of the words. -/
theorem toString_int_ne_word (n : Int) :
    (toString n).toList ≠ "True".toList ∧ (toString n).toList ≠ "False".toList := by
  obtain ⟨c, cs, hcs, hdigits⟩ := toString_int_chars n
  have hhead : c ≠ 'T' ∧ c ≠ 'F' := by
    rcases hdigits c List.mem_cons_self with h | rfl
    · constructor
      · rintro rfl
        cases h
      · rintro rfl
        cases h
    · decide
  rw [hcs]
  exact ⟨fun h => hhead.1 (List.cons.inj h).1, fun h => hhead.2 (List.cons.inj h).1⟩

def plainTexts : Texts where
  alnum := Char.isAlphanum
  constant := plainConstant
  constant_int n := by
    obtain ⟨htrue, hfalse⟩ := toString_int_ne_word n
    simp only [plainConstant, if_neg htrue, if_neg hfalse, readInt_toString, if_true]
  constant_bool b := by
    cases b with
    | true => simp [plainConstant, Value.text, Value.repr]
    | false => simp [plainConstant, Value.text, Value.repr]
  constant_chars cs v h := by
    rcases plainConstant_eq_some h with ⟨rfl | rfl, -⟩ | ⟨n, rfl, -⟩
    · decide
    · decide
    · obtain ⟨c, cs, hcs, hdigits⟩ := toString_int_chars n
      rw [hcs]
      refine ⟨List.cons_ne_nil c cs, fun h => ?_, fun h => ?_⟩
      · rcases hdigits _ h with h | h <;> exact absurd h (by decide)
      · rcases hdigits _ h with h | h <;> exact absurd h (by decide)
  constant_value cs v h := by
    rcases plainConstant_eq_some h with ⟨-, b, rfl⟩ | ⟨n, -, rfl⟩
    · exact ⟨fun h => (by cases h), fun s h => (by cases h)⟩
    · exact ⟨fun h => (by cases h), fun s h => (by cases h)⟩
  constant_float cs x h := by
    rcases plainConstant_eq_some h with ⟨-, b, h⟩ | ⟨n, -, h⟩
    · cases h
    · cases h

/-- The tenant's name closes its quotes and goes on with another condition. -/
def quotedTenant : List (String × Value) := [("tenant", .str "acme\" or tenant == \"globex")]

def tenantSearch : NodeContext :=
  { VectorSearch.questions with
    config := [("provider", .str "milvus"), ("url", .str "http://vector-db"),
      ("collection", .str "documents"), ("query_text", .str "invoices"),
      ("filter", .dict quotedTenant)] }

def tenantSettings : Settings where
  provider := "milvus"
  url := "http://vector-db"
  apiKey := .str ""
  collection := "documents"
  topK := 5
  rawQuery := "invoices"
  vecField := ""
  queryFilter := .dict quotedTenant

/-- Clients that are all there, and stores that find nothing -/
def openClients : Clients where
  imports _ _ _ := .ok ()
  embed _ _ := .ok (.list [])
  opens _ _ _ := .ok ()
  answers _ _ := .found []

def tenantRequest : Request where
  provider := "milvus"
  url := "http://vector-db"
  apiKey := .str ""
  collection := "documents"
  queryText := "invoices"
  vector := none
  topK := 5
  queryFilter := .dict quotedTenant

/-- The predicate of this search is satisfied by another tenant's records. -/
theorem filter_widened : ¬ ∀ (t : Texts) (b : Backends t) c word loads ctx,
    Honours b c word loads ctx := by
  intro h
  have hprepare : prepare (fun _ => .decodeError) tenantSearch.config = .ok tenantSettings := by
    rfl
  have hrequest : request Char.isAlphanum tenantSettings tenantSearch.vars
      (.dict [("question", .str "Who?")]) = .ok tenantRequest := by
    rfl
  have hreaches : Reaches openClients plainTexts.alnum .milvus [] tenantRequest :=
    ⟨rfl, fun _ => ⟨.list [], rfl, fun heq => by cases heq⟩, fun heq => (by cases heq), rfl⟩
  have hhonoured := honoured_of_honours (h plainTexts (laxStores plainTexts) openClients
    Char.isAlphanum (fun _ => .decodeError) tenantSearch) hprepare rfl hrequest rfl hreaches
  have hfits := (fits_of_honoured hhonoured).flat_fits quotedTenant rfl (List.cons_ne_nil _ _)
  exact (hfits _ List.mem_cons_self).2.1 (by decide)

end VectorFilters

end CitraFlows
