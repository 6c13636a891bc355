-- SUMMARY: The rules engine over the processing modes: the items it puts out, their ranks, and that the mode makes no difference to them.
import CitraFlows.Budget.Runs
import CitraFlows.Lib.StableSort
import CitraFlows.Nodes.RulesDecision
import CitraFlows.Nodes.Verdicts
import Mathlib.Data.Prod.Lex

/-!
# The rules engine

`RulesEngineNode.execute` evaluates its items, all at once, one by one or in batches, sorts and
ranks what comes out of each group, and then sorts and ranks it all once more. The evaluation of a
record depends on the record alone when no model is asked, and both sorts are stable.

Not modelled: floats that are no numbers, and integers too large for a float.
-/

namespace CitraFlows

open LlmBudget (extractItems batches)
open RulesText (Reader Condition toNumber parseRules tryDeterministicEval evalRecord evalRecords)
open StableSort (sortBy)

namespace RulesEngine

/-! ## One group -/

section

variable (r : Reader)

/-- `int(n)` of a float -/
def truncate (n : Rat) : Int := n.num.tdiv n.den

/-- `_extract_score` -/
def extractScore (item : Entries) : Int :=
  ((["_score", "score", "evaluation info", "evaluation_info"].findSome? fun key =>
    (Value.field item key).bind (toNumber r)).map truncate).getD 0

/-- `_status` and `_score` -/
def addScore (enriched : Entries) : Entries :=
  let passed := (Value.field enriched "_rule_passed").getD (.bool false)
  let enriched := enriched.put "_status" (.str (if passed.truthy then "Selected" else "Rejected"))
  enriched.put "_score" (.int (extractScore r enriched))

/-- `rec.get("_rule_passed")`, as a truth value -/
def passed (record : Entries) : Bool := (Value.getD record "_rule_passed").truthy

/-- `rec.get("_score") or 0`; the node has set it to an integer. -/
def score (record : Entries) : Int :=
  match Value.getD record "_score" with
  | .int n => n
  | _ => 0

/-- `_to_number(rec.get("salary expectation", rec.get("salary", 9999))) or 9999` -/
def salary (record : Entries) : Rat :=
  let configured := (Value.field record "salary expectation").getD
    ((Value.field record "salary").getD (.int 9999))
  match toNumber r configured with
  | some n => if n = 0 then 9999 else n
  | none => 9999

/-- `_sort_key`, which is `_global_sort_key` as well -/
def sortKey (record : Entries) : ℕ ×ₗ (ℤ ×ₗ ℚ) :=
  toLex (if passed record then 0 else 1, toLex (-score record, salary r record))

/-- `for rank, rec in enumerate(merged, rank): rec["_rank"] = rank` -/
def rankFrom (rank : Nat) : List Entries → List Entries
  | [] => []
  | record :: records => record.put "_rank" (.int rank) :: rankFrom (rank + 1) records

def sortAndRank (records : List Entries) : List Entries := rankFrom 1 (sortBy (sortKey r) records)

end

/-- What the node depends on: how texts and numbers are read, the limit on per-item processing,
and `evals_list` where a model is asked. -/
structure RulesWorld where
  reader : Reader
  maxPerItemFanout : Nat
  ask : NodeContext → List Value → Except NodeError (List Value)

/-- The `items` and the `meta` of a result -/
structure Processed where
  items : List Value
  info : Entries

def Processed.toValue (result : Processed) : Value :=
  .dict [("items", .list result.items), ("meta", .dict result.info)]

def raised (exc : PyError) : NodeError := { message := exc.message }

/-- `evals_list` -/
def evaluations (world : RulesWorld) (ctx : NodeContext) (items : List Value) :
    Except NodeError (List Value) :=
  match Value.field ctx.config "rules" with
  | none => .error (raised (.keyError "rules"))
  | some (.str rules) =>
      match tryDeterministicEval world.reader rules items with
      | some results => .ok results
      | none => world.ask ctx items
  | some v => .error (raised (.attributeError v.typeName "strip"))

/-- `_process` -/
def process (world : RulesWorld) (ctx : NodeContext) (items : List Value) :
    Except NodeError Processed := do
  let evals ← evaluations world ctx items
  let merged ← (Verdicts.merge Verdicts.ruleFields evals items).mapError raised
  let ranked := sortAndRank world.reader (merged.map (addScore world.reader))
  return { items := ranked.map .dict, info := [("total", .int items.length)] }

/-! ## The modes -/

def fanoutError (limit n : Nat) (mode : Value) : NodeError where
  message := "Per-item processing received " ++ toString n ++ " items in '" ++ mode.text ++
    "' mode, exceeding the fan-out cap of " ++ toString limit ++ ". Filter or aggregate " ++
    "upstream, switch to 'all' mode, or raise WF_MAX_PER_ITEM_FANOUT if this volume is " ++
    "intentional."

/-- The results of the groups, in their order -/
def runGroups (process : List Value → Except NodeError Processed) :
    List (List Value) → Except NodeError (List Processed)
  | [] => .ok []
  | group :: groups => do
      let result ← process group
      let results ← runGroups process groups
      return result :: results

def flatten (results : List Processed) : List Value := results.flatMap (·.items)

/-- `_run_per_item` -/
def runPerItem (maxPerItemFanout : Nat) (ctx : NodeContext)
    (process : List Value → Except NodeError Processed) : Except NodeError Processed :=
  let mode := (Value.field ctx.config "processing_mode").getD (.str "all")
  let items := extractItems ctx.inputData
  if mode.eqStr "all" ∨ items.length ≤ 1 then process items
  else if maxPerItemFanout < items.length then
    .error (fanoutError maxPerItemFanout items.length mode)
  else if mode.eqStr "each" then do
    let results ← runGroups process (items.map ([·]))
    return {
      items := flatten results
      info := [("processing_mode", .str "each"), ("total", .int (flatten results).length)] }
  else
    let configured := (Value.field ctx.config "batch_size").getD (.int 10)
    match configured.toInt with
    | none => .error { message := Agent.intError configured }
    | some n => do
        let size := (max 1 n).toNat
        let groups := batches size items.length items
        let results ← runGroups process groups
        return {
          items := flatten results
          info := [("processing_mode", .str "batch"), ("batch_size", .int size),
            ("total_batches", .int groups.length)] }

/-- The records of a list, on which `rec.get` is called -/
def records : List Value → Except NodeError (List Entries)
  | [] => .ok []
  | .dict record :: items => do
      let rest ← records items
      return record :: rest
  | v :: _ => .error (raised (.attributeError v.typeName "get"))

/-- `RulesEngineNode.execute` -/
def execute (world : RulesWorld) (ctx : NodeContext) : Except NodeError Value := do
  let result ← runPerItem world.maxPerItemFanout ctx (process world ctx)
  if result.items.length > 1 then
    let all ← records result.items
    return { result with items := (sortAndRank world.reader all).map .dict : Processed }.toValue
  else return result.toValue

/-! ## A record is evaluated by itself -/

section

variable (r : Reader) (conditions : List Condition)

/-- A record with its verdict -/
def judged (item : Value) : Entries :=
  let enriched : Entries := item.asDict.getD []
  (enriched.put "_rule_passed" (.bool (evalRecord r conditions item).1)).put
    "_rule_reason" (.str (evalRecord r conditions item).2)

/-- A record as it is sorted -/
def evaluated (item : Value) : Entries := addScore r (judged r conditions item)

/-- The verdict on a record is found by its index. -/
theorem findVerdict_evalRecords {items : List Value} {item : Value} (k j : Nat)
    (h : items[j]? = some item) :
    Verdicts.findVerdict (k + j) (evalRecords r conditions k items) =
      .ok (some [("record_index", .int ((k + j : Nat))),
        ("passed", .bool (evalRecord r conditions item).1),
        ("reason", .str (evalRecord r conditions item).2)]) := by
  induction items generalizing k j with
  | nil => cases h
  | cons item' items ih =>
      rw [evalRecords, Verdicts.findVerdict]
      cases j with
      | zero =>
          cases h
          rw [if_pos (by simp [Verdicts.names, Value.getD, Value.field])]
          rfl
      | succ j =>
          rw [if_neg (by simp [Verdicts.names, Value.getD, Value.field]; omega),
            show k + (j + 1) = k + 1 + j by omega]
          exact ih (k + 1) j h

theorem evalRecords_asDict {items : List Value} (k : Nat) :
    ∀ v ∈ evalRecords r conditions k items, v.asDict.isSome = true := by
  induction items generalizing k with
  | nil =>
      intro v hv
      cases hv
  | cons item items ih =>
      intro v hv
      rcases List.mem_cons.mp hv with rfl | hv
      · rfl
      · exact ih (k + 1) v hv

theorem merge_evalRecords (items : List Value) :
    Verdicts.merge Verdicts.ruleFields (evalRecords r conditions 0 items) items =
      .ok (items.map (judged r conditions)) := by
  obtain ⟨merged, hmerged⟩ : ∃ merged, Verdicts.merge Verdicts.ruleFields
      (evalRecords r conditions 0 items) items = .ok merged :=
    Verdicts.mergeFrom_ok (evalRecords_asDict r conditions 0) 0
  obtain ⟨hlength, hget⟩ := Verdicts.mergeFrom_getElem hmerged
  rw [hmerged]
  refine congrArg _ (List.ext_getElem? fun i => ?_)
  rw [List.getElem?_map]
  cases hitem : items[i]? with
  | none =>
      rw [Option.map_none, List.getElem?_eq_none_iff, hlength]
      exact List.getElem?_eq_none_iff.mp hitem
  | some item =>
      obtain ⟨enriched, hrecord, hat⟩ := hget i item hitem
      rw [Verdicts.mergeRecord, Verdicts.verdictFor,
        findVerdict_evalRecords r conditions 0 i hitem] at hrecord
      cases hrecord
      exact hat

/-- What a group of items gives -/
def ranked (items : List Value) : List Entries :=
  sortAndRank r (items.map (evaluated r conditions))

end

/-- The rules of the node are decided without a model. -/
def Deterministic (world : RulesWorld) (ctx : NodeContext) (conditions : List Condition) : Prop :=
  ∃ rules, Value.field ctx.config "rules" = some (.str rules) ∧
    parseRules world.reader rules = some conditions

theorem process_eq {world : RulesWorld} {ctx : NodeContext} {conditions : List Condition}
    (h : Deterministic world ctx conditions) (items : List Value) :
    process world ctx items = .ok
      { items := (ranked world.reader conditions items).map .dict
        info := [("total", .int items.length)] } := by
  obtain ⟨rules, hrules, hparse⟩ := h
  have hevals : evaluations world ctx items = .ok (evalRecords world.reader conditions 0 items) := by
    simp only [evaluations, hrules, tryDeterministicEval, hparse, Option.map_some]
  simp only [process, hevals, bind, Except.bind, merge_evalRecords, Except.mapError, List.map_map]
  rfl

/-! ## Ranks do not matter for sorting -/

section

variable (r : Reader)

theorem put_put (key : String) (v w : Value) (d : Entries) :
    Entries.put key v (Entries.put key w d) = Entries.put key v d := by
  induction d with
  | nil => simp [Entries.put]
  | cons p d ih =>
      obtain ⟨k, u⟩ := p
      by_cases hk : k = key
      · simp [Entries.put, hk]
      · simp [Entries.put, hk, ih]

/-- The same record, but for its rank -/
def SameButRank (a b : Entries) : Prop :=
  ∀ rank : Value, Entries.put "_rank" rank a = Entries.put "_rank" rank b

section

variable (rank : Value) (record : Entries)

@[simp] theorem passed_put_rank : passed (record.put "_rank" rank) = passed record := by
  simp [passed, Entries.getD_put_of_ne]

@[simp] theorem score_put_rank : score (record.put "_rank" rank) = score record := by
  simp [score, Entries.getD_put_of_ne]

@[simp] theorem salary_put_rank : salary r (record.put "_rank" rank) = salary r record := by
  simp [salary, Entries.field_put_of_ne]

theorem sortKey_put_rank : sortKey r (record.put "_rank" rank) = sortKey r record := by
  rw [sortKey, sortKey, passed_put_rank, score_put_rank, salary_put_rank]

end

theorem SameButRank.sortKey_eq {a b : Entries} (h : SameButRank a b) :
    sortKey r a = sortKey r b := by
  rw [← sortKey_put_rank r .none a, h .none, sortKey_put_rank]

theorem rankFrom_same (rank : Nat) (l : List Entries) :
    List.Forall₂ SameButRank (rankFrom rank l) l := by
  induction l generalizing rank with
  | nil => exact .nil
  | cons a l ih => exact .cons (fun v => put_put "_rank" v _ a) (ih (rank + 1))

theorem rankFrom_congr {l l' : List Entries} (h : List.Forall₂ SameButRank l l') (rank : Nat) :
    rankFrom rank l = rankFrom rank l' := by
  induction h generalizing rank with
  | nil => rfl
  | cons hab _ ih => rw [rankFrom, rankFrom, hab, ih]

theorem length_rankFrom (rank : Nat) (l : List Entries) : (rankFrom rank l).length = l.length :=
  (rankFrom_same rank l).length_eq

/-- Sorting and ranking groups first makes no difference. -/
theorem sortAndRank_flatten (groups : List (List Entries)) :
    sortAndRank r (groups.map (sortAndRank r)).flatten = sortAndRank r groups.flatten := by
  have hsame : List.Forall₂ SameButRank (groups.map (sortAndRank r)).flatten
      (groups.map (sortBy (sortKey r))).flatten := by
    induction groups with
    | nil => exact .nil
    | cons group groups ih => exact List.rel_append (rankFrom_same 1 _) ih
  have hsorted := StableSort.sortBy_forall₂ (fun a b h => SameButRank.sortKey_eq r h) hsame
  rw [sortAndRank, rankFrom_congr hsorted, StableSort.sortBy_flatten]
  rfl

end

/-! ## The modes -/

theorem runGroups_eq {process : List Value → Except NodeError Processed}
    {result : List Value → Processed} {groups : List (List Value)}
    (h : ∀ group ∈ groups, process group = .ok (result group)) :
    runGroups process groups = .ok (groups.map result) := by
  induction groups with
  | nil => rfl
  | cons group groups ih =>
      rw [runGroups, h group List.mem_cons_self, ih fun g hg => h g (List.mem_cons_of_mem group hg)]
      rfl

theorem flatten_map_singleton (items : List Value) : (items.map ([·])).flatten = items := by
  rw [← List.flatMap_def, List.flatMap_singleton']

theorem flatten_batches {size : Nat} (hsize : 0 < size) {fuel : Nat} {items : List Value}
    (h : items.length ≤ fuel) : (batches size fuel items).flatten = items := by
  induction fuel generalizing items with
  | zero =>
      rw [List.eq_nil_of_length_eq_zero (Nat.le_zero.mp h)]
      rfl
  | succ fuel ih =>
      cases items with
      | nil => rfl
      | cons item items =>
          have hdrop : ((item :: items).drop size).length ≤ fuel := by
            rw [List.length_drop]
            omega
          simp only [batches, List.flatten_cons, ih hdrop, List.take_append_drop]

theorem records_map (l : List Entries) : records (l.map .dict) = .ok l := by
  induction l with
  | nil => rfl
  | cons a l ih =>
      rw [List.map_cons, records, ih]
      rfl

/-- What is put out of groups is what is put out of all of them at once. -/
theorem sortAndRank_groups (r : Reader) (conditions : List Condition) (groups : List (List Value)) :
    sortAndRank r (groups.flatMap (ranked r conditions)) = ranked r conditions groups.flatten := by
  have h := sortAndRank_flatten r (groups.map (List.map (evaluated r conditions)))
  rw [List.map_map, ← List.map_flatten] at h
  rw [List.flatMap_def]
  exact h

/-- The settings of a mode; a batch size is what `int` reads. -/
def Mode (config : List (String × Value)) : Prop :=
  let mode := (Value.field config "processing_mode").getD (.str "all")
  mode = .str "all" ∨ mode = .str "each" ∨
    mode = .str "batch" ∧ (((Value.field config "batch_size").getD (.int 10)).toInt).isSome = true

section

variable {world : RulesWorld} {ctx : NodeContext} {conditions : List Condition}

/-- What the groups give together: one group, or those of more than one item -/
theorem runPerItem_eq (h : Deterministic world ctx conditions) (hmode : Mode ctx.config)
    (hcap : (extractItems ctx.inputData).length ≤ world.maxPerItemFanout) :
    ∃ groups info, runPerItem world.maxPerItemFanout ctx (process world ctx) = .ok
        { items := (groups.flatMap (ranked world.reader conditions)).map .dict, info := info } ∧
      groups.flatten = extractItems ctx.inputData ∧
      ((extractItems ctx.inputData).length ≤ 1 → groups = [extractItems ctx.inputData]) := by
  have hresults : ∀ (groups : List (List Value)) (info : List Processed → Entries), ∃ info',
      (do
        let results ← runGroups (process world ctx) groups
        return { items := flatten results, info := info results }) = Except.ok
          { items := (groups.flatMap (ranked world.reader conditions)).map .dict
            info := info' : Processed } := by
    intro groups info
    rw [runGroups_eq fun group _ => process_eq h group]
    refine ⟨info (groups.map fun items =>
      { items := (ranked world.reader conditions items).map .dict
        info := [("total", .int items.length)] }), ?_⟩
    change Except.ok (Processed.mk (flatten _) _) = _
    rw [flatten, List.flatMap_map, List.map_flatMap]
  unfold runPerItem
  by_cases hall : ((Value.field ctx.config "processing_mode").getD (.str "all")).eqStr "all" = true ∨
      (extractItems ctx.inputData).length ≤ 1
  · refine ⟨[extractItems ctx.inputData], [("total", .int (extractItems ctx.inputData).length)],
      ?_, List.flatten_singleton, fun _ => rfl⟩
    rw [if_pos hall, process_eq h, List.flatMap_singleton]
  · have hmany : ¬ (extractItems ctx.inputData).length ≤ 1 := fun h => hall (.inr h)
    rw [if_neg hall, if_neg (Nat.not_lt.mpr hcap)]
    rcases hmode with hmode | hmode | ⟨hmode, hsize⟩
    · exact absurd (.inl (by rw [hmode]; rfl)) hall
    · obtain ⟨info, hinfo⟩ := hresults ((extractItems ctx.inputData).map ([·])) fun results =>
        [("processing_mode", .str "each"), ("total", .int (flatten results).length)]
      refine ⟨_, info, ?_, flatten_map_singleton _, fun h => absurd h hmany⟩
      rw [hmode, if_pos (by rfl)]
      exact hinfo
    · obtain ⟨n, hn⟩ := Option.isSome_iff_exists.mp hsize
      obtain ⟨info, hinfo⟩ := hresults (batches (max 1 n).toNat (extractItems ctx.inputData).length
        (extractItems ctx.inputData)) fun results =>
          [("processing_mode", .str "batch"), ("batch_size", .int (max 1 n).toNat),
            ("total_batches", .int (batches (max 1 n).toNat (extractItems ctx.inputData).length
              (extractItems ctx.inputData)).length)]
      refine ⟨_, info, ?_, flatten_batches (show 0 < (max 1 n).toNat by omega) le_rfl, fun h => absurd h hmany⟩
      rw [hmode, if_neg (by decide)]
      simp only [hn]
      exact hinfo

theorem length_sortAndRank (r : Reader) (l : List Entries) : (sortAndRank r l).length = l.length := by
  rw [sortAndRank, length_rankFrom, StableSort.length_sortBy]

/-- The items of the node are those of a single group, whatever the mode. -/
theorem execute_eq (h : Deterministic world ctx conditions) (hmode : Mode ctx.config)
    (hcap : (extractItems ctx.inputData).length ≤ world.maxPerItemFanout) :
    ∃ info, execute world ctx = .ok (Processed.toValue
      { items := (ranked world.reader conditions (extractItems ctx.inputData)).map .dict
        info := info }) := by
  obtain ⟨groups, info, hrun, hflatten, hone⟩ := runPerItem_eq h hmode hcap
  refine ⟨info, ?_⟩
  have hlength : (groups.flatMap (ranked world.reader conditions)).length =
      (extractItems ctx.inputData).length := by
    rw [← length_sortAndRank world.reader, sortAndRank_groups, hflatten, ranked, length_sortAndRank,
      List.length_map]
  simp only [execute, hrun, bind, Except.bind, List.length_map, hlength]
  by_cases hmany : (extractItems ctx.inputData).length > 1
  · simp only [if_pos hmany, records_map, sortAndRank_groups, hflatten]
    rfl
  · simp only [if_neg hmany, hone (Nat.not_lt.mp hmany), List.flatMap_singleton]
    rfl

end

/-! ## Main results -/

section

variable (r : Reader)

/-- The outputs are the records with their verdicts, in an order that passes first, then by the
score and by the salary, and else as before. -/
structure Ranked (conditions : List Condition) (items : List Value) (outputs : List Entries) :
    Prop where
  order : ∃ order : List Value, order.Perm items ∧
    outputs = rankFrom 1 (order.map (evaluated r conditions)) ∧
    ∀ k, StableSort.ofKey (fun item => sortKey r (evaluated r conditions item)) k order =
      StableSort.ofKey (fun item => sortKey r (evaluated r conditions item)) k items
  ranks : ∀ (i : Nat) record, outputs[i]? = some record →
    Value.field record "_rank" = some (.int ((i + 1 : Nat)))
  passed_first : outputs.Pairwise fun a b => passed b = true → passed a = true
  scores : outputs.Pairwise fun a b => passed a = passed b → score b ≤ score a
  salaries : outputs.Pairwise fun a b =>
    passed a = passed b → score a = score b → salary r a ≤ salary r b

theorem sortKey_le {a b : Entries} (h : sortKey r a ≤ sortKey r b) :
    (passed b = true → passed a = true) ∧ (passed a = passed b → score b ≤ score a) ∧
      (passed a = passed b → score a = score b → salary r a ≤ salary r b) := by
  rw [sortKey, sortKey, Prod.Lex.toLex_le_toLex, Prod.Lex.toLex_le_toLex] at h
  simp only [neg_lt_neg_iff, neg_inj] at h
  have hscore : score b < score a ∨ score a = score b ∧ salary r a ≤ salary r b →
      score b ≤ score a ∧ (score a = score b → salary r a ≤ salary r b) := by
    rintro (hlt | ⟨heq, hle⟩)
    · exact ⟨hlt.le, fun heq => absurd heq hlt.ne'⟩
    · exact ⟨heq.ge, fun _ => hle⟩
  rcases h with hlt | ⟨heq, hrest⟩
  · cases ha : passed a <;> cases hb : passed b <;> simp [ha, hb] at hlt ⊢
  · have hpassed : passed a = passed b := by
      cases ha : passed a <;> cases hb : passed b <;> simp [ha, hb] at heq ⊢
    exact ⟨fun h => hpassed.trans h, fun _ => (hscore hrest).1, fun _ => (hscore hrest).2⟩

theorem rankFrom_rank {rank i : Nat} {l : List Entries} {record : Entries}
    (h : (rankFrom rank l)[i]? = some record) :
    Value.field record "_rank" = some (.int ((rank + i : Nat))) := by
  induction l generalizing rank i with
  | nil => cases h
  | cons a l ih =>
      cases i with
      | zero =>
          cases h
          exact Entries.field_put_self
      | succ i =>
          rw [show rank + (i + 1) = rank + 1 + i by omega]
          exact ih h

/-- Ranking keeps what holds of any two records by their keys. -/
theorem pairwise_rankFrom {R : Entries → Entries → Prop} {rank : Nat} {l : List Entries}
    (hR : ∀ a b, sortKey r a ≤ sortKey r b → R a b)
    (h : l.Pairwise fun a b => sortKey r a ≤ sortKey r b) : (rankFrom rank l).Pairwise R := by
  have hkeys : ∀ {l l' : List Entries}, List.Forall₂ SameButRank l l' →
      l.map (sortKey r) = l'.map (sortKey r) := by
    intro l l' h
    induction h with
    | nil => rfl
    | cons hab _ ih => rw [List.map_cons, List.map_cons, hab.sortKey_eq r, ih]
  refine List.Pairwise.imp (fun {a b} => hR a b) (List.pairwise_map.mp ?_)
  rw [hkeys (rankFrom_same rank l)]
  exact List.pairwise_map.mpr h

theorem ranked_ranked (conditions : List Condition) (items : List Value) :
    Ranked r conditions items (ranked r conditions items) := by
  have hsorted : (sortBy (sortKey r) (items.map (evaluated r conditions))).Pairwise
      fun a b => sortKey r a ≤ sortKey r b := StableSort.sortBy_pairwise _
  refine ⟨⟨sortBy (fun item => sortKey r (evaluated r conditions item)) items,
    StableSort.sortBy_perm items, ?_, fun k => StableSort.ofKey_sortBy k items⟩, ?_, ?_, ?_, ?_⟩
  · rw [ranked, sortAndRank, StableSort.sortBy_map]
  · intro i record h
    rw [rankFrom_rank h, Nat.add_comm]
  · exact pairwise_rankFrom r (fun a b h => (sortKey_le r h).1) hsorted
  · exact pairwise_rankFrom r (fun a b h => (sortKey_le r h).2.1) hsorted
  · exact pairwise_rankFrom r (fun a b h => (sortKey_le r h).2.2) hsorted

end

/-- The items put out are the same in every mode, for every batch size: the records ranked. -/
theorem same_in_every_mode (world : RulesWorld) (conditions : List Condition) (items : List Value)
    (hcap : items.length ≤ world.maxPerItemFanout) :
    ∃ outputs, Ranked world.reader conditions items outputs ∧
      ∀ ctx, Deterministic world ctx conditions → extractItems ctx.inputData = items →
        Mode ctx.config →
        ∃ info, execute world ctx =
          .ok (Processed.toValue { items := outputs.map .dict, info := info }) := by
  refine ⟨ranked world.reader conditions items, ranked_ranked world.reader conditions items, ?_⟩
  rintro ctx hdet rfl hmode
  exact execute_eq hdet hmode hcap

/-! ## Two applicants -/

/-- No model is asked. -/
def asciiWorld : RulesWorld where
  reader := RulesText.asciiReader
  maxPerItemFanout := 500
  ask _ _ := .error { message := "no model" }

def applicants : List Value := [RulesText.applicant 90 20, RulesText.applicant 10 5]

def screening (mode : String) : NodeContext where
  nodeId := "screening"
  config := [("rules", .str "salary < 12"), ("processing_mode", .str mode), ("batch_size", .int 1)]
  inputData := .list applicants
  vars := ∅
  userId := "u"
  executionId := "ex"
  environment := "test"
  jwtToken := none
  workflowId := "wf"
  workflowName := "wf"
  ownerType := "org"
  ownerId := ""
  orgId := ""
  deptIds := []
  authorUserId := ""
  linkedSmartAppId := none

def salaryConditions : List Condition := [{ phrase := "salary".toList, op := .lt, threshold := 12 }]

theorem screening_deterministic (mode : String) :
    Deterministic asciiWorld (screening mode) salaryConditions :=
  ⟨"salary < 12", rfl, by decide +kernel⟩

/-- In each mode the same items come out. -/
theorem screening_same :
    ∃ outputs, Ranked RulesText.asciiReader salaryConditions applicants outputs ∧
      ∀ mode ∈ ["all", "each", "batch"], ∃ info, execute asciiWorld (screening mode) =
        .ok (Processed.toValue { items := outputs.map .dict, info := info }) := by
  obtain ⟨outputs, hranked, hsame⟩ :=
    same_in_every_mode asciiWorld salaryConditions applicants (by decide)
  refine ⟨outputs, hranked, fun mode hmode => ?_⟩
  refine hsame (screening mode) (screening_deterministic mode) rfl ?_
  simp only [List.mem_cons, List.not_mem_nil, or_false] at hmode
  rcases hmode with rfl | rfl | rfl
  · exact .inl rfl
  · exact .inr (.inl rfl)
  · exact .inr (.inr ⟨rfl, rfl⟩)

/-- The applicant that passes comes first, with the lower score. -/
theorem score_rises :
    ¬ ∀ world conditions ctx info (outputs : List Entries),
      Deterministic world ctx conditions → Mode ctx.config →
      (extractItems ctx.inputData).length ≤ world.maxPerItemFanout →
      execute world ctx = .ok (Processed.toValue { items := outputs.map .dict, info := info }) →
      outputs.Pairwise fun a b => score b ≤ score a := by
  intro hall
  have hmode : Mode (screening "all").config := .inl rfl
  obtain ⟨info, hexecute⟩ := execute_eq (screening_deterministic "all") hmode (by decide)
  have hpairs := hall asciiWorld salaryConditions (screening "all") info _
    (screening_deterministic "all") hmode (by decide) hexecute
  have hscores : (ranked RulesText.asciiReader salaryConditions applicants).map score = [10, 90] := by
    decide +kernel
  have hle : List.Pairwise (fun a b : Int => b ≤ a) [10, 90] := by
    rw [← hscores]
    exact List.pairwise_map.mpr hpairs
  revert hle
  decide

end RulesEngine

end CitraFlows
