-- SUMMARY: How the verdicts of a model are merged into the records of a rules engine or a classifier, and which record gets another one's.
import CitraFlows.Assistant.Json

/-!
# Verdicts

A model answers with a list of verdicts, each of which names a record by its index.
`RulesEngineNode` and `ClassifierNode` merge into a record the first verdict that names it, and
where there is none, the one at the position of the record.
-/

namespace CitraFlows

namespace Verdicts

/-- What is taken over from a verdict: the field of the record, that of the verdict, and what
stands for a missing one. -/
structure VerdictField where
  target : String
  source : String
  default : Value

/-- What `RulesEngineNode` takes over -/
def ruleFields : List VerdictField :=
  [⟨"_rule_passed", "passed", .bool false⟩, ⟨"_rule_reason", "reason", .str ""⟩]

/-- What `ClassifierNode` takes over -/
def labelFields : List VerdictField :=
  [⟨"_classification_label", "label", .str ""⟩,
    ⟨"_classification_confidence", "confidence", .float ⟨0, "0.0"⟩⟩]

/-- The assignments to `enriched` -/
def enrich (fields : List VerdictField) (verdict enriched : Entries) : Entries :=
  fields.foldl
    (fun enriched f => enriched.put f.target ((Value.field verdict f.source).getD f.default))
    enriched

/-- `ev.get("record_index") == i` -/
def names (verdict : Entries) (i : Nat) : Bool := (Value.getD verdict "record_index").eqInt i

/-- The verdict carries a `record_index`. -/
def carriesIndex (verdict : Entries) : Bool := (Value.field verdict "record_index").isSome

/-! ## Merging -/

/-- `for ev in evals_list`, up to the `break` -/
def findVerdict (i : Nat) : List Value → Except PyError (Option Entries)
  | [] => .ok none
  | .dict verdict :: evals =>
      if names verdict i then .ok (some verdict) else findVerdict i evals
  | v :: _ => .error (.attributeError v.typeName "get")

/-- The verdict that is merged into the record at `i`: its own, or the one at its position. -/
def verdictFor (evals : List Value) (i : Nat) : Except PyError (Option Entries) :=
  (findVerdict i evals).map fun found => found.or (evals[i]?.bind Value.asDict)

/-- `dict(item) if isinstance(item, dict) else {}`, with the verdict, if there is one -/
def withVerdict (fields : List VerdictField) (item : Value) (verdict : Option Entries) : Entries :=
  verdict.elim (item.asDict.getD []) fun verdict => enrich fields verdict (item.asDict.getD [])

/-- The body of the loop over the items -/
def mergeRecord (fields : List VerdictField) (evals : List Value) (i : Nat) (item : Value) :
    Except PyError Entries :=
  (verdictFor evals i).map (withVerdict fields item)

/-- `for i, item in enumerate(items)`, from `start` on -/
def mergeFrom (fields : List VerdictField) (evals : List Value) :
    Nat → List Value → Except PyError (List Entries)
  | _, [] => .ok []
  | i, item :: items => do
      let enriched ← mergeRecord fields evals i item
      let merged ← mergeFrom fields evals (i + 1) items
      return enriched :: merged

/-- The records of the node for the list of verdicts -/
def merge (fields : List VerdictField) (evals items : List Value) : Except PyError (List Entries) :=
  mergeFrom fields evals 0 items

example : merge ruleFields [.dict [("record_index", .int 1), ("passed", .bool true)]]
    [.dict [("id", .str "a")]] =
      .ok [[("id", .str "a"), ("_rule_passed", .bool true), ("_rule_reason", .str "")]] := rfl

variable {fields : List VerdictField} {evals items : List Value} {i : Nat} {verdict : Entries}

theorem findVerdict_some (h : findVerdict i evals = .ok (some verdict)) :
    .dict verdict ∈ evals ∧ names verdict i = true := by
  induction evals with
  | nil => cases h
  | cons v evals ih =>
      cases v with
      | dict ev =>
          rw [findVerdict] at h
          split at h
          next hnames =>
            cases h
            exact ⟨List.mem_cons_self, hnames⟩
          next => exact ⟨List.mem_cons_of_mem _ (ih h).1, (ih h).2⟩
      | _ => cases h

/-- The loop goes through when all verdicts are dicts and none of them names the record. -/
theorem findVerdict_none :
    findVerdict i evals = .ok none ↔
      (∀ v ∈ evals, v.asDict.isSome = true) ∧ ∀ ev, .dict ev ∈ evals → names ev i = false := by
  induction evals with
  | nil => simp [findVerdict]
  | cons v evals ih =>
      cases v with
      | dict ev =>
          rw [findVerdict]
          split
          next hnames =>
            constructor
            · intro h
              cases h
            · rintro ⟨-, hnone⟩
              rw [hnone ev List.mem_cons_self] at hnames
              cases hnames
          next hnames =>
            rw [ih]
            simp [hnames]
      | _ => simp [findVerdict, Value.asDict]

theorem findVerdict_ok (h : ∀ v ∈ evals, v.asDict.isSome = true) (i : Nat) :
    ∃ found, findVerdict i evals = .ok found := by
  induction evals with
  | nil => exact ⟨none, rfl⟩
  | cons v evals ih =>
      obtain ⟨ev, hev⟩ := Option.isSome_iff_exists.mp (h v List.mem_cons_self)
      obtain rfl := Value.asDict_eq_some.mp hev
      rw [findVerdict]
      split
      next => exact ⟨some ev, rfl⟩
      next => exact ih fun v hv => h v (List.mem_cons_of_mem _ hv)

theorem mergeFrom_getElem {start : Nat} {merged : List Entries}
    (h : mergeFrom fields evals start items = .ok merged) :
    merged.length = items.length ∧ ∀ j item, items[j]? = some item →
      ∃ enriched, mergeRecord fields evals (start + j) item = .ok enriched ∧
        merged[j]? = some enriched := by
  induction items generalizing start merged with
  | nil =>
      cases h
      simp
  | cons item items ih =>
      rw [mergeFrom] at h
      cases hrecord : mergeRecord fields evals start item with
      | error e =>
          rw [hrecord] at h
          cases h
      | ok enriched =>
          rw [hrecord] at h
          cases hrest : mergeFrom fields evals (start + 1) items with
          | error e =>
              rw [hrest] at h
              cases h
          | ok rest =>
              rw [hrest] at h
              cases h
              obtain ⟨hlength, hget⟩ := ih hrest
              refine ⟨by simp [hlength], fun j item' hj => ?_⟩
              cases j with
              | zero =>
                  cases hj
                  exact ⟨enriched, hrecord, rfl⟩
              | succ j =>
                  obtain ⟨enriched', hmerged, hat⟩ := hget j item' hj
                  refine ⟨enriched', ?_, hat⟩
                  rw [show start + (j + 1) = start + 1 + j by omega]
                  exact hmerged

theorem mergeFrom_ok (h : ∀ v ∈ evals, v.asDict.isSome = true) (start : Nat) :
    ∃ merged, mergeFrom fields evals start items = .ok merged := by
  induction items generalizing start with
  | nil => exact ⟨[], rfl⟩
  | cons item items ih =>
      obtain ⟨found, hfound⟩ := findVerdict_ok h start
      obtain ⟨merged, hmerged⟩ := ih (start + 1)
      refine ⟨withVerdict fields item (found.or (evals[start]?.bind Value.asDict)) :: merged, ?_⟩
      rw [mergeFrom, mergeRecord, verdictFor, hfound, hmerged]
      rfl

/-! ## Main results -/

/-- A verdict that carries an index is merged into the record with that index only, and a record
that is named gets a verdict that names it. -/
def Attributed (fields : List VerdictField) (evals items : List Value) : Prop :=
  ∀ merged, merge fields evals items = .ok merged →
    merged.length = items.length ∧ ∀ i item, items[i]? = some item →
      ∃ verdict, verdictFor evals i = .ok verdict ∧
        merged[i]? = some (withVerdict fields item verdict) ∧
        (∀ ev, verdict = some ev → carriesIndex ev = true → names ev i = true) ∧
        ((∃ ev, .dict ev ∈ evals ∧ names ev i = true) →
          ∃ ev, verdict = some ev ∧ names ev i = true)

/-- At the position of a record that no verdict names stands none with an index. The list holds
verdicts only: with another value in it, a record without a verdict fails the node. -/
def Positional (evals : List Value) (n : Nat) : Prop :=
  (∀ v ∈ evals, v.asDict.isSome = true) →
    ∀ i < n, (∀ ev, .dict ev ∈ evals → names ev i = false) →
      ∀ ev, evals[i]? = some (.dict ev) → carriesIndex ev = false

theorem Positional.attributed (h : Positional evals items.length) : Attributed fields evals items := by
  intro merged hmerged
  obtain ⟨hlength, hget⟩ := mergeFrom_getElem hmerged
  refine ⟨hlength, fun i item hitem => ?_⟩
  obtain ⟨enriched, hrecord, hat⟩ := hget i item hitem
  rw [Nat.zero_add, mergeRecord] at hrecord
  cases hfound : findVerdict i evals with
  | error e =>
      rw [verdictFor, hfound] at hrecord
      cases hrecord
  | ok found =>
      have hverdict : verdictFor evals i = .ok (found.or (evals[i]?.bind Value.asDict)) := by
        rw [verdictFor, hfound]
        rfl
      rw [hverdict] at hrecord
      cases hrecord
      refine ⟨_, hverdict, hat, ?_⟩
      cases found with
      | some ev =>
          obtain ⟨-, hnames⟩ := findVerdict_some hfound
          refine ⟨fun ev' hev' _ => ?_, fun _ => ⟨ev, rfl, hnames⟩⟩
          cases hev'
          exact hnames
      | none =>
          obtain ⟨hdicts, hnone⟩ := findVerdict_none.mp hfound
          refine ⟨fun ev hev hcarries => ?_, fun hnamed => ?_⟩
          · obtain ⟨v, hv, hdict⟩ := Option.bind_eq_some_iff.mp hev
            obtain rfl := Value.asDict_eq_some.mp hdict
            have hi : i < items.length := (List.getElem?_eq_some_iff.mp hitem).1
            rw [h hdicts i hi hnone ev hv] at hcarries
            cases hcarries
          · obtain ⟨ev, hev, hnames⟩ := hnamed
            rw [hnone ev hev] at hnames
            cases hnames

/-- The verdicts of a rules engine and of a classifier go to their records if and only if they
stand at no position of another one that is not named. -/
theorem attributed_iff (evals items : List Value) :
    (Attributed ruleFields evals items ↔ Positional evals items.length) ∧
      (Attributed labelFields evals items ↔ Positional evals items.length) := by
  have hpositional : ∀ fields, Attributed fields evals items → Positional evals items.length := by
    intro fields h hdicts i hi hnone ev hev
    obtain ⟨merged, hmerged⟩ : ∃ merged, merge fields evals items = .ok merged :=
      mergeFrom_ok hdicts 0
    obtain ⟨verdict, hverdict, -, hown, -⟩ := (h merged hmerged).2 i items[i] (by simp [hi])
    have hfound : findVerdict i evals = .ok none := findVerdict_none.mpr ⟨hdicts, hnone⟩
    rw [verdictFor, hfound, hev] at hverdict
    cases hverdict
    refine Bool.eq_false_iff.mpr fun hcarries => ?_
    have hnames := hown ev rfl hcarries
    rw [hnone ev (List.mem_of_getElem? hev)] at hnames
    cases hnames
  exact ⟨⟨hpositional _, Positional.attributed⟩, ⟨hpositional _, Positional.attributed⟩⟩

/-- The second record gets the verdict of the third one. -/
theorem verdict_of_third_record :
    ¬ ∀ evals items, Attributed ruleFields evals items ∧ Attributed labelFields evals items := by
  intro h
  have hrules := (h
    [.dict [("record_index", .int 0), ("passed", .bool false)],
      .dict [("record_index", .int 2), ("passed", .bool true)]]
    [.dict [], .dict [], .dict []]).1
  obtain ⟨verdict, hverdict, -, hown, -⟩ := (hrules _ rfl).2 1 (.dict []) rfl
  cases hverdict
  have hnames := hown _ rfl rfl
  revert hnames
  decide

end Verdicts

end CitraFlows
