-- SUMMARY: The tabular exports: how records are flattened into rows, and which lists of records a CSV download, a CSV file and an Excel file keep.
import CitraFlows.Lib.ElementWise
import CitraFlows.Lib.KeyedLists
import CitraFlows.Python

/-!
# Exports

`FileDownloadNode` writes its rows with `csv.DictWriter`; `CSVExportNode` and `ExcelExportNode`
rename the columns and leave the writing to pandas. What pandas writes for a frame is a parameter.

Not modelled: the upload of the file, and how a table is laid out in bytes.
-/

namespace CitraFlows

open ElementWise
open KeyedLists (dictBy)

namespace Exports

/-! ## Flattening a value -/

/-- `name in d` -/
def contains (name : String) : Value → Except PyError Bool
  | .dict fields => .ok (Value.field fields name).isSome
  | .str s => .ok (name.toList <:+: s.toList)
  | .list xs => .ok (xs.any fun x => x.eqStr name)
  | v => .error (.typeError ("argument of type '" ++ v.typeName ++ "' is not iterable"))

def containsBoth (name name' : String) (d : Value) : Except PyError Bool := do
  if ← contains name d then contains name' d else return false

/-- `d[name]` -/
def getItem (name : String) : Value → Except PyError Value
  | .dict fields =>
      match Value.field fields name with
      | some v => .ok v
      | none => .error (.keyError name)
  | .str _ => .error (.typeError "string indices must be integers, not 'str'")
  | .list _ => .error (.typeError "list indices must be integers or slices, not str")
  | v => .error (.typeError ("'" ++ v.typeName ++ "' object is not subscriptable"))

/-- `d.get(name, default)` -/
def getOr (name : String) (default : Value) : Value → Except PyError Value
  | .dict fields => .ok ((Value.field fields name).getD default)
  | v => .error (.attributeError v.typeName "get")

/-- The text of a job or a degree: what it is, where, and when -/
def describe (what separator place time : String) (d : Value) : Except PyError String := do
  let w ← getItem what d
  let p ← getItem place d
  let t ← getOr time (.str "N/A") d
  return w.text ++ separator ++ p.text ++ " (" ++ t.text ++ ")"

/-- `"; ".join(f"\x7bk\x7d: \x7bv\x7d" for k, v in d.items())` -/
def joinItems (fields : List (String × Value)) : String :=
  "; ".intercalate (fields.map fun f => f.1 ++ ": " ++ f.2.text)

/-- The text of an element of a list that starts with a dict -/
def flattenEntry (d : Value) : Except PyError String := do
  if ← containsBoth "title" "company" d then
    describe "title" " at " "company" "duration" d
  else if ← containsBoth "degree" "institution" d then
    describe "degree" " — " "institution" "year" d
  else
    match d with
    | .dict fields => return joinItems fields
    | v => .error (.attributeError v.typeName "items")

/-- `_flatten_export_value` -/
def flattenExportValue : Value → Except PyError Value
  | .none => .ok (.str "")
  | .bool b => .ok (.str (Value.bool b).text)
  | .int n => .ok (.int n)
  | .float x => .ok (.float x)
  | .list [] => .ok (.str "")
  | .list (.dict d :: rest) => do
      let parts ← (Value.dict d :: rest).mapM flattenEntry
      return .str (" | ".intercalate parts)
  | .list xs => .ok (.str (", ".intercalate (xs.map Value.text)))
  | .dict fields =>
      match Value.getD fields "score" with
      | .none => .ok (.str (joinItems fields))
      | score => .ok score
  | .str s => .ok (.str s)

/-! ## The rows of the exports -/

/-- A record, as a dict -/
structure Record where
  fields : List (String × Value)
  distinct : (fields.map Prod.fst).Nodup

/-- A flattened record -/
abbrev Row := List (String × Value)

/-- `_INTERNAL_FIELDS` -/
def internalFields : List String := ["_rule_passed", "_score"]

/-- `_EXPORT_COLUMN_MAP` -/
def exportColumnMap : List (String × String) :=
  [("full name", "Candidate Name"), ("salary expectation", "Salary (LPA)"),
    ("evaluation info", "Score"), ("_status", "Status"), ("_rank", "Rank"),
    ("_rule_reason", "Reason")]

/-- `_EXPORT_COLUMN_MAP.get(key, key)` -/
def displayKey (key : String) : String := (exportColumnMap.lookup key).getD key

/-- `_clean_item` -/
def cleanItem (r : Record) : Row := r.fields.filter fun f => f.1 ∉ internalFields

def flattenItem (column : String → String) (fields : Row) : Except PyError Row :=
  fields.mapM fun f => do return (column f.1, ← flattenExportValue f.2)

/-- `_flatten_records_for_export` -/
def flattenRecordsForExport (records : List Record) : Except PyError (List Row) :=
  records.mapM fun r => do return dictBy Prod.fst (← flattenItem displayKey (cleanItem r))

/-! ## The files -/

/-- The cells of a file, as texts -/
structure Table where
  header : List String
  rows : List (List String)

/-- The cell of a row in a column -/
def Table.cell (t : Table) (i : Nat) (column : String) : Option String :=
  t.rows[i]?.bind fun row => (t.header.zip row).lookup column

/-- What a writer of the `csv` module writes for a value -/
def cellText : Value → String
  | .none => ""
  | v => v.text

/-- `DictWriter._dict_to_list` -/
def dictToList (fieldnames : List String) (row : Row) : Except PyError (List String) :=
  let wrongFields := (row.map Prod.fst).filter fun k => k ∉ fieldnames
  if wrongFields = [] then
    .ok (fieldnames.map fun name => cellText ((row.lookup name).getD (.str "")))
  else
    .error (.valueError ("dict contains fields not in fieldnames: " ++
      ", ".intercalate (wrongFields.map Value.reprStr)))

/-- The CSV branch of `FileDownloadNode.execute` for a list of dicts -/
def fileDownload (first : Record) (rest : List Record) : Except PyError Table := do
  let firstItem ← flattenItem id (cleanItem first)
  let items ← rest.mapM fun r => flattenItem id (cleanItem r)
  let fieldnames := firstItem.map Prod.fst
  let rows ← (firstItem :: items).mapM (dictToList fieldnames)
  return { header := fieldnames, rows := rows }

/-- A data frame: its columns, and the cells of a row that are present -/
structure Frame where
  columns : List String
  rows : List Row

/-- `pd.DataFrame(rows)`: a column for every key, in the order of their first appearance -/
def dataFrame (rows : List Row) : Frame where
  columns := (rows.flatMap fun row => row.map Prod.fst).eraseDups
  rows := rows

/-- How pandas writes a frame without its index; `none` if it raises -/
structure Pandas where
  toCsv : Frame → Option Table
  toExcel : Frame → Option Table

/-- The rows of a frame with the cells that are missing left blank -/
def Frame.table (f : Frame) : Table where
  header := f.columns
  rows := f.rows.map fun row => f.columns.map fun c => cellText ((row.lookup c).getD (.str ""))

/-- What a node writes for its records -/
def exportFrame (write : Frame → Option Table) (records : List Record) : Option Table :=
  match flattenRecordsForExport records with
  | .error _ => none
  | .ok rows => write (dataFrame rows)

/-- `CSVExportNode.execute` -/
def csvExport (pandas : Pandas) (records : List Record) : Option Table :=
  exportFrame pandas.toCsv records

/-- `ExcelExportNode.execute` -/
def excelExport (pandas : Pandas) (records : List Record) : Option Table :=
  exportFrame pandas.toExcel records

/-! ## Which values are flattened -/

/-- A list that starts with a dict holds nothing else. -/
def flattens : Value → Bool
  | .list (.dict _ :: rest) => rest.all fun v => v.asDict.isSome
  | _ => true

variable {v : Value} {fields : List (String × Value)} {r first : Record}
  {rest records : List Record} {t : Table}

theorem containsBoth_dict (name name' : String) (fields : List (String × Value)) :
    containsBoth name name' (.dict fields) =
      .ok ((Value.field fields name).isSome && (Value.field fields name').isSome) := by
  have hdict : ∀ name, contains name (.dict fields) = .ok (Value.field fields name).isSome :=
    fun _ => rfl
  rw [containsBoth, hdict, hdict]
  cases (Value.field fields name).isSome <;> rfl

theorem describe_dict {what place : String} (separator time : String)
    (hwhat : (Value.field fields what).isSome = true)
    (hplace : (Value.field fields place).isSome = true) :
    ∃ text, describe what separator place time (.dict fields) = .ok text := by
  obtain ⟨w, hw⟩ := Option.isSome_iff_exists.mp hwhat
  obtain ⟨p, hp⟩ := Option.isSome_iff_exists.mp hplace
  let t := (Value.field fields time).getD (.str "N/A")
  refine ⟨w.text ++ separator ++ p.text ++ " (" ++ t.text ++ ")", ?_⟩
  rw [describe, getItem, hw, getItem, hp]
  rfl

theorem flattenEntry_dict (fields : List (String × Value)) :
    ∃ text, flattenEntry (.dict fields) = .ok text := by
  rw [flattenEntry, containsBoth_dict, containsBoth_dict]
  cases hjob : (Value.field fields "title").isSome && (Value.field fields "company").isSome with
  | true =>
      rw [Bool.and_eq_true] at hjob
      exact describe_dict " at " "duration" hjob.1 hjob.2
  | false =>
      cases hdegree :
          (Value.field fields "degree").isSome && (Value.field fields "institution").isSome with
      | true =>
          rw [Bool.and_eq_true] at hdegree
          exact describe_dict " — " "year" hdegree.1 hdegree.2
      | false => exact ⟨_, rfl⟩

theorem describe_error (what separator place time : String) (h : v.asDict = none) :
    ∃ e, describe what separator place time v = .error e := by
  cases v with
  | dict => cases h
  | _ => exact ⟨_, rfl⟩

/-- Nothing but a dict has a text in a list of dicts. -/
theorem flattenEntry_error (h : v.asDict = none) : ∃ e, flattenEntry v = .error e := by
  unfold flattenEntry
  cases hjob : containsBoth "title" "company" v with
  | error e => exact ⟨e, rfl⟩
  | ok isJob =>
      cases isJob with
      | true => exact describe_error "title" " at " "company" "duration" h
      | false =>
          cases hdegree : containsBoth "degree" "institution" v with
          | error e => exact ⟨e, rfl⟩
          | ok isDegree =>
              cases isDegree with
              | true => exact describe_error "degree" " — " "institution" "year" h
              | false =>
                  cases v with
                  | dict => cases h
                  | _ => exact ⟨_, rfl⟩

theorem flattenExportValue_dicts (d : List (String × Value)) (rest : List Value) :
    (∃ w, flattenExportValue (.list (.dict d :: rest)) = .ok w) ↔
      ∀ x ∈ rest, x.asDict.isSome = true := by
  constructor
  · rintro ⟨w, hw⟩ x hx
    obtain ⟨parts, hparts, -⟩ := ok_of_bind hw
    obtain ⟨text, -, htext⟩ :=
      exists_of_mem_left (mapM_eq_ok.mp hparts) x (List.mem_cons_of_mem _ hx)
    cases hdict : x.asDict with
    | some fields => rfl
    | none =>
        obtain ⟨e, he⟩ := flattenEntry_error hdict
        cases he.symm.trans htext
  · intro h
    have hentries : ∀ x ∈ Value.dict d :: rest, ∃ text, flattenEntry x = .ok text := by
      refine List.forall_mem_cons.mpr ⟨flattenEntry_dict d, fun x hx => ?_⟩
      obtain ⟨fields, hfields⟩ := Option.isSome_iff_exists.mp (h x hx)
      rw [Value.asDict_eq_some.mp hfields]
      exact flattenEntry_dict fields
    obtain ⟨parts, hparts⟩ := exists_mapM hentries
    refine ⟨.str (" | ".intercalate parts), ?_⟩
    rw [flattenExportValue, hparts]
    rfl

theorem flattens_iff : flattens v = true ↔ ∃ w, flattenExportValue v = .ok w := by
  cases v with
  | list xs =>
      cases xs with
      | nil => exact ⟨fun _ => ⟨_, rfl⟩, fun _ => rfl⟩
      | cons x xs =>
          cases x with
          | dict d => rw [flattenExportValue_dicts, flattens, List.all_eq_true]
          | _ => exact ⟨fun _ => ⟨_, rfl⟩, fun _ => rfl⟩
  | dict fields =>
      refine ⟨fun _ => ?_, fun _ => rfl⟩
      rw [flattenExportValue]
      split <;> exact ⟨_, rfl⟩
  | _ => exact ⟨fun _ => ⟨_, rfl⟩, fun _ => rfl⟩

/-! ## Rows -/

/-- The value that a value is flattened to, if it is -/
def flat (v : Value) : Value :=
  match flattenExportValue v with
  | .ok w => w
  | .error _ => .none

/-- The flattened fields of a record, under their columns -/
def plainRow (column : String → String) (r : Record) : Row :=
  (cleanItem r).map fun f => (column f.1, flat f.2)

/-- The names of the fields that are exported -/
def keys (r : Record) : List String := (cleanItem r).map Prod.fst

/-- Every field that is exported is flattened. -/
def AllFlattened (records : List Record) : Prop :=
  ∀ r ∈ records, ∀ f ∈ cleanItem r, flattens f.2 = true

theorem flattenExportValue_eq (h : flattens v = true) : flattenExportValue v = .ok (flat v) := by
  obtain ⟨w, hw⟩ := flattens_iff.mp h
  rw [flat, hw]

theorem flattenItem_eq (column : String → String) (h : ∀ f ∈ fields, flattens f.2 = true) :
    flattenItem column fields = .ok (fields.map fun f => (column f.1, flat f.2)) := by
  refine mapM_eq_ok.mpr (List.forall₂_map_right_iff.mpr (List.forall₂_same.mpr fun f hf => ?_))
  rw [flattenExportValue_eq (h f hf)]
  rfl

theorem nodup_keys (r : Record) : (keys r).Nodup :=
  r.distinct.sublist (List.filter_sublist.map _)

theorem keys_plainRow (column : String → String) (r : Record) :
    (plainRow column r).map Prod.fst = (keys r).map column := by
  rw [plainRow, keys, List.map_map, List.map_map]
  rfl

/-! ## Display names -/

theorem displayKey_of_mem {p : String × String} (h : p ∈ exportColumnMap) :
    displayKey p.1 = p.2 := by
  have hlookup : exportColumnMap.lookup p.1 = some p.2 :=
    KeyedLists.lookup_of_mem (by decide) h
  rw [displayKey, hlookup, Option.getD_some]

theorem displayKey_of_not_mem {key : String} (h : key ∉ exportColumnMap.map Prod.fst) :
    displayKey key = key := by
  have hlookup : exportColumnMap.lookup key = none := by
    rw [List.lookup_eq_none_iff]
    exact fun p hp => bne_iff_ne.mpr fun heq => h (heq ▸ List.mem_map_of_mem hp)
  rw [displayKey, hlookup, Option.getD_none]

/-- A key keeps its name or has an entry in the map. -/
theorem displayKey_cases (key : String) :
    (key, displayKey key) ∈ exportColumnMap ∨ displayKey key = key := by
  by_cases h : key ∈ exportColumnMap.map Prod.fst
  · obtain ⟨p, hp, rfl⟩ := List.mem_map.mp h
    rw [displayKey_of_mem hp]
    exact .inl hp
  · exact .inr (displayKey_of_not_mem h)

/-- Different keys share a column only if one is the display name of the other. -/
theorem displayKey_inj {k l : String} (h : displayKey k = displayKey l) (hk : displayKey k ≠ l)
    (hl : displayKey l ≠ k) : k = l := by
  have htargets : ∀ p ∈ exportColumnMap, ∀ q ∈ exportColumnMap, p.2 = q.2 → p.1 = q.1 := by
    decide
  rcases displayKey_cases k with hmem | heq
  · rcases displayKey_cases l with hmem' | heq'
    · exact htargets _ hmem _ hmem' h
    · exact absurd (h.trans heq') hk
  · exact absurd (h.symm.trans heq) hl

/-- No field is renamed to the name of another one. -/
def NoneRenamedTo (r : Record) : Prop :=
  ∀ p ∈ exportColumnMap, p.1 ∈ keys r → p.2 ∉ keys r

/-- Different fields have different columns. -/
def ColumnsApart (column : String → String) (r : Record) : Prop :=
  ∀ k ∈ keys r, ∀ l ∈ keys r, column k = column l → k = l

theorem columnsApart_iff : ColumnsApart displayKey r ↔ NoneRenamedTo r := by
  have hsource : ∀ p ∈ exportColumnMap, p.2 ∉ exportColumnMap.map Prod.fst := by decide
  have hne : ∀ p ∈ exportColumnMap, p.1 ≠ p.2 := by decide
  constructor
  · intro h p hp hk hl
    refine hne p hp (h p.1 hk p.2 hl ?_)
    rw [displayKey_of_mem hp, displayKey_of_not_mem (hsource p hp)]
  · intro h
    have hother : ∀ k ∈ keys r, ∀ l ∈ keys r, k ≠ l → displayKey k ≠ l := by
      rintro k hk l hl hkl rfl
      rcases displayKey_cases k with hmem | heq
      · exact h _ hmem hk hl
      · exact hkl heq.symm
    intro k hk l hl heq
    by_contra hkl
    exact hkl (displayKey_inj heq (hother k hk l hl hkl) (hother l hl k hk (Ne.symm hkl)))

theorem nodup_plainRow {column : String → String} (h : ColumnsApart column r) :
    ((plainRow column r).map Prod.fst).Nodup := by
  rw [keys_plainRow]
  exact (nodup_keys r).map_on h

/-- With their columns apart the flattened fields are the row. -/
theorem flattenRecordsForExport_eq (hflat : AllFlattened records)
    (h : ∀ r ∈ records, ColumnsApart displayKey r) :
    flattenRecordsForExport records = .ok (records.map (plainRow displayKey)) := by
  refine mapM_eq_ok.mpr (List.forall₂_map_right_iff.mpr (List.forall₂_same.mpr fun r hr => ?_))
  rw [flattenItem_eq displayKey (hflat r hr)]
  exact congrArg Except.ok (KeyedLists.dictBy_of_nodup (nodup_plainRow (h r hr)))

/-! ## Complete tables -/

/-- Every record has its row, with its flattened fields under columns of their own. -/
structure Complete (column : String → String) (records : List Record) (t : Table) : Prop where
  rows : t.rows.length = records.length
  cells : ∀ i r, records[i]? = some r → ∀ f ∈ cleanItem r,
    ∃ v, flattenExportValue f.2 = .ok v ∧ t.cell i (column f.1) = some (cellText v)
  apart : ∀ r ∈ records, ColumnsApart column r

/-- All three exports of the records succeed, and are complete. -/
structure LosesNothing (pandas : Pandas) (first : Record) (rest : List Record) : Prop where
  download : ∃ t, fileDownload first rest = .ok t ∧ Complete id (first :: rest) t
  csv : ∃ t, csvExport pandas (first :: rest) = some t ∧ Complete displayKey (first :: rest) t
  excel : ∃ t, excelExport pandas (first :: rest) = some t ∧ Complete displayKey (first :: rest) t

/-- The writer raises nothing for the rows, and keeps their cells. -/
def Writes (write : Frame → Option Table) (rows : List Row) : Prop :=
  ∃ t, write (dataFrame rows) = some t ∧ t.rows.length = rows.length ∧
    ∀ i row, rows[i]? = some row → ∀ c ∈ row, t.cell i c.1 = some (cellText c.2)

theorem Complete.allFlattened {column : String → String} (h : Complete column records t) :
    AllFlattened records := by
  intro r hr f hf
  obtain ⟨i, hi⟩ := List.mem_iff_getElem?.mp hr
  obtain ⟨v, hv, -⟩ := h.cells i r hi f hf
  exact flattens_iff.mpr ⟨v, hv⟩

/-- A table is complete if the cells of the flattened records are where they belong. -/
theorem complete_iff {column : String → String} (hflat : AllFlattened records) :
    Complete column records t ↔
      (∀ r ∈ records, ColumnsApart column r) ∧ t.rows.length = records.length ∧
        ∀ i row, (records.map (plainRow column))[i]? = some row → ∀ c ∈ row,
          t.cell i c.1 = some (cellText c.2) := by
  constructor
  · intro h
    refine ⟨h.apart, h.rows, fun i row hrow c hc => ?_⟩
    rw [List.getElem?_map, Option.map_eq_some_iff] at hrow
    obtain ⟨r, hr, rfl⟩ := hrow
    obtain ⟨f, hf, rfl⟩ := List.mem_map.mp hc
    obtain ⟨v, hv, hcell⟩ := h.cells i r hr f hf
    rw [hcell, flat, hv]
  · rintro ⟨hapart, hrows, hcells⟩
    refine ⟨hrows, fun i r hr f hf => ?_, hapart⟩
    have hvalue := flattenExportValue_eq (hflat r (List.mem_of_getElem? hr) f hf)
    refine ⟨flat f.2, hvalue, hcells i (plainRow column r) ?_ _ (List.mem_map_of_mem hf)⟩
    rw [List.getElem?_map, hr, Option.map_some]

/-! ## The frames -/

/-- An export by pandas is complete if the records are flattened, no field is renamed to the name
of another, and the writer keeps the cells. -/
theorem exportFrame_complete_iff (write : Frame → Option Table) :
    (∃ t, exportFrame write records = some t ∧ Complete displayKey records t) ↔
      AllFlattened records ∧ (∀ r ∈ records, NoneRenamedTo r) ∧
        Writes write (records.map (plainRow displayKey)) := by
  have hexport : ∀ t, AllFlattened records → (∀ r ∈ records, ColumnsApart displayKey r) →
      (exportFrame write records = some t ↔
        write (dataFrame (records.map (plainRow displayKey))) = some t) := by
    intro t hflat hapart
    rw [exportFrame, flattenRecordsForExport_eq hflat hapart]
  constructor
  · rintro ⟨t, ht, hcomplete⟩
    have hflat := hcomplete.allFlattened
    obtain ⟨hapart, hrows, hcells⟩ := (complete_iff hflat).mp hcomplete
    refine ⟨hflat, fun r hr => columnsApart_iff.mp (hapart r hr), t, ?_, ?_, hcells⟩
    · exact (hexport t hflat hapart).mp ht
    · rw [hrows, List.length_map]
  · rintro ⟨hflat, hrenamed, t, ht, hrows, hcells⟩
    have hapart : ∀ r ∈ records, ColumnsApart displayKey r :=
      fun r hr => columnsApart_iff.mpr (hrenamed r hr)
    refine ⟨t, (hexport t hflat hapart).mpr ht, (complete_iff hflat).mpr ⟨hapart, ?_, hcells⟩⟩
    rw [hrows, List.length_map]

/-- A writer that leaves the missing cells blank keeps every frame of dicts. -/
theorem writes_table {rows : List Row} (h : ∀ row ∈ rows, (row.map Prod.fst).Nodup) :
    Writes (fun f => some f.table) rows := by
  refine ⟨(dataFrame rows).table, rfl, List.length_map _, fun i row hrow c hc => ?_⟩
  have hmem : row ∈ rows := List.mem_of_getElem? hrow
  have hcolumn : c.1 ∈ (dataFrame rows).columns :=
    List.mem_eraseDups.mpr (List.mem_flatMap.mpr ⟨row, hmem, List.mem_map_of_mem hc⟩)
  have hcells : (dataFrame rows).table.rows[i]? = some
      ((dataFrame rows).columns.map fun c => cellText ((row.lookup c).getD (.str ""))) := by
    rw [Frame.table, List.getElem?_map]
    exact congrArg _ hrow
  rw [Table.cell, hcells, Option.bind_some, Frame.table, KeyedLists.lookup_zip_map hcolumn,
    KeyedLists.lookup_of_mem (h row hmem) hc, Option.getD_some]

/-! ## The download -/

theorem dictToList_eq_ok {fieldnames : List String} {row : Row} {cells : List String} :
    dictToList fieldnames row = .ok cells ↔
      (∀ k ∈ row.map Prod.fst, k ∈ fieldnames) ∧
        cells = fieldnames.map fun name => cellText ((row.lookup name).getD (.str "")) := by
  have hwrong : ((row.map Prod.fst).filter fun k => k ∉ fieldnames) = [] ↔
      ∀ k ∈ row.map Prod.fst, k ∈ fieldnames := by
    rw [List.filter_eq_nil_iff]
    simp only [decide_not, Bool.not_eq_true', decide_eq_false_iff_not, not_not]
  rw [← hwrong]
  unfold dictToList
  dsimp only
  split
  next h =>
    rw [Except.ok.injEq, and_iff_right h]
    exact eq_comm
  next h => exact ⟨fun h' => (by cases h'), fun h' => absurd h'.1 h⟩

/-- No record has a field that the first one lacks. -/
def ColumnsOfFirst (first : Record) (rest : List Record) : Prop :=
  ∀ r ∈ rest, ∀ k ∈ keys r, k ∈ keys first

theorem fileDownload_eq_ok (hflat : AllFlattened (first :: rest)) :
    fileDownload first rest = .ok t ↔ t.header = keys first ∧
      List.Forall₂ (fun row cells => dictToList (keys first) row = .ok cells)
        ((first :: rest).map (plainRow id)) t.rows := by
  obtain ⟨hfirst, hrest⟩ := List.forall_mem_cons.mp hflat
  have hitems : (rest.mapM fun r => flattenItem id (cleanItem r)) =
      .ok (rest.map (plainRow id)) :=
    mapM_eq_ok.mpr (List.forall₂_map_right_iff.mpr
      (List.forall₂_same.mpr fun r hr => flattenItem_eq id (hrest r hr)))
  have hkeys : (plainRow id first).map Prod.fst = keys first := by
    rw [keys_plainRow, List.map_id]
  rw [← mapM_eq_ok, fileDownload, flattenItem_eq id hfirst, hitems]
  change (((plainRow id first :: rest.map (plainRow id)).mapM
    (dictToList ((plainRow id first).map Prod.fst))) >>= fun rows =>
      Except.ok { header := (plainRow id first).map Prod.fst, rows := rows }) = .ok t ↔ _
  rw [hkeys, List.map_cons]
  constructor
  · intro h
    obtain ⟨rows, hrows, heq⟩ := ok_of_bind h
    cases heq
    exact ⟨rfl, hrows⟩
  · rintro ⟨hheader, hrows⟩
    rw [hrows, ← hheader]
    rfl

/-- The cells of a row that is written are found under their columns. -/
theorem cell_of_written {i : Nat} {row : Row} {cells : List String}
    (hnodup : (row.map Prod.fst).Nodup) (hcells : dictToList t.header row = .ok cells)
    (hi : t.rows[i]? = some cells) {c : String × Value} (hc : c ∈ row) :
    t.cell i c.1 = some (cellText c.2) := by
  obtain ⟨hmem, rfl⟩ := dictToList_eq_ok.mp hcells
  rw [Table.cell, hi, Option.bind_some,
    KeyedLists.lookup_zip_map (hmem c.1 (List.mem_map_of_mem hc)),
    KeyedLists.lookup_of_mem hnodup hc, Option.getD_some]

/-- The download is complete if the records are flattened, and have no field that the first record
lacks. -/
theorem fileDownload_complete_iff :
    (∃ t, fileDownload first rest = .ok t ∧ Complete id (first :: rest) t) ↔
      AllFlattened (first :: rest) ∧ ColumnsOfFirst first rest := by
  constructor
  · rintro ⟨t, ht, hcomplete⟩
    have hflat := hcomplete.allFlattened
    obtain ⟨hheader, hrows⟩ := (fileDownload_eq_ok hflat).mp ht
    refine ⟨hflat, fun r hr k hk => ?_⟩
    obtain ⟨cells, -, hcells⟩ := exists_of_mem_left hrows (plainRow id r)
      (List.mem_map_of_mem (List.mem_cons_of_mem _ hr))
    refine (dictToList_eq_ok.mp hcells).1 k ?_
    rwa [keys_plainRow, List.map_id]
  · rintro ⟨hflat, hcolumns⟩
    have hapart : ∀ r ∈ first :: rest, ColumnsApart id r := fun _ _ _ _ _ _ h => h
    have hwritten : ∀ row ∈ (first :: rest).map (plainRow id),
        ∃ cells, dictToList (keys first) row = .ok cells := by
      rw [List.forall_mem_map]
      intro r hr
      refine ⟨_, dictToList_eq_ok.mpr ⟨?_, rfl⟩⟩
      rw [keys_plainRow, List.map_id]
      rcases List.mem_cons.mp hr with rfl | hr
      · exact fun _ hk => hk
      · exact hcolumns r hr
    obtain ⟨rows, hrows⟩ := exists_forall₂ hwritten
    let t : Table := { header := keys first, rows := rows }
    have ht : fileDownload first rest = .ok t := (fileDownload_eq_ok hflat).mpr ⟨rfl, hrows⟩
    refine ⟨t, ht, (complete_iff hflat).mpr ⟨hapart, ?_, ?_⟩⟩
    · rw [← hrows.length_eq, List.length_map]
    · intro i row hrow c hc
      obtain ⟨hi, heq⟩ := List.getElem?_eq_some_iff.mp hrow
      have hi' : i < rows.length := hrows.length_eq ▸ hi
      have hcells := hrows.get hi hi'
      rw [List.get_eq_getElem, heq] at hcells
      obtain ⟨r, hr, rfl⟩ := List.mem_map.mp (List.mem_of_getElem? hrow)
      exact cell_of_written (t := t) (nodup_plainRow (hapart r hr)) hcells
        (List.getElem?_eq_getElem hi') hc

/-! ## Main result -/

/-- The exports lose nothing if and only if every field is flattened, no record has a field that the
first one lacks, none has both a field and one that is renamed to it, and pandas writes the rows. -/
theorem losesNothing_iff (pandas : Pandas) (first : Record) (rest : List Record) :
    LosesNothing pandas first rest ↔
      AllFlattened (first :: rest) ∧ ColumnsOfFirst first rest ∧
        (∀ r ∈ first :: rest, NoneRenamedTo r) ∧
        Writes pandas.toCsv ((first :: rest).map (plainRow displayKey)) ∧
        Writes pandas.toExcel ((first :: rest).map (plainRow displayKey)) := by
  constructor
  · intro h
    obtain ⟨hflat, hcolumns⟩ := fileDownload_complete_iff.mp h.download
    obtain ⟨-, hrenamed, hcsv⟩ := (exportFrame_complete_iff pandas.toCsv).mp h.csv
    obtain ⟨-, -, hexcel⟩ := (exportFrame_complete_iff pandas.toExcel).mp h.excel
    exact ⟨hflat, hcolumns, hrenamed, hcsv, hexcel⟩
  · rintro ⟨hflat, hcolumns, hrenamed, hcsv, hexcel⟩
    exact ⟨fileDownload_complete_iff.mpr ⟨hflat, hcolumns⟩,
      (exportFrame_complete_iff pandas.toCsv).mpr ⟨hflat, hrenamed, hcsv⟩,
      (exportFrame_complete_iff pandas.toExcel).mpr ⟨hflat, hrenamed, hexcel⟩⟩

/-- A field that the first record lacks ends the download, a field that another one is renamed to is
lost, and a list that starts with a dict may end every export. -/
theorem fields_lost :
    (∀ pandas, ¬LosesNothing pandas ⟨[("a", .int 1)], by decide⟩ [⟨[("b", .int 2)], by decide⟩]) ∧
      fileDownload ⟨[("a", .int 1)], by decide⟩ [⟨[("b", .int 2)], by decide⟩] =
        .error (.valueError "dict contains fields not in fieldnames: 'b'") ∧
      flattenRecordsForExport
          [⟨[("full name", .str "Ann"), ("Candidate Name", .str "Bob")], by decide⟩] =
        .ok [[("Candidate Name", .str "Bob")]] ∧
      flattenExportValue (.list [.dict [], .int 1]) =
        .error (.typeError "argument of type 'int' is not iterable") := by
  have hdownload : fileDownload ⟨[("a", .int 1)], by decide⟩ [⟨[("b", .int 2)], by decide⟩] =
      .error (.valueError "dict contains fields not in fieldnames: 'b'") := by rfl
  refine ⟨fun pandas h => ?_, hdownload, by rfl, by rfl⟩
  obtain ⟨t, ht, -⟩ := h.download
  cases hdownload.symm.trans ht

end Exports

end CitraFlows
