-- SUMMARY: What a saved execution keeps of its payloads: how _bson_safe converts them, and which values a checkpoint can store.
import CitraFlows.Lib.ElementWise
import CitraFlows.Lib.KeyedLists
import CitraFlows.Models
import Mathlib.Algebra.Ring.Int.Defs

/-!
# Saved payloads

`_save_execution` converts the record of a run with `_bson_safe` and writes it as a document. A
write that raises is logged, and the checkpoint is lost.

Not modelled: the recursion limit, the size limit of a document, and objects with an `item` method.
-/

namespace CitraFlows

open ElementWise
open KeyedLists (dictBy)

namespace Payloads

/-! ## Objects -/

/-- The texts that `str` and `repr` give an object -/
structure Names where
  str : String
  repr : String

/-- A hashable object, as the key of a dict -/
inductive Key where
  | none
  | bool (b : Bool)
  | int (n : Int)
  | str (s : String)
  | tuple (ks : List Key)
  /-- A float, a `Decimal`, a date, a datetime or an enum -/
  | named (names : Names)

inductive DecimalValue where
  | finite (x : Rat)
  | infinite
  | quietNan
  | signalingNan

/-- A value of a node's output -/
inductive Obj where
  | none
  | bool (b : Bool)
  | int (n : Int)
  /-- The float that is read from the text -/
  | float (text : String)
  | str (s : String)
  | list (xs : List Obj)
  | tuple (xs : List Obj)
  | set (xs : List Obj)
  | dict (entries : List (Key × Obj))
  | decimal (d : DecimalValue) (str : String)
  | date (isoformat : String)
  | datetime (isoformat : String)
  | enum (value : Obj)

/-- To show a property of an object, it may be assumed of its parts. -/
@[elab_as_elim, induction_eliminator]
theorem Obj.induct {motive : Obj → Prop} (none : motive .none) (bool : ∀ b, motive (.bool b))
    (int : ∀ n, motive (.int n)) (float : ∀ text, motive (.float text))
    (str : ∀ s, motive (.str s)) (list : ∀ xs, (∀ x ∈ xs, motive x) → motive (.list xs))
    (tuple : ∀ xs, (∀ x ∈ xs, motive x) → motive (.tuple xs))
    (set : ∀ xs, (∀ x ∈ xs, motive x) → motive (.set xs))
    (dict : ∀ es : List (Key × Obj), (∀ e ∈ es, motive e.2) → motive (.dict es))
    (decimal : ∀ d s, motive (.decimal d s)) (date : ∀ text, motive (.date text))
    (datetime : ∀ text, motive (.datetime text))
    (enum : ∀ v, motive v → motive (.enum v)) (v : Obj) : motive v :=
  @Obj.rec motive (fun xs => ∀ x ∈ xs, motive x) (fun es => ∀ e ∈ es, motive e.2)
    (fun e => motive e.2) none bool int float str list tuple set dict decimal date datetime enum
    (fun _ h => (by cases h)) (fun _ _ hx hxs => List.forall_mem_cons.mpr ⟨hx, hxs⟩)
    (fun _ h => (by cases h)) (fun _ _ he hes => List.forall_mem_cons.mpr ⟨he, hes⟩)
    (fun _ _ hv => hv) v

/-! ## The text of a key -/

/-- `str(n)` for an integer, which refuses more than 4300 digits -/
def intText (n : Int) : Except PyError String :=
  if 4300 < (Nat.toDigits 10 n.natAbs).length then
    .error (.valueError ("Exceeds the limit (4300 digits) for integer string conversion; " ++
      "use sys.set_int_max_str_digits() to increase the limit"))
  else .ok (toString n)

def tupleText : List String → String
  | [text] => "(" ++ text ++ ",)"
  | texts => "(" ++ ", ".intercalate texts ++ ")"

mutual

/-- `repr(key)` -/
def Key.repr : Key → Except PyError String
  | .none => .ok "None"
  | .bool b => .ok (if b then "True" else "False")
  | .int n => intText n
  | .str s => .ok (Value.reprStr s)
  | .tuple ks => tupleText <$> reprKeys ks
  | .named names => .ok names.repr

def reprKeys : List Key → Except PyError (List String)
  | [] => .ok []
  | k :: ks => do
      let text ← k.repr
      return text :: (← reprKeys ks)

end

/-- `str(key)` -/
def Key.text : Key → Except PyError String
  | .str s => .ok s
  | .named names => .ok names.str
  | k => k.repr

/-! ## The conversion -/

/-- The branch of `_bson_safe` for a `Decimal` with the text `str` -/
def bsonSafeDecimal (str : String) : DecimalValue → Obj
  | .finite x => if x.den = 1 then .int x.num else .float str
  | .quietNan => .float "nan"
  | .infinite | .signalingNan => .str str

/-- The dict with these names -/
def document (fields : List (String × Obj)) : Obj := .dict (fields.map fun e => (.str e.1, e.2))

mutual

/-- `_bson_safe` -/
def bsonSafe : Obj → Except PyError Obj
  | .dict entries => do
      let entries ← bsonSafeEntries entries
      return document (dictBy Prod.fst entries)
  | .list xs | .tuple xs | .set xs => .list <$> bsonSafeList xs
  | .enum value => .ok value
  | .decimal d str => .ok (bsonSafeDecimal str d)
  | .date isoformat => .ok (.str isoformat)
  | .none => .ok .none
  | .bool b => .ok (.bool b)
  | .int n => .ok (.int n)
  | .float text => .ok (.float text)
  | .str s => .ok (.str s)
  | .datetime isoformat => .ok (.datetime isoformat)

def bsonSafeList : List Obj → Except PyError (List Obj)
  | [] => .ok []
  | x :: xs => do
      let w ← bsonSafe x
      return w :: (← bsonSafeList xs)

def bsonSafeEntries : List (Key × Obj) → Except PyError (List (String × Obj))
  | [] => .ok []
  | e :: entries => do
      let w ← bsonSafeEntry e
      return w :: (← bsonSafeEntries entries)

def bsonSafeEntry : Key × Obj → Except PyError (String × Obj)
  | (k, v) => do
      let text ← k.text
      return (text, ← bsonSafe v)

end

/-! ## What BSON stores -/

/-- The integers of 64 bits -/
def inInt64 (n : Int) : Bool := -2 ^ 63 ≤ n ∧ n < 2 ^ 63

/-- A name of a field ends at its first NUL. -/
def isFieldName (s : String) : Bool := '\x00' ∉ s.toList

/-- The name of a field, if the key is one -/
def Key.fieldName : Key → Option String
  | .str s => if isFieldName s then some s else Option.none
  | _ => Option.none

mutual

def storable : Obj → Bool
  | .none | .bool _ | .float _ | .str _ | .datetime _ => true
  | .int n => inInt64 n
  | .list xs => storableList xs
  | .dict entries => decide (entries.map fun e => e.1.fieldName).Nodup && storableEntries entries
  | .tuple _ | .set _ | .decimal .. | .date _ | .enum _ => false

def storableList : List Obj → Bool
  | [] => true
  | x :: xs => storable x && storableList xs

def storableEntries : List (Key × Obj) → Bool
  | [] => true
  | e :: entries => storableEntry e && storableEntries entries

def storableEntry : Key × Obj → Bool
  | (k, v) => k.fieldName.isSome && storable v

end

mutual

/-- The entries of the dicts in a value, at any depth -/
def entryCount : Obj → Nat
  | .list xs | .tuple xs | .set xs => entryCounts xs
  | .dict entries => entryCountEntries entries
  | .enum value => entryCount value
  | .none | .bool _ | .int _ | .float _ | .str _ | .decimal .. | .date _ | .datetime _ => 0

def entryCounts : List Obj → Nat
  | [] => 0
  | x :: xs => entryCount x + entryCounts xs

def entryCountEntries : List (Key × Obj) → Nat
  | [] => 0
  | e :: entries => entryCountEntry e + entryCountEntries entries

def entryCountEntry : Key × Obj → Nat
  | (_, v) => 1 + entryCount v

end

/-! ## The parts of a value -/

variable {v w : Obj} {xs ws : List Obj} {es : List (Key × Obj)} {fields : List (String × Obj)}

theorem bsonSafeList_eq_ok :
    bsonSafeList xs = .ok ws ↔ List.Forall₂ (fun x w => bsonSafe x = .ok w) xs ws := by
  rw [← ElementWise.mapM_eq_ok]
  refine Eq.congr_left ?_
  induction xs with
  | nil => rfl
  | cons x xs ih => rw [bsonSafeList, List.mapM_cons, ih]

/-- An entry and what is saved of it -/
def SavedEntry (e : Key × Obj) (field : String × Obj) : Prop :=
  e.1.text = .ok field.1 ∧ bsonSafe e.2 = .ok field.2

theorem bsonSafeEntry_eq_ok {e : Key × Obj} {field : String × Obj} :
    bsonSafeEntry e = .ok field ↔ SavedEntry e field := by
  cases e
  constructor
  · intro h
    obtain ⟨text, htext, h⟩ := ok_of_bind h
    obtain ⟨w, hw, h⟩ := ok_of_bind h
    cases h
    exact ⟨htext, hw⟩
  · rintro ⟨htext, hw⟩
    rw [bsonSafeEntry, htext, hw]
    rfl

theorem bsonSafeEntries_eq_ok :
    bsonSafeEntries es = .ok fields ↔ List.Forall₂ SavedEntry es fields := by
  have heq : bsonSafeEntries es = es.mapM bsonSafeEntry := by
    induction es with
    | nil => rfl
    | cons e es ih => rw [bsonSafeEntries, List.mapM_cons, ih]
  rw [heq, ElementWise.mapM_eq_ok]
  simp only [bsonSafeEntry_eq_ok]

theorem bsonSafe_dict_eq_ok : bsonSafe (.dict es) = .ok w ↔
    ∃ fields, List.Forall₂ SavedEntry es fields ∧ w = document (dictBy Prod.fst fields) := by
  constructor
  · intro h
    obtain ⟨fields, hfields, h⟩ := ok_of_bind h
    cases h
    exact ⟨fields, bsonSafeEntries_eq_ok.mp hfields, rfl⟩
  · rintro ⟨fields, hfields, rfl⟩
    rw [bsonSafe, bsonSafeEntries_eq_ok.mpr hfields]
    rfl

theorem listOf_eq_ok : Obj.list <$> bsonSafeList xs = .ok w ↔
    ∃ ws, List.Forall₂ (fun x w => bsonSafe x = .ok w) xs ws ∧ w = .list ws := by
  constructor
  · intro h
    cases hxs : bsonSafeList xs with
    | error e =>
        rw [hxs] at h
        cases h
    | ok ws =>
        rw [hxs] at h
        cases h
        exact ⟨ws, bsonSafeList_eq_ok.mp hxs, rfl⟩
  · rintro ⟨ws, hws, rfl⟩
    rw [bsonSafeList_eq_ok.mpr hws]
    rfl

theorem storableList_iff : storableList xs = true ↔ ∀ x ∈ xs, storable x = true := by
  induction xs with
  | nil => simp [storableList]
  | cons x xs ih => simp [storableList, ih]

theorem storableEntries_iff : storableEntries es = true ↔
    ∀ e ∈ es, e.1.fieldName.isSome = true ∧ storable e.2 = true := by
  induction es with
  | nil => simp [storableEntries]
  | cons e es ih =>
      cases e
      rw [storableEntries, Bool.and_eq_true, ih, List.forall_mem_cons, storableEntry,
        Bool.and_eq_true]

theorem entryCounts_eq : entryCounts xs = (xs.map entryCount).sum := by
  induction xs with
  | nil => rfl
  | cons x xs ih => rw [entryCounts, ih, List.map_cons, List.sum_cons]

theorem entryCountEntries_eq :
    entryCountEntries es = (es.map fun e => 1 + entryCount e.2).sum := by
  induction es with
  | nil => rfl
  | cons e es ih => rw [entryCountEntries, ih, List.map_cons, List.sum_cons, entryCountEntry]

theorem entryCount_document :
    entryCount (document fields) = (fields.map fun e => 1 + entryCount e.2).sum := by
  rw [document, entryCount, entryCountEntries_eq, List.map_map]
  rfl

/-! ## Stored documents -/

theorem Key.fieldName_eq_some {k : Key} {s : String} :
    k.fieldName = some s ↔ k = .str s ∧ isFieldName s = true := by
  cases k with
  | str t =>
      rw [fieldName]
      split
      next ht =>
        simp only [Option.some.injEq, Key.str.injEq]
        exact ⟨fun h => ⟨h, h ▸ ht⟩, And.left⟩
      next ht =>
        simp only [reduceCtorEq, Key.str.injEq, false_iff, not_and]
        rintro rfl
        exact ht
  | _ => simp [fieldName]

theorem storable_document : storable (document fields) = true ↔
    (fields.map Prod.fst).Nodup ∧ ∀ f ∈ fields, isFieldName f.1 = true ∧ storable f.2 = true := by
  have hnames : (∀ f ∈ fields, isFieldName f.1 = true) →
      (fields.map fun f => (Key.str f.1).fieldName) = (fields.map Prod.fst).map some := by
    intro h
    rw [List.map_map]
    exact List.map_congr_left fun f hf => Key.fieldName_eq_some.mpr ⟨rfl, h f hf⟩
  have hsome : ∀ s : String, (Key.str s).fieldName.isSome = isFieldName s := by
    intro s
    rw [Key.fieldName]
    split <;> simp_all
  rw [document, storable, Bool.and_eq_true, decide_eq_true_iff, storableEntries_iff, List.map_map,
    List.forall_mem_map]
  simp only [hsome]
  refine and_congr_left fun h => ?_
  have heq := hnames fun f hf => (h f hf).1
  rw [Function.comp_def, heq, List.nodup_map_iff (Option.some_injective _)]

/-- Any dict that is stored has fields. -/
theorem exists_document (h : storable (.dict es) = true) :
    ∃ fields, .dict es = document fields := by
  rw [storable, Bool.and_eq_true, storableEntries_iff] at h
  suffices h' : ∃ fields : List (String × Obj), es = fields.map fun e => (.str e.1, e.2) by
    obtain ⟨fields, rfl⟩ := h'
    exact ⟨fields, rfl⟩
  obtain ⟨-, h⟩ := h
  induction es with
  | nil => exact ⟨[], rfl⟩
  | cons e es ih =>
      obtain ⟨he, hes⟩ := List.forall_mem_cons.mp h
      obtain ⟨fields, rfl⟩ := ih hes
      obtain ⟨s, hs⟩ := Option.isSome_iff_exists.mp he.1
      refine ⟨(s, e.2) :: fields, ?_⟩
      rw [List.map_cons, ← (Key.fieldName_eq_some.mp hs).1]

/-- What can be stored is saved as it is. -/
theorem bsonSafe_of_storable (h : storable w = true) : bsonSafe w = .ok w := by
  induction w with
  | list ws ih =>
      rw [storable, storableList_iff] at h
      refine listOf_eq_ok.mpr ⟨ws, List.forall₂_same.mpr fun w hw => ih w hw (h w hw), rfl⟩
  | dict es ih =>
      obtain ⟨fields, heq⟩ := exists_document h
      rw [heq, storable_document] at h
      obtain ⟨hnodup, hfields⟩ := h
      cases heq
      refine bsonSafe_dict_eq_ok.mpr ⟨fields, ?_, ?_⟩
      · rw [List.forall₂_map_left_iff, List.forall₂_same]
        exact fun f hf => ⟨rfl, ih _ (List.mem_map_of_mem hf) (hfields f hf).2⟩
      · rw [KeyedLists.dictBy_of_nodup hnodup]
        rfl
  | tuple | set | decimal | date | enum => cases h
  | none | bool | int | float | str | datetime => rfl

/-! ## Which values are kept -/

/-- The value is converted to one that can be stored, without losing an entry. -/
def Kept (v : Obj) : Prop :=
  ∃ w, bsonSafe v = .ok w ∧ storable w = true ∧ entryCount w = entryCount v

/-- The keys have texts that are different names of fields. -/
def NamedApart (es : List (Key × Obj)) : Prop :=
  ∃ names : List String, List.Forall₂ (fun e name => e.1.text = .ok name) es names ∧
    names.Nodup ∧ ∀ name ∈ names, isFieldName name = true

/-- Integers, also those of decimals, have 64 bits; the keys of a dict have texts that tell them
apart; and what an enum stands for can be stored. -/
inductive Clean : Obj → Prop
  | none : Clean .none
  | bool (b : Bool) : Clean (.bool b)
  | int {n : Int} (h : inInt64 n = true) : Clean (.int n)
  | float (text : String) : Clean (.float text)
  | str (s : String) : Clean (.str s)
  | list {xs : List Obj} (h : ∀ x ∈ xs, Clean x) : Clean (.list xs)
  | tuple {xs : List Obj} (h : ∀ x ∈ xs, Clean x) : Clean (.tuple xs)
  | set {xs : List Obj} (h : ∀ x ∈ xs, Clean x) : Clean (.set xs)
  | dict {es : List (Key × Obj)} (hkeys : NamedApart es) (h : ∀ e ∈ es, Clean e.2) :
      Clean (.dict es)
  | decimal {d : DecimalValue} {str : String}
      (h : ∀ x, d = .finite x → x.den = 1 → inInt64 x.num = true) : Clean (.decimal d str)
  | date (isoformat : String) : Clean (.date isoformat)
  | datetime (isoformat : String) : Clean (.datetime isoformat)
  | enum {value : Obj} (h : storable value = true) : Clean (.enum value)

/-- What a field and its value count -/
def fieldCount (f : String × Obj) : Nat := 1 + entryCount f.2

theorem sum_dictBy_le (fields : List (String × Obj)) :
    ((dictBy Prod.fst fields).map fieldCount).sum ≤ (fields.map fieldCount).sum := by
  rw [← KeyedLists.sum_dictBy Prod.fst fieldCount fields]
  exact Nat.le_add_right _ _

/-- Names that hide no field are different. -/
theorem nodup_of_sum_le (h : (fields.map fieldCount).sum ≤
    ((dictBy Prod.fst fields).map fieldCount).sum) : (fields.map Prod.fst).Nodup := by
  have hsum := KeyedLists.sum_dictBy Prod.fst fieldCount fields
  refine KeyedLists.hidden_eq_nil_iff.mp ?_
  cases hhidden : KeyedLists.hidden Prod.fst fields with
  | nil => rfl
  | cons f rest =>
      rw [hhidden, List.map_cons, List.sum_cons, fieldCount] at hsum
      omega

/-- The conversion adds no entries. -/
theorem entryCount_le (h : bsonSafe v = .ok w) : entryCount w ≤ entryCount v := by
  induction v generalizing w with
  | list xs ih | tuple xs ih | set xs ih =>
      obtain ⟨ws, hws, rfl⟩ := listOf_eq_ok.mp h
      rw [entryCount, entryCount, entryCounts_eq, entryCounts_eq]
      exact sum_map_le (forall₂_of_mem hws fun x hx w hw => ih x hx hw)
  | dict es ih =>
      obtain ⟨fields, hfields, rfl⟩ := bsonSafe_dict_eq_ok.mp h
      rw [entryCount_document, entryCount, entryCountEntries_eq]
      calc ((dictBy Prod.fst fields).map fieldCount).sum
          ≤ (fields.map fieldCount).sum := sum_dictBy_le fields
        _ ≤ (es.map fun e => 1 + entryCount e.2).sum :=
            sum_map_le (forall₂_of_mem hfields fun e he f hf =>
              Nat.add_le_add_left (ih e he hf.2) 1)
  | decimal d str =>
      cases h
      cases d with
      | finite x =>
          rw [bsonSafeDecimal]
          split <;> exact le_rfl
      | _ => exact le_rfl
  | enum v ih =>
      cases h
      exact le_rfl
  | none | bool | int | float | str | datetime | date =>
      cases h
      exact le_rfl

/-- A list is kept if its elements are. -/
theorem kept_of_forall (h : ∀ x ∈ xs, Kept x) : ∃ ws,
    Obj.list <$> bsonSafeList xs = .ok (.list ws) ∧ storable (.list ws) = true ∧
      entryCounts ws = entryCounts xs := by
  obtain ⟨ws, hws⟩ := exists_forall₂ h
  refine ⟨ws, listOf_eq_ok.mpr ⟨ws, hws.imp fun _ _ h => h.1, rfl⟩, ?_, ?_⟩
  · refine storableList_iff.mpr fun w hw => ?_
    obtain ⟨x, -, h⟩ := exists_of_mem_right hws w hw
    exact h.2.1
  · rw [entryCounts_eq, entryCounts_eq]
    exact sum_map_eq (hws.imp fun _ _ h => h.2.2)

theorem kept_of_listOf (hw : Obj.list <$> bsonSafeList xs = .ok w) (hstorable : storable w = true)
    (hcount : entryCount w = entryCounts xs) : ∀ x ∈ xs, Kept x := by
  obtain ⟨ws, hws, rfl⟩ := listOf_eq_ok.mp hw
  rw [storable, storableList_iff] at hstorable
  rw [entryCount, entryCounts_eq, entryCounts_eq] at hcount
  have hle := hws.imp fun _ _ h => entryCount_le h
  intro x hx
  obtain ⟨w, hw, hsafe, heq⟩ :=
    exists_of_mem_left (forall₂_and hws (eq_of_sum_map_eq hle hcount)) x hx
  exact ⟨w, hsafe, hstorable w hw, heq⟩

/-- A dict is kept if its values are, and its keys tell its entries apart. -/
theorem kept_dict (hkeys : NamedApart es) (h : ∀ e ∈ es, Kept e.2) : Kept (.dict es) := by
  obtain ⟨names, hnames, hnodup, hfield⟩ := hkeys
  have hentry : ∀ e ∈ es, ∃ f, SavedEntry e f ∧ storable f.2 = true ∧
      fieldCount f = 1 + entryCount e.2 := by
    intro e he
    obtain ⟨name, -, hname⟩ := exists_of_mem_left hnames e he
    obtain ⟨w, hw, hstorable, hcount⟩ := h e he
    exact ⟨(name, w), ⟨hname, hw⟩, hstorable, congrArg (1 + ·) hcount⟩
  obtain ⟨fields, hfields⟩ := exists_forall₂ hentry
  have hsaved : List.Forall₂ SavedEntry es fields := hfields.imp fun _ _ h => h.1
  have heq : fields.map Prod.fst = names := by
    have htexts : List.Forall₂ (fun e name => e.1.text = .ok name) es (fields.map Prod.fst) :=
      List.forall₂_map_right_iff.mpr (hsaved.imp fun _ _ h => h.1)
    refine List.right_unique_forall₂' (fun e name name' h h' => ?_) htexts hnames
    exact Except.ok.inj (h.symm.trans h')
  subst heq
  rw [List.forall_mem_map] at hfield
  refine ⟨document fields, ?_, ?_, ?_⟩
  · rw [bsonSafe_dict_eq_ok]
    exact ⟨fields, hsaved, by rw [KeyedLists.dictBy_of_nodup hnodup]⟩
  · refine storable_document.mpr ⟨hnodup, fun f hf => ⟨hfield f hf, ?_⟩⟩
    obtain ⟨e, -, h⟩ := exists_of_mem_right hfields f hf
    exact h.2.1
  · rw [entryCount_document, entryCount, entryCountEntries_eq]
    exact sum_map_eq (hfields.imp fun _ _ h => h.2.2)

theorem Kept.of_dict (h : Kept (.dict es)) : NamedApart es ∧ ∀ e ∈ es, Kept e.2 := by
  obtain ⟨w, hw, hstorable, hcount⟩ := h
  obtain ⟨fields, hfields, rfl⟩ := bsonSafe_dict_eq_ok.mp hw
  have hle : List.Forall₂ (fun e f => fieldCount f ≤ 1 + entryCount e.2) es fields :=
    hfields.imp fun _ _ h => Nat.add_le_add_left (entryCount_le h.2) 1
  rw [entryCount_document, entryCount, entryCountEntries_eq] at hcount
  have hnodup : (fields.map Prod.fst).Nodup := nodup_of_sum_le ((sum_map_le hle).trans hcount.ge)
  rw [KeyedLists.dictBy_of_nodup hnodup] at hstorable hcount
  obtain ⟨-, hstored⟩ := storable_document.mp hstorable
  constructor
  · refine ⟨fields.map Prod.fst, ?_, hnodup, ?_⟩
    · exact List.forall₂_map_right_iff.mpr (hfields.imp fun _ _ h => h.1)
    · rw [List.forall_mem_map]
      exact fun f hf => (hstored f hf).1
  · intro e he
    obtain ⟨f, hf, hsaved, heq⟩ :=
      exists_of_mem_left (forall₂_and hfields (eq_of_sum_map_eq hle hcount)) e he
    exact ⟨f.2, hsaved.2, (hstored f hf).2, Nat.add_left_cancel heq⟩

theorem Clean.kept (h : Clean v) : Kept v := by
  induction h with
  | list _ ih | tuple _ ih | set _ ih =>
      obtain ⟨ws, hws, hstorable, hcount⟩ := kept_of_forall ih
      exact ⟨.list ws, hws, hstorable, hcount⟩
  | dict hkeys _ ih => exact kept_dict hkeys ih
  | @decimal d str h =>
      cases d with
      | finite x =>
          by_cases hx : x.den = 1
          · refine ⟨.int x.num, ?_, h x rfl hx, rfl⟩
            rw [bsonSafe, bsonSafeDecimal, if_pos hx]
          · refine ⟨.float str, ?_, rfl, rfl⟩
            rw [bsonSafe, bsonSafeDecimal, if_neg hx]
      | _ => exact ⟨_, rfl, rfl, rfl⟩
  | enum h => exact ⟨_, rfl, h, rfl⟩
  | int h => exact ⟨_, rfl, h, rfl⟩
  | _ => exact ⟨_, rfl, rfl, rfl⟩

theorem Kept.clean (h : Kept v) : Clean v := by
  induction v with
  | list xs ih =>
      obtain ⟨w, hw, hstorable, hcount⟩ := h
      exact .list fun x hx => ih x hx (kept_of_listOf hw hstorable hcount x hx)
  | tuple xs ih =>
      obtain ⟨w, hw, hstorable, hcount⟩ := h
      exact .tuple fun x hx => ih x hx (kept_of_listOf hw hstorable hcount x hx)
  | set xs ih =>
      obtain ⟨w, hw, hstorable, hcount⟩ := h
      exact .set fun x hx => ih x hx (kept_of_listOf hw hstorable hcount x hx)
  | dict es ih => exact .dict h.of_dict.1 fun e he => ih e he (h.of_dict.2 e he)
  | int n =>
      obtain ⟨w, hw, hstorable, -⟩ := h
      cases hw
      exact .int hstorable
  | decimal d str =>
      obtain ⟨w, hw, hstorable, -⟩ := h
      cases hw
      refine .decimal fun x hd hx => ?_
      subst hd
      rwa [bsonSafeDecimal, if_pos hx] at hstorable
  | enum v ih =>
      obtain ⟨w, hw, hstorable, -⟩ := h
      cases hw
      exact .enum hstorable
  | none | bool | float | str | datetime | date => constructor

/-! ## Checkpoints -/

/-- A node's result, whose numbers are counts and times of the executor -/
structure NodeRecord where
  nodeId : String
  status : NodeExecutionStatus
  outputData : Obj
  outputType : Option String
  error : Option String
  retryCount : Int
  retryErrors : List String
  startedAt : Option String
  completedAt : Option String
  durationMs : Option Int
  retryCount_inInt64 : inInt64 retryCount = true
  durationMs_inInt64 : ∀ ms ∈ durationMs, inInt64 ms = true

/-- The record of a run. The names in its dicts are names of fields, and its data apart from the
nodes' outputs is clean. -/
structure Checkpoint where
  executionId : String
  workflowId : String
  userId : String
  status : ExecutionStatus
  trigger : String
  triggerData : List (String × Obj)
  environment : String
  currentNode : Option String
  pausedAtNode : Option String
  approvalId : Option String
  nodeResults : List (String × NodeRecord)
  vars : List (String × Obj)
  error : Option String
  startedAt : Option String
  completedAt : Option String
  nodeIds : (nodeResults.map Prod.fst).Nodup ∧ ∀ r ∈ nodeResults, isFieldName r.1 = true
  triggerNames : (triggerData.map Prod.fst).Nodup ∧ ∀ f ∈ triggerData, isFieldName f.1 = true
  variableNames : (vars.map Prod.fst).Nodup ∧ ∀ f ∈ vars, isFieldName f.1 = true
  data : ∀ f ∈ triggerData ++ vars, Clean f.2

/-- A field that may be `None` -/
def optional {α : Type} (f : α → Obj) : Option α → Obj
  | some x => f x
  | none => .none

/-- `model_dump` of a node's result -/
def NodeRecord.dump (r : NodeRecord) : Obj :=
  document
    [("node_id", .str r.nodeId),
      ("status", .enum (.str r.status.value)),
      ("output_data", r.outputData),
      ("output_type", optional .str r.outputType),
      ("error", optional .str r.error),
      ("retry_count", .int r.retryCount),
      ("retry_errors", .list (r.retryErrors.map .str)),
      ("started_at", optional .datetime r.startedAt),
      ("completed_at", optional .datetime r.completedAt),
      ("duration_ms", optional .int r.durationMs)]

/-- `execution.model_dump()` -/
def Checkpoint.dump (c : Checkpoint) : Obj :=
  document
    [("execution_id", .str c.executionId),
      ("workflow_id", .str c.workflowId),
      ("user_id", .str c.userId),
      ("status", .enum (.str c.status.value)),
      ("trigger", .str c.trigger),
      ("trigger_data", document c.triggerData),
      ("environment", .str c.environment),
      ("current_node", optional .str c.currentNode),
      ("paused_at_node", optional .str c.pausedAtNode),
      ("approval_id", optional .str c.approvalId),
      ("node_results", document (c.nodeResults.map fun r => (r.1, r.2.dump))),
      ("variables", document c.vars),
      ("error", optional .str c.error),
      ("started_at", optional .datetime c.startedAt),
      ("completed_at", optional .datetime c.completedAt)]

/-- `s.value if hasattr(s, "value") else s` -/
def statusValue : Obj → Obj
  | .enum value => value
  | v => v

/-- `d[name] = f(d[name])`, where the dict has the key -/
def updateField (name : String) (f : Obj → Obj) : Obj → Obj
  | .dict es => .dict (es.map fun
      | (.str s, v) => (.str s, if s = name then f v else v)
      | e => e)
  | v => v

/-- The loop over the values of a dict -/
def updateValues (f : Obj → Obj) : Obj → Obj
  | .dict es => .dict (es.map fun e => (e.1, f e.2))
  | v => v

/-- The statuses of the document are converted once more. -/
def convertStatuses (doc : Obj) : Obj :=
  updateField "node_results" (updateValues (updateField "status" statusValue))
    (updateField "status" statusValue doc)

/-- `_save_execution`: what `update_one` writes; `none` if an exception is logged instead -/
def saveExecution (c : Checkpoint) : Option Obj :=
  match bsonSafe c.dump with
  | .error _ => none
  | .ok doc =>
      let doc := convertStatuses doc
      if storable doc then some doc else none

/-! ## Saving a checkpoint -/

theorem clean_document (hnodup : (fields.map Prod.fst).Nodup)
    (h : ∀ f ∈ fields, isFieldName f.1 = true ∧ Clean f.2) : Clean (document fields) := by
  refine .dict ⟨fields.map Prod.fst, ?_, hnodup, ?_⟩ ?_
  · rw [List.forall₂_map_left_iff, List.forall₂_map_right_iff, List.forall₂_same]
    exact fun _ _ => rfl
  · rw [List.forall_mem_map]
    exact fun f hf => (h f hf).1
  · rw [List.forall_mem_map]
    exact fun f hf => (h f hf).2

theorem clean_optional {α : Type} {f : α → Obj} {x : Option α} (h : ∀ a ∈ x, Clean (f a)) :
    Clean (optional f x) := by
  cases x with
  | none => exact .none
  | some a => exact h a rfl

theorem NodeRecord.clean_dump {r : NodeRecord} (h : Clean r.outputData) : Clean r.dump := by
  refine clean_document (by simp only [List.map_cons, List.map_nil]; decide) ?_
  simp only [List.forall_mem_cons, List.not_mem_nil, false_implies, implies_true, and_true]
  refine ⟨⟨by decide, .str _⟩, ⟨by decide, .enum rfl⟩, ⟨by decide, h⟩,
    ⟨by decide, clean_optional fun _ _ => .str _⟩, ⟨by decide, clean_optional fun _ _ => .str _⟩,
    ⟨by decide, .int r.retryCount_inInt64⟩, ⟨by decide, .list ?_⟩,
    ⟨by decide, clean_optional fun _ _ => .datetime _⟩,
    ⟨by decide, clean_optional fun _ _ => .datetime _⟩,
    ⟨by decide, clean_optional fun ms hms => .int (r.durationMs_inInt64 ms hms)⟩⟩
  rw [List.forall_mem_map]
  exact fun _ _ => .str _

theorem Checkpoint.clean_dump {c : Checkpoint}
    (h : ∀ r ∈ c.nodeResults, Clean r.2.outputData) : Clean c.dump := by
  have hresults : Clean (document (c.nodeResults.map fun r => (r.1, r.2.dump))) := by
    refine clean_document ?_ ?_
    · rw [List.map_map]
      exact c.nodeIds.1
    · rw [List.forall_mem_map]
      exact fun r hr => ⟨c.nodeIds.2 r hr, NodeRecord.clean_dump (h r hr)⟩
  have htrigger : Clean (document c.triggerData) :=
    clean_document c.triggerNames.1 fun f hf =>
      ⟨c.triggerNames.2 f hf, c.data f (List.mem_append_left _ hf)⟩
  have hvariables : Clean (document c.vars) :=
    clean_document c.variableNames.1 fun f hf =>
      ⟨c.variableNames.2 f hf, c.data f (List.mem_append_right _ hf)⟩
  refine clean_document (by simp only [List.map_cons, List.map_nil]; decide) ?_
  simp only [List.forall_mem_cons, List.not_mem_nil, false_implies, implies_true, and_true]
  exact ⟨⟨by decide, .str _⟩, ⟨by decide, .str _⟩, ⟨by decide, .str _⟩, ⟨by decide, .enum rfl⟩,
    ⟨by decide, .str _⟩, ⟨by decide, htrigger⟩, ⟨by decide, .str _⟩,
    ⟨by decide, clean_optional fun _ _ => .str _⟩, ⟨by decide, clean_optional fun _ _ => .str _⟩,
    ⟨by decide, clean_optional fun _ _ => .str _⟩, ⟨by decide, hresults⟩, ⟨by decide, hvariables⟩,
    ⟨by decide, clean_optional fun _ _ => .str _⟩,
    ⟨by decide, clean_optional fun _ _ => .datetime _⟩,
    ⟨by decide, clean_optional fun _ _ => .datetime _⟩⟩

theorem statusValue_of_storable (h : storable v = true) : statusValue v = v := by
  cases v with
  | enum => cases h
  | _ => rfl

theorem updateField_of_storable {name : String} {f : Obj → Obj}
    (hf : ∀ v, storable v = true → f v = v) (h : storable v = true) :
    updateField name f v = v := by
  cases v with
  | dict es =>
      rw [storable, Bool.and_eq_true, storableEntries_iff] at h
      refine congrArg Obj.dict ((List.map_congr_left fun e he => ?_).trans (List.map_id es))
      obtain ⟨k, v⟩ := e
      cases k with
      | str s =>
          dsimp only
          rw [hf v (h.2 _ he).2, ite_self]
          rfl
      | _ => rfl
  | _ => rfl

theorem updateValues_of_storable {f : Obj → Obj} (hf : ∀ v, storable v = true → f v = v)
    (h : storable v = true) : updateValues f v = v := by
  cases v with
  | dict es =>
      rw [storable, Bool.and_eq_true, storableEntries_iff] at h
      refine congrArg Obj.dict ((List.map_congr_left fun e he => ?_).trans (List.map_id es))
      rw [hf e.2 (h.2 e he).2]
      rfl
  | _ => rfl

/-- The statuses are converted already. -/
theorem convertStatuses_of_storable (h : storable v = true) : convertStatuses v = v := by
  have hstatus : ∀ {v}, storable v = true → updateField "status" statusValue v = v :=
    updateField_of_storable fun _ => statusValue_of_storable
  rw [convertStatuses, hstatus h]
  exact updateField_of_storable (fun v => updateValues_of_storable fun v => hstatus) h

theorem saveExecution_isSome {c : Checkpoint} (h : ∀ r ∈ c.nodeResults, Clean r.2.outputData) :
    (saveExecution c).isSome = true := by
  obtain ⟨doc, hdoc, hstorable, -⟩ := (Checkpoint.clean_dump h).kept
  rw [saveExecution, hdoc]
  dsimp only
  rw [convertStatuses_of_storable hstorable, if_pos hstorable]
  rfl

/-- The value is saved as one that can be stored, with all of its entries; saving that changes
nothing; and a run whose nodes put out the value, or none, is checkpointed. -/
structure Faithful (v : Obj) : Prop where
  kept : Kept v
  settled : ∀ w, bsonSafe v = .ok w → bsonSafe w = .ok w
  saved : ∀ c : Checkpoint,
    (∀ r ∈ c.nodeResults, r.2.outputData = v ∨ r.2.outputData = .none) →
    (saveExecution c).isSome = true

/-- Exactly the clean values are saved faithfully. -/
theorem faithful_iff (v : Obj) : Faithful v ↔ Clean v := by
  constructor
  · exact fun h => h.kept.clean
  · intro h
    obtain ⟨w, hw, hstorable, hcount⟩ := h.kept
    refine ⟨⟨w, hw, hstorable, hcount⟩, fun w' hw' => ?_, fun c hc => saveExecution_isSome ?_⟩
    · obtain rfl := Except.ok.inj (hw.symm.trans hw')
      exact bsonSafe_of_storable hstorable
    · intro r hr
      rcases hc r hr with heq | heq <;> rw [heq]
      · exact h
      · exact .none

theorem merged_entries : bsonSafe (.dict [(.int 1, .str "a"), (.str "1", .str "b")]) =
    .ok (document [("1", .str "b")]) := by
  have htext : intText 1 = .ok "1" := if_neg (by decide)
  refine bsonSafe_dict_eq_ok.mpr ⟨[("1", .str "a"), ("1", .str "b")], ?_, rfl⟩
  exact .cons ⟨htext, rfl⟩ (.cons ⟨rfl, rfl⟩ .nil)

/-- Of two entries with the keys 1 and "1" one is saved, and 2 ** 63 is left as it is. -/
theorem entry_merged :
    (¬∀ v, Faithful v) ∧
      bsonSafe (.dict [(.int 1, .str "a"), (.str "1", .str "b")]) =
        .ok (document [("1", .str "b")]) ∧
      bsonSafe (.int (2 ^ 63)) = .ok (.int (2 ^ 63)) ∧ storable (.int (2 ^ 63)) = false := by
  refine ⟨fun h => ?_, merged_entries, rfl, rfl⟩
  obtain ⟨w, hw, -, hcount⟩ := (h _).kept
  cases merged_entries.symm.trans hw
  exact absurd hcount (by decide)

end Payloads

end CitraFlows
