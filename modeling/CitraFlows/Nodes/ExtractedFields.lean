-- SUMMARY: The normalization of extracted fields: which type each field is given, and when all records agree on it and keep it.
import CitraFlows.Lib.Doubles
import CitraFlows.Lib.ElementWise
import CitraFlows.Lib.KeyedLists
import CitraFlows.Nodes.Floats
import CitraFlows.Nodes.SentenceCleaning

/-!
# Extracted fields

`_normalize_extracted_fields` gives every field one way to convert its values, by hints in its name
or by the type that most of its values have. The records are what `json.loads` reads, so a float may
be an infinity or no number.

Not modelled: the sign of a zero.
-/

namespace CitraFlows

open Doubles (Double FloatValue floatLimit toDouble toDouble_int toDouble_of_number)
open ElementWise
open SentenceCleaning (cleaned untidy visible)

namespace ExtractedFields

/-! ## Values -/

/-- A value of a record -/
inductive Data where
  | none
  | bool (b : Bool)
  | int (n : Int)
  | float (x : Double)
  | str (s : String)
  | list (xs : List Data)
  | dict (fields : List (String × Data))

/-- `type(value).__name__` -/
def Data.typeName : Data → String
  | .none => "NoneType"
  | .bool _ => "bool"
  | .int _ => "int"
  | .float _ => "float"
  | .str _ => "str"
  | .list _ => "list"
  | .dict _ => "dict"

/-- `bool(value)` -/
def Data.truthy : Data → Bool
  | .none => false
  | .bool b => b
  | .int n => n ≠ 0
  | .float x => x.value ≠ .number 0
  | .str s => s ≠ ""
  | .list xs => !xs.isEmpty
  | .dict fields => !fields.isEmpty

/-! ## Numbers -/

/-- An exception of a conversion to a number -/
inductive NumberError where
  | overflowError (message : String)
  | valueError (message : String)

/-- The first number that is found, if nothing raises before -/
def firstNumber : List (Except NumberError (Option Double)) → Except NumberError (Option Double)
  | [] => .ok none
  | .ok none :: rest => firstNumber rest
  | r :: _ => r

mutual

/-- `_to_number` -/
def toNumber : Data → Except NumberError (Option Double)
  | .none => .ok none
  | .bool b => .ok (some (toDouble (if b then 1 else 0)))
  | .int n =>
      if floatLimit ≤ n.natAbs then .error (.overflowError "int too large to convert to float")
      else .ok (some (toDouble n))
  | .float x => .ok (some x)
  | .str s => .ok ((RulesText.searchNumber s.toList).map toDouble)
  | .list xs => headNumber xs
  | .dict fields =>
      match ["score", "value", "amount", "total"].findSome? fun k =>
          List.lookup k (fieldNumbers fields) with
      | some r => r
      | none => firstNumber ((fieldNumbers fields).map Prod.snd)

def headNumber : List Data → Except NumberError (Option Double)
  | [] => .ok none
  | v :: _ => toNumber v

def fieldNumbers :
    List (String × Data) → List (String × Except NumberError (Option Double))
  | [] => []
  | p :: ps => fieldNumber p :: fieldNumbers ps

def fieldNumber : String × Data → String × Except NumberError (Option Double)
  | (k, v) => (k, toNumber v)

end

/-- `int(n) if n == int(n) else n` -/
def wholeNumber (n : Double) : Except NumberError Data :=
  match n.value with
  | .number x => .ok (if x.den = 1 then .int x.num else .float n)
  | .infinite _ => .error (.overflowError "cannot convert float infinity to integer")
  | .nan => .error (.valueError "cannot convert float NaN to integer")

/-! ## The strategy of a field -/

/-- `_NUMERIC_HINTS` -/
def numericHints : List String :=
  ["score", "salary", "rating", "revenue", "age", "experience_years", "years", "amount", "price",
    "cost", "evaluation"]

/-- `_LIST_HINTS` -/
def listHints : List String :=
  ["skills", "experiences", "educations", "qualifications", "languages", "certifications",
    "projects", "achievements", "responsibilities"]

/-- `field.lower().replace(" ", "_")` -/
def fieldLower (field : String) : List Char :=
  (Python.lower field.toList).map fun c => if c = ' ' then '_' else c

/-- `any(h in field_lower for h in hints)` -/
def hinted (hints : List String) (field : String) : Bool :=
  hints.any fun h => h.toList <:+: fieldLower field

/-- The name of the type that most values have; of several the first one -/
def majorityType (names : List String) : String :=
  (names.eraseDups.find? fun t =>
    names.eraseDups.all fun u => names.count u ≤ names.count t).getD "str"

/-- How the values of a field are converted -/
inductive Strategy where
  | numeric
  | listed
  | wrapList
  | wrapDict
  | clean
  deriving DecidableEq

def strategy (field : String) (vals : List Data) : Strategy :=
  if hinted numericHints field then .numeric
  else if hinted listHints field then .listed
  else if majorityType (vals.map Data.typeName) = "list" then .wrapList
  else if majorityType (vals.map Data.typeName) = "dict" then .wrapDict
  else .clean

/-- `[p.strip() for p in re.split(r'[,;]\s*', text) if p.strip()]`, where the white space after a
separator is stripped as well -/
def splitParts (s : String) : List Data :=
  (((s.toList.splitOnP fun c => c = ',' ∨ c = ';').map Python.strip).filter (· ≠ [])).map
    fun part => .str (String.ofList part)

/-- The value that takes the place of a value -/
def convert : Strategy → Data → Except NumberError Data
  | .numeric, v => do
      match ← toNumber v with
      | none => return v
      | some n => wholeNumber n
  | .listed, .str s => .ok (.list (splitParts s))
  | .listed, .list xs => .ok (.list xs)
  | .listed, v => .ok (.list [v])
  | .wrapList, .list xs => .ok (.list xs)
  | .wrapList, v => .ok (.list (if v.truthy then [v] else []))
  | .wrapDict, .dict fields => .ok (.dict fields)
  | .wrapDict, v => .ok (.dict [("value", v)])
  | .clean, .str s => .ok (.str (String.ofList (cleaned s.toList)))
  | .clean, v => .ok v

/-! ## Normalization -/

/-- A record, as a dict -/
abbrev Item := List (String × Data)

/-- `[item.get(field) for item in items if field in item]` -/
def values (field : String) (items : List Item) : List Data := items.filterMap (List.lookup field)

/-- `if field in item: item[field] = …` -/
def normalizeItem (st : Strategy) (field : String) (item : Item) : Except NumberError Item :=
  match item.lookup field with
  | none => .ok item
  | some v => do return KeyedLists.put Prod.fst (field, ← convert st v) item

/-- One iteration of the loop over the fields -/
def normalizeField (items : List Item) (field : String) : Except NumberError (List Item) :=
  if (values field items).isEmpty then .ok items
  else items.mapM (normalizeItem (strategy field (values field items)) field)

/-- `_normalize_extracted_fields` for a list of dicts -/
def normalizeExtractedFields (items : List Item) (fields : List String) :
    Except NumberError (List Item) :=
  fields.foldlM normalizeField items

/-! ## One value -/

inductive Kind where
  | number
  | list
  | dict
  | string

/-- The kind of a value; none of them for `None` and the truth values -/
def kindOf : Data → Option Kind
  | .none | .bool _ => none
  | .int _ | .float _ => some .number
  | .str _ => some .string
  | .list _ => some .list
  | .dict _ => some .dict

/-- The value has no number, or one that is no infinity and no `nan`. -/
def Readable (v : Data) : Prop :=
  toNumber v = .ok none ∨ ∃ n x, toNumber v = .ok (some n) ∧ n.value = .number x

variable {v w : Data} {st : Strategy} {field : String} {vals vals' : List Data}

theorem wholeNumber_ok {n : Double} (h : wholeNumber n = .ok w) :
    kindOf w = some .number ∧ toNumber w = .ok (some n) := by
  unfold wholeNumber at h
  split at h
  next x hx =>
    cases h
    split
    next hden =>
      have hnum : ((x.num : Int) : Rat) = x := Rat.coe_int_num_of_den_eq_one hden
      have hlt : ¬floatLimit ≤ x.num.natAbs := by
        have hlt := (n.number x hx).2
        rw [← hnum, ← Int.cast_abs, Int.abs_eq_natAbs] at hlt
        exact not_le.mpr (by exact_mod_cast hlt)
      refine ⟨rfl, ?_⟩
      rw [toNumber, if_neg hlt, hnum, toDouble_of_number hx]
    next => exact ⟨rfl, by rw [toNumber]⟩
  next => cases h
  next => cases h

theorem convert_numeric (h : convert .numeric v = .ok w) :
    toNumber v = .ok none ∧ w = v ∨
      ∃ n, toNumber v = .ok (some n) ∧ wholeNumber n = .ok w := by
  obtain ⟨number, hnumber, h⟩ := ok_of_bind h
  cases number with
  | none =>
      cases h
      exact .inl ⟨hnumber, rfl⟩
  | some n => exact .inr ⟨n, hnumber, h⟩

theorem readable_iff : Readable v ↔ ∃ w, convert .numeric v = .ok w := by
  constructor
  · rintro (h | ⟨n, x, h, hx⟩)
    · exact ⟨v, by rw [convert, h]; rfl⟩
    · refine ⟨if x.den = 1 then .int x.num else .float n, ?_⟩
      rw [convert, h]
      change wholeNumber n = _
      rw [wholeNumber, hx]
  · rintro ⟨w, hw⟩
    rcases convert_numeric hw with ⟨h, -⟩ | ⟨n, h, hwhole⟩
    · exact .inl h
    · refine .inr ⟨n, ?_⟩
      unfold wholeNumber at hwhole
      split at hwhole
      next x hx => exact ⟨x, h, hx⟩
      next => cases hwhole
      next => cases hwhole

/-- Only a number can end a conversion. -/
theorem exists_convert (h : st = .numeric → Readable v) : ∃ w, convert st v = .ok w := by
  cases st with
  | numeric => exact readable_iff.mp (h rfl)
  | listed | wrapList | wrapDict | clean => cases v <;> exact ⟨_, rfl⟩

/-- Apart from the cleaning of texts, converting again changes nothing. -/
theorem convert_convert (hst : st ≠ .clean) (h : convert st v = .ok w) : convert st w = .ok w := by
  cases st with
  | numeric =>
      rcases convert_numeric h with ⟨hnumber, rfl⟩ | ⟨n, -, hwhole⟩
      · exact h
      · rw [convert, (wholeNumber_ok hwhole).2]
        exact hwhole
  | listed | wrapList | wrapDict =>
      cases v <;> cases h <;> rfl
  | clean => exact absurd rfl hst

/-- The kind of the value that takes the place of a value -/
theorem kindOf_convert (h : convert st v = .ok w) :
    match st with
    | .numeric => kindOf w = some .number ∨ toNumber v = .ok none ∧ w = v
    | .listed | .wrapList => kindOf w = some .list
    | .wrapDict => kindOf w = some .dict
    | .clean => kindOf w = kindOf v := by
  cases st with
  | numeric =>
      rcases convert_numeric h with hnone | ⟨n, -, hwhole⟩
      · exact .inr hnone
      · exact .inl (wholeNumber_ok hwhole).1
  | listed | wrapList | wrapDict => cases v <;> cases h <;> rfl
  | clean => cases v <;> cases h <;> simp only [kindOf]

/-- Several conversions, one after the other -/
def convertTimes (st : Strategy) : Nat → Data → Except NumberError Data
  | 0, v => .ok v
  | n + 1, v => convert st v >>= convertTimes st n

theorem convertTimes_succ (hst : st ≠ .clean) (n : Nat) :
    convertTimes st (n + 1) v = .ok w ↔ convert st v = .ok w := by
  have hfixed : ∀ {w}, convert st w = .ok w → ∀ n, convertTimes st n w = .ok w := by
    intro w hw n
    induction n with
    | zero => rfl
    | succ n ih =>
        rw [convertTimes, hw]
        exact ih
  rw [convertTimes, bind_eq_ok]
  constructor
  · rintro ⟨u, hu, h⟩
    have heq := (hfixed (convert_convert hst hu) n).symm.trans h
    cases heq
    exact hu
  · exact fun h => ⟨w, h, hfixed (convert_convert hst h) n⟩

theorem convertTimes_clean (n : Nat) (s : String) :
    convertTimes .clean n (.str s) = .ok (.str (String.ofList (cleaned^[n] s.toList))) := by
  induction n generalizing s with
  | zero => rw [convertTimes, Function.iterate_zero, id, String.ofList_toList]
  | succ n ih =>
      change convertTimes .clean n (.str (String.ofList (cleaned s.toList))) = _
      rw [ih, String.toList_ofList, Function.iterate_succ_apply]

theorem convertTimes_clean_of_not_str (h : ∀ s, v ≠ .str s) (n : Nat) :
    convertTimes .clean n v = .ok v := by
  have hv : convert .clean v = .ok v := by
    cases v with
    | str s => exact absurd rfl (h s)
    | _ => rfl
  induction n with
  | zero => rfl
  | succ n ih =>
      rw [convertTimes, hv]
      exact ih

/-! ## The strategy is kept -/

theorem typeName_convert_wrapList (h : convert .wrapList v = .ok w) : w.typeName = "list" := by
  cases v <;> cases h <;> rfl

theorem typeName_convert_wrapDict (h : convert .wrapDict v = .ok w) : w.typeName = "dict" := by
  cases v <;> cases h <;> rfl

theorem typeName_convert_clean (h : convert .clean v = .ok w) : w.typeName = v.typeName := by
  cases v <;> cases h <;> simp only [Data.typeName]

/-- If all values have one type, it is that of the majority. -/
theorem majorityType_of_forall {names : List String} {t : String} (hne : names ≠ [])
    (h : ∀ u ∈ names, u = t) : majorityType names = t := by
  rw [majorityType]
  cases hdups : names.eraseDups with
  | nil =>
      obtain ⟨u, hu⟩ := List.exists_mem_of_ne_nil names hne
      rw [← List.mem_eraseDups, hdups] at hu
      cases hu
  | cons u rest =>
      have hmem : ∀ u' ∈ u :: rest, u' = t := by
        intro u' hu'
        rw [← hdups, List.mem_eraseDups] at hu'
        exact h u' hu'
      have hu : u = t := hmem u List.mem_cons_self
      rw [List.find?_cons_of_pos, Option.getD_some, hu]
      rw [List.all_eq_true]
      intro u' hu'
      rw [hmem u' hu', hu]
      exact decide_eq_true (Nat.le_refl _)

theorem strategy_of_hints_eq (hnumeric : hinted numericHints field = false)
    (hlist : hinted listHints field = false) : strategy field vals =
      if majorityType (vals.map Data.typeName) = "list" then .wrapList
      else if majorityType (vals.map Data.typeName) = "dict" then .wrapDict
      else .clean := by
  rw [strategy, hnumeric, if_neg Bool.false_ne_true, hlist, if_neg Bool.false_ne_true]

/-- The converted values are converted the same way. -/
theorem strategy_convert
    (h : List.Forall₂ (fun v w => convert (strategy field vals) v = .ok w) vals vals') :
    strategy field vals' = strategy field vals := by
  cases hnumeric : hinted numericHints field with
  | true => rw [strategy, strategy, hnumeric, if_pos rfl, if_pos rfl]
  | false =>
      cases hlist : hinted listHints field with
      | true => rw [strategy, strategy, hnumeric, hlist]; rfl
      | false =>
          rw [strategy_of_hints_eq hnumeric hlist] at h ⊢
          rw [strategy_of_hints_eq hnumeric hlist]
          cases vals with
          | nil =>
              cases h
              rfl
          | cons v vals =>
              have hne : vals'.map Data.typeName ≠ [] := by
                cases h
                simp
              split at h
              next hlists =>
                have hall : ∀ t ∈ vals'.map Data.typeName, t = "list" := by
                  rw [List.forall_mem_map]
                  intro w hw
                  obtain ⟨v, -, hv⟩ := exists_of_mem_right h w hw
                  exact typeName_convert_wrapList hv
                rw [majorityType_of_forall hne hall, if_pos rfl, if_pos hlists]
              next hlist =>
                split at h
                next hdicts =>
                  have hall : ∀ t ∈ vals'.map Data.typeName, t = "dict" := by
                    rw [List.forall_mem_map]
                    intro w hw
                    obtain ⟨v, -, hv⟩ := exists_of_mem_right h w hw
                    exact typeName_convert_wrapDict hv
                  rw [majorityType_of_forall hne hall, if_neg (by decide), if_pos rfl, if_neg hlist,
                    if_pos hdicts]
                next hdict =>
                  have hsame : vals'.map Data.typeName = (v :: vals).map Data.typeName := by
                    rw [← List.forall₂_eq_eq_eq, List.forall₂_map_left_iff,
                      List.forall₂_map_right_iff]
                    exact (h.imp fun _ _ h => (typeName_convert_clean h).symm).flip.imp
                      fun _ _ h => h.symm
                  rw [hsame, if_neg hlist, if_neg hdict]

/-! ## The run over the fields -/

variable {item item' : Item} {items items' : List Item} {fields : List String}

/-- The strategies of the fields -/
def plan (items : List Item) (field : String) : Strategy := strategy field (values field items)

theorem mem_values : v ∈ values field items ↔ ∃ item ∈ items, item.lookup field = some v :=
  List.mem_filterMap

/-- A relation between what the items have for a field is one between the values. -/
theorem values_forall₂ {R : Data → Data → Prop}
    (h : List.Forall₂ (fun item item' => Option.Rel R (item.lookup field) (item'.lookup field))
      items items') : List.Forall₂ R (values field items) (values field items') :=
  List.rel_filterMap (fun _ _ h => h) h

theorem normalizeItem_lookup (h : normalizeItem st field item = .ok item') :
    Option.Rel (fun v w => convert st v = .ok w) (item.lookup field) (item'.lookup field) ∧
      ∀ g, g ≠ field → item'.lookup g = item.lookup g := by
  unfold normalizeItem at h
  cases hlookup : item.lookup field with
  | none =>
      rw [hlookup] at h
      cases h
      rw [hlookup]
      exact ⟨.none, fun _ _ => rfl⟩
  | some v =>
      rw [hlookup] at h
      obtain ⟨w, hw, h⟩ := ok_of_bind h
      cases h
      rw [KeyedLists.lookup_put, if_pos rfl]
      exact ⟨.some hw, fun g hg => by rw [KeyedLists.lookup_put, if_neg hg]⟩

theorem normalizeField_eq_ok : normalizeField items field = .ok items' ↔
    List.Forall₂ (fun item item' => normalizeItem (plan items field) field item = .ok item')
      items items' := by
  rw [← mapM_eq_ok, normalizeField]
  split
  next hempty =>
    -- no item has the field
    have hnone : ∀ item ∈ items, normalizeItem (plan items field) field item = .ok item := by
      intro item hitem
      have hlookup : item.lookup field = none := by
        rw [List.isEmpty_iff, values, List.filterMap_eq_nil_iff] at hempty
        exact hempty item hitem
      rw [normalizeItem, hlookup]
    rw [mapM_eq_ok.mpr (List.forall₂_same.mpr hnone)]
  next => exact Iff.rfl

theorem plan_normalizeField (h : normalizeField items field = .ok items') :
    plan items' = plan items := by
  have hitems := normalizeField_eq_ok.mp h
  funext g
  by_cases hg : g = field
  · subst hg
    exact strategy_convert (values_forall₂ (hitems.imp fun _ _ h => (normalizeItem_lookup h).1))
  · have hsame : List.Forall₂ (fun v w => v = w) (values g items) (values g items') := by
      refine values_forall₂ (hitems.imp fun item item' h => ?_)
      rw [(normalizeItem_lookup h).2 g hg]
      cases item.lookup g with
      | none => exact .none
      | some v => exact .some rfl
    rw [List.forall₂_eq_eq_eq] at hsame
    rw [plan, plan, hsame]

/-- The fields of one item -/
def normalizeFields (σ : String → Strategy) (fields : List String) (item : Item) :
    Except NumberError Item :=
  fields.foldlM (fun item field => normalizeItem (σ field) field item) item

theorem normalize_eq_ok : normalizeExtractedFields items fields = .ok items' ↔
    List.Forall₂ (fun item item' => normalizeFields (plan items) fields item = .ok item')
      items items' := by
  induction fields generalizing items with
  | nil =>
      change Except.ok items = .ok items' ↔
        List.Forall₂ (fun item item' => Except.ok item = (.ok item' : Except NumberError Item)) _ _
      simp only [Except.ok.injEq]
      rw [List.forall₂_eq_eq_eq]
  | cons field fields ih =>
      have hrun : normalizeExtractedFields items (field :: fields) =
          normalizeField items field >>= fun mid => normalizeExtractedFields mid fields := rfl
      have hitem : ∀ item, normalizeFields (plan items) (field :: fields) item =
          normalizeItem (plan items field) field item >>= normalizeFields (plan items) fields :=
        fun _ => rfl
      simp only [hrun, hitem, bind_eq_ok, forall₂_comp]
      refine exists_congr fun mid => ?_
      rw [normalizeField_eq_ok]
      refine and_congr_right fun h => ?_
      rw [ih, plan_normalizeField (normalizeField_eq_ok.mpr h)]

theorem plan_normalize (h : normalizeExtractedFields items fields = .ok items') :
    plan items' = plan items := by
  induction fields generalizing items with
  | nil =>
      cases h
      rfl
  | cons field fields ih =>
      obtain ⟨mid, hmid, h⟩ := ok_of_bind h
      rw [ih h, plan_normalizeField hmid]

/-! ## The fields of one item -/

variable {σ : String → Strategy}

/-- A value is converted as often as its field is listed. -/
theorem normalizeFields_lookup (h : normalizeFields σ fields item = .ok item') (g : String) :
    Option.Rel (fun v w => convertTimes (σ g) (fields.count g) v = .ok w) (item.lookup g)
      (item'.lookup g) := by
  induction fields generalizing item with
  | nil =>
      cases h
      cases item'.lookup g with
      | none => exact .none
      | some v => exact .some rfl
  | cons field fields ih =>
      obtain ⟨mid, hmid, hrest⟩ := ok_of_bind h
      obtain ⟨hself, hother⟩ := normalizeItem_lookup hmid
      by_cases hg : g = field
      · subst hg
        rw [List.count_cons_self]
        exact optionRel_comp hself (ih hrest) fun v u w hu hw => bind_eq_ok.mpr ⟨u, hu, hw⟩
      · rw [List.count_cons_of_ne (Ne.symm hg), ← hother g hg]
        exact ih hrest

theorem exists_normalizeItem (h : ∀ v, item.lookup field = some v → ∃ w, convert st v = .ok w) :
    ∃ item', normalizeItem st field item = .ok item' := by
  cases hv : item.lookup field with
  | none => exact ⟨item, by rw [normalizeItem, hv]⟩
  | some v =>
      obtain ⟨w, hw⟩ := h v hv
      refine ⟨KeyedLists.put Prod.fst (field, w) item, ?_⟩
      rw [normalizeItem, hv]
      exact bind_eq_ok.mpr ⟨w, hw, rfl⟩

theorem exists_normalizeFields (h : ∀ g ∈ fields, ∀ v, item.lookup g = some v →
    ∃ w, convertTimes (σ g) (fields.count g) v = .ok w) :
    ∃ item', normalizeFields σ fields item = .ok item' := by
  induction fields generalizing item with
  | nil => exact ⟨item, rfl⟩
  | cons field fields ih =>
      obtain ⟨mid, hmid⟩ : ∃ mid, normalizeItem (σ field) field item = .ok mid := by
        refine exists_normalizeItem fun v hv => ?_
        obtain ⟨w, hw⟩ := h field List.mem_cons_self v hv
        rw [List.count_cons_self] at hw
        obtain ⟨u, hu, -⟩ := ok_of_bind hw
        exact ⟨u, hu⟩
      obtain ⟨hself, hother⟩ := normalizeItem_lookup hmid
      obtain ⟨item', hitem'⟩ : ∃ item', normalizeFields σ fields mid = .ok item' := by
        refine ih fun g hg u hu => ?_
        by_cases heq : g = field
        · subst heq
          rw [hu] at hself
          generalize hv : item.lookup g = x at hself
          cases hself with
          | some hconvert =>
              obtain ⟨w, hw⟩ := h g List.mem_cons_self _ hv
              rw [List.count_cons_self] at hw
              obtain ⟨u', hu', hw⟩ := ok_of_bind hw
              cases hconvert.symm.trans hu'
              exact ⟨w, hw⟩
        · rw [hother g heq] at hu
          obtain ⟨w, hw⟩ := h g (List.mem_cons_of_mem _ hg) u hu
          rw [List.count_cons_of_ne (Ne.symm heq)] at hw
          exact ⟨w, hw⟩
      exact ⟨item', bind_eq_ok.mpr ⟨mid, hmid, hitem'⟩⟩

/-- An item whose values are settled is left as it is. -/
theorem normalizeFields_self (h : ∀ g ∈ fields, ∀ v, item.lookup g = some v →
    convert (σ g) v = .ok v) : normalizeFields σ fields item = .ok item := by
  induction fields with
  | nil => rfl
  | cons field fields ih =>
      obtain ⟨hfield, hfields⟩ := List.forall_mem_cons.mp h
      have hstep : normalizeItem (σ field) field item = .ok item := by
        rw [normalizeItem]
        cases hv : item.lookup field with
        | none => rfl
        | some v =>
            refine bind_eq_ok.mpr ⟨v, hfield v hv, ?_⟩
            exact congrArg Except.ok (KeyedLists.put_of_lookup hv)
      change normalizeItem (σ field) field item >>= normalizeFields σ fields = _
      rw [hstep]
      exact ih hfields

/-! ## Consistent fields -/

/-- The values are all numbers, all lists, all dicts or all strings. -/
def SameKind (vals : List Data) : Prop := ∃ k : Kind, ∀ v ∈ vals, kindOf v = some k

/-- What the documented strategy converts: everything in a list field, numbers in a numeric field,
texts beside lists or dicts; other values stay as they are. -/
def Convertible (field : String) (vals : List Data) : Prop :=
  if hinted listHints field then True
  else
    match strategy field vals with
    | .numeric => ∀ v ∈ vals, ∃ n, toNumber v = .ok (some n)
    | .listed => True
    | .wrapList => ∀ v ∈ vals, kindOf v = some .list ∨ kindOf v = some .string
    | .wrapDict => ∀ v ∈ vals, kindOf v = some .dict ∨ kindOf v = some .string
    | .clean => SameKind vals

/-- The normalized records have one kind of values for each field that can be converted, and no new
number in a list field; and they are normalized already. -/
structure Normalized (items items' : List Item) (fields : List String) : Prop where
  kinds : ∀ f ∈ fields, Convertible f (values f items) → SameKind (values f items')
  lists : ∀ f ∈ fields, hinted listHints f = true →
    List.Forall₂ (fun v w => kindOf w = some .number → kindOf v = some .number)
      (values f items) (values f items')
  settled : normalizeExtractedFields items' fields = .ok items'

/-- The records are normalized. -/
def Consistent (items : List Item) (fields : List String) : Prop :=
  ∃ items', normalizeExtractedFields items fields = .ok items' ∧ Normalized items items' fields

/-- No value of a numeric field is an infinity or no number; if the field is a list field as well,
its values are of one kind, and numbers or without one; and no text that is only cleaned is untidy
before its last cleaning. -/
def GoodField (items : List Item) (fields : List String) (f : String) : Prop :=
  match plan items f with
  | .numeric =>
      (∀ v ∈ values f items, Readable v) ∧ (hinted listHints f = true →
        SameKind (values f items) ∧
          ∀ v ∈ values f items, kindOf v = some .number ∨ toNumber v = .ok none)
  | .clean =>
      ∀ s, .str s ∈ values f items →
        untidy (visible (cleaned^[fields.count f - 1] s.toList)) = false
  | .listed | .wrapList | .wrapDict => True

theorem sameKind_congr (h : List.Forall₂ (fun v w => kindOf w = kindOf v) vals vals') :
    SameKind vals ↔ SameKind vals' := by
  refine exists_congr fun k => ⟨fun hk w hw => ?_, fun hk v hv => ?_⟩
  · obtain ⟨v, hv, heq⟩ := exists_of_mem_right h w hw
    rw [heq, hk v hv]
  · obtain ⟨w, hw, heq⟩ := exists_of_mem_left h v hv
    rw [← heq, hk w hw]

/-- The values of a field before and after the run -/
theorem values_normalize (h : normalizeExtractedFields items fields = .ok items') (f : String) :
    List.Forall₂ (fun v w => convertTimes (plan items f) (fields.count f) v = .ok w)
      (values f items) (values f items') :=
  values_forall₂ ((normalize_eq_ok.mp h).imp fun _ _ h => normalizeFields_lookup h f)

/-- For a strategy other than cleaning, one conversion counts. -/
theorem values_convert (h : normalizeExtractedFields items fields = .ok items') {f : String}
    (hf : f ∈ fields) (hst : plan items f ≠ .clean) :
    List.Forall₂ (fun v w => convert (plan items f) v = .ok w) (values f items)
      (values f items') := by
  obtain ⟨n, hn⟩ := Nat.exists_eq_succ_of_ne_zero (List.count_pos_iff.mpr hf).ne'
  have hvalues := values_normalize h f
  rw [hn] at hvalues
  exact hvalues.imp fun _ _ h => (convertTimes_succ hst n).mp h

theorem convertTimes_clean_cases {n : Nat} (h : convertTimes .clean n v = .ok w) :
    (∃ s, v = .str s ∧ w = .str (String.ofList (cleaned^[n] s.toList))) ∨
      w = v ∧ ∀ s, v ≠ .str s := by
  by_cases hv : ∃ s, v = .str s
  · obtain ⟨s, rfl⟩ := hv
    rw [convertTimes_clean] at h
    exact .inl ⟨s, rfl, (Except.ok.inj h).symm⟩
  · have hnot : ∀ s, v ≠ .str s := fun s hs => hv ⟨s, hs⟩
    rw [convertTimes_clean_of_not_str hnot] at h
    exact .inr ⟨(Except.ok.inj h).symm, hnot⟩

theorem kindOf_convertTimes_clean {n : Nat} (h : convertTimes .clean n v = .ok w) :
    kindOf w = kindOf v := by
  rcases convertTimes_clean_cases h with ⟨s, rfl, rfl⟩ | ⟨rfl, -⟩
  · simp only [kindOf]
  · rfl

theorem count_eq_succ {f : String} (hf : f ∈ fields) :
    ∃ n, fields.count f = n + 1 ∧ fields.count f - 1 = n := by
  obtain ⟨n, hn⟩ := Nat.exists_eq_succ_of_ne_zero (List.count_pos_iff.mpr hf).ne'
  exact ⟨n, hn, by rw [hn]; rfl⟩

/-! ## From the run to the condition -/

theorem Normalized.good_numeric {f : String}
    (hrun : normalizeExtractedFields items fields = .ok items')
    (h : Normalized items items' fields) (hf : f ∈ fields) (hplan : plan items f = .numeric) :
    (∀ v ∈ values f items, Readable v) ∧ (hinted listHints f = true →
      SameKind (values f items) ∧
        ∀ v ∈ values f items, kindOf v = some .number ∨ toNumber v = .ok none) := by
  have hconvert := values_convert hrun hf (by rw [hplan]; decide)
  rw [hplan] at hconvert
  refine ⟨fun v hv => ?_, fun hlist => ?_⟩
  · obtain ⟨w, -, hw⟩ := exists_of_mem_left hconvert v hv
    exact readable_iff.mpr ⟨w, hw⟩
  · have hboth := forall₂_and hconvert (h.lists f hf hlist)
    have hsame : List.Forall₂ (fun v w => kindOf w = kindOf v) (values f items)
        (values f items') := by
      refine hboth.imp fun v w hvw => ?_
      rcases kindOf_convert hvw.1 with hnumber | ⟨-, rfl⟩
      · rw [hnumber, hvw.2 hnumber]
      · rfl
    have hconvertible : Convertible f (values f items) := by
      rw [Convertible, if_pos hlist]
      trivial
    refine ⟨(sameKind_congr hsame).mpr (h.kinds f hf hconvertible), fun v hv => ?_⟩
    obtain ⟨w, -, hvw⟩ := exists_of_mem_left hboth v hv
    exact (kindOf_convert hvw.1).imp hvw.2 And.left

theorem Normalized.good_clean {f : String}
    (hrun : normalizeExtractedFields items fields = .ok items')
    (h : Normalized items items' fields) (hf : f ∈ fields) (hplan : plan items f = .clean) :
    ∀ s, .str s ∈ values f items →
      untidy (visible (cleaned^[fields.count f - 1] s.toList)) = false := by
  intro s hs
  obtain ⟨n, hcount, hpred⟩ := count_eq_succ hf
  have hfirst := values_normalize hrun f
  have hsecond := List.forall₂_same.mp (values_normalize h.settled f)
  rw [plan_normalize hrun] at hsecond
  rw [hplan, hcount] at hfirst hsecond
  obtain ⟨w, hw, hsw⟩ := exists_of_mem_left hfirst _ hs
  rw [convertTimes_clean] at hsw
  obtain rfl := Except.ok.inj hsw
  have hfixed := hsecond _ hw
  rw [convertTimes_clean, Except.ok.injEq, Data.str.injEq, String.ofList_inj,
    String.toList_ofList] at hfixed
  rw [hpred]
  exact (SentenceCleaning.cleaned_iterate_iff n s.toList).mp hfixed

/-! ## From the condition to the run -/

theorem GoodField.exists_convertTimes {f : String} (h : GoodField items fields f)
    (hf : f ∈ fields) (hv : v ∈ values f items) :
    ∃ w, convertTimes (plan items f) (fields.count f) v = .ok w := by
  obtain ⟨n, hcount, -⟩ := count_eq_succ hf
  rw [hcount]
  by_cases hclean : plan items f = .clean
  · rw [hclean]
    by_cases hs : ∃ s, v = .str s
    · obtain ⟨s, rfl⟩ := hs
      exact ⟨_, convertTimes_clean _ s⟩
    · exact ⟨v, convertTimes_clean_of_not_str (fun s hs' => hs ⟨s, hs'⟩) _⟩
  · obtain ⟨w, hw⟩ : ∃ w, convert (plan items f) v = .ok w := by
      refine exists_convert fun hnumeric => ?_
      rw [GoodField, hnumeric] at h
      exact h.1 v hv
    exact ⟨w, (convertTimes_succ hclean n).mpr hw⟩

theorem GoodField.exists_run (h : ∀ f ∈ fields, GoodField items fields f) :
    ∃ items', normalizeExtractedFields items fields = .ok items' := by
  have hitem : ∀ item ∈ items, ∃ item', normalizeFields (plan items) fields item = .ok item' :=
    fun item hitem => exists_normalizeFields fun g hg v hv =>
      (h g hg).exists_convertTimes hg (mem_values.mpr ⟨item, hitem, hv⟩)
  obtain ⟨items', hitems⟩ := exists_forall₂ hitem
  exact ⟨items', normalize_eq_ok.mpr hitems⟩

theorem plan_of_listHint {f : String} (h : hinted listHints f = true) :
    plan items f = .numeric ∨ plan items f = .listed := by
  rw [plan, strategy, h]
  cases hinted numericHints f with
  | true => exact .inl rfl
  | false => exact .inr rfl

/-- In a field that is numeric and a list field, a value without a number stays, and a number
remains one. -/
theorem kindOf_convert_good (h : kindOf v = some .number ∨ toNumber v = .ok none)
    (hw : convert .numeric v = .ok w) : kindOf w = kindOf v := by
  rcases convert_numeric hw with ⟨-, rfl⟩ | ⟨n, hn, hwhole⟩
  · rfl
  · rcases h with hnumber | hnone
    · rw [(wholeNumber_ok hwhole).1, hnumber]
    · cases hnone.symm.trans hn

theorem GoodField.sameKind {f : String} (h : GoodField items fields f)
    (hrun : normalizeExtractedFields items fields = .ok items') (hf : f ∈ fields)
    (hconvertible : Convertible f (values f items)) : SameKind (values f items') := by
  have hof : ∀ k, (∀ v ∈ values f items, ∀ w, convert (plan items f) v = .ok w →
      kindOf w = some k) → plan items f ≠ .clean → SameKind (values f items') := by
    intro k hk hclean
    refine ⟨k, fun w hw => ?_⟩
    obtain ⟨v, hv, hvw⟩ := exists_of_mem_right (values_convert hrun hf hclean) w hw
    exact hk v hv w hvw
  rw [GoodField] at h
  unfold Convertible at hconvertible
  rw [← plan] at hconvertible
  cases hplan : plan items f with
  | numeric =>
      rw [hplan] at h hof hconvertible
      split at hconvertible
      next hlist =>
        obtain ⟨hsame, hvalues⟩ := h.2 hlist
        have hconvert := values_convert hrun hf (by rw [hplan]; decide)
        rw [hplan] at hconvert
        exact (sameKind_congr (forall₂_of_mem hconvert fun v hv w hw =>
          kindOf_convert_good (hvalues v hv) hw)).mp hsame
      next =>
        refine hof .number (fun v hv w hw => ?_) (by decide)
        obtain ⟨n, hn⟩ := hconvertible v hv
        rcases kindOf_convert hw with hnumber | ⟨hnone, -⟩
        · exact hnumber
        · cases hn.symm.trans hnone
  | listed =>
      rw [hplan] at hof
      exact hof .list (fun _ _ _ hw => kindOf_convert hw) (by decide)
  | wrapList =>
      rw [hplan] at hof
      exact hof .list (fun _ _ _ hw => kindOf_convert hw) (by decide)
  | wrapDict =>
      rw [hplan] at hof
      exact hof .dict (fun _ _ _ hw => kindOf_convert hw) (by decide)
  | clean =>
      rw [hplan] at hconvertible
      have hvalues := values_normalize hrun f
      rw [hplan] at hvalues
      split at hconvertible
      next hlist => cases hplan.symm.trans ((plan_of_listHint hlist).resolve_left (by simp [hplan]))
      next =>
        have hsame := sameKind_congr (hvalues.imp fun _ _ h => kindOf_convertTimes_clean h)
        exact hsame.mp hconvertible

theorem GoodField.lists {f : String} (h : GoodField items fields f)
    (hrun : normalizeExtractedFields items fields = .ok items') (hf : f ∈ fields)
    (hlist : hinted listHints f = true) :
    List.Forall₂ (fun v w => kindOf w = some .number → kindOf v = some .number)
      (values f items) (values f items') := by
  have hplan : plan items f = .numeric ∨ plan items f = .listed := plan_of_listHint hlist
  rcases hplan with hplan | hplan
  · have hconvert := values_convert hrun hf (by rw [hplan]; decide)
    rw [GoodField, hplan] at h
    rw [hplan] at hconvert
    refine forall₂_of_mem hconvert fun v hv w hw hnumber => ?_
    rw [← kindOf_convert_good ((h.2 hlist).2 v hv) hw, hnumber]
  · have hconvert := values_convert hrun hf (by rw [hplan]; decide)
    rw [hplan] at hconvert
    refine hconvert.imp fun v w hw hnumber => ?_
    cases hnumber.symm.trans (kindOf_convert hw)

theorem GoodField.settled {f : String} (h : GoodField items fields f)
    (hrun : normalizeExtractedFields items fields = .ok items') (hf : f ∈ fields)
    (hw : w ∈ values f items') : convert (plan items f) w = .ok w := by
  obtain ⟨n, hcount, hpred⟩ := count_eq_succ hf
  obtain ⟨v, hv, htimes⟩ := exists_of_mem_right (values_normalize hrun f) w hw
  rw [hcount] at htimes
  by_cases hclean : plan items f = .clean
  · rw [GoodField, hclean, hpred] at h
    rw [hclean] at htimes ⊢
    rcases convertTimes_clean_cases htimes with ⟨s, rfl, rfl⟩ | ⟨rfl, hnot⟩
    · have hfixed := SentenceCleaning.cleaned_cleaned_iff.mpr (h s hv)
      rw [← Function.iterate_succ_apply' cleaned] at hfixed
      rw [convert, String.toList_ofList, hfixed]
    · cases w with
      | str s => exact absurd rfl (hnot s)
      | _ => rfl
  · exact convert_convert hclean ((convertTimes_succ hclean n).mp htimes)

/-- The records are normalized if and only if every field is good. -/
theorem consistent_iff (items : List Item) (fields : List String) :
    Consistent items fields ↔ ∀ f ∈ fields, GoodField items fields f := by
  constructor
  · rintro ⟨items', hrun, h⟩ f hf
    unfold GoodField
    cases hplan : plan items f with
    | numeric => exact h.good_numeric hrun hf hplan
    | clean => exact h.good_clean hrun hf hplan
    | listed | wrapList | wrapDict => trivial
  · intro h
    obtain ⟨items', hrun⟩ := GoodField.exists_run h
    refine ⟨items', hrun, fun f hf => (h f hf).sameKind hrun hf,
      fun f hf => (h f hf).lists hrun hf, normalize_eq_ok.mpr (List.forall₂_same.mpr ?_)⟩
    rw [plan_normalize hrun]
    exact fun item hitem => normalizeFields_self fun g hg v hv =>
      (h g hg).settled hrun hg (mem_values.mpr ⟨item, hitem, hv⟩)

theorem toDouble_three : (toDouble 3).value = .number 3 := toDouble_int (n := 3) (by decide)

/-- The languages of a record, a list, become the number in the name of one of them. And a cleaned
text may be cleaned once more. -/
theorem languages_numbered :
    (¬∀ items fields, items ≠ [] → Consistent items fields) ∧
      normalizeExtractedFields [[("languages", .list [.str "Python 3"])]] ["languages"] =
        .ok [[("languages", .int 3)]] ∧
      cleaned "Java.;;fast".toList = "Java. ;fast".toList ∧
      cleaned "Java. ;fast".toList = "Java. fast".toList := by
  have hnumeric : plan [[("languages", .list [.str "Python 3"])]] "languages" = .numeric := by
    have hhint : hinted numericHints "languages" = true := by decide +kernel
    rw [plan, strategy, if_pos hhint]
  have hsearch : RulesText.searchNumber "Python 3".toList = some 3 := by decide +kernel
  have hnumber : toNumber (.list [.str "Python 3"]) = .ok (some (toDouble 3)) := by
    rw [toNumber, headNumber, toNumber, hsearch]
    rfl
  have hconvert : convert .numeric (.list [.str "Python 3"]) = .ok (.int 3) := by
    rw [convert]
    refine bind_eq_ok.mpr ⟨some (toDouble 3), hnumber, ?_⟩
    dsimp only
    rw [wholeNumber, toDouble_three]
    rfl
  have hrun : normalizeExtractedFields [[("languages", .list [.str "Python 3"])]] ["languages"] =
      .ok [[("languages", .int 3)]] := by
    have hlookup : List.lookup "languages" [("languages", Data.list [.str "Python 3"])] =
        some (.list [.str "Python 3"]) := rfl
    have hitem : normalizeItem .numeric "languages" [("languages", .list [.str "Python 3"])] =
        .ok [("languages", .int 3)] := by
      rw [normalizeItem, hlookup]
      dsimp only
      rw [hconvert]
      rfl
    rw [normalize_eq_ok]
    refine .cons (bind_eq_ok.mpr ⟨[("languages", .int 3)], ?_, rfl⟩) .nil
    rw [← hnumeric] at hitem
    exact hitem
  refine ⟨fun h => ?_, hrun, by decide +kernel, by decide +kernel⟩
  obtain ⟨items', hitems', hnormalized⟩ :=
    h [[("languages", .list [.str "Python 3"])]] ["languages"] (List.cons_ne_nil _ _)
  obtain rfl := Except.ok.inj (hrun.symm.trans hitems')
  have hlists := hnormalized.lists "languages" List.mem_cons_self (by decide +kernel)
  have hvalues : values "languages" [[("languages", .list [.str "Python 3"])]] =
      [.list [.str "Python 3"]] := rfl
  have hvalues' : values "languages" [[("languages", .int 3)]] = [.int 3] := rfl
  rw [hvalues, hvalues'] at hlists
  cases hlists with
  | cons hlist _ => cases hlist rfl

end ExtractedFields

end CitraFlows
