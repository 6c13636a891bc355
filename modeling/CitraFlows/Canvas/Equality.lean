-- SUMMARY: What the canvas draws for a node is the same for configs that are equal in the browser.
import CitraFlows.Assistant.Json
import CitraFlows.Canvas.OutputHandles

/-!
# Equality in the browser

Two configs that the browser cannot tell apart may differ in the order of their keys and in how a
number is written. The outputs of a node do not depend on either.
-/

namespace CitraFlows

namespace Value

/-! ## Canonical values -/

mutual

/-- The value as the browser has it: a number is its value, and a dict has its entries in the order
of their keys. -/
def canonical : Value → Value
  | .none => .none
  | .bool b => .bool b
  | .int n => .float ⟨n, ""⟩
  | .float x => .float ⟨x.val, ""⟩
  | .str s => .str s
  | .list xs => .list (canonicalList xs)
  | .dict fields => .dict ((canonicalFields fields).insertionSort (·.1 ≤ ·.1))

private def canonicalList : List Value → List Value
  | [] => []
  | v :: vs => canonical v :: canonicalList vs

private def canonicalFields : List (String × Value) → List (String × Value)
  | [] => []
  | p :: ps => canonicalField p :: canonicalFields ps

private def canonicalField : String × Value → String × Value
  | (k, v) => (k, canonical v)

end

private theorem canonicalList_eq (xs : List Value) : canonicalList xs = xs.map canonical := by
  induction xs with
  | nil => rfl
  | cons v vs ih => simp [canonicalList, ih]

private theorem canonicalFields_eq (fields : List (String × Value)) :
    canonicalFields fields = fields.map fun p => (p.1, p.2.canonical) := by
  induction fields with
  | nil => rfl
  | cons p ps ih =>
      obtain ⟨k, v⟩ := p
      simp [canonicalFields, canonicalField, ih]

theorem canonical_list (xs : List Value) : (list xs).canonical = .list (xs.map canonical) := by
  rw [canonical, canonicalList_eq]

/-- Sorting keeps the first of several entries with one key. -/
private theorem field_orderedInsert (p : String × Value) (fields : List (String × Value))
    (key : String) :
    field (fields.orderedInsert (·.1 ≤ ·.1) p) key = field (p :: fields) key := by
  induction fields with
  | nil => rfl
  | cons q fields ih =>
      obtain ⟨k, v⟩ := p
      obtain ⟨l, w⟩ := q
      rw [List.orderedInsert_cons]
      split
      next => rfl
      next hlt =>
        have hne : k ≠ l := by
          rintro rfl
          exact hlt (String.le_refl k)
        simp only [field, List.lookup_cons] at ih ⊢
        rw [ih]
        by_cases hk : key = k
        · have hl : (key == l) = false := by simpa [hk] using hne
          rw [hl, hk]
        · have hk' : (key == k) = false := by simpa using hk
          rw [hk']

private theorem field_insertionSort (fields : List (String × Value)) (key : String) :
    field (fields.insertionSort (·.1 ≤ ·.1)) key = field fields key := by
  induction fields with
  | nil => rfl
  | cons p fields ih =>
      obtain ⟨k, v⟩ := p
      rw [List.insertionSort_cons, field_orderedInsert]
      simp only [field, List.lookup_cons] at ih ⊢
      rw [ih]

/-- The entries of a canonical dict. -/
theorem field_canonical {fields sorted : List (String × Value)}
    (h : (dict fields).canonical = .dict sorted) (key : String) :
    field sorted key = (field fields key).map canonical := by
  rw [canonical, canonicalFields_eq, dict.injEq] at h
  rw [← h, field_insertionSort]
  induction fields generalizing sorted with
  | nil => rfl
  | cons p fields ih =>
      obtain ⟨k, v⟩ := p
      have ih' := ih rfl
      simp only [field, List.map_cons, List.lookup_cons] at ih' ⊢
      split
      next => rfl
      next => exact ih'

theorem isNone_canonical (v : Value) : v.canonical.isNone = v.isNone := by
  cases v <;> rfl

end Value

/-- Two dicts are equal in the browser. -/
def Entries.Same (d e : Entries) : Prop := (Value.dict d).canonical = (Value.dict e).canonical

/-- Dicts that are equal have equal entries. -/
theorem Entries.Same.getD {d e : Entries} (h : d.Same e) (key : String) :
    (Value.getD d key).canonical = (Value.getD e key).canonical := by
  obtain ⟨sorted, hd⟩ : ∃ sorted, (Value.dict d).canonical = .dict sorted := ⟨_, by rw [Value.canonical]⟩
  have hfield := Value.field_canonical hd key
  rw [Value.field_canonical (h ▸ hd : (Value.dict e).canonical = .dict sorted) key] at hfield
  unfold Value.getD
  cases hvd : Value.field d key with
  | none =>
      rw [hvd, Option.map_none, Option.map_eq_none_iff] at hfield
      rw [hfield]
  | some v =>
      rw [hvd, Option.map_some, Option.map_eq_some_iff] at hfield
      obtain ⟨w, hw, heq⟩ := hfield
      rw [hw]
      exact heq.symm

theorem Entries.Same.refl (d : Entries) : d.Same d := rfl

theorem Entries.Same.symm {d e : Entries} (h : d.Same e) : e.Same d := Eq.symm h

theorem Entries.Same.trans {d e f : Entries} (h : d.Same e) (h' : e.Same f) : d.Same f :=
  Eq.trans h h'

/-! ## Texts -/

variable {js : JsBuiltins}

mutual

theorem JsBuiltins.text_canonical (v : Value) : js.text v.canonical = js.text v := by
  cases v with
  | list xs =>
      rw [Value.canonical_list, JsBuiltins.text, JsBuiltins.text,
        JsBuiltins.elementTexts_canonical xs]
  | dict fields => rw [Value.canonical, JsBuiltins.text, JsBuiltins.text]
  | none | bool b | int n | float x | str s => rfl

theorem JsBuiltins.elementTexts_canonical (xs : List Value) :
    js.elementTexts (xs.map Value.canonical) = js.elementTexts xs := by
  cases xs with
  | nil => rfl
  | cons v vs =>
      have ih := JsBuiltins.elementTexts_canonical vs
      have htext := JsBuiltins.text_canonical v
      rw [List.map_cons]
      cases v <;>
        simp only [Value.canonical, JsBuiltins.elementTexts] at htext ⊢ <;>
        simp [ih, htext]

end

theorem property_canonical (v : Value) (key : String) :
    property v.canonical key = (property v key).canonical := by
  cases v with
  | dict fields =>
      obtain ⟨sorted, h⟩ : ∃ sorted, (Value.dict fields).canonical = .dict sorted :=
        ⟨_, by rw [Value.canonical]⟩
      have hfield := Value.field_canonical h key
      rw [h]
      change (Value.field sorted key).getD .none = ((Value.field fields key).getD .none).canonical
      rw [hfield]
      cases Value.field fields key <;> rfl
  | _ => rfl

theorem compactRouteText_canonical (v : Value) :
    compactRouteText js v.canonical = compactRouteText js v := by
  unfold compactRouteText
  rw [Value.isNone_canonical, JsBuiltins.text_canonical]

theorem drawnAsDefault_canonical (route : Value) :
    drawnAsDefault js route.canonical = drawnAsDefault js route := by
  unfold drawnAsDefault
  rw [property_canonical, compactRouteText_canonical]

theorem switchRouteLabel_canonical (route : Value) (i : Nat) :
    switchRouteLabel js route.canonical i = switchRouteLabel js route i := by
  unfold switchRouteLabel
  rw [property_canonical, property_canonical, compactRouteText_canonical,
    compactRouteText_canonical]

/-! ## Routes -/

theorem drawRoutes_canonical {hasDefaultRoute : Bool} (routes : List Value) (i : Nat)
    (specs : List OutputSpec) (count : Nat) :
    drawRoutes js hasDefaultRoute (routes.map Value.canonical) i specs count =
      drawRoutes js hasDefaultRoute routes i specs count := by
  induction routes generalizing i specs count with
  | nil => rfl
  | cons route routes ih =>
      rw [List.map_cons]
      unfold drawRoutes
      simp only [drawnAsDefault_canonical, switchRouteLabel_canonical, ih]

/-- The routes that a value lists, as a function of what the browser tells of it. -/
private def listedRoutes (js : JsBuiltins) : Value → List Value
  | .list xs => xs
  | .str s => (coerceRouteList js (.str s)).map Value.canonical
  | _ => []

private theorem coerceRouteList_canonical (v : Value) :
    (coerceRouteList js v).map Value.canonical = listedRoutes js v.canonical := by
  cases v with
  | list xs =>
      rw [Value.canonical_list]
      rfl
  | dict fields =>
      rw [Value.canonical]
      rfl
  | _ => rfl

/-- Configs that are equal have routes that are equal. -/
theorem getSwitchRoutes_same {config config' : Entries} (h : config.Same config')
    (schema : Option CanvasSchema) :
    (getSwitchRoutes js config schema).map Value.canonical =
      (getSwitchRoutes js config' schema).map Value.canonical := by
  have hlist : (coerceRouteList js (Value.getD config "routes")).map Value.canonical =
      (coerceRouteList js (Value.getD config' "routes")).map Value.canonical := by
    rw [coerceRouteList_canonical, coerceRouteList_canonical, h.getD "routes"]
  have hempty : (coerceRouteList js (Value.getD config "routes")).isEmpty =
      (coerceRouteList js (Value.getD config' "routes")).isEmpty := by
    rw [← List.isEmpty_map (f := Value.canonical), hlist, List.isEmpty_map]
  unfold getSwitchRoutes
  dsimp only
  rw [hempty]
  split
  next => rfl
  next => exact hlist

/-- The outputs of a node are the same for configs that are equal. -/
theorem getWorkflowNodeOutputSpecs_same {config config' : Entries} (h : config.Same config')
    (nodeType : String) (schema : Option CanvasSchema) :
    getWorkflowNodeOutputSpecs js nodeType schema config =
      getWorkflowNodeOutputSpecs js nodeType schema config' := by
  have hroutes : (getSwitchRoutes js config schema).map Value.canonical =
      (getSwitchRoutes js config' schema).map Value.canonical := getSwitchRoutes_same h schema
  unfold getWorkflowNodeOutputSpecs
  dsimp only
  generalize getSwitchRoutes js config schema = routes at hroutes ⊢
  generalize getSwitchRoutes js config' schema = routes' at hroutes ⊢
  have hempty : routes.isEmpty = routes'.isEmpty := by
    rw [← List.isEmpty_map (f := Value.canonical), hroutes, List.isEmpty_map]
  have hdefault : routes.any (drawnAsDefault js) = routes'.any (drawnAsDefault js) := by
    have hany : ∀ rs : List Value, rs.any (drawnAsDefault js) =
        (rs.map Value.canonical).any (drawnAsDefault js) := fun rs => by
      rw [List.any_map]
      exact congrArg rs.any (funext fun route => (drawnAsDefault_canonical route).symm)
    rw [hany, hroutes, ← hany]
  rw [hempty, hdefault, ← drawRoutes_canonical, hroutes, drawRoutes_canonical]

end CitraFlows
