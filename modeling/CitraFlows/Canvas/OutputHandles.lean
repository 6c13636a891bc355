-- SUMMARY: The output handles that the canvas draws on a node, and the handle that it gives an edge when it loads it.
import CitraFlows.Nodes.SwitchRouting

/-!
# Output handles of the canvas

A node has one handle for each output. Those of a switch follow its routes: the canvas numbers the
routes by their position and keeps the last of its six handles for the default route.
-/

namespace CitraFlows

/-! ## Values and texts of the browser -/

/-- `JSON.parse`, with `none` for what it rejects, and the text of a number. -/
structure JsBuiltins where
  parse : String → Option Value
  numberText : Rat → String

/-- White space and line ends, as `trim` and `\s` take them. -/
def jsSpace (c : Char) : Bool :=
  let n := c.toNat
  (9 ≤ n && n ≤ 13) || n = 32 || n = 0xA0 || n = 0x1680 || (0x2000 ≤ n && n ≤ 0x200A) ||
    n = 0x2028 || n = 0x2029 || n = 0x202F || n = 0x205F || n = 0x3000 || n = 0xFEFF

/-- `s.trim()` -/
def jsTrim (s : String) : String :=
  String.ofList (((s.toList.dropWhile jsSpace).reverse.dropWhile jsSpace).reverse)

mutual

/-- `String(value)` -/
def JsBuiltins.text (js : JsBuiltins) : Value → String
  | .none => "null"
  | .bool b => if b then "true" else "false"
  | .int n => js.numberText n
  | .float x => js.numberText x.val
  | .str s => s
  | .list xs => ",".intercalate (js.elementTexts xs)
  | .dict _ => "[object Object]"

/-- The texts that `join` puts together; `null` has an empty one. -/
def JsBuiltins.elementTexts (js : JsBuiltins) : List Value → List String
  | [] => []
  | .none :: vs => "" :: js.elementTexts vs
  | v :: vs => js.text v :: js.elementTexts vs

end

/-- `value?.key`, with `none` for `undefined` -/
def property (value : Value) (key : String) : Value :=
  match value with
  | .dict fields => Value.getD fields key
  | _ => .none

/-- The text of digits, after one of two prefixes: `/^(?:a|b)(\d+)$/`. -/
def digitsAfter (a b s : String) : Option (List Char) :=
  let read (p : String) : Option (List Char) :=
    if p.toList.isPrefixOf s.toList then
      let digits := s.toList.drop p.toList.length
      if !digits.isEmpty && digits.all Char.isDigit then some digits else none
    else none
  (read a).or (read b)

/-! ## The routes of a switch -/

/-- What the canvas knows of a node type. -/
structure CanvasSchema where
  outputs : Option Nat := none
  outputLabels : List String := []
  /-- The fields by name, with their defaults. -/
  fields : List (String × Value) := []

/-- `_coerceRouteList` -/
def coerceRouteList (js : JsBuiltins) : Value → List Value
  | .list routes => routes
  | .str s =>
      if jsTrim s = "" then []
      else
        match js.parse s with
        | some (.list routes) => routes
        | _ => []
  | _ => []

/-- `_getSwitchRoutes` -/
def getSwitchRoutes (js : JsBuiltins) (config : List (String × Value))
    (schema : Option CanvasSchema) : List Value :=
  let configured := coerceRouteList js (Value.getD config "routes")
  if configured.isEmpty then
    coerceRouteList js (Value.getD (schema.elim [] (·.fields)) "routes")
  else configured

/-- `_compactRouteText` -/
def compactRouteText (js : JsBuiltins) (value : Value) : String :=
  if value.isNone then "" else jsTrim (js.text value)

/-- The canvas takes the route for the default route. -/
def drawnAsDefault (js : JsBuiltins) (route : Value) : Bool :=
  compactRouteText js (property route "value") = "__default__"

/-- `/^route\s*\d+$/i` -/
def isRouteNumber (label : String) : Bool :=
  let digits := (label.toList.drop 5).dropWhile jsSpace
  (label.toList.take 5).map Char.toLower = "route".toList && !digits.isEmpty &&
    digits.all Char.isDigit

/-- `_switchRouteLabel` -/
def switchRouteLabel (js : JsBuiltins) (route : Value) (routeIndex : Nat) : String :=
  let label := compactRouteText js (property route "label")
  let value := compactRouteText js (property route "value")
  if value = "__default__" then
    if label ≠ "" ∧ label.toList.map Char.toLower ≠ "default".toList then "Default: " ++ label
    else "Default"
  else
    let detail := if label ≠ "" ∧ !isRouteNumber label then label else value
    if detail ≠ "" then "Route " ++ toString routeIndex ++ ": " ++ detail
    else "Route " ++ toString routeIndex

/-! ## Output specs -/

def maxSwitchOutputs : Nat := 6

def maxSwitchNonDefaultOutputs : Nat := maxSwitchOutputs - 1

def switchDefaultHandleId : String := "out-5"

/-- An output of a node, with the index of the route it is drawn for. -/
structure OutputSpec where
  key : String
  handleId : String
  label : String
  route : Option Nat := none
  deriving DecidableEq

/-- `usedHandles.has(handleId)`: each handle is added with its spec. -/
def usedHandle (specs : List OutputSpec) (handleId : String) : Bool :=
  specs.any (·.handleId = handleId)

/-- `routes.forEach(...)` -/
def drawRoutes (js : JsBuiltins) (hasDefaultRoute : Bool) :
    List Value → Nat → List OutputSpec → Nat → List OutputSpec
  | [], _, specs, _ => specs
  | route :: routes, routeIndex, specs, nonDefaultCount =>
      let label := switchRouteLabel js route routeIndex
      if drawnAsDefault js route then
        if usedHandle specs switchDefaultHandleId then
          drawRoutes js hasDefaultRoute routes (routeIndex + 1) specs nonDefaultCount
        else
          drawRoutes js hasDefaultRoute routes (routeIndex + 1)
            (specs ++ [{ key := "out-default-" ++ toString routeIndex,
                         handleId := switchDefaultHandleId, label, route := some routeIndex }])
            nonDefaultCount
      else if nonDefaultCount ≥ maxSwitchNonDefaultOutputs then
        drawRoutes js hasDefaultRoute routes (routeIndex + 1) specs nonDefaultCount
      else if hasDefaultRoute && routeIndex ≥ maxSwitchNonDefaultOutputs then
        drawRoutes js hasDefaultRoute routes (routeIndex + 1) specs nonDefaultCount
      else if usedHandle specs (outHandle routeIndex) then
        drawRoutes js hasDefaultRoute routes (routeIndex + 1) specs nonDefaultCount
      else
        drawRoutes js hasDefaultRoute routes (routeIndex + 1)
          (specs ++ [{ key := outHandle routeIndex, handleId := outHandle routeIndex, label,
                       route := some routeIndex }])
          (nonDefaultCount + 1)

/-- The outputs of a node whose type has a fixed number of them. -/
def genericSpecs (schema : Option CanvasSchema) : List OutputSpec :=
  let outputCount := (schema.bind (·.outputs)).getD 1
  (List.range outputCount).map fun i =>
    let label := ((schema.elim [] (·.outputLabels))[i]?).getD ""
    { key := outHandle i
      handleId := if outputCount ≤ 2 then if i = 0 then "true" else "false" else outHandle i
      label := if label ≠ "" then label
        else if outputCount = 2 then if i = 0 then "T" else "F" else "" }

/-- `getWorkflowNodeOutputSpecs` -/
def getWorkflowNodeOutputSpecs (js : JsBuiltins) (nodeType : String)
    (schema : Option CanvasSchema) (config : List (String × Value)) : List OutputSpec :=
  let routes := getSwitchRoutes js config schema
  if nodeType = "switch_router" && !routes.isEmpty then
    (drawRoutes js (routes.any (drawnAsDefault js)) routes 0 [] 0).take maxSwitchOutputs
  else genericSpecs schema

/-! ## The handles of an edge -/

/-- The index that a handle asks for. -/
def handleIndex (raw : Option String) : Nat :=
  match raw with
  | none => 0
  | some raw =>
      if raw = "false" then 1
      else if raw = "true" ∨ raw = "output" ∨ raw = "" then 0
      else ((digitsAfter "out-" "output_" raw).map (Nat.ofDigitChars 10 · 0)).getD 0

/-- `_resolveSourceHandle`, with `none` for `undefined` -/
def resolveSourceHandle (specs : List OutputSpec) (raw : Option String) : Option String :=
  if specs.isEmpty then none
  else if raw.any fun h => h ≠ "" && usedHandle specs h then raw
  else
    let idx := handleIndex raw
    let idx := if idx ≥ specs.length then 0 else idx
    (specs[idx]?).map (·.handleId)

/-- `_normTargetHandle` -/
def normTargetHandle (h : Option String) : String :=
  match h with
  | none => "in-0"
  | some h =>
      if h = "" ∨ h = "input" ∨ h = "true" then "in-0"
      else
        match digitsAfter "in-" "input_" h with
        | some digits => "in-" ++ String.ofList digits
        | none => h

/-! ## What is drawn -/

variable {js : JsBuiltins} {hasDefaultRoute : Bool} {specs : List OutputSpec}

/-- A spec is drawn for a route, and shares the handle of the default routes or has that of its
index. -/
structure OutputSpec.DrawnFor (js : JsBuiltins) (routes : List Value) (spec : OutputSpec) (r : Nat) :
    Prop where
  route : spec.route = some r
  handle : ∃ route, routes[r]? = some route ∧
    spec.handleId = if drawnAsDefault js route then switchDefaultHandleId else outHandle r

/-- What one route adds: nothing, or a spec whose handle was not used. -/
theorem drawRoutes_cons (specs : List OutputSpec) (route : Value) (routes : List Value)
    (i count : Nat) :
    drawRoutes js hasDefaultRoute (route :: routes) i specs count =
        drawRoutes js hasDefaultRoute routes (i + 1) specs count ∨
      ∃ spec count', usedHandle specs spec.handleId = false ∧ spec.route = some i ∧
        spec.handleId = (if drawnAsDefault js route then switchDefaultHandleId else outHandle i) ∧
        drawRoutes js hasDefaultRoute (route :: routes) i specs count =
          drawRoutes js hasDefaultRoute routes (i + 1) (specs ++ [spec]) count' := by
  rw [drawRoutes]
  split
  next hdefault =>
    split
    next => exact .inl rfl
    next hnew => exact .inr ⟨_, _, by simpa using hnew, rfl, rfl, rfl⟩
  next hdefault =>
    split
    next => exact .inl rfl
    next =>
      split
      next => exact .inl rfl
      next =>
        split
        next => exact .inl rfl
        next hnew => exact .inr ⟨_, _, by simpa using hnew, rfl, rfl, rfl⟩

theorem drawRoutes_drawnFor {before routes : List Value} {count : Nat}
    (h : ∀ spec ∈ specs, ∃ r, spec.DrawnFor js (before ++ routes) r) :
    ∀ spec ∈ drawRoutes js hasDefaultRoute routes before.length specs count,
      ∃ r, spec.DrawnFor js (before ++ routes) r := by
  induction routes generalizing before specs count with
  | nil => exact h
  | cons route routes ih =>
      have hsplit : before ++ route :: routes = (before ++ [route]) ++ routes := by simp
      have hlength : before.length + 1 = (before ++ [route]).length := by simp
      have hroute : (before ++ route :: routes)[before.length]? = some route := by simp
      rcases drawRoutes_cons specs route routes before.length count with
        hskip | ⟨spec, count', -, hindex, hhandle, hdraw⟩
      · rw [hskip, hlength, hsplit]
        exact ih (hsplit ▸ h)
      · rw [hdraw, hlength, hsplit]
        refine ih fun spec' hspec' => ?_
        rw [← hsplit]
        rcases List.mem_append.mp hspec' with hold | hnew
        · exact h spec' hold
        · rw [List.mem_singleton.mp hnew]
          exact ⟨_, hindex, route, hroute, hhandle⟩

/-- No handle is drawn twice. -/
theorem drawRoutes_nodup {routes : List Value} {i count : Nat}
    (h : (specs.map (·.handleId)).Nodup) :
    ((drawRoutes js hasDefaultRoute routes i specs count).map (·.handleId)).Nodup := by
  induction routes generalizing i specs count with
  | nil => exact h
  | cons route routes ih =>
      rcases drawRoutes_cons specs route routes i count with
        hskip | ⟨spec, count', hnew, -, -, hdraw⟩
      · rw [hskip]
        exact ih h
      · rw [hdraw]
        refine ih ?_
        rw [List.map_append, List.map_singleton]
        refine h.append (List.nodup_singleton _) (List.disjoint_singleton.mpr fun hused => ?_)
        obtain ⟨spec', hspec', heq⟩ := List.mem_map.mp hused
        have hany : usedHandle specs spec.handleId = true :=
          List.any_eq_true.mpr ⟨spec', hspec', decide_eq_true heq⟩
        rw [hnew] at hany
        cases hany

section Resolving

variable {specs : List OutputSpec}

/-- A handle that is drawn stays. -/
theorem resolveSourceHandle_drawn {spec : OutputSpec} (h : spec ∈ specs) (hne : spec.handleId ≠ "") :
    resolveSourceHandle specs (some spec.handleId) = some spec.handleId := by
  have hused : usedHandle specs spec.handleId = true :=
    List.any_eq_true.mpr ⟨spec, h, by simp⟩
  unfold resolveSourceHandle
  split
  next hempty =>
    rw [List.isEmpty_iff.mp hempty] at h
    cases h
  next => simp [hne, hused]

/-- An edge that is loaded leaves by a handle that is drawn, as long as there is one. -/
theorem resolveSourceHandle_mem (h : specs ≠ []) (raw : Option String) :
    ∃ spec ∈ specs, resolveSourceHandle specs raw = some spec.handleId := by
  unfold resolveSourceHandle
  rw [if_neg (by simpa using h)]
  split
  next hused =>
    obtain ⟨handle, rfl, hhandle⟩ := (Option.any_eq_true _ _).mp hused
    rw [Bool.and_eq_true] at hhandle
    obtain ⟨spec, hspec, heq⟩ := List.any_eq_true.mp hhandle.2
    exact ⟨spec, hspec, by rw [of_decide_eq_true heq]⟩
  next =>
    have hlt : (if handleIndex raw ≥ specs.length then 0 else handleIndex raw) < specs.length := by
      have hpos := List.length_pos_iff.mpr h
      split <;> omega
    dsimp only
    exact ⟨specs[if handleIndex raw ≥ specs.length then 0 else handleIndex raw],
      List.getElem_mem hlt, by rw [List.getElem?_eq_getElem hlt]; rfl⟩

end Resolving

end CitraFlows
