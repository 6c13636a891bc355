-- SUMMARY: Whether the edge that the canvas attaches to the handle of a route is the one that the executor runs for that route.
import CitraFlows.Canvas.OutputHandles
import Mathlib.Data.Int.CharZero

/-!
# Switch handles

The canvas and the executor number the outputs of a switch on their own. The executor reads the
number of a handle as the index of a route. The canvas gives a route the handle of its index, but
for a default route, which gets the last handle wherever it stands in the list.
-/

namespace CitraFlows

open SwitchRouterNode

/-! ## Live edges -/

/-- A switch with this metadata lets its child run along the edge. -/
def EdgeDefinition.live (metadata : List (String × Value)) (e : EdgeDefinition) : Bool :=
  let matchedRoute := Value.getD metadata "matched_route"
  matchedRoute.isNone || (edgeSwitchRoute e).any matchedRoute.eqInt

/-- The executor closes the way to a child exactly when no edge to it is live. -/
theorem switchSkips_eq_live {wf : WorkflowDefinition} {sw c : NodeId}
    {metadata : List (String × Value)} (hne : wf.edgesBetween sw c ≠ []) :
    switchSkips wf sw c metadata = !(wf.edgesBetween sw c).any (·.live metadata) := by
  unfold switchSkips EdgeDefinition.live
  dsimp only
  cases hm : (Value.getD metadata "matched_route").isNone with
  | false => rfl
  | true =>
      have hany : (wf.edgesBetween sw c).any (fun _ => true) = true := by
        obtain ⟨e, he⟩ := List.exists_mem_of_ne_nil _ hne
        exact List.any_eq_true.mpr ⟨e, he, rfl⟩
      simp [hany]

/-- The edge is live in the run of the switch. -/
def LiveEdge (jsonLoads : String → Except PyError Value) (ctx : NodeContext)
    (e : EdgeDefinition) : Prop :=
  ∃ output, SwitchRouterNode.execute jsonLoads ctx = .ok output ∧ e.live (outputMeta output) = true

/-- The switch selected the route with this index. -/
def SelectedRoute (jsonLoads : String → Except PyError Value) (ctx : NodeContext) (r : Nat) : Prop :=
  ∃ output, SwitchRouterNode.execute jsonLoads ctx = .ok output ∧
    Value.field (outputMeta output) "matched_route" = some (.int r)

theorem live_switchMeta {e : EdgeDefinition} {k : Nat} (h : e.sourceHandle = some (outHandle k))
    (matched : Option Nat) (label : Value) (value : String) :
    e.live (switchMeta matched label value) = true ↔ matched = none ∨ matched = some k := by
  have hroute : Value.getD (switchMeta matched label value) "matched_route" = routeValue matched :=
    rfl
  unfold EdgeDefinition.live
  rw [hroute, edgeSwitchRoute_outHandle h]
  cases matched with
  | none => simp [routeValue, Value.isNone]
  | some i => simp [routeValue, Value.isNone]

theorem field_switchMeta {r : Nat} (matched : Option Nat) (label : Value) (value : String) :
    Value.field (switchMeta matched label value) "matched_route" = some (.int r) ↔
      matched = some r := by
  have hroute : Value.field (switchMeta matched label value) "matched_route" =
      some (routeValue matched) := rfl
  rw [hroute]
  cases matched with
  | none => simp [routeValue]
  | some i => simp [routeValue]

/-! ## The handle of a route -/

/-- The edge as the canvas has it after it was loaded. -/
def loadEdge (specs : List OutputSpec) (e : EdgeDefinition) : EdgeDefinition :=
  { e with sourceHandle := resolveSourceHandle specs e.sourceHandle }

/-- The number of the handle that the canvas draws for a route. -/
def drawnIndex (js : JsBuiltins) (route : Value) (r : Nat) : Nat :=
  if drawnAsDefault js route then 5 else r

theorem outHandle_drawnIndex (js : JsBuiltins) (route : Value) (r : Nat) :
    outHandle (drawnIndex js route r) =
      if drawnAsDefault js route then switchDefaultHandleId else outHandle r := by
  unfold drawnIndex
  by_cases hdefault : drawnAsDefault js route = true
  · rw [if_pos hdefault, if_pos hdefault]
    rfl
  · rw [if_neg hdefault, if_neg hdefault]

/-- What is drawn for a route of a switch has the number of that route, or the last one. -/
theorem getWorkflowNodeOutputSpecs_handle {js : JsBuiltins} {schema : Option CanvasSchema}
    {config : List (String × Value)} {spec : OutputSpec} {r : Nat}
    (hspec : spec ∈ getWorkflowNodeOutputSpecs js "switch_router" schema config)
    (hr : spec.route = some r) :
    ∃ route, (getSwitchRoutes js config schema)[r]? = some route ∧
      spec.handleId = outHandle (drawnIndex js route r) := by
  unfold getWorkflowNodeOutputSpecs at hspec
  dsimp only at hspec
  split at hspec
  next =>
    have hdrawn : ∀ spec ∈ drawRoutes js
        ((getSwitchRoutes js config schema).any (drawnAsDefault js))
        (getSwitchRoutes js config schema) ([] : List Value).length [] 0,
        ∃ i, spec.DrawnFor js ([] ++ getSwitchRoutes js config schema) i :=
      drawRoutes_drawnFor (by simp)
    obtain ⟨i, hi⟩ := hdrawn spec (List.mem_of_mem_take hspec)
    rw [hi.route] at hr
    cases hr
    obtain ⟨route, hroute, hhandle⟩ := hi.handle
    exact ⟨route, hroute, by rw [hhandle, outHandle_drawnIndex]⟩
  next =>
    obtain ⟨i, -, rfl⟩ := List.mem_map.mp hspec
    cases hr

/-- Where the canvas reads the routes that the node has, it draws these. -/
theorem getSwitchRoutes_configured {js : JsBuiltins} {schema : Option CanvasSchema}
    {config : List (String × Value)} {routes : List Value} (hne : routes ≠ [])
    (h : coerceRouteList js (Value.getD config "routes") = routes) :
    getSwitchRoutes js config schema = routes := by
  unfold getSwitchRoutes
  rw [h]
  exact if_neg (by simpa using hne)

/-! ## Agreement -/

/-- The canvas draws the route at the handle of its index. -/
def DrawnInPlace (js : JsBuiltins) (routes : List (List (String × Value))) (r : Nat) : Prop :=
  ∀ route, routes[r]? = some route → drawnAsDefault js (.dict route) = true → r = 5

/-- For a switch whose routes the canvas and the node read alike, an output that is drawn for a
route, and an edge that the canvas loads at its handle: the edge is live exactly when the switch
selects the route, if and only if the switch fails or selects some route, and a default route that
is not drawn at the handle of its index is not selected and nor is the route with the last index. -/
theorem loadEdge_live_iff_selected {js : JsBuiltins} {jsonLoads : String → Except PyError Value}
    {ctx : NodeContext} {schema : Option CanvasSchema} {routes : List (List (String × Value))}
    (hroutes : configuredRoutes jsonLoads ctx.config = .ok (.list (routes.map .dict)))
    (hcanvas : coerceRouteList js (Value.getD ctx.config "routes") = routes.map .dict)
    {spec : OutputSpec}
    (hspec : spec ∈ getWorkflowNodeOutputSpecs js "switch_router" schema ctx.config)
    {r : Nat} (hr : spec.route = some r) {e : EdgeDefinition}
    (he : (loadEdge (getWorkflowNodeOutputSpecs js "switch_router" schema ctx.config)
      e).sourceHandle = some spec.handleId) :
    (LiveEdge jsonLoads ctx
        (loadEdge (getWorkflowNodeOutputSpecs js "switch_router" schema ctx.config) e) ↔
      SelectedRoute jsonLoads ctx r) ↔
    ∀ value, fieldValue ctx = .ok value →
      (∀ i, Selects routes value i → Labelled routes i) →
      (∃ i, Selects routes value i) ∧
        (DrawnInPlace js routes r ∨ ¬ Selects routes value r ∧ ¬ Selects routes value 5) := by
  obtain ⟨drawn, hdrawn, hhandle⟩ := getWorkflowNodeOutputSpecs_handle hspec hr
  rw [hhandle] at he
  generalize loadEdge (getWorkflowNodeOutputSpecs js "switch_router" schema ctx.config) e = loaded
    at he ⊢
  -- a switch that fails has no live edge and selects nothing
  have hfails : ∀ error, SwitchRouterNode.execute jsonLoads ctx = .error error →
      (LiveEdge jsonLoads ctx loaded ↔ SelectedRoute jsonLoads ctx r) := by
    intro error herror
    refine iff_of_false ?_ ?_ <;>
    · rintro ⟨output, hok, -⟩
      rw [herror] at hok
      cases hok
  cases hvalue : fieldValue ctx with
  | error error =>
      have herror : SwitchRouterNode.execute jsonLoads ctx = .error error := by
        unfold SwitchRouterNode.execute
        rw [hroutes, hvalue]
        rfl
      refine iff_of_true (hfails error herror) fun value h => ?_
      cases h
  | ok value =>
      simp only [Except.ok.injEq, forall_eq']
      rcases execute_cases hroutes hvalue with
        ⟨matched, label, hok, hmatched, hlabelled⟩ | ⟨error, herror, i, hi, hno⟩
      case inr =>
        exact iff_of_true (hfails error herror) fun h => absurd (h i hi) hno
      have hlive : LiveEdge jsonLoads ctx loaded ↔
          matched = none ∨ matched = some (drawnIndex js drawn r) := by
        unfold LiveEdge
        rw [hok, ← live_switchMeta he matched label value]
        simp
      have hselected : SelectedRoute jsonLoads ctx r ↔ matched = some r := by
        unfold SelectedRoute
        rw [hok, ← field_switchMeta matched label value]
        simp
      rw [hlive, hselected]
      cases matched with
      | none =>
          -- every edge is live, and no route is selected
          refine iff_of_false (by simp) fun h => ?_
          obtain ⟨⟨i, hi⟩, -⟩ := h hlabelled
          have hnone := (hmatched i).mpr hi
          cases hnone
      | some i =>
          have huniq : ∀ j, Selects routes value j ↔ j = i := fun j => by
            rw [← hmatched j, Option.some_inj]
            exact eq_comm
          have hne : routes ≠ [] := by
            rintro rfl
            rcases (hmatched i).mp rfl with ⟨⟨route, hroute, -⟩, -⟩ | ⟨-, ⟨route, hroute, -⟩, -⟩ <;>
              cases hroute
          rw [getSwitchRoutes_configured (by simpa using hne) hcanvas, List.getElem?_map,
            Option.map_eq_some_iff] at hdrawn
          obtain ⟨route, hroute, rfl⟩ := hdrawn
          have hplace : DrawnInPlace js routes r ↔
              (drawnAsDefault js (.dict route) = true → r = 5) := by
            unfold DrawnInPlace
            rw [hroute]
            simp
          simp only [reduceCtorEq, false_or, Option.some_inj, huniq, exists_eq, true_and, hplace]
          rw [forall_prop_of_true fun j hj => hj ▸ hlabelled i ((huniq i).mpr rfl)]
          unfold drawnIndex
          by_cases hdefault : drawnAsDefault js (.dict route) = true
          · simp only [hdefault, if_true, forall_const]
            omega
          · simp [hdefault]

/-- The routes of the shipped task router. -/
def taskRoutes : List (List (String × Value)) :=
  [[("label", .str "Analysis"), ("value", .str "analysis")],
    [("label", .str "Writing"), ("value", .str "writing")],
    [("label", .str "Default"), ("value", .str "__default__")]]

/-- The shipped task router, on a task of this category. -/
def taskRouter (category : String) : NodeContext where
  nodeId := "router"
  config := [("field", .str "category"), ("routes", .list (taskRoutes.map .dict))]
  inputData := .dict [("category", .str category)]
  vars := ∅
  userId := "u"
  executionId := "ex"
  environment := "test"
  jwtToken := none
  workflowId := "wf"
  workflowName := "Tasks"
  ownerType := "org"
  ownerId := ""
  orgId := "o"
  deptIds := []
  authorUserId := "u"
  linkedSmartAppId := none

/-- A browser on values that are neither numbers nor texts to parse. -/
def plainBrowser : JsBuiltins where
  parse _ := none
  numberText _ := ""

/-- The outputs of the task router on the canvas. -/
def taskSpecs : List OutputSpec :=
  getWorkflowNodeOutputSpecs plainBrowser "switch_router" none (taskRouter "").config

theorem taskRoutes_selects_analysis : Selects taskRoutes "analysis" 0 :=
  .inl ⟨⟨_, rfl, by decide, by decide⟩, fun j hj => by omega⟩

theorem taskRouter_analysis_agrees :
    LiveEdge (fun _ => .ok .none) (taskRouter "analysis")
        (loadEdge taskSpecs { source := "router", target := "analyst", sourceHandle := some "out-0" }) ↔
      SelectedRoute (fun _ => .ok .none) (taskRouter "analysis") 0 := by
  refine (@loadEdge_live_iff_selected plainBrowser _ _ none taskRoutes rfl rfl
    { key := "out-0", handleId := "out-0", label := "Route 0: Analysis", route := some 0 }
    ?_ 0 rfl _ ?_).mpr ?_
  · decide +kernel
  · decide +kernel
  · intro value hvalue _
    have heq : fieldValue (taskRouter "analysis") = .ok "analysis" := by rfl
    rw [heq] at hvalue
    cases hvalue
    refine ⟨⟨0, taskRoutes_selects_analysis⟩, .inl fun route hroute hdefault => ?_⟩
    cases hroute
    exact absurd hdefault (by decide)

/-- The canvas moves the edge of the task router's default route to a handle that the executor
takes for a sixth route, so that a task of no other category is not run. -/
theorem taskRouter_default_moves :
    ¬ ∀ (js : JsBuiltins) (jsonLoads : String → Except PyError Value) (ctx : NodeContext)
        (schema : Option CanvasSchema) (routes : List (List (String × Value))) (spec : OutputSpec)
        (r : Nat) (e : EdgeDefinition),
      configuredRoutes jsonLoads ctx.config = .ok (.list (routes.map .dict)) →
      coerceRouteList js (Value.getD ctx.config "routes") = routes.map .dict →
      spec ∈ getWorkflowNodeOutputSpecs js "switch_router" schema ctx.config →
      spec.route = some r →
      (loadEdge (getWorkflowNodeOutputSpecs js "switch_router" schema ctx.config)
        e).sourceHandle = some spec.handleId →
      (LiveEdge jsonLoads ctx
          (loadEdge (getWorkflowNodeOutputSpecs js "switch_router" schema ctx.config) e) ↔
        SelectedRoute jsonLoads ctx r) := by
  intro h
  have hiff := h plainBrowser (fun _ => .ok .none) (taskRouter "travel") none taskRoutes
    { key := "out-default-2", handleId := "out-5", label := "Default", route := some 2 } 2
    { source := "router", target := "general", sourceHandle := some "out-2" }
    rfl rfl (by decide +kernel) rfl (by decide +kernel)
  obtain ⟨output, hok, hlive⟩ := hiff.mpr ⟨_, rfl, rfl⟩
  cases hok
  exact absurd hlive (by decide)

end CitraFlows
