-- SUMMARY: The wrapper that runs a node, and the switch and merge nodes: what they return for a given input.
import CitraFlows.Executor.Loop

/-!
# Logic nodes

`BaseNode.run` of `nodes/__init__.py`, which turns the outcome of a node's `execute` into
a result, and the two nodes of `nodes/logic.py` whose output the executor's routing rests
on: `SwitchRouterNode`, which selects a route, and `MergeWaitNode`, which joins the items
of its parents.
-/

namespace CitraFlows

open Python

/-! ## The universal envelope -/

/-- The `items` of an output, where it is a dict that has a list of them. -/
def itemsField (output : Value) : Option (List Value) :=
  (output.asDict.bind (Value.field · "items")).bind Value.asList

/-- `BaseNode._make_output` -/
def makeOutput (items : List Value) (metadata : List (String × Value)) : Value :=
  .dict [("items", .list items), ("meta", .dict metadata)]

@[simp] theorem itemsField_makeOutput (items : List Value) (metadata : List (String × Value)) :
    itemsField (makeOutput items metadata) = some items := rfl

@[simp] theorem outputMeta_makeOutput (items : List Value) (metadata : List (String × Value)) :
    outputMeta (makeOutput items metadata) = metadata := rfl

/-- `NodeContext.items` -/
def NodeContext.items (ctx : NodeContext) : List Value :=
  match ctx.inputData with
  | .list xs => xs
  | input => (itemsField input).getD []

/-! ## Running a node -/

/-- An exception of a node's `execute`, with the mark `non_retryable`. -/
structure NodeError where
  message : String
  nonRetryable : Bool := false

/-- What `BaseNode.run` reads of the class of a node. -/
structure NodeClass where
  /-- The category is `NodeCategory.OUTPUT`. -/
  output : Bool := false
  sideEffecting : Bool := false
  retryable : Bool := false

namespace BaseNode

/-- `_number_or_default(config.get("max_retries"), 0, int)` -/
def configuredRetries (config : List (String × Value)) : Int :=
  match Value.getD config "max_retries" with
  | .none => 0
  | .str "" => 0
  | v => v.toInt.getD 0

/-- `max_retries`: nodes with side effects are not retried. -/
def maxRetries (cls : NodeClass) (config : List (String × Value)) : Int :=
  if (cls.output || cls.sideEffecting) && !cls.retryable && configuredRetries config > 0 then 0
  else configuredRetries config

/-- `for attempt in range(1 + max_retries)`, with `left` attempts still to make. -/
def attemptLoop (attempts : Nat → Except NodeError Value) (maxRetries : Int) :
    Nat → Nat → Option String → List String → NodeRun
  | 0, _, lastError, errors => .failed lastError maxRetries errors
  | left + 1, attempt, _, errors =>
      match attempts attempt with
      | .ok output => .completed output attempt errors
      | .error e =>
          if e.nonRetryable then .failed (some e.message) maxRetries (errors ++ [e.message])
          else attemptLoop attempts maxRetries left (attempt + 1) (some e.message)
            (errors ++ [e.message])

/-- `BaseNode.run`, where `attempts` tells what each call of `execute` does. -/
def run (cls : NodeClass) (config : List (String × Value))
    (attempts : Nat → Except NodeError Value) : NodeRun :=
  attemptLoop attempts (maxRetries cls config) (1 + maxRetries cls config).toNat 0 none []

variable {cls : NodeClass} {config : List (String × Value)}

/-- With a negative `max_retries` there is no attempt, and the node fails without an error. -/
theorem run_of_neg (h : maxRetries cls config < 0) (attempts : Nat → Except NodeError Value) :
    run cls config attempts = .failed none (maxRetries cls config) [] := by
  have hzero : (1 + maxRetries cls config).toNat = 0 := by omega
  rw [run, hzero]
  rfl

/-- A node whose first attempt succeeds is not tried again. -/
theorem run_of_ok {attempts : Nat → Except NodeError Value} {output : Value}
    (h : 0 ≤ maxRetries cls config) (hok : attempts 0 = .ok output) :
    run cls config attempts = .completed output 0 [] := by
  obtain ⟨k, hk⟩ : ∃ k, (1 + maxRetries cls config).toNat = k + 1 :=
    ⟨(maxRetries cls config).toNat, by omega⟩
  rw [run, hk, attemptLoop, hok]
  rfl

private theorem attemptLoop_of_error {attempts : Nat → Except NodeError Value} {max : Int}
    (h : ∀ k, ∃ e, attempts k = .error e) (left attempt : Nat) (last : Option String)
    (errors : List String) :
    ∃ error retries errors', attemptLoop attempts max left attempt last errors =
      .failed error retries errors' := by
  induction left generalizing attempt last errors with
  | zero => exact ⟨_, _, _, rfl⟩
  | succ left ih =>
      obtain ⟨e, he⟩ := h attempt
      rw [attemptLoop, he]
      dsimp only
      split
      · exact ⟨_, _, _, rfl⟩
      · exact ih _ _ _

/-- A node whose every attempt raises has failed. -/
theorem run_of_error {attempts : Nat → Except NodeError Value}
    (h : ∀ k, ∃ e, attempts k = .error e) :
    ∃ error retries errors, run cls config attempts = .failed error retries errors :=
  attemptLoop_of_error h _ _ _ _

end BaseNode

/-! ## `SwitchRouterNode` -/

namespace SwitchRouterNode

/-- `data[idx] if idx < len(data) else None`, with `idx = int(part)`. Not every text that
`isdigit` accepts is one that `int` reads. -/
def listElement (xs : List Value) (part : List Char) : Except PyError Value :=
  match int part with
  | none => .error (.valueError
      ("invalid literal for int() with base 10: " ++ Value.reprStr (String.ofList part)))
  | some idx => .ok ((xs[idx.toNat]?).getD .none)

/-- Follow a field path into nested dicts and lists. -/
def navigate : Value → List (List Char) → Except PyError Value
  | data, [] => .ok data
  | data, part :: parts =>
      match data with
      | .dict fields => navigate (Value.getD fields (String.ofList part)) parts
      | .list xs =>
          if isdigit part then
            match listElement xs part with
            | .error e => .error e
            | .ok data => navigate data parts
          else .ok .none
      | _ => .ok .none

/-- Follow a field path into nested dicts only. -/
def navigateDicts : Value → List (List Char) → Value
  | data, [] => data
  | .dict fields, part :: parts => navigateDicts (Value.getD fields (String.ofList part)) parts
  | _, _ :: _ => .none

/-- The fallback to the variables. -/
def lookupVariables (vars : Variables) : List (List Char) → Value
  | [] => .none
  | top :: parts =>
      match vars.lookup (String.ofList top) with
      | some data => navigateDicts data parts
      | none => .none

/-- The fallback to the first item of the envelope. -/
def lookupFirstItem (inputData : Value) (parts : List (List Char)) : Except PyError Value :=
  match (itemsField inputData).bind List.head? with
  | some (.dict fields) => navigate (.dict fields) parts
  | some (.list xs) => navigate (.list xs) parts
  | _ => .ok .none

/-- The value a field path resolves to: in the input, else in the variables, else in the
first item. -/
def resolve (inputData : Value) (vars : Variables) (fieldPath : String) : Except PyError Value :=
  let parts := splitDots fieldPath.toList
  match navigate inputData parts with
  | .error e => .error e
  | .ok .none =>
      match lookupVariables vars parts with
      | .none => lookupFirstItem inputData parts
      | data => .ok data
  | .ok data => .ok data

/-- `field_value` -/
def fieldText : Value → String
  | .none => ""
  | data => data.text

/-- `ctx.config.get("field", "")`, on which `split` is called. -/
def fieldPath (config : List (String × Value)) : Except PyError String :=
  match (Value.field config "field").getD (.str "") with
  | .str path => .ok path
  | v => .error (.attributeError v.typeName "split")

/-- The field value of a context. -/
def fieldValue (ctx : NodeContext) : Except PyError String := do
  let path ← fieldPath ctx.config
  let data ← resolve ctx.inputData ctx.vars path
  return fieldText data

/-- `ctx.config.get("routes", [])`, read as JSON where it is text. -/
def configuredRoutes (jsonLoads : String → Except PyError Value) (config : List (String × Value)) :
    Except PyError Value :=
  match (Value.field config "routes").getD (.list []) with
  | .str text => jsonLoads text
  | v => .ok v

/-- What iterating over a value yields. -/
def iterate : Value → Except PyError (List Value)
  | .list xs => .ok xs
  | .dict fields => .ok (fields.map fun p => .str p.1)
  | .str s => .ok (s.toList.map fun c => .str (String.ofList [c]))
  | v => .error (.typeError ("'" ++ v.typeName ++ "' object is not iterable"))

/-- `matched_index` and `default_index`. -/
structure Selection where
  matched : Option Nat := none
  default : Option Nat := none

/-- A route for the fallback. -/
def isDefault (route : List (String × Value)) : Bool :=
  (Value.getD route "value").eqStr "__default__"

/-- `str(route.get("value", ""))` -/
def routeText (route : List (String × Value)) : String :=
  ((Value.field route "value").getD (.str "")).text

/-- `for i, route in enumerate(routes)`: the first route with the field value ends the
search, the last default route before it is kept. -/
def findRoute (fieldValue : String) : List Value → Nat → Option Nat → Except PyError Selection
  | [], _, default => .ok { default }
  | .dict route :: routes, i, default =>
      if isDefault route then findRoute fieldValue routes (i + 1) (some i)
      else if routeText route = fieldValue then .ok { matched := some i, default }
      else findRoute fieldValue routes (i + 1) default
  | v :: _, _, _ => .error (.attributeError v.typeName "get")

/-- `routes[matched_index]["label"] if matched_index is not None else "none"`. The routes
are a list of dicts when an index was found. -/
def matchedLabel (routes : List Value) : Option Nat → Except PyError Value
  | none => .ok (.str "none")
  | some i =>
      match routes[i]? with
      | some (.dict route) =>
          match Value.field route "label" with
          | some label => .ok label
          | none => .error (.keyError "label")
      | _ => .error (.typeError "string indices must be integers, not 'str'")

/-- `matched_route` as a value. -/
def routeValue : Option Nat → Value
  | none => .none
  | some i => .int i

/-- `SwitchRouterNode.execute` -/
def execute (jsonLoads : String → Except PyError Value) (ctx : NodeContext) :
    Except PyError Value := do
  let routes ← configuredRoutes jsonLoads ctx.config
  let value ← fieldValue ctx
  let entries ← iterate routes
  let selection ← findRoute value entries 0 none
  let matched := selection.matched.or selection.default
  let label ← matchedLabel entries matched
  return makeOutput ctx.items
    [("switch_result", .bool true), ("matched_route", routeValue matched),
      ("matched_label", label), ("field_value", .str value)]

end SwitchRouterNode

/-! ## `MergeWaitNode` -/

namespace MergeWaitNode

/-- What one entry of the input list adds to the merged items. -/
def branchItems (branch : Value) : List Value :=
  match itemsField branch with
  | some xs => xs
  | none =>
      match branch with
      | .list xs => xs
      | _ => [branch]

/-- `MergeWaitNode.execute` -/
def execute (ctx : NodeContext) : Value :=
  match ctx.inputData with
  | .list branches =>
      makeOutput (branches.flatMap branchItems) [("branch_count", .int branches.length)]
  | _ => makeOutput ctx.items [("branch_count", .int 1)]

end MergeWaitNode

/-! ## The registered classes -/

/-- `execute` of the node classes modelled here; they all have the category `LOGIC`. -/
def logicNode (jsonLoads : String → Except PyError Value) :
    NodeType → Option (NodeContext → Except PyError Value)
  | .switchRouter => some (SwitchRouterNode.execute jsonLoads)
  | .mergeWait => some fun ctx => .ok (MergeWaitNode.execute ctx)
  | _ => none

/-- What a call sees of a node's `run`: its result, or the node timeout. Nothing is awaited
before an attempt has failed, so that only then the timeout can fire. -/
def RunsAs (config : List (String × Value)) (outcome : Except PyError Value) (result : NodeRun) :
    Prop :=
  result = BaseNode.run {} config (fun _ => outcome.mapError fun e => { message := e.message }) ∨
    (result = .timeout ∧ ∃ e, outcome = .error e)

/-- The switch and merge nodes of a workflow behave as their classes do. -/
def RunEnv.RunsLogic (env : RunEnv) (jsonLoads : String → Except PyError Value)
    (wf : WorkflowDefinition) : Prop :=
  ∀ ctx n execute, wf.nodeMap ctx.nodeId = some n → logicNode jsonLoads n.type = some execute →
    RunsAs ctx.config (execute ctx) (env.run ctx).1

/-- A world without cancels, timeouts and checkpoints, in which the switch and merge nodes
behave as their classes do and every other node returns this output. -/
def RunEnv.logic (jsonLoads : String → Except PyError Value) (wf : WorkflowDefinition)
    (output : NodeId → Value) : RunEnv :=
  { RunEnv.calm fun nid => .completed (output nid) 0 [] with
    run := fun ctx =>
      (match (wf.nodeMap ctx.nodeId).bind fun n => logicNode jsonLoads n.type with
        | some execute => BaseNode.run {} ctx.config fun _ =>
            (execute ctx).mapError fun e => { message := e.message }
        | none => .completed (output ctx.nodeId) 0 [], ctx.vars) }

theorem RunEnv.logic_runsLogic (jsonLoads : String → Except PyError Value)
    (wf : WorkflowDefinition) (output : NodeId → Value) :
    (RunEnv.logic jsonLoads wf output).RunsLogic jsonLoads wf := by
  intro ctx n execute hn hlogic
  left
  simp [RunEnv.logic, hn, hlogic]

theorem RunsAs.of_ok {config : List (String × Value)} {output : Value} {result : NodeRun}
    (h : RunsAs config (.ok output) result) :
    (0 ≤ BaseNode.maxRetries {} config → result = .completed output 0 []) ∧
      (BaseNode.maxRetries {} config < 0 →
        result = .failed none (BaseNode.maxRetries {} config) []) := by
  rcases h with rfl | ⟨-, e, he⟩
  · exact ⟨fun hr => BaseNode.run_of_ok hr rfl, fun hr => BaseNode.run_of_neg hr _⟩
  · cases he

theorem RunsAs.of_error {config : List (String × Value)} {e : PyError} {result : NodeRun}
    (h : RunsAs config (.error e) result) :
    (∃ error retries errors, result = .failed error retries errors) ∨ result = .timeout := by
  rcases h with rfl | ⟨rfl, -⟩
  · exact .inl (BaseNode.run_of_error fun _ => ⟨_, rfl⟩)
  · exact .inr rfl

end CitraFlows
