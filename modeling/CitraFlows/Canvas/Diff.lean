-- SUMMARY: The diff of two workflows that the server computes, and the canvas that applies it.
import CitraFlows.Assistant.Json
import CitraFlows.Canvas.OutputHandles
import CitraFlows.Lib.KeyedLists

/-!
# Workflow diffs

A refinement of a workflow reaches the canvas as a diff: the server collects the nodes and edges of
both workflows by key and lists what is added, removed and updated; the canvas changes its nodes and
edges by these lists. A workflow can also be loaded onto the canvas whole.
-/

namespace CitraFlows

open KeyedLists

/-! ## Workflows -/

/-- `s or default`, and `s || default` -/
def textOr (s : Option String) (default : String) : String :=
  match s with
  | none => default
  | some s => if s = "" then default else s

structure NodeJson where
  id : String
  type : String
  label : Option String := none
  config : Option Entries := none

structure EdgeJson where
  id : Option String := none
  source : String
  target : String
  sourceHandle : Option String := none
  targetHandle : Option String := none
  /-- `none` for an absent label, and `some none` for `null`. -/
  label : Option (Option String) := none

structure WorkflowJson where
  nodes : List NodeJson := []
  edges : List EdgeJson := []
  vars : Entries := []

/-! ## The diff -/

/-- `_edge_key` -/
def EdgeJson.edgeKey (e : EdgeJson) : String :=
  let label := match e.label with
    | none => ""
    | some none => "None"
    | some (some label) => label
  e.source ++ "→" ++ e.target ++ "@" ++ textOr e.sourceHandle label

/-- `e.get("id") or _edge_key(e)` -/
def EdgeJson.dictKey (e : EdgeJson) : String := textOr e.id e.edgeKey

/-- The id of the edge on the canvas. -/
def EdgeJson.canvasId (e : EdgeJson) : String := textOr e.id (e.source ++ "->" ++ e.target)

/-- `n.get("config")` -/
def NodeJson.configValue (n : NodeJson) : Value := n.config.elim .none .dict

/-- `_node_significantly_different` -/
def nodeSignificantlyDifferent (a b : NodeJson) : Bool :=
  a.type ≠ b.type || a.label ≠ b.label || !a.configValue.eq b.configValue

/-- The patch. What is added to it for the review is left out: the canvas ignores it. -/
structure Diff where
  nodesAdded : List NodeJson
  nodesRemoved : List String
  nodesUpdated : List NodeJson
  edgesAdded : List EdgeJson
  edgesRemoved : List String
  vars : Entries

/-- `_diff_workflows` -/
def diffWorkflows (before after : WorkflowJson) : Diff :=
  let bNodes := dictBy NodeJson.id (before.nodes.filter (·.id ≠ ""))
  let aNodes := dictBy NodeJson.id (after.nodes.filter (·.id ≠ ""))
  let bEdges := dictBy EdgeJson.dictKey before.edges
  let aEdges := dictBy EdgeJson.dictKey after.edges
  { nodesAdded := aNodes.filter fun a => (get NodeJson.id a.id bNodes).isNone
    nodesRemoved := (bNodes.filter fun b => (get NodeJson.id b.id aNodes).isNone).map (·.id)
    nodesUpdated := aNodes.filter fun a =>
      (get NodeJson.id a.id bNodes).any (nodeSignificantlyDifferent · a)
    edgesAdded := aEdges.filter fun a => (get EdgeJson.dictKey a.dictKey bEdges).isNone
    edgesRemoved := (bEdges.filter fun b => (get EdgeJson.dictKey b.dictKey aEdges).isNone).map
      (·.dictKey)
    vars := after.vars }

/-- `is_noop` -/
def Diff.isNoop (diff : Diff) : Bool :=
  diff.nodesAdded.isEmpty && diff.nodesRemoved.isEmpty && diff.nodesUpdated.isEmpty &&
    diff.edgesAdded.isEmpty && diff.edgesRemoved.isEmpty

/-! ## The canvas -/

/-- A node of the canvas, without its position and looks. -/
structure CanvasNode where
  id : String
  label : String
  nodeType : String
  schema : Option CanvasSchema
  config : Entries

/-- What an edge of the canvas connects, without its id. -/
structure CanvasConnection where
  source : String
  target : String
  sourceHandle : Option String
  targetHandle : String
  label : Option String
  deriving DecidableEq

structure CanvasEdge extends CanvasConnection where
  id : String

/-- What the canvas holds of a workflow. -/
structure CanvasState where
  nodes : List CanvasNode
  edges : List CanvasEdge
  /-- `loadedVariablesRef` -/
  vars : Entries

section
variable (js : JsBuiltins) (schemas : String → Option CanvasSchema)

/-- `buildRfNode` -/
def buildRfNode (n : NodeJson) : CanvasNode where
  id := n.id
  label := textOr n.label n.type
  nodeType := n.type
  schema := schemas n.type
  config := n.config.getD []

/-- `specsByNode`, where a later node takes the place of an earlier one. -/
def specsByNode (nodes : List CanvasNode) (id : String) : List OutputSpec :=
  (lastWith CanvasNode.id id nodes).elim [] fun n =>
    getWorkflowNodeOutputSpecs js n.nodeType n.schema n.config

def buildRfEdge (specsByNode : String → List OutputSpec) (e : EdgeJson) : CanvasEdge where
  id := e.canvasId
  source := e.source
  target := e.target
  sourceHandle := resolveSourceHandle (specsByNode e.source) e.sourceHandle
  targetHandle := normTargetHandle e.targetHandle
  label := e.label.join

/-- `handleApplyAIWorkflow`, with the variables that the canvas keeps for its next request. -/
def loadWorkflow (workflow : WorkflowJson) : CanvasState :=
  let nodes := workflow.nodes.map (buildRfNode schemas)
  let nodeIds := nodes.map (·.id)
  { nodes
    edges := (workflow.edges.filter fun e => e.source ∈ nodeIds && e.target ∈ nodeIds).map
      (buildRfEdge (specsByNode js nodes))
    vars := workflow.vars }

/-- The data of a node after an update. -/
def CanvasNode.update (n : CanvasNode) (upd : NodeJson) : CanvasNode where
  id := n.id
  label := textOr upd.label n.label
  nodeType := textOr (some upd.type) n.nodeType
  schema := (schemas upd.type).or n.schema
  config := upd.config.getD n.config

/-- `availableNodeIds` -/
def Diff.availableNodeIds (diff : Diff) (canvas : CanvasState) : List String :=
  (canvas.nodes.map (·.id) ++ diff.nodesAdded.map (·.id)).filter (· ∉ diff.nodesRemoved)

/-- The edges of the canvas that `handleApplyDiff` keeps. -/
def Diff.keptEdges (diff : Diff) (canvas : CanvasState) : List CanvasEdge :=
  canvas.edges.filter fun e =>
    e.id ∉ diff.edgesRemoved && e.source ∉ diff.nodesRemoved && e.target ∉ diff.nodesRemoved &&
      e.source ∈ diff.availableNodeIds canvas && e.target ∈ diff.availableNodeIds canvas

/-- The outputs that `handleApplyDiff` reads the handles of new edges against. -/
def Diff.specs (diff : Diff) (canvas : CanvasState) : String → List OutputSpec :=
  specsByNode js
    (canvas.nodes ++ (diff.nodesAdded ++ diff.nodesUpdated).map (buildRfNode schemas))

/-- `handleApplyDiff` -/
def handleApplyDiff (diff : Diff) (canvas : CanvasState) : CanvasState :=
  let kept := (canvas.nodes.filter (·.id ∉ diff.nodesRemoved)).map fun n =>
    (lastWith NodeJson.id n.id diff.nodesUpdated).elim n (n.update schemas)
  let added := diff.edgesAdded.filter fun e =>
    e.source ∈ diff.availableNodeIds canvas && e.target ∈ diff.availableNodeIds canvas
  { nodes := kept ++ diff.nodesAdded.map (buildRfNode schemas)
    edges := diff.keptEdges canvas ++ added.map (buildRfEdge (diff.specs js schemas canvas))
    vars := canvas.vars }

end

end CitraFlows
