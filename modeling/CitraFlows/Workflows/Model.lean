-- SUMMARY: The stored workflows and their deploy snapshots, and the endpoints that write them, command by command.
import CitraFlows.Dag
import CitraFlows.Scheduler.CronTable
import Mathlib.Data.List.Sort

/-!
# Stored workflows

The endpoints of `router.py` keep a workflow in two collections: `Workflows` holds the live
document and `WorkflowVersions` a snapshot for each deploy and each rollback of a deployed
workflow. An endpoint reads, checks what it has read, and writes; the requests interleave
command by command, and a write may fail whether or not it was made.
-/

namespace CitraFlows

open Processes

/-! ## Documents -/

inductive RunEnvironment where
  | test | prod
  deriving DecidableEq

def RunEnvironment.value : RunEnvironment → String
  | .test => "test"
  | .prod => "prod"

/-- The parts of a workflow that define what it does. -/
structure WorkflowGraph where
  nodes : List NodeDefinition := []
  edges : List EdgeDefinition := []
  schedule : ScheduleConfig := {}
  vars : Variables := ∅

/-- A document of `Workflows`. `version` counts the edits, `deployedVersion` names the snapshot
that went live. -/
structure StoredWorkflow extends WorkflowDocument where
  nodes : List NodeDefinition := []
  edges : List EdgeDefinition := []
  vars : Variables := ∅
  runEnvironment : RunEnvironment := .prod
  maxRunLlmCalls : Option Int := none
  webhookToken : Option String := none
  webhookSecret : Option String := none
  previousWebhookToken : Option String := none
  version : Int := 1
  deployedVersion : Option Nat := none

namespace StoredWorkflow

def graph (doc : StoredWorkflow) : WorkflowGraph where
  nodes := doc.nodes
  edges := doc.edges
  schedule := doc.schedule
  vars := doc.vars

def setGraph (doc : StoredWorkflow) (g : WorkflowGraph) : StoredWorkflow :=
  { doc with nodes := g.nodes, edges := g.edges, schedule := g.schedule, vars := g.vars }

def deployed (doc : StoredWorkflow) : Bool := doc.status = .written .deployed

/-- `WorkflowDefinition(**doc)`: every field is kept as the model has it, except the status,
which some endpoints write as a text of their own. -/
def load (doc : StoredWorkflow) : Option WorkflowDefinition :=
  match doc.status with
  | .written _ =>
      some {
        workflowId := doc.workflowId
        name := doc.name
        userId := doc.userId
        orgId := doc.orgId
        deptIds := doc.deptIds
        nodes := doc.nodes
        edges := doc.edges
        vars := doc.vars }
  | .inactive | .active => none

end StoredWorkflow

/-- A document of `WorkflowVersions`. -/
structure WorkflowVersion where
  versionNumber : Nat
  graph : WorkflowGraph
  maxRunLlmCalls : Option Int := none
  restoredFromVersion : Option Nat := none

/-! ## The gate -/

/-- What is stored for a connection: its name, and for which environments it has a
configuration. -/
structure Connection where
  name : Option String := none
  test : Bool := false
  prod : Bool := false

def Connection.configured (conn : Connection) : RunEnvironment → Bool
  | .test => conn.test
  | .prod => conn.prod

/-- `writeNodeTypes` is `_WRITE_NODE_TYPES`, a name that `router.py` uses and nothing defines:
`none` says that it is not defined. -/
structure StoreConfig extends TableConfig where
  connections : String → Option Connection
  writeNodeTypes : Option (List String) := none
  maxWorkflowVersions : Nat := 3
  maxWorkflowVersions_pos : 0 < maxWorkflowVersions := by decide

/-- `ntype in _WRITE_NODE_TYPES` -/
def StoreConfig.isWriteNode (cfg : StoreConfig) (ntype : String) : Except String Bool :=
  match cfg.writeNodeTypes with
  | some types => .ok (types.contains ntype)
  | none => .error "name '_WRITE_NODE_TYPES' is not defined"

/-- `label or ntype` -/
def NodeDefinition.displayLabel (n : NodeDefinition) : String :=
  if n.label = "" then n.type.value else n.label

/-- The error of a write node with an inline connection string. -/
def inlineErrors (n : NodeDefinition) (env : RunEnvironment) (writeNode : Bool) : List String :=
  let raw := Value.getD n.config "connection_string"
  let inline := Python.strip (if raw.truthy then raw.text else "").toList
  if writeNode && inline ≠ [] && !(Value.getD n.config "connection_id").truthy then
    ["Node '" ++ n.displayLabel ++ "' (" ++ n.type.value ++ ") uses an inline connection string, " ++
      "which is not environment-isolated — attach a saved connection before deploying so the " ++
      "run resolves the " ++ env.value ++ " credentials."]
  else []

/-- The error of a connection without a configuration for the environment; the ids that were
looked up already are not looked up again. -/
def connectionErrors (cfg : StoreConfig) (n : NodeDefinition) (env : RunEnvironment)
    (checked : List String) : Except String (List String × List String) :=
  match Value.getD n.config "connection_id" with
  | .str id =>
      if id = "" ∨ checked.contains id then .ok ([], checked)
      else
        match cfg.connections id with
        | none => .ok ([], id :: checked)
        | some conn =>
            .ok (if conn.configured env then []
              else ["Connection '" ++ conn.name.getD id ++ "' (used by node '" ++ n.displayLabel ++
                "') has no '" ++ env.value ++ "' configuration — add it before deploying to " ++
                env.value ++ "."], id :: checked)
  | .list (_ :: _) => .error "unhashable type: 'list'"
  | .dict (_ :: _) => .error "unhashable type: 'dict'"
  | _ => .ok ([], checked)

/-- `for n in nodes` of `_validate_deploy_environment` -/
def environmentErrors (cfg : StoreConfig) (env : RunEnvironment) :
    List NodeDefinition → List String → Except String (List String)
  | [], _ => .ok []
  | n :: ns, checked => do
      let writeNode ← cfg.isWriteNode n.type.value
      let (errors, checked) ← connectionErrors cfg n env checked
      let rest ← environmentErrors cfg env ns checked
      return inlineErrors n env writeNode ++ errors ++ rest

/-- `_validate_deploy_environment` -/
def validateDeployEnvironment (cfg : StoreConfig) (nodes : List NodeDefinition)
    (env : RunEnvironment) : Except String (List String) :=
  environmentErrors cfg env nodes []

/-- `_validate_deploy_environment` returns, and it returns no error. -/
def environmentSafe (cfg : StoreConfig) (nodes : List NodeDefinition) (env : RunEnvironment) :
    Bool :=
  match validateDeployEnvironment cfg nodes env with
  | .ok errors => errors.isEmpty
  | .error _ => false

/-- `_validate_dag` returns no error. -/
def dagValid (nodes : List NodeDefinition) (edges : List EdgeDefinition) : Bool :=
  (validateDag { nodes, edges }).isEmpty

/-- The three checks of a deploy. -/
def WorkflowGraph.passesGate (cfg : StoreConfig) (env : RunEnvironment) (g : WorkflowGraph) :
    Bool :=
  dagValid g.nodes g.edges && environmentSafe cfg g.nodes env &&
    g.schedule.deployable cfg.toTableConfig

/-! ## Operations -/

/-- The fields of the body of a PUT, as far as they are kept here. -/
structure UpdateWorkflowRequest where
  name : Option String := none
  nodes : Option (List NodeDefinition) := none
  edges : Option (List EdgeDefinition) := none
  vars : Option Variables := none
  schedule : Option ScheduleConfig := none
  maxRunLlmCalls : Option Int := none
  expectedVersion : Option Int := none

/-- The operations on stored workflows, with what the request asks for. The new ids and the
tokens are drawn at random by the endpoint. -/
inductive WorkflowOp where
  | create (name orgId userId : String) (deptIds : List String) (graph : WorkflowGraph)
  | update (body : UpdateWorkflowRequest)
  | patchSchedule (enabled : Option Bool) (cronExpression : Option String)
  | deploy (token secret : String)
  | undeploy
  | rollback (versionNumber : Nat)
  | archive
  | restore
  | duplicate (newId orgId : String)
  | deleteVersion (versionNumber : Nat)
  | rotateWebhookToken (token secret : String)
  | delete

/-- `any(n.get("type") == "webhook_trigger" for n in nodes)` -/
def hasWebhook (nodes : List NodeDefinition) : Bool := nodes.any (·.type = .webhookTrigger)

/-- `doc.get(…) or (secrets.token_urlsafe(32) if has_webhook else None)` -/
def mintToken (old : Option String) (has : Bool) (fresh : String) : Option String :=
  match old with
  | some t => if t = "" then (if has then some fresh else none) else some t
  | none => if has then some fresh else none

/-- `if webhook_token: update["webhook_token"] = webhook_token` -/
def setToken (new old : Option String) : Option String := if new.any (· ≠ "") then new else old

namespace UpdateWorkflowRequest

/-- The checks of a PUT on the document it has read. -/
def admits (body : UpdateWorkflowRequest) (doc : StoredWorkflow) : Bool :=
  body.expectedVersion.all (doc.version = ·) &&
    (body.nodes.isNone && body.edges.isNone ||
      dagValid (body.nodes.getD doc.nodes) (body.edges.getD doc.edges))

/-- The `$set` and the `$inc` of a PUT. -/
def write (body : UpdateWorkflowRequest) (doc : StoredWorkflow) : StoredWorkflow :=
  { doc with
    name := body.name.getD doc.name
    nodes := body.nodes.getD doc.nodes
    edges := body.edges.getD doc.edges
    vars := body.vars.getD doc.vars
    schedule := body.schedule.getD doc.schedule
    maxRunLlmCalls :=
      match body.maxRunLlmCalls with
      | some n => if 0 < n then some n else none
      | none => doc.maxRunLlmCalls
    version := doc.version + 1 }

/-- The PUT carries a part of the graph. -/
def editsGraph (body : UpdateWorkflowRequest) : Bool :=
  body.nodes.isSome || body.edges.isSome || body.vars.isSome || body.schedule.isSome

end UpdateWorkflowRequest

/-- The document that `create_workflow` inserts. -/
def createdWorkflow (id name orgId userId : String) (deptIds : List String) (g : WorkflowGraph) :
    StoredWorkflow where
  workflowId := id
  userId := userId
  name := name
  orgId := orgId
  deptIds := deptIds
  schedule := g.schedule
  nodes := g.nodes
  edges := g.edges
  vars := g.vars

/-- The clone that `duplicate_workflow` inserts: all fields of the original but these. -/
def StoredWorkflow.clone (doc : StoredWorkflow) (newId orgId : String) : StoredWorkflow :=
  { doc with
    workflowId := newId
    name := doc.name ++ " (Copy)"
    version := 1
    orgId := orgId
    archived := false }

/-- The write to the live document that ends a deploy, or a rollback of a deployed workflow. -/
inductive LiveWrite where
  | deploy (token secret : Option String)
  | rollback (target : WorkflowVersion)

namespace LiveWrite

/-- The graph that goes live. -/
def graph (read : StoredWorkflow) : LiveWrite → WorkflowGraph
  | .deploy _ _ => read.graph
  | .rollback target => target.graph

/-- `_append_version_snapshot` -/
def snapshot (read : StoredWorkflow) (number : Nat) : LiveWrite → WorkflowVersion
  | .deploy _ _ =>
      { versionNumber := number, graph := read.graph, maxRunLlmCalls := read.maxRunLlmCalls }
  | .rollback target =>
      { versionNumber := number
        graph := target.graph
        maxRunLlmCalls := target.maxRunLlmCalls
        restoredFromVersion := some target.versionNumber }

def apply (number : Nat) (doc : StoredWorkflow) : LiveWrite → StoredWorkflow
  | .deploy token secret =>
      { doc with
        status := .written .deployed
        runEnvironment := .prod
        deployedVersion := some number
        webhookToken := setToken token doc.webhookToken
        webhookSecret := setToken secret doc.webhookSecret }
  | .rollback target =>
      { doc.setGraph target.graph with
        maxRunLlmCalls := target.maxRunLlmCalls
        deployedVersion := some number
        version := doc.version + 1 }

end LiveWrite

/-! ## The store -/

/-- What has happened: a PUT or a patch was written, with what it found. -/
inductive StoreEvent where
  | updated (caller : Nat) (workflowId : String) (expectedVersion : Option Int) (stored : Int)
  | patched (workflowId : String) (enabled : Option Bool) (cronExpression : Option String)
      (before after : ScheduleConfig)

/-- The two collections by the id of the workflow. The other fields record what has happened:
the tokens drawn and for which workflow, which workflows were edited after they went live, and
the PUTs and patches written. -/
structure WorkflowStore where
  docs : String → Option StoredWorkflow := fun _ => none
  versions : String → List WorkflowVersion := fun _ => []
  tokens : List (String × String) := []
  edited : String → Bool := fun _ => false
  log : List StoreEvent := []

namespace WorkflowStore

def setDoc (s : WorkflowStore) (id : String) (doc : StoredWorkflow) : WorkflowStore :=
  { s with docs := Function.update s.docs id (some doc) }

/-- `update_one` by the id of the workflow. -/
def updateDoc (s : WorkflowStore) (id : String) (f : StoredWorkflow → StoredWorkflow) :
    WorkflowStore :=
  { s with docs := Function.update s.docs id ((s.docs id).map f) }

def setEdited (s : WorkflowStore) (id : String) (edited : Bool) : WorkflowStore :=
  { s with edited := Function.update s.edited id edited }

def setVersions (s : WorkflowStore) (id : String) (versions : List WorkflowVersion) :
    WorkflowStore :=
  { s with versions := Function.update s.versions id versions }

def version (s : WorkflowStore) (id : String) (number : Nat) : Option WorkflowVersion :=
  (s.versions id).find? (·.versionNumber = number)

def numbers (s : WorkflowStore) (id : String) : List Nat :=
  (s.versions id).map (·.versionNumber)

/-- The high-water mark plus one. -/
def nextNumber (s : WorkflowStore) (id : String) : Nat := (s.numbers id).foldl max 0 + 1

/-- A drawn token is new. -/
def draw (s : WorkflowStore) (token id : String) : Option WorkflowStore :=
  if s.tokens.any (·.1 = token) then none else some { s with tokens := (token, id) :: s.tokens }

end WorkflowStore

/-- The snapshots beyond the newest `keep`, without the protected one. -/
def prunedVersions (keep protect : Nat) (nums : List Nat) : List Nat :=
  let survivors := (nums.insertionSort (· ≥ ·)).take keep
  nums.filter fun n => !survivors.contains n && n ≠ protect

/-! ## Requests -/

/-- The next command of a request, with what it has read. -/
inductive WorkflowStage where
  | find
  | insert (doc : StoredWorkflow)
  | write (read : StoredWorkflow)
  /-- A rollback looks for its target. -/
  | target (read : StoredWorkflow)
  /-- A rollback of a workflow that was not deployed writes the graph only. -/
  | restoreDraft (target : WorkflowVersion)
  | latest (read : StoredWorkflow) (w : LiveWrite)
  | insertVersion (read : StoredWorkflow) (w : LiveWrite) (number : Nat)
  | pruneFind (read : StoredWorkflow) (w : LiveWrite) (number : Nat)
  | pruneDelete (read : StoredWorkflow) (w : LiveWrite) (number : Nat) (doomed : List Nat)
  | goLive (read : StoredWorkflow) (w : LiveWrite) (number : Nat)
  | deleteVersion
  | done

structure WorkflowRequest where
  workflowId : String
  op : WorkflowOp
  stage : WorkflowStage := .find

/-- The next command, which may fail, or a check that the model leaves out refuses the request:
the authorisation, a limit on a field. -/
inductive RequestInput where
  | next (w : Write)
  | refuse
  deriving DecidableEq

/-- The command has its effect. -/
def RequestInput.ran : RequestInput → Bool
  | .next w => w.ran
  | .refuse => false

namespace WorkflowRequest

def become (p : WorkflowRequest) (stage : WorkflowStage) : WorkflowRequest := { p with stage }

/-- The stage after the document was found, and the token drawn. -/
def afterFind (cfg : StoreConfig) (s : WorkflowStore) (p : WorkflowRequest)
    (doc : StoredWorkflow) : Option (WorkflowStore × WorkflowStage) :=
  match p.op with
  | .create .. => none
  | .update body => some (s, if body.admits doc then .write doc else .done)
  | .patchSchedule _ _ | .undeploy | .delete => some (s, .write doc)
  | .deploy token secret =>
      if doc.nodes ≠ [] ∧ doc.graph.passesGate cfg .prod then
        let has := hasWebhook doc.nodes
        let stage := WorkflowStage.latest doc
          (.deploy (mintToken doc.webhookToken has token) (mintToken doc.webhookSecret has secret))
        if mintToken doc.webhookToken has token = some token then
          (s.draw token p.workflowId).map fun s => (s, stage)
        else some (s, stage)
      else some (s, .done)
  | .rollback _ => some (s, .target doc)
  | .archive => some (s, if doc.archived then .done else .write doc)
  | .restore => some (s, if doc.archived then .write doc else .done)
  | .duplicate newId orgId => some (s, .insert (doc.clone newId orgId))
  | .deleteVersion number =>
      some (s, if doc.deployedVersion = some number then .done else .deleteVersion)
  | .rotateWebhookToken token _ =>
      if doc.webhookToken.any (· ≠ "") then
        (s.draw token p.workflowId).map fun s => (s, .write doc)
      else some (s, .done)

/-- The stage of a rollback that has found its target. -/
def afterTarget (cfg : StoreConfig) (read : StoredWorkflow) (target : WorkflowVersion) :
    WorkflowStage :=
  let g := target.graph
  if g.nodes ≠ [] ∧ dagValid g.nodes g.edges then
    if read.deployed then
      if g.passesGate cfg read.runEnvironment then .latest read (.rollback target) else .done
    else .restoreDraft target
  else .done

/-- The `update_one` of an operation, given the document it has read. -/
def write (read doc : StoredWorkflow) : WorkflowOp → StoredWorkflow
  | .update body => body.write doc
  | .patchSchedule enabled cronExpression =>
      { doc with
        schedule := read.schedule.patch enabled cronExpression
        version := doc.version + 1 }
  | .undeploy => { doc with status := .written .draft }
  | .archive => { doc with archived := true, status := .inactive }
  | .restore => { doc with archived := false, status := .active }
  | .rotateWebhookToken token secret =>
      { doc with
        webhookToken := some token
        webhookSecret := some secret
        previousWebhookToken := read.webhookToken }
  | .delete => { doc with isActive := false }
  | _ => doc

/-- The operation writes a part of the graph. -/
def editsGraph : WorkflowOp → Bool
  | .update body => body.editsGraph
  | .patchSchedule _ _ => true
  | _ => false

/-- What the log says of the write of call `i` to a stored document. -/
def noted (i : Nat) (p : WorkflowRequest) (read doc : StoredWorkflow) : Option StoreEvent :=
  match p.op with
  | .update body => some (.updated i p.workflowId body.expectedVersion doc.version)
  | .patchSchedule enabled cronExpression =>
      some (.patched p.workflowId enabled cronExpression doc.schedule
        (read.schedule.patch enabled cronExpression))
  | _ => none

/-- The write reaches the store. -/
def commit (i : Nat) (p : WorkflowRequest) (read : StoredWorkflow) (s : WorkflowStore) :
    WorkflowStore :=
  let s := { s with log := ((s.docs p.workflowId).bind (p.noted i read)).toList ++ s.log }
  (s.updateDoc p.workflowId fun doc => write read doc p.op).setEdited p.workflowId
    (editsGraph p.op || s.edited p.workflowId)

/-- The graph of a target is written back to a workflow that was not deployed. -/
def restoreDraft (p : WorkflowRequest) (target : WorkflowVersion) (s : WorkflowStore) :
    WorkflowStore :=
  (s.updateDoc p.workflowId fun doc =>
    { doc.setGraph target.graph with
      maxRunLlmCalls := target.maxRunLlmCalls
      version := doc.version + 1 }).setEdited p.workflowId true

/-- The next command of call `i`. -/
def next (cfg : StoreConfig) (i : Nat) (w : Write) (s : WorkflowStore) (p : WorkflowRequest) :
    Option (WorkflowStore × WorkflowRequest) :=
  match p.stage with
  | .find =>
      match p.op with
      | .create name orgId userId deptIds g =>
          some (s, p.become (if dagValid g.nodes g.edges then
            .insert (createdWorkflow p.workflowId name orgId userId deptIds g) else .done))
      | _ =>
          match w.ok, s.docs p.workflowId with
          | true, some doc => (p.afterFind cfg s doc).map fun r => (r.1, p.become r.2)
          | _, _ => some (s, p.become .done)
  | .insert doc =>
      -- a uuid does not repeat
      if (s.docs doc.workflowId).isSome then none
      else some (if w.ran then s.setDoc doc.workflowId doc else s, p.become .done)
  | .write read =>
      some (if w.ran then p.commit i read s else s, p.become .done)
  | .target read =>
      match w.ok, p.op with
      | true, .rollback number =>
          match s.version p.workflowId number with
          | some target => some (s, p.become (afterTarget cfg read target))
          | none => some (s, p.become .done)
      | _, _ => some (s, p.become .done)
  | .restoreDraft target =>
      some (if w.ran then p.restoreDraft target s else s, p.become .done)
  | .latest read lw =>
      some (s, p.become
        (if w.ok then .insertVersion read lw (s.nextNumber p.workflowId) else .done))
  | .insertVersion read lw number =>
      -- the unique index lets one snapshot have a number
      if (s.numbers p.workflowId).contains number then some (s, p.become .done)
      else
        some (
          if w.ran then
            s.setVersions p.workflowId (s.versions p.workflowId ++ [lw.snapshot read number])
          else s,
          p.become (if w.ok then .pruneFind read lw number else .done))
  | .pruneFind read lw number =>
      let doomed := prunedVersions cfg.maxWorkflowVersions number (s.numbers p.workflowId)
      some (s, p.become
        (if !w.ok then .done
          else if doomed = [] then .goLive read lw number
          else .pruneDelete read lw number doomed))
  | .pruneDelete read lw number doomed =>
      some (
        if w.ran then
          s.setVersions p.workflowId
            ((s.versions p.workflowId).filter fun v => !doomed.contains v.versionNumber)
        else s,
        p.become (if w.ok then .goLive read lw number else .done))
  | .goLive _ lw number =>
      some (
        if w.ran then
          (s.updateDoc p.workflowId fun doc => lw.apply number doc).setEdited p.workflowId false
        else s,
        p.become .done)
  | .deleteVersion =>
      match p.op with
      | .deleteVersion number =>
          some (
            if w.ran then
              s.setVersions p.workflowId
                ((s.versions p.workflowId).filter (·.versionNumber ≠ number))
            else s,
            p.become .done)
      | _ => none
  | .done => none

def step (cfg : StoreConfig) (i : Nat) (input : RequestInput) (s : WorkflowStore)
    (p : WorkflowRequest) : Option (WorkflowStore × WorkflowRequest) :=
  match input with
  | .next w => p.next cfg i w s
  | .refuse =>
      match p.stage with
      | .find => some (s, p.become .done)
      | _ => none

end WorkflowRequest

/-- What a request starts with. -/
structure RequestStart where
  workflowId : String
  op : WorkflowOp

/-- Any number of requests on any workflows. Nothing else writes the two collections. -/
def workflowSystem (cfg : StoreConfig) :
    System WorkflowStore WorkflowRequest RequestStart RequestInput Empty where
  spawn _ x s := some (s, { workflowId := x.workflowId, op := x.op })
  step i input s p := p.step cfg i input s
  env e _ := e.elim

abbrev StoreRun := Configuration WorkflowStore WorkflowRequest

abbrev StoreMove := Move RequestStart RequestInput Empty

/-- No request takes such a step. -/
def NoStep (bad : StoreRun → WorkflowRequest → RequestInput → Bool) (c : StoreRun) :
    StoreMove → Prop
  | .step i input => ∀ p ∈ c.proc i, bad c p input = false
  | _ => True

instance (bad : StoreRun → WorkflowRequest → RequestInput → Bool) (c : StoreRun)
    (m : StoreMove) : Decidable (NoStep bad c m) :=
  match m with
  | .step i input => inferInstanceAs (Decidable (∀ p ∈ c.proc i, bad c p input = false))
  | .spawn _ | .crash _ | .env _ => .isTrue trivial

/-- No connections, and no name for the write nodes. -/
def bareStore : StoreConfig where
  accepts := fun _ _ => true
  connections := fun _ => none

/-- A request on a workflow starts. -/
def StoreMove.begin (id : String) (op : WorkflowOp) : StoreMove := .spawn ⟨id, op⟩

/-- The next `k` commands of a request, none of which fails. -/
def StoreMove.commands (i k : Nat) : List StoreMove := List.replicate k (.step i (.next .done))

/-- A workflow is created. -/
def createsReport : List StoreMove :=
  StoreMove.begin "report" (.create "Report" "acme" "someone" [] {}) :: StoreMove.commands 0 2

end CitraFlows
