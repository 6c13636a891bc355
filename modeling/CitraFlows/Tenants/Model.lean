-- SUMMARY: The collections that the workflow API serves, and its endpoints with their access checks, command by command.
import CitraFlows.Connections.Masking
import CitraFlows.Lib.Tables
import CitraFlows.Lifecycle.Model
import CitraFlows.Tenants.Access
import CitraFlows.Workflows.KillSwitch

/-!
# The workflow API

All organisations share the collections. A request carries the claims of its token and names what
it wants by id; what it may see or change is decided by the checks on what it finds. Workers, the
scheduler and the webhook write executions and approvals beside the endpoints.

The requests on stored workflows are those of `Workflows.Model`, with the checks in front. Two
reads in a row are one command where what the first one finds never changes.
-/

namespace CitraFlows

open Processes

/-! ## Collections -/

inductive WorkflowKind where
  | deptDataFlow | mcpIngestion | smartAppAction | adHoc
  deriving DecidableEq

/-- The fields of a document of `Workflows` that only the listing reads. -/
structure WorkflowInfo where
  description : String := ""
  kind : WorkflowKind := .adHoc
  linkedSmartAppId : Option String := none
  updatedAt : Nat := 0
  deriving DecidableEq

/-- The collections. `order` lists the ids of the workflows as they were inserted; `issued` records
the id and the organisation of every connection that was ever created. -/
structure ApiStore where
  workflows : WorkflowStore := {}
  order : List String := []
  info : String → WorkflowInfo := fun _ => {}
  connections : List ConnectionDoc := []
  issued : List (String × String) := []
  executions : Table ExecutionDocument := {}
  approvals : Table ApprovalDocument := {}

structure ApiConfig extends StoreConfig where
  fernet : Fernet
  secretMaskLength : Int := 8
  /-- `IT_DEPT_ID`, in lower case. -/
  itDeptId : String := "it"
  /-- Whether Mongo finds the escaped term in a text, whatever the case. -/
  finds : String → String → Bool

namespace ApiStore

/-- The documents of `Workflows` with all their fields. -/
def rows (s : ApiStore) : Table (StoredWorkflow × WorkflowInfo) where
  ids := s.order
  get id := (s.workflows.docs id).map fun doc => (doc, s.info id)

/-- `_validate_deploy_environment` looks a connection up by its id alone. -/
def connection (s : ApiStore) (id : String) : Option Connection :=
  (s.connections.find? (·.connectionId = id)).map fun doc =>
    { name := some doc.name, test := doc.config .test ≠ [], prod := doc.config .prod ≠ [] }

/-- The workflow is there and belongs to the organisation. -/
def owns (s : ApiStore) (orgId id : String) : Bool := (s.workflows.docs id).any (·.orgId = orgId)

end ApiStore

/-- The gate of a deploy with the connections stored now. -/
def ApiConfig.now (cfg : ApiConfig) (s : ApiStore) : StoreConfig :=
  { cfg.toStoreConfig with connections := s.connection }

/-! ## Requests and replies -/

/-- `GET /api/workflows` -/
structure WorkflowQuery where
  skip : Nat := 0
  limit : Nat := 50
  includeSmartAppAction : Bool := false
  linkedSmartAppId : Option String := none
  search : Option String := none

/-- `GET /api/workflows/{workflow_id}/executions` -/
structure ExecutionQuery where
  skip : Nat := 0
  limit : Nat := 20
  status : Option StoredStatus := none

/-- The fields of a create or an update that only the listing reads. -/
structure ListingFields where
  description : Option String := none
  kind : Option WorkflowKind := none
  linkedSmartAppId : Option String := none

inductive ApiCall where
  | store (workflowId : String) (op : WorkflowOp) (fields : ListingFields)
  | getWorkflow (workflowId : String)
  | listWorkflows (q : WorkflowQuery)
  | listVersions (workflowId : String)
  | getVersion (workflowId : String) (number : Nat)
  | createConnection (connectionId : String) (body : CreateConnectionRequest)
  | listConnections (type : Option String)
  | getConnection (connectionId : String)
  | updateConnection (connectionId : String) (body : UpdateConnectionRequest)
  | deleteConnection (connectionId : String)
  | execute (workflowId executionId environment : String) (triggerData : List (String × Value))
  | listExecutions (workflowId : String) (q : ExecutionQuery)
  | getExecution (executionId : String)
  | decide (executionId : String) (approved : Bool)
  | cancel (executionId : String)
  | listPendingApprovals
  | listAllApprovals (skip limit : Nat)

inductive ApiReply where
  | refused (r : Refusal)
  | failed (e : ApiError)
  | stored
  | workflow (doc : StoredWorkflow) (info : WorkflowInfo)
  | workflows (items : List (StoredWorkflow × WorkflowInfo)) (total : Nat) (hasMore : Bool)
  | versions (deployedVersion : Option Nat) (status : StoredWorkflowStatus)
      (versions : List WorkflowVersion)
  | version (v : WorkflowVersion)
  | connection (doc : ConnectionDoc)
  | connections (docs : List ConnectionDoc)
  | execution (doc : ExecutionDocument)
  | executions (name : String) (docs : List ExecutionDocument)
  | approvals (docs : List ApprovalDocument) (total : Nat)
  | queued (executionId : String)
  | cancelled (executionId : String)

/-- Where a request has got to. -/
inductive ApiStage where
  | received
  /-- A request of `Workflows.Model` after its checks, with the listing fields it has read. -/
  | storing (p : WorkflowRequest) (read : WorkflowInfo)
  | counting (items : List (StoredWorkflow × WorkflowInfo))
  | readVersions (doc : StoredWorkflow)
  | insertRun
  | enqueueRun (executionId : String)
  | readExecutions (doc : StoredWorkflow)
  | casResume (executionId : String)
  | enqueueResume (executionId : String)
  | rollbackResume (executionId : String)
  | markCancel (executionId : String) (doc : ExecutionDocument)
  | casCancel (executionId : String)
  /-- The ids of the workflows whose approvals are listed; `none` for those of all. -/
  | readApprovals (ids : Option (List String))
  | countApprovals (ids : Option (List String)) (docs : List ApprovalDocument)
  | answered (reply : ApiReply)

structure ApiRequest where
  claims : JwtClaims
  call : ApiCall
  stage : ApiStage := .received

/-- What a command meets: how it ends, the time, the halts that `get_halt` reads, and the salts
drawn for it. -/
structure ApiInput (cfg : ApiConfig) where
  write : Write := .done
  now : Nat := 0
  controls : List KillSwitch.Control := []
  salt : RunEnvironment → String → cfg.fernet.Salt

def ApiStage.refuse (r : Refusal) : ApiStage := .answered (.refused r)

/-- The answer to a request whose command has raised. -/
def ApiStage.crashed : ApiStage := .answered (.failed (.http 500 "Internal Server Error"))

/-! ## Reads -/

namespace ApiStore

/-- `find_one` by the id of the workflow, and the check of what it finds. -/
def load (s : ApiStore) (id : String) (check : StoredWorkflow → Option Refusal) :
    Except Refusal StoredWorkflow :=
  match s.workflows.docs id with
  | none => .error ⟨404, "Workflow not found"⟩
  | some doc =>
      match check doc with
      | some r => .error r
      | none => .ok doc

/-- `_authorize_execution`. The workflow of an execution never changes. -/
def authorizeExecution (s : ApiStore) (itDeptId : String) (claims : JwtClaims) (id : String) :
    Except Refusal ExecutionDocument :=
  match requireWorkflowAccess itDeptId claims with
  | some r => .error r
  | none =>
      match s.executions.get id with
      | none => .error ⟨404, "Execution not found"⟩
      | some e =>
          if sameOrgOrSuper claims (s.workflows.docs e.record.workflowId) then .ok e
          else .error ⟨403, "execution belongs to a different org"⟩

/-- `_approval_filter_for_org`: the ids of the workflows of the organisation. -/
def approvalFilter (s : ApiStore) (claims : JwtClaims) : Option (List String) :=
  if claims.isSuperAdmin then none
  else some ((s.rows.select fun row => row.1.orgId = claims.orgId).filterMap fun row =>
    if row.1.workflowId = "" then none else some row.1.workflowId)

end ApiStore

/-- The `match` of `list_workflows`. -/
def WorkflowQuery.admits (q : WorkflowQuery) (cfg : ApiConfig) (orgId : String)
    (row : StoredWorkflow × WorkflowInfo) : Bool :=
  row.1.orgId = orgId && row.1.isActive &&
    (match q.linkedSmartAppId with
    | some app =>
        if app = "" then q.includeSmartAppAction || row.2.kind ≠ .smartAppAction
        else row.2.linkedSmartAppId = some app
    | none => q.includeSmartAppAction || row.2.kind ≠ .smartAppAction) &&
    let term := String.ofList (Python.strip (q.search.getD "").toList)
    term = "" || cfg.finds term row.1.name || cfg.finds term row.2.description

/-- Newest first; what is equally new stays in the order of insertion. -/
def newestFirst {α : Type} (time : α → Nat) (xs : List α) : List α :=
  xs.insertionSort fun a b => time b ≤ time a

def page {α : Type} (skip limit : Nat) (xs : List α) : List α := (xs.drop skip).take limit

def admitsApproval (ids : Option (List String)) (a : ApprovalDocument) : Bool :=
  ids.all (·.contains a.request.workflowId)

/-! ## Commands -/

namespace ListingFields

/-- The checks of `create_workflow` on the body. -/
def refuses (fields : ListingFields) : Option Refusal :=
  if fields.kind = some .smartAppAction && fields.linkedSmartAppId.all (· = "") then
    some ⟨400, "workflow_kind='smart_app_action' requires linked_smart_app_id"⟩
  else none

def created (fields : ListingFields) : WorkflowInfo where
  description := fields.description.getD ""
  kind := fields.kind.getD .adHoc
  linkedSmartAppId := fields.linkedSmartAppId

/-- The listing fields after the write of an operation. A patch of the schedule leaves even the
time of the last update. -/
def written (fields : ListingFields) (now : Nat) (info : WorkflowInfo) : WorkflowOp → WorkflowInfo
  | .update _ =>
      { info with
        description := fields.description.getD info.description
        updatedAt := now }
  | .patchSchedule .. => info
  | _ => { info with updatedAt := now }

end ListingFields

/-- The command writes to the live document. -/
def WorkflowStage.writesLive : WorkflowStage → Bool
  | .write _ | .restoreDraft _ | .goLive .. => true
  | _ => false

namespace ApiRequest

variable (cfg : ApiConfig) (i : Nat) (input : ApiInput cfg) (s : ApiStore)

/-- A command of the stored workflows, and what it means for the listing. -/
def advance (fields : ListingFields) (p : WorkflowRequest) (read : WorkflowInfo) :
    Option (ApiStore × ApiStage) :=
  match p.stage with
  | .insert doc =>
      -- a uuid does not repeat
      if s.rows.has doc.workflowId then none
      else
        (p.step (cfg.now s) i (.next input.write) s.workflows).map fun r =>
          ({ s with
              workflows := r.1
              order := if input.write.ran then s.order ++ [doc.workflowId] else s.order
              info := if input.write.ran then
                  Function.update s.info doc.workflowId { read with updatedAt := input.now }
                else s.info }, .storing r.2 read)
  | stage =>
      (p.step (cfg.now s) i (.next input.write) s.workflows).map fun r =>
        ({ s with
            workflows := r.1
            info := if stage.writesLive && input.write.ran then
                Function.update s.info p.workflowId
                  (fields.written input.now (s.info p.workflowId) p.op)
              else s.info }, .storing r.2 read)

/-- The first command of a request on a stored workflow. -/
def receiveStore (claims : JwtClaims) (id : String) (op : WorkflowOp) (fields : ListingFields) :
    Option (ApiStore × ApiStage) :=
  let p : WorkflowRequest := { workflowId := id, op := op.asCaller claims }
  match if op.requiresAccess then requireWorkflowAccess cfg.itDeptId claims else none with
  | some r => some (s, .refuse r)
  | none =>
      match op with
      | .create _ _ _ _ g =>
          match if dagValid g.nodes g.edges then fields.refuses else none with
          | some r => some (s, .refuse r)
          | none => advance cfg i { input with write := .done } s fields p fields.created
      | op =>
          if !input.write.ok then some (s, .crashed)
          else
            match s.load id fun doc => op.guard cfg.itDeptId claims doc with
            | .error r => some (s, .refuse r)
            | .ok _ => advance cfg i input s fields p (s.info id)

/-- A read of a workflow that the request may see, and what comes of it. -/
def readWorkflow (claims : JwtClaims) (gated : Bool) (id : String)
    (next : StoredWorkflow → ApiStage) : ApiStage :=
  match if gated then requireWorkflowAccess cfg.itDeptId claims else none with
  | some r => .refuse r
  | none =>
      if !input.write.ok then .crashed
      else
        match s.load id (checkWorkflowAction cfg.itDeptId claims) with
        | .error r => .refuse r
        | .ok doc => next doc

/-- A read of an execution that the request may see, and what comes of it. -/
def readExecution (claims : JwtClaims) (id : String) (next : ExecutionDocument → ApiStage) :
    ApiStage :=
  if !input.write.ok then .crashed
  else
    match s.authorizeExecution cfg.itDeptId claims id with
    | .error r => .refuse r
    | .ok e => next e

/-- A request that needs the role, and an organisation, only. -/
def gated (claims : JwtClaims) (next : ApiStore × ApiStage) : ApiStore × ApiStage :=
  match requireWorkflowAccess cfg.itDeptId claims with
  | some r => (s, .refuse r)
  | none => next

def reply {α : Type} (answer : α → ApiReply) : Except ApiError α → ApiStage
  | .ok a => .answered (answer a)
  | .error e => .answered (.failed e)

/-- The answer to a command that writes. -/
def ended (answer : ApiReply) : ApiStage := if input.write.ok then .answered answer else .crashed

/-- The departments of a workflow as the halts name them. -/
def deptTokens (doc : StoredWorkflow) : List String :=
  doc.deptIds.map fun d => doc.orgId ++ ":" ++ String.ofList (Python.lower d.toList)

/-- `_enforce_workflow_not_halted` -/
def enforceWorkflowNotHalted (doc : StoredWorkflow) : Option Refusal :=
  (KillSwitch.matchHalt input.controls (some doc.orgId) (deptTokens doc)).map fun halt =>
    ⟨503, "Workflow runs are halted at " ++ halt.scope.scopeType.name ++ " scope: " ++
      if halt.reason = "" then "paused by an administrator" else halt.reason⟩

/-- The workflow is not halted and is loaded for a run, which needs an organisation to run in. -/
def startRun (doc : StoredWorkflow) : ApiStage :=
  match enforceWorkflowNotHalted cfg input doc with
  | some r => .refuse r
  | none =>
      match doc.load with
      | none => .crashed
      | some wf =>
          if wf.orgId = "" then
            .refuse ⟨500, "Failed to mint the workflow's org-level execution token " ++
              "(workflow needs an org_id and JWT_SECRET must be set); " ++
              "refusing to run without an execution identity."⟩
          else .insertRun

/-- `_enqueue_resume` up to its compare-and-set. -/
def startResume (id : String) (e : ExecutionDocument) : ApiStage :=
  match e.load with
  | none => .crashed
  | some r =>
      if r.status = .paused then .casResume id
      else .refuse ⟨400, "Execution is not paused"⟩

/-- `cancel_execution` up to its first write. -/
def startCancel (id : String) (e : ExecutionDocument) : ApiStage :=
  if e.terminal then .refuse ⟨409, "Execution already finished; nothing to cancel."⟩
  else .markCancel id e

/-- The first command of a request. -/
def receive (claims : JwtClaims) : ApiCall → Option (ApiStore × ApiStage)
  | .store id op fields => receiveStore cfg i input s claims id op fields
  | .getWorkflow id =>
      some (s, readWorkflow cfg input s claims false id fun doc =>
        .answered (.workflow doc (s.info id)))
  | .listWorkflows q =>
      some (gated cfg s claims (s,
        if input.write.ok then
          .counting (page q.skip q.limit
            (newestFirst (·.2.updatedAt) (s.rows.select (q.admits cfg claims.orgId))))
        else .crashed))
  | .listVersions id | .getVersion id _ =>
      some (s, readWorkflow cfg input s claims true id .readVersions)
  | .createConnection id body =>
      some (gated cfg s claims (
        match ConnectionApi.createConnection cfg.fernet input.salt claims.orgId id body
          s.connections with
        | .error e => (s, .answered (.failed e))
        | .ok docs =>
            (if input.write.ran then
              { s with
                connections := docs
                issued := (id, String.ofList (Python.strip claims.orgId.toList)) :: s.issued }
              else s, ended cfg input .stored)))
  | .listConnections type =>
      let docs := s.connections.filter fun doc => doc.orgId = claims.orgId &&
        type.all fun t => t = "" ||
          let name := String.ofList (Python.lower (Python.strip t.toList))
          doc.type = if name = "s3" then "bucket" else name
      some (gated cfg s claims (s,
        if input.write.ok then
          reply .connections
            (raised (docs.reverse.mapM (maskConnection cfg.secretMaskLength)))
        else .crashed))
  | .getConnection id =>
      some (gated cfg s claims (s,
        if input.write.ok then
          reply .connection
            (ConnectionApi.getConnection cfg.secretMaskLength claims.orgId id s.connections)
        else .crashed))
  | .updateConnection id body =>
      some (gated cfg s claims (
        match ConnectionApi.updateConnection cfg.fernet input.salt claims.orgId id body
          s.connections with
        | .error e => (s, .answered (.failed e))
        | .ok docs =>
            (if input.write.ran then { s with connections := docs } else s,
              ended cfg input .stored)))
  | .deleteConnection id =>
      let found := s.connections.any (ConnectionApi.matching claims.orgId id)
      some (gated cfg s claims (
        if input.write.ran then
          { s with connections := s.connections.eraseP (ConnectionApi.matching claims.orgId id) }
        else s,
        if input.write.ok && !found then .refuse ⟨404, "Connection not found"⟩
        else ended cfg input .stored))
  | .execute id _ _ _ =>
      some (s, readWorkflow cfg input s claims false id (startRun cfg input))
  | .listExecutions id _ =>
      some (s, readWorkflow cfg input s claims false id .readExecutions)
  | .getExecution id =>
      some (s, readExecution cfg input s claims id fun e => .answered (.execution e))
  | .decide id _ => some (s, readExecution cfg input s claims id (startResume id))
  | .cancel id => some (s, readExecution cfg input s claims id (startCancel id))
  | .listPendingApprovals | .listAllApprovals _ _ =>
      some (gated cfg s claims (s,
        if input.write.ok then
          match s.approvalFilter claims with
          | some [] => .answered (.approvals [] 0)
          | ids => .readApprovals ids
        else .crashed))

/-- The execution that `execute_workflow` inserts. -/
def queuedRun (claims : JwtClaims) (workflowId executionId environment : String)
    (triggerData : List (String × Value)) : ExecutionDocument where
  status := .queued
  record := {
    executionId
    workflowId
    userId := claims.userId
    triggerData
    environment
    startedAt := input.now }

def setExecution (id : String) (f : ExecutionDocument → ExecutionDocument) : ApiStore :=
  if input.write.ran then { s with executions := s.executions.modify id f } else s

/-- The next command of a request. -/
def next (req : ApiRequest) : Option (ApiStore × ApiStage) :=
  match req.stage with
  | .received => receive cfg i input s req.claims req.call
  | .storing p read =>
      match req.call with
      | .store _ _ fields => advance cfg i input s fields p read
      | _ => none
  | .counting items =>
      match req.call with
      | .listWorkflows q =>
          let total := (s.rows.select (q.admits cfg req.claims.orgId)).length
          some (s, if input.write.ok then
            .answered (.workflows items total (q.skip + items.length < total)) else .crashed)
      | _ => none
  | .readVersions doc =>
      match req.call with
      | .listVersions id =>
          some (s, if input.write.ok then
            .answered (.versions doc.deployedVersion doc.status
              ((s.workflows.versions id).insertionSort fun v w => w.versionNumber ≤ v.versionNumber))
            else .crashed)
      | .getVersion id number =>
          some (s, if input.write.ok then
            match s.workflows.version id number with
            | some v => .answered (.version v)
            | none => .refuse ⟨404, "Version not found"⟩
            else .crashed)
      | _ => none
  | .insertRun =>
      match req.call with
      | .execute id executionId environment triggerData =>
          if s.executions.has executionId then none
          else some (
            if input.write.ran then
              { s with
                executions := s.executions.insert executionId
                  (queuedRun cfg input req.claims id executionId environment triggerData) }
            else s,
            if input.write.ok then .enqueueRun executionId else .crashed)
      | _ => none
  | .enqueueRun id =>
      -- the job that could be queued is not part of the store
      some (
        if input.write.ok then s
        else { s with
          executions := s.executions.modify id (·.finalize .failed "failed to enqueue job") },
        if input.write.ok then .answered (.queued id)
        else .refuse ⟨503, "Worker queue unavailable"⟩)
  | .readExecutions doc =>
      match req.call with
      | .listExecutions id q =>
          some (s, if input.write.ok then
            .answered (.executions doc.name (page q.skip q.limit
              (newestFirst (·.record.startedAt) (s.executions.select fun e =>
                e.record.workflowId = id && q.status.all (e.status = ·)))))
            else .crashed)
      | _ => none
  | .casResume id =>
      match req.call with
      | .decide _ approved =>
          if (s.executions.get id).any (·.status = .written .paused) then
            some (setExecution cfg input s id fun e =>
                { e with
                  status := .written .resuming
                  resumedAt := some input.now
                  resumeDecision := some (if approved then .approved else .rejected) },
              if input.write.ok then .enqueueResume id else .crashed)
          else some (s, .refuse ⟨409, "This approval has already been resolved."⟩)
      | _ => none
  | .enqueueResume id =>
      some (s, if input.write.ok then .answered (.queued id) else .rollbackResume id)
  | .rollbackResume id =>
      some (setExecution cfg input s id fun e => { e with status := .written .paused },
        if input.write.ok then .refuse ⟨503, "Worker queue unavailable"⟩ else .crashed)
  | .markCancel id e =>
      some (setExecution cfg input s id fun e => { e with cancelRequested := true },
        if !input.write.ok then .crashed
        else if e.status = .written .paused then .casCancel id
        else .answered (.cancelled id))
  | .casCancel id =>
      if (s.executions.get id).any (·.status = .written .paused) then
        some (setExecution cfg input s id (·.finalize .cancelled "Execution cancelled by user"),
          ended cfg input (.cancelled id))
      else some (s, .answered (.cancelled id))
  | .readApprovals ids =>
      match req.call with
      | .listPendingApprovals =>
          let docs := newestFirst (·.createdAt) (s.approvals.select fun a =>
            admitsApproval ids a && a.resolution.isNone)
          some (s, if input.write.ok then .answered (.approvals docs docs.length) else .crashed)
      | .listAllApprovals skip limit =>
          some (s, if input.write.ok then
            .countApprovals ids (page skip limit
              (newestFirst (·.createdAt) (s.approvals.select (admitsApproval ids))))
            else .crashed)
      | _ => none
  | .countApprovals ids docs =>
      some (s, if input.write.ok then
        .answered (.approvals docs (s.approvals.select (admitsApproval ids)).length) else .crashed)
  | .answered _ => none

end ApiRequest

/-! ## The system -/

structure ApiStart where
  claims : JwtClaims
  call : ApiCall

/-- What workers, the scheduler and the webhook write. An execution keeps its workflow. -/
inductive EngineWrite where
  | insert (executionId : String) (doc : ExecutionDocument)
  | save (executionId : String) (doc : ExecutionDocument)
  | ask (approvalId : String) (doc : ApprovalDocument)
  | resolve (approvalId : String) (resolution : Resolution)

def EngineWrite.apply (s : ApiStore) : EngineWrite → Option ApiStore
  | .insert id doc =>
      if s.executions.has id ∨ (s.workflows.docs doc.record.workflowId).isNone then none
      else some { s with executions := s.executions.insert id doc }
  | .save id doc =>
      if (s.executions.get id).any (·.record.workflowId = doc.record.workflowId) then
        some { s with executions := s.executions.modify id fun _ => doc }
      else none
  | .ask id doc =>
      if s.approvals.has id ∨ (s.workflows.docs doc.request.workflowId).isNone then none
      else some { s with approvals := s.approvals.insert id doc }
  | .resolve id resolution =>
      if (s.approvals.get id).isSome then
        some { s with
          approvals := s.approvals.modify id fun a => { a with resolution := some resolution } }
      else none

/-- Any number of requests of any organisations. -/
def apiSystem (cfg : ApiConfig) :
    System ApiStore ApiRequest ApiStart (ApiInput cfg) EngineWrite where
  spawn _ x s := some (s, { claims := x.claims, call := x.call })
  step i input s req := (req.next cfg i input s).map fun r => (r.1, { req with stage := r.2 })
  env e s := e.apply s

abbrev ApiRun := Configuration ApiStore ApiRequest

abbrev ApiMove (cfg : ApiConfig) := Move ApiStart (ApiInput cfg) EngineWrite

end CitraFlows
