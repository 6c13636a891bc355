-- SUMMARY: A turn of the assistant: the caller's identity, the tool calls, and the jobs that run_workflow_test sends to the worker.
import CitraFlows.Assistant.WorkingCopy
import CitraFlows.Connections.Resolver
import CitraFlows.Nodes.State

/-!
# Turns of the assistant

A turn starts from the workflow of the request. The model calls tools; `run_workflow_test` sends
the working copy, or a workflow of the model's own, to the worker as an inline definition.
-/

namespace CitraFlows

/-! ## Identities -/

/-- An authenticated caller that has passed `_require_workflow_access`. -/
structure Caller where
  userId : String
  email : String := ""
  orgId : String
  deptIds : List String := []
  userId_ne : userId ≠ "" := by decide
  orgId_ne : orgId ≠ "" := by decide

/-- `identity` of `run_workflow_assistant` -/
structure Identity where
  workflowId : Value
  orgId : String
  deptIds : List String
  authorEmail : String
  userId : String

/-- What `ai_chat` passes on: the workflow id is that of the request's workflow. -/
def Caller.identity (who : Caller) (workflow : Entries) : Identity where
  workflowId := workflow.getOr "workflow_id" (Value.getD workflow "id")
  orgId := who.orgId
  deptIds := who.deptIds
  authorEmail := if who.email = "" then who.userId else who.email
  userId := who.userId

/-! ## Reading a definition -/

/-- How pydantic reads the fields that have no text, `none` for a validation error. -/
structure Pydantic where
  nodes : Value → Option (List NodeDefinition)
  edges : Value → Option (List EdgeDefinition)
  vars : Value → Option Variables
  /-- The other fields. A run reads `author_email` and `notifications` of them, for its mails, which
  are not modelled. -/
  accepts : Entries → Bool
  /-- `uuid.uuid4()` -/
  freshId : String := ""

/-- A field of type `str`. -/
def readStr (d : Entries) (key default : String) : Option String :=
  match Value.field d key with
  | none => some default
  | some (.str s) => some s
  | some _ => none

/-- A field of type `Optional[str]`. -/
def readOptStr (d : Entries) (key : String) (default : Option String) : Option (Option String) :=
  match Value.field d key with
  | none => some default
  | some .none => some none
  | some (.str s) => some (some s)
  | some _ => none

def Value.asStr : Value → Option String
  | .str s => some s
  | _ => Option.none

/-- A field of type `List[str]`. -/
def readStrs (d : Entries) (key : String) : Option (List String) :=
  match Value.field d key with
  | none => some []
  | some (.list xs) => xs.mapM Value.asStr
  | some _ => none

/-- A field that pydantic reads, with its default. -/
def readField {α : Type} (read : Value → Option α) (default : α) (d : Entries) (key : String) :
    Option α :=
  match Value.field d key with
  | none => some default
  | some v => read v

/-- The members of `owner_type`. -/
def ownerTypes : List String := ["service_account", "dept", "org"]

/-- The fields that `Pydantic.workflowDefinition` reads one by one. -/
def definitionKeys : List String :=
  ["workflow_id", "name", "user_id", "owner_type", "owner_id", "org_id", "dept_ids",
    "author_user_id", "linked_smart_app_id", "nodes", "edges", "variables"]

/-- `WorkflowDefinition(**d)` -/
def Pydantic.workflowDefinition (pd : Pydantic) (d : Entries) : Option WorkflowDefinition := do
  let workflowId ← readOptStr d "workflow_id" (some pd.freshId)
  let name ← (Value.field d "name").bind Value.asStr
  let userId ← readStr d "user_id" ""
  let ownerType ← (readStr d "owner_type" "org").filter (· ∈ ownerTypes)
  let ownerId ← readStr d "owner_id" ""
  let orgId ← readStr d "org_id" ""
  let deptIds ← readStrs d "dept_ids"
  let authorUserId ← readStr d "author_user_id" ""
  let linkedSmartAppId ← readOptStr d "linked_smart_app_id" none
  let nodes ← readField pd.nodes [] d "nodes"
  let edges ← readField pd.edges [] d "edges"
  let vars ← readField pd.vars ∅ d "variables"
  if pd.accepts (d.filter fun e => e.1 ∉ definitionKeys) then
    some { workflowId := workflowId.getD "", name, userId, ownerType, ownerId, orgId, deptIds,
           authorUserId, linkedSmartAppId, nodes, edges, vars }
  else none

/-! ## The token -/

/-- The claims of the token of a workflow. -/
structure OrgToken where
  userId : String
  email : String
  orgId : String
  deptIds : List String
  roles : List String := ["workflow_system", "IT-workflow", "org_admin", "user"]
  workflowId : String
  authorEmail : String

/-- `mint_workflow_org_token`; `secret` says that `JWT_SECRET` is configured. -/
def mintWorkflowOrgToken (secret : Bool) (workflowId orgId : String) (deptIds : List String)
    (authorEmail : String) : Option OrgToken :=
  if workflowId = "" || orgId = "" || !secret then none
  else
    some
      { userId := "workflow-system:" ++ workflowId
        email := "workflow-" ++ workflowId ++ "@system.citra"
        orgId, deptIds, workflowId, authorEmail }

/-! ## Test runs -/

/-- The defaults that `run_workflow_test` sets. -/
def Identity.setDefaults (who : Identity) (d : Entries) : Entries :=
  let d := d.setdefault "name" (d.getOr "name" (.str "AI Test Run"))
  let d := d.setdefault "workflow_id"
    (if who.workflowId.truthy then who.workflowId else .str "ai-test")
  let d := d.setdefault "user_id" (.str (if who.userId = "" then "ai-assistant" else who.userId))
  let d := if who.orgId = "" then d else d.setdefault "org_id" (.str who.orgId)
  if who.deptIds.isEmpty then d else d.setdefault "dept_ids" (.list (who.deptIds.map .str))

/-- A test run that is asked for: the workflow that is supplied and the data of the trigger. -/
structure TestRequest where
  identity : Identity
  supplied : Entries
  triggerData : Value
  executionId : String
  secret : Bool

/-- The job that the worker takes. The dump of the definition reads back as the definition. -/
structure TestJob where
  executionId : String
  definition : WorkflowDefinition
  triggerData : Value
  jwtToken : Option OrgToken

def TestRequest.job (pd : Pydantic) (r : TestRequest) : Option TestJob :=
  (pd.workflowDefinition (r.identity.setDefaults r.supplied)).map fun wf =>
    { executionId := r.executionId
      definition := wf
      triggerData := r.triggerData
      jwtToken :=
        mintWorkflowOrgToken r.secret wf.workflowId wf.orgId wf.deptIds r.identity.authorEmail }

/-- `run_workflow` of the worker, which runs an inline definition in the test environment only. The
trigger data of an execution is a dict. -/
def TestJob.run (encode : OrgToken → Option String) (env : RunEnv) (job : TestJob) :
    Option CallResult :=
  job.triggerData.asDict.map fun data =>
    execute { env with jwtToken := job.jwtToken.bind encode } job.definition data job.executionId
      "test"

/-! ## Tool calls -/

/-- The working copy of a dict, if its nodes and edges are lists of dicts. -/
def WorkingCopy.ofDict (d : Entries) : Option WorkingCopy := do
  let graph (key : String) : Option (Option (List Entries)) :=
    match Value.field d key with
    | none => some none
    | some (.list xs) => (xs.mapM Value.asDict).map some
    | some _ => none
  let nodes ← graph "nodes"
  let edges ← graph "edges"
  some { nodes, edges, rest := d.filter fun e => e.1 ≠ "nodes" && e.1 ≠ "edges" }

def WorkingCopy.toDict (wc : WorkingCopy) : Entries :=
  let graph (key : String) (l : Option (List Entries)) : Entries :=
    match l with
    | none => []
    | some l => [(key, .list (l.map .dict))]
  graph "nodes" wc.nodes ++ graph "edges" wc.edges ++ wc.rest

/-- An edit tool on the working copy as it is. If its nodes or edges are no lists of dicts, a tool
may stop anywhere: `left` is what it leaves of the two. -/
def EditCall.edit (py : PyBuiltins) (left : Entries) (call : EditCall) (wc : Entries) : Entries :=
  match WorkingCopy.ofDict wc with
  | some copy => (call.run py copy).1.toDict
  | none =>
      let rest := wc.filter fun e => e.1 ≠ "nodes" && e.1 ≠ "edges"
      left.filter (fun e => !(e.1 ≠ "nodes" && e.1 ≠ "edges")) ++ (call.run py { rest }).1.rest

/-- `create_workflow` -/
def createWorkflow (wc args : Entries) : Entries :=
  match orEmpty (Value.getD args "workflow") with
  | .error _ => wc
  | .ok new =>
      if !(Value.getD new "nodes").truthy then wc
      else
        let get (key : String) (default : Value) := (key, (Value.field new key).getD default)
        [get "name" ((Value.field wc "name").getD (.str "AI Workflow")), get "description" (.str ""),
          get "icon" (.str "🤖"), get "tags" (.list []), get "nodes" (.list []),
          get "edges" (.list []), get "variables" (.dict [])]

/-- `dict(args.get("workflow") or edit_state["wc"])` -/
def suppliedWorkflow (py : PyBuiltins) (wc args : Entries) : Except PyError Entries :=
  if (Value.getD args "workflow").truthy then py.dict (Value.getD args "workflow") else .ok wc

/-- A tool call. The tools that only read leave everything as it is. -/
inductive AssistantCall where
  | edit (call : EditCall) (left : Entries)
  | createWorkflow (args : Value)
  /-- `queued` says that the queue takes the job. -/
  | runWorkflowTest (args : Value) (executionId : String) (secret queued : Bool)
  | read

/-- The state of a turn, and the test runs it has sent to the worker. -/
structure Turn where
  identity : Identity
  wc : Entries
  tests : List TestRequest := []

namespace Turn

/-- `run_workflow_assistant` starts from the workflow of the request. -/
def start (who : Caller) (workflow : Entries) : Turn where
  identity := who.identity workflow
  wc := if workflow.isEmpty then
      [("nodes", .list []), ("edges", .list []), ("variables", .dict [])]
    else workflow

variable (py : PyBuiltins) (pd : Pydantic)

/-- The test run that a call sends to the worker. -/
def request (t : Turn) : AssistantCall → Option TestRequest
  | .runWorkflowTest args executionId secret queued =>
      match args.asDict with
      | none => none
      | some args =>
          match suppliedWorkflow py t.wc args with
          | .error _ => none
          | .ok supplied =>
              let r : TestRequest :=
                { identity := t.identity, supplied,
                  triggerData := Entries.getOr args "trigger_data" (.dict []), executionId, secret }
              if queued && (r.job pd).isSome then some r else none
  | _ => none

/-- What a call makes of the working copy. -/
def edited (t : Turn) : AssistantCall → Entries
  | .edit call left => call.edit py left t.wc
  | .createWorkflow args =>
      match args.asDict with
      | some args => CitraFlows.createWorkflow t.wc args
      | none => t.wc
  | _ => t.wc

def step (t : Turn) (call : AssistantCall) : Turn :=
  { t with wc := t.edited py call, tests := t.tests ++ (t.request py pd call).toList }

def play (t : Turn) (calls : List AssistantCall) : Turn := calls.foldl (step py pd) t

end Turn

end CitraFlows
