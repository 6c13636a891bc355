-- SUMMARY: The two scheduling loops of the executor and the entry points execute() and resume() around them.
import CitraFlows.Executor.Routing

/-!
# The scheduling loops

`WorkflowExecutor._execute_inner` and `WorkflowExecutor.resume` walk the workflow in
rounds: collect the queued nodes whose parents are all executed, process them one by
one, queue their children. Each of the two carries its own copy of the loop. The
skeleton they share is written once here, over a `Segment`; where the copies differ
each has its own definition.

Everything a run does to the outside world (running a node, saving the record,
creating an approval request, notifying, deleting media) is an `Event` of its trace,
in the order it happens. What the outside world decides (what a node returns, whether
a cancel was requested, whether a timer fired) is a `RunEnv`.

Not modelled: the progress record in Redis, the LLM-call budget, the log, and the
upstream schema context that `execute()` hands to agent nodes.
-/

namespace CitraFlows

open Python

/-! ## The world a run meets -/

/-- Constants of `config.py` that the executor reads. -/
structure Config where
  executionTimeoutSeconds : Nat := 3600
  nodeTimeoutSeconds : Nat := 300
  maxNodeSteps : Nat := 500

/-- The context handed to a node. -/
structure NodeContext where
  nodeId : NodeId
  config : List (String × Value)
  inputData : Value
  vars : Variables
  userId : String
  executionId : String
  environment : String
  jwtToken : Option String
  workflowId : String
  workflowName : String
  ownerType : String
  ownerId : String
  orgId : String
  deptIds : List String
  authorUserId : String
  linkedSmartAppId : Option String

/-- What `BaseNode.run` returns, or the node timeout around it. -/
inductive NodeRun where
  | completed (outputData : Value) (retryCount : Int) (retryErrors : List String)
  | failed (error : Option String) (retryCount : Int) (retryErrors : List String)
  | timeout

/-- What one call of `execute()` or `resume()` meets: the order Python's sets iterate
in, the behaviour of the nodes and of the clock, the cancel flag, fresh ids. A node is
processed at most once per call, so each of these is a function of the node. -/
structure RunEnv where
  config : Config := {}
  setOrder : List NodeId → List NodeId
  setOrder_perm : ∀ l, (setOrder l).Perm l
  /-- The result of a node and the mapping it leaves in `ctx.variables`. -/
  run : NodeContext → NodeRun × Variables
  /-- `_is_cancel_requested` at the boundary before the node. -/
  cancelRequested : NodeId → Bool
  /-- The execution timeout fires while the node runs, and its result is lost
  (`execute()` only). -/
  timeoutDuring : NodeId → Bool
  /-- `CHECKPOINT_INTERVAL_SECONDS` have passed when the node has completed. -/
  checkpointDue : NodeId → Bool
  /-- The fresh id of an approval request for the node. -/
  approvalId : NodeId → String
  /-- The `ApprovalRequest` model accepts this message and this timeout. -/
  approvalAccepts : Value → Value → Bool
  jwtToken : Option String := none
  startedAt : Nat := 0

/-- A world without cancels, timeouts and checkpoints, in which each node has a given
result and leaves the variables alone. -/
def RunEnv.calm (outcome : NodeId → NodeRun) : RunEnv where
  setOrder l := l
  setOrder_perm _ := List.Perm.refl _
  run ctx := (outcome ctx.nodeId, ctx.vars)
  cancelRequested _ := false
  timeoutDuring _ := false
  checkpointDue _ := false
  approvalId nid := nid
  approvalAccepts _ _ := true

/-- A pending approval, as it is inserted into `WorkflowApprovals`. -/
structure ApprovalRequest where
  approvalId : String
  executionId : String
  workflowId : String
  userId : String
  nodeId : NodeId
  nodeLabel : String
  message : Value
  timeoutHours : Value

/-- What a run does to the outside world. -/
inductive Event where
  | run (ctx : NodeContext) (result : NodeRun)
  | skip (nid : NodeId)
  | approval (request : ApprovalRequest)
  | save (record : WorkflowExecution)
  | notifyFailure (label error : String)
  | sweepBlobs

/-! ## The state of a loop -/

structure LoopState where
  execution : WorkflowExecution
  vars : Variables
  nodeOutputs : NodeOutputs := ∅
  executed : Finset NodeId := ∅
  softFailed : Finset NodeId := ∅
  nextQueue : List NodeId := []
  stepsExecuted : Nat := 0
  trace : List Event := []

/-- How the processing of one node ends: the loop goes on, the call returns, an
exception leaves the loop, or the timeout around the call fires. -/
inductive NodeStep where
  | next (s : LoopState)
  | halt (s : LoopState)
  | raise (e : PyError) (s : LoopState)
  | timeout (s : LoopState)

namespace LoopState

def emit (s : LoopState) (e : Event) : LoopState := { s with trace := s.trace ++ [e] }

/-- `_save_execution` -/
def save (s : LoopState) : LoopState := s.emit (.save s.execution)

def setResult (s : LoopState) (nid : NodeId) (r : NodeExecutionResult) : LoopState :=
  { s with execution.nodeResults := s.execution.nodeResults.insert nid r }

def markExecuted (s : LoopState) (nid : NodeId) : LoopState :=
  { s with executed := insert nid s.executed }

/-- `for child in adjacency.get(nid, []): …` : queue the children that are neither
executed nor queued for the next round. -/
def enqueueChildren (wf : WorkflowDefinition) (s : LoopState) (nid : NodeId) : LoopState :=
  { s with
    nextQueue := (wf.adjacency nid).foldl
      (fun q child => if child ∈ s.executed ∨ child ∈ q then q else q ++ [child]) s.nextQueue }

/-- `_mark_cancelled` -/
def markCancelled (s : LoopState) : LoopState :=
  let error := match s.execution.error with
    | none | some "" => some "Execution cancelled by user"
    | e => e
  save { s with execution := { s.execution with status := .cancelled, error := error } }

/-- `execution.current_node = nid` -/
def enter (s : LoopState) (nid : NodeId) : LoopState :=
  { s with execution := { s.execution with currentNode := some nid } }

/-- `run` has been called and has returned. An empty mapping of variables is not shared
with the node: what it sets there is lost. -/
def afterRun (env : RunEnv) (s : LoopState) (ctx : NodeContext) : LoopState :=
  emit
    { s with
      stepsExecuted := s.stepsExecuted + 1
      vars := if s.vars.entries.isEmpty then s.vars else (env.run ctx).2 }
    (.run ctx (env.run ctx).1)

/-- `node_outputs[nid] = output_data` and `executed.add(nid)` -/
def store (s : LoopState) (nid : NodeId) (output : Value) : LoopState :=
  { s with nodeOutputs := s.nodeOutputs.insert nid output }.markExecuted nid

/-- A node on a branch that is not taken. -/
def recordSkip (wf : WorkflowDefinition) (s : LoopState) (nid : NodeId) : LoopState :=
  ((s.setResult nid { nodeId := nid, status := .skipped }).markExecuted nid
    |>.enqueueChildren wf nid).emit (.skip nid)

/-- A node of a type no class is registered for. -/
def recordUnknown (s : LoopState) (n : NodeDefinition) (nid : NodeId) : LoopState :=
  (s.setResult nid
    { nodeId := nid, status := .failed, error := some ("Unknown node type: " ++ n.type.str) })
    |>.markExecuted nid

end LoopState

/-! ## Collecting a batch -/

/-- Split the queue into the nodes whose parents are all executed and the rest, each
node id once. -/
def collectBatch (wf : WorkflowDefinition) (executed : Finset NodeId) :
    List NodeId → List NodeId → List NodeId → List NodeId × List NodeId
  | [], batch, next => (batch, next)
  | nid :: queue, batch, next =>
      if nid ∈ executed ∨ nid ∈ batch then collectBatch wf executed queue batch next
      else if ∀ d ∈ wf.incoming nid, d ∈ executed then
        collectBatch wf executed queue (batch ++ [nid]) next
      else if nid ∉ next then collectBatch wf executed queue batch (next ++ [nid])
      else collectBatch wf executed queue batch next

/-! ## After a node has run -/

/-- The result recorded for what `run` returned. -/
def NodeRun.result (config : Config) (nid : NodeId) : NodeRun → NodeExecutionResult
  | .completed output retryCount retryErrors =>
      { nodeId := nid, status := .completed, outputData := output, retryCount, retryErrors }
  | .failed error retryCount retryErrors =>
      { nodeId := nid, status := .failed, error, retryCount, retryErrors }
  | .timeout =>
      { nodeId := nid, status := .failed,
        error := some ("Node timed out after " ++ toString config.nodeTimeoutSeconds ++ "s") }

/-- `isinstance(output_data, dict) and output_data.get("meta", {}).get("status") ==
"waiting_approval"`. A `meta` that is no dict has no `get`. -/
def waitingApproval (output : Value) : Except PyError Bool :=
  match output with
  | .dict fields =>
      match Value.field fields "meta" with
      | none => .ok false
      | some (.dict metadata) => .ok ((Value.getD metadata "status").eqStr "waiting_approval")
      | some v => .error (.attributeError v.typeName "get")
  | _ => .ok false

/-- `variables.update(fields)` -/
def updateVariables (vars : Variables) (fields : List (String × Value)) : Variables :=
  fields.foldl (fun vs p => vs.insert p.1 p.2) vars

/-- The variables a node emits in `meta.variables`. -/
def emittedVariables (output : Value) : List (String × Value) :=
  ((Value.getD (outputMeta output) "variables").asDict).getD []

/-- The message of an output that asks for an approval. -/
def approvalMessage (output : Value) : Value :=
  (Value.field (outputMeta output) "message").getD (.str "")

/-- The hours that an output gives its approval. -/
def approvalHours (output : Value) : Value :=
  (Value.field (outputMeta output) "timeout_hours").getD (.int 24)

/-- The `ApprovalRequest` model accepts what the output asks with. -/
def RunEnv.acceptsRequest (env : RunEnv) (output : Value) : Bool :=
  env.approvalAccepts (approvalMessage output) (approvalHours output)

/-- `_create_approval_request` builds the request; the model validation may raise. -/
def approvalRequest (env : RunEnv) (wf : WorkflowDefinition) (e : WorkflowExecution)
    (n : NodeDefinition) (output : Value) : Except PyError ApprovalRequest :=
  if env.acceptsRequest output then
    .ok { approvalId := env.approvalId n.id, executionId := e.executionId,
          workflowId := wf.workflowId, userId := e.userId, nodeId := n.id,
          nodeLabel := if n.label = "" then n.id else n.label,
          message := approvalMessage output, timeoutHours := approvalHours output }
  else .error (.valueError "validation error for ApprovalRequest")

/-- The status and position of a run that waits for an approval. -/
def LoopState.pauseAt (s : LoopState) (nid : NodeId) : LoopState :=
  { s with execution := { s.execution with status := .paused, pausedAtNode := some nid } }

/-- What follows a completed node in `execute()`: merge its variables, then pause, or
queue the children and write a checkpoint when one is due. -/
def completedExecute (env : RunEnv) (wf : WorkflowDefinition) (n : NodeDefinition) (nid : NodeId)
    (output : Value) (s : LoopState) : NodeStep :=
  let s := { s with vars := updateVariables s.vars (emittedVariables output) }
  match waitingApproval output with
  | .error e => .raise e s
  | .ok true =>
      let s := s.pauseAt nid
      match approvalRequest env wf s.execution n output with
      | .error e => .raise e s
      | .ok request =>
          let s := s.emit (.approval request)
          .halt (LoopState.save
            { s with execution.approvalId := some request.approvalId })
  | .ok false =>
      let s := s.enqueueChildren wf nid
      if env.checkpointDue nid then
        .next (LoopState.save { s with execution.vars := s.vars })
      else .next s

/-- What follows a completed node in `resume()`: no variables are merged, a pause
creates no approval request, and there is no checkpoint. -/
def completedResume (wf : WorkflowDefinition) (nid : NodeId) (output : Value)
    (s : LoopState) : NodeStep :=
  match waitingApproval output with
  | .error e => .raise e s
  | .ok true => .halt (s.pauseAt nid).save
  | .ok false => .next (s.enqueueChildren wf nid)

/-- `str(x)` of an optional string, as an f-string writes it. -/
def optionText : Option String → String
  | none => "None"
  | some s => s

/-- Strict fail-fast: record the failure, save, notify and return. -/
def failFast (n : NodeDefinition) (nid : NodeId) (r : NodeExecutionResult) (s : LoopState) :
    NodeStep :=
  let error := "Node " ++ nid ++ " (" ++ n.label ++ ") failed: " ++ optionText r.error
  let s := LoopState.save
    { s with execution := { s.execution with status := .failed, error := some error } }
  .halt (s.emit (.notifyFailure (if n.label = "" then nid else n.label)
    (match r.error with | none | some "" => "Unknown error" | some e => e)))

/-- What follows a failed node. `execute()` goes on when the node is set to
`continue_on_error`: its branch is pruned like a skipped one. `resume()` always stops. -/
def failedNode (seg : Segment) (wf : WorkflowDefinition) (n : NodeDefinition) (nid : NodeId)
    (r : NodeExecutionResult) (s : LoopState) : NodeStep :=
  match seg with
  | .execute =>
      if n.continueOnError then
        let s := s.markExecuted nid
        .next (LoopState.enqueueChildren wf
          { s with softFailed := insert nid s.softFailed } nid)
      else failFast n nid r s
  | .resume => failFast n nid r s

/-! ## One node -/

/-- The context built for a node. `NodeContext` replaces an empty mapping by a new one. -/
def nodeContext (env : RunEnv) (wf : WorkflowDefinition) (n : NodeDefinition) (nid : NodeId)
    (inputData : Value) (s : LoopState) : NodeContext where
  nodeId := nid
  config := n.config
  inputData := inputData
  vars := s.vars
  userId := wf.userId
  executionId := s.execution.executionId
  environment := s.execution.environment
  jwtToken := env.jwtToken
  workflowId := wf.workflowId
  workflowName := wf.name
  ownerType := wf.ownerType
  ownerId := wf.ownerId
  orgId := wf.orgId
  deptIds := wf.deptIds
  authorUserId := wf.authorUserId
  linkedSmartAppId := wf.linkedSmartAppId

/-- The text of the step-limit error. -/
def stepLimitMessage (config : Config) : String :=
  "Workflow exceeded max step limit (" ++ toString config.maxNodeSteps ++ ")"

/-- Run the node and record its result. -/
def runNode (seg : Segment) (env : RunEnv) (wf : WorkflowDefinition) (n : NodeDefinition)
    (nid : NodeId) (inputData : Value) (s : LoopState) : NodeStep :=
  if s.stepsExecuted + 1 > env.config.maxNodeSteps then
    .raise (.runtimeError (stepLimitMessage env.config))
      { s with stepsExecuted := s.stepsExecuted + 1 }
  else
    let ctx := nodeContext env wf n nid inputData s
    let s := s.afterRun env ctx
    if seg = .execute ∧ env.timeoutDuring nid then .timeout s
    else
      let r := (env.run ctx).1.result env.config nid
      let s := s.setResult nid r
      match (env.run ctx).1 with
      | .completed output _ _ =>
          match seg with
          | .execute => completedExecute env wf n nid output (s.store nid output)
          | .resume => completedResume wf nid output (s.store nid output)
      | .failed .. | .timeout => failedNode seg wf n nid r s

/-- The body of `for nid in batch`. -/
def processNode (seg : Segment) (env : RunEnv) (wf : WorkflowDefinition) (nid : NodeId)
    (s : LoopState) : NodeStep :=
  if env.cancelRequested nid then .halt s.markCancelled
  else
    match wf.nodeMap nid with
    | none => .raise (.keyError nid) s
    | some n =>
        match route wf seg s.execution.triggerData s.nodeOutputs s.execution.nodeResults
            s.softFailed nid with
        | .error e => .raise e (s.enter nid)
        | .ok r =>
            if r.skip then .next ((s.enter nid).recordSkip wf nid)
            else if !n.type.getNode then .next ((s.enter nid).recordUnknown n nid)
            else runNode seg env wf n nid r.inputData (s.enter nid)

/-! ## Rounds -/

/-- `for nid in batch` -/
def runBatch (seg : Segment) (env : RunEnv) (wf : WorkflowDefinition) :
    List NodeId → LoopState → NodeStep
  | [], s => .next s
  | nid :: batch, s =>
      match processNode seg env wf nid s with
      | .next s => runBatch seg env wf batch s
      | stop => stop

/-- How a loop ends: its queue is exhausted (or nothing in it is ready), a node ended
the call, or the given number of rounds was not enough. -/
inductive LoopOutcome where
  | finished (s : LoopState)
  | halted (s : LoopState)
  | raised (e : PyError) (s : LoopState)
  | timedOut (s : LoopState)
  | outOfRounds (s : LoopState)

/-- `while queue:`, for at most the given number of rounds. At the head of a round the
queue is what the round before left as the next one. -/
def runRounds (seg : Segment) (env : RunEnv) (wf : WorkflowDefinition) :
    Nat → LoopState → LoopOutcome
  | 0, s => if s.nextQueue.isEmpty then .finished s else .outOfRounds s
  | rounds + 1, s =>
      if s.nextQueue.isEmpty then .finished s
      else
        let (batch, next) := collectBatch wf s.executed s.nextQueue [] []
        if batch.isEmpty then .finished s
        else
          match runBatch seg env wf batch { s with nextQueue := next } with
          | .next s => runRounds seg env wf rounds s
          | .halt s => .halted s
          | .raise e s => .raised e s
          | .timeout s => .timedOut s

/-! ## The end of a call -/

/-- The record a call leaves and everything it did. -/
structure CallResult where
  execution : WorkflowExecution
  trace : List Event

/-- The statuses `_sweep_blobs_if_terminal` treats as terminal. -/
def ExecutionStatus.terminal : ExecutionStatus → Bool
  | .completed | .failed | .cancelled | .timedOut => true
  | _ => false

/-- `_sweep_blobs_if_terminal` -/
def sweepBlobsIfTerminal (s : LoopState) : LoopState :=
  if s.execution.status.terminal then s.emit .sweepBlobs else s

/-- `except Exception`: the run has failed with the text of the exception. -/
def failWith (e : PyError) (s : LoopState) : LoopState :=
  LoopState.save
    { s with execution := { s.execution with status := .failed, error := some e.message } }

/-- "All done" -/
def complete (s : LoopState) : LoopState :=
  LoopState.save
    { s with execution := { s.execution with status := .completed, vars := s.vars } }

/-- The text of the execution timeout. -/
def timeoutMessage (config : Config) : String :=
  "Workflow execution timed out after " ++ toString config.executionTimeoutSeconds ++ "s"

/-- `except asyncio.TimeoutError` of `execute()`, after the `finally` of the inner call. -/
def expire (config : Config) (s : LoopState) : LoopState :=
  let s := sweepBlobsIfTerminal s
  let s := LoopState.save
    { s with execution := { s.execution with
        status := .timedOut, error := some (timeoutMessage config) } }
  s.emit (.notifyFailure (s.execution.currentNode.getD "") (timeoutMessage config))

/-- The state a loop outcome leaves behind. -/
def LoopOutcome.settle (config : Config) : LoopOutcome → LoopState
  | .finished s => sweepBlobsIfTerminal (complete s)
  | .halted s => sweepBlobsIfTerminal s
  | .raised e s => sweepBlobsIfTerminal (failWith e s)
  | .timedOut s => expire config s
  | .outOfRounds s => s

def LoopState.toResult (s : LoopState) : CallResult := ⟨s.execution, s.trace⟩

/-! ## `execute()` -/

/-- The trigger types of the orphan guard. -/
def triggerTypes : List String :=
  ["manual_trigger", "scheduled_trigger", "webhook_trigger", "start_node"]

/-- The orphan guard: a root without any edge, whose `str(type)` is no trigger type. -/
def isOrphan (wf : WorkflowDefinition) (nid : NodeId) : Bool :=
  (wf.edges.all fun e => e.source ≠ nid ∧ e.target ≠ nid) &&
    (wf.nodeMap nid).any fun n => n.type.str ∉ triggerTypes

/-- The nodes without incoming edges. -/
def rootNodes (wf : WorkflowDefinition) : List NodeId :=
  wf.nodeKeys.filter fun nid => (wf.incoming nid).isEmpty

/-- The roots the run starts from. -/
def startNodes (wf : WorkflowDefinition) : List NodeId :=
  (rootNodes wf).filter fun nid => !isOrphan wf nid

/-- The roots the orphan guard leaves out. -/
def orphanedNodes (wf : WorkflowDefinition) : List NodeId :=
  (rootNodes wf).filter (isOrphan wf)

/-- The record `execute()` starts from. -/
def newExecution (env : RunEnv) (wf : WorkflowDefinition)
    (triggerData : List (String × Value)) (executionId environment : String) :
    WorkflowExecution where
  executionId := executionId
  workflowId := wf.workflowId
  userId := wf.userId
  status := .running
  triggerData := triggerData
  environment := environment
  startedAt := env.startedAt

/-- The state before the loop of `_execute_inner`: orphans are marked as skipped. -/
def executeStart (env : RunEnv) (wf : WorkflowDefinition)
    (triggerData : List (String × Value)) (executionId environment : String) : LoopState :=
  let e := newExecution env wf triggerData executionId environment
  { execution := { e with
      nodeResults := (orphanedNodes wf).foldl
        (fun rs nid => rs.insert nid { nodeId := nid, status := .skipped }) e.nodeResults }
    vars := updateVariables wf.vars triggerData
    nextQueue := env.setOrder (startNodes wf) }

/-- The loop of `_execute_inner`, for at most the given number of rounds. -/
def executeLoop (env : RunEnv) (wf : WorkflowDefinition) (triggerData : List (String × Value))
    (executionId environment : String) (rounds : Nat) : LoopOutcome :=
  let s := executeStart env wf triggerData executionId environment
  if (startNodes wf).isEmpty then
    .raised (.valueError "Workflow has no root node (trigger). Add a trigger node.") s
  else runRounds .execute env wf rounds s

/-- `WorkflowExecutor.execute`, once a concurrency slot is held. -/
def execute (env : RunEnv) (wf : WorkflowDefinition) (triggerData : List (String × Value))
    (executionId environment : String) : CallResult :=
  ((executeLoop env wf triggerData executionId environment wf.nodeIds.card).settle
    env.config).toResult

/-! ## `resume()` -/

/-- `status in ("completed", "skipped")` -/
def NodeExecutionResult.restored (r : NodeExecutionResult) : Bool :=
  r.status = .completed || r.status = .skipped

/-- The results `resume()` takes over from the record. -/
def restoredEntries (results : NodeResults) : List (Sigma fun _ : NodeId => NodeExecutionResult) :=
  results.entries.filter fun p => p.2.restored

/-- The nodes `resume()` takes for executed. -/
def restoredExecuted (results : NodeResults) : Finset NodeId :=
  ((restoredEntries results).map (·.1)).toFinset

/-- The outputs `resume()` restores. -/
def restoredOutputs (results : NodeResults) : NodeOutputs :=
  (restoredEntries results).foldl (fun outputs p => outputs.insert p.1 p.2.outputData) ∅

/-- The queue `resume()` starts from: the children of the paused node, or, after a crash,
every node that is not executed. -/
def resumeQueue (wf : WorkflowDefinition) (pausedNode : Option NodeId)
    (executed : Finset NodeId) : List NodeId :=
  match pausedNode with
  | some p => if p = "" then wf.nodeKeys.filter (· ∉ executed)
      else (wf.adjacency p).filter (· ∉ executed)
  | none => wf.nodeKeys.filter (· ∉ executed)

/-- The state before the loop of `resume`. -/
def resumeStart (wf : WorkflowDefinition) (e : WorkflowExecution) : LoopState :=
  let executed := restoredExecuted e.nodeResults
  { execution := { e with status := .running, pausedAtNode := none, approvalId := none }
    vars := updateVariables (updateVariables wf.vars e.triggerData)
      (e.vars.entries.map fun p => (p.1, p.2))
    nodeOutputs := restoredOutputs e.nodeResults
    executed := executed
    stepsExecuted := executed.card
    nextQueue := resumeQueue wf e.pausedAtNode executed }

/-- The loop of `resume`, for at most the given number of rounds. -/
def resumeLoop (env : RunEnv) (wf : WorkflowDefinition) (e : WorkflowExecution) (rounds : Nat) :
    LoopOutcome :=
  runRounds .resume env wf rounds (resumeStart wf e)

/-- `WorkflowExecutor.resume`. -/
def resume (env : RunEnv) (wf : WorkflowDefinition) (e : WorkflowExecution) (approved : Bool) :
    Except PyError CallResult :=
  if e.status ≠ .paused ∧ e.status ≠ .resuming then
    .error (.valueError ("Execution is not paused (status=" ++ e.status.value ++ ")"))
  else if !approved then
    let s : LoopState :=
      { execution := { e with status := .failed, error := some "Human approval rejected" }
        vars := ∅ }
    .ok (sweepBlobsIfTerminal s.save).toResult
  else .ok ((resumeLoop env wf e wf.nodeIds.card).settle env.config).toResult

end CitraFlows
