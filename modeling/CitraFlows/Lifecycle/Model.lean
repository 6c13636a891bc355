-- SUMMARY: The life of one stored execution: workers, the decision and cancel endpoints, the reaper and the approval sweep, command by command.
import CitraFlows.Executor.Loop
import CitraFlows.Lib.Processes
import CitraFlows.Lib.RedisKeys

/-!
# The life of an execution

One document of `WorkflowExecutions` is written by every worker that has a job of the
execution, by the approve, reject and cancel endpoints, by the stuck-execution reaper and by
the approval-timeout sweep. Each of these is a process whose commands interleave with those of
the others. A worker does what `execute()` or `resume()` does in the world it meets, event by
event; a job that is not acknowledged may be delivered again at any time.
-/

namespace CitraFlows

open RedisKeys Processes

/-! ## Stored documents -/

structure LifecycleConfig where
  executionTimeoutSeconds : Nat := 3600
  stuckExecutionGraceSeconds : Nat := 600
  maxCrashResumeAttempts : Int := 3
  progressCacheTtl : Nat := 3600
  defaultMaxRetries : Nat := 3

/-- `resume_decision` -/
inductive ResumeDecision where
  | approved | rejected | crashResume
  deriving DecidableEq

/-- A document of `WorkflowExecutions`: the fields of the model, and those that the endpoints
and the sweeps keep beside them. The status is the stored one, not that of the record. -/
structure ExecutionDocument where
  status : StoredStatus
  record : WorkflowExecution
  triggerType : String := "manual"
  cancelRequested : Bool := false
  resumeDecision : Option ResumeDecision := none
  resumedAt : Option Nat := none
  crashResumeCount : Int := 0

/-- Completed, failed, cancelled or timed out. -/
def StoredStatus.terminal : StoredStatus → Bool
  | .queued => false
  | .written status => status.terminal

namespace ExecutionDocument

/-- `WorkflowExecution(**doc)`: `queued` is not a status of the model. -/
def load (d : ExecutionDocument) : Option WorkflowExecution :=
  match d.status with
  | .queued => none
  | .written status => some { d.record with status := status }

/-- `$set` of all fields of the model, whatever is stored. -/
def save (d : ExecutionDocument) (r : WorkflowExecution) : ExecutionDocument :=
  { d with status := .written r.status, record := r }

/-- `$set` of a status and an error text. -/
def finalize (d : ExecutionDocument) (status : ExecutionStatus) (error : String) :
    ExecutionDocument :=
  { d with status := .written status, record := { d.record with error := some error } }

/-- The stored status is terminal. -/
def terminal (d : ExecutionDocument) : Bool := d.status.terminal

/-- The query of the reaper at a moment. -/
def stuck (cfg : LifecycleConfig) (now : Nat) (d : ExecutionDocument) : Bool :=
  let grace := cfg.executionTimeoutSeconds + cfg.stuckExecutionGraceSeconds
  match d.status with
  | .queued | .written .running => d.record.startedAt + grace < now
  | .written .resuming => d.resumedAt.any (· + grace < now)
  | _ => false

end ExecutionDocument

inductive Resolution where
  | approved | rejected | timedOut
  deriving DecidableEq

/-- A document of `WorkflowApprovals`. -/
structure ApprovalDocument where
  request : ApprovalRequest
  createdAt : Nat
  resolution : Option Resolution := none

/-- `timeout_hours`, a float of the model. -/
def ApprovalRequest.hours (q : ApprovalRequest) : Rat :=
  match q.timeoutHours with
  | .int n => n
  | .float x => x.val
  | .bool b => if b then 1 else 0
  | _ => 24

/-- The deadline of the approval has passed. -/
def ApprovalDocument.expired (now : Nat) (a : ApprovalDocument) : Bool :=
  a.createdAt + a.request.hours * 3600 ≤ (now : Rat)

/-! ## Jobs -/

/-- What a job of the execution asks for. -/
inductive Payload where
  | run (triggerData : List (String × Value)) (environment : String)
  | resume (approved : Bool)

/-- A job in the queue. Until it is settled it may be delivered, and delivered again: after a
crash of its worker, by a reclaim, or as a retry. -/
structure QueuedJob where
  payload : Payload
  retries : Nat := 0
  settled : Bool := false

/-! ## The state -/

/-- A node run: by which process, and whether it completed. -/
structure NodeRunLog where
  process : Nat
  nodeId : NodeId
  completed : Bool
  deriving DecidableEq

/-- A decision whose compare-and-set has hit and that was not rolled back, and the request the
execution was paused on. -/
structure AcceptedDecision where
  approved : Bool
  approvalId : Option String
  deriving DecidableEq

/-- Mongo, Redis and the queue, as far as they concern the execution, and three logs: the node
runs, the decisions accepted, and the resumes that have passed their status check. -/
structure Lifecycle where
  now : Nat
  workflow : WorkflowDefinition
  doc : ExecutionDocument
  approvals : List ApprovalDocument := []
  cancelFlag : Key Unit := none
  jobs : List QueuedJob := []
  runs : List NodeRunLog := []
  accepted : List AcceptedDecision := []
  resumed : List Bool := []

namespace Lifecycle

/-- A job is added to the queue. -/
def enqueue (s : Lifecycle) (payload : Payload) : Lifecycle :=
  { s with jobs := s.jobs ++ [{ payload }] }

def setStatus (s : Lifecycle) (status : StoredStatus) : Lifecycle :=
  { s with doc := { s.doc with status } }

/-- The compare-and-set of the endpoints and the sweeps hits. -/
def hits (s : Lifecycle) (status : StoredStatus) : Bool := s.doc.status = status

end Lifecycle

/-! ## Workers -/

/-- One command of a worker: the cancel probe before a node, an event of the run, or the
removal of the flag once the run has been marked as cancelled. -/
inductive WorkerAction where
  | probe (expected : Bool)
  | event (e : Event)
  | clearFlag

/-- The commands behind one event. A node is probed for before it runs or is skipped; a run
that saves itself as cancelled has found the flag. -/
def Event.actions : Event → List WorkerAction
  | .run ctx r => [.probe false, .event (.run ctx r)]
  | .skip nid => [.probe false, .event (.skip nid)]
  | .save r =>
      if r.status = .cancelled then [.probe true, .event (.save r), .clearFlag]
      else [.event (.save r)]
  | e => [.event e]

def workerPlan (trace : List Event) : List WorkerAction := trace.flatMap Event.actions

/-- A worker with a job. While it executes it has the commands left, whether the execution
timeout is running, and the record it has saved last. -/
inductive Worker where
  | received (job : Nat)
  | executing (job : Nat) (timed : Bool) (plan : List WorkerAction)
      (last : Option WorkflowExecution)
  | settling (job : Nat) (failed : Bool)
  | done

def NodeRun.isCompleted : NodeRun → Bool
  | .completed .. => true
  | .failed .. | .timeout => false

/-- An event of the run of process `i`. -/
def Lifecycle.perform (s : Lifecycle) (i : Nat) (w : Write) : Event → Lifecycle
  | .run ctx r => { s with runs := ⟨i, ctx.nodeId, r.isCompleted⟩ :: s.runs }
  | .approval request =>
      if w.ran then { s with approvals := s.approvals ++ [{ request, createdAt := s.now }] } else s
  | .save r => if w.ran then { s with doc := s.doc.save r } else s
  | .skip _ | .notifyFailure _ _ | .sweepBlobs => s

/-- A command of a worker. The plan was made for the answers of the probes: a probe that
answers otherwise is not part of it. A read of the flag that fails answers no. -/
def Lifecycle.act (s : Lifecycle) (i : Nat) (w : Write) : WorkerAction → Option Lifecycle
  | .probe expected =>
      if (w.ok && s.cancelFlag.get s.now = some ()) = expected then some s else none
  | .event e => some (s.perform i w e)
  | .clearFlag => some (if w.ran then { s with cancelFlag := none } else s)

namespace WorkerAction

def saved : WorkerAction → Option WorkflowExecution
  | .event (.save r) => some r
  | _ => none

/-- The command awaits something other than a node, so that the execution timeout may fire
under it. -/
def awaits : WorkerAction → Bool
  | .event (.approval _) | .event (.save _) | .event (.notifyFailure _ _) | .event .sweepBlobs =>
      true
  | _ => false

end WorkerAction

/-- What a process is told from outside. -/
inductive Input where
  /-- The world the run of the job meets. -/
  | start (env : RunEnv)
  /-- The job cannot be started: no slot is free, or a document cannot be loaded. -/
  | refuse
  /-- The next command. -/
  | act (w : Write)
  /-- The execution timeout fires. -/
  | interrupt

namespace Worker

/-- `run_workflow` and `resume_workflow` up to the loop. Only a resume reads the document. -/
def start (s : Lifecycle) (job : Nat) (env : RunEnv) : Option (Lifecycle × Worker) :=
  match s.jobs[job]? with
  | none => none
  | some { payload := .run triggerData environment, .. } =>
      let c := execute { env with startedAt := s.now } s.workflow triggerData
        s.doc.record.executionId environment
      some (s, .executing job true (workerPlan c.trace) none)
  | some { payload := .resume approved, .. } =>
      match s.doc.load with
      | none => some (s, .settling job true)
      | some e =>
          match resume env s.workflow e approved with
          | .error _ => some (s, .settling job true)
          | .ok c =>
              some ({ s with resumed := approved :: s.resumed },
                .executing job false (workerPlan c.trace) none)

/-- The record at which the execution timeout finds the run. -/
def interrupted (plan : List WorkerAction) (last : Option WorkflowExecution) :
    Option WorkflowExecution :=
  (plan.findSome? WorkerAction.saved).or last

/-- What is left of the call when the execution timeout fires outside of a node. -/
def timeoutPlan (cfg : LifecycleConfig) (r : WorkflowExecution) : List WorkerAction :=
  let message := timeoutMessage { executionTimeoutSeconds := cfg.executionTimeoutSeconds }
  [.event (.save { r with status := .timedOut, error := some message }),
    .event (.notifyFailure (r.currentNode.getD "") message)]

/-- The job after its handler has returned or has raised. -/
def settle (cfg : LifecycleConfig) (failed : Bool) (j : QueuedJob) : QueuedJob :=
  if failed ∧ j.retries < cfg.defaultMaxRetries then { j with retries := j.retries + 1 }
  else { j with settled := true }

def step (cfg : LifecycleConfig) (i : Nat) (input : Input) (s : Lifecycle) :
    Worker → Option (Lifecycle × Worker)
  | .received job =>
      match input with
      | .start env => start s job env
      | .refuse => some (s, .settling job true)
      | _ => none
  | .executing job timed (a :: plan) last =>
      match input with
      | .act w => (s.act i w a).map fun s' => (s', .executing job timed plan (a.saved.or last))
      | .interrupt =>
          match timed && a.awaits, interrupted (a :: plan) last with
          | true, some r =>
              if r.status = .timedOut then none
              else some (s, .executing job false (timeoutPlan cfg r) last)
          | _, _ => none
      | _ => none
  | .executing job _ [] _ =>
      match input with
      | .act _ => some (s, .settling job false)
      | _ => none
  | .settling job failed =>
      match input with
      | .act w =>
          some (if w.ran then { s with jobs := s.jobs.modify job (settle cfg failed) } else s,
            .done)
      | _ => none
  | .done => none

end Worker

/-! ## Endpoints -/

/-- A decision that has won its compare-and-set goes with the request it was accepted for; only
the log of accepted decisions depends on it. -/
inductive DecisionStage where
  | read
  | cas
  | enqueue (approvalId : Option String)
  | rollback (approvalId : Option String)
  | done
  deriving DecidableEq

/-- `_enqueue_resume` -/
def DecisionStage.step (approved : Bool) (w : Write) (s : Lifecycle) :
    DecisionStage → Option (Lifecycle × DecisionStage)
  | .read => some (s, if w.ok ∧ s.hits (.written .paused) then .cas else .done)
  | .cas =>
      if s.hits (.written .paused) then
        some (
          if w.ran then
            { s with
              doc := { s.doc with
                status := .written .resuming
                resumedAt := some s.now
                resumeDecision := some (if approved then .approved else .rejected) }
              accepted := ⟨approved, s.doc.record.approvalId⟩ :: s.accepted }
          else s,
          if w.ok then .enqueue s.doc.record.approvalId else .done)
      else some (s, .done)
  | .enqueue approvalId =>
      some (if w.ran then s.enqueue (.resume approved) else s,
        if w.ok then .done else .rollback approvalId)
  | .rollback approvalId =>
      -- whatever the status is by now
      some (
        if w.ran then
          { s.setStatus (.written .paused) with
            accepted := s.accepted.erase ⟨approved, approvalId⟩ }
        else s,
        .done)
  | .done => none

/-- A cancel request keeps the status it has read. -/
inductive CancelStage where
  | read
  | mark (status : StoredStatus)
  | flag (status : StoredStatus)
  | cas
  | cleanup
  | done
  deriving DecidableEq

/-- `cancel_execution` -/
def CancelStage.step (cfg : LifecycleConfig) (w : Write) (s : Lifecycle) :
    CancelStage → Option (Lifecycle × CancelStage)
  | .read => some (s, if w.ok ∧ !s.doc.terminal then .mark s.doc.status else .done)
  | .mark status =>
      some (if w.ran then { s with doc := { s.doc with cancelRequested := true } } else s,
        if w.ok then .flag status else .done)
  | .flag status =>
      some (
        if w.ran then { s with cancelFlag := Key.setEx s.now () cfg.progressCacheTtl } else s,
        if status = .written .paused then .cas else .done)
  | .cas =>
      if s.hits (.written .paused) then
        some (
          if w.ran then
            { s with doc := s.doc.finalize .cancelled "Execution cancelled by user" } else s,
          if w.ok then .cleanup else .done)
      else some (s, .done)
  | .cleanup => some (if w.ran then { s with cancelFlag := none } else s, .done)
  | .done => none

/-! ## Sweeps -/

/-- What the reaper has read of the document. -/
structure Snapshot where
  status : StoredStatus
  crashResumeCount : Int
  triggerType : String
  cancelRequested : Bool
  deriving DecidableEq

/-- What the reaper does about a stuck execution. -/
inductive ReaperVerdict where
  | cancel | failTest | crashResume | giveUp
  deriving DecidableEq

def Snapshot.verdict (cfg : LifecycleConfig) (snap : Snapshot) : ReaperVerdict :=
  if snap.cancelRequested then .cancel
  else if snap.triggerType = "assistant_test" then .failTest
  else if snap.crashResumeCount < cfg.maxCrashResumeAttempts then .crashResume
  else .giveUp

def ExecutionDocument.snapshot (d : ExecutionDocument) : Snapshot :=
  ⟨d.status, d.crashResumeCount, d.triggerType, d.cancelRequested⟩

def abandonedError : String :=
  "Execution abandoned — the worker did not report completion within the timeout window " ++
    "(likely a worker crash or restart mid-run)."

/-- The write of the reaper. -/
def ExecutionDocument.reap (now : Nat) (d : ExecutionDocument) : ReaperVerdict → ExecutionDocument
  | .cancel => d.finalize .cancelled "Execution cancelled by user"
  | .failTest | .giveUp => d.finalize .failed abandonedError
  | .crashResume =>
      { d with
        status := .written .resuming
        resumedAt := some now
        resumeDecision := some .crashResume
        crashResumeCount := d.crashResumeCount + 1 }

inductive ReaperStage where
  | read
  | act (snap : Snapshot)
  | enqueue (snap : Snapshot)
  | rollback (snap : Snapshot)
  | done
  deriving DecidableEq

/-- `_check_stuck_executions` of a sweep started at a moment, as far as it concerns the
execution. -/
def ReaperStage.step (cfg : LifecycleConfig) (started : Nat) (w : Write) (s : Lifecycle) :
    ReaperStage → Option (Lifecycle × ReaperStage)
  | .read => some (s, if w.ok ∧ s.doc.stuck cfg started then .act s.doc.snapshot else .done)
  | .act snap =>
      if s.hits snap.status then
        some (
          if w.ran then { s with doc := s.doc.reap started (snap.verdict cfg) } else s,
          if w.ok ∧ snap.verdict cfg = .crashResume then .enqueue snap else .done)
      else some (s, .done)
  | .enqueue snap =>
      some (if w.ran then s.enqueue (.resume true) else s, if w.ok then .done else .rollback snap)
  | .rollback snap =>
      -- whatever the status is by now
      some (
        if w.ran then
          { s with doc := { s.doc with
            status := snap.status
            crashResumeCount := s.doc.crashResumeCount - 1 } }
        else s,
        .done)
  | .done => none

/-- The approvals that a sweep has read, and has yet to time out. -/
inductive SweepStage where
  | read
  | mark (pending : List ApprovalDocument)
  | fail (a : ApprovalDocument) (pending : List ApprovalDocument)
  | done

/-- `update_one` of the approval with the given id. -/
def timeOutApproval (approvalId : String) : List ApprovalDocument → List ApprovalDocument
  | [] => []
  | a :: approvals =>
      if a.request.approvalId = approvalId then
        { a with resolution := some .timedOut } :: approvals
      else a :: timeOutApproval approvalId approvals

def approvalTimeoutError (q : ApprovalRequest) : String :=
  "Approval timed out after " ++ q.timeoutHours.text ++ " hours"

/-- `_check_approval_timeouts` of a sweep started at a moment. -/
def SweepStage.step (started : Nat) (w : Write) (s : Lifecycle) :
    SweepStage → Option (Lifecycle × SweepStage)
  | .read =>
      some (s,
        if w.ok then
          .mark (s.approvals.filter fun a => a.resolution = none ∧ a.expired started)
        else .done)
  | .mark [] => some (s, .done)
  | .mark (a :: pending) =>
      some (
        if w.ran then
          { s with approvals := timeOutApproval a.request.approvalId s.approvals } else s,
        if w.ok then .fail a pending else .done)
  | .fail a pending =>
      -- the execution is found by its id and its status, not by the approval it waits for
      some (
        if w.ran ∧ a.request.executionId = s.doc.record.executionId ∧
            s.hits (.written .paused) then
          { s with doc := s.doc.finalize .failed (approvalTimeoutError a.request) } else s,
        if w.ok then .mark pending else .done)
  | .done => none

/-! ## The system -/

inductive Proc where
  | worker (stage : Worker)
  | decision (approved : Bool) (stage : DecisionStage)
  | cancel (stage : CancelStage)
  | reaper (started : Nat) (stage : ReaperStage)
  | approvalSweep (started : Nat) (stage : SweepStage)

def Proc.step (cfg : LifecycleConfig) (i : Nat) (input : Input) (s : Lifecycle) :
    Proc → Option (Lifecycle × Proc)
  | .worker stage => (stage.step cfg i input s).map fun r => (r.1, .worker r.2)
  | .decision approved stage =>
      match input with
      | .act w => (stage.step approved w s).map fun r => (r.1, .decision approved r.2)
      | _ => none
  | .cancel stage =>
      match input with
      | .act w => (stage.step cfg w s).map fun r => (r.1, .cancel r.2)
      | _ => none
  | .reaper started stage =>
      match input with
      | .act w => (stage.step cfg started w s).map fun r => (r.1, .reaper started r.2)
      | _ => none
  | .approvalSweep started stage =>
      match input with
      | .act w => (stage.step started w s).map fun r => (r.1, .approvalSweep started r.2)
      | _ => none

inductive Spawn where
  | deliver (job : Nat)
  | decide (approved : Bool)
  | cancel
  | reap
  | sweepApprovals

/-- A process starts; a job is delivered if it is not settled. -/
def Spawn.proc (s : Lifecycle) : Spawn → Option Proc
  | .deliver job =>
      match s.jobs[job]? with
      | some { settled := false, .. } => some (.worker (.received job))
      | _ => none
  | .decide approved => some (.decision approved .read)
  | .cancel => some (.cancel .read)
  | .reap => some (.reaper s.now .read)
  | .sweepApprovals => some (.approvalSweep s.now .read)

/-- Time passes, the workflow is edited, or the queue gives a job up. -/
inductive Outside where
  | tick (now : Nat)
  | edit (workflow : WorkflowDefinition)
  | drop (job : Nat)

def Outside.apply (s : Lifecycle) : Outside → Option Lifecycle
  | .tick now => if s.now ≤ now then some { s with now := now } else none
  | .edit workflow => some { s with workflow := workflow }
  | .drop job => some { s with jobs := s.jobs.modify job fun j => { j with settled := true } }

def lifecycleSystem (cfg : LifecycleConfig) : System Lifecycle Proc Spawn Input Outside where
  spawn _ x s := (x.proc s).map (s, ·)
  step i input s p := p.step cfg i input s
  env e s := e.apply s

abbrev LifecycleRun := Configuration Lifecycle Proc
abbrev LifecycleMove := Move Spawn Input Outside

end CitraFlows
