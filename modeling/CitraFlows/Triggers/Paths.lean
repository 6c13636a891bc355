-- SUMMARY: The four paths that start a run: each inserts its record and then enqueues its job, and an enqueue may raise.
import CitraFlows.Scheduler.CronFire

/-!
# Starting a run

`execute_workflow`, `execute_workflow_with_file` and `webhook_trigger` answer a request, and
`_execute_scheduled_workflow` a tick. Each of them inserts a `queued` record and then enqueues a
`workflow.run` job for it. The paths interleave command by command, and the scheduled ones read
the records that the others leave behind.
-/

namespace CitraFlows

open Processes RedisKeys

/-! ## Requests -/

inductive RequestKind where
  | executeWorkflow
  | executeWorkflowWithFile
  | webhookTrigger
  deriving DecidableEq

/-- The next command of a request. -/
inductive RequestStage where
  | find | halt | putBlob | insert | enqueue | markFailed | done
  deriving DecidableEq

/-- A request that starts a run. The webhook token names a workflow, as the path of the other
requests does. -/
structure TriggerRequest where
  kind : RequestKind
  workflowId : String
  userId : String
  executionId : String
  stage : RequestStage := .find
  doc : Option WorkflowDocument := none
  deriving DecidableEq

/-- A `workflow.run` job of a request. -/
structure RequestJob where
  workflowId : String
  executionId : String
  deriving DecidableEq

namespace TriggerRequest

/-- The document the request asks for: a webhook only starts a deployed and active workflow. -/
def wants (p : TriggerRequest) (doc : WorkflowDocument) : Bool :=
  doc.workflowId = p.workflowId &&
    match p.kind with
    | .webhookTrigger => doc.status = .written .deployed && doc.isActive
    | _ => true

/-- The document inserted for the run; a request has no tick. The run of a webhook belongs to
the user of the workflow. -/
def runDocument (p : TriggerRequest) : RunDocument where
  executionId := p.executionId
  workflowId := p.workflowId
  userId :=
    match p.kind with
    | .webhookTrigger => (p.doc.map (·.userId)).getD p.userId
    | _ => p.userId
  status := .queued
  fireTime := 0

end TriggerRequest

/-! ## State -/

/-- A scheduled start that was skipped because of a run in flight: the record it found, whether
that had a job, and whether the path that has inserted it was still under way. -/
structure FireSkip where
  executionId : String
  hasJob : Bool
  underWay : Bool
  deriving DecidableEq

/-- Redis, Mongo and the queue. `issued` lists the execution ids in the order of the starts and
`finished` those of the paths that have ended. -/
structure TriggerState where
  cron : CronState
  requestJobs : List RequestJob := []
  issued : List String := []
  finished : List String := []
  skips : List FireSkip := []

namespace TriggerState

/-- A `workflow.run` job was enqueued for the execution. -/
def hasJob (s : TriggerState) (executionId : String) : Bool :=
  s.cron.jobs.any (·.executionId = executionId) ||
    s.requestJobs.any (·.executionId = executionId)

/-- The path of the execution has started and has not ended. -/
def underWay (s : TriggerState) (executionId : String) : Bool :=
  s.issued.contains executionId && !s.finished.contains executionId

def insert (s : TriggerState) (doc : RunDocument) : TriggerState :=
  { s with cron := { s.cron with executions := s.cron.executions ++ [doc] } }

/-- `$set` of the status of an execution. -/
def setStatus (s : TriggerState) (executionId : String) (status : StoredStatus) : TriggerState :=
  { s with cron := { s.cron with
      executions := s.cron.executions.map fun e =>
        if e.executionId = executionId then { e with status } else e } }

/-- The run that the in-flight guard of a call finds. -/
def inFlight (s : TriggerState) (workflowId : String) : Option RunDocument :=
  s.cron.executions.find? fun e => e.workflowId = workflowId ∧ e.status.inFlight

end TriggerState

/-! ## Steps -/

/-- The next command of a path, or a check of a request that fails before the insert: the
authorisation, the signature, the definition, the token, an empty file. -/
inductive TriggerInput where
  | cron (input : CronInput)
  | next (attempt : Attempt)
  | refuse
  deriving DecidableEq

namespace TriggerRequest

/-- The next command of a request. Only the enqueue is guarded: when it raises, the record is
marked as failed. -/
def next (attempt : Attempt) (s : TriggerState) (p : TriggerRequest) :
    Option (TriggerState × TriggerRequest) :=
  match p.stage with
  | .find =>
      match attempt, s.cron.workflows.find? p.wants with
      | .failed _, _ | _, none => some (s, { p with stage := .done })
      | _, some doc => some (s, { p with stage := .halt, doc := doc })
  | .halt =>
      match attempt, p.doc with
      | .failed _, _ | _, none => some (s, { p with stage := .done })
      | _, some doc =>
          if getHalt s.cron.controls doc.orgId doc.deptTokens then
            some (s, { p with stage := .done })
          else if p.kind = .executeWorkflowWithFile then some (s, { p with stage := .putBlob })
          else some (s, { p with stage := .insert })
  | .putBlob =>
      match attempt with
      | .failed _ => some (s, { p with stage := .done })
      | _ => some (s, { p with stage := .insert })
  | .insert =>
      match attempt with
      | .failed false => some (s, { p with stage := .done })
      | .failed true => some (s.insert p.runDocument, { p with stage := .done })
      | _ => some (s.insert p.runDocument, { p with stage := .enqueue })
  | .enqueue =>
      let job : RequestJob := ⟨p.workflowId, p.executionId⟩
      -- the queue may have taken the job although `enqueue` raises
      match attempt with
      | .failed false => some (s, { p with stage := .markFailed })
      | .failed true =>
          some ({ s with requestJobs := job :: s.requestJobs }, { p with stage := .markFailed })
      | _ => some ({ s with requestJobs := job :: s.requestJobs }, { p with stage := .done })
  | .markFailed =>
      match attempt with
      | .failed false => some (s, { p with stage := .done })
      | _ => some (s.setStatus p.executionId (.written .failed), { p with stage := .done })
  | .done => none

/-- A check fails. -/
def refuse (p : TriggerRequest) : Option TriggerRequest :=
  match p.stage with
  | .find | .halt | .putBlob | .insert => some { p with stage := .done }
  | _ => none

end TriggerRequest

/-- A path under way. -/
inductive TriggerPath where
  | request (p : TriggerRequest)
  | scheduled (p : CronStart)

namespace TriggerPath

def executionId : TriggerPath → String
  | .request p => p.executionId
  | .scheduled p => p.executionId

/-- The path has ended. -/
def done : TriggerPath → Bool
  | .request p => p.stage = .done
  | .scheduled p => p.stage = .done

/-- A call that asks for runs in flight and finds one. -/
def skipped (s : TriggerState) (p : CronStart) (input : CronInput) : Option FireSkip :=
  match p.stage, input with
  | .inFlight, .next .answered | .inFlight, .next .resent =>
      (s.inFlight p.workflowId).map fun e =>
        ⟨e.executionId, s.hasJob e.executionId, s.underWay e.executionId⟩
  | _, _ => none

/-- The state when the path has taken a step; its end is noted. -/
def ended (s : TriggerState) (p : TriggerPath) : TriggerState :=
  if p.done then { s with finished := p.executionId :: s.finished } else s

def step (cfg : CronConfig) (i : Nat) (input : TriggerInput) (s : TriggerState) :
    TriggerPath → Option (TriggerState × TriggerPath)
  | .request p =>
      match input with
      | .next attempt =>
          (p.next attempt s).map fun r => (ended r.1 (.request r.2), .request r.2)
      | .refuse => p.refuse.map fun p' => (ended s (.request p'), .request p')
      | .cron _ => none
  | .scheduled p =>
      match input with
      | .cron input =>
          (p.step cfg i input s.cron).map fun r =>
            (ended { s with
                cron := r.1
                skips := (skipped s p input).toList ++ s.skips } (.scheduled r.2),
              .scheduled r.2)
      | _ => none

end TriggerPath

/-- What a path is started with. -/
inductive TriggerStart where
  | request (kind : RequestKind) (workflowId userId executionId : String)
  | scheduled (x : Fire)

namespace TriggerStart

def executionId : TriggerStart → String
  | .request _ _ _ executionId => executionId
  | .scheduled x => x.executionId

/-- A path starts; its execution id is a fresh uuid. -/
def start (cfg : CronConfig) (x : TriggerStart) (s : TriggerState) :
    Option (TriggerState × TriggerPath) :=
  if s.issued.contains x.executionId ||
      s.cron.executions.any (·.executionId = x.executionId) then none
  else
    let s := { s with issued := s.issued ++ [x.executionId] }
    match x with
    | .request kind workflowId userId executionId =>
        some (s, .request { kind, workflowId, userId, executionId })
    | .scheduled x =>
        (fire cfg x s.cron).map fun r => ({ s with cron := r.1 }, .scheduled r.2)

end TriggerStart

/-- What happens around the paths: time passes, workflows are edited, halts are set and lifted,
and whoever has the job of an execution writes its status. -/
inductive TriggerEvent where
  | tick (now : Nat)
  | workflows (docs : List WorkflowDocument)
  | controls (records : List Control)
  | advance (executionId : String) (status : ExecutionStatus)

def TriggerEvent.apply (s : TriggerState) : TriggerEvent → Option TriggerState
  | .tick now => ((CronEvent.tick now).apply s.cron).map fun cron => { s with cron }
  | .workflows docs => ((CronEvent.workflows docs).apply s.cron).map fun cron => { s with cron }
  | .controls records =>
      ((CronEvent.controls records).apply s.cron).map fun cron => { s with cron }
  | .advance executionId status =>
      if s.hasJob executionId then some (s.setStatus executionId (.written status)) else none

/-- Any number of requests and scheduled starts. -/
def triggerSystem (cfg : CronConfig) :
    System TriggerState TriggerPath TriggerStart TriggerInput TriggerEvent where
  spawn _ x s := x.start cfg s
  step i input s p := p.step cfg i input s
  env e s := e.apply s

abbrev TriggerRun := Configuration TriggerState TriggerPath

abbrev TriggerMove := Move TriggerStart TriggerInput TriggerEvent

/-! ## The promise -/

namespace TriggerState

/-- A record whose path has ended has a job or is marked as failed. -/
def StrandsNone (s : TriggerState) : Prop :=
  ∀ e ∈ s.cron.executions, s.underWay e.executionId = false →
    s.hasJob e.executionId = true ∨ e.status = .written .failed

/-- A record that made a scheduled start be skipped had a job, unless the path that has inserted
it was still under way. -/
def SkipsRuns (s : TriggerState) : Prop :=
  ∀ k ∈ s.skips, k.underWay = false → k.hasJob = true

/-- No path has started, and no record is stranded. -/
structure Fresh (s : TriggerState) : Prop where
  issued : s.issued = []
  finished : s.finished = []
  skips : s.skips = []
  strandsNone : s.StrandsNone

end TriggerState

/-- The command is an insert or an update in Mongo. -/
def TriggerPath.writes : TriggerPath → Bool
  | .request p => p.stage = .insert || p.stage = .markFailed
  | .scheduled p => p.stage = .insert

/-- The command raises. -/
def TriggerInput.raises : TriggerInput → Bool
  | .next (.failed _) | .cron (.next (.failed _)) => true
  | _ => false

/-- Mongo does not fail under a write. -/
def MongoWrites (c : TriggerRun) : TriggerMove → Prop
  | .step i input => ∀ p ∈ c.proc i, p.writes = true → input.raises = false
  | _ => True

/-- The call is about to enqueue its job. -/
def TriggerPath.enqueuesFire : TriggerPath → Bool
  | .request _ => false
  | .scheduled p => p.stage = .enqueue

/-- No scheduled start loses its job: an enqueue of one that raises has added the job. -/
def FiresEnqueue (c : TriggerRun) : TriggerMove → Prop
  | .step i input => ∀ p ∈ c.proc i, p.enqueuesFire = true → input ≠ .cron (.next (.failed false))
  | _ => True

instance (c : TriggerRun) (m : TriggerMove) : Decidable (MongoWrites c m) :=
  match m with
  | .step i _ => inferInstanceAs (Decidable (∀ p ∈ c.proc i, p.writes = true → _))
  | .spawn _ | .crash _ | .env _ => .isTrue trivial

instance (c : TriggerRun) (m : TriggerMove) : Decidable (FiresEnqueue c m) :=
  match m with
  | .step i _ => inferInstanceAs (Decidable (∀ p ∈ c.proc i, p.enqueuesFire = true → _))
  | .spawn _ | .crash _ | .env _ => .isTrue trivial

end CitraFlows
