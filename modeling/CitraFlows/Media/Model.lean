-- SUMMARY: The media of the runs: the triggers that store and enqueue, the workers that checkpoint, and the sweep of orphaned blobs, command by command.
import CitraFlows.Lifecycle.Model

/-!
# Media of the runs

Nodes and uploads store media as blobs that name their execution. A worker removes the media of
its run when the run ends. `_scan_blob_orphans` removes what such a removal has missed: it lists
the blobs, reads the executions that they name, and deletes one by one those whose execution it
takes to be over or gone.
-/

namespace CitraFlows

open Processes

/-! ## Store -/

/-- What the sweep reads of a document of `WorkflowExecutions`. -/
structure ExecutionEntry where
  workflowId : String
  status : StoredStatus

/-- A file of `workflow_blobs`, without its bytes. The date is in seconds. -/
structure Blob where
  id : String
  executionId : String
  size : Nat
  uploadDate : Option Nat

/-- The collections that the sweep reads, with the organisation of each workflow, and the
executions that have a job. The last three fields record what has happened: the ids drawn, and
the executions that have reached a terminal status. -/
structure MediaStore where
  now : Nat := 0
  workflows : String → Option String := fun _ => none
  executions : String → Option ExecutionEntry := fun _ => none
  blobs : List Blob := []
  jobs : List String := []
  executionIds : List String := []
  blobIds : List String := []
  terminated : String → Bool := fun _ => false

namespace MediaStore

/-- `put_blob` -/
def putBlob (s : MediaStore) (id executionId : String) (size : Nat) : MediaStore :=
  { s with
    blobs := s.blobs ++ [⟨id, executionId, size, some s.now⟩]
    blobIds := id :: s.blobIds }

/-- A document of `WorkflowExecutions` is written. -/
def setExecution (s : MediaStore) (id : String) (e : ExecutionEntry) : MediaStore :=
  { s with
    executions := Function.update s.executions id (some e)
    terminated := Function.update s.terminated id (e.status.terminal || s.terminated id) }

/-- `update_one` by the id of the execution. -/
def setStatus (s : MediaStore) (id : String) (status : StoredStatus) : MediaStore :=
  match s.executions id with
  | some e => s.setExecution id { e with status }
  | none => s

def addJob (s : MediaStore) (id : String) : MediaStore := { s with jobs := id :: s.jobs }

def dropBlobs (s : MediaStore) (gone : Blob → Bool) : MediaStore :=
  { s with blobs := s.blobs.filter (!gone ·) }

end MediaStore

/-! ## Runs -/

/-- The next command of a trigger. -/
inductive CreationStage where
  | put | insert | enqueue | markFailed | done
  deriving DecidableEq

/-- A trigger: `execute_workflow_with_file` stores the upload first, the others have none. -/
structure RunCreation where
  executionId : String
  workflowId : String
  upload : Option (String × Nat)
  stage : CreationStage

namespace RunCreation

def become (p : RunCreation) (stage : CreationStage) : RunCreation := { p with stage }

def next (w : Write) (s : MediaStore) (p : RunCreation) : Option (MediaStore × RunCreation) :=
  match p.stage with
  | .put =>
      match p.upload with
      | some (id, size) =>
          -- an id of a file is not drawn twice
          if s.blobIds.contains id then none
          else some (if w.ran then s.putBlob id p.executionId size else s,
            p.become (if w.ok then .insert else .done))
      | none => none
  | .insert =>
      some (if w.ran then s.setExecution p.executionId ⟨p.workflowId, .queued⟩ else s,
        p.become (if w.ok then .enqueue else .done))
  | .enqueue =>
      some (if w.ran then s.addJob p.executionId else s,
        p.become (if w.ok then .done else .markFailed))
  | .markFailed =>
      some (if w.ran then s.setStatus p.executionId (.written .failed) else s, p.become .done)
  | .done => none

end RunCreation

/-- A worker with a job of the execution, and the status that the run has in its memory. -/
structure MediaWorker where
  executionId : String
  workflowId : String
  status : ExecutionStatus := .running

/-! ## The sweep -/

def StoredStatus.value : StoredStatus → String
  | .queued => "queued"
  | .written status => status.value

/-- `_ALIVE_EXEC_STATUSES` -/
def aliveExecStatuses : List String :=
  ["pending", "running", "resuming", "paused", "waiting_approval"]

/-- `_blob_older_than` -/
def blobOlderThan (now hours : Nat) (uploadDate : Option Nat) : Bool :=
  uploadDate.any (· + hours * 3600 < now)

inductive BlobVerdict where
  | unattributable | otherOrg | liveKept | orphan
  deriving DecidableEq

/-- What the sweep makes of a blob: by the workflows of the caller's organisation, which a
super admin does not ask for, and by the execution that the blob names. -/
def blobVerdict (now : Nat) (orgWfIds : Option (String → Bool)) (b : Blob)
    (ex : Option ExecutionEntry) : BlobVerdict :=
  if orgWfIds.isSome ∧ ex.all (·.workflowId = "") then .unattributable
  else if orgWfIds.any fun mine => ex.all fun e => !mine e.workflowId then .otherOrg
  else
    match ex with
    | some e => if aliveExecStatuses.contains e.status.value then .liveKept else .orphan
    | none =>
        if b.executionId = "" ∧ ¬ blobOlderThan now 24 b.uploadDate then .liveKept else .orphan

structure SweepReport where
  scanned : Nat
  liveKept : Nat := 0
  orphans : Nat := 0
  orphanBytes : Nat := 0
  skippedUnattributable : Nat := 0
  deleted : Nat := 0
  deletedBytes : Nat := 0

/-- One blob more in the report. -/
def SweepReport.count (r : SweepReport) (b : Blob) (deleted : Bool) : BlobVerdict → SweepReport
  | .unattributable => { r with skippedUnattributable := r.skippedUnattributable + 1 }
  | .otherOrg => r
  | .liveKept => { r with liveKept := r.liveKept + 1 }
  | .orphan =>
      { r with
        orphans := r.orphans + 1
        orphanBytes := r.orphanBytes + b.size
        deleted := if deleted then r.deleted + 1 else r.deleted
        deletedBytes := if deleted then r.deletedBytes + b.size else r.deletedBytes }

/-- The next command of a sweep, with what it has read. -/
inductive BlobSweepStage where
  | workflows
  | list (orgWfIds : Option (String → Bool))
  | find (orgWfIds : Option (String → Bool)) (blobs : List Blob)
  | scan (orgWfIds : Option (String → Bool)) (found : String → Option ExecutionEntry)
      (blobs : List Blob) (report : SweepReport)
  | done (report : Option SweepReport)

/-- A call of `_scan_blob_orphans`. A super admin has no organisation here. -/
structure BlobSweep where
  orgId : Option String
  delete : Bool
  stage : BlobSweepStage := .workflows

namespace BlobSweep

def become (p : BlobSweep) (stage : BlobSweepStage) : BlobSweep := { p with stage }

/-- `exec_by_id.get(b["execution_id"])` -/
def lookup (found : String → Option ExecutionEntry) (b : Blob) : Option ExecutionEntry :=
  if b.executionId = "" then none else found b.executionId

def next (w : Write) (s : MediaStore) (p : BlobSweep) : Option (MediaStore × BlobSweep) :=
  match p.stage with
  | .workflows =>
      some (s, p.become
        (if w.ok then .list (p.orgId.map fun org id => s.workflows id = some org)
          else .done none))
  | .list orgWfIds => some (s, p.become (if w.ok then .find orgWfIds s.blobs else .done none))
  | .find orgWfIds blobs =>
      some (s, p.become
        (if w.ok then .scan orgWfIds s.executions blobs { scanned := blobs.length }
          else .done none))
  | .scan orgWfIds found (b :: blobs) report =>
      let verdict := blobVerdict s.now orgWfIds b (lookup found b)
      let deletes := p.delete && verdict = .orphan
      -- `delete_blob` tells only whether the file was deleted
      let deleted := deletes && w.ok && s.blobs.any (·.id = b.id)
      some (if deletes && w.ran then s.dropBlobs (·.id = b.id) else s,
        p.become (.scan orgWfIds found blobs (report.count b deleted verdict)))
  | .scan _ _ [] report => some (s, p.become (.done (some report)))
  | .done _ => none

end BlobSweep

/-! ## The system -/

inductive MediaProcess where
  | creation (p : RunCreation)
  | worker (p : MediaWorker)
  | sweep (p : BlobSweep)

/-- What a process starts with. -/
inductive MediaStart where
  | run (executionId workflowId : String) (upload : Option (String × Nat))
  | worker (executionId workflowId : String)
  | sweep (orgId : Option String) (delete : Bool)

/-- The next command of a trigger or of a sweep; or what a worker does next: a node stores media,
the run is saved, or its media is removed. -/
inductive MediaInput where
  | next (w : Write)
  | putBlob (id : String) (size : Nat) (w : Write)
  | save (status : ExecutionStatus) (w : Write)
  | sweepOwn (w : Write)

/-- Time passes, a workflow changes, or an endpoint, the reaper or the approval sweep writes the
status of a stored execution. -/
inductive MediaEnv where
  | tick (seconds : Nat)
  | workflow (id : String) (orgId : Option String)
  | decide (id : String) (status : ExecutionStatus)

/-- What a worker does. -/
def MediaWorker.step (input : MediaInput) (s : MediaStore) (p : MediaWorker) :
    Option (MediaStore × MediaWorker) :=
  match input with
  | .putBlob id size w =>
      if s.blobIds.contains id then none
      else some (if w.ran then s.putBlob id p.executionId size else s, p)
  | .save status w =>
      some (
        if w.ran then s.setExecution p.executionId ⟨p.workflowId, .written status⟩ else s,
        { p with status })
  | .sweepOwn w =>
      -- `_sweep_blobs_if_terminal`
      if p.status.terminal then
        some (if w.ran then s.dropBlobs (·.executionId = p.executionId) else s, p)
      else none
  | .next _ => none

def MediaProcess.step (input : MediaInput) (s : MediaStore) :
    MediaProcess → Option (MediaStore × MediaProcess)
  | .creation p =>
      match input with
      | .next w => (p.next w s).map fun r => (r.1, .creation r.2)
      | _ => none
  | .worker p => (p.step input s).map fun r => (r.1, .worker r.2)
  | .sweep p =>
      match input with
      | .next w => (p.next w s).map fun r => (r.1, .sweep r.2)
      | _ => none

def MediaStore.begin (s : MediaStore) : MediaStart → Option (MediaStore × MediaProcess)
  | .run executionId workflowId upload =>
      if executionId = "" ∨ s.executionIds.contains executionId then none
      else
        some ({ s with executionIds := executionId :: s.executionIds },
          .creation ⟨executionId, workflowId, upload, if upload.isSome then .put else .insert⟩)
  | .worker executionId workflowId =>
      if s.jobs.contains executionId then some (s, .worker { executionId, workflowId }) else none
  | .sweep orgId delete => some (s, .sweep { orgId, delete })

def MediaStore.env (s : MediaStore) : MediaEnv → Option MediaStore
  | .tick seconds => some { s with now := s.now + seconds }
  | .workflow id orgId => some { s with workflows := Function.update s.workflows id orgId }
  | .decide id status => some (s.setStatus id (.written status))

def mediaSystem : System MediaStore MediaProcess MediaStart MediaInput MediaEnv where
  spawn _ x s := s.begin x
  step _ input s p := p.step input s
  env e s := s.env e

abbrev MediaRun := Configuration MediaStore MediaProcess

abbrev MediaMove := Move MediaStart MediaInput MediaEnv

end CitraFlows
