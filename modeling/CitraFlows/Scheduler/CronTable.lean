-- SUMMARY: The cron tables of the leaders: the operations on a schedule, the load of a new leader, and the refresh messages between replicas.
import CitraFlows.Models
import CitraFlows.Lib.Processes
import Mathlib.Logic.Function.Basic

/-!
# Cron tables

A replica that becomes leader loads the deployed schedules into its table and then subscribes to
the refresh channel. The operations on a workflow run on any replica: they write the document,
change the table of their own replica if it leads, and publish a message. A message reaches the
replicas that are subscribed when it is published. A call that finds its workflow gone drops the
entry on its replica.
-/

namespace CitraFlows

open Processes

/-! ## Entries -/

/-- `validate_cron_schedule` finds no error in an expression and a timezone; it asks the
scheduling library. -/
structure TableConfig where
  accepts : String → String → Bool

/-- `normalize_timezone` -/
def normalizeTimezone (name : String) : String :=
  let tz := Python.strip name.toList
  if tz = [] then "UTC"
  else if Python.upper tz = ['I', 'S', 'T'] then "Asia/Kolkata"
  else String.ofList tz

structure CronTrigger where
  cronExpression : String
  timezone : String
  deriving DecidableEq

/-- `schedule.get("enabled") and schedule.get("cron_expression")` -/
def ScheduleConfig.wanted (schedule : ScheduleConfig) : Bool :=
  schedule.enabled && schedule.cronExpression.any (· ≠ "")

/-- What `register_workflow` makes of the entry of the workflow. Without an expression it does
nothing; else it removes the entry first. -/
def registerEntry (cfg : TableConfig) (schedule : ScheduleConfig) (entry : Option CronTrigger) :
    Option CronTrigger :=
  match schedule.cronExpression with
  | none => entry
  | some cron =>
      if cron = "" then entry
      else if cfg.accepts cron schedule.timezone then
        some ⟨cron, normalizeTimezone schedule.timezone⟩
      else none

/-- Deployed, active, and with an enabled schedule. -/
def WorkflowDocument.scheduled (doc : WorkflowDocument) : Bool :=
  doc.status = .written .deployed && doc.isActive && doc.schedule.enabled

/-- The query of `_load_deployed_schedules`. -/
def WorkflowDocument.loaded (doc : WorkflowDocument) : Bool :=
  doc.scheduled && doc.schedule.cronExpression ≠ none

/-- The entry that a table should have: one for a scheduled workflow with a valid expression. -/
def WorkflowDocument.cronEntry (cfg : TableConfig) (doc : WorkflowDocument) : Option CronTrigger :=
  doc.schedule.cronExpression.bind fun cron =>
    if doc.scheduled ∧ cron ≠ "" ∧ cfg.accepts cron doc.schedule.timezone then
      some ⟨cron, normalizeTimezone doc.schedule.timezone⟩
    else none

/-! ## Replicas -/

/-- The action of a refresh message. -/
inductive Refresh where
  | register (schedule : ScheduleConfig)
  | unregister
  deriving DecidableEq

structure RefreshMessage where
  workflowId : String
  action : Refresh
  deriving DecidableEq

/-- The refresh for a deployed workflow with a schedule. -/
def Refresh.ofSchedule (schedule : ScheduleConfig) : Refresh :=
  if schedule.wanted then .register schedule else .unregister

def Refresh.apply (cfg : TableConfig) (entry : Option CronTrigger) : Refresh → Option CronTrigger
  | .register schedule => registerEntry cfg schedule entry
  | .unregister => none

/-- A replica with an active scheduler: its table, the load while it goes on (the workflows
still to be read, and those read and not registered yet), and what the subscription holds. -/
structure LeaderTerm where
  jobs : String → Option CronTrigger := fun _ => none
  loading : Option (List String × List (String × ScheduleConfig))
  listening : Bool := false
  inbox : List RefreshMessage := []

namespace LeaderTerm

def put (t : LeaderTerm) (id : String) (entry : Option CronTrigger) : LeaderTerm :=
  { t with jobs := Function.update t.jobs id entry }

/-- `register_workflow` or `unregister_workflow`. -/
def refresh (cfg : TableConfig) (m : RefreshMessage) (t : LeaderTerm) : LeaderTerm :=
  t.put m.workflowId (m.action.apply cfg (t.jobs m.workflowId))

/-- A message is published. -/
def receive (m : RefreshMessage) (t : LeaderTerm) : LeaderTerm :=
  if t.listening then { t with inbox := t.inbox ++ [m] } else t

end LeaderTerm

/-- The `Workflows` collection, and the replicas; one that does not lead has no term. -/
structure Scheduling where
  ids : List String
  docs : String → WorkflowDocument
  replicas : List (Option LeaderTerm)

namespace Scheduling

/-- `find_one` by the id of the workflow. -/
def find (s : Scheduling) (id : String) : Option WorkflowDocument :=
  if id ∈ s.ids then some (s.docs id) else none

/-- The entry that a table should have for an id. -/
def cronEntry (cfg : TableConfig) (s : Scheduling) (id : String) : Option CronTrigger :=
  (s.find id).bind (·.cronEntry cfg)

def onReplica (s : Scheduling) (r : Nat) (f : LeaderTerm → LeaderTerm) : Scheduling :=
  { s with replicas := s.replicas.modify r (Option.map f) }

def publish (s : Scheduling) (m : RefreshMessage) : Scheduling :=
  { s with replicas := s.replicas.map (Option.map (LeaderTerm.receive m)) }

def setDoc (s : Scheduling) (id : String) (doc : WorkflowDocument) : Scheduling :=
  { s with docs := Function.update s.docs id doc }

end Scheduling

/-! ## Operations -/

/-- The operations on a workflow, with what the request asks for; `fire` is the start of a call
of `_execute_scheduled_workflow`. -/
inductive ScheduleOp where
  | deploy
  | undeploy
  | update (schedule : Option ScheduleConfig)
  | patchSchedule (enabled : Option Bool) (cronExpression : Option String)
  | rollback (schedule : ScheduleConfig)
  | archive
  | restore
  | delete
  | fire
  deriving DecidableEq

/-- The schedule of `patch_workflow_schedule`. -/
def ScheduleConfig.patch (schedule : ScheduleConfig) (enabled : Option Bool)
    (cronExpression : Option String) : ScheduleConfig :=
  let schedule := { schedule with enabled := enabled.getD schedule.enabled }
  match cronExpression with
  | none => schedule
  | some cron =>
      let cron := String.ofList (Python.strip cron.toList)
      { schedule with cronExpression := if cron = "" then none else some cron }

/-- The schedule is off, or its expression is valid. -/
def ScheduleConfig.deployable (cfg : TableConfig) (schedule : ScheduleConfig) : Bool :=
  !schedule.wanted || schedule.cronExpression.any (cfg.accepts · schedule.timezone)

namespace ScheduleOp

/-- The checks of the operation on the document it has read. -/
def admits (cfg : TableConfig) (doc : WorkflowDocument) : ScheduleOp → Bool
  | .deploy => doc.schedule.deployable cfg
  | .rollback schedule => doc.status ≠ .written .deployed || schedule.deployable cfg
  | .archive => !doc.archived
  | .restore => doc.archived
  | _ => true

/-- The `$set` of the operation on the stored document, given the document it has read. -/
def write (read doc : WorkflowDocument) : ScheduleOp → WorkflowDocument
  | .deploy => { doc with status := .written .deployed }
  | .undeploy => { doc with status := .written .draft }
  | .update schedule => { doc with schedule := schedule.getD doc.schedule }
  | .patchSchedule enabled cronExpression =>
      { doc with schedule := read.schedule.patch enabled cronExpression }
  | .rollback schedule => { doc with schedule := schedule }
  | .archive => { doc with archived := true, status := .inactive }
  | .restore => { doc with archived := false, status := .active }
  | .delete => { doc with isActive := false }
  | .fire => doc

/-- What the operation tells the scheduler, as far as the document it has read decides it. -/
def refresh (read : WorkflowDocument) : ScheduleOp → Option Refresh
  | .deploy => if read.schedule.wanted then some (.register read.schedule) else none
  | .undeploy => some .unregister
  | .patchSchedule enabled cronExpression =>
      if read.status = .written .deployed then
        some (.ofSchedule (read.schedule.patch enabled cronExpression))
      else none
  | .rollback schedule =>
      if read.status = .written .deployed then some (.ofSchedule schedule) else none
  | _ => none

end ScheduleOp

inductive OpStage where
  | read
  | write (read : WorkflowDocument)
  /-- A PUT reads the document again after its write. -/
  | reread
  | tell (action : Refresh)
  | publish (action : Refresh)
  /-- A delete, or a call, drops the entry on its own replica only. -/
  | forget
  | done
  deriving DecidableEq

structure Operation where
  replica : Nat
  workflowId : String
  op : ScheduleOp
  stage : OpStage := .read
  deriving DecidableEq

namespace Operation

/-- The stage after the document was looked up. A call drops its entry when it does not find the
workflow deployed and active, with its schedule on. -/
def afterRead (cfg : TableConfig) (p : Operation) (found : Option WorkflowDocument) : OpStage :=
  match p.op, found with
  | .fire, found => if found.any (·.scheduled) then .done else .forget
  | op, some doc => if op.admits cfg doc then .write doc else .done
  | _, none => .done

/-- The stage after the write. -/
def afterWrite (p : Operation) (read : WorkflowDocument) : OpStage :=
  match p.op with
  | .update (some _) => .reread
  | .delete => .forget
  | op => (op.refresh read).elim .done .tell

/-- The stage of a PUT that has read the document again. -/
def afterReread (found : Option WorkflowDocument) : OpStage :=
  match found with
  | some doc => if doc.status = .written .deployed then .tell (.ofSchedule doc.schedule) else .done
  | none => .done

/-- The next command of an operation on a replica. A failed publish is passed over. -/
def step (cfg : TableConfig) (w : Write) (s : Scheduling) (p : Operation) :
    Option (Scheduling × Operation) :=
  match p.stage with
  | .read =>
      some (s, { p with
        stage := if w.ok then p.afterRead cfg (s.find p.workflowId) else .done })
  | .write read =>
      some (
        if w.ran then s.setDoc p.workflowId (p.op.write read (s.docs p.workflowId)) else s,
        { p with stage := if w.ok then p.afterWrite read else .done })
  | .reread =>
      some (s, { p with
        stage := if w.ok then afterReread (s.find p.workflowId) else .done })
  | .tell action =>
      some (s.onReplica p.replica (·.refresh cfg ⟨p.workflowId, action⟩),
        { p with stage := .publish action })
  | .publish action =>
      some (if w.ran then s.publish ⟨p.workflowId, action⟩ else s, { p with stage := .done })
  | .forget =>
      some (s.onReplica p.replica (·.refresh cfg ⟨p.workflowId, .unregister⟩),
        { p with stage := .done })
  | .done => none

end Operation

/-! ## Leadership -/

/-- What a replica does as leader: it takes over, reads and registers the deployed schedules
(the load ends when it is complete, or with an error), subscribes, works off its messages; the
connection or the leadership may be lost. -/
inductive LeaderMove where
  | becomeLeader (r : Nat)
  | loseLeadership (r : Nat)
  | fetch (r : Nat)
  | register (r : Nat)
  | endLoad (r : Nat)
  | subscribe (r : Nat)
  | deliver (r : Nat)
  | disconnect (r : Nat)
  deriving DecidableEq

namespace LeaderTerm

/-- The cursor of the load gives the next document. -/
def fetch (find : String → Option WorkflowDocument) (t : LeaderTerm) : Option LeaderTerm :=
  match t.loading with
  | some (id :: todo, buffer) =>
      let found := (find id).filter (·.loaded)
      some { t with loading := some (todo, buffer ++ found.toList.map fun doc => (id, doc.schedule)) }
  | _ => none

/-- The load registers a document it has read. -/
def register (cfg : TableConfig) (t : LeaderTerm) : Option LeaderTerm :=
  match t.loading with
  | some (todo, (id, schedule) :: buffer) =>
      some ({ t with loading := some (todo, buffer) }.refresh cfg ⟨id, .register schedule⟩)
  | _ => none

def endLoad (t : LeaderTerm) : Option LeaderTerm :=
  t.loading.map fun _ => { t with loading := none }

def subscribe (t : LeaderTerm) : Option LeaderTerm :=
  if t.loading = none ∧ !t.listening then some { t with listening := true, inbox := [] } else none

def deliver (cfg : TableConfig) (t : LeaderTerm) : Option LeaderTerm :=
  match t.inbox with
  | m :: inbox => some ({ t with inbox }.refresh cfg m)
  | [] => none

def disconnect (t : LeaderTerm) : Option LeaderTerm :=
  if t.listening then some { t with listening := false, inbox := [] } else none

end LeaderTerm

namespace Scheduling

def term (s : Scheduling) (r : Nat) : Option LeaderTerm := s.replicas[r]?.join

def setTerm (s : Scheduling) (r : Nat) (t : Option LeaderTerm) : Scheduling :=
  { s with replicas := s.replicas.set r t }

/-- A step of a leader. -/
def lead (s : Scheduling) (r : Nat) (f : LeaderTerm → Option LeaderTerm) : Option Scheduling :=
  ((s.term r).bind f).map fun t => s.setTerm r (some t)

end Scheduling

def LeaderMove.apply (cfg : TableConfig) (s : Scheduling) : LeaderMove → Option Scheduling
  | .becomeLeader r =>
      match s.replicas[r]? with
      | some none => some (s.setTerm r (some { loading := some (s.ids, []) }))
      | _ => none
  | .loseLeadership r => (s.term r).map fun _ => s.setTerm r none
  | .fetch r => s.lead r (·.fetch s.find)
  | .register r => s.lead r (·.register cfg)
  | .endLoad r => s.lead r (·.endLoad)
  | .subscribe r => s.lead r (·.subscribe)
  | .deliver r => s.lead r (·.deliver cfg)
  | .disconnect r => s.lead r (·.disconnect)

structure OpStart where
  replica : Nat
  workflowId : String
  op : ScheduleOp

def tableSystem (cfg : TableConfig) : System Scheduling Operation OpStart Write LeaderMove where
  spawn _ x s := some (s, { replica := x.replica, workflowId := x.workflowId, op := x.op })
  step _ w s p := p.step cfg w s
  env e s := e.apply cfg s

abbrev TableRun := Configuration Scheduling Operation

end CitraFlows
