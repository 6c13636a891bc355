-- SUMMARY: Scheduled starts of a workflow: the fire lock, the overlap lock, the guards and the enqueue, run by any number of replicas at once.
import CitraFlows.Models
import CitraFlows.Lib.Processes
import CitraFlows.Lib.RedisKeys
import Mathlib.Logic.Function.Basic

/-!
# Cron fires

Every replica that runs a scheduler starts `_execute_scheduled_workflow` for a tick of a
workflow. The calls interleave command by command; Redis or Mongo may fail under any of them,
and a call may be lost with its replica. The fire lock is named after the workflow and the
minute in which the call starts. It is never released and runs out
`SCHEDULER_CRON_LOCK_TIMEOUT` seconds after it was set or renewed, so a tick gives one job as
long as no call asks for it later than that after the tick.
-/

namespace CitraFlows

open RedisKeys Processes

/-! ## Configuration -/

structure CronConfig where
  schedulerCronLockTimeout : Nat := 3600 + 120
  schedulerOverlapLockTimeout : Nat := 3600 + 120
  schedulerMisfireGraceTime : Nat := 30
  lockTimeout_gt : 60 < schedulerCronLockTimeout := by decide
  graceTime_lt : schedulerMisfireGraceTime < 60 := by decide

/-! ## The kill switch -/

inductive ScopeType where
  | global | org | dept
  deriving DecidableEq

/-- An active record of `workflow_control`. -/
structure Control where
  scopeType : ScopeType
  scopeId : String
  deriving DecidableEq

/-- `workflow_control.get_halt` finds a record. -/
def getHalt (controls : List Control) (orgId : String) (deptTokens : List String) : Bool :=
  controls.any fun c =>
    match c.scopeType with
    | .global => true
    | .org => orgId ≠ "" && c.scopeId = orgId
    | .dept => c.scopeId ≠ "" && deptTokens.contains c.scopeId

/-- `_dept_tokens` -/
def WorkflowDocument.deptTokens (doc : WorkflowDocument) : List String :=
  doc.deptIds.map fun d => doc.orgId ++ ":" ++ String.ofList (d.toList.map Char.toLower)

/-! ## State -/

/-- What the scheduler reads and inserts of a document of `WorkflowExecutions`. -/
structure RunDocument where
  executionId : String
  workflowId : String
  userId : String
  status : StoredStatus
  fireTime : Nat
  deriving DecidableEq

/-- The `status` of a run that is in flight: queued, running, resuming or paused. -/
def StoredStatus.inFlight : StoredStatus → Bool
  | .queued | .written .running | .written .resuming | .written .paused => true
  | _ => false

/-- A `workflow.run` job of a scheduled start, with the tick and the call it is for. -/
structure CronJob where
  workflowId : String
  executionId : String
  tick : Nat
  caller : Nat
  deriving DecidableEq

/-- A call that was told that it has set a fire lock. -/
structure Acquisition where
  workflowId : String
  fireTs : Nat
  caller : Nat
  deriving DecidableEq

/-- Redis, Mongo and the queue, and a log of the fire locks acquired. Times are in seconds,
and `fire_ts` is a number of minutes. -/
structure CronState where
  now : Nat
  fireLocks : String × Nat → Key String := fun _ => none
  overlapLocks : String → Key String := fun _ => none
  workflows : List WorkflowDocument := []
  executions : List RunDocument := []
  controls : List Control := []
  jobs : List CronJob := []
  acquisitions : List Acquisition := []

/-- The next command of a call. -/
inductive CronStage where
  | fireLock | overlapLock | findWorkflow | inFlight | halt | insert | enqueue | cleanup | done
  deriving DecidableEq

/-- A call of `_execute_scheduled_workflow` for a tick. -/
structure CronStart where
  workflowId : String
  userId : String
  tick : Nat
  fireTs : Nat
  lockValue : String
  executionId : String
  stage : CronStage := .fireLock
  overlapAcquired : Bool := false
  doc : Option WorkflowDocument := none
  deriving DecidableEq

/-! ## Steps -/

/-- What APScheduler starts a call with, and the random parts of its names. -/
structure Fire where
  workflowId : String
  userId : String
  tick : Nat
  lockValue : String
  executionId : String

/-- A call starts at a tick or later within the misfire grace; it computes `fire_ts` at once. -/
def fire (cfg : CronConfig) (x : Fire) (s : CronState) : Option (CronState × CronStart) :=
  if x.tick % 60 = 0 ∧ x.tick ≤ s.now ∧ s.now ≤ x.tick + cfg.schedulerMisfireGraceTime then
    some (s,
      { workflowId := x.workflowId
        userId := x.userId
        tick := x.tick
        fireTs := s.now / 60
        lockValue := x.lockValue
        executionId := x.executionId })
  else none

/-- The next command, or the renewal task extends the fire lock or the overlap lock. -/
inductive CronInput where
  | next (attempt : Attempt)
  | renewFire (attempt : Attempt)
  | renewOverlap (attempt : Attempt)
  deriving DecidableEq

/-- The renewal task runs from the overlap lock on, until the `finally` stops it. -/
def CronStart.renewing (p : CronStart) : Bool :=
  match p.stage with
  | .findWorkflow | .inFlight | .halt | .insert | .enqueue => true
  | _ => false

namespace CronState

/-- A command on the fire lock of a call. -/
def onFireLock (s : CronState) (p : CronStart) (attempt : Attempt)
    (op : Key String → Bool × Key String) : Option Bool × CronState :=
  let r := attempt.run op (s.fireLocks (p.workflowId, p.fireTs))
  (r.1, { s with fireLocks := Function.update s.fireLocks (p.workflowId, p.fireTs) r.2 })

/-- A command on the overlap lock of a call. -/
def onOverlapLock (s : CronState) (p : CronStart) (attempt : Attempt)
    (op : Key String → Bool × Key String) : Option Bool × CronState :=
  let r := attempt.run op (s.overlapLocks p.workflowId)
  (r.1, { s with overlapLocks := Function.update s.overlapLocks p.workflowId r.2 })

end CronState

namespace CronStart

/-- The document the call asks for: deployed and active. -/
def wants (p : CronStart) (doc : WorkflowDocument) : Bool :=
  doc.workflowId = p.workflowId && doc.userId = p.userId && doc.status = .written .deployed &&
    doc.isActive

/-- The document inserted for the run. -/
def runDocument (p : CronStart) : RunDocument where
  executionId := p.executionId
  workflowId := p.workflowId
  userId := p.userId
  status := .queued
  fireTime := p.fireTs

/-- The next command of call `i`. An exception under a command leads to the `finally`, except
that a failed overlap check and a failed halt check are passed over. -/
def next (cfg : CronConfig) (i : Nat) (attempt : Attempt) (s : CronState) (p : CronStart) :
    Option (CronState × CronStart) :=
  match p.stage with
  | .fireLock =>
      match s.onFireLock p attempt (·.setNx s.now p.lockValue cfg.schedulerCronLockTimeout) with
      | (some true, s') =>
          some ({ s' with acquisitions := ⟨p.workflowId, p.fireTs, i⟩ :: s.acquisitions },
            { p with stage := .overlapLock })
      | (_, s') => some (s', { p with stage := .done })
  | .overlapLock =>
      match s.onOverlapLock p attempt (·.setNx s.now p.lockValue cfg.schedulerOverlapLockTimeout) with
      | (some false, s') => some (s', { p with stage := .done })
      | (r, s') =>
          some (s', { p with stage := .findWorkflow, overlapAcquired := r = some true })
  | .findWorkflow =>
      match attempt, s.workflows.find? p.wants with
      | .failed _, _ => some (s, { p with stage := .cleanup })
      | _, none => some (s, { p with stage := .cleanup })
      | _, some doc =>
          -- a schedule that was disabled meanwhile is unregistered on this replica
          if doc.schedule.enabled then some (s, { p with stage := .inFlight, doc := doc })
          else some (s, { p with stage := .cleanup })
  | .inFlight =>
      match attempt with
      | .failed _ => some (s, { p with stage := .cleanup })
      | _ =>
          if s.executions.any fun e => e.workflowId = p.workflowId ∧ e.status.inFlight then
            some (s, { p with stage := .cleanup })
          else some (s, { p with stage := .halt })
  | .halt =>
      match attempt, p.doc with
      | .failed _, _ | _, none => some (s, { p with stage := .insert })
      | _, some doc =>
          if getHalt s.controls doc.orgId doc.deptTokens then some (s, { p with stage := .cleanup })
          else some (s, { p with stage := .insert })
  | .insert =>
      match attempt with
      | .failed false => some (s, { p with stage := .cleanup })
      | .failed true =>
          some ({ s with executions := s.executions ++ [p.runDocument] },
            { p with stage := .cleanup })
      | _ =>
          some ({ s with executions := s.executions ++ [p.runDocument] },
            { p with stage := .enqueue })
  | .enqueue =>
      -- the queue may have taken the job although `enqueue` raises
      match attempt with
      | .failed false => some (s, { p with stage := .cleanup })
      | _ =>
          some ({ s with jobs := ⟨p.workflowId, p.executionId, p.tick, i⟩ :: s.jobs },
            { p with stage := .cleanup })
  | .cleanup =>
      -- the fire lock is not released
      if p.overlapAcquired then
        some ((s.onOverlapLock p attempt (·.deleteIfOwner s.now p.lockValue)).2,
          { p with stage := .done })
      else some (s, { p with stage := .done })
  | .done => none

def step (cfg : CronConfig) (i : Nat) (input : CronInput) (s : CronState) (p : CronStart) :
    Option (CronState × CronStart) :=
  match input with
  | .next attempt => p.next cfg i attempt s
  | .renewFire attempt =>
      if p.renewing then
        some ((s.onFireLock p attempt (·.expireIfOwner s.now p.lockValue cfg.schedulerCronLockTimeout)).2, p)
      else none
  | .renewOverlap attempt =>
      if p.renewing ∧ p.overlapAcquired then
        some ((s.onOverlapLock p attempt
          (·.expireIfOwner s.now p.lockValue cfg.schedulerCronLockTimeout)).2, p)
      else none

end CronStart

/-- What happens around the calls: time passes, workflows are edited, runs start and end, a
halt is set or lifted. -/
inductive CronEvent where
  | tick (now : Nat)
  | workflows (docs : List WorkflowDocument)
  | executions (docs : List RunDocument)
  | controls (records : List Control)

def CronEvent.apply (s : CronState) : CronEvent → Option CronState
  | .tick now => if s.now ≤ now then some { s with now := now } else none
  | .workflows docs => some { s with workflows := docs }
  | .executions docs => some { s with executions := docs }
  | .controls records => some { s with controls := records }

/-- Any number of calls for any ticks of any workflows. -/
def cronSystem (cfg : CronConfig) : System CronState CronStart Fire CronInput CronEvent where
  spawn _ x s := fire cfg x s
  step i input s p := p.step cfg i input s
  env e s := e.apply s

/-! ## The promise -/

/-- The jobs enqueued for a tick of a workflow. -/
def CronState.jobsFor (s : CronState) (workflowId : String) (tick : Nat) : List CronJob :=
  s.jobs.filter fun j => j.workflowId = workflowId ∧ j.tick = tick

def CronState.AtMostOnce (s : CronState) : Prop :=
  ∀ workflowId tick, (s.jobsFor workflowId tick).length ≤ 1

/-- Before any call has started: no locks, no jobs. -/
structure CronState.Fresh (s : CronState) : Prop where
  fireLocks : ∀ k, s.fireLocks k = none
  jobs : s.jobs = []
  acquisitions : s.acquisitions = []

/-- A call asks for its fire lock before a lock set at the tick would have run out. -/
def Timely (cfg : CronConfig) (c : Configuration CronState CronStart) :
    Move Fire CronInput CronEvent → Prop
  | .step i _ => ∀ p ∈ c.proc i, p.stage = .fireLock →
      c.shared.now < p.tick + cfg.schedulerCronLockTimeout
  | _ => True

instance (cfg : CronConfig) (c : Configuration CronState CronStart)
    (m : Move Fire CronInput CronEvent) : Decidable (Timely cfg c m) :=
  match m with
  | .step i _ => inferInstanceAs (Decidable (∀ p ∈ c.proc i, p.stage = .fireLock → _))
  | .spawn _ | .crash _ | .env _ => .isTrue trivial

/-! ## One step -/

/-- A command on the overlap lock leaves the fire locks and the jobs alone. -/
theorem CronState.onOverlapLock_frame {s s' : CronState} {p : CronStart} {attempt : Attempt}
    {op : Key String → Bool × Key String} {r : Option Bool}
    (h : s.onOverlapLock p attempt op = (r, s')) :
    (s'.now, s'.fireLocks, s'.jobs, s'.acquisitions) =
      (s.now, s.fireLocks, s.jobs, s.acquisitions) := by
  cases h
  rfl

/-- A call that has its fire lock and has not enqueued its job. -/
def CronStage.beforeEnqueue : CronStage → Bool
  | .cleanup | .done => false
  | _ => true

/-- What a step of a call does: it wins the fire lock, fails to, enqueues its job, renews the
fire lock, or touches neither the fire lock nor the jobs. -/
theorem CronStart.step_cases {cfg : CronConfig} {i : Nat} {input : CronInput} {s s' : CronState}
    {p p' : CronStart} (h : p.step cfg i input s = some (s', p')) :
    (p.stage = .fireLock ∧ ∃ (attempt : Attempt) (k : Key String),
      attempt.run (·.setNx s.now p.lockValue cfg.schedulerCronLockTimeout)
        (s.fireLocks (p.workflowId, p.fireTs)) = (some true, k) ∧
      s' = { s with
        fireLocks := Function.update s.fireLocks (p.workflowId, p.fireTs) k
        acquisitions := ⟨p.workflowId, p.fireTs, i⟩ :: s.acquisitions } ∧
      p' = { p with stage := .overlapLock }) ∨
    (p.stage = .fireLock ∧ ∃ attempt : Attempt,
      s' = (s.onFireLock p attempt (·.setNx s.now p.lockValue cfg.schedulerCronLockTimeout)).2 ∧
      p' = { p with stage := .done }) ∨
    (p.stage = .enqueue ∧
      s' = { s with jobs := ⟨p.workflowId, p.executionId, p.tick, i⟩ :: s.jobs } ∧
      p' = { p with stage := .cleanup }) ∨
    (p.renewing = true ∧ p' = p ∧ ∃ attempt : Attempt,
      s' = (s.onFireLock p attempt
        (·.expireIfOwner s.now p.lockValue cfg.schedulerCronLockTimeout)).2) ∨
    (p.stage ≠ .fireLock ∧ p.stage ≠ .done ∧ p'.stage ≠ .fireLock ∧
      (p'.stage.beforeEnqueue = true → p.stage.beforeEnqueue = true) ∧
      (p'.workflowId, p'.tick, p'.fireTs) = (p.workflowId, p.tick, p.fireTs) ∧
      (s'.now, s'.fireLocks, s'.jobs, s'.acquisitions) =
        (s.now, s.fireLocks, s.jobs, s.acquisitions)) := by
  cases input with
  | next attempt =>
      unfold CronStart.step CronStart.next at h
      cases hstage : p.stage with
      | fireLock =>
          simp only [hstage] at h
          split at h
          next s₁ hrun =>
            simp only [CronState.onFireLock, Prod.mk.injEq] at hrun
            cases h
            refine Or.inl ⟨rfl, attempt, _, Prod.ext hrun.1 rfl, ?_, rfl⟩
            rw [← hrun.2]
          next r s₁ _ hrun =>
            cases h
            exact Or.inr (Or.inl ⟨rfl, attempt, (congrArg Prod.snd hrun).symm, rfl⟩)
      | enqueue =>
          simp only [hstage] at h
          split at h
          next =>
            cases h
            refine Or.inr (Or.inr (Or.inr (Or.inr ?_)))
            simp [CronStage.beforeEnqueue]
          next =>
            cases h
            exact Or.inr (Or.inr (Or.inl ⟨rfl, rfl, rfl⟩))
      | overlapLock =>
          simp only [hstage] at h
          refine Or.inr (Or.inr (Or.inr (Or.inr ?_)))
          split at h
          next s₁ hrun =>
            cases h
            exact ⟨by simp, by simp, by simp, by simp [CronStage.beforeEnqueue], rfl,
              CronState.onOverlapLock_frame hrun⟩
          next r s₁ _ hrun =>
            cases h
            exact ⟨by simp, by simp, by simp, by simp [CronStage.beforeEnqueue], rfl,
              CronState.onOverlapLock_frame hrun⟩
      | cleanup =>
          simp only [hstage] at h
          refine Or.inr (Or.inr (Or.inr (Or.inr ?_)))
          split at h
          next =>
            cases h
            exact ⟨by simp, by simp, by simp, by simp [CronStage.beforeEnqueue], rfl, rfl⟩
          next =>
            cases h
            exact ⟨by simp, by simp, by simp, by simp [CronStage.beforeEnqueue], rfl, rfl⟩
      | _ =>
          -- the other commands are on Mongo
          refine Or.inr (Or.inr (Or.inr (Or.inr ?_)))
          simp only [hstage] at h
          repeat' split at h
          all_goals first
            | (cases h; simp [CronStage.beforeEnqueue])
            | cases h
  | renewFire attempt =>
      unfold CronStart.step at h
      simp only at h
      split at h
      next hrenewing =>
        cases h
        exact Or.inr (Or.inr (Or.inr (Or.inl ⟨hrenewing, rfl, attempt, rfl⟩)))
      next => cases h
  | renewOverlap attempt =>
      unfold CronStart.step at h
      simp only at h
      split at h
      next hrenewing =>
        cases h
        refine Or.inr (Or.inr (Or.inr (Or.inr ⟨?_, ?_, ?_, id, rfl, rfl⟩)))
        all_goals
          intro hstage
          simp [CronStart.renewing, hstage] at hrenewing
      next => cases h

/-! ## The invariant -/

/-- The fire lock of every acquisition is still set, for at least the timeout from its minute
on; no two acquisitions are for one lock; and every job is the only one of a call that has
acquired the lock for its tick. -/
structure CronState.Inv (cfg : CronConfig) (started : Nat) (s : CronState) : Prop where
  held : ∀ a ∈ s.acquisitions, (s.fireLocks (a.workflowId, a.fireTs)).HeldUntil
    (60 * a.fireTs + cfg.schedulerCronLockTimeout)
  unique : (s.acquisitions.map fun a => (a.workflowId, a.fireTs)).Nodup
  acquired : ∀ j ∈ s.jobs, ⟨j.workflowId, j.tick / 60, j.caller⟩ ∈ s.acquisitions
  callers : (s.jobs.map (·.caller)).Nodup
  started : ∀ j ∈ s.jobs, j.caller < started

/-- The fire lock of a call is named after its tick; the call has it once it has asked for it;
and it has no job before it enqueues one. -/
structure CronStart.Inv (s : CronState) (i : Nat) (p : CronStart) : Prop where
  tick_eq : p.tick = 60 * p.fireTs
  le_now : p.tick ≤ s.now
  acquired : p.stage ≠ .fireLock → p.stage ≠ .done →
    ⟨p.workflowId, p.fireTs, i⟩ ∈ s.acquisitions
  idle : p.stage.beforeEnqueue = true → ∀ j ∈ s.jobs, j.caller ≠ i

/-- A call is not disturbed by what the others do. -/
theorem CronStart.Inv.mono {s s' : CronState} {i : Nat} {p : CronStart} (h : p.Inv s i)
    (hnow : s.now ≤ s'.now) (hacq : ∀ a ∈ s.acquisitions, a ∈ s'.acquisitions)
    (hjobs : ∀ j ∈ s'.jobs, j.caller = i → j ∈ s.jobs) : p.Inv s' i where
  tick_eq := h.tick_eq
  le_now := Nat.le_trans h.le_now hnow
  acquired hne hdone := hacq _ (h.acquired hne hdone)
  idle hbefore j hj hcaller := h.idle hbefore j (hjobs j hj hcaller) hcaller

section
variable {cfg : CronConfig} {n i : Nat} {s s' : CronState} {p p' : CronStart}

theorem CronState.Inv.congr (h : s.Inv cfg n)
    (hframe : (s'.fireLocks, s'.jobs, s'.acquisitions) = (s.fireLocks, s.jobs, s.acquisitions)) :
    s'.Inv cfg n := by
  simp only [Prod.mk.injEq] at hframe
  obtain ⟨hlocks, hjobs, hacq⟩ := hframe
  constructor
  · simpa only [hacq, hlocks] using h.held
  · simpa only [hacq] using h.unique
  · simpa only [hacq, hjobs] using h.acquired
  · simpa only [hjobs] using h.callers
  · simpa only [hjobs] using h.started

theorem CronStart.Inv.congr (h : p.Inv s i) (hnow : s.now ≤ s'.now)
    (hframe : (s'.fireLocks, s'.jobs, s'.acquisitions) = (s.fireLocks, s.jobs, s.acquisitions)) :
    p.Inv s' i := by
  simp only [Prod.mk.injEq] at hframe
  obtain ⟨-, hjobs, hacq⟩ := hframe
  exact h.mono hnow (fun a ha => hacq ▸ ha) fun k hk _ => hjobs ▸ hk

/-- What happens around the calls leaves the fire locks and the jobs alone. -/
theorem CronEvent.apply_frame {e : CronEvent} (h : e.apply s = some s') :
    s.now ≤ s'.now ∧
      (s'.fireLocks, s'.jobs, s'.acquisitions) = (s.fireLocks, s.jobs, s.acquisitions) := by
  cases e with
  | tick now =>
      simp only [CronEvent.apply] at h
      split at h
      next hle =>
        cases h
        exact ⟨hle, rfl⟩
      next => cases h
  | workflows docs | executions docs | controls records =>
      cases h
      exact ⟨Nat.le_refl _, rfl⟩

/-- A command that keeps a held fire lock held leaves the invariant. -/
theorem CronState.Inv.onFireLock (h : s.Inv cfg n) {attempt : Attempt}
    {op : Key String → Bool × Key String}
    (hop : ∀ k : Key String, k.HeldUntil (60 * p.fireTs + cfg.schedulerCronLockTimeout) →
      (op k).2.HeldUntil (60 * p.fireTs + cfg.schedulerCronLockTimeout)) :
    (s.onFireLock p attempt op).2.Inv cfg n := by
  refine ⟨fun a ha => ?_, h.unique, h.acquired, h.callers, h.started⟩
  have hheld := h.held a ha
  obtain ⟨workflowId, fireTs, caller⟩ := a
  by_cases hkey : (workflowId, fireTs) = (p.workflowId, p.fireTs)
  · obtain ⟨rfl, rfl⟩ := Prod.mk.inj hkey
    simpa [CronState.onFireLock] using attempt.run_keeps hop hheld
  · simpa [CronState.onFireLock, Function.update_of_ne hkey] using hheld

/-- A fire lock that is asked for in time and found free has not been acquired before. -/
theorem CronState.Inv.not_acquired (h : s.Inv cfg n)
    (htimely : s.now < 60 * p.fireTs + cfg.schedulerCronLockTimeout)
    (hfree : (s.fireLocks (p.workflowId, p.fireTs)).live s.now = none) :
    ∀ a ∈ s.acquisitions, (a.workflowId, a.fireTs) ≠ (p.workflowId, p.fireTs) := by
  intro a ha hkey
  have hheld := h.held a ha
  rw [hkey, (Prod.mk.inj hkey).2] at hheld
  have hlive := hheld.live htimely
  obtain ⟨c, -, hc, -, -⟩ := hheld
  rw [hfree, hc] at hlive
  cases hlive

theorem CronState.Inv.acquire (h : s.Inv cfg n) (hp : p.Inv s i)
    (htimely : s.now < 60 * p.fireTs + cfg.schedulerCronLockTimeout) {attempt : Attempt}
    {k : Key String} (hrun : attempt.run (·.setNx s.now p.lockValue cfg.schedulerCronLockTimeout)
      (s.fireLocks (p.workflowId, p.fireTs)) = (some true, k)) :
    CronState.Inv cfg n { s with
      fireLocks := Function.update s.fireLocks (p.workflowId, p.fireTs) k
      acquisitions := ⟨p.workflowId, p.fireTs, i⟩ :: s.acquisitions } := by
  obtain ⟨hfree, hset⟩ := Attempt.run_setNx
    (Nat.lt_trans (by decide) cfg.lockTimeout_gt) hrun
  have hnew := h.not_acquired htimely hfree
  refine ⟨fun a ha => ?_, ?_, fun j hj => List.mem_cons_of_mem _ (h.acquired j hj),
    h.callers, h.started⟩
  · rcases List.mem_cons.mp ha with rfl | ha
    · have hle : 60 * p.fireTs ≤ s.now := hp.tick_eq ▸ hp.le_now
      obtain ⟨c, t, hk, hexp, hlt⟩ := hset
      exact ⟨c, t, by simpa using hk, hexp, Nat.le_trans (Nat.add_le_add_right hle _) hlt⟩
    · simpa [Function.update_of_ne (hnew a ha)] using h.held a ha
  · refine List.nodup_cons.mpr ⟨fun hmem => ?_, h.unique⟩
    obtain ⟨a, ha, hkey⟩ := List.mem_map.mp hmem
    exact hnew a ha hkey

theorem CronState.Inv.enqueue (h : s.Inv cfg n) (hp : p.Inv s i) (hi : i < n)
    (hstage : p.stage = .enqueue) :
    CronState.Inv cfg n
      { s with jobs := ⟨p.workflowId, p.executionId, p.tick, i⟩ :: s.jobs } := by
  have hacq := hp.acquired (by simp [hstage]) (by simp [hstage])
  have hts : p.tick / 60 = p.fireTs := by
    rw [hp.tick_eq]
    omega
  refine ⟨h.held, h.unique, fun j hj => ?_, ?_, fun j hj => ?_⟩
  · rcases List.mem_cons.mp hj with rfl | hj
    · simpa only [hts] using hacq
    · exact h.acquired j hj
  · refine List.nodup_cons.mpr ⟨fun hmem => ?_, h.callers⟩
    obtain ⟨j, hj, hcaller⟩ := List.mem_map.mp hmem
    exact hp.idle (by simp [hstage, CronStage.beforeEnqueue]) j hj hcaller
  · rcases List.mem_cons.mp hj with rfl | hj
    · exact hi
    · exact h.started j hj

/-- A step of a call that asks for its fire lock in time keeps the invariant, and the call's
own, and disturbs no other call. -/
theorem CronStart.Inv.step (h : s.Inv cfg n) (hp : p.Inv s i) (hi : i < n)
    (htimely : p.stage = .fireLock → s.now < p.tick + cfg.schedulerCronLockTimeout)
    {input : CronInput} (hstep : p.step cfg i input s = some (s', p')) :
    s'.Inv cfg n ∧ p'.Inv s' i ∧
      ∀ j q, j ≠ i → CronStart.Inv s j q → CronStart.Inv s' j q := by
  have hle : 60 * p.fireTs ≤ s.now := hp.tick_eq ▸ hp.le_now
  rcases CronStart.step_cases hstep with ⟨hstage, attempt, k, hrun, rfl, rfl⟩ |
    ⟨hstage, attempt, rfl, rfl⟩ | ⟨hstage, rfl, rfl⟩ | ⟨hrenewing, rfl, attempt, rfl⟩ |
    ⟨hfire, hdone, hfire', hbefore, hnames, hframe⟩
  · -- the fire lock is acquired, or refused, or its answer is lost; then the job, a renewal, or another step
    refine ⟨h.acquire hp (hp.tick_eq ▸ htimely hstage) hrun,
      ⟨hp.tick_eq, hp.le_now, fun _ _ => List.mem_cons_self, fun _ => hp.idle ?_⟩,
      fun j q _ hq => hq.mono (Nat.le_refl _) (fun a ha => List.mem_cons_of_mem _ ha)
        fun j hj _ => hj⟩
    simp [hstage, CronStage.beforeEnqueue]
  · refine ⟨h.onFireLock fun k hk => ?_, ⟨hp.tick_eq, hp.le_now, fun _ hne => absurd rfl hne,
      fun hbefore => by simp [CronStage.beforeEnqueue] at hbefore⟩,
      fun j q _ hq => hq.mono (Nat.le_refl _) (fun a ha => ha) fun j hj _ => hj⟩
    have htime := htimely hstage
    rw [hk.setNx (by rw [← hp.tick_eq]; exact htime)]
    exact hk
  · refine ⟨h.enqueue hp hi hstage, ⟨hp.tick_eq, hp.le_now, fun _ _ => ?_,
      fun hbefore => by simp [CronStage.beforeEnqueue] at hbefore⟩,
      fun j q hne hq => hq.mono (Nat.le_refl _) (fun a ha => ha) fun k hk hcaller => ?_⟩
    · exact hp.acquired (by simp [hstage]) (by simp [hstage])
    · rcases List.mem_cons.mp hk with rfl | hk
      · exact absurd hcaller.symm hne
      · exact hk
  · exact ⟨h.onFireLock fun k hk => hk.expireIfOwner (by omega),
      hp.mono (Nat.le_refl _) (fun a ha => ha) fun j hj _ => hj,
      fun j q _ hq => hq.mono (Nat.le_refl _) (fun a ha => ha) fun j hj _ => hj⟩
  · simp only [Prod.mk.injEq] at hnames
    obtain ⟨hwf, htick, hts⟩ := hnames
    obtain ⟨hnow, hframe⟩ := Prod.mk.inj hframe
    have hp' := hp.congr (Nat.le_of_eq hnow.symm) hframe
    refine ⟨h.congr hframe, ⟨?_, ?_, fun _ _ => ?_, fun hb => hp'.idle (hbefore hb)⟩,
      fun j q _ hq => hq.congr (Nat.le_of_eq hnow.symm) hframe⟩
    · simpa only [htick, hts] using hp.tick_eq
    · simpa only [htick] using hp'.le_now
    · simpa only [hwf, hts] using hp'.acquired hfire hdone

end

/-! ## Every run -/

/-- The run-long invariant: each move keeps it, if no call asks for its fire lock too late. -/
theorem cronSystem_invariant (cfg : CronConfig) :
    (cronSystem cfg).Invariant (Timely cfg) (fun n s => s.Inv cfg n) fun s i p => p.Inv s i where
  spawn {c x s p} hc _ hspawn := by
    obtain ⟨hs, hprocs⟩ := hc
    simp only [cronSystem, fire] at hspawn
    split at hspawn
    next hfire =>
      obtain ⟨htick, hle, hgrace⟩ := hfire
      have := cfg.graceTime_lt
      cases hspawn
      refine ⟨{ hs with started := fun j hj => Nat.lt_succ_of_lt (hs.started j hj) }, ?_, hprocs⟩
      exact {
        -- the minute of the start is the minute of the tick
        tick_eq := by simp only; omega
        le_now := hle
        acquired := fun hne => absurd rfl hne
        idle := fun _ j hj => Nat.ne_of_lt (hs.started j hj) }
    next => cases hspawn
  step {c i input p s p'} hc htimely hp hstep := by
    obtain ⟨hs, hprocs⟩ := hc
    obtain ⟨hs', hp', hothers⟩ := CronStart.Inv.step hs (hprocs i p hp) (Configuration.lt_of_proc hp)
      (htimely p hp) hstep
    exact ⟨hs', hp', fun j q hne hq => hothers j q hne (hprocs j q hq)⟩
  env {c e s} hc _ henv := by
    obtain ⟨hs, hprocs⟩ := hc
    obtain ⟨hnow, hframe⟩ := CronEvent.apply_frame henv
    exact ⟨hs.congr hframe, fun j q hq => (hprocs j q hq).congr hnow hframe⟩

theorem CronState.Fresh.inv {cfg : CronConfig} {s : CronState} (h : s.Fresh) (n : Nat) :
    s.Inv cfg n := by
  constructor <;> simp [h.acquisitions, h.jobs]

theorem CronState.Inv.atMostOnce {cfg : CronConfig} {n : Nat} {s : CronState} (h : s.Inv cfg n) :
    s.AtMostOnce := by
  intro workflowId tick
  -- two jobs of one tick are of the call that has acquired its fire lock
  have hsame : ∀ j ∈ s.jobsFor workflowId tick, ∀ k ∈ s.jobsFor workflowId tick, j = k := by
    intro j hj k hk
    obtain ⟨hj, hjfor⟩ := List.mem_filter.mp hj
    obtain ⟨hk, hkfor⟩ := List.mem_filter.mp hk
    simp only [decide_eq_true_eq] at hjfor hkfor
    have hacq := List.inj_on_of_nodup_map h.unique (h.acquired j hj) (h.acquired k hk)
      (by simp [hjfor, hkfor])
    exact List.inj_on_of_nodup_map h.callers hj hk (congrArg Acquisition.caller hacq)
  have hnodup : (s.jobsFor workflowId tick).Nodup := h.callers.of_map.filter _
  cases hjobs : s.jobsFor workflowId tick with
  | nil => exact Nat.zero_le 1
  | cons j jobs =>
      cases jobs with
      | nil => exact Nat.le_refl 1
      | cons k jobs =>
          rw [hjobs] at hsame hnodup
          refine absurd ?_ (List.nodup_cons.mp hnodup).1
          exact List.mem_cons.mpr (Or.inl (hsame j (by simp) k (by simp)))

/-- In every run in which no call asks for its fire lock later than
`SCHEDULER_CRON_LOCK_TIMEOUT` after its tick, every tick of every workflow gives at most one
job. -/
theorem CronState.Fresh.firesAtMostOnce {cfg : CronConfig} {s : CronState} (h : s.Fresh)
    {c : Configuration CronState CronStart} (hrun : (cronSystem cfg).Reaches (Timely cfg) ⟨s, []⟩ c) :
    c.shared.AtMostOnce := by
  have hinv : System.Inv (fun n s => s.Inv cfg n) (fun s i p => p.Inv s i)
      (⟨s, []⟩ : Configuration CronState CronStart) :=
    .of_start rfl (h.inv 0)
  exact (System.Reaches.inv (cronSystem_invariant cfg) hinv hrun).1.atMostOnce

/-- A call that asks for its fire lock within the misfire grace asks in time. -/
theorem timely_of_prompt (cfg : CronConfig) {now tick : Nat}
    (h : now ≤ tick + cfg.schedulerMisfireGraceTime) :
    now < tick + cfg.schedulerCronLockTimeout := by
  have := cfg.graceTime_lt
  have := cfg.lockTimeout_gt
  omega

/-! ### Two replicas start the same tick -/

def nightly : WorkflowDocument where
  workflowId := "nightly"
  status := .written .deployed
  schedule := { enabled := true, cronExpression := some "0 2 * * *" }

def nightlyState : CronState where
  now := 0
  workflows := [nightly]

def nightlyFire (replica : String) : Fire := ⟨"nightly", "", 0, replica, "run-" ++ replica⟩

/-- All commands of a call, each answered. -/
def throughout (i : Nat) : List (Move Fire CronInput CronEvent) :=
  List.replicate 8 (.step i (.next .answered))

/-- Both replicas start at the tick, and the first to ask for the lock enqueues. -/
def prompt : List (Move Fire CronInput CronEvent) :=
  [.spawn (nightlyFire "a"), .spawn (nightlyFire "b")] ++ throughout 1 ++
    [.step 0 (.next .answered)]

/-- The second replica asks when the run of the first has ended and its lock has run out. -/
def stalled : List (Move Fire CronInput CronEvent) :=
  [.spawn (nightlyFire "a"), .spawn (nightlyFire "b")] ++ throughout 0 ++
    [.env (.executions []), .env (.tick 3720)] ++ throughout 1

theorem nightlyState_fresh : nightlyState.Fresh := ⟨fun _ => rfl, rfl, rfl⟩

theorem prompt_atMostOnce : ∃ c,
    (cronSystem {}).play (Timely {}) prompt ⟨nightlyState, []⟩ = some c ∧
      c.shared.jobsFor "nightly" 0 = [⟨"nightly", "run-b", 0, 1⟩] ∧ c.shared.AtMostOnce := by
  have hjobs : ((cronSystem {}).play (Timely {}) prompt ⟨nightlyState, []⟩).map
      (fun c => c.shared.jobsFor "nightly" 0) = some [⟨"nightly", "run-b", 0, 1⟩] := by
    decide +kernel
  obtain ⟨c, hc, hjobs⟩ := Option.map_eq_some_iff.mp hjobs
  exact ⟨c, hc, hjobs, nightlyState_fresh.firesAtMostOnce (System.reaches_of_play hc)⟩

theorem stalled_firesTwice : ¬ ∀ (cfg : CronConfig) (s : CronState), s.Fresh →
    ∀ c, (cronSystem cfg).Reaches (fun _ _ => True) ⟨s, []⟩ c → c.shared.AtMostOnce := by
  intro hclaim
  have hjobs : ((cronSystem {}).play (fun _ _ => True) stalled ⟨nightlyState, []⟩).map
      (fun c => (c.shared.jobsFor "nightly" 0).length) = some 2 := by
    decide +kernel
  obtain ⟨c, hc, hjobs⟩ := Option.map_eq_some_iff.mp hjobs
  have hone := hclaim {} nightlyState nightlyState_fresh c (System.reaches_of_play hc)
    "nightly" 0
  omega

end CitraFlows
