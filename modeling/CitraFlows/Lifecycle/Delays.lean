-- SUMMARY: The delays by which jobs, attempts, decisions and sweeps go, what a step does to the stamps of the document, and what is left of an execution.
import CitraFlows.Lifecycle.Clocks

/-!
# Delays

`InTime` is a condition on delays: a job is begun within the grace after it was asked for, an
attempt ends within the execution timeout, a decision and a sweep end within the grace. What is
left of an execution, a job or a process that has one, was then asked for within the cutoff of
the reaper, and `Stamped` says that the document carries a stamp that is no older.
-/

namespace CitraFlows

open Processes

/-! ## Delays -/

/-- The process has taken up a job. -/
def Proc.working : Proc → Bool
  | .worker (.received _) | .worker (.executing ..) => true
  | _ => false

/-- The job that a worker has begun and not settled. -/
def Proc.attends : Proc → Option Nat
  | .worker (.executing job ..) | .worker (.settling job false) => some job
  | _ => none

/-- The job that a worker has, begun or not. -/
def Proc.job : Proc → Option Nat
  | .worker (.received job) => some job
  | .worker (.executing job ..) | .worker (.settling job false) => some job
  | _ => none

/-- A decision that has won its compare-and-set has a command left. -/
def Proc.deciding : Proc → Bool
  | .decision _ (.enqueue _) | .decision _ (.rollback _) => true
  | _ => false

/-- A sweep that has found the execution has a command left. -/
def Proc.reaping : Proc → Bool
  | .reaper _ (.act _) | .reaper _ (.enqueue _) | .reaper _ (.rollback _) => true
  | _ => false

def QueuedJob.resumes (j : QueuedJob) : Bool :=
  match j.payload with
  | .resume _ => true
  | .run _ _ => false

/-- A live worker attends to the job. -/
def attended (c : ClockedRun) (job : Nat) : Bool :=
  c.procs.any fun p => p.any (·.proc.attends = some job)

/-- The execution is being resumed: a job to resume it is not settled or a worker has it, or a
decision has still to enqueue one. -/
def resuming (c : ClockedRun) : Bool :=
  c.shared.state.jobs.any (fun j => j.resumes && !j.settled) ||
    c.procs.any fun p => p.any fun p => p.proc.deciding ||
      p.proc.job.any fun job => (c.shared.state.jobs[job]?).any QueuedJob.resumes

/-- The process keeps its delay at a moment: a job is begun within the grace after it was asked
for, an attempt ends within the execution timeout, and a decision and a sweep within the grace. -/
def ClockedProc.prompt (cfg : LifecycleConfig) (asked : Nat → Nat) (now : Nat) (p : ClockedProc) :
    Bool :=
  match p.proc with
  | .worker (.received job) => now ≤ asked job + cfg.stuckExecutionGraceSeconds
  | .worker (.executing ..) | .worker (.settling _ false) =>
      now ≤ p.began + cfg.executionTimeoutSeconds
  | q => (!q.deciding && !q.sweeping) || now ≤ p.began + cfg.stuckExecutionGraceSeconds

/-- Nor does a job wait for longer than the grace while nobody attends to it. -/
def ClockedRun.prompt (cfg : LifecycleConfig) (c : ClockedRun) (now : Nat) : Bool :=
  (c.procs.all fun p => p.all (·.prompt cfg c.shared.asked now)) &&
    c.shared.state.jobs.zipIdx.all fun (j, job) =>
      j.settled || attended c job || now ≤ c.shared.asked job + cfg.stuckExecutionGraceSeconds

/-- Jobs are picked up, attempts end, and decisions and sweeps are over in time; sweeps do not
overlap; no attempt writes a checkpoint while the execution is being resumed; and a crash-resume
whose enqueue has failed is not in the queue. -/
def InTime (cfg : LifecycleConfig) (c : ClockedRun) : LifecycleMove → Bool
  | .env (.tick now) => c.prompt cfg now
  | .spawn (.deliver job) =>
      c.shared.state.now ≤ c.shared.asked job + cfg.stuckExecutionGraceSeconds
  | .spawn .reap => c.procs.all fun p => p.all fun p => !p.proc.sweeping
  | .step i (.act w) =>
      match c.proc i with
      | some ⟨.worker (.executing _ _ (.event (.save r) :: _) _), _⟩ =>
          r.status ≠ .running || !w.ran || !resuming c
      | some ⟨.reaper _ (.enqueue _), _⟩ => !w.ran || w.ok
      | _ => true
  | _ => true

/-! ## What a step does -/

/-- The status, the start and the resumption of the document are as they were. -/
structure SameStamps (s s' : Lifecycle) : Prop where
  now : s'.now = s.now
  status : s'.doc.status = s.doc.status
  startedAt : s'.doc.record.startedAt = s.doc.record.startedAt
  resumedAt : s'.doc.resumedAt = s.doc.resumedAt

/-- No job was added, and a settled one is still settled. -/
structure JobsKept (s s' : Lifecycle) : Prop where
  length : s'.jobs.length = s.jobs.length
  kept : ∀ (job : Nat) (j' : QueuedJob), s'.jobs[job]? = some j' → ∃ j, s.jobs[job]? = some j ∧
    (j.settled = true → j'.settled = true) ∧ j'.resumes = j.resumes

/-- The reaper looks for documents of this status. -/
def StoredStatus.reapable : StoredStatus → Bool
  | .queued | .written .running | .written .resuming => true
  | _ => false

/-- What a step of anything but the reaper does: it saves a record, it ends or pauses the
execution, it accepts a decision, it enqueues a job, or it leaves the clocks as they are. -/
inductive StepEffect (s : Lifecycle) : Proc → Input → Lifecycle → Proc → Prop where
  | idle {q q' : Proc} {input : Input} {s' : Lifecycle} (stamps : SameStamps s s')
      (jobs : JobsKept s s') (job : q'.job = none ∨ q'.job = q.job)
      (deciding : q'.deciding = true → q.deciding = true) :
      StepEffect s q input s' q'
  | save {job : Nat} {timed : Bool} {r : WorkflowExecution} {plan : List WorkerAction}
      {last last' : Option WorkflowExecution} {w : Write} (ran : w.ran = true) :
      StepEffect s (.worker (.executing job timed (.event (.save r) :: plan) last)) (.act w)
        { s with doc := s.doc.save r } (.worker (.executing job timed plan last'))
  | close {q q' : Proc} {input : Input} {doc : ExecutionDocument} {accepted : List AcceptedDecision}
      (closed : doc.status.reapable = false)
      (startedAt : doc.record.startedAt = s.doc.record.startedAt)
      (paused : s.doc.status.reapable = false ∨ q.deciding = true) (job : q'.job = none)
      (deciding : q'.deciding = false) :
      StepEffect s q input { s with doc, accepted } q'
  | accept {approved : Bool} {q' : Proc} {input : Input} {doc : ExecutionDocument}
      {accepted : List AcceptedDecision} (paused : s.doc.status.reapable = false)
      (resuming : doc.status = .written .resuming) (resumedAt : doc.resumedAt = some s.now)
      (startedAt : doc.record.startedAt = s.doc.record.startedAt) (job : q'.job = none) :
      StepEffect s (.decision approved .cas) input { s with doc, accepted } q'
  | ask {q q' : Proc} {input : Input} {approved : Bool} (deciding : q.deciding = true)
      (job : q'.job = none) :
      StepEffect s q input (s.enqueue (.resume approved)) q'

theorem JobsKept.of_eq {s s' : Lifecycle} (h : s'.jobs = s.jobs) : JobsKept s s' :=
  ⟨by rw [h], fun _ j' hj' => ⟨j', h ▸ hj', fun hsettled => hsettled, rfl⟩⟩

theorem Worker.settle_resumes (cfg : LifecycleConfig) (failed : Bool) (j : QueuedJob) :
    (Worker.settle cfg failed j).resumes = j.resumes := by
  simp [QueuedJob.resumes]

theorem JobsKept.modify {s : Lifecycle} {job : Nat} {f : QueuedJob → QueuedJob}
    (hsettled : ∀ j, j.settled = true → (f j).settled = true)
    (hresumes : ∀ j, (f j).resumes = j.resumes) :
    JobsKept s { s with jobs := s.jobs.modify job f } := by
  refine ⟨List.length_modify _ _ _, fun k j' hj' => ?_⟩
  simp only [List.getElem?_modify] at hj'
  obtain ⟨j, hj, rfl⟩ := Option.map_eq_some_iff.mp hj'
  refine ⟨j, hj, ?_⟩
  split
  · exact ⟨hsettled j, hresumes j⟩
  · exact ⟨fun h => h, rfl⟩

section
variable {cfg : LifecycleConfig} {i started : Nat} {input : Input} {w : Write} {s s' : Lifecycle}
  {q q' : Proc}

theorem StepEffect.same (hdoc : SameStamps s s') (hjobs : s'.jobs = s.jobs)
    (hjob : q'.job = none ∨ q'.job = q.job) (hdeciding : q'.deciding = true → q.deciding = true) :
    StepEffect s q input s' q' :=
  .idle hdoc (.of_eq hjobs) hjob hdeciding

/-- A step after which the process has neither a job nor a decision to carry out. -/
theorem StepEffect.stays (hdoc : SameStamps s s') (hjobs : s'.jobs = s.jobs)
    (hjob : q'.job = none) (hdeciding : q'.deciding = false) : StepEffect s q input s' q' :=
  .same hdoc hjobs (Or.inl hjob) fun h => by simp [hdeciding] at h

theorem WorkerStep.effect {stage stage' : Worker} (h : WorkerStep cfg i s stage input s' stage') :
    StepEffect s (.worker stage) input s' (.worker stage') := by
  cases h with
  | begin env hbegins => cases hbegins <;> exact .same ⟨rfl, rfl, rfl, rfl⟩ rfl (Or.inr rfl) id
  | refuse input => exact .same ⟨rfl, rfl, rfl, rfl⟩ rfl (Or.inl rfl) id
  | act w h =>
      cases act_cases h with
      | ran ctx r | asked request hran | quiet a flag ha =>
          exact .same ⟨rfl, rfl, rfl, rfl⟩ rfl (Or.inr rfl) id
      | saved r hran => exact .save hran
  | interrupt ha hr hstatus => exact .same ⟨rfl, rfl, rfl, rfl⟩ rfl (Or.inr rfl) id
  | finish w => exact .same ⟨rfl, rfl, rfl, rfl⟩ rfl (Or.inr rfl) id
  | settle w =>
      split
      · exact .idle ⟨rfl, rfl, rfl, rfl⟩
          (.modify (fun _ => Worker.settle_settled) (Worker.settle_resumes cfg _)) (Or.inl rfl) id
      · exact .same ⟨rfl, rfl, rfl, rfl⟩ rfl (Or.inl rfl) id

theorem DecisionStage.effect {approved : Bool} {stage stage' : DecisionStage}
    (h : stage.step approved w s = some (s', stage')) :
    StepEffect s (.decision approved stage) (.act w) s' (.decision approved stage') := by
  have hpaused : s.hits (.written .paused) = true → s.doc.status.reapable = false := by
    intro hhits
    rw [of_decide_eq_true hhits]
    rfl
  cases stage with
  | read =>
      cases h
      refine .same ⟨rfl, rfl, rfl, rfl⟩ rfl (Or.inl rfl) fun hdeciding => ?_
      split at hdeciding <;> cases hdeciding
  | cas =>
      simp only [DecisionStage.step] at h
      split at h <;> cases h
      next hhits =>
        cases w with
        | done => exact .accept (hpaused hhits) rfl rfl rfl rfl
        | failed ran =>
            cases ran with
            | true => exact .accept (hpaused hhits) rfl rfl rfl rfl
            | false =>
                exact .stays ⟨rfl, rfl, rfl, rfl⟩ rfl rfl rfl
      next =>
        exact .stays ⟨rfl, rfl, rfl, rfl⟩ rfl rfl rfl
  | enqueue approvalId =>
      cases h
      split
      · exact .ask rfl rfl
      · exact .same ⟨rfl, rfl, rfl, rfl⟩ rfl (Or.inl rfl) fun _ => rfl
  | rollback approvalId =>
      cases h
      split
      · exact .close rfl rfl (Or.inr rfl) rfl rfl
      · exact .same ⟨rfl, rfl, rfl, rfl⟩ rfl (Or.inl rfl) fun _ => rfl
  | done => cases h

theorem CancelStage.effect {stage stage' : CancelStage}
    (h : stage.step cfg w s = some (s', stage')) :
    StepEffect s (.cancel stage) (.act w) s' (.cancel stage') := by
  cases stage with
  | read =>
      cases h
      exact .stays ⟨rfl, rfl, rfl, rfl⟩ rfl rfl rfl
  | mark status | flag status | cleanup =>
      cases h
      split <;> exact .stays ⟨rfl, rfl, rfl, rfl⟩ rfl rfl rfl
  | cas =>
      simp only [CancelStage.step] at h
      split at h <;> cases h
      next hhits =>
        split
        · refine .close rfl rfl (Or.inl ?_) rfl rfl
          rw [of_decide_eq_true hhits]
          rfl
        · exact .stays ⟨rfl, rfl, rfl, rfl⟩ rfl rfl rfl
      next =>
        exact .stays ⟨rfl, rfl, rfl, rfl⟩ rfl rfl rfl
  | done => cases h

theorem SweepStage.effect {stage stage' : SweepStage}
    (h : stage.step started w s = some (s', stage')) :
    StepEffect s (.approvalSweep started stage) (.act w) s' (.approvalSweep started stage') := by
  cases stage with
  | read =>
      cases h
      exact .stays ⟨rfl, rfl, rfl, rfl⟩ rfl rfl rfl
  | mark pending =>
      cases pending with
      | nil =>
          cases h
          exact .stays ⟨rfl, rfl, rfl, rfl⟩ rfl rfl rfl
      | cons a pending =>
          cases h
          split <;> exact .stays ⟨rfl, rfl, rfl, rfl⟩ rfl rfl rfl
  | fail a pending =>
      cases h
      split
      next hfails =>
        refine .close rfl rfl (Or.inl ?_) rfl rfl
        rw [of_decide_eq_true hfails.2.2]
        rfl
      next => exact .stays ⟨rfl, rfl, rfl, rfl⟩ rfl rfl rfl
  | done => cases h

end

/-! ## What is left of an execution -/

/-- The process has something of the execution that was asked for at the moment `b`. -/
def ClockedProc.Has (asked : Nat → Nat) (p : ClockedProc) (b : Nat) : Prop :=
  (∃ job, p.proc.job = some job ∧ asked job = b) ∨ p.proc.deciding = true ∧ p.began = b

/-- Something of the execution is left that was asked for at the moment `b`: a job that is not
settled, or what a process has. -/
def Left (c : ClockedRun) (b : Nat) : Prop :=
  (∃ (job : Nat) (j : QueuedJob), c.shared.state.jobs[job]? = some j ∧ j.settled = false ∧
      c.shared.asked job = b) ∨
    ∃ i p, c.proc i = some p ∧ p.Has c.shared.asked b

def LifecycleConfig.cutoff (cfg : LifecycleConfig) : Nat :=
  cfg.executionTimeoutSeconds + cfg.stuckExecutionGraceSeconds

/-- What is left was asked for within the cutoff, and no later than the moment by which the reaper
goes. -/
structure Stamped (cfg : LifecycleConfig) (submitted : Nat) (s : Lifecycle) (left : Nat → Prop) :
    Prop where
  started : submitted ≤ s.doc.record.startedAt
  past : ∀ b, left b → b ≤ s.now
  due : ∀ b, left b → s.now ≤ b + cfg.cutoff
  running : s.doc.status = .queued ∨ s.doc.status = .written .running →
    ∀ b, left b → b ≤ s.doc.record.startedAt
  resuming : s.doc.status = .written .resuming →
    ∀ b, left b → ∃ resumedAt, s.doc.resumedAt = some resumedAt ∧ b ≤ resumedAt

/-- Of an execution that the reaper takes for stuck nothing is left. -/
theorem Stamped.nothing_left {cfg : LifecycleConfig} {submitted : Nat} {s : Lifecycle}
    {left : Nat → Prop} (h : Stamped cfg submitted s left) (hstuck : s.doc.stuck cfg s.now = true)
    (b : Nat) : ¬left b := by
  intro hb
  have hdue := h.due b hb
  unfold LifecycleConfig.cutoff at hdue
  unfold ExecutionDocument.stuck at hstuck
  split at hstuck
  next hstatus =>
    have := h.running (Or.inl hstatus) b hb
    simp only [decide_eq_true_eq] at hstuck
    omega
  next hstatus =>
    have := h.running (Or.inr hstatus) b hb
    simp only [decide_eq_true_eq] at hstuck
    omega
  next hstatus =>
    obtain ⟨resumedAt, hresumed, hle⟩ := h.resuming hstatus b hb
    simp only [hresumed, Option.any_some, decide_eq_true_eq] at hstuck
    omega
  next => cases hstuck

/-- The records that a worker may save. -/
def Proc.records : Proc → List WorkflowExecution
  | .worker (.executing _ _ plan last) => plan.filterMap WorkerAction.saved ++ last.toList
  | _ => []

/-- What is known of a process by its clock. -/
structure ClockedProc.Follows (cfg : LifecycleConfig) (submitted : Nat) (s : Clocked)
    (p : ClockedProc) : Prop where
  job : ∀ job, p.proc.job = some job → job < s.state.jobs.length
  received : ∀ job, p.proc = .worker (.received job) →
    s.state.now ≤ s.asked job + cfg.stuckExecutionGraceSeconds
  attends : ∀ job, p.proc.attends = some job →
    p.began ≤ s.asked job + cfg.stuckExecutionGraceSeconds
  records : ∀ r ∈ p.proc.records, submitted ≤ r.startedAt ∧ r.status ≠ .resuming
  sweep : ∀ started stage, p.proc = .reaper started stage →
    p.began = started ∧ submitted ≤ started ∧ started ≤ s.state.now
  sweeping : p.proc.sweeping = true → s.state.now ≤ p.began + cfg.stuckExecutionGraceSeconds

/-- While a sweep acts on the execution, nothing is left of it. -/
structure Quiet (c : ClockedRun) (p : ClockedProc) : Prop where
  left : ∀ b, ¬Left c b
  reapable : c.shared.state.doc.status.reapable = true
  resumed : (∀ started snap, p.proc ≠ .reaper started (.act snap)) →
    c.shared.state.doc.status = .written .resuming ∧
      c.shared.state.doc.resumedAt = some p.began

/-- Nothing is left of the execution when the reaper has found it. -/
structure ReaperInv (cfg : LifecycleConfig) (submitted : Nat) (c : ClockedRun) : Prop where
  begun : submitted ≤ c.shared.state.now
  runs : ∀ (job : Nat) (j : QueuedJob), c.shared.state.jobs[job]? = some j → j.resumes = false →
    c.shared.asked job ≤ submitted
  stamped : Stamped cfg submitted c.shared.state (Left c)
  follows : ∀ i p, c.proc i = some p → p.Follows cfg submitted c.shared
  alone : c.AtMostOne fun p => p.proc.sweeping
  quiet : ∀ i p, c.proc i = some p → p.proc.reaping = true → Quiet c p

theorem sweeping_of_reaping {p : Proc} (h : p.reaping = true) : p.sweeping = true := by
  cases p with
  | reaper started stage => cases stage <;> first | rfl | cases h
  | worker stage => cases h
  | decision approved stage => cases h
  | cancel stage => cases h
  | approvalSweep started stage => cases h

theorem job_of_attends {p : Proc} {job : Nat} (h : p.attends = some job) : p.job = some job := by
  cases p with
  | worker stage =>
      cases stage with
      | executing job timed plan last => exact h
      | settling job failed =>
          cases failed with
          | false => exact h
          | true => cases h
      | received job => cases h
      | done => cases h
  | reaper started stage => cases h
  | decision approved stage => cases h
  | cancel stage => cases h
  | approvalSweep started stage => cases h

section
variable {cfg : LifecycleConfig} {submitted : Nat} {s s' : Lifecycle} {left left' : Nat → Prop}

theorem Stamped.mono (h : Stamped cfg submitted s left) (hle : ∀ b, left' b → left b) :
    Stamped cfg submitted s left' where
  started := h.started
  past b hb := h.past b (hle b hb)
  due b hb := h.due b (hle b hb)
  running hstatus b hb := h.running hstatus b (hle b hb)
  resuming hstatus b hb := h.resuming hstatus b (hle b hb)

theorem Stamped.same (h : Stamped cfg submitted s left) (hstamps : SameStamps s s') :
    Stamped cfg submitted s' left where
  started := hstamps.startedAt ▸ h.started
  past b hb := hstamps.now ▸ h.past b hb
  due b hb := hstamps.now ▸ h.due b hb
  running hstatus b hb := by
    rw [hstamps.status] at hstatus
    rw [hstamps.startedAt]
    exact h.running hstatus b hb
  resuming hstatus b hb := by
    rw [hstamps.status] at hstatus
    rw [hstamps.resumedAt]
    exact h.resuming hstatus b hb

/-- A document that the reaper does not look for. -/
theorem Stamped.closed (h : Stamped cfg submitted s left) (hnow : s'.now = s.now)
    (hclosed : s'.doc.status.reapable = false) (hstarted : submitted ≤ s'.doc.record.startedAt) :
    Stamped cfg submitted s' left where
  started := hstarted
  past b hb := hnow ▸ h.past b hb
  due b hb := hnow ▸ h.due b hb
  running hstatus b hb := by
    rcases hstatus with hstatus | hstatus <;> simp [hstatus, StoredStatus.reapable] at hclosed
  resuming hstatus b hb := by simp [hstatus, StoredStatus.reapable] at hclosed

/-- Where nothing is left the document may be any. -/
theorem Stamped.of_nothing (hstarted : submitted ≤ s.doc.record.startedAt)
    (h : ∀ b, ¬left b) : Stamped cfg submitted s left where
  started := hstarted
  past b hb := absurd hb (h b)
  due b hb := absurd hb (h b)
  running _ b hb := absurd hb (h b)
  resuming _ b hb := absurd hb (h b)

end

/-! ## After a step -/

/-- The run after a step of a process. -/
def ClockedRun.after (c : ClockedRun) (i : Nat) (p : ClockedProc) (s' : Lifecycle) (q' : Proc) :
    ClockedRun :=
  ⟨c.shared.move p s', c.procs.set i (some (p.move c.shared.state.now q'))⟩

theorem begins_of_deciding {q : Proc} (h : q.deciding = true) : q.begins = false := by
  cases q with
  | decision approved stage =>
      cases stage with
      | enqueue approvalId | rollback approvalId => rfl
      | read | cas | done => cases h
  | worker stage | cancel stage | reaper started stage | approvalSweep started stage => cases h

/-- No job was added, or one to resume the execution. -/
def JobsMoved (s s' : Lifecycle) : Prop :=
  JobsKept s s' ∨ ∃ approved, s'.jobs = s.jobs ++ [{ payload := .resume approved }]

theorem JobsMoved.length_le {s s' : Lifecycle} (h : JobsMoved s s') :
    s.jobs.length ≤ s'.jobs.length := by
  rcases h with hkept | ⟨approved, happend⟩
  · exact Nat.le_of_eq hkept.length.symm
  · simp [happend]

theorem StepEffect.moves {s s' : Lifecycle} {q q' : Proc} {input : Input}
    (h : StepEffect s q input s' q') :
    s'.now = s.now ∧ JobsMoved s s' := by
  cases h with
  | idle stamps jobs => exact ⟨stamps.now, Or.inl jobs⟩
  | save | close | accept => exact ⟨rfl, Or.inl (.of_eq rfl)⟩
  | ask => exact ⟨rfl, Or.inr ⟨_, rfl⟩⟩

theorem ReaperStage.moves {cfg : LifecycleConfig} {started : Nat} {w : Write} {s s' : Lifecycle}
    {stage stage' : ReaperStage} (h : stage.step cfg started w s = some (s', stage')) :
    s'.now = s.now ∧ JobsMoved s s' := by
  refine ⟨(ReaperStage.undecided h).now, ?_⟩
  cases stage with
  | read =>
      cases h
      exact Or.inl (.of_eq rfl)
  | act snap =>
      simp only [ReaperStage.step] at h
      split at h <;> cases h
      · split <;> exact Or.inl (.of_eq rfl)
      · exact Or.inl (.of_eq rfl)
  | enqueue snap =>
      cases h
      split
      · exact Or.inr ⟨true, rfl⟩
      · exact Or.inl (.of_eq rfl)
  | rollback snap =>
      cases h
      split <;> exact Or.inl (.of_eq rfl)
  | done => cases h

theorem ReaperStage.step_sweeping {cfg : LifecycleConfig} {started : Nat} {w : Write}
    {s s' : Lifecycle} {stage stage' : ReaperStage}
    (h : stage.step cfg started w s = some (s', stage')) :
    (Proc.reaper started stage).sweeping = true := by
  cases stage with
  | done => cases h
  | read | act snap | enqueue snap | rollback snap => rfl

/-- A step is one of the reaper, or what another process does. -/
theorem ProcStep.effect {cfg : LifecycleConfig} {i : Nat} {input : Input} {s s' : Lifecycle}
    {q q' : Proc} (h : ProcStep cfg i s q input s' q') :
    StepEffect s q input s' q' ∧ q'.sweeping = false ∨
      ∃ started w stage stage', q = .reaper started stage ∧ input = .act w ∧
        q' = .reaper started stage' ∧ stage.step cfg started w s = some (s', stage') := by
  cases h with
  | worker hstep => exact Or.inl ⟨hstep.effect, rfl⟩
  | decision w hstep => exact Or.inl ⟨DecisionStage.effect hstep, rfl⟩
  | cancel w hstep => exact Or.inl ⟨CancelStage.effect hstep, rfl⟩
  | approvalSweep w hstep => exact Or.inl ⟨SweepStage.effect hstep, rfl⟩
  | reaper w hstep => exact Or.inr ⟨_, w, _, _, rfl, rfl, rfl, hstep⟩

theorem ProcStep.moves {cfg : LifecycleConfig} {i : Nat} {input : Input} {s s' : Lifecycle}
    {q q' : Proc} (h : ProcStep cfg i s q input s' q') : s'.now = s.now ∧ JobsMoved s s' := by
  rcases h.effect with ⟨heffect, -⟩ | ⟨started, w, stage, stage', rfl, rfl, rfl, hstep⟩
  · exact heffect.moves
  · exact ReaperStage.moves hstep

section
variable {cfg : LifecycleConfig} {submitted b i : Nat} {c : ClockedRun} {p : ClockedProc}
  {s' : Lifecycle} {q' : Proc}

/-- What is left after a step: a job, what the process has now, or what was left before. -/
theorem Left.after (h : Left (ClockedRun.after c i p s' q') b)
    (hc : ∀ j p, c.proc j = some p → p.Follows cfg submitted c.shared) :
    (∃ (job : Nat) (j : QueuedJob), s'.jobs[job]? = some j ∧ j.settled = false ∧
      (c.shared.move p s').asked job = b) ∨
    (p.move c.shared.state.now q').Has (c.shared.move p s').asked b ∨ Left c b := by
  rcases h with hjob | ⟨j, q, hq, hhas⟩
  · exact Or.inl hjob
  · right
    rcases Configuration.proc_set (g := c.shared) hq with ⟨rfl, heq⟩ | ⟨-, hold⟩
    · cases heq
      exact Or.inl hhas
    · refine Or.inr (Or.inr ⟨j, q, hold, hhas.imp_left ?_⟩)
      rintro ⟨job, hjob, rfl⟩
      exact ⟨job, hjob, (Clocked.move_asked ((hc j q hold).job job hjob)).symm⟩

/-- An open job of the ones that were kept. -/
theorem JobsKept.left (hjobs : JobsKept c.shared.state s') {job : Nat} {j : QueuedJob}
    (hj : s'.jobs[job]? = some j) (hopen : j.settled = false) :
    Left c ((c.shared.move p s').asked job) := by
  obtain ⟨j₀, hj₀, hsettled, -⟩ := hjobs.kept job j hj
  refine Or.inl ⟨job, j₀, hj₀, Bool.eq_false_iff.mpr fun h => ?_, ?_⟩
  · simp [hsettled h] at hopen
  · rw [Clocked.move_of_length hjobs.length]

/-- Where no job was added and the process has taken up nothing, nothing new is left. -/
theorem Left.kept (h : Left (ClockedRun.after c i p s' q') b)
    (hc : ∀ j p, c.proc j = some p → p.Follows cfg submitted c.shared) (hp : c.proc i = some p)
    (hjobs : JobsKept c.shared.state s') (hjob : q'.job = none ∨ q'.job = p.proc.job)
    (hdeciding : q'.deciding = true → p.proc.deciding = true) : Left c b := by
  rcases h.after hc with ⟨job, j, hj, hopen, rfl⟩ | hhas | hleft
  · exact hjobs.left hj hopen
  · refine Or.inr ⟨i, p, hp, ?_⟩
    rcases hhas with ⟨job, hq, rfl⟩ | ⟨hq, rfl⟩
    · rcases hjob with hnone | hsame
      · simp [ClockedProc.move, hnone] at hq
      · refine Or.inl ⟨job, hsame ▸ hq, ?_⟩
        rw [Clocked.move_of_length hjobs.length]
    · have hold := hdeciding hq
      refine Or.inr ⟨hold, ?_⟩
      simp [ClockedProc.move, begins_of_deciding hold]
  · exact hleft

/-- The process goes on by its clock, whatever another one does. -/
theorem ClockedProc.Follows.other {q : ClockedProc} (h : q.Follows cfg submitted c.shared)
    (hnow : s'.now = c.shared.state.now) (hjobs : JobsMoved c.shared.state s') :
    q.Follows cfg submitted (c.shared.move p s') where
  job job hjob := (h.job job hjob).trans_le hjobs.length_le
  received job hjob := by
    have hlt : job < c.shared.state.jobs.length := h.job job (by rw [hjob]; rfl)
    have hreceived := h.received job hjob
    rwa [Clocked.move_asked hlt, show (c.shared.move p s').state.now = _ from hnow]
  attends job hjob := by
    rw [Clocked.move_asked (h.job job (job_of_attends hjob))]
    exact h.attends job hjob
  records := h.records
  sweep started stage hstage := by
    rw [show (c.shared.move p s').state.now = _ from hnow]
    exact h.sweep started stage hstage
  sweeping hsweeping := by
    rw [show (c.shared.move p s').state.now = _ from hnow]
    exact h.sweeping hsweeping

/-- A process that is neither a worker with a job nor a sweep has no clock to follow. -/
theorem ClockedProc.Follows.free {s : Clocked} {q : ClockedProc} (hjob : q.proc.job = none)
    (hrecords : q.proc.records = []) (hreaper : ∀ started stage, q.proc ≠ .reaper started stage) :
    q.Follows cfg submitted s where
  job job h := by simp [hjob] at h
  received job h := by simp [h, Proc.job] at hjob
  attends job h := by simp [job_of_attends h] at hjob
  records r hr := by simp [hrecords] at hr
  sweep started stage h := absurd h (hreaper started stage)
  sweeping h := by
    obtain ⟨proc, began⟩ := q
    cases proc with
    | reaper started stage => exact absurd rfl (hreaper started stage)
    | worker stage | decision approved stage | cancel stage | approvalSweep started stage => cases h

end

end CitraFlows
