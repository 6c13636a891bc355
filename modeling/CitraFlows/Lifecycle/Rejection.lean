-- SUMMARY: When a rejection is final: no approval of the execution is outstanding when it is accepted, and no crash-resume overrules it.
import CitraFlows.Lifecycle.Resumption

/-!
# Rejections

The decision of a human travels in the job. The document keeps a copy of it, `resume_decision`,
which nobody reads: the reaper resumes a stuck execution as approved, and an approving job that
is still about finds the execution resuming like the rejecting one. `RejectsAlone` says of a run
that neither happens, and that the enqueue of a rejection gets through.
-/

namespace CitraFlows

open Processes

/-! ## Who may overrule a rejection -/

def QueuedJob.rejects (j : QueuedJob) : Bool :=
  match j.payload with
  | .resume false => true
  | _ => false

def Lifecycle.rejectsJob (s : Lifecycle) (job : Nat) : Bool := (s.jobs[job]?).any QueuedJob.rejects

/-- The command runs a node, or saves a status that a run may go on from. -/
def WorkerAction.revives : WorkerAction → Bool
  | .event (.run _ _) => true
  | .event (.save r) => !r.status.terminal
  | _ => false

/-- The process acts for another decision, or is about to undo one. -/
def Proc.overrules (s : Lifecycle) : Proc → Bool
  | .worker (.received job) => !s.rejectsJob job
  | .worker (.executing _ _ plan _) => plan.any WorkerAction.revives
  | .decision approved (.enqueue _) => approved
  | .decision _ (.rollback _) => true
  | .reaper _ (.enqueue _) | .reaper _ (.rollback _) => true
  | _ => false

/-- A rejection is accepted only while nobody acts for another decision and no other job is in
the queue, its enqueue gets through, and the reaper does not resume what was rejected. -/
def RejectsAlone (cfg : LifecycleConfig) (c : LifecycleRun) : LifecycleMove → Bool
  | .step i (.act w) =>
      match c.proc i with
      | some (.decision false .cas) =>
          !w.ran || !c.shared.hits (.written .paused) ||
            c.others i (!·.overrules c.shared) && c.shared.jobs.all fun j => j.settled || j.rejects
      | some (.decision false (.enqueue _)) => w.ok
      | some (.reaper _ (.act snap)) =>
          c.shared.doc.resumeDecision ≠ some .rejected || snap.verdict cfg ≠ .crashResume ||
            !c.shared.hits snap.status
      | _ => true
  | _ => true

/-- A rejection was accepted. -/
def Lifecycle.rejected (s : Lifecycle) : Bool := s.accepted.any (!·.approved)

/-- The resumes that were processed as approved. -/
def Lifecycle.approvedResumes (s : Lifecycle) : List Bool := s.resumed.filter id

/-! ## After a rejection -/

/-- Nothing in the shared state leads back from a rejection. -/
structure RejectionStands (s : Lifecycle) : Prop where
  status : s.hits (.written .paused) = false
  decision : s.doc.resumeDecision = some .rejected
  jobs : ∀ j ∈ s.jobs, j.settled = true ∨ j.rejects = true

/-- A step after a rejection: it still stands, and nothing was resumed or run. -/
structure KeepsRejection (s s' : Lifecycle) (p' : Proc) : Prop where
  stands : RejectionStands s'
  self : p'.overrules s' = false
  accepted : s'.accepted = s.accepted
  runs : s'.runs = s.runs
  resumes : s'.approvedResumes = s.approvedResumes
  jobs : ∀ job, s.rejectsJob job = true → s'.rejectsJob job = true

section
variable {cfg : LifecycleConfig} {i started : Nat} {input : Input} {w : Write}
  {s s' : Lifecycle} {p p' : Proc}

theorem Proc.overrules_mono (hjobs : ∀ job, s.rejectsJob job = true → s'.rejectsJob job = true)
    (h : p.overrules s = false) : p.overrules s' = false := by
  cases p with
  | worker stage =>
      cases stage with
      | received job =>
          simp only [Proc.overrules, Bool.not_eq_false'] at h ⊢
          exact hjobs job h
      | executing job timed plan last | settling job failed | done => exact h
  | decision approved stage | reaper started stage => cases stage <;> exact h
  | cancel stage | approvalSweep started stage => exact h

/-- A step that leaves the queue and the logs alone, and does not pause the execution. -/
theorem KeepsRejection.quiet (hs : RejectionStands s)
    (hopen : s'.hits (.written .paused) = false)
    (hdecision : s'.doc.resumeDecision = s.doc.resumeDecision) (hjobs : s'.jobs = s.jobs)
    (haccepted : s'.accepted = s.accepted) (huntouched : Untouched s s')
    (hself : p'.overrules s = false) : KeepsRejection s s' p' := by
  have hmono : ∀ job, s.rejectsJob job = true → s'.rejectsJob job = true := fun job h => by
    rwa [Lifecycle.rejectsJob, hjobs]
  exact
    { stands := ⟨hopen, hdecision.trans hs.decision, hjobs ▸ hs.jobs⟩
      self := Proc.overrules_mono hmono hself
      accepted := haccepted
      runs := huntouched.runs
      resumes := by rw [Lifecycle.approvedResumes, huntouched.resumed, Lifecycle.approvedResumes]
      jobs := hmono }

/-- A step that changes nothing. -/
theorem KeepsRejection.stays (hs : RejectionStands s) (hself : p'.overrules s = false) :
    KeepsRejection s s p' :=
  .quiet hs hs.status rfl rfl rfl ⟨rfl, rfl, rfl, rfl⟩ hself

/-- A rejecting job only saves the execution as failed. -/
theorem resume_rejected_plan {env : RunEnv} {wf : WorkflowDefinition} {e : WorkflowExecution}
    {c : CallResult} (hc : resume env wf e false = .ok c) :
    (workerPlan c.trace).any WorkerAction.revives = false := by
  unfold resume at hc
  split at hc
  · cases hc
  · cases hc
    rfl

theorem rejectsJob_eq_true {job : Nat} {j : QueuedJob} (hjob : s.jobs[job]? = some j)
    (h : s.rejectsJob job = true) : j.payload = .resume false := by
  simp only [Lifecycle.rejectsJob, hjob, Option.any_some, QueuedJob.rejects] at h
  split at h
  · assumption
  · cases h

/-- A change of the queue that leaves the payloads and what is settled. -/
theorem RejectionStands.modify {f : QueuedJob → QueuedJob} (hs : RejectionStands s) (job : Nat)
    (hpayload : ∀ j, (f j).payload = j.payload)
    (hsettled : ∀ j, j.settled = true → (f j).settled = true) :
    RejectionStands { s with jobs := s.jobs.modify job f } ∧
      ∀ k, s.rejectsJob k = true → { s with jobs := s.jobs.modify job f }.rejectsJob k = true := by
  have hrejects : ∀ j, (f j).rejects = j.rejects := fun j => by
    rw [QueuedJob.rejects, hpayload, QueuedJob.rejects]
  refine ⟨⟨hs.status, hs.decision, fun j hj => ?_⟩, fun k hk => ?_⟩
  · obtain ⟨j₀, hj₀, rfl | rfl⟩ := mem_modify hj
    · exact hs.jobs _ hj₀
    · rw [hrejects]
      exact (hs.jobs j₀ hj₀).imp_left (hsettled j₀)
  · rw [Lifecycle.rejectsJob, any_modify hrejects]
    exact hk

/-- A rejecting job more in the queue. -/
theorem RejectionStands.enqueue (hs : RejectionStands s) :
    RejectionStands (s.enqueue (.resume false)) ∧
      ∀ k, s.rejectsJob k = true → (s.enqueue (.resume false)).rejectsJob k = true := by
  refine ⟨⟨hs.status, hs.decision, fun j hj => ?_⟩, fun k hk => ?_⟩
  · rcases List.mem_append.mp hj with hj | hj
    · exact hs.jobs j hj
    · rw [List.mem_singleton.mp hj]
      exact Or.inr rfl
  · obtain ⟨j, hj, hrejects⟩ := (Option.any_eq_true _ _).mp hk
    have hlt : k < s.jobs.length := (List.getElem?_eq_some_iff.mp hj).1
    rw [Lifecycle.rejectsJob, Lifecycle.enqueue, List.getElem?_append_left hlt]
    exact hk

theorem WorkerStep.keepsRejection {stage stage' : Worker}
    (h : WorkerStep cfg i s stage input s' stage') (hs : RejectionStands s)
    (hself : (Proc.worker stage).overrules s = false) : KeepsRejection s s' (.worker stage') := by
  cases h with
  | @begin job timed c s' env hbegins =>
      have hjobRejects : s.rejectsJob job = true := by simpa [Proc.overrules] using hself
      cases hbegins with
      -- only a rejecting job can begin
      | run env hjob hpayload =>
          have hno := rejectsJob_eq_true hjob hjobRejects
          rw [hpayload] at hno
          cases hno
      | @resume approved j e c env hjob hpayload hload hc =>
          have hno := rejectsJob_eq_true hjob hjobRejects
          rw [hpayload, Payload.resume.injEq] at hno
          subst hno
          exact
            { stands := ⟨hs.status, hs.decision, hs.jobs⟩
              self := resume_rejected_plan hc
              accepted := rfl
              runs := rfl
              resumes := by simp [Lifecycle.approvedResumes]
              jobs := fun _ h => h }
  | refuse input => exact .stays hs rfl
  | @act job timed a plan last s' w h =>
      have hplan : a.revives = false ∧ plan.any WorkerAction.revives = false := by
        simpa [Proc.overrules] using hself
      cases act_cases h with
      | ran ctx r => cases hplan.1
      | asked request hran => exact .quiet hs hs.status rfl rfl rfl ⟨rfl, rfl, rfl, rfl⟩ hplan.2
      | saved r hran =>
          -- what a plan that revives nothing saves is terminal, so not a pause
          refine .quiet hs ?_ rfl rfl rfl ⟨rfl, rfl, rfl, rfl⟩ hplan.2
          have hterminal : r.status.terminal = true := by
            simpa [WorkerAction.revives] using hplan.1
          apply decide_eq_false
          intro hpaused
          cases StoredStatus.written.inj hpaused ▸ hterminal
      | quiet a flag ha => exact .quiet hs hs.status rfl rfl rfl ⟨rfl, rfl, rfl, rfl⟩ hplan.2
  | interrupt ha hr hstatus => exact .stays hs rfl
  | finish w => exact .stays hs rfl
  | @settle job failed w =>
      -- an acknowledgement or a retry keeps what the job asks for
      split
      · obtain ⟨hstands, hjobs⟩ := hs.modify job (Worker.settle_payload cfg failed)
          fun _ => Worker.settle_settled
        exact ⟨hstands, rfl, rfl, rfl, rfl, hjobs⟩
      · exact .stays hs rfl

theorem DecisionStage.keepsRejection {approved : Bool} {stage stage' : DecisionStage}
    (h : stage.step approved w s = some (s', stage')) (hs : RejectionStands s)
    (hself : (Proc.decision approved stage).overrules s = false)
    (hgets : ∀ approvalId, stage = .enqueue approvalId → w.ok = true) :
    KeepsRejection s s' (.decision approved stage') := by
  cases stage with
  | read =>
      cases h
      rw [hs.status]
      exact .stays hs (by simp [Proc.overrules])
  | cas =>
      -- the execution is not paused, so no other decision is accepted
      simp only [DecisionStage.step, hs.status, Bool.false_eq_true, if_false] at h
      cases h
      exact .stays hs rfl
  | enqueue approvalId =>
      -- an enqueue that is still ahead is the one of the rejection
      obtain rfl : approved = false := hself
      cases w with
      | done =>
          cases h
          obtain ⟨hstands, hjobs⟩ := hs.enqueue
          exact ⟨hstands, rfl, rfl, rfl, rfl, hjobs⟩
      | failed ran => cases hgets approvalId rfl
  | rollback approvalId => cases hself
  | done => cases h

theorem CancelStage.keepsRejection {stage stage' : CancelStage}
    (h : stage.step cfg w s = some (s', stage')) (hs : RejectionStands s) :
    KeepsRejection s s' (.cancel stage') := by
  cases stage with
  | read =>
      cases h
      exact .stays hs rfl
  | mark status | flag status | cleanup =>
      cases h
      split
      · exact .quiet hs hs.status rfl rfl rfl ⟨rfl, rfl, rfl, rfl⟩ rfl
      · exact .stays hs rfl
  | cas =>
      simp only [CancelStage.step, hs.status, Bool.false_eq_true, if_false] at h
      cases h
      exact .stays hs rfl
  | done => cases h

theorem ReaperStage.keepsRejection {stage stage' : ReaperStage}
    (h : stage.step cfg started w s = some (s', stage')) (hs : RejectionStands s)
    (hself : (Proc.reaper started stage).overrules s = false)
    (hspares : ∀ snap, stage = .act snap → s.hits snap.status = true →
      snap.verdict cfg ≠ .crashResume) :
    KeepsRejection s s' (.reaper started stage') := by
  cases stage with
  | read =>
      cases h
      refine .stays hs ?_
      split <;> rfl
  | act snap =>
      simp only [ReaperStage.step] at h
      split at h
      next hhits =>
        -- by the condition the verdict is not the crash-resume
        have hverdict := hspares snap rfl hhits
        simp only [hverdict, and_false, if_false] at h
        cases h
        split
        · -- the reaper finalizes the execution, and leaves the decision
          cases hv : snap.verdict cfg with
          | cancel | failTest | giveUp => exact .quiet hs rfl rfl rfl rfl ⟨rfl, rfl, rfl, rfl⟩ rfl
          | crashResume => exact absurd hv hverdict
        · exact .stays hs rfl
      next =>
        cases h
        exact .stays hs rfl
  | enqueue snap | rollback snap => cases hself
  | done => cases h

theorem SweepStage.keepsRejection {stage stage' : SweepStage}
    (h : stage.step started w s = some (s', stage')) (hs : RejectionStands s) :
    KeepsRejection s s' (.approvalSweep started stage') := by
  cases stage with
  | read =>
      cases h
      exact .stays hs rfl
  | mark pending =>
      cases pending with
      | nil =>
          cases h
          exact .stays hs rfl
      | cons a pending =>
          cases h
          split
          · exact .quiet hs hs.status rfl rfl rfl ⟨rfl, rfl, rfl, rfl⟩ rfl
          · exact .stays hs rfl
  | fail a pending =>
      simp only [SweepStage.step, hs.status, Bool.false_eq_true, and_false, if_false] at h
      cases h
      exact .stays hs rfl
  | done => cases h

theorem Proc.keepsRejection {c : LifecycleRun} (h : p.step cfg i input c.shared = some (s', p'))
    (hp : c.proc i = some p) (hok : RejectsAlone cfg c (.step i input) = true)
    (hs : RejectionStands c.shared) (hself : p.overrules c.shared = false) :
    KeepsRejection c.shared s' p' := by
  cases Proc.step_cases h with
  | worker hstep => exact hstep.keepsRejection hs hself
  | @decision approved stage stage' s' w hstep =>
      refine DecisionStage.keepsRejection hstep hs hself fun approvalId henqueue => ?_
      subst henqueue
      obtain rfl : approved = false := hself
      simpa [RejectsAlone, hp] using hok
  | cancel w hstep => exact CancelStage.keepsRejection hstep hs
  | @reaper started stage stage' s' w hstep =>
      refine ReaperStage.keepsRejection hstep hs hself fun snap hact hhits hverdict => ?_
      subst hact
      simp [RejectsAlone, hp, hs.decision, hverdict, hhits] at hok
  | approvalSweep w hstep => exact SweepStage.keepsRejection hstep hs

/-! ## The rejection itself -/

/-- A step before any rejection: there is still none, or one is accepted. -/
inductive BeforeRejection (s s' : Lifecycle) (p p' : Proc) (input : Input) : Prop where
  | still (h : s'.rejected = false)
  | rejects (w : Write) (hp : p = .decision false .cas) (hinput : input = .act w)
      (hran : w.ran = true) (hhits : s.hits (.written .paused) = true)
      (hstatus : s'.hits (.written .paused) = false)
      (hdecision : s'.doc.resumeDecision = some .rejected) (hjobs : s'.jobs = s.jobs)
      (hself : p'.overrules s' = false)

theorem DecisionStage.beforeRejection {approved : Bool} {stage stage' : DecisionStage}
    (h : stage.step approved w s = some (s', stage')) (hnone : s.rejected = false) :
    BeforeRejection s s' (.decision approved stage) (.decision approved stage') (.act w) := by
  cases stage with
  | read =>
      cases h
      exact .still hnone
  | cas =>
      simp only [DecisionStage.step] at h
      split at h
      next hhits =>
        cases h
        cases hran : w.ran with
        | false => exact .still (by simpa using hnone)
        | true =>
            cases approved with
            | true => exact .still (by simpa [Lifecycle.rejected] using hnone)
            | false =>
                refine .rejects w rfl rfl hran hhits rfl rfl rfl ?_
                by_cases hok : w.ok = true <;> simp [hok, Proc.overrules]
      next =>
        cases h
        exact .still hnone
  | enqueue approvalId =>
      cases h
      -- an enqueue accepts nothing
      refine .still ?_
      split <;> exact hnone
  | rollback approvalId =>
      cases h
      refine .still ?_
      split
      · -- whatever is taken back, no rejection is added
        rw [Lifecycle.rejected, List.any_eq_false] at hnone ⊢
        exact fun d hd => hnone d (List.mem_of_mem_erase hd)
      · exact hnone
  | done => cases h

theorem Proc.beforeRejection (h : p.step cfg i input s = some (s', p'))
    (hnone : s.rejected = false) : BeforeRejection s s' p p' input := by
  have hstep := Proc.step_cases h
  rcases hstep.accepted with haccepted | ⟨approved, stage, rfl⟩
  · exact .still (by rwa [Lifecycle.rejected, haccepted])
  · cases hstep with
    | decision w hstage => exact DecisionStage.beforeRejection hstage hnone

end

/-! ## Whole runs -/

/-- Once a rejection was accepted it stands. -/
def Lifecycle.Final (s : Lifecycle) : Prop := s.rejected = true → RejectionStands s

/-- Once a rejection was accepted the process acts for no other decision. -/
def Proc.Complies (s : Lifecycle) (_ : Nat) (p : Proc) : Prop :=
  s.rejected = true → p.overrules s = false

section
variable {cfg : LifecycleConfig} {c c' : LifecycleRun}

theorem rejectsAlone_accepts {i : Nat} {w : Write} (hok : RejectsAlone cfg c (.step i (.act w)) = true)
    (hp : c.proc i = some (.decision false .cas)) (hran : w.ran = true)
    (hhits : c.shared.hits (.written .paused) = true) :
    c.others i (!·.overrules c.shared) = true ∧
      ∀ j ∈ c.shared.jobs, j.settled = true ∨ j.rejects = true := by
  simpa [RejectsAlone, hp, hran, hhits] using hok

theorem Outside.keeps {s s' : Lifecycle} {e : Outside} (h : e.apply s = some s')
    (hs : RejectionStands s) :
    RejectionStands s' ∧ ∀ job, s.rejectsJob job = true → s'.rejectsJob job = true := by
  cases e with
  | tick now =>
      simp only [Outside.apply] at h
      split at h <;> cases h
      exact ⟨⟨hs.status, hs.decision, hs.jobs⟩, fun _ h => h⟩
  | edit workflow =>
      cases h
      exact ⟨⟨hs.status, hs.decision, hs.jobs⟩, fun _ h => h⟩
  | drop job =>
      cases h
      exact hs.modify job (fun _ => rfl) fun _ _ => rfl

theorem rejection_invariant :
    (lifecycleSystem cfg).Invariant (fun c m => RejectsAlone cfg c m)
      (fun _ s => s.Final) Proc.Complies where
  spawn := by
    intro c x s' p hc _ h
    obtain ⟨rfl, hstarts⟩ := lifecycleSystem_spawn h
    refine ⟨hc.1, fun hrejected => ?_, hc.2⟩
    cases hstarts with
    | received hjob hopen =>
        -- a job that can be delivered is a rejecting one
        have hj := (hc.1 hrejected).jobs _ (List.mem_of_getElem? hjob)
        simp only [hopen, Bool.false_eq_true, false_or] at hj
        simp [Proc.overrules, Lifecycle.rejectsJob, hjob, hj]
    | decision | cancel | reaper | approvalSweep => rfl
  step := by
    intro c i input p s' p' hc hok hp h
    cases hrejected : c.shared.rejected with
    | true =>
        -- after the rejection: it stands, and nobody comes to overrule it
        have hkeeps := Proc.keepsRejection h hp hok (hc.1 hrejected) (hc.2 i p hp hrejected)
        exact ⟨fun _ => hkeeps.stands, fun _ => hkeeps.self, fun j q _ hq _ =>
          Proc.overrules_mono hkeeps.jobs (hc.2 j q hq hrejected)⟩
    | false =>
        cases Proc.beforeRejection h hrejected with
        | still hnone =>
            exact ⟨fun hyes => by simp [hnone] at hyes, fun hyes => by simp [hnone] at hyes,
              fun j q _ _ hyes => by simp [hnone] at hyes⟩
        | rejects w hp' hinput hran hhits hstatus hdecision hjobs hself =>
            subst hp' hinput
            -- the rejection itself: by the condition nobody else can overrule it
            obtain ⟨hothers, hqueue⟩ := rejectsAlone_accepts hok hp hran hhits
            refine ⟨fun _ => ⟨hstatus, hdecision, hjobs ▸ hqueue⟩, fun _ => hself,
              fun j q hne hq _ => ?_⟩
            apply Proc.overrules_mono fun job h => by rwa [Lifecycle.rejectsJob, hjobs]
            simpa using Configuration.others_eq_true.mp hothers j q hne hq
  env := by
    intro c e s' hc _ h
    have haccepted : s'.rejected = c.shared.rejected := by
      rw [Lifecycle.rejected, (Outside.apply_logs h).1, Lifecycle.rejected]
    refine ⟨fun hrejected => ?_, fun j q hq hrejected => ?_⟩
    · rw [haccepted] at hrejected
      exact (Outside.keeps h (hc.1 hrejected)).1
    · rw [haccepted] at hrejected
      exact Proc.overrules_mono (Outside.keeps h (hc.1 hrejected)).2 (hc.2 j q hq hrejected)

/-- A move leaves a rejection, the node runs and the approved resumes as they are. -/
theorem rejection_keeps (hc : System.Inv (fun _ s => s.Final) Proc.Complies c)
    (hrejected : c.shared.rejected = true)
    (h : (lifecycleSystem cfg).Steps (fun c m => RejectsAlone cfg c m) c c') :
    c'.shared.rejected = true ∧ c'.shared.approvedResumes = c.shared.approvedResumes ∧
      c'.shared.runs = c.shared.runs := by
  rcases h.cases with ⟨x, s', p, -, hspawn, rfl⟩ | ⟨i, input, p, s', p', hok, hp, hstep, rfl⟩ |
    ⟨i, -, rfl⟩ | ⟨e, s', -, henv, rfl⟩
  · obtain ⟨rfl, -⟩ := lifecycleSystem_spawn hspawn
    exact ⟨hrejected, rfl, rfl⟩
  · have hkeeps := Proc.keepsRejection hstep hp hok (hc.1 hrejected) (hc.2 i p hp hrejected)
    exact ⟨by rwa [Lifecycle.rejected, hkeeps.accepted], hkeeps.resumes, hkeeps.runs⟩
  · exact ⟨hrejected, rfl, rfl⟩
  · obtain ⟨haccepted, hresumed, hruns⟩ := Outside.apply_logs henv
    exact ⟨by rwa [Lifecycle.rejected, haccepted],
      by rw [Lifecycle.approvedResumes, hresumed, Lifecycle.approvedResumes], hruns⟩

/-- In a run in which every rejection is accepted alone, and the reaper spares what was
rejected, nothing is resumed as approved after a rejection, and no node is run. -/
theorem LifecycleRun.rejection_final {c₀ : LifecycleRun} (hstart : c₀.procs = [])
    (hnone : c₀.shared.rejected = false)
    (hreach : (lifecycleSystem cfg).Reaches (fun c m => RejectsAlone cfg c m) c₀ c)
    (hmore : (lifecycleSystem cfg).Reaches (fun c m => RejectsAlone cfg c m) c c')
    (hrejected : c.shared.rejected = true) :
    c'.shared.approvedResumes = c.shared.approvedResumes ∧ c'.shared.runs = c.shared.runs := by
  have hc₀ : System.Inv (fun _ s => s.Final) Proc.Complies c₀ :=
    .of_start hstart fun h => by simp [hnone] at h
  have hc := System.Reaches.inv rejection_invariant hc₀ hreach
  have hrun : c'.shared.rejected = true ∧
      c'.shared.approvedResumes = c.shared.approvedResumes ∧ c'.shared.runs = c.shared.runs := by
    refine System.Reaches.lasts (J := fun d : LifecycleRun => d.shared.rejected = true ∧
        d.shared.approvedResumes = c.shared.approvedResumes ∧ d.shared.runs = c.shared.runs)
      rejection_invariant (fun d d' hd hsame hstep => ?_) hc ⟨hrejected, rfl, rfl⟩ hmore
    obtain ⟨hstill, hresumes, hruns⟩ := hsame
    obtain ⟨hstill', hresumes', hruns'⟩ := rejection_keeps hd hstill hstep
    exact ⟨hstill', hresumes'.trans hresumes, hruns'.trans hruns⟩
  exact hrun.2

end

/-! ## A rejection that is overruled -/

/-- The request is rejected. -/
def rejectedRun : List LifecycleMove := callMoves (.decide false) 0 3

/-- A worker processes the rejection, and long after a sweep finds nothing to do. -/
def rejectedAftermath : List LifecycleMove :=
  deliverMoves (.calm approvalResults) 0 1 4 ++ [.env (.tick 5000)] ++ callMoves .reap 2 1

theorem rejectedRun_final : ∃ c c',
    (lifecycleSystem {}).Reaches (fun c m => RejectsAlone {} c m) ⟨asked, []⟩ c ∧
    (lifecycleSystem {}).Reaches (fun c m => RejectsAlone {} c m) c c' ∧
    c.shared.rejected = true ∧ c'.shared.doc.status = .written .failed ∧
    c'.shared.approvedResumes = c.shared.approvedResumes ∧ c'.shared.runs = c.shared.runs := by
  obtain ⟨c, hreach, hc⟩ := System.exists_reaches_of_play (lifecycleSystem {})
    (fun c m => RejectsAlone {} c m) rejectedRun ⟨asked, []⟩
    (fun c => c.shared.rejected && ((lifecycleSystem {}).play (fun c m => RejectsAlone {} c m)
      rejectedAftermath c).any fun c' => c'.shared.doc.status = .written .failed)
    (by decide +kernel)
  obtain ⟨hrejected, hmore⟩ := (Bool.and_eq_true _ _).mp hc
  obtain ⟨c', hmore, hfailed⟩ := System.exists_reaches_of_play _ _ _ _ _ hmore
  exact ⟨c, c', hreach, hmore, hrejected, of_decide_eq_true hfailed,
    LifecycleRun.rejection_final rfl rfl hreach hmore hrejected⟩

/-- The rejecting job is not delivered in time: a sweep resumes the execution, and a worker
takes up its job. -/
def overruledAftermath : List LifecycleMove :=
  [.env (.tick 5000)] ++ callMoves .reap 1 3 ++ deliverMoves (.calm approvalResults) 1 2 2

theorem rejectedRun_overruled : ¬ ∀ (cfg : LifecycleConfig) (c₀ c c' : LifecycleRun),
    c₀.procs = [] → c₀.shared.jobs = [] → c₀.shared.doc.status = .written .paused →
    c₀.shared.rejected = false →
    (lifecycleSystem cfg).Reaches (fun _ _ => True) c₀ c →
    (lifecycleSystem cfg).Reaches (fun _ _ => True) c c' → c.shared.rejected = true →
    c'.shared.approvedResumes = c.shared.approvedResumes ∧ c'.shared.runs = c.shared.runs := by
  intro hclaim
  obtain ⟨c, hreach, hc⟩ := System.exists_reaches_of_play (lifecycleSystem {})
    (fun _ _ => True) rejectedRun ⟨asked, []⟩
    (fun c => c.shared.rejected = true ∧ c.shared.approvedResumes = [] ∧
      ((lifecycleSystem {}).play (fun _ _ => True) overruledAftermath c).any fun c' =>
        c'.shared.approvedResumes = [true] ∧ c'.shared.completed.contains "act")
    (by decide +kernel)
  obtain ⟨hrejected, hresumes, hmore⟩ := of_decide_eq_true hc
  obtain ⟨c', hmore, hc'⟩ := System.exists_reaches_of_play _ _ _ _ _ hmore
  have hsame := (hclaim {} ⟨asked, []⟩ c c' rfl rfl rfl rfl hreach hmore hrejected).1
  rw [(of_decide_eq_true hc').1, hresumes] at hsame
  cases hsame

end CitraFlows
