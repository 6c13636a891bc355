-- SUMMARY: Terminal statuses of a stored execution: which runs never leave one, and a run that does.
import CitraFlows.Lifecycle.Steps

/-!
# Terminal statuses

A worker saves its copy of the record whatever is stored, a `workflow.run` job never reads the
stored status, and a failed enqueue is rolled back whatever has happened since. So a terminal
status lasts only if whoever writes it is the last one at work. `FinishesLast` says so of a
run, and then no status is written over a terminal one and no node is run after it.
-/

namespace CitraFlows

open Processes

/-! ## Who is still at work -/

/-- The process has a node run or a save ahead of it, or an enqueue to roll back. -/
def Proc.engaged : Proc → Bool
  | .worker (.executing _ _ plan _) => plan.any WorkerAction.touches
  | .decision _ (.rollback _) | .reaper _ (.rollback _) => true
  | _ => false

/-- The next command of the process writes a terminal status. -/
def Proc.finalizes (cfg : LifecycleConfig) (s : Lifecycle) : Proc → Bool
  | .worker (.executing _ _ (.event (.save r) :: _) _) => r.status.terminal
  | .cancel .cas => s.hits (.written .paused)
  | .reaper _ (.act snap) => s.hits snap.status && snap.verdict cfg ≠ .crashResume
  | .approvalSweep _ (.fail _ _) => s.hits (.written .paused)
  | _ => false

/-- The process goes to work without a look at the stored status: a `workflow.run` job begins,
the execution timeout fires, or an enqueue fails and is to be rolled back. -/
def Proc.goesToWork (s : Lifecycle) : Proc → Input → Bool
  | .worker (.received job), .start _ =>
      match s.jobs[job]?.map QueuedJob.payload with
      | some (.run _ _) => true
      | _ => false
  | .worker (.executing ..), .interrupt => true
  | .decision _ (.enqueue _), .act w | .reaper _ (.enqueue _), .act w => !w.ok
  | _, _ => false

/-- A terminal status is written only when no other process is at work, and none goes to work
on a terminal status. -/
def FinishesLast (cfg : LifecycleConfig) (c : LifecycleRun) : LifecycleMove → Bool
  | .step i input =>
      (c.proc i).all fun p =>
        (!p.finalizes cfg c.shared || c.others i (!·.engaged)) &&
          (!p.goesToWork c.shared input || !c.shared.doc.terminal)
  | _ => true

/-! ## One step -/

/-- What a process has read or planned leads it to no second terminal status. -/
def Proc.Sound : Proc → Prop
  | .worker (.executing _ _ plan _) => Concludes plan
  | .reaper _ (.act snap) | .reaper _ (.enqueue snap) | .reaper _ (.rollback snap) =>
      snap.status.terminal = false
  | _ => True

section
variable {cfg : LifecycleConfig} {i : Nat} {input : Input} {s s' : Lifecycle} {p p' : Proc}

theorem Lifecycle.hits_terminal {status : StoredStatus} (h : s.hits status = true) :
    s.doc.terminal = status.terminal := by
  simp only [Lifecycle.hits, decide_eq_true_eq] at h
  rw [ExecutionDocument.terminal, h]

theorem ExecutionDocument.stuck_not_terminal {now : Nat} {d : ExecutionDocument}
    (h : d.stuck cfg now = true) : d.terminal = false := by
  unfold ExecutionDocument.stuck at h
  unfold ExecutionDocument.terminal
  split at h
  next hs => rw [hs]; rfl
  next hs => rw [hs]; rfl
  next hs => rw [hs]; rfl
  next => cases h

/-- One step of a process: what it leaves of the document, given that it is sound and that an
engaged process finds no terminal status. -/
structure TerminalStep (cfg : LifecycleConfig) (s s' : Lifecycle) (p p' : Proc) : Prop where
  sound : p'.Sound
  /-- A terminal status is kept by who is not at work. -/
  kept : s.doc.terminal = true → p.engaged = false →
    s'.doc.status = s.doc.status ∧ s'.runs = s.runs
  /-- A new terminal status is written by who finalizes. -/
  finalizes : s'.doc.terminal = true → s.doc.terminal = true ∨ p.finalizes cfg s = true
  /-- Who is at work afterwards leaves no terminal status. -/
  engaged : p'.engaged = true → s.doc.terminal = false → s'.doc.terminal = false
  /-- Nobody goes to work on a terminal status. -/
  starts : p'.engaged = true → p.engaged = true ∨ s.doc.terminal = false

/-- A step that leaves the document and the node runs alone. -/
theorem TerminalStep.quiet (hdoc : s'.doc = s.doc) (hruns : s'.runs = s.runs) (hsound : p'.Sound)
    (hstarts : p'.engaged = true → p.engaged = true ∨ s.doc.terminal = false) :
    TerminalStep cfg s s' p p' :=
  ⟨hsound, fun _ _ => ⟨by rw [hdoc], hruns⟩, fun h => Or.inl (hdoc ▸ h), fun _ h => hdoc ▸ h,
    hstarts⟩

theorem WorkerStep.terminalStep {w w' : Worker} (h : WorkerStep cfg i s w input s' w')
    (hsound : (Proc.worker w).Sound)
    (hgoes : (Proc.worker w).goesToWork s input = true → s.doc.terminal = false) :
    TerminalStep cfg s s' (.worker w) (.worker w') := by
  cases h with
  | begin env h =>
      -- a `workflow.run` job begins on an open status by the condition, a resume by its own check
      have hopen : s.doc.terminal = false := by
        cases h with
        | run env hjob hpayload =>
            exact hgoes (by simp [Proc.goesToWork, hjob, hpayload])
        | resume env hjob hpayload hload hc =>
            rw [ExecutionDocument.terminal, ExecutionDocument.load_status hload]
            rcases resume_waiting hc with hstatus | hstatus
            · rw [hstatus]; rfl
            · rw [hstatus]; rfl
      have hdoc : s'.doc = s.doc := by cases h <;> rfl
      have hruns : s'.runs = s.runs := by cases h <;> rfl
      exact .quiet hdoc hruns h.concludes fun _ => Or.inr hopen
  | refuse input => exact .quiet rfl rfl trivial fun h => by cases h
  | @act job timed a plan last s' w h =>
      obtain ⟨hlast, hplan⟩ := hsound
      have hstarts : (Proc.worker (.executing job timed plan (a.saved.or last))).engaged = true →
          (Proc.worker (.executing job timed (a :: plan) last)).engaged = true := fun h => by
        simp only [Proc.engaged, List.any_cons] at h ⊢
        simp [h]
      cases act_cases h with
      | quiet a flag ha => exact .quiet rfl rfl hplan fun h => Or.inl (hstarts h)
      | asked request hran => exact .quiet rfl rfl hplan fun h => Or.inl (hstarts h)
      | ran ctx r =>
          -- who runs a node is at work, and leaves the document alone
          refine ⟨hplan, fun _ h => ?_, Or.inl, fun _ h => h, fun h => Or.inl (hstarts h)⟩
          simp [Proc.engaged, WorkerAction.touches] at h
      | saved r hran =>
          refine ⟨hplan, fun _ h => ?_, fun hterminal => Or.inr hterminal, fun hengaged _ => ?_,
            fun h => Or.inl (hstarts h)⟩
          · simp [Proc.engaged, WorkerAction.touches] at h
          · -- a plan that goes on touching the execution has not saved a terminal status
            change r.status.terminal = false
            by_contra hterminal
            obtain ⟨b, hb, htouches⟩ := List.any_eq_true.mp hengaged
            rw [hlast r rfl (by simpa using hterminal) b hb] at htouches
            cases htouches
  | @interrupt job a plan last r ha hr hstatus =>
      exact .quiet rfl rfl (timeoutPlan_concludes cfg r) fun _ => Or.inr (hgoes rfl)
  | finish w => exact .quiet rfl rfl trivial fun h => by cases h
  | settle w =>
      cases hran : w.ran with
      | false => exact .quiet (by simp) (by simp) trivial fun h => by cases h
      | true => exact .quiet (by simp) (by simp) trivial fun h => by cases h

theorem DecisionStage.terminalStep {approved : Bool} {w : Write} {stage stage' : DecisionStage}
    (hgoes : (Proc.decision approved stage).goesToWork s (.act w) = true → s.doc.terminal = false)
    (h : stage.step approved w s = some (s', stage')) :
    TerminalStep cfg s s' (.decision approved stage) (.decision approved stage') := by
  cases stage with
  | read =>
      cases h
      refine .quiet rfl rfl trivial fun h => ?_
      split at h <;> cases h
  | cas =>
      simp only [DecisionStage.step] at h
      split at h
      next hhits =>
        cases h
        -- a document that is paused is not terminal
        have hopen : s.doc.terminal = false := s.hits_terminal hhits
        cases hran : w.ran with
        | false => exact .quiet (by simp) (by simp) trivial fun _ => Or.inr hopen
        | true =>
            refine ⟨trivial, fun h => ?_, fun h => ?_, fun _ _ => rfl, fun _ => Or.inr hopen⟩
            · simp [hopen] at h
            · cases h
      next =>
        cases h
        exact .quiet rfl rfl trivial fun h => by cases h
  | enqueue approvalId =>
      cases h
      -- an enqueue that fails is rolled back
      have hstarts : (Proc.decision approved
          (if w.ok then .done else .rollback approvalId)).engaged = true →
          s.doc.terminal = false := fun h => by
        refine hgoes ?_
        split at h
        · cases h
        · simp_all [Proc.goesToWork]
      cases hran : w.ran with
      | false => exact .quiet (by simp) (by simp) trivial fun h => Or.inr (hstarts h)
      | true =>
          exact .quiet (by simp [Lifecycle.enqueue]) (by simp [Lifecycle.enqueue]) trivial
            fun h => Or.inr (hstarts h)
  | rollback approvalId =>
      cases h
      cases hran : w.ran with
      | false => exact .quiet (by simp) (by simp) trivial fun _ => Or.inl rfl
      | true =>
          -- whatever was stored, it is paused now
          refine ⟨trivial, fun _ h => ?_, fun h => ?_, fun h => ?_, fun _ => Or.inl rfl⟩
          · cases h
          · cases h
          · cases h
  | done => cases h

theorem CancelStage.terminalStep {w : Write} {stage stage' : CancelStage}
    (h : stage.step cfg w s = some (s', stage')) :
    TerminalStep cfg s s' (.cancel stage) (.cancel stage') := by
  cases stage with
  | read =>
      cases h
      exact .quiet rfl rfl trivial fun h => by cases h
  | mark status =>
      cases h
      cases hran : w.ran with
      | false => exact .quiet (by simp) (by simp) trivial fun h => by cases h
      | true =>
          exact ⟨trivial, fun _ _ => ⟨rfl, rfl⟩, Or.inl, fun _ h => h, fun h => by cases h⟩
  | flag status =>
      cases h
      cases hran : w.ran with
      | false => exact .quiet (by simp) (by simp) trivial fun h => by cases h
      | true => exact .quiet (by simp) (by simp) trivial fun h => by cases h
  | cas =>
      simp only [CancelStage.step] at h
      split at h
      next hhits =>
        cases h
        have hopen : s.doc.terminal = false := s.hits_terminal hhits
        refine ⟨trivial, fun h => ?_, fun _ => Or.inr hhits, fun h => ?_, fun h => ?_⟩
        · simp [hopen] at h
        · split at h <;> cases h
        · split at h <;> cases h
      next =>
        cases h
        exact .quiet rfl rfl trivial fun h => by cases h
  | cleanup =>
      cases h
      cases hran : w.ran with
      | false => exact .quiet (by simp) (by simp) trivial fun h => by cases h
      | true => exact .quiet (by simp) (by simp) trivial fun h => by cases h
  | done => cases h

theorem ReaperStage.terminalStep {started : Nat} {w : Write} {stage stage' : ReaperStage}
    (hsound : (Proc.reaper started stage).Sound)
    (hgoes : (Proc.reaper started stage).goesToWork s (.act w) = true → s.doc.terminal = false)
    (h : stage.step cfg started w s = some (s', stage')) :
    TerminalStep cfg s s' (.reaper started stage) (.reaper started stage') := by
  cases stage with
  | read =>
      cases h
      by_cases hstuck : w.ok = true ∧ s.doc.stuck cfg started = true
      · simp only [hstuck, and_self, if_true]
        exact .quiet rfl rfl (ExecutionDocument.stuck_not_terminal hstuck.2) fun h => by cases h
      · simp only [hstuck, if_false]
        exact .quiet rfl rfl trivial fun h => by cases h
  | act snap =>
      simp only [ReaperStage.step] at h
      split at h
      next hhits =>
        cases h
        -- the status that was read is still the stored one, and a stuck one
        have hopen : s.doc.terminal = false := (s.hits_terminal hhits).trans hsound
        have hsound' : (Proc.reaper started
            (if w.ok = true ∧ snap.verdict cfg = .crashResume then .enqueue snap else .done)).Sound := by
          split
          · exact hsound
          · exact trivial
        cases hran : w.ran with
        | false => exact .quiet (by simp) (by simp) hsound' fun _ => Or.inr hopen
        | true =>
            refine ⟨hsound', fun h => by simp [hopen] at h, fun h => ?_, fun h _ => ?_,
              fun _ => Or.inr hopen⟩
            · -- a terminal status comes of every verdict but the crash-resume
              refine Or.inr ?_
              simp only [Proc.finalizes, hhits, Bool.true_and, ne_eq, decide_not,
                Bool.not_eq_true', decide_eq_false_iff_not]
              intro hverdict
              simp only [hverdict, if_true] at h
              cases h
            · split at h
              next hresume =>
                rw [hresume.2]
                rfl
              next => cases h
      next =>
        cases h
        exact .quiet rfl rfl trivial fun h => by cases h
  | enqueue snap =>
      cases h
      have hsound' : (Proc.reaper started (if w.ok then .done else .rollback snap)).Sound := by
        split
        · exact trivial
        · exact hsound
      have hstarts : (Proc.reaper started
          (if w.ok then .done else .rollback snap)).engaged = true → s.doc.terminal = false :=
        fun h => by
          refine hgoes ?_
          split at h
          · cases h
          · simp_all [Proc.goesToWork]
      cases hran : w.ran with
      | false => exact .quiet (by simp) (by simp) hsound' fun h => Or.inr (hstarts h)
      | true =>
          exact .quiet (by simp [Lifecycle.enqueue]) (by simp [Lifecycle.enqueue]) hsound'
            fun h => Or.inr (hstarts h)
  | rollback snap =>
      cases h
      cases hran : w.ran with
      | false => exact .quiet (by simp) (by simp) trivial fun _ => Or.inl rfl
      | true =>
          -- the status written back is the one that was read, of a stuck execution
          have hopen : snap.status.terminal = false := hsound
          refine ⟨trivial, fun _ h => ?_, fun h => ?_, fun h => ?_, fun h => ?_⟩
          · cases h
          · exact absurd (show snap.status.terminal = true from h) (by simp [hopen])
          · cases h
          · cases h
  | done => cases h

theorem SweepStage.terminalStep {started : Nat} {w : Write} {stage stage' : SweepStage}
    (h : stage.step started w s = some (s', stage')) :
    TerminalStep cfg s s' (.approvalSweep started stage) (.approvalSweep started stage') := by
  cases stage with
  | read =>
      cases h
      exact .quiet rfl rfl trivial fun h => by cases h
  | mark pending =>
      cases pending with
      | nil =>
          cases h
          exact .quiet rfl rfl trivial fun h => by cases h
      | cons a pending =>
          cases h
          cases hran : w.ran with
          | false => exact .quiet (by simp) (by simp) trivial fun h => by cases h
          | true => exact .quiet (by simp) (by simp) trivial fun h => by cases h
  | fail a pending =>
      cases h
      by_cases hhits : w.ran = true ∧ a.request.executionId = s.doc.record.executionId ∧
          s.hits (.written .paused) = true
      · have hopen : s.doc.terminal = false := s.hits_terminal hhits.2.2
        simp only [hhits, and_self, if_true]
        refine ⟨trivial, fun h => ?_, fun _ => Or.inr hhits.2.2, fun h => ?_, fun h => ?_⟩
        · simp [hopen] at h
        · split at h <;> cases h
        · split at h <;> cases h
      · simp only [hhits, if_false]
        exact .quiet rfl rfl trivial fun h => by cases h
  | done => cases h

theorem Proc.terminalStep (hsound : p.Sound)
    (hgoes : p.goesToWork s input = true → s.doc.terminal = false)
    (h : p.step cfg i input s = some (s', p')) : TerminalStep cfg s s' p p' := by
  cases Proc.step_cases h with
  | worker hstep => exact hstep.terminalStep hsound hgoes
  | decision w hstep => exact DecisionStage.terminalStep hgoes hstep
  | cancel w hstep => exact CancelStage.terminalStep hstep
  | reaper w hstep => exact ReaperStage.terminalStep hsound hgoes hstep
  | approvalSweep w hstep => exact SweepStage.terminalStep hstep

theorem Proc.Starting.idle (h : p.Starting s) : p.Sound ∧ p.engaged = false := by
  cases h <;> exact ⟨trivial, rfl⟩

end

/-! ## Whole runs -/

/-- Nobody is at work on a terminal status. -/
def Proc.Respects (s : Lifecycle) (_ : Nat) (p : Proc) : Prop :=
  p.Sound ∧ (p.engaged = true → s.doc.terminal = false)

section
variable {cfg : LifecycleConfig} {c c' : LifecycleRun}

theorem finishesLast_idle {i : Nat} {input : Input} {p q : Proc} {j : Nat}
    (hok : FinishesLast cfg c (.step i input) = true) (hp : c.proc i = some p)
    (hfinal : p.finalizes cfg c.shared = true) (hne : j ≠ i) (hq : c.proc j = some q) :
    q.engaged = false := by
  simp only [FinishesLast, hp, Option.all_some, hfinal, Bool.not_true, Bool.false_or,
    Bool.and_eq_true] at hok
  simpa using Configuration.others_eq_true.mp hok.1 j q hne hq

theorem finishesLast_open {i : Nat} {input : Input} {p : Proc}
    (hok : FinishesLast cfg c (.step i input) = true) (hp : c.proc i = some p)
    (hgoes : p.goesToWork c.shared input = true) : c.shared.doc.terminal = false := by
  simp only [FinishesLast, hp, Option.all_some, hgoes, Bool.not_true, Bool.false_or,
    Bool.and_eq_true] at hok
  simpa using hok.2

theorem finishesLast_invariant :
    (lifecycleSystem cfg).Invariant (fun c m => FinishesLast cfg c m) (fun _ _ => True)
      Proc.Respects where
  spawn := by
    intro c x s' p hc _ h
    obtain ⟨rfl, hstarts⟩ := lifecycleSystem_spawn h
    obtain ⟨hsound, hidle⟩ := hstarts.idle
    exact ⟨trivial, ⟨hsound, by simp [hidle]⟩, hc.2⟩
  step := by
    intro c i input p s' p' hc hok hp h
    obtain ⟨hsound, hengaged⟩ := hc.2 i p hp
    have hstep := Proc.terminalStep hsound (finishesLast_open hok hp) h
    refine ⟨trivial, ⟨hstep.sound, fun hp' => ?_⟩, fun j q hne hq => ?_⟩
    · -- who is at work was so before, on an open status, or goes to work on one
      apply hstep.engaged hp'
      rcases hstep.starts hp' with hengaged' | hopen
      · exact hengaged hengaged'
      · exact hopen
    · obtain ⟨hsound', hopen⟩ := hc.2 j q hq
      refine ⟨hsound', fun hwork => ?_⟩
      -- the status has become terminal only if nobody else was at work
      by_contra hterminal
      rcases hstep.finalizes (by simpa using hterminal) with hold | hfinal
      · simp [hopen hwork] at hold
      · simp [finishesLast_idle hok hp hfinal hne hq] at hwork
  env := by
    intro c e s' hc _ h
    obtain ⟨hdoc, -⟩ := Outside.apply_doc h
    refine ⟨trivial, fun j q hq => ?_⟩
    obtain ⟨hsound, hopen⟩ := hc.2 j q hq
    exact ⟨hsound, by rwa [hdoc]⟩

/-- A move leaves a terminal status and the node runs as they are. -/
theorem finishesLast_keeps (hc : System.Inv (fun _ _ => True) Proc.Respects c)
    (hterminal : c.shared.doc.terminal = true)
    (h : (lifecycleSystem cfg).Steps (fun c m => FinishesLast cfg c m) c c') :
    c'.shared.doc.status = c.shared.doc.status ∧ c'.shared.runs = c.shared.runs := by
  rcases h.cases with ⟨x, s', p, -, hspawn, rfl⟩ | ⟨i, input, p, s', p', hok, hp, hstep, rfl⟩ |
    ⟨i, -, rfl⟩ | ⟨e, s', -, henv, rfl⟩
  · obtain ⟨rfl, -⟩ := lifecycleSystem_spawn hspawn
    exact ⟨rfl, rfl⟩
  · obtain ⟨hsound, hengaged⟩ := hc.2 i p hp
    -- nobody who is at work has met the terminal status
    apply (Proc.terminalStep hsound (finishesLast_open hok hp) hstep).kept hterminal
    by_contra hwork
    simp [hengaged (by simpa using hwork)] at hterminal
  · exact ⟨rfl, rfl⟩
  · obtain ⟨hdoc, hruns⟩ := Outside.apply_doc henv
    exact ⟨by rw [hdoc], hruns⟩

/-- In a run in which whoever writes a terminal status is the last one at work, the status
stays and no node is run any more. -/
theorem LifecycleRun.terminal_lasts {c₀ : LifecycleRun} (hstart : c₀.procs = [])
    (hreach : (lifecycleSystem cfg).Reaches (fun c m => FinishesLast cfg c m) c₀ c)
    (hmore : (lifecycleSystem cfg).Reaches (fun c m => FinishesLast cfg c m) c c')
    (hterminal : c.shared.doc.terminal = true) :
    c'.shared.doc.status = c.shared.doc.status ∧ c'.shared.runs = c.shared.runs := by
  have hc₀ : System.Inv (fun _ _ => True) Proc.Respects c₀ :=
    .of_start hstart trivial
  have hc := System.Reaches.inv finishesLast_invariant hc₀ hreach
  refine System.Reaches.lasts (J := fun d : LifecycleRun =>
      d.shared.doc.status = c.shared.doc.status ∧ d.shared.runs = c.shared.runs)
    finishesLast_invariant (fun d d' hd hsame hstep => ?_) hc ⟨rfl, rfl⟩ hmore
  -- the status of the moment is still the terminal one
  have hterminal' : d.shared.doc.terminal = true := by
    rw [ExecutionDocument.terminal, hsame.1]
    exact hterminal
  obtain ⟨hstatus, hruns⟩ := finishesLast_keeps hd hterminal' hstep
  exact ⟨hstatus.trans hsame.1, hruns.trans hsame.2⟩

end

/-! ## A redelivered job -/

/-- A trigger, and what is done at once. -/
def actFlow : WorkflowDefinition where
  workflowId := "wf"
  nodes := [{ id := "start", type := .manualTrigger }, { id := "act", type := .emailSender }]
  edges := [{ source := "start", target := "act" }]

/-- A worker runs the job to its end and acknowledges it. -/
def actRun : List LifecycleMove := deliverMoves (.calm approvalResults) 0 0 8

/-- After the run, a cancel request and a sweep find nothing to do. -/
def actAftermath : List LifecycleMove :=
  callMoves .cancel 1 1 ++ [.env (.tick 10000)] ++ callMoves .reap 2 1

theorem actRun_lasts : ∃ c c',
    (lifecycleSystem {}).Reaches (fun c m => FinishesLast {} c m) ⟨submitted actFlow, []⟩ c ∧
    (lifecycleSystem {}).Reaches (fun c m => FinishesLast {} c m) c c' ∧
    c.shared.doc.status = .written .completed ∧
    c'.shared.doc.status = c.shared.doc.status ∧ c'.shared.runs = c.shared.runs := by
  obtain ⟨c, hreach, hc⟩ := System.exists_reaches_of_play (lifecycleSystem {})
    (fun c m => FinishesLast {} c m) actRun ⟨submitted actFlow, []⟩
    (fun c => c.shared.doc.status = .written .completed ∧
      ((lifecycleSystem {}).play (fun c m => FinishesLast {} c m) actAftermath c).isSome)
    (by decide +kernel)
  obtain ⟨hstatus, hmore⟩ := of_decide_eq_true hc
  obtain ⟨c', hplay⟩ := Option.isSome_iff_exists.mp hmore
  have hterminal : c.shared.doc.terminal = true := by
    rw [ExecutionDocument.terminal, hstatus]
    rfl
  exact ⟨c, c', hreach, System.reaches_of_play hplay, hstatus,
    LifecycleRun.terminal_lasts rfl hreach (System.reaches_of_play hplay) hterminal⟩

/-- The worker is lost after its last save and before the acknowledgement, and the job is
delivered again. -/
theorem actRun_redelivered : ¬ ∀ (cfg : LifecycleConfig) (c₀ c c' : LifecycleRun), c₀.procs = [] →
    (lifecycleSystem cfg).Reaches (fun _ _ => True) c₀ c →
    (lifecycleSystem cfg).Reaches (fun _ _ => True) c c' → c.shared.doc.terminal = true →
    c'.shared.doc.status = c.shared.doc.status ∧ c'.shared.runs = c.shared.runs := by
  intro hclaim
  obtain ⟨c, hreach, hc⟩ := System.exists_reaches_of_play (lifecycleSystem {})
    (fun _ _ => True) (deliverMoves (.calm approvalResults) 0 0 6 ++ [.crash 0])
    ⟨submitted actFlow, []⟩
    (fun c => c.shared.doc.terminal = true ∧ c.shared.runs.length = 2 ∧
      ((lifecycleSystem {}).play (fun _ _ => True)
        (deliverMoves (.calm approvalResults) 0 1 4) c).any fun c' => c'.shared.runs.length = 4)
    (by decide +kernel)
  obtain ⟨hterminal, hruns, hmore⟩ := of_decide_eq_true hc
  obtain ⟨c', hmore, hruns'⟩ := System.exists_reaches_of_play _ _ _ _ _ hmore
  have hsame := (hclaim {} ⟨submitted actFlow, []⟩ c c' rfl hreach hmore hterminal).2
  rw [hsame, hruns] at hruns'
  simp at hruns'

end CitraFlows
