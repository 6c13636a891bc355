-- SUMMARY: What one step of a worker can do, and the shape of the plans that workers follow.
import CitraFlows.Lifecycle.Model
import CitraFlows.Executor.Order

/-!
# Steps of a worker

The case lemma of a worker's step, and what the plan of a worker is like: a call saves its
record as running until its last save, and after that it only notifies and cleans up.
-/

namespace CitraFlows

open RedisKeys Processes

/-! ## One step -/

/-- A job begins: whether the execution timeout runs, the call it makes, and the state. -/
inductive Begins (s : Lifecycle) (job : Nat) : Bool → CallResult → Lifecycle → Prop where
  | run {triggerData : List (String × Value)} {environment : String} {j : QueuedJob}
      (env : RunEnv) (hjob : s.jobs[job]? = some j)
      (hpayload : j.payload = .run triggerData environment) :
      Begins s job true
        (execute { env with startedAt := s.now } s.workflow triggerData s.doc.record.executionId
          environment) s
  | resume {approved : Bool} {j : QueuedJob} {e : WorkflowExecution} {c : CallResult}
      (env : RunEnv) (hjob : s.jobs[job]? = some j) (hpayload : j.payload = .resume approved)
      (hload : s.doc.load = some e) (hc : resume env s.workflow e approved = .ok c) :
      Begins s job false c { s with resumed := approved :: s.resumed }

section
variable {cfg : LifecycleConfig} {i job : Nat} {input : Input} {s s' : Lifecycle}
  {w w' : Worker}

theorem Worker.start_cases {env : RunEnv} (h : Worker.start s job env = some (s', w')) :
    (s' = s ∧ w' = .settling job true) ∨
      ∃ timed c, Begins s job timed c s' ∧ w' = .executing job timed (workerPlan c.trace) none := by
  unfold Worker.start at h
  split at h
  next => cases h
  next triggerData environment retries settled hjob =>
    cases h
    exact Or.inr ⟨_, _, .run env hjob rfl, rfl⟩
  next approved retries settled hjob =>
    split at h
    next =>
      cases h
      exact Or.inl ⟨rfl, rfl⟩
    next e hload =>
      split at h
      next =>
        cases h
        exact Or.inl ⟨rfl, rfl⟩
      next c hc =>
        cases h
        exact Or.inr ⟨_, _, .resume env hjob rfl hload hc, rfl⟩

/-- What a step of a worker does: it begins its job or cannot, takes the next command, is
interrupted by the execution timeout, returns, or settles its job. -/
inductive WorkerStep (cfg : LifecycleConfig) (i : Nat) (s : Lifecycle) :
    Worker → Input → Lifecycle → Worker → Prop where
  | begin {job : Nat} {timed : Bool} {c : CallResult} {s' : Lifecycle} (env : RunEnv)
      (h : Begins s job timed c s') :
      WorkerStep cfg i s (.received job) (.start env) s'
        (.executing job timed (workerPlan c.trace) none)
  | refuse {job : Nat} (input : Input) :
      WorkerStep cfg i s (.received job) input s (.settling job true)
  | act {job : Nat} {timed : Bool} {a : WorkerAction} {plan : List WorkerAction}
      {last : Option WorkflowExecution} {s' : Lifecycle} (w : Write) (h : s.act i w a = some s') :
      WorkerStep cfg i s (.executing job timed (a :: plan) last) (.act w) s'
        (.executing job timed plan (a.saved.or last))
  | interrupt {job : Nat} {a : WorkerAction} {plan : List WorkerAction}
      {last : Option WorkflowExecution} {r : WorkflowExecution} (ha : a.awaits = true)
      (hr : Worker.interrupted (a :: plan) last = some r) (hstatus : r.status ≠ .timedOut) :
      WorkerStep cfg i s (.executing job true (a :: plan) last) .interrupt s
        (.executing job false (Worker.timeoutPlan cfg r) last)
  | finish {job : Nat} {timed : Bool} {last : Option WorkflowExecution} (w : Write) :
      WorkerStep cfg i s (.executing job timed [] last) (.act w) s (.settling job false)
  | settle {job : Nat} {failed : Bool} (w : Write) :
      WorkerStep cfg i s (.settling job failed) (.act w)
        (if w.ran then { s with jobs := s.jobs.modify job (Worker.settle cfg failed) } else s) .done

theorem Worker.step_cases (h : w.step cfg i input s = some (s', w')) :
    WorkerStep cfg i s w input s' w' := by
  cases w with
  | received job =>
      cases input with
      | start env =>
          rcases Worker.start_cases h with ⟨rfl, rfl⟩ | ⟨timed, c, hbegins, rfl⟩
          · exact .refuse _
          · exact .begin env hbegins
      | refuse =>
          cases h
          exact .refuse _
      | act w => cases h
      | interrupt => cases h
  | executing job timed plan last =>
      cases plan with
      | nil =>
          cases input with
          | act w =>
              cases h
              exact .finish w
          | start env | refuse | interrupt => cases h
      | cons a plan =>
          cases input with
          | act w =>
              obtain ⟨s₁, hs₁, heq⟩ := Option.map_eq_some_iff.mp h
              cases heq
              exact .act w hs₁
          | interrupt =>
              simp only [Worker.step] at h
              split at h
              next r hawaits hr =>
                rw [Bool.and_eq_true] at hawaits
                obtain ⟨rfl, ha⟩ := hawaits
                split at h
                next => cases h
                next hstatus =>
                  cases h
                  exact .interrupt ha hr hstatus
              next => cases h
          | start env | refuse => cases h
  | settling job failed =>
      cases input with
      | act w =>
          cases h
          exact .settle w
      | start env | refuse | interrupt => cases h
  | done => cases h

end

/-! ## One command -/

/-- A record that can be resumed is paused or resuming. -/
theorem resume_waiting {env : RunEnv} {wf : WorkflowDefinition} {e : WorkflowExecution}
    {approved : Bool} {c : CallResult} (hc : resume env wf e approved = .ok c) :
    e.status = .paused ∨ e.status = .resuming := by
  unfold resume at hc
  split at hc
  · cases hc
  · rename_i hstatus
    tauto

theorem ExecutionDocument.load_status {d : ExecutionDocument} {e : WorkflowExecution}
    (h : d.load = some e) : d.status = .written e.status := by
  unfold ExecutionDocument.load at h
  split at h
  next => cases h
  next status hs =>
    cases h
    exact hs

section
variable {i : Nat} {s s' : Lifecycle}

def WorkerAction.isRun : WorkerAction → Bool
  | .event (.run _ _) => true
  | _ => false

/-- What a command of a worker does: a node run, a request, a save, or nothing but a change of
the flag. -/
inductive ActStep (i : Nat) (s : Lifecycle) (w : Write) : WorkerAction → Lifecycle → Prop where
  | ran (ctx : NodeContext) (r : NodeRun) :
      ActStep i s w (.event (.run ctx r))
        { s with runs := ⟨i, ctx.nodeId, r.isCompleted⟩ :: s.runs }
  | asked (request : ApprovalRequest) (h : w.ran = true) :
      ActStep i s w (.event (.approval request))
        { s with approvals := s.approvals ++ [{ request, createdAt := s.now }] }
  | saved (r : WorkflowExecution) (h : w.ran = true) :
      ActStep i s w (.event (.save r)) { s with doc := s.doc.save r }
  | quiet (a : WorkerAction) (flag : Key Unit) (h : a.isRun = false) :
      ActStep i s w a { s with cancelFlag := flag }

theorem act_cases {w : Write} {a : WorkerAction} (h : s.act i w a = some s') :
    ActStep i s w a s' := by
  cases a with
  | probe expected =>
      simp only [Lifecycle.act] at h
      split at h <;> cases h
      exact .quiet _ s.cancelFlag rfl
  | clearFlag =>
      cases h
      split
      · exact .quiet _ none rfl
      · exact .quiet _ s.cancelFlag rfl
  | event ev =>
      cases h
      cases ev with
      | run ctx r => exact .ran ctx r
      | save r =>
          cases hran : w.ran with
          | true => simpa [Lifecycle.perform, hran] using ActStep.saved r hran
          | false => simpa [Lifecycle.perform, hran] using ActStep.quiet _ s.cancelFlag rfl
      | approval q =>
          cases hran : w.ran with
          | true => simpa [Lifecycle.perform, hran] using ActStep.asked q hran
          | false => simpa [Lifecycle.perform, hran] using ActStep.quiet _ s.cancelFlag rfl
      | skip nid | notifyFailure label error | sweepBlobs => exact .quiet _ s.cancelFlag rfl

end

/-! ## The queue -/

section
variable {α : Type*} {f : α → α} {job k : Nat} {l : List α}

theorem mem_modify {x : α} (h : x ∈ l.modify job f) : ∃ y ∈ l, x = y ∨ x = f y := by
  obtain ⟨k, hk⟩ := List.mem_iff_getElem?.mp h
  rw [List.getElem?_modify] at hk
  obtain ⟨y, hy, heq⟩ := Option.map_eq_some_iff.mp hk
  refine ⟨y, List.mem_of_getElem? hy, ?_⟩
  split at heq
  · exact Or.inr heq.symm
  · exact Or.inl heq.symm

/-- A change of one job changes nothing that does not depend on it. -/
theorem any_modify {P : α → Bool} (h : ∀ x, P (f x) = P x) :
    ((l.modify job f)[k]?).any P = (l[k]?).any P := by
  rw [List.getElem?_modify]
  cases l[k]? with
  | none => rfl
  | some x =>
      simp only [Option.map_eq_map, Option.map_some, Option.any_some]
      split
      · exact h x
      · rfl

end

@[simp] theorem Worker.settle_payload (cfg : LifecycleConfig) (failed : Bool) (j : QueuedJob) :
    (Worker.settle cfg failed j).payload = j.payload := by
  unfold Worker.settle
  split <;> rfl

/-- A settled job stays settled. -/
theorem Worker.settle_settled {cfg : LifecycleConfig} {failed : Bool} {j : QueuedJob}
    (h : j.settled = true) : (Worker.settle cfg failed j).settled = true := by
  unfold Worker.settle
  split
  · exact h
  · rfl

/-! ## Who runs nodes -/

section
variable {cfg : LifecycleConfig} {i started : Nat} {input : Input} {w : Write} {s s' : Lifecycle}
  {p p' : Proc}

theorem Outside.apply_logs {e : Outside} (h : e.apply s = some s') :
    s'.accepted = s.accepted ∧ s'.resumed = s.resumed ∧ s'.runs = s.runs := by
  cases e with
  | tick now =>
      simp only [Outside.apply] at h
      split at h <;> cases h
      exact ⟨rfl, rfl, rfl⟩
  | edit workflow | drop job =>
      cases h
      exact ⟨rfl, rfl, rfl⟩

theorem Outside.apply_doc {e : Outside} (h : e.apply s = some s') :
    s'.doc = s.doc ∧ s'.runs = s.runs := by
  cases e with
  | tick now =>
      simp only [Outside.apply] at h
      split at h <;> cases h
      exact ⟨rfl, rfl⟩
  | edit workflow | drop job =>
      cases h
      exact ⟨rfl, rfl⟩

/-- Only a worker runs nodes and resumes. -/
structure Untouched (s s' : Lifecycle) : Prop where
  runs : s'.runs = s.runs
  resumed : s'.resumed = s.resumed
  workflow : s'.workflow = s.workflow
  now : s'.now = s.now

theorem DecisionStage.untouched {approved : Bool} {stage stage' : DecisionStage}
    (h : stage.step approved w s = some (s', stage')) : Untouched s s' := by
  cases stage with
  | cas =>
      simp only [DecisionStage.step] at h
      split at h <;> cases h
      · split <;> exact ⟨rfl, rfl, rfl, rfl⟩
      · exact ⟨rfl, rfl, rfl, rfl⟩
  | read =>
      cases h
      exact ⟨rfl, rfl, rfl, rfl⟩
  | enqueue approvalId | rollback approvalId =>
      cases h
      split <;> exact ⟨rfl, rfl, rfl, rfl⟩
  | done => cases h

/-- And only a decision is logged as accepted, or taken back. -/
structure Undecided (s s' : Lifecycle) : Prop extends Untouched s s' where
  accepted : s'.accepted = s.accepted

theorem CancelStage.undecided {stage stage' : CancelStage}
    (h : stage.step cfg w s = some (s', stage')) : Undecided s s' := by
  cases stage with
  | cas =>
      simp only [CancelStage.step] at h
      split at h <;> cases h
      · split <;> exact ⟨⟨rfl, rfl, rfl, rfl⟩, rfl⟩
      · exact ⟨⟨rfl, rfl, rfl, rfl⟩, rfl⟩
  | read =>
      cases h
      exact ⟨⟨rfl, rfl, rfl, rfl⟩, rfl⟩
  | mark status | flag status | cleanup =>
      cases h
      split <;> exact ⟨⟨rfl, rfl, rfl, rfl⟩, rfl⟩
  | done => cases h

theorem ReaperStage.undecided {stage stage' : ReaperStage}
    (h : stage.step cfg started w s = some (s', stage')) : Undecided s s' := by
  cases stage with
  | act snap =>
      simp only [ReaperStage.step] at h
      split at h <;> cases h
      · split <;> exact ⟨⟨rfl, rfl, rfl, rfl⟩, rfl⟩
      · exact ⟨⟨rfl, rfl, rfl, rfl⟩, rfl⟩
  | read =>
      cases h
      exact ⟨⟨rfl, rfl, rfl, rfl⟩, rfl⟩
  | enqueue snap | rollback snap =>
      cases h
      split <;> exact ⟨⟨rfl, rfl, rfl, rfl⟩, rfl⟩
  | done => cases h

theorem SweepStage.undecided {stage stage' : SweepStage}
    (h : stage.step started w s = some (s', stage')) : Undecided s s' := by
  cases stage with
  | read =>
      cases h
      exact ⟨⟨rfl, rfl, rfl, rfl⟩, rfl⟩
  | mark pending =>
      cases pending with
      | nil =>
          cases h
          exact ⟨⟨rfl, rfl, rfl, rfl⟩, rfl⟩
      | cons a pending =>
          cases h
          split <;> exact ⟨⟨rfl, rfl, rfl, rfl⟩, rfl⟩
  | fail a pending =>
      cases h
      split <;> exact ⟨⟨rfl, rfl, rfl, rfl⟩, rfl⟩
  | done => cases h

/-- A sweep of the reaper that has not returned. -/
def Proc.sweeping : Proc → Bool
  | .reaper _ .done => false
  | .reaper _ _ => true
  | _ => false

/-- A process before its first step. -/
inductive Proc.Starting (s : Lifecycle) : Proc → Prop where
  | received {job : Nat} {j : QueuedJob} (hjob : s.jobs[job]? = some j) (hopen : j.settled = false) :
      Starting s (.worker (.received job))
  | decision (approved : Bool) : Starting s (.decision approved .read)
  | cancel : Starting s (.cancel .read)
  | reaper : Starting s (.reaper s.now .read)
  | approvalSweep : Starting s (.approvalSweep s.now .read)

/-- The start of a process changes nothing. -/
theorem lifecycleSystem_spawn {n : Nat} {x : Spawn}
    (h : (lifecycleSystem cfg).spawn n x s = some (s', p)) : s' = s ∧ p.Starting s := by
  obtain ⟨p', hp, heq⟩ := Option.map_eq_some_iff.mp h
  cases heq
  refine ⟨rfl, ?_⟩
  cases x with
  | deliver job =>
      simp only [Spawn.proc] at hp
      split at hp <;> cases hp
      next hjob => exact .received hjob rfl
  | decide approved =>
      cases hp
      exact .decision approved
  | cancel =>
      cases hp
      exact .cancel
  | reap =>
      cases hp
      exact .reaper
  | sweepApprovals =>
      cases hp
      exact .approvalSweep

/-- A step is one of a worker, or a command of an endpoint or a sweep, which runs no node. -/
inductive ProcStep (cfg : LifecycleConfig) (i : Nat) (s : Lifecycle) :
    Proc → Input → Lifecycle → Proc → Prop where
  | worker {input : Input} {stage stage' : Worker} {s' : Lifecycle}
      (h : WorkerStep cfg i s stage input s' stage') :
      ProcStep cfg i s (.worker stage) input s' (.worker stage')
  | decision {approved : Bool} {stage stage' : DecisionStage} {s' : Lifecycle} (w : Write)
      (h : stage.step approved w s = some (s', stage')) :
      ProcStep cfg i s (.decision approved stage) (.act w) s' (.decision approved stage')
  | cancel {stage stage' : CancelStage} {s' : Lifecycle} (w : Write)
      (h : stage.step cfg w s = some (s', stage')) :
      ProcStep cfg i s (.cancel stage) (.act w) s' (.cancel stage')
  | reaper {started : Nat} {stage stage' : ReaperStage} {s' : Lifecycle} (w : Write)
      (h : stage.step cfg started w s = some (s', stage')) :
      ProcStep cfg i s (.reaper started stage) (.act w) s' (.reaper started stage')
  | approvalSweep {started : Nat} {stage stage' : SweepStage} {s' : Lifecycle} (w : Write)
      (h : stage.step started w s = some (s', stage')) :
      ProcStep cfg i s (.approvalSweep started stage) (.act w) s' (.approvalSweep started stage')

theorem Proc.step_cases (h : p.step cfg i input s = some (s', p')) :
    ProcStep cfg i s p input s' p' := by
  cases p with
  | worker stage =>
      obtain ⟨⟨s₁, stage'⟩, hstage, heq⟩ := Option.map_eq_some_iff.mp h
      cases heq
      exact .worker (Worker.step_cases hstage)
  | decision approved stage =>
      cases input with
      | act w =>
          obtain ⟨⟨s₁, stage'⟩, hstage, heq⟩ := Option.map_eq_some_iff.mp h
          cases heq
          exact .decision w hstage
      | start env | refuse | interrupt => cases h
  | cancel stage =>
      cases input with
      | act w =>
          obtain ⟨⟨s₁, stage'⟩, hstage, heq⟩ := Option.map_eq_some_iff.mp h
          cases heq
          exact .cancel w hstage
      | start env | refuse | interrupt => cases h
  | reaper started stage =>
      cases input with
      | act w =>
          obtain ⟨⟨s₁, stage'⟩, hstage, heq⟩ := Option.map_eq_some_iff.mp h
          cases heq
          exact .reaper w hstage
      | start env | refuse | interrupt => cases h
  | approvalSweep started stage =>
      cases input with
      | act w =>
          obtain ⟨⟨s₁, stage'⟩, hstage, heq⟩ := Option.map_eq_some_iff.mp h
          cases heq
          exact .approvalSweep w hstage
      | start env | refuse | interrupt => cases h

theorem ProcStep.accepted (h : ProcStep cfg i s p input s' p') :
    s'.accepted = s.accepted ∨ ∃ approved stage, p = .decision approved stage := by
  cases h with
  | worker h =>
      left
      cases h with
      | begin env hbegins => cases hbegins <;> rfl
      | act w h => cases act_cases h <;> rfl
      | settle w => split <;> rfl
      | refuse | interrupt | finish => rfl
  | @decision approved stage => exact Or.inr ⟨approved, stage, rfl⟩
  | cancel w h => exact Or.inl (CancelStage.undecided h).accepted
  | reaper w h => exact Or.inl (ReaperStage.undecided h).accepted
  | approvalSweep w h => exact Or.inl (SweepStage.undecided h).accepted

end

/-! ## The shape of a call -/

/-- Only tells somebody, or cleans up. -/
def Event.isQuiet : Event → Bool
  | .notifyFailure _ _ | .sweepBlobs => true
  | .run _ _ | .skip _ | .approval _ | .save _ => false

/-- A call saves its record as running until it saves it for the last time; then it is quiet. -/
structure Concluding (t : List Event) : Prop where
  split : ∃ pre last post, t = pre ++ last ++ post ∧ (∀ e, .save e ∈ pre → e.status = .running) ∧
    (last = [] ∨ ∃ r, last = [.save r]) ∧ ∀ ev ∈ post, ev.isQuiet = true

/-- In the loop the record is running and was saved as nothing else. -/
structure Checkpointing (s : LoopState) : Prop where
  status : s.execution.status = .running
  saved : ∀ e, .save e ∈ s.trace → e.status = .running

section
variable {seg : Segment} {env : RunEnv} {wf : WorkflowDefinition} {nid : NodeId}

theorem Advance.checkpointing {f : Fate} {s s' : LoopState} (ha : Advance seg env wf nid f s s')
    (h : Checkpointing s) : Checkpointing s' := by
  have hstatus : s'.execution.status = .running := ha.status.trans h.status
  refine ⟨hstatus, fun e he => ?_⟩
  obtain ⟨saves, htrace, hsaves⟩ := ha.trace
  rw [htrace] at he
  rcases List.mem_append.mp he with he | he
  · exact h.saved e he
  · rcases List.mem_cons.mp he with he | he
    · cases f <;> cases he
    · cases hsaves _ he
      exact hstatus

theorem Checkpointing.invariant : Invariant seg env wf fun _ s => Checkpointing s where
  collect _ _ _ h _ := ⟨h.status, h.saved⟩
  advance _ _ _ _ _ h _ _ ha := ha.checkpointing h

theorem Concluding.of_running {t : List Event} (h : ∀ e, .save e ∈ t → e.status = .running) :
    Concluding t :=
  ⟨t, [], [], by simp, h, Or.inl rfl, by simp⟩

/-- A last save, and what tells of it. -/
theorem Concluding.of_save {pre post : List Event} (r : WorkflowExecution)
    (h : ∀ e, .save e ∈ pre → e.status = .running) (hpost : ∀ ev ∈ post, ev.isQuiet = true) :
    Concluding (pre ++ .save r :: post) :=
  ⟨pre, [.save r], post, by simp, h, Or.inr ⟨r, rfl⟩, hpost⟩

theorem Concluding.saved (r : WorkflowExecution) : Concluding [.save r] :=
  ⟨[], [.save r], [], rfl, by simp, Or.inr ⟨r, rfl⟩, by simp⟩

theorem Concluding.sweep {s : LoopState} (h : Concluding s.trace) :
    Concluding (sweepBlobsIfTerminal s).trace := by
  unfold sweepBlobsIfTerminal
  split
  · obtain ⟨pre, last, post, htrace, hpre, hlast, hpost⟩ := h.split
    refine ⟨pre, last, post ++ [.sweepBlobs], ?_, hpre, hlast, fun ev hev => ?_⟩
    · simp [LoopState.emit, htrace]
    · rcases List.mem_append.mp hev with hev | hev
      · exact hpost ev hev
      · cases List.mem_singleton.mp hev
        rfl
  · exact h

/-- A step that raises has saved nothing. -/
theorem Stops.raise_saved {s s' : LoopState} {err : PyError}
    (hstop : Stops seg env wf nid s (.raise err s')) {e : WorkflowExecution}
    (he : .save e ∈ s'.trace) : .save e ∈ s.trace := by
  cases hstop with
  | missing hn => exact he
  | badRoute hr => exact he
  | stepLimit hl => exact he
  | @badOutput f output e' s' hd ho hw hs ht =>
      rw [ht] at he
      rcases List.mem_append.mp he with he | he
      · exact he
      · cases f <;> simp [Fate.event] at he

/-- A step that halts the loop saves last. -/
theorem Stops.halt_concluding {s s' : LoopState} (hstop : Stops seg env wf nid s (.halt s'))
    (h : Checkpointing s) : Concluding s'.trace := by
  have hrun : ∀ f : Fate, ∀ e, .save e ∈ s.trace ++ [f.event nid] → e.status = .running := by
    intro f e he
    rcases List.mem_append.mp he with he | he
    · exact h.saved e he
    · cases f <;> simp [Fate.event] at he
  cases hstop with
  | cancelled hc => exact .of_save _ h.saved (by simp)
  | @paused f s' hp =>
      obtain ⟨approvals, htrace, happrovals⟩ := hp.trace
      rw [htrace]
      refine .of_save _ (fun e he => ?_) (by simp)
      rw [← List.singleton_append, ← List.append_assoc] at he
      rcases List.mem_append.mp he with he | he
      · exact hrun f e he
      · obtain ⟨request, hr⟩ := happrovals _ he
        cases hr
  | @failed f n s' hd hf hn hhard hex hout hsoft hres htrig hstatus ht =>
      obtain ⟨label, error, htrace⟩ := ht
      rw [htrace, ← List.singleton_append, ← List.append_assoc]
      exact .of_save _ (hrun f) (by simp [Event.isQuiet])

/-- Whatever ends the loop, the call saves last. -/
theorem Ends.concluding {o : LoopOutcome} (config : Config)
    (h : Ends seg env wf (fun _ s => Checkpointing s) o) : Concluding (o.settle config).trace := by
  cases o with
  | finished s => exact (Concluding.of_save _ h.1.saved (by simp)).sweep
  | outOfRounds s => exact .of_running h.1.saved
  | halted s =>
      obtain ⟨nid, batch, t, ht, -, hstop⟩ := h
      exact (hstop.halt_concluding ht).sweep
  | raised e s =>
      obtain ⟨nid, batch, t, ht, -, hstop⟩ := h
      exact (Concluding.of_save _ (fun e he => ht.saved e (hstop.raise_saved he)) (by simp)).sweep
  | timedOut s =>
      obtain ⟨nid, batch, t, ht, -, hstop⟩ := h
      cases hstop with
      | @expired ctx result hseg htime hd =>
          have hstatus : ((t.enter nid).afterRun env ctx).execution.status = .running := ht.status
          simp only [LoopOutcome.settle, expire, sweepBlobsIfTerminal, hstatus,
            ExecutionStatus.terminal, Bool.false_eq_true, if_false, LoopState.emit, LoopState.save]
          rw [List.append_assoc]
          refine .of_save _ (fun e he => ht.saved e ?_) (by simp [Event.isQuiet])
          simpa [LoopState.afterRun, LoopState.emit, LoopState.enter] using he

theorem execute_concluding (env : RunEnv) (wf : WorkflowDefinition)
    (triggerData : List (String × Value)) (executionId environment : String) :
    Concluding (execute env wf triggerData executionId environment).trace := by
  have hstart : Checkpointing (executeStart env wf triggerData executionId environment) :=
    ⟨rfl, by simp [executeStart]⟩
  simp only [execute, LoopState.toResult]
  rcases executeLoop_cases env wf triggerData executionId environment wf.nodeIds.card with
    hl | ⟨err, hl⟩
  · have hends : Ends .execute env wf (fun _ s => Checkpointing s)
        (executeLoop env wf triggerData executionId environment wf.nodeIds.card) := by
      rw [hl]
      exact runRounds_rule Checkpointing.invariant _ _ hstart
    exact hends.concluding _
  · rw [hl]
    exact (Concluding.of_save _ hstart.saved (by simp)).sweep

theorem resume_concluding {env : RunEnv} {wf : WorkflowDefinition} {e : WorkflowExecution}
    {approved : Bool} {c : CallResult} (hc : resume env wf e approved = .ok c) :
    Concluding c.trace := by
  cases approved with
  | true =>
      obtain ⟨-, rfl⟩ := resume_approved hc
      have hends : Ends .resume env wf (fun _ s => Checkpointing s)
          (resumeLoop env wf e wf.nodeIds.card) :=
        runRounds_rule Checkpointing.invariant _ _ ⟨rfl, by simp [resumeStart]⟩
      exact hends.concluding _
  | false =>
      unfold resume at hc
      split at hc
      · cases hc
      · simp only [Bool.not_false, if_true, Except.ok.injEq] at hc
        subst hc
        exact (Concluding.saved _).sweep

end

/-! ## The shape of a plan -/

/-- The command runs a node or saves the record. -/
def WorkerAction.touches : WorkerAction → Bool
  | .event (.run _ _) | .event (.save _) => true
  | _ => false

/-- After a save of a terminal status the plan touches the execution no more. -/
def Concludes : List WorkerAction → Prop
  | [] => True
  | a :: plan =>
      (∀ r, a.saved = some r → r.status.terminal = true → ∀ b ∈ plan, b.touches = false) ∧
        Concludes plan

theorem Concludes.append {p q : List WorkerAction}
    (hp : ∀ a ∈ p, ∀ r, a.saved = some r → r.status.terminal = false) (hq : Concludes q) :
    Concludes (p ++ q) := by
  induction p with
  | nil => exact hq
  | cons a p ih =>
      refine ⟨fun r hr hterminal => ?_, ih fun b hb => hp b (List.mem_cons_of_mem _ hb)⟩
      simp [hp a List.mem_cons_self r hr] at hterminal

theorem workerPlan_append (t u : List Event) :
    workerPlan (t ++ u) = workerPlan t ++ workerPlan u :=
  List.flatMap_append

/-- A command of a plan that saves comes from the save of the call. -/
theorem mem_workerPlan_saved {t : List Event} {a : WorkerAction} {r : WorkflowExecution}
    (ha : a ∈ workerPlan t) (hr : a.saved = some r) : .save r ∈ t := by
  obtain ⟨ev, hev, ha⟩ := List.mem_flatMap.mp ha
  cases ev with
  | save r' =>
      simp only [Event.actions] at ha
      split at ha
      · simp only [List.mem_cons, List.not_mem_nil, or_false] at ha
        rcases ha with rfl | rfl | rfl <;> simp_all [WorkerAction.saved]
      · simp only [List.mem_singleton] at ha
        subst ha
        simp_all [WorkerAction.saved]
  | run ctx result | skip nid =>
      simp only [Event.actions, List.mem_cons, List.not_mem_nil, or_false] at ha
      rcases ha with rfl | rfl <;> simp [WorkerAction.saved] at hr
  | approval q | notifyFailure label error | sweepBlobs =>
      simp only [Event.actions, List.mem_singleton] at ha
      subst ha
      simp [WorkerAction.saved] at hr

theorem workerPlan_quiet {t : List Event} (h : ∀ ev ∈ t, ev.isQuiet = true) :
    ∀ a ∈ workerPlan t, a.touches = false ∧ a.saved = none := by
  intro a ha
  obtain ⟨ev, hev, ha⟩ := List.mem_flatMap.mp ha
  have hq := h ev hev
  cases ev with
  | run ctx r | skip nid | approval q | save r => simp [Event.isQuiet] at hq
  | notifyFailure label error | sweepBlobs =>
      simp only [Event.actions, List.mem_singleton] at ha
      subst ha
      exact ⟨rfl, rfl⟩

theorem Concluding.concludes {t : List Event} (h : Concluding t) : Concludes (workerPlan t) := by
  obtain ⟨pre, last, post, rfl, hpre, hlast, hpost⟩ := h.split
  have hquiet := workerPlan_quiet hpost
  have hpostPlan : Concludes (workerPlan post) := by
    rw [← List.append_nil (workerPlan post)]
    exact Concludes.append (fun a ha r hr => by simp [(hquiet a ha).2] at hr) trivial
  have hprePlan : ∀ a ∈ workerPlan pre, ∀ r, a.saved = some r → r.status.terminal = false := by
    intro a ha r hr
    rw [hpre r (mem_workerPlan_saved ha hr)]
    rfl
  rw [workerPlan_append, workerPlan_append, List.append_assoc]
  refine Concludes.append hprePlan ?_
  rcases hlast with rfl | ⟨r, rfl⟩
  · exact hpostPlan
  · simp only [workerPlan, List.flatMap_cons, List.flatMap_nil, List.append_nil, Event.actions]
    split
    · exact ⟨fun _ hr => by simp [WorkerAction.saved] at hr,
        fun _ _ _ a ha => by
          rcases List.mem_cons.mp ha with rfl | ha
          · rfl
          · exact (hquiet a ha).1,
        fun _ hr => by simp [WorkerAction.saved] at hr, hpostPlan⟩
    · exact ⟨fun _ _ _ a ha => (hquiet a ha).1, hpostPlan⟩

theorem timeoutPlan_concludes (cfg : LifecycleConfig) (r : WorkflowExecution) :
    Concludes (Worker.timeoutPlan cfg r) := by
  refine ⟨fun _ _ _ a ha => ?_, fun _ hr => by simp [WorkerAction.saved] at hr, trivial⟩
  cases List.mem_singleton.mp ha
  rfl

theorem Begins.concludes {s s' : Lifecycle} {job : Nat} {timed : Bool} {c : CallResult}
    (h : Begins s job timed c s') : Concludes (workerPlan c.trace) := by
  cases h with
  | run env hjob hpayload => exact (execute_concluding _ _ _ _ _).concludes
  | resume env hjob hpayload hload hc => exact (resume_concluding hc).concludes

/-! ## Runs to play -/

/-- An execution that has just been queued. -/
def submitted (workflow : WorkflowDefinition) : Lifecycle where
  now := 0
  workflow
  doc := { status := .queued, record := { executionId := "ex", workflowId := "wf" } }
  jobs := [{ payload := .run [] "test" }]

/-- The request that an event inserts. -/
def Event.request? : Event → Option ApprovalRequest
  | .approval request => some request
  | _ => none

/-- `approvalFlow` while it waits for a human; its first job has been settled. -/
def asked : Lifecycle where
  now := 0
  workflow := approvalFlow
  doc := { status := .written .paused, record := (askCall approvalFlow).execution }
  approvals := ((askCall approvalFlow).trace.filterMap Event.request?).map ({ request := ·, createdAt := 0 })
  runs := [⟨0, "ask", true⟩, ⟨0, "start", true⟩]

/-- A job is delivered to process `i`, which begins it and takes `n` commands. -/
def deliverMoves (env : RunEnv) (job i n : Nat) : List LifecycleMove :=
  .spawn (.deliver job) :: .step i (.start env) :: List.replicate n (.step i (.act .done))

/-- An endpoint or a sweep starts as process `i` and takes `n` commands. -/
def callMoves (x : Spawn) (i n : Nat) : List LifecycleMove :=
  .spawn x :: List.replicate n (.step i (.act .done))

end CitraFlows
