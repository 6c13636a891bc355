-- SUMMARY: Which approval request a paused run waits for: the calls of one execution, and when each of their pauses has a request of its own.
import CitraFlows.Executor.Completeness

/-!
# Approval requests

`execute()` creates an approval request when it pauses and stores its id in the record.
`resume()` clears the id when it starts and creates no request when it pauses again, so
that its pauses wait for nobody.
-/

namespace CitraFlows

open Worklist

variable {seg : Segment} {env : RunEnv} {wf : WorkflowDefinition} {nid : NodeId}

/-! ## The calls of an execution -/

/-- A call of one of the two entry points. -/
structure Call where
  env : RunEnv
  segment : Segment
  result : CallResult

/-- The ids a call gives to its approval requests are not those of the calls before. -/
def FreshIds (env : RunEnv) (cs : List Call) : Prop :=
  ∀ c ∈ cs, ∀ n m, env.approvalId n ≠ c.env.approvalId m

/-- The calls made for an execution, in order: `execute()` any number of times (its job may be
delivered again), and `resume()` with any record that was saved before, whatever status it has
been set to since. -/
inductive Calls (wf : WorkflowDefinition) (executionId : String) : List Call → Prop where
  | nil : Calls wf executionId []
  | execute {cs : List Call} (h : Calls wf executionId cs) {env : RunEnv}
      (hfresh : FreshIds env cs) (triggerData : List (String × Value)) (environment : String) :
      Calls wf executionId
        (cs ++ [⟨env, .execute, execute env wf triggerData executionId environment⟩])
  | resume {cs : List Call} (h : Calls wf executionId cs) {env : RunEnv}
      (hfresh : FreshIds env cs) {c₀ : Call} (hc₀ : c₀ ∈ cs) {e : WorkflowExecution}
      (hsaved : .save e ∈ c₀.result.trace) (status : ExecutionStatus) (approved : Bool)
      {result : CallResult} (hr : resume env wf { e with status := status } approved = .ok result) :
      Calls wf executionId (cs ++ [⟨env, .resume, result⟩])

/-- The call saves this record as paused. -/
def CallResult.PausesWith (c : CallResult) (e : WorkflowExecution) : Prop :=
  .save e ∈ c.trace ∧ e.status = .paused

/-- The request was created for the pause the record was saved with: it is the only one the
call has created, and the record links to it. -/
structure AskedFor (executionId : String) (c : CallResult) (e : WorkflowExecution)
    (request : ApprovalRequest) : Prop where
  created : ∃ t, c.trace = t ++ [.approval request, .save e] ∧ ∀ r, .approval r ∉ t
  approvalId : e.approvalId = some request.approvalId
  execution : request.executionId = executionId ∧ e.executionId = executionId
  node : e.pausedAtNode = some request.nodeId

/-- Every pause has its own pending approval. -/
structure PausesAsk (executionId : String) (cs : List Call) : Prop where
  asked : ∀ c ∈ cs, ∀ e, c.result.PausesWith e → ∃ request, AskedFor executionId c.result e request
  once : ∀ c ∈ cs, ∀ e e', c.result.PausesWith e → c.result.PausesWith e' → e = e'
  distinct : cs.Pairwise fun c c' => ∀ e e', c.result.PausesWith e → c'.result.PausesWith e' →
    e.approvalId ≠ e'.approvalId

/-! ## What a step does to the link -/

/-- A node that does not end the loop leaves the identity of the record alone. -/
theorem processNode_identity {s s' : LoopState} (h : processNode seg env wf nid s = .next s') :
    s'.execution.executionId = s.execution.executionId ∧
      s'.execution.approvalId = s.execution.approvalId := by
  unfold processNode at h
  split at h
  · cases h
  split at h
  · cases h
  split at h
  · cases h
  split at h
  · cases h; exact ⟨rfl, rfl⟩
  split at h
  · cases h; exact ⟨rfl, rfl⟩
  unfold runNode at h
  split at h
  · cases h
  dsimp only at h
  split at h
  · cases h
  split at h
  · split at h
    · unfold completedExecute at h
      dsimp only at h
      split at h
      · cases h
      · split at h <;> cases h
      · split at h <;> cases h <;> exact ⟨rfl, rfl⟩
    · unfold completedResume at h
      split at h <;> cases h
      exact ⟨rfl, rfl⟩
  all_goals
    unfold failedNode at h
    split at h
    · split at h <;> cases h
      exact ⟨rfl, rfl⟩
    · cases h

/-- How a node pauses the loop: only `execute()` asks somebody. -/
theorem processNode_pauses {s s' : LoopState} (h : processNode seg env wf nid s = .halt s')
    (hpaused : s'.execution.status = .paused) :
    s'.execution.executionId = s.execution.executionId ∧ s'.execution.pausedAtNode = some nid ∧
      match seg with
      | .execute => ∃ ctx result request,
          s'.trace = s.trace ++ [.run ctx result] ++ [.approval request, .save s'.execution] ∧
            s'.execution.approvalId = some request.approvalId ∧
            request.approvalId = env.approvalId nid ∧
            request.executionId = s.execution.executionId ∧ request.nodeId = nid
      | .resume => s'.execution.approvalId = s.execution.approvalId := by
  unfold processNode at h
  split at h
  · cases h
    simp [LoopState.markCancelled, LoopState.save, LoopState.emit] at hpaused
  split at h
  · cases h
  rename_i n hn
  have hid := WorkflowDefinition.nodeMap_id hn
  split at h
  · cases h
  split at h
  · cases h
  split at h
  · cases h
  unfold runNode at h
  split at h
  · cases h
  dsimp only at h
  split at h
  · cases h
  -- of the steps that halt, only a node that has asked leaves the record paused
  split at h
  · split at h
    · unfold completedExecute at h
      dsimp only at h
      split at h
      · cases h
      · split at h
        · cases h
        · rename_i request hrequest
          unfold approvalRequest at hrequest
          split at hrequest
          · cases hrequest
            cases h
            exact ⟨rfl, rfl, _, _, _, List.append_assoc _ _ _, rfl, by rw [hid], rfl, hid⟩
          · cases hrequest
      · split at h <;> cases h
    · unfold completedResume at h
      split at h <;> cases h
      exact ⟨rfl, rfl, rfl⟩
  all_goals
    unfold failedNode failFast at h
    split at h
    · split at h <;> cases h
      simp [LoopState.save, LoopState.emit] at hpaused
    · cases h
      simp [LoopState.save, LoopState.emit] at hpaused

/-- `resume()` does not validate anything when a node asks for an approval, so that an
exception after a node has run comes from its metadata. -/
theorem processNode_resume_raise {s s' : LoopState} {err : PyError} {f : Fate} {output : Value}
    (h : processNode .resume env wf nid s = .raise err s')
    (ht : s'.trace = s.trace ++ [f.event nid]) (ho : f.output = some output) :
    waitingApproval output = .error err := by
  have hself : s.trace ≠ s.trace ++ [f.event nid] := by simp
  unfold processNode at h
  split at h
  · cases h
  split at h
  · cases h
    exact absurd ht hself
  split at h
  · cases h
    exact absurd ht hself
  split at h
  · cases h
  split at h
  · cases h
  unfold runNode at h
  split at h
  · cases h
    exact absurd ht hself
  dsimp only at h
  split at h
  · cases h
  split at h
  · rename_i result output' retries errors hrun
    unfold completedResume at h
    split at h
    · rename_i hw
      cases h
      have hf := List.append_cancel_left ht
      cases f with
      | skipped => simp [Fate.output] at ho
      | ran ctx result =>
          simp only [Fate.event, List.cons.injEq, Event.run.injEq, and_true] at hf
          rw [← hf.2, hrun] at ho
          cases ho
          exact hw
    · cases h
    · cases h
  all_goals
    simp [failedNode, failFast] at h

/-! ## Loops -/

/-- A loop that has not ended has asked for nothing and saved nothing as paused. -/
structure Unasked (s₀ s : LoopState) : Prop where
  executionId : s.execution.executionId = s₀.execution.executionId
  approvalId : s.execution.approvalId = s₀.execution.approvalId
  running : s.execution.status = .running
  saves : ∀ e, .save e ∈ s.trace → e.status = .running
  requests : ∀ request, .approval request ∉ s.trace

theorem Unasked.start {s₀ : LoopState} (h₀ : Fresh s₀) (hrun : s₀.execution.status = .running) :
    Unasked s₀ s₀ :=
  ⟨rfl, rfl, hrun, by simp [h₀.trace], by simp [h₀.trace]⟩

theorem Unasked.stepInvariant {s₀ : LoopState} :
    StepInvariant seg env wf fun _ s => Unasked s₀ s where
  collect _ _ _ h _ := ⟨h.executionId, h.approvalId, h.running, h.saves, h.requests⟩
  next nid _ s s' h _ _ hs' := by
    obtain ⟨hex, happ⟩ := processNode_identity hs'
    obtain ⟨f, ha⟩ := processNode_next hs'
    obtain ⟨saves, ht, hsaves⟩ := ha.trace
    have hrun : s'.execution.status = .running := ha.status.trans h.running
    refine ⟨hex.trans h.executionId, happ.trans h.approvalId, hrun, fun e he => ?_,
      fun request hreq => ?_⟩
    · rw [ht] at he
      rcases List.mem_append.mp he with he | he
      · exact h.saves e he
      · rcases List.mem_cons.mp he with he | he
        · cases f <;> simp [Fate.event] at he
        · cases hsaves _ he
          exact hrun
    · rw [ht] at hreq
      rcases List.mem_append.mp hreq with hreq | hreq
      · exact h.requests request hreq
      · rcases List.mem_cons.mp hreq with hreq | hreq
        · cases f <;> simp [Fate.event] at hreq
        · cases hsaves _ hreq

theorem runRounds_unasked {s₀ : LoopState} (h₀ : Fresh s₀)
    (hrun : s₀.execution.status = .running) (rounds : Nat) :
    EndsAt seg env wf (fun _ s => Unasked s₀ s) (runRounds seg env wf rounds s₀) :=
  runRounds_stepRule Unasked.stepInvariant rounds s₀ (.start h₀ hrun)

/-- A record saved as paused ends the loop at a node that pauses. -/
theorem Stops.saved_paused {s : LoopState} {step : NodeStep} (hs : Stops seg env wf nid s step)
    (hrun : ∀ e, .save e ∈ s.trace → e.status = .running) {e : WorkflowExecution}
    (he : .save e ∈ step.state.trace) (hp : e.status = .paused) :
    ∃ s', step = .halt s' ∧ e = s'.execution := by
  -- what was saved before has the status `running`
  have hold : .save e ∉ s.trace := fun h => by simp [hrun e h] at hp
  cases hs with
  | cancelled hc =>
      simp only [NodeStep.state, LoopState.markCancelled, LoopState.save, LoopState.emit,
        List.mem_append, List.mem_singleton, Event.save.injEq] at he
      rcases he with he | rfl
      · exact absurd he hold
      · simp at hp
  | missing hn => exact absurd he hold
  | badRoute hr => exact absurd he hold
  | stepLimit hl => exact absurd he hold
  | @expired ctx result hseg ht hd =>
      simp only [NodeStep.state, LoopState.afterRun, LoopState.emit, List.mem_append,
        List.mem_singleton, reduceCtorEq, or_false] at he
      exact absurd he hold
  | @paused f s' hpauses =>
      obtain ⟨approvals, ht, happ⟩ := hpauses.trace
      simp only [NodeStep.state, ht, List.mem_append, List.mem_cons, List.not_mem_nil, or_false,
        Event.save.injEq] at he
      rcases he with (he | he | he) | rfl
      · exact absurd he hold
      · cases f <;> simp [Fate.event] at he
      · obtain ⟨request, hreq⟩ := happ _ he
        cases hreq
      · exact ⟨s', rfl, rfl⟩
  | @badOutput f output err s' hd ho hw hst ht =>
      simp only [NodeStep.state, ht, List.mem_append, List.mem_singleton] at he
      rcases he with he | he
      · exact absurd he hold
      · cases f <;> simp [Fate.event] at he
  | @failed f n s' hd hf hn hhard hexecuted houtputs hsoft hresults htrigger hstatus ht =>
      obtain ⟨label, error, ht⟩ := ht
      simp only [NodeStep.state, ht, List.mem_append, List.mem_cons, List.not_mem_nil, or_false,
        reduceCtorEq, Event.save.injEq] at he
      rcases he with he | he | rfl
      · exact absurd he hold
      · cases f <;> simp [Fate.event] at he
      · simp [hstatus] at hp

theorem Stops.halt_paused {s s' : LoopState} (hs : Stops seg env wf nid s (.halt s'))
    (hp : s'.execution.status = .paused) : ∃ f, Pauses seg env wf nid f s s' := by
  cases hs with
  | cancelled hc => simp [LoopState.markCancelled, LoopState.save, LoopState.emit] at hp
  | paused h => exact ⟨_, h⟩
  | failed _ _ _ _ _ _ _ _ _ hfailed _ => simp [hfailed] at hp

/-- The step of a loop that has saved a record as paused. -/
theorem EndsAt.saved_paused {s₀ : LoopState} {o : LoopOutcome}
    (h : EndsAt seg env wf (fun _ s => Unasked s₀ s) o) {e : WorkflowExecution}
    (he : .save e ∈ o.state.trace) (hp : e.status = .paused) :
    ∃ s nid s', Unasked s₀ s ∧ processNode seg env wf nid s = .halt s' ∧ o = .halted s' ∧
      e = s'.execution := by
  have hstop : ∀ step : NodeStep, (∀ s', step ≠ .next s') →
      StopsAt seg env wf (fun _ s => Unasked s₀ s) step → .save e ∈ step.state.trace →
      ∃ s nid s', Unasked s₀ s ∧ processNode seg env wf nid s = .halt s' ∧ step = .halt s' ∧
        e = s'.execution := by
    rintro step hno ⟨nid, batch, s, hs, -, rfl⟩ hmem
    obtain ⟨s', hs', rfl⟩ := (processNode_stop hno).saved_paused hs.saves hmem hp
    exact ⟨s, nid, s', hs, hs', hs', rfl⟩
  cases o with
  | finished s => simp [h.1.saves e he] at hp
  | outOfRounds s => simp [h.1.saves e he] at hp
  | halted t =>
      obtain ⟨s, nid, s', hs, hs', ht, rfl⟩ := hstop _ (by simp) h he
      cases ht
      exact ⟨s, nid, _, hs, hs', rfl, rfl⟩
  | raised err t =>
      obtain ⟨s, nid, s', hs, hs', ht, rfl⟩ := hstop _ (by simp) h he
      cases ht
  | timedOut t =>
      obtain ⟨s, nid, s', hs, hs', ht, rfl⟩ := hstop _ (by simp) h he
      cases ht

/-- In `resume()` a node that asks for an approval pauses the run. -/
theorem processNode_resume_waiting {s : LoopState} {m : NodeId} {f : Fate} {output : Value}
    (hf : (m, f) ∈ fates (processNode .resume env wf nid s).state.trace)
    (hnew : (m, f) ∉ fates s.trace) (ho : f.output = some output)
    (hw : waitingApproval output = .ok true) :
    ∃ s', processNode .resume env wf nid s = .halt s' ∧ s'.execution.status = .paused ∧
      .save s'.execution ∈ s'.trace := by
  rcases processNode_cases .resume env wf nid s with ⟨g, s', hs', ha⟩ | hstop
  · rw [hs', NodeStep.state, ha.fates] at hf
    rcases List.mem_append.mp hf with hf | hf
    · exact absurd hf hnew
    · -- a node that the loop goes on after has not asked
      obtain ⟨rfl, rfl⟩ := Prod.mk.inj (List.mem_singleton.mp hf)
      simp [ha.notWaiting output ho] at hw
  · generalize hstep : processNode .resume env wf nid s = step at hf hstop
    cases hstop with
    | cancelled hc =>
        refine absurd ?_ hnew
        simpa [NodeStep.state, LoopState.markCancelled, LoopState.save, LoopState.emit, fates,
          Event.fate?] using hf
    | missing hn => exact absurd hf hnew
    | badRoute hr => exact absurd hf hnew
    | stepLimit hl => exact absurd hf hnew
    | expired hseg ht hd => cases hseg
    | @paused g s' hp =>
        obtain ⟨approvals, ht, -⟩ := hp.trace
        exact ⟨s', rfl, hp.status, by simp [ht]⟩
    | @badOutput g out err s' hd hout hw' hst ht =>
        rw [NodeStep.state, ht, fates_append, fates_event hd, fates_nil] at hf
        rcases List.mem_append.mp hf with hf | hf
        · exact absurd hf hnew
        · obtain ⟨rfl, rfl⟩ := Prod.mk.inj (List.mem_singleton.mp hf)
          rw [processNode_resume_raise hstep ht ho] at hw
          cases hw
    | @failed g n s' hd hfail hn hhard hexecuted houtputs hsoft hresults htrigger hstatus ht =>
        obtain ⟨label, error, ht⟩ := ht
        rw [NodeStep.state, ht, fates_append, fates_event hd] at hf
        rcases List.mem_append.mp hf with hf | hf
        · exact absurd hf hnew
        · simp only [fates, List.filterMap_cons, Event.fate?, List.filterMap_nil,
            List.mem_singleton, Prod.mk.injEq] at hf
          obtain ⟨rfl, rfl⟩ := hf
          cases f with
          | skipped => simp [Fate.failed] at hfail
          | ran ctx result => cases result <;> simp [Fate.failed, Fate.output] at hfail ho

/-! ## Pauses of one call -/

section
variable {triggerData : List (String × Value)} {executionId environment : String}
  {e : WorkflowExecution}

theorem sweep_of_paused {s : LoopState} (h : s.execution.status = .paused) :
    sweepBlobsIfTerminal s = s := by
  simp [sweepBlobsIfTerminal, h, ExecutionStatus.terminal]

/-- A pause of `execute()` has its request. -/
theorem execute_pausesWith
    (h : (execute env wf triggerData executionId environment).PausesWith e) :
    e = (execute env wf triggerData executionId environment).execution ∧
      ∃ request, AskedFor executionId (execute env wf triggerData executionId environment) e request ∧
        ∃ n, request.approvalId = env.approvalId n := by
  obtain ⟨he, hp⟩ := h
  have hmem := (settle_saved he).resolve_right (by simp [hp, ExecutionStatus.terminal])
  rcases executeLoop_cases env wf triggerData executionId environment wf.nodeIds.card with
    hl | ⟨err, hl⟩
  · rw [hl] at hmem
    obtain ⟨s, nid, s', hs, hstep, ho, rfl⟩ :=
      (runRounds_unasked executeStart_fresh rfl _).saved_paused hmem hp
    obtain ⟨hid, hnode, ctx, result, request, ht, happ, hreq, hexec, hn⟩ :=
      processNode_pauses hstep hp
    have hc : execute env wf triggerData executionId environment = s'.toResult := by
      simp [execute, hl, ho, LoopOutcome.settle, sweep_of_paused hp]
    have hstart : (executeStart env wf triggerData executionId environment).execution.executionId =
        executionId := rfl
    rw [hc]
    refine ⟨rfl, request, ⟨⟨_, ht, ?_⟩, happ, ⟨?_, ?_⟩, ?_⟩, nid, hreq⟩
    · intro r hr
      rcases List.mem_append.mp hr with hr | hr
      · exact hs.requests r hr
      · simp at hr
    · rw [hexec, hs.executionId, hstart]
    · rw [hid, hs.executionId, hstart]
    · rw [hnode, hn]
  · rw [hl] at hmem
    simp [LoopOutcome.state, executeStart] at hmem

/-- A pause of `resume()` links to nothing. -/
theorem resume_pausesWith {approved : Bool} {e₀ : WorkflowExecution} {c : CallResult}
    (hc : resume env wf e₀ approved = .ok c) (h : c.PausesWith e) :
    e = c.execution ∧ e.approvalId = none ∧ ¬ NoApproval c.trace := by
  obtain ⟨he, hp⟩ := h
  cases approved with
  | false =>
      -- a rejected record is saved as failed and nothing else is done
      unfold resume at hc
      split at hc
      · cases hc
      · simp only [Bool.not_false, if_true, Except.ok.injEq] at hc
        subst hc
        simp [sweepBlobsIfTerminal, LoopState.save, LoopState.emit, ExecutionStatus.terminal,
          LoopState.toResult] at he
        simp [he] at hp
  | true =>
      obtain ⟨-, rfl⟩ := resume_approved hc
      have hmem := (settle_saved he).resolve_right (by simp [hp, ExecutionStatus.terminal])
      obtain ⟨s, nid, s', hs, hstep, ho, rfl⟩ :=
        (runRounds_unasked resumeStart_fresh rfl _).saved_paused hmem hp
      obtain ⟨-, -, happ⟩ := processNode_pauses hstep hp
      have ho : resumeLoop env wf e₀ wf.nodeIds.card = .halted s' := ho
      have hc : ((resumeLoop env wf e₀ wf.nodeIds.card).settle env.config).toResult =
          s'.toResult := by
        simp [ho, LoopOutcome.settle, sweep_of_paused hp]
      rw [hc]
      refine ⟨rfl, happ.trans hs.approvalId, fun hno => ?_⟩
      obtain ⟨f, hpauses⟩ := (hstep ▸ processNode_stop (by simp [hstep])).halt_paused hp
      obtain ⟨output, ho, hw⟩ := hpauses.waiting
      refine hno nid f output ?_ ho hw
      rw [LoopState.toResult, hpauses.fates]
      exact List.mem_append_right _ (List.mem_singleton.mpr rfl)

/-- A call of `resume()` in which a node asks for an approval pauses. -/
theorem resume_asks {approved : Bool} {e₀ : WorkflowExecution} {c : CallResult}
    (hc : resume env wf e₀ approved = .ok c) (h : ¬ NoApproval c.trace) :
    ∃ e, c.PausesWith e := by
  cases approved with
  | false =>
      refine absurd ?_ h
      unfold resume at hc
      split at hc
      · cases hc
      · simp only [Bool.not_false, if_true, Except.ok.injEq] at hc
        subst hc
        simp [NoApproval, sweepBlobsIfTerminal, LoopState.save, LoopState.emit,
          ExecutionStatus.terminal, LoopState.toResult, fates, Event.fate?]
  | true =>
      obtain ⟨-, rfl⟩ := resume_approved hc
      have hends : EndsAt .resume env wf (fun _ s => Unpaused (resumeStart wf e₀) s)
          (resumeLoop env wf e₀ wf.nodeIds.card) :=
        runRounds_stepRule Unpaused.invariant.stepInvariant _ _ ⟨by simp [resumeStart], rfl⟩
      have hfates : fates ((resumeLoop env wf e₀ wf.nodeIds.card).settle env.config).trace =
          fates (resumeLoop env wf e₀ wf.nodeIds.card).state.trace := settle_fates _
      generalize resumeLoop env wf e₀ wf.nodeIds.card = o at h hends hfates ⊢
      simp only [NoApproval, LoopState.toResult, hfates, not_forall, not_not] at h
      obtain ⟨m, f, output, hf, hout, hw⟩ := h
      -- the node that has asked is the last one, where the loop stopped
      have hstop : ∀ step, StopsAt .resume env wf (fun _ s => Unpaused (resumeStart wf e₀) s) step →
          (m, f) ∈ fates step.state.trace → ∃ s', step = .halt s' ∧ s'.execution.status = .paused ∧
            .save s'.execution ∈ s'.trace := by
        rintro step ⟨nid, batch, s, hs, -, rfl⟩ hmem
        exact processNode_resume_waiting hmem
          (fun hold => by simp [hs.notWaiting m f output hold hout] at hw) hout hw
      cases o with
      | finished s => simp [hends.1.notWaiting m f output hf hout] at hw
      | outOfRounds s => simp [hends.1.notWaiting m f output hf hout] at hw
      | halted s =>
          obtain ⟨s', hs', hp, hsave⟩ := hstop _ hends hf
          cases hs'
          refine ⟨s.execution, ?_, hp⟩
          rw [LoopOutcome.settle, sweep_of_paused hp]
          exact hsave
      | raised err s =>
          obtain ⟨s', hs', -⟩ := hstop _ hends hf
          cases hs'
      | timedOut s =>
          obtain ⟨s', hs', -⟩ := hstop _ hends hf
          cases hs'

end

/-! ## Every pause has its own request -/

section
variable {executionId : String} {cs : List Call}

/-- Where no node of a `resume()` asks, only `execute()` pauses. -/
def AskedInExecute (cs : List Call) : Prop :=
  ∀ c ∈ cs, c.segment = .resume → NoApproval c.result.trace

/-- Each of the calls is an `execute()`, or a `resume()` with some record. -/
theorem Calls.call_cases (h : Calls wf executionId cs) {c : Call} (hc : c ∈ cs) :
    (∃ env triggerData environment,
      c = ⟨env, .execute, CitraFlows.execute env wf triggerData executionId environment⟩) ∨
    ∃ env e approved result, CitraFlows.resume env wf e approved = .ok result ∧
      c = ⟨env, .resume, result⟩ := by
  induction h with
  | nil => cases hc
  | execute h hfresh triggerData environment ih =>
      rcases List.mem_append.mp hc with hc | hc
      · exact ih hc
      · exact .inl ⟨_, triggerData, environment, List.mem_singleton.mp hc⟩
  | resume h hfresh hc₀ hsaved status approved hr ih =>
      rcases List.mem_append.mp hc with hc | hc
      · exact ih hc
      · exact .inr ⟨_, _, approved, _, hr, List.mem_singleton.mp hc⟩

/-- A pause of `execute()` has a request with one of the ids of that call. -/
theorem Calls.execute_asked (h : Calls wf executionId cs) {c : Call} (hc : c ∈ cs)
    {e : WorkflowExecution} (he : c.result.PausesWith e) :
    e = c.result.execution ∧
      match c.segment with
      | .execute => ∃ request, AskedFor executionId c.result e request ∧
          ∃ n, request.approvalId = c.env.approvalId n
      | .resume => e.approvalId = none ∧ ¬ NoApproval c.result.trace := by
  rcases h.call_cases hc with ⟨env, triggerData, environment, rfl⟩ | ⟨env, e₀, approved, _, hr, rfl⟩
  · exact execute_pausesWith he
  · exact resume_pausesWith hr he

theorem Calls.resume_asks (h : Calls wf executionId cs) {c : Call} (hc : c ∈ cs)
    (hseg : c.segment = .resume) (hask : ¬ NoApproval c.result.trace) :
    ∃ e, c.result.PausesWith e := by
  rcases h.call_cases hc with ⟨env, triggerData, environment, rfl⟩ | ⟨env, e₀, approved, _, hr, rfl⟩
  · cases hseg
  · exact CitraFlows.resume_asks hr hask

/-- Two calls never give the same id. -/
theorem Calls.fresh (h : Calls wf executionId cs) :
    cs.Pairwise fun c c' => ∀ n m, c'.env.approvalId n ≠ c.env.approvalId m := by
  induction h with
  | nil => exact .nil
  | execute h hfresh _ _ ih =>
      refine List.pairwise_append.mpr ⟨ih, List.pairwise_singleton _ _, fun c hc c' hc' => ?_⟩
      cases List.mem_singleton.mp hc'
      exact hfresh c hc
  | resume h hfresh _ _ _ _ _ ih =>
      refine List.pairwise_append.mpr ⟨ih, List.pairwise_singleton _ _, fun c hc c' hc' => ?_⟩
      cases List.mem_singleton.mp hc'
      exact hfresh c hc

/-- Over every workflow and every sequence of calls for an execution: every pause has an
approval request of its own exactly if no node that `resume()` runs asks for an approval. -/
theorem Calls.pausesAsk_iff (h : Calls wf executionId cs) :
    PausesAsk executionId cs ↔ AskedInExecute cs := by
  constructor
  · intro hask c hc hseg
    by_contra hno
    obtain ⟨e, he⟩ := h.resume_asks hc hseg hno
    obtain ⟨request, hreq⟩ := hask.asked c hc e he
    have hnone := (h.execute_asked hc he).2
    simp only [hseg] at hnone
    have hlink := hreq.approvalId
    rw [hnone.1] at hlink
    cases hlink
  · intro hexec
    have hasked : ∀ c ∈ cs, ∀ e, c.result.PausesWith e →
        ∃ request, AskedFor executionId c.result e request ∧
          ∃ n, request.approvalId = c.env.approvalId n := by
      intro c hc e he
      have hcase := (h.execute_asked hc he).2
      cases hseg : c.segment with
      | execute => simpa only [hseg] using hcase
      | resume =>
          simp only [hseg] at hcase
          exact absurd (hexec c hc hseg) hcase.2
    refine ⟨fun c hc e he => ?_, fun c hc e e' he he' => ?_, ?_⟩
    · obtain ⟨request, hreq, -⟩ := hasked c hc e he
      exact ⟨request, hreq⟩
    · exact (h.execute_asked hc he).1.trans (h.execute_asked hc he').1.symm
    · refine h.fresh.imp_of_mem fun {c c'} hc hc' hne e e' he he' heq => ?_
      obtain ⟨request, hreq, n, hn⟩ := hasked c hc e he
      obtain ⟨request', hreq', m, hm⟩ := hasked c' hc' e' he'
      rw [hreq.approvalId, hreq'.approvalId, Option.some.injEq, hn, hm] at heq
      exact hne m n heq.symm

end

/-! ### One question and two -/

/-- A world whose approval requests all have the given id. -/
def askingEnv (outcome : NodeId → NodeRun) (approvalId : String) : RunEnv :=
  { RunEnv.calm outcome with approvalId := fun _ => approvalId }

/-- `execute()` over the given workflow. -/
def firstCall (wf : WorkflowDefinition) (outcome : NodeId → NodeRun) : Call :=
  ⟨askingEnv outcome "first", .execute, execute (askingEnv outcome "first") wf [] "ex" "test"⟩

/-- `resume()` after the approval. -/
def secondCall (wf : WorkflowDefinition) (outcome : NodeId → NodeRun) : Call :=
  ⟨askingEnv outcome "second", .resume,
    resumeAfter (askingEnv outcome "second") wf (firstCall wf outcome).result⟩

private theorem bothCalls {outcome : NodeId → NodeRun}
    (h : (savedRecords (firstCall wf outcome).result.trace).getLast? =
      some (firstCall wf outcome).result.execution) :
    Calls wf "ex" [firstCall wf outcome, secondCall wf outcome] := by
  have hsaved := mem_savedRecords.mp (List.mem_of_getLast? h)
  refine .resume (.execute .nil ?_ [] "test") ?_ (List.mem_singleton.mpr rfl) hsaved .resuming true
    (resume_eq_ok (.inr rfl))
  · intro c hc
    cases hc
  · intro c hc n m
    cases List.mem_singleton.mp hc
    simp [askingEnv]

/-- Whether an output asks for an approval. -/
def asks (output : Value) : Bool :=
  match waitingApproval output with
  | .ok waiting => waiting
  | .error _ => false

private theorem noApproval_iff {t : List Event} :
    NoApproval t ↔ ((fates t).all fun p => p.2.output.all (!asks ·)) = true := by
  rw [List.all_eq_true]
  constructor
  · rintro h ⟨nid, f⟩ hf
    cases ho : f.output with
    | none => rfl
    | some output =>
        have hw := h nid f output hf ho
        unfold asks
        cases hwait : waitingApproval output with
        | error e => simp [hwait]
        | ok waiting => cases waiting <;> simp_all
  · intro h nid f output hf ho hw
    have hall := h _ hf
    simp [ho, asks, hw] at hall

theorem approvalFlow_pausesAsk :
    (firstCall approvalFlow approvalResults).result.execution.status = .paused ∧
      PausesAsk "ex"
        [firstCall approvalFlow approvalResults, secondCall approvalFlow approvalResults] := by
  refine ⟨by decide +kernel, (Calls.pausesAsk_iff (bothCalls rfl)).mpr fun c hc hseg => ?_⟩
  simp only [List.mem_cons, List.not_mem_nil, or_false] at hc
  rcases hc with rfl | rfl
  · cases hseg
  · exact noApproval_iff.mpr (by decide +kernel)

/-- `approvalFlow` with a second question behind the first. -/
def twoApprovalsFlow : WorkflowDefinition where
  workflowId := "wf"
  nodes := approvalFlow.nodes ++ [{ id := "again", type := .humanApproval }]
  edges := approvalFlow.edges ++ [{ source := "act", target := "again" }]

/-- Both questions are asked by their nodes. -/
def twoApprovalsResults (nid : NodeId) : NodeRun :=
  if nid = "again" then approvalResults "ask" else approvalResults nid

/-- The second pause links to no request: nobody is asked. -/
theorem twoApprovalsFlow_pause_unasked :
    ¬ ∀ wf executionId cs, validateDag wf = [] → Calls wf executionId cs →
      PausesAsk executionId cs := by
  intro h
  have hcalls : Calls twoApprovalsFlow "ex"
      [firstCall twoApprovalsFlow twoApprovalsResults,
        secondCall twoApprovalsFlow twoApprovalsResults] := bothCalls rfl
  have hask := h _ _ _ (by decide +kernel) hcalls
  have hsecond : secondCall twoApprovalsFlow twoApprovalsResults ∈
      [firstCall twoApprovalsFlow twoApprovalsResults,
        secondCall twoApprovalsFlow twoApprovalsResults] := by simp
  obtain ⟨e, he⟩ := hcalls.resume_asks hsecond rfl
    (fun hno => absurd (noApproval_iff.mp hno) (by decide +kernel))
  obtain ⟨request, hreq⟩ := hask.asked _ hsecond e he
  have hlink := hreq.approvalId
  rw [(hcalls.execute_asked hsecond he).2.1] at hlink
  cases hlink

end CitraFlows
