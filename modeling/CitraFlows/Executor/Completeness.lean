-- SUMMARY: What a completed run has accounted for: every node of a validated workflow after execute(), and what an approval pause leaves behind.
import CitraFlows.Executor.Order
import CitraFlows.Dag

/-!
# Completeness

A loop that keeps all ready nodes pending and ends with nothing ready has executed every
node of an acyclic graph. `execute()` starts from all roots and so is complete.
`resume()` starts from the children of the paused node, and is complete exactly when no
other node was ready at the pause.
-/

namespace CitraFlows

open Worklist

variable {seg : Segment} {env : RunEnv} {wf : WorkflowDefinition} {nid : NodeId}

/-! ## The invariants of a loop together -/

/-- A loop over a workflow graph, from a start state `s₀`. -/
def LoopInv (seg : Segment) (env : RunEnv) (wf : WorkflowDefinition) (s₀ : LoopState) :
    LoopAssertion := fun batch s =>
  (Settled seg env wf s₀ s ∧ Unpaused s₀ s) ∧ Pending wf batch s

theorem LoopInv.invariant (hE : wf.EdgesInNodes) {s₀ : LoopState} (h₀ : Fresh s₀) :
    Invariant seg env wf (LoopInv seg env wf s₀) :=
  ((Settled.invariant h₀).and Unpaused.invariant).and (Pending.invariant hE)

theorem LoopInv.start {s₀ : LoopState} (h₀ : Fresh s₀) (hp : Pending wf [] s₀) :
    LoopInv seg env wf s₀ [] s₀ :=
  ⟨⟨Settled.refl h₀, by simp [h₀.trace], rfl⟩, hp⟩

theorem IsDag.incoming_mem (h : IsDag wf) : ∀ x ∈ wf.nodeIds, ∀ d ∈ wf.incoming x, d ∈ wf.nodeIds :=
  fun _ _ _ hd => h.edges.incoming hd

theorem isDag_of_validateDag {wf : WorkflowDefinition} (h : validateDag wf = [])
    (hid : nid ∈ wf.nodeIds) : IsDag wf := by
  refine (validateDag_eq_nil_iff ?_).mp h
  obtain ⟨n, hn, -⟩ := WorkflowDefinition.mem_nodeIds.mp hid
  exact List.ne_nil_of_mem hn

/-! ## `execute()` -/

section
variable {triggerData : List (String × Value)} {executionId environment : String}

/-- The queue of `execute()` starts with every root of a graph without orphans. -/
theorem executeStart_allReadyPending (ho : orphanedNodes wf = []) :
    AllReadyPending wf [] (executeStart env wf triggerData executionId environment) := by
  intro x hx hr
  have hnil : wf.incoming x = [] :=
    List.eq_nil_iff_forall_not_mem.mpr fun d hd => by simpa [executeStart] using hr.2 d hd
  have hroot : x ∈ rootNodes wf := mem_rootNodes.mpr ⟨hx, hnil⟩
  refine List.mem_append_right _ (mem_executeStart_nextQueue.mpr (mem_startNodes.mpr ⟨hroot, ?_⟩))
  by_contra hno
  have : x ∈ orphanedNodes wf := mem_orphanedNodes.mpr ⟨hroot, by simpa using hno⟩
  simp [ho] at this

/-- The end of a completed `execute()` of a DAG without orphans: every node is executed and
its fate is recorded. -/
theorem execute_completed (hdag : IsDag wf) (ho : orphanedNodes wf = [])
    (h : (execute env wf triggerData executionId environment).execution.status = .completed) :
    ∃ s, (execute env wf triggerData executionId environment).execution.nodeResults =
        s.execution.nodeResults ∧
      Settled .execute env wf (executeStart env wf triggerData executionId environment) s ∧
      wf.nodeIds ⊆ s.executed := by
  have hl := execute_status env wf triggerData executionId environment (by rw [h]; simp)
  have hinv : Invariant .execute env wf fun batch s =>
      Settled .execute env wf (executeStart env wf triggerData executionId environment) s ∧
        AllReadyPending wf batch s :=
    (Settled.invariant executeStart_fresh).and AllReadyPending.invariant
  have hends := runRounds_rule hinv wf.nodeIds.card
    (executeStart env wf triggerData executionId environment)
    ⟨Settled.refl executeStart_fresh, executeStart_allReadyPending ho⟩
  rw [← hl] at hends
  obtain ⟨s, hfin, ⟨hs, hfront⟩, hdone⟩ :=
    hends.of_completed (executeLoop_enough hdag.edges le_rfl) h
  refine ⟨s, ?_, hs, hfront.covers hdag.acyclic hdag.incoming_mem ?_⟩
  · rw [execute_nodeResults, hfin]
    rfl
  · simpa using hdone

end

/-! ## Nothing stops a run but what the outcome tells -/

/-- An output in the universal envelope: a dict whose `meta` is a dict. -/
def Enveloped (output : Value) : Prop :=
  ∃ fields metadata, output = .dict fields ∧ Value.field fields "meta" = some (.dict metadata)

theorem Enveloped.waitingApproval_ok {output : Value} (h : Enveloped output) :
    ∃ b, waitingApproval output = .ok b := by
  obtain ⟨fields, metadata, rfl, hm⟩ := h
  exact ⟨_, by rw [waitingApproval, hm]⟩

private theorem routeParent_execute_ok {outputs : NodeOutputs} {r : Routing} {pid : NodeId} :
    ∃ r', routeParent wf .execute outputs nid r pid = .ok r' := by
  unfold routeParent
  split
  · rename_i output _
    rw [parentMeta_execute]
    dsimp only
    split
    · exact ⟨_, rfl⟩
    · split <;> exact ⟨_, rfl⟩
  · exact ⟨_, rfl⟩

private theorem routeParents_execute_ok {outputs : NodeOutputs} {pids : List NodeId} {r : Routing} :
    ∃ r', routeParents wf .execute outputs nid pids r = .ok r' := by
  induction pids generalizing r with
  | nil => exact ⟨r, rfl⟩
  | cons pid pids ih =>
      obtain ⟨r', hr'⟩ : ∃ r', routeParent wf .execute outputs nid r pid = .ok r' :=
        routeParent_execute_ok
      obtain ⟨r'', hr''⟩ := ih (r := r')
      exact ⟨r'', by simp only [routeParents, hr', hr'']⟩

/-- Routing never raises in `execute()`. -/
theorem route_execute_ok {s : LoopState} : ∃ r, s.route .execute wf nid = .ok r := by
  unfold LoopState.route route
  obtain ⟨r, hr⟩ : ∃ r, routeParents wf .execute s.nodeOutputs nid (wf.incoming nid)
      ⟨false, gatherInput wf s.execution.triggerData s.nodeOutputs nid⟩ = .ok r :=
    routeParents_execute_ok
  rw [hr]
  dsimp only
  split <;> exact ⟨_, rfl⟩

/-- Every failed result belongs to a node set to `continue_on_error`. -/
def OnlySoftFailures (wf : WorkflowDefinition) (results : NodeResults) : Prop :=
  ∀ nid r, results.lookup nid = some r → r.status = .failed →
    ∃ n, wf.nodeMap nid = some n ∧ n.continueOnError = true

/-- No completed node of the trace asks for an approval. -/
def NoApproval (t : List Event) : Prop :=
  ∀ nid f output, (nid, f) ∈ fates t → f.output = some output → waitingApproval output ≠ .ok true

/-- The requests of the completed nodes that ask for an approval are valid. -/
def ValidRequests (env : RunEnv) (t : List Event) : Prop :=
  ∀ nid f output, (nid, f) ∈ fates t → f.output = some output →
    waitingApproval output = .ok true → env.acceptsRequest output = true

/-- A DAG has a root to start from. -/
theorem IsDag.startNodes_ne_nil (hdag : IsDag wf) (hne : wf.nodes ≠ [])
    (ho : orphanedNodes wf = []) : startNodes wf ≠ [] := by
  obtain ⟨n, hn⟩ := List.exists_mem_of_ne_nil _ hne
  have hU : ¬ wf.nodeIds ⊆ ∅ := fun hsub => by
    simpa using hsub (WorkflowDefinition.mem_nodeIds.mpr ⟨n, hn, rfl⟩)
  obtain ⟨x, hx, hr⟩ := Frontier.exists_ready hdag.acyclic hdag.incoming_mem hU
  have : x ∈ [] ++ (executeStart (.calm fun _ => .timeout) wf [] "" "").nextQueue :=
    executeStart_allReadyPending ho x hx hr
  exact List.ne_nil_of_mem (mem_executeStart_nextQueue.mp (by simpa using this))

/-- What stops a loop of `execute()` over enveloped outputs shows in the outcome. -/
theorem Stops.shows {s₀ s : LoopState} {batch : List NodeId} {step : NodeStep}
    (hI : LoopInv .execute env wf s₀ (nid :: batch) s)
    (henv : ∀ ctx output retries errors,
      (env.run ctx).1 = .completed output retries errors → Enveloped output)
    (hs : Stops .execute env wf nid s step) :
    step = .halt s.markCancelled ∨ (∃ s', step = .timeout s') ∨
    (∃ s', step = .raise (.runtimeError (stepLimitMessage env.config)) s') ∨
    (∃ f output, (nid, f) ∈ fates step.state.trace ∧ f.output = some output ∧
      waitingApproval output = .ok true ∧
      (env.acceptsRequest output = true →
        ∃ s', step = .halt s' ∧ s'.execution.status = .paused)) ∨
    ¬ OnlySoftFailures wf step.state.execution.nodeResults := by
  -- an output is that of the run, which is enveloped
  have henveloped : ∀ {f : Fate} {output : Value}, Decides .execute env wf nid s f →
      f.output = some output → Enveloped output := by
    intro f output hd ho
    cases f with
    | skipped => simp [Fate.output] at ho
    | ran ctx result =>
        obtain ⟨n, r, -, -, -, -, -, -, rfl⟩ := hd
        cases hrun : (env.run ctx).1 with
        | completed o retries errors =>
            rw [hrun] at ho
            cases ho
            exact henv ctx output retries errors hrun
        | failed error retries errors => simp [hrun, Fate.output] at ho
        | timeout => simp [hrun, Fate.output] at ho
  cases hs with
  | cancelled hc => exact .inl rfl
  | missing hn =>
      have := WorkflowDefinition.nodeMap_isSome_iff.mpr (hI.2.batch_mem nid (by simp))
      simp [hn] at this
  | badRoute hr =>
      obtain ⟨r, hok⟩ : ∃ r, s.route .execute wf nid = .ok r := route_execute_ok
      rw [hr] at hok
      cases hok
  | stepLimit hl => exact .inr (.inr (.inl ⟨_, rfl⟩))
  | expired hseg ht hd => exact .inr (.inl ⟨_, rfl⟩)
  | @paused f s' hp =>
      obtain ⟨output, ho, hw⟩ := hp.waiting
      refine .inr (.inr (.inr (.inl ⟨f, output, ?_, ho, hw, fun _ => ⟨s', rfl, hp.status⟩⟩)))
      simp [NodeStep.state, hp.fates]
  | @badOutput f output e s' hd ho hw hst ht =>
      rcases hw with hw | ⟨hw, hrejected⟩
      · obtain ⟨b, hb⟩ := (henveloped hd ho).waitingApproval_ok
        rw [hw] at hb
        cases hb
      · refine .inr (.inr (.inr (.inl ⟨f, output, ?_, ho, hw, fun haccepted => ?_⟩)))
        · simp [NodeStep.state, ht, fates_event hd]
        · rw [hrejected] at haccepted
          cases haccepted
  | @failed f n s' hd hf hn hhard hexecuted houtputs hsoft hresults htrigger hstatus ht =>
      refine .inr (.inr (.inr (.inr fun honly => ?_)))
      obtain ⟨m, hm, hcont⟩ := honly nid (f.result env.config nid)
        (by simp [NodeStep.state, hresults]) (f.result_failed hf)
      rw [hn] at hm
      cases hm
      simp [hcont] at hhard

section
variable {triggerData : List (String × Value)} {executionId environment : String}

/-- The results a completed `execute()` leaves: one for each node, and none of them is a
failure but those that the node's configuration lets pass. -/
theorem execute_completed_results (hdag : IsDag wf) (ho : orphanedNodes wf = [])
    (h : (execute env wf triggerData executionId environment).execution.status = .completed) :
    (∀ nid, nid ∈ (execute env wf triggerData executionId environment).execution.nodeResults ↔
      nid ∈ wf.nodeIds) ∧
    ∀ nid r, (execute env wf triggerData executionId environment).execution.nodeResults.lookup
        nid = some r → r.status = .completed ∨ r.status = .skipped ∨
      (r.status = .failed ∧ ∃ n, wf.nodeMap nid = some n ∧ n.continueOnError = true) := by
  obtain ⟨s, hres, hs, hall⟩ := execute_completed hdag ho h
  rw [hres]
  -- a node that is not decided has no result, since there are no orphans
  have hdec : ∀ {m r}, s.execution.nodeResults.lookup m = some r → m ∈ decisions s.trace := by
    intro m r hl
    by_contra hno
    rw [hs.results m hno, executeStart_lookup, ho] at hl
    simp at hl
  constructor
  · intro m
    rw [← AList.lookup_isSome]
    constructor
    · intro hl
      obtain ⟨r, hl⟩ := Option.isSome_iff_exists.mp hl
      obtain ⟨f, hf⟩ := mem_decisions.mp (hdec hl)
      exact (hs.decides m f hf).mem_nodeIds
    · intro hm
      have hd := ((hs.schedule.visited m).mp (hall hm)).resolve_left (by simp [executeStart])
      obtain ⟨f, hf⟩ := mem_decisions.mp hd
      simp [(hs.recorded m f hf).result]
  · intro m r hl
    obtain ⟨f, hf⟩ := mem_decisions.mp (hdec hl)
    have hr := (hs.recorded m f hf).result
    rw [hl] at hr
    cases hr
    by_cases hfail : f.failed = true
    · exact .inr (.inr ⟨f.result_failed hfail, (hs.continues m f hf).executed hfail⟩)
    · have hrest : (f.result env.config m).restored = true :=
        Fate.restored_iff.mpr (by simpa using hfail)
      rw [NodeExecutionResult.restored, Bool.or_eq_true, decide_eq_true_eq,
        decide_eq_true_eq] at hrest
      exact hrest.imp_right .inl

/-- A run of `execute()` that nothing has stopped ends completed. A node that asks for an approval
does not pause it only if the request is not valid. -/
theorem execute_completes (hdag : IsDag wf) (ho : orphanedNodes wf = []) (hne : wf.nodes ≠ [])
    (henv : ∀ ctx output retries errors,
      (env.run ctx).1 = .completed output retries errors → Enveloped output)
    (hcancel : (execute env wf triggerData executionId environment).execution.status ≠ .cancelled)
    (htimeout : (execute env wf triggerData executionId environment).execution.status ≠ .timedOut)
    (hlimit : (execute env wf triggerData executionId environment).execution.error ≠
      some (stepLimitMessage env.config))
    (hsoft : OnlySoftFailures wf
      (execute env wf triggerData executionId environment).execution.nodeResults)
    (hasks : ∀ nid f output,
      (nid, f) ∈ fates (execute env wf triggerData executionId environment).trace →
      f.output = some output → waitingApproval output = .ok true →
      (execute env wf triggerData executionId environment).execution.status ≠ .paused ∧
        env.acceptsRequest output = true) :
    (execute env wf triggerData executionId environment).execution.status = .completed := by
  have hl : executeLoop env wf triggerData executionId environment wf.nodeIds.card =
      runRounds .execute env wf wf.nodeIds.card
        (executeStart env wf triggerData executionId environment) := by
    have := hdag.startNodes_ne_nil hne ho
    simp [executeLoop, this]
  have hinv : Invariant .execute env wf
      (LoopInv .execute env wf (executeStart env wf triggerData executionId environment)) :=
    LoopInv.invariant hdag.edges executeStart_fresh
  have hends := runRounds_rule hinv wf.nodeIds.card
    (executeStart env wf triggerData executionId environment)
    (LoopInv.start executeStart_fresh executeStart_pending)
  rw [← hl] at hends
  rw [execute_nodeResults] at hsoft
  rw [execute_fates] at hasks
  unfold execute at *
  generalize ho' : executeLoop env wf triggerData executionId environment wf.nodeIds.card = o at *
  -- what stops the loop is one of the things that were excluded, or a step that halts it
  have hstopped : ∀ {step : NodeStep}, step.state = o.state →
      StopsFrom .execute env wf
        (LoopInv .execute env wf (executeStart env wf triggerData executionId environment)) step →
      (∃ s : LoopState, step = .halt s.markCancelled) ∨ (∃ s, step = .timeout s) ∨
        (∃ s, step = .raise (.runtimeError (stepLimitMessage env.config)) s) ∨
        ∃ s, step = .halt s ∧ s.execution.status = .paused ∧
          ((o.settle env.config).toResult).execution.status ≠ .paused := by
    rintro step hst ⟨nid, batch, s, hI, -, hstop⟩
    rcases hstop.shows hI henv with h | h | h | ⟨f, output, hf, hout, hw, hpauses⟩ | h
    · exact .inl ⟨s, h⟩
    · exact .inr (.inl h)
    · exact .inr (.inr (.inl h))
    · rw [hst] at hf
      obtain ⟨hunpaused, haccepted⟩ := hasks nid f output hf hout hw
      obtain ⟨s', hs', hpaused⟩ := hpauses haccepted
      exact .inr (.inr (.inr ⟨s', hs', hpaused, hunpaused⟩))
    · rw [hst] at h
      exact absurd hsoft h
  cases o with
  | finished s => simp [LoopOutcome.settle, sweep_execution, complete, LoopState.save,
      LoopState.emit, LoopState.toResult]
  | outOfRounds s => exact absurd ho' (executeLoop_enough hdag.edges le_rfl s)
  | halted s =>
      rcases hstopped rfl hends with ⟨t, ht⟩ | ⟨t, ht⟩ | ⟨t, ht⟩ | ⟨t, ht, hpaused, hunpaused⟩
      · cases ht
        refine absurd ?_ hcancel
        simp [LoopState.toResult, settle_halted, LoopState.markCancelled, LoopState.save,
          LoopState.emit]
      · cases ht
      · cases ht
      · cases ht
        refine absurd ?_ hunpaused
        simpa [LoopState.toResult, settle_halted] using hpaused
  | raised e s =>
      rcases hstopped rfl hends with ⟨t, ht⟩ | ⟨t, ht⟩ | ⟨t, ht⟩ | ⟨t, ht, -⟩
      · cases ht
      · cases ht
      · cases ht
        refine absurd ?_ hlimit
        simp [LoopOutcome.settle, sweep_execution, failWith, LoopState.save, LoopState.emit,
          LoopState.toResult, PyError.message]
      · cases ht
  | timedOut s =>
      refine absurd ?_ htimeout
      simp [LoopOutcome.settle, expire, LoopState.save, LoopState.emit, LoopState.toResult]

end

/-- Over every validated workflow with nodes and edges and every world of enveloped outputs:
a completed run has a result for exactly the nodes of the workflow, each completed, skipped
or failed with `continue_on_error`; and a run that nothing has stopped or paused is completed, if
the approval requests of its nodes are valid. -/
theorem execute_accounts {wf : WorkflowDefinition} (hv : validateDag wf = [])
    (hnodes : wf.nodes ≠ []) (hedges : wf.edges ≠ []) {env : RunEnv}
    (henv : ∀ ctx output retries errors,
      (env.run ctx).1 = .completed output retries errors → Enveloped output)
    (triggerData : List (String × Value)) (executionId environment : String) :
    let c := execute env wf triggerData executionId environment
    (c.execution.status = .completed →
      (∀ nid, nid ∈ c.execution.nodeResults ↔ nid ∈ wf.nodeIds) ∧
      ∀ nid r, c.execution.nodeResults.lookup nid = some r →
        r.status = .completed ∨ r.status = .skipped ∨
          (r.status = .failed ∧ ∃ n, wf.nodeMap nid = some n ∧ n.continueOnError = true)) ∧
    (c.execution.status ≠ .cancelled → c.execution.status ≠ .timedOut →
      c.execution.error ≠ some (stepLimitMessage env.config) →
      OnlySoftFailures wf c.execution.nodeResults → c.execution.status ≠ .paused →
      ValidRequests env c.trace → c.execution.status = .completed) := by
  have hdag := (validateDag_eq_nil_iff hnodes).mp hv
  have ho := hdag.orphanedNodes_eq_nil hedges
  exact ⟨execute_completed_results hdag ho, fun hcancel htimeout hlimit hsoft hunpaused hvalid =>
    execute_completes hdag ho hnodes henv hcancel htimeout hlimit hsoft
      fun nid f output hf hout hw => ⟨hunpaused, hvalid nid f output hf hout hw⟩⟩

/-- Each node of `approvalFlow` answers with an empty envelope. -/
def emptyEnvelope (_ : NodeId) : NodeRun := .completed (.dict [("meta", .dict [])]) 0 []

private theorem emptyEnvelope_enveloped (ctx : NodeContext) (output : Value) (retries : Int)
    (errors : List String)
    (h : ((RunEnv.calm emptyEnvelope).run ctx).1 = .completed output retries errors) :
    Enveloped output := by
  cases h
  exact ⟨_, _, rfl, rfl⟩

theorem approvalFlow_accounts :
    let e := (execute (.calm emptyEnvelope) approvalFlow [] "ex" "test").execution
    e.status = .completed ∧ ∀ nid, nid ∈ e.nodeResults ↔ nid ∈ approvalFlow.nodeIds := by
  have hc : (execute (.calm emptyEnvelope) approvalFlow [] "ex" "test").execution.status =
      .completed := by decide +kernel
  exact ⟨hc, ((execute_accounts (by decide +kernel) (by decide) (by decide)
    emptyEnvelope_enveloped [] "ex" "test").1 hc).1⟩

/-- The nodes of `approvalFlow` when `ask` has no message to show. -/
def nullMessage (nid : NodeId) : NodeRun :=
  if nid = "ask" then
    .completed (.dict [("meta", .dict [("status", .str "waiting_approval"), ("message", .none)])]) 0
      []
  else emptyEnvelope nid

/-- A calm world in which the message of a request must be a text. -/
def textMessages : RunEnv :=
  { RunEnv.calm nullMessage with
    approvalAccepts := fun message _ => match message with
      | .str _ => true
      | _ => false }

private theorem nullMessage_enveloped (ctx : NodeContext) (output : Value) (retries : Int)
    (errors : List String)
    (h : (textMessages.run ctx).1 = .completed output retries errors) : Enveloped output := by
  have hrun : nullMessage ctx.nodeId = .completed output retries errors := h
  unfold nullMessage at hrun
  split at hrun
  next =>
    cases hrun
    exact ⟨_, _, rfl, rfl⟩
  next =>
    cases hrun
    exact ⟨_, _, rfl, rfl⟩

/-- Nothing fails, nothing is cancelled or times out, nothing pauses: the run is completed. -/
def CompletesUnstopped (env : RunEnv) (wf : WorkflowDefinition) : Prop :=
  let c := execute env wf [] "ex" "test"
  c.execution.status ≠ .cancelled → c.execution.status ≠ .timedOut →
    c.execution.error ≠ some (stepLimitMessage env.config) →
    OnlySoftFailures wf c.execution.nodeResults → c.execution.status ≠ .paused →
    c.execution.status = .completed

/-- The validator accepts an empty list of nodes whatever the edges are. -/
def danglingEdge : WorkflowDefinition where
  edges := [{ source := "a", target := "b" }]

/-- A workflow without nodes has no root, and its run ends failed though no node has failed. -/
private theorem danglingEdge_not_completed :
    ¬ CompletesUnstopped (.calm emptyEnvelope) danglingEdge := by
  intro h
  have hstatus := h (by decide) (by decide) (by decide +kernel)
    (by intro nid r hr; cases hr) (by decide)
  exact absurd hstatus (by decide)

/-- A request whose message is null is not valid. It raises, and the run ends failed without a
pause though no node has failed. -/
private theorem nullMessage_not_completed : ¬ CompletesUnstopped textMessages approvalFlow := by
  intro h
  have hfailures : ∀ nid r,
      (execute textMessages approvalFlow [] "ex" "test").execution.nodeResults.lookup nid = some r →
        r.status ≠ .failed := by
    have hall : ∀ p ∈ (execute textMessages approvalFlow [] "ex" "test").execution.nodeResults.entries,
        p.2.status ≠ .failed := by decide +kernel
    exact fun nid r hr => hall ⟨nid, r⟩ (AList.mem_lookup_iff.mp hr)
  have hstatus := h (by decide +kernel) (by decide +kernel) (by decide +kernel)
    (fun nid r hr hfailed => absurd hfailed (hfailures nid r hr)) (by decide +kernel)
  exact absurd hstatus (by decide +kernel)

/-- Two runs that nothing stops or pauses and that are not completed: of a workflow without nodes,
and of one whose approval has no message. -/
theorem unstopped_not_completed :
    (validateDag danglingEdge = [] ∧ danglingEdge.edges ≠ [] ∧
      (∀ ctx output retries errors,
        ((RunEnv.calm emptyEnvelope).run ctx).1 = .completed output retries errors →
          Enveloped output) ∧
      ¬ CompletesUnstopped (.calm emptyEnvelope) danglingEdge) ∧
    (validateDag approvalFlow = [] ∧ approvalFlow.edges ≠ [] ∧
      (∀ ctx output retries errors,
        (textMessages.run ctx).1 = .completed output retries errors → Enveloped output) ∧
      ¬ CompletesUnstopped textMessages approvalFlow) :=
  ⟨⟨by decide, by decide, emptyEnvelope_enveloped, danglingEdge_not_completed⟩,
    by decide +kernel, by decide, nullMessage_enveloped, nullMessage_not_completed⟩

/-! ## Across a pause -/

/-- No node of the trace has failed. -/
def NoFailures (t : List Event) : Prop :=
  ∀ nid f, (nid, f) ∈ fates t → f.failed = false

/-- Every node that is ready in the record of a paused run is a child of the paused node
(an empty node id counts as no paused node). -/
def CoversReady (wf : WorkflowDefinition) (e : WorkflowExecution) : Prop :=
  ∀ nid ∈ wf.nodeIds, Ready wf.incoming (restoredExecuted e.nodeResults) nid →
    ∀ q ∈ e.pausedAtNode, q = "" ∨ nid ∈ wf.adjacency q

instance (e : WorkflowExecution) : Decidable (CoversReady wf e) :=
  inferInstanceAs (Decidable (∀ nid ∈ wf.nodeIds, _ → ∀ q ∈ e.pausedAtNode, _))

/-- Without failures every result in the record of a paused run is restored. -/
theorem Chain.all_restored (hE : wf.EdgesInNodes) {t : List Event}
    {pauses : List WorkflowExecution} {e : WorkflowExecution} (h : Chain wf t pauses e)
    (hp : e.status = .paused) (hfail : NoFailures t) {r : NodeExecutionResult}
    (hl : e.nodeResults.lookup nid = some r) : r.restored = true := by
  -- in one call: the result is of a node it decided, or was there at the start
  have hsettled : ∀ {seg : Segment} {env : RunEnv} {s₀ s : LoopState},
      Settled seg env wf s₀ s → s.execution.nodeResults.lookup nid = some r →
      NoFailures s.trace → (s₀.execution.nodeResults.lookup nid = some r → r.restored = true) →
      r.restored = true := by
    intro seg env s₀ s hs hl hfail hold
    by_cases hd : nid ∈ decisions s.trace
    · obtain ⟨f, hf⟩ := mem_decisions.mp hd
      have hr := (hs.recorded nid f hf).result
      rw [hl] at hr
      cases hr
      exact Fate.restored_iff.mpr (hfail nid f hf)
    · exact hold (hs.results nid hd ▸ hl)
  induction h with
  | execute env triggerData executionId environment =>
      obtain ⟨s', he, hf, m, batch, f, s, hs, hr, hpause⟩ := execute_paused hE
        (Settled.invariant executeStart_fresh) (Settled.refl executeStart_fresh) hp
      rw [he] at hl
      refine hsettled (hs.pauses executeStart_fresh hr hpause) hl ?_ fun hl => ?_
      · unfold NoFailures at hfail ⊢
        rwa [hf] at hfail
      · rw [executeStart_lookup] at hl
        split at hl <;> cases hl
        rfl
  | @resume t pauses e h hp' env status c hc ih =>
      obtain ⟨s', he, hf, m, batch, f, s, hs, hr, hpause⟩ := resume_paused hE
        (Settled.invariant resumeStart_fresh) (Settled.refl resumeStart_fresh) hc hp
      rw [he] at hl
      unfold NoFailures at hfail ih
      simp only [fates_append, List.mem_append] at hfail
      refine hsettled (hs.pauses resumeStart_fresh hr hpause) hl ?_ fun hl =>
        ih hp' (fun m g hm => hfail m g (.inl hm)) hl
      unfold NoFailures
      rw [← hf]
      exact fun m g hm => hfail m g (.inr hm)

/-- The end of a completed `resume()`. -/
theorem resume_completed (hE : wf.EdgesInNodes) {e : WorkflowExecution} {status : ExecutionStatus}
    {c : CallResult} {I : LoopAssertion} (hI : Invariant .resume env wf I)
    (h₀ : I [] (resumeStart wf { e with status := status }))
    (hc : resume env wf { e with status := status } true = .ok c)
    (h : c.execution.status = .completed) :
    ∃ s, c.execution.nodeResults = s.execution.nodeResults ∧ I [] s ∧
      ∀ x ∈ s.nextQueue, ¬ Ready wf.incoming s.executed x := by
  obtain ⟨-, rfl⟩ := resume_approved hc
  have hends := runRounds_rule hI wf.nodeIds.card _ h₀
  obtain ⟨s, ho, hrest⟩ := hends.of_completed (fun s => resumeLoop_enough hE le_rfl s) h
  refine ⟨s, ?_, hrest⟩
  simp only [LoopState.toResult, settle_nodeResults, resumeLoop, ho, LoopOutcome.state]

/-- A completed `resume()` has a result for every node when no ready node was left out of its
queue. -/
theorem resume_accounts (hdag : IsDag wf) {e : WorkflowExecution} {status : ExecutionStatus}
    {c : CallResult} (hcovers : CoversReady wf e)
    (hc : resume env wf { e with status := status } true = .ok c)
    (h : c.execution.status = .completed) : ∀ nid ∈ wf.nodeIds, nid ∈ c.execution.nodeResults := by
  have hstart : AllReadyPending wf [] (resumeStart wf { e with status := status }) := by
    intro x hx hr
    refine List.mem_append_right _ (mem_resumeQueue.mpr ⟨hr.1, ?_⟩)
    have hq := hcovers x hx hr
    revert hq
    simp only [Option.mem_def]
    cases e.pausedAtNode with
    | none => exact fun _ => hx
    | some q =>
        intro hq
        dsimp only
        split
        · exact hx
        · rename_i hne
          exact (hq q rfl).resolve_left hne
  obtain ⟨s, hres, ⟨hs, hfront⟩, hdone⟩ := resume_completed hdag.edges
    ((Settled.invariant resumeStart_fresh).and AllReadyPending.invariant)
    ⟨Settled.refl resumeStart_fresh, hstart⟩ hc h
  have hall := hfront.covers hdag.acyclic hdag.incoming_mem (by simpa using hdone)
  intro x hx
  rw [hres, ← AList.lookup_isSome]
  by_cases hd : x ∈ decisions s.trace
  · obtain ⟨f, hf⟩ := mem_decisions.mp hd
    simp [(hs.recorded x f hf).result]
  · have hE := ((hs.schedule.visited x).mp (hall hx)).resolve_right hd
    obtain ⟨r, hl, -⟩ := mem_restoredExecuted.mp hE
    rw [hs.results x hd]
    simp only [resumeStart] at hl ⊢
    simp [hl]

/-- A node that was ready at the pause but is no child of the paused node gets no result. -/
theorem resume_forgets (hE : wf.EdgesInNodes) {e : WorkflowExecution} {status : ExecutionStatus}
    {c : CallResult} {q : NodeId} (hq : e.pausedAtNode = some q) (hne : q ≠ "")
    (hr : Ready wf.incoming (restoredExecuted e.nodeResults) nid) (hchild : nid ∉ wf.adjacency q)
    (hno : nid ∉ e.nodeResults) (hc : resume env wf { e with status := status } true = .ok c)
    (h : c.execution.status = .completed) : nid ∉ c.execution.nodeResults := by
  have hstart : ReadyForgotten wf nid [] (resumeStart wf { e with status := status }) := by
    refine ⟨hr, fun hmem => ?_⟩
    rw [List.nil_append] at hmem
    obtain ⟨-, hmem⟩ := mem_resumeQueue.mp hmem
    rw [hq] at hmem
    dsimp only at hmem
    rw [if_neg hne] at hmem
    exact hchild hmem
  obtain ⟨s, hres, ⟨hs, hforgotten⟩, -⟩ := resume_completed hE
    ((Settled.invariant resumeStart_fresh).and ReadyForgotten.invariant)
    ⟨Settled.refl resumeStart_fresh, hstart⟩ hc h
  have hd : nid ∉ decisions s.trace := fun hd =>
    hforgotten.1.1 ((hs.schedule.visited nid).mpr (.inr hd))
  rw [hres, ← AList.lookup_eq_none, hs.results nid hd]
  exact AList.lookup_eq_none.mpr hno

/-- `str` of a node type is no trigger type. -/
theorem NodeType.str_not_mem_triggerTypes (t : NodeType) : t.str ∉ triggerTypes := by
  intro hmem
  have hhead : ∀ x ∈ triggerTypes, x.toList.head? ≠ some 'N' := by decide
  refine hhead _ hmem ?_
  rw [NodeType.str, String.toList_append]
  rfl

/-- Without edges every root is an orphan, and `execute()` fails for want of a root. -/
theorem startNodes_eq_nil_of_edges_nil (h : wf.edges = []) : startNodes wf = [] := by
  rw [startNodes, List.filter_eq_nil_iff]
  intro m hm
  obtain ⟨n, hn⟩ := Option.isSome_iff_exists.mp
    (WorkflowDefinition.nodeMap_isSome_iff.mpr (mem_rootNodes.mp hm).1)
  simp [isOrphan, h, hn, n.type.str_not_mem_triggerTypes]

/-- A chain without failures that ends completed has a result for every node exactly when,
at its last pause, every node that was ready is a child of the paused node. -/
theorem Chain.completed_accounts_iff {wf : WorkflowDefinition} (hv : validateDag wf = [])
    {t : List Event} {pauses : List WorkflowExecution} {e : WorkflowExecution}
    (h : Chain wf t pauses e) (hfail : NoFailures t) (hc : e.status = .completed) :
    (∀ nid ∈ wf.nodeIds, nid ∈ e.nodeResults) ↔ ∀ p ∈ pauses.getLast?, CoversReady wf p := by
  cases h with
  | execute env triggerData executionId environment =>
      refine iff_of_true (fun nid hid => ?_) (by simp)
      have hdag := isDag_of_validateDag hv hid
      have hedges : wf.edges ≠ [] := by
        intro hnil
        have hs := startNodes_eq_nil_of_edges_nil hnil
        simp [CitraFlows.execute, executeLoop, hs, LoopOutcome.settle, sweep_execution, failWith,
          LoopState.save, LoopState.emit, LoopState.toResult] at hc
      exact ((execute_completed_results hdag (hdag.orphanedNodes_eq_nil hedges) hc).1 nid).mpr hid
  | @resume t pauses p h hp env status c hres =>
      rw [List.getLast?_concat]
      simp only [Option.mem_def, Option.some.injEq, forall_eq']
      constructor
      · intro hall nid hid hr q hq
        by_contra hno
        rw [not_or] at hno
        have hdag := isDag_of_validateDag hv hid
        have hfail' : NoFailures t := fun m f hm => hfail m f (by simp [hm])
        refine resume_forgets hdag.edges hq hno.1 hr hno.2 (fun hmem => hr.1 ?_) hres hc
          (hall nid hid)
        obtain ⟨r, hl⟩ := Option.isSome_iff_exists.mp (AList.lookup_isSome.mpr hmem)
        exact mem_restoredExecuted.mpr ⟨r, hl, h.all_restored hdag.edges hp hfail' hl⟩
      · intro hcovers nid hid
        exact resume_accounts (isDag_of_validateDag hv hid) hcovers hres hc nid hid

private theorem noFailures_of_all {t : List Event}
    (h : (fates t).all (!·.2.failed) = true) : NoFailures t := fun nid f hf => by
  simpa using List.all_eq_true.mp h _ hf

theorem approvalFlow_accounts_after_pause :
    (actCall approvalFlow).execution.status = .completed ∧
      ∀ nid ∈ approvalFlow.nodeIds, nid ∈ (actCall approvalFlow).execution.nodeResults := by
  have hchain := askCall_chain approvalFlow (by decide +kernel)
  have hiff := Chain.completed_accounts_iff (by decide +kernel) hchain (noFailures_of_all (by decide +kernel))
    (by decide +kernel)
  refine ⟨by decide +kernel, ?_⟩
  rw [hiff]
  simp only [List.getLast?_singleton, Option.mem_def, Option.some.injEq, forall_eq']
  decide +kernel

/-- `approvalFlow` with a second branch beside the question. -/
def parallelApprovalFlow : WorkflowDefinition where
  workflowId := "wf"
  nodes := approvalFlow.nodes ++ [{ id := "log", type := .notify }]
  edges := approvalFlow.edges ++ [{ source := "start", target := "log" }]

/-- The second branch is lost: it was queued when the run paused, and the run completes
without it. -/
theorem parallelApprovalFlow_loses_branch :
    ¬ ∀ wf t pauses e, validateDag wf = [] → Chain wf t pauses e → NoFailures t →
      e.status = .completed → ∀ nid ∈ wf.nodeIds, nid ∈ e.nodeResults := by
  intro h
  have hlog := h parallelApprovalFlow _ _ _ (by decide +kernel)
    (askCall_chain _ (by decide +kernel)) (noFailures_of_all (by decide +kernel))
    (by decide +kernel) "log" (by decide +kernel)
  have hno : "log" ∉ (actCall parallelApprovalFlow).execution.nodeResults := by decide +kernel
  exact hno hlog

end CitraFlows
