-- SUMMARY: The media blobs of an execution over its calls: kept while the run is paused, deleted when it ends.
import CitraFlows.Executor.VariableFlow

/-!
# Cleaning up

A `finally` around each of the two loops deletes the blobs of the execution if the record is
final by then. The execution timeout interrupts the inner call of `execute()` before the record
is set to `TIMED_OUT`.
-/

namespace CitraFlows

variable {seg : Segment} {env : RunEnv} {wf : WorkflowDefinition} {nid : NodeId}

/-! ## Blobs -/

section

variable (stores : NodeContext → List String) (deletes : String → Bool)

/-- The blobs of the execution after what a call has done: a node that is run may store some, and
`delete_blobs_for_execution` passes over those that it cannot delete. -/
def blobsAfter : List String → List Event → List String
  | blobs, [] => blobs
  | blobs, .run ctx _ :: t => blobsAfter (blobs ++ stores ctx) t
  | blobs, .sweepBlobs :: t => blobsAfter (blobs.filter fun b => !deletes b) t
  | blobs, _ :: t => blobsAfter blobs t

end

section

variable {stores : NodeContext → List String} {deletes : String → Bool}

theorem blobsAfter_append (blobs : List String) (t t' : List Event) :
    blobsAfter stores deletes blobs (t ++ t') =
      blobsAfter stores deletes (blobsAfter stores deletes blobs t) t' := by
  induction t generalizing blobs with
  | nil => rfl
  | cons ev t ih => cases ev <;> exact ih _

/-- Without a deletion the blobs add up. -/
theorem blobsAfter_kept {t : List Event} (h : .sweepBlobs ∉ t) (blobs : List String) :
    blobsAfter stores deletes blobs t = blobs ++ (contexts t).flatMap stores := by
  induction t generalizing blobs with
  | nil => simp [blobsAfter, contexts]
  | cons ev t ih =>
      rw [List.mem_cons, not_or] at h
      cases ev with
      | sweepBlobs => exact absurd rfl h.1
      | run ctx result =>
          rw [blobsAfter, ih h.2]
          simp [contexts]
      | _ => exact ih h.2 _

/-- Nothing is left where no node runs after a deletion that deletes everything. -/
theorem blobsAfter_swept (hdeletes : ∀ b, deletes b = true) (blobs : List String) (t : List Event)
    {t' : List Event} (ht' : contexts t' = []) :
    blobsAfter stores deletes blobs (t ++ .sweepBlobs :: t') = [] := by
  have hnone : ∀ t' : List Event, contexts t' = [] → blobsAfter stores deletes [] t' = [] := by
    intro t' ht'
    induction t' with
    | nil => rfl
    | cons ev t' ih =>
        cases ev with
        | run ctx result => simp [contexts] at ht'
        | _ => exact ih ht'
  have hfilter : ∀ bs : List String, bs.filter (fun b => !deletes b) = [] := fun bs => by
    simp [hdeletes]
  rw [blobsAfter_append, blobsAfter, hfilter]
  exact hnone t' ht'

end

/-! ## Calls -/

/-- The record is final while the event is under way, so that an interruption deletes the
blobs. -/
def Event.final : Event → Bool
  | .save record => record.status.terminal
  | .notifyFailure _ _ => true
  | _ => false

/-- What `execute()` awaits apart from its nodes. -/
def Event.awaited : Event → Bool
  | .approval _ | .save _ | .notifyFailure _ _ | .sweepBlobs => true
  | _ => false

/-- The execution timeout fires while the inner call awaits the event, which may have taken effect:
the `finally` runs, then `except asyncio.TimeoutError` of `execute()`. -/
def interrupted (config : Config) (record : WorkflowExecution) (t : List Event) (ev : Event)
    (ran : Bool) : CallResult :=
  let record := { record with
    status := .timedOut, error := some (timeoutMessage config) }
  ⟨record, t ++ (if ran then [ev] else []) ++ (if ev.final then [.sweepBlobs] else []) ++
    [.save record, .notifyFailure (record.currentNode.getD "") (timeoutMessage config)]⟩

/-- A call, and whether the execution timeout has cut it off before its record was final or during
the deletion. -/
structure BlobCall where
  result : CallResult
  cut : Prop

/-- The calls of an execution: `execute()`, which the timeout may end while a node runs or while it
awaits something else, and `resume()`. -/
inductive BlobRun (wf : WorkflowDefinition) (executionId : String) : List BlobCall → Prop where
  | nil : BlobRun wf executionId []
  | execute {cs : List BlobCall} (h : BlobRun wf executionId cs) (env : RunEnv)
      (triggerData : List (String × Value)) (environment : String) :
      BlobRun wf executionId (cs ++ [
        { result := execute env wf triggerData executionId environment
          cut := ∃ ctx ∈ contexts (execute env wf triggerData executionId environment).trace,
            env.timeoutDuring ctx.nodeId = true }])
  | interrupted {cs : List BlobCall} (h : BlobRun wf executionId cs) (env : RunEnv)
      (hcalm : ∀ nid, env.timeoutDuring nid = false) (triggerData : List (String × Value))
      (environment : String) {t t' : List Event} {ev : Event}
      (ht : (execute env wf triggerData executionId environment).trace = t ++ ev :: t')
      (hev : ev.awaited = true) (record : WorkflowExecution) (ran : Bool) :
      BlobRun wf executionId (cs ++ [
        { result := interrupted env.config record t ev ran, cut := ev.final = false }])
  | resume {cs : List BlobCall} (h : BlobRun wf executionId cs) (env : RunEnv)
      {e : WorkflowExecution} (he : e.executionId = executionId) (approved : Bool)
      {c : CallResult} (hc : resume env wf e approved = .ok c) :
      BlobRun wf executionId (cs ++ [{ result := c, cut := False }])

/-- What the claim asks of a call: a final record with no node run after the deletion, a paused one
without a deletion. -/
structure CallResult.CleansUp (c : CallResult) : Prop where
  terminal : c.execution.status.terminal = true →
    ∃ t t', c.trace = t ++ .sweepBlobs :: t' ∧ contexts t' = []
  paused : c.execution.status = .paused → .sweepBlobs ∉ c.trace

/-! ## The end of a loop -/

/-- Until it ends, a loop is running and has deleted nothing. -/
def Unswept : LoopAssertion := fun _ s =>
  s.execution.status = .running ∧ .sweepBlobs ∉ s.trace

theorem Unswept.invariant : Invariant seg env wf Unswept where
  collect _ _ _ h _ := h
  advance nid _ f s s' h _ _ ha := by
    refine ⟨ha.status.trans h.1, fun hmem => ?_⟩
    obtain ⟨saves, ht, hsaves⟩ := ha.trace
    rw [ht] at hmem
    rcases List.mem_append.mp hmem with hmem | hmem
    · exact h.2 hmem
    · rcases List.mem_cons.mp hmem with hmem | hmem
      · cases f <;> simp [Fate.event] at hmem
      · cases hsaves _ hmem

/-- What the code around a loop relies on. -/
structure LoopOutcome.Regular (seg : Segment) (env : RunEnv) (o : LoopOutcome) : Prop where
  timedOut : ∀ s, o = .timedOut s →
    seg = .execute ∧ ∃ ctx ∈ contexts s.trace, env.timeoutDuring ctx.nodeId = true
  outOfRounds : ∀ s, o = .outOfRounds s → s.execution.status = .running
  paused : ∀ s, o = .halted s → s.execution.status = .paused → .sweepBlobs ∉ s.trace

theorem runRounds_regular {s₀ : LoopState} (h₀ : Unswept [] s₀) (rounds : Nat) :
    (runRounds seg env wf rounds s₀).Regular seg env := by
  have hends : Ends seg env wf Unswept (runRounds seg env wf rounds s₀) :=
    runRounds_rule Unswept.invariant rounds s₀ h₀
  generalize runRounds seg env wf rounds s₀ = o at hends
  constructor
  · rintro s rfl
    obtain ⟨nid, batch, t, -, -, hstop⟩ := hends
    cases hstop with
    | @expired ctx result hseg ht hd =>
        obtain ⟨_, _, _, _, _, hnode, _⟩ := hd
        exact ⟨hseg, ctx, by simp [LoopState.afterRun, LoopState.emit, contexts],
          by rw [hnode]; exact ht⟩
  · rintro s rfl
    exact hends.1.1
  · rintro s rfl hpaused
    obtain ⟨nid, batch, t, ht, -, hstop⟩ := hends
    cases hstop with
    | cancelled hc => simp [LoopState.markCancelled, LoopState.save, LoopState.emit] at hpaused
    | @paused f s' hp =>
        obtain ⟨approvals, htrace, happrovals⟩ := hp.trace
        intro hmem
        rw [htrace] at hmem
        simp only [List.mem_append, List.mem_cons, List.not_mem_nil, or_false, reduceCtorEq]
          at hmem
        rcases hmem with hmem | hmem | hmem
        · exact ht.2 hmem
        · cases f <;> simp [Fate.event] at hmem
        · obtain ⟨_, heq⟩ := happrovals _ hmem
          cases heq
    | failed _ _ _ _ _ _ _ _ _ hstatus => simp [hstatus] at hpaused

/-- A final record is followed by the deletion. -/
theorem sweep_terminal {s : LoopState} (h : s.execution.status.terminal = true) :
    (sweepBlobsIfTerminal s).trace = s.trace ++ [.sweepBlobs] := by
  rw [sweepBlobsIfTerminal, if_pos h, LoopState.emit]

theorem sweep_cleansUp {s : LoopState} (h : s.execution.status = .paused → .sweepBlobs ∉ s.trace) :
    (sweepBlobsIfTerminal s).toResult.CleansUp where
  terminal hterminal := by
    rw [LoopState.toResult, sweep_execution] at hterminal
    exact ⟨s.trace, [], sweep_terminal hterminal, rfl⟩
  paused hpaused := by
    rw [LoopState.toResult, sweep_execution] at hpaused
    have hsame : sweepBlobsIfTerminal s = s := by
      rw [sweepBlobsIfTerminal, hpaused]
      rfl
    rw [LoopState.toResult, hsame]
    exact h hpaused

theorem LoopOutcome.Regular.cleansUp {o : LoopOutcome} (h : o.Regular seg env)
    (hno : ∀ s, o ≠ .timedOut s) (config : Config) : (o.settle config).toResult.CleansUp := by
  cases o with
  | finished s =>
      exact sweep_cleansUp fun hpaused => by
        simp [complete, LoopState.save, LoopState.emit] at hpaused
  | halted s => exact sweep_cleansUp (h.paused s rfl)
  | raised err s =>
      exact sweep_cleansUp fun hpaused => by
        simp [failWith, LoopState.save, LoopState.emit] at hpaused
  | timedOut s => exact absurd rfl (hno s)
  | outOfRounds s =>
      have hrunning := h.outOfRounds s rfl
      constructor
      · intro hterminal
        rw [LoopState.toResult, LoopOutcome.settle, hrunning] at hterminal
        cases hterminal
      · intro hpaused
        rw [LoopState.toResult, LoopOutcome.settle, hrunning] at hpaused
        cases hpaused

/-- A call of `execute()` cleans up unless the timeout fires while a node runs. -/
theorem execute_cleansUp (env : RunEnv) (wf : WorkflowDefinition)
    (triggerData : List (String × Value)) (executionId environment : String)
    (h : ∀ ctx ∈ contexts (execute env wf triggerData executionId environment).trace,
      env.timeoutDuring ctx.nodeId = false) :
    (execute env wf triggerData executionId environment).CleansUp := by
  rcases executeLoop_cases env wf triggerData executionId environment wf.nodeIds.card with
    hl | ⟨err, hl⟩
  · have hregular : (runRounds .execute env wf wf.nodeIds.card
        (executeStart env wf triggerData executionId environment)).Regular .execute env :=
      runRounds_regular ⟨rfl, by simp [executeStart]⟩ _
    rw [← hl] at hregular
    refine hregular.cleansUp (fun s hs => ?_) env.config
    obtain ⟨-, ctx, hctx, htimeout⟩ := hregular.timedOut s hs
    have hmem : ctx ∈ contexts (execute env wf triggerData executionId environment).trace := by
      have hcontexts := @settle_contexts env.config (LoopOutcome.timedOut s)
      rw [execute, LoopState.toResult, hs, hcontexts]
      exact hctx
    rw [h ctx hmem] at htimeout
    cases htimeout
  · rw [execute, hl]
    exact sweep_cleansUp fun hpaused => by
      simp [failWith, LoopState.save, LoopState.emit] at hpaused

theorem resume_cleansUp {e : WorkflowExecution} {approved : Bool} {c : CallResult}
    (hc : resume env wf e approved = .ok c) : c.CleansUp := by
  cases approved with
  | true =>
      obtain ⟨-, rfl⟩ := resume_approved hc
      have hregular : (runRounds .resume env wf wf.nodeIds.card (resumeStart wf e)).Regular
          .resume env := runRounds_regular ⟨rfl, by simp [resumeStart]⟩ _
      refine hregular.cleansUp (fun s hs => ?_) env.config
      cases (hregular.timedOut s hs).1
  | false =>
      unfold resume at hc
      split at hc
      next => cases hc
      next =>
        cases hc
        exact sweep_cleansUp fun hpaused => by simp [LoopState.save, LoopState.emit] at hpaused

theorem interrupted_cleansUp (config : Config) (record : WorkflowExecution) (t : List Event)
    {ev : Event} (h : ev.final = true) (ran : Bool) :
    (interrupted config record t ev ran).CleansUp where
  terminal _ := by
    let record := { record with status := .timedOut, error := some (timeoutMessage config) }
    refine ⟨t ++ (if ran then [ev] else []), [.save record,
      .notifyFailure (record.currentNode.getD "") (timeoutMessage config)], ?_, rfl⟩
    simp only [interrupted, h, if_true]
    rw [List.append_assoc, List.singleton_append]
  paused hpaused := by cases hpaused

/-! ## Runs -/

/-- Every call that is not cut off cleans up after itself. -/
theorem BlobRun.calls_cleanUp {executionId : String} {cs : List BlobCall}
    (h : BlobRun wf executionId cs) : ∀ c ∈ cs, ¬c.cut → c.result.CleansUp := by
  have hlast : ∀ {cs : List BlobCall} {last : BlobCall},
      (∀ c ∈ cs, ¬c.cut → c.result.CleansUp) → (¬last.cut → last.result.CleansUp) →
      ∀ c ∈ cs ++ [last], ¬c.cut → c.result.CleansUp := by
    intro cs last hold hnew c hc
    rcases List.mem_append.mp hc with hc | hc
    · exact hold c hc
    · rw [List.mem_singleton.mp hc]
      exact hnew
  induction h with
  | nil => exact fun c hc => absurd hc List.not_mem_nil
  | execute h env triggerData environment ih =>
      refine hlast ih fun hcut => execute_cleansUp env wf triggerData _ environment fun ctx hctx => ?_
      by_contra htimeout
      exact hcut ⟨ctx, hctx, Bool.of_not_eq_false htimeout⟩
  | interrupted h env hcalm triggerData environment ht hev record ran ih =>
      exact hlast ih fun hcut =>
        interrupted_cleansUp env.config record _ (Bool.of_not_eq_false hcut) ran
  | resume h env he approved hc ih => exact hlast ih fun _ => resume_cleansUp hc

def tracesOf (cs : List BlobCall) : List Event := cs.flatMap fun c => c.result.trace

/-- In a run of which no call is cut off, a call that returns a final record leaves no blob of the
execution, and one that returns a paused record keeps them all. -/
theorem BlobRun.cleans_up {executionId : String} {cs : List BlobCall}
    (h : BlobRun wf executionId cs) (hcut : ∀ c ∈ cs, ¬c.cut)
    (stores : NodeContext → List String) (deletes : String → Bool)
    (hdeletes : ∀ b, deletes b = true) (uploaded : List String) (before after : List BlobCall)
    (c : BlobCall) (hcs : cs = before ++ c :: after) :
    let blobs := blobsAfter stores deletes uploaded (tracesOf before)
    (c.result.execution.status.terminal = true →
      blobsAfter stores deletes blobs c.result.trace = []) ∧
    (c.result.execution.status = .paused →
      blobsAfter stores deletes blobs c.result.trace =
        blobs ++ (contexts c.result.trace).flatMap stores) := by
  intro blobs
  have hc : c ∈ cs := by simp [hcs]
  have hclean := h.calls_cleanUp c hc (hcut c hc)
  constructor
  · intro hterminal
    obtain ⟨t, t', htrace, ht'⟩ := hclean.terminal hterminal
    rw [htrace]
    exact blobsAfter_swept hdeletes blobs t ht'
  · exact fun hpaused => blobsAfter_kept (hclean.paused hpaused) blobs

/-! ### A run that is paused, and one that times out -/

/-- The trigger of `approvalFlow` stores an upload. -/
def uploadStores (ctx : NodeContext) : List String :=
  if ctx.nodeId = "start" then ["invoice.pdf"] else []

/-- The upload is kept for the approval and deleted after it. -/
theorem approvalFlow_cleans_up :
    (askCall approvalFlow).execution.status = .paused ∧
      (actCall approvalFlow).execution.status = .completed ∧
      blobsAfter uploadStores (fun _ => true) [] (askCall approvalFlow).trace = ["invoice.pdf"] ∧
      blobsAfter uploadStores (fun _ => true)
        (blobsAfter uploadStores (fun _ => true) [] (askCall approvalFlow).trace)
        (actCall approvalFlow).trace = [] := by
  have hpaused : (askCall approvalFlow).execution.status = .paused := by decide +kernel
  have hdone : (actCall approvalFlow).execution.status = .completed := by decide +kernel
  have hask : BlobRun approvalFlow "ex" [⟨askCall approvalFlow, _⟩] :=
    .execute .nil (.calm approvalResults) [] "test"
  have hact : BlobRun approvalFlow "ex" [⟨askCall approvalFlow, _⟩, ⟨actCall approvalFlow, False⟩] :=
    .resume hask (.calm approvalResults)
      (e := { (askCall approvalFlow).execution with status := .resuming }) (by decide +kernel) true
      (resume_eq_ok (.inr rfl))
  have hcut : ∀ c ∈ [⟨askCall approvalFlow, ∃ ctx ∈ contexts (askCall approvalFlow).trace,
      (RunEnv.calm approvalResults).timeoutDuring ctx.nodeId = true⟩,
      ⟨actCall approvalFlow, False⟩], ¬BlobCall.cut c := by
    simp [RunEnv.calm]
  have hkept := (BlobRun.cleans_up hact hcut uploadStores (fun _ => true) (fun _ => rfl) [] []
    [⟨actCall approvalFlow, False⟩] _ rfl).2 hpaused
  have hswept := (BlobRun.cleans_up hact hcut uploadStores (fun _ => true) (fun _ => rfl) []
    [⟨askCall approvalFlow, _⟩] [] _ rfl).1 (by
      rw [hdone]
      rfl)
  have hstored : (contexts (askCall approvalFlow).trace).flatMap uploadStores = ["invoice.pdf"] := by
    decide +kernel
  refine ⟨hpaused, hdone, ?_, ?_⟩
  · rw [← hstored]
    exact hkept
  · rw [tracesOf, List.flatMap_singleton] at hswept
    exact hswept

/-- The execution timeout fires while the second node runs. -/
def timeoutEnv : RunEnv :=
  { RunEnv.calm (fun _ => .completed (.dict []) 0 []) with timeoutDuring := fun nid => nid = "act" }

def uploadFlow : WorkflowDefinition where
  workflowId := "wf"
  nodes := [{ id := "start", type := .manualTrigger }, { id := "act", type := .emailSender }]
  edges := [{ source := "start", target := "act" }]

theorem uploadFlow_leaks :
    ∃ cs c, BlobRun uploadFlow "ex" cs ∧ cs = [c] ∧
      c.result.execution.status = .timedOut ∧
      blobsAfter uploadStores (fun _ => true) [] c.result.trace = ["invoice.pdf"] :=
  ⟨_, _, .execute .nil timeoutEnv [] "test", rfl, by decide +kernel, by decide +kernel⟩

end CitraFlows
