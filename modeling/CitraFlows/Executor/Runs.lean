-- SUMMARY: Calls of execute() and resume() as runs of the scheduling loops, and chains of calls across approval pauses.
import CitraFlows.Executor.Invariants

/-!
# Calls and chains of calls

The states the two entry points start their loop in, what the code around the loop makes
of its outcome, and the chains `execute()`, `resume()`, `resume()`, … in which each call
receives the record the one before has left.
-/

namespace CitraFlows

open Worklist

variable {seg : Segment} {env : RunEnv} {wf : WorkflowDefinition} {nid : NodeId}

/-! ## Where `execute()` starts -/

section
variable {triggerData : List (String × Value)} {executionId environment : String}

theorem executeStart_fresh : Fresh (executeStart env wf triggerData executionId environment) where
  trace := rfl
  outputs _ _ := rfl
  softFailed := rfl

theorem mem_rootNodes : nid ∈ rootNodes wf ↔ nid ∈ wf.nodeIds ∧ wf.incoming nid = [] := by
  simp [rootNodes, WorkflowDefinition.mem_nodeKeys, List.isEmpty_iff]

theorem mem_startNodes :
    nid ∈ startNodes wf ↔ nid ∈ rootNodes wf ∧ isOrphan wf nid = false := by
  simp [startNodes]

theorem mem_orphanedNodes :
    nid ∈ orphanedNodes wf ↔ nid ∈ rootNodes wf ∧ isOrphan wf nid = true := by
  simp [orphanedNodes]

/-- No edge leaves an orphan. -/
theorem orphan_not_parent (h : nid ∈ orphanedNodes wf) (m : NodeId) : nid ∉ wf.incoming m := by
  intro hin
  obtain ⟨e, he, -, hs⟩ := WorkflowDefinition.mem_incoming.mp hin
  -- an orphan is the source of no edge
  have horphan := (mem_orphanedNodes.mp h).2
  simp only [isOrphan, Bool.and_eq_true, List.all_eq_true, decide_eq_true_eq] at horphan
  exact (horphan.1 e he).1 hs

theorem mem_executeStart_nextQueue :
    nid ∈ (executeStart env wf triggerData executionId environment).nextQueue ↔
      nid ∈ startNodes wf :=
  (env.setOrder_perm _).mem_iff

theorem executeStart_pending :
    Pending wf [] (executeStart env wf triggerData executionId environment) where
  batch_mem := by simp
  queue_mem x hx :=
    (mem_rootNodes.mp (mem_startNodes.mp (mem_executeStart_nextQueue.mp hx)).1).1
  queue_new x _ := by simp [executeStart]
  apart := by simp

private theorem lookup_markSkipped (orphans : List NodeId) (rs : NodeResults) :
    (orphans.foldl (fun rs nid => rs.insert nid { nodeId := nid, status := .skipped }) rs).lookup
      nid = if nid ∈ orphans then some { nodeId := nid, status := .skipped } else rs.lookup nid := by
  induction orphans generalizing rs with
  | nil => simp
  | cons x orphans ih =>
      rw [List.foldl_cons, ih]
      by_cases h : nid = x
      · subst h
        simp
      · simp [h, AList.lookup_insert_ne h]

/-- `execute()` starts with a result for the orphans, and for no other node. -/
theorem executeStart_lookup :
    (executeStart env wf triggerData executionId environment).execution.nodeResults.lookup nid =
      if nid ∈ orphanedNodes wf then some { nodeId := nid, status := .skipped } else none := by
  simp only [executeStart, lookup_markSkipped, newExecution, AList.lookup_empty]

end

/-! ## Where `resume()` starts -/

section
variable {results : NodeResults} {e : WorkflowExecution}

theorem mem_restoredExecuted :
    nid ∈ restoredExecuted results ↔ ∃ r, results.lookup nid = some r ∧ r.restored = true := by
  simp only [restoredExecuted, restoredEntries, List.mem_toFinset, List.mem_map, List.mem_filter]
  constructor
  · rintro ⟨⟨_, r⟩, ⟨hmem, hr⟩, rfl⟩
    exact ⟨r, AList.mem_lookup_iff.mpr hmem, hr⟩
  · rintro ⟨r, hl, hr⟩
    exact ⟨⟨nid, r⟩, ⟨AList.mem_lookup_iff.mp hl, hr⟩, rfl⟩

private theorem lookup_storeOutputs (l : List (Sigma fun _ : NodeId => NodeExecutionResult))
    (hl : l.NodupKeys) (outputs : NodeOutputs) :
    (l.foldl (fun outputs p => outputs.insert p.1 p.2.outputData) outputs).lookup nid =
      ((l.dlookup nid).map (·.outputData)).or (outputs.lookup nid) := by
  induction l generalizing outputs with
  | nil => simp
  | cons p l ih =>
      obtain ⟨hp, hl⟩ := List.nodupKeys_cons.mp hl
      rw [List.foldl_cons, ih hl]
      by_cases h : nid = p.1
      · subst h
        obtain ⟨m, r⟩ := p
        rw [List.dlookup_eq_none.mpr hp, AList.lookup_insert, List.dlookup_cons_eq]
        simp
      · rw [AList.lookup_insert_ne h, List.dlookup_cons_ne _ _ h]

/-- `resume()` restores the output recorded for a completed or skipped node. -/
theorem restoredOutputs_lookup :
    (restoredOutputs results).lookup nid =
      (results.lookup nid).bind fun r => if r.restored then some r.outputData else none := by
  have hnd : (restoredEntries results).NodupKeys :=
    results.nodupKeys.sublist List.filter_sublist
  rw [restoredOutputs, lookup_storeOutputs _ hnd, AList.lookup_empty, Option.or_none]
  -- the entries that are restored are those of the record, one a node
  cases h : results.lookup nid with
  | none =>
      have hout : (restoredEntries results).dlookup nid = none := by
        rw [List.dlookup_eq_none]
        rintro hk
        obtain ⟨p, hp, rfl⟩ := List.mem_map.mp hk
        have := AList.mem_lookup_iff.mpr (List.mem_filter.mp hp).1
        rw [h] at this
        cases this
      rw [hout]
      rfl
  | some r =>
      have hmem := AList.mem_lookup_iff.mp h
      by_cases hr : r.restored = true
      · have hin : (⟨nid, r⟩ : Sigma fun _ : NodeId => NodeExecutionResult) ∈
            restoredEntries results := List.mem_filter.mpr ⟨hmem, hr⟩
        rw [(List.mem_dlookup_iff hnd).mpr hin]
        simp [hr]
      · have hout : (restoredEntries results).dlookup nid = none := by
          rw [List.dlookup_eq_none]
          intro hk
          obtain ⟨p, hp, heq⟩ := List.mem_map.mp hk
          obtain ⟨hp, hpr⟩ := List.mem_filter.mp hp
          obtain ⟨m, r'⟩ := p
          cases heq
          have heq := results.nodupKeys.eq_of_mk_mem hp hmem
          subst heq
          exact hr hpr
        rw [hout]
        simp [hr]

theorem resumeStart_fresh : Fresh (resumeStart wf e) where
  trace := rfl
  outputs m hm := by
    have hm : m ∉ restoredExecuted e.nodeResults := hm
    simp only [resumeStart, restoredOutputs_lookup]
    rw [mem_restoredExecuted, not_exists] at hm
    cases hl : e.nodeResults.lookup m with
    | none => rfl
    | some r =>
        have hr : ¬ r.restored = true := fun hr => hm r ⟨hl, hr⟩
        simp [hr]
  softFailed := rfl

theorem mem_resumeQueue {paused : Option NodeId} {E : Finset NodeId} :
    nid ∈ resumeQueue wf paused E ↔ nid ∉ E ∧
      match paused with
      | some p => if p = "" then nid ∈ wf.nodeIds else nid ∈ wf.adjacency p
      | none => nid ∈ wf.nodeIds := by
  cases paused with
  | none => simp [resumeQueue, WorkflowDefinition.mem_nodeKeys, and_comm]
  | some p => by_cases h : p = "" <;> simp [resumeQueue, WorkflowDefinition.mem_nodeKeys, h, and_comm]

theorem resumeStart_pending (hE : wf.EdgesInNodes) : Pending wf [] (resumeStart wf e) where
  batch_mem := by simp
  queue_mem x hx := by
    obtain ⟨-, hx⟩ := mem_resumeQueue.mp hx
    split at hx
    · split at hx
      · exact hx
      · exact hE.adjacency hx
    · exact hx
  queue_new x hx := (mem_resumeQueue.mp hx).1
  apart := by simp

end

/-! ## What the code around a loop makes of its outcome -/

section
variable {config : Config}

theorem sweep_execution (s : LoopState) :
    (sweepBlobsIfTerminal s).execution = s.execution := by
  unfold sweepBlobsIfTerminal
  split <;> rfl

private theorem fates_sweep (s : LoopState) :
    fates (sweepBlobsIfTerminal s).trace = fates s.trace := by
  unfold sweepBlobsIfTerminal
  split <;> simp [LoopState.emit, fates, Event.fate?]

theorem settle_nodeResults (o : LoopOutcome) :
    (o.settle config).execution.nodeResults = o.state.execution.nodeResults := by
  cases o <;> simp [LoopOutcome.settle, LoopOutcome.state, sweep_execution, complete, failWith,
    expire, LoopState.save, LoopState.emit]

theorem settle_fates (o : LoopOutcome) : fates (o.settle config).trace = fates o.state.trace := by
  have hcons : ∀ (s : LoopState) (ev : Event), ev.fate? = none →
      fates (s.trace ++ [ev]) = fates s.trace := by
    intro s ev hev
    simp [fates, hev]
  cases o with
  | finished s =>
      simp only [LoopOutcome.settle, fates_sweep]
      exact hcons s _ rfl
  | halted s => exact fates_sweep s
  | raised e s =>
      simp only [LoopOutcome.settle, fates_sweep]
      exact hcons s _ rfl
  | timedOut s =>
      simp only [LoopOutcome.settle, expire, LoopState.emit, LoopState.save, fates_append,
        fates_sweep]
      simp [fates, Event.fate?, LoopOutcome.state]
  | outOfRounds s => rfl

/-- What is saved after the loop is final. -/
theorem settle_saved {o : LoopOutcome} {e : WorkflowExecution}
    (h : .save e ∈ (o.settle config).trace) :
    .save e ∈ o.state.trace ∨ e.status.terminal = true := by
  have hsweep : ∀ s : LoopState, .save e ∈ (sweepBlobsIfTerminal s).trace → .save e ∈ s.trace := by
    intro s hs
    unfold sweepBlobsIfTerminal at hs
    split at hs
    · simpa [LoopState.emit] using hs
    · exact hs
  cases o with
  | finished s =>
      have := hsweep _ h
      simp only [complete, LoopState.save, LoopState.emit, List.mem_append, List.mem_singleton,
        Event.save.injEq] at this
      rcases this with h | rfl
      · exact .inl h
      · exact .inr rfl
  | halted s => exact .inl (hsweep _ h)
  | raised err s =>
      have := hsweep _ h
      simp only [failWith, LoopState.save, LoopState.emit, List.mem_append, List.mem_singleton,
        Event.save.injEq] at this
      rcases this with h | rfl
      · exact .inl h
      · exact .inr rfl
  | timedOut s =>
      simp only [LoopOutcome.settle, expire, LoopState.save, LoopState.emit, List.mem_append,
        List.mem_singleton, Event.save.injEq, reduceCtorEq, or_false] at h
      rcases h with h | rfl
      · exact .inl (hsweep _ h)
      · exact .inr rfl
  | outOfRounds s => exact .inl h

/-- A call that leaves the record completed has come to the end of its loop. -/
theorem Ends.of_completed {I : LoopAssertion} {o : LoopOutcome} (h : Ends seg env wf I o)
    (hrounds : ∀ s, o ≠ .outOfRounds s)
    (hstatus : (o.settle config).execution.status = .completed) :
    ∃ s, o = .finished s ∧ I [] s ∧ ∀ x ∈ s.nextQueue, ¬ Ready wf.incoming s.executed x := by
  cases o with
  | finished s => exact ⟨s, rfl, h⟩
  | outOfRounds s => exact absurd rfl (hrounds s)
  | raised e s =>
      simp [LoopOutcome.settle, sweep_execution, failWith, LoopState.save, LoopState.emit] at hstatus
  | timedOut s =>
      simp [LoopOutcome.settle, expire, LoopState.save, LoopState.emit] at hstatus
  | halted s =>
      rw [LoopOutcome.settle, sweep_execution] at hstatus
      -- a loop that is halted leaves the record cancelled, paused or failed
      obtain ⟨nid, batch, t, -, -, hstop⟩ := h
      cases hstop with
      | cancelled hc => simp [LoopState.markCancelled, LoopState.save, LoopState.emit] at hstatus
      | paused hp => simp [hp.status] at hstatus
      | failed _ _ _ _ _ _ _ _ _ hfailed _ => simp [hfailed] at hstatus

/-- A call that leaves the record paused has stopped at a node that asks for an approval. -/
theorem Ends.of_paused {I : LoopAssertion} {o : LoopOutcome} (h : Ends seg env wf I o)
    (hrounds : ∀ s, o ≠ .outOfRounds s)
    (hstatus : (o.settle config).execution.status = .paused) :
    ∃ s', o = .halted s' ∧ ∃ nid batch f s, I (nid :: batch) s ∧
      Ready wf.incoming s.executed nid ∧ Pauses seg env wf nid f s s' := by
  cases o with
  | finished s =>
      simp [LoopOutcome.settle, sweep_execution, complete, LoopState.save, LoopState.emit] at hstatus
  | outOfRounds s => exact absurd rfl (hrounds s)
  | raised e s =>
      simp [LoopOutcome.settle, sweep_execution, failWith, LoopState.save, LoopState.emit] at hstatus
  | timedOut s =>
      simp [LoopOutcome.settle, expire, LoopState.save, LoopState.emit] at hstatus
  | halted s =>
      rw [LoopOutcome.settle, sweep_execution] at hstatus
      -- of the ways to halt only the pause leaves the record paused
      obtain ⟨nid, batch, t, hI, hr, hstop⟩ := h
      cases hstop with
      | cancelled hc => simp [LoopState.markCancelled, LoopState.save, LoopState.emit] at hstatus
      | paused hp => exact ⟨s, rfl, nid, batch, _, t, hI, hr, hp⟩
      | failed _ _ _ _ _ _ _ _ _ hfailed _ => simp [hfailed] at hstatus

theorem settle_halted (s : LoopState) :
    ((LoopOutcome.halted s).settle config).execution = s.execution :=
  sweep_execution s

end

/-! ## The loops of the two entry points -/

section
variable {triggerData : List (String × Value)} {executionId environment : String}
  {e : WorkflowExecution} {rounds : Nat}

variable (env wf triggerData executionId environment rounds) in
/-- The loop of `execute()` runs unless there is no root to start from. -/
theorem executeLoop_cases :
    executeLoop env wf triggerData executionId environment rounds =
      runRounds .execute env wf rounds (executeStart env wf triggerData executionId environment) ∨
    ∃ e, executeLoop env wf triggerData executionId environment rounds =
      .raised e (executeStart env wf triggerData executionId environment) := by
  unfold executeLoop
  split
  · exact .inr ⟨_, rfl⟩
  · exact .inl rfl

variable (env wf triggerData executionId environment rounds) in
theorem executeLoop_final :
    Final .execute env wf (executeStart env wf triggerData executionId environment)
      (executeLoop env wf triggerData executionId environment rounds).state := by
  rcases executeLoop_cases env wf triggerData executionId environment rounds with h | ⟨e, h⟩
  · rw [h]
    exact runRounds_final executeStart_fresh rounds
  · rw [h]
    exact (Settled.refl executeStart_fresh).final

/-- The loop of `execute()` ends within as many rounds as there are nodes. -/
theorem executeLoop_enough (hE : wf.EdgesInNodes) (hr : wf.nodeIds.card ≤ rounds) (s : LoopState) :
    executeLoop env wf triggerData executionId environment rounds ≠ .outOfRounds s := by
  rcases executeLoop_cases env wf triggerData executionId environment rounds with h | ⟨e, h⟩
  · rw [h]
    exact runRounds_enough hE executeStart_pending
      ((Finset.card_le_card Finset.sdiff_subset).trans hr) s
  · simp [h]

/-- The loop of `resume()` ends within as many rounds as there are nodes. -/
theorem resumeLoop_enough (hE : wf.EdgesInNodes) (hr : wf.nodeIds.card ≤ rounds) (s : LoopState) :
    resumeLoop env wf e rounds ≠ .outOfRounds s :=
  runRounds_enough hE (resumeStart_pending hE)
    ((Finset.card_le_card Finset.sdiff_subset).trans hr) s

variable (env wf triggerData executionId environment) in
/-- A record that a run of `execute()` leaves with a status no exception leaves comes from
the loop. -/
theorem execute_status (h : (execute env wf triggerData executionId environment).execution.status ≠
    .failed) :
    executeLoop env wf triggerData executionId environment wf.nodeIds.card =
      runRounds .execute env wf wf.nodeIds.card
        (executeStart env wf triggerData executionId environment) := by
  rcases executeLoop_cases env wf triggerData executionId environment wf.nodeIds.card with
    hl | ⟨e, hl⟩
  · exact hl
  · refine absurd ?_ h
    simp [execute, hl, LoopOutcome.settle, sweep_execution, failWith, LoopState.save,
      LoopState.emit, LoopState.toResult]

theorem execute_nodeResults :
    (execute env wf triggerData executionId environment).execution.nodeResults =
      (executeLoop env wf triggerData executionId environment
        wf.nodeIds.card).state.execution.nodeResults :=
  settle_nodeResults _

theorem execute_fates :
    fates (execute env wf triggerData executionId environment).trace =
      fates (executeLoop env wf triggerData executionId environment wf.nodeIds.card).state.trace :=
  settle_fates _

end

/-- An approved `resume()` of a record that waits. -/
theorem resume_approved {e : WorkflowExecution} {c : CallResult}
    (h : resume env wf e true = .ok c) :
    (e.status = .paused ∨ e.status = .resuming) ∧
      c = ((resumeLoop env wf e wf.nodeIds.card).settle env.config).toResult := by
  unfold resume at h
  split at h
  · cases h
  · rename_i hs
    simp only [Bool.not_true, Bool.false_eq_true, if_false, Except.ok.injEq] at h
    exact ⟨by tauto, h.symm⟩

theorem resume_eq_ok {e : WorkflowExecution} (h : e.status = .paused ∨ e.status = .resuming) :
    resume env wf e true =
      .ok ((resumeLoop env wf e wf.nodeIds.card).settle env.config).toResult := by
  unfold resume
  rw [if_neg (by tauto)]
  rfl

/-- A record that `execute()` saves and that is not final is that of a settled state. -/
theorem execute_saved {triggerData : List (String × Value)} {executionId environment : String}
    {e : WorkflowExecution}
    (h : .save e ∈ (execute env wf triggerData executionId environment).trace)
    (hst : e.status.terminal = false) :
    ∃ s, Settled .execute env wf (executeStart env wf triggerData executionId environment) s ∧
      e = s.execution := by
  rcases settle_saved h with h | h
  · rcases executeLoop_cases env wf triggerData executionId environment wf.nodeIds.card with
      hl | ⟨err, hl⟩
    · rw [hl] at h
      -- a record that is not final was saved by the loop
      exact (runRounds_saved executeStart_fresh h).resolve_left (by simp [hst])
    · rw [hl] at h
      simp [LoopOutcome.state, executeStart] at h
  · simp [hst] at h

/-- The records saved in a trace. -/
def savedRecords (t : List Event) : List WorkflowExecution :=
  t.filterMap fun
    | .save e => some e
    | _ => none

theorem mem_savedRecords {t : List Event} {e : WorkflowExecution} :
    e ∈ savedRecords t ↔ .save e ∈ t := by
  unfold savedRecords
  rw [List.mem_filterMap]
  constructor
  · rintro ⟨ev, hev, h⟩
    cases ev <;> simp_all
  · exact fun h => ⟨_, h, rfl⟩

/-! ## Chains of calls -/

/-- A chain of calls: everything the calls did, the records they paused with, and the
record the last one has left. Between a pause and the call that resumes from it the
status of the record may have been set to `resuming`. -/
inductive Chain (wf : WorkflowDefinition) :
    List Event → List WorkflowExecution → WorkflowExecution → Prop where
  | execute (env : RunEnv) (triggerData : List (String × Value))
      (executionId environment : String) :
      Chain wf (execute env wf triggerData executionId environment).trace []
        (execute env wf triggerData executionId environment).execution
  | resume {t : List Event} {pauses : List WorkflowExecution} {e : WorkflowExecution}
      (h : Chain wf t pauses e) (hp : e.status = .paused) (env : RunEnv)
      (status : ExecutionStatus) {c : CallResult}
      (hc : resume env wf { e with status := status } true = .ok c) :
      Chain wf (t ++ c.trace) (pauses ++ [e]) c.execution

/-- What an approved `resume()` does from the record of a paused call. -/
def resumeAfter (env : RunEnv) (wf : WorkflowDefinition) (first : CallResult) : CallResult :=
  ((resumeLoop env wf { first.execution with status := .resuming } wf.nodeIds.card).settle
    env.config).toResult

theorem Chain.resumeAfter {t : List Event} {pauses : List WorkflowExecution} {c : CallResult}
    (h : Chain wf t pauses c.execution) (hp : c.execution.status = .paused) (env : RunEnv) :
    Chain wf (t ++ (resumeAfter env wf c).trace) (pauses ++ [c.execution])
      (resumeAfter env wf c).execution :=
  .resume h hp env .resuming (resume_eq_ok (.inr rfl))

/-! ## Runs split by pauses and crashes -/

/-- The records a run can be split at: those `execute()` saves while the run is not over
(checkpoints and pauses), and those `resume()` pauses with (it writes no checkpoints, so that
a crash of it goes back to the record before). `world` holds of what each call meets, and `P`
of every call of `resume()`. -/
inductive SplitRecord (wf : WorkflowDefinition) (world : RunEnv → Prop)
    (P : CallResult → Prop) : WorkflowExecution → Prop where
  | execute {env : RunEnv} (hw : world env) (triggerData : List (String × Value))
      (executionId environment : String) {e : WorkflowExecution}
      (hsave : .save e ∈ (execute env wf triggerData executionId environment).trace)
      (hst : e.status = .running ∨ e.status = .paused) : SplitRecord wf world P e
  | resume {e : WorkflowExecution} (h : SplitRecord wf world P e) {env : RunEnv}
      (hw : world env) {status : ExecutionStatus} {c : CallResult}
      (hc : resume env wf { e with status := status } true = .ok c) (hP : P c)
      (hst : c.execution.status = .paused) : SplitRecord wf world P c.execution

/-- A segment of such a run. -/
inductive SplitCall (wf : WorkflowDefinition) (world : RunEnv → Prop)
    (P : CallResult → Prop) : CallResult → Prop where
  | execute {env : RunEnv} (hw : world env) (triggerData : List (String × Value))
      (executionId environment : String) :
      SplitCall wf world P (execute env wf triggerData executionId environment)
  | resume {e : WorkflowExecution} (h : SplitRecord wf world P e) {env : RunEnv}
      (hw : world env) {status : ExecutionStatus} {c : CallResult}
      (hc : resume env wf { e with status := status } true = .ok c) (hP : P c) :
      SplitCall wf world P c

end CitraFlows
