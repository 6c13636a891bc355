-- SUMMARY: Nodes set to continue_on_error along a chain of calls: what a soft failure means in each segment, and when a pause keeps that meaning.
import CitraFlows.Executor.Pruning
import CitraFlows.Executor.Completeness

/-!
# Soft failures

In `execute()` a failed node that is set to `continue_on_error` counts as executed and its
branch is pruned. `resume()` knows nothing of it: a node that fails there ends the run, and
a node that has failed before is neither restored as executed nor run again. So the branch
behind a soft failure is decided before the first pause or not at all.
-/

namespace CitraFlows

open Worklist

variable {seg : Segment} {env : RunEnv} {wf : WorkflowDefinition} {nid : NodeId}

/-! ## Chains of calls that pause -/

/-- The calls of a chain that pauses and is resumed any number of times, and the record the last
one leaves. `P` holds of each record that is resumed and of the call that resumes it. -/
inductive PausedCalls (wf : WorkflowDefinition) (P : WorkflowExecution → CallResult → Prop) :
    List CallResult → WorkflowExecution → Prop where
  | execute (env : RunEnv) (triggerData : List (String × Value))
      (executionId environment : String) :
      PausedCalls wf P [execute env wf triggerData executionId environment]
        (execute env wf triggerData executionId environment).execution
  | resume {cs : List CallResult} {e : WorkflowExecution} (h : PausedCalls wf P cs e)
      (hp : e.status = .paused) (env : RunEnv) (status : ExecutionStatus) {c : CallResult}
      (hc : resume env wf { e with status := status } true = .ok c) (hP : P e c) :
      PausedCalls wf P (cs ++ [c]) c.execution

/-- Everything the calls have decided. -/
def allFates (cs : List CallResult) : List (NodeId × Fate) := cs.flatMap fun c => fates c.trace

/-- The node has failed and is set to `continue_on_error`. -/
def SoftFails (wf : WorkflowDefinition) (nid : NodeId) (f : Fate) : Prop :=
  f.failed = true ∧ ∃ n, wf.nodeMap nid = some n ∧ n.continueOnError = true

/-- The record holds a soft failure of the node. -/
def SoftFailedIn (wf : WorkflowDefinition) (e : WorkflowExecution) (nid : NodeId) : Prop :=
  e.statusOf nid = some .failed ∧ ∃ n, wf.nodeMap nid = some n ∧ n.continueOnError = true

/-- `continue_on_error` is honoured in every call of a chain that has left the record `e`. -/
structure ContinuesOnError (wf : WorkflowDefinition) (cs : List CallResult)
    (e : WorkflowExecution) : Prop where
  /-- No run is reported as failed at such a node. -/
  goesOn : ∀ c ∈ cs, c.execution.status = .failed →
    (∃ label error, .notifyFailure label error ∈ c.trace) →
    ∀ fs nid f, fates c.trace = fs ++ [(nid, f)] → ¬ SoftFails wf nid f
  /-- A node with such a parent is skipped if a completed parent routes away from it or no parent
  has completed, and run else. -/
  prunes : ∀ c ∈ cs, ∀ nid f, (nid, f) ∈ fates c.trace →
    (∃ p ∈ wf.incoming nid, SoftFailedIn wf e p) →
    (f = .skipped ↔ (∃ p ∈ wf.incoming nid, routesAway wf e.nodeResults nid p = true) ∨
      ∀ p ∈ wf.incoming nid, completedIn e.nodeResults p = false)
  /-- It does not block a node that waits for it. -/
  unblocked : e.status = .completed → ∀ nid ∈ wf.nodeIds,
    (∃ p ∈ wf.incoming nid, SoftFailedIn wf e p) →
    (∀ p ∈ wf.incoming nid, p ∈ e.nodeResults) → nid ∈ e.nodeResults
  /-- It is not decided again. -/
  once : ∀ pre nid f post, allFates cs = pre ++ (nid, f) :: post → SoftFails wf nid f →
    nid ∉ post.map (·.1)

/-- The branch behind each soft failure in the record of a pause is decided (and the paused node
has an id), and no node that the next call runs fails softly. -/
structure SoftFailuresSettled (wf : WorkflowDefinition) (e : WorkflowExecution) (c : CallResult) :
    Prop where
  closed : ∀ p, SoftFailedIn wf e p →
    (∀ m ∈ wf.adjacency p, m ∈ e.nodeResults) ∧ e.pausedAtNode ≠ some ""
  noneFails : ∀ nid f, (nid, f) ∈ fates c.trace → ¬ SoftFails wf nid f

/-! ## The record of a pause -/

/-- What is known of the record of a pause from what was decided before it. -/
structure PausedState (wf : WorkflowDefinition) (fs : List (NodeId × Fate))
    (e : WorkflowExecution) : Prop where
  order : InOrder wf fs
  nodup : (fs.map (·.1)).Nodup
  recorded : ∀ nid f, (nid, f) ∈ fs → ∃ config, e.nodeResults.lookup nid = some (f.result config nid)
  known : ∀ nid ∈ e.nodeResults, nid ∈ fs.map (·.1) ∨ ∀ m, nid ∉ wf.incoming m
  soft : ∀ nid f, (nid, f) ∈ fs → Executed wf nid f
  last : ∃ fs' p f, fs = fs' ++ [(p, f)] ∧ e.pausedAtNode = some p ∧ f.failed = false

/-- The parents of decided nodes are decided. -/
theorem PausedState.parent_mem {fs : List (NodeId × Fate)} {e : WorkflowExecution}
    (h : PausedState wf fs e) (hn : nid ∈ fs.map (·.1)) {p : NodeId} (hp : p ∈ wf.incoming nid) :
    p ∈ fs.map (·.1) := by
  obtain ⟨⟨_, f⟩, hf, rfl⟩ := List.mem_map.mp hn
  obtain ⟨pre, post, hsplit⟩ := List.append_of_mem hf
  obtain ⟨g, hg, -⟩ := h.order pre _ f post hsplit p hp
  rw [hsplit]
  exact List.mem_map.mpr ⟨_, List.mem_append_left _ hg, rfl⟩

/-- The end of a call that pauses is the record of a pause. -/
theorem Settled.pausedState {s₀ s s' : LoopState} {f : Fate}
    (hs : Settled seg env wf s₀ s) (h₀ : Fresh s₀) (hr : Ready wf.incoming s.executed nid)
    (hp : Pauses seg env wf nid f s s') (fs : List (NodeId × Fate))
    (horder : InOrder wf (fs ++ fates s'.trace))
    (hnodup : ((fs ++ fates s'.trace).map (·.1)).Nodup)
    (hrecorded : ∀ m g, (m, g) ∈ fs → ∃ config,
      s₀.execution.nodeResults.lookup m = some (g.result config m))
    (hknown : ∀ m ∈ s₀.execution.nodeResults, m ∈ fs.map (·.1) ∨ ∀ x, m ∉ wf.incoming x)
    (hsoft : ∀ m g, (m, g) ∈ fs → Executed wf m g) :
    PausedState wf (fs ++ fates s'.trace) s'.execution := by
  have hs' := hs.pauses h₀ hr hp
  refine ⟨horder, hnodup, fun m g hg => ?_, fun m hm => ?_, fun m g hg => ?_, ?_⟩
  · rcases List.mem_append.mp hg with hg | hg
    · -- a node of the calls before is not decided again, so its result is the old one
      have hno : m ∉ decisions s'.trace := by
        intro hd
        rw [List.map_append, List.nodup_append] at hnodup
        exact hnodup.2.2 m (List.mem_map.mpr ⟨_, hg, rfl⟩) m hd rfl
      rw [hs'.results m hno]
      exact hrecorded m g hg
    · exact ⟨env.config, (hs'.recorded m g hg).result⟩
  · by_cases hd : m ∈ decisions s'.trace
    · left
      rw [List.map_append]
      exact List.mem_append_right _ hd
    · rw [← AList.lookup_isSome, hs'.results m hd, AList.lookup_isSome] at hm
      rcases hknown m hm with hm | hm
      · left
        rw [List.map_append]
        exact List.mem_append_left _ hm
      · exact .inr hm
  · rcases List.mem_append.mp hg with hg | hg
    · exact hsoft m g hg
    · exact (hs'.continues m g hg).executed
  · refine ⟨fs ++ fates s.trace, nid, f, ?_, hp.pausedAtNode, ?_⟩
    · rw [hp.fates, List.append_assoc]
    · obtain ⟨output, ho, -⟩ := hp.waiting
      revert ho
      unfold Fate.output
      split <;> simp [Fate.failed]

/-- A paused `execute()`. -/
theorem execute_pausedState (hE : wf.EdgesInNodes) {triggerData : List (String × Value)}
    {executionId environment : String}
    (h : (execute env wf triggerData executionId environment).execution.status = .paused) :
    PausedState wf (fates (execute env wf triggerData executionId environment).trace)
      (execute env wf triggerData executionId environment).execution := by
  obtain ⟨s', he, hf, nid, batch, f, s, hs, hr, hp⟩ := execute_paused hE
    (Settled.invariant executeStart_fresh) (Settled.refl executeStart_fresh) h
  have horder : InOrder wf (fates (execute env wf triggerData executionId environment).trace) :=
    execute_inOrder
  have hs' := hs.pauses executeStart_fresh hr hp
  rw [hf] at horder
  rw [he, hf]
  have hstate := hs.pausedState executeStart_fresh hr hp [] horder hs'.schedule.nodup
    (by simp) (fun m hm => ?_) (by simp)
  · exact hstate
  · right
    obtain ⟨r, hl⟩ := Option.isSome_iff_exists.mp (AList.lookup_isSome.mpr hm)
    rw [executeStart_lookup] at hl
    split at hl
    case isTrue horphan => exact orphan_not_parent horphan
    case isFalse => cases hl

/-! ## What an approved call decides -/

/-- The loop has not decided, and will not decide, one of these nodes. -/
def Avoids (decided : NodeId → Prop) : LoopAssertion := fun batch s =>
  (∀ x ∈ decisions s.trace, ¬ decided x) ∧ ∀ x ∈ batch ++ s.nextQueue, ¬ decided x

/-- A set of nodes that holds the parents of its nodes cannot be entered from outside. -/
theorem Avoids.invariant {decided : NodeId → Prop}
    (hclosed : ∀ x, decided x → ∀ p ∈ wf.incoming x, decided p) :
    Invariant seg env wf (Avoids decided) where
  collect s batch next h hc := by
    refine ⟨h.1, fun x hx => h.2 x ?_⟩
    rcases List.mem_append.mp hx with hx | hx
    · exact List.mem_append_right _ (hc.ready x hx).1
    · exact List.mem_append_right _ (hc.unready x hx).1
  advance nid batch f s s' h _ _ ha := by
    have hnew := h.2 nid (by simp)
    refine ⟨fun x hx => ?_, fun x hx => ?_⟩
    · rw [decisions, ha.fates, List.map_append] at hx
      rcases List.mem_append.mp hx with hx | hx
      · exact h.1 x hx
      · rw [List.mem_singleton.mp hx]
        exact hnew
    · rcases List.mem_append.mp hx with hx | hx
      · exact h.2 x (by simp [hx])
      · rcases (ha.nextQueue x).mp hx with hx | ⟨hx, -⟩
        · exact h.2 x (by simp [hx])
        · exact fun hd => hnew
            (hclosed x hd nid (WorkflowDefinition.mem_adjacency_iff_mem_incoming.mp hx))

theorem Stops.avoids {decided : NodeId → Prop} {batch : List NodeId} {s : LoopState}
    {step : NodeStep} (hs : Stops seg env wf nid s step) (h : Avoids decided (nid :: batch) s) :
    ∀ x ∈ decisions step.state.trace, ¬ decided x := by
  have hnew := h.2 nid (by simp)
  -- the node of the step is the only new decision
  have hlast (f : Fate) (t : LoopState) (ht : fates t.trace = fates s.trace ++ [(nid, f)]) :
      ∀ x ∈ decisions t.trace, ¬ decided x := by
    intro x hx
    rw [decisions, ht, List.map_append] at hx
    rcases List.mem_append.mp hx with hx | hx
    · exact h.1 x hx
    · rw [List.mem_singleton.mp hx]
      exact hnew
  cases hs with
  | cancelled hc =>
      intro x hx
      refine h.1 x ?_
      simpa [NodeStep.state, LoopState.markCancelled, LoopState.save, LoopState.emit, decisions,
        fates, Event.fate?] using hx
  | missing hn => exact h.1
  | badRoute hr => exact h.1
  | stepLimit hl => exact h.1
  | @expired ctx result hseg ht hd =>
      refine hlast (.ran ctx result) _ ?_
      simp only [NodeStep.state, LoopState.afterRun, LoopState.emit, fates_append]
      obtain ⟨n, r, -, -, -, -, -, -, rfl⟩ := id hd
      exact congrArg _ (fates_event hd [])
  | paused hp => exact hlast _ _ hp.fates
  | @badOutput f output err s' hd ho hw hst ht =>
      refine hlast f _ ?_
      rw [NodeStep.state, ht, fates_append, fates_event hd, fates_nil]
  | @failed f n s' hd hf hn hhard hexecuted houtputs hsoft hresults htrigger hstatus ht =>
      obtain ⟨label, error, ht⟩ := ht
      refine hlast f _ ?_
      rw [NodeStep.state, ht, fates_append, fates_event hd]
      rfl

/-- A decided node that is not restored has failed softly. -/
theorem PausedState.softFailedIn {fs : List (NodeId × Fate)} {e : WorkflowExecution}
    (h : PausedState wf fs e) (hmem : nid ∈ fs.map (·.1))
    (hno : nid ∉ restoredExecuted e.nodeResults) : SoftFailedIn wf e nid := by
  obtain ⟨⟨_, f⟩, hf, rfl⟩ := List.mem_map.mp hmem
  obtain ⟨config, hl⟩ := h.recorded _ f hf
  have hfail : f.failed = true := by
    by_contra hfail
    exact hno (mem_restoredExecuted.mpr ⟨_, hl, Fate.restored_iff.mpr (by simpa using hfail)⟩)
  refine ⟨?_, h.soft _ f hf hfail⟩
  simp [WorkflowExecution.statusOf, hl, Fate.result_failed hfail]

/-- After a pause, an approved call decides new nodes only, unless it takes the pause for a
crash and the record holds a soft failure. -/
theorem PausedState.decides_new {fs : List (NodeId × Fate)} {e : WorkflowExecution}
    (h : PausedState wf fs e) (hid : ∀ p, SoftFailedIn wf e p → e.pausedAtNode ≠ some "")
    {status : ExecutionStatus} {c : CallResult}
    (hc : resume env wf { e with status := status } true = .ok c) :
    ∀ x ∈ decisions c.trace, x ∉ fs.map (·.1) := by
  obtain ⟨-, rfl⟩ := resume_approved hc
  have hstart : Avoids (· ∈ fs.map (·.1)) [] (resumeStart wf { e with status := status }) := by
    refine ⟨by simp [resumeStart, decisions], fun x hx hmem => ?_⟩
    obtain ⟨hnew, hx⟩ := mem_resumeQueue.mp hx
    have hsoft := hid x (h.softFailedIn hmem hnew)
    obtain ⟨fs', q, f, rfl, hq, -⟩ := h.last
    rw [hq] at hsoft hx
    have hne : q ≠ "" := fun heq => hsoft (heq ▸ rfl)
    simp only [hne, if_false] at hx
    -- a child of the paused node comes after it, and the paused node is the last one
    obtain ⟨⟨_, g⟩, hg, rfl⟩ := List.mem_map.mp hmem
    obtain ⟨pre, post, hsplit⟩ := List.append_of_mem hg
    obtain ⟨g', hpre, -⟩ := h.order pre _ g post hsplit q
      (WorkflowDefinition.mem_adjacency_iff_mem_incoming.mp hx)
    have hnd := h.nodup
    rw [hsplit, List.map_append, List.nodup_append] at hnd
    refine hnd.2.2 q (List.mem_map.mpr ⟨_, hpre, rfl⟩) q ?_ rfl
    have hlast : (fs' ++ [(q, f)]).getLast? = some (q, f) := by simp
    rw [hsplit, List.getLast?_append_of_ne_nil _ (List.cons_ne_nil _ _)] at hlast
    exact List.mem_map.mpr ⟨_, List.mem_of_getLast? hlast, rfl⟩
  have hends : Ends .resume env wf (Avoids (· ∈ fs.map (·.1)))
      (resumeLoop env wf { e with status := status } wf.nodeIds.card) :=
    runRounds_rule (Avoids.invariant fun x hx p hp => h.parent_mem hx hp) wf.nodeIds.card _ hstart
  have hfates : ∀ o : LoopOutcome, fates (o.settle env.config).trace = fates o.state.trace :=
    settle_fates
  simp only [decisions, LoopState.toResult, hfates]
  generalize resumeLoop env wf { e with status := status } wf.nodeIds.card = o at hends
  have hstop : ∀ step, StopsFrom .resume env wf (Avoids (· ∈ fs.map (·.1))) step →
      ∀ x ∈ decisions step.state.trace, x ∉ fs.map (·.1) := by
    rintro step ⟨nid, batch, s, hs, -, hstop⟩
    exact hstop.avoids hs
  cases o with
  | finished s => exact hends.1.1
  | outOfRounds s => exact hends.1.1
  | halted s => exact hstop _ hends
  | raised err s => exact hstop _ hends
  | timedOut s => exact hstop _ hends

theorem PausedState.restores {fs : List (NodeId × Fate)} {e : WorkflowExecution}
    (h : PausedState wf fs e) : Restores wf fs e where
  kept nid f hf hfail := by
    obtain ⟨config, hl⟩ := h.recorded nid f hf
    exact mem_restoredExecuted.mpr ⟨_, hl, Fate.restored_iff.mpr hfail⟩
  known nid hmem := by
    obtain ⟨r, hl, hr⟩ := mem_restoredExecuted.mp hmem
    rcases h.known nid (AList.lookup_isSome.mp (by simp [hl])) with hd | hno
    · obtain ⟨⟨_, f⟩, hf, rfl⟩ := List.mem_map.mp hd
      obtain ⟨config, hl'⟩ := h.recorded _ f hf
      rw [hl] at hl'
      cases hl'
      exact .inl ⟨f, hf, Fate.restored_iff.mp hr⟩
    · exact .inr hno

/-- The decisions of the call come after those before the pause, each node once. -/
theorem PausedState.nodup_append {fs : List (NodeId × Fate)} {e : WorkflowExecution}
    (h : PausedState wf fs e) (hid : ∀ p, SoftFailedIn wf e p → e.pausedAtNode ≠ some "")
    {status : ExecutionStatus} {c : CallResult}
    (hc : resume env wf { e with status := status } true = .ok c) :
    ((fs ++ fates c.trace).map (·.1)).Nodup := by
  obtain ⟨s, hfinal, -, hfates⟩ := resume_final hc
  obtain ⟨E, hE⟩ := hfinal.schedule
  rw [List.map_append, List.nodup_append]
  refine ⟨h.nodup, ?_, fun x hx y hy heq => h.decides_new hid hc y hy (heq ▸ hx)⟩
  rw [hfates]
  exact hE.nodup

/-- A resumed call that pauses again. -/
theorem PausedState.resume (hE : wf.EdgesInNodes) {fs : List (NodeId × Fate)}
    {e : WorkflowExecution} (h : PausedState wf fs e)
    (hid : ∀ p, SoftFailedIn wf e p → e.pausedAtNode ≠ some "") {status : ExecutionStatus}
    {c : CallResult} (hc : CitraFlows.resume env wf { e with status := status } true = .ok c)
    (hp : c.execution.status = .paused) : PausedState wf (fs ++ fates c.trace) c.execution := by
  have horder := resume_inOrder h.order h.restores hc
  have hnodup := h.nodup_append hid hc
  obtain ⟨s', he, hf, nid, batch, f, s, hs, hready, hpauses⟩ := resume_paused hE
    (Settled.invariant resumeStart_fresh) (Settled.refl resumeStart_fresh) hc hp
  rw [hf] at horder hnodup
  rw [he, hf]
  exact hs.pausedState resumeStart_fresh hready hpauses fs horder hnodup h.recorded h.known h.soft

section
variable {cs : List CallResult} {e : WorkflowExecution}

private theorem allFates_snoc (cs : List CallResult) (c : CallResult) :
    allFates (cs ++ [c]) = allFates cs ++ fates c.trace := by
  simp [allFates]

theorem PausedCalls.pausedState (hE : wf.EdgesInNodes)
    (h : PausedCalls wf (SoftFailuresSettled wf) cs e) (hp : e.status = .paused) :
    PausedState wf (allFates cs) e := by
  induction h with
  | execute env triggerData executionId environment =>
      simpa [allFates] using execute_pausedState hE hp
  | resume h hp' env status hc hP ih =>
      rw [allFates_snoc]
      exact (ih hp').resume hE (fun p hsoft => (hP.closed p hsoft).2) hc hp

/-- No node is decided twice. -/
theorem PausedCalls.nodup (hE : wf.EdgesInNodes)
    (h : PausedCalls wf (SoftFailuresSettled wf) cs e) : ((allFates cs).map (·.1)).Nodup := by
  cases h with
  | execute env triggerData executionId environment =>
      obtain ⟨E, hsched⟩ := (executeLoop_final env wf triggerData executionId environment
        wf.nodeIds.card).schedule
      simp only [allFates, List.flatMap_cons, List.flatMap_nil, List.append_nil, execute_fates]
      exact hsched.nodup
  | resume h hp env status hc hP =>
      rw [allFates_snoc]
      exact (h.pausedState hE hp).nodup_append (fun p hsoft => (hP.closed p hsoft).2) hc

/-- What a record holds of a node with children stays in the records after it. -/
theorem PausedCalls.lookup_kept (hE : wf.EdgesInNodes)
    (h : PausedCalls wf (SoftFailuresSettled wf) cs e) {c : CallResult} (hc : c ∈ cs)
    {p m : NodeId} (hp : p ∈ c.execution.nodeResults) (hm : p ∈ wf.incoming m) :
    e.nodeResults.lookup p = c.execution.nodeResults.lookup p := by
  induction h with
  | execute env triggerData executionId environment =>
      cases List.mem_singleton.mp hc
      rfl
  | @resume cs e h hpaused env status c' hc' hP ih =>
      rcases List.mem_append.mp hc with hc | hc
      · have hl := ih hc
        have hmem : p ∈ e.nodeResults := by
          rw [← AList.lookup_isSome, hl, AList.lookup_isSome]
          exact hp
        have hstate := h.pausedState hE hpaused
        have hd := (hstate.known p hmem).resolve_right fun hno => hno m hm
        obtain ⟨s, hfinal, hres, hfates⟩ := resume_final hc'
        have hno : p ∉ decisions s.trace := by
          intro hdec
          refine hstate.decides_new (fun q hsoft => (hP.closed q hsoft).2) hc' p ?_ hd
          rw [decisions, hfates]
          exact hdec
        rw [hres, hfinal.results p hno]
        exact hl
      · cases List.mem_singleton.mp hc
        rfl

end

/-! ## Failures that are reported -/

/-- Until it ends, a loop reports no failure. -/
def Unreported : LoopAssertion := fun _ s => ∀ label error, .notifyFailure label error ∉ s.trace

theorem Unreported.invariant : Invariant seg env wf Unreported where
  collect _ _ _ h _ := h
  advance nid _ f s s' h _ _ ha label error hmem := by
    obtain ⟨saves, ht, hsaves⟩ := ha.trace
    rw [ht] at hmem
    rcases List.mem_append.mp hmem with hmem | hmem
    · exact h label error hmem
    · rcases List.mem_cons.mp hmem with hmem | hmem
      · cases f <;> simp [Fate.event] at hmem
      · cases hsaves _ hmem

/-- The step that ends the loop with a reported failure is that of the failed node. -/
theorem Stops.reported {s s' : LoopState} (hs : Stops seg env wf nid s (.halt s'))
    (hfailed : s'.execution.status = .failed) :
    ∃ f n, fates s'.trace = fates s.trace ++ [(nid, f)] ∧ wf.nodeMap nid = some n ∧
      (seg = .resume ∨ n.continueOnError = false) := by
  cases hs with
  | cancelled hc => simp [LoopState.markCancelled, LoopState.save, LoopState.emit] at hfailed
  | paused hp => simp [hp.status] at hfailed
  | @failed f n s' hd hf hn hhard hexecuted houtputs hsoft hresults htrigger hstatus ht =>
      obtain ⟨label, error, ht⟩ := ht
      refine ⟨f, n, ?_, hn, hhard⟩
      rw [ht, fates_append, fates_event hd]
      rfl

/-- A step that raises an exception has reported nothing. -/
theorem Stops.raise_unreported {s s' : LoopState} {err : PyError}
    (hs : Stops seg env wf nid s (.raise err s')) (h : Unreported [] s) : Unreported [] s' := by
  cases hs with
  | missing hn => exact h
  | badRoute hr => exact h
  | stepLimit hl => exact h
  | @badOutput f output err s' hd ho hw hst ht =>
      intro label error hmem
      rw [ht] at hmem
      rcases List.mem_append.mp hmem with hmem | hmem
      · exact h label error hmem
      · cases f <;> simp [Fate.event] at hmem

private theorem sweep_notice {s : LoopState} {label error : String} :
    .notifyFailure label error ∈ (sweepBlobsIfTerminal s).trace ↔
      .notifyFailure label error ∈ s.trace := by
  unfold sweepBlobsIfTerminal
  split <;> simp [LoopState.emit]

/-- `execute()` reports the failure of nodes only that are not set to `continue_on_error`. -/
theorem execute_reports {triggerData : List (String × Value)} {executionId environment : String}
    (hstatus : (execute env wf triggerData executionId environment).execution.status = .failed)
    {label error : String} (hnotice : .notifyFailure label error ∈
      (execute env wf triggerData executionId environment).trace) :
    ∃ fs nid f n, fates (execute env wf triggerData executionId environment).trace =
      fs ++ [(nid, f)] ∧ wf.nodeMap nid = some n ∧ n.continueOnError = false := by
  rcases executeLoop_cases env wf triggerData executionId environment wf.nodeIds.card with
    hl | ⟨err, hl⟩
  · have hstart : Unreported [] (executeStart env wf triggerData executionId environment) := by
      simp [Unreported, executeStart]
    have hends : Ends .execute env wf Unreported (runRounds .execute env wf wf.nodeIds.card
        (executeStart env wf triggerData executionId environment)) :=
      runRounds_rule Unreported.invariant wf.nodeIds.card _ hstart
    rw [← hl] at hends
    rw [execute_fates]
    simp only [execute, LoopState.toResult] at hstatus hnotice
    generalize executeLoop env wf triggerData executionId environment wf.nodeIds.card = o
      at hstatus hnotice hends ⊢
    cases o with
    | finished s =>
        simp [LoopOutcome.settle, sweep_execution, complete, LoopState.save, LoopState.emit] at hstatus
    | outOfRounds s => exact absurd hnotice (hends.1 label error)
    | halted s =>
        rw [LoopOutcome.settle, sweep_execution] at hstatus
        obtain ⟨nid, batch, t, -, -, hstop⟩ := hends
        obtain ⟨f, n, hf, hn, hhard⟩ := hstop.reported hstatus
        exact ⟨_, nid, f, n, hf, hn, hhard.resolve_left (by simp)⟩
    | raised err s =>
        obtain ⟨nid, batch, t, ht, -, hstop⟩ := hends
        rw [LoopOutcome.settle, sweep_notice] at hnotice
        simp only [failWith, LoopState.save, LoopState.emit, List.mem_append, List.mem_singleton,
          reduceCtorEq, or_false] at hnotice
        exact absurd hnotice (hstop.raise_unreported ht label error)
    | timedOut s =>
        simp [LoopOutcome.settle, expire, LoopState.save, LoopState.emit] at hstatus
  · simp only [execute, hl, LoopOutcome.settle, LoopState.toResult, sweep_notice] at hnotice
    simp [failWith, executeStart, LoopState.save, LoopState.emit] at hnotice

/-- In `resume()` the failure of any node ends the run. -/
theorem resume_fails {e : WorkflowExecution} {status : ExecutionStatus} {c : CallResult}
    (hc : resume env wf { e with status := status } true = .ok c) {f : Fate}
    (hf : (nid, f) ∈ fates c.trace) (hfail : f.failed = true) : c.execution.status = .failed := by
  obtain ⟨-, rfl⟩ := resume_approved hc
  have hends : Ends .resume env wf
      (fun _ s => Settled .resume env wf (resumeStart wf { e with status := status }) s)
      (resumeLoop env wf { e with status := status } wf.nodeIds.card) :=
    runRounds_rule (Settled.invariant resumeStart_fresh) _ _ (Settled.refl resumeStart_fresh)
  simp only [LoopState.toResult, settle_fates] at hf ⊢
  generalize resumeLoop env wf { e with status := status } wf.nodeIds.card = o at hends hf ⊢
  -- a `resume()` that goes on has met no failure
  have hold : ∀ t : LoopState,
      Settled .resume env wf (resumeStart wf { e with status := status }) t →
      (nid, f) ∉ fates t.trace := by
    intro t ht hmem
    cases (ht.continues nid f hmem hfail).1
  cases o with
  | finished s => exact absurd hf (hold s hends.1)
  | outOfRounds s => exact absurd hf (hold s hends.1)
  | raised err s =>
      simp [LoopOutcome.settle, sweep_execution, failWith, LoopState.save, LoopState.emit]
  | timedOut s =>
      obtain ⟨m, batch, t, -, -, hstop⟩ := hends
      cases hstop with
      | expired hseg ht hd => cases hseg
  | halted s =>
      obtain ⟨m, batch, t, ht, -, hstop⟩ := hends
      rw [LoopOutcome.settle, sweep_execution]
      cases hstop with
      | cancelled hc =>
          refine absurd ?_ (hold t ht)
          simpa [LoopOutcome.state, LoopState.markCancelled, LoopState.save, LoopState.emit, fates,
            Event.fate?] using hf
      | @paused g s' hp =>
          rw [LoopOutcome.state, hp.fates] at hf
          rcases List.mem_append.mp hf with hf | hf
          · exact absurd hf (hold t ht)
          · obtain ⟨rfl, rfl⟩ := Prod.mk.inj (List.mem_singleton.mp hf)
            obtain ⟨output, ho, -⟩ := hp.waiting
            cases f with
            | skipped => simp [Fate.failed] at hfail
            | ran ctx result => cases result <;> simp [Fate.failed, Fate.output] at hfail ho
      | failed _ _ _ _ _ _ _ _ _ hfailed _ => exact hfailed

/-! ## Failures that end the run -/

/-- The configuration of a node sets `continue_on_error`. -/
def NodeContext.continueOnError (ctx : NodeContext) : Bool :=
  (Value.getD ctx.config "continue_on_error").truthy

/-- While a loop goes on, the nodes that failed are set to `continue_on_error`. -/
def OnlySoft : LoopAssertion := fun _ s => ∀ nid ctx result,
  (nid, Fate.ran ctx result) ∈ fates s.trace → (Fate.ran ctx result).failed = true →
    ctx.continueOnError = true

theorem OnlySoft.invariant : Invariant .execute env wf OnlySoft where
  collect _ _ _ h _ := h
  advance nid _ f s s' h _ _ ha nid' ctx result hmem hfailed := by
    rw [ha.fates, List.mem_append, List.mem_singleton] at hmem
    rcases hmem with hmem | hmem
    · exact h nid' ctx result hmem hfailed
    · obtain ⟨rfl, rfl⟩ := Prod.mk.inj hmem
      obtain ⟨-, n, hn, hsoft⟩ := ha.continues hfailed
      obtain ⟨n', -, hn', -, -, -, hconfig, -⟩ := ha.decides
      rw [hn] at hn'
      cases hn'
      rw [NodeContext.continueOnError, hconfig]
      exact hsoft

private theorem eq_last_of_append {α : Type*} {l fs fs' : List α} {x y : α}
    (h : l ++ [y] = fs ++ x :: fs') (hx : x ∉ l) : fs' = [] ∧ y = x := by
  rcases List.eq_nil_or_concat fs' with rfl | ⟨init, z, rfl⟩
  · exact ⟨rfl, (List.cons.inj (List.append_inj' h rfl).2).1⟩
  · rw [List.concat_eq_append, ← List.cons_append, ← List.append_assoc] at h
    obtain ⟨rfl, -⟩ := List.append_inj' h rfl
    exact absurd (by simp) hx

/-- A step that ends the loop with one more node that failed: it is the step of that node. -/
theorem Stops.hardFailure {s : LoopState} {step : NodeStep}
    (hs : Stops .execute env wf nid s step) (h : OnlySoft [] s) {nid' : NodeId}
    {ctx : NodeContext} {result : NodeRun} {fs fs' : List (NodeId × Fate)}
    (heq : fates step.state.trace = fs ++ (nid', Fate.ran ctx result) :: fs')
    (hfailed : (Fate.ran ctx result).failed = true) (hhard : ctx.continueOnError = false)
    (hintime : env.timeoutDuring ctx.nodeId = false) :
    fs' = [] ∧ ∃ s', step = .halt s' ∧ s'.execution.status = .failed := by
  have hold : (nid', Fate.ran ctx result) ∉ fates s.trace := fun hmem => by
    rw [h nid' ctx result hmem hfailed] at hhard
    cases hhard
  have hsame : ¬ fates step.state.trace = fates s.trace := fun hsame => by
    rw [hsame] at heq
    exact hold (by rw [heq]; simp)
  have hlast : ∀ {f : Fate}, fates step.state.trace = fates s.trace ++ [(nid, f)] →
      fs' = [] ∧ f = .ran ctx result := by
    intro f hf
    obtain ⟨hnil, hx⟩ := eq_last_of_append (hf.symm.trans heq) hold
    exact ⟨hnil, (Prod.mk.inj hx).2⟩
  cases hs with
  | cancelled => exact absurd (by simp [NodeStep.state, LoopState.markCancelled, LoopState.save,
      LoopState.emit, fates, Event.fate?]) hsame
  | missing => exact absurd rfl hsame
  | badRoute => exact absurd rfl hsame
  | stepLimit => exact absurd rfl hsame
  | @expired ctx' result' _ ht hd =>
      have hresult : result' = (env.run ctx').1 := by
        obtain ⟨n, r, -, -, -, -, -, -, hresult⟩ := hd
        exact hresult
      subst hresult
      obtain ⟨-, hf⟩ := hlast (fates_event hd [] ▸ fates_append s.trace _)
      obtain ⟨rfl, -⟩ := Fate.ran.inj hf
      obtain ⟨n, r, -, -, -, hid, -⟩ := hd
      rw [hid, ht] at hintime
      cases hintime
  | @paused f s' hp =>
      have hf := hlast hp.fates
      obtain ⟨output, hout, -⟩ := hp.waiting
      rw [hf.2] at hout
      cases result <;> cases hout
      cases hfailed
  | @badOutput f output e s' hd ho hw hst ht =>
      have hf := hlast (f := f) (by
        rw [NodeStep.state, ht, fates_append, fates_event hd]
        rfl)
      rw [hf.2] at ho
      cases result <;> cases ho
      cases hfailed
  | @failed f n s' hd hf hn hhard' hexecuted houtputs hsoft hresults htrigger hstatus ht =>
      obtain ⟨label, error, ht⟩ := ht
      refine ⟨(hlast (f := f) ?_).1, s', rfl, hstatus⟩
      rw [NodeStep.state, ht, fates_append, fates_event hd]
      rfl

/-- A node that fails in `execute()` without `continue_on_error`, and before the execution times
out, is the last one that is decided, and the run fails. -/
theorem execute_hardFailure {triggerData : List (String × Value)}
    {executionId environment : String} {nid' : NodeId} {ctx : NodeContext} {result : NodeRun}
    {fs fs' : List (NodeId × Fate)}
    (heq : fates (execute env wf triggerData executionId environment).trace =
      fs ++ (nid', Fate.ran ctx result) :: fs')
    (hfailed : (Fate.ran ctx result).failed = true) (hhard : ctx.continueOnError = false)
    (hintime : env.timeoutDuring ctx.nodeId = false) :
    fs' = [] ∧ (execute env wf triggerData executionId environment).execution.status =
      .failed := by
  rw [execute_fates] at heq
  simp only [execute, LoopState.toResult]
  rcases executeLoop_cases env wf triggerData executionId environment wf.nodeIds.card with
    hl | ⟨err, hl⟩
  · have hstart : OnlySoft [] (executeStart env wf triggerData executionId environment) := by
      intro nid ctx result hmem
      cases hmem
    have hends : Ends .execute env wf OnlySoft (runRounds .execute env wf wf.nodeIds.card
        (executeStart env wf triggerData executionId environment)) :=
      runRounds_rule OnlySoft.invariant wf.nodeIds.card _ hstart
    rw [← hl] at hends
    generalize executeLoop env wf triggerData executionId environment wf.nodeIds.card = o
      at heq hends ⊢
    have hnone : ∀ {s : LoopState}, OnlySoft [] s →
        (nid', Fate.ran ctx result) ∉ fates s.trace := fun h hmem => by
      rw [h nid' ctx result hmem hfailed] at hhard
      cases hhard
    have hstops : ∀ {step : NodeStep}, StopsFrom .execute env wf OnlySoft step →
        step.state = o.state →
          fs' = [] ∧ ∃ s', step = .halt s' ∧ s'.execution.status = .failed := by
      rintro step ⟨nid, batch, s, hs, -, hstop⟩ hstate
      exact hstop.hardFailure hs (by rw [hstate]; exact heq) hfailed hhard hintime
    cases o with
    | finished s => exact absurd (by rw [show fates s.trace = _ from heq]; simp) (hnone hends.1)
    | outOfRounds s => exact absurd (by rw [show fates s.trace = _ from heq]; simp) (hnone hends.1)
    | halted s =>
        obtain ⟨hnil, s', hs', hstatus⟩ := hstops hends rfl
        cases hs'
        exact ⟨hnil, by rw [settle_halted, hstatus]⟩
    | raised e s =>
        obtain ⟨-, s', hs', -⟩ := hstops hends rfl
        cases hs'
    | timedOut s =>
        obtain ⟨-, s', hs', -⟩ := hstops hends rfl
        cases hs'
  · rw [hl] at heq
    exact absurd heq (by simp [LoopOutcome.state, executeStart, fates])

/-! ## The parents of decided nodes -/

/-- The parents of a node that `execute()` has decided have a result. -/
theorem execute_parent_mem {triggerData : List (String × Value)}
    {executionId environment : String} {f : Fate}
    (hf : (nid, f) ∈ fates (execute env wf triggerData executionId environment).trace)
    {p : NodeId} (hp : p ∈ wf.incoming nid) :
    p ∈ (execute env wf triggerData executionId environment).execution.nodeResults := by
  rw [execute_fates] at hf
  rw [execute_nodeResults, ← AList.lookup_isSome]
  obtain ⟨pre, post, hsplit⟩ := List.append_of_mem hf
  rcases (executeLoop_final ..).parent hsplit hp with ⟨hE, -⟩ | ⟨g, -, hr, -⟩
  · simp [executeStart] at hE
  · simp [hr.result]

/-- And so have those of a node that `resume()` has decided. -/
theorem resume_parent_mem {e : WorkflowExecution} {status : ExecutionStatus} {c : CallResult}
    (hc : resume env wf { e with status := status } true = .ok c) {f : Fate}
    (hf : (nid, f) ∈ fates c.trace) {p : NodeId} (hp : p ∈ wf.incoming nid) :
    p ∈ c.execution.nodeResults := by
  obtain ⟨s, hfinal, hres, hfates⟩ := resume_final hc
  rw [hfates] at hf
  rw [hres, ← AList.lookup_isSome]
  obtain ⟨pre, post, hsplit⟩ := List.append_of_mem hf
  rcases hfinal.parent hsplit hp with ⟨hE, hno⟩ | ⟨g, -, hr, -⟩
  · obtain ⟨r, hl, -⟩ := mem_restoredExecuted.mp hE
    rw [hfinal.results p hno]
    simpa [resumeStart] using congrArg Option.isSome hl
  · simp [hr.result]

/-- The children of a node that has failed wait for it. -/
theorem resume_decides_parent {e : WorkflowExecution} {status : ExecutionStatus} {c : CallResult}
    (hc : resume env wf { e with status := status } true = .ok c) {p m : NodeId}
    (hsoft : SoftFailedIn wf e p) (hm : m ∈ wf.adjacency p) (hd : m ∈ decisions c.trace) :
    p ∈ decisions c.trace := by
  obtain ⟨s, hfinal, -, hfates⟩ := resume_final hc
  obtain ⟨f, hf⟩ := mem_decisions.mp hd
  simp only [decisions, hfates] at hf ⊢
  obtain ⟨pre, post, hsplit⟩ := List.append_of_mem hf
  have hp := WorkflowDefinition.mem_adjacency_iff_mem_incoming.mp hm
  rcases hfinal.parent hsplit hp with ⟨hE, -⟩ | ⟨g, hg, -⟩
  · obtain ⟨r, hl, hr⟩ := mem_restoredExecuted.mp hE
    have hst := hsoft.1
    change e.nodeResults.lookup p = some r at hl
    simp only [WorkflowExecution.statusOf, hl, Option.map_some, Option.some.injEq] at hst
    simp [NodeExecutionResult.restored, hst] at hr
  · rw [hsplit]
    exact List.mem_map.mpr ⟨_, List.mem_append_left _ hg, rfl⟩

/-! ## `continue_on_error` in every call -/

section
variable {cs : List CallResult} {e : WorkflowExecution}

theorem PausedCalls.mem_cases {P : WorkflowExecution → CallResult → Prop}
    (h : PausedCalls wf P cs e) {c : CallResult} (hc : c ∈ cs) :
    (∃ env triggerData executionId environment,
      c = CitraFlows.execute env wf triggerData executionId environment) ∨
    ∃ e₀ env status, CitraFlows.resume env wf { e₀ with status := status } true = .ok c ∧ P e₀ c := by
  induction h with
  | execute env triggerData executionId environment =>
      exact .inl ⟨env, triggerData, executionId, environment, List.mem_singleton.mp hc⟩
  | @resume cs e h hp env status c' hc' hP ih =>
      rcases List.mem_append.mp hc with hc | hc
      · exact ih hc
      · cases List.mem_singleton.mp hc
        exact .inr ⟨e, env, status, hc', hP⟩

/-- The rule of `execute()`, in terms of the record the chain leaves. -/
theorem PausedCalls.prunes (hE : wf.EdgesInNodes)
    (h : PausedCalls wf (SoftFailuresSettled wf) cs e) {c : CallResult} (hc : c ∈ cs) {f : Fate}
    (hf : (nid, f) ∈ fates c.trace) (hsoft : ∃ p ∈ wf.incoming nid, SoftFailedIn wf e p) :
    f = .skipped ↔ (∃ p ∈ wf.incoming nid, routesAway wf e.nodeResults nid p = true) ∨
      ∀ p ∈ wf.incoming nid, completedIn e.nodeResults p = false := by
  obtain ⟨p₀, hp₀, hsoft⟩ := hsoft
  rcases h.mem_cases hc with ⟨env, triggerData, executionId, environment, rfl⟩ | ⟨e₀, env, status, hc', -⟩
  · have hkept : ∀ p ∈ wf.incoming nid, e.nodeResults.lookup p =
        (CitraFlows.execute env wf triggerData executionId environment).execution.nodeResults.lookup
          p := fun p hp => h.lookup_kept hE hc (execute_parent_mem hf hp) hp
    have hne : wf.incoming nid ≠ [] := List.ne_nil_of_mem hp₀
    have hrule := (execute_skips_iff (mem_decisions.mpr ⟨f, hf⟩) hne).1
    have hstatus : (CitraFlows.execute env wf triggerData executionId environment).execution.statusOf
        nid = some .skipped ↔ f = .skipped := by
      rw [execute_fates] at hf
      rw [statusOf_skipped_iff, execute_nodeResults,
        (executeLoop_final ..).skippedIn_eq hf (executeStart_not_skipped hne), Fate.isSkipped_iff]
    rw [← hstatus, hrule]
    refine or_congr (exists_congr fun p => and_congr_right fun hp => ?_) (forall₂_congr fun p hp => ?_)
    · rw [routesAway, routesAway, hkept p hp]
    · rw [completedIn, completedIn, hkept p hp]
  · -- no node behind a failed one is decided by `resume()`
    have hl := h.lookup_kept hE hc (resume_parent_mem hc' hf hp₀) hp₀
    refine absurd ?_ (resume_parent_not_failed hc' hf hp₀)
    have hst := hsoft.1
    unfold WorkflowExecution.statusOf at hst ⊢
    rwa [← hl]

/-- A node behind a soft failure has a result when the chain has come to its end. -/
theorem PausedCalls.unblocked (hdag : IsDag wf)
    (h : PausedCalls wf (SoftFailuresSettled wf) cs e) (hcompleted : e.status = .completed)
    (hid : nid ∈ wf.nodeIds) (hsoft : ∃ p ∈ wf.incoming nid, SoftFailedIn wf e p) :
    nid ∈ e.nodeResults := by
  obtain ⟨p, hp, hsoft⟩ := hsoft
  cases h with
  | execute env triggerData executionId environment =>
      have hedges : wf.edges ≠ [] := by
        obtain ⟨edge, hedge, -⟩ := WorkflowDefinition.mem_incoming.mp hp
        exact List.ne_nil_of_mem hedge
      exact ((execute_completed_results hdag (hdag.orphanedNodes_eq_nil hedges) hcompleted).1 nid).mpr
        hid
  | @resume cs e₀ h hpaused env status c hc hP =>
      obtain ⟨s, hfinal, hres, hfates⟩ := resume_final hc
      have hold : c.execution.nodeResults.lookup p = e₀.nodeResults.lookup p := by
        rw [hres]
        by_cases hd : p ∈ decisions s.trace
        · obtain ⟨g, hg⟩ := mem_decisions.mp hd
          rcases hfinal.result p g hg with hl | ⟨-, hl⟩
          · -- the node would have failed softly in this call
            refine absurd ⟨?_, hsoft.2⟩ (hP.noneFails p g (by rwa [hfates]))
            have hst := hsoft.1
            rw [WorkflowExecution.statusOf, hres, hl] at hst
            by_contra hno
            have hr : (g.result env.config p).restored = true := Fate.restored_iff.mpr (by simpa using hno)
            simp only [Option.map_some, Option.some.injEq] at hst
            simp [NodeExecutionResult.restored, hst] at hr
          · exact hl
        · exact hfinal.results p hd
      have hsoft₀ : SoftFailedIn wf e₀ p := by
        refine ⟨?_, hsoft.2⟩
        have hst := hsoft.1
        unfold WorkflowExecution.statusOf at hst ⊢
        rwa [← hold]
      have hmem := (hP.closed p hsoft₀).1 nid
        (WorkflowDefinition.mem_adjacency_iff_mem_incoming.mpr hp)
      rw [← AList.lookup_isSome] at hmem ⊢
      rw [hres]
      by_cases hd : nid ∈ decisions s.trace
      · obtain ⟨g, hg⟩ := mem_decisions.mp hd
        rcases hfinal.result nid g hg with hl | ⟨-, hl⟩
        · simp [hl]
        · rw [hl]
          exact hmem
      · rw [hfinal.results nid hd]
        exact hmem

end

/-- Only nodes of the workflow are decided. -/
theorem PausedCalls.mem_nodeIds {P : WorkflowExecution → CallResult → Prop} {cs : List CallResult}
    {e : WorkflowExecution} (h : PausedCalls wf P cs e) {f : Fate} (hf : (nid, f) ∈ allFates cs) :
    nid ∈ wf.nodeIds := by
  obtain ⟨c, hc, hf⟩ := List.mem_flatMap.mp hf
  rcases h.mem_cases hc with ⟨env, triggerData, executionId, environment, rfl⟩ | ⟨e₀, env, status, hc', -⟩
  · rw [execute_fates] at hf
    exact ((executeLoop_final ..).decides nid f hf).mem_nodeIds
  · obtain ⟨s, hfinal, -, hfates⟩ := resume_final hc'
    rw [hfates] at hf
    exact (hfinal.decides nid f hf).mem_nodeIds

/-- Over every validated workflow and every chain of calls: where at each pause the branches
behind the soft failures are decided, and no node fails softly after a pause,
`continue_on_error` is honoured in every call. Else it is not: a soft failure in any call of
`resume()` fails the run, and the children of an earlier one are decided only after it has
been decided again. -/
theorem PausedCalls.continuesOnError {wf : WorkflowDefinition} (hv : validateDag wf = [])
    {cs : List CallResult} {e : WorkflowExecution}
    (h : PausedCalls wf (SoftFailuresSettled wf) cs e) :
    ContinuesOnError wf cs e ∧
    ∀ (env : RunEnv) (e₀ : WorkflowExecution) (status : ExecutionStatus) (c : CallResult),
      CitraFlows.resume env wf { e₀ with status := status } true = .ok c →
      (∀ nid f, (nid, f) ∈ fates c.trace → SoftFails wf nid f → c.execution.status = .failed) ∧
      ∀ p m, SoftFailedIn wf e₀ p → m ∈ wf.adjacency p → m ∈ decisions c.trace →
        p ∈ decisions c.trace := by
  refine ⟨⟨?_, ?_, ?_, ?_⟩, fun env e₀ status c hc => ⟨fun nid f hf hsoft =>
    resume_fails hc hf hsoft.1, fun p m hsoft hm hd => resume_decides_parent hc hsoft hm hd⟩⟩
  · rintro c hc hstatus ⟨label, error, hnotice⟩ fs nid f hfates hsoft
    rcases h.mem_cases hc with ⟨env, triggerData, executionId, environment, rfl⟩ | ⟨e₀, env, status, -, hP⟩
    · obtain ⟨fs', m, g, n, hfates', hn, hhard⟩ := execute_reports hstatus hnotice
      obtain ⟨rfl, rfl⟩ := Prod.mk.inj (List.append_inj_right' (hfates.symm.trans hfates') rfl
        |> List.singleton_inj.mp)
      obtain ⟨n', hn', hcont⟩ := hsoft.2
      rw [hn] at hn'
      cases hn'
      simp [hhard] at hcont
    · exact hP.noneFails nid f (by simp [hfates]) hsoft
  · intro c hc nid f hf hsoft
    have hmem : (nid, f) ∈ allFates cs := List.mem_flatMap.mpr ⟨c, hc, hf⟩
    have hdag := isDag_of_validateDag hv (h.mem_nodeIds hmem)
    exact h.prunes hdag.edges hc hf hsoft
  · intro hcompleted nid hid hsoft _
    exact h.unblocked (isDag_of_validateDag hv hid) hcompleted hid hsoft
  · intro pre nid f post hsplit _ hmem
    have hf : (nid, f) ∈ allFates cs := by simp [hsplit]
    have hnd := h.nodup (isDag_of_validateDag hv (h.mem_nodeIds hf)).edges
    rw [hsplit, List.map_append, List.map_cons, List.nodup_append, List.nodup_cons] at hnd
    exact hnd.2.1.1 hmem

/-! ### A soft failure beside an approval -/

/-- The results of nodes of which `bad` fails and `ask` asks for an approval. -/
def softResults (nid : NodeId) : NodeRun :=
  if nid = "bad" then .failed (some "boom") 0 [] else approvalResults nid

def badNode : NodeDefinition :=
  { id := "bad", type := .apiSource, config := [("continue_on_error", .bool true)] }

/-- The branch behind `bad` is as long as the way to the approval. -/
def softFailureFlow : WorkflowDefinition where
  nodes := approvalFlow.nodes ++ [badNode, { id := "after", type := .notify },
    { id := "hop", type := .dataTransform }]
  edges := [{ source := "start", target := "bad" }, { source := "start", target := "hop" },
    { source := "bad", target := "after" }, { source := "hop", target := "ask" },
    { source := "ask", target := "act" }]

def softCall (wf : WorkflowDefinition) : CallResult := execute (.calm softResults) wf [] "ex" "test"

private theorem softCall_paused {wf : WorkflowDefinition}
    {P : WorkflowExecution → CallResult → Prop} (hp : (softCall wf).execution.status = .paused)
    (hP : P (softCall wf).execution (resumeAfter (.calm softResults) wf (softCall wf))) :
    PausedCalls wf P [softCall wf, resumeAfter (.calm softResults) wf (softCall wf)]
      (resumeAfter (.calm softResults) wf (softCall wf)).execution :=
  .resume (.execute (.calm softResults) [] "ex" "test") hp _ .resuming (resume_eq_ok (.inr rfl)) hP

theorem softFailureFlow_continuesOnError :
    let c := resumeAfter (.calm softResults) softFailureFlow (softCall softFailureFlow)
    (c.execution.statusOf "bad" = some .failed ∧ c.execution.status = .completed) ∧
      ContinuesOnError softFailureFlow [softCall softFailureFlow, c] c.execution := by
  refine ⟨by decide +kernel, (PausedCalls.continuesOnError (by decide +kernel)
    (softCall_paused (by decide +kernel) ⟨fun p hp => ?_, fun nid f hf hsoft => ?_⟩)).1⟩
  · have hclosed : ∀ p ∈ softFailureFlow.nodeIds,
        (softCall softFailureFlow).execution.statusOf p = some .failed →
        (∀ m ∈ softFailureFlow.adjacency p, m ∈ (softCall softFailureFlow).execution.nodeResults) ∧
          (softCall softFailureFlow).execution.pausedAtNode ≠ some "" := by decide +kernel
    obtain ⟨hst, n, hn, -⟩ := hp
    exact hclosed p (WorkflowDefinition.nodeMap_isSome_iff.mp (by simp [hn])) hst
  · have hall : ((fates (resumeAfter (.calm softResults) softFailureFlow
        (softCall softFailureFlow)).trace).all (!·.2.failed)) = true := by decide +kernel
    simpa [hsoft.1] using List.all_eq_true.mp hall _ hf

/-- The branch behind `bad` waits when the run pauses, and has another parent. -/
def blockedFlow : WorkflowDefinition where
  nodes := approvalFlow.nodes ++ [badNode, { id := "after", type := .notify }]
  edges := [{ source := "start", target := "bad" }, { source := "start", target := "ask" },
    { source := "bad", target := "after" }, { source := "start", target := "after" },
    { source := "ask", target := "act" }]

/-- The run completes without the node that waits for the soft failure. -/
theorem blockedFlow_never_runs_child :
    ¬ ∀ wf cs e, validateDag wf = [] → PausedCalls wf (fun _ _ => True) cs e →
      ContinuesOnError wf cs e := by
  intro h
  have hall := h blockedFlow _ _ (by decide +kernel) (softCall_paused (by decide +kernel) trivial)
  have hmem := hall.unblocked (by decide +kernel) "after" (by decide) ?_ (by decide +kernel)
  · exact absurd hmem (by decide +kernel)
  · exact ⟨"bad", by decide, by decide +kernel, badNode, rfl, rfl⟩

end CitraFlows
