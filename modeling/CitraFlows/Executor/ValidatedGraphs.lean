-- SUMMARY: What the validation of a graph promises: which graphs it accepts, and which of them the executor can start and bring to an end.
import CitraFlows.Executor.Completeness
import Mathlib.Order.WellFoundedSet

/-!
# Validated graphs

`_validate_dag` looks at the set of the node ids, and at nothing if there is no node. A graph of
pairwise distinct nodes is accepted exactly if it is sound. What is accepted can be run to its end
if it has an edge: without one the orphan guard takes the only node out, whatever its type is,
since `str` of a node type is not its value.
-/

namespace CitraFlows

open Worklist

/-! ## Graphs without cycles -/

/-- A finite graph is acyclic exactly if no path leads back to where it starts. -/
theorem wellFounded_deps_iff {α : Type*} {deps : α → List α} {U : Finset α}
    (hU : ∀ x, ∀ d ∈ deps x, d ∈ U ∧ x ∈ U) :
    (WellFounded fun d x => d ∈ deps x) ↔
      ∀ x, ¬ Relation.TransGen (fun d x => d ∈ deps x) x x := by
  constructor
  · intro hwf x hx
    exact hwf.transGen.irrefl.irrefl x hx
  · intro hirrefl
    have horder : IsStrictOrder α (Relation.TransGen fun d x => d ∈ deps x) :=
      { irrefl := hirrefl, trans := fun _ _ _ => Relation.TransGen.trans }
    have hwf := Set.wellFoundedOn_iff.mp
      (U.finite_toSet.wellFoundedOn (r := Relation.TransGen fun d x => d ∈ deps x))
    refine Subrelation.wf (fun {d x} hd => ?_) hwf
    exact ⟨.single hd, (hU x d hd).1, (hU x d hd).2⟩

variable {wf : WorkflowDefinition}

/-- An edge leads from one node to the other. -/
def WorkflowDefinition.Leads (wf : WorkflowDefinition) (source target : NodeId) : Prop :=
  ∃ e ∈ wf.edges, e.source = source ∧ e.target = target

/-- The graph that a workflow should have. -/
structure SoundGraph (wf : WorkflowDefinition) : Prop where
  distinct : (wf.nodes.map (·.id)).Nodup
  edges : ∀ e ∈ wf.edges, (∃ n ∈ wf.nodes, n.id = e.source) ∧ ∃ n ∈ wf.nodes, n.id = e.target
  acyclic : ∀ nid, ¬ Relation.TransGen wf.Leads nid nid
  connected : 1 < wf.nodes.length → ∀ n ∈ wf.nodes, ∃ e ∈ wf.edges,
    e.source = n.id ∨ e.target = n.id

theorem WorkflowDefinition.EdgesInNodes.acyclic_iff (hE : wf.EdgesInNodes) :
    (WellFounded fun p nid => p ∈ wf.incoming nid) ↔
      ∀ nid, ¬ Relation.TransGen wf.Leads nid nid := by
  have hleads : wf.Leads = fun p nid => p ∈ wf.incoming nid := by
    funext p nid
    exact propext (WorkflowDefinition.mem_adjacency.symm.trans
      WorkflowDefinition.mem_adjacency_iff_mem_incoming)
  rw [hleads]
  refine wellFounded_deps_iff (U := wf.nodeIds) fun nid p hp => ?_
  obtain ⟨e, he, rfl, rfl⟩ := WorkflowDefinition.mem_incoming.mp hp
  exact hE e he

/-- With pairwise distinct ids, the graphs the executor expects are the sound ones. -/
theorem isDag_iff_soundGraph (hnodup : (wf.nodes.map (·.id)).Nodup) :
    IsDag wf ↔ SoundGraph wf := by
  have hcard : wf.nodeIds.card = wf.nodes.length := by
    rw [WorkflowDefinition.nodeIds, List.toFinset_card_of_nodup hnodup, List.length_map]
  constructor
  · rintro ⟨hE, hacyclic, hconnected⟩
    refine ⟨hnodup, fun e he => ?_, hE.acyclic_iff.mp hacyclic, fun hlen n hn => ?_⟩
    · exact ⟨WorkflowDefinition.mem_nodeIds.mp (hE e he).1,
        WorkflowDefinition.mem_nodeIds.mp (hE e he).2⟩
    · exact hconnected (by rwa [hcard]) n.id (WorkflowDefinition.mem_nodeIds.mpr ⟨n, hn, rfl⟩)
  · rintro ⟨-, hedges, hacyclic, hconnected⟩
    have hE : wf.EdgesInNodes := fun e he =>
      ⟨WorkflowDefinition.mem_nodeIds.mpr (hedges e he).1,
        WorkflowDefinition.mem_nodeIds.mpr (hedges e he).2⟩
    refine ⟨hE, hE.acyclic_iff.mpr hacyclic, fun hlen nid hid => ?_⟩
    obtain ⟨n, hn, rfl⟩ := WorkflowDefinition.mem_nodeIds.mp hid
    exact hconnected (by rwa [← hcard]) n hn

/-! ## Graphs without edges -/

theorem validateDag_of_nodes_nil (h : wf.nodes = []) : validateDag wf = [] := by
  simp [validateDag, h]

/-- What `_execute_inner` raises if no root is left. -/
def noRootError : PyError :=
  .valueError "Workflow has no root node (trigger). Add a trigger node."

/-- `if not root_nodes` -/
def RaisesNoRoot (env : RunEnv) (wf : WorkflowDefinition) (triggerData : List (String × Value))
    (executionId environment : String) : Prop :=
  executeLoop env wf triggerData executionId environment wf.nodeIds.card =
    .raised noRootError (executeStart env wf triggerData executionId environment)

section

variable {env : RunEnv} {triggerData : List (String × Value)} {executionId environment : String}

theorem raisesNoRoot_of_edges_nil (h : wf.edges = []) :
    RaisesNoRoot env wf triggerData executionId environment := by
  simp [RaisesNoRoot, executeLoop, startNodes_eq_nil_of_edges_nil h, noRootError]

/-- A step that raises leaves a mark in the state. -/
theorem Stops.raise_ne {seg : Segment} {nid : NodeId} {s s' : LoopState} {e : PyError}
    (hnid : nid ∈ wf.nodeIds) (h : Stops seg env wf nid s (.raise e s')) :
    s'.execution.currentNode = some nid ∨ s'.trace ≠ [] := by
  cases h with
  | missing hn =>
      have := WorkflowDefinition.nodeMap_isSome_iff.mpr hnid
      simp [hn] at this
  | badRoute hr => exact .inl rfl
  | stepLimit hl => exact .inl rfl
  | badOutput hd ho hw hs ht => exact .inr (by simp [ht])

/-- The guard raises exactly if no root is left. -/
theorem raisesNoRoot_iff (hE : wf.EdgesInNodes) :
    RaisesNoRoot env wf triggerData executionId environment ↔ startNodes wf = [] := by
  constructor
  · intro h
    by_contra hne
    have hl : executeLoop env wf triggerData executionId environment wf.nodeIds.card =
        runRounds .execute env wf wf.nodeIds.card
          (executeStart env wf triggerData executionId environment) := by
      simp [executeLoop, hne]
    have hinv : Invariant .execute env wf
        (LoopInv .execute env wf (executeStart env wf triggerData executionId environment)) :=
      LoopInv.invariant hE executeStart_fresh
    have hends := runRounds_rule hinv wf.nodeIds.card
      (executeStart env wf triggerData executionId environment)
      (LoopInv.start executeStart_fresh executeStart_pending)
    rw [← hl, show executeLoop env wf triggerData executionId environment wf.nodeIds.card = _
      from h] at hends
    obtain ⟨nid, batch, s, hI, -, hstop⟩ := hends
    rcases hstop.raise_ne (hI.2.batch_mem nid (by simp)) with hcurrent | htrace
    · simp [executeStart, newExecution] at hcurrent
    · simp [executeStart] at htrace
  · intro h
    simp [RaisesNoRoot, executeLoop, h, noRootError]

/-- Nothing has run when the guard raises. -/
theorem execute_of_raisesNoRoot (h : RaisesNoRoot env wf triggerData executionId environment) :
    let c := execute env wf triggerData executionId environment
    c.execution.status = .failed ∧ c.execution.error = some noRootError.message ∧
      decisions c.trace = [] ∧
      c.execution.nodeResults =
        (executeStart env wf triggerData executionId environment).execution.nodeResults := by
  have hfates : fates (execute env wf triggerData executionId environment).trace = [] := by
    rw [execute_fates, show executeLoop env wf triggerData executionId environment
      wf.nodeIds.card = _ from h]
    rfl
  refine ⟨?_, ?_, by simp [decisions, hfates], ?_⟩
  · simp [execute, show executeLoop env wf triggerData executionId environment wf.nodeIds.card = _
      from h, LoopOutcome.settle, sweep_execution, failWith, LoopState.save, LoopState.emit,
      LoopState.toResult]
  · simp [execute, show executeLoop env wf triggerData executionId environment wf.nodeIds.card = _
      from h, LoopOutcome.settle, sweep_execution, failWith, LoopState.save, LoopState.emit,
      LoopState.toResult]
  · rw [execute_nodeResults, show executeLoop env wf triggerData executionId environment
      wf.nodeIds.card = _ from h]
    rfl

end

/-! ## Running what was accepted -/

/-- Nothing stops the run: no cancel, no timeout, no step limit, no approval, and no failure that
is not to be passed over. -/
structure Unstopped (env : RunEnv) (wf : WorkflowDefinition) (c : CallResult) : Prop where
  notCancelled : c.execution.status ≠ .cancelled
  notTimedOut : c.execution.status ≠ .timedOut
  withinLimit : c.execution.error ≠ some (stepLimitMessage env.config)
  softFailures : OnlySoftFailures wf c.execution.nodeResults
  noApproval : NoApproval c.trace

/-- Every output of a node is in the universal envelope. -/
def EnvelopedRuns (env : RunEnv) : Prop :=
  ∀ ctx output retries errors, (env.run ctx).1 = .completed output retries errors → Enveloped output

/-- The executor brings the workflow to its end: a run that nothing stops is completed, and every
node has a result. -/
def RunsToEnd (wf : WorkflowDefinition) : Prop :=
  ∀ env triggerData executionId environment, EnvelopedRuns env →
    Unstopped env wf (execute env wf triggerData executionId environment) →
    let e := (execute env wf triggerData executionId environment).execution
    e.status = .completed ∧ ∀ nid ∈ wf.nodeIds, nid ∈ e.nodeResults

theorem IsDag.runsToEnd (hdag : IsDag wf) (hne : wf.nodes ≠ []) (he : wf.edges ≠ []) :
    RunsToEnd wf := by
  intro env triggerData executionId environment henv hrun
  have ho := hdag.orphanedNodes_eq_nil he
  have hdone := execute_completes hdag ho hne henv hrun.notCancelled hrun.notTimedOut
    hrun.withinLimit hrun.softFailures
    fun nid f output hf hout hw => absurd hw (hrun.noApproval nid f output hf hout)
  exact ⟨hdone, fun nid hid => ((execute_completed_results hdag ho hdone).1 nid).mpr hid⟩

/-- Without an edge every run ends with the error of the guard. -/
theorem not_runsToEnd_of_edges_nil (h : wf.edges = []) : ¬ RunsToEnd wf := by
  intro hruns
  have hraises : RaisesNoRoot (.calm emptyEnvelope) wf [] "ex" "test" := raisesNoRoot_of_edges_nil h
  obtain ⟨hstatus, herror, hdecisions, hresults⟩ := execute_of_raisesNoRoot hraises
  have henv : EnvelopedRuns (.calm emptyEnvelope) := by
    intro ctx output retries errors hrun
    cases hrun
    exact ⟨_, _, rfl, rfl⟩
  have hunstopped : Unstopped (.calm emptyEnvelope) wf
      (execute (.calm emptyEnvelope) wf [] "ex" "test") := by
    refine ⟨by simp [hstatus], by simp [hstatus], by rw [herror]; decide, ?_, ?_⟩
    · intro nid r hl hfailed
      rw [hresults, executeStart_lookup] at hl
      split at hl <;> cases hl
      cases hfailed
    · intro nid f output hf
      have hmem : nid ∈ decisions (execute (.calm emptyEnvelope) wf [] "ex" "test").trace :=
        mem_decisions.mpr ⟨f, hf⟩
      simp [hdecisions] at hmem
  have hdone := (hruns (.calm emptyEnvelope) [] "ex" "test" henv hunstopped).1
  rw [hstatus] at hdone
  cases hdone

/-- The validation of a graph is exact, and what it accepts can be run to its end, if and only if
there is a node and, unless the graph is refused anyway, an edge and no second node of an id. -/
theorem validation_exact_iff (wf : WorkflowDefinition) :
    ((validateDag wf = [] ↔ SoundGraph wf) ∧ (validateDag wf = [] → RunsToEnd wf)) ↔
      wf.nodes ≠ [] ∧ (IsDag wf → wf.edges ≠ [] ∧ (wf.nodes.map (·.id)).Nodup) := by
  constructor
  · rintro ⟨hexact, hruns⟩
    have hedges : validateDag wf = [] → wf.edges ≠ [] := fun hv he =>
      not_runsToEnd_of_edges_nil he (hruns hv)
    have hnodes : wf.nodes ≠ [] := by
      intro hnil
      have hv := validateDag_of_nodes_nil hnil
      obtain ⟨e, he⟩ := List.exists_mem_of_ne_nil _ (hedges hv)
      obtain ⟨n, hn, -⟩ := ((hexact.mp hv).edges e he).1
      simp [hnil] at hn
    refine ⟨hnodes, fun hdag => ?_⟩
    have hv := (validateDag_eq_nil_iff hnodes).mpr hdag
    exact ⟨hedges hv, (hexact.mp hv).distinct⟩
  · rintro ⟨hnodes, hdag⟩
    rw [validateDag_eq_nil_iff hnodes]
    refine ⟨⟨fun h => (isDag_iff_soundGraph (hdag h).2).mp h,
      fun h => (isDag_iff_soundGraph h.distinct).mpr h⟩, fun h => h.runsToEnd hnodes (hdag h).1⟩

/-- Two nodes of one id are taken for one, which the edges join to the rest. -/
def sharedIdFlow : WorkflowDefinition where
  nodes := [{ id := "a", type := .manualTrigger }, { id := "a", type := .sqlSource },
    { id := "b", type := .emailSender }]
  edges := [{ source := "a", target := "b" }]

theorem sharedIdFlow_accepted :
    ¬ ∀ wf : WorkflowDefinition, (validateDag wf = [] ↔ SoundGraph wf) := by
  intro h
  have hsound := (h sharedIdFlow).mp (by decide +kernel)
  exact absurd hsound.distinct (by decide)

/-! ## Where a run starts -/

/-- The types under "Triggers / Entry" -/
def NodeType.isTrigger (t : NodeType) : Bool := t.value ∈ triggerTypes

/-- No edge starts or ends at the node. -/
def Isolated (wf : WorkflowDefinition) (nid : NodeId) : Prop :=
  ∀ e ∈ wf.edges, e.source ≠ nid ∧ e.target ≠ nid

/-- The node that the executor has for the id is of a trigger type. -/
def IsTrigger (wf : WorkflowDefinition) (nid : NodeId) : Prop :=
  ∃ n, wf.nodeMap nid = some n ∧ n.type.isTrigger = true

/-- How `execute()` should start. -/
structure StartsAtRoots (wf : WorkflowDefinition) : Prop where
  roots : ∀ env triggerData executionId environment nid,
    nid ∈ (executeStart env wf triggerData executionId environment).nextQueue ↔
      nid ∈ wf.nodeIds ∧ wf.incoming nid = [] ∧ ¬ (Isolated wf nid ∧ ¬ IsTrigger wf nid)
  isolatedTriggers : ∀ nid ∈ wf.nodeIds, Isolated wf nid → IsTrigger wf nid →
    ∀ env triggerData executionId environment, env.cancelRequested nid = false →
      EnvelopedRuns env →
      let c := execute env wf triggerData executionId environment
      nid ∈ decisions c.trace ∧ (Unstopped env wf c → c.execution.status = .completed)
  noRootError : (∃ n ∈ wf.nodes, n.type.isTrigger = true) →
    ∀ env triggerData executionId environment,
      ¬ RaisesNoRoot env wf triggerData executionId environment

theorem IsDag.not_isolated (hdag : IsDag wf) (he : wf.edges ≠ []) {nid : NodeId}
    (hid : nid ∈ wf.nodeIds) : ¬ Isolated wf nid := by
  intro hisolated
  obtain ⟨e, hmem, hend⟩ := hdag.exists_edge he hid
  rcases hend with hend | hend
  · exact (hisolated e hmem).1 hend
  · exact (hisolated e hmem).2 hend

/-- An accepted workflow is started at its roots if and only if it has an edge or no trigger. -/
theorem starts_at_roots_iff {wf : WorkflowDefinition} (hne : wf.nodes ≠ [])
    (hv : validateDag wf = []) :
    StartsAtRoots wf ↔ wf.edges ≠ [] ∨ ∀ n ∈ wf.nodes, n.type.isTrigger = false := by
  have hdag := (validateDag_eq_nil_iff hne).mp hv
  constructor
  · intro h
    by_contra hno
    obtain ⟨he, htrigger⟩ := not_or.mp hno
    refine h.noRootError ?_ (.calm emptyEnvelope) [] "ex" "test"
      (raisesNoRoot_of_edges_nil (not_not.mp he))
    by_contra hnone
    refine htrigger fun n hn => Bool.eq_false_of_not_eq_true fun ht => hnone ⟨n, hn, ht⟩
  · intro h
    by_cases he : wf.edges = []
    · -- nothing is joined to anything, and nothing is a trigger
      have hplain := h.resolve_left (not_not.mpr he)
      have hno : ∀ nid, ¬ IsTrigger wf nid := by
        rintro nid ⟨n, hn, ht⟩
        rw [hplain n (WorkflowDefinition.nodeMap_mem hn)] at ht
        cases ht
      have hisolated : ∀ nid, Isolated wf nid := fun nid e hmem => by simp [he] at hmem
      refine ⟨fun env triggerData executionId environment nid => ?_,
        fun nid _ _ ht => absurd ht (hno nid), fun ⟨n, hn, ht⟩ => ?_⟩
      · rw [mem_executeStart_nextQueue, startNodes_eq_nil_of_edges_nil he]
        simp [hisolated nid, hno nid]
      · rw [hplain n hn] at ht
        cases ht
    · have ho := hdag.orphanedNodes_eq_nil he
      refine ⟨fun env triggerData executionId environment nid => ?_,
        fun nid hid hisolated => absurd hisolated (hdag.not_isolated he hid),
        fun _ env triggerData executionId environment hraises => ?_⟩
      · rw [mem_executeStart_nextQueue, mem_startNodes, mem_rootNodes]
        constructor
        · rintro ⟨⟨hid, hroot⟩, -⟩
          exact ⟨hid, hroot, fun hiso => hdag.not_isolated he hid hiso.1⟩
        · rintro ⟨hid, hroot, -⟩
          refine ⟨⟨hid, hroot⟩, ?_⟩
          by_contra horphan
          have hmem : nid ∈ orphanedNodes wf :=
            mem_orphanedNodes.mpr ⟨mem_rootNodes.mpr ⟨hid, hroot⟩, by simpa using horphan⟩
          simp [ho] at hmem
      · exact hdag.startNodes_ne_nil hne ho ((raisesNoRoot_iff hdag.edges).mp hraises)

/-- A trigger and what it triggers. -/
theorem triggeredFlow_starts_at_roots :
    StartsAtRoots { nodes := [{ id := "start", type := .webhookTrigger },
      { id := "act", type := .emailSender }], edges := [{ source := "start", target := "act" }] } :=
  (starts_at_roots_iff (by simp) (by decide +kernel)).mpr (.inl (by simp))

/-- A trigger alone is refused as an orphan, and its run fails for want of a root. -/
theorem loneTrigger_fails :
    ¬ ∀ wf : WorkflowDefinition, wf.nodes ≠ [] → validateDag wf = [] → StartsAtRoots wf := by
  intro h
  have hstarts := h { nodes := [{ id := "start", type := .manualTrigger }] } (by simp)
    (by decide +kernel)
  exact hstarts.noRootError ⟨_, List.mem_cons_self, rfl⟩ (.calm emptyEnvelope) [] "ex" "test"
    (raisesNoRoot_of_edges_nil rfl)

end CitraFlows
