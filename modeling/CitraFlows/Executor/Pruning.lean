-- SUMMARY: The pruning of branches: the rule execute() follows, when resume() follows it too, and how it compares with live edges.
import CitraFlows.Executor.Order
import CitraFlows.Dag

/-!
# Branch pruning

Which nodes a run skips depends on the graph and on the outcome of the nodes alone. The
abstract rule is `Verdict`: a node is skipped when a parent that completed routes
elsewhere, or when it has parents and none of them is alive. `execute()` follows the
rule. `resume()` lacks its second half, and follows it as long as it decides no node all
of whose parents were skipped.
-/

namespace CitraFlows

open Worklist

variable {seg : Segment} {env : RunEnv} {wf : WorkflowDefinition} {nid : NodeId}

/-! ## The abstract rule -/

/-- The output of a completed node. -/
def NodeRun.output : NodeRun → Option Value
  | .completed output _ _ => some output
  | _ => none

/-- A node is pruned when a parent that was not skipped routes elsewhere, or when it has
parents and each was skipped or has failed. -/
def PruneRule (wf : WorkflowDefinition) (outcome : NodeId → NodeRun) (skipped : NodeId → Bool)
    (nid : NodeId) : Prop :=
  (∃ p ∈ wf.incoming nid, skipped p = false ∧
    ∃ output, (outcome p).output = some output ∧ gateClosed wf p nid output = true) ∨
  (wf.incoming nid ≠ [] ∧ ∀ p ∈ wf.incoming nid, skipped p = true ∨ (outcome p).output = none)

/-- `Verdict wf outcome nid b`: by the rule, `b` says whether the node is skipped. A verdict
rests on those of the parents. -/
inductive Verdict (wf : WorkflowDefinition) (outcome : NodeId → NodeRun) : NodeId → Bool → Prop
    where
  | mk {nid : NodeId} {b : Bool} (skipped : NodeId → Bool)
      (parents : ∀ p ∈ wf.incoming nid, Verdict wf outcome p (skipped p))
      (rule : b = true ↔ PruneRule wf outcome skipped nid) : Verdict wf outcome nid b

theorem PruneRule.congr {outcome : NodeId → NodeRun} {skipped skipped' : NodeId → Bool}
    (h : ∀ p ∈ wf.incoming nid, skipped p = skipped' p) :
    PruneRule wf outcome skipped nid ↔ PruneRule wf outcome skipped' nid := by
  unfold PruneRule
  refine or_congr (exists_congr fun p => and_congr_right fun hp => ?_)
    (and_congr_right fun _ => forall₂_congr fun p hp => ?_)
  · rw [h p hp]
  · rw [h p hp]

/-- The rule decides each node in one way. -/
theorem Verdict.unique {outcome : NodeId → NodeRun} {b b' : Bool}
    (h : Verdict wf outcome nid b) (h' : Verdict wf outcome nid b') : b = b' := by
  induction h generalizing b' with
  | mk skipped parents rule ih =>
      obtain ⟨skipped', parents', rule'⟩ := h'
      rw [Bool.eq_iff_iff, rule, rule']
      exact PruneRule.congr fun p hp => ih p hp (parents' p hp)

/-! ## What a loop knows of a parent -/

/-- The result recorded for the node is that of a skipped one. -/
def skippedIn (results : NodeResults) (nid : NodeId) : Bool :=
  (results.lookup nid).any (·.status = .skipped)

/-- What routing reads of a parent agrees with its verdict. -/
structure ParentKnown (wf : WorkflowDefinition) (outcome : NodeId → NodeRun) (s : LoopState)
    (p : NodeId) : Prop where
  verdict : Verdict wf outcome p (skippedIn s.execution.nodeResults p)
  /-- Only the output of a node that was not skipped can route elsewhere. -/
  gate : ∀ m, gateClosed wf p m (outputOf s.nodeOutputs p) = true ↔
    skippedIn s.execution.nodeResults p = false ∧
      ∃ output, (outcome p).output = some output ∧ gateClosed wf p m output = true
  softFailed : skippedIn s.execution.nodeResults p = false →
    (p ∈ s.softFailed ↔ (outcome p).output = none)

/-- The world gives each node a fixed result. -/
def RunEnv.Behaves (env : RunEnv) (outcome : NodeId → NodeRun) : Prop :=
  ∀ ctx, (env.run ctx).1 = outcome ctx.nodeId

/-- The routing that gave a node its fate. -/
theorem Decides.route {s : LoopState} {f : Fate} (hd : Decides seg env wf nid s f) :
    ∃ r, s.route seg wf nid = .ok r ∧ (f.isSkipped = true ↔ r.skip = true) := by
  cases f with
  | skipped =>
      obtain ⟨n, r, -, hr, hskip⟩ := hd
      exact ⟨r, hr, by simp [Fate.isSkipped, hskip]⟩
  | ran ctx result =>
      obtain ⟨n, r, -, hr, hskip, -⟩ := hd
      exact ⟨r, hr, by simp [Fate.isSkipped, hskip]⟩

theorem Fate.result_status_skipped {config : Config} {f : Fate} :
    (f.result config nid).status = .skipped ↔ f = .skipped := by
  cases f with
  | skipped => simp [Fate.result]
  | ran ctx result => cases result <;> simp [Fate.result, NodeRun.result]

theorem Recorded.skippedIn {s : LoopState} {f : Fate} (h : Recorded env s nid f) :
    skippedIn s.execution.nodeResults nid = f.isSkipped := by
  rw [CitraFlows.skippedIn, h.result, Option.any_some, Bool.eq_iff_iff, decide_eq_true_eq,
    Fate.result_status_skipped, Fate.isSkipped_iff]

/-- The output of a decided node is that of its outcome. -/
theorem Decides.output {s : LoopState} {f : Fate} {outcome : NodeId → NodeRun}
    (hd : Decides seg env wf nid s f) (hb : env.Behaves outcome) (hf : f.isSkipped = false) :
    f.output = (outcome nid).output ∧ (f.failed = true ↔ (outcome nid).output = none) := by
  cases f with
  | skipped => cases hf
  | ran ctx result =>
      obtain ⟨n, r, -, -, -, rfl, -, -, rfl⟩ := hd
      rw [hb ctx]
      cases outcome ctx.nodeId <;> simp [Fate.output, NodeRun.output, Fate.failed]

/-- A parent without an output closes nothing. -/
theorem gateClosed_of_lookup_none {outputs : NodeOutputs} {p m : NodeId}
    (h : outputs.lookup p = none) : gateClosed wf p m (outputOf outputs p) = false := by
  simp [gateClosed, outputOf, h, gates_empty]

theorem ParentKnown.of_recorded {s : LoopState} {f : Fate} {outcome : NodeId → NodeRun}
    (hr : Recorded env s nid f) (hd : Decides seg env wf nid s f) (hb : env.Behaves outcome)
    (hv : Verdict wf outcome nid f.isSkipped) : ParentKnown wf outcome s nid where
  verdict := by rwa [hr.skippedIn]
  gate m := by
    rw [hr.skippedIn]
    cases hf : f.isSkipped with
    | true =>
        rw [Fate.isSkipped_iff] at hf
        subst hf
        simp [gateClosed_of_lookup_none hr.output]
    | false =>
        have hout := (hd.output hb hf).1
        simp only [true_and]
        cases ho : f.output with
        | none =>
            rw [ho] at hout
            simp [gateClosed_of_lookup_none (hr.output.trans ho), ← hout]
        | some output =>
            rw [ho] at hout
            simp [outputOf, hr.output.trans ho, ← hout]
  softFailed hf := by
    rw [hr.skippedIn] at hf
    rw [hr.softFailed, (hd.output hb hf).2]

/-! ## What a loop decides -/

/-- The rule in terms of what routing reads. -/
theorem pruneRule_iff {s : LoopState} {outcome : NodeId → NodeRun}
    (hp : ∀ p ∈ wf.incoming nid, ParentKnown wf outcome s p) :
    PruneRule wf outcome (skippedIn s.execution.nodeResults) nid ↔
      (∃ p ∈ wf.incoming nid, gateClosed wf p nid (outputOf s.nodeOutputs p) = true) ∨
      (wf.incoming nid ≠ [] ∧
        allParentsSkipped wf s.execution.nodeResults s.softFailed nid = true) := by
  unfold PruneRule
  refine or_congr (exists_congr fun p => and_congr_right fun h => ((hp p h).gate nid).symm)
    (and_congr_right fun _ => ?_)
  simp only [allParentsSkipped, List.all_eq_true, Bool.or_eq_true, decide_eq_true_eq]
  refine forall₂_congr fun p h => ?_
  have hsoft := (hp p h).softFailed
  rw [show (s.execution.nodeResults.lookup p).any (fun r => decide (r.status = .skipped)) =
    skippedIn s.execution.nodeResults p from rfl]
  cases hs : skippedIn s.execution.nodeResults p with
  | true => simp
  | false => simp [hsoft hs]

/-- Some parent of every node that the loop decides was not skipped. -/
def NoDeadParents (wf : WorkflowDefinition) (t : List Event) (results : NodeResults) : Prop :=
  ∀ nid ∈ decisions t, wf.incoming nid ≠ [] →
    ∃ p ∈ wf.incoming nid, skippedIn results p = false

/-- A decided node whose parents are known was decided by the rule. -/
theorem Decides.verdict {s : LoopState} {f : Fate} {outcome : NodeId → NodeRun}
    (hd : Decides seg env wf nid s f)
    (hp : ∀ p ∈ wf.incoming nid, ParentKnown wf outcome s p)
    (hseg : seg = .execute ∨ wf.incoming nid = [] ∨
      ∃ p ∈ wf.incoming nid, skippedIn s.execution.nodeResults p = false ∧
        (outcome p).output ≠ none) : Verdict wf outcome nid f.isSkipped := by
  refine .mk _ (fun p h => (hp p h).verdict) ?_
  obtain ⟨r, hr, hskip⟩ := hd.route
  rw [hskip, (route_ok hr).1, pruneRule_iff hp]
  refine or_congr_right ?_
  rcases hseg with hseg | hnil | ⟨p, hpin, halive, hout⟩
  · simp [hseg]
  · simp [hnil]
  · -- a parent that was neither skipped nor failed makes both sides false
    refine iff_of_false (fun h => ?_) fun h => ?_
    · have hall := List.all_eq_true.mp h.2.2 p hpin
      rw [Bool.or_eq_true, decide_eq_true_eq] at hall
      rcases hall with hsoft | hskip
      · exact hout (((hp p hpin).softFailed halive).mp hsoft)
      · exact absurd hskip (by simpa [skippedIn] using halive)
    · have hall := List.all_eq_true.mp h.2 p hpin
      rw [Bool.or_eq_true, decide_eq_true_eq] at hall
      rcases hall with hsoft | hskip
      · exact hout (((hp p hpin).softFailed halive).mp hsoft)
      · exact absurd hskip (by simpa [skippedIn] using halive)

/-- What is known of the nodes that are executed when a loop starts: those that are parents
were decided by the rule, and in `resume()` none has failed. -/
def StartKnown (wf : WorkflowDefinition) (outcome : NodeId → NodeRun) (s₀ : LoopState) : Prop :=
  ∀ p ∈ s₀.executed, (∃ m, p ∈ wf.incoming m) → ParentKnown wf outcome s₀ p ∧
    (skippedIn s₀.execution.nodeResults p = false → (outcome p).output ≠ none)

theorem Final.parentKnown_start {s₀ s : LoopState} {outcome : NodeId → NodeRun} {p : NodeId}
    (h : Final seg env wf s₀ s) (h₀ : Fresh s₀) (hp : p ∉ decisions s.trace)
    (hk : ParentKnown wf outcome s₀ p) : ParentKnown wf outcome s p := by
  have hres : skippedIn s.execution.nodeResults p = skippedIn s₀.execution.nodeResults p := by
    simp only [skippedIn, h.results p hp]
  refine ⟨by rw [hres]; exact hk.verdict, fun m => ?_, fun hf => ?_⟩
  · rw [hres, outputOf_congr (h.outputs p hp)]
    exact hk.gate m
  · rw [hres] at hf
    rw [← hk.softFailed hf, h₀.softFailed]
    simp only [Finset.notMem_empty, iff_false]
    exact fun hs => hp (h.softFailed p hs)

/-- Every node a loop decides is decided by the rule, in `resume()` as long as it decides no
node all of whose parents were skipped. -/
theorem Final.verdict {s₀ s : LoopState} {outcome : NodeId → NodeRun}
    (h : Final seg env wf s₀ s) (h₀ : Fresh s₀) (hb : env.Behaves outcome)
    (hk : StartKnown wf outcome s₀)
    (hdead : seg = .resume → NoDeadParents wf s.trace s.execution.nodeResults)
    {pre post : List (NodeId × Fate)} {f : Fate} (hsplit : fates s.trace = pre ++ (nid, f) :: post) :
    (∀ p ∈ wf.incoming nid, ParentKnown wf outcome s p) ∧ Verdict wf outcome nid f.isSkipped := by
  -- by induction on the position: the parents were decided before
  induction hlen : pre.length using Nat.strong_induction_on generalizing pre nid f post with
  | _ k ih =>
      have hmem : (nid, f) ∈ fates s.trace := by simp [hsplit]
      have hd := h.decides nid f hmem
      have hparent : ∀ p ∈ wf.incoming nid, ParentKnown wf outcome s p ∧
          (seg = .resume → skippedIn s.execution.nodeResults p = false →
            (outcome p).output ≠ none) := by
        intro p hp
        rcases h.parent hsplit hp with ⟨hE, hno⟩ | ⟨g, hg, hr, hc⟩
        · obtain ⟨hknown, halive⟩ := hk p hE ⟨nid, hp⟩
          refine ⟨h.parentKnown_start h₀ hno hknown, fun _ hf => halive ?_⟩
          simpa only [skippedIn, h.results p hno] using hf
        · obtain ⟨a, b, rfl⟩ := List.append_of_mem hg
          have hg' : (p, g) ∈ fates s.trace := by simp [hsplit]
          have hdg := h.decides p g hg'
          have hsplit' : fates s.trace = a ++ (p, g) :: (b ++ (nid, f) :: post) := by
            simp [hsplit]
          obtain ⟨-, hv⟩ := ih a.length (by simp [← hlen]) hsplit' rfl
          refine ⟨.of_recorded hr hdg hb hv, fun hseg hf => ?_⟩
          rw [hr.skippedIn] at hf
          intro hnone
          have := (hc (((hdg.output hb hf).2).mpr hnone)).1
          rw [hseg] at this
          cases this
      refine ⟨fun p hp => (hparent p hp).1, hd.verdict (fun p hp => (hparent p hp).1) ?_⟩
      cases seg with
      | execute => exact .inl rfl
      | resume =>
          by_cases hnil : wf.incoming nid = []
          · exact .inr (.inl hnil)
          · obtain ⟨p, hp, hf⟩ := hdead rfl nid (mem_decisions.mpr ⟨f, hmem⟩) hnil
            exact .inr (.inr ⟨p, hp, hf, (hparent p hp).2 rfl hf⟩)

/-! ## The rule across pauses and crashes -/

/-- The results that a record holds of nodes with children follow the rule. -/
def FollowsRule (wf : WorkflowDefinition) (outcome : NodeId → NodeRun) (results : NodeResults) :
    Prop :=
  ∀ p r, (∃ m, p ∈ wf.incoming m) → results.lookup p = some r → r.restored = true →
    Verdict wf outcome p (skippedIn results p) ∧
      if r.status = .skipped then r.outputData = .none
      else (outcome p).output = some r.outputData

private theorem restored_cases {r : NodeExecutionResult} (h : r.restored = true) :
    r.status = .completed ∨ r.status = .skipped := by
  simpa [NodeExecutionResult.restored] using h

theorem FollowsRule.startKnown {e : WorkflowExecution} {outcome : NodeId → NodeRun}
    (h : FollowsRule wf outcome e.nodeResults) : StartKnown wf outcome (resumeStart wf e) := by
  intro p hp hchild
  obtain ⟨r, hl, hr⟩ := mem_restoredExecuted.mp hp
  obtain ⟨hv, hdata⟩ := h p r hchild hl hr
  have hout : outputOf (restoredOutputs e.nodeResults) p = r.outputData := by
    simp [outputOf, restoredOutputs_lookup, hl, hr]
  have hskipped : skippedIn e.nodeResults p = decide (r.status = .skipped) := by
    simp [skippedIn, hl]
  have halive : r.status ≠ .skipped → (outcome p).output = some r.outputData := fun hs => by
    rwa [if_neg hs] at hdata
  have hsoft : p ∈ (resumeStart wf e).softFailed ↔ False := by
    rw [resumeStart_fresh.softFailed]
    simp
  refine ⟨⟨hv, fun m => ?_, fun hf => ?_⟩, fun hf => ?_⟩
  · show gateClosed wf p m (outputOf (restoredOutputs e.nodeResults) p) = true ↔ _
    rw [hout]
    show _ ↔ skippedIn e.nodeResults p = false ∧ _
    rw [hskipped]
    by_cases hs : r.status = .skipped
    · rw [if_pos hs] at hdata
      have hg : gates wf p .none = false := gates_of_not_dict rfl
      simp [hs, hdata, gateClosed, hg]
    · simp [hs, halive hs]
  · have hs : r.status ≠ .skipped := by
      have hf : skippedIn e.nodeResults p = false := hf
      simpa [hskipped] using hf
    rw [hsoft, halive hs]
    simp
  · have hs : r.status ≠ .skipped := by
      have hf : skippedIn e.nodeResults p = false := hf
      simpa [hskipped] using hf
    simp [halive hs]

theorem executeStart_startKnown {triggerData : List (String × Value)}
    {executionId environment : String} {outcome : NodeId → NodeRun} :
    StartKnown wf outcome (executeStart env wf triggerData executionId environment) := by
  intro p hp
  simp [executeStart] at hp

/-- The record of a settled state follows the rule. -/
theorem Settled.followsRule {s₀ s : LoopState} {outcome : NodeId → NodeRun}
    (h : Settled seg env wf s₀ s) (h₀ : Fresh s₀) (hb : env.Behaves outcome)
    (hk : StartKnown wf outcome s₀)
    (hdead : seg = .resume → NoDeadParents wf s.trace s.execution.nodeResults)
    (hstart : FollowsRule wf outcome s₀.execution.nodeResults) :
    FollowsRule wf outcome s.execution.nodeResults := by
  intro p r hchild hl hr
  by_cases hd : p ∈ decisions s.trace
  · obtain ⟨f, hf⟩ := mem_decisions.mp hd
    obtain ⟨pre, post, hsplit⟩ := List.append_of_mem hf
    have hrec := h.recorded p f hf
    have hv := (h.final.verdict h₀ hb hk hdead hsplit).2
    rw [hrec.result] at hl
    cases hl
    refine ⟨by rwa [hrec.skippedIn], ?_⟩
    rw [Fate.restored_iff] at hr
    split
    case isTrue hs =>
      rw [Fate.result_status_skipped] at hs
      subst hs
      rfl
    case isFalse hs =>
      rw [Fate.result_status_skipped] at hs
      have hns : f.isSkipped = false := by cases f <;> simp_all [Fate.isSkipped]
      rw [← ((h.decides p f hf).output hb hns).1]
      cases f with
      | skipped => cases hns
      | ran ctx result => cases result <;> simp_all [Fate.failed, Fate.output, Fate.result, NodeRun.result]
  · have hres : skippedIn s.execution.nodeResults p = skippedIn s₀.execution.nodeResults p := by
      simp only [skippedIn, h.results p hd]
    rw [h.results p hd] at hl
    rw [hres]
    exact hstart p r hchild hl hr

/-- The call decides no node all of whose parents are skipped in the record it leaves. -/
def NoDeadDecision (wf : WorkflowDefinition) (c : CallResult) : Prop :=
  NoDeadParents wf c.trace c.execution.nodeResults

private theorem executeStart_followsRule {triggerData : List (String × Value)}
    {executionId environment : String} {outcome : NodeId → NodeRun} :
    FollowsRule wf outcome
      (executeStart env wf triggerData executionId environment).execution.nodeResults := by
  intro p r hchild hl
  rw [executeStart_lookup] at hl
  split at hl
  case isTrue horphan =>
    obtain ⟨m, hm⟩ := hchild
    exact absurd hm (orphan_not_parent horphan m)
  case isFalse => cases hl

theorem SplitRecord.followsRule (hE : wf.EdgesInNodes) {outcome : NodeId → NodeRun}
    {e : WorkflowExecution} (h : SplitRecord wf (·.Behaves outcome) (NoDeadDecision wf) e) :
    FollowsRule wf outcome e.nodeResults := by
  induction h with
  | execute hb triggerData executionId environment hsave hst =>
      obtain ⟨s, hs, rfl⟩ := execute_saved hsave (by rcases hst with hst | hst <;> simp [hst, ExecutionStatus.terminal])
      exact hs.followsRule executeStart_fresh hb executeStart_startKnown (by simp)
        executeStart_followsRule
  | @resume e h env hb status c hc hP hst ih =>
      obtain ⟨s', he, hf, nid, batch, f, s, hs, hr, hp⟩ := resume_paused hE
        (Settled.invariant resumeStart_fresh) (Settled.refl resumeStart_fresh) hc hst
      have hs' := hs.pauses resumeStart_fresh hr hp
      rw [he]
      refine hs'.followsRule resumeStart_fresh hb (FollowsRule.startKnown ih) (fun _ => ?_) ih
      unfold NoDeadDecision NoDeadParents decisions at hP
      rw [hf, he] at hP
      exact hP

/-- Every segment of a split run decides by the rule. -/
theorem SplitCall.verdict (hE : wf.EdgesInNodes) {outcome : NodeId → NodeRun} {c : CallResult}
    (h : SplitCall wf (·.Behaves outcome) (NoDeadDecision wf) c) {f : Fate} (hf : (nid, f) ∈ fates c.trace) :
    Verdict wf outcome nid f.isSkipped := by
  obtain ⟨pre, post, hsplit⟩ := List.append_of_mem hf
  cases h with
  | execute hb triggerData executionId environment =>
      rw [execute_fates] at hsplit
      exact ((executeLoop_final ..).verdict executeStart_fresh hb executeStart_startKnown (by simp)
        hsplit).2
  | @resume e h env hb status c hc hP =>
      obtain ⟨s, hfinal, hres, hfates⟩ := resume_final hc
      rw [hfates] at hsplit
      refine (hfinal.verdict resumeStart_fresh hb (h.followsRule hE).startKnown (fun _ => ?_)
        hsplit).2
      unfold NoDeadDecision NoDeadParents decisions at hP
      rwa [hfates, hres] at hP

/-- The node was skipped, or has failed with `continue_on_error` set. -/
def DeadIn (wf : WorkflowDefinition) (e : WorkflowExecution) (nid : NodeId) : Prop :=
  e.statusOf nid = some .skipped ∨
    (e.statusOf nid = some .failed ∧ ∃ n, wf.nodeMap nid = some n ∧ n.continueOnError = true)

theorem statusOf_skipped_iff {e : WorkflowExecution} :
    e.statusOf nid = some .skipped ↔ skippedIn e.nodeResults nid = true := by
  unfold WorkflowExecution.statusOf skippedIn
  cases e.nodeResults.lookup nid <;> simp

/-- In `execute()` a node with dead parents only is skipped. -/
theorem execute_prunes {triggerData : List (String × Value)} {executionId environment : String}
    {f : Fate} (hf : (nid, f) ∈ fates (execute env wf triggerData executionId environment).trace)
    (hne : wf.incoming nid ≠ [])
    (hdead : ∀ p ∈ wf.incoming nid,
      DeadIn wf (execute env wf triggerData executionId environment).execution p) :
    f = .skipped := by
  rw [execute_fates] at hf
  have hfinal := executeLoop_final env wf triggerData executionId environment wf.nodeIds.card
  obtain ⟨pre, post, hsplit⟩ := List.append_of_mem hf
  have hall : allParentsSkipped wf
      (executeLoop env wf triggerData executionId environment
        wf.nodeIds.card).state.execution.nodeResults
      (executeLoop env wf triggerData executionId environment wf.nodeIds.card).state.softFailed
      nid = true := by
    rw [allParentsSkipped, List.all_eq_true]
    intro p hp
    rcases hfinal.parent hsplit hp with ⟨hE, -⟩ | ⟨g, hg, hr, -⟩
    · simp [executeStart] at hE
    · have hst := hdead p hp
      unfold DeadIn WorkflowExecution.statusOf at hst
      rw [execute_nodeResults, hr.result] at hst
      rw [Bool.or_eq_true, decide_eq_true_eq, hr.softFailed, hr.result]
      -- a parent that was skipped, or one that has failed softly
      rcases hst with hst | ⟨hst, -⟩
      · right
        simpa using hst
      · left
        by_contra hno
        have : (g.result env.config p).restored = true :=
          Fate.restored_iff.mpr (by simpa using hno)
        rcases restored_cases this with h | h <;> simp [h] at hst
  have hd := hfinal.decides nid f hf
  cases f with
  | skipped => rfl
  | ran ctx result =>
      obtain ⟨n, r, -, hr, hskip, -⟩ := hd
      have := (route_ok hr).1.mpr (.inr ⟨rfl, hne, hall⟩)
      simp [hskip] at this

/-- In `resume()` the parents of a decided node have not failed. -/
theorem resume_parent_not_failed {e : WorkflowExecution} {status : ExecutionStatus}
    {c : CallResult} (hc : resume env wf { e with status := status } true = .ok c) {f : Fate}
    (hf : (nid, f) ∈ fates c.trace) {p : NodeId} (hp : p ∈ wf.incoming nid) :
    c.execution.statusOf p ≠ some .failed := by
  obtain ⟨s, hfinal, hres, hfates⟩ := resume_final hc
  rw [hfates] at hf
  obtain ⟨pre, post, hsplit⟩ := List.append_of_mem hf
  unfold WorkflowExecution.statusOf
  rw [hres]
  rcases hfinal.parent hsplit hp with ⟨hE, hno⟩ | ⟨g, -, hr, hcont⟩
  · obtain ⟨r, hl, hrest⟩ := mem_restoredExecuted.mp hE
    rw [hfinal.results p hno]
    simp only [resumeStart] at hl ⊢
    rcases restored_cases hrest with h | h <;> simp [hl, h]
  · have hfail : g.failed = false := by
      by_contra hno
      have := (hcont (by simpa using hno)).1
      cases this
    rw [hr.result]
    have hrest : (g.result env.config p).restored = true := Fate.restored_iff.mpr hfail
    rcases restored_cases hrest with h | h <;> simp [h]

/-- Over every graph and every assignment of outcomes, in every segment of a split run whose
`resume()` calls decide no node with skipped parents only: a node with dead parents only is
skipped, and where an unsplit run with the same outcomes decides the same node, both skip it
or both run it. -/
theorem split_prunes_like_unsplit {wf : WorkflowDefinition} (hE : wf.EdgesInNodes)
    {outcome : NodeId → NodeRun} {c : CallResult}
    (h : SplitCall wf (·.Behaves outcome) (NoDeadDecision wf) c) :
    (∀ nid f, (nid, f) ∈ fates c.trace → wf.incoming nid ≠ [] →
      (∀ p ∈ wf.incoming nid, DeadIn wf c.execution p) → f = .skipped) ∧
    ∀ (env : RunEnv) triggerData executionId environment, env.Behaves outcome →
      ∀ nid f₀ f, (nid, f₀) ∈ fates (execute env wf triggerData executionId environment).trace →
        (nid, f) ∈ fates c.trace → (f₀ = .skipped ↔ f = .skipped) := by
  constructor
  · intro nid f hf hne hdead
    cases h with
    | execute hb triggerData executionId environment => exact execute_prunes hf hne hdead
    | @resume e h env hb status c hc hP =>
        obtain ⟨p, hp, halive⟩ := hP nid (mem_decisions.mpr ⟨f, hf⟩) hne
        rcases hdead p hp with hs | ⟨hfailed, -⟩
        · rw [statusOf_skipped_iff, halive] at hs
          cases hs
        · exact absurd hfailed (resume_parent_not_failed hc hf hp)
  · intro env triggerData executionId environment hb nid f₀ f hf₀ hf
    have hv₀ := SplitCall.verdict hE
      (.execute hb triggerData executionId environment) hf₀
    rw [← Fate.isSkipped_iff, ← Fate.isSkipped_iff, hv₀.unique (h.verdict hE hf)]

/-- A condition on whose `true` branch hang two nodes in a row. -/
def conditionFlow : WorkflowDefinition where
  nodes := [{ id := "start", type := .manualTrigger }, { id := "check", type := .condition },
    { id := "yes", type := .dataTransform }, { id := "after", type := .emailSender }]
  edges := [{ source := "start", target := "check" },
    { source := "check", target := "yes", sourceHandle := some "true" },
    { source := "yes", target := "after" }]

/-- The results of the nodes of `conditionFlow` when the condition takes a branch. -/
def conditionResults (branch : String) (nid : NodeId) : NodeRun :=
  if nid = "check" then
    .completed (.dict [("meta",
      .dict [("condition_result", .bool (branch = "true")), ("branch", .str branch)])]) 0 []
  else .completed (.dict [("meta", .dict [])]) 0 []

/-- A world in which a checkpoint is due after the trigger. -/
def checkpointEnv (outcome : NodeId → NodeRun) : RunEnv :=
  { RunEnv.calm outcome with checkpointDue := fun nid => nid = "start" }

/-- The first record saved by `execute()` over `conditionFlow`: the checkpoint. -/
def checkpointRecord (branch : String) : WorkflowExecution :=
  (savedRecords (execute (checkpointEnv (conditionResults branch)) conditionFlow [] "ex"
    "test").trace).headD { executionId := "" }

/-- The segment after a crash, from the checkpoint. -/
def afterCrash (branch : String) : CallResult :=
  resumeAfter (.calm (conditionResults branch)) conditionFlow ⟨checkpointRecord branch, []⟩

private theorem afterCrash_splitCall (branch : String) (P : CallResult → Prop)
    (hsave : savedRecords (execute (checkpointEnv (conditionResults branch)) conditionFlow []
      "ex" "test").trace ≠ [])
    (hst : (checkpointRecord branch).status = .running) (hP : P (afterCrash branch)) :
    SplitCall conditionFlow (·.Behaves (conditionResults branch)) P (afterCrash branch) := by
  have hworld : (checkpointEnv (conditionResults branch)).Behaves (conditionResults branch) :=
    fun _ => rfl
  have hworld' : (RunEnv.calm (conditionResults branch)).Behaves (conditionResults branch) :=
    fun _ => rfl
  refine .resume (.execute hworld [] "ex" "test" ?_ (.inl hst)) hworld' (resume_eq_ok (.inr rfl)) hP
  rw [← mem_savedRecords]
  unfold checkpointRecord
  generalize savedRecords _ = l at hsave
  cases l with
  | nil => exact absurd rfl hsave
  | cons e l => simp

/-- On the taken branch the split run and the unsplit run agree. -/
theorem conditionFlow_agrees :
    "after" ∈ decisions (afterCrash "true").trace ∧ ∀ nid f₀ f,
      (nid, f₀) ∈ fates (execute (.calm (conditionResults "true")) conditionFlow [] "ex"
        "test").trace →
      (nid, f) ∈ fates (afterCrash "true").trace → (f₀ = .skipped ↔ f = .skipped) := by
  have hP : NoDeadDecision conditionFlow (afterCrash "true") := by
    unfold NoDeadDecision NoDeadParents
    decide +kernel
  exact ⟨by decide +kernel, (split_prunes_like_unsplit (by decide)
    (afterCrash_splitCall "true" _ (by decide +kernel) (by decide +kernel) hP)).2
    (.calm (conditionResults "true")) [] "ex" "test" fun _ => rfl⟩

/-- On the other branch they do not: after the crash `resume()` runs the second node of the
branch that was not taken, whose only parent is skipped. -/
theorem conditionFlow_runs_pruned_node :
    ¬ ∀ wf outcome c, validateDag wf = [] → SplitCall wf (·.Behaves outcome) (fun _ => True) c →
      (∀ nid f, (nid, f) ∈ fates c.trace → wf.incoming nid ≠ [] →
        (∀ p ∈ wf.incoming nid, DeadIn wf c.execution p) → f = .skipped) ∧
      ∀ (env : RunEnv) triggerData executionId environment, env.Behaves outcome →
        ∀ nid f₀ f, (nid, f₀) ∈ fates (execute env wf triggerData executionId environment).trace →
          (nid, f) ∈ fates c.trace → (f₀ = .skipped ↔ f = .skipped) := by
  intro h
  have hcall := afterCrash_splitCall "false" (fun _ => True) (by decide +kernel)
    (by decide +kernel) trivial
  have hrun : ∃ x ∈ fates (afterCrash "false").trace, x.1 = "after" ∧ x.2.isSkipped = false := by
    decide +kernel
  obtain ⟨⟨nid, f⟩, hf, hnid, hran⟩ := hrun
  dsimp only at hnid
  subst hnid
  have hdead : ∀ p ∈ conditionFlow.incoming "after",
      (afterCrash "false").execution.statusOf p = some .skipped := by decide +kernel
  have hskip := (h _ _ _ (by decide +kernel) hcall).1 "after" f hf (by decide)
    fun p hp => .inl (hdead p hp)
  simp [hskip, Fate.isSkipped] at hran

/-! ## Live edges -/

/-- The edge is open for an output with this metadata: of a condition, it is unlabelled or on
the taken branch; of a switch, it leaves by the selected route; of anything else, always. -/
def edgeOpen (metadata : List (String × Value)) (e : EdgeDefinition) : Bool :=
  if isConditionMeta metadata then
    (edgeConditionBranch e).all ((Value.field metadata "branch").getD (.str "true")).eqStr
  else if isSwitchMeta metadata then
    (edgeSwitchRoute e).any (Value.getD metadata "matched_route").eqInt
  else true

/-- The source of the edge completed and the edge is open for its output. -/
def edgeLive (results : NodeResults) (e : EdgeDefinition) : Bool :=
  (results.lookup e.source).any fun r =>
    r.status = .completed && edgeOpen (outputMeta r.outputData) e

def completedIn (results : NodeResults) (p : NodeId) : Bool :=
  (results.lookup p).any (·.status = .completed)

/-- A completed condition or switch that routes away from the node: a condition with edges
to it that carry a branch, none the taken one; a switch that selected a route, with no edge
to it that leaves by that route. -/
def routesAway (wf : WorkflowDefinition) (results : NodeResults) (nid p : NodeId) : Bool :=
  (results.lookup p).any fun r => r.status = .completed && gateClosed wf p nid r.outputData

/-- A completed switch that selected no route. -/
def unrouted (results : NodeResults) (p : NodeId) : Bool :=
  (results.lookup p).any fun r => r.status = .completed && isSwitchMeta (outputMeta r.outputData) &&
    (Value.getD (outputMeta r.outputData) "matched_route").isNone

private theorem exists_edge {p : NodeId} (hp : p ∈ wf.incoming nid) :
    ∃ e ∈ wf.edgesBetween p nid, e.source = p ∧ e.target = nid := by
  obtain ⟨e, he, ht, hs⟩ := WorkflowDefinition.mem_incoming.mp hp
  exact ⟨e, by simp [WorkflowDefinition.edgesBetween, he, ht, hs], hs, ht⟩

private theorem mem_edgesBetween {p : NodeId} {e : EdgeDefinition} :
    e ∈ wf.edgesBetween p nid ↔ e ∈ wf.edges ∧ e.source = p ∧ e.target = nid := by
  simp [WorkflowDefinition.edgesBetween]

/-- A condition that does not route away has an open edge to the node. -/
theorem conditionSkips_open {p : NodeId} {metadata : List (String × Value)}
    (hp : p ∈ wf.incoming nid) (hc : isConditionMeta metadata = true)
    (h : conditionSkips wf p nid metadata = false) :
    ∃ e ∈ wf.edgesBetween p nid, edgeOpen metadata e = true := by
  obtain ⟨e₀, he₀, -⟩ := exists_edge hp
  simp only [conditionSkips, Bool.and_eq_false_iff, Bool.not_eq_false'] at h
  rcases h with hnone | hany
  · refine ⟨e₀, he₀, ?_⟩
    rw [List.isEmpty_iff, List.filterMap_eq_nil_iff] at hnone
    simp [edgeOpen, hc, hnone e₀ he₀]
  · obtain ⟨b, hb, heq⟩ := List.any_eq_true.mp hany
    obtain ⟨e, he, hbranch⟩ := List.mem_filterMap.mp hb
    exact ⟨e, he, by simp [edgeOpen, hc, hbranch, heq]⟩

/-- For a switch that selected a route, not to route away is to have an open edge. -/
theorem switchSkips_open {p : NodeId} {metadata : List (String × Value)}
    (hs : isSwitchMeta metadata = true)
    (hroute : (Value.getD metadata "matched_route").isNone = false)
    (h : switchSkips wf p nid metadata = false) :
    ∃ e ∈ wf.edgesBetween p nid, edgeOpen metadata e = true := by
  have hc : isConditionMeta metadata = false := by
    by_contra hc
    simp [isSwitchMeta, hc] at hs
  simp only [switchSkips, hroute, Bool.not_false, Bool.true_and, Bool.not_eq_false'] at h
  obtain ⟨e, he, hany⟩ := List.any_eq_true.mp h
  exact ⟨e, he, by simp [edgeOpen, hc, hs, hany]⟩

/-- A completed parent of the workflow that neither routes away nor is an unrouted switch
has a live edge to the node. -/
theorem live_of_not_routesAway {results : NodeResults} {p : NodeId} (hp : p ∈ wf.incoming nid)
    (hnode : (wf.nodeMap p).isSome = true) (hc : completedIn results p = true)
    (haway : routesAway wf results nid p = false) (hroute : unrouted results p = false) :
    ∃ e ∈ wf.edges, e.target = nid ∧ e.source = p ∧ edgeLive results e = true := by
  obtain ⟨r, hl, hst⟩ : ∃ r, results.lookup p = some r ∧ r.status = .completed := by
    unfold completedIn at hc
    cases hl : results.lookup p with
    | none => simp [hl] at hc
    | some r => exact ⟨r, rfl, by simpa [hl] using hc⟩
  simp only [routesAway, unrouted, hl, Option.any_some, hst, decide_true, Bool.true_and,
    gateClosed, gates, hnode, Bool.and_true] at haway hroute
  have hopen : ∃ e ∈ wf.edgesBetween p nid, edgeOpen (outputMeta r.outputData) e = true := by
    by_cases hcond : isConditionMeta (outputMeta r.outputData) = true
    · simp only [hcond, Bool.true_or, if_true, Bool.true_and] at haway
      exact conditionSkips_open hp hcond haway
    · by_cases hsw : isSwitchMeta (outputMeta r.outputData) = true
      · simp only [hcond, hsw, Bool.or_true, Bool.true_and] at haway hroute
        exact switchSkips_open hsw hroute haway
      · obtain ⟨e, he, -⟩ := exists_edge hp
        exact ⟨e, he, by simp [edgeOpen, hcond, hsw]⟩
  obtain ⟨e, he, ho⟩ := hopen
  obtain ⟨hmem, hsrc, htgt⟩ := mem_edgesBetween.mp he
  refine ⟨e, hmem, htgt, hsrc, ?_⟩
  rw [edgeLive, hsrc, hl, Option.any_some, hst, ho]
  rfl

/-- The edges of an unrouted switch are not live. -/
theorem not_live_of_unrouted {results : NodeResults} {e : EdgeDefinition}
    (h : unrouted results e.source = true) : edgeLive results e = false := by
  unfold unrouted at h
  unfold edgeLive
  cases hl : results.lookup e.source with
  | none => rfl
  | some r =>
      simp only [hl, Option.any_some, Bool.and_eq_true] at h
      obtain ⟨⟨hst, hs⟩, hnone⟩ := h
      have hc : isConditionMeta (outputMeta r.outputData) = false := by
        by_contra hc
        simp [isSwitchMeta, hc] at hs
      have hval : Value.getD (outputMeta r.outputData) "matched_route" = .none := by
        revert hnone
        cases Value.getD (outputMeta r.outputData) "matched_route" <;> simp [Value.isNone]
      have hany : (edgeSwitchRoute e).any Value.none.eqInt = false := by
        cases edgeSwitchRoute e <;> rfl
      simp [edgeOpen, hc, hs, hval, hany]

theorem completedIn_of_live {results : NodeResults} {e : EdgeDefinition}
    (h : edgeLive results e = true) : completedIn results e.source = true := by
  unfold edgeLive at h
  unfold completedIn
  cases hl : results.lookup e.source <;> simp_all

/-- What the results tell of a recorded parent of `execute()`. -/
private theorem Recorded.parent {s : LoopState} {f : Fate} {p : NodeId}
    (hr : Recorded env s p f) :
    (gateClosed wf p nid (outputOf s.nodeOutputs p) = true ↔
      routesAway wf s.execution.nodeResults nid p = true) ∧
    ((p ∈ s.softFailed ∨ CitraFlows.skippedIn s.execution.nodeResults p = true) ↔
      completedIn s.execution.nodeResults p = false) := by
  have hsoft := hr.softFailed
  have hskip := hr.skippedIn
  have hres := hr.result
  have hout := hr.output
  cases f with
  | skipped =>
      simp only [Fate.output] at hout
      simp [routesAway, completedIn, hres, gateClosed_of_lookup_none hout, Fate.result, hskip,
        Fate.isSkipped]
  | ran ctx result =>
      cases result with
      | completed output retries errors =>
          simp only [Fate.output] at hout
          simp [routesAway, completedIn, hres, outputOf, hout, Fate.result, NodeRun.result, hskip,
            Fate.isSkipped, hsoft, Fate.failed]
      | failed error retries errors =>
          simp only [Fate.output] at hout
          simp [routesAway, completedIn, hres, gateClosed_of_lookup_none hout, Fate.result,
            NodeRun.result, hsoft, Fate.failed]
      | timeout =>
          simp only [Fate.output] at hout
          simp [routesAway, completedIn, hres, gateClosed_of_lookup_none hout, Fate.result,
            NodeRun.result, hsoft, Fate.failed]

/-- A node that was not skipped before the loop is skipped in the results if it was in the loop. -/
theorem Final.skippedIn_eq {s₀ s : LoopState} (h : Final seg env wf s₀ s) {f : Fate}
    (hf : (nid, f) ∈ fates s.trace) (hstart : skippedIn s₀.execution.nodeResults nid = false) :
    skippedIn s.execution.nodeResults nid = f.isSkipped := by
  rcases h.result nid f hf with hl | ⟨hran, hl⟩
  · rw [skippedIn, hl, Option.any_some, Bool.eq_iff_iff, decide_eq_true_eq,
      Fate.result_status_skipped, Fate.isSkipped_iff]
  · rw [skippedIn, hl]
    refine Eq.trans hstart ?_
    cases f with
    | skipped => exact absurd rfl hran
    | ran ctx result => rfl

section
variable {triggerData : List (String × Value)} {executionId environment : String}

theorem executeStart_not_skipped (hne : wf.incoming nid ≠ []) :
    skippedIn (executeStart env wf triggerData executionId environment).execution.nodeResults nid =
      false := by
  have horphan : nid ∉ orphanedNodes wf := fun ho =>
    hne (mem_rootNodes.mp (mem_orphanedNodes.mp ho).1).2
  rw [skippedIn, executeStart_lookup, if_neg horphan]
  rfl

/-- When `execute()` skips a node, in terms of the results it leaves. -/
theorem execute_skips_iff
    (hd : nid ∈ decisions (execute env wf triggerData executionId environment).trace)
    (hne : wf.incoming nid ≠ []) :
    ((execute env wf triggerData executionId environment).execution.statusOf nid =
        some .skipped ↔
      (∃ p ∈ wf.incoming nid, routesAway wf
        (execute env wf triggerData executionId environment).execution.nodeResults nid p = true) ∨
      ∀ p ∈ wf.incoming nid, completedIn
        (execute env wf triggerData executionId environment).execution.nodeResults p = false) ∧
    ∀ p ∈ wf.incoming nid, (wf.nodeMap p).isSome = true := by
  obtain ⟨f, hf⟩ := mem_decisions.mp hd
  rw [execute_fates] at hf
  have hfinal := executeLoop_final env wf triggerData executionId environment wf.nodeIds.card
  rw [statusOf_skipped_iff, execute_nodeResults]
  generalize (executeLoop env wf triggerData executionId environment wf.nodeIds.card).state = s
    at hf hfinal
  obtain ⟨pre, post, hsplit⟩ := List.append_of_mem hf
  -- `execute()` restores nothing, so each parent was decided by the call
  have hparent : ∀ p ∈ wf.incoming nid, ∃ g, (p, g) ∈ fates s.trace ∧ Recorded env s p g := by
    intro p hp
    rcases hfinal.parent hsplit hp with ⟨hE, -⟩ | ⟨g, hg, hr, -⟩
    · simp [executeStart] at hE
    · exact ⟨g, by rw [hsplit]; simp [hg], hr⟩
  constructor
  · have hstatus := hfinal.skippedIn_eq hf (executeStart_not_skipped hne)
    obtain ⟨r, hr, hskip⟩ := (hfinal.decides nid f hf).route
    rw [hstatus, hskip, (route_ok hr).1]
    refine or_congr (exists_congr fun p => and_congr_right fun hp => ?_) ?_
    · obtain ⟨g, -, hg⟩ := hparent p hp
      exact hg.parent.1
    · simp only [ne_eq, hne, not_false_eq_true, true_and, allParentsSkipped, List.all_eq_true,
        Bool.or_eq_true, decide_eq_true_eq]
      refine forall₂_congr fun p hp => ?_
      obtain ⟨g, -, hg⟩ := hparent p hp
      have hdead : (gateClosed wf p nid _ = true ↔ _) ∧ _ := hg.parent
      exact hdead.2
  · intro p hp
    obtain ⟨g, hg, -⟩ := hparent p hp
    exact WorkflowDefinition.nodeMap_isSome_iff.mpr (hfinal.decides p g hg).mem_nodeIds

/-- A node that `execute()` has reached is skipped exactly when none of its incoming edges is
live, if and only if no parent routes away from it while another edge is live, and, where
no parent routes away, not every completed parent is a switch without a selected route. -/
theorem execute_skipped_iff_no_live_iff
    (hd : nid ∈ decisions (execute env wf triggerData executionId environment).trace)
    (hne : wf.incoming nid ≠ []) :
    let e := (execute env wf triggerData executionId environment).execution
    (e.statusOf nid = some .skipped ↔
      ∀ edge ∈ wf.edges, edge.target = nid → edgeLive e.nodeResults edge = false) ↔
    ((∃ p ∈ wf.incoming nid, routesAway wf e.nodeResults nid p = true) →
        ∀ edge ∈ wf.edges, edge.target = nid → edgeLive e.nodeResults edge = false) ∧
      ((∀ p ∈ wf.incoming nid, routesAway wf e.nodeResults nid p = false) →
        (∃ p ∈ wf.incoming nid, completedIn e.nodeResults p = true) →
        ∃ p ∈ wf.incoming nid,
          completedIn e.nodeResults p = true ∧ unrouted e.nodeResults p = false) := by
  intro e
  obtain ⟨hskip, hnode⟩ := execute_skips_iff hd hne
  rw [hskip]
  have hincoming : ∀ edge ∈ wf.edges, edge.target = nid → edge.source ∈ wf.incoming nid :=
    fun edge he ht => WorkflowDefinition.mem_incoming.mpr ⟨edge, he, ht, rfl⟩
  constructor
  · intro h
    refine ⟨fun haway => h.mp (.inl haway), fun hno ⟨p, hp, hc⟩ => ?_⟩
    -- a completed parent and no routing away: the node runs, so some edge is live
    by_contra hun
    have hdead : ∀ edge ∈ wf.edges, edge.target = nid → edgeLive e.nodeResults edge = false := by
      intro edge he ht
      by_contra hlive
      rw [Bool.not_eq_false] at hlive
      refine hun ⟨edge.source, hincoming edge he ht, completedIn_of_live hlive, ?_⟩
      by_contra hu
      rw [not_live_of_unrouted (by simpa using hu)] at hlive
      cases hlive
    rcases h.mpr hdead with ⟨q, hq, haway⟩ | hall
    · rw [hno q hq] at haway
      cases haway
    · rw [hall p hp] at hc
      cases hc
  · rintro ⟨haway, hroute⟩
    constructor
    · rintro (h | hall)
      · exact haway h
      · intro edge he ht
        by_contra hlive
        have := completedIn_of_live (by simpa using hlive : edgeLive e.nodeResults edge = true)
        rw [hall edge.source (hincoming edge he ht)] at this
        cases this
    · intro hdead
      by_contra hno
      simp only [not_or, not_exists, not_and, Bool.not_eq_true, not_forall, Bool.not_eq_false] at hno
      obtain ⟨hno, p, hp, hc⟩ := hno
      obtain ⟨q, hq, hcq, huq⟩ := hroute hno ⟨p, hp, hc⟩
      obtain ⟨edge, he, ht, -, hlive⟩ :=
        live_of_not_routesAway hq (hnode q hq) hcq (hno q hq) huq
      rw [hdead edge he ht] at hlive
      cases hlive

end

theorem conditionFlow_skipped_iff_no_live :
    let e := (execute (.calm (conditionResults "false")) conditionFlow [] "ex" "test").execution
    e.statusOf "after" = some .skipped ↔
      ∀ edge ∈ conditionFlow.edges, edge.target = "after" →
        edgeLive e.nodeResults edge = false := by
  have hdecided : "after" ∈ decisions
      (execute (.calm (conditionResults "false")) conditionFlow [] "ex" "test").trace := by
    decide +kernel
  exact (execute_skipped_iff_no_live_iff hdecided (by decide)).mpr (by decide +kernel)

/-- `conditionFlow` with a second way to its last node, beside the condition's `false`
edge. -/
def rejoinFlow : WorkflowDefinition where
  nodes := [{ id := "start", type := .manualTrigger }, { id := "check", type := .condition },
    { id := "other", type := .dataTransform }, { id := "join", type := .mergeWait }]
  edges := [{ source := "start", target := "check" }, { source := "start", target := "other" },
    { source := "check", target := "join", sourceHandle := some "false" },
    { source := "other", target := "join" }]

/-- A node that rejoins branches is skipped although an edge to it is live. -/
theorem rejoinFlow_skips_live_node :
    ¬ ∀ wf env triggerData executionId environment nid, validateDag wf = [] →
      nid ∈ decisions (execute env wf triggerData executionId environment).trace →
      wf.incoming nid ≠ [] →
      ((execute env wf triggerData executionId environment).execution.statusOf nid =
          some .skipped ↔
        ∀ edge ∈ wf.edges, edge.target = nid → edgeLive
          (execute env wf triggerData executionId environment).execution.nodeResults edge =
            false) := by
  intro h
  have hiff := h rejoinFlow (.calm (conditionResults "true")) [] "ex" "test" "join"
    (by decide +kernel) (by decide +kernel) (by decide)
  have hskip : (execute (.calm (conditionResults "true")) rejoinFlow [] "ex"
      "test").execution.statusOf "join" = some .skipped := by decide +kernel
  have hlive : ∃ edge ∈ rejoinFlow.edges, edge.target = "join" ∧ edgeLive
      (execute (.calm (conditionResults "true")) rejoinFlow [] "ex"
        "test").execution.nodeResults edge = true := by decide +kernel
  obtain ⟨edge, he, ht, hl⟩ := hlive
  rw [hiff.mp hskip edge he ht] at hl
  cases hl

end CitraFlows
