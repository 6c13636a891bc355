-- SUMMARY: Workflows without races on the variables: what execute() computes does not depend on the order in which it takes ready nodes.
import CitraFlows.Executor.Completeness
import CitraFlows.Executor.VariableFlow

/-!
# Race-free workflows

The roots of a workflow come out of a Python set, so two calls of `execute()` may take ready nodes
in different orders. The nodes share one mapping of variables: where two of them are ordered by no
path and one of them writes to it, the order shows. Where every node that writes to the mapping is
ordered with every other node, all calls compute the same.

The proof follows one call against another one that has come to its end: every node that the first
one decides gets the fate it has in the second one.
-/

open Worklist

namespace CitraFlows

variable {env env' : RunEnv} {wf : WorkflowDefinition} {nid : NodeId} {W : Finset NodeId}

/-! ## Worlds and workflows -/

/-- The nodes behave alike in both worlds. The order of the sets, the checkpoints and the ids of
approvals may differ. -/
structure RunEnv.SameNodes (env env' : RunEnv) : Prop where
  config : env'.config = env.config
  run : env'.run = env.run
  jwtToken : env'.jwtToken = env.jwtToken

/-- Nothing from outside stops a run. -/
structure RunEnv.Undisturbed (env : RunEnv) : Prop where
  cancelRequested : ∀ nid, env.cancelRequested nid = false
  timeoutDuring : ∀ nid, env.timeoutDuring nid = false

/-- A node cannot tell equal mappings apart. -/
structure RunEnv.ReadsMappings (env : RunEnv) : Prop where
  result : ∀ {ctx : NodeContext} {v : Variables}, SameMapping v ctx.vars →
    (env.run { ctx with vars := v }).1 = (env.run ctx).1
  vars : ∀ {ctx : NodeContext} {v : Variables}, SameMapping v ctx.vars →
    SameMapping (env.run { ctx with vars := v }).2 (env.run ctx).2

/-- Only the nodes of `W` change the mapping, and each of them is ordered with every other node. -/
structure RaceFree (env : RunEnv) (wf : WorkflowDefinition) (W : Finset NodeId) : Prop where
  quiet : ∀ {ctx : NodeContext}, ctx.nodeId ∉ W → SameMapping (loopVars .execute env ctx) ctx.vars
  ordered : ∀ {w nid}, w ∈ W → w ∈ wf.nodeIds → nid ∈ wf.nodeIds → nid ≠ w →
    Before wf.incoming w nid ∨ Before wf.incoming nid w

/-! ## The mapping that a node sees -/

theorem SameMapping.isEmpty {v w : Variables} (h : SameMapping v w) :
    v.entries.isEmpty = w.entries.isEmpty := by
  have hempty : ∀ u : Variables, u.entries.isEmpty = true ↔ ∀ name, u.lookup name = none := by
    intro u
    constructor
    · intro hu name
      have hnil : u = ∅ := AList.ext (List.isEmpty_iff.mp hu)
      rw [hnil, AList.lookup_empty]
    · intro hu
      rw [List.isEmpty_iff, List.eq_nil_iff_forall_not_mem]
      rintro ⟨name, x⟩ hx
      have hlookup : u.lookup name = some x := AList.mem_lookup_iff.mpr hx
      rw [hu name] at hlookup
      cases hlookup
  rw [Bool.eq_iff_iff, hempty, hempty]
  exact forall_congr' fun name => by rw [h name]

/-- Equal mappings before a node are equal after it. -/
theorem RunEnv.ReadsMappings.loopVars (h : env.ReadsMappings) {ctx : NodeContext} {v : Variables}
    (hv : SameMapping v ctx.vars) :
    SameMapping (loopVars .execute env { ctx with vars := v }) (loopVars .execute env ctx) := by
  unfold CitraFlows.loopVars
  dsimp only
  rw [hv.isEmpty, h.result hv]
  refine SameMapping.update ?_ _
  split
  next => exact hv
  next => exact h.vars hv

theorem loopVars_congr (hrun : env'.run = env.run) (ctx : NodeContext) :
    loopVars .execute env' ctx = loopVars .execute env ctx := by
  unfold loopVars
  rw [hrun]

/-- After some nodes the mapping is what the last writer among them has left. -/
theorem Threaded.lastWriter {start : Variables} {ctxs : List NodeContext}
    (h : Threaded .execute env start ctxs) (hrace : RaceFree env wf W) :
    SameMapping (loopVarsAfter .execute env start ctxs)
      (loopVarsAfter .execute env start (ctxs.filter (·.nodeId ∈ W))) := by
  induction ctxs using List.reverseRecOn with
  | nil => exact .refl _
  | append_singleton ctxs ctx ih =>
      obtain ⟨hctxs, hctx, -⟩ := threaded_append.mp h
      have hlast : ∀ l : List NodeContext, loopVarsAfter .execute env start (l ++ [ctx]) =
          loopVars .execute env ctx := by
        intro l
        rw [loopVarsAfter, List.foldl_append]
        rfl
      rw [List.filter_append, hlast]
      by_cases hw : ctx.nodeId ∈ W
      · rw [List.filter_cons_of_pos (by simpa using hw), List.filter_nil, hlast]
        exact .refl _
      · rw [List.filter_cons_of_neg (by simpa using hw), List.filter_nil, List.append_nil]
        have hquiet := hrace.quiet hw
        rw [hctx] at hquiet
        exact hquiet.trans (ih hctxs)

/-- The same node with the same input, in an equal mapping. -/
def NodeContext.Same (ctx ctx' : NodeContext) : Prop :=
  ∃ v, SameMapping v ctx.vars ∧ ctx' = { ctx with vars := v }

/-- Nodes in dependency order, each of them once. -/
structure Visits (wf : WorkflowDefinition) (ctxs : List NodeContext) : Prop where
  mem : ∀ ctx ∈ ctxs, ctx.nodeId ∈ wf.nodeIds
  nodup : (ctxs.map (·.nodeId)).Nodup
  ordered : (ctxs.map (·.nodeId)).Pairwise fun x y => ¬ Before wf.incoming y x

/-- Two runs in which the same writers have run leave equal mappings. -/
theorem sameVars (hdag : IsDag wf) (hnodes : env.SameNodes env') (hreads : env.ReadsMappings)
    (hrace : RaceFree env wf W) {start : Variables} {ctxs ctxs' : List NodeContext}
    (h : Threaded .execute env start ctxs) (h' : Threaded .execute env' start ctxs')
    (hv : Visits wf ctxs) (hv' : Visits wf ctxs')
    (hsame : ∀ ctx ∈ ctxs, ∀ ctx' ∈ ctxs', ctx.nodeId = ctx'.nodeId → ctx.Same ctx')
    (hwriters : ∀ w ∈ W, w ∈ ctxs.map (·.nodeId) ↔ w ∈ ctxs'.map (·.nodeId)) :
    SameMapping (loopVarsAfter .execute env start ctxs)
      (loopVarsAfter .execute env' start ctxs') := by
  have hrace' : RaceFree env' wf W :=
    ⟨fun hw => by rw [loopVars_congr hnodes.run]; exact hrace.quiet hw, hrace.ordered⟩
  -- the writers of both runs are the same nodes, one after the other
  have hsub : ∀ l : List NodeContext,
      ((l.filter (·.nodeId ∈ W)).map (·.nodeId)).Sublist (l.map (·.nodeId)) :=
    fun l => List.filter_sublist.map _
  have hmem : ∀ (l : List NodeContext) (w : NodeId),
      w ∈ (l.filter (·.nodeId ∈ W)).map (·.nodeId) ↔ w ∈ W ∧ w ∈ l.map (·.nodeId) := by
    intro l w
    simp only [List.mem_map, List.mem_filter, decide_eq_true_eq]
    constructor
    · rintro ⟨ctx, ⟨hctx, hw⟩, rfl⟩
      exact ⟨hw, ctx, hctx, rfl⟩
    · rintro ⟨hw, ctx, hctx, rfl⟩
      exact ⟨ctx, ⟨hctx, hw⟩, rfl⟩
  have hids : (ctxs.filter (·.nodeId ∈ W)).map (·.nodeId) =
      (ctxs'.filter (·.nodeId ∈ W)).map (·.nodeId) := by
    refine eq_of_pairwise_before hdag.acyclic (hv.ordered.sublist (hsub ctxs))
      (hv'.ordered.sublist (hsub ctxs')) (hv.nodup.sublist (hsub ctxs))
      (hv'.nodup.sublist (hsub ctxs')) (fun w => ?_) fun x hx y hy hne => ?_
    · rw [hmem, hmem]
      exact and_congr_right fun hw => hwriters w hw
    · obtain ⟨hxW, hx⟩ := (hmem ctxs x).mp hx
      obtain ⟨-, hy⟩ := (hmem ctxs y).mp hy
      obtain ⟨cx, hcx, rfl⟩ := List.mem_map.mp hx
      obtain ⟨cy, hcy, rfl⟩ := List.mem_map.mp hy
      exact hrace.ordered hxW (hv.mem cx hcx) (hv.mem cy hcy) hne.symm
  refine (h.lastWriter hrace).trans (SameMapping.trans ?_ (h'.lastWriter hrace').symm)
  -- only the last one matters
  rcases List.eq_nil_or_concat (ctxs.filter (·.nodeId ∈ W)) with hnil | ⟨l, ctx, hl⟩
  · rw [hnil] at hids ⊢
    rw [List.map_eq_nil_iff.mp hids.symm]
    exact .refl _
  · rcases List.eq_nil_or_concat (ctxs'.filter (·.nodeId ∈ W)) with hnil' | ⟨l', ctx', hl'⟩
    · rw [hnil', hl] at hids
      simp at hids
    · rw [hl, hl'] at hids
      simp only [List.concat_eq_append, List.map_append, List.map_cons, List.map_nil] at hids
      have hnid : ctx.nodeId = ctx'.nodeId := by simpa using (List.append_inj' hids rfl).2
      have hctx : ctx ∈ ctxs.filter (·.nodeId ∈ W) := by simp [hl]
      have hctx' : ctx' ∈ ctxs'.filter (·.nodeId ∈ W) := by simp [hl']
      obtain ⟨v, hvars, rfl⟩ :=
        hsame ctx (List.mem_filter.mp hctx).1 ctx' (List.mem_filter.mp hctx').1 hnid
      rw [hl, hl']
      simp only [List.concat_eq_append, loopVarsAfter, List.foldl_append, List.foldl_cons,
        List.foldl_nil]
      rw [loopVars_congr hnodes.run]
      exact (hreads.loopVars hvars).symm

/-! ## The contexts of a loop -/

/-- The contexts of the nodes that have run, from the decisions. -/
def Fate.context? : NodeId × Fate → Option NodeContext
  | (_, .ran ctx _) => some ctx
  | (_, .skipped) => none

theorem contexts_eq_fates (t : List Event) : contexts t = (fates t).filterMap Fate.context? := by
  rw [contexts, fates, List.filterMap_filterMap]
  refine List.filterMap_congr fun ev _ => ?_
  cases ev <;> rfl

theorem mem_contexts {t : List Event} {ctx : NodeContext} :
    ctx ∈ contexts t ↔ ∃ result, (ctx.nodeId, .ran ctx result) ∈ fates t := by
  simp only [contexts, fates, List.mem_filterMap]
  constructor
  · rintro ⟨ev, hev, h⟩
    cases ev with
    | run ctx' result =>
        cases h
        exact ⟨result, .run ctx result, hev, rfl⟩
    | _ => cases h
  · rintro ⟨result, ev, hev, h⟩
    cases ev with
    | run ctx' result' =>
        simp only [Event.fate?, Option.some.injEq, Prod.mk.injEq, Fate.ran.injEq] at h
        obtain ⟨-, rfl, rfl⟩ := h
        exact ⟨.run ctx' result', hev, rfl⟩
    | _ => simp [Event.fate?] at h

/-- What a loop that started in `s₀` has handed to its nodes, and how many it has run. -/
structure RunRecord (env : RunEnv) (wf : WorkflowDefinition) (s₀ s : LoopState) : Prop where
  threaded : ThreadedLoop .execute env s₀.vars s₀.execution.vars s
  contexts : ∀ ctx ∈ contexts s.trace, ∃ n, wf.nodeMap ctx.nodeId = some n ∧
    ctx = { nodeContext env wf n ctx.nodeId ctx.inputData s₀ with vars := ctx.vars }
  executionId : s.execution.executionId = s₀.execution.executionId
  environment : s.execution.environment = s₀.execution.environment
  steps : s.stepsExecuted = (CitraFlows.contexts s.trace).length
  limit : s.stepsExecuted ≤ env.config.maxNodeSteps

/-- What a step that goes on counts: the nodes it has run. The identity of the record stays. -/
structure Counts (env : RunEnv) (s s' : LoopState) : Prop where
  executionId : s'.execution.executionId = s.execution.executionId
  environment : s'.execution.environment = s.execution.environment
  steps : (s'.stepsExecuted = s.stepsExecuted ∧ contexts s'.trace = contexts s.trace) ∨
    s'.stepsExecuted = s.stepsExecuted + 1 ∧ s.stepsExecuted + 1 ≤ env.config.maxNodeSteps ∧
      ∃ ctx, contexts s'.trace = contexts s.trace ++ [ctx]

theorem processNode_counts {seg : Segment} {s s' : LoopState}
    (h : processNode seg env wf nid s = .next s') : Counts env s s' := by
  unfold processNode at h
  split at h
  · cases h
  split at h
  · cases h
  split at h
  · cases h
  split at h
  · cases h
    refine ⟨rfl, rfl, .inl ⟨rfl, ?_⟩⟩
    simp [LoopState.recordSkip, LoopState.emit, LoopState.enqueueChildren, LoopState.markExecuted,
      LoopState.setResult, LoopState.enter, contexts]
  split at h
  · cases h
    exact ⟨rfl, rfl, .inl ⟨rfl, rfl⟩⟩
  unfold runNode at h
  split at h
  · cases h
  rename_i hlimit
  have hlimit : s.stepsExecuted + 1 ≤ env.config.maxNodeSteps := Nat.le_of_not_lt hlimit
  dsimp only at h
  split at h
  · cases h
  -- the node has run: what follows adds at most a checkpoint to the trace
  split at h
  · split at h
    · unfold completedExecute at h
      dsimp only at h
      split at h
      · cases h
      · split at h <;> cases h
      · split at h <;> cases h <;>
          exact ⟨rfl, rfl, .inr ⟨rfl, hlimit, _, by
            simp [LoopState.afterRun, LoopState.save, LoopState.emit, LoopState.enqueueChildren,
              LoopState.store, LoopState.markExecuted, LoopState.setResult, LoopState.enter,
              contexts]; rfl⟩⟩
    · unfold completedResume at h
      split at h <;> cases h
      exact ⟨rfl, rfl, .inr ⟨rfl, hlimit, _, contexts_emit _ _⟩⟩
  all_goals
    unfold failedNode at h
    split at h
    · split at h <;> cases h
      exact ⟨rfl, rfl, .inr ⟨rfl, hlimit, _, contexts_emit _ _⟩⟩
    · cases h

theorem RunRecord.start {s₀ : LoopState} (h₀ : Fresh s₀) (hsteps : s₀.stepsExecuted = 0) :
    RunRecord env wf s₀ s₀ where
  threaded := by constructor <;> rw [h₀.trace] <;> trivial
  contexts := by simp [h₀.trace, CitraFlows.contexts]
  executionId := rfl
  environment := rfl
  steps := by rw [h₀.trace, hsteps]; rfl
  limit := by rw [hsteps]; exact Nat.zero_le _

/-- The context that a step hands to the node it runs. -/
theorem processNode_context {seg : Segment} {s : LoopState} {ctx : NodeContext} {result : NodeRun}
    (h : fates (processNode seg env wf nid s).state.trace = fates s.trace ++ [(nid, .ran ctx result)]) :
    ∃ n, wf.nodeMap nid = some n ∧
      ctx = nodeContext env wf n nid ctx.inputData (s.enter nid) := by
  have hctx : contexts (processNode seg env wf nid s).state.trace = contexts s.trace ++ [ctx] := by
    rw [contexts_eq_fates, contexts_eq_fates, h, List.filterMap_append]
    rfl
  rcases processNode_vars seg env wf nid s with hidle | ⟨n, inputData, hn, hran⟩
  · rw [hidle.ran] at hctx
    simp at hctx
  · rw [hran.ran, List.append_cancel_left_eq, List.cons.injEq] at hctx
    exact ⟨n, hn, by rw [← hctx.1]; rfl⟩

theorem RunRecord.stepInvariant {s₀ : LoopState} :
    StepInvariant .execute env wf fun _ s => RunRecord env wf s₀ s where
  collect _ _ _ h _ :=
    ⟨⟨h.threaded.threaded, h.threaded.vars, h.threaded.record⟩, h.contexts, h.executionId, h.environment, h.steps, h.limit⟩
  next nid _ s s' h _ _ hs' := by
    have hcounts := processNode_counts hs'
    obtain ⟨f, ha⟩ := processNode_next hs'
    have hlen : s'.stepsExecuted = (CitraFlows.contexts s'.trace).length ∧
        s'.stepsExecuted ≤ env.config.maxNodeSteps := by
      rcases hcounts.steps with ⟨hsteps, hctxs⟩ | ⟨hsteps, hlimit, ctx, hctxs⟩
      · rw [hsteps, hctxs]
        exact ⟨h.steps, h.limit⟩
      · rw [hsteps, hctxs, List.length_append, h.steps]
        exact ⟨rfl, h.steps ▸ hlimit⟩
    refine ⟨?_, fun ctx hctx => ?_, hcounts.executionId.trans h.executionId,
      hcounts.environment.trans h.environment, hlen.1, hlen.2⟩
    · exact h.threaded.step.2 s' hs'
    · obtain ⟨result, hmem⟩ := mem_contexts.mp hctx
      rw [ha.fates, List.mem_append, List.mem_singleton] at hmem
      rcases hmem with hmem | hmem
      · exact h.contexts ctx (mem_contexts.mpr ⟨result, hmem⟩)
      · obtain ⟨rfl, rfl⟩ := Prod.mk.inj hmem
        obtain ⟨n, hn, heq⟩ := processNode_context (by rw [hs']; exact ha.fates)
        refine ⟨n, hn, heq.trans ?_⟩
        rw [heq]
        unfold nodeContext
        simp only [LoopState.enter, h.executionId, h.environment]

theorem contexts_sublist (t : List Event) : ((contexts t).map (·.nodeId)).Sublist (decisions t) := by
  induction t with
  | nil => exact .slnil
  | cons ev t ih =>
      cases ev with
      | run ctx result => exact ih.cons_cons ctx.nodeId
      | skip nid => exact ih.cons nid
      | _ => exact ih

theorem Settled.visits {s₀ s : LoopState} (h : Settled .execute env wf s₀ s)
    (h₀ : s₀.executed = ∅) {pre post : List NodeContext} (hsplit : contexts s.trace = pre ++ post) :
    Visits wf pre := by
  have hschedule := h.schedule
  rw [h₀] at hschedule
  have hsub : (pre.map (·.nodeId)).Sublist (decisions s.trace) := by
    refine List.Sublist.trans ?_ (contexts_sublist s.trace)
    rw [hsplit, List.map_append]
    exact List.sublist_append_left _ _
  refine ⟨fun ctx hctx => ?_, hschedule.nodup.sublist hsub, hschedule.pairwise_before.sublist hsub⟩
  obtain ⟨f, hf⟩ := mem_decisions.mp (hsub.subset (List.mem_map_of_mem hctx))
  exact (h.decides _ f hf).mem_nodeIds

theorem fates_nodeId {t : List Event} {ctx : NodeContext} {result : NodeRun}
    (h : (nid, .ran ctx result) ∈ fates t) : ctx.nodeId = nid := by
  obtain ⟨ev, -, h⟩ := List.mem_filterMap.mp h
  cases ev with
  | run ctx' result' =>
      simp only [Event.fate?, Option.some.injEq, Prod.mk.injEq, Fate.ran.injEq] at h
      obtain ⟨rfl, rfl, rfl⟩ := h
      rfl
  | _ => simp [Event.fate?] at h

/-- A node has one fate. -/
theorem Settled.fate_unique {s₀ s : LoopState} (h : Settled .execute env wf s₀ s) {f g : Fate}
    (hf : (nid, f) ∈ fates s.trace) (hg : (nid, g) ∈ fates s.trace) : f = g :=
  (Prod.mk.inj (List.inj_on_of_nodup_map h.schedule.nodup hf hg rfl)).2

/-! ## Two runs -/

/-- The fates differ at most in the order of the mapping that the node has seen. -/
inductive SameFate : Fate → Fate → Prop
  | skipped : SameFate .skipped .skipped
  | ran {ctx ctx' : NodeContext} (result : NodeRun) (h : ctx.Same ctx') :
      SameFate (.ran ctx result) (.ran ctx' result)

theorem SameFate.result {f g : Fate} (h : SameFate f g) (config : Config) (nid : NodeId) :
    g.result config nid = f.result config nid := by
  cases h <;> rfl

theorem SameFate.output {f g : Fate} (h : SameFate f g) : g.output = f.output := by
  cases h with
  | skipped => rfl
  | ran result h => cases result <;> rfl

theorem SameFate.failed {f g : Fate} (h : SameFate f g) : g.failed = f.failed := by
  cases h with
  | skipped => rfl
  | ran result h => cases result <;> rfl

/-- A loop of `execute()` that has come to its end with every node executed. -/
structure Finished (env : RunEnv) (wf : WorkflowDefinition) (s₀ t : LoopState) : Prop where
  settled : Settled .execute env wf s₀ t
  unpaused : Unpaused s₀ t
  record : RunRecord env wf s₀ t
  all : wf.nodeIds ⊆ t.executed

/-- Every node decided so far has the fate it has in the other run. -/
def Repeats (t s : LoopState) : Prop :=
  ∀ nid f, (nid, f) ∈ fates s.trace → ∃ g, (nid, g) ∈ fates t.trace ∧ SameFate g f

/-- The loops start alike. -/
structure SameStart (s₀ s₀' : LoopState) : Prop where
  fresh : Fresh s₀
  fresh' : Fresh s₀'
  executed : s₀.executed = ∅
  executed' : s₀'.executed = ∅
  vars : s₀'.vars = s₀.vars
  executionId : s₀'.execution.executionId = s₀.execution.executionId
  environment : s₀'.execution.environment = s₀.execution.environment
  triggerData : s₀'.execution.triggerData = s₀.execution.triggerData

section

variable {s₀ s₀' s t : LoopState}

theorem Finished.decided (h : Finished env wf s₀ t) (h₀ : s₀.executed = ∅)
    (hnid : nid ∈ wf.nodeIds) : ∃ f, (nid, f) ∈ fates t.trace :=
  mem_decisions.mp (((h.settled.schedule.visited nid).mp (h.all hnid)).resolve_left (by simp [h₀]))

/-- A node whose parents have the fates of the other run is routed as there. -/
theorem route_same (hstart : SameStart s₀ s₀') (hnodes : env.SameNodes env')
    (ht : Finished env wf s₀ t) (hs : Settled .execute env' wf s₀' s) (hrep : Repeats t s)
    (hready : Ready wf.incoming s.executed nid) : s.route .execute wf nid = t.route .execute wf nid := by
  have hparent : ∀ p ∈ wf.incoming nid, ∃ g f, SameFate g f ∧ Recorded env t p g ∧
      Recorded env' s p f := by
    intro p hp
    have hdec := ((hs.schedule.visited p).mp (hready.2 p hp)).resolve_left (by simp [hstart.executed'])
    obtain ⟨f, hf⟩ := mem_decisions.mp hdec
    obtain ⟨g, hg, hsame⟩ := hrep p f hf
    exact ⟨g, f, hsame, ht.settled.recorded p g hg, hs.recorded p f hf⟩
  unfold LoopState.route
  rw [hs.triggerData, ht.settled.triggerData, hstart.triggerData]
  refine route_congr (fun p hp => ?_) (fun p hp => ?_) fun p hp => ?_
  all_goals obtain ⟨g, f, hsame, hg, hf⟩ := hparent p hp
  · rw [hf.output, hg.output, hsame.output]
  · rw [hf.result, hg.result, hnodes.config, hsame.result]
  · rw [hf.softFailed, hg.softFailed, hsame.failed]

/-- Nodes that have run in both are the same nodes with the same input. -/
theorem Repeats.same (ht : Settled .execute env wf s₀ t) (hrep : Repeats t s) {ctx ctx' : NodeContext}
    (hctx : ctx ∈ contexts t.trace) (hctx' : ctx' ∈ contexts s.trace)
    (hnid : ctx.nodeId = ctx'.nodeId) : ctx.Same ctx' := by
  obtain ⟨result, hran⟩ := mem_contexts.mp hctx
  obtain ⟨result', hran'⟩ := mem_contexts.mp hctx'
  obtain ⟨g, hg, hsame⟩ := hrep _ _ hran'
  rw [← hnid] at hg
  cases ht.fate_unique hg hran
  cases hsame with
  | ran _ h => exact h

/-- What has run in the second run has run in the first one. -/
theorem Repeats.ran_first (hrep : Repeats t s) {w : NodeId}
    (hw : w ∈ (contexts s.trace).map (·.nodeId)) :
    ∃ ctx result, ctx.nodeId = w ∧ (w, .ran ctx result) ∈ fates t.trace := by
  obtain ⟨c', hc', rfl⟩ := List.mem_map.mp hw
  obtain ⟨r, hr⟩ := mem_contexts.mp hc'
  obtain ⟨g, hg, hsame⟩ := hrep _ _ hr
  cases hsame with
  | @ran c _ _ hsame => exact ⟨c, r, fates_nodeId hg, hg⟩

/-- What has run in the first run has run in the second one, once it is decided there. -/
theorem Repeats.ran_second (ht : Settled .execute env wf s₀ t) (hrep : Repeats t s) {w : NodeId}
    (hdec : w ∈ decisions s.trace) {ctx : NodeContext} {result : NodeRun}
    (hran : (w, .ran ctx result) ∈ fates t.trace) : w ∈ (contexts s.trace).map (·.nodeId) := by
  obtain ⟨f, hf⟩ := mem_decisions.mp hdec
  obtain ⟨g, hg, hsame⟩ := hrep w f hf
  cases ht.fate_unique hg hran
  cases hsame with
  | @ran _ ctx' _ h =>
      obtain ⟨v, -, rfl⟩ := h
      have hid : ctx.nodeId = w := fates_nodeId hran
      subst hid
      exact List.mem_map.mpr ⟨{ ctx with vars := v }, mem_contexts.mpr ⟨result, hf⟩, rfl⟩

/-- The same writers have run before the node. -/
theorem writers_before (hstart : SameStart s₀ s₀') (hrace : RaceFree env wf W)
    (ht : Finished env wf s₀ t) (hs : Settled .execute env' wf s₀' s) (hrep : Repeats t s)
    (hready : Ready wf.incoming s.executed nid) (hnid : nid ∈ wf.nodeIds)
    {a b : List (NodeId × Fate)} {f : Fate} (hab : fates t.trace = a ++ (nid, f) :: b) {w : NodeId}
    (hw : w ∈ W) :
    w ∈ (a.filterMap Fate.context?).map (·.nodeId) ↔ w ∈ (contexts s.trace).map (·.nodeId) := by
  have hdec : decisions t.trace = a.map (·.1) ++ nid :: b.map (·.1) := by simp [decisions, hab]
  have hsched := ht.settled.schedule
  rw [hstart.executed] at hsched
  have hsched' := hs.schedule
  rw [hstart.executed'] at hsched'
  have hnext := hsched'.snoc hready
  have hnew : nid ∉ decisions s.trace := fun hmem => hready.1 ((hs.schedule.visited _).mpr (.inr hmem))
  have hlabel : ∀ {c : NodeContext}, c ∈ a.filterMap Fate.context? →
      ∃ r, (c.nodeId, .ran c r) ∈ a := by
    intro c hc
    obtain ⟨⟨m, g⟩, hmem, hg⟩ := List.mem_filterMap.mp hc
    cases g with
    | skipped => cases hg
    | ran c' r =>
        cases hg
        have hid : c.nodeId = m := fates_nodeId (by rw [hab]; exact List.mem_append_left _ hmem)
        exact ⟨r, hid ▸ hmem⟩
  constructor
  · intro hmem
    obtain ⟨c, hc, rfl⟩ := List.mem_map.mp hmem
    obtain ⟨r, hr⟩ := hlabel hc
    have hran : (c.nodeId, .ran c r) ∈ fates t.trace := by
      rw [hab]
      exact List.mem_append_left _ hr
    have hpre : c.nodeId ∈ a.map (·.1) := List.mem_map_of_mem hr
    -- no node stands before an ancestor, so the writer is one of `nid`
    have hnot : ¬ Before wf.incoming nid c.nodeId := by
      have hpairs := hsched.pairwise_before
      rw [hdec, List.pairwise_append] at hpairs
      exact hpairs.2.2 _ hpre _ List.mem_cons_self
    have hne : nid ≠ c.nodeId := by
      have hnodup := hsched.nodup
      rw [hdec, List.nodup_append] at hnodup
      exact (hnodup.2.2 _ hpre _ List.mem_cons_self).symm
    have hbefore := (hrace.ordered hw (ht.settled.decides _ _ hran).mem_nodeIds hnid hne).resolve_right
      hnot
    exact hrep.ran_second ht.settled (hnext.mem_of_before rfl hbefore) hran
  · intro hmem
    obtain ⟨c, r, rfl, hr⟩ := hrep.ran_first hmem
    have hdone : c.nodeId ∈ decisions s.trace := (contexts_sublist _).subset hmem
    have hnot : ¬ Before wf.incoming nid c.nodeId := by
      have hpairs := hnext.pairwise_before
      rw [List.pairwise_append] at hpairs
      exact hpairs.2.2 _ hdone _ List.mem_cons_self
    have hne : nid ≠ c.nodeId := fun heq => hnew (heq ▸ hdone)
    have hbefore :=
      (hrace.ordered hw (ht.settled.decides _ _ hr).mem_nodeIds hnid hne).resolve_right hnot
    obtain ⟨⟨m, g⟩, hm, hmw⟩ := List.mem_map.mp (hsched.mem_of_before hdec hbefore)
    dsimp only at hmw
    subst hmw
    cases ht.settled.fate_unique hr (by rw [hab]; exact List.mem_append_left _ hm)
    exact List.mem_map.mpr ⟨c, List.mem_filterMap.mpr ⟨_, hm, rfl⟩, rfl⟩

/-- The context in which a node runs is that in which it has run in the other run. -/
theorem context_same (hdag : IsDag wf) (hstart : SameStart s₀ s₀') (hnodes : env.SameNodes env')
    (hreads : env.ReadsMappings) (hrace : RaceFree env wf W) (ht : Finished env wf s₀ t)
    (hs : Settled .execute env' wf s₀' s) (hlabel : RunRecord env' wf s₀' s) (hrep : Repeats t s)
    (hready : Ready wf.incoming s.executed nid) {ctx : NodeContext} {result : NodeRun}
    (hran : (nid, .ran ctx result) ∈ fates t.trace) {n : NodeDefinition}
    (hn : wf.nodeMap nid = some n) :
    ctx.Same (nodeContext env' wf n nid ctx.inputData (s.enter nid)) := by
  have hid : ctx.nodeId = nid := fates_nodeId hran
  subst hid
  obtain ⟨n', hn', heq⟩ := ht.record.contexts ctx (mem_contexts.mpr ⟨result, hran⟩)
  cases hn.symm.trans hn'
  refine ⟨s.vars, ?_, ?_⟩
  · -- what has run before the node, in either run
    obtain ⟨a, b, hab⟩ := List.append_of_mem hran
    have hctxs : contexts t.trace =
        a.filterMap Fate.context? ++ ctx :: b.filterMap Fate.context? := by
      rw [contexts_eq_fates, hab, List.filterMap_append]
      rfl
    have hthreaded := ht.record.threaded.threaded
    rw [hctxs] at hthreaded
    obtain ⟨hpre, hvars, -⟩ := threaded_append.mp hthreaded
    have hthreaded' := hlabel.threaded.threaded
    rw [hstart.vars] at hthreaded'
    rw [hlabel.threaded.vars, hstart.vars, hvars]
    refine (sameVars hdag hnodes hreads hrace hpre hthreaded' (ht.settled.visits hstart.executed hctxs)
      (hs.visits hstart.executed' (List.append_nil _).symm) (fun c hc c' hc' => ?_) fun w hw => ?_).symm
    · exact hrep.same ht.settled (by rw [hctxs]; exact List.mem_append_left _ hc) hc'
    · exact writers_before hstart hrace ht hs hrep hready
        (ht.settled.decides _ _ hran).mem_nodeIds hab hw
  · rw [heq]
    unfold nodeContext
    simp only [LoopState.enter, hlabel.executionId, hlabel.environment, hstart.executionId,
      hstart.environment, hnodes.jwtToken]

/-- A node gets the fate that it has in the other run. -/
theorem fate_same (hdag : IsDag wf) (hstart : SameStart s₀ s₀') (hnodes : env.SameNodes env')
    (hreads : env.ReadsMappings) (hrace : RaceFree env wf W) (ht : Finished env wf s₀ t)
    (hs : Settled .execute env' wf s₀' s) (hlabel : RunRecord env' wf s₀' s) (hrep : Repeats t s)
    (hready : Ready wf.incoming s.executed nid) {f : Fate}
    (hf : Decides .execute env' wf nid s f)
    (hctx : ∀ ctx result, f = .ran ctx result → ∃ n, wf.nodeMap nid = some n ∧
      ctx = nodeContext env' wf n nid ctx.inputData (s.enter nid)) :
    ∃ g, (nid, g) ∈ fates t.trace ∧ SameFate g f := by
  obtain ⟨g, hg⟩ := ht.decided hstart.executed hf.mem_nodeIds
  have hroute := route_same hstart hnodes ht hs hrep hready
  have hdg := ht.settled.decides nid g hg
  refine ⟨g, hg, ?_⟩
  cases f with
  | skipped =>
      obtain ⟨n, r, -, hr, hskip⟩ := hf
      cases g with
      | skipped => exact .skipped
      | ran ctx result =>
          obtain ⟨n', r', -, hr', hrun, -⟩ := hdg
          rw [hroute, hr'] at hr
          cases hr
          rw [hrun] at hskip
          cases hskip
  | ran ctx' result' =>
      obtain ⟨n, r, -, hr, hrun, -, -, hinput', hres'⟩ := hf
      cases g with
      | skipped =>
          obtain ⟨n', r', -, hr', hskip⟩ := hdg
          rw [hroute, hr'] at hr
          cases hr
          rw [hrun] at hskip
          cases hskip
      | ran ctx result =>
          obtain ⟨n', r', -, hr', -, -, -, hinput, hres⟩ := hdg
          rw [hroute, hr'] at hr
          cases hr
          obtain ⟨m, hm, heq⟩ := hctx ctx' result' rfl
          rw [hinput', ← hinput] at heq
          have hsame := context_same hdag hstart hnodes hreads hrace ht hs hlabel hrep hready hg hm
          rw [← heq] at hsame
          have hresult : result' = result := by
            obtain ⟨v, hv, rfl⟩ := hsame
            rw [hres', hres, hnodes.run, hreads.result hv]
          subst hresult
          exact .ran result' hsame

/-! ## The second run -/

/-- The loop of the second run, in which every node gets the fate of the first one. -/
structure Repeating (env' : RunEnv) (wf : WorkflowDefinition) (t s₀' : LoopState)
    (batch : List NodeId) (s : LoopState) : Prop where
  settled : Settled .execute env' wf s₀' s
  record : RunRecord env' wf s₀' s
  pending : Pending wf batch s
  frontier : AllReadyPending wf batch s
  repeats : Repeats t s

/-- A second run does not reach a step limit that the first one has kept. -/
theorem Repeating.steps_lt (hstart : SameStart s₀ s₀') (ht : Finished env wf s₀ t)
    {batch : List NodeId} (h : Repeating env' wf t s₀' batch s)
    (hready : Ready wf.incoming s.executed nid) {ctx : NodeContext} {result : NodeRun}
    (hran : (nid, .ran ctx result) ∈ fates t.trace) :
    s.stepsExecuted + 1 ≤ env.config.maxNodeSteps := by
  have hid : ctx.nodeId = nid := fates_nodeId hran
  subst hid
  have hnew : ctx.nodeId ∉ (contexts s.trace).map (·.nodeId) := fun hmem =>
    hready.1 ((h.settled.schedule.visited _).mpr (.inr ((contexts_sublist _).subset hmem)))
  have hnodup : (ctx.nodeId :: (contexts s.trace).map (·.nodeId)).Nodup :=
    List.nodup_cons.mpr ⟨hnew, (h.settled.visits hstart.executed' (List.append_nil _).symm).nodup⟩
  have hsub : ctx.nodeId :: (contexts s.trace).map (·.nodeId) ⊆ (contexts t.trace).map (·.nodeId) := by
    intro w hw
    rcases List.mem_cons.mp hw with rfl | hw
    · exact List.mem_map_of_mem (mem_contexts.mpr ⟨result, hran⟩)
    · obtain ⟨c, r, rfl, hr⟩ := h.repeats.ran_first hw
      exact List.mem_map_of_mem (mem_contexts.mpr ⟨r, hr⟩)
  have hlen := (List.subperm_of_subset hnodup hsub).length_le
  simp only [List.length_cons, List.length_map] at hlen
  calc s.stepsExecuted + 1 = (contexts s.trace).length + 1 := by rw [h.record.steps]
    _ ≤ (contexts t.trace).length := hlen
    _ = t.stepsExecuted := ht.record.steps.symm
    _ ≤ env.config.maxNodeSteps := ht.record.limit

/-- No node stops the second run. -/
theorem Repeating.advances (hdag : IsDag wf) (hstart : SameStart s₀ s₀') (hnodes : env.SameNodes env')
    (hundisturbed : env'.Undisturbed) (hreads : env.ReadsMappings) (hrace : RaceFree env wf W)
    (ht : Finished env wf s₀ t) {batch : List NodeId}
    (h : Repeating env' wf t s₀' (nid :: batch) s) (hready : Ready wf.incoming s.executed nid) :
    ∃ s', processNode .execute env' wf nid s = .next s' := by
  by_contra hno
  have hstop := processNode_stop fun s' hs' => hno ⟨s', hs'⟩
  generalize hstep : processNode .execute env' wf nid s = step at hstop
  have hfate : ∀ f, Decides .execute env' wf nid s f →
      fates step.state.trace = fates s.trace ++ [(nid, f)] →
      ∃ g, (nid, g) ∈ fates t.trace ∧ SameFate g f := by
    intro f hf htrace
    refine fate_same hdag hstart hnodes hreads hrace ht h.settled h.record h.repeats hready hf
      fun ctx result heq => ?_
    subst heq
    exact processNode_context (by rw [hstep]; exact htrace)
  cases hstop with
  | cancelled hc => simp [hundisturbed.cancelRequested] at hc
  | missing hn =>
      have hsome := WorkflowDefinition.nodeMap_isSome_iff.mpr (h.pending.batch_mem nid (by simp))
      simp [hn] at hsome
  | badRoute hr =>
      obtain ⟨r, hok⟩ : ∃ r, s.route .execute wf nid = .ok r := route_execute_ok
      rw [hr] at hok
      cases hok
  | expired hseg htime hd => simp [hundisturbed.timeoutDuring] at htime
  | stepLimit hl =>
      obtain ⟨g, hg⟩ := ht.decided hstart.executed (h.pending.batch_mem nid (by simp))
      cases g with
      | ran ctx result =>
          have hle := h.steps_lt hstart ht hready hg
          rw [hnodes.config] at hl
          omega
      | skipped =>
          -- a node that is skipped is not counted
          obtain ⟨n, r, hn, hr, hskip⟩ := ht.settled.decides nid .skipped hg
          rw [← route_same hstart hnodes ht h.settled h.repeats hready] at hr
          unfold LoopState.route at hr
          simp [processNode, hundisturbed.cancelRequested, hn, hr, hskip] at hstep
  | @paused f s' hp =>
      obtain ⟨g, hg, hsame⟩ := hfate f hp.decides hp.fates
      obtain ⟨output, ho, hw⟩ := hp.waiting
      rw [hsame.output] at ho
      rw [ht.unpaused.notWaiting nid g output hg ho] at hw
      cases hw
  | @badOutput f output e s' hd ho hw hst htr =>
      obtain ⟨g, hg, hsame⟩ := hfate f hd (by simp [NodeStep.state, htr, fates_event hd])
      rw [hsame.output] at ho
      rw [ht.unpaused.notWaiting nid g output hg ho] at hw
      rcases hw with hw | ⟨hw, -⟩ <;> cases hw
  | @failed f n s' hd hf hn hhard hexecuted houtputs hsoft hresults htrigger hstatus htr =>
      obtain ⟨label, error, htr⟩ := htr
      obtain ⟨g, hg, hsame⟩ := hfate f hd (by
        rw [NodeStep.state, htr, fates_append, fates_event hd]
        simp [fates, Event.fate?])
      rw [hsame.failed] at hf
      obtain ⟨-, m, hm, hcont⟩ := ht.settled.continues nid g hg hf
      cases hn.symm.trans hm
      simp [hcont] at hhard

theorem Repeating.stepInvariant (hdag : IsDag wf) (hstart : SameStart s₀ s₀')
    (hnodes : env.SameNodes env') (hreads : env.ReadsMappings) (hrace : RaceFree env wf W)
    (ht : Finished env wf s₀ t) :
    StepInvariant .execute env' wf (Repeating env' wf t s₀') where
  collect s batch next h hc := by
    have hfrontier : Invariant .execute env' wf (AllReadyPending wf) := AllReadyPending.invariant
    exact ⟨h.settled.queue next, RunRecord.stepInvariant.collect s batch next h.record hc,
      h.pending.collect hc, hfrontier.collect s batch next h.frontier hc, h.repeats⟩
  next nid batch s s' h hnd hready hs' := by
    obtain ⟨f, ha⟩ := processNode_next hs'
    have hr := hready nid (by simp)
    refine ⟨h.settled.advance hstart.fresh' hr ha,
      RunRecord.stepInvariant.next nid batch s s' h.record hnd hready hs',
      h.pending.advance hdag.edges hnd hready ha,
      AllReadyPending.invariant.advance nid batch f s s' h.frontier hnd hready ha, fun m g hm => ?_⟩
    rw [ha.fates, List.mem_append, List.mem_singleton] at hm
    rcases hm with hm | hm
    · exact h.repeats m g hm
    · obtain ⟨rfl, rfl⟩ := Prod.mk.inj hm
      refine fate_same hdag hstart hnodes hreads hrace ht h.settled h.record h.repeats hr ha.decides
        fun ctx result heq => ?_
      subst heq
      exact processNode_context (by rw [hs']; exact ha.fates)

end

/-! ## All runs -/

section

variable {triggerData : List (String × Value)} {executionId environment : String}

theorem executeStart_same (env env' : RunEnv) (wf : WorkflowDefinition)
    (triggerData : List (String × Value)) (executionId environment : String) :
    SameStart (executeStart env wf triggerData executionId environment)
      (executeStart env' wf triggerData executionId environment) :=
  ⟨executeStart_fresh, executeStart_fresh, rfl, rfl, rfl, rfl, rfl, rfl⟩

/-- A run that leaves the record completed has finished its loop. -/
theorem execute_finished (hdag : IsDag wf) (ho : orphanedNodes wf = [])
    (h : (execute env wf triggerData executionId environment).execution.status = .completed) :
    ∃ t, executeLoop env wf triggerData executionId environment wf.nodeIds.card = .finished t ∧
      Finished env wf (executeStart env wf triggerData executionId environment) t := by
  have hl := execute_status env wf triggerData executionId environment (by rw [h]; simp)
  have hinv : Invariant .execute env wf fun batch s =>
      (Settled .execute env wf (executeStart env wf triggerData executionId environment) s ∧
        Unpaused (executeStart env wf triggerData executionId environment) s) ∧
      AllReadyPending wf batch s :=
    ((Settled.invariant executeStart_fresh).and Unpaused.invariant).and AllReadyPending.invariant
  have hends := runRounds_rule hinv wf.nodeIds.card
    (executeStart env wf triggerData executionId environment)
    ⟨⟨Settled.refl executeStart_fresh, by simp [executeStart_fresh.trace], rfl⟩,
      executeStart_allReadyPending ho⟩
  have hrecordInv : StepInvariant .execute env wf fun _ s =>
      RunRecord env wf (executeStart env wf triggerData executionId environment) s :=
    RunRecord.stepInvariant
  have hlabel := runRounds_stepRule hrecordInv wf.nodeIds.card _ (.start executeStart_fresh rfl)
  rw [← hl] at hends hlabel
  obtain ⟨t, hfin, ⟨⟨hs, hu⟩, hfront⟩, hdone⟩ :=
    hends.of_completed (executeLoop_enough hdag.edges le_rfl) h
  rw [hfin] at hlabel
  refine ⟨t, hfin, hs, hu, hlabel.1, hfront.covers hdag.acyclic hdag.incoming_mem ?_⟩
  simpa using hdone

/-- The second run comes to its end too, and repeats the first one. -/
theorem execute_repeats (hdag : IsDag wf) (ho : orphanedNodes wf = []) (hne : wf.nodes ≠ [])
    (hnodes : env.SameNodes env') (hundisturbed : env'.Undisturbed) (hreads : env.ReadsMappings)
    (hrace : RaceFree env wf W) {t : LoopState}
    (ht : Finished env wf (executeStart env wf triggerData executionId environment) t) :
    ∃ s, executeLoop env' wf triggerData executionId environment wf.nodeIds.card = .finished s ∧
      Settled .execute env' wf (executeStart env' wf triggerData executionId environment) s ∧
      RunRecord env' wf (executeStart env' wf triggerData executionId environment) s ∧
      wf.nodeIds ⊆ s.executed ∧ Repeats t s := by
  have hstart := executeStart_same env env' wf triggerData executionId environment
  have hl : executeLoop env' wf triggerData executionId environment wf.nodeIds.card =
      runRounds .execute env' wf wf.nodeIds.card
        (executeStart env' wf triggerData executionId environment) := by
    have hroots := hdag.startNodes_ne_nil hne ho
    simp [executeLoop, hroots]
  have hinit : Repeating env' wf t (executeStart env' wf triggerData executionId environment) []
      (executeStart env' wf triggerData executionId environment) :=
    ⟨.refl executeStart_fresh, .start executeStart_fresh rfl, executeStart_pending,
      executeStart_allReadyPending ho, fun m f hm => by simp [executeStart_fresh.trace] at hm⟩
  have hends := runRounds_stepRule (Repeating.stepInvariant hdag hstart hnodes hreads hrace ht)
    wf.nodeIds.card _ hinit
  rw [← hl] at hends
  have hnever : ∀ step, (∀ s', step ≠ NodeStep.next s') → ¬ StopsAt .execute env' wf
      (Repeating env' wf t (executeStart env' wf triggerData executionId environment)) step := by
    rintro step hno ⟨nid, batch, s, hs, hready, rfl⟩
    obtain ⟨s', hs'⟩ := hs.advances hdag hstart hnodes hundisturbed hreads hrace ht hready
    exact hno s' hs'
  cases hloop : executeLoop env' wf triggerData executionId environment wf.nodeIds.card with
  | finished s =>
      rw [hloop] at hends
      obtain ⟨hs, hdone⟩ := hends
      exact ⟨s, rfl, hs.settled, hs.record,
        hs.frontier.covers hdag.acyclic hdag.incoming_mem (by simpa using hdone), hs.repeats⟩
  | outOfRounds s => exact absurd hloop (executeLoop_enough hdag.edges le_rfl s)
  | halted s =>
      rw [hloop] at hends
      exact absurd hends (hnever _ (by simp))
  | raised e s =>
      rw [hloop] at hends
      exact absurd hends (hnever _ (by simp))
  | timedOut s =>
      rw [hloop] at hends
      exact absurd hends (hnever _ (by simp))

theorem execute_of_finished {s : LoopState}
    (h : executeLoop env wf triggerData executionId environment wf.nodeIds.card = .finished s) :
    (execute env wf triggerData executionId environment).execution =
      { s.execution with status := .completed, vars := s.vars } := by
  unfold execute
  rw [h]
  exact sweep_execution _

/-- What a race-free workflow computes does not depend on the order in which the set of its roots
is walked: if one run comes to its end, so does every run that nothing disturbs, with the same
result for every node and the same variables. -/
theorem execute_raceFree (hv : validateDag wf = []) (hedges : wf.edges ≠ [])
    (hnodes : env.SameNodes env') (hundisturbed : env'.Undisturbed) (hreads : env.ReadsMappings)
    (hrace : RaceFree env wf W) (triggerData : List (String × Value))
    (executionId environment : String)
    (h : (execute env wf triggerData executionId environment).execution.status = .completed) :
    let e := (execute env wf triggerData executionId environment).execution
    let e' := (execute env' wf triggerData executionId environment).execution
    e'.status = .completed ∧
      (∀ nid, e'.nodeResults.lookup nid = e.nodeResults.lookup nid) ∧
      SameMapping e'.vars e.vars := by
  have hne : wf.nodes ≠ [] := by
    intro hnil
    have hroots : startNodes wf = [] := by
      rw [List.eq_nil_iff_forall_not_mem]
      intro nid hnid
      obtain ⟨n, hn, -⟩ :=
        WorkflowDefinition.mem_nodeIds.mp (mem_rootNodes.mp (mem_startNodes.mp hnid).1).1
      simp [hnil] at hn
    simp [execute, executeLoop, hroots, LoopOutcome.settle, sweep_execution, failWith, LoopState.save,
      LoopState.emit, LoopState.toResult] at h
  have hdag := (validateDag_eq_nil_iff hne).mp hv
  have ho := hdag.orphanedNodes_eq_nil hedges
  have hstart := executeStart_same env env' wf triggerData executionId environment
  obtain ⟨t, hfin, ht⟩ := execute_finished hdag ho h
  obtain ⟨s, hfin', hs, hlabel, hall, hrep⟩ :=
    execute_repeats hdag ho hne hnodes hundisturbed hreads hrace ht
  rw [execute_of_finished hfin, execute_of_finished hfin']
  refine ⟨rfl, fun nid => ?_, ?_⟩
  · show s.execution.nodeResults.lookup nid = t.execution.nodeResults.lookup nid
    by_cases hnid : nid ∈ wf.nodeIds
    · have hdec := ((hs.schedule.visited nid).mp (hall hnid)).resolve_left (by simp [executeStart])
      obtain ⟨f, hf⟩ := mem_decisions.mp hdec
      obtain ⟨g, hg, hsame⟩ := hrep nid f hf
      rw [(hs.recorded nid f hf).result, (ht.settled.recorded nid g hg).result, hnodes.config,
        hsame.result]
    · have hnot : ∀ {env₁ : RunEnv} {s₀ s₁ : LoopState}, Settled .execute env₁ wf s₀ s₁ →
          nid ∉ decisions s₁.trace := by
        intro env₁ s₀ s₁ h₁ hmem
        obtain ⟨f, hf⟩ := mem_decisions.mp hmem
        exact hnid (h₁.decides nid f hf).mem_nodeIds
      rw [hs.results nid (hnot hs), ht.settled.results nid (hnot ht.settled), executeStart_lookup,
        executeStart_lookup]
  · show SameMapping s.vars t.vars
    rw [hlabel.threaded.vars, ht.record.threaded.vars]
    refine (sameVars hdag hnodes hreads hrace ht.record.threaded.threaded hlabel.threaded.threaded
      (ht.settled.visits rfl (List.append_nil _).symm) (hs.visits rfl (List.append_nil _).symm)
      (fun c hc c' hc' => hrep.same ht.settled hc hc') fun w hw => ?_).symm
    constructor
    · intro hmem
      obtain ⟨c, hc, rfl⟩ := List.mem_map.mp hmem
      obtain ⟨r, hr⟩ := mem_contexts.mp hc
      have hnid := (ht.settled.decides _ _ hr).mem_nodeIds
      exact hrep.ran_second ht.settled
        (((hs.schedule.visited _).mp (hall hnid)).resolve_left (by simp [executeStart])) hr
    · intro hmem
      obtain ⟨c, r, rfl, hr⟩ := hrep.ran_first hmem
      exact List.mem_map_of_mem (mem_contexts.mpr ⟨r, hr⟩)

end

/-! ### Two triggers -/

/-- Two triggers, and a node that sums up. -/
def joinFlow : WorkflowDefinition where
  workflowId := "wf"
  nodes := [{ id := "morning", type := .scheduledTrigger }, { id := "evening", type := .scheduledTrigger },
    { id := "sum", type := .setVariable }]
  edges := [{ source := "morning", target := "sum" }, { source := "evening", target := "sum" }]

/-- The last node emits a variable. -/
def joinResults (nid : NodeId) : NodeRun :=
  if nid = "sum" then
    .completed (.dict [("meta", .dict [("variables", .dict [("total", .int 2)])])]) 0 []
  else emptyEnvelope nid

/-- The set of the roots is walked backwards. -/
def backwards : RunEnv :=
  { RunEnv.calm joinResults with setOrder := List.reverse, setOrder_perm := List.reverse_perm }

theorem joinFlow_raceFree : RaceFree (.calm joinResults) joinFlow {"sum"} where
  quiet := by
    intro ctx hctx
    rw [Finset.mem_singleton] at hctx
    have hrun : (joinResults ctx.nodeId).emitted = [] := by
      rw [joinResults, if_neg hctx]
      rfl
    unfold loopVars
    simp only [RunEnv.calm, hrun, ite_self]
    exact .refl _
  ordered := by
    intro w nid hw _ hnid hne
    rw [Finset.mem_singleton] at hw
    subst hw
    refine .inr (.single ?_)
    revert hne
    revert nid
    decide

theorem joinFlow_same_backwards :
    let e := (execute (.calm joinResults) joinFlow [] "ex" "test").execution
    let e' := (execute backwards joinFlow [] "ex" "test").execution
    e'.status = .completed ∧ (∀ nid, e'.nodeResults.lookup nid = e.nodeResults.lookup nid) ∧
      SameMapping e'.vars e.vars := by
  have hnodes : (RunEnv.calm joinResults).SameNodes backwards := ⟨rfl, rfl, rfl⟩
  have hundisturbed : backwards.Undisturbed := ⟨fun _ => rfl, fun _ => rfl⟩
  have hreads : (RunEnv.calm joinResults).ReadsMappings := ⟨fun _ => rfl, fun h => h⟩
  exact execute_raceFree (by decide +kernel) (by decide) hnodes hundisturbed hreads
    joinFlow_raceFree [] "ex" "test" (by decide +kernel)

/-- The two runs have taken the triggers in different orders. -/
example : decisions (execute (.calm joinResults) joinFlow [] "ex" "test").trace =
      ["morning", "evening", "sum"] ∧
    decisions (execute backwards joinFlow [] "ex" "test").trace = ["evening", "morning", "sum"] := by
  decide +kernel

end CitraFlows
