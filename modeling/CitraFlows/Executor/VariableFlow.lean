-- SUMMARY: The workflow variables along a chain of calls: which mapping each node sees, and when a pause loses a part of it.
import Mathlib.Data.List.DropRight
import CitraFlows.Executor.Order
import CitraFlows.Dag

/-!
# Variables across pauses

A node sets variables in the mapping it is given and emits variables in its envelope.
`execute()` merges what is emitted, `resume()` does not; neither shares an empty mapping
with the node; and what was merged before a pause is in the record only if a checkpoint
was written after it. `Carried` says that every node sees what the node before it has
left, as in a run that does not pause. A pause loses what was set or emitted since the last
checkpoint of `execute()`, and nothing else.
-/

namespace CitraFlows

open Worklist

variable {seg : Segment} {env : RunEnv} {wf : WorkflowDefinition} {nid : NodeId}

/-! ## Mappings -/

/-- The mappings are equal as Python compares them. -/
def SameMapping (v w : Variables) : Prop := ∀ name, v.lookup name = w.lookup name

theorem SameMapping.refl (v : Variables) : SameMapping v v := fun _ => rfl

theorem SameMapping.symm {v w : Variables} (h : SameMapping v w) : SameMapping w v :=
  fun name => (h name).symm

theorem SameMapping.trans {u v w : Variables} (h : SameMapping u v) (h' : SameMapping v w) :
    SameMapping u w :=
  fun name => (h name).trans (h' name)

/-- What an update leaves under a name that it has does not depend on the mapping. -/
theorem lookup_updateVariables (v : Variables) (fields : List (String × Value)) (name : String) :
    (updateVariables v fields).lookup name =
      ((updateVariables ∅ fields).lookup name).or (v.lookup name) := by
  induction fields using List.reverseRecOn with
  | nil => simp [updateVariables]
  | append_singleton fields p ih =>
      simp only [updateVariables, List.foldl_append, List.foldl_cons, List.foldl_nil] at ih ⊢
      by_cases h : name = p.1
      · subst h
        simp
      · rw [AList.lookup_insert_ne h, AList.lookup_insert_ne h, ih]

theorem SameMapping.update {v w : Variables} (h : SameMapping v w)
    (fields : List (String × Value)) :
    SameMapping (updateVariables v fields) (updateVariables w fields) := fun name => by
  rw [lookup_updateVariables v, lookup_updateVariables w, h name]

/-- `{**v, **w}` -/
def overlay (v w : Variables) : Variables :=
  updateVariables v (w.entries.map fun p => (p.1, p.2))

private theorem lookup_updateVariables_entries (entries : List (Sigma fun _ : String => Value))
    (h : entries.NodupKeys) (name : String) :
    (updateVariables ∅ (entries.map fun p => (p.1, p.2))).lookup name = entries.dlookup name := by
  induction entries with
  | nil => rfl
  | cons p entries ih =>
      obtain ⟨hp, hrest⟩ := List.nodupKeys_cons.mp h
      show (updateVariables (AList.insert p.1 p.2 ∅) (entries.map fun p => (p.1, p.2))).lookup name = _
      rw [lookup_updateVariables, ih hrest]
      by_cases hname : name = p.1
      · subst hname
        rw [List.dlookup_eq_none.mpr hp, AList.lookup_insert, List.dlookup_cons_eq]
        rfl
      · rw [AList.lookup_insert_ne hname, List.dlookup_cons_ne _ _ hname]
        simp

/-- What the second mapping has counts. -/
theorem lookup_overlay (v w : Variables) (name : String) :
    (overlay v w).lookup name = (w.lookup name).or (v.lookup name) := by
  rw [overlay, lookup_updateVariables, lookup_updateVariables_entries w.entries w.nodupKeys]
  rfl

theorem SameMapping.overlay {v w w' : Variables} (h : SameMapping w w') :
    SameMapping (overlay v w) (overlay v w') := fun name => by
  rw [lookup_overlay, lookup_overlay, h name]

/-! ## What one node does to the mapping -/

/-- The variables a node emits when it ends. -/
def NodeRun.emitted : NodeRun → List (String × Value)
  | .completed output _ _ => emittedVariables output
  | .failed .. | .timeout => []

/-- The mapping with everything the node has set and emitted. -/
def leftBy (env : RunEnv) (ctx : NodeContext) : Variables :=
  updateVariables (env.run ctx).2 (env.run ctx).1.emitted

/-- The mapping the loop goes on with after the node. -/
def loopVars (seg : Segment) (env : RunEnv) (ctx : NodeContext) : Variables :=
  -- `variables or {}` gives an empty mapping a dict of its own, which nobody else sees
  let shared := if ctx.vars.entries.isEmpty then ctx.vars else (env.run ctx).2
  match seg with
  | .execute => updateVariables shared (env.run ctx).1.emitted
  | .resume => shared

/-- Nothing the node sets or emits is lost: in an empty mapping it sets only what it also emits
(`execute()`) or nothing (`resume()`), and in `resume()` what it emits is in its mapping already. -/
def KeepsVars (seg : Segment) (env : RunEnv) (ctx : NodeContext) : Prop :=
  match seg with
  | .execute => ctx.vars.entries.isEmpty = true →
      SameMapping (leftBy env ctx) (updateVariables ∅ (env.run ctx).1.emitted)
  | .resume => SameMapping (leftBy env ctx)
      (if ctx.vars.entries.isEmpty then ∅ else (env.run ctx).2)

private theorem eq_empty_of_isEmpty {v : Variables} (h : v.entries.isEmpty = true) : v = ∅ :=
  AList.ext (List.isEmpty_iff.mp h)

theorem keepsVars_iff {ctx : NodeContext} :
    KeepsVars seg env ctx ↔ SameMapping (loopVars seg env ctx) (leftBy env ctx) := by
  unfold KeepsVars loopVars
  cases seg with
  | execute =>
      by_cases h : ctx.vars.entries.isEmpty = true
      · simp only [h, if_true, forall_true_left]
        rw [eq_empty_of_isEmpty h]
        exact ⟨SameMapping.symm, SameMapping.symm⟩
      · simp only [h, if_false, Bool.false_eq_true, false_implies, true_iff]
        exact SameMapping.refl _
  | resume =>
      by_cases h : ctx.vars.entries.isEmpty = true
      · simp only [h, if_true]
        rw [eq_empty_of_isEmpty h]
        exact ⟨SameMapping.symm, SameMapping.symm⟩
      · simp only [h]
        exact ⟨SameMapping.symm, SameMapping.symm⟩

/-! ## What the nodes of a call see -/

/-- The contexts of the nodes that a trace has run, in order. -/
def contexts (t : List Event) : List NodeContext :=
  t.filterMap fun
    | .run ctx _ => some ctx
    | _ => none

@[simp] theorem contexts_append (t t' : List Event) :
    contexts (t ++ t') = contexts t ++ contexts t' :=
  List.filterMap_append

/-- The mapping after the given nodes have run one after the other in a loop. -/
def loopVarsAfter (seg : Segment) (env : RunEnv) (start : Variables) (ctxs : List NodeContext) :
    Variables :=
  ctxs.foldl (fun _ ctx => loopVars seg env ctx) start

/-- Each node has seen the mapping the loop went on with after the one before it. -/
def Threaded (seg : Segment) (env : RunEnv) : Variables → List NodeContext → Prop
  | _, [] => True
  | v, ctx :: ctxs => ctx.vars = v ∧ Threaded seg env (loopVars seg env ctx) ctxs

theorem threaded_append {v : Variables} {ctxs ctxs' : List NodeContext} :
    Threaded seg env v (ctxs ++ ctxs') ↔
      Threaded seg env v ctxs ∧ Threaded seg env (loopVarsAfter seg env v ctxs) ctxs' := by
  induction ctxs generalizing v with
  | nil => simp [Threaded, loopVarsAfter]
  | cons ctx ctxs ih => simp [Threaded, ih, loopVarsAfter, and_assoc]

@[simp] theorem contexts_emit (s : LoopState) (ev : Event) :
    contexts (s.emit ev).trace = contexts s.trace ++ contexts [ev] := by
  simp [LoopState.emit]

/-- After the node a checkpoint is written: `execute()` goes on, and one is due. -/
def Checkpoints (seg : Segment) (env : RunEnv) (ctx : NodeContext) : Bool :=
  match seg, (env.run ctx).1 with
  | .execute, .completed output _ _ =>
      match waitingApproval output with
      | .ok false => env.checkpointDue ctx.nodeId
      | _ => false
  | _, _ => false

/-- A step in which the node was run: the loop goes on with the mapping, and the record takes it
over at a checkpoint, but not at a pause. -/
structure RanStep (seg : Segment) (env : RunEnv) (s : LoopState) (ctx : NodeContext)
    (step : NodeStep) : Prop where
  ran : contexts step.state.trace = contexts s.trace ++ [ctx]
  next : ∀ s', step = .next s' → s'.vars = loopVars seg env ctx ∧
    s'.execution.vars =
      if Checkpoints seg env ctx then loopVars seg env ctx else s.execution.vars
  pause : ∀ s', step = .halt s' → s'.execution.status = .paused →
    Checkpoints seg env ctx = false ∧ s'.execution.vars = s.execution.vars

/-- A step in which no node was run. -/
structure IdleStep (s : LoopState) (step : NodeStep) : Prop where
  ran : contexts step.state.trace = contexts s.trace
  next : ∀ s', step = .next s' → s'.vars = s.vars ∧ s'.execution.vars = s.execution.vars
  pause : ∀ s', step = .halt s' → s'.execution.status ≠ .paused

variable (seg wf nid) in
/-- After a completed node the loop goes on with the mapping, whatever it does next. -/
private theorem completed_vars {s t : LoopState} {ctx : NodeContext} (n : NodeDefinition)
    {output : Value} {retries : Int} {errors : List String}
    (hrun : (env.run ctx).1 = .completed output retries errors)
    (hvars : t.vars = if ctx.vars.entries.isEmpty then ctx.vars else (env.run ctx).2)
    (hrecord : t.execution.vars = s.execution.vars) (hnid : ctx.nodeId = nid)
    (hctxs : contexts t.trace = contexts s.trace ++ [ctx]) :
    RanStep seg env s ctx (match seg with
      | .execute => completedExecute env wf n nid output t
      | .resume => completedResume wf nid output t) := by
  -- only `execute()` merges what the node has emitted
  have hloop : loopVars seg env ctx = match seg with
      | .execute => updateVariables t.vars (emittedVariables output)
      | .resume => t.vars := by
    unfold loopVars
    rw [hrun, ← hvars]
    rfl
  subst hnid
  cases seg with
  | execute =>
      dsimp only at hloop ⊢
      -- an exception, a pause, or the next node after a checkpoint or without one
      unfold completedExecute
      dsimp only
      split
      next => exact ⟨hctxs, by simp, by simp⟩
      next hwaiting =>
        have hcheck : Checkpoints .execute env ctx = false := by
          simp [Checkpoints, hrun, hwaiting]
        split
        next => exact ⟨hctxs, by simp, by simp⟩
        next =>
          refine ⟨?_, by simp, ?_⟩
          · simpa [NodeStep.state, LoopState.save, LoopState.emit, LoopState.pauseAt, contexts]
              using hctxs
          · rintro s' ⟨⟩ -
            exact ⟨hcheck, hrecord⟩
      next hwaiting =>
        have hcheck : Checkpoints .execute env ctx = env.checkpointDue ctx.nodeId := by
          simp [Checkpoints, hrun, hwaiting]
        split
        next hdue =>
          refine ⟨?_, ?_, by simp⟩
          · simpa [NodeStep.state, LoopState.save, LoopState.emit, LoopState.enqueueChildren,
              contexts] using hctxs
          · rintro s' ⟨⟩
            rw [if_pos (hcheck.trans hdue)]
            exact ⟨hloop.symm, hloop.symm⟩
        next hdue =>
          refine ⟨hctxs, ?_, by simp⟩
          rintro s' ⟨⟩
          rw [if_neg (by rw [hcheck]; exact hdue)]
          exact ⟨hloop.symm, hrecord⟩
  | resume =>
      have hcheck : Checkpoints .resume env ctx = false := by simp [Checkpoints]
      dsimp only at hloop ⊢
      unfold completedResume
      split
      next => exact ⟨hctxs, by simp, by simp⟩
      next =>
        refine ⟨?_, by simp, ?_⟩
        · simpa [NodeStep.state, LoopState.save, LoopState.emit, LoopState.pauseAt, contexts]
            using hctxs
        · rintro s' ⟨⟩ -
          exact ⟨hcheck, hrecord⟩
      next =>
        refine ⟨hctxs, ?_, by simp⟩
        rintro s' ⟨⟩
        rw [if_neg (by simp [hcheck])]
        exact ⟨hloop.symm, hrecord⟩

variable (seg wf nid) in
/-- After a failed node too. -/
private theorem failed_vars {s t : LoopState} {ctx : NodeContext} (n : NodeDefinition)
    {r : NodeExecutionResult} (hrun : (env.run ctx).1.emitted = [])
    (hcheck : Checkpoints seg env ctx = false)
    (hvars : t.vars = if ctx.vars.entries.isEmpty then ctx.vars else (env.run ctx).2)
    (hrecord : t.execution.vars = s.execution.vars)
    (hctxs : contexts t.trace = contexts s.trace ++ [ctx]) :
    RanStep seg env s ctx (failedNode seg wf n nid r t) := by
  have hfast : RanStep seg env s ctx (failFast n nid r t) := by
    refine ⟨?_, by simp [failFast], ?_⟩
    · simpa [failFast, NodeStep.state, LoopState.save, LoopState.emit, contexts] using hctxs
    · rintro s' ⟨⟩ hpaused
      simp [LoopState.save, LoopState.emit] at hpaused
  unfold failedNode
  cases seg with
  | resume => exact hfast
  | execute =>
      dsimp only
      split
      · refine ⟨hctxs, ?_, by simp⟩
        rintro s' ⟨⟩
        rw [if_neg (by simp [hcheck])]
        refine ⟨?_, hrecord⟩
        simp only [LoopState.enqueueChildren, LoopState.markExecuted, loopVars, hrun, ← hvars]
        rfl
      · exact hfast

/-- A node that is run sees the mapping of the loop; other nodes leave it alone. -/
theorem processNode_vars (seg : Segment) (env : RunEnv) (wf : WorkflowDefinition) (nid : NodeId)
    (s : LoopState) :
    IdleStep s (processNode seg env wf nid s) ∨
    ∃ n inputData, wf.nodeMap nid = some n ∧
      RanStep seg env s (nodeContext env wf n nid inputData (s.enter nid))
        (processNode seg env wf nid s) := by
  unfold processNode
  split
  · refine .inl ⟨by simp [NodeStep.state, LoopState.markCancelled, LoopState.save, LoopState.emit,
      contexts], by simp, ?_⟩
    rintro s' ⟨⟩
    simp [LoopState.markCancelled, LoopState.save, LoopState.emit]
  split
  · exact .inl ⟨rfl, by simp, by simp⟩
  rename_i n hn
  split
  · exact .inl ⟨rfl, by simp, by simp⟩
  split
  · refine .inl ⟨by simp [NodeStep.state, LoopState.recordSkip, LoopState.emit,
      LoopState.enqueueChildren, LoopState.markExecuted, LoopState.setResult, LoopState.enter,
      contexts], ?_, by simp⟩
    rintro s' ⟨⟩
    exact ⟨rfl, rfl⟩
  rename_i r _ _
  rw [NodeType.getNode_eq_true]
  simp only [Bool.not_true, Bool.false_eq_true, if_false]
  unfold runNode
  split
  · exact .inl ⟨rfl, by simp, by simp⟩
  -- the node is run: the rest depends on how the run ends
  refine .inr ⟨n, r.inputData, hn, ?_⟩
  dsimp only
  have hctxs : contexts ((s.enter nid).afterRun env
      (nodeContext env wf n nid r.inputData (s.enter nid))).trace =
        contexts s.trace ++ [nodeContext env wf n nid r.inputData (s.enter nid)] := by
    rw [LoopState.afterRun, contexts_emit]
    rfl
  split
  · exact ⟨hctxs, by simp, by simp⟩
  split
  · rename_i output retries errors hrun
    cases seg with
    | execute => exact completed_vars .execute wf nid n hrun rfl rfl rfl hctxs
    | resume => exact completed_vars .resume wf nid n hrun rfl rfl rfl hctxs
  all_goals
    rename_i hrun
    exact failed_vars seg wf nid n (by rw [hrun]; rfl) (by simp [Checkpoints, hrun]) rfl rfl hctxs

/-! ## Loops and calls -/

/-- The variables in the record after the given nodes have run one after the other in a loop. -/
def recordVars (seg : Segment) (env : RunEnv) (start : Variables) (ctxs : List NodeContext) :
    Variables :=
  ctxs.foldl (fun v ctx => if Checkpoints seg env ctx then loopVars seg env ctx else v) start

@[simp] theorem recordVars_concat (start : Variables) (ctxs : List NodeContext) (ctx : NodeContext) :
    recordVars seg env start (ctxs ++ [ctx]) =
      if Checkpoints seg env ctx then loopVars seg env ctx else recordVars seg env start ctxs := by
  simp [recordVars, List.foldl_append]

/-- The nodes run so far are threaded, the loop goes on with what the last one left, and the record
has what the last checkpoint saved. -/
structure ThreadedLoop (seg : Segment) (env : RunEnv) (start record : Variables) (s : LoopState) :
    Prop where
  threaded : Threaded seg env start (contexts s.trace)
  vars : s.vars = loopVarsAfter seg env start (contexts s.trace)
  record : s.execution.vars = recordVars seg env record (contexts s.trace)

/-- What a step adds to the trace is threaded. -/
theorem ThreadedLoop.step {start record : Variables} {s : LoopState}
    (h : ThreadedLoop seg env start record s) :
    Threaded seg env start (contexts (processNode seg env wf nid s).state.trace) ∧
      ∀ s', processNode seg env wf nid s = .next s' → ThreadedLoop seg env start record s' := by
  -- a node that is not run leaves the mapping; one that is run has seen the mapping of the loop
  rcases processNode_vars seg env wf nid s with hidle | ⟨n, inputData, -, hran⟩
  · rw [hidle.ran]
    refine ⟨h.threaded, fun s' hs' => ?_⟩
    have ht := hidle.ran
    rw [hs', NodeStep.state] at ht
    obtain ⟨hvars, hrecord⟩ := hidle.next s' hs'
    exact ⟨by rw [ht]; exact h.threaded, by rw [hvars, ht, h.vars], by rw [hrecord, ht, h.record]⟩
  · have hthreaded : Threaded seg env start (contexts s.trace ++
        [nodeContext env wf n nid inputData (s.enter nid)]) :=
      threaded_append.mpr ⟨h.threaded, h.vars, trivial⟩
    rw [hran.ran]
    refine ⟨hthreaded, fun s' hs' => ?_⟩
    have ht := hran.ran
    rw [hs', NodeStep.state] at ht
    obtain ⟨hvars, hrecord⟩ := hran.next s' hs'
    refine ⟨by rw [ht]; exact hthreaded, ?_, ?_⟩
    · rw [hvars, ht, loopVarsAfter, List.foldl_append]
      rfl
    · rw [hrecord, ht, recordVars_concat, h.record]

/-- A step that pauses: the node was run, and the record has what the last checkpoint before it
saved. -/
theorem ThreadedLoop.pause {start record : Variables} {s s' : LoopState}
    (h : ThreadedLoop seg env start record s) (hs' : processNode seg env wf nid s = .halt s')
    (hpaused : s'.execution.status = .paused) :
    ∃ before ctx, contexts s'.trace = before ++ [ctx] ∧ Checkpoints seg env ctx = false ∧
      s'.execution.vars = recordVars seg env record before := by
  rcases processNode_vars seg env wf nid s with hidle | ⟨n, inputData, -, hran⟩
  · exact absurd hpaused (hidle.pause s' hs')
  · have ht := hran.ran
    rw [hs', NodeStep.state] at ht
    obtain ⟨hcheck, hrecord⟩ := hran.pause s' hs' hpaused
    exact ⟨_, _, ht, hcheck, hrecord.trans h.record⟩

variable (seg env wf) in
/-- What holds of the contexts before each step of a loop, and after it, holds of those of the
whole loop. -/
theorem runRounds_contexts {I : LoopState → Prop} {P : List NodeContext → Prop}
    (hstep : ∀ nid s, I s → P (contexts (processNode seg env wf nid s).state.trace) ∧
      ∀ s', processNode seg env wf nid s = .next s' → I s')
    (hcollect : ∀ s next, I s → I { s with nextQueue := next })
    (hcontexts : ∀ s, I s → P (contexts s.trace)) {s₀ : LoopState} (h₀ : I s₀) (rounds : Nat) :
    P (contexts (runRounds seg env wf rounds s₀).state.trace) := by
  have hI : StepInvariant seg env wf fun _ s => I s :=
    ⟨fun s _ next h _ => hcollect s next h, fun nid _ s s' h _ _ hs' => (hstep nid s h).2 s' hs'⟩
  have hends : EndsAt seg env wf (fun _ s => I s) (runRounds seg env wf rounds s₀) :=
    runRounds_stepRule hI rounds s₀ h₀
  generalize runRounds seg env wf rounds s₀ = o at hends
  have hstop : ∀ step, StopsAt seg env wf (fun _ s => I s) step →
      P (contexts step.state.trace) := by
    rintro step ⟨nid, batch, s, hs, -, rfl⟩
    exact (hstep nid s hs).1
  cases o with
  | finished s => exact hcontexts s hends.1
  | outOfRounds s => exact hcontexts s hends.1
  | halted s => exact hstop _ hends
  | raised e s => exact hstop _ hends
  | timedOut s => exact hstop _ hends

theorem runRounds_threaded {s₀ : LoopState} (h₀ : s₀.trace = []) (rounds : Nat) :
    Threaded seg env s₀.vars (contexts (runRounds seg env wf rounds s₀).state.trace) := by
  have hstart : ThreadedLoop seg env s₀.vars s₀.execution.vars s₀ := by
    constructor <;> rw [h₀] <;> trivial
  exact runRounds_contexts seg env wf (fun _ _ h => h.step)
    (fun _ _ h => ⟨h.threaded, h.vars, h.record⟩) (fun _ h => h.threaded) hstart rounds

/-- A loop that leaves the record paused: its last node asks for the approval, and the record has
what the last checkpoint before it saved. -/
theorem runRounds_paused {s₀ : LoopState} (h₀ : s₀.trace = []) (hrunning : s₀.execution.status ≠ .paused)
    {config : Config} {rounds : Nat}
    (hpaused : ((runRounds seg env wf rounds s₀).settle config).execution.status = .paused) :
    ∃ before ctx, contexts (runRounds seg env wf rounds s₀).state.trace = before ++ [ctx] ∧
      Checkpoints seg env ctx = false ∧
        ((runRounds seg env wf rounds s₀).settle config).execution.vars =
          recordVars seg env s₀.execution.vars before ∧
        ((runRounds seg env wf rounds s₀).settle config).execution.triggerData =
          s₀.execution.triggerData := by
  let I : LoopAssertion := fun _ s =>
    ThreadedLoop seg env s₀.vars s₀.execution.vars s ∧ s.execution.status = s₀.execution.status ∧
      s.execution.triggerData = s₀.execution.triggerData
  have hI : StepInvariant seg env wf I := by
    refine ⟨fun s _ _ h _ => ⟨⟨h.1.threaded, h.1.vars, h.1.record⟩, h.2⟩, ?_⟩
    intro nid _ s s' h _ _ hs'
    obtain ⟨f, hadvance⟩ := processNode_next hs'
    exact ⟨h.1.step.2 s' hs', hadvance.status.trans h.2.1, hadvance.triggerData.trans h.2.2⟩
  have hstart : I [] s₀ := ⟨by constructor <;> rw [h₀] <;> trivial, rfl, rfl⟩
  have hends : EndsAt seg env wf I (runRounds seg env wf rounds s₀) :=
    runRounds_stepRule hI rounds s₀ hstart
  generalize runRounds seg env wf rounds s₀ = o at hends hpaused ⊢
  cases o with
  | finished s =>
      simp [LoopOutcome.settle, sweep_execution, complete, LoopState.save, LoopState.emit] at hpaused
  | outOfRounds s => exact absurd (hends.1.2.1.symm.trans hpaused) hrunning
  | raised e s =>
      simp [LoopOutcome.settle, sweep_execution, failWith, LoopState.save, LoopState.emit] at hpaused
  | timedOut s => simp [LoopOutcome.settle, expire, LoopState.save, LoopState.emit] at hpaused
  | halted s' =>
      rw [settle_halted] at hpaused ⊢
      obtain ⟨nid, batch, s, hs, -, hstop⟩ := hends
      obtain ⟨before, ctx, hctxs, hcheck, hrecord⟩ := hs.1.pause hstop hpaused
      refine ⟨before, ctx, hctxs, hcheck, hrecord, ?_⟩
      -- what stops here and leaves the record paused is a pause
      have hstops : Stops seg env wf nid s (.halt s') := by
        rw [← hstop]
        exact processNode_stop (by simp [hstop])
      cases hstops with
      | cancelled => simp [LoopState.markCancelled, LoopState.save, LoopState.emit] at hpaused
      | paused h => exact h.triggerData.trans hs.2.2
      | failed _ _ _ _ _ _ _ _ htrigger _ _ => exact htrigger.trans hs.2.2

/-- The context is that of a node of the workflow. -/
def NodeContext.OfWorkflow (env : RunEnv) (wf : WorkflowDefinition) (ctx : NodeContext) : Prop :=
  ∃ n inputData s, wf.nodeMap ctx.nodeId = some n ∧
    ctx = nodeContext env wf n ctx.nodeId inputData s

/-- A loop hands its nodes no other contexts. -/
theorem runRounds_ofWorkflow {s₀ : LoopState} (h₀ : s₀.trace = []) (rounds : Nat) :
    ∀ ctx ∈ contexts (runRounds seg env wf rounds s₀).state.trace, ctx.OfWorkflow env wf := by
  refine runRounds_contexts seg env wf (I := fun s => ∀ ctx ∈ contexts s.trace, ctx.OfWorkflow env wf)
    (P := fun ctxs => ∀ ctx ∈ ctxs, ctx.OfWorkflow env wf) ?_ (fun _ _ h => h) (fun _ h => h) ?_ rounds
  · intro nid s h
    have hadded : ∀ ctx ∈ contexts (processNode seg env wf nid s).state.trace,
        ctx.OfWorkflow env wf := by
      rcases processNode_vars seg env wf nid s with hidle | ⟨n, inputData, hn, hran⟩
      · rw [hidle.ran]
        exact h
      · intro ctx hctx
        rw [hran.ran, List.mem_append, List.mem_singleton] at hctx
        rcases hctx with hctx | rfl
        · exact h ctx hctx
        · exact ⟨n, inputData, s.enter nid, hn, rfl⟩
    refine ⟨hadded, ?_⟩
    intro s' hs'
    rw [hs'] at hadded
    exact hadded
  · rw [h₀]
    intro ctx hctx
    cases hctx

theorem contexts_sweep (s : LoopState) :
    contexts (sweepBlobsIfTerminal s).trace = contexts s.trace := by
  unfold sweepBlobsIfTerminal
  split
  · exact (contexts_emit s _).trans (List.append_nil _)
  · rfl

theorem contexts_save (s : LoopState) : contexts s.save.trace = contexts s.trace :=
  (contexts_emit s _).trans (List.append_nil _)

theorem settle_contexts {config : Config} (o : LoopOutcome) :
    contexts (o.settle config).trace = contexts o.state.trace := by
  cases o with
  | finished s => exact (contexts_sweep _).trans (contexts_save _)
  | halted s => exact contexts_sweep s
  | raised e s => exact (contexts_sweep _).trans (contexts_save _)
  | timedOut s =>
      rw [LoopOutcome.settle, expire, contexts_emit]
      exact (List.append_nil _).trans ((contexts_save _).trans (contexts_sweep s))
  | outOfRounds s => rfl

theorem execute_contexts (env : RunEnv) (wf : WorkflowDefinition)
    (triggerData : List (String × Value)) (executionId environment : String)
    {P : List NodeContext → Prop} (hnil : P [])
    (hloop : P (contexts (runRounds .execute env wf wf.nodeIds.card
      (executeStart env wf triggerData executionId environment)).state.trace)) :
    P (contexts (execute env wf triggerData executionId environment).trace) := by
  have hc : contexts (execute env wf triggerData executionId environment).trace =
      contexts (executeLoop env wf triggerData executionId environment
        wf.nodeIds.card).state.trace := settle_contexts _
  rw [hc]
  rcases executeLoop_cases env wf triggerData executionId environment wf.nodeIds.card with
    hl | ⟨err, hl⟩
  · rw [hl]
    exact hloop
  · rw [hl]
    exact hnil

theorem execute_threaded (env : RunEnv) (wf : WorkflowDefinition)
    (triggerData : List (String × Value)) (executionId environment : String) :
    Threaded .execute env (updateVariables wf.vars triggerData)
      (contexts (execute env wf triggerData executionId environment).trace) :=
  execute_contexts env wf triggerData executionId environment trivial
    (runRounds_threaded executeStart_fresh.trace _)

theorem execute_ofWorkflow (env : RunEnv) (wf : WorkflowDefinition)
    (triggerData : List (String × Value)) (executionId environment : String) :
    ∀ ctx ∈ contexts (execute env wf triggerData executionId environment).trace,
      ctx.OfWorkflow env wf :=
  execute_contexts env wf triggerData executionId environment
    (P := fun ctxs => ∀ ctx ∈ ctxs, ctx.OfWorkflow env wf) (List.forall_mem_nil _)
    (runRounds_ofWorkflow executeStart_fresh.trace _)

theorem resume_threaded {e : WorkflowExecution} {c : CallResult}
    (hc : resume env wf e true = .ok c) :
    Threaded .resume env (resumeStart wf e).vars (contexts c.trace) := by
  obtain ⟨-, rfl⟩ := resume_approved hc
  rw [LoopState.toResult, settle_contexts]
  exact runRounds_threaded resumeStart_fresh.trace _

/-! ## Chains of calls -/

/-- A node that was run, and the world it ran in. -/
abbrev Ran := RunEnv × NodeContext

/-- A call of a chain: the mapping its loop started with, and the nodes it has run. -/
structure VarCall where
  segment : Segment
  env : RunEnv
  start : Variables
  contexts : List NodeContext

def VarCall.ran (c : VarCall) : List Ran := c.contexts.map (c.env, ·)

/-- The calls of a chain that pauses and is resumed any number of times, and the record the
last one leaves. -/
inductive VarChain (wf : WorkflowDefinition) (triggerData : List (String × Value)) :
    List VarCall → WorkflowExecution → Prop where
  | execute (env : RunEnv) (executionId environment : String) :
      VarChain wf triggerData
        [⟨.execute, env, updateVariables wf.vars triggerData,
          contexts (execute env wf triggerData executionId environment).trace⟩]
        (execute env wf triggerData executionId environment).execution
  | resume {cs : List VarCall} {e : WorkflowExecution} (h : VarChain wf triggerData cs e)
      (hp : e.status = .paused) (env : RunEnv) (status : ExecutionStatus) {c : CallResult}
      (hc : resume env wf { e with status := status } true = .ok c) :
      VarChain wf triggerData (cs ++ [⟨.resume, env, (resumeStart wf e).vars, contexts c.trace⟩])
        c.execution

/-- Each node sees the mapping the node before it has left, the first one the given mapping. -/
def Carried : Variables → List Ran → Prop
  | _, [] => True
  | v, (env, ctx) :: ran => SameMapping ctx.vars v ∧ Carried (leftBy env ctx) ran

/-- The mapping the last node has left. -/
def leftByAll (v : Variables) (ran : List Ran) : Variables :=
  ran.foldl (fun _ r => leftBy r.1 r.2) v

/-- Each node but the last keeps the variables. -/
def KeepsAllVars (seg : Segment) (env : RunEnv) : List NodeContext → Prop
  | [] | [_] => True
  | ctx :: ctx' :: ctxs => KeepsVars seg env ctx ∧ KeepsAllVars seg env (ctx' :: ctxs)

/-- The mapping that the last node has left after which a checkpoint of the call was written. -/
def VarCall.saved (c : VarCall) : Variables :=
  c.contexts.foldl
    (fun v ctx => if Checkpoints c.segment c.env ctx then leftBy c.env ctx else v) ∅

/-- The nodes of the call that no checkpoint has come after. -/
def VarCall.unsaved (c : VarCall) : List Ran :=
  (c.contexts.rtakeWhile fun ctx => !Checkpoints c.segment c.env ctx).map (c.env, ·)

/-- Each node of a call but the last keeps the variables; and where a call is resumed that runs a
node, what the nodes before it have left is what the last checkpoint of the first call has saved,
on top of the variables that the run has begun with. -/
def CallsKeepVars (v : Variables) : List VarCall → Prop
  | [] => True
  | first :: resumed =>
      (∀ c ∈ first :: resumed, KeepsAllVars c.segment c.env c.contexts) ∧
        ∀ before c after, resumed = before ++ c :: after → c.contexts ≠ [] →
          SameMapping (leftByAll v ((first :: before).flatMap VarCall.ran)) (overlay v first.saved)

/-- The node sets and emits nothing new. -/
def AddsNothing (r : Ran) : Prop := SameMapping (leftBy r.1 r.2) r.2.vars

/-- The node removes no variable. -/
def KeepsNames (r : Ran) : Prop :=
  ∀ name, (r.2.vars.lookup name).isSome = true → ((leftBy r.1 r.2).lookup name).isSome = true

/-- Each node of a call but the last keeps the variables, no node of the first call removes one, and
where a call is resumed that runs a node, no node has set or emitted anything new since the last
checkpoint. -/
def PausesSaved : List VarCall → Prop
  | [] => True
  | first :: resumed =>
      (∀ c ∈ first :: resumed, KeepsAllVars c.segment c.env c.contexts) ∧
        (∀ r ∈ first.ran, KeepsNames r) ∧
          ∀ before c after, resumed = before ++ c :: after → c.contexts ≠ [] →
            ∀ r ∈ (first :: before).flatMap VarCall.unsaved, AddsNothing r

/-- Each call that runs a node starts with the mapping that the nodes before it have left, and
each node of the call but the last keeps the variables. -/
def StartsKeepVars : Variables → List VarCall → Prop
  | _, [] => True
  | v, c :: cs => (c.contexts ≠ [] → SameMapping c.start v) ∧
      KeepsAllVars c.segment c.env c.contexts ∧ StartsKeepVars (leftByAll v c.ran) cs

theorem leftByAll_append (v : Variables) (ran ran' : List Ran) :
    leftByAll v (ran ++ ran') = leftByAll (leftByAll v ran) ran' :=
  List.foldl_append

theorem carried_append {v : Variables} {ran ran' : List Ran} :
    Carried v (ran ++ ran') ↔ Carried v ran ∧ Carried (leftByAll v ran) ran' := by
  induction ran generalizing v with
  | nil => simp [Carried, leftByAll]
  | cons r ran ih => simp [Carried, ih, leftByAll, and_assoc]

/-- In one call the mapping is carried along exactly if it starts right and no node loses
anything. -/
theorem Threaded.carried_iff_keepsVars {start v : Variables} {ctxs : List NodeContext}
    (h : Threaded seg env start ctxs) :
    Carried v (ctxs.map (env, ·)) ↔
      (ctxs ≠ [] → SameMapping start v) ∧ KeepsAllVars seg env ctxs := by
  induction ctxs generalizing start v with
  | nil => simp [Carried, KeepsAllVars]
  | cons ctx ctxs ih =>
      obtain ⟨rfl, hrest⟩ := h
      rw [List.map_cons, Carried, ih hrest]
      cases ctxs with
      | nil => simp [KeepsAllVars]
      | cons ctx' ctxs =>
          simp only [ne_eq, reduceCtorEq, not_false_eq_true, forall_true_left, KeepsAllVars,
            keepsVars_iff]

theorem VarChain.threaded {triggerData : List (String × Value)} {cs : List VarCall}
    {e : WorkflowExecution} (h : VarChain wf triggerData cs e) :
    ∀ c ∈ cs, Threaded c.segment c.env c.start c.contexts := by
  induction h with
  | execute env executionId environment =>
      rintro c hc
      cases List.mem_singleton.mp hc
      exact execute_threaded env wf triggerData executionId environment
  | resume h hp env status hc ih =>
      rintro c hmem
      rcases List.mem_append.mp hmem with hmem | hmem
      · exact ih c hmem
      · cases List.mem_singleton.mp hmem
        have hthreaded := resume_threaded hc
        exact hthreaded

theorem carried_iff_startsKeepVars {v : Variables} {cs : List VarCall}
    (h : ∀ c ∈ cs, Threaded c.segment c.env c.start c.contexts) :
    Carried v (cs.flatMap VarCall.ran) ↔ StartsKeepVars v cs := by
  induction cs generalizing v with
  | nil => simp [Carried, StartsKeepVars]
  | cons c cs ih =>
      rw [List.flatMap_cons, carried_append, ih fun c' hc' => h c' (List.mem_cons_of_mem _ hc'),
        StartsKeepVars, VarCall.ran, (h c List.mem_cons_self).carried_iff_keepsVars, and_assoc]

/-- The same, call by call. -/
theorem startsKeepVars_iff {v : Variables} {cs : List VarCall} :
    StartsKeepVars v cs ↔ (∀ c ∈ cs, KeepsAllVars c.segment c.env c.contexts) ∧
      ∀ before c after, cs = before ++ c :: after → c.contexts ≠ [] →
        SameMapping c.start (leftByAll v (before.flatMap VarCall.ran)) := by
  induction cs generalizing v with
  | nil => simp [StartsKeepVars]
  | cons c cs ih =>
      rw [StartsKeepVars, ih]
      constructor
      · rintro ⟨hstart, hkeeps, hall, hstarts⟩
        refine ⟨List.forall_mem_cons.mpr ⟨hkeeps, hall⟩, fun before c' after heq hne => ?_⟩
        cases before with
        | nil =>
            obtain ⟨rfl, -⟩ := List.cons.inj heq
            exact hstart hne
        | cons c₁ before =>
            obtain ⟨rfl, hrest⟩ := List.cons.inj heq
            rw [List.flatMap_cons, leftByAll_append]
            exact hstarts before c' after hrest hne
      · rintro ⟨hall, hstarts⟩
        refine ⟨fun hne => hstarts [] c cs rfl hne, hall c List.mem_cons_self,
          fun c' hc' => hall c' (List.mem_cons_of_mem c hc'), fun before c' after heq hne => ?_⟩
        have hmapping := hstarts (c :: before) c' after (congrArg (c :: ·) heq) hne
        rwa [List.flatMap_cons, leftByAll_append] at hmapping

/-! ## What a checkpoint saves -/

/-- The call has ended with a node after which no checkpoint is written. -/
def VarCall.PausedCall (c : VarCall) : Prop :=
  ∃ before ctx, c.contexts = before ++ [ctx] ∧ Checkpoints c.segment c.env ctx = false

theorem keepsAllVars_concat {ctxs : List NodeContext} {ctx : NodeContext} :
    KeepsAllVars seg env (ctxs ++ [ctx]) ↔ ∀ c ∈ ctxs, KeepsVars seg env c := by
  induction ctxs with
  | nil => simp [KeepsAllVars]
  | cons c ctxs ih =>
      rw [List.forall_mem_cons, ← ih]
      cases ctxs with
      | nil => simp [KeepsAllVars]
      | cons c' ctxs => rfl

/-- `resume()` writes no checkpoint. -/
theorem recordVars_resume (start : Variables) (ctxs : List NodeContext) :
    recordVars .resume env start ctxs = start := by
  induction ctxs using List.reverseRecOn with
  | nil => rfl
  | append_singleton ctxs ctx ih =>
      rw [recordVars_concat, if_neg (by simp [Checkpoints]), ih]

/-- If no node loses a variable, a checkpoint saves what the node before it has left. -/
theorem recordVars_saved {ctxs : List NodeContext} (h : ∀ ctx ∈ ctxs, KeepsVars seg env ctx) :
    SameMapping (recordVars seg env ∅ ctxs)
      (ctxs.foldl (fun v ctx => if Checkpoints seg env ctx then leftBy env ctx else v) ∅) := by
  induction ctxs using List.reverseRecOn with
  | nil => exact SameMapping.refl _
  | append_singleton ctxs ctx ih =>
      rw [recordVars_concat, List.foldl_append]
      simp only [List.foldl_cons, List.foldl_nil]
      split
      · exact keepsVars_iff.mp (h ctx (by simp))
      · exact ih fun c hc => h c (by simp [hc])

/-- The variables in the record of a call that has paused. -/
theorem VarCall.PausedCall.saved {c : VarCall} (h : c.PausedCall)
    (hkeeps : KeepsAllVars c.segment c.env c.contexts) :
    SameMapping (recordVars c.segment c.env ∅ c.contexts) c.saved := by
  obtain ⟨before, ctx, hctxs, hcheck⟩ := h
  rw [hctxs, keepsAllVars_concat] at hkeeps
  rw [VarCall.saved, hctxs, recordVars_concat, if_neg (by simp [hcheck]), List.foldl_append]
  simpa [hcheck] using recordVars_saved hkeeps

/-- How the calls of a chain start: the first one with the variables of the workflow and the trigger
data, and every other one with what the last checkpoint of the first one has saved on top of them. -/
structure VarChain.Starts (wf : WorkflowDefinition) (triggerData : List (String × Value))
    (e : WorkflowExecution) (first : VarCall) (resumed : List VarCall) : Prop where
  firstStart : first.start = updateVariables wf.vars triggerData
  resumedStart : ∀ c ∈ resumed, c.start = overlay (updateVariables wf.vars triggerData)
    (recordVars first.segment first.env ∅ first.contexts)
  segment : ∀ c ∈ resumed, c.segment = .resume
  pauses : resumed ≠ [] → first.PausedCall
  paused : e.status = .paused → first.PausedCall ∧ e.triggerData = triggerData ∧
    e.vars = recordVars first.segment first.env ∅ first.contexts

theorem execute_recordVars {triggerData : List (String × Value)} {executionId environment : String}
    (hpaused : (execute env wf triggerData executionId environment).execution.status = .paused) :
    ∃ before ctx,
      contexts (execute env wf triggerData executionId environment).trace = before ++ [ctx] ∧
        Checkpoints .execute env ctx = false ∧
          (execute env wf triggerData executionId environment).execution.vars =
            recordVars .execute env ∅ before ∧
          (execute env wf triggerData executionId environment).execution.triggerData =
            triggerData := by
  have hloop := execute_status env wf triggerData executionId environment (by simp [hpaused])
  have hctxs : contexts (execute env wf triggerData executionId environment).trace =
      contexts (executeLoop env wf triggerData executionId environment
        wf.nodeIds.card).state.trace := settle_contexts _
  rw [hctxs]
  unfold execute LoopState.toResult at hpaused ⊢
  rw [hloop] at hpaused ⊢
  exact runRounds_paused executeStart_fresh.trace (by simp [executeStart, newExecution]) hpaused

theorem resume_recordVars {e : WorkflowExecution} {c : CallResult}
    (hc : resume env wf e true = .ok c) (hpaused : c.execution.status = .paused) :
    c.execution.vars = e.vars ∧ c.execution.triggerData = e.triggerData := by
  obtain ⟨-, rfl⟩ := resume_approved hc
  obtain ⟨before, -, -, -, hvars, htrigger⟩ :=
    runRounds_paused resumeStart_fresh.trace (by simp [resumeStart]) hpaused
  rw [recordVars_resume] at hvars
  exact ⟨hvars, htrigger⟩

theorem VarChain.starts {triggerData : List (String × Value)} {cs : List VarCall}
    {e : WorkflowExecution} (h : VarChain wf triggerData cs e) :
    ∃ first resumed, cs = first :: resumed ∧ VarChain.Starts wf triggerData e first resumed := by
  induction h with
  | execute env executionId environment =>
      refine ⟨_, [], rfl, rfl, by simp, by simp, by simp, fun hpaused => ?_⟩
      obtain ⟨before, ctx, hctxs, hcheck, hvars, htrigger⟩ := execute_recordVars hpaused
      refine ⟨⟨before, ctx, hctxs, hcheck⟩, htrigger, ?_⟩
      rw [hvars]
      dsimp only
      rw [hctxs, recordVars_concat, if_neg (by simp [hcheck])]
  | @resume cs e h hp env status c hc ih =>
      obtain ⟨first, resumed, rfl, hstarts⟩ := ih
      obtain ⟨hfirst, htrigger, hvars⟩ := hstarts.paused hp
      refine ⟨first, resumed ++ [_], rfl, hstarts.firstStart, fun c' hc' => ?_, fun c' hc' => ?_,
        fun _ => hfirst, fun hpaused => ⟨hfirst, ?_⟩⟩
      · rcases List.mem_append.mp hc' with hc' | hc'
        · exact hstarts.resumedStart c' hc'
        · cases List.mem_singleton.mp hc'
          rw [← htrigger, ← hvars]
          rfl
      · rcases List.mem_append.mp hc' with hc' | hc'
        · exact hstarts.segment c' hc'
        · cases List.mem_singleton.mp hc'
          rfl
      · obtain ⟨hvars', htrigger'⟩ := resume_recordVars hc hpaused
        exact ⟨htrigger'.trans htrigger, hvars'.trans hvars⟩

section Starts

variable {triggerData : List (String × Value)} {e : WorkflowExecution} {first : VarCall}
  {resumed : List VarCall}

/-- A resumed call starts with what the checkpoint has saved, if no node loses a variable. -/
theorem VarChain.Starts.saved (h : VarChain.Starts wf triggerData e first resumed)
    (hkeeps : KeepsAllVars first.segment first.env first.contexts) {c : VarCall}
    (hc : c ∈ resumed) :
    SameMapping c.start (overlay (updateVariables wf.vars triggerData) first.saved) := by
  rw [h.resumedStart c hc]
  exact ((h.pauses (List.ne_nil_of_mem hc)).saved hkeeps).overlay

theorem VarChain.Starts.keepsVars_iff (h : VarChain.Starts wf triggerData e first resumed) :
    StartsKeepVars (updateVariables wf.vars triggerData) (first :: resumed) ↔
      CallsKeepVars (updateVariables wf.vars triggerData) (first :: resumed) := by
  rw [startsKeepVars_iff, CallsKeepVars]
  refine and_congr_right fun hkeeps => ?_
  have hsaved : ∀ c ∈ resumed, _ := fun c hc => h.saved (hkeeps first List.mem_cons_self) hc
  constructor
  · intro hstarts before c after heq hne
    have hstart := hstarts (first :: before) c after (congrArg (first :: ·) heq) hne
    exact hstart.symm.trans (hsaved c (by simp [heq]))
  · intro hcalls before c after heq hne
    cases before with
    | nil =>
        obtain ⟨rfl, -⟩ := List.cons.inj heq
        rw [h.firstStart]
        exact SameMapping.refl _
    | cons c₁ before =>
        obtain ⟨rfl, hrest⟩ := List.cons.inj heq
        exact (hsaved c (by simp [hrest])).trans (hcalls before c after hrest hne).symm

end Starts

/-! ## Nothing new since the checkpoint -/

theorem VarCall.unsaved_resume {c : VarCall} (h : c.segment = .resume) : c.unsaved = c.ran := by
  rw [VarCall.unsaved, VarCall.ran, List.rtakeWhile_eq_self_iff.mpr]
  simp [h, Checkpoints]

/-- Nodes that add nothing leave the mapping as it was. -/
theorem Carried.addsNothing {v : Variables} {ran : List Ran} (h : Carried v ran)
    (hnothing : ∀ r ∈ ran, AddsNothing r) : SameMapping (leftByAll v ran) v := by
  induction ran generalizing v with
  | nil => exact SameMapping.refl _
  | cons r ran ih =>
      obtain ⟨hsees, hrest⟩ := h
      have hleft := ih hrest fun r' hr' => hnothing r' (List.mem_cons_of_mem r hr')
      exact hleft.trans ((hnothing r List.mem_cons_self).trans hsees)

/-- Nodes that remove no variable. -/
theorem Carried.keepsNames {v : Variables} {ran : List Ran} (h : Carried v ran)
    (hnames : ∀ r ∈ ran, KeepsNames r) {name : String} (hname : (v.lookup name).isSome = true) :
    ((leftByAll v ran).lookup name).isSome = true := by
  induction ran generalizing v with
  | nil => exact hname
  | cons r ran ih =>
      obtain ⟨hsees, hrest⟩ := h
      refine ih hrest (fun r' hr' => hnames r' (List.mem_cons_of_mem r hr')) ?_
      exact hnames r List.mem_cons_self name (by rw [hsees name]; exact hname)

/-- What a call has left is what its last checkpoint has saved, if nothing new came after it. -/
theorem VarCall.left_saved {v : Variables} {c : VarCall} (h : Carried v c.ran)
    (hnames : ∀ r ∈ c.ran, KeepsNames r) (hnothing : ∀ r ∈ c.unsaved, AddsNothing r) :
    SameMapping (leftByAll v c.ran) (overlay v c.saved) := by
  obtain ⟨segment, env, start, ctxs⟩ := c
  simp only [VarCall.ran, VarCall.unsaved, VarCall.saved] at h hnames hnothing ⊢
  induction ctxs using List.reverseRecOn with
  | nil =>
      intro name
      rw [lookup_overlay]
      simp [leftByAll]
  | append_singleton ctxs ctx ih =>
      have hlast : leftByAll v ((ctxs ++ [ctx]).map (env, ·)) = leftBy env ctx := by
        simp [leftByAll]
      rw [List.map_append, carried_append] at h
      rw [hlast, List.foldl_append]
      simp only [List.foldl_cons, List.foldl_nil]
      cases hcheck : Checkpoints segment env ctx with
      | true =>
          rw [if_pos rfl]
          intro name
          rw [lookup_overlay]
          cases hleft : (leftBy env ctx).lookup name with
          | some x => rfl
          | none =>
              -- a variable that the run has begun with is still there
              have hgone : ¬ (v.lookup name).isSome = true := fun hname => by
                have hkept := (carried_append.mpr h).keepsNames
                  (by rwa [← List.map_append]) hname
                rw [← List.map_append, hlast, hleft] at hkept
                cases hkept
              rw [Option.not_isSome_iff_eq_none.mp hgone]
              rfl
      | false =>
          rw [if_neg (by simp)]
          rw [List.rtakeWhile_concat, if_pos (by simp [hcheck]), List.map_append] at hnothing
          have hsees := h.2.1
          have hadds := hnothing (env, ctx) (by simp)
          have hbefore := ih h.1 (fun r hr => hnames r (by
            rw [List.map_append]
            exact List.mem_append_left _ hr))
            fun r hr => hnothing r (List.mem_append_left _ hr)
          exact hadds.trans (hsees.trans hbefore)

/-- If nothing new came since the last checkpoint before a resumed call, nothing is lost. -/
theorem VarChain.Starts.carried {triggerData : List (String × Value)} {e : WorkflowExecution}
    {first : VarCall} {resumed : List VarCall}
    (h : VarChain.Starts wf triggerData e first resumed)
    (hthreaded : ∀ c ∈ first :: resumed, Threaded c.segment c.env c.start c.contexts)
    (hsaved : PausesSaved (first :: resumed)) :
    Carried (updateVariables wf.vars triggerData) ((first :: resumed).flatMap VarCall.ran) := by
  obtain ⟨hkeeps, hnames, hnothing⟩ := hsaved
  have hfirst : Carried (updateVariables wf.vars triggerData) first.ran := by
    rw [VarCall.ran, (hthreaded first List.mem_cons_self).carried_iff_keepsVars, h.firstStart]
    exact ⟨fun _ => SameMapping.refl _, hkeeps first List.mem_cons_self⟩
  have hall : ∀ before after, resumed = before ++ after →
      Carried (updateVariables wf.vars triggerData) ((first :: before).flatMap VarCall.ran) := by
    intro before
    induction before using List.reverseRecOn with
    | nil =>
        intro after _
        rwa [List.flatMap_singleton]
    | append_singleton before c ih =>
        intro after heq
        have heq' : resumed = before ++ c :: after := by simpa using heq
        have hbefore := ih (c :: after) heq'
        have hc : c ∈ resumed := by simp [heq']
        rw [← List.cons_append, List.flatMap_append, carried_append]
        refine ⟨hbefore, ?_⟩
        rw [List.flatMap_singleton, VarCall.ran,
          (hthreaded c (List.mem_cons_of_mem first hc)).carried_iff_keepsVars]
        refine ⟨fun hne => ?_, hkeeps c (List.mem_cons_of_mem first hc)⟩
        have hadds := hnothing before c after heq' hne
        rw [List.flatMap_cons] at hadds hbefore ⊢
        have hsame : before.flatMap VarCall.unsaved = before.flatMap VarCall.ran :=
          List.flatMap_congr fun c' hc' =>
            VarCall.unsaved_resume (h.segment c' (by simp [heq', hc']))
        rw [hsame] at hadds
        rw [carried_append] at hbefore
        have hlater := hbefore.2.addsNothing fun r hr => hadds r (List.mem_append_right _ hr)
        have hleft := VarCall.left_saved hfirst hnames fun r hr =>
          hadds r (List.mem_append_left _ hr)
        rw [leftByAll_append]
        exact (h.saved (hkeeps first List.mem_cons_self) hc).trans (hlater.trans hleft).symm
  exact hall resumed [] (by simp)

/-! ## With and without pauses -/

/-- Given equal mappings, the two nodes leave equal mappings. -/
def SameEffect (r r₀ : Ran) : Prop :=
  SameMapping r.2.vars r₀.2.vars → SameMapping (leftBy r.1 r.2) (leftBy r₀.1 r₀.2)

/-- Two runs of nodes with the same effects that both carry the mapping along show each node
the same mapping. -/
theorem Carried.same {v v₀ : Variables} {ran ran₀ : List Ran} (h : Carried v ran)
    (h₀ : Carried v₀ ran₀) (hv : SameMapping v v₀) (heffect : List.Forall₂ SameEffect ran ran₀) :
    List.Forall₂ (fun r r₀ => SameMapping r.2.vars r₀.2.vars) ran ran₀ := by
  induction heffect generalizing v v₀ with
  | nil => exact .nil
  | cons hr _ ih =>
      have hsame := (h.1.trans hv).trans h₀.1.symm
      exact .cons hsame (ih h.2 h₀.2 (hr hsame))

/-- Along every chain of calls, however often it was paused: each node sees what the nodes before it
have set and emitted if, where a call is resumed, nothing new was set or emitted since the last
checkpoint, and no node before another one of its call loses a variable. More exactly, each node
sees this if and only if what was left before a resumed call is what the last checkpoint has
saved. And then each node sees what it sees in a run of `execute()` that does not pause, in which
the nodes have the same effects. -/
theorem VarChain.carried_iff {wf : WorkflowDefinition} {triggerData : List (String × Value)}
    {cs : List VarCall} {e : WorkflowExecution} (h : VarChain wf triggerData cs e) :
    (PausesSaved cs → Carried (updateVariables wf.vars triggerData) (cs.flatMap VarCall.ran)) ∧
    (Carried (updateVariables wf.vars triggerData) (cs.flatMap VarCall.ran) ↔
      CallsKeepVars (updateVariables wf.vars triggerData) cs) ∧
    ∀ (env : RunEnv) (executionId environment : String) (ran₀ rest : List Ran),
      (contexts (CitraFlows.execute env wf triggerData executionId environment).trace).map (env, ·) =
        ran₀ ++ rest →
      KeepsAllVars .execute env
        (contexts (CitraFlows.execute env wf triggerData executionId environment).trace) →
      List.Forall₂ SameEffect (cs.flatMap VarCall.ran) ran₀ →
      CallsKeepVars (updateVariables wf.vars triggerData) cs →
      List.Forall₂ (fun r r₀ => SameMapping r.2.vars r₀.2.vars) (cs.flatMap VarCall.ran) ran₀ := by
  obtain ⟨first, resumed, rfl, hstarts⟩ := h.starts
  have hiff := (carried_iff_startsKeepVars h.threaded).trans hstarts.keepsVars_iff
  refine ⟨hstarts.carried h.threaded, hiff,
    fun env executionId environment ran₀ rest hran hkeeps heffect hcalls => ?_⟩
  have hcarried := (execute_threaded env wf triggerData executionId environment).carried_iff_keepsVars.mpr
    ⟨fun _ => SameMapping.refl _, hkeeps⟩
  rw [hran, carried_append] at hcarried
  exact (hiff.mpr hcalls).same hcarried.1 (SameMapping.refl _) heffect

/-! ### A variable that a trigger emits -/

/-- The results of the nodes of `approvalFlow` when the trigger emits a variable. -/
def emittingResults (nid : NodeId) : NodeRun :=
  if nid = "start" then
    .completed (.dict [("meta", .dict [("variables", .dict [("region", .str "EU")])])]) 0 []
  else approvalResults nid

/-- A world in which a checkpoint may be due after the trigger. -/
def emittingEnv (checkpoint : Bool) : RunEnv :=
  { RunEnv.calm emittingResults with checkpointDue := fun nid => checkpoint && nid = "start" }

def emittingCall (checkpoint : Bool) : CallResult :=
  execute (emittingEnv checkpoint) approvalFlow [] "ex" "test"

/-- The call that pauses, and the call after the approval. -/
def emittingCalls (checkpoint : Bool) : List VarCall :=
  let first := emittingCall checkpoint
  [⟨.execute, emittingEnv checkpoint, ∅, contexts first.trace⟩,
    ⟨.resume, emittingEnv checkpoint, (resumeStart approvalFlow first.execution).vars,
      contexts (resumeAfter (emittingEnv checkpoint) approvalFlow first).trace⟩]

private theorem emittingCalls_chain (checkpoint : Bool)
    (hp : (emittingCall checkpoint).execution.status = .paused) :
    VarChain approvalFlow [] (emittingCalls checkpoint)
      (resumeAfter (emittingEnv checkpoint) approvalFlow (emittingCall checkpoint)).execution :=
  .resume (.execute (emittingEnv checkpoint) "ex" "test") hp _ .resuming (resume_eq_ok (.inr rfl))

/-- The two nodes of the call that pauses. -/
private theorem emittingCall_contexts (checkpoint : Bool) : ∃ start ask,
    contexts (emittingCall checkpoint).trace = [start, ask] ∧ start.nodeId = "start" ∧
      ask.nodeId = "ask" ∧ start.vars = ∅ := by
  cases checkpoint <;> exact ⟨_, _, rfl, rfl, rfl, rfl⟩

private theorem emittingResume_contexts : ∃ act,
    contexts (resumeAfter (emittingEnv true) approvalFlow (emittingCall true)).trace = [act] :=
  ⟨_, rfl⟩

/-- The checkpoint after the trigger saves the variable, and the approval adds nothing. -/
private theorem emittingCalls_saved : PausesSaved (emittingCalls true) := by
  obtain ⟨start, ask, hctxs, hstart, hask, hvars⟩ := emittingCall_contexts true
  obtain ⟨act, hact⟩ := emittingResume_contexts
  have hcheck : Checkpoints .execute (emittingEnv true) start = true := by
    simp [Checkpoints, emittingEnv, RunEnv.calm, emittingResults, hstart]
    rfl
  have hcheck' : Checkpoints .execute (emittingEnv true) ask = false := by
    simp [Checkpoints, emittingEnv, RunEnv.calm, emittingResults, approvalResults, hask]
    rfl
  have hleft : leftBy (emittingEnv true) ask = ask.vars := by
    simp [leftBy, emittingEnv, RunEnv.calm, emittingResults, hask]
    rfl
  refine ⟨?_, ?_, ?_⟩
  · simp only [List.forall_mem_cons, hctxs, hact]
    refine ⟨⟨fun _ => ?_, trivial⟩, trivial, by simp⟩
    show SameMapping (updateVariables start.vars _) _
    rw [hvars]
    exact SameMapping.refl _
  · simp only [VarCall.ran, hctxs, List.map_cons, List.map_nil, List.forall_mem_cons]
    refine ⟨fun name hname => ?_, fun name hname => ?_, by simp⟩
    · rw [hvars] at hname
      cases hname
    · rwa [hleft]
  · intro before c after heq _
    rcases before with _ | ⟨c₁, _ | ⟨c₂, before⟩⟩
    · have hsince : [start, ask].rtakeWhile (fun ctx => !Checkpoints .execute (emittingEnv true) ctx) =
          [ask] := by
        simp [List.rtakeWhile, hcheck, hcheck']
      simp only [List.flatMap_singleton, VarCall.unsaved, hctxs, hsince, List.map_cons,
        List.map_nil, List.mem_singleton, forall_eq]
      rw [AddsNothing, hleft]
      exact SameMapping.refl _
    · cases heq
    · cases heq

/-- With a checkpoint after the trigger the node behind the approval sees the variable. -/
theorem emittingFlow_carries :
    (contexts (resumeAfter (emittingEnv true) approvalFlow (emittingCall true)).trace).map
        (fun ctx => (ctx.nodeId, (ctx.vars.lookup "region").isSome)) = [("act", true)] ∧
      Carried ∅ ((emittingCalls true).flatMap VarCall.ran) :=
  ⟨by decide +kernel,
    (VarChain.carried_iff (emittingCalls_chain true (by decide +kernel))).1 emittingCalls_saved⟩

/-- Without one it does not: the variable is not in the record of the pause. -/
theorem emittingFlow_loses_variable :
    ¬ ∀ wf triggerData cs e, validateDag wf = [] → VarChain wf triggerData cs e →
      Carried (updateVariables wf.vars triggerData) (cs.flatMap VarCall.ran) := by
  intro h
  have hchain := emittingCalls_chain false (by decide +kernel)
  have hcarried := h _ _ _ _ (by decide +kernel) hchain
  have hkeep := ((carried_iff_startsKeepVars hchain.threaded).mp hcarried).2.2.1
    (by decide +kernel) "region"
  have hlost : ((resumeStart approvalFlow (emittingCall false).execution).vars.lookup
      "region").isSome = false := by decide +kernel
  have hleft : ((leftByAll ∅ ((contexts (emittingCall false).trace).map
      (emittingEnv false, ·))).lookup "region").isSome = true := by decide +kernel
  exact absurd (hlost.symm.trans ((congrArg Option.isSome hkeep).trans hleft)) (by decide)

end CitraFlows
