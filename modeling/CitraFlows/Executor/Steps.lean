-- SUMMARY: What processing one node can do, what collecting a batch yields, and the induction rule of the two scheduling loops.
import CitraFlows.Executor.Loop
import CitraFlows.Lib.Worklist

/-!
# Steps of the scheduling loops

The body of a scheduling loop has many ways out. This file says once what each of them
leaves behind: `Advance` when the loop goes on, `Stops` when it does not. Every
invariant of the loops is proved from these two and from what `collectBatch` yields,
through the rule `runRounds_rule`.
-/

namespace CitraFlows

open Worklist

/-! ## What becomes of a node -/

/-- A node that the loop has decided was skipped, or run with a result. -/
inductive Fate where
  | skipped
  | ran (ctx : NodeContext) (result : NodeRun)

namespace Fate

def event (nid : NodeId) : Fate → Event
  | .skipped => .skip nid
  | .ran ctx result => .run ctx result

/-- The result recorded for the node. -/
def result (config : Config) (nid : NodeId) : Fate → NodeExecutionResult
  | .skipped => { nodeId := nid, status := .skipped }
  | .ran _ result => result.result config nid

/-- The output of a completed node. -/
def output : Fate → Option Value
  | .ran _ (.completed output _ _) => some output
  | _ => none

def failed : Fate → Bool
  | .ran _ (.failed ..) | .ran _ .timeout => true
  | _ => false

def isSkipped : Fate → Bool
  | .skipped => true
  | .ran .. => false

@[simp] theorem isSkipped_iff {f : Fate} : f.isSkipped = true ↔ f = .skipped := by
  cases f <;> simp [isSkipped]

/-- The outputs of the run with that of the node added. -/
def store (f : Fate) (nid : NodeId) (outputs : NodeOutputs) : NodeOutputs :=
  match f.output with
  | some output => outputs.insert nid output
  | none => outputs

end Fate

/-- `route` as the loop calls it in a state. -/
def LoopState.route (seg : Segment) (wf : WorkflowDefinition) (s : LoopState) (nid : NodeId) :
    Except PyError Routing :=
  CitraFlows.route wf seg s.execution.triggerData s.nodeOutputs s.execution.nodeResults
    s.softFailed nid

/-- The routing in state `s` gives the node this fate. -/
def Decides (seg : Segment) (env : RunEnv) (wf : WorkflowDefinition) (nid : NodeId)
    (s : LoopState) : Fate → Prop
  | .skipped => ∃ n r, wf.nodeMap nid = some n ∧ s.route seg wf nid = .ok r ∧ r.skip = true
  | .ran ctx result => ∃ n r, wf.nodeMap nid = some n ∧ s.route seg wf nid = .ok r ∧
      r.skip = false ∧ ctx.nodeId = nid ∧ ctx.config = n.config ∧
      ctx.inputData = r.inputData ∧ result = (env.run ctx).1

/-! ## What a step leaves behind -/

/-- The node is executed and its fate is recorded. -/
structure Stored (env : RunEnv) (nid : NodeId) (f : Fate) (s s' : LoopState) : Prop where
  executed : s'.executed = insert nid s.executed
  results : s'.execution.nodeResults =
    s.execution.nodeResults.insert nid (f.result env.config nid)
  outputs : s'.nodeOutputs = f.store nid s.nodeOutputs
  softFailed : s'.softFailed = if f.failed then insert nid s.softFailed else s.softFailed
  triggerData : s'.execution.triggerData = s.execution.triggerData

/-- A node is decided and the loop goes on: the children of the node are queued, and the
trace has the decision and at most a checkpoint. -/
structure Advance (seg : Segment) (env : RunEnv) (wf : WorkflowDefinition) (nid : NodeId)
    (f : Fate) (s s' : LoopState) : Prop extends Stored env nid f s s' where
  decides : Decides seg env wf nid s f
  nextQueue : ∀ c, c ∈ s'.nextQueue ↔
    c ∈ s.nextQueue ∨ (c ∈ wf.adjacency nid ∧ c ∉ insert nid s.executed)
  status : s'.execution.status = s.execution.status
  trace : ∃ saves, s'.trace = s.trace ++ f.event nid :: saves ∧
    ∀ ev ∈ saves, ev = .save s'.execution
  notWaiting : ∀ output, f.output = some output → waitingApproval output = .ok false
  continues : f.failed = true →
    seg = .execute ∧ ∃ n, wf.nodeMap nid = some n ∧ n.continueOnError = true

/-- A node that has completed asks for an approval, and the run is saved as paused. -/
structure Pauses (seg : Segment) (env : RunEnv) (wf : WorkflowDefinition) (nid : NodeId)
    (f : Fate) (s s' : LoopState) : Prop extends Stored env nid f s s' where
  decides : Decides seg env wf nid s f
  waiting : ∃ output, f.output = some output ∧ waitingApproval output = .ok true
  status : s'.execution.status = .paused
  pausedAtNode : s'.execution.pausedAtNode = some nid
  trace : ∃ approvals, s'.trace = s.trace ++ f.event nid :: approvals ++ [.save s'.execution] ∧
    ∀ ev ∈ approvals, ∃ request, ev = .approval request

/-- A step that ends the loop. -/
inductive Stops (seg : Segment) (env : RunEnv) (wf : WorkflowDefinition) (nid : NodeId)
    (s : LoopState) : NodeStep → Prop where
  /-- A cancel was requested. -/
  | cancelled (hc : env.cancelRequested nid = true) : Stops seg env wf nid s (.halt s.markCancelled)
  /-- The queue holds an id that is no node. -/
  | missing (hn : wf.nodeMap nid = none) : Stops seg env wf nid s (.raise (.keyError nid) s)
  /-- A parent's metadata is no dict. -/
  | badRoute {e : PyError} (hr : s.route seg wf nid = .error e) :
      Stops seg env wf nid s (.raise e (s.enter nid))
  | stepLimit (hl : s.stepsExecuted + 1 > env.config.maxNodeSteps) :
      Stops seg env wf nid s (.raise (.runtimeError (stepLimitMessage env.config))
        { s.enter nid with stepsExecuted := s.stepsExecuted + 1 })
  /-- The execution timeout fires while the node runs. -/
  | expired {ctx : NodeContext} {result : NodeRun} (hseg : seg = .execute)
      (ht : env.timeoutDuring nid = true) (hd : Decides seg env wf nid s (.ran ctx result)) :
      Stops seg env wf nid s (.timeout ((s.enter nid).afterRun env ctx))
  | paused {f : Fate} {s' : LoopState} (h : Pauses seg env wf nid f s s') :
      Stops seg env wf nid s (.halt s')
  /-- The node has completed, but its metadata is no dict, or its approval request is not
  valid. -/
  | badOutput {f : Fate} {output : Value} {e : PyError} {s' : LoopState}
      (hd : Decides seg env wf nid s f) (ho : f.output = some output)
      (hw : waitingApproval output = .error e ∨
        waitingApproval output = .ok true ∧ env.acceptsRequest output = false)
      (hs : Stored env nid f s s') (ht : s'.trace = s.trace ++ [f.event nid]) :
      Stops seg env wf nid s (.raise e s')
  /-- The node has failed and the run with it. -/
  | failed {f : Fate} {n : NodeDefinition} {s' : LoopState} (hd : Decides seg env wf nid s f)
      (hf : f.failed = true) (hn : wf.nodeMap nid = some n)
      (hhard : seg = .resume ∨ n.continueOnError = false)
      (hexecuted : s'.executed = s.executed) (houtputs : s'.nodeOutputs = s.nodeOutputs)
      (hsoft : s'.softFailed = s.softFailed)
      (hresults : s'.execution.nodeResults =
        s.execution.nodeResults.insert nid (f.result env.config nid))
      (htrigger : s'.execution.triggerData = s.execution.triggerData)
      (hstatus : s'.execution.status = .failed)
      (ht : ∃ label error, s'.trace = s.trace ++
        [f.event nid, .save s'.execution, .notifyFailure label error]) :
      Stops seg env wf nid s (.halt s')

/-! ## The queue -/

private theorem mem_enqueue {E : Finset NodeId} {children q : List NodeId} {c : NodeId} :
    c ∈ children.foldl (fun q child => if child ∈ E ∨ child ∈ q then q else q ++ [child]) q ↔
      c ∈ q ∨ (c ∈ children ∧ c ∉ E) := by
  induction children generalizing q with
  | nil => simp
  | cons child children ih =>
      rw [List.foldl_cons, ih]
      by_cases h : child ∈ E ∨ child ∈ q
      · rw [if_pos h]
        constructor
        · rintro (hq | ⟨hc, hE⟩)
          · exact .inl hq
          · exact .inr ⟨List.mem_cons_of_mem _ hc, hE⟩
        · rintro (hq | ⟨hc, hE⟩)
          · exact .inl hq
          · rcases List.mem_cons.mp hc with rfl | hc
            · exact .inl (h.resolve_left hE)
            · exact .inr ⟨hc, hE⟩
      · rw [if_neg h]
        simp only [List.mem_append, List.mem_cons, List.not_mem_nil, or_false]
        constructor
        · rintro ((hq | rfl) | ⟨hc, hE⟩)
          · exact .inl hq
          · exact .inr ⟨.inl rfl, fun hE => h (.inl hE)⟩
          · exact .inr ⟨.inr hc, hE⟩
        · rintro (hq | ⟨rfl | hc, hE⟩)
          · exact .inl (.inl hq)
          · exact .inl (.inr rfl)
          · exact .inr ⟨hc, hE⟩

namespace LoopState

theorem mem_enqueueChildren {wf : WorkflowDefinition} {s : LoopState} {nid c : NodeId} :
    c ∈ (s.enqueueChildren wf nid).nextQueue ↔
      c ∈ s.nextQueue ∨ (c ∈ wf.adjacency nid ∧ c ∉ s.executed) :=
  mem_enqueue

end LoopState

/-! ## One node -/

variable {seg : Segment} {env : RunEnv} {wf : WorkflowDefinition} {nid : NodeId}

/-- The state in which a completed node's output is looked at. -/
private def storedState (env : RunEnv) (nid : NodeId) (ctx : NodeContext) (output : Value)
    (s : LoopState) : LoopState :=
  (((s.enter nid).afterRun env ctx).setResult nid
    ((env.run ctx).1.result env.config nid)).store nid output

private theorem storedState_stored (nid : NodeId) (s : LoopState) {ctx : NodeContext} {output : Value}
    {retries : Int} {errors : List String}
    (h : (env.run ctx).1 = .completed output retries errors) :
    Stored env nid (.ran ctx (env.run ctx).1) s (storedState env nid ctx output s) where
  executed := rfl
  results := rfl
  outputs := by rw [h]; rfl
  softFailed := by rw [h]; rfl
  triggerData := rfl

private theorem trace_append_two (t : List Event) (a b c : Event) :
    t ++ [a] ++ [b] ++ [c] = t ++ a :: [b] ++ [c] := by
  simp

private theorem trace_append_three (t : List Event) (a b c : Event) :
    t ++ [a] ++ [b] ++ [c] = t ++ [a, b, c] := by
  simp

/-- The ways out after a completed node in `execute()`. -/
private theorem completedExecute_cases {s : LoopState} {n : NodeDefinition} {ctx : NodeContext}
    {output : Value} {retries : Int} {errors : List String}
    (h : (env.run ctx).1 = .completed output retries errors)
    (hd : Decides .execute env wf nid s (.ran ctx (env.run ctx).1)) :
    (∃ s', completedExecute env wf n nid output (storedState env nid ctx output s) = .next s' ∧
      Advance .execute env wf nid (.ran ctx (env.run ctx).1) s s') ∨
    Stops .execute env wf nid s
      (completedExecute env wf n nid output (storedState env nid ctx output s)) := by
  have hst := storedState_stored nid s h
  have ho : (Fate.ran ctx (env.run ctx).1).output = some output := by rw [h]; rfl
  have hf : ¬ (Fate.ran ctx (env.run ctx).1).failed = true := by rw [h]; simp [Fate.failed]
  unfold completedExecute
  cases hw : waitingApproval output with
  | error e =>
      right
      exact .badOutput hd ho (.inl hw) ⟨hst.1, hst.2, hst.3, hst.4, hst.5⟩ rfl
  | ok waiting =>
      cases waiting with
      | true =>
          right
          dsimp only
          split
          · rename_i e hrequest
            have hrejected : env.acceptsRequest output = false := by
              unfold approvalRequest at hrequest
              split at hrequest
              · cases hrequest
              · rename_i hno
                exact Bool.eq_false_iff.mpr hno
            exact .badOutput hd ho (.inr ⟨hw, hrejected⟩) ⟨hst.1, hst.2, hst.3, hst.4, hst.5⟩ rfl
          · rename_i request _
            exact .paused ⟨⟨hst.1, hst.2, hst.3, hst.4, hst.5⟩, hd, ⟨output, ho, hw⟩, rfl, rfl,
              [.approval request], trace_append_two _ _ _ _, by simp⟩
      | false =>
          left
          dsimp only
          split
          · refine ⟨_, rfl, ⟨⟨hst.1, hst.2, hst.3, hst.4, hst.5⟩, hd, ?_, rfl, ?_, ?_, ?_⟩⟩
            · exact fun c => LoopState.mem_enqueueChildren
            · exact ⟨[.save _], List.append_assoc _ _ _, fun ev hev => List.mem_singleton.mp hev⟩
            · rw [ho]; rintro _ ⟨⟩; exact hw
            · exact fun hc => absurd hc hf
          · refine ⟨_, rfl, ⟨⟨hst.1, hst.2, hst.3, hst.4, hst.5⟩, hd, ?_, rfl, ?_, ?_, ?_⟩⟩
            · exact fun c => LoopState.mem_enqueueChildren
            · exact ⟨[], rfl, by simp⟩
            · rw [ho]; rintro _ ⟨⟩; exact hw
            · exact fun hc => absurd hc hf

/-- The ways out after a completed node in `resume()`. -/
private theorem completedResume_cases {s : LoopState} {ctx : NodeContext}
    {output : Value} {retries : Int} {errors : List String}
    (h : (env.run ctx).1 = .completed output retries errors)
    (hd : Decides .resume env wf nid s (.ran ctx (env.run ctx).1)) :
    (∃ s', completedResume wf nid output (storedState env nid ctx output s) = .next s' ∧
      Advance .resume env wf nid (.ran ctx (env.run ctx).1) s s') ∨
    Stops .resume env wf nid s
      (completedResume wf nid output (storedState env nid ctx output s)) := by
  have hst := storedState_stored nid s h
  have ho : (Fate.ran ctx (env.run ctx).1).output = some output := by rw [h]; rfl
  have hf : ¬ (Fate.ran ctx (env.run ctx).1).failed = true := by rw [h]; simp [Fate.failed]
  unfold completedResume
  cases hw : waitingApproval output with
  | error e => exact .inr (.badOutput hd ho (.inl hw) hst rfl)
  | ok waiting =>
      cases waiting with
      | true =>
          right
          exact .paused ⟨⟨hst.1, hst.2, hst.3, hst.4, hst.5⟩, hd, ⟨output, ho, hw⟩, rfl, rfl,
            [], rfl, by simp⟩
      | false =>
          left
          refine ⟨_, rfl, ⟨⟨hst.1, hst.2, hst.3, hst.4, hst.5⟩, hd, ?_, rfl, ?_, ?_, ?_⟩⟩
          · exact fun c => LoopState.mem_enqueueChildren
          · exact ⟨[], rfl, by simp⟩
          · rw [ho]; rintro _ ⟨⟩; exact hw
          · exact fun hc => absurd hc hf

/-- The ways out after a failed node. -/
private theorem failedNode_cases {s : LoopState} {n : NodeDefinition} {ctx : NodeContext}
    (hf : (Fate.ran ctx (env.run ctx).1).failed = true) (hn : wf.nodeMap nid = some n)
    (hd : Decides seg env wf nid s (.ran ctx (env.run ctx).1)) :
    let r := (env.run ctx).1.result env.config nid
    let step := failedNode seg wf n nid r (((s.enter nid).afterRun env ctx).setResult nid r)
    (∃ s', step = .next s' ∧ Advance seg env wf nid (.ran ctx (env.run ctx).1) s s') ∨
      Stops seg env wf nid s step := by
  have ho : (Fate.ran ctx (env.run ctx).1).output = none := by
    revert hf; cases (env.run ctx).1 <;> simp [Fate.failed, Fate.output]
  have hfast : (seg = .resume ∨ n.continueOnError = false) → Stops seg env wf nid s
      (failFast n nid ((env.run ctx).1.result env.config nid)
        (((s.enter nid).afterRun env ctx).setResult nid
          ((env.run ctx).1.result env.config nid))) := by
    intro hhard
    exact .failed hd hf hn hhard rfl rfl rfl rfl rfl rfl ⟨_, _, trace_append_three _ _ _ _⟩
  intro r step
  cases seg with
  | resume => exact .inr (hfast (.inl rfl))
  | execute =>
      by_cases hc : n.continueOnError = true
      · left
        refine ⟨_, if_pos hc, ⟨⟨rfl, rfl, ?_, ?_, rfl⟩, hd, ?_, rfl, ?_, ?_, ?_⟩⟩
        · simp only [Fate.store, ho]; rfl
        · rw [if_pos hf]; rfl
        · exact fun c => LoopState.mem_enqueueChildren
        · exact ⟨[], rfl, by simp⟩
        · simp [ho]
        · exact fun _ => ⟨rfl, n, hn, hc⟩
      · right
        have hstep : step = failFast n nid r (((s.enter nid).afterRun env ctx).setResult nid r) :=
          if_neg hc
        rw [hstep]
        exact hfast (.inr (by simpa using hc))

/-- The ways out of running a node. -/
private theorem runNode_cases {s : LoopState} {n : NodeDefinition} {r : Routing}
    (hn : wf.nodeMap nid = some n) (hr : s.route seg wf nid = .ok r) (hskip : r.skip = false) :
    (∃ f s', runNode seg env wf n nid r.inputData (s.enter nid) = .next s' ∧
      Advance seg env wf nid f s s') ∨
    Stops seg env wf nid s (runNode seg env wf n nid r.inputData (s.enter nid)) := by
  unfold runNode
  split
  case isTrue hl => exact .inr (.stepLimit hl)
  case isFalse =>
    have hd : Decides seg env wf nid s
        (.ran (nodeContext env wf n nid r.inputData (s.enter nid))
          (env.run (nodeContext env wf n nid r.inputData (s.enter nid))).1) :=
      ⟨n, r, hn, hr, hskip, rfl, rfl, rfl, rfl⟩
    dsimp only
    split
    case isTrue ht => exact .inr (.expired ht.1 ht.2 hd)
    case isFalse =>
      split
      case h_1 output retries errors hrun =>
        cases seg with
        | execute =>
            rcases completedExecute_cases (n := n) hrun hd with ⟨s', hs', ha⟩ | hs
            · exact .inl ⟨_, s', hs', ha⟩
            · exact .inr hs
        | resume =>
            rcases completedResume_cases hrun hd with ⟨s', hs', ha⟩ | hs
            · exact .inl ⟨_, s', hs', ha⟩
            · exact .inr hs
      all_goals
        rename_i hrun
        rcases failedNode_cases (by rw [hrun]; rfl) hn hd with ⟨s', hs', ha⟩ | hs
        · exact .inl ⟨_, s', hs', ha⟩
        · exact .inr hs

/-- Every way out of processing a node: it is decided and the loop goes on, or it ends
the loop. -/
theorem processNode_cases (seg : Segment) (env : RunEnv) (wf : WorkflowDefinition)
    (nid : NodeId) (s : LoopState) :
    (∃ f s', processNode seg env wf nid s = .next s' ∧ Advance seg env wf nid f s s') ∨
    Stops seg env wf nid s (processNode seg env wf nid s) := by
  unfold processNode
  split
  case isTrue hc => exact .inr (.cancelled hc)
  case isFalse =>
    split
    case h_1 hn => exact .inr (.missing hn)
    case h_2 n hn =>
      split
      case h_1 e hr => exact .inr (.badRoute hr)
      case h_2 r hr =>
        split
        case isTrue hskip =>
          refine .inl ⟨.skipped, _, rfl, ⟨⟨rfl, rfl, rfl, rfl, rfl⟩, ⟨n, r, hn, hr, hskip⟩, ?_, rfl, ?_,
            ?_, ?_⟩⟩
          · exact fun c => LoopState.mem_enqueueChildren
          · exact ⟨[], rfl, by simp⟩
          · simp [Fate.output]
          · simp [Fate.failed]
        case isFalse hskip =>
          rw [NodeType.getNode_eq_true]
          exact runNode_cases hn hr (by simpa using hskip)

theorem processNode_next {s s' : LoopState} (h : processNode seg env wf nid s = .next s') :
    ∃ f, Advance seg env wf nid f s s' := by
  rcases processNode_cases seg env wf nid s with ⟨f, t, ht, ha⟩ | hs
  · rw [h] at ht
    cases ht
    exact ⟨f, ha⟩
  · rw [h] at hs
    cases hs

theorem processNode_stop {s : LoopState} (h : ∀ s', processNode seg env wf nid s ≠ .next s') :
    Stops seg env wf nid s (processNode seg env wf nid s) := by
  rcases processNode_cases seg env wf nid s with ⟨f, t, ht, -⟩ | hs
  · exact absurd ht (h t)
  · exact hs

/-! ## Collecting a batch -/

/-- What a batch collected from a queue is: ready elements of the queue, each once. The
queue for the next round keeps the others that are not executed. -/
structure Collected (wf : WorkflowDefinition) (E : Finset NodeId) (queue batch next : List NodeId) :
    Prop where
  nodup : batch.Nodup
  ready : ∀ x ∈ batch, x ∈ queue ∧ Ready wf.incoming E x
  unready : ∀ x ∈ next, x ∈ queue ∧ x ∉ E ∧ ¬ Ready wf.incoming E x
  all : ∀ x ∈ queue, x ∈ E ∨ x ∈ batch ∨ x ∈ next

private theorem collectBatch_aux {E : Finset NodeId} {full : List NodeId} (queue : List NodeId)
    (batch next : List NodeId) (done : List NodeId) (hfull : full = done ++ queue)
    (h : Collected wf E done batch next) :
    Collected wf E full (collectBatch wf E queue batch next).1
      (collectBatch wf E queue batch next).2 := by
  -- `done` is the part of the queue that was looked at
  induction queue generalizing batch next done with
  | nil =>
      rw [List.append_nil] at hfull
      subst hfull
      exact h
  | cons x queue ih =>
      rw [List.append_cons] at hfull
      have hdone : ∀ {y}, y ∈ done → y ∈ done ++ [x] := fun hy => List.mem_append_left _ hy
      have hx : x ∈ done ++ [x] := by simp
      have hready : ∀ y ∈ batch, y ∈ done ++ [x] ∧ Ready wf.incoming E y := fun y hy =>
        ⟨hdone (h.ready y hy).1, (h.ready y hy).2⟩
      have hnext : ∀ y ∈ next, y ∈ done ++ [x] ∧ y ∉ E ∧ ¬ Ready wf.incoming E y := fun y hy =>
        ⟨hdone (h.unready y hy).1, (h.unready y hy).2⟩
      have hcase : ∀ {y}, y ∈ done ++ [x] → y ∈ done ∨ y = x := by simp
      unfold collectBatch
      split
      case isTrue hskip =>
        refine ih batch next _ hfull ⟨h.nodup, hready, hnext, fun y hy => ?_⟩
        rcases hcase hy with hy | rfl
        · exact h.all y hy
        · rcases hskip with hE | hb
          · exact .inl hE
          · exact .inr (.inl hb)
      case isFalse hnew =>
        rw [not_or] at hnew
        split
        -- a new node whose parents are done joins the batch
        case isTrue hdeps =>
          refine ih (batch ++ [x]) next _ hfull ⟨?_, ?_, hnext, fun y hy => ?_⟩
          · refine h.nodup.append (List.nodup_singleton x) fun y hy hyx => ?_
            rw [List.mem_singleton] at hyx
            exact hnew.2 (hyx ▸ hy)
          · intro y hy
            rcases List.mem_append.mp hy with hy | hy
            · exact hready y hy
            · rw [List.mem_singleton] at hy
              subst hy
              exact ⟨hx, hnew.1, hdeps⟩
          · rcases hcase hy with hy | rfl
            · rcases h.all y hy with hE | hb | hn
              · exact .inl hE
              · exact .inr (.inl (List.mem_append_left _ hb))
              · exact .inr (.inr hn)
            · exact .inr (.inl (by simp))
        case isFalse hdeps =>
          split
          -- a node that waits is kept for the next round, once
          case isTrue =>
            refine ih batch (next ++ [x]) _ hfull ⟨h.nodup, hready, ?_, fun y hy => ?_⟩
            · intro y hy
              rcases List.mem_append.mp hy with hy | hy
              · exact hnext y hy
              · rw [List.mem_singleton] at hy
                subst hy
                exact ⟨hx, hnew.1, fun hr => hdeps hr.2⟩
            · rcases hcase hy with hy | rfl
              · rcases h.all y hy with hE | hb | hn
                · exact .inl hE
                · exact .inr (.inl hb)
                · exact .inr (.inr (List.mem_append_left _ hn))
              · exact .inr (.inr (by simp))
          case isFalse hold =>
            refine ih batch next _ hfull ⟨h.nodup, hready, hnext, fun y hy => ?_⟩
            rcases hcase hy with hy | rfl
            · exact h.all y hy
            · exact .inr (.inr (by simpa using hold))

theorem collectBatch_collected (wf : WorkflowDefinition) (E : Finset NodeId)
    (queue : List NodeId) :
    Collected wf E queue (collectBatch wf E queue [] []).1 (collectBatch wf E queue [] []).2 :=
  collectBatch_aux queue [] [] [] rfl
    ⟨List.nodup_nil, by simp, by simp, by simp⟩

/-! ## The induction rule of the loops -/

/-- An assertion about the rest of the current batch and the state. -/
abbrev LoopAssertion := List NodeId → LoopState → Prop

/-- A node of the batch ended the loop in a state of which `I` held before. -/
def StopsFrom (seg : Segment) (env : RunEnv) (wf : WorkflowDefinition) (I : LoopAssertion)
    (step : NodeStep) : Prop :=
  ∃ nid batch s, I (nid :: batch) s ∧ Ready wf.incoming s.executed nid ∧
    Stops seg env wf nid s step

/-- What is known at the end of a loop of which `I` is an invariant. -/
def Ends (seg : Segment) (env : RunEnv) (wf : WorkflowDefinition) (I : LoopAssertion) :
    LoopOutcome → Prop
  | .finished s => I [] s ∧ ∀ x ∈ s.nextQueue, ¬ Ready wf.incoming s.executed x
  | .halted s => StopsFrom seg env wf I (.halt s)
  | .raised e s => StopsFrom seg env wf I (.raise e s)
  | .timedOut s => StopsFrom seg env wf I (.timeout s)
  | .outOfRounds s => I [] s ∧ s.nextQueue ≠ []

/-- `I` is an invariant of the loop: it survives the collection of a batch and the
processing of a node, while the rest of the batch is ready too. -/
structure Invariant (seg : Segment) (env : RunEnv) (wf : WorkflowDefinition)
    (I : LoopAssertion) : Prop where
  collect : ∀ s batch next, I [] s → Collected wf s.executed s.nextQueue batch next →
    I batch { s with nextQueue := next }
  advance : ∀ nid batch f s s', I (nid :: batch) s → (nid :: batch).Nodup →
    (∀ x ∈ nid :: batch, Ready wf.incoming s.executed x) →
    Advance seg env wf nid f s s' → I batch s'

/-- Processing a node leaves the rest of its batch ready. -/
theorem Advance.ready {f : Fate} {s s' : LoopState} {x : NodeId}
    (h : Advance seg env wf nid f s s') (hx : Ready wf.incoming s.executed x) (hne : x ≠ nid) :
    Ready wf.incoming s'.executed x := by
  rw [h.executed]
  refine ⟨?_, fun d hd => Finset.mem_insert_of_mem (hx.2 d hd)⟩
  simp [hne, hx.1]

/-- As `Invariant`, for assertions about more of the state than `Advance` shows. -/
structure StepInvariant (seg : Segment) (env : RunEnv) (wf : WorkflowDefinition)
    (I : LoopAssertion) : Prop where
  collect : ∀ s batch next, I [] s → Collected wf s.executed s.nextQueue batch next →
    I batch { s with nextQueue := next }
  next : ∀ nid batch s s', I (nid :: batch) s → (nid :: batch).Nodup →
    (∀ x ∈ nid :: batch, Ready wf.incoming s.executed x) →
    processNode seg env wf nid s = .next s' → I batch s'

theorem Invariant.stepInvariant {I : LoopAssertion} (hI : Invariant seg env wf I) :
    StepInvariant seg env wf I where
  collect := hI.collect
  next nid batch s s' h hnd hready hs' := by
    obtain ⟨f, ha⟩ := processNode_next hs'
    exact hI.advance nid batch f s s' h hnd hready ha

/-- Processing a node of the batch ended the loop; `I` held before. -/
def StopsAt (seg : Segment) (env : RunEnv) (wf : WorkflowDefinition) (I : LoopAssertion)
    (step : NodeStep) : Prop :=
  ∃ nid batch s, I (nid :: batch) s ∧ Ready wf.incoming s.executed nid ∧
    processNode seg env wf nid s = step

/-- What is known at the end of a loop of which `I` is a step invariant. -/
def EndsAt (seg : Segment) (env : RunEnv) (wf : WorkflowDefinition) (I : LoopAssertion) :
    LoopOutcome → Prop
  | .finished s => I [] s ∧ ∀ x ∈ s.nextQueue, ¬ Ready wf.incoming s.executed x
  | .halted s => StopsAt seg env wf I (.halt s)
  | .raised e s => StopsAt seg env wf I (.raise e s)
  | .timedOut s => StopsAt seg env wf I (.timeout s)
  | .outOfRounds s => I [] s ∧ s.nextQueue ≠ []

theorem runBatch_stepRule {I : LoopAssertion} (hI : StepInvariant seg env wf I)
    (batch : List NodeId) (s : LoopState) (hnd : batch.Nodup)
    (hready : ∀ x ∈ batch, Ready wf.incoming s.executed x) (h : I batch s) :
    (∃ s', runBatch seg env wf batch s = .next s' ∧ I [] s') ∨
    ((∀ s', runBatch seg env wf batch s ≠ .next s') ∧
      StopsAt seg env wf I (runBatch seg env wf batch s)) := by
  induction batch generalizing s with
  | nil => exact .inl ⟨s, rfl, h⟩
  | cons nid batch ih =>
      have hr := hready nid (by simp)
      unfold runBatch
      split
      case h_1 s' hs' =>
        obtain ⟨f, ha⟩ := processNode_next hs'
        have h' := hI.next nid batch s s' h hnd hready hs'
        rw [List.nodup_cons] at hnd
        refine ih s' hnd.2 (fun x hx => ?_) h'
        refine ha.ready (hready x (by simp [hx])) ?_
        rintro rfl
        exact hnd.1 hx
      case h_2 step hstop => exact .inr ⟨fun s' hs' => hstop s' hs', nid, batch, s, h, hr, rfl⟩

theorem StopsAt.stopsFrom {I : LoopAssertion} {step : NodeStep}
    (h : StopsAt seg env wf I step) (hno : ∀ s', step ≠ .next s') :
    StopsFrom seg env wf I step := by
  obtain ⟨nid, batch, s, hs, hr, rfl⟩ := h
  exact ⟨nid, batch, s, hs, hr, processNode_stop hno⟩

theorem runBatch_rule {I : LoopAssertion} (hI : Invariant seg env wf I) (batch : List NodeId)
    (s : LoopState) (hnd : batch.Nodup) (hready : ∀ x ∈ batch, Ready wf.incoming s.executed x)
    (h : I batch s) :
    (∃ s', runBatch seg env wf batch s = .next s' ∧ I [] s') ∨
    ((∀ s', runBatch seg env wf batch s ≠ .next s') ∧
      StopsFrom seg env wf I (runBatch seg env wf batch s)) := by
  rcases runBatch_stepRule hI.stepInvariant batch s hnd hready h with h' | ⟨hno, hstop⟩
  · exact .inl h'
  · exact .inr ⟨hno, hstop.stopsFrom hno⟩

/-- The induction rule: a step invariant that holds before a loop holds to its end. -/
theorem runRounds_stepRule {I : LoopAssertion} (hI : StepInvariant seg env wf I) (rounds : Nat)
    (s : LoopState) (h : I [] s) : EndsAt seg env wf I (runRounds seg env wf rounds s) := by
  induction rounds generalizing s with
  | zero =>
      unfold runRounds
      split
      case isTrue hq => exact ⟨h, by simp [List.isEmpty_iff.mp hq]⟩
      case isFalse hq => exact ⟨h, by simpa using hq⟩
  | succ rounds ih =>
      unfold runRounds
      split
      case isTrue hq => exact ⟨h, by simp [List.isEmpty_iff.mp hq]⟩
      case isFalse =>
        have hc := collectBatch_collected wf s.executed s.nextQueue
        generalize collectBatch wf s.executed s.nextQueue [] [] = collected at hc
        obtain ⟨batch, next⟩ := collected
        dsimp only at hc ⊢
        split
        case isTrue hb =>
          -- no batch: whatever is queued is not ready
          refine ⟨h, fun x hx hr => ?_⟩
          rw [List.isEmpty_iff] at hb
          subst hb
          rcases hc.all x hx with hE | hb | hn
          · exact hr.1 hE
          · simp at hb
          · exact (hc.unready x hn).2.2 hr
        case isFalse =>
          rcases runBatch_stepRule hI batch { s with nextQueue := next } hc.nodup
            (fun x hx => (hc.ready x hx).2) (hI.collect s batch next h hc) with
            ⟨s', hs', h'⟩ | ⟨hno, hstop⟩
          · rw [hs']
            exact ih s' h'
          · split
            case h_1 s' hs' => exact absurd hs' (hno s')
            case h_2 s' hs' => rw [hs'] at hstop; exact hstop
            case h_3 e s' hs' => rw [hs'] at hstop; exact hstop
            case h_4 s' hs' => rw [hs'] at hstop; exact hstop

/-- The induction rule for an invariant: it holds to the end of the loop. -/
theorem runRounds_rule {I : LoopAssertion} (hI : Invariant seg env wf I) (rounds : Nat)
    (s : LoopState) (h : I [] s) : Ends seg env wf I (runRounds seg env wf rounds s) := by
  have hends := runRounds_stepRule hI.stepInvariant rounds s h
  generalize runRounds seg env wf rounds s = o at hends ⊢
  cases o with
  | finished s => exact hends
  | outOfRounds s => exact hends
  | halted s => exact hends.stopsFrom (by simp)
  | raised e s => exact hends.stopsFrom (by simp)
  | timedOut s => exact hends.stopsFrom (by simp)

end CitraFlows
