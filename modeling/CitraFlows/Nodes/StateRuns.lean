-- SUMMARY: The state nodes over the runs of the executor: which value a read yields, and which runs share their state.
import CitraFlows.Executor.Approvals
import CitraFlows.Executor.VariableFlow
import CitraFlows.Nodes.Logic
import CitraFlows.Nodes.State
import CitraFlows.Nodes.Template

/-!
# State across runs

A value of the collection `workflow_state` stands under a workflow id and a key. Both state nodes
take the id from the context they are run with; the contexts are those that `execute()` and
`resume()` build.
-/

namespace CitraFlows

/-! ## The two nodes -/

/-- The collection `workflow_state`, under its unique index. -/
abbrev StateDocs := AList (fun _ : String × String => Value)

/-- `(ctx.config.get("key") or "").strip()`, which must not be empty. -/
def stateKey (config : Entries) : Except PyError String :=
  match config.getOr "key" (.str "") with
  | .str s =>
      let key := String.ofList (Python.strip s.toList)
      if key = "" then .error (.valueError "'State Key' is required") else .ok key
  | v => .error (.attributeError v.typeName "strip")

section

variable (word : Char → Bool) (jsonLoads : String → Except PyError Value)

/-- The default of a read, with its placeholders filled in. -/
def stateDefault (ctx : NodeContext) : Value :=
  match Value.getD ctx.config "default_value" with
  | .str text => .str (Template.interpolateDotted word [] ctx.vars text)
  | v => v

/-- `doc.get("value")`, or the default. -/
def stateValue (default : Value) : Option Value → Value
  | none | some .none => default
  | some v => v

/-- `WorkflowStateGetNode.execute`: the output, and the variables it leaves. A read that fails
counts as no document. -/
def WorkflowStateGetNode.execute (docs : StateDocs) (readFails : Bool) (ctx : NodeContext) :
    Except PyError (Value × Variables) := do
  let key ← stateKey ctx.config
  let wfId ← ctx.stateWorkflowId
  let doc := if readFails then none else docs.lookup (wfId, key)
  let value := stateValue (stateDefault word ctx) doc
  return (makeOutput ctx.items [("key", .str key), ("value", value), ("workflow_id", .str wfId),
    ("from_default", .bool doc.isNone)], ctx.vars.insert key value)

/-- What `WorkflowStateSetNode.execute` writes: a text is interpolated and read as JSON if it can
be. -/
def WorkflowStateSetNode.value (ctx : NodeContext) : Except PyError Value :=
  match Value.getD ctx.config "value" with
  | .none => .error (.valueError "'Value' is required")
  | .str text =>
      if Python.strip text.toList = [] then .error (.valueError "'Value' is required")
      else
        let interpolated := Template.interpolateDotted word [] ctx.vars text
        match jsonLoads interpolated with
        | .ok v => .ok v
        | .error (.valueError _) => .ok (.str interpolated)
        | .error e => .error e
  | v => .ok v

/-- The document that `WorkflowStateSetNode.execute` writes. -/
def WorkflowStateSetNode.slot (ctx : NodeContext) :
    Except PyError ((String × String) × Value) := do
  let key ← stateKey ctx.config
  let value ← value word jsonLoads ctx
  let wfId ← ctx.stateWorkflowId
  return ((wfId, key), value)

end

/-! ## Accesses -/

/-- A call of the executor for an execution of a workflow, and what it has done. -/
inductive ExecutorCall (wf : WorkflowDefinition) (executionId : String) : List Event → Prop where
  | execute (env : RunEnv) (triggerData : List (String × Value)) (environment : String) :
      ExecutorCall wf executionId (execute env wf triggerData executionId environment).trace
  | resume (env : RunEnv) {e : WorkflowExecution} (he : e.executionId = executionId)
      (approved : Bool) {c : CallResult} (hc : resume env wf e approved = .ok c) :
      ExecutorCall wf executionId c.trace

private theorem runRounds_executionId {seg : Segment} {env : RunEnv} {wf : WorkflowDefinition}
    {s₀ : LoopState} (h₀ : s₀.trace = []) (rounds : Nat) :
    ∀ ctx ∈ contexts (runRounds seg env wf rounds s₀).state.trace,
      ctx.executionId = s₀.execution.executionId := by
  let I (s : LoopState) : Prop := s.execution.executionId = s₀.execution.executionId ∧
    ∀ ctx ∈ contexts s.trace, ctx.executionId = s₀.execution.executionId
  refine runRounds_contexts seg env wf (I := I)
    (P := fun ctxs => ∀ ctx ∈ ctxs, ctx.executionId = s₀.execution.executionId) ?_
    (fun _ _ h => h) (fun _ h => h.2) ⟨rfl, by simp [h₀, contexts]⟩ rounds
  rintro nid s ⟨hid, hctxs⟩
  have hadded : ∀ ctx ∈ contexts (processNode seg env wf nid s).state.trace,
      ctx.executionId = s₀.execution.executionId := by
    rcases processNode_vars seg env wf nid s with hidle | ⟨n, inputData, -, hran⟩
    · rw [hidle.ran]
      exact hctxs
    · intro ctx hctx
      rw [hran.ran, List.mem_append, List.mem_singleton] at hctx
      rcases hctx with hctx | rfl
      · exact hctxs ctx hctx
      · exact hid
  refine ⟨hadded, fun s' hs' => ⟨(processNode_identity hs').1.trans hid, ?_⟩⟩
  rw [hs'] at hadded
  exact hadded

/-- Every node of the call is run under the id of the execution. -/
theorem ExecutorCall.executionId_eq {wf : WorkflowDefinition} {executionId : String}
    {t : List Event} (h : ExecutorCall wf executionId t) :
    ∀ ctx ∈ contexts t, ctx.executionId = executionId := by
  cases h with
  | execute env triggerData environment =>
      exact execute_contexts env wf triggerData executionId environment
        (P := fun ctxs => ∀ ctx ∈ ctxs, ctx.executionId = executionId) (List.forall_mem_nil _)
        (runRounds_executionId executeStart_fresh.trace _)
  | resume env he approved hc =>
      cases approved with
      | true =>
          obtain ⟨-, rfl⟩ := resume_approved hc
          rw [LoopState.toResult, settle_contexts, ← he]
          exact runRounds_executionId resumeStart_fresh.trace _
      | false =>
          -- a rejection runs no node
          unfold CitraFlows.resume at hc
          split at hc
          next => cases hc
          next =>
            cases hc
            rw [LoopState.toResult, contexts_sweep, contexts_save]
            exact List.forall_mem_nil _

/-- What a state node does to the collection: it reads, which may fail, or it writes. -/
inductive StateVisit where
  | get (readFails : Bool)
  | set (write : Write)

def StateVisit.nodeType : StateVisit → NodeType
  | .get _ => .workflowStateGet
  | .set _ => .workflowStateSet

/-- A state node of a run that accesses the collection. -/
structure StateAccess where
  wf : WorkflowDefinition
  executionId : String
  ctx : NodeContext
  visit : StateVisit
  /-- `execute()` draws an id where it is given none. -/
  named : executionId ≠ ""
  driven : ∃ t, ExecutorCall wf executionId t ∧ ctx ∈ contexts t
  node : ∃ n, wf.nodeMap ctx.nodeId = some n ∧ n.type = visit.nodeType

namespace StateAccess

section

variable (word : Char → Bool) (jsonLoads : String → Except PyError Value)

/-- The document that an access has written. -/
def stored (a : StateAccess) : Option ((String × String) × Value) :=
  match a.visit with
  | .get _ => none
  | .set write =>
      match WorkflowStateSetNode.slot word jsonLoads a.ctx with
      | .ok doc => if write.ran then some doc else none
      | .error _ => none

/-- `update_one(..., upsert=True)` -/
def after (docs : StateDocs) (a : StateAccess) : StateDocs :=
  match a.stored word jsonLoads with
  | some (slot, value) => docs.insert slot value
  | none => docs

/-- The collection after the accesses. -/
def docsAfter (as : List StateAccess) : StateDocs := as.foldl (after word jsonLoads) ∅

/-- The latest value that one of these accesses has stored under the key. -/
def latest (among : StateAccess → Bool) (key : String) (as : List StateAccess) : Option Value :=
  as.foldl (fun value a =>
    match a.stored word jsonLoads with
    | some (slot, v) => if among a && slot.2 = key then some v else value
    | none => value) none

end

variable {word : Char → Bool} {jsonLoads : String → Except PyError Value}

/-- The node has no Workflow ID Override. -/
def NoOverride (a : StateAccess) : Prop := workflowIdOverride a.ctx.config = .ok ""

/-- Where a state node without an override keeps its values. -/
theorem stateWorkflowId_eq {a : StateAccess} (h : a.NoOverride) :
    a.ctx.stateWorkflowId = .ok (executionPrefix a.executionId) := by
  obtain ⟨t, ht, hctx⟩ := a.driven
  have heq := ht.executionId_eq a.ctx hctx
  rw [NodeContext.stateWorkflowId, h, heq]
  simp [Except.bind, a.named]

theorem stored_prefix {a : StateAccess} (h : a.NoOverride) {slot : String × String} {v : Value}
    (hstored : a.stored word jsonLoads = some (slot, v)) :
    slot.1 = executionPrefix a.executionId := by
  obtain ⟨t, ht, hctx⟩ := a.driven
  have heq := ht.executionId_eq a.ctx hctx
  unfold stored at hstored
  cases hvisit : a.visit with
  | get => simp [hvisit] at hstored
  | set write =>
      simp only [hvisit] at hstored
      cases hslot : WorkflowStateSetNode.slot word jsonLoads a.ctx with
      | error e => simp [hslot] at hstored
      | ok doc =>
          have hdoc : doc = (slot, v) := by
            simp only [hslot] at hstored
            split at hstored <;> simp_all
          subst hdoc
          unfold WorkflowStateSetNode.slot at hslot
          cases hkey : stateKey a.ctx.config with
          | error e => simp [hkey, bind, Except.bind] at hslot
          | ok key =>
              cases hvalue : WorkflowStateSetNode.value word jsonLoads a.ctx with
              | error e => simp [hkey, hvalue, bind, Except.bind] at hslot
              | ok value =>
                  cases hwf : a.ctx.stateWorkflowId with
                  | error e => simp [hkey, hvalue, hwf, bind, Except.bind] at hslot
                  | ok wfId =>
                      simp only [hkey, hvalue, hwf, bind, Except.bind, pure, Except.pure,
                        Except.ok.injEq, Prod.mk.injEq] at hslot
                      obtain ⟨rfl, rfl⟩ := hslot
                      rcases NodeContext.stateWorkflowId_cases hwf with ⟨hid, hne⟩ | hid
                      · rw [h] at hid
                        exact absurd (Except.ok.inj hid).symm hne
                      · rw [hid, heq]

theorem docsAfter_concat (as : List StateAccess) (a : StateAccess) :
    docsAfter word jsonLoads (as ++ [a]) =
      after word jsonLoads (docsAfter word jsonLoads as) a := by
  rw [docsAfter, List.foldl_append]
  rfl

theorem latest_concat (among : StateAccess → Bool) (key : String) (as : List StateAccess)
    (a : StateAccess) :
    latest word jsonLoads among key (as ++ [a]) =
      match a.stored word jsonLoads with
      | some (slot, v) =>
          if among a && slot.2 = key then some v else latest word jsonLoads among key as
      | none => latest word jsonLoads among key as := by
  rw [latest, List.foldl_append]
  rfl

/-- A slot holds the latest value that a run with its part of the execution id has stored. -/
theorem lookup_docsAfter {as : List StateAccess} (h : ∀ a ∈ as, a.NoOverride)
    (slot : String × String) :
    (docsAfter word jsonLoads as).lookup slot =
      latest word jsonLoads (fun a => executionPrefix a.executionId = slot.1) slot.2 as := by
  induction as using List.reverseRecOn with
  | nil => rfl
  | append_singleton as a ih =>
      rw [docsAfter_concat, latest_concat, after]
      have hold := ih fun b hb => h b (List.mem_append_left _ hb)
      cases hstored : a.stored word jsonLoads with
      | none => exact hold
      | some doc =>
          obtain ⟨slot', v⟩ := doc
          have hrun := stored_prefix (h a (by simp)) hstored
          simp only
          by_cases hslot : slot' = slot
          · subst hslot
            simp [AList.lookup_insert, ← hrun]
          · have hother : ¬(executionPrefix a.executionId = slot.1 ∧ slot'.2 = slot.2) := fun heq =>
              hslot (Prod.ext (hrun.trans heq.1) heq.2)
            rw [AList.lookup_insert_ne (Ne.symm hslot), hold]
            simp [hother]

theorem latest_congr {among among' : StateAccess → Bool} {key : String} {as : List StateAccess}
    (h : ∀ a ∈ as, among a = among' a) :
    latest word jsonLoads among key as = latest word jsonLoads among' key as := by
  induction as using List.reverseRecOn with
  | nil => rfl
  | append_singleton as a ih =>
      rw [latest_concat, latest_concat, ih fun b hb => h b (List.mem_append_left _ hb),
        h a (by simp)]

/-! ## What a read yields -/

/-- The access is a read, and it yields the value: in its output, and as a variable. -/
def Yields (word : Char → Bool) (docs : StateDocs) (a : StateAccess) (key : String) (v : Value) :
    Prop :=
  ∃ readFails output vars, a.visit = .get readFails ∧
    WorkflowStateGetNode.execute word docs readFails a.ctx = .ok (output, vars) ∧
    Value.getD (outputMeta output) "value" = v ∧ vars.lookup key = some v

/-- What the read is to yield: the latest value among those of the given runs, or its default. -/
def expected (word : Char → Bool) (jsonLoads : String → Except PyError Value)
    (among : StateAccess → Bool) (before : List StateAccess) (a : StateAccess) (key : String) :
    Value :=
  stateValue (stateDefault word a.ctx) (latest word jsonLoads among key before)

def sameWorkflow (a b : StateAccess) : Bool := b.wf.workflowId = a.wf.workflowId

def samePrefix (a b : StateAccess) : Bool :=
  executionPrefix b.executionId = executionPrefix a.executionId

/-- A read yields what the runs with its part of the execution id have stored. -/
theorem get_yields {before : List StateAccess} {a : StateAccess}
    (h : ∀ b ∈ before, b.NoOverride) (ha : a.NoOverride) (hvisit : a.visit = .get false)
    {key : String} (hkey : stateKey a.ctx.config = .ok key) :
    Yields word (docsAfter word jsonLoads before) a key
      (expected word jsonLoads (samePrefix a) before a key) := by
  have hlatest : (docsAfter word jsonLoads before).lookup (executionPrefix a.executionId, key) =
      latest word jsonLoads (samePrefix a) key before := lookup_docsAfter h _
  have hexec : WorkflowStateGetNode.execute word (docsAfter word jsonLoads before) false a.ctx =
      .ok (makeOutput a.ctx.items [("key", .str key),
          ("value", expected word jsonLoads (samePrefix a) before a key),
          ("workflow_id", .str (executionPrefix a.executionId)),
          ("from_default", .bool (latest word jsonLoads (samePrefix a) key before).isNone)],
        a.ctx.vars.insert key (expected word jsonLoads (samePrefix a) before a key)) := by
    simp only [WorkflowStateGetNode.execute, hkey, stateWorkflowId_eq ha, bind, Except.bind, pure,
      Except.pure, Bool.false_eq_true, if_false, hlatest]
    rfl
  exact ⟨false, _, _, hvisit, hexec, rfl, AList.lookup_insert _⟩

/-- The runs of a workflow have one first part of the execution id, and no run of another workflow
has it. -/
def PrefixesNameWorkflows (as : List StateAccess) : Prop :=
  ∀ a ∈ as, ∀ b ∈ as, samePrefix a b = sameWorkflow a b

/-- State is carried from run to run as long as the execution ids begin with what stands for the
workflow: each read that does not fail yields the latest value that a run of its workflow has
stored. -/
theorem carried_of_prefixes (word : Char → Bool) (jsonLoads : String → Except PyError Value)
    (as : List StateAccess) (hoverride : ∀ a ∈ as, a.NoOverride) (h : PrefixesNameWorkflows as)
    (before after : List StateAccess) (a : StateAccess) (has : as = before ++ a :: after)
    (hvisit : a.visit = .get false) (key : String) (hkey : stateKey a.ctx.config = .ok key) :
    Yields word (docsAfter word jsonLoads before) a key
      (expected word jsonLoads (sameWorkflow a) before a key) := by
  subst has
  have hbefore : ∀ b ∈ before, b ∈ before ++ a :: after := fun b hb => List.mem_append_left _ hb
  have ha : a ∈ before ++ a :: after := by simp
  have hsame : expected word jsonLoads (sameWorkflow a) before a key =
      expected word jsonLoads (samePrefix a) before a key := by
    rw [expected, expected, latest_congr fun b hb => (h a ha b (hbefore b hb)).symm]
  rw [hsame]
  exact get_yields (fun b hb => hoverride b (hbefore b hb)) (hoverride a ha) hvisit hkey

/-! ### Two runs of a workflow -/

/-- A workflow that reads a watermark and then sets it. -/
def stateFlow : WorkflowDefinition where
  workflowId := "claims"
  nodes := [{ id := "start", type := .manualTrigger },
    { id := "get", type := .workflowStateGet, config := [("key", .str "last_run_at")] },
    { id := "set", type := .workflowStateSet,
      config := [("key", .str "last_run_at"), ("value", .str "2025-09-15T00:00:00Z")] }]
  edges := [{ source := "start", target := "get" }, { source := "get", target := "set" }]

def stateCall (executionId : String) : CallResult :=
  execute (.calm fun _ => .completed (makeOutput [] []) 0 []) stateFlow [] executionId "test"

/-- The text of a date is no JSON. -/
def dateLoads (_ : String) : Except PyError Value := .error (.valueError "Extra data")

/-- The state nodes of a run, with the config of their definition. -/
theorem stateCall_context {executionId : String} {nid : NodeId} {n : NodeDefinition}
    (hmem : nid ∈ (contexts (stateCall executionId).trace).map (·.nodeId))
    (hn : stateFlow.nodeMap nid = some n) :
    ∃ ctx ∈ contexts (stateCall executionId).trace, ctx.nodeId = nid ∧ ctx.config = n.config := by
  obtain ⟨ctx, hctx, rfl⟩ := List.mem_map.mp hmem
  refine ⟨ctx, hctx, rfl, ?_⟩
  obtain ⟨n', inputData, s, hn', heq⟩ := execute_ofWorkflow _ _ _ _ _ ctx hctx
  rw [hn, Option.some_inj] at hn'
  rw [heq, hn']
  rfl

/-- A run of the workflow makes the access. -/
theorem exists_stateAccess {executionId : String} (hid : executionId ≠ "") {nid : NodeId}
    {n : NodeDefinition} (visit : StateVisit)
    (hmem : nid ∈ (contexts (stateCall executionId).trace).map (·.nodeId))
    (hn : stateFlow.nodeMap nid = some n) (htype : n.type = visit.nodeType) :
    ∃ a : StateAccess, a.wf = stateFlow ∧ a.executionId = executionId ∧ a.visit = visit ∧
      a.ctx.config = n.config := by
  obtain ⟨ctx, hctx, rfl, hconfig⟩ := stateCall_context hmem hn
  exact ⟨{ wf := stateFlow, executionId, ctx, visit, named := hid
           driven := ⟨_, .execute _ _ _, hctx⟩, node := ⟨n, hn, htype⟩ }, rfl, rfl, rfl, hconfig⟩

def watermark : String := "2025-09-15T00:00:00Z"

/-- Two runs of the workflow: the first sets the watermark, the second reads it. -/
theorem exists_watermark_runs {first second : String} (hfirst : first ≠ "") (hsecond : second ≠ "")
    (hset : "set" ∈ (contexts (stateCall first).trace).map (·.nodeId))
    (hget : "get" ∈ (contexts (stateCall second).trace).map (·.nodeId)) :
    ∃ a b : StateAccess, a.wf = stateFlow ∧ b.wf = stateFlow ∧ a.executionId = first ∧
      b.executionId = second ∧ a.NoOverride ∧ b.NoOverride ∧ b.visit = .get false ∧
      stateKey b.ctx.config = .ok "last_run_at" ∧ stateDefault Char.isAlphanum b.ctx = .none ∧
      a.stored Char.isAlphanum dateLoads =
        some ((executionPrefix first, "last_run_at"), .str watermark) := by
  obtain ⟨a, hawf, haid, havisit, haconfig⟩ := exists_stateAccess hfirst (.set .done) hset rfl rfl
  obtain ⟨b, hbwf, hbid, hbvisit, hbconfig⟩ := exists_stateAccess hsecond (.get false) hget rfl rfl
  have hoverride : a.NoOverride := by
    rw [NoOverride, haconfig]
    rfl
  refine ⟨a, b, hawf, hbwf, haid, hbid, hoverride, ?_, hbvisit, ?_, ?_, ?_⟩
  · rw [NoOverride, hbconfig]
    rfl
  · rw [hbconfig]
    decide +kernel
  · rw [stateDefault, hbconfig]
    rfl
  · have hkey : stateKey a.ctx.config = .ok "last_run_at" := by
      rw [haconfig]
      decide +kernel
    have hvalue : WorkflowStateSetNode.value Char.isAlphanum dateLoads a.ctx =
        .ok (.str watermark) := by
      have hraw : Value.getD a.ctx.config "value" = .str watermark := by
        rw [haconfig]
        rfl
      have hblank : ¬Python.strip watermark.toList = [] := by decide +kernel
      rw [WorkflowStateSetNode.value, hraw]
      simp only [if_neg hblank, dateLoads, Template.interpolateDotted_of_no_brace _ _ _
        (by decide +kernel : '{' ∉ watermark.toList)]
    have hid : a.ctx.stateWorkflowId = .ok (executionPrefix first) := by
      rw [stateWorkflowId_eq hoverride, haid]
    simp only [stored, havisit, WorkflowStateSetNode.slot, hkey, hvalue, hid, bind, Except.bind,
      pure, Except.pure, Write.ran, if_true]

/-- Under ids that begin with the workflow the second run reads the watermark of the first. -/
theorem watermark_carried : ∃ a b : StateAccess, a.wf = stateFlow ∧ b.wf = stateFlow ∧
    a.executionId = "claims:1" ∧ b.executionId = "claims:2" ∧
    Yields Char.isAlphanum (docsAfter Char.isAlphanum dateLoads [a]) b "last_run_at"
      (.str watermark) := by
  obtain ⟨a, b, hawf, hbwf, haid, hbid, haoverride, hboverride, hvisit, hkey, hdefault, hstored⟩ :=
    @exists_watermark_runs "claims:1" "claims:2" (by decide) (by decide) (by decide +kernel)
      (by decide +kernel)
  refine ⟨a, b, hawf, hbwf, haid, hbid, ?_⟩
  have hprefixes : PrefixesNameWorkflows [a, b] := by
    have hsame : executionPrefix "claims:1" = executionPrefix "claims:2" := by decide +kernel
    intro x hx y hy
    simp only [List.mem_cons, List.not_mem_nil, or_false] at hx hy
    rcases hx with rfl | rfl <;> rcases hy with rfl | rfl <;>
      simp [samePrefix, sameWorkflow, haid, hbid, hawf, hbwf, hsame]
  have hcarried := carried_of_prefixes Char.isAlphanum dateLoads [a, b]
    (by simp [haoverride, hboverride]) hprefixes [a] [] b rfl hvisit "last_run_at" hkey
  have hexpected : expected Char.isAlphanum dateLoads (sameWorkflow b) [a] b "last_run_at" =
      .str watermark := by
    simp [expected, latest, hstored, sameWorkflow, hawf, hbwf, stateValue]
  rw [← hexpected]
  exact hcarried

/-- Under the ids that the engine draws it reads the default. -/
theorem watermark_lost : ∃ a b : StateAccess, a.wf = stateFlow ∧ b.wf = stateFlow ∧
    a.NoOverride ∧ b.NoOverride ∧ b.visit = .get false ∧
    stateKey b.ctx.config = .ok "last_run_at" ∧
    expected Char.isAlphanum dateLoads (sameWorkflow b) [a] b "last_run_at" = .str watermark ∧
    Yields Char.isAlphanum (docsAfter Char.isAlphanum dateLoads [a]) b "last_run_at" .none ∧
    ¬Yields Char.isAlphanum (docsAfter Char.isAlphanum dateLoads [a]) b "last_run_at"
      (expected Char.isAlphanum dateLoads (sameWorkflow b) [a] b "last_run_at") := by
  obtain ⟨a, b, hawf, hbwf, haid, hbid, haoverride, hboverride, hvisit, hkey, hdefault, hstored⟩ :=
    @exists_watermark_runs "8f14e45f-ceea-467f-a0e6-2d8f1b1c0a11"
      "45c48cce-2e2d-4fbd-aa1a-fc51c7c6ad26" (by decide) (by decide) (by decide +kernel)
      (by decide +kernel)
  have hexpected : expected Char.isAlphanum dateLoads (sameWorkflow b) [a] b "last_run_at" =
      .str watermark := by
    simp [expected, latest, hstored, sameWorkflow, hawf, hbwf, stateValue]
  have hyields := @get_yields Char.isAlphanum dateLoads [a] b (by simp [haoverride]) hboverride
    hvisit "last_run_at" hkey
  have hdiffer : executionPrefix a.executionId ≠ executionPrefix b.executionId := by
    rw [haid, hbid]
    decide +kernel
  have hnone : expected Char.isAlphanum dateLoads (samePrefix b) [a] b "last_run_at" = .none := by
    simp [expected, latest, hstored, samePrefix, hdiffer, stateValue, hdefault]
  rw [hnone] at hyields
  refine ⟨a, b, hawf, hbwf, haoverride, hboverride, hvisit, hkey, hexpected, hyields, ?_⟩
  rw [hexpected]
  rintro ⟨_, _, _, hvisit', hexec, hvalue, -⟩
  obtain ⟨_, _, _, hvisit'', hexec', hvalue', -⟩ := hyields
  cases hvisit'.symm.trans hvisit''
  cases hexec.symm.trans hexec'
  cases hvalue.symm.trans hvalue'

end StateAccess

end CitraFlows
