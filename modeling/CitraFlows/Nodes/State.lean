-- SUMMARY: Under which workflow id the state nodes read and write their values.
import CitraFlows.Executor.Loop

/-!
# Workflow state

`WORKFLOW_STATE_GET` and `WORKFLOW_STATE_SET` keep their values under a workflow id and a key. The
id is that of the node's override, or the first part of the execution id: `execute()` hands a
workflow context to agent nodes only.
-/

namespace CitraFlows

def NodeType.usesState : NodeType → Bool
  | .workflowStateGet | .workflowStateSet => true
  | _ => false

/-- `execution_id.split(":")[0]` -/
def executionPrefix (executionId : String) : String :=
  String.ofList (executionId.toList.takeWhile (· ≠ ':'))

/-- `(config.get("workflow_id_override") or "").strip()` -/
def workflowIdOverride (config : List (String × Value)) : Except PyError String :=
  let override := Value.getD config "workflow_id_override"
  if override.truthy then
    match override with
    | .str s => .ok (String.ofList (Python.strip s.toList))
    | v => .error (.attributeError v.typeName "strip")
  else .ok ""

namespace NodeContext

/-- `_resolve_workflow_id` -/
def stateWorkflowId (ctx : NodeContext) : Except PyError String :=
  (workflowIdOverride ctx.config).bind fun override =>
    if override ≠ "" then .ok override
    else if ctx.executionId ≠ "" then .ok (executionPrefix ctx.executionId)
    else
      .error (.valueError ("workflow_state node could not resolve a workflow_id " ++
        "(set the 'Workflow ID Override' field or run inside a real workflow)"))

theorem stateWorkflowId_cases {ctx : NodeContext} {id : String}
    (h : ctx.stateWorkflowId = .ok id) :
    workflowIdOverride ctx.config = .ok id ∧ id ≠ "" ∨
      id = executionPrefix ctx.executionId := by
  unfold stateWorkflowId at h
  cases hoverride : workflowIdOverride ctx.config with
  | error e => simp [hoverride, Except.bind] at h
  | ok override =>
      simp only [hoverride, Except.bind] at h
      split at h
      next hne =>
        cases h
        exact .inl ⟨rfl, hne⟩
      next =>
        split at h
        next => exact .inr (by cases h; rfl)
        next => cases h

end NodeContext

end CitraFlows
