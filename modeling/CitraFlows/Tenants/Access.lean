-- SUMMARY: Who may use the workflow API: the claims of a request, the access roles, and the checks of a request on the workflow it names.
import CitraFlows.Workflows.Model

/-!
# Access to the workflow API

Every endpoint decides from the claims of the token. Some roles open the workflow API at all, and
a workflow belongs to one organisation, whose members with such a role may do anything with it. A
`super_admin` may do so with the workflows of every organisation.
-/

namespace CitraFlows

/-- The claims that the endpoints read, as `_jwt_claims` returns them. -/
structure JwtClaims where
  userId : String := ""
  email : String := ""
  orgId : String := ""
  deptIds : List String := []
  roles : List String := []
  deriving DecidableEq

/-- An `HTTPException` -/
structure Refusal where
  statusCode : Nat
  detail : String
  deriving DecidableEq

namespace JwtClaims

def isSuperAdmin (claims : JwtClaims) : Bool := claims.roles.contains "super_admin"

end JwtClaims

/-- `WORKFLOW_ACCESS_ROLES` -/
def workflowAccessRoles : List String := ["super_admin", "org_admin", "IT-workflow"]

/-- `_has_workflow_access`; `itDeptId` is `IT_DEPT_ID`, in lower case. -/
def hasWorkflowAccess (itDeptId : String) (claims : JwtClaims) : Bool :=
  claims.roles.any (workflowAccessRoles.contains ·) ||
    (claims.roles.contains "dept_admin" &&
      (claims.deptIds.map fun d => String.ofList (Python.lower d.toList)).contains itDeptId)

/-- `_require_workflow_access` -/
def requireWorkflowAccess (itDeptId : String) (claims : JwtClaims) : Option Refusal :=
  if !hasWorkflowAccess itDeptId claims then
    some ⟨403, "workflow access requires IT-workflow, org_admin, super_admin, or IT-dept admin role"⟩
  else if claims.orgId = "" then
    some ⟨403, "workflow access requires an org-scoped identity"⟩
  else none

/-- `_same_org_or_super` -/
def sameOrgOrSuper (claims : JwtClaims) : Option StoredWorkflow → Bool
  | none => false
  | some wf => claims.isSuperAdmin || wf.orgId = claims.orgId

/-- `_check_workflow_action`, which decides alike for every action. -/
def checkWorkflowAction (itDeptId : String) (claims : JwtClaims) (wf : StoredWorkflow) :
    Option Refusal :=
  if claims.isSuperAdmin then none
  else if !hasWorkflowAccess itDeptId claims then
    some ⟨403, "workflow access requires IT-workflow, org_admin, super_admin, or IT-dept admin role"⟩
  else if wf.orgId ≠ claims.orgId then some ⟨403, "workflow belongs to a different org"⟩
  else none

namespace WorkflowOp

/-- The endpoint starts with `_require_workflow_access`. -/
def requiresAccess : WorkflowOp → Bool
  | .create .. | .patchSchedule .. | .archive | .restore | .duplicate .. | .deleteVersion _ => true
  | .update _ | .deploy .. | .undeploy | .rollback _ | .rotateWebhookToken .. | .delete => false

/-- The check of the endpoint on the workflow it has found. -/
def guard (itDeptId : String) (claims : JwtClaims) (wf : StoredWorkflow) :
    WorkflowOp → Option Refusal
  | .patchSchedule .. =>
      if sameOrgOrSuper claims (some wf) then none else some ⟨403, "workflow is not in your org"⟩
  | .archive | .restore =>
      if sameOrgOrSuper claims (some wf) then none else some ⟨403, "workflow outside your org"⟩
  | _ => checkWorkflowAction itDeptId claims wf

/-- The owner of what is created is the caller, whatever the body says. -/
def asCaller (claims : JwtClaims) : WorkflowOp → WorkflowOp
  | .create name _ _ deptIds g =>
      .create name claims.orgId claims.userId (if deptIds = [] then claims.deptIds else deptIds) g
  | .duplicate newId _ => .duplicate newId claims.orgId
  | op => op

end WorkflowOp

/-! ## What the checks let pass -/

section

variable {itDeptId : String} {claims : JwtClaims} {wf : StoredWorkflow}

theorem sameOrgOrSuper_some :
    sameOrgOrSuper claims (some wf) = true ↔ claims.isSuperAdmin = true ∨ wf.orgId = claims.orgId := by
  simp [sameOrgOrSuper]

theorem checkWorkflowAction_eq_none :
    checkWorkflowAction itDeptId claims wf = none ↔ claims.isSuperAdmin = true ∨
      hasWorkflowAccess itDeptId claims = true ∧ wf.orgId = claims.orgId := by
  unfold checkWorkflowAction
  cases hsuper : claims.isSuperAdmin with
  | true => simp
  | false =>
      cases haccess : hasWorkflowAccess itDeptId claims with
      | false => simp
      | true => by_cases horg : wf.orgId = claims.orgId <;> simp [horg]

/-- Every check of an endpoint on a workflow lets its organisation pass, and the super admins. -/
theorem WorkflowOp.guard_eq_none {op : WorkflowOp} (h : op.guard itDeptId claims wf = none) :
    claims.isSuperAdmin = true ∨ wf.orgId = claims.orgId := by
  have hcheck : checkWorkflowAction itDeptId claims wf = none →
      claims.isSuperAdmin = true ∨ wf.orgId = claims.orgId := fun hnone =>
    (checkWorkflowAction_eq_none.mp hnone).imp_right And.right
  have hsame : ∀ r : Refusal, (if sameOrgOrSuper claims (some wf) then none else some r) = none →
      claims.isSuperAdmin = true ∨ wf.orgId = claims.orgId := by
    intro r hnone
    by_cases hpass : sameOrgOrSuper claims (some wf) = true
    · exact sameOrgOrSuper_some.mp hpass
    · rw [if_neg hpass] at hnone
      cases hnone
  cases op with
  | patchSchedule enabled cronExpression => exact hsame _ h
  | archive | restore => exact hsame _ h
  | create name orgId userId deptIds g => exact hcheck h
  | update body => exact hcheck h
  | deploy token secret => exact hcheck h
  | undeploy | delete => exact hcheck h
  | rollback number => exact hcheck h
  | duplicate newId orgId => exact hcheck h
  | deleteVersion number => exact hcheck h
  | rotateWebhookToken token secret => exact hcheck h

end

end CitraFlows
