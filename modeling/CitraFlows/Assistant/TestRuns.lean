-- SUMMARY: Which test runs of the assistant stay with the caller's organisation: those whose definition carries no tenant field of another one.
import CitraFlows.Assistant.Turns
import CitraFlows.Executor.VariableFlow

/-!
# Confinement of test runs

`run_workflow_test` fills in the caller's organisation, user and departments where the supplied
workflow has none. A supplied value wins, and so does a supplied workflow id.
-/

namespace CitraFlows

/-! ## Confinement -/

/-- The fields that say whose a workflow is. -/
def tenantKeys : List String := ["user_id", "org_id", "dept_ids", "owner_type", "owner_id"]

/-- `orgOf` is the organisation of a stored workflow: the id is not that of another one's. -/
def Caller.mayUse (who : Caller) (orgOf : String → Option String) (id : String) : Bool :=
  (orgOf id).all (· = who.orgId)

/-- The workflow whose state a state node shares. -/
def NodeDefinition.stateOverride (n : NodeDefinition) : Option String :=
  if n.type.usesState then
    match workflowIdOverride n.config with
    | .ok id => if id = "" then none else some id
    | .error _ => none
  else none

/-- The key of a file that a node reads or writes. -/
def NodeContext.fileKey (ctx : NodeContext) (root path : String) : String :=
  root ++ "/workflows/" ++ ctx.userId ++ "/" ++ path

/-- The job is the caller's: no owner but its organisation, no token for another one, and no
workflow id of another one's workflow. -/
structure TestJob.Confined (who : Caller) (orgOf : String → Option String) (job : TestJob) :
    Prop where
  orgId : job.definition.orgId = who.orgId
  userId : job.definition.userId = who.userId
  owner : job.definition.ownerType = "org" ∧
    (job.definition.ownerId = "" ∨ job.definition.ownerId = who.orgId)
  token : ∀ t, job.jwtToken = some t → t.orgId = who.orgId
  workflowId : who.mayUse orgOf job.definition.workflowId = true
  state : ∀ n ∈ job.definition.nodes, ∀ id, n.stateOverride = some id →
    who.mayUse orgOf id = true

/-- What a node can reach from its context. -/
structure NodeContext.Confined (who : Caller) (orgOf : String → Option String) (usesState : Bool)
    (ctx : NodeContext) : Prop where
  connections : ∀ (store : ConnectionStore) id config, ctx.resolve store id = .ok config →
    ∃ doc, store.find id = some doc ∧ (doc.getOr "org_id" (.str "")).eqStr who.orgId = true
  files : ∀ root path, ctx.fileKey root path = root ++ "/workflows/" ++ who.userId ++ "/" ++ path
  state : usesState = true → ∀ id, ctx.stateWorkflowId = .ok id →
    id = executionPrefix ctx.executionId ∨ who.mayUse orgOf id = true

/-- Every node of a run of the job is confined. -/
def TestJob.RunConfined (who : Caller) (orgOf : String → Option String) (job : TestJob) : Prop :=
  ∀ encode env result, job.run encode env = some result → ∀ ctx ∈ contexts result.trace,
    ctx.Confined who orgOf ((job.definition.nodeMap ctx.nodeId).any (·.type.usesState))

/-- What a run depends on: the id of the owner counts for a service account only. -/
def TestJob.seen (job : TestJob) : TestJob :=
  { job with definition.ownerId :=
      if job.definition.ownerType = "service_account" then job.definition.ownerId else "" }

/-- The request without the tenant fields that are supplied. -/
def TestRequest.untagged (r : TestRequest) : TestRequest :=
  { r with supplied := r.supplied.filter fun e => e.1 ∉ tenantKeys }

/-- The job and its runs stay with the caller, and the tenant fields that are supplied make no
difference. -/
structure TestRequest.StaysWithin (pd : Pydantic) (who : Caller) (orgOf : String → Option String)
    (r : TestRequest) : Prop where
  confined : ∀ job, r.job pd = some job → job.Confined who orgOf
  runConfined : ∀ job, r.job pd = some job → job.RunConfined who orgOf
  ignoresTenants : (r.job pd).map TestJob.seen = (r.untagged.job pd).map TestJob.seen

/-- The workflow id of the definition. -/
def TestRequest.workflowId (r : TestRequest) : Value :=
  (Value.field r.supplied "workflow_id").getD
    (if r.identity.workflowId.truthy then r.identity.workflowId else .str "ai-test")

/-- A tenant field that is supplied has the value of the caller, and the workflow ids that are
supplied are not those of another organisation's workflows. -/
def TestRequest.carriesOwn (pd : Pydantic) (who : Caller) (orgOf : String → Option String)
    (r : TestRequest) : Bool :=
  (Value.field r.supplied "org_id").all (·.eqStr who.orgId) &&
  (Value.field r.supplied "user_id").all (·.eqStr who.userId) &&
  (Value.field r.supplied "owner_type").all (·.eqStr "org") &&
  (Value.field r.supplied "owner_id").all (fun v => v.eqStr "" || v.eqStr who.orgId) &&
  ((Value.field r.supplied "dept_ids").isNone ||
    readStrs r.supplied "dept_ids" = some who.deptIds) &&
  who.mayUse orgOf (r.workflowId.asStr.getD "") &&
  ((readField pd.nodes [] r.supplied "nodes").getD []).all fun n =>
    n.stateOverride.all (who.mayUse orgOf)

/-! ## Reading the definition -/

section Reading

variable {pd : Pydantic} {d : Entries} {wf : WorkflowDefinition}

theorem readStr_eq_some {key default s : String} :
    readStr d key default = some s ↔
      Value.field d key = some (.str s) ∨ Value.field d key = none ∧ default = s := by
  unfold readStr
  cases hfield : Value.field d key with
  | none => simp
  | some v => cases v <;> simp

theorem readStr_of_field {d' : Entries} {key default : String}
    (h : Value.field d' key = Value.field d key) : readStr d' key default = readStr d key default := by
  rw [readStr, readStr, h]

theorem readOptStr_of_field {d' : Entries} {key : String} {default : Option String}
    (h : Value.field d' key = Value.field d key) :
    readOptStr d' key default = readOptStr d key default := by
  rw [readOptStr, readOptStr, h]

theorem readField_of_field {α : Type} {read : Value → Option α} {default : α} {d' : Entries}
    {key : String} (h : Value.field d' key = Value.field d key) :
    readField read default d' key = readField read default d key := by
  rw [readField, readField, h]

/-- What a definition is read from. -/
structure Pydantic.Reads (pd : Pydantic) (d : Entries) (wf : WorkflowDefinition) : Prop where
  workflowId : ∃ id, readOptStr d "workflow_id" (some pd.freshId) = some id ∧
    wf.workflowId = id.getD ""
  name : (Value.field d "name").bind Value.asStr = some wf.name
  userId : readStr d "user_id" "" = some wf.userId
  ownerType : (readStr d "owner_type" "org").filter (· ∈ ownerTypes) = some wf.ownerType
  ownerId : readStr d "owner_id" "" = some wf.ownerId
  orgId : readStr d "org_id" "" = some wf.orgId
  deptIds : readStrs d "dept_ids" = some wf.deptIds
  authorUserId : readStr d "author_user_id" "" = some wf.authorUserId
  linkedSmartAppId : readOptStr d "linked_smart_app_id" none = some wf.linkedSmartAppId
  nodes : readField pd.nodes [] d "nodes" = some wf.nodes
  edges : readField pd.edges [] d "edges" = some wf.edges
  vars : readField pd.vars ∅ d "variables" = some wf.vars
  accepts : pd.accepts (d.filter fun e => e.1 ∉ definitionKeys) = true

theorem Pydantic.workflowDefinition_eq_some :
    pd.workflowDefinition d = some wf ↔ pd.Reads d wf := by
  unfold workflowDefinition
  constructor
  · intro h
    obtain ⟨id, hid, h⟩ := Option.bind_eq_some_iff.mp h
    obtain ⟨name, hname, h⟩ := Option.bind_eq_some_iff.mp h
    obtain ⟨userId, huserId, h⟩ := Option.bind_eq_some_iff.mp h
    obtain ⟨ownerType, hownerType, h⟩ := Option.bind_eq_some_iff.mp h
    obtain ⟨ownerId, hownerId, h⟩ := Option.bind_eq_some_iff.mp h
    obtain ⟨orgId, horgId, h⟩ := Option.bind_eq_some_iff.mp h
    obtain ⟨deptIds, hdeptIds, h⟩ := Option.bind_eq_some_iff.mp h
    obtain ⟨author, hauthor, h⟩ := Option.bind_eq_some_iff.mp h
    obtain ⟨app, happ, h⟩ := Option.bind_eq_some_iff.mp h
    obtain ⟨nodes, hnodes, h⟩ := Option.bind_eq_some_iff.mp h
    obtain ⟨edges, hedges, h⟩ := Option.bind_eq_some_iff.mp h
    obtain ⟨vars, hvars, h⟩ := Option.bind_eq_some_iff.mp h
    split at h
    next haccepts =>
      cases h
      exact ⟨⟨id, hid, rfl⟩, hname, huserId, hownerType, hownerId, horgId, hdeptIds, hauthor, happ,
        hnodes, hedges, hvars, haccepts⟩
    next => cases h
  · intro h
    obtain ⟨id, hid, hworkflowId⟩ := h.workflowId
    rw [hid, h.name, h.userId, h.ownerType, h.ownerId, h.orgId, h.deptIds, h.authorUserId,
      h.linkedSmartAppId, h.nodes, h.edges, h.vars]
    simp only [Option.bind_eq_bind, Option.bind_some, h.accepts, if_true, ← hworkflowId]

end Reading

/-! ## Defaults -/

section Defaults

variable {who : Identity} {d : Entries}

/-- The fields that `setDefaults` may fill in. -/
def defaultKeys : List String := ["name", "workflow_id", "user_id", "org_id", "dept_ids"]

theorem field_setdefaultUnless {c : Prop} [Decidable c] {key k : String} (hne : key ≠ k)
    (v : Value) : Value.field (if c then d else d.setdefault k v) key = Value.field d key := by
  split
  next => rfl
  next => exact Entries.field_setdefault_of_ne hne

theorem filter_setdefaultUnless {c : Prop} [Decidable c] {k : String} (p : String → Bool)
    (hkey : p k = false) (v : Value) :
    (if c then d else d.setdefault k v).filter (fun e => p e.1) = d.filter fun e => p e.1 := by
  split
  next => rfl
  next => exact Entries.filter_setdefault p hkey

theorem Identity.setDefaults_other {key : String} (hkey : key ∉ defaultKeys) :
    Value.field (who.setDefaults d) key = Value.field d key := by
  simp only [defaultKeys, List.mem_cons, List.not_mem_nil, or_false, not_or] at hkey
  obtain ⟨hname, hworkflowId, huserId, horgId, hdeptIds⟩ := hkey
  rw [setDefaults, field_setdefaultUnless hdeptIds, field_setdefaultUnless horgId,
    Entries.field_setdefault_of_ne huserId, Entries.field_setdefault_of_ne hworkflowId,
    Entries.field_setdefault_of_ne hname]

/-- The entries that are not filled in, in their order. -/
theorem Identity.setDefaults_filter (p : String → Bool) (hp : ∀ key ∈ defaultKeys, p key = false) :
    (who.setDefaults d).filter (fun e => p e.1) = d.filter fun e => p e.1 := by
  rw [setDefaults, filter_setdefaultUnless p (hp "dept_ids" (by decide)),
    filter_setdefaultUnless p (hp "org_id" (by decide)),
    Entries.filter_setdefault p (hp "user_id" (by decide)),
    Entries.filter_setdefault p (hp "workflow_id" (by decide)),
    Entries.filter_setdefault p (hp "name" (by decide))]

theorem Identity.setDefaults_name :
    Value.field (who.setDefaults d) "name" =
      some ((Value.field d "name").getD (d.getOr "name" (.str "AI Test Run"))) := by
  rw [setDefaults, field_setdefaultUnless (by decide), field_setdefaultUnless (by decide),
    Entries.field_setdefault_of_ne (by decide), Entries.field_setdefault_of_ne (by decide),
    Entries.field_setdefault_self]

theorem Identity.setDefaults_workflowId :
    Value.field (who.setDefaults d) "workflow_id" =
      some ((Value.field d "workflow_id").getD
        (if who.workflowId.truthy then who.workflowId else .str "ai-test")) := by
  rw [setDefaults, field_setdefaultUnless (by decide), field_setdefaultUnless (by decide),
    Entries.field_setdefault_of_ne (by decide), Entries.field_setdefault_self,
    Entries.field_setdefault_of_ne (by decide)]

theorem Identity.setDefaults_userId (h : who.userId ≠ "") :
    Value.field (who.setDefaults d) "user_id" =
      some ((Value.field d "user_id").getD (.str who.userId)) := by
  rw [setDefaults, field_setdefaultUnless (by decide), field_setdefaultUnless (by decide),
    Entries.field_setdefault_self, Entries.field_setdefault_of_ne (by decide),
    Entries.field_setdefault_of_ne (by decide), if_neg h]

theorem Identity.setDefaults_orgId (h : who.orgId ≠ "") :
    Value.field (who.setDefaults d) "org_id" =
      some ((Value.field d "org_id").getD (.str who.orgId)) := by
  rw [setDefaults, field_setdefaultUnless (by decide), if_neg h, Entries.field_setdefault_self,
    Entries.field_setdefault_of_ne (by decide), Entries.field_setdefault_of_ne (by decide),
    Entries.field_setdefault_of_ne (by decide)]

theorem mapM_asStr (l : List String) : l.mapM (Value.asStr ∘ Value.str) = some l := by
  induction l with
  | nil => rfl
  | cons s l ih => simp [Value.asStr, ih]

/-- The departments: those that are supplied, or those of the caller. -/
theorem Identity.setDefaults_deptIds :
    readStrs (who.setDefaults d) "dept_ids" =
      if (Value.field d "dept_ids").isNone then some who.deptIds else readStrs d "dept_ids" := by
  have hfield : Value.field (who.setDefaults d) "dept_ids" =
      if who.deptIds.isEmpty then Value.field d "dept_ids"
      else some ((Value.field d "dept_ids").getD (.list (who.deptIds.map .str))) := by
    rw [setDefaults, apply_ite (Value.field · "dept_ids"), Entries.field_setdefault_self,
      field_setdefaultUnless (by decide), Entries.field_setdefault_of_ne (by decide),
      Entries.field_setdefault_of_ne (by decide), Entries.field_setdefault_of_ne (by decide)]
  rw [readStrs, hfield]
  cases hd : Value.field d "dept_ids" with
  | none =>
      by_cases hempty : who.deptIds.isEmpty = true
      · simp [List.isEmpty_iff.mp hempty]
      · simp [hempty, mapM_asStr]
  | some v => simp [readStrs, hd]

end Defaults

/-! ## Requests -/

section Requests

variable {pd : Pydantic} {who : Caller} {orgOf : String → Option String} {r : TestRequest}
  {wf : WorkflowDefinition} {workflow : Entries}

theorem identity_of {ident : Identity} (h : ident = who.identity workflow) :
    ident.orgId = who.orgId ∧ ident.userId = who.userId ∧ ident.deptIds = who.deptIds ∧
      ident.orgId ≠ "" ∧ ident.userId ≠ "" := by
  subst h
  exact ⟨rfl, rfl, rfl, who.orgId_ne, who.userId_ne⟩

/-- Where the definition has its tenant fields from. -/
structure TestRequest.Fills (pd : Pydantic) (who : Caller) (r : TestRequest)
    (wf : WorkflowDefinition) : Prop where
  orgId : readStr r.supplied "org_id" who.orgId = some wf.orgId
  userId : readStr r.supplied "user_id" who.userId = some wf.userId
  ownerType : readStr r.supplied "owner_type" "org" = some wf.ownerType
  ownerId : readStr r.supplied "owner_id" "" = some wf.ownerId
  deptIds : (if (Value.field r.supplied "dept_ids").isNone then some who.deptIds
    else readStrs r.supplied "dept_ids") = some wf.deptIds
  workflowId : wf.workflowId = r.workflowId.asStr.getD ""
  nodes : readField pd.nodes [] r.supplied "nodes" = some wf.nodes

theorem readStr_default {d d' : Entries} {key default default' : String}
    (h : Value.field d key = some ((Value.field d' key).getD (.str default))) :
    readStr d key default' = readStr d' key default := by
  unfold readStr
  rw [h]
  cases Value.field d' key with
  | none => rfl
  | some v => cases v <;> rfl

theorem readOptStr_asStr {d : Entries} {key : String} {default id : Option String} {v : Value}
    (hfield : Value.field d key = some v) (h : readOptStr d key default = some id) :
    id = v.asStr := by
  unfold readOptStr at h
  rw [hfield] at h
  cases v with
  | none | str s =>
      cases h
      rfl
  | bool | int | float | list | dict => cases h

theorem TestRequest.fills (hid : r.identity = who.identity workflow)
    (h : pd.workflowDefinition (r.identity.setDefaults r.supplied) = some wf) :
    r.Fills pd who wf := by
  obtain ⟨horgId, huserId, hdeptIds, horg, huser⟩ := identity_of hid
  have hreads := Pydantic.workflowDefinition_eq_some.mp h
  refine ⟨?_, ?_, ?_, ?_, ?_, ?_, ?_⟩
  · rw [← hreads.orgId, readStr_default (Identity.setDefaults_orgId horg), horgId]
  · rw [← hreads.userId, readStr_default (Identity.setDefaults_userId huser), huserId]
  · rw [← (Option.filter_eq_some_iff.mp hreads.ownerType).1, readStr, readStr,
      Identity.setDefaults_other (by decide)]
  · rw [← hreads.ownerId, readStr, readStr, Identity.setDefaults_other (by decide)]
  · rw [← hreads.deptIds, Identity.setDefaults_deptIds, hdeptIds]
  · obtain ⟨id, hread, hid'⟩ := hreads.workflowId
    have hvalue : Value.field (r.identity.setDefaults r.supplied) "workflow_id" =
        some r.workflowId := Identity.setDefaults_workflowId
    rw [hid', readOptStr_asStr hvalue hread]
  · rw [← hreads.nodes, readField, readField, Identity.setDefaults_other (by decide)]

theorem readStr_all {d : Entries} {key default s : String} {q : Value → Bool}
    (h : readStr d key default = some s) (hdefault : q (.str default) = true) :
    (Value.field d key).all q = q (.str s) := by
  rcases readStr_eq_some.mp h with hfield | ⟨hfield, rfl⟩
  · rw [hfield, Option.all_some]
  · rw [hfield, Option.all_none, hdefault]

/-- The condition, as the definition shows it. -/
theorem TestRequest.Fills.carriesOwn_iff (h : r.Fills pd who wf) :
    r.carriesOwn pd who orgOf = true ↔
      wf.orgId = who.orgId ∧ wf.userId = who.userId ∧ wf.ownerType = "org" ∧
        (wf.ownerId = "" ∨ wf.ownerId = who.orgId) ∧ wf.deptIds = who.deptIds ∧
        who.mayUse orgOf wf.workflowId = true ∧
        ∀ n ∈ wf.nodes, ∀ id, n.stateOverride = some id → who.mayUse orgOf id = true := by
  have hdepts : ((Value.field r.supplied "dept_ids").isNone ||
      readStrs r.supplied "dept_ids" = some who.deptIds) = true ↔ wf.deptIds = who.deptIds := by
    have hread := h.deptIds
    cases hnone : (Value.field r.supplied "dept_ids").isNone with
    | true =>
        rw [hnone, if_pos rfl] at hread
        simp [Option.some.inj hread]
    | false =>
        rw [hnone, if_neg Bool.false_ne_true] at hread
        simp [hread]
  simp only [carriesOwn, Bool.and_eq_true, readStr_all h.orgId (q := (·.eqStr who.orgId)) (by simp),
    readStr_all h.userId (q := (·.eqStr who.userId)) (by simp),
    readStr_all h.ownerType (q := (·.eqStr "org")) (by simp),
    readStr_all h.ownerId (q := fun v => v.eqStr "" || v.eqStr who.orgId) (by simp), hdepts,
    h.nodes, ← h.workflowId, Value.eqStr_str, decide_eq_true_eq, Bool.or_eq_true,
    Option.getD_some, List.all_eq_true, Option.all_eq_true, and_assoc]

theorem untagged_field {d : Entries} {key : String} (hkey : key ∉ tenantKeys) :
    Value.field (d.filter fun e => e.1 ∉ tenantKeys) key = Value.field d key :=
  Entries.field_filter (fun k => k ∉ tenantKeys) (by simpa using hkey)

theorem untagged_none {d : Entries} {key : String} (hkey : key ∈ tenantKeys) :
    Value.field (d.filter fun e => e.1 ∉ tenantKeys) key = none :=
  Entries.field_filter_none (fun k => k ∉ tenantKeys) (by simpa using hkey)

/-- The entries that pydantic checks as a whole. -/
theorem setDefaults_untagged_rest {ident : Identity} {d : Entries} :
    (ident.setDefaults (d.filter fun e => e.1 ∉ tenantKeys)).filter
      (fun e => e.1 ∉ definitionKeys) =
        (ident.setDefaults d).filter fun e => e.1 ∉ definitionKeys := by
  have hkeys : ∀ key ∈ defaultKeys, decide (key ∉ definitionKeys) = false := by decide
  have htenants : ∀ key ∈ tenantKeys, key ∈ definitionKeys := by decide
  rw [Identity.setDefaults_filter (fun k => decide (k ∉ definitionKeys)) hkeys,
    Identity.setDefaults_filter (fun k => decide (k ∉ definitionKeys)) hkeys, List.filter_filter]
  refine List.filter_congr ?_
  intro e _
  by_cases hmem : e.1 ∈ tenantKeys
  · simp [htenants e.1 hmem]
  · simp [hmem]

/-- Without the tenant fields the definition has those of the caller, and no owner. -/
theorem workflowDefinition_untagged (hid : r.identity = who.identity workflow)
    (h : pd.workflowDefinition (r.identity.setDefaults r.supplied) = some wf) :
    pd.workflowDefinition (r.untagged.identity.setDefaults r.untagged.supplied) =
      some { wf with orgId := who.orgId, userId := who.userId, deptIds := who.deptIds,
                     ownerType := "org", ownerId := "" } := by
  have hid' : r.untagged.identity = who.identity workflow := hid
  obtain ⟨horgId, huserId, hdeptIds, horg, huser⟩ := identity_of hid'
  have hreads := Pydantic.workflowDefinition_eq_some.mp h
  -- the fields that are no tenant fields
  have hsame : ∀ key, key ∉ defaultKeys → key ∉ tenantKeys →
      Value.field (r.identity.setDefaults r.untagged.supplied) key =
        Value.field (r.identity.setDefaults r.supplied) key := by
    intro key hdefault htenant
    rw [Identity.setDefaults_other hdefault, Identity.setDefaults_other hdefault]
    exact untagged_field htenant
  have hname : Value.field (r.identity.setDefaults r.untagged.supplied) "name" =
      Value.field (r.identity.setDefaults r.supplied) "name" := by
    rw [Identity.setDefaults_name, Identity.setDefaults_name, Entries.getOr, Entries.getOr,
      Value.getD, Value.getD, TestRequest.untagged, untagged_field (by decide)]
  have hworkflowId : Value.field (r.identity.setDefaults r.untagged.supplied) "workflow_id" =
      Value.field (r.identity.setDefaults r.supplied) "workflow_id" := by
    rw [Identity.setDefaults_workflowId, Identity.setDefaults_workflowId, TestRequest.untagged,
      untagged_field (by decide)]
  -- the tenant fields
  have hnone : ∀ key, key ∈ tenantKeys →
      Value.field r.untagged.supplied key = none := fun key hkey => untagged_none hkey
  refine Pydantic.workflowDefinition_eq_some.mpr ⟨?_, ?_, ?_, ?_, ?_, ?_, ?_, ?_, ?_, ?_, ?_, ?_, ?_⟩
  · obtain ⟨id, hread, hworkflow⟩ := hreads.workflowId
    refine ⟨id, ?_, hworkflow⟩
    rw [← hread]
    exact readOptStr_of_field hworkflowId
  · rw [← hreads.name]
    exact congrArg (·.bind Value.asStr) hname
  · rw [readStr_default (Identity.setDefaults_userId huser), readStr, hnone _ (by decide), huserId]
  · rw [readStr, Identity.setDefaults_other (by decide), hnone _ (by decide)]
    rfl
  · rw [readStr, Identity.setDefaults_other (by decide), hnone _ (by decide)]
  · rw [readStr_default (Identity.setDefaults_orgId horg), readStr, hnone _ (by decide), horgId]
  · rw [Identity.setDefaults_deptIds, hnone _ (by decide), hdeptIds]
    rfl
  · rw [← hreads.authorUserId]
    exact readStr_of_field (hsame _ (by decide) (by decide))
  · rw [← hreads.linkedSmartAppId]
    exact readOptStr_of_field (hsame _ (by decide) (by decide))
  · rw [← hreads.nodes]
    exact readField_of_field (hsame _ (by decide) (by decide))
  · rw [← hreads.edges]
    exact readField_of_field (hsame _ (by decide) (by decide))
  · rw [← hreads.vars]
    exact readField_of_field (hsame _ (by decide) (by decide))
  · rw [← hreads.accepts]
    exact congrArg pd.accepts setDefaults_untagged_rest

theorem mintWorkflowOrgToken_org {secret : Bool} {id org author : String} {depts : List String}
    {t : OrgToken} (h : mintWorkflowOrgToken secret id org depts author = some t) :
    t.orgId = org := by
  unfold mintWorkflowOrgToken at h
  split at h
  next => cases h
  next =>
    cases h
    rfl

/-- The nodes of a run see the tenant fields of the definition, so what a node can reach is what
the job may. -/
theorem TestJob.Confined.run {job : TestJob} (h : job.Confined who orgOf) :
    job.RunConfined who orgOf := by
  intro encode env result hrun ctx hctx
  obtain ⟨data, -, rfl⟩ := Option.map_eq_some_iff.mp hrun
  obtain ⟨n, inputData, s, hn, hctx⟩ := execute_ofWorkflow _ _ _ _ _ ctx hctx
  refine ⟨?_, ?_, ?_⟩
  · intro store id config hresolve
    obtain ⟨-, doc, hfind, horg⟩ := ConnectionStore.resolveConnection_org hresolve
    have hsame : ctx.orgId = job.definition.orgId := by rw [hctx]; rfl
    rw [hsame, h.orgId] at horg
    exact ⟨doc, hfind, horg⟩
  · intro root path
    have hsame : ctx.userId = job.definition.userId := by rw [hctx]; rfl
    rw [NodeContext.fileKey, hsame, h.userId]
  · intro huses id hid
    rw [hn, Option.any_some] at huses
    rcases NodeContext.stateWorkflowId_cases hid with ⟨hoverride, hne⟩ | hprefix
    · have hconfig : ctx.config = n.config := by rw [hctx]; rfl
      have hnode : n.stateOverride = some id := by
        rw [NodeDefinition.stateOverride, if_pos huses, ← hconfig, hoverride]
        exact if_neg hne
      exact .inr (h.state n (WorkflowDefinition.nodeMap_mem hn) id hnode)
    · exact .inl hprefix

/-- A job stays with the caller exactly if what was supplied is the caller's own. -/
theorem TestRequest.staysWithin_iff (hid : r.identity = who.identity workflow)
    (hjob : (r.job pd).isSome = true) :
    r.StaysWithin pd who orgOf ↔ r.carriesOwn pd who orgOf = true := by
  obtain ⟨job, hjob⟩ := Option.isSome_iff_exists.mp hjob
  obtain ⟨wf, hwf, hmade⟩ := Option.map_eq_some_iff.mp hjob
  have huntagged := workflowDefinition_untagged hid hwf
  have hdefinition : job.definition = wf := by rw [← hmade]
  rw [(TestRequest.fills hid hwf).carriesOwn_iff]
  constructor
  · intro h
    have hconfined := h.confined job hjob
    have hdepts : wf.deptIds = who.deptIds := by
      have hseen := h.ignoresTenants
      rw [hjob, TestRequest.job, huntagged] at hseen
      simp only [Option.map_some, Option.some.injEq] at hseen
      have := congrArg (·.definition.deptIds) hseen
      rw [← hdefinition]
      exact this
    rw [← hdefinition] at hdepts ⊢
    exact ⟨hconfined.orgId, hconfined.userId, hconfined.owner.1, hconfined.owner.2, hdepts,
      hconfined.workflowId, hconfined.state⟩
  · rintro ⟨horg, huser, hownerType, hownerId, hdepts, hworkflowId, hstate⟩
    have hconfined : job.Confined who orgOf := by
      rw [← hdefinition] at horg huser hownerType hownerId hworkflowId hstate
      refine ⟨horg, huser, ⟨hownerType, hownerId⟩, ?_, hworkflowId, hstate⟩
      intro t ht
      rw [← horg, hdefinition]
      rw [← hmade] at ht
      exact mintWorkflowOrgToken_org ht
    refine ⟨?_, ?_, ?_⟩
    · intro job' hjob'
      cases hjob.symm.trans hjob'
      exact hconfined
    · intro job' hjob'
      cases hjob.symm.trans hjob'
      exact hconfined.run
    · rw [TestRequest.job, TestRequest.job, hwf, huntagged, ← horg, ← huser, ← hdepts]
      simp [TestJob.seen, hownerType, TestRequest.untagged]

end Requests

/-! ## Turns -/

namespace Turn

variable {py : PyBuiltins} {pd : Pydantic} {who : Caller} {orgOf : String → Option String}

/-- The call sends no workflow to the worker that is tagged for another one. -/
def staysOwn (py : PyBuiltins) (pd : Pydantic) (who : Caller) (orgOf : String → Option String) :
    Turn → List AssistantCall → Bool
  | _, [] => true
  | t, call :: calls =>
      (t.request py pd call).all (·.carriesOwn pd who orgOf) &&
        (t.step py pd call).staysOwn py pd who orgOf calls

/-- A request is a test run that can be read, with the identity of the turn. -/
theorem request_eq_some {t : Turn} {call : AssistantCall} {r : TestRequest}
    (h : t.request py pd call = some r) :
    r.identity = t.identity ∧ (r.job pd).isSome = true := by
  unfold request at h
  split at h
  next args executionId secret queued =>
    split at h
    next => cases h
    next args _ =>
      split at h
      next => cases h
      next supplied _ =>
        dsimp only at h
        split at h
        next hsome =>
          cases h
          rw [Bool.and_eq_true] at hsome
          exact ⟨rfl, hsome.2⟩
        next => cases h
  next => cases h

theorem tests_mono (t : Turn) (calls : List AssistantCall) :
    ∀ r ∈ t.tests, r ∈ (t.play py pd calls).tests := by
  induction calls generalizing t with
  | nil => exact fun r hr => hr
  | cons call calls ih =>
      intro r hr
      exact ih (t.step py pd call) r (List.mem_append_left _ hr)

/-- What a run of calls adds to the test runs stays with the caller exactly if every call does. -/
theorem play_stays {workflow : Entries} (calls : List AssistantCall) (t : Turn)
    (hid : t.identity = who.identity workflow)
    (htests : ∀ r ∈ t.tests, r.StaysWithin pd who orgOf) :
    (∀ r ∈ (t.play py pd calls).tests, r.StaysWithin pd who orgOf) ↔
      t.staysOwn py pd who orgOf calls = true := by
  induction calls generalizing t with
  | nil => exact ⟨fun _ => rfl, fun _ => htests⟩
  | cons call calls ih =>
      rw [staysOwn, Bool.and_eq_true]
      have hplay : t.play py pd (call :: calls) = (t.step py pd call).play py pd calls := rfl
      have hkept : ∀ r ∈ (t.step py pd call).tests, r ∈ (t.play py pd (call :: calls)).tests := by
        rw [hplay]
        exact fun r hr => tests_mono _ _ r hr
      have hstep : (∀ r ∈ (t.step py pd call).tests, r.StaysWithin pd who orgOf) ↔
          (t.request py pd call).all (·.carriesOwn pd who orgOf) = true := by
        cases hr : t.request py pd call with
        | none =>
            have hsame : (t.step py pd call).tests = t.tests := by simp [step, hr]
            rw [hsame]
            exact ⟨fun _ => rfl, fun _ => htests⟩
        | some r =>
            obtain ⟨hrid, hjob⟩ := request_eq_some hr
            have hadded : (t.step py pd call).tests = t.tests ++ [r] := by simp [step, hr]
            rw [hadded, Option.all_some, ← TestRequest.staysWithin_iff (hrid.trans hid) hjob]
            constructor
            · intro h
              exact h r (by simp)
            · intro h r' hr'
              rcases List.mem_append.mp hr' with hr' | hr'
              · exact htests r' hr'
              · rw [List.mem_singleton.mp hr']
                exact h
      rw [hplay, ← hstep]
      constructor
      · intro h
        have hnow : ∀ r ∈ (t.step py pd call).tests, r.StaysWithin pd who orgOf :=
          fun r hr => h r (hkept r hr)
        exact ⟨hnow, (ih (t.step py pd call) hid hnow).mp h⟩
      · rintro ⟨hnow, hlater⟩
        exact (ih (t.step py pd call) hid hnow).mpr hlater

/-- Every test run of a turn stays with the caller exactly if every call that sends one does. -/
theorem tests_stay_iff_staysOwn (py : PyBuiltins) (pd : Pydantic) (who : Caller)
    (orgOf : String → Option String) (workflow : Entries) (calls : List AssistantCall) :
    (∀ r ∈ ((start who workflow).play py pd calls).tests, r.StaysWithin pd who orgOf) ↔
      (start who workflow).staysOwn py pd who orgOf calls = true :=
  play_stays calls (start who workflow) rfl (List.forall_mem_nil _)

/-- Empty lists and dicts are read, and none of the other fields is refused. -/
private def emptyGraphs : Pydantic where
  nodes v := if v.asList.any (·.isEmpty) then some [] else none
  edges v := if v.asList.any (·.isEmpty) then some [] else none
  vars v := if v.asDict.any (·.isEmpty) then some ∅ else none
  accepts _ := true

private def noLoads : PyBuiltins where
  loads _ := none
  dictOf v := .error (.typeError ("'" ++ v.typeName ++ "' object is not iterable"))

private def alice : Caller where
  userId := "alice@acme.example"
  orgId := "acme"

private def probe : AssistantCall := .runWorkflowTest (.dict []) "e1" true true

/-- A request whose workflow says that it is of another organisation: the job has the definition
and the token of that organisation. -/
theorem tagged_request_crosses :
    ((start alice [("name", .str "Probe"), ("org_id", .str "rival")]).play noLoads emptyGraphs
        [probe]).tests.map (fun r => (r.job emptyGraphs).map fun job =>
          (job.definition.orgId, job.jwtToken.map (·.orgId))) = [some ("rival", some "rival")] ∧
      ¬ ∀ r ∈ ((start alice [("name", .str "Probe"), ("org_id", .str "rival")]).play noLoads
        emptyGraphs [probe]).tests, r.StaysWithin emptyGraphs alice fun _ => none := by
  refine ⟨by decide +kernel, ?_⟩
  intro h
  have hstays := (play_stays [probe] (start alice [("name", .str "Probe"),
    ("org_id", .str "rival")]) rfl (List.forall_mem_nil _)).mp h
  exact absurd hstays (by decide +kernel)

end Turn

end CitraFlows
