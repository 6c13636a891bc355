-- SUMMARY: Whose documents a request of the workflow API may change: every write of a request is a write to what its organisation owns.
import CitraFlows.Tenants.Steps

/-!
# Ownership

A workflow belongs to an organisation from its creation on, and with it its snapshots, executions
and approvals. `Writes` lists the changes that an organisation can make to the collections;
`next_writes` shows that a command of a request of no super admin makes one of these for the
organisation of its caller.
-/

namespace CitraFlows

open Processes

namespace ApiStore

/-- The document of the execution is there and its workflow belongs to the organisation. -/
def ownsRun (s : ApiStore) (orgId id : String) : Bool :=
  (s.executions.get id).any fun e => s.owns orgId e.record.workflowId

def ownsAsk (s : ApiStore) (orgId id : String) : Bool :=
  (s.approvals.get id).any fun a => s.owns orgId a.request.workflowId

/-- What the collections satisfy from the start on. -/
structure Sound (s : ApiStore) : Prop where
  keys : ∀ {id doc}, s.workflows.docs id = some doc → doc.workflowId = id
  versions : ∀ {id}, s.workflows.docs id = none → s.workflows.versions id = []
  runs : ∀ {id e}, s.executions.get id = some e →
    (s.workflows.docs e.record.workflowId).isSome = true
  asks : ∀ {id a}, s.approvals.get id = some a →
    (s.workflows.docs a.request.workflowId).isSome = true
  issued : ∀ {doc}, doc ∈ s.connections → (doc.connectionId, doc.orgId) ∈ s.issued

/-- The changes that an organisation can make. -/
inductive Writes (orgId : String) (s : ApiStore) : ApiStore → Prop
  | none : Writes orgId s s
  | edit {id : String} {doc doc' : StoredWorkflow} {w : WorkflowStore}
      {info : String → WorkflowInfo} (hdoc : s.workflows.docs id = some doc)
      (hown : doc.orgId = orgId) (horg : doc'.orgId = doc.orgId)
      (hkey : doc'.workflowId = doc.workflowId)
      (hdocs : w.docs = Function.update s.workflows.docs id (some doc'))
      (hversions : w.versions = Function.update s.workflows.versions id (w.versions id))
      (htokens : s.workflows.tokens ⊆ w.tokens)
      (hinfo : info = Function.update s.info id (info id)) :
      Writes orgId s { s with workflows := w, info }
  | create {id : String} {doc : StoredWorkflow} {w : WorkflowStore}
      {info : String → WorkflowInfo} (hnew : s.rows.has id = false) (hown : doc.orgId = orgId)
      (hkey : doc.workflowId = id)
      (hdocs : w.docs = Function.update s.workflows.docs id (some doc))
      (hversions : w.versions = s.workflows.versions) (htokens : w.tokens = s.workflows.tokens)
      (hinfo : info = Function.update s.info id (info id)) :
      Writes orgId s { s with workflows := w, order := s.order ++ [id], info }
  | connections {docs : List ConnectionDoc} {issued : List (String × String)}
      (hothers : ∀ A, A ≠ orgId →
        docs.filter (·.orgId = A) = s.connections.filter (·.orgId = A))
      (hold : s.issued ⊆ issued)
      (hissued : ∀ doc ∈ docs, doc ∈ s.connections ∨ (doc.connectionId, doc.orgId) ∈ issued) :
      Writes orgId s { s with connections := docs, issued }
  | run {id : String} {e : ExecutionDocument} (hnew : s.executions.has id = false)
      (hown : s.owns orgId e.record.workflowId = true) :
      Writes orgId s { s with executions := s.executions.insert id e }
  | editRun {id : String} {f : ExecutionDocument → ExecutionDocument}
      (hown : s.ownsRun orgId id = true)
      (hkeep : ∀ e, s.executions.get id = some e → (f e).record.workflowId = e.record.workflowId) :
      Writes orgId s { s with executions := s.executions.modify id f }
  | ask {id : String} {a : ApprovalDocument} (hnew : s.approvals.has id = false)
      (hown : s.owns orgId a.request.workflowId = true) :
      Writes orgId s { s with approvals := s.approvals.insert id a }
  | editAsk {id : String} {f : ApprovalDocument → ApprovalDocument}
      (hown : s.ownsAsk orgId id = true) (hkeep : ∀ a, (f a).request = a.request) :
      Writes orgId s { s with approvals := s.approvals.modify id f }

variable {s s' : ApiStore} {orgId A id : String}

theorem owns_eq_true :
    s.owns orgId id = true ↔ ∃ doc, s.workflows.docs id = some doc ∧ doc.orgId = orgId := by
  simp [owns, Option.any_eq_true]

theorem ownsRun_eq_true :
    s.ownsRun orgId id = true ↔
      ∃ e, s.executions.get id = some e ∧ s.owns orgId e.record.workflowId = true := by
  simp [ownsRun, Option.any_eq_true]

theorem isSome_of_owns (h : s.owns orgId id = true) : (s.workflows.docs id).isSome = true := by
  obtain ⟨doc, hdoc, -⟩ := owns_eq_true.mp h
  rw [hdoc]
  rfl

/-- A workflow has one owner. -/
theorem owns_unique (h : s.owns orgId id = true) (hA : s.owns A id = true) : A = orgId := by
  obtain ⟨doc, hdoc, rfl⟩ := owns_eq_true.mp h
  obtain ⟨doc', hdoc', rfl⟩ := owns_eq_true.mp hA
  rw [hdoc] at hdoc'
  cases hdoc'
  rfl

theorem owns_of_ne (h : s.owns orgId id = true) (hne : A ≠ orgId) : s.owns A id = false :=
  Bool.eq_false_iff.mpr fun hA => hne (owns_unique h hA)

theorem docs_of_new (h : s.rows.has id = false) : s.workflows.docs id = none :=
  Option.map_eq_none_iff.mp (Table.has_eq_false.mp h).2

/-- An edit keeps the owner. -/
theorem owns_edit {w : WorkflowStore} {doc doc' : StoredWorkflow}
    (hdoc : s.workflows.docs id = some doc) (horg : doc'.orgId = doc.orgId)
    (hdocs : w.docs = Function.update s.workflows.docs id (some doc')) {info : String → WorkflowInfo}
    (id' : String) : ({ s with workflows := w, info } : ApiStore).owns A id' = s.owns A id' := by
  unfold owns
  by_cases heq : id' = id
  · subst heq
    simp [hdocs, hdoc, horg]
  · simp [hdocs, heq]

/-- A new workflow belongs to its creator, and no other one changes hands. -/
theorem owns_create {w : WorkflowStore} {doc : StoredWorkflow} {order : List String}
    {info : String → WorkflowInfo} (hnew : s.rows.has id = false)
    (hdocs : w.docs = Function.update s.workflows.docs id (some doc)) (id' : String) :
    ({ s with workflows := w, order, info } : ApiStore).owns A id' =
      (s.owns A id' || (id' = id && doc.orgId = A)) := by
  unfold owns
  by_cases heq : id' = id
  · subst heq
    simp [hdocs, docs_of_new hnew]
  · simp [hdocs, heq]

/-- What an organisation owned it owns after every change. -/
theorem Writes.owns (h : Writes orgId s s') (hA : s.owns A id = true) : s'.owns A id = true := by
  cases h with
  | none => exact hA
  | edit hdoc _ horg _ hdocs => rw [owns_edit hdoc horg hdocs]; exact hA
  | create hnew _ _ hdocs => rw [owns_create hnew hdocs, hA, Bool.true_or]
  | connections => exact hA
  | run => exact hA
  | editRun => exact hA
  | ask => exact hA
  | editAsk => exact hA

theorem Writes.ownsRun (h : Writes orgId s s') (hA : s.ownsRun A id = true) :
    s'.ownsRun A id = true := by
  obtain ⟨e, he, hown⟩ := ownsRun_eq_true.mp hA
  have hown' := h.owns hown
  rw [ownsRun_eq_true]
  cases h with
  | none => exact ⟨e, he, hown'⟩
  | edit => exact ⟨e, he, hown'⟩
  | create => exact ⟨e, he, hown'⟩
  | connections => exact ⟨e, he, hown'⟩
  | @run id' e' hnew =>
      refine ⟨e, ?_, hown'⟩
      have hne : id ≠ id' := by
        rintro rfl
        rw [Table.has_of_get he] at hnew
        cases hnew
      exact (Table.get_insert_of_ne hne).trans he
  | @editRun id' f _ hkeep =>
      by_cases heq : id = id'
      · subst heq
        refine ⟨f e, by rw [Table.get_modify_self, he]; rfl, ?_⟩
        rw [hkeep e he]
        exact hown'
      · exact ⟨e, (Table.get_modify_of_ne heq).trans he, hown'⟩
  | ask => exact ⟨e, he, hown'⟩
  | editAsk => exact ⟨e, he, hown'⟩

/-- A workflow that is there stays there. -/
theorem Writes.isSome (h : Writes orgId s s') (hid : (s.workflows.docs id).isSome = true) :
    (s'.workflows.docs id).isSome = true := by
  obtain ⟨doc, hdoc⟩ := Option.isSome_iff_exists.mp hid
  exact isSome_of_owns (h.owns (A := doc.orgId) (owns_eq_true.mpr ⟨doc, hdoc, rfl⟩))

theorem Writes.sound (h : Writes orgId s s') (hs : s.Sound) : s'.Sound := by
  have hstays : ∀ {id}, (s.workflows.docs id).isSome = true → (s'.workflows.docs id).isSome = true :=
    fun hid => h.isSome hid
  cases h with
  | none => exact hs
  | @edit id doc doc' w info hdoc _ _ hkey hdocs hversions =>
      refine ⟨fun {id' d} hd => ?_, fun {id'} hd => ?_, fun he => hstays (hs.runs he),
        fun ha => hstays (hs.asks ha), hs.issued⟩
      · rw [hdocs] at hd
        by_cases heq : id' = id
        · subst heq
          rw [Function.update_self] at hd
          cases hd
          rw [hkey, hs.keys hdoc]
        · rw [Function.update_of_ne heq] at hd
          exact hs.keys hd
      · rw [hdocs] at hd
        by_cases heq : id' = id
        · subst heq
          rw [Function.update_self] at hd
          cases hd
        · rw [Function.update_of_ne heq] at hd
          show w.versions id' = []
          rw [hversions, Function.update_of_ne heq]
          exact hs.versions hd
  | @create id doc w info _ _ hkey hdocs hversions =>
      refine ⟨fun {id' d} hd => ?_, fun {id'} hd => ?_, fun he => hstays (hs.runs he),
        fun ha => hstays (hs.asks ha), hs.issued⟩
      · rw [hdocs] at hd
        by_cases heq : id' = id
        · subst heq
          rw [Function.update_self] at hd
          cases hd
          exact hkey
        · rw [Function.update_of_ne heq] at hd
          exact hs.keys hd
      · rw [hdocs] at hd
        by_cases heq : id' = id
        · subst heq
          rw [Function.update_self] at hd
          cases hd
        · rw [Function.update_of_ne heq] at hd
          show w.versions id' = []
          rw [hversions]
          exact hs.versions hd
  | connections _ hold hissued =>
      refine ⟨hs.keys, hs.versions, hs.runs, hs.asks, fun {doc} hdoc => ?_⟩
      exact (hissued doc hdoc).elim (fun h => hold (hs.issued h)) id
  | run _ hown =>
      exact ⟨hs.keys, hs.versions, fun {_ _} => Table.forall_get_insert (fun _ _ => hs.runs)
        (isSome_of_owns hown) _ _, hs.asks, hs.issued⟩
  | editRun _ hkeep =>
      exact ⟨hs.keys, hs.versions, fun {_ _} => Table.forall_get_modify (fun _ _ => hs.runs)
        (fun e he => by rw [hkeep e he]; exact hs.runs he) _ _, hs.asks, hs.issued⟩
  | ask _ hown =>
      exact ⟨hs.keys, hs.versions, hs.runs, fun {_ _} => Table.forall_get_insert (fun _ _ => hs.asks)
        (isSome_of_owns hown) _ _, hs.issued⟩
  | editAsk _ hkeep =>
      exact ⟨hs.keys, hs.versions, hs.runs, fun {_ _} => Table.forall_get_modify (fun _ _ => hs.asks)
        (fun a ha => by rw [hkeep a]; exact hs.asks ha) _ _, hs.issued⟩

end ApiStore

/-! ## Connections -/

namespace ConnectionApi

variable {f : Fernet} {orgId id : String} {docs docs' : List ConnectionDoc}
  {p q : ConnectionDoc → Bool} {g : ConnectionDoc → ConnectionDoc}

/-- What is not updated, before or after, stays. -/
theorem filter_updateOne (h : ∀ doc, p doc = true → q doc = false ∧ q (g doc) = false) :
    (updateOne p g docs).filter q = docs.filter q := by
  induction docs with
  | nil => rfl
  | cons doc docs ih =>
      unfold updateOne
      split
      next hp =>
        obtain ⟨hq, hgq⟩ := h doc hp
        simp [hq, hgq]
      next => rw [List.filter_cons, List.filter_cons, ih]

theorem mem_updateOne {doc : ConnectionDoc} (h : doc ∈ updateOne p g docs) :
    doc ∈ docs ∨ ∃ old ∈ docs, doc = g old := by
  induction docs with
  | nil => cases h
  | cons old docs ih =>
      unfold updateOne at h
      split at h
      next =>
        rcases List.mem_cons.mp h with rfl | h
        · exact Or.inr ⟨old, List.mem_cons_self, rfl⟩
        · exact Or.inl (List.mem_cons_of_mem _ h)
      next =>
        rcases List.mem_cons.mp h with rfl | h
        · exact Or.inl List.mem_cons_self
        · rcases ih h with h | ⟨x, hx, heq⟩
          · exact Or.inl (List.mem_cons_of_mem _ h)
          · exact Or.inr ⟨x, List.mem_cons_of_mem _ hx, heq⟩

/-- What is not erased stays. -/
theorem filter_eraseP (h : ∀ doc, p doc = true → q doc = false) :
    (docs.eraseP p).filter q = docs.filter q := by
  induction docs with
  | nil => rfl
  | cons doc docs ih =>
      rw [List.eraseP_cons]
      cases hp : p doc with
      | true =>
          rw [List.filter_cons, h doc hp]
          rfl
      | false => rw [cond_false, List.filter_cons, List.filter_cons, ih]

/-- A new connection is filed under the stripped id of the organisation. -/
theorem createConnection_docs {salt : RunEnvironment → String → f.Salt}
    {body : CreateConnectionRequest} (h : createConnection f salt orgId id body docs = .ok docs') :
    ∃ doc, docs' = docs ++ [doc] ∧ doc.connectionId = id ∧
      doc.orgId = String.ofList (Python.strip orgId.toList) := by
  unfold createConnection at h
  split at h
  next => cases h
  next =>
    obtain ⟨config, -, h⟩ := ok_of_bind h
    obtain ⟨-, -, h⟩ := ok_of_bind h
    cases h
    exact ⟨_, rfl, rfl, rfl⟩

/-- An update keeps the id and the organisation. -/
theorem updateConnection_docs {salt : RunEnvironment → String → f.Salt}
    {body : UpdateConnectionRequest} (h : updateConnection f salt orgId id body docs = .ok docs') :
    ∃ g : ConnectionDoc → ConnectionDoc,
      (∀ doc, (g doc).connectionId = doc.connectionId ∧ (g doc).orgId = doc.orgId) ∧
        docs' = updateOne (matching orgId id) g docs := by
  unfold updateConnection at h
  split at h
  next => cases h
  next =>
    generalize raised _ = config at h
    cases config with
    | error e => cases h
    | ok config =>
        cases h
        exact ⟨fun doc => { doc with
          name := body.name.getD doc.name
          description := body.description.getD doc.description
          config }, fun doc => ⟨rfl, rfl⟩, rfl⟩

end ConnectionApi

/-! ## Requests -/

/-- The workflow that a call names. -/
def ApiCall.workflowId : ApiCall → String
  | .store id _ _ | .getWorkflow id | .listVersions id | .getVersion id _ | .execute id _ _ _ |
    .listExecutions id _ => id
  | _ => ""

/-- The claims of no super admin, whose organisation is as `createConnection` files it. -/
structure JwtClaims.Ordinary (claims : JwtClaims) : Prop where
  not_super : claims.isSuperAdmin = false
  stripped : String.ofList (Python.strip claims.orgId.toList) = claims.orgId

/-- A request on a stored workflow is at a workflow of the organisation. -/
def WorkflowRequest.Placed (orgId : String) (s : ApiStore) (p : WorkflowRequest) : Prop :=
  match p.stage with
  | .insert doc => doc.orgId = orgId
  | .done => True
  | _ => s.owns orgId p.workflowId = true

/-- Past its checks, a request is at something that its organisation owns. -/
def ApiStage.Holds (s : ApiStore) (claims : JwtClaims) (call : ApiCall) : ApiStage → Prop
  | .storing p _ =>
      (∃ op, p.op = WorkflowOp.asCaller claims op) ∧ p.stage ≠ .find ∧ p.Placed claims.orgId s
  | .readVersions _ | .insertRun | .readExecutions _ => s.owns claims.orgId call.workflowId = true
  | .enqueueRun id | .casResume id | .enqueueResume id | .rollbackResume id | .markCancel id _ |
    .casCancel id => s.ownsRun claims.orgId id = true
  | .readApprovals ids | .countApprovals ids _ =>
      ∃ l, ids = some l ∧ ∀ id ∈ l, s.owns claims.orgId id = true
  | .received | .counting _ | .answered _ => True

section

variable {s s' : ApiStore} {claims : JwtClaims} {call : ApiCall} {id : String}

theorem ApiStage.Holds.mono {orgId : String} {stage : ApiStage} (h : stage.Holds s claims call)
    (hwrites : s.Writes orgId s') : stage.Holds s' claims call := by
  cases stage with
  | storing p read =>
      obtain ⟨hop, hfind, hplaced⟩ := h
      refine ⟨hop, hfind, ?_⟩
      unfold WorkflowRequest.Placed at hplaced ⊢
      cases hstage : p.stage with
      | insert doc => simpa [hstage] using hplaced
      | done => trivial
      | _ =>
          simp only [hstage] at hplaced
          exact hwrites.owns hplaced
  | readVersions doc | insertRun | readExecutions doc => exact hwrites.owns h
  | enqueueRun id | casResume id | enqueueResume id | rollbackResume id | casCancel id =>
      exact hwrites.ownsRun h
  | markCancel id e => exact hwrites.ownsRun h
  | readApprovals ids =>
      obtain ⟨l, hids, hl⟩ := h
      exact ⟨l, hids, fun id hid => hwrites.owns (hl id hid)⟩
  | countApprovals ids docs =>
      obtain ⟨l, hids, hl⟩ := h
      exact ⟨l, hids, fun id hid => hwrites.owns (hl id hid)⟩
  | received => trivial
  | counting items => trivial
  | answered reply => trivial

theorem ApiStore.load_ok {check : StoredWorkflow → Option Refusal} {doc : StoredWorkflow}
    (h : s.load id check = .ok doc) : s.workflows.docs id = some doc ∧ check doc = none := by
  unfold ApiStore.load at h
  split at h
  next => cases h
  next doc' hdoc =>
    split at h
    next => cases h
    next hcheck =>
      cases h
      exact ⟨hdoc, hcheck⟩

/-- An execution that the checks let through is one of the organisation. -/
theorem ApiStore.authorizeExecution_ok {itDeptId : String} {e : ExecutionDocument}
    (hord : claims.Ordinary) (h : s.authorizeExecution itDeptId claims id = .ok e) :
    s.executions.get id = some e ∧ s.owns claims.orgId e.record.workflowId = true := by
  unfold ApiStore.authorizeExecution at h
  split at h
  next => cases h
  next =>
    split at h
    next => cases h
    next e' he =>
      split at h
      next hsame =>
        cases h
        refine ⟨he, ?_⟩
        cases hwf : s.workflows.docs e.record.workflowId with
        | none =>
            rw [hwf] at hsame
            cases hsame
        | some wf =>
            rw [hwf, sameOrgOrSuper_some, hord.not_super] at hsame
            exact ApiStore.owns_eq_true.mpr ⟨wf, hwf, hsame.resolve_left (by simp)⟩
      next => cases h

namespace ApiRequest

variable {cfg : ApiConfig} {i : Nat} {input : ApiInput cfg} {fields : ListingFields}
  {p : WorkflowRequest} {read : WorkflowInfo} {stage : ApiStage}

theorem holds_refuse (r : Refusal) : (ApiStage.refuse r).Holds s claims call := trivial

theorem holds_crashed : ApiStage.crashed.Holds s claims call := trivial

theorem holds_ite {c : Prop} [Decidable c] {a b : ApiStage} (ha : c → a.Holds s claims call)
    (hb : ¬ c → b.Holds s claims call) : (if c then a else b).Holds s claims call := by
  split
  next hc => exact ha hc
  next hc => exact hb hc

theorem holds_ended (reply : ApiReply) : (ended cfg input reply).Holds s claims call := by
  unfold ended
  split <;> trivial

/-- A request that has read a workflow of its organisation. -/
theorem readWorkflow_holds {gated : Bool} {next : StoredWorkflow → ApiStage}
    (hord : claims.Ordinary)
    (hnext : ∀ doc, s.workflows.docs id = some doc → s.owns claims.orgId id = true →
      (next doc).Holds s claims call) :
    (readWorkflow cfg input s claims gated id next).Holds s claims call := by
  unfold readWorkflow
  split
  next => exact holds_refuse _
  next =>
    split
    next => exact holds_crashed
    next =>
      split
      next => exact holds_refuse _
      next doc hload =>
        obtain ⟨hdoc, hcheck⟩ := ApiStore.load_ok hload
        have horg := (checkWorkflowAction_eq_none.mp hcheck).resolve_left (by simp [hord.not_super])
        exact hnext doc hdoc (ApiStore.owns_eq_true.mpr ⟨doc, hdoc, horg.2⟩)

theorem readExecution_holds {next : ExecutionDocument → ApiStage} (hord : claims.Ordinary)
    (hnext : ∀ e, s.ownsRun claims.orgId id = true → (next e).Holds s claims call) :
    (readExecution cfg input s claims id next).Holds s claims call := by
  unfold readExecution
  split
  next => exact holds_crashed
  next =>
    split
    next => exact holds_refuse _
    next e hauth =>
      obtain ⟨he, hown⟩ := ApiStore.authorizeExecution_ok hord hauth
      exact hnext e (ApiStore.ownsRun_eq_true.mpr ⟨e, he, hown⟩)

theorem asCaller_orgId {op : WorkflowOp} (hop : p.op = op.asCaller claims) {orgId : String} :
    (∀ {name userId deptIds g}, p.op = .create name orgId userId deptIds g → orgId = claims.orgId) ∧
      ∀ {newId}, p.op = .duplicate newId orgId → orgId = claims.orgId := by
  constructor
  · intro name userId deptIds g hcreate
    rw [hcreate] at hop
    cases op <;> cases hop
    rfl
  · intro newId hdup
    rw [hdup] at hop
    cases op <;> cases hop
    rfl

/-- After a step the request is again at something that its organisation owns. -/
theorem storing_holds {w w' : WorkflowStore} {p' : WorkflowRequest}
    {conf : StoreConfig} (hop : ∃ op, p.op = WorkflowOp.asCaller claims op)
    (hown : s'.owns claims.orgId p.workflowId = true)
    (hstep : p.step conf i (.next input.write) w = some (w', p')) :
    (ApiStage.storing p' read).Holds s' claims call := by
  obtain ⟨hbecome, -⟩ := WorkflowRequest.step_sound hstep
  have hop' : p'.op = p.op := by rw [hbecome]; rfl
  have hid : p'.workflowId = p.workflowId := by rw [hbecome]; rfl
  refine ⟨by rw [hop']; exact hop, WorkflowRequest.step_stage_ne_find hstep, ?_⟩
  unfold WorkflowRequest.Placed
  split
  next doc hstage =>
    obtain ⟨op, hcaller⟩ := hop
    rcases WorkflowRequest.step_stage_insert hstep hstage with
      ⟨_, _, _, _, _, hcreate, rfl⟩ | ⟨_, _, hdup, rfl⟩
    · exact (asCaller_orgId hcaller).1 hcreate
    · exact (asCaller_orgId hcaller).2 hdup
  next => trivial
  next =>
    rw [hid]
    exact hown

/-- The listing fields of one workflow may have changed, in two stores alike. -/
theorem update_if {info info' : String → WorkflowInfo} (heq : info' id = info id) (b : Bool)
    (x : WorkflowInfo) :
    (if b then Function.update info' id x else info') =
      Function.update info' id ((if b then Function.update info id x else info) id) := by
  cases b <;> simp [← heq]

/-- A command on a stored workflow writes to a workflow of the organisation. -/
theorem advance_writes (hop : ∃ op, p.op = WorkflowOp.asCaller claims op)
    (hplaced : p.Placed claims.orgId s)
    (h : advance cfg i input s fields p read = some (s', stage)) :
    s.Writes claims.orgId s' ∧ stage.Holds s' claims call := by
  unfold advance at h
  cases hstage : p.stage with
  | insert doc =>
      simp only [hstage] at h
      split at h
      next => cases h
      next hnew =>
        obtain ⟨⟨w, p'⟩, hstep, heq⟩ := Option.map_eq_some_iff.mp h
        cases heq
        obtain ⟨-, rfl, rfl⟩ := WorkflowRequest.step_insert hstage hstep
        refine ⟨?_, hop, nofun, trivial⟩
        cases hran : input.write.ran with
        | false => exact .none
        | true =>
            have hown : doc.orgId = claims.orgId := by simpa [WorkflowRequest.Placed, hstage] using hplaced
            exact .create (by simpa using hnew) hown rfl rfl rfl rfl (by simp)
  | done =>
      simp only [hstage] at h
      obtain ⟨r, hstep, -⟩ := Option.map_eq_some_iff.mp h
      simp [WorkflowRequest.step, WorkflowRequest.next, hstage] at hstep
  | _ =>
      simp only [hstage] at h
      obtain ⟨⟨w, p'⟩, hstep, heq⟩ := Option.map_eq_some_iff.mp h
      cases heq
      have hinsert : ¬ ∃ doc, p.stage = .insert doc := by
        rintro ⟨doc, hdoc⟩
        rw [hstage] at hdoc
        cases hdoc
      have hown : s.owns claims.orgId p.workflowId = true := by
        simpa only [WorkflowRequest.Placed, hstage] using hplaced
      obtain ⟨doc, hdoc, horg⟩ := ApiStore.owns_eq_true.mp hown
      obtain ⟨f, hf, hw⟩ := WorkflowRequest.step_docs hinsert hstep
      -- the step changes this workflow only
      have hagrees : p.Agrees (cfg.now s) (cfg.now s).connections s.workflows s.workflows :=
        ⟨rfl, rfl, List.Subset.refl _, fun _ _ _ => rfl, fun _ _ _ => rfl⟩
      obtain ⟨w', -, hchange⟩ := WorkflowRequest.step_alike hagrees hstep
      rw [WorkflowRequest.target_of_not_insert hinsert] at hchange
      have hdocs := hchange.docs
      rw [hw, hdoc, Option.map_some] at hdocs
      obtain ⟨new, htokens, -⟩ := hchange.tokens
      have hedit : ∀ (b : Bool) (x : WorkflowInfo), s.Writes claims.orgId
          { s with
            workflows := w
            info := if b then Function.update s.info p.workflowId x else s.info } := fun b x =>
        .edit hdoc horg (hf doc).1 (hf doc).2 hdocs hchange.versions
          (htokens ▸ List.subset_append_right new _) (update_if rfl b x)
      exact ⟨hedit _ _, storing_holds hop ((hedit _ _).owns hown) hstep⟩

theorem receiveStore_writes {op : WorkflowOp} (hord : claims.Ordinary)
    (h : receiveStore cfg i input s claims id op fields = some (s', stage)) :
    s.Writes claims.orgId s' ∧ stage.Holds s' claims call := by
  have hrefused : ∀ r : Refusal, some (s, ApiStage.refuse r) = some (s', stage) →
      s.Writes claims.orgId s' ∧ stage.Holds s' claims call := by
    intro r heq
    cases heq
    exact ⟨.none, holds_refuse r⟩
  unfold receiveStore at h
  dsimp only at h
  split at h
  next r _ => exact hrefused r h
  next =>
    split at h
    next name orgId userId deptIds g _ =>
      split at h
      next r _ => exact hrefused r h
      next =>
        -- a create has read nothing
        unfold advance at h
        dsimp only at h
        obtain ⟨⟨w, p'⟩, hstep, heq⟩ := Option.map_eq_some_iff.mp h
        simp only [WorkflowRequest.step, WorkflowRequest.next, WorkflowOp.asCaller] at hstep
        cases hstep
        cases heq
        refine ⟨.none, ⟨.create name orgId userId deptIds g, rfl⟩, ?_, ?_⟩
        · simp only [WorkflowRequest.become_stage]
          split
          · exact WorkflowStage.noConfusion
          · exact WorkflowStage.noConfusion
        · unfold WorkflowRequest.Placed
          simp only [WorkflowRequest.become_stage]
          by_cases hdag : dagValid g.nodes g.edges = true
          · rw [if_pos hdag]
            rfl
          · rw [if_neg hdag]
            trivial
    next hop =>
      split at h
      next =>
        cases h
        exact ⟨.none, holds_crashed⟩
      next =>
        split at h
        next r _ => exact hrefused r h
        next doc hload =>
          obtain ⟨hdoc, hguard⟩ := ApiStore.load_ok hload
          have horg := (WorkflowOp.guard_eq_none hguard).resolve_left (by simp [hord.not_super])
          have hplaced : WorkflowRequest.Placed claims.orgId s
              { workflowId := id, op := op.asCaller claims } :=
            ApiStore.owns_eq_true.mpr ⟨doc, hdoc, horg⟩
          exact advance_writes ⟨op, rfl⟩ hplaced h

/-- A request that needs the role only. -/
theorem gated_writes {next : ApiStore × ApiStage}
    (hnext : s.Writes claims.orgId next.1 ∧ next.2.Holds next.1 claims call)
    (h : some (gated cfg s claims next) = some (s', stage)) :
    s.Writes claims.orgId s' ∧ stage.Holds s' claims call := by
  unfold gated at h
  split at h
  next r _ =>
    cases h
    exact ⟨.none, holds_refuse r⟩
  next =>
    cases h
    exact hnext

/-- A change of the connections of the organisation. -/
theorem connections_writes {docs : List ConnectionDoc} (hs : s.Sound)
    (hothers : ∀ A, A ≠ claims.orgId →
      docs.filter (·.orgId = A) = s.connections.filter (·.orgId = A))
    (hold : ∀ doc ∈ docs, ∃ old ∈ s.connections,
      old.connectionId = doc.connectionId ∧ old.orgId = doc.orgId) :
    s.Writes claims.orgId { s with connections := docs } := by
  refine .connections hothers (List.Subset.refl _) fun doc hdoc => ?_
  obtain ⟨old, hmem, hid, horg⟩ := hold doc hdoc
  exact Or.inr (by rw [← hid, ← horg]; exact hs.issued hmem)

theorem not_matching {A : String} (hA : A ≠ claims.orgId) {doc : ConnectionDoc}
    (h : ConnectionApi.matching claims.orgId id doc = true) : decide (doc.orgId = A) = false := by
  have horg : doc.orgId = claims.orgId := by
    simp only [ConnectionApi.matching, Bool.and_eq_true, decide_eq_true_eq] at h
    exact h.2
  rw [decide_eq_false_iff_not, horg]
  exact fun heq => hA heq.symm

theorem approvalFilter_owned (hs : s.Sound) (hord : claims.Ordinary) :
    ∃ l, s.approvalFilter claims = some l ∧ ∀ id ∈ l, s.owns claims.orgId id = true := by
  unfold ApiStore.approvalFilter
  rw [hord.not_super, if_neg (by simp)]
  refine ⟨_, rfl, fun id hid => ?_⟩
  obtain ⟨row, hrow, hid⟩ := List.mem_filterMap.mp hid
  obtain ⟨k, -, hget, horg⟩ := Table.mem_select.mp hrow
  obtain ⟨doc, hdoc, rfl⟩ := Option.map_eq_some_iff.mp hget
  split at hid
  next => cases hid
  next =>
    cases hid
    rw [hs.keys hdoc]
    exact ApiStore.owns_eq_true.mpr ⟨doc, hdoc, by simpa using horg⟩

theorem receive_writes (hs : s.Sound) (hord : claims.Ordinary)
    (h : receive cfg i input s claims call = some (s', stage)) :
    s.Writes claims.orgId s' ∧ stage.Holds s' claims call := by
  cases call with
  | store id op fields => exact receiveStore_writes hord h
  | getWorkflow id =>
      cases h
      exact ⟨.none, readWorkflow_holds hord fun _ _ _ => trivial⟩
  | listWorkflows q =>
      refine gated_writes ⟨.none, ?_⟩ h
      dsimp only
      split <;> trivial
  | listVersions id =>
      cases h
      exact ⟨.none, readWorkflow_holds hord fun _ _ hown => hown⟩
  | getVersion id number =>
      cases h
      exact ⟨.none, readWorkflow_holds hord fun _ _ hown => hown⟩
  | createConnection id body =>
      refine gated_writes ?_ h
      split
      next e _ => exact ⟨.none, trivial⟩
      next docs hdocs =>
        refine ⟨?_, holds_ended _⟩
        dsimp only
        split
        next =>
          obtain ⟨doc, rfl, hid, horg⟩ := ConnectionApi.createConnection_docs hdocs
          rw [hord.stripped] at horg ⊢
          refine .connections (fun A hA => ?_) (List.subset_cons_self _ _) fun d hd => ?_
          · have hne : ¬ claims.orgId = A := fun heq => hA heq.symm
            simp [List.filter_append, horg, hne]
          · rcases List.mem_append.mp hd with hd | hd
            · exact Or.inl hd
            · obtain rfl := List.mem_singleton.mp hd
              exact Or.inr (by rw [hid, horg]; exact List.mem_cons_self)
        next => exact .none
  | listConnections type =>
      refine gated_writes ⟨.none, ?_⟩ h
      dsimp only
      split
      next =>
        unfold reply
        split <;> trivial
      next => trivial
  | getConnection id =>
      refine gated_writes ⟨.none, ?_⟩ h
      dsimp only
      split
      next =>
        unfold reply
        split <;> trivial
      next => trivial
  | updateConnection id body =>
      refine gated_writes ?_ h
      split
      next e _ => exact ⟨.none, trivial⟩
      next docs hdocs =>
        refine ⟨?_, holds_ended _⟩
        dsimp only
        split
        next =>
          obtain ⟨g, hg, rfl⟩ := ConnectionApi.updateConnection_docs hdocs
          refine connections_writes hs (fun A hA => ?_) fun doc hdoc => ?_
          · refine ConnectionApi.filter_updateOne fun doc hmatch => ?_
            have hno := not_matching hA hmatch
            exact ⟨hno, by rw [(hg doc).2]; exact hno⟩
          · rcases ConnectionApi.mem_updateOne hdoc with hdoc | ⟨old, hold, rfl⟩
            · exact ⟨doc, hdoc, rfl, rfl⟩
            · exact ⟨old, hold, (hg old).1.symm, (hg old).2.symm⟩
        next => exact .none
  | deleteConnection id =>
      refine gated_writes ⟨?_, ?_⟩ h
      · dsimp only
        split
        next =>
          exact connections_writes hs
            (fun A hA => ConnectionApi.filter_eraseP fun doc hmatch => not_matching hA hmatch)
            fun doc hdoc => ⟨doc, List.mem_of_mem_eraseP hdoc, rfl, rfl⟩
        next => exact .none
      · exact holds_ite (fun _ => trivial) fun _ => holds_ended _
  | execute id executionId environment triggerData =>
      cases h
      refine ⟨.none, readWorkflow_holds hord fun doc _ hown => ?_⟩
      unfold startRun
      split
      next => trivial
      next =>
        split
        next => trivial
        next =>
          split
          next => trivial
          next => exact hown
  | listExecutions id q =>
      cases h
      exact ⟨.none, readWorkflow_holds hord fun _ _ hown => hown⟩
  | getExecution id =>
      cases h
      exact ⟨.none, readExecution_holds hord fun _ _ => trivial⟩
  | decide id approved =>
      cases h
      refine ⟨.none, readExecution_holds hord fun e hown => ?_⟩
      unfold startResume
      split
      next => trivial
      next =>
        split
        next => exact hown
        next => trivial
  | cancel id =>
      cases h
      refine ⟨.none, readExecution_holds hord fun e hown => ?_⟩
      unfold startCancel
      split
      next => trivial
      next => exact hown
  | listPendingApprovals | listAllApprovals skip limit =>
      refine gated_writes ⟨.none, ?_⟩ h
      dsimp only
      obtain ⟨l, hl, hown⟩ := approvalFilter_owned hs hord
      split
      next =>
        split
        next => trivial
        next => exact ⟨l, hl, hown⟩
      next => trivial

/-- A write to an execution of the organisation. -/
theorem setExecution_writes {f : ExecutionDocument → ExecutionDocument}
    (hown : s.ownsRun claims.orgId id = true)
    (hkeep : ∀ e, (f e).record.workflowId = e.record.workflowId) :
    s.Writes claims.orgId (setExecution cfg input s id f) := by
  unfold setExecution
  split
  next => exact .editRun hown fun e _ => hkeep e
  next => exact .none

/-- A command of a request changes what its organisation owns, and leaves the request at something
that its organisation owns. -/
theorem next_writes {req : ApiRequest} (hs : s.Sound) (hord : req.claims.Ordinary)
    (hreq : req.stage.Holds s req.claims req.call)
    (h : req.next cfg i input s = some (s', stage)) :
    s.Writes req.claims.orgId s' ∧ stage.Holds s' req.claims req.call := by
  unfold ApiRequest.next at h
  split at h
  next => exact receive_writes hs hord h
  next p read hstage =>
    rw [hstage] at hreq
    obtain ⟨hop, -, hplaced⟩ := hreq
    split at h
    next fields _ => exact advance_writes hop hplaced h
    next => cases h
  next items hstage =>
    split at h
    next q _ =>
      cases h
      refine ⟨.none, ?_⟩
      split <;> trivial
    next => cases h
  next doc hstage =>
    split at h
    next id _ =>
      cases h
      refine ⟨.none, ?_⟩
      split <;> trivial
    next id number _ =>
      cases h
      refine ⟨.none, ?_⟩
      split
      next => split <;> trivial
      next => trivial
    next => cases h
  next hstage =>
    rw [hstage] at hreq
    split at h
    next id executionId environment triggerData hcall =>
      have hown : s.owns req.claims.orgId id = true := by
        simpa only [ApiStage.Holds, hcall, ApiCall.workflowId] using hreq
      split at h
      next => cases h
      next hnew =>
        cases h
        have hrun : s.Writes req.claims.orgId { s with
            executions := s.executions.insert executionId
              (queuedRun cfg input req.claims id executionId environment triggerData) } :=
          .run (by simpa using hnew) hown
        cases hw : input.write with
        | done =>
            refine ⟨hrun, ?_⟩
            exact ApiStore.ownsRun_eq_true.mpr ⟨_, Table.get_insert_self, hown⟩
        | failed ran =>
            cases ran with
            | true => exact ⟨hrun, trivial⟩
            | false => exact ⟨.none, trivial⟩
    next => cases h
  next id hstage =>
    rw [hstage] at hreq
    cases h
    constructor
    · split
      next => exact .none
      next => exact .editRun hreq fun e _ => rfl
    · split <;> trivial
  next doc hstage =>
    split at h
    next id q _ =>
      cases h
      refine ⟨.none, ?_⟩
      split <;> trivial
    next => cases h
  next id hstage =>
    rw [hstage] at hreq
    split at h
    next approved _ =>
      split at h
      next =>
        cases h
        have hwrites : s.Writes req.claims.orgId (setExecution cfg input s id fun e => { e with
            status := .written .resuming
            resumedAt := some input.now
            resumeDecision := some (if approved then .approved else .rejected) }) :=
          setExecution_writes hreq fun e => rfl
        exact ⟨hwrites, holds_ite (fun _ => hwrites.ownsRun hreq) fun _ => trivial⟩
      next =>
        cases h
        exact ⟨.none, trivial⟩
    next => cases h
  next id hstage =>
    rw [hstage] at hreq
    cases h
    refine ⟨.none, ?_⟩
    split
    next => trivial
    next => exact hreq
  next id hstage =>
    rw [hstage] at hreq
    cases h
    refine ⟨setExecution_writes hreq fun e => rfl, ?_⟩
    split <;> trivial
  next id e hstage =>
    rw [hstage] at hreq
    cases h
    have hwrites : s.Writes req.claims.orgId (setExecution cfg input s id fun e =>
        { e with cancelRequested := true }) := setExecution_writes hreq fun e => rfl
    exact ⟨hwrites, holds_ite (fun _ => trivial) fun _ =>
      holds_ite (fun _ => hwrites.ownsRun hreq) fun _ => trivial⟩
  next id hstage =>
    rw [hstage] at hreq
    split at h
    next =>
      cases h
      exact ⟨setExecution_writes hreq fun e => rfl, holds_ended _⟩
    next =>
      cases h
      exact ⟨.none, trivial⟩
  next ids hstage =>
    rw [hstage] at hreq
    split at h
    next =>
      cases h
      refine ⟨.none, ?_⟩
      split <;> trivial
    next skip limit _ =>
      cases h
      refine ⟨.none, ?_⟩
      split
      next => exact hreq
      next => trivial
    next => cases h
  next ids docs hstage =>
    cases h
    refine ⟨.none, ?_⟩
    split <;> trivial
  next => cases h

end ApiRequest

/-! ## The engine -/

/-- The workflow that a write of the engine is about. -/
def EngineWrite.workflowId (s : ApiStore) : EngineWrite → Option String
  | .insert _ doc | .save _ doc => some doc.record.workflowId
  | .ask _ doc => some doc.request.workflowId
  | .resolve id _ => (s.approvals.get id).map (·.request.workflowId)

theorem ApiStore.exists_owner (h : (s.workflows.docs id).isSome = true) :
    ∃ orgId, s.owns orgId id = true := by
  obtain ⟨doc, hdoc⟩ := Option.isSome_iff_exists.mp h
  exact ⟨doc.orgId, owns_eq_true.mpr ⟨doc, hdoc, rfl⟩⟩

/-- A write of the engine is one of the organisation that owns the workflow. -/
theorem EngineWrite.apply_writes {e : EngineWrite} (hs : s.Sound) (h : e.apply s = some s') :
    ∃ wid orgId, e.workflowId s = some wid ∧ s.owns orgId wid = true ∧ s.Writes orgId s' := by
  cases e with
  | insert id doc =>
      simp only [EngineWrite.apply] at h
      split at h
      next => cases h
      next hnew =>
        cases h
        rw [not_or] at hnew
        obtain ⟨orgId, hown⟩ := ApiStore.exists_owner (s := s) (by simpa [Option.isSome_iff_ne_none] using hnew.2)
        exact ⟨_, orgId, rfl, hown, .run (by simpa using hnew.1) hown⟩
  | save id doc =>
      simp only [EngineWrite.apply] at h
      split at h
      next hold =>
        cases h
        obtain ⟨old, hget, hsame⟩ := (Option.any_eq_true _ _).mp hold
        have hwid : old.record.workflowId = doc.record.workflowId := by simpa using hsame
        obtain ⟨orgId, hown⟩ := ApiStore.exists_owner (hs.runs hget)
        refine ⟨_, orgId, rfl, hwid ▸ hown, .editRun (ApiStore.ownsRun_eq_true.mpr ⟨old, hget, hown⟩) ?_⟩
        intro e he
        rw [hget] at he
        cases he
        exact hwid.symm
      next => cases h
  | ask id doc =>
      simp only [EngineWrite.apply] at h
      split at h
      next => cases h
      next hnew =>
        cases h
        rw [not_or] at hnew
        obtain ⟨orgId, hown⟩ := ApiStore.exists_owner (s := s) (by simpa [Option.isSome_iff_ne_none] using hnew.2)
        exact ⟨_, orgId, rfl, hown, .ask (by simpa using hnew.1) hown⟩
  | resolve id resolution =>
      simp only [EngineWrite.apply] at h
      split at h
      next hsome =>
        cases h
        obtain ⟨a, ha⟩ := Option.isSome_iff_exists.mp hsome
        obtain ⟨orgId, hown⟩ := ApiStore.exists_owner (hs.asks ha)
        refine ⟨a.request.workflowId, orgId, by simp [EngineWrite.workflowId, ha], hown, .editAsk ?_ fun _ => rfl⟩
        simp [ApiStore.ownsAsk, ha, hown]
      next => cases h

end

/-! ## Every run -/

/-- A request whose claims are ordinary starts, or anything else happens. -/
def OrdinaryMove {cfg : ApiConfig} : ApiMove cfg → Prop
  | .spawn x => x.claims.Ordinary
  | _ => True

/-- The collections stay sound, and every request is where its organisation may be. -/
def ApiRequest.Lawful (s : ApiStore) (_ : Nat) (req : ApiRequest) : Prop :=
  req.claims.Ordinary ∧ req.stage.Holds s req.claims req.call

theorem apiSystem_invariant (cfg : ApiConfig) :
    (apiSystem cfg).Invariant (fun _ m => OrdinaryMove m) (fun _ s => s.Sound)
      ApiRequest.Lawful where
  spawn := by
    intro c x g l hc hok hs
    cases hs
    exact ⟨hc.1, ⟨hok, trivial⟩, hc.2⟩
  step := by
    intro c i input req g req' hc _ hi hstep
    obtain ⟨⟨s', stage⟩, hnext, heq⟩ := Option.map_eq_some_iff.mp hstep
    cases heq
    obtain ⟨hord, hholds⟩ := hc.2 i req hi
    obtain ⟨hwrites, hholds'⟩ := ApiRequest.next_writes hc.1 hord hholds hnext
    exact ⟨hwrites.sound hc.1, ⟨hord, hholds'⟩, fun j m _ hj =>
      ⟨(hc.2 j m hj).1, (hc.2 j m hj).2.mono hwrites⟩⟩
  env := by
    intro c e g hc _ he
    obtain ⟨wid, orgId, -, -, hwrites⟩ := EngineWrite.apply_writes hc.1 he
    exact ⟨hwrites.sound hc.1, fun j m hj => ⟨(hc.2 j m hj).1, (hc.2 j m hj).2.mono hwrites⟩⟩

end CitraFlows
