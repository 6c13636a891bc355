-- SUMMARY: Isolation of organisations: what an organisation sees of the workflow API does not depend on what the others do.
import CitraFlows.Connections.Crypto
import CitraFlows.Lib.Noninterference
import CitraFlows.Tenants.Ownership
import Mathlib.Data.List.Find

/-!
# Isolation

The requests of an organisation, and what they answer, are the same when no request of another
organisation takes a step and the engine runs no workflow of another one. This needs that no
request comes from a super admin, and that the workflows of the organisation name no connection of
another one: the gate of a deploy looks a connection up by its id, whoever owns it, and quotes its
name.

A workflow or an execution of another organisation is refused with another text than one that is
not there, so these refusals count as one.
-/

namespace CitraFlows

open Processes

namespace ApiStore

/-! ## What an organisation sees -/

def inOrg (A : String) (row : StoredWorkflow × WorkflowInfo) : Bool := row.1.orgId = A

def runsOf (s : ApiStore) (A : String) (e : ExecutionDocument) : Bool := s.owns A e.record.workflowId

def asksOf (s : ApiStore) (A : String) (a : ApprovalDocument) : Bool := s.owns A a.request.workflowId

/-- The organisation has the same documents in both, and what was inserted, drawn or issued in the
second store was so in the first one. -/
structure SameFor (A : String) (g h : ApiStore) : Prop where
  rows : g.rows.restrict (inOrg A) = h.rows.restrict (inOrg A)
  versions : ∀ {id}, g.owns A id = true → h.workflows.versions id = g.workflows.versions id
  connections : g.connections.filter (·.orgId = A) = h.connections.filter (·.orgId = A)
  executions : g.executions.restrict (g.runsOf A) = h.executions.restrict (g.runsOf A)
  approvals : g.approvals.restrict (g.asksOf A) = h.approvals.restrict (g.asksOf A)
  hasRow : ∀ {id}, h.rows.has id = true → g.rows.has id = true
  hasRun : ∀ {id}, h.executions.has id = true → g.executions.has id = true
  hasAsk : ∀ {id}, h.approvals.has id = true → g.approvals.has id = true
  tokens : h.workflows.tokens ⊆ g.workflows.tokens
  issued : h.issued ⊆ g.issued

variable {A orgId id : String} {g g' h : ApiStore}

theorem SameFor.refl (A : String) (g : ApiStore) : SameFor A g g :=
  ⟨rfl, fun _ => rfl, rfl, rfl, rfl, fun h => h, fun h => h, fun h => h, List.Subset.refl _,
    List.Subset.refl _⟩

theorem owns_eq_any (s : ApiStore) (A id : String) : s.owns A id = (s.rows.get id).any (inOrg A) := by
  show (s.workflows.docs id).any _ = ((s.workflows.docs id).map _).any _
  rw [Option.any_map]
  rfl

theorem SameFor.owns (hs : SameFor A g h) (id : String) : h.owns A id = g.owns A id := by
  have hany : ∀ o : Option (StoredWorkflow × WorkflowInfo),
      o.any (inOrg A) = (o.filter (inOrg A)).isSome := by
    intro o
    cases o with
    | none => rfl
    | some x => cases hx : inOrg A x <;> simp [Option.filter_some, hx]
  rw [owns_eq_any, owns_eq_any, hany, hany, Table.filter_get_of_restrict hs.rows]

theorem SameFor.runsOf (hs : SameFor A g h) : h.runsOf A = g.runsOf A :=
  funext fun e => hs.owns e.record.workflowId

theorem SameFor.asksOf (hs : SameFor A g h) : h.asksOf A = g.asksOf A :=
  funext fun a => hs.owns a.request.workflowId

/-- A workflow of the organisation is the same in both. -/
theorem SameFor.doc (hs : SameFor A g h) {doc : StoredWorkflow}
    (hdoc : g.workflows.docs id = some doc) (horg : doc.orgId = A) :
    h.workflows.docs id = some doc ∧ h.info id = g.info id := by
  have hget : g.rows.get id = some (doc, g.info id) := by
    show (g.workflows.docs id).map _ = _
    rw [hdoc, Option.map_some]
  have hrow := Table.get_of_restrict hs.rows hget (by simpa [inOrg] using horg)
  obtain ⟨doc', hdoc', heq⟩ := Option.map_eq_some_iff.mp hrow
  obtain ⟨rfl, hinfo⟩ := Prod.mk.inj heq
  exact ⟨hdoc', hinfo⟩

/-! ## Changes of the stored workflows -/

theorem rows_edit {doc doc' : StoredWorkflow} {w : WorkflowStore} {info : String → WorkflowInfo}
    (hdoc : g.workflows.docs id = some doc)
    (hdocs : w.docs = Function.update g.workflows.docs id (some doc'))
    (hinfo : info = Function.update g.info id (info id)) :
    ({ g with workflows := w, info } : ApiStore).rows =
      g.rows.modify id fun _ => (doc', info id) := by
  unfold rows Table.modify
  congr 1
  funext id'
  by_cases heq : id' = id
  · subst heq
    simp [hdocs, hdoc]
  · rw [hdocs, hinfo]
    simp [heq]

theorem rows_create {doc : StoredWorkflow} {w : WorkflowStore} {info : String → WorkflowInfo}
    (hdocs : w.docs = Function.update g.workflows.docs id (some doc))
    (hinfo : info = Function.update g.info id (info id)) :
    ({ g with workflows := w, order := g.order ++ [id], info } : ApiStore).rows =
      g.rows.insert id (doc, info id) := by
  unfold rows Table.insert
  congr 1
  funext id'
  by_cases heq : id' = id
  · subst heq
    simp [hdocs]
  · rw [hdocs, hinfo]
    simp [heq]

/-- The rows of the organisation in the second store change as those in the first one do. -/
theorem SameFor.edit {doc doc' : StoredWorkflow} {w v : WorkflowStore}
    {info info' : String → WorkflowInfo} (hs : SameFor A g h)
    (hdoc : g.workflows.docs id = some doc) (hown : doc.orgId = A) (horg : doc'.orgId = doc.orgId)
    (hchange : WorkflowStore.ChangesAlike id g.workflows w h.workflows v)
    (hw : w.docs id = some doc') (hinfo : info = Function.update g.info id (info id))
    (hinfo' : info' = Function.update h.info id (info id)) :
    SameFor A { g with workflows := w, info } { h with workflows := v, info := info' } := by
  have hdocs : w.docs = Function.update g.workflows.docs id (some doc') := hw ▸ hchange.docs
  have hdocs' : v.docs = Function.update h.workflows.docs id (some doc') := hw ▸ hchange.docs'
  obtain ⟨hdoc', -⟩ := hs.doc hdoc hown
  have hself : info' id = info id := by rw [hinfo', Function.update_self]
  have howns : ({ g with workflows := w, info } : ApiStore).owns A = g.owns A :=
    funext fun id' => owns_edit hdoc horg hdocs id'
  have hruns : ({ g with workflows := w, info } : ApiStore).runsOf A = g.runsOf A :=
    funext fun e => congrFun howns _
  have hasks : ({ g with workflows := w, info } : ApiStore).asksOf A = g.asksOf A :=
    funext fun a => congrFun howns _
  obtain ⟨new, hnew, hnew'⟩ := hchange.tokens
  refine ⟨?_, fun {id'} hid' => ?_, hs.connections, ?_, ?_, fun {id'} hid' => ?_, hs.hasRun, hs.hasAsk,
    ?_, hs.issued⟩
  · rw [rows_edit hdoc hdocs hinfo, rows_edit hdoc' hdocs' (by rw [hself]; exact hinfo'), hself,
      Table.restrict_modify, Table.restrict_modify, hs.rows]
    · intro x hx
      obtain ⟨d, hd, rfl⟩ := Option.map_eq_some_iff.mp hx
      rw [hdoc'] at hd
      cases hd
      simp [inOrg, horg]
    · intro x hx
      obtain ⟨d, hd, rfl⟩ := Option.map_eq_some_iff.mp hx
      rw [hdoc] at hd
      cases hd
      simp [inOrg, horg]
  · show v.versions id' = w.versions id'
    rw [howns] at hid'
    rw [hchange.versions', hchange.versions]
    by_cases heq : id' = id
    · subst heq
      rw [Function.update_self, Function.update_self]
    · rw [Function.update_of_ne heq, Function.update_of_ne heq]
      exact hs.versions hid'
  · rw [hruns]
    exact hs.executions
  · rw [hasks]
    exact hs.approvals
  · rw [rows_edit hdoc' hdocs' (by rw [hself]; exact hinfo'), Table.has_modify] at hid'
    rw [rows_edit hdoc hdocs hinfo, Table.has_modify]
    exact hs.hasRow hid'
  · show v.tokens ⊆ w.tokens
    rw [hnew, hnew']
    exact List.append_subset.mpr ⟨List.subset_append_left _ _,
      fun x hx => List.mem_append_right _ (hs.tokens hx)⟩

/-- A new workflow of the organisation is new in both. -/
theorem SameFor.create {doc : StoredWorkflow} {w v : WorkflowStore}
    {info info' : String → WorkflowInfo} (hs : SameFor A g h) (hg : g.Sound) (hh : h.Sound)
    (hnew : g.rows.has id = false) (hown : doc.orgId = A)
    (hchange : WorkflowStore.ChangesAlike id g.workflows w h.workflows v)
    (hw : w.docs id = some doc) (hinfo : info = Function.update g.info id (info id))
    (hinfo' : info' = Function.update h.info id (info id)) :
    SameFor A { g with workflows := w, order := g.order ++ [id], info }
      { h with workflows := v, order := h.order ++ [id], info := info' } := by
  have hdocs : w.docs = Function.update g.workflows.docs id (some doc) := hw ▸ hchange.docs
  have hdocs' : v.docs = Function.update h.workflows.docs id (some doc) := hw ▸ hchange.docs'
  have hself : info' id = info id := by rw [hinfo', Function.update_self]
  have hnew' : h.rows.has id = false := by
    rw [Bool.eq_false_iff] at hnew ⊢
    exact fun hid => hnew (hs.hasRow hid)
  have hnone : g.workflows.docs id = none := docs_of_new hnew
  have hnone' : h.workflows.docs id = none := docs_of_new hnew'
  -- nothing refers to the workflow yet
  have howns : ∀ id', id' ≠ id →
      ({ g with workflows := w, order := g.order ++ [id], info } : ApiStore).owns A id' =
        g.owns A id' := by
    intro id' hne
    rw [owns_create hnew hdocs, decide_eq_false hne, Bool.false_and, Bool.or_false]
  have hrow : inOrg A (doc, info id) = true := by simpa [inOrg] using hown
  obtain ⟨new, htokens, htokens'⟩ := hchange.tokens
  refine ⟨?_, fun {id'} hid' => ?_, hs.connections, ?_, ?_, fun {id'} hid' => ?_, hs.hasRun, hs.hasAsk,
    ?_, hs.issued⟩
  · rw [rows_create hdocs hinfo, rows_create hdocs' (by rw [hself]; exact hinfo'), hself,
      Table.restrict_insert hnew hrow, Table.restrict_insert hnew' hrow, hs.rows]
  · show v.versions id' = w.versions id'
    rw [hchange.versions', hchange.versions]
    by_cases heq : id' = id
    · subst heq
      rw [Function.update_self, Function.update_self]
    · rw [howns id' heq] at hid'
      rw [Function.update_of_ne heq, Function.update_of_ne heq]
      exact hs.versions hid'
  · have hkeep : ∀ (s : ApiStore), s.Sound → s.workflows.docs id = none →
        s.executions.restrict
            (({ g with workflows := w, order := g.order ++ [id], info } : ApiStore).runsOf A) =
          s.executions.restrict (g.runsOf A) := by
      intro s hsound hid
      refine Table.restrict_congr fun k e he => howns _ ?_
      rintro rfl
      simpa [hid] using hsound.runs he
    exact (hkeep g hg hnone).trans (hs.executions.trans (hkeep h hh hnone').symm)
  · have hkeep : ∀ (s : ApiStore), s.Sound → s.workflows.docs id = none →
        s.approvals.restrict
            (({ g with workflows := w, order := g.order ++ [id], info } : ApiStore).asksOf A) =
          s.approvals.restrict (g.asksOf A) := by
      intro s hsound hid
      refine Table.restrict_congr fun k a ha => howns _ ?_
      rintro rfl
      simpa [hid] using hsound.asks ha
    exact (hkeep g hg hnone).trans (hs.approvals.trans (hkeep h hh hnone').symm)
  · rw [rows_create hdocs' (by rw [hself]; exact hinfo'), Table.has_insert, Bool.or_eq_true] at hid'
    rw [rows_create hdocs hinfo, Table.has_insert, Bool.or_eq_true]
    exact hid'.imp_left fun hid' => hs.hasRow hid'
  · show v.tokens ⊆ w.tokens
    rw [htokens, htokens']
    exact List.append_subset.mpr ⟨List.subset_append_left _ _,
      fun x hx => List.mem_append_right _ (hs.tokens hx)⟩

/-! ## Changes of the executions and the approvals -/

theorem SameFor.run {e : ExecutionDocument} (hs : SameFor A g h)
    (hnew : g.executions.has id = false) (hown : g.owns A e.record.workflowId = true) :
    SameFor A { g with executions := g.executions.insert id e }
      { h with executions := h.executions.insert id e } := by
  have hnew' : h.executions.has id = false := by
    rw [Bool.eq_false_iff] at hnew ⊢
    exact fun hid => hnew (hs.hasRun hid)
  refine { hs with executions := ?_, hasRun := fun {id'} hid' => ?_ }
  · show (g.executions.insert id e).restrict (g.runsOf A) =
      (h.executions.insert id e).restrict (g.runsOf A)
    rw [Table.restrict_insert hnew hown, Table.restrict_insert hnew' hown, hs.executions]
  · rw [Table.has_insert, Bool.or_eq_true] at hid' ⊢
    exact hid'.imp_left fun hid' => hs.hasRun hid'

theorem SameFor.ask {a : ApprovalDocument} (hs : SameFor A g h)
    (hnew : g.approvals.has id = false) (hown : g.owns A a.request.workflowId = true) :
    SameFor A { g with approvals := g.approvals.insert id a }
      { h with approvals := h.approvals.insert id a } := by
  have hnew' : h.approvals.has id = false := by
    rw [Bool.eq_false_iff] at hnew ⊢
    exact fun hid => hnew (hs.hasAsk hid)
  refine { hs with approvals := ?_, hasAsk := fun {id'} hid' => ?_ }
  · show (g.approvals.insert id a).restrict (g.asksOf A) =
      (h.approvals.insert id a).restrict (g.asksOf A)
    rw [Table.restrict_insert hnew hown, Table.restrict_insert hnew' hown, hs.approvals]
  · rw [Table.has_insert, Bool.or_eq_true] at hid' ⊢
    exact hid'.imp_left fun hid' => hs.hasAsk hid'

theorem SameFor.editRun {f : ExecutionDocument → ExecutionDocument} (hs : SameFor A g h)
    (hg : ∀ e, g.executions.get id = some e → (f e).record.workflowId = e.record.workflowId)
    (hh : ∀ e, h.executions.get id = some e → (f e).record.workflowId = e.record.workflowId) :
    SameFor A { g with executions := g.executions.modify id f }
      { h with executions := h.executions.modify id f } := by
  refine { hs with executions := ?_, hasRun := fun {id'} hid' => ?_ }
  · show (g.executions.modify id f).restrict (g.runsOf A) =
      (h.executions.modify id f).restrict (g.runsOf A)
    rw [Table.restrict_modify fun e he => by unfold ApiStore.runsOf; rw [hg e he],
      Table.restrict_modify fun e he => by unfold ApiStore.runsOf; rw [hh e he], hs.executions]
  · rw [Table.has_modify] at hid' ⊢
    exact hs.hasRun hid'

theorem SameFor.editAsk {f : ApprovalDocument → ApprovalDocument} (hs : SameFor A g h)
    (hkeep : ∀ a, (f a).request = a.request) :
    SameFor A { g with approvals := g.approvals.modify id f }
      { h with approvals := h.approvals.modify id f } := by
  refine { hs with approvals := ?_, hasAsk := fun {id'} hid' => ?_ }
  · show (g.approvals.modify id f).restrict (g.asksOf A) =
      (h.approvals.modify id f).restrict (g.asksOf A)
    rw [Table.restrict_modify fun a _ => by unfold ApiStore.asksOf; rw [hkeep],
      Table.restrict_modify fun a _ => by unfold ApiStore.asksOf; rw [hkeep], hs.approvals]
  · rw [Table.has_modify] at hid' ⊢
    exact hs.hasAsk hid'

/-! ## What the others do -/

/-- A change that another organisation makes is not seen. -/
theorem SameFor.of_writes (hs : SameFor A g h) (hne : A ≠ orgId) (hwrites : g.Writes orgId g') :
    SameFor A g' h := by
  cases hwrites with
  | none => exact hs
  | @edit id doc doc' w info hdoc hown horg hkey hdocs hversions htokens hinfo =>
      have hother : ¬ doc.orgId = A := fun heq => hne (heq.symm.trans hown)
      have howns : ({ g with workflows := w, info } : ApiStore).owns A = g.owns A :=
        funext fun id' => owns_edit hdoc horg hdocs id'
      have hruns : ({ g with workflows := w, info } : ApiStore).runsOf A = g.runsOf A :=
        funext fun e => congrFun howns _
      have hasks : ({ g with workflows := w, info } : ApiStore).asksOf A = g.asksOf A :=
        funext fun a => congrFun howns _
      refine ⟨?_, fun {id'} hid' => ?_, hs.connections, by rw [hruns]; exact hs.executions,
        by rw [hasks]; exact hs.approvals, fun {id'} hid' => ?_, hs.hasRun, hs.hasAsk,
        fun x hx => htokens (hs.tokens hx), hs.issued⟩
      · rw [rows_edit hdoc hdocs hinfo, Table.restrict_modify_of_not, hs.rows]
        · intro x hx
          obtain ⟨d, hd, rfl⟩ := Option.map_eq_some_iff.mp hx
          rw [hdoc] at hd
          cases hd
          simp [inOrg, horg]
        · rw [← owns_eq_any, ← Bool.not_eq_true, owns_eq_true]
          rintro ⟨d, hd, hA⟩
          rw [hdoc] at hd
          cases hd
          exact hother hA
      · rw [howns] at hid'
        show h.workflows.versions id' = w.versions id'
        have hne' : id' ≠ id := by
          rintro rfl
          obtain ⟨d, hd, hA⟩ := owns_eq_true.mp hid'
          rw [hdoc] at hd
          cases hd
          exact hother hA
        rw [hversions, Function.update_of_ne hne']
        exact hs.versions hid'
      · rw [rows_edit hdoc hdocs hinfo, Table.has_modify]
        exact hs.hasRow hid'
  | @create id doc w info hnew hown hkey hdocs hversions htokens hinfo =>
      have hother : ¬ doc.orgId = A := fun heq => hne (heq.symm.trans hown)
      have howns : ({ g with workflows := w, order := g.order ++ [id], info } : ApiStore).owns A =
          g.owns A := by
        funext id'
        rw [owns_create hnew hdocs, decide_eq_false hother, Bool.and_false, Bool.or_false]
      have hruns : ({ g with workflows := w, order := g.order ++ [id], info } : ApiStore).runsOf A =
          g.runsOf A := funext fun e => congrFun howns _
      have hasks : ({ g with workflows := w, order := g.order ++ [id], info } : ApiStore).asksOf A =
          g.asksOf A := funext fun a => congrFun howns _
      refine ⟨?_, fun {id'} hid' => ?_, hs.connections, by rw [hruns]; exact hs.executions,
        by rw [hasks]; exact hs.approvals, fun {id'} hid' => ?_, hs.hasRun, hs.hasAsk, ?_, hs.issued⟩
      · rw [rows_create hdocs hinfo, Table.restrict_insert_of_not hnew, hs.rows]
        simpa [inOrg] using hother
      · rw [howns] at hid'
        show h.workflows.versions id' = w.versions id'
        rw [hversions]
        exact hs.versions hid'
      · rw [rows_create hdocs hinfo, Table.has_insert, hs.hasRow hid', Bool.true_or]
      · show h.workflows.tokens ⊆ w.tokens
        rw [htokens]
        exact hs.tokens
  | connections hothers hold _ =>
      exact { hs with
        connections := (hothers A hne).trans hs.connections
        issued := fun x hx => hold (hs.issued hx) }
  | @run id e hnew hown =>
      refine { hs with executions := ?_, hasRun := fun {id'} hid' => ?_ }
      · exact (Table.restrict_insert_of_not hnew (owns_of_ne hown hne)).trans hs.executions
      · rw [Table.has_insert, hs.hasRun hid', Bool.true_or]
  | @editRun id f hown hkeep =>
      obtain ⟨e, he, hown⟩ := ownsRun_eq_true.mp hown
      refine { hs with executions := ?_, hasRun := fun {id'} hid' => ?_ }
      · refine (Table.restrict_modify_of_not (fun x hx => ?_) ?_).trans hs.executions
        · unfold ApiStore.runsOf
          rw [hkeep x hx]
        · rw [he]
          exact owns_of_ne hown hne
      · rw [Table.has_modify]
        exact hs.hasRun hid'
  | @ask id a hnew hown =>
      refine { hs with approvals := ?_, hasAsk := fun {id'} hid' => ?_ }
      · exact (Table.restrict_insert_of_not hnew (owns_of_ne hown hne)).trans hs.approvals
      · rw [Table.has_insert, hs.hasAsk hid', Bool.true_or]
  | @editAsk id f hown hkeep =>
      obtain ⟨a, ha, hown⟩ := (Option.any_eq_true _ _).mp hown
      refine { hs with approvals := ?_, hasAsk := fun {id'} hid' => ?_ }
      · refine (Table.restrict_modify_of_not (fun x _ => ?_) ?_).trans hs.approvals
        · unfold ApiStore.asksOf
          rw [hkeep x]
        · rw [ha]
          exact owns_of_ne hown hne
      · rw [Table.has_modify]
        exact hs.hasAsk hid'

end ApiStore

/-! ## Connections that a gate looks up -/

/-- The nodes name no connection that was issued to another organisation. -/
def NamesOwn (s : ApiStore) (A : String) (nodes : List NodeDefinition) : Prop :=
  ∀ id ∈ connectionIds nodes, ∀ orgId, (id, orgId) ∈ s.issued → orgId = A

/-- The workflows and the snapshots of the organisation name no connection that was issued to
another one. -/
structure OwnConnections (s : ApiStore) (A : String) : Prop where
  live : ∀ {id doc}, s.workflows.docs id = some doc → doc.orgId = A → NamesOwn s A doc.nodes
  snapshot : ∀ {id v}, s.owns A id = true → v ∈ s.workflows.versions id →
    NamesOwn s A v.graph.nodes

section

variable {A id : String} {g g' h : ApiStore} {claims : JwtClaims} {call : ApiCall}

/-- A lookup by the id alone finds what a lookup among the connections of the organisation finds. -/
theorem find?_own {s : ApiStore} (hs : s.Sound) (hid : ∀ orgId, (id, orgId) ∈ s.issued → orgId = A) :
    (s.connections.filter (·.orgId = A)).find? (·.connectionId = id) =
      s.connections.find? (·.connectionId = id) := by
  rw [List.find?_filter]
  refine List.find?_congr fun doc hdoc => ?_
  by_cases heq : doc.connectionId = id
  · have horg := hid doc.orgId (heq ▸ hs.issued hdoc)
    simp [heq, horg]
  · simp [heq]

theorem ApiStore.SameFor.connection (hs : g.SameFor A h) (hg : g.Sound) (hh : h.Sound)
    {nodes : List NodeDefinition} (hown : NamesOwn g A nodes) :
    ∀ id ∈ connectionIds nodes, h.connection id = g.connection id := by
  intro id hid
  unfold ApiStore.connection
  rw [← find?_own hg (hown id hid), ← find?_own hh fun orgId horg => hown id hid orgId (hs.issued horg),
    hs.connections]

end

/-! ## Connections of one organisation -/

namespace ConnectionApi

variable {f : Fernet} {orgId id : String} {docs docs' : List ConnectionDoc}
  {p q : ConnectionDoc → Bool} {g : ConnectionDoc → ConnectionDoc}

theorem updateOne_filter (hp : ∀ doc, p doc = true → q doc = true) (hg : ∀ doc, q (g doc) = q doc) :
    (updateOne p g docs).filter q = updateOne p g (docs.filter q) := by
  induction docs with
  | nil => rfl
  | cons doc docs ih =>
      unfold updateOne
      cases hpd : p doc with
      | true => simp [hg, hp doc hpd, hpd]
      | false =>
          rw [if_neg (by simp), List.filter_cons, List.filter_cons, ih]
          cases hq : q doc with
          | true => simp [hpd]
          | false =>
              rw [if_neg (by simp), if_neg (by simp)]
              cases docs.filter q <;> rfl

theorem eraseP_filter (hp : ∀ doc, p doc = true → q doc = true) :
    (docs.eraseP p).filter q = (docs.filter q).eraseP p := by
  induction docs with
  | nil => rfl
  | cons doc docs ih =>
      rw [List.eraseP_cons]
      cases hpd : p doc with
      | true => simp [hp doc hpd, hpd]
      | false => cases hq : q doc <;> simp [hq, hpd, ih]

/-- What is created does not depend on what is there. -/
theorem createConnection_congr (salt : RunEnvironment → String → f.Salt)
    (body : CreateConnectionRequest) (orgId id : String) (docs docs' : List ConnectionDoc) :
    (∃ e, createConnection f salt orgId id body docs = .error e ∧
      createConnection f salt orgId id body docs' = .error e) ∨
    ∃ doc, createConnection f salt orgId id body docs = .ok (docs ++ [doc]) ∧
      createConnection f salt orgId id body docs' = .ok (docs' ++ [doc]) := by
  unfold createConnection
  split
  next => exact Or.inl ⟨_, rfl, rfl⟩
  next =>
    cases raised (bothEnvironments fun env =>
        encryptEnvConfig f (salt env) false (body.config env).modelDump) with
    | error e => exact Or.inl ⟨e, rfl, rfl⟩
    | ok config =>
        simp only [bind, Except.bind, pure, Except.pure]
        cases raised (bothEnvironments fun env => assertEncryptedEnvelope (config env)) with
        | error e => exact Or.inl ⟨e, rfl, rfl⟩
        | ok _ =>
            exact Or.inr ⟨{ connectionId := id
                            orgId := String.ofList (Python.strip orgId.toList)
                            name := body.name, type := body.type, description := body.description
                            config }, rfl, rfl⟩

theorem matching_orgId {doc : ConnectionDoc} (h : matching orgId id doc = true) :
    decide (doc.orgId = orgId) = true := by
  simp only [matching, Bool.and_eq_true] at h
  exact h.2

/-- Lookups by the id and the organisation look at the connections of the organisation only. -/
theorem find?_matching
    (heq : docs.filter (·.orgId = orgId) = docs'.filter (·.orgId = orgId)) :
    docs.find? (matching orgId id) = docs'.find? (matching orgId id) := by
  have hfilter : ∀ l : List ConnectionDoc,
      (l.filter (·.orgId = orgId)).find? (matching orgId id) = l.find? (matching orgId id) := by
    intro l
    rw [List.find?_filter]
    congr 1
    funext doc
    simp [matching]
  rw [← hfilter docs, heq, hfilter]

/-- An update does the same to the connections of the organisation. -/
theorem updateConnection_congr (salt : RunEnvironment → String → f.Salt)
    (body : UpdateConnectionRequest) (id : String)
    (heq : docs.filter (·.orgId = orgId) = docs'.filter (·.orgId = orgId)) :
    (∃ e, updateConnection f salt orgId id body docs = .error e ∧
      updateConnection f salt orgId id body docs' = .error e) ∨
    ∃ g : ConnectionDoc → ConnectionDoc, (∀ doc, (g doc).orgId = doc.orgId) ∧
      updateConnection f salt orgId id body docs = .ok (updateOne (matching orgId id) g docs) ∧
      updateConnection f salt orgId id body docs' = .ok (updateOne (matching orgId id) g docs') := by
  unfold updateConnection
  rw [find?_matching heq]
  cases docs'.find? (matching orgId id) with
  | none => exact Or.inl ⟨_, rfl, rfl⟩
  | some doc =>
      dsimp only
      generalize raised _ = config
      cases config with
      | error e => exact Or.inl ⟨e, rfl, rfl⟩
      | ok config =>
          exact Or.inr ⟨fun doc => { doc with
            name := body.name.getD doc.name
            description := body.description.getD doc.description
            config }, fun _ => rfl, rfl, rfl⟩

end ConnectionApi

/-! ## The same command -/

/-- The refusals that tell no more than whether an id is taken. -/
def missingOrForeign : List Refusal :=
  [⟨404, "Workflow not found"⟩, ⟨404, "Execution not found"⟩,
    ⟨403, "workflow access requires IT-workflow, org_admin, super_admin, or IT-dept admin role"⟩,
    ⟨403, "workflow belongs to a different org"⟩, ⟨403, "workflow is not in your org"⟩,
    ⟨403, "workflow outside your org"⟩, ⟨403, "execution belongs to a different org"⟩]

/-- The same result, or refusals that tell no more than whether an id is taken. -/
def AlikeResult {α : Type} (x y : Except Refusal α) : Prop :=
  x = y ∨ ∃ r ∈ missingOrForeign, ∃ r' ∈ missingOrForeign, x = .error r ∧ y = .error r'

def ApiStage.Alike (stage stage' : ApiStage) : Prop :=
  stage = stage' ∨ ∃ r ∈ missingOrForeign, ∃ r' ∈ missingOrForeign,
    stage = .refuse r ∧ stage' = .refuse r'

theorem ApiStage.Alike.refl (stage : ApiStage) : stage.Alike stage := Or.inl rfl

theorem checkWorkflowAction_missingOrForeign {itDeptId : String} {claims : JwtClaims}
    {wf : StoredWorkflow} {r : Refusal} (h : checkWorkflowAction itDeptId claims wf = some r) :
    r ∈ missingOrForeign := by
  unfold checkWorkflowAction at h
  split at h
  next => cases h
  next =>
    split at h
    next =>
      cases h
      decide
    next =>
      split at h
      next =>
        cases h
        decide
      next => cases h

theorem WorkflowOp.guard_missingOrForeign {itDeptId : String} {claims : JwtClaims}
    {wf : StoredWorkflow} {op : WorkflowOp} {r : Refusal}
    (h : op.guard itDeptId claims wf = some r) : r ∈ missingOrForeign := by
  unfold WorkflowOp.guard at h
  split at h
  next =>
    split at h
    next => cases h
    next =>
      cases h
      decide
  next =>
    split at h
    next => cases h
    next =>
      cases h
      decide
  next =>
    split at h
    next => cases h
    next =>
      cases h
      decide
  next => exact checkWorkflowAction_missingOrForeign h

section

variable {A id : String} {g g' h : ApiStore} {claims : JwtClaims} {call : ApiCall}

/-- A workflow that one organisation may have is loaded in both, or in neither. -/
theorem ApiStore.SameFor.load (hs : g.SameFor A h) {check : StoredWorkflow → Option Refusal}
    (hpass : ∀ doc, check doc = none → doc.orgId = A)
    (hrefuse : ∀ doc r, check doc = some r → r ∈ missingOrForeign) :
    AlikeResult (g.load id check) (h.load id check) := by
  -- what is not the organisation's is refused
  have hforeign : ∀ s : ApiStore, s.owns A id = false →
      ∃ r ∈ missingOrForeign, s.load id check = .error r := by
    intro s howns
    unfold ApiStore.load
    cases hdoc : s.workflows.docs id with
    | none => exact ⟨_, by decide, rfl⟩
    | some doc =>
        dsimp only
        cases hcheck : check doc with
        | some r => exact ⟨r, hrefuse doc r hcheck, rfl⟩
        | none =>
            have hown := ApiStore.owns_eq_true.mpr ⟨doc, hdoc, hpass doc hcheck⟩
            rw [howns] at hown
            cases hown
  cases howns : g.owns A id with
  | false =>
      obtain ⟨r, hr, hg⟩ := hforeign g howns
      obtain ⟨r', hr', hh⟩ := hforeign h (by rw [hs.owns]; exact howns)
      exact Or.inr ⟨r, hr, r', hr', hg, hh⟩
  | true =>
      obtain ⟨doc, hdoc, horg⟩ := ApiStore.owns_eq_true.mp howns
      refine Or.inl ?_
      unfold ApiStore.load
      rw [hdoc, (hs.doc hdoc horg).1]

theorem ApiStore.SameFor.authorizeExecution (hs : g.SameFor A h) (hord : claims.Ordinary)
    (horg : claims.orgId = A) (itDeptId : String) :
    AlikeResult (g.authorizeExecution itDeptId claims id)
      (h.authorizeExecution itDeptId claims id) := by
  -- the check lets the executions of the organisation through
  have hsame : ∀ (s : ApiStore) (wid : String),
      sameOrgOrSuper claims (s.workflows.docs wid) = s.owns A wid := by
    intro s wid
    unfold sameOrgOrSuper ApiStore.owns
    cases s.workflows.docs wid with
    | none => rfl
    | some wf => simp [hord.not_super, horg]
  have hforeign : ∀ s : ApiStore, ((s.executions.get id).filter (s.runsOf A)) = none →
      requireWorkflowAccess itDeptId claims = none →
      ∃ r ∈ missingOrForeign, s.authorizeExecution itDeptId claims id = .error r := by
    intro s hnone haccess
    unfold ApiStore.authorizeExecution
    rw [haccess]
    cases he : s.executions.get id with
    | none => exact ⟨_, by decide, rfl⟩
    | some e =>
        dsimp only
        rw [he, Option.filter_some] at hnone
        split at hnone
        next => cases hnone
        next hno =>
          have hown : ¬ s.owns A e.record.workflowId = true := hno
          rw [hsame, if_neg hown]
          exact ⟨_, by decide, rfl⟩
  cases haccess : requireWorkflowAccess itDeptId claims with
  | some r =>
      refine Or.inl ?_
      unfold ApiStore.authorizeExecution
      rw [haccess]
  | none =>
      have hfilter := Table.filter_get_of_restrict hs.executions id
      cases he : (g.executions.get id).filter (g.runsOf A) with
      | none =>
          obtain ⟨r, hr, hg⟩ := hforeign g he haccess
          obtain ⟨r', hr', hh⟩ := hforeign h (by rw [hs.runsOf, ← hfilter, he]) haccess
          exact Or.inr ⟨r, hr, r', hr', hg, hh⟩
      | some e =>
          refine Or.inl ?_
          obtain ⟨hg, hown⟩ := Option.filter_eq_some_iff.mp he
          obtain ⟨hh, -⟩ := Option.filter_eq_some_iff.mp (hfilter.symm.trans he)
          have hown' : g.owns A e.record.workflowId = true := hown
          unfold ApiStore.authorizeExecution
          rw [hg, hh]
          simp only [hsame, hs.owns, hown']

namespace ApiRequest

variable {cfg : ApiConfig} {i : Nat} {input : ApiInput cfg} {fields : ListingFields}
  {p : WorkflowRequest} {read : WorkflowInfo} {stage : ApiStage}

theorem readWorkflow_alike (hs : g.SameFor A h) (hord : claims.Ordinary)
    (horg : claims.orgId = A) {gated : Bool} {next next' : StoredWorkflow → ApiStage}
    (hnext : ∀ doc, g.workflows.docs id = some doc → doc.orgId = A → next doc = next' doc) :
    (readWorkflow cfg input g claims gated id next).Alike
      (readWorkflow cfg input h claims gated id next') := by
  unfold readWorkflow
  split
  next => exact .refl _
  next =>
    split
    next => exact .refl _
    next =>
      have hpass : ∀ doc, checkWorkflowAction cfg.itDeptId claims doc = none → doc.orgId = A := by
        intro doc hcheck
        have hown := (checkWorkflowAction_eq_none.mp hcheck).resolve_left (by simp [hord.not_super])
        exact hown.2.trans horg
      have hload : AlikeResult (g.load id (checkWorkflowAction cfg.itDeptId claims))
          (h.load id (checkWorkflowAction cfg.itDeptId claims)) :=
        hs.load hpass fun doc r hr => checkWorkflowAction_missingOrForeign hr
      rcases hload with heq | ⟨r, hr, r', hr', hg, hh⟩
      · rw [← heq]
        cases hres : g.load id (checkWorkflowAction cfg.itDeptId claims) with
        | error r => exact .refl _
        | ok doc =>
            obtain ⟨hdoc, hcheck⟩ := ApiStore.load_ok hres
            exact Or.inl (hnext doc hdoc (hpass doc hcheck))
      · rw [hg, hh]
        exact Or.inr ⟨r, hr, r', hr', rfl, rfl⟩

theorem readExecution_alike (hs : g.SameFor A h) (hord : claims.Ordinary)
    (horg : claims.orgId = A) (next : ExecutionDocument → ApiStage) :
    (readExecution cfg input g claims id next).Alike
      (readExecution cfg input h claims id next) := by
  unfold readExecution
  split
  next => exact .refl _
  next =>
    have halike : AlikeResult (g.authorizeExecution cfg.itDeptId claims id)
        (h.authorizeExecution cfg.itDeptId claims id) := hs.authorizeExecution hord horg cfg.itDeptId
    rcases halike with heq | ⟨r, hr, r', hr', hg, hh⟩
    · rw [← heq]
      exact .refl _
    · rw [hg, hh]
      exact Or.inr ⟨r, hr, r', hr', rfl, rfl⟩

/-- Both stores are alike where a workflow is to be inserted. -/
theorem agrees_new (hs : g.SameFor A h) (hg : g.Sound) (hh : h.Sound) (conf : StoreConfig)
    (htarget : p.target = id) (hdoc : g.workflows.docs id = none)
    (hdoc' : h.workflows.docs id = none) :
    p.Agrees conf h.connection g.workflows h.workflows where
  doc := by rw [htarget, hdoc, hdoc']
  versions := by rw [htarget, hg.versions hdoc, hh.versions hdoc']
  tokens := hs.tokens
  liveGate := by
    intro d hd
    rw [htarget, hdoc] at hd
    cases hd
  versionGate := by
    intro v hv
    rw [htarget, hg.versions hdoc] at hv
    cases hv

/-- Both stores are alike where the organisation has a workflow. -/
theorem agrees_own (hs : g.SameFor A h) (hg : g.Sound) (hh : h.Sound) (hown : OwnConnections g A)
    (cfg : ApiConfig) (htarget : p.target = id) (howns : g.owns A id = true) :
    p.Agrees (cfg.now g) h.connection g.workflows h.workflows where
  doc := by
    obtain ⟨doc, hdoc, horg⟩ := ApiStore.owns_eq_true.mp howns
    rw [htarget, hdoc, (hs.doc hdoc horg).1]
  versions := by rw [htarget, hs.versions howns]
  tokens := hs.tokens
  liveGate := by
    intro d hd env
    rw [htarget] at hd
    obtain ⟨doc, hdoc, horg⟩ := ApiStore.owns_eq_true.mp howns
    rw [hdoc] at hd
    cases hd
    exact passesGate_congr (hs.connection hg hh (hown.live hdoc horg))
  versionGate := by
    intro v hv env
    rw [htarget] at hv
    exact passesGate_congr (hs.connection hg hh (hown.snapshot howns hv))

/-- A command on a stored workflow of the organisation. -/
theorem advance_alike (hs : g.SameFor A h) (hg : g.Sound) (hh : h.Sound)
    (hown : OwnConnections g A) (hplaced : p.Placed A g)
    (hstep : advance cfg i input g fields p read = some (g', stage)) :
    ∃ h', advance cfg i input h fields p read = some (h', stage) ∧ g'.SameFor A h' := by
  unfold advance at hstep ⊢
  cases hstage : p.stage with
  | insert doc =>
      simp only [hstage] at hstep ⊢
      split at hstep
      next => cases hstep
      next hnew =>
        obtain ⟨⟨w, p'⟩, hw, heq⟩ := Option.map_eq_some_iff.mp hstep
        cases heq
        have hnew' : ¬ h.rows.has doc.workflowId = true := fun hid => hnew (hs.hasRow hid)
        have hdoc := ApiStore.docs_of_new (Bool.eq_false_iff.mpr hnew)
        have hdoc' := ApiStore.docs_of_new (Bool.eq_false_iff.mpr hnew')
        obtain ⟨v, hv, hchange⟩ := WorkflowRequest.step_alike
          (agrees_new hs hg hh (cfg.now g) (WorkflowRequest.target_of_insert hstage) hdoc hdoc') hw
        rw [WorkflowRequest.target_of_insert hstage] at hchange
        have hv' : p.step (cfg.now h) i (.next input.write) h.workflows = some (v, p') := hv
        rw [if_neg hnew', hv', Option.map_some]
        refine ⟨_, rfl, ?_⟩
        obtain ⟨-, -, rfl⟩ := WorkflowRequest.step_insert hstage hw
        obtain ⟨-, -, rfl⟩ := WorkflowRequest.step_insert hstage hv'
        cases hran : input.write.ran with
        | false => exact hs
        | true =>
            simp only [hran, if_true] at hchange ⊢
            have hown : doc.orgId = A := by simpa [WorkflowRequest.Placed, hstage] using hplaced
            exact hs.create hg hh (Bool.eq_false_iff.mpr hnew) hown hchange
              (Function.update_self ..) (by simp) (by simp)
  | done =>
      simp only [hstage] at hstep
      obtain ⟨r, hr, -⟩ := Option.map_eq_some_iff.mp hstep
      simp [WorkflowRequest.step, WorkflowRequest.next, hstage] at hr
  | _ =>
      simp only [hstage] at hstep ⊢
      obtain ⟨⟨w, p'⟩, hw, heq⟩ := Option.map_eq_some_iff.mp hstep
      cases heq
      have hinsert : ¬ ∃ doc, p.stage = .insert doc := by
        rintro ⟨doc, hdoc⟩
        rw [hstage] at hdoc
        cases hdoc
      have howns : g.owns A p.workflowId = true := by
        simpa only [WorkflowRequest.Placed, hstage] using hplaced
      obtain ⟨doc, hdoc, horg⟩ := ApiStore.owns_eq_true.mp howns
      obtain ⟨hdoc', hinfo⟩ := hs.doc hdoc horg
      obtain ⟨f, hf, hfound⟩ := WorkflowRequest.step_docs hinsert hw
      rw [hdoc, Option.map_some] at hfound
      obtain ⟨v, hv, hchange⟩ := WorkflowRequest.step_alike
        (agrees_own hs hg hh hown cfg (WorkflowRequest.target_of_not_insert hinsert) howns) hw
      rw [WorkflowRequest.target_of_not_insert hinsert] at hchange
      have hv' : p.step (cfg.now h) i (.next input.write) h.workflows = some (v, p') := hv
      rw [hv', Option.map_some]
      refine ⟨_, rfl, ?_⟩
      rw [hinfo]
      exact hs.edit hdoc horg (hf doc).1 hchange hfound (update_if rfl _ _) (update_if hinfo _ _)

theorem receiveStore_alike {op : WorkflowOp} (hs : g.SameFor A h) (hg : g.Sound) (hh : h.Sound)
    (hown : OwnConnections g A) (hord : claims.Ordinary) (horg : claims.orgId = A)
    (hstep : receiveStore cfg i input g claims id op fields = some (g', stage)) :
    ∃ h' stage', receiveStore cfg i input h claims id op fields = some (h', stage') ∧
      g'.SameFor A h' ∧ stage.Alike stage' := by
  unfold receiveStore at hstep ⊢
  dsimp only at hstep ⊢
  split at hstep
  next r _ =>
    cases hstep
    exact ⟨h, _, rfl, hs, .refl _⟩
  next =>
    split at hstep
    next name orgId userId deptIds gr _ =>
      split at hstep
      next r _ =>
        cases hstep
        exact ⟨h, _, rfl, hs, .refl _⟩
      next =>
        -- a create has read nothing
        unfold advance at hstep ⊢
        dsimp only [WorkflowStage.writesLive] at hstep ⊢
        simp only [WorkflowRequest.step, WorkflowRequest.next, WorkflowOp.asCaller,
          Option.map_some] at hstep ⊢
        cases hstep
        exact ⟨_, _, rfl, hs, .refl _⟩
    next =>
      split at hstep
      next hraised =>
        cases hstep
        rw [if_pos hraised]
        exact ⟨h, _, rfl, hs, .refl _⟩
      next hread =>
        rw [if_neg hread]
        have hpass : ∀ doc, op.guard cfg.itDeptId claims doc = none → doc.orgId = A := by
          intro doc hguard
          have hown := (WorkflowOp.guard_eq_none hguard).resolve_left (by simp [hord.not_super])
          exact hown.trans horg
        have hload : AlikeResult (g.load id fun doc => op.guard cfg.itDeptId claims doc)
            (h.load id fun doc => op.guard cfg.itDeptId claims doc) :=
          hs.load hpass fun doc r hr => WorkflowOp.guard_missingOrForeign hr
        rcases hload with heq | ⟨r, hr, r', hr', hgr, hhr⟩
        · rw [← heq]
          split at hstep
          next r _ =>
            cases hstep
            exact ⟨h, _, rfl, hs, .refl _⟩
          next doc hres =>
            obtain ⟨hdoc, hguard⟩ := ApiStore.load_ok hres
            have hplaced : WorkflowRequest.Placed A g
                { workflowId := id, op := op.asCaller claims } :=
              ApiStore.owns_eq_true.mpr ⟨doc, hdoc, hpass doc hguard⟩
            obtain ⟨h', hh', hs'⟩ := advance_alike hs hg hh hown hplaced hstep
            rw [← (hs.doc hdoc (hpass doc hguard)).2] at hh'
            exact ⟨h', stage, hh', hs', .refl _⟩
        · rw [hhr]
          rw [hgr] at hstep
          cases hstep
          exact ⟨h, _, rfl, hs, Or.inr ⟨r, hr, r', hr', rfl, rfl⟩⟩

/-- A request that needs the role only. -/
theorem gated_alike {next next' : ApiStore × ApiStage} (hs : g.SameFor A h)
    (hnext : next.1.SameFor A next'.1 ∧ next.2.Alike next'.2)
    (hstep : some (gated cfg g claims next) = some (g', stage)) :
    ∃ h' stage', some (gated cfg h claims next') = some (h', stage') ∧ g'.SameFor A h' ∧
      stage.Alike stage' := by
  unfold gated at hstep ⊢
  split at hstep
  next r _ =>
    cases hstep
    exact ⟨h, _, rfl, hs, .refl _⟩
  next =>
    cases hstep
    exact ⟨_, _, rfl, hnext⟩

/-- A read of what the organisation may see. -/
theorem alike_of_read (hs : g.SameFor A h) {st st' : ApiStage} (hst : st.Alike st')
    (hstep : some (g, st) = some (g', stage)) :
    ∃ h' stage', some (h, st') = some (h', stage') ∧ g'.SameFor A h' ∧ stage.Alike stage' := by
  cases hstep
  exact ⟨h, st', rfl, hs, hst⟩

/-- What is selected among the workflows of the organisation. -/
theorem select_rows (hs : g.SameFor A h) {q : StoredWorkflow × WorkflowInfo → Bool}
    (hq : ∀ row, q row = true → row.1.orgId = A) : g.rows.select q = h.rows.select q := by
  refine Table.select_eq_of_restrict hs.rows fun row hrow => ?_
  simpa [ApiStore.inOrg] using hq row hrow

theorem admits_orgId {q : WorkflowQuery} {row : StoredWorkflow × WorkflowInfo}
    (h : q.admits cfg A row = true) : row.1.orgId = A := by
  simp only [WorkflowQuery.admits, Bool.and_eq_true, decide_eq_true_eq] at h
  exact h.1.1.1

theorem approvalFilter_congr (hs : g.SameFor A h) (hord : claims.Ordinary)
    (horg : claims.orgId = A) : g.approvalFilter claims = h.approvalFilter claims := by
  unfold ApiStore.approvalFilter
  rw [hord.not_super, select_rows hs]
  intro row hrow
  simpa [horg] using hrow

theorem receive_alike (hs : g.SameFor A h) (hg : g.Sound) (hh : h.Sound)
    (hown : OwnConnections g A) (hord : claims.Ordinary) (horg : claims.orgId = A)
    (hstep : receive cfg i input g claims call = some (g', stage)) :
    ∃ h' stage', receive cfg i input h claims call = some (h', stage') ∧ g'.SameFor A h' ∧
      stage.Alike stage' := by
  cases call with
  | store id op fields => exact receiveStore_alike hs hg hh hown hord horg hstep
  | getWorkflow id =>
      refine alike_of_read hs (readWorkflow_alike hs hord horg fun doc hdoc hA => ?_) hstep
      rw [(hs.doc hdoc hA).2]
  | listWorkflows q =>
      refine gated_alike hs ⟨hs, ?_⟩ hstep
      rw [select_rows hs fun row hrow => (admits_orgId hrow).trans horg]
      exact .refl _
  | listVersions id =>
      exact alike_of_read hs (readWorkflow_alike hs hord horg fun _ _ _ => rfl) hstep
  | getVersion id number =>
      exact alike_of_read hs (readWorkflow_alike hs hord horg fun _ _ _ => rfl) hstep
  | execute id executionId environment triggerData =>
      exact alike_of_read hs (readWorkflow_alike hs hord horg fun _ _ _ => rfl) hstep
  | listExecutions id q =>
      exact alike_of_read hs (readWorkflow_alike hs hord horg fun _ _ _ => rfl) hstep
  | createConnection id body =>
      refine gated_alike hs ?_ hstep
      rcases ConnectionApi.createConnection_congr input.salt body claims.orgId id g.connections
        h.connections with ⟨e, hge, hhe⟩ | ⟨doc, hgd, hhd⟩
      · rw [hge, hhe]
        exact ⟨hs, .refl _⟩
      · rw [hgd, hhd]
        refine ⟨?_, .refl _⟩
        dsimp only
        split
        next =>
          exact { hs with
            connections := by
              show (g.connections ++ [doc]).filter _ = (h.connections ++ [doc]).filter _
              rw [List.filter_append, List.filter_append, hs.connections]
            issued := List.cons_subset_cons _ hs.issued }
        next => exact hs
  | listConnections type =>
      refine gated_alike hs ⟨hs, ?_⟩ hstep
      have hsplit : ∀ (t : ConnectionDoc → Bool) (docs : List ConnectionDoc),
          docs.filter (fun doc => decide (doc.orgId = claims.orgId) && t doc) =
            (docs.filter (·.orgId = A)).filter t := by
        intro t docs
        rw [List.filter_filter, horg]
        simp only [Bool.and_comm]
      rw [hsplit, hsplit, hs.connections]
      exact .refl _
  | getConnection id =>
      refine gated_alike hs ⟨hs, ?_⟩ hstep
      unfold ConnectionApi.getConnection
      rw [horg, ConnectionApi.find?_matching hs.connections]
      exact .refl _
  | updateConnection id body =>
      refine gated_alike hs ?_ hstep
      rw [horg]
      rcases ConnectionApi.updateConnection_congr input.salt body id hs.connections with
        ⟨e, hge, hhe⟩ | ⟨upd, hupd, hgd, hhd⟩
      · rw [hge, hhe]
        exact ⟨hs, .refl _⟩
      · rw [hgd, hhd]
        refine ⟨?_, .refl _⟩
        dsimp only
        split
        next =>
          refine { hs with connections := ?_ }
          show (ConnectionApi.updateOne _ upd _).filter _ = (ConnectionApi.updateOne _ upd _).filter _
          rw [ConnectionApi.updateOne_filter (fun _ => ConnectionApi.matching_orgId)
            fun doc => by rw [hupd], hs.connections,
            ConnectionApi.updateOne_filter (fun _ => ConnectionApi.matching_orgId)
            fun doc => by rw [hupd]]
        next => exact hs
  | deleteConnection id =>
      refine gated_alike hs ⟨?_, ?_⟩ hstep
      · dsimp only
        split
        next =>
          refine { hs with connections := ?_ }
          show (g.connections.eraseP _).filter _ = (h.connections.eraseP _).filter _
          rw [horg, ConnectionApi.eraseP_filter fun _ => ConnectionApi.matching_orgId, hs.connections,
            ConnectionApi.eraseP_filter fun _ => ConnectionApi.matching_orgId]
        next => exact hs
      · have hany : ∀ docs : List ConnectionDoc, docs.any (ConnectionApi.matching claims.orgId id) =
            (docs.find? (ConnectionApi.matching A id)).isSome := by
          intro docs
          rw [horg, List.isSome_find?]
        dsimp only
        rw [hany, hany, ConnectionApi.find?_matching hs.connections]
        exact .refl _
  | getExecution id => exact alike_of_read hs (readExecution_alike hs hord horg _) hstep
  | decide id approved => exact alike_of_read hs (readExecution_alike hs hord horg _) hstep
  | cancel id => exact alike_of_read hs (readExecution_alike hs hord horg _) hstep
  | listPendingApprovals =>
      refine gated_alike hs ⟨hs, ?_⟩ hstep
      rw [approvalFilter_congr hs hord horg]
      exact .refl _
  | listAllApprovals skip limit =>
      refine gated_alike hs ⟨hs, ?_⟩ hstep
      rw [approvalFilter_congr hs hord horg]
      exact .refl _

/-- An execution of the organisation is the same in both. -/
theorem get_run (hs : g.SameFor A h) (hown : g.ownsRun A id = true) :
    h.executions.get id = g.executions.get id := by
  obtain ⟨e, he, howns⟩ := ApiStore.ownsRun_eq_true.mp hown
  rw [he, Table.get_of_restrict hs.executions he howns]

theorem setExecution_alike {f : ExecutionDocument → ExecutionDocument} (hs : g.SameFor A h)
    (hf : ∀ e, (f e).record.workflowId = e.record.workflowId) :
    (setExecution cfg input g id f).SameFor A (setExecution cfg input h id f) := by
  unfold setExecution
  split
  next => exact hs.editRun (fun e _ => hf e) fun e _ => hf e
  next => exact hs

/-- What is selected among the approvals of the organisation. -/
theorem select_approvals (hs : g.SameFor A h) {q : ApprovalDocument → Bool}
    (hq : ∀ a, q a = true → g.owns A a.request.workflowId = true) :
    g.approvals.select q = h.approvals.select q :=
  Table.select_eq_of_restrict hs.approvals hq

/-- Every command of a request of the organisation does the same in both. -/
theorem next_alike {req : ApiRequest} (hs : g.SameFor A h) (hg : g.Sound) (hh : h.Sound)
    (hown : OwnConnections g A) (hord : req.claims.Ordinary) (horg : req.claims.orgId = A)
    (hreq : req.stage.Holds g req.claims req.call)
    (hstep : req.next cfg i input g = some (g', stage)) :
    ∃ h' stage', req.next cfg i input h = some (h', stage') ∧ g'.SameFor A h' ∧
      stage.Alike stage' := by
  obtain ⟨claims, call, st⟩ := req
  dsimp only at hord horg hreq
  unfold next at hstep ⊢
  cases st with
  | received => exact receive_alike hs hg hh hown hord horg hstep
  | storing p read =>
      cases call with
      | store id op fields =>
          obtain ⟨-, -, hplaced⟩ := hreq
          rw [horg] at hplaced
          obtain ⟨h', hh', hs'⟩ := advance_alike hs hg hh hown hplaced hstep
          exact ⟨h', stage, hh', hs', .refl _⟩
      | _ => cases hstep
  | counting items =>
      cases call with
      | listWorkflows q =>
          refine alike_of_read hs ?_ hstep
          rw [select_rows hs fun row hrow => (admits_orgId hrow).trans horg]
          exact .refl _
      | _ => cases hstep
  | readVersions doc =>
      cases call with
      | listVersions id =>
          refine alike_of_read hs ?_ hstep
          rw [hs.versions (horg ▸ hreq)]
          exact .refl _
      | getVersion id number =>
          refine alike_of_read hs ?_ hstep
          unfold WorkflowStore.version
          rw [hs.versions (horg ▸ hreq)]
          exact .refl _
      | _ => cases hstep
  | insertRun =>
      cases call with
      | execute id executionId environment triggerData =>
          dsimp only at hstep ⊢
          split at hstep
          next => cases hstep
          next hnew =>
            rw [if_neg fun hid => hnew (hs.hasRun hid)]
            cases hstep
            refine ⟨_, _, rfl, ?_, .refl _⟩
            split
            next => exact hs.run (Bool.eq_false_iff.mpr hnew) (horg ▸ hreq)
            next => exact hs
      | _ => cases hstep
  | enqueueRun id =>
      cases hstep
      refine ⟨_, _, rfl, ?_, .refl _⟩
      split
      next => exact hs
      next => exact hs.editRun (fun e _ => rfl) fun e _ => rfl
  | readExecutions doc =>
      cases call with
      | listExecutions id q =>
          refine alike_of_read hs ?_ hstep
          rw [Table.select_eq_of_restrict hs.executions]
          · exact .refl _
          · intro e he
            simp only [Bool.and_eq_true, decide_eq_true_eq] at he
            show g.owns A e.record.workflowId = true
            rw [he.1, ← horg]
            exact hreq
      | _ => cases hstep
  | casResume id =>
      cases call with
      | decide _ approved =>
          dsimp only at hstep ⊢
          rw [get_run hs (horg ▸ hreq)]
          split at hstep
          next hpaused =>
            rw [if_pos hpaused]
            cases hstep
            exact ⟨_, _, rfl, setExecution_alike hs fun e => rfl, .refl _⟩
          next hnot =>
            rw [if_neg hnot]
            exact alike_of_read hs (.refl _) hstep
      | _ => cases hstep
  | enqueueResume id => exact alike_of_read hs (.refl _) hstep
  | rollbackResume id =>
      cases hstep
      exact ⟨_, _, rfl, setExecution_alike hs fun e => rfl, .refl _⟩
  | markCancel id e =>
      cases hstep
      exact ⟨_, _, rfl, setExecution_alike hs fun e => rfl, .refl _⟩
  | casCancel id =>
      dsimp only at hstep ⊢
      rw [get_run hs (horg ▸ hreq)]
      split at hstep
      next hpaused =>
        rw [if_pos hpaused]
        cases hstep
        exact ⟨_, _, rfl, setExecution_alike hs fun e => rfl, .refl _⟩
      next hnot =>
        rw [if_neg hnot]
        exact alike_of_read hs (.refl _) hstep
  | readApprovals ids =>
      obtain ⟨l, rfl, hl⟩ := hreq
      have hids : ∀ a : ApprovalDocument, admitsApproval (some l) a = true →
          g.owns A a.request.workflowId = true := by
        intro a ha
        exact horg ▸ hl _ (by simpa [admitsApproval] using ha)
      cases call with
      | listPendingApprovals =>
          refine alike_of_read hs ?_ hstep
          rw [select_approvals hs fun a ha => hids a (Bool.and_elim_left ha)]
          exact .refl _
      | listAllApprovals skip limit =>
          refine alike_of_read hs ?_ hstep
          rw [select_approvals hs hids]
          exact .refl _
      | _ => cases hstep
  | countApprovals ids docs =>
      obtain ⟨l, rfl, hl⟩ := hreq
      refine alike_of_read hs ?_ hstep
      rw [select_approvals hs fun a ha => horg ▸ hl _ (by simpa [admitsApproval] using ha)]
      exact .refl _
  | answered reply => cases hstep

end ApiRequest

end

/-! ## Every run -/

/-- The requests of the other organisations, and what the engine does for their workflows. -/
def otherOrganisations (A : String) : Hidden ApiStore ApiRequest EngineWrite where
  proc req := req.claims.orgId ≠ A
  env e s := !(e.workflowId s).any (s.owns A)

/-- The requests have got to the same stage with the same claims. -/
structure ApiRequest.Alike (req req' : ApiRequest) : Prop where
  claims : req'.claims = req.claims
  call : req'.call = req.call
  stage : req.stage.Alike req'.stage

/-- An ordinary move while the organisation names its own connections. -/
def IsolatedMove {cfg : ApiConfig} (A : String) (c : ApiRun) (m : ApiMove cfg) : Prop :=
  OrdinaryMove m ∧ OwnConnections c.shared A

section

variable {cfg : ApiConfig} {A : String} {g g' h : ApiStore}

/-- A write of the engine for a workflow of the organisation does the same in both. -/
theorem EngineWrite.apply_alike {e : EngineWrite} (hs : g.SameFor A h)
    (hvisible : (e.workflowId g).any (g.owns A) = true) (he : e.apply g = some g') :
    ∃ h', e.apply h = some h' ∧ g'.SameFor A h' := by
  cases e with
  | insert id doc =>
      have hown : g.owns A doc.record.workflowId = true := hvisible
      simp only [EngineWrite.apply] at he ⊢
      split at he
      next => cases he
      next hnew =>
        rw [not_or] at hnew
        have hsome := ApiStore.isSome_of_owns ((hs.owns _).trans hown)
        rw [if_neg (not_or.mpr ⟨fun hid => hnew.1 (hs.hasRun hid), by
          simpa [Option.isSome_iff_ne_none] using hsome⟩)]
        cases he
        exact ⟨_, rfl, hs.run (Bool.eq_false_iff.mpr hnew.1) hown⟩
  | save id doc =>
      have hown : g.owns A doc.record.workflowId = true := hvisible
      simp only [EngineWrite.apply] at he ⊢
      split at he
      next hold =>
        cases he
        obtain ⟨old, hget, hsame⟩ := (Option.any_eq_true _ _).mp hold
        have hwid : old.record.workflowId = doc.record.workflowId := by simpa using hsame
        have hget' := ApiRequest.get_run hs (ApiStore.ownsRun_eq_true.mpr ⟨old, hget, hwid ▸ hown⟩)
        rw [if_pos (by rw [hget']; exact hold)]
        refine ⟨_, rfl, hs.editRun (fun e he => ?_) fun e he => ?_⟩
        · rw [hget] at he
          cases he
          exact hwid.symm
        · rw [hget', hget] at he
          cases he
          exact hwid.symm
      next => cases he
  | ask id doc =>
      have hown : g.owns A doc.request.workflowId = true := hvisible
      simp only [EngineWrite.apply] at he ⊢
      split at he
      next => cases he
      next hnew =>
        rw [not_or] at hnew
        have hsome := ApiStore.isSome_of_owns ((hs.owns _).trans hown)
        rw [if_neg (not_or.mpr ⟨fun hid => hnew.1 (hs.hasAsk hid), by
          simpa [Option.isSome_iff_ne_none] using hsome⟩)]
        cases he
        exact ⟨_, rfl, hs.ask (Bool.eq_false_iff.mpr hnew.1) hown⟩
  | resolve id resolution =>
      simp only [EngineWrite.apply] at he ⊢
      split at he
      next hsome =>
        cases he
        obtain ⟨a, ha⟩ := Option.isSome_iff_exists.mp hsome
        have hown : g.owns A a.request.workflowId = true := by
          simpa [EngineWrite.workflowId, ha] using hvisible
        rw [if_pos (by rw [Table.get_of_restrict hs.approvals ha hown, Option.isSome_some])]
        exact ⟨_, rfl, hs.editAsk fun a => rfl⟩
      next => cases he

/-- What an organisation sees unwinds. -/
theorem apiSystem_unwinding (cfg : ApiConfig) (A : String) :
    (apiSystem cfg).Unwinding (otherOrganisations A) OrdinaryMove (IsolatedMove A)
      (fun _ s => s.Sound) ApiRequest.Lawful (ApiStore.SameFor A) ApiRequest.Alike where
  invariant := apiSystem_invariant cfg
  allowed hok := hok.1
  spawn := by
    intro c d x g l _ _ hs _ hstep
    cases hstep
    exact ⟨d.shared, _, rfl, hs, rfl, fun _ => ⟨rfl, rfl, .refl _⟩⟩
  see := by
    intro c d i input req req' l' g hc hd hs hok hi _ hvisible _ hrel hstep
    obtain ⟨⟨g', stage⟩, hnext, heq⟩ := Option.map_eq_some_iff.mp hstep
    cases heq
    obtain ⟨hord, hreq⟩ := hc.2 i req hi
    have horg : req.claims.orgId = A := by simpa [otherOrganisations] using hvisible
    obtain ⟨claims, call, st⟩ := req'
    obtain ⟨rfl, rfl, hstage⟩ := hrel
    rcases hstage with rfl | ⟨r, -, r', -, hrefused, -⟩
    · obtain ⟨h', stage', hnext', hs', halike⟩ :=
        ApiRequest.next_alike hs hc.1 hd.1 hok.2 hord horg hreq hnext
      refine ⟨h', { req with stage := stage' }, ?_, hs', rfl, fun _ => ⟨rfl, rfl, halike⟩⟩
      exact Option.map_eq_some_iff.mpr ⟨_, hnext', rfl⟩
    · -- nothing follows a refusal
      simp [ApiRequest.next, hrefused, ApiStage.refuse] at hnext
  hide := by
    intro c d i input req l' g hc hd hs hok hi hhidden hstep
    obtain ⟨⟨g', stage⟩, hnext, heq⟩ := Option.map_eq_some_iff.mp hstep
    cases heq
    obtain ⟨hord, hreq⟩ := hc.2 i req hi
    have hne : A ≠ req.claims.orgId := by
      simpa [otherOrganisations, ne_comm] using hhidden
    exact ⟨hs.of_writes hne (ApiRequest.next_writes hc.1 hord hreq hnext).1, hhidden⟩
  envSee := by
    intro c d e g _ _ hs _ hvisible he
    exact EngineWrite.apply_alike hs (by simpa [otherOrganisations] using hvisible) he
  envHide := by
    intro c d e g hc _ hs _ hhidden he
    obtain ⟨wid, orgId, hwid, hown, hwrites⟩ := EngineWrite.apply_writes hc.1 he
    refine hs.of_writes (fun heq => ?_) hwrites
    subst heq
    simp [otherOrganisations, hwid, hown] at hhidden

/-- Without the commands of the other organisations and what the engine does for them, the
organisation ends with the same documents, and every request of it at the same stage, with the same
answer if it has got one. -/
theorem organisation_isolated {ms : List (ApiMove cfg)} {s : ApiStore} {c : ApiRun} (hs : s.Sound)
    (hrun : (apiSystem cfg).Run (IsolatedMove A) ⟨s, []⟩ ms c) :
    ∃ d, (apiSystem cfg).Run (fun _ m => OrdinaryMove m) ⟨s, []⟩
        ((apiSystem cfg).purge (otherOrganisations A) ms ⟨s, []⟩) d ∧
      c.shared.SameFor A d.shared ∧
      ∀ i req, c.proc i = some req → req.claims.orgId = A →
        ∃ req', d.proc i = some req' ∧ req.Alike req' := by
  have hinv : System.Inv (fun _ s => ApiStore.Sound s) ApiRequest.Lawful (⟨s, []⟩ : ApiRun) := .of_start rfl hs
  obtain ⟨d, hd, -, hmatches⟩ :=
    (apiSystem_unwinding cfg A).noninterference hinv hinv
      (.refl (ApiStore.SameFor.refl A) (fun req => ⟨rfl, rfl, .refl _⟩) _) hrun
  refine ⟨d, hd, hmatches.shared, fun i req hi horg => ?_⟩
  obtain ⟨req', hi', hsame⟩ := hmatches.proc hi
  exact ⟨req', hi', hsame.2 (by simp [otherOrganisations, horg])⟩

end

/-! ## A deletion next door -/

def sharedConfig : ApiConfig where
  toStoreConfig := bareStore
  fernet := sampleFernet
  finds _ _ := false

/-- One workflow of each of two organisations. -/
def twoOrganisations : ApiStore where
  workflows := {
    docs := fun id =>
      if id = "wa" then some { workflowId := "wa", orgId := "A", name := "Invoices" }
      else if id = "wb" then some { workflowId := "wb", orgId := "B", name := "Orders" }
      else none }
  order := ["wa", "wb"]

def memberOf (orgId : String) : JwtClaims where
  userId := "u"
  orgId := orgId
  roles := ["IT-workflow"]

/-- While one organisation deletes its workflow, the other one lists its own. -/
def deletionNextDoor : List (ApiMove sharedConfig) :=
  [.spawn ⟨memberOf "A", .listWorkflows {}⟩, .spawn ⟨memberOf "B", .store "wb" .delete {}⟩,
    .step 1 { salt := fun _ _ => () }, .step 0 { salt := fun _ _ => () },
    .step 1 { salt := fun _ _ => () }, .step 0 { salt := fun _ _ => () }]

theorem twoOrganisations_sound : twoOrganisations.Sound where
  keys := by
    intro id doc hdoc
    simp only [twoOrganisations] at hdoc
    split at hdoc
    next heq =>
      cases hdoc
      exact heq.symm
    next =>
      split at hdoc
      next heq =>
        cases hdoc
        exact heq.symm
      next => cases hdoc
  versions _ := rfl
  runs h := nomatch h
  asks h := nomatch h
  issued h := nomatch h

theorem ownConnections_of_issued_nil {s : ApiStore} {A : String} (h : s.issued = []) :
    OwnConnections s A where
  live _ _ id _ orgId horg := by simp [h] at horg
  snapshot _ _ id _ orgId horg := by simp [h] at horg

theorem ordinary_memberOf {orgId : String}
    (h : String.ofList (Python.strip orgId.toList) = orgId) : (memberOf orgId).Ordinary :=
  ⟨rfl, h⟩

theorem deletionNextDoor_run :
    ∃ c, (apiSystem sharedConfig).Run (IsolatedMove "A") ⟨twoOrganisations, []⟩ deletionNextDoor c :=
  ⟨_, .cons ⟨ordinary_memberOf (by decide), ownConnections_of_issued_nil rfl⟩ rfl
    (.cons ⟨ordinary_memberOf (by decide), ownConnections_of_issued_nil rfl⟩ rfl
      (.cons ⟨trivial, ownConnections_of_issued_nil rfl⟩ rfl
        (.cons ⟨trivial, ownConnections_of_issued_nil rfl⟩ rfl
          (.cons ⟨trivial, ownConnections_of_issued_nil rfl⟩ rfl
            (.cons ⟨trivial, ownConnections_of_issued_nil rfl⟩ rfl (.nil _))))))⟩

theorem organisation_isolated_deletion :
    ∃ c d, (apiSystem sharedConfig).Run (IsolatedMove "A") ⟨twoOrganisations, []⟩ deletionNextDoor c ∧
      (apiSystem sharedConfig).Run (fun _ m => OrdinaryMove m) ⟨twoOrganisations, []⟩
        ((apiSystem sharedConfig).purge (otherOrganisations "A") deletionNextDoor
          ⟨twoOrganisations, []⟩) d ∧
      c.shared.SameFor "A" d.shared ∧
      ∀ i req, c.proc i = some req → req.claims.orgId = "A" →
        ∃ req', d.proc i = some req' ∧ req.Alike req' := by
  obtain ⟨c, hrun⟩ := deletionNextDoor_run
  obtain ⟨d, hd⟩ := organisation_isolated twoOrganisations_sound hrun
  exact ⟨c, d, hrun, hd⟩

end CitraFlows
