-- SUMMARY: What a step of a request on a stored workflow depends on: the workflow it writes to, and the connections that its gate looks up.
import CitraFlows.Tenants.Model
import CitraFlows.Workflows.Steps

/-!
# Steps on one workflow

A step reads and writes one workflow. On two stores that agree on this workflow it does the same,
provided that the tokens it draws are new and that the gate finds the same connections.
-/

namespace CitraFlows

open Processes

/-! ## The gate -/

/-- The ids of connections that the nodes refer to. -/
def connectionIds (nodes : List NodeDefinition) : List String :=
  nodes.filterMap fun n =>
    match Value.getD n.config "connection_id" with
    | .str id => some id
    | _ => none

theorem connectionErrors_congr {cfg : StoreConfig} {conns : String → Option Connection}
    {n : NodeDefinition} {env : RunEnvironment} {checked : List String}
    (h : ∀ id, Value.getD n.config "connection_id" = .str id → conns id = cfg.connections id) :
    connectionErrors { cfg with connections := conns } n env checked =
      connectionErrors cfg n env checked := by
  unfold connectionErrors
  split
  next id heq => simp only [h id heq]
  all_goals rfl

theorem environmentErrors_congr {cfg : StoreConfig} {conns : String → Option Connection}
    {env : RunEnvironment} {nodes : List NodeDefinition}
    (h : ∀ id ∈ connectionIds nodes, conns id = cfg.connections id) (checked : List String) :
    environmentErrors { cfg with connections := conns } env nodes checked =
      environmentErrors cfg env nodes checked := by
  induction nodes generalizing checked with
  | nil => rfl
  | cons n ns ih =>
      have hn : ∀ id, Value.getD n.config "connection_id" = .str id →
          conns id = cfg.connections id := by
        intro id heq
        exact h id (List.mem_filterMap.mpr ⟨n, List.mem_cons_self, by simp [heq]⟩)
      have hns : ∀ id ∈ connectionIds ns, conns id = cfg.connections id := by
        intro id hid
        obtain ⟨m, hm, heq⟩ := List.mem_filterMap.mp hid
        exact h id (List.mem_filterMap.mpr ⟨m, List.mem_cons_of_mem _ hm, heq⟩)
      simp only [environmentErrors, connectionErrors_congr hn, ih hns]
      rfl

/-- The gate looks up the connections of the nodes only. -/
theorem passesGate_congr {cfg : StoreConfig} {conns : String → Option Connection}
    {env : RunEnvironment} {g : WorkflowGraph}
    (h : ∀ id ∈ connectionIds g.nodes, conns id = cfg.connections id) :
    g.passesGate { cfg with connections := conns } env = g.passesGate cfg env := by
  unfold WorkflowGraph.passesGate environmentSafe validateDeployEnvironment
  rw [environmentErrors_congr h]

/-! ## One workflow -/

namespace WorkflowRequest

/-- The workflow that the next command writes to. -/
def target (p : WorkflowRequest) : String :=
  match p.stage with
  | .insert doc => doc.workflowId
  | _ => p.workflowId

theorem target_of_insert {p : WorkflowRequest} {doc : StoredWorkflow} (h : p.stage = .insert doc) :
    p.target = doc.workflowId := by
  rw [target, h]

theorem target_of_not_insert {p : WorkflowRequest} (h : ¬ ∃ doc, p.stage = .insert doc) :
    p.target = p.workflowId := by
  unfold target
  split
  next doc hstage => exact absurd ⟨doc, hstage⟩ h
  next => rfl

end WorkflowRequest

namespace WorkflowStore

/-- One workflow has changed, in the second pair of stores as in the first. -/
structure ChangesAlike (id : String) (s s' t t' : WorkflowStore) : Prop where
  docs : s'.docs = Function.update s.docs id (s'.docs id)
  docs' : t'.docs = Function.update t.docs id (s'.docs id)
  versions : s'.versions = Function.update s.versions id (s'.versions id)
  versions' : t'.versions = Function.update t.versions id (s'.versions id)
  tokens : ∃ new, s'.tokens = new ++ s.tokens ∧ t'.tokens = new ++ t.tokens

variable {s s' t t' : WorkflowStore} {id token : String}

theorem ChangesAlike.refl (hdoc : t.docs id = s.docs id) (hversions : t.versions id = s.versions id) :
    ChangesAlike id s s t t where
  docs := (Function.update_eq_self id s.docs).symm
  docs' := by rw [← hdoc, Function.update_eq_self]
  versions := (Function.update_eq_self id s.versions).symm
  versions' := by rw [← hversions, Function.update_eq_self]
  tokens := ⟨[], rfl, rfl⟩

theorem ChangesAlike.draw (hdoc : t.docs id = s.docs id) (hversions : t.versions id = s.versions id)
    (htokens : t.tokens ⊆ s.tokens) (h : s.draw token id = some s') :
    ∃ t', t.draw token id = some t' ∧ ChangesAlike id s s' t t' := by
  unfold WorkflowStore.draw at h ⊢
  split at h
  next => cases h
  next hnew =>
    cases h
    have hnew' : ¬ t.tokens.any (·.1 = token) = true := by
      intro hany
      obtain ⟨x, hx, heq⟩ := List.any_eq_true.mp hany
      exact hnew (List.any_eq_true.mpr ⟨x, htokens hx, heq⟩)
    rw [if_neg hnew']
    have hrefl := ChangesAlike.refl hdoc hversions
    exact ⟨_, rfl, hrefl.docs, hrefl.docs', hrefl.versions, hrefl.versions', [(token, id)], rfl, rfl⟩

theorem ChangesAlike.updateDoc (hdoc : t.docs id = s.docs id)
    (hversions : t.versions id = s.versions id) (f : StoredWorkflow → StoredWorkflow) :
    ChangesAlike id s (s.updateDoc id f) t (t.updateDoc id f) where
  docs := by simp [WorkflowStore.updateDoc]
  docs' := by simp [WorkflowStore.updateDoc, hdoc]
  versions := (ChangesAlike.refl hdoc hversions).versions
  versions' := (ChangesAlike.refl hdoc hversions).versions'
  tokens := ⟨[], rfl, rfl⟩

theorem ChangesAlike.setDoc (hversions : t.versions id = s.versions id) (doc : StoredWorkflow) :
    ChangesAlike id s (s.setDoc id doc) t (t.setDoc id doc) where
  docs := by simp [WorkflowStore.setDoc]
  docs' := by simp [WorkflowStore.setDoc]
  versions := (Function.update_eq_self id s.versions).symm
  versions' := by
    show t.versions = Function.update t.versions id (s.versions id)
    rw [← hversions, Function.update_eq_self]
  tokens := ⟨[], rfl, rfl⟩

theorem ChangesAlike.setVersions (hdoc : t.docs id = s.docs id) (versions : List WorkflowVersion) :
    ChangesAlike id s (s.setVersions id versions) t (t.setVersions id versions) where
  docs := (Function.update_eq_self id s.docs).symm
  docs' := by
    show t.docs = Function.update t.docs id (s.docs id)
    rw [← hdoc, Function.update_eq_self]
  versions := by simp [WorkflowStore.setVersions]
  versions' := by simp [WorkflowStore.setVersions]
  tokens := ⟨[], rfl, rfl⟩

/-- What is recorded beside the two collections does not count. -/
theorem ChangesAlike.of_eq {s₁ t₁ : WorkflowStore} (h : ChangesAlike id s s₁ t t₁)
    (hs : s'.docs = s₁.docs ∧ s'.versions = s₁.versions ∧ s'.tokens = s₁.tokens)
    (ht : t'.docs = t₁.docs ∧ t'.versions = t₁.versions ∧ t'.tokens = t₁.tokens) :
    ChangesAlike id s s' t t' where
  docs := by rw [hs.1]; exact h.docs
  docs' := by rw [ht.1, hs.1]; exact h.docs'
  versions := by rw [hs.2.1]; exact h.versions
  versions' := by rw [ht.2.1, hs.2.1]; exact h.versions'
  tokens := by rw [hs.2.2, ht.2.2]; exact h.tokens

end WorkflowStore

/-! ## The same step -/

namespace WorkflowRequest

open WorkflowStore (ChangesAlike)

/-- What two stores must have in common for a step. -/
structure Agrees (cfg : StoreConfig) (conns : String → Option Connection) (p : WorkflowRequest)
    (s t : WorkflowStore) : Prop where
  doc : t.docs p.target = s.docs p.target
  versions : t.versions p.target = s.versions p.target
  tokens : t.tokens ⊆ s.tokens
  liveGate : ∀ doc, s.docs p.target = some doc → ∀ env,
    doc.graph.passesGate { cfg with connections := conns } env = doc.graph.passesGate cfg env
  versionGate : ∀ v ∈ s.versions p.target, ∀ env,
    v.graph.passesGate { cfg with connections := conns } env = v.graph.passesGate cfg env

variable {cfg : StoreConfig} {conns : String → Option Connection} {i : Nat} {w : Write}
  {s s' t : WorkflowStore} {p p' : WorkflowRequest}

theorem afterFind_alike {doc : StoredWorkflow} {stage : WorkflowStage}
    (hdocs : t.docs p.workflowId = s.docs p.workflowId)
    (hversions : t.versions p.workflowId = s.versions p.workflowId)
    (htokens : t.tokens ⊆ s.tokens)
    (hgate : doc.graph.passesGate { cfg with connections := conns } .prod =
      doc.graph.passesGate cfg .prod)
    (h : p.afterFind cfg s doc = some (s', stage)) :
    ∃ t', p.afterFind { cfg with connections := conns } t doc = some (t', stage) ∧
      ChangesAlike p.workflowId s s' t t' := by
  have hrefl := ChangesAlike.refl hdocs hversions
  -- a draw, and the stage it leads to
  have hdrawn : ∀ (token : String) (k : WorkflowStage),
      ((s.draw token p.workflowId).map fun s => (s, k)) = some (s', stage) →
      ∃ t', ((t.draw token p.workflowId).map fun s => (s, k)) = some (t', stage) ∧
        ChangesAlike p.workflowId s s' t t' := by
    intro token k hdraw
    obtain ⟨s₁, hs₁, heq⟩ := Option.map_eq_some_iff.mp hdraw
    cases heq
    obtain ⟨t₁, ht₁, halike⟩ := ChangesAlike.draw hdocs hversions htokens hs₁
    exact ⟨t₁, by rw [ht₁]; rfl, halike⟩
  unfold afterFind at h ⊢
  cases hop : p.op with
  | create name orgId userId deptIds g =>
      simp only [hop] at h
      cases h
  | update body =>
      simp only [hop] at h ⊢
      split at h
      all_goals
        cases h
        exact ⟨t, by simp [*], hrefl⟩
  | patchSchedule enabled cronExpression | undeploy | delete | rollback number =>
      simp only [hop] at h ⊢
      cases h
      exact ⟨t, rfl, hrefl⟩
  | duplicate newId orgId =>
      simp only [hop] at h ⊢
      cases h
      exact ⟨t, rfl, hrefl⟩
  | archive | restore =>
      simp only [hop] at h ⊢
      cases h
      exact ⟨t, rfl, hrefl⟩
  | deleteVersion number =>
      simp only [hop] at h ⊢
      cases h
      exact ⟨t, rfl, hrefl⟩
  | deploy token secret =>
      simp only [hop, hgate] at h ⊢
      split at h
      next hchecks =>
        rw [if_pos hchecks]
        split at h
        next hmint =>
          rw [if_pos hmint]
          exact hdrawn _ _ h
        next hmint =>
          cases h
          rw [if_neg hmint]
          exact ⟨t, rfl, hrefl⟩
      next hchecks =>
        cases h
        rw [if_neg hchecks]
        exact ⟨t, rfl, hrefl⟩
  | rotateWebhookToken token secret =>
      simp only [hop] at h ⊢
      split at h
      next htoken =>
        rw [if_pos htoken]
        exact hdrawn _ _ h
      next htoken =>
        cases h
        rw [if_neg htoken]
        exact ⟨t, rfl, hrefl⟩

theorem afterTarget_congr {read : StoredWorkflow} {v : WorkflowVersion}
    (hgate : v.graph.passesGate { cfg with connections := conns } read.runEnvironment =
      v.graph.passesGate cfg read.runEnvironment) :
    afterTarget { cfg with connections := conns } read v = afterTarget cfg read v := by
  simp only [afterTarget, hgate]

open WorkflowStore in
/-- On stores that agree on its workflow, a request makes the same step. -/
theorem step_alike (hagrees : Agrees cfg conns p s t)
    (h : p.step cfg i (.next w) s = some (s', p')) :
    ∃ t', p.step { cfg with connections := conns } i (.next w) t = some (t', p') ∧
      ChangesAlike p.target s s' t t' := by
  change p.next cfg i w s = some (s', p') at h
  change ∃ t', p.next { cfg with connections := conns } i w t = some (t', p') ∧ _
  obtain ⟨hdocs, hversions, htokens, hlive, hversion⟩ := hagrees
  by_cases hinsert : ∃ doc, p.stage = .insert doc
  · obtain ⟨doc, hstage⟩ := hinsert
    rw [target_of_insert hstage] at hdocs hversions ⊢
    unfold WorkflowRequest.next at h ⊢
    simp only [hstage, hdocs] at h ⊢
    split at h
    next => cases h
    next hnew =>
      cases h
      refine ⟨_, if_neg hnew, ?_⟩
      split
      next => exact ChangesAlike.setDoc hversions doc
      next => exact ChangesAlike.refl hdocs hversions
  · rw [target_of_not_insert hinsert] at hdocs hversions hlive hversion ⊢
    have hrefl := ChangesAlike.refl hdocs hversions
    have hnumbers : t.numbers p.workflowId = s.numbers p.workflowId := by
      rw [numbers, hversions, numbers]
    unfold WorkflowRequest.next at h ⊢
    cases hstage : p.stage with
    | insert doc => exact absurd ⟨doc, hstage⟩ hinsert
    | find =>
        simp only [hstage] at h ⊢
        split at h
        next =>
          cases h
          exact ⟨t, rfl, hrefl⟩
        next =>
          rw [hdocs]
          split at h
          next doc hok hdoc =>
            obtain ⟨⟨s₁, stage⟩, hfind, heq⟩ := Option.map_eq_some_iff.mp h
            cases heq
            obtain ⟨t₁, ht₁, halike⟩ :=
              afterFind_alike hdocs hversions htokens (hlive doc hdoc .prod) hfind
            refine ⟨t₁, ?_, halike⟩
            rw [ht₁]
            rfl
          next =>
            cases h
            exact ⟨t, rfl, hrefl⟩
    | write read =>
        simp only [hstage] at h ⊢
        cases h
        refine ⟨_, rfl, ?_⟩
        split
        next =>
          exact (ChangesAlike.updateDoc hdocs hversions fun doc => write read doc p.op).of_eq
            ⟨rfl, rfl, rfl⟩ ⟨rfl, rfl, rfl⟩
        next => exact hrefl
    | target read =>
        simp only [hstage] at h ⊢
        split at h
        next number hok hop =>
          have hfind : t.version p.workflowId number = s.version p.workflowId number := by
            rw [WorkflowStore.version, hversions, WorkflowStore.version]
          simp only [hfind]
          split at h
          next v hv =>
            cases h
            rw [afterTarget_congr (hversion v (List.mem_of_find?_eq_some hv) _)]
            exact ⟨t, rfl, hrefl⟩
          next =>
            cases h
            exact ⟨t, rfl, hrefl⟩
        next =>
          cases h
          exact ⟨t, rfl, hrefl⟩
    | restoreDraft v =>
        simp only [hstage] at h ⊢
        cases h
        refine ⟨_, rfl, ?_⟩
        split
        next => exact (ChangesAlike.updateDoc hdocs hversions _).of_eq ⟨rfl, rfl, rfl⟩ ⟨rfl, rfl, rfl⟩
        next => exact hrefl
    | latest read lw =>
        simp only [hstage, nextNumber, hnumbers] at h ⊢
        cases h
        exact ⟨t, rfl, hrefl⟩
    | insertVersion read lw number =>
        simp only [hstage, hnumbers, hversions] at h ⊢
        split at h
        next hold =>
          cases h
          exact ⟨t, if_pos hold, hrefl⟩
        next hnew =>
          cases h
          refine ⟨_, if_neg hnew, ?_⟩
          split
          next => exact ChangesAlike.setVersions hdocs _
          next => exact hrefl
    | pruneFind read lw number =>
        simp only [hstage, hnumbers] at h ⊢
        cases h
        exact ⟨t, rfl, hrefl⟩
    | pruneDelete read lw number doomed =>
        simp only [hstage, hversions] at h ⊢
        cases h
        refine ⟨_, rfl, ?_⟩
        split
        next => exact ChangesAlike.setVersions hdocs _
        next => exact hrefl
    | goLive read lw number =>
        simp only [hstage] at h ⊢
        cases h
        refine ⟨_, rfl, ?_⟩
        split
        next => exact (ChangesAlike.updateDoc hdocs hversions _).of_eq ⟨rfl, rfl, rfl⟩ ⟨rfl, rfl, rfl⟩
        next => exact hrefl
    | deleteVersion =>
        simp only [hstage, hversions] at h ⊢
        split at h
        next =>
          cases h
          refine ⟨_, rfl, ?_⟩
          split
          next => exact ChangesAlike.setVersions hdocs _
          next => exact hrefl
        next => cases h
    | done =>
        simp only [hstage] at h
        cases h

/-! ## What a step changes -/

theorem step_insert {doc : StoredWorkflow} (hstage : p.stage = .insert doc)
    (h : p.step cfg i (.next w) s = some (s', p')) :
    s.docs doc.workflowId = none ∧ p' = p.become .done ∧
      s' = if w.ran then s.setDoc doc.workflowId doc else s := by
  simp only [step, WorkflowRequest.next, hstage] at h
  split at h
  next => cases h
  next hnew =>
    cases h
    exact ⟨by simpa using hnew, rfl, rfl⟩

/-- No operation gives a workflow to another organisation. -/
theorem write_orgId (read doc : StoredWorkflow) (op : WorkflowOp) :
    (write read doc op).orgId = doc.orgId ∧ (write read doc op).workflowId = doc.workflowId := by
  cases op <;> exact ⟨rfl, rfl⟩

theorem step_docs (hinsert : ¬ ∃ doc, p.stage = .insert doc)
    (h : p.step cfg i (.next w) s = some (s', p')) :
    ∃ f : StoredWorkflow → StoredWorkflow,
      (∀ doc, (f doc).orgId = doc.orgId ∧ (f doc).workflowId = doc.workflowId) ∧
        s'.docs p.workflowId = (s.docs p.workflowId).map f := by
  have hsame : s'.docs = s.docs → ∃ f : StoredWorkflow → StoredWorkflow,
      (∀ doc, (f doc).orgId = doc.orgId ∧ (f doc).workflowId = doc.workflowId) ∧
        s'.docs p.workflowId = (s.docs p.workflowId).map f := fun heq =>
    ⟨id, fun _ => ⟨rfl, rfl⟩, by rw [heq, Option.map_id]; rfl⟩
  obtain ⟨-, hstep⟩ := step_sound h
  generalize p'.stage = stage at hstep
  cases hstep with
  | ends | creates | copies | seeks | restores | rollsBack | picks | aims | keepsAll | dooms =>
      exact hsame rfl
  | reads _ _ _ hdraw => exact hsame hdraw.frame.1
  | deploys _ _ _ _ hdraw => exact hsame hdraw.frame.1
  | snapshots | prunes | erases => exact hsame rfl
  | @inserts doc _ hstage _ => exact absurd ⟨doc, hstage⟩ hinsert
  | @commits read _ hstage =>
      exact ⟨fun doc => write read doc p.op, fun doc => write_orgId read doc p.op,
        by rw [commit_docs, Function.update_self]⟩
  | @drafts v _ hstage =>
      refine ⟨fun doc => { doc.setGraph v.graph with
          maxRunLlmCalls := v.maxRunLlmCalls
          version := doc.version + 1 }, fun doc => ⟨rfl, rfl⟩, ?_⟩
      exact Function.update_self ..
  | @goesLive read lw number _ hstage =>
      refine ⟨fun doc => lw.apply number doc, fun doc => ?_, Function.update_self ..⟩
      cases lw <;> exact ⟨rfl, rfl⟩

/-- The document that a request is about to insert belongs to the organisation it names. -/
theorem step_stage_insert {doc : StoredWorkflow} (h : p.step cfg i (.next w) s = some (s', p'))
    (hnew : p'.stage = .insert doc) :
    (∃ name orgId userId deptIds g, p.op = .create name orgId userId deptIds g ∧
      doc.orgId = orgId) ∨
    ∃ newId orgId, p.op = .duplicate newId orgId ∧ doc.orgId = orgId := by
  obtain ⟨-, hstep⟩ := step_sound h
  rw [hnew] at hstep
  cases hstep with
  | creates hop => exact Or.inl ⟨_, _, _, _, _, hop, rfl⟩
  | copies hop => exact Or.inr ⟨_, _, hop, rfl⟩
  | snapshots _ _ _ hnext => rcases hnext with hnext | hnext <;> cases hnext
  | prunes _ _ hnext => rcases hnext with hnext | hnext <;> cases hnext

theorem step_stage_ne_find (h : p.step cfg i (.next w) s = some (s', p')) : p'.stage ≠ .find := by
  intro hfind
  obtain ⟨-, hstep⟩ := step_sound h
  rw [hfind] at hstep
  cases hstep with
  | snapshots _ _ _ hnext => rcases hnext with hnext | hnext <;> cases hnext
  | prunes _ _ hnext => rcases hnext with hnext | hnext <;> cases hnext

end WorkflowRequest

end CitraFlows
