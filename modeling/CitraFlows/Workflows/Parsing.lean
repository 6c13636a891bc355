-- SUMMARY: Which stored workflows can be parsed back: the endpoints keep the status a member of WorkflowStatus, except archive and restore.
import CitraFlows.Workflows.Steps

/-!
# Parsing stored workflows

The scheduler, the execute endpoints and the worker build a `WorkflowDefinition` of the stored
document, and that fails on a status that is not a member of the enum. Archive and restore write
`inactive` and `active`.
-/

namespace CitraFlows

open Processes

/-- Every stored document can be parsed. -/
def WorkflowStore.Parses (s : WorkflowStore) : Prop :=
  ∀ id doc, s.docs id = some doc → doc.load.isSome = true

/-- The status is a member of `WorkflowStatus`. -/
def StoredWorkflowStatus.member : StoredWorkflowStatus → Bool
  | .written _ => true
  | .inactive | .active => false

theorem StoredWorkflow.load_isSome (doc : StoredWorkflow) :
    doc.load.isSome = doc.status.member := by
  unfold load StoredWorkflowStatus.member
  cases doc.status <;> rfl

/-- The step is the write of an archive or of a restore, and it finds its document. -/
def WorkflowRequest.writesRawStatus (s : WorkflowStore) (p : WorkflowRequest)
    (input : RequestInput) : Bool :=
  match p.stage, p.op with
  | .write _, .archive | .write _, .restore => input.ran && (s.docs p.workflowId).isSome
  | _, _ => false

/-- No document is archived or restored by the move. -/
abbrev KeepsStatus : StoreRun → StoreMove → Prop :=
  NoStep fun c p input => p.writesRawStatus c.shared input

/-! ## One step -/

/-- A document about to be inserted can be parsed. -/
def WorkflowRequest.Parses (p : WorkflowRequest) : Prop :=
  ∀ doc, p.stage = .insert doc → doc.status.member = true

theorem WorkflowStore.Parses.member {s : WorkflowStore} (h : s.Parses) {id : String}
    {doc : StoredWorkflow} (hdoc : s.docs id = some doc) : doc.status.member = true := by
  rw [← doc.load_isSome]
  exact h id doc hdoc

theorem WorkflowStore.Parses.of_docs {s s' : WorkflowStore} (h : s.Parses)
    (hdocs : s'.docs = s.docs) : s'.Parses := by
  intro id doc hdoc
  rw [hdocs] at hdoc
  exact h id doc hdoc

/-- A write to one document keeps the store as long as it keeps that document. -/
theorem WorkflowStore.Parses.update {s s' : WorkflowStore} {id : String}
    {o : Option StoredWorkflow} (h : s.Parses) (hdocs : s'.docs = Function.update s.docs id o)
    (hdoc : ∀ doc, o = some doc → doc.status.member = true) : s'.Parses := by
  refine WorkflowStore.forall_docs_update h hdocs ?_
  intro doc ho
  rw [doc.load_isSome]
  exact hdoc doc ho

theorem WorkflowRequest.write_member {read doc : StoredWorkflow} {op : WorkflowOp}
    (hdoc : doc.status.member = true) (hop : op ≠ .archive ∧ op ≠ .restore) :
    (write read doc op).status.member = true := by
  cases op with
  | archive => exact absurd rfl hop.1
  | restore => exact absurd rfl hop.2
  | undeploy => rfl
  | _ => exact hdoc

theorem LiveWrite.apply_member {doc : StoredWorkflow} (hdoc : doc.status.member = true)
    (number : Nat) (lw : LiveWrite) : (lw.apply number doc).status.member = true := by
  cases lw with
  | deploy token secret => rfl
  | rollback target => exact hdoc

/-- A step that writes no status of its own keeps the store and the request. -/
theorem RequestStep.parses {cfg : StoreConfig} {i : Nat} {input : RequestInput}
    {s s' : WorkflowStore} {p : WorkflowRequest} {stage : WorkflowStage}
    (h : RequestStep cfg i input s p s' stage) (hs : s.Parses) (hp : p.Parses)
    (hkeeps : p.writesRawStatus s input = false) : s'.Parses ∧ (p.become stage).Parses := by
  have hnone : (p.become .done).Parses := by
    intro doc hins
    cases hins
  cases h with
  | creates hop hdag =>
      refine ⟨hs, ?_⟩
      intro doc hins
      cases hins
      rfl
  | copies hop hdoc =>
      refine ⟨hs, ?_⟩
      intro clone hins
      cases hins
      have hmember := hs.member hdoc
      exact hmember
  | reads hop hdoc hadmits hdraw =>
      refine ⟨hs.of_docs hdraw.frame.1, ?_⟩
      intro doc hins
      cases hins
  | deploys hop hdoc hnodes hgate hdraw =>
      refine ⟨hs.of_docs hdraw.frame.1, ?_⟩
      intro doc hins
      cases hins
  | inserts hran hstage hnew =>
      refine ⟨hs.update rfl ?_, hnone⟩
      intro doc hdoc
      cases hdoc
      exact hp _ hstage
  | commits hran hstage =>
      refine ⟨hs.update (WorkflowRequest.commit_docs _) ?_, hnone⟩
      intro doc hdoc
      obtain ⟨old, hold, rfl⟩ := Option.map_eq_some_iff.mp hdoc
      refine WorkflowRequest.write_member (hs.member hold) ?_
      simp only [WorkflowRequest.writesRawStatus, hstage, hran, hold] at hkeeps
      constructor
      · intro hop
        simp [hop] at hkeeps
      · intro hop
        simp [hop] at hkeeps
  | drafts hran hstage =>
      refine ⟨hs.update rfl ?_, hnone⟩
      intro doc hdoc
      obtain ⟨old, hold, rfl⟩ := Option.map_eq_some_iff.mp hdoc
      have hmember := hs.member hold
      exact hmember
  | goesLive hran hstage =>
      refine ⟨hs.update rfl ?_, hnone⟩
      intro doc hdoc
      obtain ⟨old, hold, rfl⟩ := Option.map_eq_some_iff.mp hdoc
      exact LiveWrite.apply_member (hs.member hold) _ _
  | ends => exact ⟨hs, hnone⟩
  | erases hran hstage hop => exact ⟨hs.of_docs rfl, hnone⟩
  | seeks hop hdoc | restores hstage hop htarget hdraft hdag | picks hstage
  | rollsBack hstage hop htarget hlive hgate | aims hop hdoc hlive | keepsAll hstage
  | dooms hran hstage =>
      refine ⟨hs, ?_⟩
      intro doc hins
      cases hins
  | snapshots hran hstage hnew hnext | prunes hran hstage hnext =>
      refine ⟨hs.of_docs rfl, ?_⟩
      intro doc hins
      rcases hnext with rfl | rfl <;> cases hins

/-- The write of an archive or of a restore leaves a document that cannot be parsed. -/
theorem WorkflowRequest.not_parses_of_writesRawStatus {cfg : StoreConfig} {i : Nat}
    {s s' : WorkflowStore} {p p' : WorkflowRequest} {input : RequestInput}
    (h : p.step cfg i input s = some (s', p')) (hraw : p.writesRawStatus s input = true) :
    ¬ s'.Parses := by
  have hwrite : ∃ read, p.stage = .write read ∧ (p.op = .archive ∨ p.op = .restore) ∧
      input.ran = true ∧ (s.docs p.workflowId).isSome = true := by
    unfold writesRawStatus at hraw
    split at hraw
    next read hstage hop =>
      rw [Bool.and_eq_true] at hraw
      exact ⟨read, hstage, .inl hop, hraw⟩
    next read hstage hop =>
      rw [Bool.and_eq_true] at hraw
      exact ⟨read, hstage, .inr hop, hraw⟩
    next => cases hraw
  obtain ⟨read, hstage, hop, hran, hdoc⟩ := hwrite
  obtain ⟨doc, hdoc⟩ := Option.isSome_iff_exists.mp hdoc
  cases input with
  | refuse => cases hran
  | next w =>
      have hran : w.ran = true := hran
      simp only [step, next, hstage, hran, if_true] at h
      cases h
      intro hparses
      have hnew : (p.commit i read s).docs p.workflowId = some (write read doc p.op) := by
        simp [commit, WorkflowStore.updateDoc, WorkflowStore.setEdited, hdoc]
      have hmember := hparses.member hnew
      rcases hop with hop | hop <;> simp [hop, write, StoredWorkflowStatus.member] at hmember

/-! ## Runs -/

theorem workflowSystem_parses (cfg : StoreConfig) :
    (workflowSystem cfg).Invariant KeepsStatus (fun _ s => s.Parses) (fun _ _ p => p.Parses) where
  spawn := by
    intro c x s' p hc _ h
    cases h
    refine ⟨hc.1, ?_, hc.2⟩
    intro doc hins
    cases hins
  step := by
    intro c i input p s' p' hc hok hi h
    obtain ⟨hs, hps⟩ := hc
    obtain ⟨hp', hstep⟩ := WorkflowRequest.step_sound h
    obtain ⟨hs', hnew⟩ := hstep.parses hs (hps i p hi) (hok p hi)
    rw [← hp'] at hnew
    exact ⟨hs', hnew, fun j q _ hj => hps j q hj⟩
  env := by
    intro c e s' _ _ h
    exact e.elim

/-- In a run in which nothing is archived or restored every document can be parsed, and the
first archive or restore that reaches a document leaves one that cannot. -/
theorem WorkflowStore.Parses.of_run {cfg : StoreConfig} {c₀ c : StoreRun}
    (hstart : c₀.procs = []) (hparses : c₀.shared.Parses)
    (hreach : (workflowSystem cfg).Reaches KeepsStatus c₀ c) :
    c.shared.Parses ∧
      ∀ m c', (workflowSystem cfg).apply c m = some c' →
        (c'.shared.Parses ↔ KeepsStatus c m) := by
  have hinv := hreach.inv (workflowSystem_parses cfg) (.of_start hstart hparses)
  refine ⟨hinv.1, ?_⟩
  intro m c' hm
  constructor
  · intro hparses'
    cases m with
    | spawn x => trivial
    | crash i => trivial
    | env e => trivial
    | step i input =>
        intro p hp
        by_contra hraw
        obtain ⟨q, hq, hm⟩ := Option.bind_eq_some_iff.mp hm
        obtain ⟨⟨s', p'⟩, hstep, rfl⟩ := Option.map_eq_some_iff.mp hm
        obtain rfl : p = q := Option.some.inj (hp.symm.trans hq)
        exact WorkflowRequest.not_parses_of_writesRawStatus hstep (by simpa using hraw) hparses'
  · intro hok
    exact ((workflowSystem_parses cfg).steps hinv ⟨m, hok, hm⟩).1

/-- A PUT renames a workflow, and it is duplicated. -/
def renamesReport : List StoreMove :=
  createsReport ++ StoreMove.begin "report" (.update { name := some "Monthly report" }) ::
    StoreMove.commands 1 2 ++
    StoreMove.begin "report" (.duplicate "copy" "acme") :: StoreMove.commands 2 2

/-- A workflow is archived. -/
def archivesReport : List StoreMove :=
  createsReport ++ StoreMove.begin "report" .archive :: StoreMove.commands 1 2

theorem renamed_parses : ∃ c, (workflowSystem bareStore).Reaches KeepsStatus ⟨{}, []⟩ c ∧
    (c.shared.docs "copy").isSome = true ∧ c.shared.Parses := by
  have hplay : ((workflowSystem bareStore).play KeepsStatus renamesReport ⟨{}, []⟩).any
      (fun c => (c.shared.docs "copy").isSome) = true := by
    decide +kernel
  obtain ⟨c, hreach, hcopy⟩ := System.exists_reaches_of_play _ _ _ _ _ hplay
  exact ⟨c, hreach, hcopy,
    (WorkflowStore.Parses.of_run rfl (fun id doc hdoc => by cases hdoc) hreach).1⟩

/-- The document of an archived workflow cannot be parsed. -/
theorem archived_does_not_parse : ¬ ∀ (cfg : StoreConfig) (s : WorkflowStore), s.Parses →
    ∀ c, (workflowSystem cfg).Reaches (fun _ _ => True) ⟨s, []⟩ c → c.shared.Parses := by
  intro hclaim
  have hplay : ((workflowSystem bareStore).play (fun _ _ => True) archivesReport ⟨{}, []⟩).any
      (fun c => (c.shared.docs "report").any fun doc => doc.load.isNone) = true := by
    decide +kernel
  obtain ⟨c, hreach, harchived⟩ := System.exists_reaches_of_play _ _ _ _ _ hplay
  obtain ⟨doc, hdoc, hload⟩ := (Option.any_eq_true _ _).mp harchived
  have hparses := hclaim bareStore {} (fun id doc hdoc => by cases hdoc) c hreach "report" doc hdoc
  rw [Option.isNone_iff_eq_none.mp hload] at hparses
  cases hparses

end CitraFlows
