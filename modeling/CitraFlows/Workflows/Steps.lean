-- SUMMARY: What a step of a request on a stored workflow can do: one case for each command that was answered and each write that was made.
import CitraFlows.Workflows.Model

/-!
# Steps of a request

`RequestStep` lists what a step does to the two collections and where it leads, with the checks
that were passed on the way. A command that fails without an effect, and a check that fails, end
the request.
-/

namespace CitraFlows

open Processes

/-- The write to the live document that the request is about to make, with the document it has
read. -/
def WorkflowStage.live : WorkflowStage → Option (StoredWorkflow × LiveWrite)
  | .latest read lw | .insertVersion read lw _ | .pruneFind read lw _ | .pruneDelete read lw _ _ |
    .goLive read lw _ => some (read, lw)
  | _ => none

def WorkflowStage.deploying (stage : WorkflowStage) : Bool :=
  match stage.live with
  | some (_, .deploy _ _) => true
  | _ => false

/-- A request of the workflow is at such a stage. -/
def underWay (c : StoreRun) (id : String) (k : WorkflowStage → Bool) : Bool :=
  c.procs.any fun o => o.any fun p => p.workflowId = id && k p.stage

theorem underWay_of_proc {c : StoreRun} {i : Nat} {p : WorkflowRequest}
    {k : WorkflowStage → Bool} (hi : c.proc i = some p) (hk : k p.stage = true) :
    underWay c p.workflowId k = true := by
  refine List.any_eq_true.mpr ⟨some p, ?_, by simp [hk]⟩
  exact List.mem_of_getElem? (Configuration.proc_eq_some.mp hi)

/-- What holds of all documents holds after a write to one of them that keeps it. -/
theorem WorkflowStore.forall_docs_update {s s' : WorkflowStore} {id : String}
    {o : Option StoredWorkflow} {P : String → StoredWorkflow → Prop}
    (h : ∀ id doc, s.docs id = some doc → P id doc)
    (hdocs : s'.docs = Function.update s.docs id o) (hdoc : ∀ doc, o = some doc → P id doc) :
    ∀ id doc, s'.docs id = some doc → P id doc := by
  intro id' doc hid'
  rw [hdocs] at hid'
  by_cases heq : id' = id
  · subst heq
    rw [Function.update_self] at hid'
    exact hdoc doc hid'
  · rw [Function.update_of_ne heq] at hid'
    exact h id' doc hid'

/-- A document stays as far as `P` tells, where a write to it keeps `P`. -/
theorem WorkflowStore.exists_docs_update {s s' : WorkflowStore} {id id' : String}
    {P : StoredWorkflow → Prop} {doc : StoredWorkflow} (hdoc : s.docs id' = some doc) (hP : P doc)
    (f : StoredWorkflow → StoredWorkflow)
    (hdocs : s'.docs = Function.update s.docs id ((s.docs id).map f))
    (hf : id' = id → P (f doc)) : ∃ doc', s'.docs id' = some doc' ∧ P doc' := by
  rw [hdocs]
  by_cases heq : id' = id
  · subst heq
    exact ⟨f doc, by rw [Function.update_self, hdoc]; rfl, hf rfl⟩
  · exact ⟨doc, by rw [Function.update_of_ne heq, hdoc], hP⟩

namespace WorkflowRequest

/-- The operation reads the document and then writes it. -/
def rewrites : WorkflowOp → Bool
  | .update _ | .patchSchedule _ _ | .undeploy | .archive | .restore | .rotateWebhookToken _ _ |
    .delete => true
  | _ => false

/-- The checks of such an operation on the document it has read. -/
def admits (doc : StoredWorkflow) : WorkflowOp → Bool
  | .update body => body.admits doc
  | .archive => !doc.archived
  | .restore => doc.archived
  | .rotateWebhookToken _ _ => doc.webhookToken.any (· ≠ "")
  | _ => true

/-- The token that the operation draws when it has read the document. -/
def drawn (doc : StoredWorkflow) : WorkflowOp → Option String
  | .deploy token _ =>
      if mintToken doc.webhookToken (hasWebhook doc.nodes) token = some token then some token
      else none
  | .rotateWebhookToken token _ => some token
  | _ => none

end WorkflowRequest

/-- The store after the draw of a token. -/
inductive Draws (s : WorkflowStore) (id : String) : Option String → WorkflowStore → Prop
  | none : Draws s id none s
  | fresh {token : String} (hnew : ∀ x ∈ s.tokens, x.1 ≠ token) :
      Draws s id (some token) { s with tokens := (token, id) :: s.tokens }

theorem Draws.frame {s s₁ : WorkflowStore} {id : String} {o : Option String}
    (h : Draws s id o s₁) :
    s₁.docs = s.docs ∧ s₁.versions = s.versions ∧ s₁.edited = s.edited ∧ s₁.log = s.log := by
  cases h <;> exact ⟨rfl, rfl, rfl, rfl⟩

/-- A step of call `i`: the store after it, and the stage it leads to. -/
inductive RequestStep (cfg : StoreConfig) (i : Nat) (input : RequestInput) (s : WorkflowStore)
    (p : WorkflowRequest) : WorkflowStore → WorkflowStage → Prop
  | ends : RequestStep cfg i input s p s .done
  | creates {name orgId userId : String} {deptIds : List String} {g : WorkflowGraph}
      (hop : p.op = .create name orgId userId deptIds g) (hdag : dagValid g.nodes g.edges = true) :
      RequestStep cfg i input s p s (.insert (createdWorkflow p.workflowId name orgId userId deptIds g))
  | copies {doc : StoredWorkflow} {newId orgId : String} (hop : p.op = .duplicate newId orgId)
      (hdoc : s.docs p.workflowId = some doc) :
      RequestStep cfg i input s p s (.insert (doc.clone newId orgId))
  | reads {s₁ : WorkflowStore} {doc : StoredWorkflow} (hop : WorkflowRequest.rewrites p.op = true)
      (hdoc : s.docs p.workflowId = some doc) (hadmits : WorkflowRequest.admits doc p.op = true)
      (hdraw : Draws s p.workflowId (WorkflowRequest.drawn doc p.op) s₁) :
      RequestStep cfg i input s p s₁ (.write doc)
  | deploys {s₁ : WorkflowStore} {doc : StoredWorkflow} {token secret : String}
      (hop : p.op = .deploy token secret) (hdoc : s.docs p.workflowId = some doc)
      (hnodes : doc.nodes ≠ []) (hgate : doc.graph.passesGate cfg .prod = true)
      (hdraw : Draws s p.workflowId (WorkflowRequest.drawn doc p.op) s₁) :
      RequestStep cfg i input s p s₁ (.latest doc
        (.deploy (mintToken doc.webhookToken (hasWebhook doc.nodes) token)
          (mintToken doc.webhookSecret (hasWebhook doc.nodes) secret)))
  | seeks {doc : StoredWorkflow} {number : Nat} (hop : p.op = .rollback number)
      (hdoc : s.docs p.workflowId = some doc) : RequestStep cfg i input s p s (.target doc)
  | restores {read : StoredWorkflow} {target : WorkflowVersion} {number : Nat}
      (hstage : p.stage = .target read) (hop : p.op = .rollback number)
      (htarget : s.version p.workflowId number = some target) (hdraft : read.deployed = false)
      (hdag : dagValid target.graph.nodes target.graph.edges = true) :
      RequestStep cfg i input s p s (.restoreDraft target)
  | rollsBack {read : StoredWorkflow} {target : WorkflowVersion} {number : Nat}
      (hstage : p.stage = .target read) (hop : p.op = .rollback number)
      (htarget : s.version p.workflowId number = some target) (hlive : read.deployed = true)
      (hgate : target.graph.passesGate cfg read.runEnvironment = true) :
      RequestStep cfg i input s p s (.latest read (.rollback target))
  | picks {read : StoredWorkflow} {lw : LiveWrite} (hstage : p.stage = .latest read lw) :
      RequestStep cfg i input s p s (.insertVersion read lw (s.nextNumber p.workflowId))
  | aims {doc : StoredWorkflow} {number : Nat} (hop : p.op = .deleteVersion number)
      (hdoc : s.docs p.workflowId = some doc) (hlive : doc.deployedVersion ≠ some number) :
      RequestStep cfg i input s p s .deleteVersion
  | inserts {doc : StoredWorkflow} (hran : input.ran = true) (hstage : p.stage = .insert doc)
      (hnew : s.docs doc.workflowId = none) :
      RequestStep cfg i input s p (s.setDoc doc.workflowId doc) .done
  | commits {read : StoredWorkflow} (hran : input.ran = true) (hstage : p.stage = .write read) :
      RequestStep cfg i input s p (p.commit i read s) .done
  | drafts {target : WorkflowVersion} (hran : input.ran = true)
      (hstage : p.stage = .restoreDraft target) :
      RequestStep cfg i input s p (p.restoreDraft target s) .done
  | snapshots {read : StoredWorkflow} {lw : LiveWrite} {number : Nat} {stage : WorkflowStage}
      (hran : input.ran = true) (hstage : p.stage = .insertVersion read lw number)
      (hnew : number ∉ s.numbers p.workflowId) (hnext : stage = .pruneFind read lw number ∨ stage = .done) :
      RequestStep cfg i input s p
        (s.setVersions p.workflowId (s.versions p.workflowId ++ [lw.snapshot read number])) stage
  | keepsAll {read : StoredWorkflow} {lw : LiveWrite} {number : Nat}
      (hstage : p.stage = .pruneFind read lw number) :
      RequestStep cfg i input s p s (.goLive read lw number)
  | dooms {read : StoredWorkflow} {lw : LiveWrite} {number : Nat} (hran : input.ran = true)
      (hstage : p.stage = .pruneFind read lw number) :
      RequestStep cfg i input s p s (.pruneDelete read lw number
        (prunedVersions cfg.maxWorkflowVersions number (s.numbers p.workflowId)))
  | prunes {read : StoredWorkflow} {lw : LiveWrite} {number : Nat} {doomed : List Nat}
      {stage : WorkflowStage} (hran : input.ran = true)
      (hstage : p.stage = .pruneDelete read lw number doomed)
      (hnext : stage = .goLive read lw number ∨ stage = .done) :
      RequestStep cfg i input s p
        (s.setVersions p.workflowId
          ((s.versions p.workflowId).filter fun v => !doomed.contains v.versionNumber)) stage
  | goesLive {read : StoredWorkflow} {lw : LiveWrite} {number : Nat} (hran : input.ran = true)
      (hstage : p.stage = .goLive read lw number) :
      RequestStep cfg i input s p
        ((s.updateDoc p.workflowId fun doc => lw.apply number doc).setEdited p.workflowId false)
        .done
  | erases {number : Nat} (hran : input.ran = true) (hstage : p.stage = .deleteVersion)
      (hop : p.op = .deleteVersion number) :
      RequestStep cfg i input s p
        (s.setVersions p.workflowId ((s.versions p.workflowId).filter (·.versionNumber ≠ number)))
        .done

theorem WorkflowStore.draw_eq_some {s s₁ : WorkflowStore} {token id : String}
    (h : s.draw token id = some s₁) : Draws s id (some token) s₁ := by
  unfold draw at h
  split at h
  next => cases h
  next hnew =>
    cases h
    refine .fresh fun x hx heq => hnew ?_
    exact List.any_eq_true.mpr ⟨x, hx, by simpa using heq⟩

namespace WorkflowRequest

variable {cfg : StoreConfig} {i : Nat} {input : RequestInput} {s s' : WorkflowStore}
  {p p' : WorkflowRequest}

@[simp] theorem become_workflowId (stage : WorkflowStage) :
    (p.become stage).workflowId = p.workflowId := rfl

@[simp] theorem become_op (stage : WorkflowStage) : (p.become stage).op = p.op := rfl

@[simp] theorem become_stage (stage : WorkflowStage) : (p.become stage).stage = stage := rfl

theorem commit_docs (read : StoredWorkflow) :
    (p.commit i read s).docs =
      Function.update s.docs p.workflowId ((s.docs p.workflowId).map (write read · p.op)) := rfl

theorem commit_log (read : StoredWorkflow) :
    (p.commit i read s).log = ((s.docs p.workflowId).bind (p.noted i read)).toList ++ s.log := rfl

/-- The answer to the first read. -/
theorem afterFind_sound {doc : StoredWorkflow} {stage : WorkflowStage}
    (hdoc : s.docs p.workflowId = some doc) (h : p.afterFind cfg s doc = some (s', stage)) :
    RequestStep cfg i input s p s' stage := by
  unfold afterFind at h
  cases hop : p.op with
  | create name orgId userId deptIds g =>
      simp only [hop] at h
      cases h
  | update body =>
      simp only [hop] at h
      split at h
      next hadmits =>
        cases h
        exact .reads (by simp [hop, rewrites]) hdoc (by simpa [hop, admits] using hadmits)
          (by simpa [hop, drawn] using Draws.none)
      next =>
        cases h
        exact .ends
  | patchSchedule enabled cronExpression =>
      simp only [hop] at h
      cases h
      exact .reads (by simp [hop, rewrites]) hdoc (by simp [hop, admits])
        (by simpa [hop, drawn] using Draws.none)
  | undeploy | delete =>
      simp only [hop] at h
      cases h
      exact .reads (by simp [hop, rewrites]) hdoc (by simp [hop, admits])
        (by simpa [hop, drawn] using Draws.none)
  | deploy token secret =>
      simp only [hop] at h
      split at h
      next hchecks =>
        split at h
        next hmint =>
          obtain ⟨s₁, hdraw, heq⟩ := Option.map_eq_some_iff.mp h
          cases heq
          exact .deploys hop hdoc hchecks.1 hchecks.2
            (by simpa [hop, drawn, hmint] using WorkflowStore.draw_eq_some hdraw)
        next hmint =>
          cases h
          exact .deploys hop hdoc hchecks.1 hchecks.2
            (by simpa [hop, drawn, hmint] using Draws.none)
      next =>
        cases h
        exact .ends
  | rollback number =>
      simp only [hop] at h
      cases h
      exact .seeks hop hdoc
  | archive =>
      simp only [hop] at h
      split at h
      next =>
        cases h
        exact .ends
      next harch =>
        cases h
        exact .reads (by simp [hop, rewrites]) hdoc (by simpa [hop, admits] using harch)
          (by simpa [hop, drawn] using Draws.none)
  | restore =>
      simp only [hop] at h
      split at h
      next harch =>
        cases h
        exact .reads (by simp [hop, rewrites]) hdoc (by simpa [hop, admits] using harch)
          (by simpa [hop, drawn] using Draws.none)
      next =>
        cases h
        exact .ends
  | duplicate newId orgId =>
      simp only [hop] at h
      cases h
      exact .copies hop hdoc
  | deleteVersion number =>
      simp only [hop] at h
      split at h
      next =>
        cases h
        exact .ends
      next hlive =>
        cases h
        exact .aims hop hdoc hlive
  | rotateWebhookToken token secret =>
      simp only [hop] at h
      split at h
      next htoken =>
        obtain ⟨s₁, hdraw, heq⟩ := Option.map_eq_some_iff.mp h
        cases heq
        exact .reads (by simp [hop, rewrites]) hdoc (by simpa [hop, admits] using htoken)
          (by simpa [hop, drawn] using WorkflowStore.draw_eq_some hdraw)
      next =>
        cases h
        exact .ends

/-- The answer to the read of a target. -/
theorem afterTarget_sound {read : StoredWorkflow} {target : WorkflowVersion} {number : Nat}
    (hstage : p.stage = .target read) (hop : p.op = .rollback number)
    (htarget : s.version p.workflowId number = some target) :
    RequestStep cfg i input s p s (afterTarget cfg read target) := by
  unfold afterTarget
  dsimp only
  split
  next hchecks =>
    split
    next hlive =>
      split
      next hgate => exact .rollsBack hstage hop htarget hlive hgate
      next => exact .ends
    next hlive => exact .restores hstage hop htarget (by simpa using hlive) hchecks.2
  next => exact .ends

/-- What a step does. -/
theorem step_sound (h : p.step cfg i input s = some (s', p')) :
    p' = p.become p'.stage ∧ RequestStep cfg i input s p s' p'.stage := by
  cases input with
  | refuse =>
      simp only [step] at h
      split at h
      next =>
        cases h
        exact ⟨rfl, .ends⟩
      next => cases h
  | next w =>
      simp only [step, next] at h
      split at h
      next =>
        -- the first read
        split at h
        next name orgId userId deptIds g hop =>
          cases h
          refine ⟨rfl, ?_⟩
          simp only [become_stage]
          split
          next hdag => exact .creates hop hdag
          next => exact .ends
        next =>
          split at h
          next doc _ hdoc =>
            obtain ⟨⟨s₁, stage⟩, hfind, heq⟩ := Option.map_eq_some_iff.mp h
            cases heq
            exact ⟨rfl, afterFind_sound hdoc hfind⟩
          next =>
            cases h
            exact ⟨rfl, .ends⟩
      next doc hstage =>
        split at h
        next => cases h
        next hnew =>
          cases h
          refine ⟨rfl, ?_⟩
          split
          next hran => exact .inserts hran hstage (by simpa using hnew)
          next => exact .ends
      next read hstage =>
        cases h
        refine ⟨rfl, ?_⟩
        split
        next hran => exact .commits hran hstage
        next => exact .ends
      next read hstage =>
        split at h
        next number _ hop =>
          split at h
          next target htarget =>
            cases h
            exact ⟨rfl, afterTarget_sound hstage hop htarget⟩
          next =>
            cases h
            exact ⟨rfl, .ends⟩
        next =>
          cases h
          exact ⟨rfl, .ends⟩
      next target hstage =>
        cases h
        refine ⟨rfl, ?_⟩
        split
        next hran => exact .drafts hran hstage
        next => exact .ends
      next read lw hstage =>
        cases h
        refine ⟨rfl, ?_⟩
        simp only [become_stage]
        split
        next => exact .picks hstage
        next => exact .ends
      next read lw number hstage =>
        split at h
        next =>
          cases h
          exact ⟨rfl, .ends⟩
        next hnew =>
          cases h
          refine ⟨rfl, ?_⟩
          simp only [become_stage]
          have hnew : number ∉ s.numbers p.workflowId := by simpa using hnew
          cases w with
          | done => exact .snapshots rfl hstage hnew (.inl rfl)
          | failed ran =>
              cases ran with
              | true => exact .snapshots rfl hstage hnew (.inr rfl)
              | false => exact .ends
      next read lw number hstage =>
        cases h
        refine ⟨rfl, ?_⟩
        simp only [become_stage]
        cases w with
        | failed ran => exact .ends
        | done =>
            split
            next hok => cases hok
            next =>
              split
              next => exact .keepsAll hstage
              next => exact .dooms rfl hstage
      next read lw number doomed hstage =>
        cases h
        refine ⟨rfl, ?_⟩
        simp only [become_stage]
        cases w with
        | done => exact .prunes rfl hstage (.inl rfl)
        | failed ran =>
            cases ran with
            | true => exact .prunes rfl hstage (.inr rfl)
            | false => exact .ends
      next read lw number hstage =>
        cases h
        refine ⟨rfl, ?_⟩
        split
        next hran => exact .goesLive hran hstage
        next => exact .ends
      next hstage =>
        split at h
        next number hop =>
          cases h
          refine ⟨rfl, ?_⟩
          split
          next hran => exact .erases hran hstage hop
          next => exact .ends
        next => cases h
      next => cases h

end WorkflowRequest

end CitraFlows
