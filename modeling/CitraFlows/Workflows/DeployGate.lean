-- SUMMARY: What is deployed has passed the gate, and a webhook token names one workflow, unless the graph of a deployed workflow is edited past the gate or a workflow with a token is duplicated.
import CitraFlows.Workflows.Steps

/-!
# The deploy gate

A deploy and a rollback of a deployed workflow check the graph that goes live. A PUT and a patch
write the graph of a deployed workflow too, and a duplicate copies the token of the original.
-/

namespace CitraFlows

open Processes

structure WorkflowStore.Gated (cfg : StoreConfig) (s : WorkflowStore) : Prop where
  /-- What is deployed passes the gate of its environment. -/
  gate : ∀ id doc, s.docs id = some doc → doc.deployed = true →
    doc.graph.passesGate cfg doc.runEnvironment = true
  /-- A token names one workflow. -/
  names : ∀ id id' doc doc' token, s.docs id = some doc → s.docs id' = some doc' →
    doc.webhookToken = some token → doc'.webhookToken = some token → id = id'

/-! ## Writes past the gate -/

namespace WorkflowRequest

/-- The graph that a PUT, a patch or a rollback of a draft is about to write. -/
def ungatedGraph (p : WorkflowRequest) (doc : StoredWorkflow) : Option WorkflowGraph :=
  match p.stage with
  | .write read => if editsGraph p.op then some (write read doc p.op).graph else none
  | .restoreDraft target => some target.graph
  | _ => none

/-- Such a graph does not pass the gate, and is written to a workflow that is deployed or about
to be; or a copy of a workflow with a token is stored. -/
def evadesGate (cfg : StoreConfig) (c : StoreRun) (p : WorkflowRequest) (input : RequestInput) :
    Bool :=
  input.ran &&
    match p.stage with
    | .insert doc => doc.webhookToken.isSome
    | _ =>
        (c.shared.docs p.workflowId).any fun doc =>
          (doc.deployed || underWay c p.workflowId (·.deploying)) &&
            (p.ungatedGraph doc).any fun g => !g.passesGate cfg .prod

end WorkflowRequest

/-- No PUT, patch or rollback of a draft gives a workflow that is deployed, or about to be, a
graph that does not pass the gate, and no workflow with a token is duplicated. -/
abbrev KeepsGate (cfg : StoreConfig) : StoreRun → StoreMove → Prop :=
  NoStep fun c p input => p.evadesGate cfg c input

/-! ## Invariants -/

/-- What holds of a stored document: its environment is the one that a deploy writes, it has
passed the gate if it is deployed, and its token was drawn for it. -/
structure StoredWorkflow.Vetted (cfg : StoreConfig) (tokens : List (String × String)) (id : String)
    (doc : StoredWorkflow) : Prop where
  prod : doc.runEnvironment = .prod
  gate : doc.deployed = true → doc.graph.passesGate cfg .prod = true
  token : ∀ token, doc.webhookToken = some token → (token, id) ∈ tokens

structure WorkflowStore.Vetted (cfg : StoreConfig) (s : WorkflowStore) : Prop where
  docs : ∀ id doc, s.docs id = some doc → doc.Vetted cfg s.tokens id
  tokens : ∀ token id id', (token, id) ∈ s.tokens → (token, id') ∈ s.tokens → id = id'

/-- A write to come puts a graph live that passes the gate, and a token that was drawn for the
workflow. -/
def LiveWrite.Vetted (cfg : StoreConfig) (s : WorkflowStore) (id : String) : LiveWrite → Prop
  | .deploy token _ =>
      (∃ doc, s.docs id = some doc ∧ doc.graph.passesGate cfg .prod = true) ∧
        ∀ t, token = some t → (t, id) ∈ s.tokens
  | .rollback target => target.graph.passesGate cfg .prod = true

def WorkflowRequest.Vetted (cfg : StoreConfig) (s : WorkflowStore) (p : WorkflowRequest) : Prop :=
  match p.stage with
  | .insert doc =>
      doc.runEnvironment = .prod ∧ (doc.deployed = true → doc.graph.passesGate cfg .prod = true)
  | .write _ =>
      ∀ token secret, p.op = .rotateWebhookToken token secret → (token, p.workflowId) ∈ s.tokens
  | .target read => read.runEnvironment = .prod
  | stage => ∀ read lw, stage.live = some (read, lw) → lw.Vetted cfg s p.workflowId

theorem WorkflowRequest.Vetted.live {cfg : StoreConfig} {s : WorkflowStore} {p : WorkflowRequest}
    {read : StoredWorkflow} {lw : LiveWrite} (h : p.Vetted cfg s)
    (hlive : p.stage.live = some (read, lw)) : lw.Vetted cfg s p.workflowId := by
  unfold Vetted at h
  split at h
  next doc hstage => simp [hstage, WorkflowStage.live] at hlive
  next doc hstage => simp [hstage, WorkflowStage.live] at hlive
  next doc hstage => simp [hstage, WorkflowStage.live] at hlive
  next => exact h read lw hlive

theorem WorkflowStore.Vetted.gated {cfg : StoreConfig} {s : WorkflowStore} (h : s.Vetted cfg) :
    s.Gated cfg where
  gate := by
    intro id doc hdoc hdeployed
    rw [(h.docs id doc hdoc).prod]
    exact (h.docs id doc hdoc).gate hdeployed
  names := by
    intro id id' doc doc' token hdoc hdoc' htoken htoken'
    exact h.tokens token id id' ((h.docs id doc hdoc).token token htoken)
      ((h.docs id' doc' hdoc').token token htoken')

/-! ## Tokens -/

theorem mintToken_eq_some {old : Option String} {has : Bool} {fresh token : String}
    (h : mintToken old has fresh = some token) : old = some token ∨ token = fresh := by
  unfold mintToken at h
  split at h
  next t =>
    split at h
    next =>
      split at h
      next =>
        cases h
        exact .inr rfl
      next => cases h
    next =>
      cases h
      exact .inl rfl
  next =>
    split at h
    next =>
      cases h
      exact .inr rfl
    next => cases h

theorem setToken_eq_some {new old : Option String} {token : String}
    (h : setToken new old = some token) : new = some token ∨ old = some token := by
  unfold setToken at h
  split at h
  next => exact .inl h
  next => exact .inr h

namespace Draws

variable {s s₁ : WorkflowStore} {id : String} {o : Option String}

theorem subset (h : Draws s id o s₁) : s.tokens ⊆ s₁.tokens := by
  cases h with
  | none => exact fun _ hx => hx
  | fresh hnew => exact List.subset_cons_self _ _

theorem mem (h : Draws s id o s₁) {token : String} (ho : o = some token) :
    (token, id) ∈ s₁.tokens := by
  cases h with
  | none => cases ho
  | fresh hnew =>
      cases ho
      exact List.mem_cons_self

theorem vetted {cfg : StoreConfig} (h : Draws s id o s₁) (hs : s.Vetted cfg) : s₁.Vetted cfg where
  docs := by
    intro id' doc hdoc
    rw [h.frame.1] at hdoc
    have hvetted := hs.docs id' doc hdoc
    exact ⟨hvetted.prod, hvetted.gate, fun token htoken => h.subset (hvetted.token token htoken)⟩
  tokens := by
    intro token a b ha hb
    cases h with
    | none => exact hs.tokens token a b ha hb
    | fresh hnew =>
        rcases List.mem_cons.mp ha with ha' | ha' <;> rcases List.mem_cons.mp hb with hb' | hb'
        · cases ha'
          cases hb'
          rfl
        · cases ha'
          exact absurd rfl (hnew _ hb')
        · cases hb'
          exact absurd rfl (hnew _ ha')
        · exact hs.tokens token a b ha' hb'

end Draws

/-! ## Writes -/

namespace WorkflowRequest

theorem write_runEnvironment (read doc : StoredWorkflow) (op : WorkflowOp) :
    (write read doc op).runEnvironment = doc.runEnvironment := by
  cases op <;> rfl

theorem write_deployed {read doc : StoredWorkflow} {op : WorkflowOp}
    (h : (write read doc op).deployed = true) : doc.deployed = true := by
  cases op with
  | undeploy | archive | restore => simp [write, StoredWorkflow.deployed] at h
  | _ => exact h

theorem write_webhookToken {read doc : StoredWorkflow} {op : WorkflowOp} {token : String}
    (h : (write read doc op).webhookToken = some token) :
    doc.webhookToken = some token ∨ ∃ secret, op = .rotateWebhookToken token secret := by
  cases op with
  | rotateWebhookToken token' secret =>
      cases h
      exact .inr ⟨secret, rfl⟩
  | _ => exact .inl h

theorem write_graph {read doc : StoredWorkflow} {op : WorkflowOp} (h : editsGraph op = false) :
    (write read doc op).graph = doc.graph := by
  cases op with
  | update body =>
      simp only [editsGraph, UpdateWorkflowRequest.editsGraph, Bool.or_eq_false_iff,
        Option.isSome_eq_false_iff, Option.isNone_iff_eq_none] at h
      obtain ⟨⟨⟨hnodes, hedges⟩, hvars⟩, hschedule⟩ := h
      simp [write, UpdateWorkflowRequest.write, StoredWorkflow.graph, hnodes, hedges, hvars,
        hschedule]
  | patchSchedule => cases h
  | _ => rfl

variable {cfg : StoreConfig} {c : StoreRun} {p : WorkflowRequest} {input : RequestInput}
  {doc : StoredWorkflow}

/-- A graph that does not evade the gate passes it. -/
theorem passes_of_evadesGate {g : WorkflowGraph} (hok : p.evadesGate cfg c input = false)
    (hran : input.ran = true) (hdoc : c.shared.docs p.workflowId = some doc)
    (hlive : doc.deployed = true ∨ underWay c p.workflowId (·.deploying) = true)
    (hg : p.ungatedGraph doc = some g) : g.passesGate cfg .prod = true := by
  unfold evadesGate at hok
  rw [hran, Bool.true_and] at hok
  split at hok
  next new hstage => simp [ungatedGraph, hstage] at hg
  next => simpa [hdoc, hg, hlive] using hok

/-- A write leaves the graph as it was, or writes one that no gate has seen. -/
theorem write_graph_or {read : StoredWorkflow} (hstage : p.stage = .write read) :
    (write read doc p.op).graph = doc.graph ∨
      p.ungatedGraph doc = some (write read doc p.op).graph := by
  by_cases hedits : editsGraph p.op = true
  · exact .inr (by simp [ungatedGraph, hstage, hedits])
  · exact .inl (write_graph (by simpa using hedits))

end WorkflowRequest

theorem LiveWrite.apply_vetted {cfg : StoreConfig} {s : WorkflowStore} {id : String}
    {doc : StoredWorkflow} {lw : LiveWrite} (hlw : lw.Vetted cfg s id)
    (hdoc : s.docs id = some doc) (hvetted : doc.Vetted cfg s.tokens id) (number : Nat) :
    (lw.apply number doc).Vetted cfg s.tokens id := by
  cases lw with
  | deploy token secret =>
      obtain ⟨⟨doc', hdoc', hpasses⟩, hminted⟩ := hlw
      obtain rfl : doc = doc' := Option.some.inj (hdoc.symm.trans hdoc')
      refine ⟨rfl, fun _ => hpasses, ?_⟩
      intro t ht
      rcases setToken_eq_some ht with hnew | hold
      · exact hminted t hnew
      · exact hvetted.token t hold
  | rollback target => exact ⟨hvetted.prod, fun _ => hlw, hvetted.token⟩

/-! ## Steps -/

section Steps

variable {cfg : StoreConfig} {i : Nat} {input : RequestInput} {c : StoreRun} {s' : WorkflowStore}
  {p q : WorkflowRequest} {stage : WorkflowStage}

theorem RequestStep.subset (h : RequestStep cfg i input c.shared p s' stage) :
    c.shared.tokens ⊆ s'.tokens := by
  cases h with
  | reads hop hdoc hadmits hdraw | deploys hop hdoc hnodes hgate hdraw => exact hdraw.subset
  | _ => exact List.Subset.refl _

/-- While a deploy is under way the graph keeps passing the gate. -/
theorem RequestStep.passes (h : RequestStep cfg i input c.shared p s' stage)
    (hp : p.Vetted cfg c.shared) (hok : p.evadesGate cfg c input = false) {id : String}
    (hunderWay : underWay c id (·.deploying) = true) {doc : StoredWorkflow}
    (hdoc : c.shared.docs id = some doc) (hpasses : doc.graph.passesGate cfg .prod = true) :
    ∃ doc', s'.docs id = some doc' ∧ doc'.graph.passesGate cfg .prod = true := by
  cases h with
  | @inserts new hran hstage hnew =>
      have hne : id ≠ new.workflowId := by
        rintro rfl
        rw [hnew] at hdoc
        cases hdoc
      exact ⟨doc, (Function.update_of_ne hne _ _).trans hdoc, hpasses⟩
  | @commits read hran hstage =>
      refine WorkflowStore.exists_docs_update hdoc hpasses _ (WorkflowRequest.commit_docs read) ?_
      rintro rfl
      rcases WorkflowRequest.write_graph_or hstage with hsame | hnew
      · rw [hsame]
        exact hpasses
      · exact WorkflowRequest.passes_of_evadesGate hok hran hdoc (.inr hunderWay) hnew
  | @drafts target hran hstage =>
      refine WorkflowStore.exists_docs_update hdoc hpasses _ rfl ?_
      rintro rfl
      exact WorkflowRequest.passes_of_evadesGate (g := target.graph) hok hran hdoc (.inr hunderWay)
        (by simp [WorkflowRequest.ungatedGraph, hstage])
  | @goesLive read lw number hran hstage =>
      refine WorkflowStore.exists_docs_update hdoc hpasses _ rfl ?_
      rintro rfl
      cases lw with
      | deploy token secret => exact hpasses
      | rollback target =>
          have hlw := hp.live (by rw [hstage]; rfl)
          exact hlw
  | reads hop hread hadmits hdraw | deploys hop hread hnodes hgate hdraw =>
      exact ⟨doc, by rw [hdraw.frame.1]; exact hdoc, hpasses⟩
  | _ => exact ⟨doc, hdoc, hpasses⟩

/-- A step of another request keeps what is known of a request. -/
theorem RequestStep.frame_vetted (h : RequestStep cfg i input c.shared p s' stage)
    (hp : p.Vetted cfg c.shared) (hok : p.evadesGate cfg c input = false)
    (hq : q.Vetted cfg c.shared)
    (hunderWay : q.stage.deploying = true → underWay c q.workflowId (·.deploying) = true) :
    q.Vetted cfg s' := by
  have hq' := hq
  unfold WorkflowRequest.Vetted at hq ⊢
  split
  next doc hstage =>
    rw [hstage] at hq
    exact hq
  next read hstage =>
    rw [hstage] at hq
    intro token secret hop
    exact h.subset (hq token secret hop)
  next read hstage =>
    rw [hstage] at hq
    exact hq
  next hinsert hwrite htarget =>
    intro read lw hlive
    have hlw := WorkflowRequest.Vetted.live hq' hlive
    cases lw with
    | rollback target => exact hlw
    | deploy token secret =>
        obtain ⟨⟨doc, hdoc, hpasses⟩, hminted⟩ := hlw
        have hdeploying := hunderWay (by simp [WorkflowStage.deploying, hlive])
        refine ⟨h.passes hp hok hdeploying hdoc hpasses, ?_⟩
        intro t ht
        exact h.subset (hminted t ht)

/-- A step of a request keeps the store, and what is known of the request. -/
theorem RequestStep.vetted (h : RequestStep cfg i input c.shared p s' stage)
    (hs : c.shared.Vetted cfg) (hp : p.Vetted cfg c.shared)
    (hok : p.evadesGate cfg c input = false) :
    s'.Vetted cfg ∧ (p.become stage).Vetted cfg s' := by
  -- nothing is to be known of a request that is about to write nothing
  have hnone : ∀ {s : WorkflowStore} {stage : WorkflowStage}, stage.live = none →
      ∀ read lw, stage.live = some (read, lw) → lw.Vetted cfg s p.workflowId := by
    intro s stage hlive read lw hsome
    rw [hlive] at hsome
    cases hsome
  have hdone : ∀ s, (p.become .done).Vetted cfg s := fun s => hnone rfl
  cases h with
  | ends => exact ⟨hs, hdone _⟩
  | creates hop hdag =>
      refine ⟨hs, rfl, ?_⟩
      intro hdeployed
      cases hdeployed
  | copies hop hdoc =>
      have hvetted := hs.docs _ _ hdoc
      exact ⟨hs, hvetted.prod, hvetted.gate⟩
  | reads hop hdoc hadmits hdraw =>
      refine ⟨hdraw.vetted hs, ?_⟩
      intro token secret hrotate
      refine hdraw.mem ?_
      simp only [WorkflowRequest.become_op] at hrotate
      simp [hrotate, WorkflowRequest.drawn]
  | @deploys s₁ doc token secret hop hdoc hnodes hgate hdraw =>
      refine ⟨hdraw.vetted hs, ?_⟩
      intro read lw hlive
      cases hlive
      refine ⟨⟨doc, by rw [hdraw.frame.1]; exact hdoc, hgate⟩, ?_⟩
      intro t ht
      rcases mintToken_eq_some ht with hold | rfl
      · exact hdraw.subset ((hs.docs _ _ hdoc).token t hold)
      · exact hdraw.mem (by simp [hop, WorkflowRequest.drawn, ht])
  | seeks hop hdoc =>
      have hvetted := hs.docs _ _ hdoc
      exact ⟨hs, hvetted.prod⟩
  | restores hstage hop htarget hdraft hdag => exact ⟨hs, hnone rfl⟩
  | aims hop hdoc hlive => exact ⟨hs, hnone rfl⟩
  | rollsBack hstage hop htarget hlive hgate =>
      refine ⟨hs, ?_⟩
      intro read' lw hlw
      cases hlw
      rw [WorkflowRequest.Vetted, hstage] at hp
      rw [hp] at hgate
      exact hgate
  | picks hstage | keepsAll hstage | dooms hran hstage =>
      refine ⟨hs, ?_⟩
      intro read lw hlw
      cases hlw
      exact hp.live (by rw [hstage]; rfl)
  | @inserts doc hran hstage hnew =>
      refine ⟨⟨WorkflowStore.forall_docs_update hs.docs rfl ?_, hs.tokens⟩, hdone _⟩
      intro new hsome
      cases hsome
      have htoken : doc.webhookToken = none := by
        simpa [WorkflowRequest.evadesGate, hran, hstage] using hok
      rw [WorkflowRequest.Vetted, hstage] at hp
      refine ⟨hp.1, hp.2, ?_⟩
      intro token hsome
      rw [htoken] at hsome
      cases hsome
  | @commits read hran hstage =>
      refine ⟨⟨WorkflowStore.forall_docs_update hs.docs (WorkflowRequest.commit_docs read) ?_,
        hs.tokens⟩, hdone _⟩
      intro new hsome
      obtain ⟨doc, hdoc, rfl⟩ := Option.map_eq_some_iff.mp hsome
      have hvetted := hs.docs _ _ hdoc
      rw [WorkflowRequest.Vetted, hstage] at hp
      refine ⟨?_, ?_, ?_⟩
      · rw [WorkflowRequest.write_runEnvironment, hvetted.prod]
      · intro hdeployed
        have hwas := WorkflowRequest.write_deployed hdeployed
        rcases WorkflowRequest.write_graph_or hstage with hsame | hnew
        · rw [hsame]
          exact hvetted.gate hwas
        · exact WorkflowRequest.passes_of_evadesGate hok hran hdoc (.inl hwas) hnew
      · intro token htoken
        rcases WorkflowRequest.write_webhookToken htoken with hold | ⟨secret, hop⟩
        · exact hvetted.token token hold
        · exact hp token secret hop
  | @drafts target hran hstage =>
      refine ⟨⟨WorkflowStore.forall_docs_update hs.docs rfl ?_, hs.tokens⟩, hdone _⟩
      intro new hsome
      obtain ⟨doc, hdoc, rfl⟩ := Option.map_eq_some_iff.mp hsome
      have hvetted := hs.docs _ _ hdoc
      refine ⟨hvetted.prod, ?_, hvetted.token⟩
      intro hdeployed
      exact WorkflowRequest.passes_of_evadesGate (g := target.graph) hok hran hdoc (.inl hdeployed)
        (by simp [WorkflowRequest.ungatedGraph, hstage])
  | snapshots hran hstage hnew hnext | prunes hran hstage hnext =>
      refine ⟨⟨hs.docs, hs.tokens⟩, ?_⟩
      have hlive := hp.live (by rw [hstage]; rfl)
      rcases hnext with rfl | rfl
      · intro read lw hlw
        cases hlw
        exact hlive
      · exact hdone _
  | goesLive hran hstage =>
      refine ⟨⟨WorkflowStore.forall_docs_update hs.docs rfl ?_, hs.tokens⟩, hdone _⟩
      intro new hsome
      obtain ⟨doc, hdoc, rfl⟩ := Option.map_eq_some_iff.mp hsome
      exact LiveWrite.apply_vetted (hp.live (by rw [hstage]; rfl)) hdoc (hs.docs _ _ hdoc) _
  | erases hran hstage hop => exact ⟨⟨hs.docs, hs.tokens⟩, hdone _⟩

end Steps

/-! ## Runs -/

theorem workflowSystem_gate (cfg : StoreConfig) :
    (workflowSystem cfg).Invariant (KeepsGate cfg) (fun _ s => s.Vetted cfg)
      (fun s _ p => p.Vetted cfg s) where
  spawn := by
    intro c x s' p hc _ h
    cases h
    refine ⟨hc.1, ?_, hc.2⟩
    intro read lw hlive
    cases hlive
  step := by
    intro c i input p s' p' hc hok hi h
    obtain ⟨hs, hps⟩ := hc
    obtain ⟨hp', hstep⟩ := WorkflowRequest.step_sound h
    obtain ⟨hs', hnew⟩ := hstep.vetted hs (hps i p hi) (hok p hi)
    rw [← hp'] at hnew
    refine ⟨hs', hnew, ?_⟩
    intro j q _ hj
    exact hstep.frame_vetted (hps i p hi) (hok p hi) (hps j q hj) (underWay_of_proc hj)
  env := by
    intro c e s' _ _ h
    exact e.elim

/-- In a run in which no write evades the gate, what is deployed passes it and a token names one
workflow. -/
theorem WorkflowStore.Vetted.gate_held {cfg : StoreConfig} {c₀ c : StoreRun}
    (hstart : c₀.procs = []) (hvetted : c₀.shared.Vetted cfg)
    (hreach : (workflowSystem cfg).Reaches (KeepsGate cfg) c₀ c) : c.shared.Gated cfg :=
  (hreach.inv (workflowSystem_gate cfg) (.of_start hstart hvetted)).1.gated

/-- The name of the write nodes is defined, and no node is one. -/
def namedStore : StoreConfig := { bareStore with writeNodeTypes := some [] }

def hookGraph : WorkflowGraph := { nodes := [{ id := "hook", type := .webhookTrigger }] }

/-- A workflow with a webhook is created and deployed. -/
def deploysHook : List StoreMove :=
  StoreMove.begin "hook" (.create "Hook" "acme" "someone" [] hookGraph) :: StoreMove.commands 0 2 ++
    StoreMove.begin "hook" (.deploy "token-1" "secret-1") :: StoreMove.commands 1 5

/-- The deployed workflow gets a second webhook by a PUT, and a new token. -/
def editsHook : List StoreMove :=
  deploysHook ++
    StoreMove.begin "hook" (.update {
      nodes := some [{ id := "hook", type := .webhookTrigger }, { id := "end", type := .webhookTrigger }]
      edges := some [{ source := "hook", target := "end" }] }) :: StoreMove.commands 2 2 ++
    StoreMove.begin "hook" (.rotateWebhookToken "token-2" "secret-2") :: StoreMove.commands 3 2

theorem editsHook_gated : ∃ c,
    (workflowSystem namedStore).Reaches (KeepsGate namedStore) ⟨{}, []⟩ c ∧
      ((c.shared.docs "hook").any fun doc =>
        doc.deployed && decide (doc.webhookToken = some "token-2")) = true ∧
      c.shared.Gated namedStore := by
  have hplay : ((workflowSystem namedStore).play (KeepsGate namedStore) editsHook ⟨{}, []⟩).any
      (fun c => (c.shared.docs "hook").any fun doc =>
        doc.deployed && decide (doc.webhookToken = some "token-2")) = true := by
    decide +kernel
  obtain ⟨c, hreach, hlive⟩ := System.exists_reaches_of_play _ _ _ _ _ hplay
  refine ⟨c, hreach, hlive, WorkflowStore.Vetted.gate_held rfl ⟨?_, ?_⟩ hreach⟩
  · intro id doc hdoc
    cases hdoc
  · intro token id id' hmem
    cases hmem

/-- A workflow with a token, which is not deployed. -/
def tokenStore : WorkflowStore where
  docs := Function.update (fun _ => none) "hook"
    (some { workflowId := "hook", webhookToken := some "token-1" })
  tokens := [("token-1", "hook")]

theorem tokenStore_vetted : tokenStore.Vetted bareStore where
  docs := by
    refine WorkflowStore.forall_docs_update (s := {}) ?_ rfl ?_
    · intro id doc hdoc
      cases hdoc
    · intro doc hdoc
      cases hdoc
      refine ⟨rfl, ?_, ?_⟩
      · intro hdeployed
        cases hdeployed
      · intro token htoken
        cases htoken
        exact List.mem_singleton_self _
  tokens := by
    intro token id id' hid hid'
    simp only [tokenStore, List.mem_singleton, Prod.mk.injEq] at hid hid'
    rw [hid.2, hid'.2]

/-- The duplicate has the token of the original. -/
theorem duplicate_shares_token : ¬ ∀ (cfg : StoreConfig) (s : WorkflowStore), s.Vetted cfg →
    ∀ c, (workflowSystem cfg).Reaches (fun _ _ => True) ⟨s, []⟩ c → c.shared.Gated cfg := by
  intro hclaim
  have hplay : ((workflowSystem bareStore).play (fun _ _ => True)
      (StoreMove.begin "hook" (.duplicate "copy" "acme") :: StoreMove.commands 0 2)
      ⟨tokenStore, []⟩).any (fun c =>
        ((c.shared.docs "hook").bind (·.webhookToken)) = some "token-1" &&
          ((c.shared.docs "copy").bind (·.webhookToken)) = some "token-1") = true := by
    decide +kernel
  obtain ⟨c, hreach, hboth⟩ := System.exists_reaches_of_play _ _ _ _ _ hplay
  simp only [Bool.and_eq_true, decide_eq_true_eq, Option.bind_eq_some_iff] at hboth
  obtain ⟨⟨doc, hdoc, htoken⟩, doc', hdoc', htoken'⟩ := hboth
  have hsame := (hclaim bareStore tokenStore tokenStore_vetted c hreach).names "hook" "copy" doc doc'
    "token-1" hdoc hdoc' htoken htoken'
  exact absurd hsame (by decide)

end CitraFlows
