-- SUMMARY: Along a chain of calls nodes run in dependency order, none is decided again once it completed, and every loop ends in time.
import CitraFlows.Executor.Runs

/-!
# Order of execution

`execute()` and `resume()` share nothing but the record between them. That is enough to
keep the order of the nodes across a pause: what `resume()` restores as executed was
executed by the calls before (or is an orphan, which no node waits for), and what was
completed or skipped is restored.
-/

namespace CitraFlows

open Worklist

variable {seg : Segment} {env : RunEnv} {wf : WorkflowDefinition} {nid : NodeId}

/-! ## Executed nodes -/

/-- A node with this fate counts as executed: it completed, or was skipped, or failed with
`continue_on_error` set. -/
def Executed (wf : WorkflowDefinition) (nid : NodeId) (f : Fate) : Prop :=
  f.failed = true → ∃ n, wf.nodeMap nid = some n ∧ n.continueOnError = true

theorem Continues.executed {f : Fate} (h : Continues seg wf nid f) : Executed wf nid f :=
  fun hf => (h hf).2

/-- A result that `resume()` restores is that of a completed or skipped node. -/
theorem Fate.restored_iff {config : Config} {f : Fate} :
    (f.result config nid).restored = true ↔ f.failed = false := by
  unfold Fate.failed
  split <;> simp_all [Fate.result, NodeRun.result, NodeExecutionResult.restored]
  rename_i h₁ h₂
  cases f with
  | skipped => simp
  | ran ctx result =>
      cases result with
      | completed output retries errors => simp
      | failed error retries errors => exact absurd rfl (h₁ ctx error retries errors)
      | timeout => exact absurd rfl (h₂ ctx)

theorem Fate.result_failed {config : Config} {f : Fate} (h : f.failed = true) :
    (f.result config nid).status = .failed := by
  cases f with
  | skipped => simp [Fate.failed] at h
  | ran ctx result => cases result <;> simp_all [Fate.failed, Fate.result, NodeRun.result]

/-! ## What a chain keeps -/

/-- The decisions of a trace are in dependency order. -/
def InOrder (wf : WorkflowDefinition) (fs : List (NodeId × Fate)) : Prop :=
  ∀ pre nid f post, fs = pre ++ (nid, f) :: post → ∀ p ∈ wf.incoming nid,
    ∃ g, (p, g) ∈ pre ∧ Executed wf p g

/-- A completed node is not decided again. -/
def CompletedOnce (fs : List (NodeId × Fate)) : Prop :=
  ∀ pre nid ctx output retries errors post,
    fs = pre ++ (nid, .ran ctx (.completed output retries errors)) :: post →
      ∀ g, (nid, g) ∉ post

/-- The record of a paused run restores what was completed or skipped, and else nothing
that a node waits for. -/
structure Restores (wf : WorkflowDefinition) (fs : List (NodeId × Fate))
    (e : WorkflowExecution) : Prop where
  kept : ∀ nid f, (nid, f) ∈ fs → f.failed = false → nid ∈ restoredExecuted e.nodeResults
  known : ∀ nid ∈ restoredExecuted e.nodeResults,
    (∃ f, (nid, f) ∈ fs ∧ f.failed = false) ∨ ∀ m, nid ∉ wf.incoming m

private theorem append_eq_split {α : Type*} {l₁ l₂ pre post : List α} {x : α}
    (h : l₁ ++ l₂ = pre ++ x :: post) :
    (∃ post₁, l₁ = pre ++ x :: post₁ ∧ post = post₁ ++ l₂) ∨
      ∃ pre₂, l₂ = pre₂ ++ x :: post ∧ pre = l₁ ++ pre₂ := by
  rcases List.append_eq_append_iff.mp h with ⟨as, rfl, h₂⟩ | ⟨bs, rfl, h₂⟩
  · exact .inr ⟨as, h₂, rfl⟩
  · cases bs with
    | nil =>
        rw [List.nil_append] at h₂
        exact .inr ⟨[], by simp [← h₂], by simp⟩
    | cons y bs =>
        rw [List.cons_append, List.cons.injEq] at h₂
        obtain ⟨rfl, rfl⟩ := h₂
        exact .inl ⟨bs, rfl, rfl⟩

/-- A node is decided at most once in a loop. -/
theorem Final.once {s₀ s : LoopState} (h : Final seg env wf s₀ s)
    {pre post : List (NodeId × Fate)} {f : Fate}
    (hsplit : fates s.trace = pre ++ (nid, f) :: post) (g : Fate) : (nid, g) ∉ post := by
  intro hg
  obtain ⟨E, hE⟩ := h.schedule
  have hnd := hE.nodup
  rw [decisions, hsplit, List.map_append, List.map_cons, List.nodup_append, List.nodup_cons] at hnd
  exact hnd.2.1.1 (List.mem_map.mpr ⟨_, hg, rfl⟩)

/-- What a settled state restores, from what the state before the loop does. -/
theorem Settled.restored_iff {s₀ s : LoopState} (h : Settled seg env wf s₀ s) :
    nid ∈ restoredExecuted s.execution.nodeResults ↔
      (∃ f, (nid, f) ∈ fates s.trace ∧ f.failed = false) ∨
        nid ∉ decisions s.trace ∧ nid ∈ restoredExecuted s₀.execution.nodeResults := by
  by_cases hd : nid ∈ decisions s.trace
  · obtain ⟨f, hf⟩ := mem_decisions.mp hd
    have hl := (h.recorded nid f hf).result
    rw [mem_restoredExecuted, hl]
    constructor
    · rintro ⟨r, hr, hrest⟩
      cases hr
      exact .inl ⟨f, hf, Fate.restored_iff.mp hrest⟩
    · rintro (⟨g, hg, hfail⟩ | ⟨hno, -⟩)
      · have := (h.recorded nid g hg).result
        rw [hl] at this
        exact ⟨_, this, Fate.restored_iff.mpr hfail⟩
      · exact absurd hd hno
  · have hl := h.results nid hd
    simp only [mem_restoredExecuted, hl, hd, not_false_eq_true, true_and]
    constructor
    · exact .inr
    · rintro (⟨f, hf, -⟩ | hr)
      · exact absurd (mem_decisions.mpr ⟨f, hf⟩) hd
      · exact hr

/-! ## Chains -/

section
variable {triggerData : List (String × Value)} {executionId environment : String}

theorem execute_inOrder :
    InOrder wf (fates (execute env wf triggerData executionId environment).trace) := by
  rw [execute_fates]
  intro pre nid f post hsplit p hp
  rcases (executeLoop_final ..).parent hsplit hp with ⟨hE, -⟩ | ⟨g, hg, -, hc⟩
  · simp [executeStart] at hE
  · exact ⟨g, hg, hc.executed⟩

theorem execute_completedOnce :
    CompletedOnce (fates (execute env wf triggerData executionId environment).trace) := by
  rw [execute_fates]
  intro pre nid ctx output retries errors post hsplit
  exact (executeLoop_final ..).once hsplit

/-- The state a paused `execute()` has left. -/
theorem execute_paused (hE : wf.EdgesInNodes) {I : LoopAssertion}
    (hI : Invariant .execute env wf I)
    (h₀ : I [] (executeStart env wf triggerData executionId environment))
    (h : (execute env wf triggerData executionId environment).execution.status = .paused) :
    ∃ s', (execute env wf triggerData executionId environment).execution = s'.execution ∧
      fates (execute env wf triggerData executionId environment).trace = fates s'.trace ∧
      ∃ nid batch f s, I (nid :: batch) s ∧ Ready wf.incoming s.executed nid ∧
        Pauses .execute env wf nid f s s' := by
  have hl := execute_status env wf triggerData executionId environment (by rw [h]; simp)
  have hends := runRounds_rule hI wf.nodeIds.card _ h₀
  rw [← hl] at hends
  obtain ⟨s', ho, hrest⟩ := hends.of_paused (executeLoop_enough hE le_rfl) h
  refine ⟨s', ?_, ?_, hrest⟩
  · rw [execute, ho]
    exact settle_halted s'
  · rw [execute_fates, ho]
    rfl

theorem execute_restores (hE : wf.EdgesInNodes)
    (h : (execute env wf triggerData executionId environment).execution.status = .paused) :
    Restores wf (fates (execute env wf triggerData executionId environment).trace)
      (execute env wf triggerData executionId environment).execution := by
  obtain ⟨s', he, hf, nid, batch, f, s, hs, hr, hp⟩ := execute_paused hE
    (Settled.invariant executeStart_fresh) (Settled.refl executeStart_fresh) h
  have hs' := hs.pauses executeStart_fresh hr hp
  rw [he, hf]
  refine ⟨fun m g hm hg => hs'.restored_iff.mpr (.inl ⟨g, hm, hg⟩), fun m hm => ?_⟩
  rcases hs'.restored_iff.mp hm with hdec | ⟨-, hold⟩
  · exact .inl hdec
  · obtain ⟨r, hl, -⟩ := mem_restoredExecuted.mp hold
    rw [executeStart_lookup] at hl
    split at hl
    case isTrue horphan => exact .inr (orphan_not_parent horphan)
    case isFalse => cases hl

end

section
variable {e : WorkflowExecution} {status : ExecutionStatus} {c : CallResult}

/-- The loop of a `resume()` that was called with the record `e`, whatever its status. -/
theorem resume_final (hc : resume env wf { e with status := status } true = .ok c) :
    ∃ s, Final .resume env wf (resumeStart wf { e with status := status }) s ∧
      c.execution.nodeResults = s.execution.nodeResults ∧ fates c.trace = fates s.trace := by
  obtain ⟨-, rfl⟩ := resume_approved hc
  exact ⟨_, runRounds_final resumeStart_fresh _, settle_nodeResults _, settle_fates _⟩

theorem resume_paused (hE : wf.EdgesInNodes) {I : LoopAssertion}
    (hI : Invariant .resume env wf I) (h₀ : I [] (resumeStart wf { e with status := status }))
    (hc : resume env wf { e with status := status } true = .ok c)
    (h : c.execution.status = .paused) :
    ∃ s', c.execution = s'.execution ∧ fates c.trace = fates s'.trace ∧
      ∃ nid batch f s, I (nid :: batch) s ∧ Ready wf.incoming s.executed nid ∧
        Pauses .resume env wf nid f s s' := by
  obtain ⟨-, rfl⟩ := resume_approved hc
  have hends := runRounds_rule hI wf.nodeIds.card _ h₀
  obtain ⟨s', ho, hrest⟩ := hends.of_paused (fun s => resumeLoop_enough hE le_rfl s) h
  refine ⟨s', ?_, ?_, hrest⟩
  · simp only [LoopState.toResult, resumeLoop, ho]
    exact settle_halted s'
  · simp only [LoopState.toResult, settle_fates, resumeLoop, ho, LoopOutcome.state]

theorem resume_inOrder {fs : List (NodeId × Fate)} (ho : InOrder wf fs) (hr : Restores wf fs e)
    (hc : resume env wf { e with status := status } true = .ok c) :
    InOrder wf (fs ++ fates c.trace) := by
  obtain ⟨s, hfinal, -, hfates⟩ := resume_final hc
  rw [hfates]
  intro pre nid f post hsplit p hp
  rcases append_eq_split hsplit with ⟨post₁, hfs, -⟩ | ⟨pre₂, hnew, rfl⟩
  · exact ho pre nid f post₁ hfs p hp
  · rcases hfinal.parent hnew hp with ⟨hmem, -⟩ | ⟨g, hg, -, hcont⟩
    · rcases hr.known p hmem with ⟨g, hg, hfail⟩ | hno
      · exact ⟨g, List.mem_append_left _ hg, fun hf => by simp [hfail] at hf⟩
      · exact absurd hp (hno nid)
    · exact ⟨g, List.mem_append_right _ hg, hcont.executed⟩

theorem resume_completedOnce {fs : List (NodeId × Fate)} (ho : CompletedOnce fs)
    (hr : Restores wf fs e) (hc : resume env wf { e with status := status } true = .ok c) :
    CompletedOnce (fs ++ fates c.trace) := by
  obtain ⟨s, hfinal, -, hfates⟩ := resume_final hc
  rw [hfates]
  intro pre nid ctx output retries errors post hsplit g hg
  rcases append_eq_split hsplit with ⟨post₁, hfs, rfl⟩ | ⟨pre₂, hnew, -⟩
  · rcases List.mem_append.mp hg with hg | hg
    · exact ho _ _ _ _ _ _ _ hfs g hg
    · -- a completed node is restored as executed, so the loop does not decide it
      obtain ⟨E, hE⟩ := hfinal.schedule
      refine hE.not_mem_start nid (mem_decisions.mpr ⟨g, hg⟩)
        (hr.kept nid (.ran ctx (.completed output retries errors)) ?_ rfl)
      rw [hfs]
      exact List.mem_append_right _ List.mem_cons_self
  · exact hfinal.once hnew g hg

theorem resume_restores (hE : wf.EdgesInNodes) {fs : List (NodeId × Fate)}
    (hr : Restores wf fs e) (hc : resume env wf { e with status := status } true = .ok c)
    (h : c.execution.status = .paused) : Restores wf (fs ++ fates c.trace) c.execution := by
  obtain ⟨s', he, hf, nid, batch, f, s, hs, hready, hp⟩ := resume_paused hE
    (Settled.invariant resumeStart_fresh) (Settled.refl resumeStart_fresh) hc h
  have hs' := hs.pauses resumeStart_fresh hready hp
  rw [he, hf]
  constructor
  · intro m g hm hg
    rcases List.mem_append.mp hm with hm | hm
    · have hold := hr.kept m g hm hg
      exact hs'.restored_iff.mpr (.inr ⟨fun hd => hs'.schedule.not_mem_start m hd hold, hold⟩)
    · exact hs'.restored_iff.mpr (.inl ⟨g, hm, hg⟩)
  · intro m hm
    rcases hs'.restored_iff.mp hm with ⟨g, hg, hfail⟩ | ⟨-, hold⟩
    · exact .inl ⟨g, List.mem_append_right _ hg, hfail⟩
    · rcases hr.known m hold with ⟨g, hg, hfail⟩ | hno
      · exact .inl ⟨g, List.mem_append_left _ hg, hfail⟩
      · exact .inr hno

end

theorem Chain.restores (hE : wf.EdgesInNodes) {t : List Event} {pauses : List WorkflowExecution}
    {e : WorkflowExecution} (h : Chain wf t pauses e) (hp : e.status = .paused) :
    Restores wf (fates t) e := by
  induction h with
  | execute env triggerData executionId environment => exact execute_restores hE hp
  | resume h hp' env status hc ih =>
      rw [fates_append]
      exact resume_restores hE (ih hp') hc hp

theorem Chain.inOrder (hE : wf.EdgesInNodes) {t : List Event} {pauses : List WorkflowExecution}
    {e : WorkflowExecution} (h : Chain wf t pauses e) : InOrder wf (fates t) := by
  induction h with
  | execute env triggerData executionId environment => exact execute_inOrder
  | resume h hp env status hc ih =>
      rw [fates_append]
      exact resume_inOrder ih (h.restores hE hp) hc

theorem Chain.completedOnce (hE : wf.EdgesInNodes) {t : List Event}
    {pauses : List WorkflowExecution} {e : WorkflowExecution} (h : Chain wf t pauses e) :
    CompletedOnce (fates t) := by
  induction h with
  | execute env triggerData executionId environment => exact execute_completedOnce
  | resume h hp env status hc ih =>
      rw [fates_append]
      exact resume_completedOnce ih (h.restores hE hp) hc

/-- Along every chain of calls, over every graph: a completed node is never run again,
every node runs or is skipped after all its parents were executed, and each of the two
loops ends within as many rounds as there are node ids. -/
theorem Chain.once_inOrder_terminates {wf : WorkflowDefinition} (hE : wf.EdgesInNodes) :
    (∀ t pauses e, Chain wf t pauses e → CompletedOnce (fates t) ∧ InOrder wf (fates t)) ∧
    (∀ env triggerData executionId environment rounds s, wf.nodeIds.card ≤ rounds →
      executeLoop env wf triggerData executionId environment rounds ≠ .outOfRounds s) ∧
    (∀ env e rounds s, wf.nodeIds.card ≤ rounds →
      resumeLoop env wf e rounds ≠ .outOfRounds s) :=
  ⟨fun _ _ _ h => ⟨h.completedOnce hE, h.inOrder hE⟩,
    fun _ _ _ _ _ s hr => executeLoop_enough hE hr s,
    fun _ _ _ s hr => resumeLoop_enough hE hr s⟩

/-- A trigger, a question to a human, and what is done when the answer is yes. -/
def approvalFlow : WorkflowDefinition where
  workflowId := "wf"
  nodes := [{ id := "start", type := .manualTrigger }, { id := "ask", type := .humanApproval },
    { id := "act", type := .emailSender }]
  edges := [{ source := "start", target := "ask" }, { source := "ask", target := "act" }]

/-- The results of the nodes of `approvalFlow`. -/
def approvalResults (nid : NodeId) : NodeRun :=
  if nid = "ask" then
    .completed (.dict [("meta", .dict [("status", .str "waiting_approval")])]) 0 []
  else .completed (.dict [("meta", .dict [])]) 0 []

/-- The first call over `wf` when the nodes answer as in `approvalFlow`. -/
def askCall (wf : WorkflowDefinition) : CallResult := execute (.calm approvalResults) wf [] "ex" "test"

/-- The call after the approval. -/
def actCall (wf : WorkflowDefinition) : CallResult :=
  resumeAfter (.calm approvalResults) wf (askCall wf)

theorem askCall_chain (wf : WorkflowDefinition) (h : (askCall wf).execution.status = .paused) :
    Chain wf ((askCall wf).trace ++ (actCall wf).trace) [(askCall wf).execution]
      (actCall wf).execution :=
  Chain.resumeAfter (c := askCall wf) (.execute _ [] "ex" "test") h _

theorem approvalFlow_once_inOrder :
    let t := (askCall approvalFlow).trace ++ (actCall approvalFlow).trace
    decisions t = ["start", "ask", "act"] ∧ CompletedOnce (fates t) ∧
      InOrder approvalFlow (fates t) := by
  refine ⟨by decide +kernel, ?_⟩
  exact (Chain.once_inOrder_terminates (by decide)).1 _ _ _
    (askCall_chain _ (by decide +kernel))

end CitraFlows
