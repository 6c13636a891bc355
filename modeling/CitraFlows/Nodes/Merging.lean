-- SUMMARY: What a merge node puts out: when its items are those of its completed parents, in execute() and in resume().
import CitraFlows.Nodes.Logic
import CitraFlows.Executor.Order
import CitraFlows.Dag

/-!
# Merging branches

The items of a merge node pass through two places: the input gathering of the executor,
which puts a placeholder in for a parent without an output and lets a condition or switch
parent replace the whole input, and the loop of the node. `Seen` says what a node sees of
each parent, in terms of the results of the call alone; the rest is a matter of lists.
-/

namespace CitraFlows

variable {seg : Segment} {env : RunEnv} {wf : WorkflowDefinition} {nid : NodeId}

/-! ## What a node sees of its parents -/

/-- The output recorded for a completed node. -/
def completedOutput (results : NodeResults) (p : NodeId) : Option Value :=
  (results.lookup p).bind fun r => if r.status = .completed then some r.outputData else none

/-- A completed parent is seen by its output, any other one by a placeholder: the `{}` of
`node_outputs.get(pid, {})`, or the `None` that `resume()` restores for a skipped node. -/
def Seen (results : NodeResults) (outputs : NodeOutputs) (p : NodeId) : Prop :=
  match completedOutput results p with
  | some output => outputOf outputs p = output
  | none => outputOf outputs p = .dict [] ∨ outputOf outputs p = .none

/-- The results of skipped nodes hold no output. -/
def SkippedEmpty (results : NodeResults) : Prop :=
  ∀ nid r, results.lookup nid = some r → r.status = .skipped → r.outputData = .none

theorem Recorded.seen {s : LoopState} {f : Fate} (h : Recorded env s nid f) :
    Seen s.execution.nodeResults s.nodeOutputs nid := by
  have hout := h.output
  unfold Seen completedOutput outputOf
  rw [h.result, hout]
  cases f with
  | skipped => simp [Fate.result, Fate.output]
  | ran ctx result => cases result <;> simp [Fate.result, NodeRun.result, Fate.output]

theorem Final.seen {s₀ s : LoopState} (h : Final seg env wf s₀ s)
    {pre post : List (NodeId × Fate)} {f : Fate}
    (hsplit : fates s.trace = pre ++ (nid, f) :: post) {p : NodeId} (hp : p ∈ wf.incoming nid)
    (hstart : ∀ q ∈ s₀.executed, Seen s₀.execution.nodeResults s₀.nodeOutputs q) :
    Seen s.execution.nodeResults s.nodeOutputs p := by
  rcases h.parent hsplit hp with ⟨hE, hno⟩ | ⟨g, -, hrec, -⟩
  · have := hstart p hE
    unfold Seen completedOutput at this ⊢
    rwa [h.results p hno, outputOf_congr (h.outputs p hno)]
  · exact hrec.seen

/-- A parent that counts as skipped has not completed. -/
theorem Final.dead_not_completed {s₀ s : LoopState} (h : Final seg env wf s₀ s)
    {pre post : List (NodeId × Fate)} {f : Fate}
    (hsplit : fates s.trace = pre ++ (nid, f) :: post)
    (hdead : allParentsSkipped wf s.execution.nodeResults s.softFailed nid = true) {p : NodeId}
    (hp : p ∈ wf.incoming nid) : completedOutput s.execution.nodeResults p = none := by
  have := List.all_eq_true.mp hdead p hp
  rw [Bool.or_eq_true, decide_eq_true_eq] at this
  unfold completedOutput
  rcases this with hsoft | hskip
  · rcases h.parent hsplit hp with ⟨-, hno⟩ | ⟨g, -, hrec, -⟩
    · exact absurd (h.softFailed p hsoft) hno
    · have hst : (g.result env.config p).status = .failed :=
        Fate.result_failed (hrec.softFailed.mp hsoft)
      simp [hrec.result, hst]
  · cases hl : s.execution.nodeResults.lookup p with
    | none => rfl
    | some r => simp_all

theorem executeStart_skippedEmpty {triggerData : List (String × Value)}
    {executionId environment : String} :
    SkippedEmpty
      (executeStart env wf triggerData executionId environment).execution.nodeResults := by
  intro p r hl _
  rw [executeStart_lookup] at hl
  split at hl
  · cases hl
    rfl
  · cases hl

theorem Settled.skippedEmpty {s₀ s : LoopState} (h : Settled seg env wf s₀ s)
    (h₀ : SkippedEmpty s₀.execution.nodeResults) : SkippedEmpty s.execution.nodeResults := by
  intro p r hl hst
  by_cases hd : p ∈ decisions s.trace
  · obtain ⟨f, hf⟩ := mem_decisions.mp hd
    rw [(h.recorded p f hf).result, Option.some_inj] at hl
    subst hl
    cases f with
    | skipped => rfl
    | ran ctx result => cases result <;> simp [Fate.result, NodeRun.result] at hst
  · rw [h.results p hd] at hl
    exact h₀ p r hl hst

/-- A record a run is split at holds no output for a skipped node. -/
theorem SplitRecord.skippedEmpty (hE : wf.EdgesInNodes) {world : RunEnv → Prop}
    {P : CallResult → Prop} {e : WorkflowExecution} (h : SplitRecord wf world P e) :
    SkippedEmpty e.nodeResults := by
  induction h with
  | execute hw triggerData executionId environment hsave hst =>
      obtain ⟨s, hs, rfl⟩ := execute_saved hsave
        (by rcases hst with hst | hst <;> simp [hst, ExecutionStatus.terminal])
      exact hs.skippedEmpty executeStart_skippedEmpty
  | @resume e h env hw status c hc hP hst ih =>
      obtain ⟨s', he, -, nid, batch, f, s, hs, hr, hp⟩ := resume_paused hE
        (Settled.invariant resumeStart_fresh) (Settled.refl resumeStart_fresh) hc hst
      rw [he]
      exact (hs.pauses resumeStart_fresh hr hp).skippedEmpty ih

theorem resumeStart_seen {e : WorkflowExecution} (h : SkippedEmpty e.nodeResults) (p : NodeId)
    (hp : p ∈ (resumeStart wf e).executed) :
    Seen (resumeStart wf e).execution.nodeResults (resumeStart wf e).nodeOutputs p := by
  obtain ⟨r, hl, hr⟩ := mem_restoredExecuted.mp hp
  have hout : outputOf (restoredOutputs e.nodeResults) p = r.outputData := by
    simp [outputOf, restoredOutputs_lookup, hl, hr]
  simp only [Seen, completedOutput, resumeStart, hl, Option.bind_some, hout]
  by_cases hc : r.status = .completed
  · simp [hc]
  · have hskip : r.status = .skipped := by
      simpa [NodeExecutionResult.restored, hc] using hr
    simp [hskip, h p r hl hskip]

/-- In any segment of a split run: the state in which a node was decided, and what it saw. -/
theorem SplitCall.decided (hE : wf.EdgesInNodes) {world : RunEnv → Prop} {P : CallResult → Prop}
    {c : CallResult} (h : SplitCall wf world P c) {f : Fate} (hf : (nid, f) ∈ fates c.trace) :
    ∃ seg env s, world env ∧ Decides seg env wf nid s f ∧
      (∀ p ∈ wf.incoming nid, Seen c.execution.nodeResults s.nodeOutputs p) ∧
      (allParentsSkipped wf s.execution.nodeResults s.softFailed nid = true →
        ∀ p ∈ wf.incoming nid, completedOutput c.execution.nodeResults p = none) := by
  obtain ⟨pre, post, hsplit⟩ := List.append_of_mem hf
  cases h with
  | @execute env hw triggerData executionId environment =>
      rw [execute_fates] at hsplit
      have hfinal := executeLoop_final env wf triggerData executionId environment wf.nodeIds.card
      rw [execute_nodeResults]
      exact ⟨_, env, _, hw, hfinal.decides nid f (by simp [hsplit]),
        fun p hp => hfinal.seen hsplit hp (by simp [executeStart]),
        fun hd p hp => hfinal.dead_not_completed hsplit hd hp⟩
  | @resume e h env hw status c hc hP =>
      obtain ⟨s, hfinal, hres, hfates⟩ := resume_final hc
      rw [hfates] at hsplit
      rw [hres]
      exact ⟨_, env, s, hw, hfinal.decides nid f (by simp [hsplit]),
        fun p hp => hfinal.seen hsplit hp (resumeStart_seen (h.skippedEmpty hE)),
        fun hd p hp => hfinal.dead_not_completed hsplit hd hp⟩

/-! ## The input of a node -/

/-- The items of a parent, if it completed. -/
def parentItems (results : NodeResults) (p : NodeId) : List Value :=
  ((completedOutput results p).bind itemsField).getD []

/-- A completed condition or switch parent: its output replaces the input of the node. -/
def Replaces (wf : WorkflowDefinition) (results : NodeResults) (p : NodeId) : Prop :=
  ∃ output, completedOutput results p = some output ∧ gates wf p output = true

section
variable {results : NodeResults} {outputs : NodeOutputs} {p : NodeId} {pids : List NodeId}

theorem Seen.gates_iff (h : Seen results outputs p) :
    gates wf p (outputOf outputs p) = true ↔ Replaces wf results p := by
  unfold Seen at h
  unfold Replaces
  cases hc : completedOutput results p with
  | some output => simp_all
  | none =>
      rw [hc] at h
      rcases h with h | h
      · simp [h, gates_empty]
      · simp [h, gates_of_not_dict (show Value.none.asDict = none from rfl)]

theorem Seen.gateClosed_iff (h : Seen results outputs p) :
    gateClosed wf p nid (outputOf outputs p) = true ↔
      ∃ output, completedOutput results p = some output ∧ gateClosed wf p nid output = true := by
  unfold Seen at h
  cases hc : completedOutput results p with
  | some output => simp_all
  | none =>
      rw [hc] at h
      rcases h with h | h
      · simp [h, gateClosed, gates_empty]
      · simp [h, gateClosed, gates_of_not_dict (show Value.none.asDict = none from rfl)]

private theorem foldl_gateInput_none {input : Value}
    (h : ∀ p ∈ pids, gates wf p (outputOf outputs p) = false) :
    pids.foldl (fun input p => gateInput wf input p (outputOf outputs p)) input = input := by
  induction pids generalizing input with
  | nil => rfl
  | cons p pids ih =>
      rw [List.foldl_cons, gateInput, h p List.mem_cons_self]
      exact ih fun q hq => h q (List.mem_cons_of_mem _ hq)

/-- Without a condition or switch parent the gathered input stays. -/
theorem input_of_none (hseen : ∀ p ∈ pids, Seen results outputs p)
    (h : ∀ p ∈ pids, ¬ Replaces wf results p) (input : Value) :
    pids.foldl (fun input p => gateInput wf input p (outputOf outputs p)) input = input :=
  foldl_gateInput_none fun p hp => by
    rw [← Bool.not_eq_true, (hseen p hp).gates_iff]
    exact h p hp

/-- The last condition or switch parent gives the input. -/
theorem input_of_last {pre post : List NodeId} {q : NodeId}
    (hseen : ∀ p ∈ pre ++ q :: post, Seen results outputs p) (hq : Replaces wf results q)
    (hpost : ∀ p ∈ post, ¬ Replaces wf results p) (input : Value) :
    (pre ++ q :: post).foldl (fun input p => gateInput wf input p (outputOf outputs p)) input =
      outputOf outputs q := by
  rw [List.foldl_append, List.foldl_cons, gateInput, (hseen q (by simp)).gates_iff.mpr hq, if_pos rfl]
  exact input_of_none (fun p hp => hseen p (by simp [hp])) hpost _

end

/-! ## Joining items -/

private theorem length_flatMap_le {α β : Type*} {f g : α → List β} {l : List α}
    (h : ∀ a ∈ l, (g a).length ≤ (f a).length) : (l.flatMap g).length ≤ (l.flatMap f).length := by
  induction l with
  | nil => simp
  | cons a l ih =>
      have ha := h a List.mem_cons_self
      have hl := ih fun b hb => h b (List.mem_cons_of_mem _ hb)
      simp only [List.flatMap_cons, List.length_append]
      omega

private theorem flatMap_eq_iff {α β : Type*} {f g : α → List β} {Q : α → Prop} {l : List α}
    (heq : ∀ a ∈ l, Q a → f a = g a) (hlt : ∀ a ∈ l, ¬ Q a → (g a).length < (f a).length) :
    l.flatMap f = l.flatMap g ↔ ∀ a ∈ l, Q a := by
  induction l with
  | nil => simp
  | cons a l ih =>
      have hrest := ih (fun b hb => heq b (by simp [hb])) (fun b hb => hlt b (by simp [hb]))
      rw [List.flatMap_cons, List.flatMap_cons, List.forall_mem_cons]
      by_cases hQ : Q a
      · rw [heq a (by simp) hQ, List.append_cancel_left_eq]
        exact hrest.trans (by simp [hQ])
      · -- the left list is longer by what it has for `a`
        refine iff_of_false (fun h => ?_) fun h => hQ h.1
        have hlen := congrArg List.length h
        rw [List.length_append, List.length_append] at hlen
        have ha := hlt a (by simp) hQ
        have hl : (l.flatMap g).length ≤ (l.flatMap f).length := length_flatMap_le fun b hb => by
          by_cases hb' : Q b
          · rw [heq b (by simp [hb]) hb']
          · exact (hlt b (by simp [hb]) hb').le
        omega

/-- A list with an element that has a property has a last one. -/
private theorem exists_last {α : Type*} {Q : α → Prop} {l : List α} (h : ∃ a ∈ l, Q a) :
    ∃ pre a post, l = pre ++ a :: post ∧ Q a ∧ ∀ b ∈ post, ¬ Q b := by
  induction l with
  | nil => simp at h
  | cons a l ih =>
      by_cases hl : ∃ b ∈ l, Q b
      · obtain ⟨pre, b, post, rfl, hb, hpost⟩ := ih hl
        exact ⟨a :: pre, b, post, rfl, hb, hpost⟩
      · obtain ⟨b, hb, hQ⟩ := h
        rcases List.mem_cons.mp hb with rfl | hb
        · exact ⟨[], b, l, rfl, hQ, fun c hc hQc => hl ⟨c, hc, hQc⟩⟩
        · exact absurd ⟨b, hb, hQ⟩ hl

private theorem append_middle_eq {α : Type*} {a b c : List α} : b = a ++ (b ++ c) ↔ a = [] ∧ c = [] := by
  constructor
  · intro h
    have hlen := congrArg List.length h
    simp only [List.length_append] at hlen
    exact ⟨List.length_eq_zero_iff.mp (by omega), List.length_eq_zero_iff.mp (by omega)⟩
  · rintro ⟨rfl, rfl⟩
    simp

private theorem last_unique {α : Type*} {Q : α → Prop} {pre pre' post post' : List α} {a b : α}
    (h : pre ++ a :: post = pre' ++ b :: post') (ha : Q a) (hpost : ∀ c ∈ post, ¬ Q c) (hb : Q b)
    (hpost' : ∀ c ∈ post', ¬ Q c) : pre = pre' ∧ post = post' := by
  rcases List.append_eq_append_iff.mp h with ⟨as, rfl, htail⟩ | ⟨as, rfl, htail⟩
  · cases as with
    | nil => simp_all
    | cons x as =>
        rw [List.cons_append, List.cons.injEq] at htail
        exact absurd hb (hpost b (by simp [htail.2]))
  · cases as with
    | nil => simp_all
    | cons x as =>
        rw [List.cons_append, List.cons.injEq] at htail
        exact absurd ha (hpost' a (by simp [htail.2]))

/-- Every completed parent of the node has its output in the universal envelope. -/
def EnvelopedParents (wf : WorkflowDefinition) (results : NodeResults) (nid : NodeId) : Prop :=
  ∀ p ∈ wf.incoming nid, ∀ output, completedOutput results p = some output →
    (itemsField output).isSome = true

section
variable {results : NodeResults} {outputs : NodeOutputs} {p : NodeId}

/-- What the loop of the merge node adds for a parent: its items if it completed, and the
placeholder itself if it did not. -/
theorem Seen.branchItems (h : Seen results outputs p)
    (henv : ∀ output, completedOutput results p = some output → (itemsField output).isSome = true) :
    ((completedOutput results p).isSome = true →
      MergeWaitNode.branchItems (outputOf outputs p) = parentItems results p) ∧
    (¬ (completedOutput results p).isSome = true →
      (parentItems results p).length <
        (MergeWaitNode.branchItems (outputOf outputs p)).length) := by
  unfold Seen at h
  unfold parentItems
  cases hc : completedOutput results p with
  | some output =>
      rw [hc] at h
      obtain ⟨xs, hxs⟩ := Option.isSome_iff_exists.mp (henv output hc)
      simp [h, MergeWaitNode.branchItems, hxs]
  | none =>
      rw [hc] at h
      rcases h with h | h <;> simp [h, MergeWaitNode.branchItems, itemsField, Value.asDict, Value.field]

end

/-! ## The output of a merge node -/

theorem gatherInput_of_two {triggerData : List (String × Value)} {outputs : NodeOutputs}
    (h : 2 ≤ (wf.incoming nid).length) :
    gatherInput wf triggerData outputs nid =
      .list ((wf.incoming nid).map (outputOf outputs)) := by
  unfold gatherInput
  split
  case h_1 hin => simp [hin] at h
  case h_2 hin => simp [hin] at h
  case h_3 => rfl

/-- The items of a merge node whose parents are asked for no branch. -/
theorem mergeWait_items_of_none {results : NodeResults} {outputs : NodeOutputs}
    {ctx : NodeContext} {pids : List NodeId} (hseen : ∀ p ∈ pids, Seen results outputs p)
    (henv : ∀ p ∈ pids, ∀ output, completedOutput results p = some output →
      (itemsField output).isSome = true)
    (hinput : ctx.inputData = .list (pids.map (outputOf outputs))) :
    itemsField (MergeWaitNode.execute ctx) = some (pids.flatMap (parentItems results)) ↔
      ∀ p ∈ pids, (completedOutput results p).isSome = true := by
  simp only [MergeWaitNode.execute, hinput, itemsField_makeOutput, Option.some_inj,
    List.flatMap_map]
  exact flatMap_eq_iff (fun p hp => ((hseen p hp).branchItems (henv p hp)).1)
    fun p hp => ((hseen p hp).branchItems (henv p hp)).2

/-- The items of a merge node whose input is the output of one parent. -/
theorem mergeWait_items_of_last (pre post : List NodeId) {results : NodeResults}
    {ctx : NodeContext} {q : NodeId} {output : Value}
    (hq : completedOutput results q = some output) (hitems : (itemsField output).isSome = true)
    (hinput : ctx.inputData = output) :
    itemsField (MergeWaitNode.execute ctx) =
        some ((pre ++ q :: post).flatMap (parentItems results)) ↔
      ∀ p ∈ pre ++ post, parentItems results p = [] := by
  obtain ⟨xs, hxs⟩ := Option.isSome_iff_exists.mp hitems
  have hnotlist : ∀ ys, output ≠ .list ys := by
    rintro ys rfl
    cases hxs
  have hexec : MergeWaitNode.execute ctx = makeOutput xs [("branch_count", .int 1)] := by
    have hctx : ctx.items = xs := by
      unfold NodeContext.items
      rw [hinput]
      split
      case h_1 _ ys => exact absurd rfl (hnotlist ys)
      case h_2 => rw [hxs]; rfl
    unfold MergeWaitNode.execute
    rw [hctx, hinput]
    split
    case h_1 _ ys => exact absurd rfl (hnotlist ys)
    case h_2 => rfl
  have hparent : parentItems results q = xs := by simp [parentItems, hq, hxs]
  rw [hexec, itemsField_makeOutput, Option.some_inj, List.flatMap_append, List.flatMap_cons, hparent,
    append_middle_eq, List.flatMap_eq_nil_iff, List.flatMap_eq_nil_iff, List.forall_mem_append]

/-- In every segment of a split run: the items of a merge node with two or more incoming edges
are those of its completed parents, in edge order, if and only if no parent routes away, the
node makes an attempt at all, and either it has no condition or switch parent and every
parent completed, or the other parents of the last one of these have no items. -/
theorem mergeWait_concat_iff (hE : wf.EdgesInNodes) {jsonLoads : String → Except PyError Value}
    {c : CallResult} (h : SplitCall wf (·.RunsLogic jsonLoads wf) (fun _ => True) c)
    {n : NodeDefinition} (hn : wf.nodeMap nid = some n) (htype : n.type = .mergeWait) {f : Fate}
    (hf : (nid, f) ∈ fates c.trace) (hlen : 2 ≤ (wf.incoming nid).length)
    (henv : EnvelopedParents wf c.execution.nodeResults nid) :
    (∃ output, f.output = some output ∧ itemsField output =
        some ((wf.incoming nid).flatMap (parentItems c.execution.nodeResults))) ↔
      (∀ p ∈ wf.incoming nid, ∀ output, completedOutput c.execution.nodeResults p = some output →
        gateClosed wf p nid output = false) ∧
      0 ≤ BaseNode.maxRetries {} n.config ∧
      ((∀ p ∈ wf.incoming nid, ¬ Replaces wf c.execution.nodeResults p) →
        ∀ p ∈ wf.incoming nid, (completedOutput c.execution.nodeResults p).isSome = true) ∧
      ∀ pre q post, wf.incoming nid = pre ++ q :: post → Replaces wf c.execution.nodeResults q →
        (∀ p ∈ post, ¬ Replaces wf c.execution.nodeResults p) →
        ∀ p ∈ pre ++ post, parentItems c.execution.nodeResults p = [] := by
  obtain ⟨seg, env, s, hw, hd, hseen, hdead⟩ := h.decided hE hf
  generalize c.execution.nodeResults = results at *
  cases f with
  | skipped =>
      -- a skipped node has no output; one of its parents is closed, or all of them are dead
      obtain ⟨n', r, -, hr, hskip⟩ := hd
      refine iff_of_false (by simp [Fate.output]) ?_
      rintro ⟨hopen, -, hall, -⟩
      rcases (route_ok hr).1.mp hskip with ⟨p, hp, hclosed⟩ | ⟨-, -, hparents⟩
      · obtain ⟨output, ho, hclosed⟩ := (hseen p hp).gateClosed_iff.mp hclosed
        rw [hopen p hp output ho] at hclosed
        cases hclosed
      · have hnone := hdead hparents
        obtain ⟨p, hp⟩ := List.exists_mem_of_length_pos (by omega : 0 < (wf.incoming nid).length)
        have hcompleted := hall (fun q hq => by simp [Replaces, hnone q hq]) p hp
        rw [hnone p hp] at hcompleted
        cases hcompleted
  | ran ctx result =>
      obtain ⟨n', r, hn', hr, hskip, hid, hconfig, hinput, rfl⟩ := hd
      rw [hn] at hn'
      cases hn'
      have hopen : ∀ p ∈ wf.incoming nid, ∀ output, completedOutput results p = some output →
          gateClosed wf p nid output = false := by
        intro p hp output ho
        by_contra hclosed
        have := (route_ok hr).1.mpr (.inl ⟨p, hp, (hseen p hp).gateClosed_iff.mpr
          ⟨output, ho, by simpa using hclosed⟩⟩)
        rw [hskip] at this
        cases this
      -- the node was run, so no gate was closed; it gives what its `execute` gives
      have hruns : RunsAs n.config (.ok (MergeWaitNode.execute ctx)) (env.run ctx).1 := by
        have := hw ctx n (fun ctx => .ok (MergeWaitNode.execute ctx)) (by rw [hid, hn])
          (by rw [htype]; rfl)
        rwa [hconfig] at this
      by_cases hretries : 0 ≤ BaseNode.maxRetries {} n.config
      · have houtput : (Fate.ran ctx (env.run ctx).1).output =
            some (MergeWaitNode.execute ctx) := by
          rw [hruns.of_ok.1 hretries]
          rfl
        rw [(route_ok hr).2, gatherInput_of_two hlen] at hinput
        simp only [houtput, Option.some.injEq, exists_eq_left', hretries, true_and]
        refine Iff.trans ?_ (and_iff_right hopen).symm
        -- the input is the one that was gathered, or the one of the last parent that replaces it
        by_cases hno : ∀ p ∈ wf.incoming nid, ¬ Replaces wf results p
        · rw [input_of_none hseen hno] at hinput
          rw [mergeWait_items_of_none hseen henv hinput]
          refine ⟨fun hall => ⟨fun _ => hall, fun pre q post heq hq _ => ?_⟩, fun h => h.1 hno⟩
          exact absurd hq (hno q (by simp [heq]))
        · push Not at hno
          obtain ⟨pre, q, post, heq, hq, hpost⟩ := exists_last hno
          obtain ⟨output, ho, -⟩ := id hq
          have hqout : outputOf s.nodeOutputs q = output := by
            have := hseen q (by simp [heq])
            simpa [Seen, ho] using this
          rw [heq] at hseen hinput
          rw [input_of_last hseen hq hpost, hqout] at hinput
          have hitems := mergeWait_items_of_last pre post ho
            (henv q (by simp [heq]) output ho) hinput
          rw [heq, hitems]
          constructor
          · intro hempty
            refine ⟨fun hnone => absurd hq (hnone q (by simp)), fun pre' q' post' heq' hq' hpost' => ?_⟩
            obtain ⟨rfl, rfl⟩ := last_unique heq' hq hpost hq' hpost'
            exact hempty
          · rintro ⟨-, hlast⟩
            exact hlast pre q post rfl hq hpost
      · have houtput : (Fate.ran ctx (env.run ctx).1).output = none := by
          rw [hruns.of_ok.2 (by omega)]
          rfl
        simp [houtput, hretries]

/-- Two branches that join in a merge node, one of them behind the `false` edge of a
condition. -/
def mergeFlow : WorkflowDefinition where
  nodes := [{ id := "start", type := .manualTrigger }, { id := "check", type := .condition },
    { id := "left", type := .dataTransform }, { id := "right", type := .dataTransform },
    { id := "join", type := .mergeWait }]
  edges := [{ source := "start", target := "check" },
    { source := "check", target := "left", sourceHandle := some "false" },
    { source := "start", target := "right" }, { source := "left", target := "join" },
    { source := "right", target := "join" }]

/-- The run of `mergeFlow` in which the condition takes a branch and every other node puts out
one item. -/
def mergeFlowRun (branch : String) : CallResult :=
  execute (.logic (fun _ => .ok .none) mergeFlow fun nid =>
      if nid = "check" then
        makeOutput [] [("condition_result", .bool true), ("branch", .str branch)]
      else makeOutput [.str nid] []) mergeFlow [] "ex" "test"

theorem mergeFlowRun_splitCall (branch : String) :
    SplitCall mergeFlow (·.RunsLogic (fun _ => .ok .none) mergeFlow) (fun _ => True)
      (mergeFlowRun branch) :=
  .execute (RunEnv.logic_runsLogic _ _ _) _ _ _

private theorem of_all {α : Type*} {o : Option α} {P : α → Bool} (h : o.all P = true) (a : α)
    (ha : o = some a) : P a = true := by
  simpa [ha] using h

/-- The parents of the merge node put out envelopes, whatever the condition takes. -/
theorem mergeFlow_enveloped {branch : String}
    (h : ∀ p ∈ mergeFlow.incoming "join",
      (completedOutput (mergeFlowRun branch).execution.nodeResults p).all
        (fun output => (itemsField output).isSome) = true) :
    EnvelopedParents mergeFlow (mergeFlowRun branch).execution.nodeResults "join" :=
  fun p hp output ho => of_all (h p hp) output ho

theorem mergeFlow_concat : ∃ f output, ("join", f) ∈ fates (mergeFlowRun "false").trace ∧
    f.output = some output ∧ itemsField output = some ((mergeFlow.incoming "join").flatMap
      (parentItems (mergeFlowRun "false").execution.nodeResults)) := by
  obtain ⟨f, hf⟩ := mem_decisions.mp
    (by decide +kernel : "join" ∈ decisions (mergeFlowRun "false").trace)
  have hgates : ∀ p ∈ mergeFlow.incoming "join",
      (completedOutput (mergeFlowRun "false").execution.nodeResults p).all
        (fun output => !gates mergeFlow p output) = true := by decide +kernel
  have hno : ∀ p ∈ mergeFlow.incoming "join",
      ¬ Replaces mergeFlow (mergeFlowRun "false").execution.nodeResults p := by
    rintro p hp ⟨output, ho, hg⟩
    have := of_all (hgates p hp) output ho
    simp [hg] at this
  obtain ⟨output, ho, hitems⟩ := (mergeWait_concat_iff (by decide) (mergeFlowRun_splitCall "false")
    (n := mergeFlow.nodes[4]) (by rfl) (by rfl) hf (by decide)
    (mergeFlow_enveloped (by decide +kernel))).mpr
      ⟨fun p hp output ho => by simp [gateClosed, by simpa using of_all (hgates p hp) output ho],
        by decide, fun _ => by decide +kernel, fun pre q post heq hq _ => absurd hq (hno q (by simp [heq]))⟩
  exact ⟨f, output, hf, ho, hitems⟩

/-- A merge node with a skipped parent puts out one item that no parent has put out. -/
theorem mergeFlow_invents_item :
    ¬ ∀ jsonLoads wf c nid n f, validateDag wf = [] →
      SplitCall wf (·.RunsLogic jsonLoads wf) (fun _ => True) c → wf.nodeMap nid = some n →
      n.type = .mergeWait → (nid, f) ∈ fates c.trace → (wf.incoming nid).Nodup →
      2 ≤ (wf.incoming nid).length →
      EnvelopedParents wf c.execution.nodeResults nid →
      (∃ p ∈ wf.incoming nid, (completedOutput c.execution.nodeResults p).isSome = true) →
      ∃ output, f.output = some output ∧ itemsField output =
        some ((wf.incoming nid).flatMap (parentItems c.execution.nodeResults)) := by
  intro h
  obtain ⟨f, hf⟩ := mem_decisions.mp
    (by decide +kernel : "join" ∈ decisions (mergeFlowRun "true").trace)
  obtain ⟨output, ho, hitems⟩ := h _ mergeFlow (mergeFlowRun "true") "join" mergeFlow.nodes[4] f
    (by decide +kernel) (mergeFlowRun_splitCall "true") (by rfl) (by rfl) hf (by decide)
    (by decide) (mergeFlow_enveloped (by decide +kernel)) (by decide +kernel)
  have htwo : (fates (mergeFlowRun "true").trace).all (fun p => p.1 ≠ "join" ||
      ((p.2.output.bind itemsField).map List.length) == some 2) = true := by decide +kernel
  have hone : ((mergeFlow.incoming "join").flatMap
      (parentItems (mergeFlowRun "true").execution.nodeResults)).length = 1 := by decide +kernel
  have := List.all_eq_true.mp htwo _ hf
  simp [ho, hitems, hone] at this

end CitraFlows
