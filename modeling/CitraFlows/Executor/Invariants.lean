-- SUMMARY: Invariants of the scheduling loops: the order and the recorded fates of the decided nodes, the pending queue, and the number of rounds.
import CitraFlows.Executor.Steps

/-!
# Invariants of the scheduling loops

Three invariants carry what is proved about runs. `Settled` says that the decided nodes
form a schedule, that the fate of each is recorded, and that the routing which decided
it still says the same. `Pending` keeps the queue apart from what is executed, and
bounds the rounds. `Frontier`, of the library, says that no ready node is forgotten.
-/

namespace CitraFlows

open Worklist

/-! ## The decisions of a trace -/

/-- The node an event decides, and its fate. -/
def Event.fate? : Event → Option (NodeId × Fate)
  | .run ctx result => some (ctx.nodeId, .ran ctx result)
  | .skip nid => some (nid, .skipped)
  | _ => none

/-- The decided nodes with their fates, in order. -/
def fates (t : List Event) : List (NodeId × Fate) := t.filterMap Event.fate?

/-- The decided nodes, in order. -/
def decisions (t : List Event) : List NodeId := (fates t).map (·.1)

@[simp] theorem fates_nil : fates [] = [] := rfl

@[simp] theorem fates_append (t t' : List Event) : fates (t ++ t') = fates t ++ fates t' :=
  List.filterMap_append

theorem decisions_append (t t' : List Event) :
    decisions (t ++ t') = decisions t ++ decisions t' := by
  simp [decisions]

theorem mem_decisions {t : List Event} {nid : NodeId} :
    nid ∈ decisions t ↔ ∃ f, (nid, f) ∈ fates t := by
  simp [decisions]

variable {seg : Segment} {env : RunEnv} {wf : WorkflowDefinition} {nid : NodeId}

theorem Decides.fate? {s : LoopState} {f : Fate} (h : Decides seg env wf nid s f) :
    (f.event nid).fate? = some (nid, f) := by
  cases f with
  | skipped => rfl
  | ran ctx result =>
      obtain ⟨n, r, -, -, -, hid, -⟩ := h
      simp [Fate.event, Event.fate?, hid]

/-- Only nodes of the workflow are decided. -/
theorem Decides.mem_nodeIds {s : LoopState} {f : Fate} (h : Decides seg env wf nid s f) :
    nid ∈ wf.nodeIds := by
  have hn : ∃ n, wf.nodeMap nid = some n := by
    cases f with
    | skipped => obtain ⟨n, r, hn, -⟩ := h; exact ⟨n, hn⟩
    | ran ctx result => obtain ⟨n, r, hn, -⟩ := h; exact ⟨n, hn⟩
  obtain ⟨n, hn⟩ := hn
  exact WorkflowDefinition.nodeMap_isSome_iff.mp (by simp [hn])

theorem fates_saves {saves : List Event} {e : WorkflowExecution}
    (h : ∀ ev ∈ saves, ev = .save e) : fates saves = [] := by
  refine List.filterMap_eq_nil_iff.mpr fun ev hev => ?_
  rw [h ev hev]
  rfl

theorem fates_approvals {approvals : List Event}
    (h : ∀ ev ∈ approvals, ∃ request, ev = .approval request) : fates approvals = [] := by
  refine List.filterMap_eq_nil_iff.mpr fun ev hev => ?_
  obtain ⟨request, rfl⟩ := h ev hev
  rfl

theorem fates_event {s : LoopState} {f : Fate} (h : Decides seg env wf nid s f)
    (t : List Event) : fates (f.event nid :: t) = (nid, f) :: fates t := by
  simp [fates, h.fate?]

theorem Advance.fates {f : Fate} {s s' : LoopState} (h : Advance seg env wf nid f s s') :
    fates s'.trace = fates s.trace ++ [(nid, f)] := by
  obtain ⟨saves, ht, hsaves⟩ := h.trace
  rw [ht, fates_append, fates_event h.decides, fates_saves hsaves]

theorem Pauses.fates {f : Fate} {s s' : LoopState} (h : Pauses seg env wf nid f s s') :
    fates s'.trace = fates s.trace ++ [(nid, f)] := by
  obtain ⟨approvals, ht, happ⟩ := h.trace
  rw [ht, List.append_assoc, fates_append, List.cons_append, fates_event h.decides, fates_append,
    fates_approvals happ]
  simp [CitraFlows.fates, Event.fate?]

/-! ## Frames -/

/-- The two states differ at most in what is recorded of `nid`. -/
structure Touches (nid : NodeId) (s s' : LoopState) : Prop where
  results : ∀ m ≠ nid, s'.execution.nodeResults.lookup m = s.execution.nodeResults.lookup m
  outputs : ∀ m ≠ nid, s'.nodeOutputs.lookup m = s.nodeOutputs.lookup m
  softFailed : ∀ m ≠ nid, m ∈ s'.softFailed ↔ m ∈ s.softFailed
  triggerData : s'.execution.triggerData = s.execution.triggerData

theorem Touches.of_eq {s s' : LoopState}
    (hr : s'.execution.nodeResults = s.execution.nodeResults) (ho : s'.nodeOutputs = s.nodeOutputs)
    (hs : s'.softFailed = s.softFailed) (ht : s'.execution.triggerData = s.execution.triggerData) :
    Touches nid s s' :=
  ⟨fun _ _ => by rw [hr], fun _ _ => by rw [ho], fun _ _ => by rw [hs], ht⟩

theorem Stored.touches {f : Fate} {s s' : LoopState} (h : Stored env nid f s s') :
    Touches nid s s' where
  results m hm := by rw [h.results, AList.lookup_insert_ne hm]
  outputs m hm := by
    rw [h.outputs, Fate.store]
    split
    · exact AList.lookup_insert_ne hm
    · rfl
  softFailed m hm := by
    rw [h.softFailed]
    split
    · simp [hm]
    · rfl
  triggerData := h.triggerData

/-- A node whose parents are untouched is routed as before. -/
theorem Touches.route {s s' : LoopState} {m : NodeId} (h : Touches nid s s')
    (hm : nid ∉ wf.incoming m) : s'.route seg wf m = s.route seg wf m := by
  have hne : ∀ p ∈ wf.incoming m, p ≠ nid := fun p hp heq => hm (heq ▸ hp)
  unfold LoopState.route
  rw [h.triggerData]
  exact route_congr (fun p hp => h.outputs p (hne p hp)) (fun p hp => h.results p (hne p hp))
    (fun p hp => h.softFailed p (hne p hp))

theorem Touches.decides {s s' : LoopState} {m : NodeId} {f : Fate} (h : Touches nid s s')
    (hm : nid ∉ wf.incoming m) (hd : Decides seg env wf m s f) : Decides seg env wf m s' f := by
  cases f with
  | skipped =>
      obtain ⟨n, r, hn, hr, hskip⟩ := hd
      exact ⟨n, r, hn, by rw [h.route hm, hr], hskip⟩
  | ran ctx result =>
      obtain ⟨n, r, hn, hr, hrest⟩ := hd
      exact ⟨n, r, hn, by rw [h.route hm, hr], hrest⟩

/-! ## Settled states -/

/-- What the loop has recorded of a decided node. -/
structure Recorded (env : RunEnv) (s : LoopState) (nid : NodeId) (f : Fate) : Prop where
  result : s.execution.nodeResults.lookup nid = some (f.result env.config nid)
  output : s.nodeOutputs.lookup nid = f.output
  softFailed : nid ∈ s.softFailed ↔ f.failed = true

theorem Touches.recorded {s s' : LoopState} {m : NodeId} {f : Fate} (h : Touches nid s s')
    (hm : m ≠ nid) (hr : Recorded env s m f) : Recorded env s' m f where
  result := by rw [h.results m hm, hr.result]
  output := by rw [h.outputs m hm, hr.output]
  softFailed := by rw [h.softFailed m hm, hr.softFailed]

/-- A failed node lets the loop go on in `execute()` only, when it is set to
`continue_on_error`. -/
def Continues (seg : Segment) (wf : WorkflowDefinition) (nid : NodeId) (f : Fate) : Prop :=
  f.failed = true → seg = .execute ∧ ∃ n, wf.nodeMap nid = some n ∧ n.continueOnError = true

/-- A state a loop starts from: nothing is in its trace, and it holds outputs of executed
nodes only. -/
structure Fresh (s : LoopState) : Prop where
  trace : s.trace = []
  outputs : ∀ nid ∉ s.executed, s.nodeOutputs.lookup nid = none
  softFailed : s.softFailed = ∅

/-- What a loop that started in `s₀` keeps true. -/
structure Settled (seg : Segment) (env : RunEnv) (wf : WorkflowDefinition) (s₀ s : LoopState) :
    Prop where
  /-- The nodes decided so far form a schedule. -/
  schedule : Schedule wf.incoming s₀.executed (decisions s.trace) s.executed
  /-- The routing that decided a node still says the same. -/
  decides : ∀ nid f, (nid, f) ∈ fates s.trace → Decides seg env wf nid s f
  recorded : ∀ nid f, (nid, f) ∈ fates s.trace → Recorded env s nid f
  continues : ∀ nid f, (nid, f) ∈ fates s.trace → Continues seg wf nid f
  /-- Of the other nodes nothing has changed. -/
  results : ∀ nid ∉ decisions s.trace,
    s.execution.nodeResults.lookup nid = s₀.execution.nodeResults.lookup nid
  outputs : ∀ nid ∉ decisions s.trace, s.nodeOutputs.lookup nid = s₀.nodeOutputs.lookup nid
  softFailed : ∀ nid ∈ s.softFailed, nid ∈ decisions s.trace
  triggerData : s.execution.triggerData = s₀.execution.triggerData

namespace Settled

variable {s₀ s s' : LoopState}

theorem refl (h : Fresh s₀) : Settled seg env wf s₀ s₀ where
  schedule := by rw [h.trace]; exact .nil _
  decides := by simp [h.trace]
  recorded := by simp [h.trace]
  continues := by simp [h.trace]
  results _ _ := rfl
  outputs _ _ := rfl
  softFailed := by simp [h.softFailed]
  triggerData := rfl

/-- A node that is decided later is no parent of one that is decided already. -/
theorem not_parent (h : Settled seg env wf s₀ s) (hr : Ready wf.incoming s.executed nid)
    {m : NodeId} (hm : m ∈ decisions s.trace) : nid ∉ wf.incoming m := by
  intro hin
  obtain ⟨pre, post, hsplit⟩ := List.append_of_mem hm
  refine hr.1 ((h.schedule.visited nid).mpr ?_)
  rcases h.schedule.deps_before hsplit nid hin with hE | hpre
  · exact .inl hE
  · exact .inr (by rw [hsplit]; simp [hpre])

theorem ne_of_ready (h : Settled seg env wf s₀ s) (hr : Ready wf.incoming s.executed nid)
    {m : NodeId} (hm : m ∈ decisions s.trace) : m ≠ nid := by
  rintro rfl
  exact hr.1 ((h.schedule.visited m).mpr (.inr hm))

/-- What is recorded of a node the moment it is stored. -/
theorem stored_recorded (h : Settled seg env wf s₀ s) (h₀ : Fresh s₀)
    (hr : Ready wf.incoming s.executed nid) {f : Fate} (hs : Stored env nid f s s') :
    Recorded env s' nid f := by
  have hnew : nid ∉ decisions s.trace := fun hm => hr.1 ((h.schedule.visited nid).mpr (.inr hm))
  have hnone : s.nodeOutputs.lookup nid = none := by
    rw [h.outputs nid hnew]
    exact h₀.outputs nid fun hE => hr.1 (h.schedule.subset hE)
  refine ⟨by rw [hs.results, AList.lookup_insert], ?_, ?_⟩
  · rw [hs.outputs, Fate.store]
    split
    case h_1 output ho => rw [AList.lookup_insert, ho]
    case h_2 ho => rw [hnone, ho]
  · rw [hs.softFailed]
    by_cases hf : f.failed = true
    · simp [hf]
    · simp only [hf]
      exact ⟨fun hm => absurd (h.softFailed nid hm) hnew, fun hc => by simp at hc⟩

/-- Storing a decided node keeps the state settled. -/
theorem store (h : Settled seg env wf s₀ s) (h₀ : Fresh s₀)
    (hr : Ready wf.incoming s.executed nid) {f : Fate} (hs : Stored env nid f s s')
    (hd : Decides seg env wf nid s f) (hfates : fates s'.trace = fates s.trace ++ [(nid, f)])
    (hc : Continues seg wf nid f) : Settled seg env wf s₀ s' := by
  have hdec : decisions s'.trace = decisions s.trace ++ [nid] := by simp [decisions, hfates]
  have hmem : ∀ {m g}, (m, g) ∈ fates s'.trace → (m, g) ∈ fates s.trace ∨ (m = nid ∧ g = f) := by
    intro m g hm
    simpa [hfates] using hm
  have hold : ∀ {m g}, (m, g) ∈ fates s.trace → m ∈ decisions s.trace := fun hm =>
    mem_decisions.mpr ⟨_, hm⟩
  have hself : nid ∉ wf.incoming nid := fun hin => hr.1 (hr.2 nid hin)
  refine ⟨?_, ?_, ?_, ?_, ?_, ?_, ?_, ?_⟩
  · rw [hdec, hs.executed]
    exact h.schedule.snoc hr
  · intro m g hm
    rcases hmem hm with hm | ⟨rfl, rfl⟩
    · exact hs.touches.decides (h.not_parent hr (hold hm)) (h.decides m g hm)
    · exact hs.touches.decides hself hd
  · intro m g hm
    rcases hmem hm with hm | ⟨rfl, rfl⟩
    · exact hs.touches.recorded (h.ne_of_ready hr (hold hm)) (h.recorded m g hm)
    · exact h.stored_recorded h₀ hr hs
  · intro m g hm
    rcases hmem hm with hm | ⟨rfl, rfl⟩
    · exact h.continues m g hm
    · exact hc
  · intro m hm
    rw [hdec, List.mem_append, not_or, List.mem_singleton] at hm
    rw [hs.touches.results m hm.2, h.results m hm.1]
  · intro m hm
    rw [hdec, List.mem_append, not_or, List.mem_singleton] at hm
    rw [hs.touches.outputs m hm.2, h.outputs m hm.1]
  · intro m hm
    rw [hdec, List.mem_append, List.mem_singleton]
    by_cases heq : m = nid
    · exact .inr heq
    · exact .inl (h.softFailed m ((hs.touches.softFailed m heq).mp hm))
  · rw [hs.triggerData, h.triggerData]

theorem advance (h : Settled seg env wf s₀ s) (h₀ : Fresh s₀)
    (hr : Ready wf.incoming s.executed nid) {f : Fate} (ha : Advance seg env wf nid f s s') :
    Settled seg env wf s₀ s' :=
  h.store h₀ hr ha.toStored ha.decides ha.fates ha.continues

/-- A run that pauses is settled, the node that asks for the approval included. -/
theorem pauses (h : Settled seg env wf s₀ s) (h₀ : Fresh s₀)
    (hr : Ready wf.incoming s.executed nid) {f : Fate} (hp : Pauses seg env wf nid f s s') :
    Settled seg env wf s₀ s' := by
  obtain ⟨output, ho, -⟩ := hp.waiting
  have hf : f.failed = false := by
    revert ho
    unfold Fate.output
    split <;> simp [Fate.failed]
  exact h.store h₀ hr hp.toStored hp.decides hp.fates (by simp [Continues, hf])

/-- The queue is no part of what is settled. -/
theorem queue (h : Settled seg env wf s₀ s) (next : List NodeId) :
    Settled seg env wf s₀ { s with nextQueue := next } :=
  ⟨h.1, h.2, fun m f hm => ⟨(h.3 m f hm).1, (h.3 m f hm).2, (h.3 m f hm).3⟩, h.4, h.5, h.6, h.7,
    h.8⟩

end Settled

theorem Settled.invariant {s₀ : LoopState} (h₀ : Fresh s₀) :
    Invariant seg env wf fun _ s => Settled seg env wf s₀ s where
  collect _ _ _ h _ := h.queue _
  advance nid _ _ _ _ h _ hready ha := h.advance h₀ (hready nid (by simp)) ha

/-- Before it ends, a loop has no output that asks for an approval, and the status it
started with. -/
structure Unpaused (s₀ s : LoopState) : Prop where
  notWaiting : ∀ nid f output, (nid, f) ∈ fates s.trace → f.output = some output →
    waitingApproval output = .ok false
  status : s.execution.status = s₀.execution.status

theorem Unpaused.invariant {s₀ : LoopState} :
    Invariant seg env wf fun _ s => Unpaused s₀ s where
  collect _ _ _ h _ := ⟨h.notWaiting, h.status⟩
  advance nid _ f _ _ h _ _ ha := by
    refine ⟨fun m g output hm ho => ?_, by rw [ha.status, h.status]⟩
    rw [ha.fates, List.mem_append, List.mem_singleton] at hm
    rcases hm with hm | hm
    · exact h.notWaiting m g output hm ho
    · obtain ⟨rfl, rfl⟩ := Prod.mk.inj hm
      exact ha.notWaiting output ho

/-- Two invariants together are one. -/
theorem Invariant.and {I J : LoopAssertion} (hI : Invariant seg env wf I)
    (hJ : Invariant seg env wf J) : Invariant seg env wf fun batch s => I batch s ∧ J batch s where
  collect s batch next h hc := ⟨hI.collect s batch next h.1 hc, hJ.collect s batch next h.2 hc⟩
  advance nid batch f s s' h hnd hready ha :=
    ⟨hI.advance nid batch f s s' h.1 hnd hready ha, hJ.advance nid batch f s s' h.2 hnd hready ha⟩

/-! ## Where a loop ends -/

/-- What a loop that started in `s₀` leaves when it ends, however it ends. Only of the
last decided node it is not known that its result was taken over. -/
structure Final (seg : Segment) (env : RunEnv) (wf : WorkflowDefinition) (s₀ s : LoopState) :
    Prop where
  schedule : ∃ E, Schedule wf.incoming s₀.executed (decisions s.trace) E
  decides : ∀ nid f, (nid, f) ∈ fates s.trace → Decides seg env wf nid s f
  recorded : ∀ pre nid f post, fates s.trace = pre ++ (nid, f) :: post → post ≠ [] →
    Recorded env s nid f ∧ Continues seg wf nid f
  /-- A result is missing only where the execution timeout has cut the node off. -/
  result : ∀ nid f, (nid, f) ∈ fates s.trace →
    s.execution.nodeResults.lookup nid = some (f.result env.config nid) ∨
      (f ≠ .skipped ∧
        s.execution.nodeResults.lookup nid = s₀.execution.nodeResults.lookup nid)
  results : ∀ nid ∉ decisions s.trace,
    s.execution.nodeResults.lookup nid = s₀.execution.nodeResults.lookup nid
  outputs : ∀ nid ∉ decisions s.trace, s.nodeOutputs.lookup nid = s₀.nodeOutputs.lookup nid
  softFailed : ∀ nid ∈ s.softFailed, nid ∈ decisions s.trace
  triggerData : s.execution.triggerData = s₀.execution.triggerData

private theorem mem_of_split {α : Type*} {l pre post : List α} {x : α}
    (h : l = pre ++ x :: post) : x ∈ l := by
  simp [h]

theorem Settled.final {s₀ s : LoopState} (h : Settled seg env wf s₀ s) :
    Final seg env wf s₀ s where
  schedule := ⟨_, h.schedule⟩
  decides := h.decides
  recorded _ nid f _ hsplit _ :=
    ⟨h.recorded nid f (mem_of_split hsplit), h.continues nid f (mem_of_split hsplit)⟩
  result nid f hm := .inl (h.recorded nid f hm).result
  results := h.results
  outputs := h.outputs
  softFailed := h.softFailed
  triggerData := h.triggerData

namespace Final

variable {s₀ s s' : LoopState}

theorem congr (h : Final seg env wf s₀ s)
    (hr : s'.execution.nodeResults = s.execution.nodeResults) (ho : s'.nodeOutputs = s.nodeOutputs)
    (hs : s'.softFailed = s.softFailed) (ht : s'.execution.triggerData = s.execution.triggerData)
    (hf : fates s'.trace = fates s.trace) : Final seg env wf s₀ s' := by
  have hd : decisions s'.trace = decisions s.trace := by simp [decisions, hf]
  have hroute : ∀ m, s'.route seg wf m = s.route seg wf m := by
    intro m
    simp only [LoopState.route, hr, ho, hs, ht]
  refine ⟨?_, ?_, ?_, ?_, ?_, ?_, ?_, ?_⟩
  · rw [hd]
    exact h.schedule
  · intro m f hm
    rw [hf] at hm
    have := h.decides m f hm
    cases f <;> simpa only [Decides, hroute] using this
  · intro pre m f post hsplit hne
    rw [hf] at hsplit
    have hrec := h.recorded pre m f post hsplit hne
    exact ⟨⟨by rw [hr]; exact hrec.1.result, by rw [ho]; exact hrec.1.output,
      by rw [hs]; exact hrec.1.softFailed⟩, hrec.2⟩
  · intro m f hm
    rw [hf] at hm
    rw [hr]
    exact h.result m f hm
  · rw [hd, hr]
    exact h.results
  · rw [hd, ho]
    exact h.outputs
  · rw [hd, hs]
    exact h.softFailed
  · rw [ht, h.triggerData]

/-- The last node is decided, and what is recorded changes for it alone. -/
theorem last (h : Settled seg env wf s₀ s) (hr : Ready wf.incoming s.executed nid) {f : Fate}
    (hd : Decides seg env wf nid s f) (ht : Touches nid s s')
    (hf : fates s'.trace = fates s.trace ++ [(nid, f)])
    (hres : s'.execution.nodeResults.lookup nid = some (f.result env.config nid) ∨
      (f ≠ .skipped ∧
        s'.execution.nodeResults.lookup nid = s.execution.nodeResults.lookup nid)) :
    Final seg env wf s₀ s' := by
  have hdec : decisions s'.trace = decisions s.trace ++ [nid] := by simp [decisions, hf]
  have hself : nid ∉ wf.incoming nid := fun hin => hr.1 (hr.2 nid hin)
  have hnew : nid ∉ decisions s.trace := fun hm => hr.1 ((h.schedule.visited nid).mpr (.inr hm))
  refine ⟨⟨_, hdec ▸ h.schedule.snoc hr⟩, ?_, ?_, ?_, ?_, ?_, ?_, ?_⟩
  · intro m g hm
    rw [hf, List.mem_append, List.mem_singleton] at hm
    rcases hm with hm | hm
    · exact ht.decides (h.not_parent hr (mem_decisions.mpr ⟨g, hm⟩)) (h.decides m g hm)
    · obtain ⟨rfl, rfl⟩ := Prod.mk.inj hm
      exact ht.decides hself hd
  · intro pre m g post hsplit hne
    -- an entry with something after it was there before the last node
    have hm : (m, g) ∈ fates s.trace := by
      obtain ⟨post', z, rfl⟩ := (List.eq_nil_or_concat post).resolve_left hne
      rw [hf, List.concat_eq_append, ← List.cons_append, ← List.append_assoc] at hsplit
      rw [List.append_inj_left' hsplit rfl]
      simp
    exact ⟨ht.recorded (h.ne_of_ready hr (mem_decisions.mpr ⟨g, hm⟩)) (h.recorded m g hm),
      h.continues m g hm⟩
  · intro m g hm
    rw [hf, List.mem_append, List.mem_singleton] at hm
    rcases hm with hm | hm
    · left
      rw [ht.results m (h.ne_of_ready hr (mem_decisions.mpr ⟨g, hm⟩))]
      exact (h.recorded m g hm).result
    · obtain ⟨rfl, rfl⟩ := Prod.mk.inj hm
      rcases hres with hres | ⟨hne, hres⟩
      · exact .inl hres
      · exact .inr ⟨hne, by rw [hres, h.results m hnew]⟩
  · intro m hm
    rw [hdec, List.mem_append, not_or, List.mem_singleton] at hm
    rw [ht.results m hm.2, h.results m hm.1]
  · intro m hm
    rw [hdec, List.mem_append, not_or, List.mem_singleton] at hm
    rw [ht.outputs m hm.2, h.outputs m hm.1]
  · intro m hm
    rw [hdec, List.mem_append, List.mem_singleton]
    by_cases heq : m = nid
    · exact .inr heq
    · exact .inl (h.softFailed m ((ht.softFailed m heq).mp hm))
  · rw [ht.triggerData, h.triggerData]

/-- A parent of a decided node was executed before the loop, or was decided by it before
the node, and its fate is recorded. -/
theorem parent (h : Final seg env wf s₀ s) {pre post : List (NodeId × Fate)} {f : Fate}
    (hsplit : fates s.trace = pre ++ (nid, f) :: post) {p : NodeId} (hp : p ∈ wf.incoming nid) :
    (p ∈ s₀.executed ∧ p ∉ decisions s.trace) ∨
      ∃ g, (p, g) ∈ pre ∧ Recorded env s p g ∧ Continues seg wf p g := by
  obtain ⟨E, hE⟩ := h.schedule
  have hdec : decisions s.trace = pre.map (·.1) ++ nid :: post.map (·.1) := by
    simp [decisions, hsplit]
  rcases hE.deps_before hdec p hp with hmem | hmem
  · exact .inl ⟨hmem, fun hd => hE.not_mem_start p hd hmem⟩
  · obtain ⟨⟨_, g⟩, hg, rfl⟩ := List.mem_map.mp hmem
    obtain ⟨a, b, hab⟩ := List.append_of_mem hg
    refine .inr ⟨g, hg, h.recorded a _ g (b ++ (nid, f) :: post) ?_ (by simp)⟩
    rw [hsplit, hab]
    simp

end Final

/-- The state a step ends in. -/
def NodeStep.state : NodeStep → LoopState
  | .next s | .halt s | .raise _ s | .timeout s => s

theorem Stops.final {s₀ s : LoopState} {step : NodeStep} (h : Settled seg env wf s₀ s)
    (h₀ : Fresh s₀) (hr : Ready wf.incoming s.executed nid)
    (hs : Stops seg env wf nid s step) : Final seg env wf s₀ step.state := by
  cases hs with
  | cancelled hc =>
      refine h.final.congr rfl rfl rfl rfl ?_
      simp [NodeStep.state, LoopState.markCancelled, LoopState.save, LoopState.emit, fates,
        Event.fate?]
  | missing hn => exact h.final
  | badRoute hr => exact h.final.congr rfl rfl rfl rfl rfl
  | stepLimit hl => exact h.final.congr rfl rfl rfl rfl rfl
  | @expired ctx result hseg ht hd =>
      refine Final.last h hr hd (.of_eq rfl rfl rfl rfl) ?_ (.inr ⟨by simp, rfl⟩)
      obtain ⟨n, r, -, -, -, -, -, -, rfl⟩ := id hd
      simp only [NodeStep.state, LoopState.afterRun, LoopState.emit, fates_append]
      exact congrArg _ (fates_event hd [])
  | @paused f s' hp => exact (h.pauses h₀ hr hp).final
  | @badOutput f output e s' hd ho hw hst ht =>
      refine Final.last h hr hd hst.touches ?_ (.inl (h.stored_recorded h₀ hr hst).result)
      rw [NodeStep.state, ht, fates_append, fates_event hd, fates_nil]
  | @failed f n s' hd hf hn hhard hexecuted houtputs hsoft hresults htrigger hstatus ht =>
      obtain ⟨label, error, ht⟩ := ht
      refine Final.last h hr hd ⟨fun m hm => ?_, fun m _ => by rw [NodeStep.state, houtputs],
        fun m _ => by rw [NodeStep.state, hsoft], htrigger⟩ ?_ (.inl ?_)
      · rw [NodeStep.state, hresults, AList.lookup_insert_ne hm]
      · rw [NodeStep.state, ht, fates_append, fates_event hd]
        simp [fates, Event.fate?]
      · rw [NodeStep.state, hresults, AList.lookup_insert]

/-- The state a loop ends in. -/
def LoopOutcome.state : LoopOutcome → LoopState
  | .finished s | .halted s | .raised _ s | .timedOut s | .outOfRounds s => s

theorem Ends.final {s₀ : LoopState} (h₀ : Fresh s₀) {o : LoopOutcome}
    (h : Ends seg env wf (fun _ s => Settled seg env wf s₀ s) o) :
    Final seg env wf s₀ o.state := by
  cases o with
  | finished s => exact h.1.final
  | outOfRounds s => exact h.1.final
  | halted s =>
      obtain ⟨nid, batch, s, hs, hr, hstop⟩ := h
      exact hstop.final hs h₀ hr
  | raised e s =>
      obtain ⟨nid, batch, s, hs, hr, hstop⟩ := h
      exact hstop.final hs h₀ hr
  | timedOut s =>
      obtain ⟨nid, batch, s, hs, hr, hstop⟩ := h
      exact hstop.final hs h₀ hr

/-- Whatever a loop does, its end state is a `Final` one. -/
theorem runRounds_final {s₀ : LoopState} (h₀ : Fresh s₀) (rounds : Nat) :
    Final seg env wf s₀ (runRounds seg env wf rounds s₀).state :=
  Ends.final h₀ (runRounds_rule (Settled.invariant h₀) rounds s₀ (Settled.refl h₀))

/-! ## Saved records -/

/-- The loop is settled, and so was it whenever it saved the record. -/
def SavedSettled (seg : Segment) (env : RunEnv) (wf : WorkflowDefinition) (s₀ s : LoopState) :
    Prop :=
  Settled seg env wf s₀ s ∧
    ∀ e, .save e ∈ s.trace → ∃ s', Settled seg env wf s₀ s' ∧ e = s'.execution

theorem SavedSettled.refl {s₀ : LoopState} (h₀ : Fresh s₀) : SavedSettled seg env wf s₀ s₀ :=
  ⟨Settled.refl h₀, by simp [h₀.trace]⟩

private theorem event_ne_save (f : Fate) (e : WorkflowExecution) : .save e ≠ f.event nid := by
  cases f <;> simp [Fate.event]

theorem SavedSettled.invariant {s₀ : LoopState} (h₀ : Fresh s₀) :
    Invariant seg env wf fun _ s => SavedSettled seg env wf s₀ s where
  collect _ _ _ h _ := ⟨h.1.queue _, h.2⟩
  advance nid _ f s s' h _ hready ha := by
    have hs' := h.1.advance h₀ (hready nid (by simp)) ha
    refine ⟨hs', fun e he => ?_⟩
    obtain ⟨saves, ht, hsaves⟩ := ha.trace
    rw [ht] at he
    rcases List.mem_append.mp he with he | he
    · exact h.2 e he
    · rcases List.mem_cons.mp he with he | he
      · exact absurd he (event_ne_save f e)
      · have := hsaves _ he
        cases this
        exact ⟨s', hs', rfl⟩

/-- A record saved by the step that ends a loop is final, or that of a settled state. -/
theorem Stops.saved {s₀ s : LoopState} {step : NodeStep} (h : SavedSettled seg env wf s₀ s)
    (h₀ : Fresh s₀) (hr : Ready wf.incoming s.executed nid) (hs : Stops seg env wf nid s step)
    {e : WorkflowExecution} (he : .save e ∈ step.state.trace) :
    e.status.terminal = true ∨ ∃ s', Settled seg env wf s₀ s' ∧ e = s'.execution := by
  cases hs with
  | cancelled hc =>
      simp only [NodeStep.state, LoopState.markCancelled, LoopState.save, LoopState.emit,
        List.mem_append, List.mem_singleton, Event.save.injEq] at he
      rcases he with he | rfl
      · exact .inr (h.2 e he)
      · exact .inl rfl
  | missing hn => exact .inr (h.2 e he)
  | badRoute hr => exact .inr (h.2 e he)
  | stepLimit hl => exact .inr (h.2 e he)
  | @expired ctx result hseg ht hd =>
      simp only [NodeStep.state, LoopState.afterRun, LoopState.emit, List.mem_append,
        List.mem_singleton, reduceCtorEq, or_false] at he
      exact .inr (h.2 e he)
  | @paused f s' hp =>
      obtain ⟨approvals, ht, happ⟩ := hp.trace
      simp only [NodeStep.state, ht, List.mem_append, List.mem_cons, List.not_mem_nil, or_false,
        Event.save.injEq] at he
      rcases he with (he | he | he) | rfl
      · exact .inr (h.2 e he)
      · exact absurd he (event_ne_save f e)
      · obtain ⟨request, hreq⟩ := happ _ he
        cases hreq
      · exact .inr ⟨s', h.1.pauses h₀ hr hp, rfl⟩
  | @badOutput f output err s' hd ho hw hst ht =>
      simp only [NodeStep.state, ht, List.mem_append, List.mem_singleton] at he
      rcases he with he | he
      · exact .inr (h.2 e he)
      · exact absurd he (event_ne_save f e)
  | @failed f n s' hd hf hn hhard hexecuted houtputs hsoft hresults htrigger hstatus ht =>
      obtain ⟨label, error, ht⟩ := ht
      simp only [NodeStep.state, ht, List.mem_append, List.mem_cons, List.not_mem_nil, or_false,
        reduceCtorEq, Event.save.injEq] at he
      rcases he with he | he | rfl
      · exact .inr (h.2 e he)
      · exact absurd he (event_ne_save f e)
      · exact .inl (by rw [hstatus]; rfl)

theorem Ends.saved {s₀ : LoopState} (h₀ : Fresh s₀) {o : LoopOutcome}
    (h : Ends seg env wf (fun _ s => SavedSettled seg env wf s₀ s) o)
    {e : WorkflowExecution} (he : .save e ∈ o.state.trace) :
    e.status.terminal = true ∨ ∃ s', Settled seg env wf s₀ s' ∧ e = s'.execution := by
  cases o with
  | finished s => exact .inr (h.1.2 e he)
  | outOfRounds s => exact .inr (h.1.2 e he)
  | halted s =>
      obtain ⟨nid, batch, s, hs, hr, hstop⟩ := h
      exact hstop.saved hs h₀ hr he
  | raised err s =>
      obtain ⟨nid, batch, s, hs, hr, hstop⟩ := h
      exact hstop.saved hs h₀ hr he
  | timedOut s =>
      obtain ⟨nid, batch, s, hs, hr, hstop⟩ := h
      exact hstop.saved hs h₀ hr he

/-- A record saved by a loop is final, or that of a settled state. -/
theorem runRounds_saved {s₀ : LoopState} (h₀ : Fresh s₀) {rounds : Nat} {e : WorkflowExecution}
    (he : .save e ∈ (runRounds seg env wf rounds s₀).state.trace) :
    e.status.terminal = true ∨ ∃ s', Settled seg env wf s₀ s' ∧ e = s'.execution :=
  Ends.saved h₀ (runRounds_rule (SavedSettled.invariant h₀) rounds s₀ (SavedSettled.refl h₀)) he

/-! ## Pending nodes and the number of rounds -/

/-- The queue and the batch hold nodes of the workflow, the queue none that is executed,
and no node is in both. -/
structure Pending (wf : WorkflowDefinition) (batch : List NodeId) (s : LoopState) : Prop where
  batch_mem : ∀ x ∈ batch, x ∈ wf.nodeIds
  queue_mem : ∀ x ∈ s.nextQueue, x ∈ wf.nodeIds
  queue_new : ∀ x ∈ s.nextQueue, x ∉ s.executed
  apart : ∀ x ∈ batch, x ∉ s.nextQueue

theorem Pending.collect {s : LoopState} {batch next : List NodeId} (h : Pending wf [] s)
    (hc : Collected wf s.executed s.nextQueue batch next) :
    Pending wf batch { s with nextQueue := next } where
  batch_mem x hx := h.queue_mem x (hc.ready x hx).1
  queue_mem x hx := h.queue_mem x (hc.unready x hx).1
  queue_new x hx := (hc.unready x hx).2.1
  apart x hx hn := (hc.unready x hn).2.2 (hc.ready x hx).2

theorem Pending.advance (hE : wf.EdgesInNodes) {batch : List NodeId} {f : Fate}
    {s s' : LoopState} (h : Pending wf (nid :: batch) s) (hnd : (nid :: batch).Nodup)
    (hready : ∀ x ∈ nid :: batch, Ready wf.incoming s.executed x)
    (ha : Advance seg env wf nid f s s') : Pending wf batch s' where
  batch_mem x hx := h.batch_mem x (by simp [hx])
  queue_mem x hx := by
    rcases (ha.nextQueue x).mp hx with hx | ⟨hx, -⟩
    · exact h.queue_mem x hx
    · exact hE.adjacency hx
  queue_new x hx := by
    rw [ha.executed]
    rcases (ha.nextQueue x).mp hx with hx | ⟨-, hx⟩
    · intro hmem
      rcases Finset.mem_insert.mp hmem with rfl | hmem
      · exact h.apart x (by simp) hx
      · exact h.queue_new x hx hmem
    · exact hx
  apart x hx hq := by
    rcases (ha.nextQueue x).mp hq with hq | ⟨hchild, -⟩
    · exact h.apart x (by simp [hx]) hq
    · -- a child of the node waits for it, so it is in no batch with it
      have hin := WorkflowDefinition.mem_adjacency_iff_mem_incoming.mp hchild
      exact (hready nid (by simp)).1 ((hready x (by simp [hx])).2 nid hin)

theorem Pending.invariant (hE : wf.EdgesInNodes) :
    Invariant seg env wf (Pending wf) where
  collect _ _ _ h hc := h.collect hc
  advance _ _ _ _ _ h hnd hready ha := h.advance hE hnd hready ha

theorem runBatch_executed {batch : List NodeId} {s s' : LoopState}
    (h : runBatch seg env wf batch s = .next s') :
    s'.executed = s.executed ∪ batch.toFinset := by
  induction batch generalizing s with
  | nil =>
      cases h
      simp
  | cons nid batch ih =>
      unfold runBatch at h
      split at h
      case h_1 t ht =>
        obtain ⟨f, ha⟩ := processNode_next ht
        rw [ih h, ha.executed]
        ext x
        simp only [Finset.mem_union, Finset.mem_insert, List.toFinset_cons]
        tauto
      case h_2 hstop => exact absurd h (hstop s')

/-- Each round executes a node, so a loop needs no more rounds than there are nodes left. -/
theorem runRounds_enough (hE : wf.EdgesInNodes) {rounds : Nat} {s : LoopState}
    (h : Pending wf [] s) (hcard : (wf.nodeIds \ s.executed).card ≤ rounds) (s' : LoopState) :
    runRounds seg env wf rounds s ≠ .outOfRounds s' := by
  induction rounds generalizing s with
  | zero =>
      -- what is queued is a node not yet executed, and there is none left
      have hnil : s.nextQueue = [] := by
        refine List.eq_nil_iff_forall_not_mem.mpr fun x hx => ?_
        have hx' : x ∈ wf.nodeIds \ s.executed :=
          Finset.mem_sdiff.mpr ⟨h.queue_mem x hx, h.queue_new x hx⟩
        rw [Finset.card_eq_zero.mp (Nat.le_zero.mp hcard)] at hx'
        simp at hx'
      simp [runRounds, hnil]
  | succ rounds ih =>
      unfold runRounds
      split
      case isTrue => simp
      case isFalse =>
        have hc := collectBatch_collected wf s.executed s.nextQueue
        generalize collectBatch wf s.executed s.nextQueue [] [] = collected at hc
        obtain ⟨batch, next⟩ := collected
        dsimp only at hc ⊢
        split
        case isTrue => simp
        case isFalse hne =>
          split
          case h_1 t ht =>
            obtain ⟨x, hx⟩ := List.exists_mem_of_ne_nil batch (by simpa using hne)
            have hexec := runBatch_executed ht
            refine ih ?_ ?_
            · rcases runBatch_rule (Pending.invariant hE) batch { s with nextQueue := next }
                hc.nodup (fun y hy => (hc.ready y hy).2) (h.collect hc) with ⟨t', ht', h'⟩ | hstop
              · rw [ht] at ht'
                cases ht'
                exact h'
              · exact absurd ht (hstop.1 t)
            · -- a round that goes on has executed a node of its batch
              have hlt : (wf.nodeIds \ t.executed).card < (wf.nodeIds \ s.executed).card := by
                refine Finset.card_lt_card (Finset.ssubset_iff_of_subset ?_ |>.mpr ⟨x, ?_, ?_⟩)
                · rw [hexec]
                  exact Finset.sdiff_subset_sdiff subset_rfl Finset.subset_union_left
                · exact Finset.mem_sdiff.mpr
                    ⟨h.queue_mem x (hc.ready x hx).1, (hc.ready x hx).2.1⟩
                · simp [hexec, hx]
              omega
          case h_2 => simp
          case h_3 => simp
          case h_4 => simp

/-! ## Ready nodes are pending -/

/-- Every ready node is in the batch or in the queue. -/
def AllReadyPending (wf : WorkflowDefinition) (batch : List NodeId) (s : LoopState) : Prop :=
  Frontier wf.incoming wf.nodeIds s.executed (batch ++ s.nextQueue)

theorem AllReadyPending.invariant : Invariant seg env wf (AllReadyPending wf) where
  collect s batch next h hc := by
    refine Frontier.mono h fun x hx hr => ?_
    rw [List.nil_append] at hx
    rcases hc.all x hx with hE | hb | hn
    · exact absurd hE hr.1
    · exact List.mem_append_left _ hb
    · exact List.mem_append_right _ hn
  advance nid batch f s s' h _ _ ha := by
    unfold AllReadyPending
    rw [ha.executed]
    refine Frontier.visit h ?_ ?_
    · intro y hy hne
      rcases List.mem_append.mp hy with hy | hy
      · exact List.mem_append_left _ ((List.mem_cons.mp hy).resolve_left hne)
      · exact List.mem_append_right _ ((ha.nextQueue y).mpr (.inl hy))
    · intro y _ hin hnew
      exact List.mem_append_right _ ((ha.nextQueue y).mpr
        (.inr ⟨WorkflowDefinition.mem_adjacency_iff_mem_incoming.mpr hin, hnew⟩))

/-- A ready node that is neither in the batch nor in the queue. -/
def ReadyForgotten (wf : WorkflowDefinition) (x : NodeId) (batch : List NodeId) (s : LoopState) :
    Prop :=
  Stranded wf.incoming s.executed (batch ++ s.nextQueue) x

/-- A forgotten node stays forgotten: only its parents could queue it. -/
theorem ReadyForgotten.invariant {x : NodeId} :
    Invariant seg env wf (ReadyForgotten wf x) where
  collect s batch next h hc := by
    refine ⟨h.1, fun hx => h.2 ?_⟩
    rcases List.mem_append.mp hx with hb | hn
    · exact List.mem_append_right _ (hc.ready x hb).1
    · exact List.mem_append_right _ (hc.unready x hn).1
  advance nid batch f s s' h _ hready ha := by
    unfold ReadyForgotten
    rw [ha.executed]
    refine Stranded.visit h (hready nid (by simp)) ?_ ?_
    · rintro rfl
      exact h.2 (by simp)
    · intro z hz
      rcases List.mem_append.mp hz with hz | hz
      · exact .inl (by simp [hz])
      · rcases (ha.nextQueue z).mp hz with hz | ⟨hz, -⟩
        · exact .inl (by simp [hz])
        · exact .inr (WorkflowDefinition.mem_adjacency_iff_mem_incoming.mp hz)

end CitraFlows
