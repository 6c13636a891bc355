-- SUMMARY: The validation of workflow graphs by Kahn's algorithm, and that it accepts exactly the connected acyclic ones.
import CitraFlows.Executor.Loop
import CitraFlows.Lib.Worklist

/-!
# Validation of workflow graphs

`_validate_dag` of `router.py` checks a graph before it is saved, deployed or run. Its
loop is Kahn's algorithm: it counts how many nodes it can visit in dependency order. The
visited nodes form a schedule of the worklist library, which gives both directions: a
graph all of whose nodes are visited is acyclic, and in an acyclic graph the frontier of
the loop leaves no node out.
-/

namespace CitraFlows

open Worklist

/-! ## Kahn's algorithm -/

structure KahnState where
  inDegree : NodeId → Int
  queue : List NodeId
  visited : Nat

/-- `in_degree[child] -= 1`, and `queue.append(child)` when that is zero. -/
def KahnState.relax (st : KahnState) (child : NodeId) : KahnState :=
  let d := st.inDegree child - 1
  { st with
    inDegree := Function.update st.inDegree child d
    queue := if d = 0 then st.queue ++ [child] else st.queue }

variable (wf : WorkflowDefinition)

/-- `in_degree` counts the edges that enter a node. The order in which the set of node ids
yields the roots is not the program's; here it is the order of the nodes. -/
def kahnStart : KahnState where
  inDegree nid := (wf.incoming nid).length
  queue := wf.nodeKeys.filter fun nid => (wf.incoming nid).length = 0
  visited := 0

/-- `while queue:`. Each turn visits a node. -/
def kahnLoop : Nat → KahnState → KahnState
  | 0, st => st
  | turns + 1, st =>
      match st.queue with
      | [] => st
      | n :: queue =>
          kahnLoop turns ((wf.adjacency n).foldl KahnState.relax
            { st with queue := queue, visited := st.visited + 1 })

/-- A bound on the nodes the loop can visit: node ids, and edge targets that are none. -/
def kahnTurns : Nat := wf.nodes.length + wf.edges.length

/-! ## The validator -/

inductive DagError where
  | unknownSource (nid : NodeId)
  | unknownTarget (nid : NodeId)
  | cycle
  | orphans (nids : List NodeId)
  deriving DecidableEq

/-- The text of an error. -/
def DagError.message : DagError → String
  | .unknownSource nid => "Edge references unknown source node: " ++ nid
  | .unknownTarget nid => "Edge references unknown target node: " ++ nid
  | .cycle => "Workflow contains a cycle — nodes must form a DAG"
  | .orphans nids => "Orphan nodes not connected to any edge: \x7b" ++
      ", ".intercalate (nids.map fun nid => "'" ++ nid ++ "'") ++ "\x7d"

/-- The errors of one edge. -/
def edgeErrors (e : EdgeDefinition) : List DagError :=
  (if e.source ∈ wf.nodeIds then [] else [.unknownSource e.source]) ++
    (if e.target ∈ wf.nodeIds then [] else [.unknownTarget e.target])

/-- The nodes that are neither the source nor the target of an edge. -/
def unconnected : List NodeId :=
  wf.nodeKeys.filter fun nid => wf.edges.all fun e => e.source ≠ nid ∧ e.target ≠ nid

/-- `_validate_dag` -/
def validateDag : List DagError :=
  if wf.nodes.isEmpty then []
  else
    wf.edges.flatMap (edgeErrors wf) ++
    (if (kahnLoop wf (kahnTurns wf) (kahnStart wf)).visited < wf.nodeIds.card then [.cycle]
      else []) ++
    (if 1 < wf.nodeIds.card ∧ unconnected wf ≠ [] then [.orphans (unconnected wf)] else [])

/-! ## One visit -/

namespace KahnState

/-- Relaxing the children lowers each in-degree by the number of edges to it. -/
theorem foldl_relax_inDegree (st : KahnState) (cs : List NodeId) (x : NodeId) :
    (cs.foldl relax st).inDegree x = st.inDegree x - cs.count x := by
  induction cs generalizing st with
  | nil => simp
  | cons c cs ih =>
      rw [List.foldl_cons, ih, List.count_cons]
      by_cases h : x = c
      · subst h
        simp [relax]
        omega
      · have hc : (c == x) = false := by simpa using Ne.symm h
        simp [relax, h, hc]

theorem foldl_relax_visited (st : KahnState) (cs : List NodeId) :
    (cs.foldl relax st).visited = st.visited := by
  induction cs generalizing st with
  | nil => rfl
  | cons c cs ih => rw [List.foldl_cons, ih]; rfl

/-- A child is queued, once, when the last edge to it is relaxed. -/
theorem foldl_relax_queue (st : KahnState) (cs : List NodeId)
    (hcount : ∀ x ∈ cs, (cs.count x : Int) ≤ st.inDegree x) (hnd : st.queue.Nodup)
    (hnew : ∀ x ∈ st.queue, x ∉ cs) :
    (cs.foldl relax st).queue.Nodup ∧
      ∀ x, x ∈ (cs.foldl relax st).queue ↔
        x ∈ st.queue ∨ (x ∈ cs ∧ st.inDegree x = cs.count x) := by
  induction cs generalizing st with
  | nil => simpa using hnd
  | cons c cs ih =>
      have hc := hcount c (by simp)
      rw [List.count_cons_self] at hc
      -- one child: its degree goes down, and it is queued when that was the last edge
      have hqueue : (st.relax c).queue =
          if st.inDegree c = 1 then st.queue ++ [c] else st.queue := by
        by_cases h : st.inDegree c = 1
        · simp [relax, h]
        · have h' : st.inDegree c - 1 ≠ 0 := by omega
          simp [relax, h, h']
      have hdegree : ∀ x, (st.relax c).inDegree x =
          if x = c then st.inDegree x - 1 else st.inDegree x := by
        intro x
        by_cases h : x = c <;> simp [relax, h]
      have hcount' : ∀ x ∈ cs, (cs.count x : Int) ≤ (st.relax c).inDegree x := by
        intro x hx
        have := hcount x (by simp [hx])
        rw [List.count_cons] at this
        rw [hdegree]
        by_cases h : x = c
        · subst h
          simp at this ⊢
          omega
        · rw [if_neg h]
          push_cast at this
          split at this <;> omega
      have hmem : ∀ x, x ∈ (st.relax c).queue ↔ x ∈ st.queue ∨ (x = c ∧ st.inDegree c = 1) := by
        intro x
        rw [hqueue]
        split <;> simp_all
      -- a child that was queued now has no edge left in the rest
      have hnew' : ∀ x ∈ (st.relax c).queue, x ∉ cs := by
        intro x hx hcs
        rcases (hmem x).mp hx with hx | ⟨rfl, hone⟩
        · exact hnew x hx (by simp [hcs])
        · have : 0 < cs.count x := List.count_pos_iff.mpr hcs
          push_cast at hc
          omega
      have hnd' : (st.relax c).queue.Nodup := by
        rw [hqueue]
        split
        · refine hnd.append (List.nodup_singleton c) fun x hx hxc => ?_
          rw [List.mem_singleton] at hxc
          exact hnew x hx (by simp [hxc])
        · exact hnd
      obtain ⟨hres, hiff⟩ := ih (st.relax c) hcount' hnd' hnew'
      refine ⟨hres, fun x => ?_⟩
      rw [List.foldl_cons, hiff, hmem, hdegree, List.count_cons, List.mem_cons]
      -- the child itself has been counted once more; the others are as before
      by_cases h : x = c
      · subst h
        have hself : (x == x) = true := by simp
        rw [hself, if_pos rfl, if_pos rfl]
        by_cases hcs : x ∈ cs
        · have : 0 < cs.count x := List.count_pos_iff.mpr hcs
          simp only [hcs, true_and, true_or]
          rw [or_assoc]
          refine or_congr_right ⟨fun h => ?_, fun h => .inr ?_⟩ <;> omega
        · have hzero : cs.count x = 0 := List.count_eq_zero.mpr hcs
          simp only [hcs, false_and, or_false, true_and, hzero]
          refine or_congr_right ⟨fun h => ?_, fun h => ?_⟩ <;> omega
      · have hb : (c == x) = false := by simpa using Ne.symm h
        simp [h, hb]

end KahnState

/-! ## The loop -/

variable {wf}

theorem count_adjacency (n x : NodeId) :
    (wf.adjacency n).count x = (wf.incoming x).count n := by
  simp only [WorkflowDefinition.adjacency, WorkflowDefinition.incoming, List.count_eq_countP,
    List.countP_map, List.countP_filter]
  refine List.countP_congr fun e _ => ?_
  simp [and_comm]

/-- What Kahn's loop keeps, for the list `V` of the nodes visited so far. -/
structure KahnInv (wf : WorkflowDefinition) (V : List NodeId) (st : KahnState) : Prop where
  visited : st.visited = V.length
  degree : ∀ x, st.inDegree x = ((wf.incoming x).filter (· ∉ V)).length
  schedule : Schedule wf.incoming ∅ V V.toFinset
  nodup : st.queue.Nodup
  ready : ∀ x ∈ st.queue, Ready wf.incoming V.toFinset x
  known : ∀ x, x ∈ V ∨ x ∈ st.queue → x ∈ wf.nodes.map (·.id) ∨ x ∈ wf.edges.map (·.target)
  frontier : Frontier wf.incoming wf.nodeIds V.toFinset st.queue

theorem kahnStart_inv : KahnInv wf [] (kahnStart wf) where
  visited := rfl
  degree x := by simp [kahnStart]
  schedule := .nil ∅
  nodup := wf.nodup_nodeKeys.filter _
  ready x hx := by
    simp only [kahnStart, List.mem_filter, decide_eq_true_eq, List.length_eq_zero_iff] at hx
    exact ⟨by simp, by simp [hx.2]⟩
  known x hx := by
    left
    simpa [kahnStart, WorkflowDefinition.nodeKeys] using
      (List.mem_filter.mp (hx.resolve_left (by simp))).1
  frontier x hx hr := by
    simp only [kahnStart, List.mem_filter, WorkflowDefinition.mem_nodeKeys, hx, true_and,
      decide_eq_true_eq, List.length_eq_zero_iff]
    exact List.eq_nil_iff_forall_not_mem.mpr fun p hp => by simpa using hr.2 p hp

private theorem filter_not_mem_snoc (l V : List NodeId) (n : NodeId) (hn : n ∉ V) :
    ((l.filter (· ∉ V)).length : Int) - l.count n = (l.filter (· ∉ V ++ [n])).length := by
  induction l with
  | nil => simp
  | cons x l ih =>
      by_cases hx : x = n
      · subst hx
        simp [hn] at ih ⊢
        omega
      · by_cases hV : x ∈ V <;> simp [hx, hV] at ih ⊢ <;> omega

/-- One turn of the loop: the head of the queue is visited. -/
theorem KahnInv.visit {V : List NodeId} {st : KahnState} {n : NodeId} {queue : List NodeId}
    (h : KahnInv wf V st) (hq : st.queue = n :: queue) :
    KahnInv wf (V ++ [n]) ((wf.adjacency n).foldl KahnState.relax
      { st with queue := queue, visited := st.visited + 1 }) := by
  have hn := h.ready n (by simp [hq])
  have hnV : n ∉ V := by simpa using hn.1
  have hnd := h.nodup
  rw [hq, List.nodup_cons] at hnd
  have hset : (V ++ [n]).toFinset = insert n V.toFinset := by
    ext x
    simp
  have hdegree : ∀ x, ((wf.adjacency n).count x : Int) ≤ st.inDegree x := by
    intro x
    have := filter_not_mem_snoc (wf.incoming x) V n hnV
    rw [count_adjacency, h.degree]
    omega
  have hnew : ∀ x ∈ queue, x ∉ wf.adjacency n := by
    intro x hx hadj
    have hin := WorkflowDefinition.mem_adjacency_iff_mem_incoming.mp hadj
    exact hn.1 ((h.ready x (by simp [hq, hx])).2 n hin)
  obtain ⟨hnd', hmem⟩ := KahnState.foldl_relax_queue
    { st with queue := queue, visited := st.visited + 1 } (wf.adjacency n)
    (fun x _ => hdegree x) hnd.2 hnew
  -- the in-degree of a child has come down to zero when its last parent is visited
  have hzero : ∀ x, st.inDegree x = (wf.adjacency n).count x ↔
      (wf.incoming x).filter (· ∉ V ++ [n]) = [] := by
    intro x
    have := filter_not_mem_snoc (wf.incoming x) V n hnV
    rw [count_adjacency, h.degree, ← List.length_eq_zero_iff]
    omega
  have hdone : ∀ x, (wf.incoming x).filter (· ∉ V ++ [n]) = [] ↔
      ∀ p ∈ wf.incoming x, p ∈ (V ++ [n]).toFinset := by
    intro x
    simp only [List.filter_eq_nil_iff, List.mem_toFinset, decide_eq_true_eq, not_not]
  have hchild : ∀ x, x ∈ wf.adjacency n → st.inDegree x = (wf.adjacency n).count x →
      Ready wf.incoming (V ++ [n]).toFinset x := by
    intro x hx hcount
    refine ⟨fun hV => ?_, (hdone x).mp ((hzero x).mp hcount)⟩
    have hin := WorkflowDefinition.mem_adjacency_iff_mem_incoming.mp hx
    rw [hset] at hV
    -- a child that was visited before its parent contradicts the schedule
    rcases Finset.mem_insert.mp hV with rfl | hV
    · exact hn.1 (hn.2 _ hin)
    · obtain ⟨pre, post, hsplit⟩ := List.append_of_mem (List.mem_toFinset.mp hV)
      rcases h.schedule.deps_before hsplit n hin with hE | hpre
      · simp at hE
      · exact hnV (by simp [hsplit, hpre])
  refine ⟨?_, ?_, ?_, hnd', ?_, ?_, ?_⟩
  · rw [KahnState.foldl_relax_visited]
    simp [h.visited]
  · intro x
    rw [KahnState.foldl_relax_inDegree, ← filter_not_mem_snoc _ _ _ hnV, ← h.degree,
      count_adjacency]
  · rw [hset]
    exact h.schedule.snoc hn
  · intro x hx
    rcases (hmem x).mp hx with hx | ⟨hadj, hcount⟩
    · have hr := h.ready x (by simp [hq, hx])
      rw [hset]
      refine ⟨?_, fun d hd => Finset.mem_insert_of_mem (hr.2 d hd)⟩
      have hne : x ≠ n := fun heq => hnd.1 (heq ▸ hx)
      simp [hne, hr.1]
    · exact hchild x hadj hcount
  · intro x hx
    rcases hx with hx | hx
    · rcases List.mem_append.mp hx with hx | hx
      · exact h.known x (.inl hx)
      · rw [List.mem_singleton] at hx
        exact h.known x (.inr (by simp [hq, hx]))
    · rcases (hmem x).mp hx with hx | ⟨hadj, -⟩
      · exact h.known x (.inr (by simp [hq, hx]))
      · obtain ⟨e, he, -, rfl⟩ := WorkflowDefinition.mem_adjacency.mp hadj
        exact .inr (List.mem_map_of_mem he)
  · intro y hy hr
    by_cases hin : n ∈ wf.incoming y
    · have hadj := WorkflowDefinition.mem_adjacency_iff_mem_incoming.mpr hin
      exact (hmem y).mpr (.inr ⟨hadj, (hzero y).mpr ((hdone y).mpr hr.2)⟩)
    · rw [hset] at hr
      have hold : Ready wf.incoming V.toFinset y := by
        refine ⟨fun hV => hr.1 (Finset.mem_insert_of_mem hV), fun d hd => ?_⟩
        refine (Finset.mem_insert.mp (hr.2 d hd)).resolve_left ?_
        rintro rfl
        exact hin hd
      have hyq := h.frontier y hy hold
      rw [hq] at hyq
      rcases List.mem_cons.mp hyq with rfl | hyq
      · exact absurd (Finset.mem_insert_self _ _) hr.1
      · exact (hmem y).mpr (.inl hyq)

/-- With a turn for each node it can visit, the loop empties its queue. -/
theorem kahnLoop_inv (turns : Nat) {V : List NodeId} {st : KahnState} (h : KahnInv wf V st)
    (hturns : kahnTurns wf ≤ V.length + turns) :
    ∃ V', KahnInv wf V' (kahnLoop wf turns st) ∧ (kahnLoop wf turns st).queue = [] := by
  induction turns generalizing V st with
  | zero =>
      refine ⟨V, h, ?_⟩
      -- the visited and the queued nodes are distinct, so there is no room for a queued one
      have hnd : (V ++ st.queue).Nodup := by
        refine h.schedule.nodup.append h.nodup fun x hV hq => ?_
        exact (h.ready x hq).1 (List.mem_toFinset.mpr hV)
      have hsub : V ++ st.queue ⊆ wf.nodes.map (·.id) ++ wf.edges.map (·.target) := fun x hx =>
        List.mem_append.mpr (h.known x (List.mem_append.mp hx))
      have hlen := (List.subperm_of_subset hnd hsub).length_le
      simp only [List.length_append, List.length_map] at hlen
      unfold kahnTurns at hturns
      exact List.length_eq_zero_iff.mp (by simp only [kahnLoop]; omega)
  | succ turns ih =>
      unfold kahnLoop
      split
      case h_1 hq => exact ⟨V, h, hq⟩
      case h_2 n queue hq =>
        exact ih (h.visit hq) (by simp only [List.length_append, List.length_singleton]; omega)

/-! ## What the validator accepts -/

/-- The graph the executor expects: edges join nodes, no node is its own ancestor, and
in a graph of several nodes none stands alone. -/
structure IsDag (wf : WorkflowDefinition) : Prop where
  edges : wf.EdgesInNodes
  acyclic : WellFounded fun p nid => p ∈ wf.incoming nid
  connected : 1 < wf.nodeIds.card → ∀ nid ∈ wf.nodeIds, ∃ e ∈ wf.edges,
    e.source = nid ∨ e.target = nid

/-- Kahn's loop visits every node exactly when the graph is acyclic. -/
theorem kahnLoop_visited_iff (hE : wf.EdgesInNodes) :
    wf.nodeIds.card ≤ (kahnLoop wf (kahnTurns wf) (kahnStart wf)).visited ↔
      WellFounded fun p nid => p ∈ wf.incoming nid := by
  have hstart : KahnInv wf [] (kahnStart wf) := kahnStart_inv
  obtain ⟨V, h, hq⟩ := kahnLoop_inv (kahnTurns wf) hstart (by simp)
  have hVU : V.toFinset ⊆ wf.nodeIds := by
    intro x hx
    rcases h.known x (.inl (List.mem_toFinset.mp hx)) with hx | hx
    · exact List.mem_toFinset.mpr hx
    · obtain ⟨e, he, rfl⟩ := List.mem_map.mp hx
      exact (hE e he).2
  have hcard : (kahnLoop wf (kahnTurns wf) (kahnStart wf)).visited = V.toFinset.card := by
    rw [h.visited, List.toFinset_card_of_nodup h.schedule.nodup]
  rw [hcard]
  constructor
  · intro hle
    have hV := Finset.eq_of_subset_of_card_le hVU hle
    refine h.schedule.wellFounded (by simp) fun x hx => ?_
    rw [hV] at hx
    refine List.eq_nil_iff_forall_not_mem.mpr fun p hp => hx ?_
    obtain ⟨e, he, rfl, -⟩ := WorkflowDefinition.mem_incoming.mp hp
    exact (hE e he).2
  · intro hwf
    refine Finset.card_le_card (h.frontier.covers hwf (fun x _ d hd => hE.incoming hd) ?_)
    simp [hq]

private theorem edgeErrors_eq_nil_iff :
    wf.edges.flatMap (edgeErrors wf) = [] ↔ wf.EdgesInNodes := by
  rw [List.flatMap_eq_nil_iff]
  refine forall₂_congr fun e _ => ?_
  by_cases hs : e.source ∈ wf.nodeIds <;> by_cases ht : e.target ∈ wf.nodeIds <;>
    simp [edgeErrors, hs, ht]

private theorem unconnected_eq_nil_iff :
    unconnected wf = [] ↔ ∀ nid ∈ wf.nodeIds, ∃ e ∈ wf.edges, e.source = nid ∨ e.target = nid := by
  simp only [unconnected, List.filter_eq_nil_iff, WorkflowDefinition.mem_nodeKeys]
  refine forall₂_congr fun nid _ => ?_
  simp [List.all_eq_true, not_forall]
  simp only [or_iff_not_imp_left]

/-- The validator accepts a graph with nodes exactly when it is a connected DAG. -/
theorem validateDag_eq_nil_iff (hne : wf.nodes ≠ []) : validateDag wf = [] ↔ IsDag wf := by
  have hempty : wf.nodes.isEmpty = false := by simpa using hne
  unfold validateDag
  rw [hempty]
  simp only [Bool.false_eq_true, if_false, List.append_eq_nil_iff, edgeErrors_eq_nil_iff]
  constructor
  · rintro ⟨⟨hE, hcycle⟩, horphans⟩
    refine ⟨hE, (kahnLoop_visited_iff hE).mp ?_, fun hcard => ?_⟩
    · by_contra hlt
      rw [if_pos (by omega)] at hcycle
      simp at hcycle
    · refine unconnected_eq_nil_iff.mp ?_
      by_contra hne'
      rw [if_pos ⟨hcard, hne'⟩] at horphans
      simp at horphans
  · rintro ⟨hE, hwf, hconn⟩
    refine ⟨⟨hE, if_neg ?_⟩, if_neg ?_⟩
    · have := (kahnLoop_visited_iff hE).mpr hwf
      omega
    · rintro ⟨hcard, hne'⟩
      exact hne' (unconnected_eq_nil_iff.mpr (hconn hcard))

/-- In a graph with an edge no node stands alone. -/
theorem IsDag.exists_edge (h : IsDag wf) (he : wf.edges ≠ []) {nid : NodeId}
    (hid : nid ∈ wf.nodeIds) : ∃ e ∈ wf.edges, e.source = nid ∨ e.target = nid := by
  obtain ⟨e, he⟩ := List.exists_mem_of_ne_nil _ he
  have hne : e.source ≠ e.target := by
    intro heq
    have hin : e.source ∈ wf.incoming e.source :=
      WorkflowDefinition.mem_incoming.mpr ⟨e, he, heq.symm, rfl⟩
    exact h.acyclic.irrefl.irrefl _ hin
  have hcard : 1 < wf.nodeIds.card :=
    Finset.one_lt_card.mpr ⟨e.source, (h.edges e he).1, e.target, (h.edges e he).2, hne⟩
  exact h.connected hcard nid hid

/-- In a graph with an edge the orphan guard of the executor finds nothing. -/
theorem IsDag.orphanedNodes_eq_nil (h : IsDag wf) (he : wf.edges ≠ []) :
    orphanedNodes wf = [] := by
  rw [orphanedNodes, List.filter_eq_nil_iff]
  intro nid hroot horphan
  have hid : nid ∈ wf.nodeIds := by
    simpa [rootNodes, WorkflowDefinition.mem_nodeKeys] using (List.mem_filter.mp hroot).1
  obtain ⟨e', he', hend⟩ := h.exists_edge he hid
  simp only [isOrphan, Bool.and_eq_true, List.all_eq_true, decide_eq_true_eq] at horphan
  have := horphan.1 e' he'
  tauto

end CitraFlows
