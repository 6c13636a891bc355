-- SUMMARY: When the diff of two workflows, applied to the canvas of the first, gives the canvas of the second.
import CitraFlows.Canvas.Diff
import CitraFlows.Canvas.Equality

/-!
# Diff and apply

A diff names what is added and removed by key, and updates nodes only. What the applied diff gives
is compared with the canvas onto which the second workflow is loaded whole: `Restorable` says on
the two workflows when they agree.
-/

namespace CitraFlows

open KeyedLists

/-! ## Canvases that show the same -/

structure CanvasNode.Same (n n' : CanvasNode) : Prop where
  nodeType : n.nodeType = n'.nodeType
  label : n.label = n'.label
  config : n.config.Same n'.config

/-- Equal up to the order of the nodes and of the edges, and the ids of the edges. -/
structure CanvasState.Same (canvas canvas' : CanvasState) : Prop where
  ids : (canvas.nodes.map (·.id)).Perm (canvas'.nodes.map (·.id))
  nodes : ∀ n ∈ canvas.nodes, ∀ n' ∈ canvas'.nodes, n.id = n'.id → n.Same n'
  edges : (canvas.edges.map (·.toCanvasConnection)).Perm
    (canvas'.edges.map (·.toCanvasConnection))
  vars : canvas.vars.Same canvas'.vars

namespace CanvasNode.Same

variable {n n' n'' : CanvasNode}

theorem symm (h : n.Same n') : n'.Same n := ⟨h.nodeType.symm, h.label.symm, h.config.symm⟩

theorem trans (h : n.Same n') (h' : n'.Same n'') : n.Same n'' :=
  ⟨h.nodeType.trans h'.nodeType, h.label.trans h'.label, h.config.trans h'.config⟩

end CanvasNode.Same

/-! ## What a diff can restore -/

def WorkflowJson.ids (workflow : WorkflowJson) : List String := workflow.nodes.map (·.id)

/-- The keys of the edges in the diff. -/
def WorkflowJson.edgeKeys (workflow : WorkflowJson) : List String :=
  workflow.edges.map (·.dictKey)

/-- The canvas shows the nodes alike. -/
structure NodeJson.Alike (a b : NodeJson) : Prop where
  type : a.type = b.type
  label : textOr a.label a.type = textOr b.label b.type
  config : Entries.Same (a.config.getD []) (b.config.getD [])

/-- What the node leaves empty is shown alike for the node that it updates. -/
structure NodeJson.Overwrites (u b : NodeJson) : Prop where
  type : u.type = "" → b.type = ""
  label : textOr u.label "" = "" → textOr b.label b.type = u.type
  config : u.config = none → Entries.Same (b.config.getD []) []

/-- Python sees a difference in the node with this id, the last one where it is repeated. -/
def Changed (before after : WorkflowJson) (id : String) : Prop :=
  id ≠ "" ∧ ∃ b a, lastWith NodeJson.id id before.nodes = some b ∧
    lastWith NodeJson.id id after.nodes = some a ∧ nodeSignificantlyDifferent b a = true

structure RestorableIds (before after : WorkflowJson) : Prop where
  /-- A node that stays, or has no id, is there as often as before. -/
  kept : ∀ id, id ∈ before.ids ∧ id ∈ after.ids ∨ id = "" →
    before.ids.count id = after.ids.count id
  /-- A new node is there once. -/
  fresh : ∀ id, id ∉ before.ids → after.ids.count id ≤ 1

structure RestorableNodes (before after : WorkflowJson) : Prop extends
    RestorableIds before after where
  repeated : ∀ a ∈ after.nodes, ∀ a' ∈ after.nodes, a.id = a'.id → a.Alike a'
  unchanged : ∀ b ∈ before.nodes, ∀ a ∈ after.nodes, b.id = a.id → ¬ Changed before after a.id →
    b.Alike a
  changed : ∀ b ∈ before.nodes, ∀ u, lastWith NodeJson.id b.id after.nodes = some u →
    Changed before after b.id → u.Overwrites b

/-- The edges that the applied diff leaves on the canvas. -/
def stayingEdges (before after : WorkflowJson) : List EdgeJson :=
  before.edges.filter fun e =>
    e.source ∈ before.ids && e.target ∈ before.ids && e.source ∈ after.ids &&
      e.target ∈ after.ids && !(e.canvasId ∈ before.edgeKeys && e.canvasId ∉ after.edgeKeys)

/-- The edges that the diff does not add: their key is not new, or a later edge has it too. -/
def standingEdges (before after : WorkflowJson) : List EdgeJson :=
  (after.edges.filter (·.dictKey ∈ before.edgeKeys) ++
    hidden EdgeJson.dictKey (after.edges.filter (·.dictKey ∉ before.edgeKeys))).filter fun e =>
      e.source ∈ after.ids && e.target ∈ after.ids

section
variable (js : JsBuiltins) (schemas : String → Option CanvasSchema)

/-- The edge as the canvas of the workflow shows it. -/
def drawnEdge (workflow : WorkflowJson) (e : EdgeJson) : CanvasConnection :=
  (buildRfEdge (specsByNode js (workflow.nodes.map (buildRfNode schemas))) e).toCanvasConnection

/-- A diff can restore the second workflow on the canvas of the first. -/
structure Restorable (before after : WorkflowJson) : Prop where
  nodes : RestorableNodes before after
  edges : ((stayingEdges before after).map (drawnEdge js schemas before)).Perm
    ((standingEdges before after).map (drawnEdge js schemas after))
  vars : before.vars.Same after.vars

end

/-! ## What the diff lists -/

variable {js : JsBuiltins} {schemas : String → Option CanvasSchema} {before after : WorkflowJson}
variable {id : String}

theorem mem_ids_named {workflow : WorkflowJson} :
    id ∈ (workflow.nodes.filter (·.id ≠ "")).map NodeJson.id ↔ id ≠ "" ∧ id ∈ workflow.ids := by
  simp only [WorkflowJson.ids, List.mem_map, List.mem_filter, decide_eq_true_eq]
  constructor
  · rintro ⟨n, ⟨hn, hne⟩, rfl⟩
    exact ⟨hne, n, hn, rfl⟩
  · rintro ⟨hne, n, hn, rfl⟩
    exact ⟨n, ⟨hn, hne⟩, rfl⟩

theorem lastWith_named {workflow : WorkflowJson} (h : id ≠ "") :
    lastWith NodeJson.id id (workflow.nodes.filter (·.id ≠ "")) =
      lastWith NodeJson.id id workflow.nodes :=
  lastWith_filter (p := fun id => decide (id ≠ "")) (by simpa using h)

theorem mem_keys_named {workflow : WorkflowJson} :
    id ∈ (dictBy NodeJson.id (workflow.nodes.filter (·.id ≠ ""))).map NodeJson.id ↔
      id ≠ "" ∧ id ∈ workflow.ids :=
  mem_keys_dictBy.trans mem_ids_named

theorem get_named_isNone {workflow : WorkflowJson} (h : id ≠ "") :
    (get NodeJson.id id (dictBy NodeJson.id (workflow.nodes.filter (·.id ≠ "")))).isNone = true ↔
      id ∉ workflow.ids := by
  rw [Option.isNone_iff_eq_none, get_eq_none_iff, mem_keys_named]
  exact ⟨fun hno hid => hno ⟨h, hid⟩, fun hno hid => hno hid.2⟩

theorem mem_nodesRemoved :
    id ∈ (diffWorkflows before after).nodesRemoved ↔
      id ≠ "" ∧ id ∈ before.ids ∧ id ∉ after.ids := by
  unfold diffWorkflows
  rw [List.mem_map]
  constructor
  · rintro ⟨b, hb, rfl⟩
    obtain ⟨hmem, hno⟩ := List.mem_filter.mp hb
    obtain ⟨hne, hids⟩ := mem_keys_named.mp (List.mem_map_of_mem hmem)
    exact ⟨hne, hids, (get_named_isNone hne).mp hno⟩
  · rintro ⟨hne, hb, ha⟩
    obtain ⟨b, hmem, rfl⟩ := List.mem_map.mp (mem_keys_named.mpr ⟨hne, hb⟩)
    exact ⟨b, List.mem_filter.mpr ⟨hmem, (get_named_isNone hne).mpr ha⟩, rfl⟩

theorem mem_named {workflow : WorkflowJson} {n : NodeJson} :
    n ∈ dictBy NodeJson.id (workflow.nodes.filter (·.id ≠ "")) ↔
      n.id ≠ "" ∧ lastWith NodeJson.id n.id workflow.nodes = some n := by
  rw [mem_dictBy]
  constructor
  · intro h
    have hne : n.id ≠ "" := by simpa using (List.mem_filter.mp (mem_of_lastWith h)).2
    exact ⟨hne, lastWith_named hne ▸ h⟩
  · rintro ⟨hne, h⟩
    rw [lastWith_named hne, h]

theorem mem_nodesAdded {a : NodeJson} :
    a ∈ (diffWorkflows before after).nodesAdded ↔
      (a.id ≠ "" ∧ a.id ∉ before.ids) ∧ lastWith NodeJson.id a.id after.nodes = some a := by
  unfold diffWorkflows
  rw [List.mem_filter, mem_named]
  constructor
  · rintro ⟨⟨hne, ha⟩, hno⟩
    exact ⟨⟨hne, (get_named_isNone hne).mp hno⟩, ha⟩
  · rintro ⟨⟨hne, hno⟩, ha⟩
    exact ⟨⟨hne, ha⟩, (get_named_isNone hne).mpr hno⟩

theorem mem_nodesUpdated {a : NodeJson} :
    a ∈ (diffWorkflows before after).nodesUpdated ↔
      Changed before after a.id ∧ lastWith NodeJson.id a.id after.nodes = some a := by
  unfold diffWorkflows
  rw [List.mem_filter, mem_named, get_dictBy, Option.any_eq_true]
  constructor
  · rintro ⟨⟨hne, ha⟩, b, hb, hdiff⟩
    rw [lastWith_named hne] at hb
    exact ⟨⟨hne, b, a, hb, ha, hdiff⟩, ha⟩
  · rintro ⟨⟨hne, b, a', hb, ha', hdiff⟩, ha⟩
    rw [ha] at ha'
    cases ha'
    rw [lastWith_named hne]
    exact ⟨⟨hne, ha⟩, b, hb, hdiff⟩

private theorem nodup_filter_dictBy {p : NodeJson → Bool} {nodes : List NodeJson} :
    (((dictBy NodeJson.id nodes).filter p).map NodeJson.id).Nodup :=
  nodup_dictBy.sublist (List.filter_sublist.map _)

theorem nodup_nodesAdded : ((diffWorkflows before after).nodesAdded.map NodeJson.id).Nodup :=
  nodup_filter_dictBy

theorem mem_ids_nodesAdded :
    id ∈ (diffWorkflows before after).nodesAdded.map NodeJson.id ↔
      id ≠ "" ∧ id ∉ before.ids ∧ id ∈ after.ids := by
  rw [List.mem_map]
  constructor
  · rintro ⟨a, ha, rfl⟩
    obtain ⟨⟨hne, hno⟩, hlast⟩ := mem_nodesAdded.mp ha
    exact ⟨hne, hno, List.mem_map_of_mem (mem_of_lastWith hlast)⟩
  · rintro ⟨hne, hno, ha⟩
    obtain ⟨a, hlast⟩ := Option.isSome_iff_exists.mp (lastWith_isSome_iff.mpr ha)
    obtain rfl := key_of_lastWith hlast
    exact ⟨a, mem_nodesAdded.mpr ⟨⟨hne, hno⟩, hlast⟩, rfl⟩

/-- The update of a node is the last node with its id. -/
theorem lastWith_nodesUpdated {u : NodeJson} :
    lastWith NodeJson.id id (diffWorkflows before after).nodesUpdated = some u ↔
      Changed before after id ∧ lastWith NodeJson.id id after.nodes = some u := by
  have hnodup : ((diffWorkflows before after).nodesUpdated.map NodeJson.id).Nodup :=
    nodup_filter_dictBy
  rw [lastWith_eq_some_iff hnodup, mem_nodesUpdated]
  constructor
  · rintro ⟨h, rfl⟩
    exact h
  · intro h
    obtain rfl := key_of_lastWith h.2
    exact ⟨h, rfl⟩

theorem lastWith_nodesUpdated_eq_none (h : ¬ Changed before after id) :
    lastWith NodeJson.id id (diffWorkflows before after).nodesUpdated = none := by
  rw [Option.eq_none_iff_forall_ne_some]
  exact fun u hu => h (lastWith_nodesUpdated.mp hu).1

theorem Changed.exists_last (h : Changed before after id) :
    ∃ u, lastWith NodeJson.id id after.nodes = some u := by
  obtain ⟨-, b, a, -, ha, -⟩ := h
  exact ⟨a, ha⟩

/-! ## The nodes -/

/-- The canvas after the diff was applied. -/
def applied (js : JsBuiltins) (schemas : String → Option CanvasSchema)
    (before after : WorkflowJson) : CanvasState :=
  handleApplyDiff js schemas (diffWorkflows before after) (loadWorkflow js schemas before)

/-- An update shows all of the node if what the node leaves empty is shown alike. -/
theorem update_same_iff {b u : NodeJson} :
    ((buildRfNode schemas b).update schemas u).Same (buildRfNode schemas u) ↔ u.Overwrites b := by
  have htype : textOr (some u.type) b.type = u.type ↔ (u.type = "" → b.type = "") := by
    unfold textOr
    by_cases h : u.type = "" <;> simp [h]
  have hlabel : textOr u.label (textOr b.label b.type) = textOr u.label u.type ↔
      (textOr u.label "" = "" → textOr b.label b.type = u.type) := by
    cases u.label with
    | none => simp [textOr]
    | some label => by_cases h : label = "" <;> simp [textOr, h]
  have hconfig : Entries.Same (u.config.getD (b.config.getD [])) (u.config.getD []) ↔
      (u.config = none → Entries.Same (b.config.getD []) []) := by
    cases u.config with
    | none => simp
    | some config => simpa using Entries.Same.refl config
  constructor
  · rintro ⟨h, h', h''⟩
    exact ⟨htype.mp h, hlabel.mp h', hconfig.mp h''⟩
  · rintro ⟨h, h', h''⟩
    exact ⟨htype.mpr h, hlabel.mpr h', hconfig.mpr h''⟩

theorem buildRfNode_same_iff {a b : NodeJson} :
    (buildRfNode schemas a).Same (buildRfNode schemas b) ↔ a.Alike b := by
  constructor <;>
  · rintro ⟨h, h', h''⟩
    exact ⟨h, h', h''⟩

/-- The nodes of the canvas after the diff: those that stay, and those that are added. -/
theorem mem_applied_nodes {n : CanvasNode} :
    n ∈ (applied js schemas before after).nodes ↔
      (∃ b ∈ before.nodes, b.id ∉ (diffWorkflows before after).nodesRemoved ∧
        n = (lastWith NodeJson.id b.id (diffWorkflows before after).nodesUpdated).elim
          (buildRfNode schemas b) ((buildRfNode schemas b).update schemas)) ∨
      ∃ a ∈ (diffWorkflows before after).nodesAdded, n = buildRfNode schemas a := by
  simp only [applied, handleApplyDiff, loadWorkflow, List.mem_append, List.mem_map,
    List.mem_filter, decide_eq_true_eq]
  constructor
  · rintro (⟨m, ⟨⟨b, hb, rfl⟩, hno⟩, rfl⟩ | ⟨a, ha, rfl⟩)
    · exact .inl ⟨b, hb, hno, rfl⟩
    · exact .inr ⟨a, ha, rfl⟩
  · rintro (⟨b, hb, hno, rfl⟩ | ⟨a, ha, rfl⟩)
    · exact .inl ⟨_, ⟨⟨b, hb, rfl⟩, hno⟩, rfl⟩
    · exact .inr ⟨a, ha, rfl⟩

theorem applied_ids :
    (applied js schemas before after).nodes.map (·.id) =
      before.ids.filter (· ∉ (diffWorkflows before after).nodesRemoved) ++
        (diffWorkflows before after).nodesAdded.map NodeJson.id := by
  have hupdate : ∀ n : CanvasNode,
      ((lastWith NodeJson.id n.id (diffWorkflows before after).nodesUpdated).elim n
        (n.update schemas)).id = n.id := fun n => by
    cases lastWith NodeJson.id n.id (diffWorkflows before after).nodesUpdated <;> rfl
  simp only [applied, handleApplyDiff, loadWorkflow, WorkflowJson.ids, List.map_append,
    List.map_map, List.filter_map]
  congr 1
  exact List.map_congr_left fun b _ => hupdate _

theorem load_ids (js : JsBuiltins) (schemas : String → Option CanvasSchema)
    (workflow : WorkflowJson) :
    (loadWorkflow js schemas workflow).nodes.map (·.id) = workflow.ids := by
  simp only [loadWorkflow, WorkflowJson.ids, List.map_map]
  rfl

/-- The ids are those of the second workflow, each as often. -/
theorem applied_ids_iff :
    ((applied js schemas before after).nodes.map (·.id)).Perm after.ids ↔
      RestorableIds before after := by
  have hcount : ∀ id, ((applied js schemas before after).nodes.map (·.id)).count id =
      (if id ≠ "" ∧ id ∈ before.ids ∧ id ∉ after.ids then 0 else before.ids.count id) +
        if id ≠ "" ∧ id ∉ before.ids ∧ id ∈ after.ids then 1 else 0 := fun id => by
    rw [applied_ids, List.count_append]
    congr 1
    · split
      next h => exact List.count_eq_zero.mpr (by simp [mem_nodesRemoved, h])
      next h => exact List.count_filter (decide_eq_true fun hno => h (mem_nodesRemoved.mp hno))
    · rw [nodup_nodesAdded.count]
      simp only [mem_ids_nodesAdded]
  have hpoint : ∀ id, ((applied js schemas before after).nodes.map (·.id)).count id =
      after.ids.count id ↔
        (id ∈ before.ids ∧ id ∈ after.ids ∨ id = "" →
          before.ids.count id = after.ids.count id) ∧
        (id ∉ before.ids → after.ids.count id ≤ 1) := fun id => by
    rw [hcount]
    have hbefore := List.count_pos_iff (a := id) (l := before.ids)
    have hafter := List.count_pos_iff (a := id) (l := after.ids)
    rcases eq_or_ne id "" with rfl | hid
    · by_cases hb : "" ∈ before.ids
      · simp [hb]
      · have hzero : before.ids.count "" = 0 := List.count_eq_zero.mpr hb
        simp only [hb, hzero, ne_eq, not_true_eq_false, false_and, if_false, or_true,
          not_false_eq_true, forall_const]
        omega
    · by_cases hb : id ∈ before.ids <;> by_cases ha : id ∈ after.ids <;>
      · simp only [hid, hb, ha, ne_eq, not_true_eq_false, not_false_eq_true, true_and, and_true,
          and_false, if_true, if_false, or_false, forall_const, false_implies,
          iff_true, iff_false] at hbefore hafter ⊢
        omega
  rw [List.perm_iff_count]
  constructor
  · exact fun h => ⟨fun id => ((hpoint id).mp (h id)).1, fun id => ((hpoint id).mp (h id)).2⟩
  · exact fun h id => (hpoint id).mpr ⟨h.kept id, h.fresh id⟩

/-- The nodes are those of the second workflow. -/
theorem applied_nodes_iff :
    ((applied js schemas before after).nodes.map (·.id)).Perm
        ((loadWorkflow js schemas after).nodes.map (·.id)) ∧
      (∀ n ∈ (applied js schemas before after).nodes,
        ∀ n' ∈ (loadWorkflow js schemas after).nodes, n.id = n'.id → n.Same n') ↔
      RestorableNodes before after := by
  rw [load_ids, applied_ids_iff]
  have hload : ∀ n', n' ∈ (loadWorkflow js schemas after).nodes ↔
      ∃ a ∈ after.nodes, buildRfNode schemas a = n' := fun n' => List.mem_map
  constructor
  · rintro ⟨hids, hsame⟩
    have hstays : ∀ b ∈ before.nodes, b.id ∈ after.ids →
        (lastWith NodeJson.id b.id (diffWorkflows before after).nodesUpdated).elim
          (buildRfNode schemas b) ((buildRfNode schemas b).update schemas) ∈
            (applied js schemas before after).nodes := fun b hb ha =>
      mem_applied_nodes.mpr (.inl ⟨b, hb, fun h => (mem_nodesRemoved.mp h).2.2 ha, rfl⟩)
    refine { hids with repeated := ?_, unchanged := ?_, changed := ?_ }
    · -- some node of the canvas has the id, and shows each of the two
      intro a ha a' ha' heq
      have hmem : a.id ∈ (applied js schemas before after).nodes.map (·.id) :=
        (applied_ids_iff.mpr hids).mem_iff.mpr (List.mem_map_of_mem ha)
      obtain ⟨n, hn, hid⟩ := List.mem_map.mp hmem
      have h₁ := hsame n hn _ ((hload _).mpr ⟨a, ha, rfl⟩) hid
      have h₂ := hsame n hn _ ((hload _).mpr ⟨a', ha', rfl⟩) (hid.trans heq)
      exact buildRfNode_same_iff.mp (h₁.symm.trans h₂)
    · intro b hb a ha heq hno
      have hn := hstays b hb (heq ▸ List.mem_map_of_mem ha)
      rw [lastWith_nodesUpdated_eq_none (heq ▸ hno)] at hn
      exact buildRfNode_same_iff.mp (hsame _ hn _ ((hload _).mpr ⟨a, ha, rfl⟩) heq)
    · intro b hb u hu hchanged
      have ha := mem_of_lastWith hu
      have hid := key_of_lastWith hu
      have hn := hstays b hb (hid ▸ List.mem_map_of_mem ha)
      rw [lastWith_nodesUpdated.mpr ⟨hchanged, hu⟩] at hn
      exact update_same_iff.mp (hsame _ hn _ ((hload _).mpr ⟨u, ha, rfl⟩) hid.symm)
  · intro h
    refine ⟨h.toRestorableIds, fun n hn n' hn' heq => ?_⟩
    obtain ⟨a, ha, rfl⟩ := (hload n').mp hn'
    rcases mem_applied_nodes.mp hn with ⟨b, hb, -, rfl⟩ | ⟨u, hu, rfl⟩
    · by_cases hchanged : Changed before after b.id
      · obtain ⟨u, hu⟩ := hchanged.exists_last
        rw [lastWith_nodesUpdated.mpr ⟨hchanged, hu⟩] at heq ⊢
        have halike := h.repeated u (mem_of_lastWith hu) a ha ((key_of_lastWith hu).trans heq)
        exact (update_same_iff.mpr (h.changed b hb u hu hchanged)).trans
          (buildRfNode_same_iff.mpr halike)
      · rw [lastWith_nodesUpdated_eq_none hchanged] at heq ⊢
        have heq' : b.id = a.id := heq
        exact buildRfNode_same_iff.mpr (h.unchanged b hb a ha heq' (heq' ▸ hchanged))
    · have hu' := mem_of_lastWith (mem_nodesAdded.mp hu).2
      exact buildRfNode_same_iff.mpr (h.repeated u hu' a ha heq)

/-! ## The edges -/

theorem mem_edgesRemoved {key : String} :
    key ∈ (diffWorkflows before after).edgesRemoved ↔
      key ∈ before.edgeKeys ∧ key ∉ after.edgeKeys := by
  have hnone : (get EdgeJson.dictKey key (dictBy EdgeJson.dictKey after.edges)).isNone = true ↔
      key ∉ after.edgeKeys := by
    rw [Option.isNone_iff_eq_none, get_eq_none_iff, mem_keys_dictBy]
    rfl
  unfold diffWorkflows
  rw [List.mem_map]
  constructor
  · rintro ⟨b, hb, rfl⟩
    obtain ⟨hmem, hno⟩ := List.mem_filter.mp hb
    exact ⟨mem_keys_dictBy.mp (List.mem_map_of_mem hmem), hnone.mp hno⟩
  · rintro ⟨hb, ha⟩
    obtain ⟨b, hmem, rfl⟩ := List.mem_map.mp (mem_keys_dictBy.mpr hb)
    exact ⟨b, List.mem_filter.mpr ⟨hmem, hnone.mpr ha⟩, rfl⟩

/-- Of the edges whose key is new the diff adds the last one of each key. -/
theorem edgesAdded_perm :
    (diffWorkflows before after).edgesAdded.Perm
      (lasts EdgeJson.dictKey (after.edges.filter (·.dictKey ∉ before.edgeKeys))) := by
  have hnew : (fun e : EdgeJson =>
      (get EdgeJson.dictKey e.dictKey (dictBy EdgeJson.dictKey before.edges)).isNone) =
        fun e => decide (e.dictKey ∉ before.edgeKeys) := by
    funext e
    rw [Bool.eq_iff_iff, Option.isNone_iff_eq_none, get_eq_none_iff, mem_keys_dictBy,
      decide_eq_true_eq]
    rfl
  unfold diffWorkflows
  dsimp only
  rw [hnew, lasts_filter fun key => decide (key ∉ before.edgeKeys)]
  exact dictBy_perm.filter _

/-- The edges of the second workflow: those that the diff does not add, and those that it adds. -/
theorem standing_append_lasts (before after : WorkflowJson) :
    (standingEdges before after ++ (lasts EdgeJson.dictKey
      (after.edges.filter (·.dictKey ∉ before.edgeKeys))).filter fun e =>
        e.source ∈ after.ids && e.target ∈ after.ids).Perm
      (after.edges.filter fun e => e.source ∈ after.ids && e.target ∈ after.ids) := by
  have hparts : ((after.edges.filter (·.dictKey ∈ before.edgeKeys) ++
      hidden EdgeJson.dictKey (after.edges.filter (·.dictKey ∉ before.edgeKeys))) ++
        lasts EdgeJson.dictKey (after.edges.filter (·.dictKey ∉ before.edgeKeys))).Perm
          after.edges := by
    rw [List.append_assoc]
    refine (List.perm_append_comm.trans lasts_append_hidden |>.append_left _).trans ?_
    have hsplit := List.filter_append_perm (fun e : EdgeJson => decide (e.dictKey ∈ before.edgeKeys))
      after.edges
    simpa only [decide_not] using hsplit
  have hfilter := hparts.filter fun e => e.source ∈ after.ids && e.target ∈ after.ids
  rw [List.filter_append] at hfilter
  exact hfilter

/-- With the ids of the second workflow, its nodes are those that an edge may connect. -/
theorem mem_available (h : RestorableIds before after) :
    id ∈ (diffWorkflows before after).availableNodeIds (loadWorkflow js schemas before) ↔
      id ∈ after.ids := by
  have hids : ((applied js schemas before after).nodes.map (·.id)).Perm after.ids :=
    applied_ids_iff.mpr h
  unfold Diff.availableNodeIds
  rw [← hids.mem_iff, applied_ids, load_ids, List.filter_append, List.mem_append, List.mem_append]
  refine or_congr Iff.rfl ?_
  rw [List.mem_filter, and_iff_left_iff_imp]
  intro hadded
  refine decide_eq_true fun hremoved => ?_
  exact (mem_ids_nodesAdded.mp hadded).2.1 (mem_nodesRemoved.mp hremoved).2.1

private theorem lastWith_build (nodes : List NodeJson) :
    lastWith CanvasNode.id id (nodes.map (buildRfNode schemas)) =
      (lastWith NodeJson.id id nodes).map (buildRfNode schemas) :=
  lastWith_map fun _ => rfl

/-- Where the nodes are restored, the applied diff reads the outputs of a node as the canvas of
the second workflow has them. -/
theorem specsByNode_applied (h : RestorableNodes before after) (hid : id ∈ after.ids) :
    (diffWorkflows before after).specs js schemas (loadWorkflow js schemas before) id =
      specsByNode js (after.nodes.map (buildRfNode schemas)) id := by
  obtain ⟨a, ha⟩ := Option.isSome_iff_exists.mp (lastWith_isSome_iff.mpr hid)
  have hlast : ∀ u, lastWith NodeJson.id id ((diffWorkflows before after).nodesAdded ++
      (diffWorkflows before after).nodesUpdated) = some u → u = a := by
    intro u hu
    obtain rfl := key_of_lastWith hu
    have hmem : lastWith NodeJson.id u.id after.nodes = some u := by
      rcases List.mem_append.mp (mem_of_lastWith hu) with hadded | hupdated
      · exact (mem_nodesAdded.mp hadded).2
      · exact (mem_nodesUpdated.mp hupdated).2
    rw [ha] at hmem
    exact (Option.some_inj.mp hmem).symm
  unfold Diff.specs specsByNode loadWorkflow
  dsimp only
  rw [lastWith_append, lastWith_build, lastWith_build, lastWith_build, ha]
  cases hu : lastWith NodeJson.id id ((diffWorkflows before after).nodesAdded ++
      (diffWorkflows before after).nodesUpdated) with
  | some u =>
      obtain rfl := hlast u hu
      rfl
  | none =>
      -- the node is not in the diff, so the first workflow has one like it
      have hnotin := lastWith_eq_none_iff.mp hu
      rw [List.map_append, List.mem_append, not_or, mem_ids_nodesAdded] at hnotin
      have hbefore : id ∈ before.ids := by
        by_cases hempty : id = ""
        · rw [← List.count_pos_iff, h.kept id (.inr hempty), List.count_pos_iff]
          exact hid
        · by_contra hno
          exact hnotin.1 ⟨hempty, hno, hid⟩
      obtain ⟨b, hb⟩ := Option.isSome_iff_exists.mp (lastWith_isSome_iff.mpr hbefore)
      obtain rfl := key_of_lastWith ha
      have hunchanged : ¬ Changed before after a.id := fun hchanged =>
        hnotin.2 (List.mem_map_of_mem (mem_nodesUpdated.mpr ⟨hchanged, ha⟩))
      have halike := h.unchanged b (mem_of_lastWith hb) a (mem_of_lastWith ha)
        (key_of_lastWith hb) hunchanged
      rw [hb]
      simp only [Option.map_none, Option.none_or, Option.map_some, Option.elim_some, buildRfNode]
      rw [halike.type]
      exact getWorkflowNodeOutputSpecs_same halike.config _ _

/-- The edges that stay on the canvas are drawn as they were. -/
theorem keptEdges_eq (h : RestorableIds before after) :
    ((diffWorkflows before after).keptEdges (loadWorkflow js schemas before)).map
        (·.toCanvasConnection) =
      (stayingEdges before after).map (drawnEdge js schemas before) := by
  have hedges : (loadWorkflow js schemas before).edges =
      (before.edges.filter fun e => e.source ∈ before.ids && e.target ∈ before.ids).map
        (buildRfEdge (specsByNode js (before.nodes.map (buildRfNode schemas)))) := by
    rw [← load_ids js schemas before]
    rfl
  unfold Diff.keptEdges stayingEdges
  rw [hedges, List.filter_map, List.filter_filter, List.map_map]
  refine congrArg₂ List.map rfl (List.filter_congr fun e _ => ?_)
  rw [Bool.eq_iff_iff]
  simp only [Function.comp_apply, Bool.and_eq_true, decide_eq_true_eq, Bool.not_eq_true',
    Bool.and_eq_false_iff, decide_eq_false_iff_not]
  rw [mem_edgesRemoved, mem_nodesRemoved, mem_nodesRemoved, mem_available h, mem_available h]
  simp only [buildRfEdge]
  tauto

/-- The edges that the diff adds are drawn as the canvas of the second workflow has them. -/
theorem addedEdges_perm (h : RestorableNodes before after) :
    (((diffWorkflows before after).edgesAdded.filter fun e =>
        e.source ∈ (diffWorkflows before after).availableNodeIds (loadWorkflow js schemas before) &&
        e.target ∈ (diffWorkflows before after).availableNodeIds
          (loadWorkflow js schemas before)).map fun e =>
            (buildRfEdge ((diffWorkflows before after).specs js schemas
              (loadWorkflow js schemas before)) e).toCanvasConnection).Perm
      (((lasts EdgeJson.dictKey (after.edges.filter (·.dictKey ∉ before.edgeKeys))).filter fun e =>
        e.source ∈ after.ids && e.target ∈ after.ids).map (drawnEdge js schemas after)) := by
  simp only [mem_available h.toRestorableIds]
  have hdrawn : ∀ e ∈ (diffWorkflows before after).edgesAdded.filter fun e =>
      e.source ∈ after.ids && e.target ∈ after.ids,
      (buildRfEdge ((diffWorkflows before after).specs js schemas
        (loadWorkflow js schemas before)) e).toCanvasConnection = drawnEdge js schemas after e := by
    intro e he
    have hmem := (List.mem_filter.mp he).2
    rw [Bool.and_eq_true, decide_eq_true_eq] at hmem
    unfold drawnEdge buildRfEdge
    rw [specsByNode_applied h hmem.1]
  rw [List.map_congr_left hdrawn]
  exact (edgesAdded_perm.filter _).map _

/-- With the nodes of the second workflow, the edges are its edges exactly when those that stay are
those that the diff does not add. -/
theorem applied_edges_iff (h : RestorableNodes before after) :
    ((applied js schemas before after).edges.map (·.toCanvasConnection)).Perm
        ((loadWorkflow js schemas after).edges.map (·.toCanvasConnection)) ↔
      ((stayingEdges before after).map (drawnEdge js schemas before)).Perm
        ((standingEdges before after).map (drawnEdge js schemas after)) := by
  have hload : (loadWorkflow js schemas after).edges.map (·.toCanvasConnection) =
      (after.edges.filter fun e => e.source ∈ after.ids && e.target ∈ after.ids).map
        (drawnEdge js schemas after) := by
    rw [← load_ids js schemas after]
    unfold loadWorkflow
    rw [List.map_map]
    rfl
  have hwhole := (standing_append_lasts before after).map
    (drawnEdge js schemas after)
  rw [List.map_append] at hwhole
  have happlied : ((applied js schemas before after).edges.map (·.toCanvasConnection)).Perm
      ((stayingEdges before after).map (drawnEdge js schemas before) ++
        ((lasts EdgeJson.dictKey (after.edges.filter (·.dictKey ∉ before.edgeKeys))).filter fun e =>
          e.source ∈ after.ids && e.target ∈ after.ids).map (drawnEdge js schemas after)) := by
    unfold applied handleApplyDiff
    rw [List.map_append, keptEdges_eq h.toRestorableIds, List.map_map]
    exact (addedEdges_perm h).append_left _
  rw [hload]
  constructor
  · intro hperm
    exact (List.perm_append_right_iff _).mp (happlied.symm.trans (hperm.trans hwhole.symm))
  · intro hperm
    exact happlied.trans ((hperm.append_right _).trans hwhole)

/-! ## The whole canvas -/

/-- Applying the diff gives the canvas of the second workflow, and a diff without changes is
reported only where the canvases are the same. -/
structure DiffRestores (js : JsBuiltins) (schemas : String → Option CanvasSchema)
    (before after : WorkflowJson) : Prop where
  applied : (handleApplyDiff js schemas (diffWorkflows before after)
    (loadWorkflow js schemas before)).Same (loadWorkflow js schemas after)
  noop : (diffWorkflows before after).isNoop = true →
    (loadWorkflow js schemas before).Same (loadWorkflow js schemas after)

/-- A diff without changes leaves the canvas as it is. -/
theorem applied_noop (h : (diffWorkflows before after).isNoop = true) :
    applied js schemas before after = loadWorkflow js schemas before := by
  simp only [Diff.isNoop, Bool.and_eq_true, List.isEmpty_iff] at h
  obtain ⟨⟨⟨⟨hadded, hremoved⟩, hupdated⟩, hedgesAdded⟩, hedgesRemoved⟩ := h
  have hkept : (diffWorkflows before after).keptEdges (loadWorkflow js schemas before) =
      (loadWorkflow js schemas before).edges := by
    unfold Diff.keptEdges Diff.availableNodeIds
    rw [List.filter_eq_self]
    intro e he
    obtain ⟨e', he', rfl⟩ := List.mem_map.mp he
    have hknown := (List.mem_filter.mp he').2
    rw [Bool.and_eq_true, decide_eq_true_eq, decide_eq_true_eq] at hknown
    simpa [hadded, hremoved, hedgesRemoved, buildRfEdge, loadWorkflow] using hknown
  have hnone : ∀ id, lastWith NodeJson.id id ([] : List NodeJson) = none := fun _ => rfl
  unfold applied handleApplyDiff
  rw [hkept]
  simp [hadded, hremoved, hupdated, hedgesAdded, hnone]

/-- Applying the diff restores the second workflow, and no change is reported only where there is
none, exactly for the workflows that a diff can restore. -/
theorem diffRestores_iff :
    DiffRestores js schemas before after ↔ Restorable js schemas before after := by
  constructor
  · rintro ⟨⟨hids, hnodes, hedges, hvars⟩, -⟩
    have hrestored := applied_nodes_iff.mp ⟨hids, hnodes⟩
    exact ⟨hrestored, (applied_edges_iff hrestored).mp hedges, hvars⟩
  · intro h
    have hsame : (applied js schemas before after).Same (loadWorkflow js schemas after) := by
      obtain ⟨hids, hnodes⟩ := applied_nodes_iff.mpr h.nodes
      exact ⟨hids, hnodes, (applied_edges_iff h.nodes).mpr h.edges, h.vars⟩
    exact ⟨hsame, fun hnoop => applied_noop hnoop ▸ hsame⟩

/-- An edge from a trigger to one of two nodes. -/
def edgeTo (target : String) : WorkflowJson where
  nodes := [{ id := "start", type := "manual_trigger" }, { id := "left", type := "data_transform" },
    { id := "right", type := "data_transform" }]
  edges := [{ id := some "e1", source := "start", target }]

/-- An edge that is moved under its id is not in the diff, which is reported as no change. -/
theorem edgeTo_moved_lost :
    ¬ ∀ (js : JsBuiltins) (schemas : String → Option CanvasSchema) (before after : WorkflowJson),
      DiffRestores js schemas before after := by
  intro h
  have hsame := (h { parse := fun _ => none, numberText := fun _ => "" } (fun _ => none)
    (edgeTo "left") (edgeTo "right")).noop (by decide +kernel)
  exact absurd hsame.edges (by decide +kernel)

end CitraFlows
