-- SUMMARY: The assistant's edit tools on the working copy, and when they keep it well formed and change nothing on an error.
import CitraFlows.Assistant.Json

/-!
# The working copy of the assistant

The model calls tools with arguments of its own making, and each edit tool changes the working
copy in place. A tool returns a text for the model, or raises.
-/

namespace CitraFlows

/-! ## The working copy -/

/-- `json.loads`, and `dict(value)` of a value that is not a dict. -/
structure PyBuiltins where
  loads : String → Option Value
  dictOf : Value → Except PyError Entries

/-- The working copy: its nodes and edges, which are dicts and may be missing, and the other
entries. -/
structure WorkingCopy where
  nodes : Option (List Entries) := some []
  edges : Option (List Entries) := some []
  rest : Entries := []

/-- What a tool returns, and the working copy that it leaves. -/
abbrev ToolResult := WorkingCopy × Except PyError String

/-- `d.get("id")` -/
def Entries.id (d : Entries) : Value := Value.getD d "id"

namespace WorkingCopy

def nodeList (wc : WorkingCopy) : List Entries := wc.nodes.getD []

def edgeList (wc : WorkingCopy) : List Entries := wc.edges.getD []

/-- `_wc_find` -/
def find (wc : WorkingCopy) (nodeId : Value) : Option Entries :=
  wc.nodeList.find? fun n => Value.eq n.id nodeId

/-- An empty dict is falsy. -/
def finds (wc : WorkingCopy) (nodeId : Value) : Bool := (wc.find nodeId).any (!·.isEmpty)

end WorkingCopy

/-- `value or {}`, which has to be a dict for `.get` -/
def orEmpty (value : Value) : Except PyError Entries :=
  if value.truthy then
    match value.asDict with
    | some fields => .ok fields
    | none => .error (.attributeError value.typeName "get")
  else .ok []

/-- `dict(value or {})` -/
def PyBuiltins.dict (py : PyBuiltins) (value : Value) : Except PyError Entries :=
  if value.truthy then
    match value.asDict with
    | some fields => .ok fields
    | none => py.dictOf value
  else .ok []

/-- The keys that a loop over a value goes through. -/
def keysOf (value : Value) : Except PyError (List Value) :=
  match value with
  | .list xs => .ok xs
  | .str s => .ok (s.toList.map fun c => .str (String.singleton c))
  | .dict fields => .ok (fields.map fun p => .str p.1)
  | v => .error (.typeError ("'" ++ v.typeName ++ "' object is not iterable"))

/-- `for key in keys: d.pop(key, None)`; what was removed before an error stays removed. -/
def popKeys : List Value → Entries → Entries × Except PyError Unit
  | [], d => (d, .ok ())
  | .str key :: keys, d => popKeys keys (d.pop key)
  | .list _ :: _, d => (d, .error (.typeError "unhashable type: 'list'"))
  | .dict _ :: _, d => (d, .error (.typeError "unhashable type: 'dict'"))
  | _ :: keys, d => popKeys keys d

/-! ## Tools -/

namespace WorkingCopy

variable (py : PyBuiltins) (wc : WorkingCopy)

/-- `_wc_add_node` -/
def addNode (node : Entries) : String × WorkingCopy :=
  if !node.id.truthy then ("Error: the node needs an 'id'.", wc)
  else if wc.finds node.id then
    ("Error: node '" ++ node.id.text ++ "' already exists — use update_node.", wc)
  else
    ("Added node '" ++ node.id.text ++ "'.", { wc with nodes := some (wc.nodeList ++ [node]) })

/-- `changes`, which may be the text of an object. -/
def readChanges (changes : Value) : Except String Entries :=
  let read : Except String Value :=
    match changes with
    | .str s =>
        match py.loads s with
        | some v => .ok v
        | none =>
            .error ("Error: `changes` must be a JSON object like " ++
              "\x7b\"config\": \x7b\"table\": \"x\"\x7d\x7d, not a string. Re-issue update_node.")
    | v => .ok v
  read.bind fun v =>
    match v with
    | .none => .ok []
    | .dict fields => .ok fields
    | _ => .error "Error: `changes` must be a JSON object. Re-issue update_node with an object."

/-- How a loop over the changes goes on: to its end, or with a text, or with an exception. -/
inductive ChangeOutcome where
  | done
  | error (message : String)
  | raised (e : PyError)

/-- A config given as a text that is not JSON. -/
def unreadable (change : String × Value) : Bool :=
  match change with
  | ("config", .str s) => (py.loads s).isNone
  | _ => false

/-- The config of a node after a config change: one level is merged. -/
def mergeConfig (n : Entries) (config : Value) : Except PyError Value :=
  match config with
  | .dict fields => (py.dict (Value.getD n "config")).map fun old => .dict (old.update fields)
  | v => .ok v

/-- `for k, v in (changes or {}).items()` -/
def applyChanges : Entries → Entries → Entries × ChangeOutcome
  | [], n => (n, .done)
  | (k, v) :: changes, n =>
      if k = "config" then
        let read := match v with
          | .str s => py.loads s
          | v => some v
        match read with
        | none =>
            (n, .error ("Error: `config` must be a JSON object, not a string. " ++
              "Re-issue update_node with config as an object."))
        | some v =>
            match mergeConfig py n v with
            | .ok config => applyChanges changes (n.put "config" config)
            | .error e => (n, .raised e)
      else applyChanges changes (n.put k v)

/-- `if remove_config_keys and isinstance(n.get("config"), dict)` -/
def removeConfigKeys (keys : Value) (n : Entries) : Entries × Except PyError Unit :=
  match Value.getD n "config" with
  | .dict config =>
      if keys.truthy then
        match keysOf keys with
        | .ok keys =>
            let r := popKeys keys config
            (n.put "config" (.dict r.1), r.2)
        | .error e => (n, .error e)
      else (n, .ok ())
  | _ => (n, .ok ())

/-- The first node with the id is replaced. -/
def replaceFirst (k : Entries → Bool) (new : Entries) : List Entries → List Entries
  | [] => []
  | n :: ns => if k n then new :: ns else n :: replaceFirst k new ns

def setNode (nodeId : Value) (new : Entries) : WorkingCopy :=
  { wc with nodes := wc.nodes.map (replaceFirst (fun n => Value.eq n.id nodeId) new) }

/-- `_wc_update_node` -/
def updateNode (nodeId changes removeKeys : Value) : ToolResult :=
  match wc.find nodeId with
  | none | some [] =>
      (wc, .ok ("Error: no node '" ++ nodeId.text ++
        "'. Use add_node to create it first, or copy an existing id."))
  | some n =>
      match readChanges py changes with
      | .error message => (wc, .ok message)
      | .ok changes =>
          match applyChanges py changes n with
          | (n, .error message) => (wc.setNode nodeId n, .ok message)
          | (n, .raised e) => (wc.setNode nodeId n, .error e)
          | (n, .done) =>
              let r := removeConfigKeys removeKeys n
              (wc.setNode nodeId r.1,
                r.2.map fun _ => "Updated node '" ++ nodeId.text ++ "'.")

/-- `_wc_remove_node` -/
def removeNode (nodeId : Value) : String × WorkingCopy :=
  if wc.nodeList.any fun n => Value.eq n.id nodeId then
    ("Removed node '" ++ nodeId.text ++ "' and its edges.",
      { wc with
        nodes := some (wc.nodeList.filter fun n => !Value.eq n.id nodeId)
        edges := some (wc.edgeList.filter fun e =>
          !Value.eq (Value.getD e "source") nodeId && !Value.eq (Value.getD e "target") nodeId) })
  else ("Error: no node '" ++ nodeId.text ++ "'.", wc)

/-- The id of a new edge. -/
def newEdgeId (source target sourceHandle : Value) : String :=
  source.text ++ "->" ++ target.text ++
    if sourceHandle.truthy then ":" ++ sourceHandle.text else ""

def newEdge (source target sourceHandle label : Value) : Entries :=
  [("id", .str (newEdgeId source target sourceHandle)), ("source", source), ("target", target)] ++
    (if sourceHandle.truthy then [("source_handle", sourceHandle)] else []) ++
    if label.truthy then [("label", label)] else []

/-- `_wc_add_edge` -/
def addEdge (source target sourceHandle label : Value) : String × WorkingCopy :=
  if !wc.finds source || !wc.finds target then
    ("Error: both '" ++ source.text ++ "' and '" ++ target.text ++
      "' must exist before connecting them.", wc)
  else
    ("Connected '" ++ source.text ++ "' → '" ++ target.text ++ "'.",
      { wc with edges := some (wc.edgeList ++ [newEdge source target sourceHandle label]) })

/-- `_match` of `_wc_remove_edge` -/
def matchesEdge (edgeId source target sourceHandle : Value) (e : Entries) : Bool :=
  if edgeId.truthy then Value.eq e.id edgeId
  else if source.truthy && target.truthy then
    Value.eq (Value.getD e "source") source && Value.eq (Value.getD e "target") target &&
      (!sourceHandle.truthy || Value.eq (Value.getD e "source_handle") sourceHandle)
  else false

/-- `_wc_remove_edge` -/
def removeEdge (edgeId source target sourceHandle : Value) : String × WorkingCopy :=
  let kept := wc.edgeList.filter fun e => !matchesEdge edgeId source target sourceHandle e
  let removed := wc.edgeList.length - kept.length
  (if removed = 0 then "No matching edge to remove."
    else "Removed " ++ toString removed ++ " edge(s).",
    { wc with edges := some kept })

def setRest (key : String) (value : Value) : WorkingCopy :=
  if value.isNone then wc else { wc with rest := wc.rest.put key value }

/-- `set_variables` of `_wc_set_meta` -/
def setVariables (values : Value) : WorkingCopy × Except PyError Unit :=
  if values.truthy then
    match (py.dict (Value.getD wc.rest "variables")).bind fun old =>
        (py.dict values).map fun new => old.update new with
    | .ok merged => ({ wc with rest := wc.rest.put "variables" (.dict merged) }, .ok ())
    | .error e => (wc, .error e)
  else (wc, .ok ())

/-- `remove_variables` of `_wc_set_meta` -/
def removeVariables (keys : Value) : WorkingCopy × Except PyError Unit :=
  match Value.getD wc.rest "variables" with
  | .dict values =>
      if keys.truthy then
        match keysOf keys with
        | .ok keys =>
            let r := popKeys keys values
            ({ wc with rest := wc.rest.put "variables" (.dict r.1) }, r.2)
        | .error e => (wc, .error e)
      else (wc, .ok ())
  | _ => (wc, .ok ())

/-- `_wc_set_meta` -/
def setMeta (name description icon setVars removeVars : Value) : ToolResult :=
  let wc := ((wc.setRest "name" name).setRest "description" description).setRest "icon" icon
  match wc.setVariables py setVars with
  | (wc, .error e) => (wc, .error e)
  | (wc, .ok _) =>
      let r := wc.removeVariables removeVars
      (r.1, r.2.map fun _ => "Updated workflow settings.")

end WorkingCopy

/-! ## Calls -/

inductive EditTool where
  | addNode | updateNode | removeNode | addEdge | removeEdge | setWorkflowMeta
  deriving DecidableEq

/-- What the edit tools change. -/
structure EditState where
  wc : WorkingCopy
  edited : Bool := false

/-- The branch of `_execute_tool` for an edit tool. -/
def EditTool.run (py : PyBuiltins) (wc : WorkingCopy) (args : Entries) : EditTool → ToolResult
  | .addNode =>
      match orEmpty (Value.getD args "node") with
      | .ok node =>
          let r := wc.addNode node
          (r.2, .ok r.1)
      | .error e => (wc, .error e)
  | .updateNode =>
      wc.updateNode py (Value.getD args "node_id") (Value.getD args "changes")
        (Value.getD args "remove_config_keys")
  | .removeNode =>
      let r := wc.removeNode (Value.getD args "node_id")
      (r.2, .ok r.1)
  | .addEdge =>
      let r := wc.addEdge (Value.getD args "source") (Value.getD args "target")
        (Value.getD args "source_handle") (Value.getD args "label")
      (r.2, .ok r.1)
  | .removeEdge =>
      let r := wc.removeEdge (Value.getD args "edge_id") (Value.getD args "source")
        (Value.getD args "target") (Value.getD args "source_handle")
      (r.2, .ok r.1)
  | .setWorkflowMeta =>
      wc.setMeta py (Value.getD args "name") (Value.getD args "description")
        (Value.getD args "icon") (Value.getD args "set_variables")
        (Value.getD args "remove_variables")

/-- A call: the tool and its arguments, which may be no object. -/
structure EditCall where
  tool : EditTool
  args : Value

/-- A returned text starts with `Error`. -/
def isError (message : String) : Bool := "Error".toList.isPrefixOf message.toList

namespace EditCall

def run (py : PyBuiltins) (wc : WorkingCopy) (call : EditCall) : ToolResult :=
  match call.args.asDict with
  | some args => call.tool.run py wc args
  | none => (wc, .error (.attributeError call.args.typeName "get"))

/-- The state after a call. -/
def execute (py : PyBuiltins) (st : EditState) (call : EditCall) : EditState :=
  match call.run py st.wc with
  | (wc, .ok message) => { wc, edited := st.edited || !isError message }
  | (wc, .error _) => { st with wc }

/-- The call returns a text that starts with `Error`. -/
def fails (py : PyBuiltins) (st : EditState) (call : EditCall) : Bool :=
  match call.run py st.wc with
  | (_, .ok message) => isError message
  | (_, .error _) => false

end EditCall

/-! ## Well-formedness -/

namespace WorkingCopy

/-- The ids of the nodes, as `==` compares them. -/
def nodeIds (wc : WorkingCopy) : List (List Value.Part) := wc.nodeList.map (·.id.parts)

/-- The ids of the edges that have one. -/
def edgeIds (wc : WorkingCopy) : List (List Value.Part) :=
  (wc.edgeList.filter (!·.id.isNone)).map (·.id.parts)

/-- The ends of an edge. -/
def ends (e : Entries) : List (List Value.Part) :=
  [(Value.getD e "source").parts, (Value.getD e "target").parts]

structure WellFormed (wc : WorkingCopy) : Prop where
  nodeIds : wc.nodeIds.Nodup
  edgeIds : wc.edgeIds.Nodup
  endpoints : ∀ e ∈ wc.edgeList, ends e ⊆ wc.nodeIds

/-- An id among the changes is that of the node; or it is that of no node, and no edge ends at
the node. -/
def renamesSafely (wc : WorkingCopy) (n changes : Entries) : Bool :=
  changes.all fun c => c.1 ≠ "id" || c.2.parts = n.id.parts ||
    !wc.nodeIds.contains c.2.parts && wc.edgeList.all fun e => !(ends e).contains n.id.parts

end WorkingCopy

/-- An update that renames a node does so safely, and a config that is not JSON is its first
change; a new edge has an id of its own. A node without entries is not updated, and ends that are
not there are not connected. -/
def EditCall.keepsForm (py : PyBuiltins) (wc : WorkingCopy) (call : EditCall) : Bool :=
  match call.tool, call.args.asDict with
  | .updateNode, some args =>
      match wc.find (Value.getD args "node_id"),
        WorkingCopy.readChanges py (Value.getD args "changes") with
      | some n, .ok changes =>
          n.isEmpty || changes.head?.any (WorkingCopy.unreadable py) ||
            changes.all (!WorkingCopy.unreadable py ·) && wc.renamesSafely n changes
      | _, _ => true
  | .addEdge, some args =>
      let id := WorkingCopy.newEdgeId (Value.getD args "source") (Value.getD args "target")
        (Value.getD args "source_handle")
      !wc.finds (Value.getD args "source") || !wc.finds (Value.getD args "target") ||
        !wc.edgeIds.contains (Value.str id).parts
  | _, _ => true

/-- Every call meets the condition on the working copy it finds. -/
def EditState.keepsForm (py : PyBuiltins) : EditState → List EditCall → Bool
  | _, [] => true
  | st, call :: calls => call.keepsForm py st.wc && (call.execute py st).keepsForm py calls

/-- The working copy is well formed before and after every call, and a call that fails changes
nothing. -/
def EditState.StaysWellFormed (py : PyBuiltins) : EditState → List EditCall → Prop
  | st, [] => st.wc.WellFormed
  | st, call :: calls =>
      st.wc.WellFormed ∧ (call.fails py st = true → call.execute py st = st) ∧
        (call.execute py st).StaysWellFormed py calls

/-! ## Tools that keep the ids -/

namespace WorkingCopy

variable {py : PyBuiltins} {wc wc' : WorkingCopy}

theorem WellFormed.of_lists (h : wc.WellFormed) (hnodes : wc'.nodeList = wc.nodeList)
    (hedges : wc'.edgeList = wc.edgeList) : wc'.WellFormed where
  nodeIds := by
    rw [WorkingCopy.nodeIds, hnodes]
    exact h.nodeIds
  edgeIds := by
    rw [WorkingCopy.edgeIds, hedges]
    exact h.edgeIds
  endpoints := by
    rw [WorkingCopy.nodeIds, hnodes, hedges]
    exact h.endpoints

theorem finds_mem {nodeId : Value} (h : wc.finds nodeId = true) :
    nodeId.parts ∈ wc.nodeIds := by
  obtain ⟨n, hn, -⟩ := (Option.any_eq_true _ _).mp h
  have hid := List.find?_some hn
  rw [Value.eq_iff] at hid
  rw [← hid]
  exact List.mem_map_of_mem (List.mem_of_find?_eq_some hn)

/-- An id that is truthy and not found is that of no node. -/
theorem not_mem_of_finds {nodeId : Value} (htruthy : nodeId.truthy = true)
    (h : wc.finds nodeId = false) : nodeId.parts ∉ wc.nodeIds := by
  intro hmem
  obtain ⟨n, hn, hid⟩ := List.mem_map.mp hmem
  have hsome : (wc.find nodeId).isSome = true := by
    rw [find, List.find?_isSome]
    exact ⟨n, hn, Value.eq_iff.mpr hid⟩
  obtain ⟨m, hm⟩ := Option.isSome_iff_exists.mp hsome
  have hmid := List.find?_some hm
  rw [Value.eq_iff] at hmid
  rw [finds, hm, Option.any_some, Bool.not_eq_false', List.isEmpty_iff] at h
  -- an empty dict has no id
  subst h
  obtain rfl := Value.parts_eq_none.mp hmid.symm
  cases htruthy

theorem WellFormed.addNode (h : wc.WellFormed) (node : Entries) :
    (wc.addNode node).2.WellFormed := by
  unfold WorkingCopy.addNode
  split
  next => exact h
  next htruthy =>
    split
    next => exact h
    next hfinds =>
      have hnew := not_mem_of_finds (by simpa using htruthy) (by simpa using hfinds)
      have hids : WorkingCopy.nodeIds { wc with nodes := some (wc.nodeList ++ [node]) } =
          wc.nodeIds ++ [node.id.parts] := by
        simp [WorkingCopy.nodeIds, nodeList]
      refine ⟨?_, h.edgeIds, ?_⟩
      · rw [hids, List.nodup_append]
        refine ⟨h.nodeIds, List.nodup_singleton _, ?_⟩
        intro a ha b hb
        rw [List.mem_singleton.mp hb]
        rintro rfl
        exact hnew ha
      · intro e he
        rw [hids]
        exact List.Subset.trans (h.endpoints e he) (List.subset_append_left _ _)

theorem WellFormed.removeNode (h : wc.WellFormed) (nodeId : Value) :
    (wc.removeNode nodeId).2.WellFormed := by
  unfold WorkingCopy.removeNode
  split
  next =>
    refine ⟨?_, ?_, ?_⟩
    · exact h.nodeIds.sublist ((List.filter_sublist).map _)
    · exact h.edgeIds.sublist (((List.filter_sublist).filter _).map _)
    · intro e he part hpart
      obtain ⟨he, hkept⟩ := List.mem_filter.mp he
      obtain ⟨n, hn, rfl⟩ := List.mem_map.mp (h.endpoints e he hpart)
      refine List.mem_map_of_mem (List.mem_filter.mpr ⟨hn, ?_⟩)
      simp only [Bool.and_eq_true, Bool.not_eq_true', Value.eq, decide_eq_false_iff_not] at hkept ⊢
      simp only [ends, List.mem_cons, List.not_mem_nil, or_false] at hpart
      rcases hpart with hpart | hpart
      · rw [hpart]
        exact hkept.1
      · rw [hpart]
        exact hkept.2
  next => exact h

theorem WellFormed.removeEdge (h : wc.WellFormed) (edgeId source target sourceHandle : Value) :
    (wc.removeEdge edgeId source target sourceHandle).2.WellFormed where
  nodeIds := h.nodeIds
  edgeIds := h.edgeIds.sublist (((List.filter_sublist).filter _).map _)
  endpoints := fun e he => h.endpoints e (List.mem_filter.mp he).1

theorem WellFormed.addEdge (h : wc.WellFormed) {source target sourceHandle : Value}
    (label : Value)
    (hnew : wc.finds source = true → wc.finds target = true →
      (Value.str (newEdgeId source target sourceHandle)).parts ∉ wc.edgeIds) :
    (wc.addEdge source target sourceHandle label).2.WellFormed := by
  unfold WorkingCopy.addEdge
  split
  next => exact h
  next hfinds =>
    simp only [Bool.or_eq_true, Bool.not_eq_true', not_or, Bool.not_eq_false] at hfinds
    have hsource : Value.getD (newEdge source target sourceHandle label) "source" = source := rfl
    have htarget : Value.getD (newEdge source target sourceHandle label) "target" = target := rfl
    refine ⟨h.nodeIds, ?_, ?_⟩
    · have hids : WorkingCopy.edgeIds { wc with
            edges := some (wc.edgeList ++ [newEdge source target sourceHandle label]) } =
          wc.edgeIds ++ [(Value.str (newEdgeId source target sourceHandle)).parts] := by
        have hid : (newEdge source target sourceHandle label).id =
            .str (newEdgeId source target sourceHandle) := rfl
        simp [WorkingCopy.edgeIds, edgeList, hid, Value.isNone]
      rw [hids, List.nodup_append]
      refine ⟨h.edgeIds, List.nodup_singleton _, ?_⟩
      intro a ha b hb
      rw [List.mem_singleton.mp hb]
      rintro rfl
      exact hnew hfinds.1 hfinds.2 ha
    · intro e he
      rcases List.mem_append.mp he with he | he
      · exact h.endpoints e he
      · rw [List.mem_singleton.mp he]
        intro part hpart
        simp only [ends, hsource, htarget, List.mem_cons, List.not_mem_nil, or_false] at hpart
        rcases hpart with rfl | rfl
        · exact finds_mem hfinds.1
        · exact finds_mem hfinds.2

/-! ## Updates -/

/-- The list around the first match. -/
theorem replaceFirst_eq {k : Entries → Bool} {l : List Entries} {n : Entries}
    (h : l.find? k = some n) : ∃ before after, l = before ++ n :: after ∧
      ∀ new, replaceFirst k new l = before ++ new :: after := by
  induction l with
  | nil => cases h
  | cons m l ih =>
      rw [List.find?_cons] at h
      split at h
      next hm =>
        cases h
        exact ⟨[], l, rfl, fun new => by simp [replaceFirst, hm]⟩
      next hm =>
        obtain ⟨before, after, rfl, hnew⟩ := ih h
        refine ⟨m :: before, after, rfl, ?_⟩
        intro new
        simp [replaceFirst, hm, hnew new]

/-- The ids around the node that is found. -/
theorem nodeIds_setNode {nodeId : Value} {n : Entries} (h : wc.find nodeId = some n) :
    ∃ before after, wc.nodeIds = before ++ n.id.parts :: after ∧
      ∀ new, (wc.setNode nodeId new).nodeIds = before ++ new.id.parts :: after := by
  obtain ⟨before, after, hlist, hnew⟩ := replaceFirst_eq h
  refine ⟨before.map (·.id.parts), after.map (·.id.parts), by simp [nodeIds, hlist], ?_⟩
  intro new
  have hnodes : (wc.setNode nodeId new).nodeList = before ++ new :: after := by
    rw [← hnew new]
    unfold setNode nodeList
    cases wc.nodes with
    | none => rfl
    | some nodes => rfl
  simp [nodeIds, hnodes]

/-- A node is changed and keeps its id, or gets one that no other node has while no edge ends at
it. -/
theorem WellFormed.setNode (h : wc.WellFormed) {nodeId : Value} {n new : Entries}
    (hfind : wc.find nodeId = some n)
    (hid : new.id.parts = n.id.parts ∨ new.id.parts ∉ wc.nodeIds ∧
      ∀ e ∈ wc.edgeList, n.id.parts ∉ ends e) : (wc.setNode nodeId new).WellFormed := by
  obtain ⟨before, after, hids, hnew⟩ := nodeIds_setNode hfind
  rcases hid with hsame | ⟨hfresh, hfree⟩
  · have hkept : (wc.setNode nodeId new).nodeIds = wc.nodeIds := by
      rw [hnew new, hsame, hids]
    refine ⟨?_, h.edgeIds, ?_⟩
    · rw [hkept]
      exact h.nodeIds
    · rw [hkept]
      exact h.endpoints
  · refine ⟨?_, h.edgeIds, ?_⟩
    · have hnodup := h.nodeIds
      rw [hids, List.nodup_middle, List.nodup_cons] at hnodup
      rw [hids] at hfresh
      rw [hnew new, List.nodup_middle, List.nodup_cons]
      refine ⟨?_, hnodup.2⟩
      intro hmem
      refine hfresh ?_
      rcases List.mem_append.mp hmem with hmem | hmem
      · exact List.mem_append_left _ hmem
      · exact List.mem_append_right _ (List.mem_cons_of_mem _ hmem)
    · intro e he part hpart
      have hmem := h.endpoints e he hpart
      rw [hids] at hmem
      rw [hnew new]
      rcases List.mem_append.mp hmem with hmem | hmem
      · exact List.mem_append_left _ hmem
      · rcases List.mem_cons.mp hmem with rfl | hmem
        · exact absurd hpart (hfree e he)
        · exact List.mem_append_right _ (List.mem_cons_of_mem _ hmem)

/-- The node is written back as it was. -/
theorem setNode_same {nodeId : Value} {n : Entries} (h : wc.find nodeId = some n) :
    wc.setNode nodeId n = wc := by
  obtain ⟨before, after, hlist, hnew⟩ := replaceFirst_eq h
  have hsame : replaceFirst (fun m => Value.eq m.id nodeId) n wc.nodeList = wc.nodeList := by
    rw [hnew n, hlist]
  unfold setNode
  unfold nodeList at hsame
  obtain ⟨nodes, edges, rest⟩ := wc
  cases nodes with
  | none => rfl
  | some nodes => simpa using hsame

/-- The id after the changes: that of the node, or one of the changes. -/
theorem applyChanges_id (py : PyBuiltins) (changes n : Entries) :
    (applyChanges py changes n).1.id = n.id ∨
      ("id", (applyChanges py changes n).1.id) ∈ changes := by
  induction changes generalizing n with
  | nil => exact .inl rfl
  | cons c changes ih =>
      obtain ⟨k, v⟩ := c
      have hconfig : ∀ config : Value, (n.put "config" config).id = n.id :=
        fun config => Entries.getD_put_of_ne (by decide)
      simp only [applyChanges]
      split
      next =>
        split
        next => exact .inl rfl
        next v' _ =>
          split
          next config _ =>
            rcases ih (n.put "config" config) with hsame | hmem
            · exact .inl (hsame.trans (hconfig config))
            · exact .inr (List.mem_cons_of_mem _ hmem)
          next => exact .inl rfl
      next =>
        rcases ih (n.put k v) with hsame | hmem
        · by_cases hk : k = "id"
          · subst hk
            refine .inr (List.mem_cons.mpr (.inl ?_))
            rw [hsame, Entries.id, Entries.getD_put_self]
          · exact .inl (hsame.trans (Entries.getD_put_of_ne (Ne.symm hk)))
        · exact .inr (List.mem_cons_of_mem _ hmem)

theorem removeConfigKeys_id (keys : Value) (n : Entries) :
    (removeConfigKeys keys n).1.id = n.id := by
  have hconfig : ∀ config : Value, (n.put "config" config).id = n.id :=
    fun config => Entries.getD_put_of_ne (by decide)
  unfold removeConfigKeys
  split
  next =>
    split
    next =>
      split
      next => exact hconfig _
      next => rfl
    next => rfl
  next => rfl

/-- A config that is not JSON, and comes first, stops the update before it changes anything. -/
theorem applyChanges_unreadable {changes n : Entries}
    (h : changes.head?.any (unreadable py) = true) :
    ∃ message, applyChanges py changes n = (n, .error message) := by
  cases changes with
  | nil => cases h
  | cons c changes =>
      rw [List.head?_cons, Option.any_some] at h
      unfold unreadable at h
      split at h
      next s =>
        rw [Option.isNone_iff_eq_none] at h
        exact ⟨_, by simp [applyChanges, h]; rfl⟩
      next => cases h

theorem applyChanges_readable {changes n : Entries}
    (h : changes.all (!unreadable py ·) = true) (message : String) :
    (applyChanges py changes n).2 ≠ .error message := by
  induction changes generalizing n with
  | nil => exact fun h => by cases h
  | cons c changes ih =>
      obtain ⟨k, v⟩ := c
      rw [List.all_cons, Bool.and_eq_true] at h
      simp only [applyChanges]
      split
      next hk =>
        subst hk
        split
        next hread =>
          exfalso
          cases v with
          | str s => simp [unreadable, hread] at h
          | _ => cases hread
        next =>
          split
          next => exact ih h.2
          next => exact fun h => by cases h
      next => exact ih h.2

theorem renamesSafely_id {n changes new : Entries} (h : wc.renamesSafely n changes = true)
    (hid : new.id = n.id ∨ ("id", new.id) ∈ changes) :
    new.id.parts = n.id.parts ∨ new.id.parts ∉ wc.nodeIds ∧
      ∀ e ∈ wc.edgeList, n.id.parts ∉ ends e := by
  rcases hid with hsame | hmem
  · exact .inl (by rw [hsame])
  · have hsafe := List.all_eq_true.mp h _ hmem
    simp only [ne_eq, not_true_eq_false, decide_false, Bool.false_or, Bool.or_eq_true,
      decide_eq_true_eq, Bool.and_eq_true, Bool.not_eq_true', List.contains_eq_mem,
      decide_eq_false_iff_not, List.all_eq_true] at hsafe
    exact hsafe

/-- The condition on the changes of an update. -/
def keepsUpdate (py : PyBuiltins) (wc : WorkingCopy) (n changes : Entries) : Prop :=
  changes.head?.any (unreadable py) = true ∨
    changes.all (!unreadable py ·) = true ∧ wc.renamesSafely n changes = true

theorem WellFormed.updateNode (h : wc.WellFormed) (nodeId changes removeKeys : Value)
    (hkeeps : ∀ n read, wc.find nodeId = some n → n ≠ [] → readChanges py changes = .ok read →
      keepsUpdate py wc n read) :
    (wc.updateNode py nodeId changes removeKeys).1.WellFormed ∧
      ∀ message, (wc.updateNode py nodeId changes removeKeys).2 = .ok message →
        isError message = true → (wc.updateNode py nodeId changes removeKeys).1 = wc := by
  unfold WorkingCopy.updateNode
  split
  next => exact ⟨h, fun _ _ _ => rfl⟩
  next => exact ⟨h, fun _ _ _ => rfl⟩
  next n hne hfind =>
    split
    next => exact ⟨h, fun _ _ _ => rfl⟩
    next read hread =>
      rcases hkeeps n read hfind hne hread with hfirst | ⟨hreadable, hsafe⟩
      · obtain ⟨message, happly⟩ := applyChanges_unreadable (n := n) hfirst
        rw [happly]
        have hsame : wc.setNode nodeId n = wc := setNode_same hfind
        refine ⟨?_, fun _ _ _ => hsame⟩
        show (wc.setNode nodeId n).WellFormed
        rw [hsame]
        exact h
      · have hid := renamesSafely_id hsafe (applyChanges_id py read n)
        have hnone := fun message => applyChanges_readable (n := n) hreadable message
        cases happly : applyChanges py read n with
        | mk new outcome =>
            rw [happly] at hid hnone
            cases outcome with
            | error message => exact absurd rfl (hnone message)
            | raised e =>
                refine ⟨h.setNode hfind hid, ?_⟩
                intro message hmessage
                cases hmessage
            | done =>
                refine ⟨h.setNode hfind ?_, ?_⟩
                · rw [removeConfigKeys_id]
                  exact hid
                · -- an update that is done says so
                  intro message hmessage herror
                  cases hr : (removeConfigKeys removeKeys new).2 with
                  | error e =>
                      simp only [hr] at hmessage
                      cases hmessage
                  | ok u =>
                      simp only [hr, Except.map, Except.ok.injEq] at hmessage
                      rw [← hmessage] at herror
                      simp [isError, String.toList_append] at herror

/-- The keys that `set_workflow_meta` writes. -/
def metaKeys : List String := ["name", "description", "icon", "variables"]

section
variable {P : WorkingCopy → Prop}
  (hput : ∀ (wc : WorkingCopy) (key : String) (value : Value), key ∈ metaKeys → P wc →
    P { wc with rest := wc.rest.put key value })
include hput

theorem setRest_keeps (key : String) (hkey : key ∈ metaKeys) (value : Value) (h : P wc) :
    P (wc.setRest key value) := by
  unfold setRest
  split
  next => exact h
  next => exact hput wc key value hkey h

theorem setVariables_keeps (py : PyBuiltins) (values : Value) (h : P wc) :
    P (wc.setVariables py values).1 := by
  unfold setVariables
  split
  next =>
    split
    next => exact hput wc "variables" _ (by decide) h
    next => exact h
  next => exact h

theorem removeVariables_keeps (keys : Value) (h : P wc) : P (wc.removeVariables keys).1 := by
  unfold removeVariables
  split
  next =>
    split
    next =>
      split
      next => exact hput wc "variables" _ (by decide) h
      next => exact h
    next => exact h
  next => exact h

/-- What an entry written under its keys keeps, `set_workflow_meta` keeps. -/
theorem setMeta_keeps (py : PyBuiltins) (name description icon setVars removeVars : Value)
    (h : P wc) : P (wc.setMeta py name description icon setVars removeVars).1 := by
  have hname := setRest_keeps hput "name" (by decide) name h
  have hdescription := setRest_keeps hput "description" (by decide) description hname
  have hicon := setRest_keeps hput "icon" (by decide) icon hdescription
  have hmerged := setVariables_keeps hput py setVars hicon
  unfold WorkingCopy.setMeta
  dsimp only
  split
  next wc' e heq =>
    rw [heq] at hmerged
    exact hmerged
  next wc' u heq =>
    rw [heq] at hmerged
    exact removeVariables_keeps hput removeVars hmerged

end

theorem WellFormed.setMeta (h : wc.WellFormed) (py : PyBuiltins)
    (name description icon setVars removeVars : Value) :
    (wc.setMeta py name description icon setVars removeVars).1.WellFormed :=
  setMeta_keeps (fun _ _ _ _ h => h.of_lists rfl rfl) py name description icon setVars removeVars h

/-! ### Errors -/

theorem addNode_of_isError {node : Entries} (h : isError (wc.addNode node).1 = true) :
    (wc.addNode node).2 = wc := by
  unfold addNode at h ⊢
  split
  next => rfl
  next hid =>
    split
    next => rfl
    next hfinds =>
      rw [if_neg hid, if_neg hfinds] at h
      simp [isError, String.toList_append] at h

theorem removeNode_of_isError {nodeId : Value} (h : isError (wc.removeNode nodeId).1 = true) :
    (wc.removeNode nodeId).2 = wc := by
  unfold removeNode at h ⊢
  split
  next hany =>
    rw [if_pos hany] at h
    simp [isError, String.toList_append] at h
  next => rfl

theorem addEdge_of_isError {source target sourceHandle label : Value}
    (h : isError (wc.addEdge source target sourceHandle label).1 = true) :
    (wc.addEdge source target sourceHandle label).2 = wc := by
  unfold addEdge at h ⊢
  split
  next => rfl
  next hfinds =>
    rw [if_neg hfinds] at h
    simp [isError, String.toList_append] at h

/-- `remove_edge` has no error: that no edge matches is none. -/
theorem removeEdge_not_isError {edgeId source target sourceHandle : Value} :
    isError (wc.removeEdge edgeId source target sourceHandle).1 = false := by
  rw [← Bool.not_eq_true]
  intro h
  unfold removeEdge at h
  dsimp only at h
  split at h
  next => exact absurd h (by decide)
  next => simp [isError, String.toList_append] at h

/-- `set_workflow_meta` raises, or answers that it is done. -/
theorem setMeta_not_isError (py : PyBuiltins) (name description icon setVars removeVars : Value)
    {message : String}
    (h : (wc.setMeta py name description icon setVars removeVars).2 = .ok message) :
    isError message = false := by
  unfold WorkingCopy.setMeta at h
  dsimp only at h
  split at h
  next => cases h
  next wc' u heq =>
    cases hr : (removeVariables wc' removeVars).2 with
    | error e =>
        simp only [hr] at h
        cases h
    | ok u =>
        simp only [hr, Except.map, Except.ok.injEq] at h
        rw [← h]
        decide

end WorkingCopy

/-! ## Calls -/

/-- A call that meets the condition keeps the working copy well formed, and changes nothing if it
returns an error. -/
theorem EditTool.run_wellFormed {py : PyBuiltins} {wc : WorkingCopy} (h : wc.WellFormed)
    (tool : EditTool) (args : Entries)
    (hkeeps : EditCall.keepsForm py wc ⟨tool, .dict args⟩ = true) :
    (tool.run py wc args).1.WellFormed ∧
      ∀ message, (tool.run py wc args).2 = .ok message → isError message = true →
        (tool.run py wc args).1 = wc := by
  cases tool with
  | addNode =>
      unfold EditTool.run
      dsimp only
      split
      next node _ =>
        refine ⟨h.addNode node, ?_⟩
        intro message hmessage herror
        cases hmessage
        exact WorkingCopy.addNode_of_isError herror
      next =>
        refine ⟨h, ?_⟩
        intro message hmessage
        cases hmessage
  | updateNode =>
      refine h.updateNode _ _ _ ?_
      intro n read hfind hne hread
      have hfull : n.isEmpty = false := List.isEmpty_eq_false_iff.mpr hne
      simp only [EditCall.keepsForm, Value.asDict_dict, hfind, hread, hfull, Bool.false_or,
        Bool.or_eq_true, Bool.and_eq_true] at hkeeps
      exact hkeeps
  | removeNode =>
      refine ⟨h.removeNode _, ?_⟩
      intro message hmessage herror
      cases hmessage
      unfold EditTool.run at *
      exact WorkingCopy.removeNode_of_isError herror
  | addEdge =>
      refine ⟨h.addEdge _ ?_, ?_⟩
      · intro hsource htarget
        simpa [EditCall.keepsForm, hsource, htarget] using hkeeps
      · intro message hmessage herror
        cases hmessage
        unfold EditTool.run at *
        exact WorkingCopy.addEdge_of_isError herror
  | removeEdge =>
      refine ⟨h.removeEdge _ _ _ _, ?_⟩
      intro message hmessage herror
      cases hmessage
      unfold EditTool.run at *
      rw [WorkingCopy.removeEdge_not_isError] at herror
      cases herror
  | setWorkflowMeta =>
      refine ⟨h.setMeta py _ _ _ _ _, ?_⟩
      intro message hmessage herror
      rw [WorkingCopy.setMeta_not_isError py _ _ _ _ _ hmessage] at herror
      cases herror

theorem EditCall.execute_wellFormed {py : PyBuiltins} {st : EditState} (h : st.wc.WellFormed)
    {call : EditCall} (hkeeps : call.keepsForm py st.wc = true) :
    (call.execute py st).wc.WellFormed ∧ (call.fails py st = true → call.execute py st = st) := by
  obtain ⟨tool, args⟩ := call
  cases hargs : args.asDict with
  | none =>
      have hrun : EditCall.run py st.wc ⟨tool, args⟩ =
          (st.wc, .error (.attributeError args.typeName "get")) := by
        simp [EditCall.run, hargs]
      refine ⟨?_, ?_⟩
      · simp only [EditCall.execute, hrun]
        exact h
      · intro hfails
        simp [EditCall.fails, hrun] at hfails
  | some fields =>
      obtain rfl := Value.asDict_eq_some.mp hargs
      obtain ⟨hwell, hmessage⟩ := EditTool.run_wellFormed h tool fields hkeeps
      have hrun : EditCall.run py st.wc ⟨tool, .dict fields⟩ = tool.run py st.wc fields := rfl
      simp only [EditCall.execute, EditCall.fails, hrun]
      cases hresult : tool.run py st.wc fields with
      | mk wc result =>
          rw [hresult] at hwell hmessage
          cases result with
          | error e => exact ⟨hwell, fun hfails => by cases hfails⟩
          | ok message =>
              refine ⟨hwell, ?_⟩
              intro hfails
              dsimp only at hfails ⊢
              have hsame : wc = st.wc := hmessage message rfl hfails
              rw [hsame, hfails, Bool.not_true, Bool.or_false]

/-- If every call of a run meets the condition, the working copy is well formed throughout, and the
calls that fail change nothing. -/
theorem EditState.keepsForm_staysWellFormed (py : PyBuiltins) (st : EditState)
    (calls : List EditCall) (h : st.wc.WellFormed) (hkeeps : st.keepsForm py calls = true) :
    st.StaysWellFormed py calls := by
  induction calls generalizing st with
  | nil => exact h
  | cons call calls ih =>
      rw [EditState.keepsForm, Bool.and_eq_true] at hkeeps
      obtain ⟨hwell, hfails⟩ := EditCall.execute_wellFormed h hkeeps.1
      exact ⟨h, hfails, ih _ hwell hkeeps.2⟩

/-! ## Runs -/

/-- No text is JSON, and a value that is not a dict has no entries. -/
private def noJson : PyBuiltins where
  loads _ := none
  dictOf v := .error (.typeError ("'" ++ v.typeName ++ "' object is not iterable"))

/-- A trigger and a step after it, which no edge joins yet. -/
private def unjoined : EditState where
  wc := { nodes := some [[("id", .str "t1"), ("type", .str "manual_trigger")],
    [("id", .str "s1"), ("type", .str "set_variable"), ("label", .str "Step")]] }

private def connect : EditCall :=
  ⟨.addEdge, .dict [("source", .str "t1"), ("target", .str "s1")]⟩

private def update (changes : Entries) : EditCall :=
  ⟨.updateNode, .dict [("node_id", .str "s1"), ("changes", .dict changes)]⟩

private theorem unjoined_wellFormed : unjoined.wc.WellFormed where
  nodeIds := by decide +kernel
  edgeIds := by decide +kernel
  endpoints := by decide +kernel

theorem connected_staysWellFormed :
    unjoined.StaysWellFormed noJson
      [connect, update [("config", .str "not json"), ("label", .str "New")],
        update [("label", .str "New")], ⟨.removeNode, .dict [("node_id", .str "t1")]⟩,
        update [("id", .str "s2")], connect] :=
  EditState.keepsForm_staysWellFormed noJson unjoined _ unjoined_wellFormed (by decide +kernel)

/-- Two edges that are drawn alike get one id. A node that is renamed leaves its edges behind. An
update that fails on its second change has made the first. -/
theorem unjoined_breaks :
    unjoined.wc.WellFormed ∧
      ¬ unjoined.StaysWellFormed noJson [connect, connect] ∧
      ¬ unjoined.StaysWellFormed noJson [connect, update [("id", .str "s2")]] ∧
      ¬ unjoined.StaysWellFormed noJson
        [update [("label", .str "New"), ("config", .str "not json")]] := by
  refine ⟨unjoined_wellFormed, ?_, ?_, ?_⟩
  · rintro ⟨-, -, -, -, h⟩
    exact absurd h.edgeIds (by decide +kernel)
  · rintro ⟨-, -, -, -, h⟩
    exact absurd h.endpoints (by decide +kernel)
  · rintro ⟨-, h, -⟩
    have hlabel := congrArg (fun st => st.wc.nodeList.map fun n => (Value.getD n "label").parts)
      (h (by decide +kernel))
    exact absurd hlabel (by decide +kernel)

end CitraFlows
