-- SUMMARY: How the executor gathers a node's input from its parents and decides whether condition and switch parents route to it.
import CitraFlows.Models

/-!
# Input gathering and branch routing

Both scheduling loops of `executor.py` read the outputs of a node's parents twice:
to build the node's input, and to see whether a condition or switch parent routed
elsewhere. `execute()` and `resume()` carry their own copies of that code. What is
the same in both is one definition here; where the copies differ, each keeps its own.
-/

namespace CitraFlows

open Python

abbrev NodeOutputs := AList (fun _ : NodeId => Value)

/-! ## Branch tokens -/

/-- `_TRUE_BRANCH_TOKENS` -/
def trueBranchTokens : List String :=
  ["true", "yes", "y", "pass", "passed", "met", "ok", "success", "1", "t", "then"]

/-- `_FALSE_BRANCH_TOKENS` -/
def falseBranchTokens : List String :=
  ["false", "no", "n", "fail", "failed", "not met", "notmet", "not_met",
   "reject", "rejected", "0", "f", "else"]

/-- Map an edge handle or label to `true`, `false` or no branch. -/
def normalizeBranchToken (value : Option String) : Option String :=
  match value with
  | none => none
  | some value =>
      let t := lower (strip value.toList)
      if t = [] then none
      else if t ∈ trueBranchTokens.map String.toList then some "true"
      else if t ∈ falseBranchTokens.map String.toList then some "false"
      else none

/-- The branch an edge belongs to, from its source handle, then from its label. -/
def edgeConditionBranch (e : EdgeDefinition) : Option String :=
  (normalizeBranchToken e.sourceHandle).or (normalizeBranchToken e.label)

/-- The route index an edge leaves a switch by: `int(h.replace("out-", ""))`, with no
index for a handle that `int` rejects. A missing or empty handle counts as `out-0`. -/
def edgeSwitchRoute (e : EdgeDefinition) : Option Int :=
  let h := match e.sourceHandle with
    | none => "out-0"
    | some h => if h = "" then "out-0" else h
  int (removeAll "out-".toList h.toList.length h.toList)

/-! ## Gates -/

variable (wf : WorkflowDefinition)

/-- A condition parent with output metadata `meta` closes the way to `nid`: its edges to
`nid` carry branch information and none of it is the taken branch. -/
def conditionSkips (pid nid : NodeId) (metadata : List (String × Value)) : Bool :=
  let branch := (Value.field metadata "branch").getD (.str "true")
  let knownBranches := (wf.edgesBetween pid nid).filterMap edgeConditionBranch
  !knownBranches.isEmpty && !knownBranches.any branch.eqStr

/-- A switch parent with output metadata `meta` closes the way to `nid`: it matched a
route and none of its edges to `nid` leaves by that route. -/
def switchSkips (pid nid : NodeId) (metadata : List (String × Value)) : Bool :=
  let matchedRoute := Value.getD metadata "matched_route"
  !matchedRoute.isNone &&
    !(wf.edgesBetween pid nid).any fun e => (edgeSwitchRoute e).any matchedRoute.eqInt

/-- The metadata is that of a condition output. -/
def isConditionMeta (metadata : List (String × Value)) : Bool :=
  !(Value.getD metadata "condition_result").isNone

/-- The metadata is that of a switch output (the loop asks this after the question above). -/
def isSwitchMeta (metadata : List (String × Value)) : Bool :=
  !isConditionMeta metadata && (Value.getD metadata "switch_result").truthy

/-! ## One parent -/

/-- The two places the scheduling loop is written out. -/
inductive Segment where
  | execute
  | resume
  deriving DecidableEq

/-- The metadata of an output in the universal envelope; empty for anything else. -/
def outputMeta (output : Value) : List (String × Value) :=
  match output.asDict.bind (Value.field · "meta") with
  | some (.dict metadata) => metadata
  | _ => []

/-- `parent_meta` of a parent output. `execute()` takes anything but a dict for `{}`;
`resume()` does not look, so that the `.get` that follows raises. -/
def parentMeta : Segment → List (String × Value) → Except PyError (List (String × Value))
  | .execute, output =>
      match Value.field output "meta" with
      | some (.dict metadata) => .ok metadata
      | _ => .ok []
  | .resume, output =>
      match Value.field output "meta" with
      | none => .ok []
      | some (.dict metadata) => .ok metadata
      | some v => .error (.attributeError v.typeName "get")

/-- `node_outputs.get(pid, {})` -/
def outputOf (outputs : NodeOutputs) (pid : NodeId) : Value :=
  (outputs.lookup pid).getD (.dict [])

/-- What the loop over the parents carries: the skip flag and the input data. -/
structure Routing where
  skip : Bool
  inputData : Value

/-- One turn of `for pid in parent_ids`. A condition or switch parent may raise the skip
flag, and its output replaces the input data. -/
def routeParent (seg : Segment) (outputs : NodeOutputs) (nid : NodeId) (r : Routing)
    (pid : NodeId) : Except PyError Routing :=
  match outputOf outputs pid with
  | .dict output =>
      match parentMeta seg output with
      | .error e => .error e
      | .ok metadata =>
          if isConditionMeta metadata && (wf.nodeMap pid).isSome then
            .ok ⟨r.skip || conditionSkips wf pid nid metadata, .dict output⟩
          else if isSwitchMeta metadata && (wf.nodeMap pid).isSome then
            .ok ⟨r.skip || switchSkips wf pid nid metadata, .dict output⟩
          else .ok r
  | _ => .ok r

/-! ## All parents -/

/-- The input before routing: the trigger data for a root, the parent's output for one
parent, the list of the parents' outputs in edge order otherwise. -/
def gatherInput (triggerData : List (String × Value)) (outputs : NodeOutputs) (nid : NodeId) :
    Value :=
  match wf.incoming nid with
  | [] => .dict triggerData
  | [pid] => outputOf outputs pid
  | pids => .list (pids.map (outputOf outputs))

/-- The loop over the parents. -/
def routeParents (seg : Segment) (outputs : NodeOutputs) (nid : NodeId) :
    List NodeId → Routing → Except PyError Routing
  | [], r => .ok r
  | pid :: pids, r =>
      match routeParent wf seg outputs nid r pid with
      | .error e => .error e
      | .ok r => routeParents seg outputs nid pids r

/-- Every parent was skipped, or failed with `continue_on_error` set. -/
def allParentsSkipped (results : NodeResults) (softFailed : Finset NodeId) (nid : NodeId) :
    Bool :=
  (wf.incoming nid).all fun p =>
    p ∈ softFailed || (results.lookup p).any fun r => r.status = .skipped

/-- Input data and skip decision for a node. Only `execute()` propagates a skip to a node
all of whose parents were skipped; `resume()` stops after the routing. -/
def route (seg : Segment) (triggerData : List (String × Value)) (outputs : NodeOutputs)
    (results : NodeResults) (softFailed : Finset NodeId) (nid : NodeId) :
    Except PyError Routing :=
  match routeParents wf seg outputs nid (wf.incoming nid)
      ⟨false, gatherInput wf triggerData outputs nid⟩ with
  | .error e => .error e
  | .ok r =>
      match seg with
      | .execute =>
          if !r.skip && !(wf.incoming nid).isEmpty &&
              allParentsSkipped wf results softFailed nid then .ok { r with skip := true }
          else .ok r
      | .resume => .ok r

/-! ## What routing depends on -/

section
variable {wf} {seg : Segment} {outputs outputs' : NodeOutputs} {nid : NodeId}

theorem outputOf_congr {pid : NodeId} (h : outputs.lookup pid = outputs'.lookup pid) :
    outputOf outputs pid = outputOf outputs' pid := by
  unfold outputOf
  rw [h]

theorem routeParent_congr {r : Routing} {pid : NodeId}
    (h : outputs.lookup pid = outputs'.lookup pid) :
    routeParent wf seg outputs nid r pid = routeParent wf seg outputs' nid r pid := by
  unfold routeParent
  rw [outputOf_congr h]

theorem routeParents_congr {pids : List NodeId} {r : Routing}
    (h : ∀ pid ∈ pids, outputs.lookup pid = outputs'.lookup pid) :
    routeParents wf seg outputs nid pids r = routeParents wf seg outputs' nid pids r := by
  induction pids generalizing r with
  | nil => rfl
  | cons pid pids ih =>
      have ih' := fun r => ih (r := r) fun p hp => h p (List.mem_cons_of_mem _ hp)
      simp only [routeParents, routeParent_congr (h pid List.mem_cons_self), ih']

theorem gatherInput_congr {triggerData : List (String × Value)}
    (h : ∀ pid ∈ wf.incoming nid, outputs.lookup pid = outputs'.lookup pid) :
    gatherInput wf triggerData outputs nid = gatherInput wf triggerData outputs' nid := by
  unfold gatherInput
  split
  case h_1 => rfl
  case h_2 pid hin => exact outputOf_congr (h pid (by simp [hin]))
  case h_3 => exact congrArg Value.list (List.map_congr_left fun pid hp => outputOf_congr (h pid hp))

theorem allParentsSkipped_congr {results results' : NodeResults} {softFailed softFailed' : Finset NodeId}
    (hr : ∀ pid ∈ wf.incoming nid, results.lookup pid = results'.lookup pid)
    (hs : ∀ pid ∈ wf.incoming nid, pid ∈ softFailed ↔ pid ∈ softFailed') :
    allParentsSkipped wf results softFailed nid = allParentsSkipped wf results' softFailed' nid := by
  rw [Bool.eq_iff_iff]
  simp only [allParentsSkipped, List.all_eq_true]
  refine forall₂_congr fun pid hp => ?_
  rw [hr pid hp, decide_eq_decide.mpr (hs pid hp)]

/-- Routing a node looks at nothing but its parents. -/
theorem route_congr {triggerData : List (String × Value)} {results results' : NodeResults}
    {softFailed softFailed' : Finset NodeId}
    (ho : ∀ pid ∈ wf.incoming nid, outputs.lookup pid = outputs'.lookup pid)
    (hr : ∀ pid ∈ wf.incoming nid, results.lookup pid = results'.lookup pid)
    (hs : ∀ pid ∈ wf.incoming nid, pid ∈ softFailed ↔ pid ∈ softFailed') :
    route wf seg triggerData outputs results softFailed nid =
      route wf seg triggerData outputs' results' softFailed' nid := by
  unfold route
  rw [gatherInput_congr ho, routeParents_congr ho, allParentsSkipped_congr hr hs]

end

/-! ## What routing decides -/

/-- A condition or switch parent with this output is asked for its branch; what it put out
becomes the input of the node. -/
def gates (wf : WorkflowDefinition) (pid : NodeId) (output : Value) : Bool :=
  (isConditionMeta (outputMeta output) || isSwitchMeta (outputMeta output)) &&
    (wf.nodeMap pid).isSome

/-- A parent with this output closes the way to `nid`. -/
def gateClosed (wf : WorkflowDefinition) (pid nid : NodeId) (output : Value) : Bool :=
  gates wf pid output &&
    if isConditionMeta (outputMeta output) then conditionSkips wf pid nid (outputMeta output)
    else switchSkips wf pid nid (outputMeta output)

/-- The output of a parent that is asked for its branch. -/
def gateInput (wf : WorkflowDefinition) (input : Value) (pid : NodeId) (output : Value) : Value :=
  if gates wf pid output then output else input

section
variable {wf} {seg : Segment} {outputs : NodeOutputs} {nid : NodeId}

theorem parentMeta_execute {output : List (String × Value)} :
    parentMeta .execute output = .ok (outputMeta (.dict output)) := by
  simp only [parentMeta, outputMeta, Value.asDict, Option.bind_some]
  split <;> simp_all

theorem parentMeta_ok {output metadata : List (String × Value)}
    (h : parentMeta seg output = .ok metadata) : metadata = outputMeta (.dict output) := by
  cases seg with
  | execute =>
      rw [parentMeta_execute] at h
      cases h
      rfl
  | resume =>
      simp only [outputMeta, Value.asDict, Option.bind_some]
      simp only [parentMeta] at h
      split at h <;> simp_all

/-- The metadata of an output that is no dict is that of neither a condition nor a switch. -/
theorem gates_of_not_dict {pid : NodeId} {output : Value} (h : output.asDict = none) :
    gates wf pid output = false := by
  simp [gates, outputMeta, h, isConditionMeta, isSwitchMeta, Value.getD, Value.field,
    Value.isNone, Value.truthy]

theorem gates_empty {pid : NodeId} : gates wf pid (.dict []) = false := by
  simp [gates, outputMeta, isConditionMeta, isSwitchMeta, Value.getD, Value.field,
    Value.isNone, Value.truthy]

theorem routeParent_ok {r r' : Routing} {pid : NodeId}
    (h : routeParent wf seg outputs nid r pid = .ok r') :
    r' = ⟨r.skip || gateClosed wf pid nid (outputOf outputs pid),
      gateInput wf r.inputData pid (outputOf outputs pid)⟩ := by
  unfold routeParent at h
  split at h
  case h_1 output hout =>
    rw [hout]
    split at h
    case h_1 => cases h
    case h_2 metadata hm =>
      have hmeta := parentMeta_ok hm
      subst hmeta
      have hswitch : isConditionMeta (outputMeta (.dict output)) = true →
          isSwitchMeta (outputMeta (.dict output)) = false := by
        intro hc
        simp [isSwitchMeta, hc]
      by_cases hc : isConditionMeta (outputMeta (.dict output)) = true <;>
      by_cases hs : isSwitchMeta (outputMeta (.dict output)) = true <;>
      by_cases hn : (wf.nodeMap pid).isSome = true <;>
        simp_all [gateClosed, gateInput, gates]
  case h_2 hno =>
    cases h
    have hd : (outputOf outputs pid).asDict = none := by
      unfold Value.asDict
      split
      · rename_i fields heq
        exact absurd heq (hno fields)
      · rfl
    simp [gateClosed, gateInput, gates_of_not_dict hd]

/-- The parents skip a node when one of them closes the way. -/
theorem routeParents_ok {pids : List NodeId} {r r' : Routing}
    (h : routeParents wf seg outputs nid pids r = .ok r') :
    r' = ⟨r.skip || pids.any fun pid => gateClosed wf pid nid (outputOf outputs pid),
      pids.foldl (fun input pid => gateInput wf input pid (outputOf outputs pid)) r.inputData⟩ := by
  induction pids generalizing r with
  | nil =>
      cases h
      simp
  | cons pid pids ih =>
      unfold routeParents at h
      split at h
      case h_1 => cases h
      case h_2 r₁ hr₁ =>
        rw [ih h, routeParent_ok hr₁]
        simp [Bool.or_assoc]

/-- What `route` decides where it does not raise. -/
theorem route_ok {triggerData : List (String × Value)} {results : NodeResults}
    {softFailed : Finset NodeId} {r : Routing}
    (h : route wf seg triggerData outputs results softFailed nid = .ok r) :
    (r.skip = true ↔
      (∃ pid ∈ wf.incoming nid, gateClosed wf pid nid (outputOf outputs pid) = true) ∨
      (seg = .execute ∧ wf.incoming nid ≠ [] ∧
        allParentsSkipped wf results softFailed nid = true)) ∧
    r.inputData = (wf.incoming nid).foldl
      (fun input pid => gateInput wf input pid (outputOf outputs pid))
      (gatherInput wf triggerData outputs nid) := by
  unfold route at h
  split at h
  case h_1 => cases h
  case h_2 r₁ hr₁ =>
    have hr := routeParents_ok hr₁
    simp only [Bool.false_or] at hr
    have hskip : r₁.skip = true ↔
        ∃ pid ∈ wf.incoming nid, gateClosed wf pid nid (outputOf outputs pid) = true := by
      rw [hr]
      simp
    -- `execute()` also skips a node whose parents are all dead; `resume()` does not look
    cases seg with
    | execute =>
        dsimp only at h
        split at h
        case isTrue hall =>
          cases h
          simp only [Bool.and_eq_true, Bool.not_eq_true', List.isEmpty_eq_false_iff] at hall
          exact ⟨by simp [hall.1.2, hall.2], by rw [hr]⟩
        case isFalse hall =>
          cases h
          refine ⟨?_, by rw [hr]⟩
          rw [← hskip]
          simp only [Bool.and_eq_true, Bool.not_eq_true', List.isEmpty_eq_false_iff] at hall
          constructor
          · exact .inl
          · rintro (hs | ⟨-, hne, hp⟩)
            · exact hs
            · by_contra hs
              exact hall ⟨⟨by simpa using hs, hne⟩, hp⟩
    | resume =>
        cases h
        exact ⟨by rw [← hskip]; simp, by rw [hr]⟩

end

end CitraFlows
