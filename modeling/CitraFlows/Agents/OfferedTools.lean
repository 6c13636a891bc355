-- SUMMARY: Which tools an agent node runs: those offered to the model, and those that a call names all the same.
import CitraFlows.Agents.WriteBlock

/-!
# Offered tools

A node offers the tools of its picker to the model. A call is dispatched by its name. A tool that
needs a connection finds one only if it is in the picker; the others are run in any case.
-/

namespace CitraFlows

namespace Agent

/-! ## Offers -/

/-- The names in `_build_tool_definitions(tool_names)` -/
def offeredTools (ctx : NodeContext) : List String := toolExecutors.filter (picked ctx)

/-- A tool that needs no connection. -/
def Unconnected (name : String) : Prop := name ∈ toolExecutors ∧ connectionOf name = none

instance (name : String) : Decidable (Unconnected name) := inferInstanceAs (Decidable (_ ∧ _))

/-- Every tool that the run executes was offered to the model. -/
def RunsOffered (ctx : NodeContext) (log : List Event) : Prop :=
  ∀ call, .ran call ∈ log → call.name ∈ offeredTools ctx

/-- The node gets to ask the model: it makes an attempt, and its iterations are within the
limit. -/
def Iterates (ctx : NodeContext) (limit : Int) : Prop :=
  0 ≤ BaseNode.maxRetries {} ctx.config ∧
    ∃ n : Int, ((Value.field ctx.config "max_iterations").getD (.int 10)).toInt = some n ∧
      1 ≤ n ∧ n ≤ limit

/-! ## What is run -/

/-- A tool of that name gets to its work: it is offered, or it needs no connection. -/
def Reached (ctx : NodeContext) (name : String) : Prop :=
  name ∈ offeredTools ctx ∨ Unconnected name

/-- Each tool that was run is one that a call of the model named, and that is reached. -/
def Traced (ctx : NodeContext) (log : List Event) : Prop :=
  ∀ call, .ran call ∈ log →
    Reached ctx call.name ∧ ∃ fnArgs iteration, .met call fnArgs iteration ∈ log

variable {env : AgentEnv} {ctx : NodeContext} {log : List Event}

def Event.isRan : Event → Bool
  | .ran _ => true
  | _ => false

theorem Traced.nil : Traced ctx [] := by
  intro call hcall
  cases hcall

theorem Traced.emit (h : Traced ctx log) {e : Event} (he : e.isRan = false) :
    Traced ctx (log ++ [e]) := by
  intro call hcall
  rcases List.mem_append.mp hcall with hcall | hcall
  · obtain ⟨hrun, fnArgs, iteration, hmet⟩ := h call hcall
    exact ⟨hrun, fnArgs, iteration, List.mem_append_left _ hmet⟩
  · obtain rfl := List.mem_singleton.mp hcall
    cases he

/-- A tool is run for a call that the run has come to. -/
theorem Traced.ran (h : Traced ctx log) {call : ToolCall} (hrun : Reached ctx call.name)
    (hmet : ∃ fnArgs iteration, .met call fnArgs iteration ∈ log) :
    Traced ctx (log ++ [.ran call]) := by
  intro call' hcall
  rcases List.mem_append.mp hcall with hcall | hcall
  · obtain ⟨hrun', fnArgs, iteration, hmet'⟩ := h call' hcall
    exact ⟨hrun', fnArgs, iteration, List.mem_append_left _ hmet'⟩
  · cases List.mem_singleton.mp hcall
    obtain ⟨fnArgs, iteration, hmet⟩ := hmet
    exact ⟨hrun, fnArgs, iteration, List.mem_append_left _ hmet⟩

/-- A tool that its checks let do its work is reached. -/
theorem reached_of_guard {fields : List (String × Value)} {name : String}
    (hname : name ∈ toolExecutors) (hguard : toolGuard env ctx fields name = .ok ()) :
    Reached ctx name := by
  cases hconnection : connectionOf name with
  | none => exact .inr ⟨hname, hconnection⟩
  | some c =>
      have hpicked : picked ctx name = true := toolGuard_picked hguard (by rw [hconnection]; rfl)
      exact .inl (List.mem_filter.mpr ⟨hname, hpicked⟩)

/-- The dispatch runs the tool of the call, if that is reached, and nothing else. -/
theorem dispatch_runs (call : ToolCall) (fnArgs : Value) (s : AgentState) :
    (dispatch env ctx call fnArgs s).2.log = s.log ∨
      (dispatch env ctx call fnArgs s).2.log = s.log ++ [.ran call] ∧ Reached ctx call.name := by
  unfold dispatch
  split
  next => exact .inl rfl
  next hname =>
    split
    next => exact .inl rfl
    next =>
      split
      next => exact awaitTool_log.imp_right fun hran =>
        ⟨hran.1, reached_of_guard (not_not.mp hname) hran.2⟩
      next => exact .inl rfl

theorem handleCall_traced (env : AgentEnv) (iteration : Nat) (call : ToolCall) {s : AgentState}
    (h : Traced ctx s.log) : Traced ctx (handleCall env ctx iteration call s).2.log := by
  unfold handleCall
  split
  next => exact h
  next fnArgs hargs =>
    have hmet : Traced ctx (s.meet call fnArgs iteration).log := h.emit rfl
    split
    next err herr =>
      simp only [blockWrite]
      split
      next => exact hmet.emit rfl
      next => exact hmet
      next => exact hmet
    next => exact hmet
    next =>
      have hdispatch : Traced ctx
          (dispatch env ctx call fnArgs (s.meet call fnArgs iteration)).2.log := by
        rcases dispatch_runs call fnArgs (s.meet call fnArgs iteration) with hlog | ⟨hlog, hrun⟩
        · rw [hlog]
          exact hmet
        · rw [hlog]
          exact hmet.ran hrun ⟨fnArgs, iteration, by simp⟩
      simp only
      split
      next result s' heq =>
        rw [heq] at hdispatch
        exact hdispatch.emit rfl
      next s' heq =>
        rw [heq] at hdispatch
        exact hdispatch

/-- Every tool that a run executes is reached, and was called. -/
theorem runNode_traced (env : AgentEnv) (ctx : NodeContext) : Traced ctx (runNode env ctx).2 :=
  runNode_rule Traced.nil (fun _ _ h => h.emit rfl)
    fun iteration call _ h => handleCall_traced env iteration call h

/-- A node that does not get to ask the model runs nothing. -/
theorem runNode_idle (h : ¬ Iterates ctx env.maxAgentIterations) : (runNode env ctx).2 = [] := by
  by_cases hretries : 0 ≤ BaseNode.maxRetries {} ctx.config
  · have hidle : ∀ log, (execute env ctx log).2 = log := by
      intro log
      unfold execute
      simp only
      split
      next => rfl
      next n hn =>
        split
        next => rfl
        next hle =>
          have hzero : n.toNat = 0 := by
            have hnot : ¬ 1 ≤ n := fun hone => h ⟨hretries, n, hn, hone, not_lt.mp hle⟩
            omega
          rw [hzero]
          split <;> rfl
    exact BaseNode.runFrom_rule (R := fun s _ s' => s' = s) (fun _ _ _ _ => rfl)
      (fun s s' _ _ _ hexec => by simpa [hexec] using hidle s)
      (fun s s' _ _ _ hexec _ => by simpa [hexec] using hidle s)
      (fun s s' _ _ _ hexec _ hrest => hrest.trans (by simpa [hexec] using hidle s))
      (fun s s' hexec => by simpa [hexec] using hidle s) []
  · have hzero : (1 + BaseNode.maxRetries {} ctx.config).toNat = 0 := by omega
    rw [runNode, BaseNode.runFrom, hzero]
    rfl

/-- An iteration whose calls are all answered is followed by the next one. -/
theorem iterations_goOn {task : Task} {left iteration : Nat} {s s' : AgentState}
    {content : String} {toolCalls : List ToolCall}
    (hcharge : env.charge (s.instruct task iteration).log = none)
    (hreply : env.reply ((s.instruct task iteration).log ++
      [.request (s.instruct task iteration).messages]) = .message content toolCalls)
    (hcall : toolCalls.isEmpty = false)
    (hcalls : handleCalls env ctx iteration toolCalls
      (((s.instruct task iteration).emit (.request (s.instruct task iteration).messages)).say
        (.assistant content toolCalls)) = (none, s')) :
    iterations env ctx task (left + 1) iteration s =
      iterations env ctx task left (iteration + 1) s' := by
  simp only [iterations, hcharge, AgentState.emit_log, hreply, hcall, hcalls]
  rfl

/-! ## A model that calls a tool it was not offered -/

/-- A call of the tool without arguments. -/
def bareCall (name : String) : ToolCall where
  id := "call_1"
  name := name
  arguments := .value (.dict [])

/-- A model that calls the tool first, and reports once it has an answer. -/
def callingAgent (limit : Int) (name : String) : AgentEnv where
  it := .ascii
  prepare _ := .ready { messages := [.user "Help"] }
  charge _ := none
  reply log := if log.length ≤ 1 then .message "" [bareCall name] else .message "Done" []
  tool _ _ := .returned "ok"
  audit _ := .written
  loads _ := none
  maxAgentIterations := limit

/-- The guards let the call pass, and its tool is run. -/
theorem handleCall_bareCall {limit : Int} {name : String} (h : Unconnected name)
    (iteration : Nat) (s : AgentState) :
    ∃ s', handleCall (callingAgent limit name) ctx iteration (bareCall name) s = (none, s') ∧
      .ran (bareCall name) ∈ s'.log ∧ 1 < s'.log.length := by
  obtain ⟨hname, hconnection⟩ := h
  have hargs : (bareCall name).fnArgs = .ok (.dict []) := rfl
  have hpass : assertToolIsReadOnly (callingAgent limit name).it (bareCall name).name (.dict []) =
      .ok () := by
    have hall : ∀ name ∈ toolExecutors,
        (assertToolIsReadOnly .ascii name (.dict [])).toBool = true := by
      decide +kernel
    change assertToolIsReadOnly .ascii name (.dict []) = .ok ()
    cases hguard : assertToolIsReadOnly .ascii name (.dict []) with
    | ok u => rfl
    | error e =>
        have htrue := hall name hname
        rw [hguard] at htrue
        cases htrue
  have hguard : toolGuard (callingAgent limit name) ctx [] (bareCall name).name = .ok () := by
    change toolGuard (callingAgent limit name) ctx [] name = .ok ()
    unfold toolGuard
    -- the tools with a check of their own are those with a connection
    split
    next => cases hconnection
    next => cases hconnection
    next => cases hconnection
    next => cases hconnection
    next => rfl
  refine ⟨((s.meet (bareCall name) (.dict []) iteration).emit
    (.ran (bareCall name))).answer (bareCall name) "ok", ?_, by simp, by simp⟩
  have hdispatch : ∀ s : AgentState,
      dispatch (callingAgent limit name) ctx (bareCall name) (.dict []) s =
        (some "ok", s.emit (.ran (bareCall name))) := by
    intro s
    have hin : ¬ (bareCall name).name ∉ toolExecutors := not_not.mpr hname
    have hmissing : missingConnection ctx (bareCall name).name = none := by
      change missingConnection ctx name = none
      rw [missingConnection, hconnection]
    rw [dispatch, if_neg hin, hmissing]
    change awaitTool (callingAgent limit name) ctx (bareCall name) [] s = _
    simp only [awaitTool, hguard]
    rfl
  simp only [handleCall, hargs, hpass, hdispatch]

/-- A node that gets to ask a model runs any tool that needs no connection. -/
theorem runNode_callingAgent {limit : Int} {name : String} (hiterates : Iterates ctx limit)
    (h : Unconnected name) : .ran (bareCall name) ∈ (runNode (callingAgent limit name) ctx).2 := by
  obtain ⟨hretries, n, hn, hone, hle⟩ := hiterates
  obtain ⟨left, hleft⟩ : ∃ left, n.toNat = left + 1 := ⟨n.toNat - 1, by omega⟩
  obtain ⟨k, hk⟩ : ∃ k, (1 + BaseNode.maxRetries {} ctx.config).toNat = k + 1 :=
    ⟨(BaseNode.maxRetries {} ctx.config).toNat, by omega⟩
  have hfirst : ∃ s', handleCall (callingAgent limit name) ctx 0 (bareCall name)
      (((AgentState.mk [] [.user "Help"] []).emit (.request [.user "Help"])).say
        (.assistant "" [bareCall name])) = (none, s') ∧
      .ran (bareCall name) ∈ s'.log ∧ 1 < s'.log.length := handleCall_bareCall h 0 _
  obtain ⟨s', hcall, hran, hlength⟩ := hfirst
  -- the second request, if there is one, ends the run
  have hrest : ∃ output s'', iterations (callingAgent limit name) ctx
      { messages := [.user "Help"] } left 1 s' = (.returned output, s'') ∧
        .ran (bareCall name) ∈ s''.log := by
    cases left with
    | zero => exact ⟨_, _, rfl, hran⟩
    | succ left =>
        have hmore : ¬ (s'.log ++ [Event.request s'.messages]).length ≤ 1 := by
          simp only [List.length_append, List.length_singleton]
          omega
        refine ⟨({ result := .str "Done" } : AgentResult).output s'.toolCallsLog,
          s'.emit (.request s'.messages), ?_, by simp [hran]⟩
        simp only [iterations, AgentState.instruct, callingAgent, AgentState.emit, if_neg hmore]
        rfl
  obtain ⟨output, s'', hiterations, hmem⟩ := hrest
  have hexecute : execute (callingAgent limit name) ctx [] = (.returned output, s''.log) := by
    have hlimit : ¬ (callingAgent limit name).maxAgentIterations < n := not_lt.mpr hle
    have hcalls : handleCalls (callingAgent limit name) ctx 0 [bareCall name]
        (((AgentState.mk [] [.user "Help"] []).emit (.request [.user "Help"])).say
          (.assistant "" [bareCall name])) = (none, s') := by
      rw [handleCalls, hcall]
      rfl
    have hrun : iterations (callingAgent limit name) ctx { messages := [.user "Help"] }
        (left + 1) 0 { log := [], messages := [.user "Help"] } = (.returned output, s'') :=
      (iterations_goOn rfl rfl rfl hcalls).trans hiterations
    rw [execute]
    simp only [hn, hlimit, if_false, hleft]
    rw [show (callingAgent limit name).prepare [] = .ready { messages := [.user "Help"] } from rfl]
    simp only [hrun]
  rw [runNode, BaseNode.runFrom, hk, BaseNode.attemptsFrom, hexecute]
  exact hmem

/-! ## Main results -/

/-- The tools that a node runs on a call whether it offers them or not. -/
example : ∀ name, Unconnected name ↔ name ∈ ["web_search", "code_execute", "http_request"] := by
  intro name
  constructor
  · rintro ⟨hname, hconnection⟩
    revert name
    decide
  · revert name
    decide

/-- A node whose picker holds the web search only. -/
def researchContext : NodeContext :=
  { agentContext with config := [("tools", .list [.str "web_search"])] }

end Agent

end CitraFlows
