-- SUMMARY: A write attempt fails the node, is audited and ends the run, unless it is the statement of a sql_query.
import CitraFlows.Agents.Loop

/-!
# Write attempts

A run of an agent node may come to a tool call that a read-only guard refuses. `Lawful` says that
the run then stops there; `Heeded` says that no such call is a `sql_query`, whose guard raises
what the loop hands back to the model, and that the audit log takes the records.
-/

namespace CitraFlows

namespace Agent

/-! ## What a run owes -/

/-- A read-only guard refuses the call. -/
inductive Refused (it : Interpreter) (call : ToolCall) (fnArgs : Value) : Prop where
  | statement {fields : List (String × Value)} {sql : String} (name : call.name = "sql_query")
      (args : fnArgs = .dict fields) (argument : sqlArgument fields = .str sql)
      (rejected : validateReadonlySql it sql ≠ .ok ())
  | attempt {err : WriteBlockedError}
      (blocked : assertToolIsReadOnly it call.name fnArgs = .error (.writeBlocked err))

/-- The run stopped at the call: the node has failed, and what follows is the audit record. -/
structure Stopped (call : ToolCall) (iteration : Nat) (o : NodeEnd) (after : List Event) :
    Prop where
  failed : o.failed = true
  audited : ∃ record, .audited record ∈ after ∧ record.tool = call.name ∧
    record.iteration = iteration
  noRequest : ∀ messages, .request messages ∉ after
  noTool : ∀ c, .ran c ∉ after
  notAnswered : ∀ content, .answered call.id content ∉ after

/-- A run stops at every call that is refused. -/
def Lawful (it : Interpreter) (run : NodeEnd × List Event) : Prop :=
  ∀ before call fnArgs iteration after,
    run.2 = before ++ .met call fnArgs iteration :: after → Refused it call fnArgs →
      Stopped call iteration run.1 after

/-- The refused calls that a run comes to are none of `sql_query`, and find the audit log
writable. -/
def Heeded (env : AgentEnv) (log : List Event) : Prop :=
  ∀ before call fnArgs iteration after,
    log = before ++ .met call fnArgs iteration :: after → Refused env.it call fnArgs →
      call.name ≠ "sql_query" ∧ env.audit (before ++ [.met call fnArgs iteration]) = .written

/-! ## What follows a refused call in its attempt -/

/-- How an attempt goes on after it came to a refused call; `o` is `none` while it goes on. -/
inductive Follows (audit : AuditWrite) (call : ToolCall) (iteration : Nat) :
    Option NodeAttempt → List Event → Prop where
  | answered {o : Option NodeAttempt} {content : String} {rest : List Event}
      (name : call.name = "sql_query") :
      Follows audit call iteration o (.answered call.id content :: rest)
  | interrupted (name : call.name = "sql_query") :
      Follows audit call iteration (some .cancelled) []
  | audited {exc : NodeError} {record : AuditRecord} (name : call.name ≠ "sql_query")
      (written : audit = .written) (tool : record.tool = call.name)
      (inIteration : record.iteration = iteration) (blocked : exc.nonRetryable = true) :
      Follows audit call iteration (some (.raised exc)) [.audited record]
  | dropped {exc : NodeError} (name : call.name ≠ "sql_query") (lost : audit = .dropped)
      (blocked : exc.nonRetryable = true) :
      Follows audit call iteration (some (.raised exc)) []
  | unlogged {exc : NodeError} {text : String} (name : call.name ≠ "sql_query")
      (closed : audit = .raised text) (retried : exc.nonRetryable = false) :
      Follows audit call iteration (some (.raised exc)) []

/-- A part of an attempt appends events to the log, and what follows a refused call among them
is as `Follows` says. -/
def Told (env : AgentEnv) (log : List Event) (o : Option NodeAttempt) (log' : List Event) : Prop :=
  ∃ new, log' = log ++ new ∧ ∀ before call fnArgs iteration after,
    new = before ++ .met call fnArgs iteration :: after → Refused env.it call fnArgs →
      Follows (env.audit (log ++ before ++ [.met call fnArgs iteration])) call iteration o after

variable {env : AgentEnv} {ctx : NodeContext} {log log₁ log₂ : List Event} {o : Option NodeAttempt}

def Event.isMet : Event → Bool
  | .met .. => true
  | _ => false

theorem Told.refl : Told env log o log := ⟨[], by simp, by simp⟩

/-- An event that is no tool call. -/
theorem Told.emit {e : Event} (h : e.isMet = false) : Told env log o (log ++ [e]) := by
  refine ⟨[e], rfl, fun before call fnArgs iteration after heq => ?_⟩
  rcases before with _ | ⟨b, before⟩
  · obtain ⟨rfl, -⟩ := List.cons.inj heq
    cases h
  · exact absurd (List.cons.inj heq).2 (by simp)

/-- A tool call, and events that are none. -/
theorem Told.met {call : ToolCall} {fnArgs : Value} {iteration : Nat} {rest : List Event}
    (hrest : ∀ e ∈ rest, e.isMet = false)
    (h : Refused env.it call fnArgs →
      Follows (env.audit (log ++ [.met call fnArgs iteration])) call iteration o rest) :
    Told env log o (log ++ .met call fnArgs iteration :: rest) := by
  refine ⟨.met call fnArgs iteration :: rest, rfl,
    fun before call' fnArgs' iteration' after heq href => ?_⟩
  rcases before with _ | ⟨b, before⟩
  · obtain ⟨hmet, rfl⟩ := List.cons.inj heq
    cases hmet
    simpa using h href
  · obtain ⟨-, hmem⟩ := List.cons.inj heq
    cases hrest (.met call' fnArgs' iteration') (by simp [hmem])

/-- A part that goes on, and a part after it. -/
theorem Told.trans (h₁ : Told env log none log₁) (h₂ : Told env log₁ o log₂) :
    Told env log o log₂ := by
  obtain ⟨new₁, rfl, hfollows₁⟩ := h₁
  obtain ⟨new₂, rfl, hfollows₂⟩ := h₂
  refine ⟨new₁ ++ new₂, by simp, fun before call fnArgs iteration after heq href => ?_⟩
  rcases List.append_eq_append_iff.mp heq with ⟨mid, hbefore, hnew⟩ | ⟨mid, hnew, hmid⟩
  · -- the call is in the second part
    subst hbefore
    simpa using hfollows₂ mid call fnArgs iteration after hnew href
  · rcases mid with _ | ⟨e, mid⟩
    · simp only [List.append_nil, List.nil_append] at hnew hmid
      subst hnew
      simpa using hfollows₂ [] call fnArgs iteration after hmid.symm href
    · -- the call is in the first part, which went on after it
      obtain ⟨rfl, rfl⟩ := List.cons.inj hmid
      cases hfollows₁ before call fnArgs iteration mid hnew href with
      | answered name => exact .answered name

/-! ## One call -/

theorem refused_sql {it : Interpreter} {call : ToolCall} {fnArgs : Value}
    (hok : assertToolIsReadOnly it call.name fnArgs = .ok ()) (href : Refused it call fnArgs) :
    call.name = "sql_query" := by
  cases href with
  | statement name => exact name
  | attempt blocked =>
      rw [hok] at blocked
      cases blocked

theorem refused_other {it : Interpreter} {call : ToolCall} {fnArgs : Value} {e : GuardError}
    (herr : assertToolIsReadOnly it call.name fnArgs = .error e) : call.name ≠ "sql_query" := by
  intro hname
  rw [hname, assertToolIsReadOnly_builtin it fnArgs (by decide)] at herr
  cases herr

/-- A tool whose guard rejects does none of its work. -/
theorem awaitTool_log {call : ToolCall} {fields : List (String × Value)} {s : AgentState} :
    (awaitTool env ctx call fields s).2.log = s.log ∨
      (awaitTool env ctx call fields s).2.log = s.log ++ [.ran call] ∧
        toolGuard env ctx fields call.name = .ok () := by
  unfold awaitTool
  split
  · exact .inl rfl
  · split
    next => exact .inl rfl
    next hok => exact .inr ⟨rfl, hok⟩

/-- A refused statement is not run. -/
theorem dispatch_log {call : ToolCall} {fnArgs : Value} {s : AgentState}
    (hok : assertToolIsReadOnly env.it call.name fnArgs = .ok ()) :
    (dispatch env ctx call fnArgs s).2.log = s.log ∨
      (dispatch env ctx call fnArgs s).2.log = s.log ++ [.ran call] ∧
        ¬ Refused env.it call fnArgs := by
  unfold dispatch
  split
  · exact .inl rfl
  · split
    · exact .inl rfl
    · split
      next fields =>
        refine awaitTool_log.imp_right fun ⟨hlog, hguard⟩ => ⟨hlog, fun href => ?_⟩
        have hname := refused_sql hok href
        cases href with
        | statement _ args argument rejected =>
            cases args
            rw [hname] at hguard
            obtain ⟨sql', hsql, hvalid⟩ := toolGuard_sql hguard
            obtain rfl := Value.str.inj (argument.symm.trans hsql)
            exact rejected hvalid
        | attempt blocked =>
            rw [hok] at blocked
            cases blocked
      next => exact .inl rfl

/-- A call that the guard blocks. -/
theorem blockWrite_told {call : ToolCall} {fnArgs : Value} {iteration : Nat} {s : AgentState}
    {err : WriteBlockedError}
    (herr : assertToolIsReadOnly env.it call.name fnArgs = .error (.writeBlocked err)) :
    Told env s.log (some (blockWrite env ctx err iteration (s.meet call fnArgs iteration)).1)
      (blockWrite env ctx err iteration (s.meet call fnArgs iteration)).2.log := by
  have hname := refused_other herr
  unfold blockWrite
  simp only [AgentState.meet_log]
  split
  next hwritten =>
    simp only [AgentState.emit_log, AgentState.meet_log, List.append_assoc, List.cons_append,
      List.nil_append]
    exact .met (by simp [Event.isMet]) fun _ =>
      .audited hname hwritten (assertToolIsReadOnly_fnName herr) rfl rfl
  next hdropped => exact .met (by simp) fun _ => .dropped hname hdropped rfl
  next text hraised => exact .met (by simp) fun _ => .unlogged hname hraised rfl

/-- A call that the guard lets pass. -/
theorem dispatch_told {call : ToolCall} {fnArgs : Value} {iteration : Nat} {s : AgentState}
    (hok : assertToolIsReadOnly env.it call.name fnArgs = .ok ()) {s' : AgentState} :
    (∀ result, dispatch env ctx call fnArgs (s.meet call fnArgs iteration) = (some result, s') →
        Told env s.log none (s'.answer call result).log) ∧
      (dispatch env ctx call fnArgs (s.meet call fnArgs iteration) = (none, s') →
        Told env s.log (some .cancelled) s'.log) := by
  have hlog := @dispatch_log env ctx call fnArgs (s.meet call fnArgs iteration) hok
  constructor
  · intro result heq
    rw [heq] at hlog
    rcases hlog with hlog | ⟨hlog, hpass⟩
    · rw [AgentState.answer_log, hlog]
      simp only [AgentState.meet_log, List.append_assoc, List.cons_append, List.nil_append]
      exact .met (by simp [Event.isMet]) fun href => .answered (refused_sql hok href)
    · rw [AgentState.answer_log, hlog]
      simp only [AgentState.meet_log, List.append_assoc, List.cons_append, List.nil_append]
      exact .met (by simp [Event.isMet]) fun href => absurd href hpass
  · intro heq
    rw [heq] at hlog
    rcases hlog with hlog | ⟨hlog, hpass⟩
    · rw [hlog]
      exact .met (by simp) fun href => .interrupted (refused_sql hok href)
    · rw [hlog]
      simp only [AgentState.meet_log, List.append_assoc, List.cons_append, List.nil_append]
      exact .met (by simp [Event.isMet]) fun href => absurd href hpass

theorem handleCall_told (env : AgentEnv) (ctx : NodeContext) (iteration : Nat) (call : ToolCall)
    (s : AgentState) :
    Told env s.log (handleCall env ctx iteration call s).1
      (handleCall env ctx iteration call s).2.log := by
  unfold handleCall
  split
  next => exact .refl
  next fnArgs hargs =>
    split
    next err herr => exact blockWrite_told herr
    next exc herr =>
      refine .met (by simp) fun href => ?_
      cases href with
      | statement name => exact absurd name (refused_other herr)
      | attempt blocked =>
          rw [herr] at blocked
          cases blocked
    next hok =>
      simp only
      split
      next result s' heq => exact (dispatch_told hok).1 result heq
      next s' heq => exact (dispatch_told hok).2 heq

theorem handleCalls_told (env : AgentEnv) (ctx : NodeContext) (iteration : Nat)
    (calls : List ToolCall) (s : AgentState) :
    Told env s.log (handleCalls env ctx iteration calls s).1
      (handleCalls env ctx iteration calls s).2.log := by
  induction calls generalizing s with
  | nil => exact .refl
  | cons call calls ih =>
      have hcall := handleCall_told env ctx iteration call s
      rw [handleCalls]
      split
      next s' heq =>
        rw [heq] at hcall
        exact hcall.trans (ih s')
      next stop s' heq =>
        rw [heq] at hcall
        exact hcall

/-! ## The attempt -/

/-- The events of an attempt: none, or a request comes first. -/
def Begins (new : List Event) : Prop :=
  new = [] ∨ ∃ messages rest, new = .request messages :: rest

/-- A part of an attempt that does nothing, or asks the model first. -/
def Asks (env : AgentEnv) (log : List Event) (o : NodeAttempt) (log' : List Event) : Prop :=
  log' = log ∨ ∃ messages, Told env (log ++ [.request messages]) (some o) log'

theorem Asks.told {a : NodeAttempt} (h : Asks env log a log₁) : Told env log (some a) log₁ := by
  rcases h with rfl | ⟨messages, h⟩
  · exact .refl
  · exact Told.trans (.emit rfl) h

theorem Asks.begins {a : NodeAttempt} (h : Asks env log a log₁) :
    ∃ new, log₁ = log ++ new ∧ Begins new := by
  rcases h with rfl | ⟨messages, new, rfl, -⟩
  · exact ⟨[], by simp, .inl rfl⟩
  · exact ⟨.request messages :: new, by simp, .inr ⟨messages, new, rfl⟩⟩

theorem iterations_asks (env : AgentEnv) (ctx : NodeContext) (task : Task) (left iteration : Nat)
    (s : AgentState) :
    Asks env s.log (iterations env ctx task left iteration s).1
      (iterations env ctx task left iteration s).2.log := by
  induction left generalizing iteration s with
  | zero => exact .inl rfl
  | succ left ih =>
      rw [iterations]
      simp only [AgentState.instruct_log]
      split
      next => exact .inl (AgentState.instruct_log ..)
      next =>
        refine .inr ⟨(s.instruct task iteration).messages, ?_⟩
        split
        next => simpa using Told.refl
        next => simpa using Told.refl
        next content toolCalls hreply =>
          split
          next => simpa using Told.refl
          next =>
            have hcalls := handleCalls_told env ctx iteration toolCalls
              (((s.instruct task iteration).emit
                (.request (s.instruct task iteration).messages)).say
                  (.assistant content toolCalls))
            simp only [AgentState.say_log, AgentState.emit_log, AgentState.instruct_log] at hcalls
            split
            next s' heq =>
              rw [heq] at hcalls
              exact hcalls.trans (ih ..).told
            next stop s' heq =>
              rw [heq] at hcalls
              exact hcalls

theorem execute_asks (env : AgentEnv) (ctx : NodeContext) (log : List Event) :
    Asks env log (execute env ctx log).1 (execute env ctx log).2 := by
  unfold execute
  simp only
  split
  next => exact .inl rfl
  next =>
    split
    next => exact .inl rfl
    next =>
      split
      next => exact .inl rfl
      next => exact .inl rfl
      next task _ =>
        exact iterations_asks env ctx task _ 0 { log := log, messages := task.messages }

/-! ## The run -/

/-- How a run of the node goes on after it came to a refused call. -/
inductive RunFollows (audit : AuditWrite) (call : ToolCall) (iteration : Nat) :
    NodeEnd → List Event → Prop where
  | answered {o : NodeEnd} {content : String} {rest : List Event}
      (name : call.name = "sql_query") :
      RunFollows audit call iteration o (.answered call.id content :: rest)
  | interrupted (name : call.name = "sql_query") : RunFollows audit call iteration .cancelled []
  | audited {o : NodeEnd} {record : AuditRecord} (name : call.name ≠ "sql_query")
      (written : audit = .written) (tool : record.tool = call.name)
      (inIteration : record.iteration = iteration) (failed : o.failed = true) :
      RunFollows audit call iteration o [.audited record]
  | lost {o : NodeEnd} {rest : List Event} (name : call.name ≠ "sql_query")
      (unwritten : audit ≠ .written) (begins : Begins rest) :
      RunFollows audit call iteration o rest

/-- What `RunFollows` says of every refused call after a point of the log. -/
structure RunTold (env : AgentEnv) (log : List Event) (o : NodeEnd) (log' : List Event) : Prop where
  begins : ∃ new, log' = log ++ new ∧ Begins new
  follows : ∀ before call fnArgs iteration after,
    log' = log ++ (before ++ .met call fnArgs iteration :: after) → Refused env.it call fnArgs →
      RunFollows (env.audit (log ++ before ++ [.met call fnArgs iteration])) call iteration o after

theorem RunTold.refl {o : NodeEnd} : RunTold env log o log := by
  refine ⟨⟨[], by simp, .inl rfl⟩, fun before call fnArgs iteration after heq => ?_⟩
  simp at heq

/-- What the events of an attempt say of the run. -/
theorem Asks.runTold {a : NodeAttempt} {o : NodeEnd} {rest : List Event} (h : Asks env log a log₁)
    (hcancelled : a = .cancelled → o = .cancelled ∧ rest = [])
    (hblocked : ∀ exc, a = .raised exc → exc.nonRetryable = true →
      o.failed = true ∧ rest = [])
    (hrest : RunTold env log₁ o (log₁ ++ rest)) : RunTold env log o (log₁ ++ rest) := by
  obtain ⟨restNew, hrestNew, hbegins⟩ := hrest.begins
  obtain rfl := List.append_cancel_left hrestNew
  constructor
  · obtain ⟨new, rfl, hnew⟩ := h.begins
    refine ⟨new ++ rest, by simp, ?_⟩
    rcases hnew with rfl | ⟨messages, new, rfl⟩
    · simpa using hbegins
    · exact .inr ⟨messages, new ++ rest, rfl⟩
  · obtain ⟨new, rfl, hfollows⟩ := h.told
    intro before call fnArgs iteration after heq href
    rw [List.append_assoc, List.append_cancel_left_eq] at heq
    rcases List.append_eq_append_iff.mp heq with ⟨mid, rfl, hmid⟩ | ⟨mid, hnew, hmid⟩
    · -- the call is in a later attempt
      have hlater := hrest.follows mid call fnArgs iteration after (by simp [hmid]) href
      simpa using hlater
    · rcases mid with _ | ⟨e, mid⟩
      · simp only [List.append_nil, List.nil_append] at hnew hmid
        subst hnew
        have hlater := hrest.follows [] call fnArgs iteration after (by simp [hmid]) href
        simpa using hlater
      · obtain ⟨rfl, rfl⟩ := List.cons.inj hmid
        cases hfollows before call fnArgs iteration mid hnew href with
        | answered name => exact .answered name
        | interrupted name =>
            obtain ⟨rfl, rfl⟩ := hcancelled rfl
            exact .interrupted name
        | audited name written tool inIteration blocked =>
            obtain ⟨hfailed, rfl⟩ := hblocked _ rfl blocked
            exact .audited name written tool inIteration hfailed
        | dropped name lost => exact .lost name (by rw [lost]; decide) (by simpa using hbegins)
        | unlogged name closed =>
            exact .lost name (by rw [closed]; simp) (by simpa using hbegins)

/-- The last attempt of a run. -/
theorem Asks.endTold {a : NodeAttempt} {o : NodeEnd} (h : Asks env log a log₁)
    (hcancelled : a = .cancelled → o = .cancelled)
    (hblocked : ∀ exc, a = .raised exc → exc.nonRetryable = true → o.failed = true) :
    RunTold env log o log₁ := by
  have hrest : RunTold env log₁ o (log₁ ++ []) := by simpa using RunTold.refl
  simpa using h.runTold (fun ha => ⟨hcancelled ha, rfl⟩)
    (fun exc ha hexc => ⟨hblocked exc ha hexc, rfl⟩) hrest

theorem runNode_told (env : AgentEnv) (ctx : NodeContext) :
    RunTold env [] (runNode env ctx).1 (runNode env ctx).2 := by
  refine BaseNode.runFrom_rule (R := fun log o log' => RunTold env log o log') ?_ ?_ ?_ ?_ ?_ []
  · exact fun _ _ _ _ => .refl
  · intro log log₁ output attempt errors hexec
    have hasks := execute_asks env ctx log
    rw [hexec] at hasks
    exact hasks.endTold (by simp) (by simp)
  · intro log log₁ e retries errors hexec hblocked
    have hasks := execute_asks env ctx log
    rw [hexec] at hasks
    exact hasks.endTold (by simp) fun _ _ _ => rfl
  · intro log log₁ e o log₂ hexec hretry hrest
    have hasks := execute_asks env ctx log
    rw [hexec] at hasks
    obtain ⟨new, rfl, -⟩ := hrest.begins
    refine hasks.runTold (by simp) (fun e' heq hblocked => ?_) hrest
    cases heq
    rw [hretry] at hblocked
    cases hblocked
  · intro log log₁ hexec
    have hasks := execute_asks env ctx log
    rw [hexec] at hasks
    exact hasks.endTold (by simp) (by simp)

/-- A run of the node stops at every call that a guard refuses exactly if each such call is none
of `sql_query` and finds the audit log writable. -/
theorem lawful_iff_heeded (env : AgentEnv) (ctx : NodeContext) :
    Lawful env.it (runNode env ctx) ↔ Heeded env (runNode env ctx).2 := by
  have htold := runNode_told env ctx
  generalize runNode env ctx = run at htold ⊢
  obtain ⟨o, log⟩ := run
  constructor
  · intro hlawful before call fnArgs iteration after heq href
    have hstopped := hlawful before call fnArgs iteration after heq href
    cases htold.follows before call fnArgs iteration after (by simpa using heq) href with
    | answered name => exact absurd List.mem_cons_self (hstopped.notAnswered _)
    | interrupted name => exact absurd hstopped.failed (by simp [NodeEnd.failed])
    | audited name written => exact ⟨name, by simpa using written⟩
    | lost name unwritten begins =>
        rcases begins with rfl | ⟨messages, rest, rfl⟩
        · obtain ⟨record, hmem, -⟩ := hstopped.audited
          cases hmem
        · exact absurd (by simp) (hstopped.noRequest messages)
  · intro hheeded before call fnArgs iteration after heq href
    obtain ⟨hname, hwritten⟩ := hheeded before call fnArgs iteration after heq href
    cases htold.follows before call fnArgs iteration after (by simpa using heq) href with
    | answered name => exact absurd name hname
    | interrupted name => exact absurd name hname
    | audited name written tool inIteration failed =>
        exact ⟨failed, ⟨_, by simp, tool, inIteration⟩, by simp, by simp, by simp⟩
    | lost name unwritten => exact absurd (by simpa using hwritten) unwritten

/-! ## A statement that deletes -/

/-- A `sql_query` that is no query. -/
def deleteUsers : ToolCall where
  id := "call_1"
  name := "sql_query"
  arguments := .value (.dict [("sql", .str "DELETE FROM users")])

/-- A model that tries to delete, and reports once it has an answer. -/
def deletingAgent : AgentEnv where
  it := .ascii
  prepare _ := .ready { messages := [.user "Clean up"] }
  charge _ := none
  reply log := if log.length ≤ 1 then .message "" [deleteUsers] else .message "Done" []
  tool _ _ := .returned "[]"
  audit _ := .written
  loads _ := none

def agentContext : NodeContext where
  nodeId := "agent"
  config := [("sql_connection_id", .str "crm")]
  inputData := .none
  vars := ∅
  userId := "u"
  executionId := "ex"
  environment := "test"
  jwtToken := none
  workflowId := "wf"
  workflowName := "wf"
  ownerType := "org"
  ownerId := ""
  orgId := ""
  deptIds := []
  authorUserId := ""
  linkedSmartAppId := none

/-- The statement is refused, the model is told so and asked again, and the node completes. -/
theorem deletingAgent_not_lawful :
    ¬ Lawful deletingAgent.it (runNode deletingAgent agentContext) := by
  intro h
  have hrefused : Refused deletingAgent.it deleteUsers
      (.dict [("sql", .str "DELETE FROM users")]) := by
    refine .statement rfl rfl rfl ?_
    intro hok
    have htoBool := congrArg Except.toBool hok
    revert htoBool
    decide +kernel
  have hstopped := h [.request [.user "Clean up"]] deleteUsers _ 0
    ((runNode deletingAgent agentContext).2.drop 2) (by rfl) hrefused
  have hfailed := hstopped.failed
  revert hfailed
  decide +kernel

end Agent

end CitraFlows
