-- SUMMARY: The agent loop: requests to the model, the tool calls it answers with, their guard, their dispatch and what is handed back.
import CitraFlows.Agents.ReadOnly
import CitraFlows.Nodes.Base
import CitraFlows.Nodes.RemotePaths

/-!
# The agent loop

`_run_agent_with_tools` asks the model, goes through the tool calls of its reply, and asks again
with their results. What the model, the tools and the audit log do is an `AgentEnv`: a function
of everything the run has done before, the `Event`s of its log.

Not modelled: the parameters of a request besides its messages.
-/

namespace CitraFlows

namespace Agent

/-! ## Messages and events -/

/-- What `json.loads` makes of the arguments of a tool call. -/
inductive Loaded where
  | value (v : Value)
  | decodeError
  | raised (exc : NodeError)

structure ToolCall where
  id : String
  name : String
  arguments : Loaded

inductive Message where
  | system (content : String)
  | user (content : String)
  | assistant (content : String) (toolCalls : List ToolCall)
  | tool (toolCallId content : String)

/-- The record of `_audit_write_block` -/
structure AuditRecord where
  tool : String
  reason : String
  args : Value
  userId : String
  orgId : String
  workflowId : String
  nodeId : NodeId
  executionId : String
  iteration : Nat

/-- What a run does. -/
inductive Event where
  /-- `client.chat.completions.create` -/
  | request (messages : List Message)
  /-- The loop comes to a tool call and notes it in `tool_calls_log`. -/
  | met (call : ToolCall) (fnArgs : Value) (iteration : Nat)
  /-- The tool does its work, past its own guard. -/
  | ran (call : ToolCall)
  /-- The record is in the audit log. -/
  | audited (record : AuditRecord)
  /-- The result is appended to the messages of the model. -/
  | answered (toolCallId content : String)

/-! ## The world of a run -/

/-- How a request ends. -/
inductive Reply where
  | message (content : String) (toolCalls : List ToolCall)
  | raised (exc : NodeError)
  | cancelled

/-- How the work of a tool ends, under `asyncio.wait_for`. -/
inductive Awaited where
  | returned (result : String)
  | raised (text : String)
  | timedOut
  | cancelled

/-- How an audit record is written: it is in the file; the handler lost it, which logging does
not report; or the file could not be opened. -/
inductive AuditWrite where
  | written
  | dropped
  | raised (text : String)
  deriving DecidableEq

/-- What the loop starts from: the messages, whether tools are offered, and the instruction that
asks for the output schema, if there is one. -/
structure Task where
  messages : List Message
  offersTools : Bool := true
  schemaInstruction : Option String := none

/-- How the work before the loop ends: the discovery of schemas and the connections. -/
inductive Prepared where
  | ready (task : Task)
  | raised (exc : NodeError)
  | cancelled

structure AgentEnv where
  it : Interpreter
  prepare : List Event → Prepared
  /-- What `charge_llm_call` raises. -/
  charge : List Event → Option NodeError
  reply : List Event → Reply
  tool : List Event → ToolCall → Awaited
  audit : List Event → AuditWrite
  /-- `json.loads` of the cleaned final text -/
  loads : List Char → Option Value
  /-- `str.lower` -/
  lower : List Char → List Char := Python.lower
  maxAgentIterations : Int := 20
  agentToolCallTimeout : String := "30.0"

structure AgentState where
  log : List Event
  messages : List Message := []
  toolCallsLog : List Value := []

namespace AgentState

def emit (s : AgentState) (e : Event) : AgentState := { s with log := s.log ++ [e] }

def say (s : AgentState) (m : Message) : AgentState := { s with messages := s.messages ++ [m] }

/-- `tool_calls_log.append(…)` -/
def meet (s : AgentState) (call : ToolCall) (fnArgs : Value) (iteration : Nat) : AgentState :=
  emit
    { s with
      toolCallsLog := s.toolCallsLog ++
        [.dict [("tool", .str call.name), ("args", fnArgs), ("iteration", .int iteration)]] }
    (.met call fnArgs iteration)

/-- The result of a tool becomes a message. -/
def answer (s : AgentState) (call : ToolCall) (result : String) : AgentState :=
  (s.say (.tool call.id result)).emit (.answered call.id result)

/-- The schema instruction is added to the last message, if that is none of a tool. -/
def instruct (s : AgentState) (task : Task) (iteration : Nat) : AgentState :=
  match task.schemaInstruction with
  | none => s
  | some text =>
      if !task.offersTools || 0 < iteration then
        match s.messages.getLast? with
        | some (.user content) =>
            { s with messages := s.messages.dropLast ++ [.user (content ++ text)] }
        | some (.system content) =>
            { s with messages := s.messages.dropLast ++ [.system (content ++ text)] }
        | _ => s
      else s

@[simp] theorem emit_log (s : AgentState) (e : Event) : (s.emit e).log = s.log ++ [e] := rfl

@[simp] theorem say_log (s : AgentState) (m : Message) : (s.say m).log = s.log := rfl

@[simp] theorem meet_log (s : AgentState) (call : ToolCall) (fnArgs : Value) (iteration : Nat) :
    (s.meet call fnArgs iteration).log = s.log ++ [.met call fnArgs iteration] := rfl

@[simp] theorem answer_log (s : AgentState) (call : ToolCall) (result : String) :
    (s.answer call result).log = s.log ++ [.answered call.id result] := rfl

@[simp] theorem instruct_log (s : AgentState) (task : Task) (iteration : Nat) :
    (s.instruct task iteration).log = s.log := by
  unfold instruct
  repeat' split
  all_goals rfl

end AgentState

/-! ## Dispatch -/

/-- `fn_args`: arguments that are no JSON count as none. -/
def ToolCall.fnArgs (call : ToolCall) : Except NodeError Value :=
  match call.arguments with
  | .value v => .ok v
  | .decodeError => .ok (.dict [])
  | .raised exc => .error exc

/-- The keys of `TOOL_EXECUTORS` -/
def toolExecutors : List String :=
  ["web_search", "code_execute", "sql_query", "nosql_query", "http_request", "bucket_read",
    "sftp_read"]

/-- The tools that need a connection: its field in the configuration, and its name in the error. -/
def connectionOf : String → Option (String × String)
  | "sql_query" => some ("sql_connection_id", "SQL")
  | "nosql_query" => some ("nosql_connection_id", "NoSQL")
  | "bucket_read" => some ("bucket_connection_id", "bucket")
  | "sftp_read" => some ("sftp_connection_id", "SFTP")
  | _ => none

/-- The connection that the tool needs and the node does not have. -/
def missingConnection (ctx : NodeContext) (name : String) : Option String :=
  match connectionOf name with
  | some (key, label) => if (Value.getD ctx.config key).truthy then none else some label
  | none => none

/-- `fn_args.get("sql", "")` -/
def sqlArgument (fields : List (String × Value)) : Value :=
  (Value.field fields "sql").getD (.str "")

/-- `tool_names`: the tools of the picker, if it holds a list. -/
def toolNames (ctx : NodeContext) : List Value :=
  ((Value.field ctx.config "tools").bind Value.asList).getD []

/-- The tool is in the picker. -/
def picked (ctx : NodeContext) (name : String) : Bool := (toolNames ctx).any (·.eqStr name)

def toolError (e : PyError) : String := "Tool error: " ++ e.message

/-- `_resolved_connections` holds the connections of the tools in the picker only. -/
def resolvedConnection (ctx : NodeContext) (name label : String) : Except String Unit :=
  if picked ctx name then .ok ()
  else .error (label ++ " error: internal error: agent tool connection was not pre-resolved")

/-- The statement of a `sql_query` is validated. -/
def sqlGuard (it : Interpreter) (fields : List (String × Value)) : Except String Unit :=
  match sqlArgument fields with
  | .str sql => (validateReadonlySql it sql).mapError toolError
  | v => .error (toolError (.attributeError v.typeName "strip"))

/-- The check of the action in `_tool_bucket_read` and `_tool_sftp_read` -/
def actionGuard (env : AgentEnv) (fields : List (String × Value)) : Except String Unit :=
  match (Value.field fields "action").getD (.str "list") with
  | .str s =>
      let action := Python.strip (env.lower s.toList)
      if action = "list".toList ∨ action = "download".toList then .ok ()
      else .error ("Error: Only 'list' and 'download' actions are allowed (got '" ++
        String.ofList action ++ "').")
  | v => .error (toolError (.attributeError v.typeName "lower"))

/-- `sanitize_remote_path(remote_path)` in `_tool_sftp_read` -/
def remotePathGuard (fields : List (String × Value)) : Except String Unit :=
  match (Value.field fields "remote_path").getD (.str "/") with
  | .str path => ((RemotePaths.sanitizeRemotePath path).map fun _ => ()).mapError toolError
  | v =>
      if v.truthy then
        .error (toolError (.typeError
          ("expected str, bytes or os.PathLike object, not " ++ v.typeName)))
      else .ok ()

/-- What a tool checks before its work: its result, if it goes no further. -/
def toolGuard (env : AgentEnv) (ctx : NodeContext) (fields : List (String × Value)) :
    String → Except String Unit
  | "sql_query" => do
      sqlGuard env.it fields
      resolvedConnection ctx "sql_query" "Tool"
  | "nosql_query" => resolvedConnection ctx "nosql_query" "NoSQL"
  | "bucket_read" => do
      actionGuard env fields
      resolvedConnection ctx "bucket_read" "Tool"
  | "sftp_read" => do
      actionGuard env fields
      remotePathGuard fields
      resolvedConnection ctx "sftp_read" "Tool"
  | _ => .ok ()

/-- `tool_result` after the tool was awaited; `none` for a cancellation. -/
def Awaited.result (env : AgentEnv) (name : String) : Awaited → Option String
  | .returned result => some result
  | .raised text => some ("Tool error: " ++ text)
  | .timedOut =>
      some ("Error: Tool '" ++ name ++ "' timed out after " ++ env.agentToolCallTimeout ++
        "s. Try a simpler query or increase WF_AGENT_TOOL_CALL_TIMEOUT.")
  | .cancelled => none

/-- The tool is awaited: it does its work if its own checks let it. -/
def awaitTool (env : AgentEnv) (ctx : NodeContext) (call : ToolCall)
    (fields : List (String × Value)) (s : AgentState) : Option String × AgentState :=
  match env.tool s.log call with
  | .cancelled => (none, s)
  | awaited =>
      match toolGuard env ctx fields call.name with
      | .error result => (some result, s)
      | .ok () => (awaited.result env call.name, s.emit (.ran call))

/-- From `if fn_name not in TOOL_EXECUTORS` to the `except Exception` of the dispatch: the result
of a call that the guard lets pass; `none` for a cancellation. -/
def dispatch (env : AgentEnv) (ctx : NodeContext) (call : ToolCall) (fnArgs : Value)
    (s : AgentState) : Option String × AgentState :=
  if call.name ∉ toolExecutors then (some ("Unknown tool: " ++ call.name), s)
  else
    match missingConnection ctx call.name with
    | some label =>
        (some ("Error: No " ++ label ++ " connection configured on this agent node."), s)
    | none =>
        match fnArgs with
        | .dict fields => awaitTool env ctx call fields s
        | v => (some (toolError (.attributeError v.typeName "get")), s)

/-- A statement that is run was validated. -/
theorem toolGuard_sql {env : AgentEnv} {ctx : NodeContext} {fields : List (String × Value)}
    (h : toolGuard env ctx fields "sql_query" = .ok ()) :
    ∃ sql, sqlArgument fields = .str sql ∧ validateReadonlySql env.it sql = .ok () := by
  obtain ⟨_, hguard, _⟩ := ok_of_bind h
  unfold sqlGuard at hguard
  split at hguard
  next sql hsql =>
    refine ⟨sql, hsql, ?_⟩
    cases hvalid : validateReadonlySql env.it sql with
    | ok u => rfl
    | error e =>
        rw [hvalid] at hguard
        cases hguard
  next => cases hguard

theorem resolvedConnection_ok {ctx : NodeContext} {name label : String} :
    resolvedConnection ctx name label = .ok () ↔ picked ctx name = true := by
  unfold resolvedConnection
  split <;> simp_all

/-- A tool that needs a connection does its work only if it is in the picker. -/
theorem toolGuard_picked {env : AgentEnv} {ctx : NodeContext} {fields : List (String × Value)}
    {name : String} (h : toolGuard env ctx fields name = .ok ())
    (hconnection : (connectionOf name).isSome = true) : picked ctx name = true := by
  unfold toolGuard at h
  split at h
  next =>
    obtain ⟨u, hsql, hresolved⟩ := ok_of_bind h
    exact resolvedConnection_ok.mp hresolved
  next => exact resolvedConnection_ok.mp h
  next =>
    obtain ⟨u, haction, hresolved⟩ := ok_of_bind h
    exact resolvedConnection_ok.mp hresolved
  next =>
    obtain ⟨u, haction, hfile⟩ := ok_of_bind h
    obtain ⟨u', hpath, hresolved⟩ := ok_of_bind hfile
    exact resolvedConnection_ok.mp hresolved
  next hsql hnosql hbucket hsftp =>
    unfold connectionOf at hconnection
    split at hconnection
    all_goals simp_all

/-! ## The loop -/

def auditRecord (ctx : NodeContext) (err : WriteBlockedError) (iteration : Nat) : AuditRecord where
  tool := err.fnName
  reason := err.reason
  args := err.fnArgs
  userId := ctx.userId
  orgId := ctx.orgId
  workflowId := ctx.workflowId
  nodeId := ctx.nodeId
  executionId := ctx.executionId
  iteration := iteration

/-- `except WriteBlockedError`: audit, and raise again. -/
def blockWrite (env : AgentEnv) (ctx : NodeContext) (err : WriteBlockedError) (iteration : Nat)
    (s : AgentState) : NodeAttempt × AgentState :=
  let exc : NodeError := { message := err.message, nonRetryable := true }
  match env.audit s.log with
  | .written => (.raised exc, s.emit (.audited (auditRecord ctx err iteration)))
  | .dropped => (.raised exc, s)
  | .raised text => (.raised { message := text }, s)

/-- The body of `for tool_call in message.tool_calls`; `none` if the loop goes on. -/
def handleCall (env : AgentEnv) (ctx : NodeContext) (iteration : Nat) (call : ToolCall)
    (s : AgentState) : Option NodeAttempt × AgentState :=
  match call.fnArgs with
  | .error exc => (some (.raised exc), s)
  | .ok fnArgs =>
      let s := s.meet call fnArgs iteration
      match assertToolIsReadOnly env.it call.name fnArgs with
      | .error (.writeBlocked err) =>
          let (stop, s) := blockWrite env ctx err iteration s
          (some stop, s)
      | .error (.error exc) => (some (.raised { message := exc.message }), s)
      | .ok () =>
          match dispatch env ctx call fnArgs s with
          | (some result, s) => (none, s.answer call result)
          | (none, s) => (some .cancelled, s)

/-- `for tool_call in message.tool_calls` -/
def handleCalls (env : AgentEnv) (ctx : NodeContext) (iteration : Nat) :
    List ToolCall → AgentState → Option NodeAttempt × AgentState
  | [], s => (none, s)
  | call :: calls, s =>
      match handleCall env ctx iteration call s with
      | (none, s) => handleCalls env ctx iteration calls s
      | (some stop, s) => (some stop, s)

/-- What `_run_agent_with_tools` returns, besides `tool_calls`. -/
structure AgentResult where
  result : Value
  rawResponse : Option String := none
  structured : Bool := false
  warning : Option String := none

/-- The text without the fence around it. -/
def cleanedText (final : String) : List Char :=
  let fence := "```".toList
  let cleaned := Python.strip final.toList
  if fence.isPrefixOf cleaned then
    let body :=
      if '\n' ∈ cleaned then (cleaned.dropWhile (· ≠ '\n')).drop 1 else cleaned.drop 3
    -- `rsplit` looks for the last fence
    let before := (body.reverse.tails.find? fence.isPrefixOf).map fun t => (t.drop 3).reverse
    Python.strip (before.getD body)
  else cleaned

/-- The result of a reply without tool calls. -/
def finalResult (env : AgentEnv) (task : Task) (content : String) : AgentResult :=
  match task.schemaInstruction.bind fun _ => env.loads (cleanedText content) with
  | some parsed => { result := parsed, rawResponse := some content, structured := true }
  | none => { result := .str content }

def maxIterationsResult : AgentResult where
  result := .str "Agent reached maximum iteration limit."
  warning := some "max_iterations_reached"

def optionStr : Option String → Value
  | none => .none
  | some s => .str s

/-- The output of the node, in the universal envelope. -/
def AgentResult.output (r : AgentResult) (toolCalls : List Value) : Value :=
  let items := match r.result with
    | .dict fields => [.dict fields]
    | .list xs => xs
    | v => [.dict [("result", v)]]
  makeOutput items [("tool_calls", .list toolCalls), ("structured", .bool r.structured),
    ("raw_response", optionStr r.rawResponse), ("warning", optionStr r.warning)]

/-- `for iteration in range(max_iterations)`, with the number of iterations that are left. -/
def iterations (env : AgentEnv) (ctx : NodeContext) (task : Task) :
    Nat → Nat → AgentState → NodeAttempt × AgentState
  | 0, _, s => (.returned (maxIterationsResult.output s.toolCallsLog), s)
  | left + 1, iteration, s =>
      let s := s.instruct task iteration
      match env.charge s.log with
      | some exc => (.raised exc, s)
      | none =>
          let s := s.emit (.request s.messages)
          match env.reply s.log with
          | .raised exc => (.raised exc, s)
          | .cancelled => (.cancelled, s)
          | .message content toolCalls =>
              if toolCalls.isEmpty then
                (.returned ((finalResult env task content).output s.toolCallsLog), s)
              else
                match handleCalls env ctx iteration toolCalls
                    (s.say (.assistant content toolCalls)) with
                | (none, s) => iterations env ctx task left (iteration + 1) s
                | (some stop, s) => (stop, s)

/-! ## The node -/

/-- What `int(value)` raises. -/
def intError : Value → String
  | .str s => "invalid literal for int() with base 10: " ++ Value.reprStr s
  | v => "int() argument must be a string, a bytes-like object or a real number, not '" ++
      v.typeName ++ "'"

def iterationsError (env : AgentEnv) (maxIterations : Int) : String :=
  "max_iterations (" ++ toString maxIterations ++ ") exceeds limit (" ++
    toString env.maxAgentIterations ++ "). Set WF_MAX_AGENT_ITERATIONS to increase the limit."

/-- `AIAgentNode.execute` -/
def execute (env : AgentEnv) (ctx : NodeContext) (log : List Event) : NodeAttempt × List Event :=
  let configured := (Value.field ctx.config "max_iterations").getD (.int 10)
  match configured.toInt with
  | none => (.raised { message := intError configured }, log)
  | some maxIterations =>
      if env.maxAgentIterations < maxIterations then
        (.raised { message := iterationsError env maxIterations }, log)
      else
        match env.prepare log with
        | .raised exc => (.raised exc, log)
        | .cancelled => (.cancelled, log)
        | .ready task =>
            let (o, s) := iterations env ctx task maxIterations.toNat 0
              { log := log, messages := task.messages }
            (o, s.log)

/-- A run of the node: how it ends, and what it did. -/
def runNode (env : AgentEnv) (ctx : NodeContext) : NodeEnd × List Event :=
  BaseNode.runFrom {} ctx.config (execute env ctx) []

/-! ## What a run keeps -/

section Rule

variable {env : AgentEnv} {ctx : NodeContext} {P : List Event → Prop}

theorem handleCalls_rule
    (hcall : ∀ iteration call s, P s.log → P (handleCall env ctx iteration call s).2.log)
    (iteration : Nat) (calls : List ToolCall) {s : AgentState} (h : P s.log) :
    P (handleCalls env ctx iteration calls s).2.log := by
  induction calls generalizing s with
  | nil => exact h
  | cons call calls ih =>
      have hfirst := hcall iteration call s h
      rw [handleCalls]
      split
      next s' heq =>
        rw [heq] at hfirst
        exact ih hfirst
      next stop s' heq =>
        rw [heq] at hfirst
        exact hfirst

theorem iterations_rule (hrequest : ∀ log messages, P log → P (log ++ [.request messages]))
    (hcall : ∀ iteration call s, P s.log → P (handleCall env ctx iteration call s).2.log)
    (task : Task) (left iteration : Nat) {s : AgentState} (h : P s.log) :
    P (iterations env ctx task left iteration s).2.log := by
  induction left generalizing iteration s with
  | zero => exact h
  | succ left ih =>
      have hinstruct : P (s.instruct task iteration).log := by
        rw [AgentState.instruct_log]
        exact h
      rw [iterations]
      simp only
      split
      next => exact hinstruct
      next =>
        have hsent : P ((s.instruct task iteration).emit
            (.request (s.instruct task iteration).messages)).log := hrequest _ _ hinstruct
        split
        next => exact hsent
        next => exact hsent
        next content toolCalls _ =>
          split
          next => exact hsent
          next =>
            have hsaid : P (((s.instruct task iteration).emit
                (.request (s.instruct task iteration).messages)).say
                  (.assistant content toolCalls)).log := hsent
            have hcalls := handleCalls_rule hcall iteration toolCalls hsaid
            split
            next s' heq =>
              rw [heq] at hcalls
              exact ih _ hcalls
            next stop s' heq =>
              rw [heq] at hcalls
              exact hcalls

/-- What holds of the empty log, and is kept by every request and every tool call, holds of the
log of every run. -/
theorem runNode_rule (hnil : P []) (hrequest : ∀ log messages, P log → P (log ++ [.request messages]))
    (hcall : ∀ iteration call s, P s.log → P (handleCall env ctx iteration call s).2.log) :
    P (runNode env ctx).2 := by
  have hexecute : ∀ log, P log → P (execute env ctx log).2 := by
    intro log h
    unfold execute
    simp only
    split
    next => exact h
    next =>
      split
      next => exact h
      next =>
        split
        next => exact h
        next => exact h
        next task _ => exact iterations_rule hrequest hcall task _ 0 (by exact h)
  have hrule : P [] → P (runNode env ctx).2 :=
    BaseNode.runFrom_rule (R := fun s _ s' => P s → P s')
      (fun _ _ _ _ h => h)
      (fun s s' _ _ _ hexec h => by simpa [hexec] using hexecute s h)
      (fun s s' _ _ _ hexec _ h => by simpa [hexec] using hexecute s h)
      (fun s s' _ _ _ hexec _ hrest h => hrest (by simpa [hexec] using hexecute s h))
      (fun s s' hexec h => by simpa [hexec] using hexecute s h) []
  exact hrule hnil

end Rule

end Agent

end CitraFlows
