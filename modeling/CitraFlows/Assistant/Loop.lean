-- SUMMARY: The assistant's loop: rounds of tool calls on the working copy, one repair, one proposal at the end.
import CitraFlows.Assistant.Turns
import CitraFlows.Llm.Runs

/-!
# The loop of the assistant

`run_workflow_assistant` lets the model call tools round after round. The edit tools change a
working copy of the workflow; at the end the copy becomes one operation that the user may apply. An
answer that leaves the graph broken is sent back once. What the model, the other tools and the
validation answer is an `AssistantEnv`: a function of everything that the turn has done before, the
`Event`s of its log.

Not modelled: the parameters of a request besides its messages, and a client that goes away.
-/

namespace CitraFlows

namespace Assistant

open Agent (ToolCall)
open LlmCall (Message Usage Tokens usageTokens)

/-! ## What is read and what is yielded -/

/-- A completion with a choice; `tool_calls` that are `None` are read as none. -/
structure Completion where
  usage : Option Usage
  content : Option String
  toolCalls : List ToolCall

/-- What `_chat_once` gives. An answer without choices is empty. -/
inductive Reply where
  | raised (text : String)
  | empty
  | completed (c : Completion)

structure Issue where
  code : String
  message : String

/-- What `_validate_candidate` returns. -/
structure Report where
  errors : List Issue
  setupGaps : Value

def Report.isClean (r : Report) : Bool := r.errors.isEmpty

/-- The operation that the user may apply. -/
structure Operation where
  workflow : Entries
  diff : Option Value
  validation : Report

/-- What the generator yields. -/
inductive StreamEvent where
  | status (text : String)
  | runResult (run : Value)
  | operation (op : Operation)
  | validation (report : Report)
  | done (message : String) (operations : List Operation)
  | error (message : String)

/-- What a turn does. -/
inductive Event where
  | requested (messages : List Message)
  | replied (c : Completion)
  /-- `_execute_tool` -/
  | executed (name : String) (args : Entries)
  | yields (e : StreamEvent)
  /-- `_track_usage` -/
  | tracked (tokens : Tokens)

/-- What the tool for test runs gives: a text for the model, or a summary and its text. -/
inductive TestOutcome where
  | told (text : String)
  | summarized (summary : Value) (text : String)

structure AssistantEnv where
  py : PyBuiltins
  /-- `MAX_ROUNDS` -/
  maxRounds : Nat := 8
  chatOnce : List Event → Reply
  /-- A tool that only reads: its name, its arguments and the working copy. -/
  read : List Event → String → Entries → Entries → Except String String
  /-- `run_workflow_test` -/
  runTest : List Event → Entries → Entries → Except String TestOutcome
  /-- An edit tool on a working copy whose nodes or edges are no lists of dicts. -/
  editBroken : Entries → EditCall → Entries × Except PyError String
  /-- `_validate_candidate`; the flag is `is_fresh`. -/
  validate : Bool → Entries → Except String Report
  /-- `_diff_workflows` -/
  diff : Entries → Entries → Except String Value

structure AssistantArgs where
  /-- `build_system_prompt(context)` -/
  systemPrompt : String
  /-- `build_opening_message(...)`, which has raised nothing -/
  openingMessage : String
  workflow : Entries

/-- `current_workflow` -/
def AssistantArgs.currentWorkflow (args : AssistantArgs) : Entries :=
  if args.workflow.isEmpty then
    [("nodes", .list []), ("edges", .list []), ("variables", .dict [])]
  else args.workflow

/-- `not bool(current_workflow.get("nodes"))` -/
def AssistantArgs.isFresh (args : AssistantArgs) : Bool :=
  !(Value.getD args.currentWorkflow "nodes").truthy

structure TurnState where
  log : List Event := []
  messages : List Message
  wc : Entries
  edited : Bool := false
  repaired : Bool := false
  runResults : List Value := []
  tokens : Tokens := {}

namespace TurnState

def emit (s : TurnState) (e : Event) : TurnState := { s with log := s.log ++ [e] }

def yields (s : TurnState) (e : StreamEvent) : TurnState := s.emit (.yields e)

def say (s : TurnState) (messages : List Message) : TurnState :=
  { s with messages := s.messages ++ messages }

end TurnState

/-! ## Tools -/

def editTool : String → Option EditTool
  | "add_node" => some .addNode
  | "update_node" => some .updateNode
  | "remove_node" => some .removeNode
  | "add_edge" => some .addEdge
  | "remove_edge" => some .removeEdge
  | "set_workflow_meta" => some .setWorkflowMeta
  | _ => none

/-- An edit tool on the working copy as it is. -/
def runEdit (env : AssistantEnv) (wc : Entries) (tool : EditTool) (args : Entries) :
    Entries × Except PyError String :=
  match WorkingCopy.ofDict wc with
  | some copy =>
      let r := tool.run env.py copy args
      (r.1.toDict, r.2)
  | none => env.editBroken wc ⟨tool, .dict args⟩

/-- `len(value)` -/
def pyLen : Value → Except PyError Nat
  | .str s => .ok s.length
  | .list xs => .ok xs.length
  | .dict d => .ok d.length
  | v => .error (.typeError ("object of type '" ++ v.typeName ++ "' has no len()"))

/-- `create_workflow`. The working copy is replaced before the nodes are counted. -/
def runCreateWorkflow (wc args : Entries) : Entries × Except PyError String :=
  match orEmpty (Value.getD args "workflow") with
  | .error e => (wc, .error e)
  | .ok new =>
      if !(Value.getD new "nodes").truthy then
        (wc, .ok ("Error: create_workflow requires the COMPLETE workflow in the " ++
          "'workflow' argument — a non-empty 'nodes' array (and 'edges'). " ++
          "You passed none. Re-call create_workflow now with the full nodes " ++
          "and edges in the tool ARGUMENTS, not described in your message."))
      else
        (createWorkflow wc args, (pyLen (Value.getD new "nodes")).map fun n =>
          "Created workflow with " ++ toString n ++ " node(s).")

/-- What a tool does to the working copy, if it is one that edits. -/
def edits (env : AssistantEnv) (name : String) (args wc : Entries) :
    Option (Entries × Except PyError String) :=
  if name = "create_workflow" then some (runCreateWorkflow wc args)
  else (editTool name).map fun tool => runEdit env wc tool args

def readTools : List String :=
  ["inspect_node", "list_node_types", "list_connections", "validate_workflow", "get_recent_runs",
    "get_execution_results"]

/-- `_execute_tool` -/
def executeTool (env : AssistantEnv) (name : String) (args : Entries) (s : TurnState) :
    Except String String × TurnState :=
  match edits env name args s.wc with
  | some (wc, .ok message) => (.ok message, { s with wc, edited := s.edited || !isError message })
  | some (wc, .error e) => (.error e.message, { s with wc })
  | none =>
      if name = "run_workflow_test" then
        match env.runTest s.log args s.wc with
        | .error text => (.error text, s)
        | .ok (.told text) => (.ok text, s)
        | .ok (.summarized summary text) =>
            (.ok text, { s with runResults := s.runResults ++ [summary] })
      else if name ∈ readTools then (env.read s.log name args s.wc, s)
      else (.ok ("Unknown tool: " ++ name), s)

/-- `_status_for_tool` makes the text of every tool and takes one of them. -/
def statusForTool (name : String) (args : Value) : Except PyError String :=
  match args.asDict with
  | none => .error (.attributeError args.typeName "get")
  | some d =>
      let get (d : Entries) (key : String) := ((Value.field d key).getD (.str "")).text
      (orEmpty (Value.getD d "node")).map fun node =>
        match name with
        | "inspect_node" => "Inspecting node `" ++ get d "node_id" ++ "`…"
        | "list_node_types" => "Reviewing available node types…"
        | "list_connections" => "Checking your connections…"
        | "validate_workflow" => "Validating the workflow…"
        | "add_node" => "Adding node `" ++ get node "id" ++ "`…"
        | "update_node" => "Editing node `" ++ get d "node_id" ++ "`…"
        | "remove_node" => "Removing node `" ++ get d "node_id" ++ "`…"
        | "add_edge" => "Connecting `" ++ get d "source" ++ "` → `" ++ get d "target" ++ "`…"
        | "remove_edge" => "Removing a connection…"
        | "set_workflow_meta" => "Updating workflow settings…"
        | "create_workflow" => "Building the workflow…"
        | "run_workflow_test" => "Running a test execution…"
        | "get_recent_runs" => "Looking up recent runs…"
        | "get_execution_results" => "Reading the run results…"
        | _ => "Running " ++ name ++ "…"

def invalidArguments (name : String) : String :=
  "Error: the arguments for " ++ name ++ " were not valid JSON (likely " ++
    "truncated). Re-issue the call with complete, valid JSON arguments."

/-- `if fname == "run_workflow_test" and run_results` -/
def surfaceRun (name : String) (s : TurnState) : TurnState :=
  match name, s.runResults.getLast? with
  | "run_workflow_test", some run => s.yields (.runResult run)
  | _, _ => s

/-- One tool call of a message. -/
def handleCall (env : AssistantEnv) (call : ToolCall) (s : TurnState) :
    Except String Unit × TurnState :=
  match call.arguments with
  | .raised exc => (.error exc.message, s)
  | .decodeError =>
      match statusForTool call.name (.dict []) with
      | .error e => (.error e.message, s)
      | .ok text =>
          (.ok (), (s.yields (.status text)).say [.tool call.id (invalidArguments call.name)])
  | .value fargs =>
      match statusForTool call.name fargs with
      | .error e => (.error e.message, s)
      | .ok text =>
          -- the status has read the arguments as a dict
          let args := fargs.asDict.getD []
          match executeTool env call.name args
              ((s.yields (.status text)).emit (.executed call.name args)) with
          | (.error text, s) => (.error text, s)
          | (.ok result, s) => (.ok (), (surfaceRun call.name s).say [.tool call.id result])

/-- `for tc in tool_calls` -/
def handleCalls (env : AssistantEnv) : List ToolCall → TurnState → Except String Unit × TurnState
  | [], s => (.ok (), s)
  | call :: calls, s =>
      match handleCall env call s with
      | (.error text, s) => (.error text, s)
      | (.ok _, s) => handleCalls env calls s

/-! ## Rounds -/

def emptyResponseError : String :=
  "The model returned an empty response three times in a row. " ++
    "This is usually a transient provider issue — please try again."

/-- `for attempt in range(3)`, with the number of attempts that are left. -/
def complete (env : AssistantEnv) : Nat → TurnState → Except String Completion × TurnState
  | 0, s => (.error emptyResponseError, s)
  | left + 1, s =>
      let s := s.emit (.requested s.messages)
      match env.chatOnce s.log with
      | .raised text => (.error text, s)
      | .empty => complete env left s
      | .completed c => (.ok c, s)

/-- The codes of the errors that are sent back to the model. -/
def fixableCodes : List String :=
  ["E_GRAPH", "E_ORPHAN", "E_CONFIG_REQUIRED", "E_CONFIG_UNKNOWN", "E_CONFIG_TYPE"]

def repairMessage (fixable : List Issue) : String :=
  "Before finishing, FIX these problems. For connection/graph issues, " ++
    "every node must be connected and every edge must reference an " ++
    "existing node id. For config issues, use the EXACT field names from " ++
    "the node palette — rename wrong keys and fill missing REQUIRED " ++
    "fields with concrete values (no placeholders):\n" ++
    "\n".intercalate (fixable.map fun issue => "- " ++ issue.message) ++
    "\nUse update_node / add_edge / remove_node, then finish."

/-- `(msg.content or "").strip() or "Done."` -/
def finalMessage (c : Completion) : String :=
  let text := String.ofList (Python.strip (c.content.getD "").toList)
  if text = "" then "Done." else text

inductive RoundEnd where
  | finished (message : String)
  | next
  | raised (text : String)

/-- The model stops calling tools. -/
def accept (env : AssistantEnv) (args : AssistantArgs) (c : Completion) (s : TurnState) :
    RoundEnd × TurnState :=
  if s.edited && !s.repaired then
    match env.validate args.isFresh s.wc with
    | .error text => (.raised text, s)
    | .ok report =>
        let fixable := report.errors.filter (·.code ∈ fixableCodes)
        if fixable.isEmpty then (.finished (finalMessage c), s)
        else
          (.next,
            (({ s with repaired := true }.say
              [.assistant (some (c.content.getD "")) [], .user (repairMessage fixable)]).yields
                (.status "Fixing node configuration…")))
  else (.finished (finalMessage c), s)

def round (env : AssistantEnv) (args : AssistantArgs) (roundNo : Nat) (s : TurnState) :
    RoundEnd × TurnState :=
  match complete env 3 (s.yields (.status (if roundNo = 1 then "Thinking…" else "Working…"))) with
  | (.error text, s) => (.raised text, s)
  | (.ok c, s) =>
      let s := { s.emit (.replied c) with tokens := s.tokens.add (usageTokens c.usage) }
      if c.toolCalls.isEmpty then accept env args c s
      else
        match handleCalls env c.toolCalls (s.say [.assistant c.content c.toolCalls]) with
        | (.error text, s) => (.raised text, s)
        | (.ok _, s) => (.next, s)

def outOfSteps : String :=
  "I ran out of steps before finishing. Here's what I prepared " ++
    "so far — try narrowing the request."

/-- `for round_no in range(1, MAX_ROUNDS + 1)`, with the number of rounds that are left. -/
def rounds (env : AssistantEnv) (args : AssistantArgs) :
    Nat → Nat → TurnState → Except String String × TurnState
  | 0, _, s => (.ok outOfSteps, s)
  | left + 1, roundNo, s =>
      match round env args roundNo s with
      | (.finished message, s) => (.ok message, s)
      | (.next, s) => rounds env args left (roundNo + 1) s
      | (.raised text, s) => (.error text, s)

/-! ## The proposal -/

/-- `for x in (value or [])`, which has to yield dicts for `.get` -/
def readDicts (value : Value) : Except PyError Unit :=
  if value.truthy then
    (keysOf value).bind fun xs =>
      xs.forM fun x =>
        match x.asDict with
        | some _ => .ok ()
        | none => .error (.attributeError x.typeName "get")
  else .ok ()

/-- `_build_edit_operation`. It goes through the nodes and the edges only to log them. -/
def buildEditOperation (env : AssistantEnv) (args : AssistantArgs) (wc : Entries) :
    Except String Operation := do
  let validation ← env.validate args.isFresh wc
  let diff ←
    if args.isFresh then pure none else (env.diff args.currentWorkflow wc).map some
  (readDicts (Value.getD wc "nodes")).mapError PyError.message
  (readDicts (Value.getD wc "edges")).mapError PyError.message
  pure
    { workflow := ["name", "description", "icon", "tags", "nodes", "edges", "variables"].map
        fun key => (key, Value.getD wc key)
      diff, validation }

/-- The end of a turn that has its message. -/
def propose (env : AssistantEnv) (args : AssistantArgs) (message : String) (s : TurnState) :
    TurnState :=
  let message := if message = "" then "Done." else message
  if s.edited then
    match buildEditOperation env args s.wc with
    | .error text => s.yields (.error ("Assistant error: " ++ text))
    | .ok op =>
        let s := s.yields (.operation op)
        let s := if op.validation.isClean then s else s.yields (.validation op.validation)
        s.yields (.done message [op])
  else s.yields (.done message [])

def AssistantArgs.opening (args : AssistantArgs) : List Message :=
  [.system args.systemPrompt, .user args.openingMessage]

def AssistantArgs.start (args : AssistantArgs) : TurnState where
  messages := args.opening
  wc := args.currentWorkflow

/-- The turn from its first round on. The usage is tracked however it ends. -/
def turn (env : AssistantEnv) (args : AssistantArgs) : List Event :=
  let s :=
    match rounds env args env.maxRounds 1 args.start with
    | (.ok message, s) => propose env args message s
    | (.error text, s) => s.yields (.error ("Assistant error: " ++ text))
  (s.emit (.tracked s.tokens)).log

/-- `len(value or [])` -/
def pyLenOrEmpty (value : Value) : Except PyError Nat :=
  if value.truthy then pyLen value else .ok 0

/-- `run_workflow_assistant`: what the turn does. The canvas is counted for the log before the
turn, where nothing that raises is caught. -/
def runWorkflowAssistant (env : AssistantEnv) (args : AssistantArgs) :
    Except PyError (List Event) := do
  let _ ← pyLenOrEmpty (Value.getD args.currentWorkflow "nodes")
  let _ ← pyLenOrEmpty (Value.getD args.currentWorkflow "edges")
  pure (turn env args)

end Assistant

end CitraFlows
