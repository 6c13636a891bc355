-- SUMMARY: The shared call of a language model: its limits on tokens, its rounds of tool calls, its retries and what it bills.
import Mathlib.Algebra.Group.Nat.Defs
import CitraFlows.Agents.Loop
import CitraFlows.Lib.ToolChat

/-!
# Calls of a language model

`llm_call` sends a prompt, goes through the rounds of tool calls, and tries again when the service
fails or the answer was cut off. One list of messages serves all attempts. What the service and
the search answer is an `LlmEnv`: a function of everything that the call has done before, the
`Event`s of its log.

Not modelled: the parameters of a request besides its model, messages, tools and `max_tokens`.
-/

namespace CitraFlows

open ToolChat

namespace LlmCall

open Agent (ToolCall)

/-! ## Settings -/

inductive Tier where
  | small
  | medium
  | large
  deriving DecidableEq

/-- `_TIER_OUTPUT_CAPS` without settings in the environment. -/
def Tier.outputCap : Tier → Int
  | .small => 8000
  | .medium => 16000
  | .large => 128000

/-- `_TIER_INPUT_CAPS` without settings in the environment. -/
def Tier.inputCap : Tier → Int
  | .small => 30000
  | .medium => 30000
  | .large => 32000

structure LlmConfig where
  maxOutputTokens : Int := 128000
  tierOutputCaps : Tier → Int := Tier.outputCap
  tierInputCaps : Tier → Int := Tier.inputCap
  modelContextWindow : Int := 128000
  /-- `BILLING_AVAILABLE` -/
  billingAvailable : Bool
  /-- `citra_internet_service` can be imported. -/
  internetServiceAvailable : Bool
  defaultModel : Tier → String
  /-- `count_tokens` -/
  countTokens : String → Nat
  /-- `truncate_to_token_limit` -/
  truncateToTokenLimit : String → Int → String

/-- The arguments of `llm_call` that are modelled. -/
structure LlmArgs where
  systemPrompt : String := ""
  userPrompt : String
  model : String := ""
  userId : String := ""
  maxTokens : Int := 16000
  /-- The names of the tools that are offered. -/
  tools : List String := []
  tier : Tier := .large

/-! ## Messages and responses -/

inductive Message where
  | system (content : String)
  | user (content : String)
  /-- A message of the model, as it came. -/
  | assistant (content : Option String) (toolCalls : List ToolCall)
  | tool (toolCallId content : String)

structure Request where
  model : String
  messages : List Message
  maxTokens : Int
  tools : List String

/-- The tokens of a response; the details are there or not, and their `cached_tokens` may be
`None`. -/
structure Usage where
  promptTokens : Option Nat
  completionTokens : Option Nat
  promptTokensDetails : Option (Option Nat) := none

structure Choice where
  finishReason : Option String
  content : Option String
  toolCalls : Option (List ToolCall)

structure Response where
  choices : List Choice
  usage : Option Usage

/-- What a request may raise: a rate limit, another error of the service with its status, or one
without; and what the code around it may raise. -/
inductive LlmError where
  | rateLimit
  | status (code : Nat)
  | connection
  | other (text : String)
  deriving DecidableEq

/-- The tokens of several responses. -/
structure Tokens where
  input : Nat := 0
  output : Nat := 0
  cached : Nat := 0
  deriving DecidableEq

/-- The tokens of a response are added; `None` is no number. -/
def Tokens.count (t : Tokens) : Option Usage → Except LlmError Tokens
  | none => .ok t
  | some u =>
      match u.promptTokensDetails with
      | some none =>
          .error (.other "unsupported operand type(s) for +=: 'int' and 'NoneType'")
      | some (some cached) =>
          .ok ⟨t.input + u.promptTokens.getD 0, t.output + u.completionTokens.getD 0,
            t.cached + cached⟩
      | none => .ok ⟨t.input + u.promptTokens.getD 0, t.output + u.completionTokens.getD 0, t.cached⟩

/-! ## The world of a call -/

/-- What a call does. -/
inductive Event where
  /-- `client.chat.completions.create` -/
  | requested (r : Request)
  | received (r : Response)
  /-- The search is called for a tool call. -/
  | searched (call : ToolCall)
  | slept (seconds : Nat)
  /-- `track_query_usage` -/
  | tracked (userId model : String) (tokens : Tokens)

structure LlmEnv where
  create : List Event → Except LlmError Response
  /-- What the search returns, or the text of its error. -/
  search : List Event → ToolCall → String

/-- What does not change during a call. -/
structure Task where
  model : String
  userId : String
  tools : List String
  maxTokens : Int
  maxAllowedOutput : Int

/-- The variables of a call; `maxTokens` is that of the next request. -/
structure CallState where
  log : List Event := []
  messages : List Message
  maxTokens : Int
  tokens : Tokens := {}

def CallState.emit (s : CallState) (e : Event) : CallState := { s with log := s.log ++ [e] }

def CallState.say (s : CallState) (ms : List Message) : CallState :=
  { s with messages := s.messages ++ ms }

/-! ## Limits on tokens -/

/-- `_resolve_output_cap` -/
def resolveOutputCap (cfg : LlmConfig) (tier : Tier) : Int :=
  min cfg.maxOutputTokens (cfg.tierOutputCaps tier)

/-- `_lift_to_ceiling` -/
def liftToCeiling (maxTokens outputCap maxAllowedOutput : Int) : Int :=
  let ceiling := if 0 < maxAllowedOutput then min outputCap maxAllowedOutput else outputCap
  if 0 < ceiling then max maxTokens ceiling else maxTokens

/-- The prompt of the user, cut to what the tier takes besides the system prompt. -/
def truncatedPrompt (cfg : LlmConfig) (args : LlmArgs) : String :=
  cfg.truncateToTokenLimit args.userPrompt
    (cfg.tierInputCaps args.tier - cfg.countTokens args.systemPrompt)

/-- `max_allowed_output` -/
def maxAllowedOutput (cfg : LlmConfig) (args : LlmArgs) : Int :=
  cfg.modelContextWindow -
    (cfg.countTokens args.systemPrompt + cfg.countTokens (truncatedPrompt cfg args)) - 1000

/-- `max_tokens` of the first request. -/
def initialMaxTokens (cfg : LlmConfig) (args : LlmArgs) : Int :=
  let outputCap := resolveOutputCap cfg args.tier
  let allowed := maxAllowedOutput cfg args
  let maxTokens := if outputCap < args.maxTokens then outputCap else args.maxTokens
  let maxTokens := if allowed < maxTokens ∧ 0 < allowed then allowed else maxTokens
  liftToCeiling maxTokens outputCap allowed

/-- `_retry_ceiling` -/
def Task.retryCeiling (task : Task) : Int :=
  min 128000 (if 0 < task.maxAllowedOutput then task.maxAllowedOutput else 128000)

/-- `_bumped` -/
def Task.bumped (task : Task) : Int := min (task.maxTokens * 2) task.retryCeiling

/-- `_retry_truncation`. A quarter of the four characters that a token is expected to give is one
character for each token. -/
def Task.retriesTruncation (task : Task) (attempt : Nat) (answer : String) : Bool :=
  (Python.strip answer.toList).length ≤ task.maxTokens ∧ attempt < 2 ∧
    task.maxTokens < task.retryCeiling

/-! ## Tool calls -/

/-- `_build_messages` -/
def buildMessages (systemPrompt userPrompt : String) : List Message :=
  (if systemPrompt = "" then [] else [.system systemPrompt]) ++ [.user userPrompt]

/-- What `internet_search` raises before the search is called: its arguments are read with `get`,
and those that are no JSON count as none. -/
def searchError (cfg : LlmConfig) : Agent.Loaded → Option String
  | .value (.dict _) | .decodeError => if cfg.internetServiceAvailable then none else some noService
  | .value v =>
      if cfg.internetServiceAvailable then some (PyError.attributeError v.typeName "get").message
      else some noService
  | .raised exc => some exc.message
where
  noService :=
    "internet_search tool requires citra_internet_service (available in Citra-Service only)"

/-- One turn of the loop of `_execute_tool_calls`. -/
def executeToolCall (cfg : LlmConfig) (env : LlmEnv) (call : ToolCall) (s : CallState) :
    Except LlmError Message × CallState :=
  match call.arguments with
  | .raised exc => (.error (.other exc.message), s)
  | arguments =>
      if call.name = "internet_search" then
        match searchError cfg arguments with
        | some text => (.ok (.tool call.id ("Error executing internet search: " ++ text)), s)
        | none => (.ok (.tool call.id (env.search s.log call)), s.emit (.searched call))
      else (.ok (.tool call.id ("Unknown tool: " ++ call.name)), s)

/-- `_execute_tool_calls` -/
def executeToolCalls (cfg : LlmConfig) (env : LlmEnv) :
    List ToolCall → CallState → Except LlmError (List Message) × CallState
  | [], s => (.ok [], s)
  | call :: calls, s =>
      match executeToolCall cfg env call s with
      | (.error e, s) => (.error e, s)
      | (.ok m, s) =>
          match executeToolCalls cfg env calls s with
          | (.error e, s) => (.error e, s)
          | (.ok ms, s) => (.ok (m :: ms), s)

/-- `client.chat.completions.create(**kwargs)` -/
def create (env : LlmEnv) (task : Task) (s : CallState) : Except LlmError Response × CallState :=
  let s := s.emit (.requested ⟨task.model, s.messages, s.maxTokens, task.tools⟩)
  match env.create s.log with
  | .ok response => (.ok response, s.emit (.received response))
  | .error e => (.error e, s)

/-- `response.choices[0]` -/
def Response.choice (response : Response) : Except LlmError Choice :=
  match response.choices with
  | [] => .error (.other "list index out of range")
  | choice :: _ => .ok choice

/-- The body of the loop over the tool rounds: the calls are executed, and the model is asked
again with their results. -/
def toolRound (cfg : LlmConfig) (env : LlmEnv) (task : Task) (response : Response) (choice : Choice)
    (s : CallState) : Except LlmError Response × CallState :=
  match s.tokens.count response.usage with
  | .error e => (.error e, s)
  | .ok tokens =>
      let s := { s with tokens := tokens }
      let s := s.say [.assistant choice.content (choice.toolCalls.getD [])]
      match choice.toolCalls with
      | none => (.error (.other "'NoneType' object is not iterable"), s)
      | some calls =>
          match executeToolCalls cfg env calls s with
          | (.error e, s) => (.error e, s)
          | (.ok results, s) => create env task (s.say results)

/-- `while response.choices[0].finish_reason == "tool_calls" and tool_round < max_tool_rounds`,
with the number of rounds that are left. -/
def toolRounds (cfg : LlmConfig) (env : LlmEnv) (task : Task) :
    Nat → Response → CallState → Except LlmError Response × CallState
  | 0, response, s => (response.choice.map fun _ => response, s)
  | left + 1, response, s =>
      match response.choice with
      | .error e => (.error e, s)
      | .ok choice =>
          if choice.finishReason = some "tool_calls" then
            match toolRound cfg env task response choice s with
            | (.error e, s) => (.error e, s)
            | (.ok response, s) => toolRounds cfg env task left response s
          else (.ok response, s)

/-! ## Attempts -/

/-- How an attempt ends: with an answer, with an answer that was cut off, or in an exception. -/
inductive AttemptEnd where
  | answered (answer : String)
  | truncated
  | raised (e : LlmError)

/-- `_track_usage` -/
def trackUsage (cfg : LlmConfig) (task : Task) (s : CallState) : CallState :=
  if !cfg.billingAvailable ∨ task.userId = "" then s
  else s.emit (.tracked task.userId task.model s.tokens)

/-- From `# Final response` to the end of the attempt. -/
def conclude (cfg : LlmConfig) (task : Task) (attempt : Nat) (response : Response)
    (s : CallState) : AttemptEnd × CallState :=
  match response.choice with
  | .error e => (.raised e, s)
  | .ok choice =>
      let answer := choice.content.getD ""
      if choice.finishReason = some "length" ∧ task.retriesTruncation attempt answer then
        let s := { s with maxTokens := task.bumped }
        match s.tokens.count response.usage with
        | .error e => (.raised e, s)
        | .ok tokens => (.truncated, { s with tokens := tokens })
      else
        match s.tokens.count response.usage with
        | .error e => (.raised e, s)
        | .ok tokens => (.answered answer, trackUsage cfg task { s with tokens := tokens })

def maxToolRounds : Nat := 5

/-- The body of `for attempt in range(3)`, inside its `try`. -/
def tryOnce (cfg : LlmConfig) (env : LlmEnv) (task : Task) (attempt : Nat) (s : CallState) :
    AttemptEnd × CallState :=
  match create env task s with
  | (.error e, s) => (.raised e, s)
  | (.ok response, s) =>
      match toolRounds cfg env task maxToolRounds response s with
      | (.error e, s) => (.raised e, s)
      | (.ok response, s) => conclude cfg task attempt response s

/-- The errors after which the call tries again. -/
def LlmError.retried : LlmError → Bool
  | .rateLimit => true
  | .status code => code = 503 ∨ code = 502 ∨ code = 500
  | _ => false

/-- How a call ends. -/
inductive Outcome where
  | answered (answer : String)
  | raised (e : LlmError)

/-- `for attempt in range(3)`, with the number of attempts that are left. -/
def attempts (cfg : LlmConfig) (env : LlmEnv) (task : Task) :
    Nat → Nat → CallState → Outcome × CallState
  | 0, _, s => (.answered "", s)
  | left + 1, attempt, s =>
      match tryOnce cfg env task attempt s with
      | (.answered answer, s) => (.answered answer, s)
      | (.truncated, s) => attempts cfg env task left (attempt + 1) s
      | (.raised e, s) =>
          if attempt < 2 ∧ e.retried then
            attempts cfg env task left (attempt + 1) (s.emit (.slept (2 ^ (attempt + 1))))
          else (.raised e, s)

def LlmArgs.task (cfg : LlmConfig) (args : LlmArgs) : Task where
  model := if args.model = "" then cfg.defaultModel args.tier else args.model
  userId := args.userId
  tools := args.tools
  maxTokens := initialMaxTokens cfg args
  maxAllowedOutput := maxAllowedOutput cfg args

def maxAttempts : Nat := 3

/-- `llm_call`: how it ends, and what it did. -/
def llmCall (cfg : LlmConfig) (env : LlmEnv) (args : LlmArgs) : Outcome × List Event :=
  let task := args.task cfg
  let (o, s) := attempts cfg env task maxAttempts 0
    { messages := buildMessages args.systemPrompt (truncatedPrompt cfg args),
      maxTokens := task.maxTokens }
  (o, s.log)

end LlmCall

end CitraFlows
