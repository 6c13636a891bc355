-- SUMMARY: What a turn of the assistant sends to the model, what it yields, and that its proposal is what the executed calls make of the canvas.
import CitraFlows.Assistant.Loop
import CitraFlows.Lib.Logs

/-!
# Requests and proposals

Each tool call with readable arguments is executed once and answered once, so the chat of a request
tells what has been executed. The working copy and the flag that it was edited are a fold over
these calls, and the operation at the end is built from them. A turn that raises proposes nothing.
-/

namespace CitraFlows

open Logs
open ToolChat

namespace Assistant

open Agent (ToolCall)
open LlmCall (Message Usage Tokens usageTokens turns toolCalls turns_append toolCalls_append)

/-! ## Logs -/

def Event.request? : Event → Option (List Message)
  | .requested messages => some messages
  | _ => none

def Event.reply? : Event → Option Completion
  | .replied c => some c
  | _ => none

def Event.executed? : Event → Option (String × Entries)
  | .executed name args => some (name, args)
  | _ => none

def Event.yield? : Event → Option StreamEvent
  | .yields e => some e
  | _ => none

def Event.isTracked : Event → Bool
  | .tracked _ => true
  | _ => false

def requests (log : List Event) : List (List Message) := log.filterMap Event.request?

def replies (log : List Event) : List Completion := log.filterMap Event.reply?

/-- The tool calls that were executed. -/
def executions (log : List Event) : List (String × Entries) := log.filterMap Event.executed?

/-- What the client gets. -/
def stream (log : List Event) : List StreamEvent := log.filterMap Event.yield?

@[simp] theorem requests_concat (log : List Event) (e : Event) :
    requests (log ++ [e]) = requests log ++ e.request?.toList := by
  cases h : e.request? <;> simp [requests, h]

@[simp] theorem replies_concat (log : List Event) (e : Event) :
    replies (log ++ [e]) = replies log ++ e.reply?.toList := by
  cases h : e.reply? <;> simp [replies, h]

@[simp] theorem executions_concat (log : List Event) (e : Event) :
    executions (log ++ [e]) = executions log ++ e.executed?.toList := by
  cases h : e.executed? <;> simp [executions, h]

@[simp] theorem stream_concat (log : List Event) (e : Event) :
    stream (log ++ [e]) = stream log ++ e.yield?.toList := by
  cases h : e.yield? <;> simp [stream, h]

/-- The tokens of all completions. -/
def total (cs : List Completion) : Tokens := cs.foldl (fun t c => t.add (usageTokens c.usage)) {}

@[simp] theorem total_concat (cs : List Completion) (c : Completion) :
    total (cs ++ [c]) = (total cs).add (usageTokens c.usage) := by
  simp [total, List.foldl_append]

/-- A status, or the result of a test run. -/
def StreamEvent.isProgress : StreamEvent → Bool
  | .status _ | .runResult _ => true
  | .operation _ | .validation _ | .done _ _ | .error _ => false

/-- The call is executed: its arguments are an object. -/
def runnable (call : ToolCall) : Option (String × Entries) :=
  match call.arguments with
  | .value fargs => fargs.asDict.map fun args => (call.name, args)
  | .decodeError | .raised _ => none

def isUser : Message → Bool
  | .user _ => true
  | _ => false

/-- What an executed call makes of the working copy and of the flag. -/
def effect (env : AssistantEnv) (st : Entries × Bool) (call : String × Entries) : Entries × Bool :=
  match edits env call.1 call.2 st.1 with
  | none => st
  | some (wc, .ok message) => (wc, st.2 || !isError message)
  | some (wc, .error _) => (wc, st.2)

/-- What the executed calls make of the canvas. -/
def outcome (env : AssistantEnv) (args : AssistantArgs) (calls : List (String × Entries)) :
    Entries × Bool :=
  calls.foldl (effect env) (args.currentWorkflow, false)

@[simp] theorem outcome_concat (env : AssistantEnv) (args : AssistantArgs)
    (calls : List (String × Entries)) (call : String × Entries) :
    outcome env args (calls ++ [call]) = effect env (outcome env args calls) call := by
  simp [outcome, List.foldl_append]

/-! ## The state of a turn -/

/-- A request after the log `before`. -/
structure Fits (args : AssistantArgs) (before : List Event) (messages : List Message) : Prop where
  opens : args.opening <+: messages
  /-- Every tool call in it is answered. -/
  complete : Complete (turns messages)
  /-- The executed calls are those that the chat asks for, each executed once. -/
  executed : executions before = (toolCalls messages).filterMap runnable
  /-- It continues every chat that was sent before. -/
  grows : ∀ ms ∈ requests before, ms <+: messages
  /-- The user speaks once, and for one repair at most. -/
  users : messages.countP isUser ≤ 2

def Sends (args : AssistantArgs) (log : List Event) : Prop :=
  Always (fun before e => ∀ messages, e = .requested messages → Fits args before messages) log

/-- What is true of a turn until it ends, also when something has raised: at most `n` requests were
sent. -/
structure Safe (env : AssistantEnv) (args : AssistantArgs) (n : Nat) (s : TurnState) : Prop where
  sends : Sends args s.log
  count : (requests s.log).length ≤ n
  progress : ∀ e ∈ stream s.log, e.isProgress = true
  counted : s.tokens = total (replies s.log)
  untracked : ∀ e ∈ s.log, e.isTracked = false
  edits : (s.wc, s.edited) = outcome env args (executions s.log)

/-- What is true while the calls `open_` of the last message are to be answered. -/
structure Holds (env : AssistantEnv) (args : AssistantArgs) (n : Nat) (s : TurnState)
    (calls : List ToolCall) : Prop extends Safe env args n s where
  opens : args.opening <+: s.messages
  waits : waiting (turns s.messages) = some (calls.map (·.id))
  executed : executions s.log ++ calls.filterMap runnable =
    (toolCalls s.messages).filterMap runnable
  grows : ∀ ms ∈ requests s.log, ms <+: s.messages
  users : s.messages.countP isUser = if s.repaired then 2 else 1

variable {env : AssistantEnv} {args : AssistantArgs} {n m : Nat} {s : TurnState}
  {call : ToolCall} {calls : List ToolCall}

/-- No query of a user is tracked by one more event that tracks none. -/
theorem untracked_concat {log : List Event} {new : Event} (h : ∀ e ∈ log, e.isTracked = false)
    (hnew : new.isTracked = false) : ∀ e ∈ log ++ [new], e.isTracked = false :=
  List.forall_mem_append.mpr ⟨h, List.forall_mem_singleton.mpr hnew⟩

theorem Safe.mono (h : Safe env args n s) (hnm : n ≤ m) : Safe env args m s :=
  { h with count := h.count.trans hnm }

theorem Holds.mono (h : Holds env args n s calls) (hnm : n ≤ m) : Holds env args m s calls :=
  { h with toSafe := h.toSafe.mono hnm }

/-- Something happens that is no request, no reply, no call and no bill. -/
theorem Safe.yields (h : Safe env args n s) {e : StreamEvent} (he : e.isProgress = true) :
    Safe env args n (s.yields e) where
  sends := h.sends.concat fun messages heq => by cases heq
  count := by simpa [TurnState.yields, TurnState.emit, Event.request?] using h.count
  progress e' he' := by
    have hmem : e' ∈ stream s.log ++ [e] := by
      simpa [TurnState.yields, TurnState.emit, Event.yield?] using he'
    rcases List.mem_append.mp hmem with hold | hnew
    · exact h.progress e' hold
    · obtain rfl := List.mem_singleton.mp hnew
      exact he
  counted := by simpa [TurnState.yields, TurnState.emit, Event.reply?] using h.counted
  untracked := untracked_concat h.untracked rfl
  edits := by simpa [TurnState.yields, TurnState.emit, Event.executed?] using h.edits

theorem Holds.yields (h : Holds env args n s calls) {e : StreamEvent} (he : e.isProgress = true) :
    Holds env args n (s.yields e) calls where
  toSafe := h.toSafe.yields he
  opens := h.opens
  waits := h.waits
  executed := by
    simpa [TurnState.yields, TurnState.emit, Event.executed?] using h.executed
  grows ms hms := h.grows ms (by
    simpa [TurnState.yields, TurnState.emit, Event.request?] using hms)
  users := h.users

/-- Messages are added. -/
theorem Safe.say (h : Safe env args n s) (messages : List Message) :
    Safe env args n (s.say messages) :=
  { h with }

/-- The first of the open calls is answered; it was executed, or its arguments were unreadable. -/
theorem Holds.answer (h : Holds env args n s (call :: calls)) (result : String)
    (hrun : runnable call = none) : Holds env args n (s.say [.tool call.id result]) calls where
  toSafe := h.toSafe.say _
  opens := h.opens.trans (List.prefix_append _ _)
  waits := by
    have hone := waiting_answers h.waits
    simpa [TurnState.say, turns, Message.turn] using hone
  executed := by
    have hsame := h.executed
    rw [List.filterMap_cons, hrun] at hsame
    simpa [TurnState.say, toolCalls, Message.toolCalls] using hsame
  grows ms hms := (h.grows ms hms).trans (List.prefix_append _ _)
  users := by
    show (s.messages ++ [Message.tool call.id result]).countP isUser = if s.repaired then 2 else 1
    rw [List.countP_append, h.users]
    simp [isUser]

/-! ## Tool calls -/

/-- A tool changes the working copy, the flag and the test results, and nothing else. -/
structure Ran (env : AssistantEnv) (name : String) (fields : Entries) (s s' : TurnState) : Prop where
  log : s'.log = s.log
  messages : s'.messages = s.messages
  tokens : s'.tokens = s.tokens
  repaired : s'.repaired = s.repaired
  edits : (s'.wc, s'.edited) = effect env (s.wc, s.edited) (name, fields)

theorem executeTool_ran (env : AssistantEnv) (name : String) (fields : Entries) (s : TurnState) :
    Ran env name fields s (executeTool env name fields s).2 := by
  unfold executeTool
  split
  next wc message hedits => exact ⟨rfl, rfl, rfl, rfl, by simp [effect, hedits]⟩
  next wc e hedits => exact ⟨rfl, rfl, rfl, rfl, by simp [effect, hedits]⟩
  next hedits =>
    have hsame : effect env (s.wc, s.edited) (name, fields) = (s.wc, s.edited) := by
      simp [effect, hedits]
    split
    · split <;> exact ⟨rfl, rfl, rfl, rfl, hsame.symm⟩
    · split <;> exact ⟨rfl, rfl, rfl, rfl, hsame.symm⟩

variable {name : String} {fields : Entries} {s' : TurnState}

/-- The call is logged and its tool has run. -/
theorem Safe.execute (h : Safe env args n s)
    (hran : Ran env name fields (s.emit (.executed name fields)) s') : Safe env args n s' where
  sends := by
    rw [hran.log]
    exact h.sends.concat fun messages heq => by cases heq
  count := by
    rw [hran.log]
    simpa [TurnState.emit, Event.request?] using h.count
  progress := by
    rw [hran.log]
    simpa [TurnState.emit, Event.yield?] using h.progress
  counted := by
    rw [hran.log, hran.tokens]
    simpa [TurnState.emit, Event.reply?] using h.counted
  untracked := hran.log ▸ untracked_concat h.untracked rfl
  edits := by
    rw [hran.edits, hran.log]
    simp [TurnState.emit, Event.executed?, ← h.edits]

/-- The first of the open calls is executed and answered. -/
theorem Holds.execute (h : Holds env args n s (call :: calls))
    (hrun : runnable call = some (name, fields))
    (hran : Ran env name fields (s.emit (.executed name fields)) s') (result : String) :
    Holds env args n (s'.say [.tool call.id result]) calls where
  toSafe := (h.toSafe.execute hran).say _
  opens := by
    show args.opening <+: s'.messages ++ _
    rw [hran.messages]
    exact h.opens.trans (List.prefix_append _ _)
  waits := by
    have hone := waiting_answers h.waits
    show waiting (turns (s'.messages ++ _)) = _
    rw [hran.messages]
    simpa [TurnState.emit, turns, Message.turn] using hone
  executed := by
    have hsame := h.executed
    rw [List.filterMap_cons, hrun] at hsame
    show executions s'.log ++ _ = (toolCalls (s'.messages ++ _)).filterMap runnable
    rw [hran.log, hran.messages]
    simpa [TurnState.emit, Event.executed?, toolCalls, Message.toolCalls] using hsame
  grows ms hms := by
    have hold : ms ∈ requests s.log := by
      simpa [TurnState.say, hran.log, TurnState.emit, Event.request?] using hms
    show ms <+: s'.messages ++ _
    rw [hran.messages]
    exact (h.grows ms hold).trans (List.prefix_append _ _)
  users := by
    show (s'.messages ++ [Message.tool call.id result]).countP isUser = if s'.repaired then 2 else 1
    rw [hran.messages, hran.repaired, List.countP_append]
    show s.messages.countP isUser + 0 = if s.repaired then 2 else 1
    rw [h.users, Nat.add_zero]

theorem surfaceRun_cases (name : String) (s : TurnState) :
    surfaceRun name s = s ∨ ∃ run, surfaceRun name s = s.yields (.runResult run) := by
  unfold surfaceRun
  split
  next run _ => exact .inr ⟨run, rfl⟩
  next => exact .inl rfl

/-- What a step of a turn keeps: it raises and the turn is safe, or its calls are answered. -/
def Keeps (env : AssistantEnv) (args : AssistantArgs) (n : Nat) (calls : List ToolCall)
    (r : Except String Unit × TurnState) : Prop :=
  Safe env args n r.2 ∧ (r.1 = .ok () → Holds env args n r.2 calls)

theorem Keeps.raised {text : String} (h : Safe env args n s) :
    Keeps env args n calls (.error text, s) :=
  ⟨h, fun hok => by cases hok⟩

theorem Keeps.of_holds (h : Holds env args n s calls) : Keeps env args n calls (.ok (), s) :=
  ⟨h.toSafe, fun _ => h⟩

/-- The status is made before the tool runs, and only arguments that are an object have one. -/
theorem statusForTool_ok {fargs : Value} {text : String} (h : statusForTool name fargs = .ok text) :
    ∃ fields, fargs.asDict = some fields := by
  unfold statusForTool at h
  split at h
  next => cases h
  next fields hfields => exact ⟨fields, hfields⟩

theorem handleCall_keeps (h : Holds env args n s (call :: calls)) :
    Keeps env args n calls (handleCall env call s) := by
  unfold handleCall
  split
  next exc _ => exact .raised h.toSafe
  next hinvalid =>
    have hnone : runnable call = none := by simp [runnable, hinvalid]
    split
    next => exact .raised h.toSafe
    next text _ =>
      have hstatus : Holds env args n (s.yields (.status text)) (call :: calls) := h.yields rfl
      exact .of_holds (hstatus.answer _ hnone)
  next fargs hvalue =>
    split
    next => exact .raised h.toSafe
    next text hstatus =>
      obtain ⟨fields, hfields⟩ := statusForTool_ok hstatus
      have hrun : runnable call = some (call.name, fields) := by simp [runnable, hvalue, hfields]
      have hyield : Holds env args n (s.yields (.status text)) (call :: calls) := h.yields rfl
      simp only [hfields, Option.getD_some]
      have hran := executeTool_ran env call.name fields
        ((s.yields (.status text)).emit (.executed call.name fields))
      split
      next text s' heq =>
        rw [heq] at hran
        exact .raised (hyield.toSafe.execute hran)
      next result s' heq =>
        rw [heq] at hran
        have hdone := hyield.execute hrun hran result
        rcases surfaceRun_cases call.name s' with hnone | ⟨run, hrun⟩
        · rw [hnone]
          exact .of_holds hdone
        · rw [hrun]
          exact .of_holds (hdone.yields (e := .runResult run) rfl)

theorem handleCalls_keeps (h : Holds env args n s calls) :
    Keeps env args n [] (handleCalls env calls s) := by
  induction calls generalizing s with
  | nil => exact .of_holds h
  | cons call calls ih =>
      have hcall := handleCall_keeps h
      rw [handleCalls]
      split
      next text s' heq =>
        rw [heq] at hcall
        exact .raised hcall.1
      next s' heq =>
        rw [heq] at hcall
        exact ih (hcall.2 rfl)

/-! ## Rounds -/

theorem Holds.fits (h : Holds env args n s []) : Fits args s.log s.messages where
  opens := h.opens
  complete := h.waits
  executed := by simpa using h.executed
  grows := h.grows
  users := by
    rw [h.users]
    split
    · exact Nat.le_refl 2
    · exact Nat.le_succ 1

/-- The chat is sent. -/
theorem Holds.request (h : Holds env args n s []) :
    Holds env args (n + 1) (s.emit (.requested s.messages)) [] where
  sends := h.sends.concat fun messages heq => by
    cases heq
    exact h.fits
  count := by simpa [TurnState.emit, Event.request?] using h.count
  progress := by simpa [TurnState.emit, Event.yield?] using h.progress
  counted := by simpa [TurnState.emit, Event.reply?] using h.counted
  untracked := untracked_concat h.untracked rfl
  edits := by simpa [TurnState.emit, Event.executed?] using h.edits
  opens := h.opens
  waits := h.waits
  executed := by simpa [TurnState.emit, Event.executed?] using h.executed
  grows ms hms := by
    have hmem : ms ∈ requests s.log ++ [s.messages] := by
      simpa [TurnState.emit, Event.request?] using hms
    rcases List.mem_append.mp hmem with hold | hnew
    · exact h.grows ms hold
    · obtain rfl := List.mem_singleton.mp hnew
      exact List.prefix_refl _
  users := h.users

/-- The tokens of a completion are counted as it comes. -/
theorem Holds.reply (h : Holds env args n s []) (c : Completion) :
    Holds env args n
      { s.emit (.replied c) with tokens := s.tokens.add (usageTokens c.usage) } [] where
  sends := h.sends.concat fun messages heq => by cases heq
  count := by simpa [TurnState.emit, Event.request?] using h.count
  progress := by simpa [TurnState.emit, Event.yield?] using h.progress
  counted := by
    show s.tokens.add (usageTokens c.usage) = total (replies (s.log ++ [.replied c]))
    rw [replies_concat, h.counted]
    exact (total_concat _ c).symm
  untracked := untracked_concat h.untracked rfl
  edits := by simpa [TurnState.emit, Event.executed?] using h.edits
  opens := h.opens
  waits := h.waits
  executed := by simpa [TurnState.emit, Event.executed?] using h.executed
  grows ms hms := h.grows ms (by simpa [TurnState.emit, Event.request?] using hms)
  users := h.users

/-- The model speaks, and its calls are to be answered. -/
theorem Holds.ask (h : Holds env args n s []) (content : Option String) (calls : List ToolCall) :
    Holds env args n (s.say [.assistant content calls]) calls where
  toSafe := h.toSafe.say _
  opens := h.opens.trans (List.prefix_append _ _)
  waits := by
    have hasks := Complete.asks h.waits (calls.map (·.id))
    simpa [TurnState.say, turns, Message.turn] using hasks
  executed := by
    have hsame := h.executed
    simp only [List.filterMap_nil, List.append_nil] at hsame
    simp [TurnState.say, toolCalls, Message.toolCalls, hsame]
  grows ms hms := (h.grows ms hms).trans (List.prefix_append _ _)
  users := by
    show (s.messages ++ [Message.assistant content calls]).countP isUser = _
    rw [List.countP_append]
    exact h.users

/-- The one repair. -/
theorem Holds.repair (h : Holds env args n s []) (hrepaired : s.repaired = false)
    (content : Option String) (text : String) :
    Holds env args n ({ s with repaired := true }.say [.assistant content [], .user text]) [] where
  toSafe := { h.toSafe with }
  opens := h.opens.trans (List.prefix_append _ _)
  waits := by
    have hasks : Complete (turns (s.messages ++ [.assistant content []])) :=
      (h.ask content []).waits
    have hspeaks : Complete (turns (s.messages ++ [.assistant content [], .user text])) := by
      simpa [turns, Message.turn] using hasks.speaks
    exact hspeaks
  executed := by
    have hsame := h.executed
    simpa [TurnState.say, toolCalls, Message.toolCalls] using hsame
  grows ms hms := (h.grows ms hms).trans (List.prefix_append _ _)
  users := by
    have hone := h.users
    rw [hrepaired] at hone
    show (s.messages ++ [Message.assistant content [], Message.user text]).countP isUser = 2
    rw [List.countP_append, hone]
    rfl

/-- How the attempts of a round end. -/
theorem complete_keeps (left : Nat) (h : Holds env args n s []) :
    Safe env args (n + left) (complete env left s).2 ∧
      ∀ c, (complete env left s).1 = .ok c → Holds env args (n + left) (complete env left s).2 [] := by
  induction left generalizing n s with
  | zero => exact ⟨h.toSafe, fun c hok => by cases hok⟩
  | succ left ih =>
      have hsent := h.request
      have hmore : n + 1 ≤ n + (left + 1) := by omega
      rw [complete]
      split
      next => exact ⟨hsent.toSafe.mono hmore, fun c hok => by cases hok⟩
      next =>
        have hrest := ih hsent
        have hsum : n + 1 + left = n + (left + 1) := by omega
        rwa [hsum] at hrest
      next c _ => exact ⟨hsent.toSafe.mono hmore, fun _ _ => hsent.mono hmore⟩

/-- How a round ends. -/
def RoundKeeps (env : AssistantEnv) (args : AssistantArgs) (n : Nat) (r : RoundEnd × TurnState) :
    Prop :=
  match r with
  | (.finished message, s) => message ≠ "" ∧ Safe env args n s
  | (.next, s) => Holds env args n s []
  | (.raised _, s) => Safe env args n s

theorem finalMessage_ne (c : Completion) : finalMessage c ≠ "" := by
  unfold finalMessage
  dsimp only
  split
  · decide
  · assumption

theorem accept_keeps (c : Completion) (h : Holds env args n s []) :
    RoundKeeps env args n (accept env args c s) := by
  unfold accept
  split
  next hask =>
    obtain ⟨-, hrepaired⟩ := (Bool.and_eq_true _ _).mp hask
    split
    next => exact h.toSafe
    next report _ =>
      dsimp only
      split
      next => exact ⟨finalMessage_ne c, h.toSafe⟩
      next => exact (h.repair (by simpa using hrepaired) _ _).yields (e := .status _) rfl
  next => exact ⟨finalMessage_ne c, h.toSafe⟩

theorem round_keeps (roundNo : Nat) (h : Holds env args n s []) :
    RoundKeeps env args (n + 3) (round env args roundNo s) := by
  have hstatus : Holds env args n (s.yields
      (.status (if roundNo = 1 then "Thinking…" else "Working…"))) [] := h.yields rfl
  obtain ⟨hsafe, hcompletes⟩ := complete_keeps 3 hstatus
  unfold round
  split
  next text s₁ heq =>
    rw [heq] at hsafe
    exact hsafe
  next c s₁ heq =>
    have hcompleted := hcompletes c (by rw [heq])
    rw [heq] at hcompleted
    have hreply := hcompleted.reply c
    dsimp only
    split
    next => exact accept_keeps c hreply
    next =>
      have hcalls := handleCalls_keeps (hreply.ask c.content c.toolCalls)
      split
      next text s₂ heq₂ =>
        rw [heq₂] at hcalls
        exact hcalls.1
      next s₂ heq₂ =>
        rw [heq₂] at hcalls
        exact hcalls.2 rfl

/-- How the rounds end: with a message or an exception. -/
theorem rounds_keeps (left roundNo : Nat) (h : Holds env args n s []) :
    Safe env args (n + 3 * left) (rounds env args left roundNo s).2 ∧
      ∀ message, (rounds env args left roundNo s).1 = .ok message → message ≠ "" := by
  induction left generalizing n roundNo s with
  | zero =>
      refine ⟨h.toSafe, fun message hok => ?_⟩
      cases hok
      decide
  | succ left ih =>
      have hround := round_keeps roundNo h
      rw [rounds]
      split
      next message s₁ heq =>
        rw [heq] at hround
        refine ⟨hround.2.mono (by omega), fun message' hok => ?_⟩
        cases hok
        exact hround.1
      next s₁ heq =>
        rw [heq] at hround
        have hsum : n + 3 + 3 * left = n + 3 * (left + 1) := by omega
        exact hsum ▸ ih (roundNo + 1) hround
      next text s₁ heq =>
        rw [heq] at hround
        exact ⟨Safe.mono hround (by omega), fun message hok => by cases hok⟩

/-! ## Whole turns -/

/-- How the stream of a turn ends, from the working copy and the flag that the executed calls have
made. -/
inductive Ending (env : AssistantEnv) (args : AssistantArgs) (st : Entries × Bool) :
    List StreamEvent → Prop where
  /-- Something has raised: nothing is proposed. -/
  | failed (text : String) : Ending env args st [.error ("Assistant error: " ++ text)]
  /-- No edit tool has succeeded: nothing is proposed. -/
  | unchanged (message : String) (hmessage : message ≠ "") (hedited : st.2 = false) :
      Ending env args st [.done message []]
  | proposed (op : Operation) (message : String) (hmessage : message ≠ "")
      (hedited : st.2 = true) (hop : buildEditOperation env args st.1 = .ok op) :
      Ending env args st
        (.operation op ::
          ((if op.validation.isClean then [] else [.validation op.validation]) ++
            [.done message [op]]))

/-- The client gets progress, and then one ending. -/
def Streams (env : AssistantEnv) (args : AssistantArgs) (log : List Event) : Prop :=
  ∃ progress ending, stream log = progress ++ ending ∧ (∀ e ∈ progress, e.isProgress = true) ∧
    Ending env args (outcome env args (executions log)) ending

/-- What is true of a turn that is over, but for its bill. -/
structure Over (env : AssistantEnv) (args : AssistantArgs) (n : Nat) (s : TurnState) : Prop where
  sends : Sends args s.log
  count : (requests s.log).length ≤ n
  counted : s.tokens = total (replies s.log)
  untracked : ∀ e ∈ s.log, e.isTracked = false
  streams : Streams env args s.log

/-- The events of an ending follow. -/
def TurnState.yieldAll (s : TurnState) (events : List StreamEvent) : TurnState :=
  { s with log := s.log ++ events.map .yields }

theorem filterMap_yields {α : Type} {f : Event → Option α} (hf : ∀ e, f (.yields e) = none)
    (events : List StreamEvent) : (events.map Event.yields).filterMap f = [] := by
  refine List.filterMap_eq_nil_iff.mpr fun e he => ?_
  obtain ⟨event, -, rfl⟩ := List.mem_map.mp he
  exact hf event

theorem stream_yields (events : List StreamEvent) :
    (events.map Event.yields).filterMap Event.yield? = events := by
  induction events with
  | nil => rfl
  | cons e events ih => exact congrArg (e :: ·) ih

theorem Safe.over (h : Safe env args n s) {ending : List StreamEvent}
    (hending : Ending env args (s.wc, s.edited) ending) :
    Over env args n (s.yieldAll ending) := by
  have hrequests : requests (s.log ++ ending.map .yields) = requests s.log := by
    rw [requests, List.filterMap_append, filterMap_yields fun _ => rfl, List.append_nil]
    rfl
  have hreplies : replies (s.log ++ ending.map .yields) = replies s.log := by
    rw [replies, List.filterMap_append, filterMap_yields fun _ => rfl, List.append_nil]
    rfl
  have hexecutions : executions (s.log ++ ending.map .yields) = executions s.log := by
    rw [executions, List.filterMap_append, filterMap_yields fun _ => rfl, List.append_nil]
    rfl
  have hstream : stream (s.log ++ ending.map .yields) = stream s.log ++ ending := by
    rw [stream, List.filterMap_append, stream_yields]
    rfl
  constructor
  · refine h.sends.append fun e he before messages heq => ?_
    obtain ⟨event, -, rfl⟩ := List.mem_map.mp he
    cases heq
  · exact hrequests ▸ h.count
  · show s.tokens = total (replies (s.log ++ ending.map .yields))
    rw [hreplies]
    exact h.counted
  · intro e he
    rcases List.mem_append.mp he with hold | hnew
    · exact h.untracked e hold
    · obtain ⟨event, -, rfl⟩ := List.mem_map.mp hnew
      rfl
  · refine ⟨stream s.log, ending, hstream, h.progress, ?_⟩
    show Ending env args (outcome env args (executions (s.log ++ ending.map .yields))) ending
    rw [hexecutions, ← h.edits]
    exact hending

theorem propose_over (h : Safe env args n s) {message : String} (hmessage : message ≠ "") :
    Over env args n (propose env args message s) := by
  unfold propose
  simp only [if_neg hmessage]
  split
  next hedited =>
    split
    next text _ => exact h.over (.failed text)
    next op hop =>
      have hover := h.over (.proposed op message hmessage hedited hop)
      split
      next hclean => simpa [TurnState.yieldAll, TurnState.yields, TurnState.emit, hclean] using hover
      next hclean => simpa [TurnState.yieldAll, TurnState.yields, TurnState.emit, hclean] using hover
  next hedited => exact h.over (.unchanged message hmessage (by simpa using hedited))

/-- Before the first round nothing has happened. -/
theorem start_holds (env : AssistantEnv) (args : AssistantArgs) :
    Holds env args 0 args.start [] where
  sends := .nil
  count := Nat.le_refl 0
  progress e he := by cases he
  counted := rfl
  untracked e he := by cases he
  edits := rfl
  opens := List.prefix_refl _
  waits := Complete.of_speaks fun t ht => by
    simpa [AssistantArgs.start, AssistantArgs.opening, turns, Message.turn] using ht
  executed := rfl
  grows ms hms := by cases hms
  users := rfl

/-- A turn is over, and then it is billed. -/
theorem turn_over (env : AssistantEnv) (args : AssistantArgs) :
    ∃ s, Over env args (3 * env.maxRounds) s ∧
      turn env args = s.log ++ [.tracked s.tokens] := by
  obtain ⟨hsafe, hmessages⟩ := rounds_keeps env.maxRounds 1 (start_holds env args)
  rw [Nat.zero_add] at hsafe
  unfold turn
  dsimp only
  split
  next message s heq =>
    rw [heq] at hsafe hmessages
    exact ⟨_, propose_over hsafe (hmessages message rfl), rfl⟩
  next text s heq =>
    rw [heq] at hsafe
    exact ⟨_, hsafe.over (.failed text), rfl⟩

/-- A canvas that can be counted gets its turn. -/
theorem runWorkflowAssistant_eq {log : List Event} (h : runWorkflowAssistant env args = .ok log) :
    log = turn env args := by
  obtain ⟨_, -, h⟩ := ok_of_bind h
  obtain ⟨_, -, h⟩ := ok_of_bind h
  cases h
  rfl

/-- Whatever the model, the tools and the validation answer: a turn sends three requests a round at
most, and each of them fits. -/
theorem runWorkflowAssistant_requests {log : List Event}
    (h : runWorkflowAssistant env args = .ok log) :
    (requests log).length ≤ 3 * env.maxRounds ∧ Sends args log := by
  obtain ⟨s, hover, heq⟩ := turn_over env args
  rw [runWorkflowAssistant_eq h, heq]
  refine ⟨?_, hover.sends.concat fun messages h => by cases h⟩
  simpa [Event.request?] using hover.count

/-- However a turn ends, the tokens of its completions are billed once, at the very end. -/
theorem runWorkflowAssistant_billed {log : List Event}
    (h : runWorkflowAssistant env args = .ok log) :
    ∃ unbilled, (∀ e ∈ unbilled, e.isTracked = false) ∧
      log = unbilled ++ [.tracked (total (replies unbilled))] := by
  obtain ⟨s, hover, heq⟩ := turn_over env args
  exact ⟨s.log, hover.untracked,
    (runWorkflowAssistant_eq h).trans (heq.trans (by rw [hover.counted]))⟩

/-! ## A turn that adds a node -/

def addStep : ToolCall where
  id := "call_1"
  name := "add_node"
  arguments := .value (.dict [("node", .dict [("id", .str "s1"), ("type", .str "set_variable")])])

/-- The model adds a step in its first answer and is done in its second one. -/
def addingEnv : AssistantEnv where
  py := { loads := fun _ => none, dictOf := fun v => .error (.typeError v.typeName) }
  chatOnce log :=
    .completed
      (if (requests log).length = 1 then ⟨some ⟨some 9, some 4, none⟩, none, [addStep]⟩
      else ⟨some ⟨some 20, some 2, none⟩, some "Added.", []⟩)
  read _ _ _ _ := .ok ""
  runTest _ _ _ := .ok (.told "")
  editBroken wc _ := (wc, .ok "")
  validate _ _ := .ok ⟨[], .list []⟩
  diff _ _ := .ok (.dict [])

def addingArgs : AssistantArgs where
  systemPrompt := "You edit workflows."
  openingMessage := "User: add a step"
  workflow := [("nodes", .list [.dict [("id", .str "t1"), ("type", .str "manual_trigger")]]),
    ("edges", .list [])]

theorem addingEnv_runs :
    runWorkflowAssistant addingEnv addingArgs = .ok (turn addingEnv addingArgs) := rfl

theorem addingEnv_requests :
    (requests (turn addingEnv addingArgs)).length = 2 ∧
      Sends addingArgs (turn addingEnv addingArgs) :=
  ⟨by decide +kernel, (runWorkflowAssistant_requests addingEnv_runs).2⟩

theorem addingEnv_billed : ∃ unbilled, (∀ e ∈ unbilled, e.isTracked = false) ∧
    turn addingEnv addingArgs = unbilled ++ [.tracked (total (replies unbilled))] :=
  runWorkflowAssistant_billed addingEnv_runs

end Assistant

end CitraFlows
