-- SUMMARY: What a call of a language model sends and what it bills, whatever the service answers.
import CitraFlows.Lib.Logs
import CitraFlows.Llm.Calls

/-!
# Requests and bills

The messages of a call only grow, and they grow by whole exchanges. So a request that is tried
again, in the same attempt or in a later one, continues the chat that the service has seen. The
tokens of a response are counted before the next request is sent, and an exception that leads to
another attempt comes from a request.
-/

namespace CitraFlows

open Logs
open ToolChat

namespace LlmCall

open Agent (ToolCall)

/-! ## Logs and chats -/

def Event.request? : Event → Option Request
  | .requested r => some r
  | _ => none

def Event.response? : Event → Option Response
  | .received r => some r
  | _ => none

def Event.search? : Event → Option ToolCall
  | .searched call => some call
  | _ => none

def Event.isTracked : Event → Bool
  | .tracked .. => true
  | _ => false

def requests (log : List Event) : List Request := log.filterMap Event.request?

def responses (log : List Event) : List Response := log.filterMap Event.response?

def searches (log : List Event) : List ToolCall := log.filterMap Event.search?

def Message.turn : Message → Turn String
  | .system _ | .user _ => .speaks
  | .assistant _ toolCalls => .asks (toolCalls.map (·.id))
  | .tool toolCallId _ => .answers toolCallId

def Message.toolCalls : Message → List ToolCall
  | .assistant _ toolCalls => toolCalls
  | _ => []

def turns (messages : List Message) : List (Turn String) := messages.map Message.turn

/-- The tool calls of a chat. -/
def toolCalls (messages : List Message) : List ToolCall := messages.flatMap Message.toolCalls

/-- The call gets to the search. -/
def isSearch (cfg : LlmConfig) (call : ToolCall) : Bool :=
  call.name = "internet_search" ∧ searchError cfg call.arguments = none

@[simp] theorem requests_append (log log' : List Event) :
    requests (log ++ log') = requests log ++ requests log' :=
  List.filterMap_append

@[simp] theorem responses_append (log log' : List Event) :
    responses (log ++ log') = responses log ++ responses log' :=
  List.filterMap_append

@[simp] theorem searches_append (log log' : List Event) :
    searches (log ++ log') = searches log ++ searches log' :=
  List.filterMap_append

@[simp] theorem requests_single (e : Event) : requests [e] = e.request?.toList := by
  cases h : e.request? <;> simp [requests, h]

@[simp] theorem responses_single (e : Event) : responses [e] = e.response?.toList := by
  cases h : e.response? <;> simp [responses, h]

@[simp] theorem searches_single (e : Event) : searches [e] = e.search?.toList := by
  cases h : e.search? <;> simp [searches, h]

@[simp] theorem emit_log (s : CallState) (e : Event) : (s.emit e).log = s.log ++ [e] := rfl

@[simp] theorem emit_messages (s : CallState) (e : Event) : (s.emit e).messages = s.messages := rfl

@[simp] theorem turns_append (ms ms' : List Message) : turns (ms ++ ms') = turns ms ++ turns ms' :=
  List.map_append

@[simp] theorem toolCalls_append (ms ms' : List Message) :
    toolCalls (ms ++ ms') = toolCalls ms ++ toolCalls ms' :=
  List.flatMap_append

/-! ## Tokens -/

def Tokens.add (t u : Tokens) : Tokens := ⟨t.input + u.input, t.output + u.output, t.cached + u.cached⟩

/-- The tokens that a response reports. -/
def usageTokens : Option Usage → Tokens
  | none => {}
  | some u =>
      { input := u.promptTokens.getD 0
        output := u.completionTokens.getD 0
        cached := (u.promptTokensDetails.getD (some 0)).getD 0 }

/-- The tokens of all responses. -/
def total (rs : List Response) : Tokens := rs.foldl (fun t r => t.add (usageTokens r.usage)) {}

@[simp] theorem total_concat (rs : List Response) (r : Response) :
    total (rs ++ [r]) = (total rs).add (usageTokens r.usage) := by
  simp [total, List.foldl_append]

theorem Tokens.count_ok {t t' : Tokens} {u : Option Usage} (h : t.count u = .ok t') :
    t' = t.add (usageTokens u) := by
  unfold Tokens.count at h
  split at h
  next =>
    cases h
    rfl
  next u =>
    split at h
    next => cases h
    next cached hdetails =>
      cases h
      simp [Tokens.add, usageTokens, hdetails]
    next hdetails =>
      cases h
      simp [Tokens.add, usageTokens, hdetails]

theorem Tokens.count_error {t : Tokens} {u : Option Usage} {e : LlmError}
    (h : t.count u = .error e) : e.retried = false := by
  unfold Tokens.count at h
  split at h
  · cases h
  · split at h
    · cases h
      rfl
    · cases h
    · cases h

theorem Response.choice_error {r : Response} {e : LlmError} (h : r.choice = .error e) :
    e.retried = false := by
  unfold Response.choice at h
  split at h
  · cases h
    rfl
  · cases h

/-! ## Limits on tokens -/

variable {cfg : LlmConfig} {args : LlmArgs}

/-- What the model and the prompt leave for the answer. -/
def ceiling (cfg : LlmConfig) (args : LlmArgs) : Int :=
  if 0 < maxAllowedOutput cfg args then
    min (resolveOutputCap cfg args.tier) (maxAllowedOutput cfg args)
  else resolveOutputCap cfg args.tier

theorem initialMaxTokens_eq (h : 0 < resolveOutputCap cfg args.tier) :
    initialMaxTokens cfg args = ceiling cfg args := by
  unfold initialMaxTokens liftToCeiling ceiling
  dsimp only
  split_ifs <;> omega

theorem initialMaxTokens_le (h : 0 < maxAllowedOutput cfg args) :
    initialMaxTokens cfg args ≤ maxAllowedOutput cfg args := by
  unfold initialMaxTokens liftToCeiling
  dsimp only
  split_ifs <;> omega

theorem retryCeiling_le (h : 0 < maxAllowedOutput cfg args) :
    (args.task cfg).retryCeiling ≤ maxAllowedOutput cfg args := by
  unfold Task.retryCeiling
  show min 128000 (if 0 < maxAllowedOutput cfg args then maxAllowedOutput cfg args else 128000) ≤ _
  rw [if_pos h]
  exact min_le_right _ _

/-! ## What is sent -/

/-- A request after the log `before`. -/
structure Fits (cfg : LlmConfig) (args : LlmArgs) (before : List Event) (r : Request) : Prop where
  model : r.model = (args.task cfg).model
  tools : r.tools = args.tools
  /-- The chat begins with the prompts. -/
  opens : buildMessages args.systemPrompt (truncatedPrompt cfg args) <+: r.messages
  /-- Every tool call in it is answered. -/
  complete : Complete (turns r.messages)
  /-- The searches that were made are those that the chat asks for, each made once. -/
  searched : searches before = (toolCalls r.messages).filter (isSearch cfg)
  /-- It continues every chat that was sent before. -/
  grows : ∀ r' ∈ requests before, r'.messages <+: r.messages
  /-- With the prompt, the answer fits into the context window. -/
  limit : 0 < maxAllowedOutput cfg args → r.maxTokens ≤ maxAllowedOutput cfg args
  /-- The limit that the caller asks for does not matter. -/
  budget : 0 < resolveOutputCap cfg args.tier →
    r.maxTokens = ceiling cfg args ∨
      r.maxTokens = min (ceiling cfg args * 2) (args.task cfg).retryCeiling

def Sends (cfg : LlmConfig) (args : LlmArgs) (log : List Event) : Prop :=
  Always (fun before e => ∀ r, e = .requested r → Fits cfg args before r) log

/-- What is true of a call at any time: at most `n` requests were sent, each one fits, and nothing
is billed so far. -/
structure Sent (cfg : LlmConfig) (args : LlmArgs) (n : Nat) (s : CallState) : Prop where
  sends : Sends cfg args s.log
  count : (requests s.log).length ≤ n
  maxTokens : s.maxTokens = (args.task cfg).maxTokens ∨ s.maxTokens = (args.task cfg).bumped
  untracked : ∀ e ∈ s.log, e.isTracked = false

/-- What is true before a request. -/
structure Ready (cfg : LlmConfig) (args : LlmArgs) (n : Nat) (s : CallState) : Prop
    extends Sent cfg args n s where
  opens : buildMessages args.systemPrompt (truncatedPrompt cfg args) <+: s.messages
  complete : Complete (turns s.messages)
  searched : searches s.log = (toolCalls s.messages).filter (isSearch cfg)
  grows : ∀ r ∈ requests s.log, r.messages <+: s.messages

/-- The tokens of all responses are counted. -/
def Counted (s : CallState) : Prop := s.tokens = total (responses s.log)

/-- The tokens of the last response are still to be counted. -/
def Pending (response : Response) (s : CallState) : Prop :=
  ∃ earlier, responses s.log = earlier ++ [response] ∧ s.tokens = total earlier

/-- What is true after requests: either there is a response, whose tokens are not counted, or an
exception, and then the call is ready to try again if it does. -/
def After (cfg : LlmConfig) (args : LlmArgs) (n : Nat) (o : Except LlmError Response)
    (s : CallState) : Prop :=
  match o with
  | .ok response => Ready cfg args n s ∧ Pending response s
  | .error e => Sent cfg args n s ∧ (e.retried = true → Ready cfg args n s ∧ Counted s)

variable {n m : Nat} {s s' : CallState}

theorem Sent.mono (h : Sent cfg args n s) (hnm : n ≤ m) : Sent cfg args m s :=
  { h with count := h.count.trans hnm }

theorem Ready.mono (h : Ready cfg args n s) (hnm : n ≤ m) : Ready cfg args m s :=
  { h with toSent := h.toSent.mono hnm }

theorem After.mono {o : Except LlmError Response} (h : After cfg args n o s) (hnm : n ≤ m) :
    After cfg args m o s := by
  cases o with
  | ok response => exact ⟨h.1.mono hnm, h.2⟩
  | error e => exact ⟨h.1.mono hnm, fun he => ⟨(h.2 he).1.mono hnm, (h.2 he).2⟩⟩

/-- An exception after which the call is not tried again. -/
theorem After.final (h : Sent cfg args n s) {e : LlmError} (he : e.retried = false) :
    After cfg args n (.error e) s :=
  ⟨h, fun hretried => by simp [he] at hretried⟩

/-- The next request fits. -/
theorem Ready.fits (h : Ready cfg args n s) :
    Fits cfg args s.log
      ⟨(args.task cfg).model, s.messages, s.maxTokens, (args.task cfg).tools⟩ where
  model := rfl
  tools := rfl
  opens := h.opens
  complete := h.complete
  searched := h.searched
  grows := h.grows
  limit hallowed := by
    rcases h.maxTokens with heq | heq
    · show s.maxTokens ≤ _
      rw [heq]
      exact initialMaxTokens_le hallowed
    · show s.maxTokens ≤ _
      rw [heq]
      exact (min_le_right _ _).trans (retryCeiling_le hallowed)
  budget hcap := by
    have hfirst : (args.task cfg).maxTokens = ceiling cfg args := initialMaxTokens_eq hcap
    rcases h.maxTokens with heq | heq
    · exact .inl (heq.trans hfirst)
    · refine .inr (heq.trans ?_)
      rw [Task.bumped, hfirst]

/-- Something happens besides requests, responses, searches and bills. -/
theorem Ready.emit (h : Ready cfg args n s) {e : Event} (hrequest : e.request? = none)
    (hsearch : e.search? = none) (htracked : e.isTracked = false) :
    Ready cfg args n (s.emit e) where
  sends := h.sends.concat fun r heq => by
    subst heq
    cases hrequest
  count := by simpa [hrequest] using h.count
  maxTokens := h.maxTokens
  untracked e' he' := by
    rcases List.mem_append.mp he' with he' | he'
    · exact h.untracked e' he'
    · obtain rfl := List.mem_singleton.mp he'
      exact htracked
  opens := h.opens
  complete := h.complete
  searched := by simpa [hsearch] using h.searched
  grows r hr := h.grows r (by simpa [hrequest] using hr)

theorem create_after (env : LlmEnv) (h : Ready cfg args n s) (hcounted : Counted s) :
    After cfg args (n + 1) (create env (args.task cfg) s).1 (create env (args.task cfg) s).2 := by
  have hready : Ready cfg args (n + 1) (s.emit (.requested
      ⟨(args.task cfg).model, s.messages, s.maxTokens, (args.task cfg).tools⟩)) := by
    refine { sends := h.sends.concat fun r heq => ?_, count := ?_, maxTokens := h.maxTokens,
             untracked := fun e he => ?_, opens := h.opens, complete := h.complete,
             searched := ?_, grows := fun r hr => ?_ }
    · cases heq
      exact h.fits
    · simpa [Event.request?] using h.count
    · rcases List.mem_append.mp he with he | he
      · exact h.untracked e he
      · obtain rfl := List.mem_singleton.mp he
        rfl
    · simpa [Event.search?] using h.searched
    · rw [emit_log, requests_append, requests_single] at hr
      rcases List.mem_append.mp hr with hr | hr
      · exact h.grows r hr
      · obtain rfl := List.mem_singleton.mp hr
        exact List.prefix_refl _
  have hresponses : responses (s.emit (.requested
      ⟨(args.task cfg).model, s.messages, s.maxTokens, (args.task cfg).tools⟩)).log =
        responses s.log := by
    simp [Event.response?]
  unfold create
  dsimp only
  split
  next response _ =>
    refine ⟨hready.emit rfl rfl rfl, responses s.log, ?_, hcounted⟩
    rw [emit_log, responses_append, hresponses]
    rfl
  next e _ =>
    refine ⟨hready.toSent, fun _ => ⟨hready, ?_⟩⟩
    rw [Counted, hresponses]
    exact hcounted

/-! ## Tool calls -/

/-- An exception of the code around the requests is not tried again. -/
def Gives {α : Type} (P : α → Prop) : Except LlmError α → Prop
  | .ok a => P a
  | .error e => e.retried = false

/-- A tool call is answered; it is a search or it does nothing. -/
theorem executeToolCall_spec (cfg : LlmConfig) (env : LlmEnv) (call : ToolCall) (s : CallState) :
    ∃ made : List ToolCall,
      (executeToolCall cfg env call s).2 = { s with log := s.log ++ made.map .searched } ∧
        Gives (fun m : Message => made = [call].filter (isSearch cfg) ∧ m.turn = .answers call.id ∧
          m.toolCalls = []) (executeToolCall cfg env call s).1 := by
  unfold executeToolCall
  split
  next => exact ⟨[], by simp, rfl⟩
  next =>
    split
    next hname =>
      split
      next text herror => exact ⟨[], by simp, by simp [isSearch, herror], rfl, rfl⟩
      next herror => exact ⟨[call], rfl, by simp [isSearch, hname, herror], rfl, rfl⟩
    next hname => exact ⟨[], by simp, by simp [isSearch, hname], rfl, rfl⟩

/-- The tool calls of a message add searches to the log and nothing else; if all of them come
through, each search was made once, and each call has its answer. -/
theorem executeToolCalls_spec (cfg : LlmConfig) (env : LlmEnv) (calls : List ToolCall) (s : CallState) :
    ∃ made : List ToolCall,
      (executeToolCalls cfg env calls s).2 = { s with log := s.log ++ made.map .searched } ∧
        Gives (fun ms : List Message => made = calls.filter (isSearch cfg) ∧
          turns ms = (calls.map (·.id)).map .answers ∧ toolCalls ms = [])
          (executeToolCalls cfg env calls s).1 := by
  induction calls generalizing s with
  | nil => exact ⟨[], by simp [executeToolCalls], rfl, rfl, rfl⟩
  | cons call calls ih =>
      obtain ⟨first, hstate, hfirst⟩ := executeToolCall_spec cfg env call s
      rw [executeToolCalls]
      split
      next e s₁ heq =>
        rw [heq] at hstate hfirst
        exact ⟨first, hstate, hfirst⟩
      next m s₁ heq =>
        rw [heq] at hstate hfirst
        obtain ⟨hmade, hturn, hnone⟩ := hfirst
        obtain ⟨rest, hstate₁, hrest⟩ := ih s₁
        dsimp only at hstate
        subst hstate
        refine ⟨first ++ rest, ?_⟩
        split
        next e s₂ heq₂ =>
          rw [heq₂] at hstate₁ hrest
          exact ⟨by simpa using hstate₁, hrest⟩
        next ms s₂ heq₂ =>
          rw [heq₂] at hstate₁ hrest
          obtain ⟨hmade₁, hturns, hnone₁⟩ := hrest
          refine ⟨by simpa using hstate₁, ?_, ?_, ?_⟩
          · rw [hmade, hmade₁, ← List.filter_append, List.singleton_append]
          · show m.turn :: turns ms = _
            rw [hturn, hturns]
            rfl
          · show m.toolCalls ++ toolCalls ms = []
            rw [hnone, hnone₁]
            rfl

theorem searches_searched (made : List ToolCall) : searches (made.map .searched) = made := by
  induction made with
  | nil => rfl
  | cons call made ih => exact congrArg (call :: ·) ih

theorem requests_searched (made : List ToolCall) : requests (made.map .searched) = [] := by
  refine List.filterMap_eq_nil_iff.mpr fun e he => ?_
  obtain ⟨call, -, rfl⟩ := List.mem_map.mp he
  rfl

theorem responses_searched (made : List ToolCall) : responses (made.map .searched) = [] := by
  refine List.filterMap_eq_nil_iff.mpr fun e he => ?_
  obtain ⟨call, -, rfl⟩ := List.mem_map.mp he
  rfl

/-- What was sent is a matter of the log. -/
theorem Sent.of_log (h : Sent cfg args n s) (hlog : s'.log = s.log)
    (hmax : s'.maxTokens = s.maxTokens) : Sent cfg args n s' where
  sends := hlog ▸ h.sends
  count := hlog ▸ h.count
  maxTokens := hmax ▸ h.maxTokens
  untracked := hlog ▸ h.untracked

/-- Searches are neither requests nor responses nor bills. -/
theorem Sent.search (h : Sent cfg args n s) (made : List ToolCall) :
    Sent cfg args n { s with log := s.log ++ made.map .searched } where
  sends := h.sends.append fun e he before r heq => by
    obtain ⟨call, -, rfl⟩ := List.mem_map.mp he
    cases heq
  count := by simpa [requests_searched] using h.count
  maxTokens := h.maxTokens
  untracked e he := by
    rcases List.mem_append.mp he with he | he
    · exact h.untracked e he
    · obtain ⟨call, -, rfl⟩ := List.mem_map.mp he
      rfl

/-- A message with its tool calls, and all the answers. -/
theorem Ready.exchange (h : Ready cfg args n s) (content : Option String) (calls : List ToolCall)
    {results : List Message} (hturns : turns results = (calls.map (·.id)).map .answers)
    (hnone : toolCalls results = []) :
    Ready cfg args n
      { s with
        log := s.log ++ (calls.filter (isSearch cfg)).map .searched
        messages := s.messages ++ .assistant content calls :: results } where
  toSent := (h.toSent.search (calls.filter (isSearch cfg))).of_log rfl rfl
  opens := h.opens.trans (List.prefix_append _ _)
  complete := by
    have hexchange := h.complete.exchange (calls.map (·.id))
    rw [← hturns] at hexchange
    simpa [turns, Message.turn] using hexchange
  searched := by
    show searches (s.log ++ _) = (toolCalls (s.messages ++ _)).filter (isSearch cfg)
    have hcalls : toolCalls (.assistant content calls :: results) = calls := by
      show calls ++ toolCalls results = calls
      rw [hnone, List.append_nil]
    rw [searches_append, toolCalls_append, List.filter_append, searches_searched, h.searched,
      hcalls]
  grows r hr := by
    have hold : r ∈ requests s.log := by simpa [requests_searched] using hr
    exact (h.grows r hold).trans (List.prefix_append _ _)

/-- A message with tool calls makes one more request at most. -/
theorem toolRound_after (env : LlmEnv) {response : Response} (choice : Choice)
    (h : Ready cfg args n s) (hpending : Pending response s) :
    After cfg args (n + 1) (toolRound cfg env (args.task cfg) response choice s).1
      (toolRound cfg env (args.task cfg) response choice s).2 := by
  obtain ⟨earlier, hlast, htokens⟩ := hpending
  have hmore : Sent cfg args (n + 1) s := h.toSent.mono (Nat.le_succ n)
  unfold toolRound
  split
  next e hcount => exact .final hmore (Tokens.count_error hcount)
  next tokens hcount =>
    dsimp only
    split
    next =>
      refine After.final ?_ ?_
      · exact hmore.of_log rfl rfl
      · rfl
    next calls hcalls =>
      have hsaid : choice.toolCalls.getD [] = calls := by
        rw [hcalls]
        rfl
      rw [hsaid]
      obtain ⟨made, hstate, hgives⟩ := executeToolCalls_spec cfg env calls
        (CallState.say { s with tokens := tokens } [.assistant choice.content calls])
      split
      next e s₁ heq =>
        rw [heq] at hstate hgives
        dsimp only at hstate
        subst hstate
        refine After.final ?_ hgives
        exact (hmore.search made).of_log rfl rfl
      next results s₁ heq =>
        rw [heq] at hstate hgives
        obtain ⟨rfl, hturns, hnone⟩ := hgives
        dsimp only at hstate
        subst hstate
        have hexchange := h.exchange choice.content calls hturns hnone
        have hready : Ready cfg args n (CallState.say
            { CallState.say { s with tokens := tokens } [.assistant choice.content calls] with
              log := s.log ++ (calls.filter (isSearch cfg)).map .searched } results) := by
          refine { toSent := hexchange.toSent.of_log rfl rfl, opens := ?_, complete := ?_,
                   searched := ?_, grows := ?_ }
          · simpa [CallState.say] using hexchange.opens
          · simpa [CallState.say] using hexchange.complete
          · simpa [CallState.say] using hexchange.searched
          · simpa [CallState.say] using hexchange.grows
        refine create_after env hready ?_
        -- the tokens of the response are counted by now
        show tokens = total (responses (s.log ++ _))
        rw [responses_append, responses_searched, List.append_nil, hlast, total_concat, ← htokens]
        exact Tokens.count_ok hcount

theorem toolRounds_after (env : LlmEnv) (left : Nat) {response : Response}
    (h : Ready cfg args n s) (hpending : Pending response s) :
    After cfg args (n + left) (toolRounds cfg env (args.task cfg) left response s).1
      (toolRounds cfg env (args.task cfg) left response s).2 := by
  induction left generalizing n response s with
  | zero =>
      rw [toolRounds]
      cases hchoice : response.choice with
      | error e => exact .final h.toSent (Response.choice_error hchoice)
      | ok choice => exact ⟨h, hpending⟩
  | succ left ih =>
      rw [toolRounds]
      split
      next e hchoice =>
        exact .final (h.toSent.mono (Nat.le_add_right _ _)) (Response.choice_error hchoice)
      next choice _ =>
        split
        next =>
          have hround := toolRound_after env choice h hpending
          split
          next e s₁ heq =>
            rw [heq] at hround
            exact After.mono (o := .error e) hround (by omega)
          next response₁ s₁ heq =>
            rw [heq] at hround
            exact (ih hround.1 hround.2).mono (by omega)
        next => exact ⟨h.mono (Nat.le_add_right _ _), hpending⟩

/-! ## Attempts -/

/-- What is true once a call has its answer: it is that of the last response, and everything is
billed, once. -/
def Billed (cfg : LlmConfig) (args : LlmArgs) (answer : String) (log : List Event) : Prop :=
  ∃ unbilled : List Event,
    (∀ e ∈ unbilled, e.isTracked = false) ∧
      log = unbilled ++ (if cfg.billingAvailable = true ∧ args.userId ≠ "" then
        [.tracked args.userId (args.task cfg).model (total (responses unbilled))] else []) ∧
      ∃ earlier response choice, responses unbilled = earlier ++ [response] ∧
        response.choice = .ok choice ∧ answer = choice.content.getD ""

/-- How an attempt may end. -/
def Ends (cfg : LlmConfig) (args : LlmArgs) (n attempt : Nat) (o : AttemptEnd) (s : CallState) :
    Prop :=
  match o with
  | .answered answer => Sends cfg args s.log ∧ (requests s.log).length ≤ n ∧
      Billed cfg args answer s.log
  | .truncated => attempt < 2 ∧ Ready cfg args n s ∧ Counted s
  | .raised e => Sent cfg args n s ∧ (e.retried = true → Ready cfg args n s ∧ Counted s)

theorem conclude_ends {attempt : Nat} {response : Response} (h : Ready cfg args n s)
    (hpending : Pending response s) :
    Ends cfg args n attempt (conclude cfg (args.task cfg) attempt response s).1
      (conclude cfg (args.task cfg) attempt response s).2 := by
  obtain ⟨earlier, hlast, htokens⟩ := hpending
  have hcounts : ∀ tokens, s.tokens.count response.usage = .ok tokens →
      tokens = total (responses s.log) := by
    intro tokens hcount
    rw [hlast, total_concat, ← htokens]
    exact Tokens.count_ok hcount
  unfold conclude
  split
  next e hchoice =>
    exact ⟨h.toSent, fun he => by simp [Response.choice_error hchoice] at he⟩
  next choice hchoice =>
    dsimp only
    split
    next hretry =>
      have hbumped : Ready cfg args n { s with maxTokens := (args.task cfg).bumped } :=
        { h with maxTokens := .inr rfl }
      split
      next e hcount =>
        exact ⟨hbumped.toSent, fun he => by simp [Tokens.count_error hcount] at he⟩
      next tokens hcount =>
        have hattempt : attempt < 2 := by
          have := hretry.2
          simp only [Task.retriesTruncation, decide_eq_true_eq] at this
          exact this.2.1
        exact ⟨hattempt, { hbumped with }, hcounts tokens hcount⟩
    next =>
      split
      next e hcount =>
        exact ⟨h.toSent, fun he => by simp [Tokens.count_error hcount] at he⟩
      next tokens hcount =>
        have htotal := hcounts tokens hcount
        have hbilled : ∀ tail : List Event,
            tail = (if cfg.billingAvailable = true ∧ args.userId ≠ "" then
              [.tracked args.userId (args.task cfg).model (total (responses s.log))] else []) →
            Billed cfg args (choice.content.getD "") (s.log ++ tail) := by
          rintro tail rfl
          exact ⟨s.log, h.untracked, rfl, earlier, response, choice, hlast, hchoice, rfl⟩
        unfold trackUsage
        split
        next hskip =>
          refine ⟨h.sends, h.count, ?_⟩
          have hnot : ¬ (cfg.billingAvailable = true ∧ args.userId ≠ "") := by
            rintro ⟨hbilling, huser⟩
            rcases hskip with hskip | hskip
            · simp [hbilling] at hskip
            · exact huser hskip
          simpa using hbilled [] (if_neg hnot).symm
        next hbill =>
          have hbills : cfg.billingAvailable = true ∧ args.userId ≠ "" := by
            obtain ⟨hbilling, huser⟩ := not_or.mp hbill
            exact ⟨by simpa using hbilling, huser⟩
          refine ⟨h.sends.concat fun r heq => ?_, ?_, ?_⟩
          · cases heq
          · simpa [Event.request?] using h.count
          · rw [htotal]
            exact hbilled _ (if_pos hbills).symm

theorem tryOnce_ends (env : LlmEnv) (attempt : Nat) (h : Ready cfg args n s)
    (hcounted : Counted s) :
    Ends cfg args (n + 6) attempt (tryOnce cfg env (args.task cfg) attempt s).1
      (tryOnce cfg env (args.task cfg) attempt s).2 := by
  have hcreate := create_after env h hcounted
  unfold tryOnce
  split
  next e s₁ heq =>
    rw [heq] at hcreate
    exact After.mono (o := .error e) hcreate (by omega)
  next response s₁ heq =>
    rw [heq] at hcreate
    have hrounds := toolRounds_after env maxToolRounds hcreate.1 hcreate.2
    split
    next e s₂ heq₂ =>
      rw [heq₂] at hrounds
      exact After.mono (o := .error e) hrounds (by simp [maxToolRounds])
    next response₂ s₂ heq₂ =>
      rw [heq₂] at hrounds
      exact conclude_ends (hrounds.1.mono (by simp [maxToolRounds])) hrounds.2

/-- How a call may end. -/
def Finished (cfg : LlmConfig) (args : LlmArgs) (n : Nat) (o : Outcome) (log : List Event) : Prop :=
  Sends cfg args log ∧ (requests log).length ≤ n ∧
    match o with
    | .answered answer => Billed cfg args answer log
    | .raised _ => ∀ e ∈ log, e.isTracked = false

/-- No attempt follows the third one, so that the call never falls out of its loop. -/
theorem attempts_finished (env : LlmEnv) (left attempt : Nat) (hlast : left + 1 + attempt = 3)
    (h : Ready cfg args n s) (hcounted : Counted s) :
    Finished cfg args (n + 6 * (left + 1))
      (attempts cfg env (args.task cfg) (left + 1) attempt s).1
      (attempts cfg env (args.task cfg) (left + 1) attempt s).2.log := by
  induction left generalizing n attempt s with
  | zero =>
      have hends := tryOnce_ends env attempt h hcounted
      rw [attempts]
      split
      next answer s₁ heq =>
        rw [heq] at hends
        exact hends
      next s₁ heq =>
        rw [heq] at hends
        have := hends.1
        omega
      next e s₁ heq =>
        rw [heq] at hends
        rw [if_neg (by omega)]
        exact ⟨hends.1.sends, hends.1.count, hends.1.untracked⟩
  | succ left ih =>
      have hends := tryOnce_ends env attempt h hcounted
      have hbound : n + 6 + 6 * (left + 1) = n + 6 * (left + 1 + 1) := by omega
      rw [attempts]
      split
      next answer s₁ heq =>
        rw [heq] at hends
        exact ⟨hends.1, hends.2.1.trans (by omega), hends.2.2⟩
      next s₁ heq =>
        rw [heq] at hends
        rw [← hbound]
        exact ih (attempt + 1) (by omega) hends.2.1 hends.2.2
      next e s₁ heq =>
        rw [heq] at hends
        split
        next hretry =>
          obtain ⟨hready, htokens⟩ := hends.2 hretry.2
          rw [← hbound]
          refine ih (attempt + 1) (by omega) (hready.emit rfl rfl rfl) ?_
          show s₁.tokens = total (responses (s₁.log ++ [.slept _]))
          rw [responses_append, responses_single]
          simpa [Event.response?] using (show s₁.tokens = total (responses s₁.log) from htokens)
        next =>
          exact ⟨hends.1.sends, hends.1.count.trans (by omega), hends.1.untracked⟩

theorem llmCall_finished (cfg : LlmConfig) (env : LlmEnv) (args : LlmArgs) :
    Finished cfg args 18 (llmCall cfg env args).1 (llmCall cfg env args).2 := by
  have hcomplete : Complete (turns
      (buildMessages args.systemPrompt (truncatedPrompt cfg args))) := by
    refine Complete.of_speaks fun t ht => ?_
    unfold buildMessages at ht
    split at ht
    · simpa [turns, Message.turn] using ht
    · simpa [turns, Message.turn] using ht
  have hnone : toolCalls (buildMessages args.systemPrompt (truncatedPrompt cfg args)) = [] := by
    unfold buildMessages
    split <;> rfl
  have hready : Ready cfg args 0
      { messages := buildMessages args.systemPrompt (truncatedPrompt cfg args),
        maxTokens := (args.task cfg).maxTokens } := by
    refine { sends := .nil, count := Nat.le_refl 0, maxTokens := .inl rfl,
             untracked := fun e he => ?_, opens := List.prefix_refl _, complete := hcomplete,
             searched := ?_, grows := fun r hr => ?_ }
    · cases he
    · show [] = (toolCalls (buildMessages _ _)).filter (isSearch cfg)
      rw [hnone]
      rfl
    · cases hr
  exact attempts_finished env 2 0 rfl hready rfl

/-! ## Calls with one request -/

/-- The request with which a call begins. -/
def firstRequest (cfg : LlmConfig) (args : LlmArgs) : Request :=
  ⟨(args.task cfg).model, buildMessages args.systemPrompt (truncatedPrompt cfg args),
    (args.task cfg).maxTokens, args.tools⟩

/-- What the service answers to the first request leaves nothing to do: no error after which the
call tries again, no tool calls, and no answer that was cut off and is asked for again. -/
def Task.settledBy (task : Task) : Except LlmError Response → Bool
  | .error e => !e.retried
  | .ok response =>
      match response.choice with
      | .error _ => true
      | .ok choice =>
          choice.finishReason ≠ some "tool_calls" ∧
            ¬ (choice.finishReason = some "length" ∧
              task.retriesTruncation 0 (choice.content.getD ""))

/-- The end of an attempt sends nothing. -/
theorem conclude_requests (task : Task) (attempt : Nat) (response : Response) (s : CallState) :
    requests (conclude cfg task attempt response s).2.log = requests s.log := by
  unfold conclude
  split
  next => rfl
  next =>
    dsimp only
    split
    next =>
      split <;> rfl
    next =>
      split
      next => rfl
      next =>
        unfold trackUsage
        split
        next => rfl
        next => simp [Event.request?]

/-- The call ends with the attempt, whichever it is. -/
def AttemptEnd.settled : AttemptEnd → Bool
  | .answered _ => true
  | .truncated => false
  | .raised e => !e.retried

/-- The end of an attempt whose answer is not cut off. -/
theorem conclude_settled {task : Task} {attempt : Nat} {response : Response} {s : CallState}
    (h : ∀ choice, response.choice = .ok choice → ¬ (choice.finishReason = some "length" ∧
      task.retriesTruncation attempt (choice.content.getD ""))) :
    (conclude cfg task attempt response s).1.settled = true := by
  unfold conclude
  cases hchoice : response.choice with
  | error e => simp [AttemptEnd.settled, Response.choice_error hchoice]
  | ok choice =>
      dsimp only
      rw [if_neg (h choice hchoice)]
      cases hcount : s.tokens.count response.usage with
      | error e => simp [AttemptEnd.settled, Tokens.count_error hcount]
      | ok tokens => rfl

/-- A response without tool calls is the last. -/
theorem toolRounds_settled (cfg : LlmConfig) (env : LlmEnv) (task : Task) (left : Nat)
    {response : Response} {s : CallState}
    (h : ∀ choice, response.choice = .ok choice → choice.finishReason ≠ some "tool_calls") :
    toolRounds cfg env task (left + 1) response s = (response.choice.map fun _ => response, s) := by
  rw [toolRounds]
  cases hchoice : response.choice with
  | error e => rfl
  | ok choice =>
      dsimp only
      rw [if_neg (h choice hchoice)]
      rfl

/-- An attempt whose first answer leaves nothing to do sends one request and is the last. -/
theorem tryOnce_settled (cfg : LlmConfig) (env : LlmEnv) (task : Task) (s : CallState)
    (h : task.settledBy (env.create (s.log ++
      [.requested ⟨task.model, s.messages, s.maxTokens, task.tools⟩])) = true) :
    (requests (tryOnce cfg env task 0 s).2.log).length = (requests s.log).length + 1 ∧
      (tryOnce cfg env task 0 s).1.settled = true := by
  unfold tryOnce create
  dsimp only [emit_log]
  cases hcreate : env.create (s.log ++
      [.requested ⟨task.model, s.messages, s.maxTokens, task.tools⟩]) with
  | error e =>
      rw [hcreate] at h
      exact ⟨by simp [Event.request?], h⟩
  | ok response =>
      rw [hcreate] at h
      have hfinal : ∀ choice, response.choice = .ok choice →
          choice.finishReason ≠ some "tool_calls" ∧ ¬ (choice.finishReason = some "length" ∧
            task.retriesTruncation 0 (choice.content.getD "")) := by
        intro choice hchoice
        simp only [Task.settledBy, hchoice, decide_eq_true_eq] at h
        exact h
      have hrounds := toolRounds_settled cfg env task 4
        (s := (s.emit (.requested ⟨task.model, s.messages, s.maxTokens, task.tools⟩)).emit
          (.received response)) fun choice hchoice => (hfinal choice hchoice).1
      dsimp only [maxToolRounds]
      rw [hrounds]
      cases hchoice : response.choice with
      | error e => exact ⟨by simp [Except.map, requests, Event.request?],
          by simp [Except.map, AttemptEnd.settled, Response.choice_error hchoice]⟩
      | ok choice =>
          refine ⟨?_, conclude_settled fun choice hchoice => (hfinal choice hchoice).2⟩
          dsimp only [Except.map]
          rw [conclude_requests]
          simp [requests, Event.request?]

/-- A call whose first answer leaves nothing to do sends one request. -/
theorem llmCall_settled (cfg : LlmConfig) (env : LlmEnv) (args : LlmArgs)
    (h : (args.task cfg).settledBy (env.create [.requested (firstRequest cfg args)]) = true) :
    (requests (llmCall cfg env args).2).length = 1 := by
  obtain ⟨hrequests, hend⟩ := tryOnce_settled cfg env (args.task cfg)
    { messages := buildMessages args.systemPrompt (truncatedPrompt cfg args),
      maxTokens := (args.task cfg).maxTokens } h
  unfold llmCall
  dsimp only [maxAttempts]
  rw [attempts]
  split
  next answer s heq =>
    rw [heq] at hrequests
    exact hrequests
  next s heq =>
    rw [heq] at hend
    cases hend
  next e s heq =>
    rw [heq] at hrequests hend
    have hretried : e.retried = false := by simpa [AttemptEnd.settled] using hend
    rw [if_neg (by simp [hretried])]
    exact hrequests

/-! ## Any call -/

/-- Whatever the service answers, a call sends at most 18 requests, and each of them fits. -/
theorem llmCall_requests (cfg : LlmConfig) (env : LlmEnv) (args : LlmArgs) :
    (requests (llmCall cfg env args).2).length ≤ 18 ∧ Sends cfg args (llmCall cfg env args).2 :=
  ⟨(llmCall_finished cfg env args).2.1, (llmCall_finished cfg env args).1⟩

/-- A call that answers has billed the tokens of every response of all its attempts, once and at
the end; a call that raises has billed nothing. -/
theorem llmCall_billed (cfg : LlmConfig) (env : LlmEnv) (args : LlmArgs) :
    match (llmCall cfg env args).1 with
    | .answered answer => Billed cfg args answer (llmCall cfg env args).2
    | .raised _ => ∀ e ∈ (llmCall cfg env args).2, e.isTracked = false :=
  (llmCall_finished cfg env args).2.2

end LlmCall

end CitraFlows
