-- SUMMARY: What an agent node sends to the model: complete chats, with the results of the tools word for word.
import CitraFlows.Agents.WriteBlock
import CitraFlows.Lib.Logs
import CitraFlows.Lib.ToolChat

/-!
# The conversation of an agent

The loop answers every tool call of a reply before it asks the model again, or it stops. Each
attempt of the node starts its conversation anew.
-/

namespace CitraFlows

open Logs
open ToolChat

namespace Agent

/-! ## Chats -/

def Message.turn : Message → Turn String
  | .system _ | .user _ => .speaks
  | .assistant _ toolCalls => .asks (toolCalls.map (·.id))
  | .tool toolCallId _ => .answers toolCallId

def Message.result? : Message → Option (String × String)
  | .tool toolCallId content => some (toolCallId, content)
  | _ => none

def Event.result? : Event → Option (String × String)
  | .answered toolCallId content => some (toolCallId, content)
  | _ => none

def turns (messages : List Message) : List (Turn String) := messages.map Message.turn

/-- The answers to tool calls in a chat. -/
def toolResults (messages : List Message) : List (String × String) :=
  messages.filterMap Message.result?

/-- The results that were handed back so far. -/
def results (log : List Event) : List (String × String) := log.filterMap Event.result?

/-- Every request is a complete chat, and the answers in it are the latest results. -/
def Conversant (log : List Event) : Prop :=
  Always (fun before e => ∀ messages, e = .request messages →
    Complete (turns messages) ∧ toolResults messages <:+ results before) log

/-- Every answer is that of the call the loop came to last: what its tool returned, if the tool was
run. -/
def Tied (env : AgentEnv) (log : List Event) : Prop :=
  Always (fun before e => ∀ toolCallId content, e = .answered toolCallId content →
    ∃ earlier call fnArgs iteration, call.id = toolCallId ∧
      (before = earlier ++ [.met call fnArgs iteration] ∨
        before = earlier ++ [.met call fnArgs iteration, .ran call] ∧
          (env.tool (earlier ++ [.met call fnArgs iteration]) call).result env call.name =
            some content)) log

/-- The node begins with messages of the system and of the user. -/
def AgentEnv.Opens (env : AgentEnv) : Prop :=
  ∀ log task, env.prepare log = .ready task → ∀ m ∈ task.messages, m.turn = .speaks

variable {env : AgentEnv} {ctx : NodeContext} {log : List Event}

/-! ## Logs -/

@[simp] theorem results_append (log log' : List Event) :
    results (log ++ log') = results log ++ results log' :=
  List.filterMap_append

@[simp] theorem turns_append (ms ms' : List Message) : turns (ms ++ ms') = turns ms ++ turns ms' :=
  List.map_append

@[simp] theorem toolResults_append (ms ms' : List Message) :
    toolResults (ms ++ ms') = toolResults ms ++ toolResults ms' :=
  List.filterMap_append

@[simp] theorem results_single (e : Event) : results [e] = e.result?.toList := by
  cases h : e.result? with
  | none => simp [results, h]
  | some r => simp [results, h]

@[simp] theorem toolResults_single (m : Message) : toolResults [m] = m.result?.toList := by
  cases h : m.result? with
  | none => simp [toolResults, h]
  | some r => simp [toolResults, h]

@[simp] theorem turns_single (m : Message) : turns [m] = [m.turn] := rfl

@[simp] theorem AgentState.emit_messages (s : AgentState) (e : Event) :
    (s.emit e).messages = s.messages := rfl

@[simp] theorem AgentState.say_messages (s : AgentState) (m : Message) :
    (s.say m).messages = s.messages ++ [m] := rfl

@[simp] theorem AgentState.meet_messages (s : AgentState) (call : ToolCall) (fnArgs : Value)
    (iteration : Nat) : (s.meet call fnArgs iteration).messages = s.messages := rfl

@[simp] theorem AgentState.answer_messages (s : AgentState) (call : ToolCall) (result : String) :
    (s.answer call result).messages = s.messages ++ [.tool call.id result] := rfl

theorem Conversant.nil : Conversant [] := Always.nil

theorem Conversant.emit (h : Conversant log) {e : Event}
    (he : ∀ messages, e ≠ .request messages) : Conversant (log ++ [e]) :=
  h.concat fun messages heq => absurd heq (he messages)

theorem Conversant.request (h : Conversant log) {messages : List Message}
    (hcomplete : Complete (turns messages)) (hresults : toolResults messages <:+ results log) :
    Conversant (log ++ [.request messages]) := by
  refine h.concat fun messages' heq => ?_
  cases heq
  exact ⟨hcomplete, hresults⟩

/-! ## The tool calls of a reply -/

/-- What the loop holds while the calls `open` are still to be answered. -/
structure Holds (s : AgentState) (opened : List ToolCall) : Prop where
  conversant : Conversant s.log
  opens : waiting (turns s.messages) = some (opened.map (·.id))
  answers : toolResults s.messages <:+ results s.log

theorem Holds.of_speaks {messages : List Message} (h : Conversant log)
    (hspeaks : ∀ m ∈ messages, m.turn = .speaks) :
    Holds { log := log, messages := messages } [] where
  conversant := h
  opens := by
    refine Complete.of_speaks fun t ht => ?_
    obtain ⟨m, hm, rfl⟩ := List.mem_map.mp ht
    exact hspeaks m hm
  answers := by
    have hnone : toolResults messages = [] := by
      refine List.filterMap_eq_nil_iff.mpr fun m hm => ?_
      have hm := hspeaks m hm
      cases m with
      | tool id content => cases hm
      | _ => rfl
    simp [hnone]

/-- The loop does something that is neither a request nor the answer to a call. -/
theorem Holds.emit {s : AgentState} {opened : List ToolCall} (h : Holds s opened) {e : Event}
    (he : ∀ messages, e ≠ .request messages) (hresult : e.result? = none) :
    Holds (s.emit e) opened where
  conversant := h.conversant.emit he
  opens := h.opens
  answers := by simpa [hresult] using h.answers

theorem Holds.meet {s : AgentState} {opened : List ToolCall} (h : Holds s opened) (call : ToolCall)
    (fnArgs : Value) (iteration : Nat) : Holds (s.meet call fnArgs iteration) opened where
  conversant := h.conversant.emit (by simp)
  opens := h.opens
  answers := by simpa [Event.result?] using h.answers

theorem Holds.answer {s : AgentState} {call : ToolCall} {calls : List ToolCall}
    (h : Holds s (call :: calls)) (result : String) : Holds (s.answer call result) calls where
  conversant := h.conversant.emit (by simp)
  opens := by
    have hnext := waiting_answers h.opens
    simpa [Message.turn] using hnext
  answers := by
    obtain ⟨earlier, heq⟩ := h.answers
    refine ⟨earlier, ?_⟩
    simp [Message.result?, Event.result?, ← heq]

/-- The dispatch runs the tool, or does nothing. -/
theorem dispatch_state (env : AgentEnv) (ctx : NodeContext) (call : ToolCall) (fnArgs : Value)
    (s : AgentState) :
    (dispatch env ctx call fnArgs s).2 = s ∨
      (dispatch env ctx call fnArgs s).2 = s.emit (.ran call) := by
  have hawait : ∀ fields, (awaitTool env ctx call fields s).2 = s ∨
      (awaitTool env ctx call fields s).2 = s.emit (.ran call) := by
    intro fields
    unfold awaitTool
    split
    · exact .inl rfl
    · split
      · exact .inl rfl
      · exact .inr rfl
  unfold dispatch
  split
  · exact .inl rfl
  · split
    · exact .inl rfl
    · split
      · exact hawait _
      · exact .inl rfl

/-- A call that does not stop the loop is answered, and nothing is sent to the model. -/
theorem handleCall_holds (env : AgentEnv) (ctx : NodeContext) (iteration : Nat)
    {call : ToolCall} {calls : List ToolCall} {s : AgentState} (h : Holds s (call :: calls)) :
    Conversant (handleCall env ctx iteration call s).2.log ∧
      ((handleCall env ctx iteration call s).1 = none →
        Holds (handleCall env ctx iteration call s).2 calls) := by
  unfold handleCall
  split
  next => exact ⟨h.conversant, fun hnone => by cases hnone⟩
  next fnArgs _ =>
    have hmet := h.meet call fnArgs iteration
    dsimp only
    split
    next err _ =>
      unfold blockWrite
      dsimp only
      split
      next => exact ⟨hmet.conversant.emit (by simp), fun hnone => by cases hnone⟩
      next => exact ⟨hmet.conversant, fun hnone => by cases hnone⟩
      next => exact ⟨hmet.conversant, fun hnone => by cases hnone⟩
    next => exact ⟨hmet.conversant, fun hnone => by cases hnone⟩
    next =>
      have hdispatch : Holds (dispatch env ctx call fnArgs (s.meet call fnArgs iteration)).2
          (call :: calls) := by
        rcases dispatch_state env ctx call fnArgs (s.meet call fnArgs iteration) with heq | heq
        · rw [heq]
          exact hmet
        · rw [heq]
          exact hmet.emit (by simp) rfl
      split
      next result s' heq =>
        rw [heq] at hdispatch
        exact ⟨(hdispatch.answer result).conversant, fun _ => hdispatch.answer result⟩
      next s' heq =>
        rw [heq] at hdispatch
        exact ⟨hdispatch.conversant, fun hnone => by cases hnone⟩

theorem handleCalls_holds (env : AgentEnv) (ctx : NodeContext) (iteration : Nat)
    {calls : List ToolCall} {s : AgentState} (h : Holds s calls) :
    Conversant (handleCalls env ctx iteration calls s).2.log ∧
      ((handleCalls env ctx iteration calls s).1 = none →
        Holds (handleCalls env ctx iteration calls s).2 []) := by
  induction calls generalizing s with
  | nil => exact ⟨h.conversant, fun _ => h⟩
  | cons call calls ih =>
      obtain ⟨hlog, hholds⟩ := handleCall_holds env ctx iteration h
      rw [handleCalls]
      split
      next s' heq =>
        rw [heq] at hholds
        exact ih (hholds rfl)
      next stop s' heq =>
        rw [heq] at hlog
        exact ⟨hlog, fun hnone => by cases hnone⟩

/-! ## The answers -/

theorem Tied.emit (h : Tied env log) {e : Event} (he : e.result? = none) :
    Tied env (log ++ [e]) := by
  refine h.concat fun toolCallId content heq => ?_
  rw [heq] at he
  cases he

/-- What the dispatch hands back, once the tool is run, is what the tool returned. -/
theorem dispatch_result {call : ToolCall} {fnArgs : Value} {s s' : AgentState} {content : String}
    (h : dispatch env ctx call fnArgs s = (some content, s')) :
    s' = s ∨ s' = s.emit (.ran call) ∧ (env.tool s.log call).result env call.name = some content := by
  unfold dispatch awaitTool at h
  split at h
  next => exact .inl (Prod.mk.inj h).2.symm
  next =>
    split at h
    next => exact .inl (Prod.mk.inj h).2.symm
    next =>
      split at h
      next =>
        split at h
        next => cases h
        next =>
          split at h
          next => exact .inl (Prod.mk.inj h).2.symm
          next =>
            obtain ⟨hresult, hstate⟩ := Prod.mk.inj h
            exact .inr ⟨hstate.symm, hresult⟩
      next => exact .inl (Prod.mk.inj h).2.symm

theorem handleCall_tied (iteration : Nat) (call : ToolCall) {s : AgentState}
    (h : Tied env s.log) : Tied env (handleCall env ctx iteration call s).2.log := by
  unfold handleCall
  split
  next => exact h
  next fnArgs _ =>
    have hmet : Tied env (s.meet call fnArgs iteration).log := h.emit rfl
    dsimp only
    split
    next err _ =>
      unfold blockWrite
      dsimp only
      split
      next => exact hmet.emit rfl
      next => exact hmet
      next => exact hmet
    next => exact hmet
    next =>
      split
      next content s' heq =>
        cases dispatch_result heq with
        | inl idle =>
            rw [idle]
            refine hmet.concat fun toolCallId content heq => ?_
            cases heq
            exact ⟨s.log, call, fnArgs, iteration, rfl, .inl rfl⟩
        | inr ran =>
            obtain ⟨hstate, hresult⟩ := ran
            rw [hstate]
            refine Always.concat (hmet.emit rfl) fun toolCallId content heq => ?_
            cases heq
            exact ⟨s.log, call, fnArgs, iteration, rfl, .inr ⟨by simp, hresult⟩⟩
      next s' heq =>
        have hstate := dispatch_state env ctx call fnArgs (s.meet call fnArgs iteration)
        rw [heq] at hstate
        cases hstate with
        | inl idle =>
            rw [idle]
            exact hmet
        | inr ran =>
            rw [ran]
            exact hmet.emit rfl

theorem runNode_tied : Tied env (runNode env ctx).2 :=
  runNode_rule Always.nil (fun _ _ h => h.emit rfl) fun iteration call _ => handleCall_tied iteration call

/-! ## The loop -/

/-- The instruction changes what a message says and nothing else. -/
theorem Holds.instruct {s : AgentState} (h : Holds s []) (task : Task) (iteration : Nat) :
    Holds (s.instruct task iteration) [] := by
  have hlast : ∀ (old new : Message), s.messages.getLast? = some old → new.turn = old.turn →
      new.result? = old.result? →
      Holds { s with messages := s.messages.dropLast ++ [new] } [] := by
    intro old new hold hturn hresult
    have hsplit : s.messages.dropLast ++ [old] = s.messages :=
      List.dropLast_append_getLast? old hold
    constructor
    · exact h.conversant
    · have hwaiting := h.opens
      rw [← hsplit] at hwaiting
      simpa [turns, hturn] using hwaiting
    · have hone : toolResults [new] = toolResults [old] := by
        simp [hresult]
      have hanswers := h.answers
      rw [← hsplit, toolResults_append, ← hone, ← toolResults_append] at hanswers
      exact hanswers
  unfold AgentState.instruct
  split
  next => exact h
  next text _ =>
    split
    next =>
      split
      next content hold => exact hlast (.user content) _ hold rfl rfl
      next content hold => exact hlast (.system content) _ hold rfl rfl
      next => exact h
    next => exact h

theorem iterations_conversant {task : Task} {left iteration : Nat} {s : AgentState}
    (h : Holds s []) : Conversant (iterations env ctx task left iteration s).2.log := by
  induction left generalizing iteration s with
  | zero => exact h.conversant
  | succ left ih =>
      have hinstruct := h.instruct task iteration
      rw [iterations]
      dsimp only
      split
      next => exact hinstruct.conversant
      next =>
        have hsent : Holds ((s.instruct task iteration).emit
            (.request (s.instruct task iteration).messages)) [] := by
          refine ⟨hinstruct.conversant.request hinstruct.opens hinstruct.answers,
            hinstruct.opens, ?_⟩
          simpa [Event.result?] using hinstruct.answers
        split
        next => exact hsent.conversant
        next => exact hsent.conversant
        next content toolCalls _ =>
          split
          next => exact hsent.conversant
          next =>
            -- the reply is said, and its calls are open
            have hsaid : Holds (((s.instruct task iteration).emit
                (.request (s.instruct task iteration).messages)).say
                  (.assistant content toolCalls)) toolCalls := by
              constructor
              · exact hsent.conversant
              · have hasks := Complete.asks hsent.opens (toolCalls.map (·.id))
                simpa [Message.turn] using hasks
              · simpa [Message.result?] using hsent.answers
            obtain ⟨hlog, hholds⟩ := handleCalls_holds env ctx iteration hsaid
            split
            next s' heq =>
              rw [heq] at hholds
              exact ih (hholds rfl)
            next stop s' heq =>
              rw [heq] at hlog
              exact hlog

theorem execute_conversant (ctx : NodeContext) (hopens : env.Opens) (h : Conversant log) :
    Conversant (execute env ctx log).2 := by
  unfold execute
  dsimp only
  split
  next => exact h
  next =>
    split
    next => exact h
    next =>
      split
      next => exact h
      next => exact h
      next task htask => exact iterations_conversant (.of_speaks h (hopens log task htask))

/-- Whatever the model, the tools and the log do: each request of a run is a complete chat, the
answers in it are the latest results, and a result is what the tool returned, if it was run. -/
theorem runNode_conversant (hopens : env.Opens) :
    Conversant (runNode env ctx).2 ∧ Tied env (runNode env ctx).2 := by
  have hrule : Conversant [] → Conversant (runNode env ctx).2 :=
    BaseNode.runFrom_rule (R := fun s _ s' => Conversant s → Conversant s')
      (fun _ _ _ _ h => h)
      (fun s s' _ _ _ hexec h => by simpa [hexec] using execute_conversant ctx hopens h)
      (fun s s' _ _ _ hexec _ h => by simpa [hexec] using execute_conversant ctx hopens h)
      (fun s s' _ _ _ hexec _ hrest h =>
        hrest (by simpa [hexec] using execute_conversant ctx hopens h))
      (fun s s' hexec h => by simpa [hexec] using execute_conversant ctx hopens h) []
  exact ⟨hrule .nil, runNode_tied⟩

/-- The model that tries to delete is asked twice, the second time with the refusal of the tool. -/
theorem deletingAgent_conversant :
    deletingAgent.Opens ∧ Conversant (runNode deletingAgent agentContext).2 ∧
      Tied deletingAgent (runNode deletingAgent agentContext).2 := by
  have hopens : deletingAgent.Opens := by
    intro log task hprepare m hm
    cases hprepare
    obtain rfl := List.mem_singleton.mp hm
    rfl
  exact ⟨hopens, runNode_conversant hopens⟩

end Agent

end CitraFlows
