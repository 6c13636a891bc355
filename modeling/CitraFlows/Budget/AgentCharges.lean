-- SUMMARY: The agent loop under a budget does what an attempt with one caller can do.
import CitraFlows.Agents.WriteBlock
import CitraFlows.Budget.Runs

/-!
# The charges of an agent

The agent loop charges each of its requests. Where `charge_llm_call` is the budget, an attempt of
the loop is one of the attempts of a node whose only caller sends up to `max_iterations`
requests: what is proved of these holds of the loop.
-/

namespace CitraFlows

namespace LlmBudget

open Agent

/-- The account after the requests among the events. -/
def spent (a : Account) (new : List Agent.Event) : Account :=
  new.foldl (fun a e => match e with | .request _ => a.charge.make .create | _ => a) a

/-- What `charge_llm_call` raises on the account. -/
def chargeError (a : Account) : Option NodeError :=
  if a.raises then some { message := a.breachText } else none

/-- `charge_llm_call` of the run is the budget, which is `a` at this point of the log. -/
def ChargedTo (env : AgentEnv) (log : List Agent.Event) (a : Account) : Prop :=
  ∀ new, env.charge (log ++ new) = chargeError (spent a new)

variable {env : AgentEnv} {ctx : NodeContext} {log new : List Agent.Event} {a : Account}

theorem spent_append (new' : List Agent.Event) : spent a (new ++ new') = spent (spent a new) new' :=
  List.foldl_append

theorem ChargedTo.append (h : ChargedTo env log a) (new : List Agent.Event) :
    ChargedTo env (log ++ new) (spent a new) := by
  intro new'
  rw [List.append_assoc, h, spent_append]

/-- Events that are no requests. -/
theorem spent_of_quiet (h : ∀ messages, .request messages ∉ new) : spent a new = a := by
  induction new generalizing a with
  | nil => rfl
  | cons e new ih =>
      have hrest := ih (a := a) fun messages hmem => h messages (List.mem_cons_of_mem e hmem)
      cases e with
      | request messages => exact absurd List.mem_cons_self (h messages)
      | met => exact hrest
      | ran => exact hrest
      | audited => exact hrest
      | answered => exact hrest

/-! ## Tool calls send no requests -/

/-- A part of an attempt that sends no request. -/
def Quiet (log log' : List Agent.Event) : Prop :=
  ∃ new, log' = log ++ new ∧ ∀ messages, .request messages ∉ new

theorem Quiet.refl : Quiet log log := ⟨[], by simp, by simp⟩

theorem Quiet.trans {log₁ log₂ : List Agent.Event} (h : Quiet log log₁) (h' : Quiet log₁ log₂) :
    Quiet log log₂ := by
  obtain ⟨new, rfl, hnew⟩ := h
  obtain ⟨new', rfl, hnew'⟩ := h'
  exact ⟨new ++ new', by simp, fun messages hmem =>
    (List.mem_append.mp hmem).elim (hnew messages) (hnew' messages)⟩

theorem Quiet.emit {e : Agent.Event} (h : ∀ messages, e ≠ .request messages) :
    Quiet log (log ++ [e]) :=
  ⟨[e], rfl, fun messages hmem => h messages (List.mem_singleton.mp hmem).symm⟩

theorem handleCall_quiet (iteration : Nat) (call : ToolCall) (s : AgentState) :
    Quiet s.log (handleCall env ctx iteration call s).2.log := by
  unfold handleCall
  split
  next => exact .refl
  next fnArgs _ =>
    have hmet : Quiet s.log (s.meet call fnArgs iteration).log := .emit (by simp)
    refine hmet.trans ?_
    split
    next err _ =>
      unfold blockWrite
      simp only
      split
      next => exact .emit (by simp)
      next => exact .refl
      next => exact .refl
    next => exact .refl
    next hok =>
      have hlog := @dispatch_log env ctx call fnArgs (s.meet call fnArgs iteration) hok
      have hdispatch : Quiet (s.meet call fnArgs iteration).log
          (dispatch env ctx call fnArgs (s.meet call fnArgs iteration)).2.log := by
        rcases hlog with hlog | ⟨hlog, -⟩
        · rw [hlog]
          exact .refl
        · rw [hlog]
          exact .emit (by simp)
      simp only
      split
      next result s' heq =>
        rw [heq] at hdispatch
        exact hdispatch.trans (.emit (by simp))
      next s' heq =>
        rw [heq] at hdispatch
        exact hdispatch

/-- A tool call does not end an attempt with an output. -/
theorem handleCall_not_returned (iteration : Nat) (call : ToolCall) (s : AgentState)
    (output : Value) : (handleCall env ctx iteration call s).1 ≠ some (.returned output) := by
  unfold handleCall
  split
  next => simp
  next =>
    simp only
    split
    next =>
      unfold blockWrite
      simp only
      split <;> simp
    next => simp
    next =>
      split <;> simp

theorem handleCalls_quiet (iteration : Nat) (calls : List ToolCall) (s : AgentState) :
    Quiet s.log (handleCalls env ctx iteration calls s).2.log ∧
      ∀ output, (handleCalls env ctx iteration calls s).1 ≠ some (.returned output) := by
  induction calls generalizing s with
  | nil => exact ⟨.refl, by simp [handleCalls]⟩
  | cons call calls ih =>
      have hquiet := @handleCall_quiet env ctx iteration call s
      have hnot := @handleCall_not_returned env ctx iteration call s
      rw [handleCalls]
      split
      next s' heq =>
        rw [heq] at hquiet
        exact ⟨hquiet.trans (ih s').1, (ih s').2⟩
      next stop s' heq =>
        rw [heq] at hquiet hnot
        exact ⟨hquiet, hnot⟩

/-! ## The loop -/

@[simp] theorem Account.leave_nil (a : Account) (via : Via) : a.leave via [] = a := by
  simp [leave]

theorem ChargedTo.here (h : ChargedTo env log a) : env.charge log = chargeError a := by
  have hnil := h []
  rwa [List.append_nil] at hnil

/-- A run of the loop from the account `a`: it is an attempt with the one caller, which leaves the
account after its requests, or after one charge more, which raised. -/
def LoopAttempt (c : Caller) (log : List Agent.Event) (a : Account) (o : NodeAttempt)
    (log' : List Agent.Event) : Prop :=
  ∃ a' new, AttemptRun .client id false [c] a o a' ∧ log' = log ++ new ∧
    (a' = spent a new ∨ (spent a new).raises = true ∧ a' = (spent a new).charge)

/-- What comes after a request. -/
theorem LoopAttempt.ask {c c' : Caller} {o : NodeAttempt} {messages : List Message}
    {quiet log' : List Agent.Event} (hnext : c.next = some c') (hsent : a.raises = false)
    (hquiet : Quiet (log ++ [.request messages]) quiet)
    (h : LoopAttempt c' quiet (a.charge.make .create) o log') : LoopAttempt c log a o log' := by
  obtain ⟨new₁, rfl, hnew₁⟩ := hquiet
  obtain ⟨a', new₂, hrun, rfl, hspent⟩ := h
  refine ⟨a', .request messages :: new₁ ++ new₂, .ask (i := 0) rfl hnext hsent rfl hrun, by simp, ?_⟩
  have hcharge : spent a (.request messages :: new₁ ++ new₂) =
      spent (a.charge.make .create) new₂ := by
    rw [spent_append]
    exact congrArg (spent · new₂) (spent_of_quiet (a := a.charge.make .create) hnew₁)
  rwa [hcharge]

theorem iterations_loopAttempt (task : Task) (left iteration : Nat) (s : AgentState) {c : Caller}
    (hc : c = .idle left ∨ c = .asked left) (hcharge : ChargedTo env s.log a) :
    LoopAttempt c s.log a (iterations env ctx task left iteration s).1
      (iterations env ctx task left iteration s).2.log := by
  induction left generalizing iteration s c a with
  | zero =>
      refine ⟨a, [], .finish (i := 0) rfl ?_ (.returned (by simp)), by simp [iterations], .inl rfl⟩
      rcases hc with rfl | rfl <;> rfl
  | succ left ih =>
      have hnext : c.next = some (.asked left) := by
        rcases hc with rfl | rfl <;> rfl
      have hhere := hcharge.here
      rw [iterations]
      simp only [AgentState.instruct_log]
      split
      next exc hexc =>
        rw [hexc, chargeError] at hhere
        split at hhere
        next hraises =>
          cases hhere
          refine ⟨a.charge, [], ?_, by simp, .inr ⟨hraises, rfl⟩⟩
          have hbreach : AttemptRun .client id false [c] a (.raised { message := a.breachText })
              (a.charge.leave .client []) := .breach (i := 0) rfl hnext hraises
          simpa using hbreach
        next => cases hhere
      next hnone =>
        have hsent : a.raises = false := by
          rw [hnone, chargeError] at hhere
          split at hhere
          · cases hhere
          · simpa using ‹¬a.raises = true›
        -- an attempt that ends without another charge
        have hends : ∀ {o : NodeAttempt} {log' : List Agent.Event},
            AttemptRun .client id false [.asked left] (a.charge.make .create) o
              (a.charge.make .create) →
              LoopAttempt (.asked left) log' (a.charge.make .create) o log' :=
          fun h => ⟨a.charge.make .create, [], h, by simp, .inl rfl⟩
        have hfail : ∀ {e : NodeError},
            AttemptRun .client id false [.asked left] (a.charge.make .create) (.raised e)
              (a.charge.make .create) := fun {e} => by
          have hleave : AttemptRun .client id false [.asked left] (a.charge.make .create)
              (.raised e) ((a.charge.make .create).leave .client []) := .fail (i := 0) rfl (by simp)
          simpa using hleave
        split
        next =>
          simp only [AgentState.emit_log, AgentState.instruct_log]
          exact .ask hnext hsent .refl (hends hfail)
        next =>
          simp only [AgentState.emit_log, AgentState.instruct_log]
          exact .ask hnext hsent .refl (hends .cancelled)
        next content toolCalls _ =>
          split
          next =>
            simp only [AgentState.emit_log, AgentState.instruct_log]
            exact .ask hnext hsent .refl
              (hends (.finish (i := 0) rfl rfl (.returned (by simp))))
          next =>
            obtain ⟨hquiet, hnot⟩ := @handleCalls_quiet env ctx iteration toolCalls
              (((s.instruct task iteration).emit
                (.request (s.instruct task iteration).messages)).say
                  (.assistant content toolCalls))
            simp only [AgentState.say_log, AgentState.emit_log, AgentState.instruct_log] at hquiet
            split
            next s' heq =>
              rw [heq] at hquiet
              refine .ask hnext hsent hquiet (ih (iteration + 1) s' (.inr rfl) ?_)
              obtain ⟨new, hlog, hnew⟩ := hquiet
              have hlater := (hcharge.append [.request (s.instruct task iteration).messages]).append
                new
              rw [spent_of_quiet hnew, ← hlog] at hlater
              exact hlater
            next stop s' heq =>
              rw [heq] at hquiet hnot
              cases stop with
              | returned output => exact absurd rfl (hnot output)
              | raised e => exact .ask hnext hsent hquiet (hends hfail)
              | cancelled => exact .ask hnext hsent hquiet (hends .cancelled)

/-- An attempt of the agent node is one of the attempts of its callers. -/
theorem execute_attempts {world : LlmWorld} (hcharge : ChargedTo env log a)
    (hlimit : env.maxAgentIterations = world.maxAgentIterations) :
    ∃ a' new, world.Attempts .aiAgent ctx a (Agent.execute env ctx log).1 a' ∧
      (Agent.execute env ctx log).2 = log ++ new ∧
        (a' = spent a new ∨ (spent a new).raises = true ∧ a' = (spent a new).charge) := by
  unfold LlmWorld.Attempts Agent.execute
  simp only
  split
  next calls hcalls =>
    rw [LlmWorld.callers] at hcalls
    obtain ⟨n, hn, rfl⟩ := Option.map_eq_some_iff.mp hcalls
    obtain ⟨htoInt, hle⟩ := Option.filter_eq_some_iff.mp hn
    rw [htoInt]
    simp only [hlimit, decide_eq_true_eq] at hle ⊢
    rw [if_neg (by omega)]
    split
    next => exact ⟨a, [], .unstarted (by simp), by simp, .inl rfl⟩
    next => exact ⟨a, [], .cancelled, by simp, .inl rfl⟩
    next task _ =>
      exact iterations_loopAttempt task n.toNat 0 { log := log, messages := task.messages }
        (.inl rfl) hcharge
  next hcalls =>
    rw [LlmWorld.callers, Option.map_eq_none_iff, Option.filter_eq_none_iff] at hcalls
    split
    next => exact ⟨a, [], ⟨.unstarted (by simp), by simp⟩, by simp, .inl rfl⟩
    next n htoInt =>
      have hlt : ¬ n ≤ world.maxAgentIterations := by simpa using hcalls n htoInt
      rw [if_pos (by omega)]
      exact ⟨a, [], ⟨.unstarted (by simp), by simp⟩, by simp, .inl rfl⟩

end LlmBudget

end CitraFlows
