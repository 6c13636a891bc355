-- SUMMARY: The LLM-call budget over a run: the calls stay within the limit, and a breach ends the run unless its failure is not heard.
import Mathlib.Algebra.Order.BigOperators.Group.List
import CitraFlows.Agents.Loop
import CitraFlows.Budget.Charges
import CitraFlows.Executor.SoftFailures

/-!
# The budget over a run

`execute()` starts a budget and runs the nodes one after the other. A `Ledger` goes along the
trace of the call with the account after each event. The calls of a model never exceed the limit;
the requests may, where `llm_call` sends more than one for a call. A charge over the limit fails
its node, and with it the run, unless the node is set to `continue_on_error`, or a task that was
left behind made the charge.
-/

namespace CitraFlows

namespace LlmBudget

/-! ## The callers of a node -/

/-- What the nodes do that decides who asks a model, and the constants of `config.py`. -/
structure LlmWorld where
  /-- `_try_deterministic_eval` of the rules of a node has an answer for the items. -/
  deterministic : NodeContext → List Value → Bool
  /-- The text in which an LLM node wraps an exception of its call. -/
  wrap : NodeContext → String → String
  /-- The class of a node that asks no model. -/
  otherClass : NodeType → NodeClass
  /-- The settings of `llm_call` -/
  llm : LlmCall.LlmConfig
  maxPerItemFanout : Nat := 500
  maxAgentIterations : Int := 20

/-- `_extract_items` -/
def extractItems : Value → List Value
  | .none => []
  | .list xs => xs
  | .dict fields =>
      match (Value.field fields "items").bind Value.asList with
      | some xs => xs
      | none =>
          match (Value.field fields "records").bind Value.asList with
          | some xs => xs
          | none => [.dict fields]
  | v => [v]

/-- `[items[i:i + size] for i in range(0, len(items), size)]` for a positive size; `fuel` bounds
the number of batches. -/
def batches (size : Nat) : Nat → List Value → List (List Value)
  | 0, _ => []
  | _ + 1, [] => []
  | fuel + 1, items => items.take size :: batches size fuel (items.drop size)

/-- The groups of `_run_per_item`; `none` if it raises before it starts them. -/
def LlmWorld.groups (world : LlmWorld) (ctx : NodeContext) : Option (List (List Value)) :=
  let mode := (Value.field ctx.config "processing_mode").getD (.str "all")
  let items := extractItems ctx.inputData
  if mode.eqStr "all" || items.length ≤ 1 then some [items]
  else if items.length > world.maxPerItemFanout then none
  else if mode.eqStr "each" then some (items.map ([·]))
  else
    ((Value.field ctx.config "batch_size").getD (.int 10)).toInt.map fun size =>
      batches (max 1 size).toNat items.length items

/-- How many calls each task of the node may make; `none` if it raises before it makes any. -/
def LlmWorld.callers (world : LlmWorld) (type : NodeType) (ctx : NodeContext) :
    Option (List Nat) :=
  match type with
  | .llmProcessor | .customLlm | .classifier | .extractor | .summarizer =>
      (world.groups ctx).map (List.map fun _ => 1)
  | .rulesEngine =>
      (world.groups ctx).map (List.map fun group => if world.deterministic ctx group then 0 else 1)
  | .aiAgent =>
      (((Value.field ctx.config "max_iterations").getD (.int 10)).toInt.filter
        (· ≤ world.maxAgentIterations)).map fun n => [n.toNat]
  | _ => some []

/-- The nodes that charge their calls. -/
def chargedTypes : List NodeType :=
  [.llmProcessor, .customLlm, .classifier, .extractor, .summarizer, .rulesEngine, .aiAgent]

def LlmWorld.nodeClass (world : LlmWorld) (type : NodeType) : NodeClass :=
  if type ∈ chargedTypes then {} else world.otherClass type

/-- The `except Exception` around the call of an LLM node. -/
def LlmWorld.wrapText (world : LlmWorld) (type : NodeType) (ctx : NodeContext) : String → String :=
  if type = .llmProcessor ∨ type = .customLlm then world.wrap ctx else id

/-- The client of a custom LLM and that of an agent are used directly. -/
def via (type : NodeType) : Via :=
  if type = .customLlm ∨ type = .aiAgent then .client else .helper

/-- One attempt of a node. A vision node sends requests that it does not charge. -/
def LlmWorld.Attempts (world : LlmWorld) (type : NodeType) (ctx : NodeContext) (a : Account)
    (o : NodeAttempt) (a' : Account) : Prop :=
  match world.callers type ctx with
  | some calls =>
      AttemptRun (via type) (world.wrapText type ctx) (type = .visionLlm) (calls.map .idle) a o a'
  | none =>
      AttemptRun (via type) (world.wrapText type ctx) false [] a o a' ∧ ∀ output, o ≠ .returned output

/-- A run of a node, from one account to another: its attempts do what attempts can do. -/
def LlmWorld.Runs (world : LlmWorld) (type : NodeType) (ctx : NodeContext) (a : Account)
    (o : NodeEnd) (a' : Account) : Prop :=
  ∃ execute : Nat × Account → NodeAttempt × (Nat × Account),
    (∀ k b, world.Attempts type ctx b (execute (k, b)).1 (execute (k, b)).2.2 ∧
      (execute (k, b)).2.1 = k + 1) ∧
    (BaseNode.runFrom (world.nodeClass type) ctx.config execute (0, a)).1 = o ∧
    (BaseNode.runFrom (world.nodeClass type) ctx.config execute (0, a)).2.2 = a'

/-! ## Ledgers -/

/-- Only tasks that were left behind are active. -/
def Drifts : Account → Account → Prop := Relation.ReflTransGen StrayStep

/-- What the event of a call does to the account: a node runs, and otherwise only tasks that were
left behind are active. The result of a node is that of its run, unless it was cancelled by the
timeout of the node or of the execution. -/
def LlmWorld.Books (world : LlmWorld) (env : RunEnv) (wf : WorkflowDefinition) (a : Account) :
    Event → Account → Prop
  | .run ctx result, a' =>
      ∃ n b o, wf.nodeMap ctx.nodeId = some n ∧ Drifts a b ∧ world.Runs n.type ctx b o a' ∧
        (o = .ended result ∨ (o = .cancelled ∧ result = .timeout) ∨
          env.timeoutDuring ctx.nodeId = true)
  | _, a' => Drifts a a'

/-- The events of a call, each with the account after it. -/
abbrev Ledger := List (Event × Account)

/-- The accounts of the ledger follow from each other. -/
def LlmWorld.Booked (world : LlmWorld) (env : RunEnv) (wf : WorkflowDefinition) :
    Account → Ledger → Prop
  | _, [] => True
  | a, (e, a') :: ledger => world.Books env wf a e a' ∧ world.Booked env wf a' ledger

/-- A charge over the limit was made. -/
def Account.breached (a : Account) : Prop := a.limit < a.count

instance (a : Account) : Decidable a.breached := inferInstanceAs (Decidable (a.limit < a.count))

/-- The requests of the ledger stay within the limit. -/
def Bounded (cfg : LlmCall.LlmConfig) (limit : Nat) (ledger : Ledger) : Prop :=
  ∀ x ∈ ledger, x.2.requests cfg ≤ limit

/-- After a charge over the limit no node runs, and the run has failed. -/
def Aborts (status : ExecutionStatus) (ledger : Ledger) : Prop :=
  ∀ before x after, ledger = before ++ x :: after → x.2.breached →
    (∀ ctx result a, (.run ctx result, a) ∉ after) ∧ status = .failed

/-- The service answers each call in such a way that its first request is enough. -/
def Settled (cfg : LlmCall.LlmConfig) (ledger : Ledger) : Prop :=
  ∀ x ∈ ledger, ∀ call ∈ x.2.calls, call.Settled cfg

/-- No task that was left behind goes over the limit, and a node in whose run the limit is
exceeded is not set to `continue_on_error`, nor does the execution time out in it. -/
def Heard (env : RunEnv) (ledger : Ledger) : Prop :=
  (∀ x ∈ ledger, x.2.strayBreached = false) ∧
    ∀ ctx result a, (.run ctx result, a) ∈ ledger → a.breached →
      ctx.continueOnError = false ∧ env.timeoutDuring ctx.nodeId = false

/-! ## A node and the limit -/

variable {world : LlmWorld} {env : RunEnv} {wf : WorkflowDefinition} {type : NodeType}
  {ctx : NodeContext} {a a' : Account}

/-- An attempt of the node does not return without a request. -/
def LlmWorld.Needs (world : LlmWorld) (type : NodeType) (ctx : NodeContext) : Prop :=
  ∃ calls, world.callers type ctx = some calls ∧ ∃ n ∈ calls, 0 < n

theorem LlmWorld.Attempts.grows {o : NodeAttempt} (h : world.Attempts type ctx a o a')
    (hvision : type ≠ .visionLlm) : a.Grows a' := by
  unfold Attempts at h
  split at h
  next calls _ =>
    rw [show decide (type = .visionLlm) = false by simpa using hvision] at h
    exact h.grows
  next => exact h.1.grows

theorem LlmWorld.Attempts.not_returned {o : NodeAttempt} (h : world.Attempts type ctx a o a')
    (hvision : type ≠ .visionLlm) (ha : a.Sound) (hfull : a.limit ≤ a.count)
    (hneeds : world.Needs type ctx) (output : Value) : o ≠ .returned output := by
  obtain ⟨calls, hcalls, n, hn, hpos⟩ := hneeds
  unfold Attempts at h
  rw [hcalls] at h
  simp only [show decide (type = .visionLlm) = false by simpa using hvision] at h
  obtain ⟨m, rfl⟩ : ∃ m, n = m + 1 := ⟨n - 1, by omega⟩
  exact h.not_returned ha hfull (List.mem_map.mpr ⟨m + 1, hn, rfl⟩) output

theorem LlmWorld.Attempts.breached {o : NodeAttempt} (h : world.Attempts type ctx a o a')
    (hvision : type ≠ .visionLlm) (ha : a.Sound) (hle : a.count ≤ a.limit)
    (hover : a'.breached) (hstray : a'.strayBreached = false) :
    (∃ e, o = .raised e ∧ e.nonRetryable = false) ∧ world.Needs type ctx := by
  unfold Attempts at h
  split at h
  next calls hcalls =>
    rw [show decide (type = .visionLlm) = false by simpa using hvision] at h
    obtain ⟨hraised, c, hc, hasks⟩ := h.breached ha hle hover hstray
    obtain ⟨n, hn, rfl⟩ := List.mem_map.mp hc
    exact ⟨hraised, calls, hcalls, n, hn, by simpa [Caller.asks] using hasks⟩
  next =>
    obtain ⟨-, c, hc, -⟩ := h.1.breached ha hle hover hstray
    cases hc

def NodeEnd.completed : NodeEnd → Bool
  | .ended (.completed ..) => true
  | _ => false

/-- What a run of a node says of the limit. -/
structure Heeds (world : LlmWorld) (type : NodeType) (ctx : NodeContext) (a : Account)
    (o : NodeEnd) (a' : Account) : Prop where
  grows : a.Grows a'
  /-- With the budget used up, a node that needs a request does not complete. -/
  usedUp : a.Sound → a.limit ≤ a.count → world.Needs type ctx → NodeEnd.completed o = false
  /-- The node that goes over the limit does not complete. -/
  exceeds : a.Sound → a.count ≤ a.limit → a'.breached → a'.strayBreached = false →
    NodeEnd.completed o = false

theorem LlmWorld.Runs.heeds {o : NodeEnd} (h : world.Runs type ctx a o a')
    (hvision : type ≠ .visionLlm) : Heeds world type ctx a o a' := by
  obtain ⟨execute, hexecute, rfl, rfl⟩ := h
  have hattempt : ∀ {s s' : Nat × Account} {o : NodeAttempt}, execute s = (o, s') →
      world.Attempts type ctx s.2 o s'.2 := by
    intro s s' o heq
    have hs := (hexecute s.1 s.2).1
    rw [Prod.mk.eta, heq] at hs
    exact hs
  refine BaseNode.runFrom_rule (R := fun s o s' => Heeds world type ctx s.2 o s'.2) ?_ ?_ ?_ ?_ ?_ (0, a)
  · exact fun s _ _ _ => ⟨.refl, fun _ _ _ => rfl, fun _ _ _ _ => rfl⟩
  · intro s s' output attempt errors heq
    have h := hattempt heq
    refine ⟨h.grows hvision, fun ha hfull hneeds => ?_, fun ha hle hover hstray => ?_⟩
    · exact absurd rfl (h.not_returned hvision ha hfull hneeds output)
    · obtain ⟨⟨e, he, -⟩, -⟩ := h.breached hvision ha hle hover hstray
      cases he
  · intro s s' e retries errors heq _
    exact ⟨(hattempt heq).grows hvision, fun _ _ _ => rfl, fun _ _ _ _ => rfl⟩
  · intro s s' e o s'' heq _ hrest
    have h := hattempt heq
    have hgrows := h.grows hvision
    refine ⟨hgrows.trans hrest.grows, fun ha hfull hneeds => ?_, fun ha hle hover hstray => ?_⟩
    · have hcount := hgrows.count
      exact hrest.usedUp (hgrows.sound ha) (by rw [hgrows.limit]; omega) hneeds
    · by_cases hfirst : s'.2.breached
      · -- the attempt went over the limit, so the retry cannot do without a request
        have hstray' : s'.2.strayBreached = false := by
          cases hb : s'.2.strayBreached with
          | false => rfl
          | true => rw [hrest.grows.stray hb] at hstray; cases hstray
        obtain ⟨-, hneeds⟩ := h.breached hvision ha hle hfirst hstray'
        exact hrest.usedUp (hgrows.sound ha) (Nat.le_of_lt hfirst) hneeds
      · exact hrest.exceeds (hgrows.sound ha) (Nat.le_of_not_lt hfirst) hover hstray
  · intro s s' heq
    exact ⟨(hattempt heq).grows hvision, fun _ _ _ => rfl, fun _ _ _ _ => rfl⟩

/-! ## A ledger and the limit -/

theorem Drifts.grows (h : Drifts a a') : a.Grows a' := by
  induction h with
  | refl => exact .refl
  | tail _ step ih => exact ih.trans step.grows

theorem Drifts.within (h : Drifts a a') (ha : a.Sound) (hle : a.count ≤ a.limit)
    (hstray : a'.strayBreached = false) : a'.count ≤ a'.limit := by
  induction h with
  | refl => exact hle
  | @tail b c hdrifts step ih =>
      have hb : b.strayBreached = false := by
        cases hb : b.strayBreached with
        | false => rfl
        | true => rw [step.grows.stray hb] at hstray; cases hstray
      exact step.within (Drifts.grows hdrifts |>.sound ha) hstray (ih hb)

/-- No node of the workflow makes calls that it does not charge. -/
def Charged (wf : WorkflowDefinition) : Prop := ∀ n ∈ wf.nodes, n.type ≠ .visionLlm

theorem LlmWorld.Books.grows {e : Event} (h : world.Books env wf a e a') (hwf : Charged wf) :
    a.Grows a' := by
  cases e with
  | run ctx result =>
      obtain ⟨n, b, o, hn, hdrifts, hruns, -⟩ := h
      exact hdrifts.grows.trans (hruns.heeds (hwf n (WorkflowDefinition.nodeMap_mem hn))).grows
  | skip => exact Drifts.grows h
  | approval => exact Drifts.grows h
  | save => exact Drifts.grows h
  | notifyFailure => exact Drifts.grows h
  | sweepBlobs => exact Drifts.grows h

/-- An event that takes the account over the limit, by no task that was left behind, is the run of
a node that has failed. -/
theorem LlmWorld.Books.exceeds {e : Event} (h : world.Books env wf a e a') (hwf : Charged wf)
    (ha : a.Sound) (hle : a.count ≤ a.limit) (hover : a'.breached)
    (hstray : a'.strayBreached = false) :
    ∃ ctx result, e = .run ctx result ∧
      (env.timeoutDuring ctx.nodeId = false → (Fate.ran ctx result).failed = true) := by
  have hquiet : ¬ Drifts a a' := fun hdrifts =>
    absurd (hdrifts.within ha hle hstray) (Nat.not_le_of_lt hover)
  cases e with
  | run ctx result =>
      refine ⟨ctx, result, rfl, fun hintime => ?_⟩
      obtain ⟨n, b, o, hn, hdrifts, hruns, hend⟩ := h
      have hheeds := hruns.heeds (hwf n (WorkflowDefinition.nodeMap_mem hn))
      have hb : b.strayBreached = false := by
        cases hb : b.strayBreached with
        | false => rfl
        | true => rw [hheeds.grows.stray hb] at hstray; cases hstray
      have hnot := hheeds.exceeds (hdrifts.grows.sound ha) (hdrifts.within ha hle hb) hover hstray
      rcases hend with rfl | ⟨-, rfl⟩ | htimeout
      · cases result with
        | completed => cases hnot
        | failed => rfl
        | timeout => rfl
      · rfl
      · rw [hintime] at htimeout
        cases htimeout
  | skip => exact absurd h hquiet
  | approval => exact absurd h hquiet
  | save => exact absurd h hquiet
  | notifyFailure => exact absurd h hquiet
  | sweepBlobs => exact absurd h hquiet

variable {ledger : Ledger}

theorem LlmWorld.Booked.grows (h : world.Booked env wf a ledger) (hwf : Charged wf) :
    ∀ x ∈ ledger, a.Grows x.2 := by
  induction ledger generalizing a with
  | nil => simp
  | cons y ledger ih =>
      intro x hx
      rcases List.mem_cons.mp hx with rfl | hx
      · exact LlmWorld.Books.grows h.1 hwf
      · exact (LlmWorld.Books.grows h.1 hwf).trans (ih h.2 x hx)

/-- The first event after which the limit is exceeded is the run of a node that has failed. -/
theorem LlmWorld.Booked.first (h : world.Booked env wf a ledger) (hwf : Charged wf) (ha : a.Sound)
    (hle : a.count ≤ a.limit) (hstray : ∀ x ∈ ledger, x.2.strayBreached = false)
    {before after : Ledger} {x : Event × Account} (heq : ledger = before ++ x :: after)
    (hover : x.2.breached) :
    ∃ before' ctx result a' mid, ledger = before' ++ (.run ctx result, a') :: (mid ++ after) ∧
      a'.breached ∧ (env.timeoutDuring ctx.nodeId = false → (Fate.ran ctx result).failed = true) := by
  induction ledger generalizing a before with
  | nil => simp at heq
  | cons y ledger ih =>
      obtain ⟨e, a₁⟩ := y
      have hgrows := LlmWorld.Books.grows h.1 hwf
      by_cases hfirst : a₁.breached
      · obtain ⟨ctx, result, rfl, hfailed⟩ :=
          LlmWorld.Books.exceeds h.1 hwf ha hle hfirst (hstray (e, a₁) (by simp))
        rcases before with _ | ⟨z, before⟩
        · obtain ⟨-, rfl⟩ := List.cons.inj heq
          exact ⟨[], ctx, result, a₁, [], rfl, hfirst, hfailed⟩
        · obtain ⟨-, rfl⟩ := List.cons.inj heq
          exact ⟨[], ctx, result, a₁, before ++ [x], by simp, hfirst, hfailed⟩
      · rcases before with _ | ⟨z, before⟩
        · obtain ⟨rfl, -⟩ := List.cons.inj heq
          exact absurd hover hfirst
        · obtain ⟨-, htail⟩ := List.cons.inj heq
          obtain ⟨before', ctx, result, a', mid, heq', hover', hfailed⟩ :=
            ih h.2 (hgrows.sound ha) (Nat.le_of_not_lt hfirst)
              (fun x hx => hstray x (by simp [hx])) htail
          exact ⟨(e, a₁) :: before', ctx, result, a', mid, by rw [heq']; rfl, hover', hfailed⟩

theorem mem_fates_run {t : List Event} {result : NodeRun} (h : .run ctx result ∈ t) :
    (ctx.nodeId, Fate.ran ctx result) ∈ fates t :=
  List.mem_filterMap.mpr ⟨_, h, rfl⟩

/-! ## Segments -/

/-- A call of `execute()` whose nodes charge their calls of a model, with its ledger. -/
structure Segment where
  world : LlmWorld
  env : RunEnv
  wf : WorkflowDefinition
  limit : Nat
  triggerData : List (String × Value)
  executionId : String
  environment : String
  ledger : Ledger
  positive : 0 < limit
  charged : Charged wf
  trace : ledger.map (·.1) = (execute env wf triggerData executionId environment).trace
  booked : world.Booked env wf { limit } ledger

namespace Segment

def status (s : Segment) : ExecutionStatus :=
  (execute s.env s.wf s.triggerData s.executionId s.environment).execution.status

def cfg (s : Segment) : LlmCall.LlmConfig := s.world.llm

theorem calls_le (s : Segment) {x : Event × Account} (hx : x ∈ s.ledger) :
    x.2.calls.length ≤ s.limit := by
  have hgrows := s.booked.grows s.charged x hx
  have hbounded := (hgrows.sound ⟨Nat.zero_le _, Nat.le_refl _, s.positive⟩).bounded
  rwa [hgrows.limit] at hbounded

theorem aborts (s : Segment) (hheard : Heard s.env s.ledger) : Aborts s.status s.ledger := by
  intro before x after heq hover
  obtain ⟨before', ctx, result, a', mid, hledger, hover', hfailed⟩ :=
    s.booked.first s.charged ⟨Nat.zero_le _, Nat.le_refl _, s.positive⟩ (Nat.zero_le _) hheard.1
      heq hover
  obtain ⟨hhard, hintime⟩ := hheard.2 ctx result a' (by rw [hledger]; simp) hover'
  have hfates : fates (execute s.env s.wf s.triggerData s.executionId s.environment).trace =
      fates (before'.map (·.1)) ++ (ctx.nodeId, Fate.ran ctx result) ::
        fates ((mid ++ after).map (·.1)) := by
    rw [← s.trace, hledger, List.map_append, List.map_cons, fates_append]
    rfl
  obtain ⟨hnil, hstatus⟩ := execute_hardFailure hfates (hfailed hintime) hhard hintime
  refine ⟨fun ctx' result' b hmem => ?_, hstatus⟩
  have hmem' : .run ctx' result' ∈ (mid ++ after).map (·.1) :=
    List.mem_map.mpr ⟨_, List.mem_append_right mid hmem, rfl⟩
  have := mem_fates_run hmem'
  rw [hnil] at this
  cases this

end Segment

theorem Account.requests_le {cfg : LlmCall.LlmConfig} {n : Nat} (a : Account)
    (h : ∀ call ∈ a.calls, call.requests cfg ≤ n) : a.requests cfg ≤ a.calls.length * n := by
  have hsum := List.sum_le_card_nsmul (a.calls.map (ModelCall.requests cfg)) n (by simpa using h)
  simpa [Account.requests] using hsum

/-- Over every call of `execute()` whose nodes charge their calls: the requests stay within 18
times the limit, and within the limit if each call is settled by its first answer; and a charge
over the limit ends the run, if the breach is heard. -/
theorem budget_bounds (s : Segment) :
    Bounded s.world.llm (18 * s.limit) s.ledger ∧
      (Settled s.world.llm s.ledger → Bounded s.world.llm s.limit s.ledger) ∧
        (Heard s.env s.ledger → Aborts s.status s.ledger) := by
  refine ⟨fun x hx => ?_, fun hsettled x hx => ?_, s.aborts⟩
  · have hle := x.2.requests_le fun call _ => call.requests_le s.world.llm
    have hcalls := s.calls_le hx
    omega
  · have hle := x.2.requests_le fun call hcall => (hsettled x hx call hcall).requests.le
    have hcalls := s.calls_le hx
    omega

/-! ## Two runs with a limit of one -/

/-- An attempt that asks once. -/
def askOnce (via : Via) (call : ModelCall) (wrap : String → String) (output : Value)
    (s : Nat × Account) : NodeAttempt × (Nat × Account) :=
  if s.2.raises then
    (.raised { message := wrap s.2.breachText }, s.1 + 1, s.2.charge.leave via [])
  else (.returned output, s.1 + 1, s.2.charge.make call)

/-- A node with one call to make, in one run. -/
theorem LlmWorld.runs_askOnce (call : ModelCall) (hcallers : world.callers type ctx = some [1])
    (hmakes : (via type).makes call = true) (output : Value) :
    world.Runs type ctx a
      (BaseNode.runFrom (world.nodeClass type) ctx.config
        (askOnce (via type) call (world.wrapText type ctx) output) (0, a)).1
      (BaseNode.runFrom (world.nodeClass type) ctx.config
        (askOnce (via type) call (world.wrapText type ctx) output) (0, a)).2.2 := by
  refine ⟨askOnce (via type) call (world.wrapText type ctx) output, fun k b => ?_, rfl, rfl⟩
  unfold Attempts askOnce
  rw [hcallers]
  cases hraises : b.raises with
  | true => exact ⟨.breach (i := 0) rfl rfl hraises, rfl⟩
  | false =>
      exact ⟨.ask (i := 0) rfl rfl hraises hmakes
        (.finish (i := 0) rfl rfl (.returned (by simp))), rfl⟩

/-- A node that asks no model, in one run. -/
theorem LlmWorld.runs_silent (hcallers : world.callers type ctx = some []) (output : Value) :
    world.Runs type ctx a
      (BaseNode.runFrom (world.nodeClass type) ctx.config
        (fun s : Nat × Account => (.returned output, s.1 + 1, s.2)) (0, a)).1
      (BaseNode.runFrom (world.nodeClass type) ctx.config
        (fun s : Nat × Account => (.returned output, s.1 + 1, s.2)) (0, a)).2.2 := by
  refine ⟨fun s => (.returned output, s.1 + 1, s.2), fun k b => ?_, rfl, rfl⟩
  unfold Attempts
  rw [hcallers]
  exact ⟨.returned (by simp), rfl⟩

/-- Rules that only a model can judge. -/
def rulesWorld : LlmWorld where
  deterministic _ _ := false
  wrap _ text :=
    "LLM Processor failed: the LLM call did not succeed, so this step produced no valid output " ++
      "(tier='large'). The run was stopped here instead of passing placeholder data downstream. " ++
      "Check the LLM tier/model and provider availability. Details: " ++ text
  otherClass _ := {}
  llm :=
    { billingAvailable := true
      internetServiceAvailable := false
      defaultModel := fun _ => "gpt-4o"
      countTokens := fun text => text.length / 4
      truncateToTokenLimit := fun text _ => text }

/-- The service, which may refuse the first request of a call with a rate limit. -/
def rulesService (busy : Bool) : LlmCall.LlmEnv where
  create log :=
    if busy && (LlmCall.requests log).length = 1 then .error .rateLimit
    else .ok { choices := [⟨some "stop", some "[]", none⟩], usage := none }
  search _ _ := ""

def rulesRequest (busy : Bool) : ModelCall :=
  .response "Rules: be kind" .medium "You are a rules engine." (rulesService busy)

/-- Two nodes that ask a model each, and one that asks none; the second one may be set to
`continue_on_error`. -/
def rulesFlow (soft : Bool) : WorkflowDefinition where
  nodes := [{ id := "start", type := .manualTrigger },
    { id := "first", type := .rulesEngine, config := [("rules", .str "be kind")] },
    { id := "second", type := .rulesEngine,
      config := [("rules", .str "be kind"), ("continue_on_error", .bool soft)] },
    { id := "last", type := .setVariable }]
  edges := [{ source := "start", target := "first" }, { source := "start", target := "second" },
    { source := "start", target := "last" }]

/-- After the first node, with a limit of one call. -/
def rulesAsked (busy : Bool) : Account := (Account.charge { limit := 1 }).make (rulesRequest busy)

def rulesAccounts (busy : Bool) : List Account :=
  let breached := (rulesAsked busy).charge.leave .helper []
  [{ limit := 1 }, rulesAsked busy, breached, breached, breached, breached]

/-- The second node goes over the limit. -/
def rulesEnv : RunEnv :=
  .calm fun nid =>
    if nid = "second" then
      let text := (Account.charge { limit := 1 }).breachText
      .failed (some text) 0 [text]
    else .completed .none 0 []

def rulesCall (soft : Bool) : CallResult := execute rulesEnv (rulesFlow soft) [] "ex" "test"

def rulesLedger (soft busy : Bool) : Ledger := (rulesCall soft).trace.zip (rulesAccounts busy)

private theorem rulesLedger_booked (soft busy : Bool) :
    rulesWorld.Booked rulesEnv (rulesFlow soft) { limit := 1 } (rulesLedger soft busy) := by
  cases soft with
  | false =>
      exact ⟨⟨_, _, _, rfl, .refl, LlmWorld.runs_silent rfl .none, .inl rfl⟩,
        ⟨_, _, _, rfl, .refl, LlmWorld.runs_askOnce (rulesRequest busy) rfl rfl .none,
          .inl rfl⟩,
        ⟨_, _, _, rfl, .refl, LlmWorld.runs_askOnce (rulesRequest busy) rfl rfl .none,
          .inl rfl⟩,
        .refl, .refl, .refl, trivial⟩
  | true =>
      exact ⟨⟨_, _, _, rfl, .refl, LlmWorld.runs_silent rfl .none, .inl rfl⟩,
        ⟨_, _, _, rfl, .refl, LlmWorld.runs_askOnce (rulesRequest busy) rfl rfl .none,
          .inl rfl⟩,
        ⟨_, _, _, rfl, .refl, LlmWorld.runs_askOnce (rulesRequest busy) rfl rfl .none,
          .inl rfl⟩,
        ⟨_, _, _, rfl, .refl, LlmWorld.runs_silent rfl .none, .inl rfl⟩, .refl, .refl, trivial⟩

private theorem rulesLedger_trace (soft busy : Bool) :
    (rulesLedger soft busy).map (·.1) = (rulesCall soft).trace := by
  cases soft <;> rfl

private theorem rulesFlow_charged (soft : Bool) : Charged (rulesFlow soft) := by
  intro n hn
  simp only [rulesFlow, List.mem_cons, List.not_mem_nil, or_false] at hn
  rcases hn with rfl | rfl | rfl | rfl <;> simp

def rulesSegment (soft busy : Bool) : Segment where
  world := rulesWorld
  env := rulesEnv
  wf := rulesFlow soft
  limit := 1
  triggerData := []
  executionId := "ex"
  environment := "test"
  ledger := rulesLedger soft busy
  positive := Nat.one_pos
  charged := rulesFlow_charged soft
  trace := rulesLedger_trace soft busy
  booked := rulesLedger_booked soft busy

private theorem mem_rulesAccounts {busy : Bool} {x : Event × Account}
    (hx : x ∈ rulesLedger false busy) : x.2 ∈ rulesAccounts busy :=
  (List.of_mem_zip (a := x.1) (b := x.2) hx).2

private theorem rulesLedger_settled : Settled rulesWorld.llm (rulesLedger false false) := by
  intro x hx call hcall
  have hx' := mem_rulesAccounts hx
  simp only [rulesAccounts, List.mem_cons, List.not_mem_nil, or_false] at hx'
  have hmem : call ∈ [rulesRequest false] := by
    rcases hx' with h | h | h | h | h | h
    · rw [h] at hcall
      cases hcall
    all_goals
      rw [h] at hcall
      exact hcall
  obtain rfl := List.mem_singleton.mp hmem
  show (_ : Bool) = true
  decide +kernel

private theorem rulesLedger_heard : Heard rulesEnv (rulesLedger false false) := by
  constructor
  · intro x hx
    have hx' := mem_rulesAccounts hx
    simp only [rulesAccounts, List.mem_cons, List.not_mem_nil, or_false] at hx'
    rcases hx' with h | h | h | h | h | h <;> rw [h] <;> rfl
  · intro ctx result a hmem hover
    refine ⟨?_, rfl⟩
    rcases List.mem_cons.mp hmem with h | hmem
    · obtain ⟨-, rfl⟩ := Prod.mk.inj h
      exact absurd hover (by decide)
    rcases List.mem_cons.mp hmem with h | hmem
    · obtain ⟨-, rfl⟩ := Prod.mk.inj h
      exact absurd hover (by decide)
    rcases List.mem_cons.mp hmem with h | hmem
    · obtain ⟨hrun, -⟩ := Prod.mk.inj h
      obtain ⟨rfl, -⟩ := Event.run.inj hrun
      rfl
    · rcases List.mem_cons.mp hmem with h | hmem
      · cases (Prod.mk.inj h).1
      rcases List.mem_cons.mp hmem with h | hmem
      · cases (Prod.mk.inj h).1
      rcases List.mem_cons.mp hmem with h | hmem
      · cases (Prod.mk.inj h).1
      · cases hmem

/-- A run with a limit of one, in which the second node goes over it and fails. -/
theorem rulesFlow_aborts : Bounded rulesWorld.llm 1 (rulesLedger false false) ∧
    Aborts (rulesCall false).execution.status (rulesLedger false false) :=
  let h := budget_bounds (rulesSegment false false)
  ⟨h.2.1 rulesLedger_settled, h.2.2 rulesLedger_heard⟩

/-- A node whose first request is refused with a rate limit sends two requests under one charge.
With `continue_on_error` the node that goes over the limit is passed over: the last node runs and
the run completes. -/
theorem budget_not_kept : (¬ ∀ s : Segment, Bounded s.world.llm s.limit s.ledger) ∧
    ¬ ∀ s : Segment, Aborts s.status s.ledger := by
  constructor
  · intro h
    have hbounded : (rulesAsked true).requests rulesWorld.llm ≤ 1 :=
      h (rulesSegment false true) (_, rulesAsked true)
        (List.mem_of_getElem? (l := rulesLedger false true) (i := 1) rfl)
    exact absurd hbounded (by decide +kernel)
  · intro h
    have haborts := h (rulesSegment true false)
    have hfailed := (haborts ((rulesLedger true false).take 2) _ ((rulesLedger true false).drop 3)
      rfl (Nat.lt_succ_self 1)).2
    have hcompleted : (rulesSegment true false).status = .completed := by decide +kernel
    rw [hfailed] at hcompleted
    cases hcompleted

end LlmBudget

end CitraFlows
