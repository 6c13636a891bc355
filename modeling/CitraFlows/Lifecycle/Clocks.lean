-- SUMMARY: The life of an execution with clocks: when each job was asked for and when each process began, and the start that the records of a call keep.
import CitraFlows.Lifecycle.Resumption

/-!
# Clocks

The reaper goes by the start of an execution and by the moment of its resumption, which workers
and decisions write. Beside the state stands when each of its jobs was asked for, and beside
each process when it began what it is at. The clocks only look on: a run without them is a run
of the lifecycle, and every run of the lifecycle has its clocks.
-/

namespace CitraFlows

open Processes

/-! ## The start of a record -/

/-- The record has this start and is not taken for resuming, nor is what was saved of it. -/
structure BegunAt (a : Nat) (s : LoopState) : Prop where
  record : s.execution.startedAt = a
  status : s.execution.status ≠ .resuming
  saved : ∀ e, .save e ∈ s.trace → e.startedAt = a ∧ e.status ≠ .resuming

section
variable {a : Nat} {seg : Segment} {env : RunEnv} {wf : WorkflowDefinition} {nid : NodeId}
  {s : LoopState}

theorem BegunAt.save (h : BegunAt a s) : BegunAt a s.save := by
  refine ⟨h.record, h.status, fun e he => ?_⟩
  rcases List.mem_append.mp he with he | he
  · exact h.saved e he
  · cases List.mem_singleton.mp he
    exact ⟨h.record, h.status⟩

theorem BegunAt.emit (h : BegunAt a s) (ev : Event) (hev : ∀ e, ev ≠ .save e) :
    BegunAt a (s.emit ev) := by
  refine ⟨h.record, h.status, fun e he => ?_⟩
  rcases List.mem_append.mp he with he | he
  · exact h.saved e he
  · exact absurd (List.mem_singleton.mp he).symm (hev e)

/-- What touches neither the start nor the trace. -/
theorem BegunAt.of_eq {s' : LoopState} (h : BegunAt a s)
    (hrecord : s'.execution.startedAt = s.execution.startedAt) (htrace : s'.trace = s.trace)
    (hstatus : s'.execution.status ≠ .resuming) : BegunAt a s' :=
  ⟨hrecord.trans h.record, hstatus, fun e he => h.saved e (htrace ▸ he)⟩

theorem completedExecute_begunAt {n : NodeDefinition} {output : Value} (h : BegunAt a s) :
    BegunAt a (completedExecute env wf n nid output s).state := by
  have hpause : ∀ vars, BegunAt a (LoopState.pauseAt { s with vars } nid) := fun vars =>
    h.of_eq rfl rfl (by simp [LoopState.pauseAt])
  unfold completedExecute
  dsimp only
  split
  · exact h.of_eq rfl rfl h.status
  · split
    · exact hpause _
    · next request _ =>
      have hasked := (hpause (updateVariables s.vars (emittedVariables output))).emit
        (.approval request) (by simp)
      exact BegunAt.save (hasked.of_eq rfl rfl hasked.status)
  · split
    · exact BegunAt.save (h.of_eq rfl rfl h.status)
    · exact h.of_eq rfl rfl h.status

theorem completedResume_begunAt {output : Value} (h : BegunAt a s) :
    BegunAt a (completedResume wf nid output s).state := by
  unfold completedResume
  split
  · exact h
  · exact BegunAt.save (h.of_eq rfl rfl (by simp [LoopState.pauseAt]))
  · exact h.of_eq rfl rfl h.status

theorem failedNode_begunAt {n : NodeDefinition} {r : NodeExecutionResult} (h : BegunAt a s) :
    BegunAt a (failedNode seg wf n nid r s).state := by
  have hfast : BegunAt a (failFast n nid r s).state := by
    refine BegunAt.emit ?_ (.notifyFailure _ _) (by simp)
    exact BegunAt.save (h.of_eq rfl rfl (by simp))
  unfold failedNode
  split
  · split
    · exact h.of_eq rfl rfl h.status
    · exact hfast
  · exact hfast

theorem processNode_begunAt (seg : Segment) (env : RunEnv) (wf : WorkflowDefinition) (nid : NodeId)
    (h : BegunAt a s) :
    BegunAt a (processNode seg env wf nid s).state := by
  unfold processNode
  split
  · exact BegunAt.save (h.of_eq rfl rfl (by simp))
  split
  · exact h
  split
  · exact h.of_eq rfl rfl h.status
  split
  · refine BegunAt.emit ?_ (.skip nid) (by simp)
    exact h.of_eq rfl rfl h.status
  split
  · exact h.of_eq rfl rfl h.status
  unfold runNode
  split
  · exact h.of_eq rfl rfl h.status
  have hrun : ∀ (n : NodeDefinition) (input : Value), BegunAt a ((s.enter nid).afterRun env
      (nodeContext env wf n nid input (s.enter nid))) := fun n input =>
    (h.of_eq rfl rfl h.status : BegunAt a (s.enter nid)).emit _ (by simp) |>.of_eq rfl rfl h.status
  dsimp only
  split
  · exact hrun _ _
  split
  · split
    · exact completedExecute_begunAt ((hrun _ _).of_eq rfl rfl h.status)
    · exact completedResume_begunAt ((hrun _ _).of_eq rfl rfl h.status)
  all_goals exact failedNode_begunAt ((hrun _ _).of_eq rfl rfl h.status)

theorem BegunAt.stepInvariant : StepInvariant seg env wf fun _ s => BegunAt a s where
  collect _ _ _ h _ := h.of_eq rfl rfl h.status
  next nid _ s s' h _ _ hs' := by
    have hnext := processNode_begunAt seg env wf nid h
    rwa [hs'] at hnext

theorem BegunAt.sweep (h : BegunAt a s) : BegunAt a (sweepBlobsIfTerminal s) := by
  unfold sweepBlobsIfTerminal
  split
  · exact h.emit .sweepBlobs (by simp)
  · exact h

/-- Whatever ends the loop, the call keeps the start. -/
theorem EndsAt.begunAt {o : LoopOutcome} (config : Config)
    (h : EndsAt seg env wf (fun _ s => BegunAt a s) o) : BegunAt a (o.settle config) := by
  cases o with
  | finished s => exact BegunAt.sweep (BegunAt.save (h.1.of_eq rfl rfl (by simp)))
  | outOfRounds s => exact h.1
  | halted s =>
      obtain ⟨nid, batch, t, ht, -, hstop⟩ := h
      have hs := processNode_begunAt seg env wf nid ht
      rw [hstop] at hs
      exact hs.sweep
  | raised e s =>
      obtain ⟨nid, batch, t, ht, -, hstop⟩ := h
      have hs : BegunAt a s := by
        have hs := processNode_begunAt seg env wf nid ht
        rwa [hstop] at hs
      exact BegunAt.sweep (BegunAt.save (hs.of_eq rfl rfl (by simp)))
  | timedOut s =>
      obtain ⟨nid, batch, t, ht, -, hstop⟩ := h
      have hs : BegunAt a s := by
        have hs := processNode_begunAt seg env wf nid ht
        rwa [hstop] at hs
      refine BegunAt.emit ?_ (.notifyFailure _ _) (by simp)
      exact BegunAt.save (hs.sweep.of_eq rfl rfl (by simp))

/-- A call of `execute()` saves the moment at which it began. -/
theorem execute_begunAt {triggerData : List (String × Value)} {executionId environment : String}
    {e : WorkflowExecution}
    (he : .save e ∈ (execute env wf triggerData executionId environment).trace) :
    e.startedAt = env.startedAt ∧ e.status ≠ .resuming := by
  have hstart : BegunAt env.startedAt (executeStart env wf triggerData executionId environment) :=
    ⟨rfl, by simp [executeStart, newExecution], by simp [executeStart]⟩
  simp only [execute, LoopState.toResult] at he
  refine BegunAt.saved ?_ e he
  rcases executeLoop_cases env wf triggerData executionId environment wf.nodeIds.card with
    hl | ⟨err, hl⟩
  · rw [hl]
    exact (runRounds_stepRule BegunAt.stepInvariant _ _ hstart).begunAt _
  · rw [hl]
    exact BegunAt.sweep (BegunAt.save (hstart.of_eq rfl rfl (by simp)))

/-- A call of `resume()` saves the start of the record it was given. -/
theorem resume_begunAt {e r : WorkflowExecution} {approved : Bool} {c : CallResult}
    (hc : resume env wf e approved = .ok c) (hr : .save r ∈ c.trace) :
    r.startedAt = e.startedAt ∧ r.status ≠ .resuming := by
  cases approved with
  | true =>
      obtain ⟨-, rfl⟩ := resume_approved hc
      have hstart : BegunAt e.startedAt (resumeStart wf e) :=
        ⟨rfl, by simp [resumeStart], by simp [resumeStart]⟩
      exact ((runRounds_stepRule BegunAt.stepInvariant _ _ hstart).begunAt _).saved r hr
  | false =>
      unfold resume at hc
      split at hc
      · cases hc
      · simp only [Bool.not_false, if_true, Except.ok.injEq] at hc
        subst hc
        exact (BegunAt.sweep (BegunAt.save ⟨rfl, by simp, by simp⟩)).saved r hr

end

/-! ## Clocks -/

/-- The execution, and when each of its jobs was asked for. -/
structure Clocked where
  state : Lifecycle
  asked : Nat → Nat

/-- A process, and when it began what it is at. -/
structure ClockedProc where
  proc : Proc
  began : Nat

/-- A worker begins with its job, and a decision with its compare-and-set; anything else begins when
its process starts. -/
def Proc.begins : Proc → Bool
  | .worker (.received _) | .decision _ .cas => true
  | _ => false

/-- A process has moved the state. A job is asked for when the process that enqueues it began. -/
def Clocked.move (s : Clocked) (p : ClockedProc) (s' : Lifecycle) : Clocked where
  state := s'
  asked :=
    if s'.jobs.length = s.state.jobs.length then s.asked
    else Function.update s.asked s.state.jobs.length p.began

/-- The process itself has moved. -/
def ClockedProc.move (p : ClockedProc) (now : Nat) (q : Proc) : ClockedProc where
  proc := q
  began := if p.proc.begins then now else p.began

/-- The lifecycle with clocks. -/
def clockedSystem (cfg : LifecycleConfig) : System Clocked ClockedProc Spawn Input Outside where
  spawn _ x s := (x.proc s.state).map fun p => (s, ⟨p, s.state.now⟩)
  step i input s p :=
    (p.proc.step cfg i input s.state).map fun r => (s.move p r.1, p.move s.state.now r.2)
  env e s := (e.apply s.state).map ({ s with state := · })

abbrev ClockedRun := Configuration Clocked ClockedProc

/-- The run without its clocks. -/
def ClockedRun.plain (c : ClockedRun) : LifecycleRun :=
  ⟨c.shared.state, c.procs.map (Option.map (·.proc))⟩

theorem ClockedRun.plain_proc (c : ClockedRun) (i : Nat) :
    c.plain.proc i = (c.proc i).map (·.proc) := by
  simp only [plain, Configuration.proc, List.getElem?_map]
  cases c.procs[i]? with
  | none => rfl
  | some o => cases o <;> rfl

/-- The clocks only look on. -/
theorem clockedSystem_apply (cfg : LifecycleConfig) (c : ClockedRun) (m : LifecycleMove) :
    ((clockedSystem cfg).apply c m).map ClockedRun.plain =
      (lifecycleSystem cfg).apply c.plain m := by
  cases m with
  | spawn x =>
      simp only [System.apply, clockedSystem, lifecycleSystem, ClockedRun.plain]
      cases x.proc c.shared.state <;> simp [ClockedRun.plain]
  | step i input =>
      simp only [System.apply, ClockedRun.plain_proc]
      cases c.proc i with
      | none => rfl
      | some p =>
          simp only [Option.bind_some, Option.map_some, clockedSystem, lifecycleSystem,
            ClockedRun.plain]
          cases p.proc.step cfg i input c.shared.state <;>
            simp [ClockedRun.plain, List.map_set, Clocked.move, ClockedProc.move]
  | crash i => simp [System.apply, ClockedRun.plain, List.map_set]
  | env e =>
      simp only [System.apply, clockedSystem, lifecycleSystem, ClockedRun.plain]
      cases e.apply c.shared.state <;> simp [ClockedRun.plain]

section
variable {cfg : LifecycleConfig} {g s : Clocked} {p p' : ClockedProc}

/-- A process starts with its clock at the moment. -/
theorem clockedSystem_spawn {n : Nat} {x : Spawn}
    (h : (clockedSystem cfg).spawn n x s = some (g, p)) :
    g = s ∧ x.proc s.state = some p.proc ∧ p.began = s.state.now := by
  obtain ⟨q, hq, heq⟩ := Option.map_eq_some_iff.mp h
  cases heq
  exact ⟨rfl, hq, rfl⟩

theorem clockedSystem_step {i : Nat} {input : Input}
    (h : (clockedSystem cfg).step i input s p = some (g, p')) :
    ∃ s' q', p.proc.step cfg i input s.state = some (s', q') ∧ g = s.move p s' ∧
      p' = p.move s.state.now q' := by
  obtain ⟨⟨s', q'⟩, hstep, heq⟩ := Option.map_eq_some_iff.mp h
  cases heq
  exact ⟨s', q', hstep, rfl, rfl⟩

/-- The jobs that were there keep their clocks. -/
theorem Clocked.move_asked {s' : Lifecycle} {job : Nat} (h : job < s.state.jobs.length) :
    (s.move p s').asked job = s.asked job := by
  simp only [move]
  split
  · rfl
  · exact Function.update_of_ne (Nat.ne_of_lt h) _ _

theorem Clocked.move_of_length {s' : Lifecycle} (h : s'.jobs.length = s.state.jobs.length) :
    s.move p s' = { s with state := s' } := by
  simp [move, h]

end

/-- Every run of the lifecycle is a run with clocks. -/
theorem exists_clocked {cfg : LifecycleConfig} {c₀ : ClockedRun} {c : LifecycleRun}
    (h : (lifecycleSystem cfg).Reaches (fun _ _ => True) c₀.plain c) :
    ∃ c', (clockedSystem cfg).Reaches (fun _ _ => True) c₀ c' ∧ ClockedRun.plain c' = c := by
  induction h with
  | refl => exact ⟨c₀, .refl, rfl⟩
  | tail _ hstep ih =>
      obtain ⟨d, hreach, rfl⟩ := ih
      obtain ⟨m, -, hm⟩ := hstep
      rw [← clockedSystem_apply] at hm
      obtain ⟨d', hd', rfl⟩ := Option.map_eq_some_iff.mp hm
      exact ⟨d', hreach.tail ⟨m, trivial, hd'⟩, rfl⟩

end CitraFlows
