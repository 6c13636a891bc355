-- SUMMARY: How often a node completes over all deliveries of the jobs of an execution: at most once while every job starts from an up-to-date document.
import CitraFlows.Lifecycle.Steps

/-!
# Redelivered segments

A worker that takes up a `workflow.resume` job checks that the stored status is paused or
resuming, and does not claim the document: a second delivery of the job passes the same check
and starts from the same record. What is run twice is what the document does not tell of.
`StartsUpToDate` says of a run that no job starts from a document that has missed a completed
node, or beside another worker that is about to complete one.
-/

namespace CitraFlows

open Processes

/-! ## Completed runs -/

/-- The nodes that have completed, over all processes. -/
def Lifecycle.completed (s : Lifecycle) : List NodeId :=
  (s.runs.filter NodeRunLog.completed).map NodeRunLog.nodeId

/-- The node that the command completes. -/
def WorkerAction.completes : WorkerAction → Option NodeId
  | .event (.run ctx r) => if r.isCompleted then some ctx.nodeId else none
  | _ => none

/-- The nodes that a plan completes. -/
def completions (plan : List WorkerAction) : List NodeId := plan.filterMap WorkerAction.completes

/-- The process is a worker that has nodes to complete. -/
def Proc.completing : Proc → Bool
  | .worker (.executing _ _ plan _) => !(completions plan).isEmpty
  | _ => false

/-! ## What a job starts from -/

/-- The nodes that a job takes for executed. -/
def Lifecycle.restored (s : Lifecycle) : Payload → Finset NodeId
  | .run _ _ => ∅
  | .resume _ => restoredExecuted s.doc.record.nodeResults

/-- The job gets to run nodes. -/
def Lifecycle.admits (s : Lifecycle) : Payload → Bool
  | .run _ _ => true
  | .resume approved => approved && (s.hits (.written .paused) || s.hits (.written .resuming))

/-- A job that gets to run nodes is begun only while no other worker has nodes to complete, and
from a document that restores every node that has completed. -/
def StartsUpToDate (c : LifecycleRun) : LifecycleMove → Bool
  | .step i (.start _) =>
      match c.proc i with
      | some (.worker (.received job)) =>
          (c.shared.jobs[job]?).all fun j =>
            !c.shared.admits j.payload ||
              c.others i (!·.completing) && c.shared.completed.all (· ∈ c.shared.restored j.payload)
      | _ => true
  | _ => true

/-! ## The nodes of a call -/

theorem completions_append (p q : List WorkerAction) :
    completions (p ++ q) = completions p ++ completions q :=
  List.filterMap_append

/-- What a plan completes was decided by the call. -/
theorem completions_sublist (t : List Event) :
    (completions (workerPlan t)).Sublist (decisions t) := by
  induction t with
  | nil => exact List.Sublist.slnil
  | cons ev t ih =>
      have hplan : completions (workerPlan (ev :: t)) =
          completions ev.actions ++ completions (workerPlan t) := completions_append _ _
      have hdecisions : decisions (ev :: t) = decisions [ev] ++ decisions t :=
        decisions_append [ev] t
      rw [hplan, hdecisions]
      refine List.Sublist.append ?_ ih
      cases ev with
      | run ctx r =>
          by_cases hr : r.isCompleted = true <;>
            simp [completions, Event.actions, List.filterMap_cons, WorkerAction.completes,
              decisions, fates, Event.fate?, hr]
      | skip nid | approval q | notifyFailure label error | sweepBlobs => exact List.nil_sublist _
      | save r =>
          simp only [Event.actions]
          split <;> exact List.nil_sublist _

theorem execute_decides_once (env : RunEnv) (wf : WorkflowDefinition)
    (triggerData : List (String × Value)) (executionId environment : String) :
    (decisions (execute env wf triggerData executionId environment).trace).Nodup := by
  obtain ⟨E, hE⟩ := (executeLoop_final env wf triggerData executionId environment
    wf.nodeIds.card).schedule
  rw [decisions, execute_fates]
  exact hE.nodup

theorem resume_decides_once {env : RunEnv} {wf : WorkflowDefinition} {e : WorkflowExecution}
    {approved : Bool} {c : CallResult} (hc : resume env wf e approved = .ok c) :
    (decisions c.trace).Nodup ∧
      ∀ nid ∈ decisions c.trace, approved = true ∧ nid ∉ restoredExecuted e.nodeResults := by
  cases approved with
  | true =>
      have hsame : resume env wf { e with status := e.status } true = .ok c := hc
      obtain ⟨s, hfinal, -, hfates⟩ := resume_final hsame
      obtain ⟨E, hE⟩ := hfinal.schedule
      rw [decisions, hfates]
      exact ⟨hE.nodup, fun nid hnid => ⟨rfl, hE.not_mem_start nid hnid⟩⟩
  | false =>
      have hnone : decisions c.trace = [] := by
        unfold resume at hc
        split at hc
        · cases hc
        · cases hc
          simp [sweepBlobsIfTerminal, LoopState.save, LoopState.emit, LoopState.toResult,
            ExecutionStatus.terminal, decisions, fates, Event.fate?]
      simp [hnone]

/-! ## One step -/

/-- What a process has yet to complete. -/
def Proc.pending : Proc → List NodeId
  | .worker (.executing _ _ plan _) => completions plan
  | _ => []

theorem Proc.completing_eq_false {p : Proc} : p.completing = false ↔ p.pending = [] := by
  cases p with
  | worker stage =>
      cases stage with
      | executing job timed plan last => simp [Proc.completing, Proc.pending]
      | received job | settling job failed | done => simp [Proc.completing, Proc.pending]
  | decision approved stage | cancel stage | reaper started stage | approvalSweep started stage =>
      simp [Proc.completing, Proc.pending]

theorem Proc.Starting.pending {s : Lifecycle} {p : Proc} (h : p.Starting s) : p.pending = [] := by
  cases h <;> rfl

section
variable {cfg : LifecycleConfig} {i : Nat} {input : Input} {s s' : Lifecycle} {p p' : Proc}

/-- One step of a process: it completes some of its nodes and may give up others, or it begins
a job. -/
inductive CompletingStep (s s' : Lifecycle) (p p' : Proc) (input : Input) : Prop where
  | goesOn (done : List NodeId) (hpending : (done ++ p'.pending).Sublist p.pending)
      (hlog : s'.completed = done ++ s.completed)
  | begins {job : Nat} {j : QueuedJob} (env : RunEnv) (hp : p = .worker (.received job))
      (hinput : input = .start env) (hjob : s.jobs[job]? = some j)
      (hlog : s'.completed = s.completed) (hnodup : p'.pending.Nodup)
      (hnew : ∀ nid ∈ p'.pending, s.admits j.payload = true ∧ nid ∉ s.restored j.payload)

theorem ExecutionDocument.load_results {d : ExecutionDocument} {e : WorkflowExecution}
    (h : d.load = some e) : e.nodeResults = d.record.nodeResults := by
  unfold ExecutionDocument.load at h
  split at h <;> cases h
  rfl

theorem Lifecycle.completed_eq (h : s'.runs = s.runs) : s'.completed = s.completed := by
  rw [Lifecycle.completed, h, Lifecycle.completed]

/-- Who runs no node completes none. -/
theorem CompletingStep.of_untouched (h : Untouched s s') (hp' : p'.pending = []) :
    CompletingStep s s' p p' input :=
  .goesOn [] (by simp [hp']) (Lifecycle.completed_eq h.runs)

theorem WorkerAction.completes_eq_none {a : WorkerAction} (h : a.isRun = false) :
    a.completes = none := by
  unfold WorkerAction.completes
  split
  · cases h
  · rfl

theorem act_completing {w : Write} {a : WorkerAction} (h : s.act i w a = some s') :
    s'.completed = a.completes.toList ++ s.completed := by
  cases act_cases h with
  | ran ctx r =>
      by_cases hr : r.isCompleted = true <;>
        simp [Lifecycle.completed, WorkerAction.completes, hr]
  | asked request hran | saved r hran => rfl
  | quiet a flag ha => simp [WorkerAction.completes_eq_none ha, Lifecycle.completed]

theorem completions_cons (a : WorkerAction) (plan : List WorkerAction) :
    completions (a :: plan) = a.completes.toList ++ completions plan := by
  cases h : a.completes <;> simp [completions, h]

theorem WorkerStep.completingStep {w w' : Worker} (h : WorkerStep cfg i s w input s' w') :
    CompletingStep s s' (.worker w) (.worker w') input := by
  cases h with
  | @begin job timed c s' env hbegins =>
      have hsub := completions_sublist c.trace
      cases hbegins with
      | @run triggerData environment j env' hjob hpayload =>
          -- a `workflow.run` job starts from nothing
          refine .begins env rfl rfl hjob rfl ?_ fun nid _ => ?_
          · exact hsub.nodup (execute_decides_once _ _ _ _ _)
          · simp [hpayload, Lifecycle.admits, Lifecycle.restored]
      | @resume approved j e c env' hjob hpayload hload hc =>
          -- a resume runs only nodes that the document does not tell of, and only if it is approved
          obtain ⟨hnodup, hnew⟩ := resume_decides_once hc
          refine .begins env rfl rfl hjob rfl (hsub.nodup hnodup) fun nid hnid => ?_
          obtain ⟨rfl, hnid⟩ := hnew nid (hsub.subset hnid)
          refine ⟨?_, ?_⟩
          · have hstatus := ExecutionDocument.load_status hload
            rcases resume_waiting hc with hwait | hwait <;>
              simp [hpayload, Lifecycle.admits, Lifecycle.hits, hstatus, hwait]
          · rw [hpayload]
            change nid ∉ restoredExecuted s.doc.record.nodeResults
            rw [← ExecutionDocument.load_results hload]
            exact hnid
  | refuse input => exact .goesOn [] (List.nil_sublist _) rfl
  | @act job timed a plan last s' w h =>
      -- what the command completes was the first of the plan
      refine .goesOn a.completes.toList ?_ (act_completing h)
      simp only [Proc.pending, completions_cons, List.Sublist.refl]
  | @interrupt job a plan last r ha hr hstatus =>
      exact .goesOn [] (List.nil_sublist _) rfl
  | finish w => exact .goesOn [] (List.nil_sublist _) rfl
  | settle w =>
      refine .goesOn [] (List.nil_sublist _) ?_
      split <;> rfl

theorem Proc.completingStep (h : p.step cfg i input s = some (s', p')) :
    CompletingStep s s' p p' input := by
  cases Proc.step_cases h with
  | worker hstep => exact hstep.completingStep
  | decision w hstep => exact .of_untouched (DecisionStage.untouched hstep) rfl
  | cancel w hstep => exact .of_untouched (CancelStage.undecided hstep).toUntouched rfl
  | reaper w hstep => exact .of_untouched (ReaperStage.undecided hstep).toUntouched rfl
  | approvalSweep w hstep => exact .of_untouched (SweepStage.undecided hstep).toUntouched rfl

end

/-! ## Whole runs -/

/-- What a process has yet to complete has not completed, and is planned once. -/
def Proc.CompletesNew (s : Lifecycle) (_ : Nat) (p : Proc) : Prop :=
  p.pending.Nodup ∧ ∀ nid ∈ p.pending, nid ∉ s.completed

section
variable {cfg : LifecycleConfig} {c c' : LifecycleRun}

/-- A job that gets to run nodes was begun alone, from a document that tells of all of them. -/
theorem startsUpToDate_begins {i job : Nat} {env : RunEnv} {j : QueuedJob}
    (hok : StartsUpToDate c (.step i (.start env)) = true)
    (hp : c.proc i = some (.worker (.received job))) (hjob : c.shared.jobs[job]? = some j)
    (hadmits : c.shared.admits j.payload = true) :
    c.others i (!·.completing) = true ∧
      ∀ nid ∈ c.shared.completed, nid ∈ c.shared.restored j.payload := by
  simp only [StartsUpToDate, hp, hjob, Option.all_some, hadmits, Bool.not_true, Bool.false_or,
    Bool.and_eq_true, List.all_eq_true, decide_eq_true_eq] at hok
  exact hok

theorem startsUpToDate_exclusive (hc : c.AtMostOne Proc.completing)
    (h : (lifecycleSystem cfg).Steps (fun c m => StartsUpToDate c m) c c') :
    c'.AtMostOne Proc.completing := by
  refine System.Steps.atMostOne (S := lifecycleSystem cfg) ?_ ?_ hc h
  · intro n x s s' p hspawn
    exact Proc.completing_eq_false.mpr (lifecycleSystem_spawn hspawn).2.pending
  · intro c i input p s' p' hok hp hstep hcompleting
    cases Proc.completingStep hstep with
    | goesOn done hpending hlog =>
        -- what is left was there before
        left
        by_contra hidle
        have hnone := Proc.completing_eq_false.mp (by simpa using hidle)
        rw [hnone, List.sublist_nil, List.append_eq_nil_iff] at hpending
        rw [Proc.completing_eq_false.mpr hpending.2] at hcompleting
        cases hcompleting
    | @begins job j env hp' hinput hjob hlog hnodup hnew =>
        -- a worker that begins with nodes to complete was admitted, so it is alone
        right
        subst hp' hinput
        obtain ⟨nid, hnid⟩ := List.exists_mem_of_ne_nil p'.pending fun hnil => by
          rw [Proc.completing_eq_false.mpr hnil] at hcompleting
          cases hcompleting
        exact (startsUpToDate_begins hok hp hjob (hnew nid hnid).1).1

theorem completesNew_invariant :
    (lifecycleSystem cfg).Invariant
      (fun c m => StartsUpToDate c m = true ∧ c.AtMostOne Proc.completing)
      (fun _ s => s.completed.Nodup) Proc.CompletesNew where
  spawn := by
    intro c x s' p hc _ h
    obtain ⟨rfl, hstarts⟩ := lifecycleSystem_spawn h
    refine ⟨hc.1, ?_, hc.2⟩
    simp [Proc.CompletesNew, hstarts.pending]
  step := by
    intro c i input p s' p' hc hok hp h
    obtain ⟨hnodup, hnew⟩ := hc.2 i p hp
    cases Proc.completingStep h with
    | goesOn done hpending hlog =>
        -- what has completed now was pending, so it is new, and not pending any more
        obtain ⟨hdone, hpending', hdisjoint⟩ := List.nodup_append.mp (hpending.nodup hnodup)
        have hdoneNew : ∀ nid ∈ done, nid ∉ c.shared.completed := fun nid hnid =>
          hnew nid (hpending.subset (List.mem_append_left _ hnid))
        refine ⟨?_, ⟨hpending', fun nid hnid => ?_⟩, fun j q hne hq => ?_⟩
        · rw [hlog]
          exact List.nodup_append.mpr ⟨hdone, hc.1, fun nid hnid m hm heq =>
            hdoneNew nid hnid (heq ▸ hm)⟩
        · rw [hlog, List.mem_append, not_or]
          exact ⟨fun hmem => hdisjoint nid hmem nid hnid rfl,
            hnew nid (hpending.subset (List.mem_append_right _ hnid))⟩
        · obtain ⟨hnodup', hnew'⟩ := hc.2 j q hq
          refine ⟨hnodup', fun nid hnid => ?_⟩
          rw [hlog, List.mem_append, not_or]
          refine ⟨fun hmem => hne ?_, hnew' nid hnid⟩
          -- both would be completing nodes
          refine hok.2 j i q p hq hp ?_ ?_
          · by_contra hidle
            simp [Proc.completing_eq_false.mp (by simpa using hidle)] at hnid
          · by_contra hidle
            have hnil := hpending.subset (List.mem_append_left _ hmem)
            simp [Proc.completing_eq_false.mp (by simpa using hidle)] at hnil
    | @begins job j env hp' hinput hjob hlog hnodup' hnew' =>
        subst hp' hinput
        refine ⟨hlog ▸ hc.1, ⟨hnodup', fun nid hnid hmem => ?_⟩, fun j' q hne hq => ?_⟩
        · -- a completed node is in the document, which the call does not run again
          obtain ⟨hadmits, hno⟩ := hnew' nid hnid
          rw [hlog] at hmem
          exact hno ((startsUpToDate_begins hok.1 hp hjob hadmits).2 nid hmem)
        · rw [Proc.CompletesNew, hlog]
          exact hc.2 j' q hq
  env := by
    intro c e s' hc _ h
    have hlog := Lifecycle.completed_eq (Outside.apply_doc h).2
    refine ⟨hlog ▸ hc.1, fun j q hq => ?_⟩
    rw [Proc.CompletesNew, hlog]
    exact hc.2 j q hq

/-- In a run in which every job starts from an up-to-date document, alone, no node completes a
second time, whatever is redelivered. -/
theorem LifecycleRun.completes_once {c₀ : LifecycleRun} (hstart : c₀.procs = [])
    (honce : c₀.shared.completed.Nodup)
    (hreach : (lifecycleSystem cfg).Reaches (fun c m => StartsUpToDate c m) c₀ c) :
    c.shared.completed.Nodup := by
  have hexclusive : c₀.AtMostOne Proc.completing := fun i j p q hp => by
    simp [Configuration.proc, hstart] at hp
  obtain ⟨hreach', -⟩ := System.Reaches.assuming
    (fun _ _ hc hstep => startsUpToDate_exclusive hc hstep) hexclusive hreach
  have hinv : System.Inv (fun _ s => s.completed.Nodup) Proc.CompletesNew c₀ :=
    .of_start hstart honce
  exact (System.Reaches.inv completesNew_invariant hinv hreach').1

end

/-! ## A redelivered resume -/

/-- The request is approved, and a worker resumes the execution to its end. -/
def approvedRun : List LifecycleMove :=
  callMoves (.decide true) 0 3 ++ deliverMoves (.calm approvalResults) 0 1 6

theorem approvedRun_completes_once : ∃ c,
    (lifecycleSystem {}).Reaches (fun c m => StartsUpToDate c m) ⟨asked, []⟩ c ∧
    c.shared.doc.status = .written .completed ∧ c.shared.completed.Nodup := by
  obtain ⟨c, hreach, hc⟩ := System.exists_reaches_of_play (lifecycleSystem {})
    (fun c m => StartsUpToDate c m) approvedRun ⟨asked, []⟩
    (fun c => c.shared.doc.status = .written .completed) (by decide +kernel)
  exact ⟨c, hreach, of_decide_eq_true hc,
    LifecycleRun.completes_once rfl (by decide +kernel) hreach⟩

/-- The worker of the resume is lost after the first node, and the job is delivered again. -/
def redeliveredRun : List LifecycleMove :=
  callMoves (.decide true) 0 3 ++ deliverMoves (.calm approvalResults) 0 1 2 ++ [.crash 1] ++
    deliverMoves (.calm approvalResults) 0 2 2

theorem redeliveredRun_completes_twice : ¬ ∀ (cfg : LifecycleConfig) (c₀ c : LifecycleRun),
    c₀.procs = [] → c₀.shared.doc.status = .written .paused → c₀.shared.completed.Nodup →
    (lifecycleSystem cfg).Reaches (fun _ _ => True) c₀ c → c.shared.completed.Nodup := by
  intro hclaim
  obtain ⟨c, hreach, hc⟩ := System.exists_reaches_of_play (lifecycleSystem {})
    (fun _ _ => True) redeliveredRun ⟨asked, []⟩
    (fun c => c.shared.completed = ["act", "act", "ask", "start"]) (by decide +kernel)
  have honce := hclaim {} ⟨asked, []⟩ c rfl rfl (by decide +kernel) hreach
  rw [of_decide_eq_true hc] at honce
  exact absurd honce (by decide)

end CitraFlows
