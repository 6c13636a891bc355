-- SUMMARY: What the approval-timeout sweep fails: the pause its request belongs to, while no other request of the execution is open.
import CitraFlows.Lifecycle.Steps
import CitraFlows.Executor.Approvals

/-!
# Approval timeouts

The sweep reads the unresolved requests, marks each one that has expired, and then fails the
execution if it is paused, whatever it is paused on. Neither the endpoints nor a resume ever
resolve a request. So a request lives on after its decision, and may hit a later pause.
`PausesAlone` says of a run that an execution is never paused while another request of it is
open.
-/

namespace CitraFlows

open Processes

/-! ## Open requests -/

/-- The requests that a sweep has read and has yet to time out. -/
def Proc.held : Proc → List ApprovalDocument
  | .approvalSweep _ (.mark pending) => pending
  | .approvalSweep _ (.fail a pending) => a :: pending
  | _ => []

/-- The requests that may time out: those without a resolution, and those read by a sweep. -/
def openRequests (c : LifecycleRun) : List ApprovalDocument :=
  c.shared.approvals.filter (·.resolution = none) ++
    c.procs.flatMap fun p => (p.map Proc.held).getD []

theorem mem_openRequests {c : LifecycleRun} {a : ApprovalDocument} :
    a ∈ openRequests c ↔ (a ∈ c.shared.approvals ∧ a.resolution = none) ∨
      ∃ i p, c.proc i = some p ∧ a ∈ p.held := by
  simp only [openRequests, List.mem_append, List.mem_filter, decide_eq_true_eq, List.mem_flatMap]
  refine or_congr Iff.rfl ⟨?_, ?_⟩
  · rintro ⟨o, ho, ha⟩
    cases o with
    | none => simp at ha
    | some p =>
        obtain ⟨i, hi⟩ := List.mem_iff_getElem?.mp ho
        exact ⟨i, p, Configuration.proc_eq_some.mpr hi, ha⟩
  · rintro ⟨i, p, hp, ha⟩
    exact ⟨some p, List.mem_of_getElem? (Configuration.proc_eq_some.mp hp), ha⟩

/-- A pause on `approvalId` is the pause of the request, and none of the decisions accepted is
about it. -/
def AwaitsDecision (approvalId : Option String) (accepted : List AcceptedDecision)
    (a : ApprovalDocument) : Bool :=
  approvalId = some a.request.approvalId &&
    accepted.all (·.approvalId ≠ some a.request.approvalId)

/-- The execution comes to be paused, by a save or by the rollback of a decision, only if every
open request is that of the pause and undecided; and a request is not inserted into a pause. -/
def PausesAlone (c : LifecycleRun) : LifecycleMove → Bool
  | .step i (.act w) =>
      match c.proc i with
      | some (.worker (.executing _ _ (.event (.save r) :: _) _)) =>
          !w.ran || r.status ≠ .paused ||
            (openRequests c).all (AwaitsDecision r.approvalId c.shared.accepted)
      | some (.worker (.executing _ _ (.event (.approval _) :: _) _)) =>
          !w.ran || !c.shared.hits (.written .paused)
      | some (.decision approved (.rollback approvalId)) =>
          !w.ran || (openRequests c).all
            (AwaitsDecision c.shared.doc.record.approvalId
              (c.shared.accepted.erase ⟨approved, approvalId⟩))
      | _ => true
  | _ => true

/-! ## The promise -/

/-- Whenever a sweep is about to fail the execution for a request, the execution is paused on
that request, and no decision about it was accepted. -/
def SweepsOwnPause (c : LifecycleRun) : Prop :=
  ∀ i started a pending w s' stage', c.proc i = some (.approvalSweep started (.fail a pending)) →
    (SweepStage.fail a pending).step started w c.shared = some (s', stage') →
    s'.doc.status ≠ c.shared.doc.status →
      c.shared.hits (.written .paused) = true ∧
        AwaitsDecision c.shared.doc.record.approvalId c.shared.accepted a = true

def Resolution.ofDecision (approved : Bool) : Resolution := if approved then .approved else .rejected

/-- The request of an accepted decision is marked as resolved by it. -/
def AcceptedResolved (s : Lifecycle) : Prop :=
  ∀ d ∈ s.accepted, ∀ a ∈ s.approvals, d.approvalId = some a.request.approvalId →
    a.resolution = some (.ofDecision d.approved)

/-! ## One step -/

section
variable {cfg : LifecycleConfig} {i started : Nat} {input : Input} {w : Write} {c : LifecycleRun}
  {s' : Lifecycle} {p p' : Proc}

theorem mem_timeOutApproval {id : String} {a : ApprovalDocument} {l : List ApprovalDocument}
    (h : a ∈ timeOutApproval id l) : a ∈ l ∨ a.resolution = some .timedOut := by
  induction l with
  | nil => cases h
  | cons b l ih =>
      simp only [timeOutApproval] at h
      split at h
      · rcases List.mem_cons.mp h with rfl | h
        · exact Or.inr rfl
        · exact Or.inl (List.mem_cons_of_mem _ h)
      · rcases List.mem_cons.mp h with rfl | h
        · exact Or.inl List.mem_cons_self
        · exact (ih h).imp_left (List.mem_cons_of_mem _)

/-- A stuck execution is not paused. -/
theorem ExecutionDocument.stuck_not_paused {now : Nat} {d : ExecutionDocument}
    (h : d.stuck cfg now = true) : d.status ≠ .written .paused := by
  intro hpaused
  simp [ExecutionDocument.stuck, hpaused] at h

/-- The reaper has read no pause. -/
def Proc.ReadsStuck : Proc → Prop
  | .reaper _ (.act snap) | .reaper _ (.enqueue snap) | .reaper _ (.rollback snap) =>
      snap.status ≠ .written .paused
  | _ => True

theorem Proc.holds_none {P : ApprovalDocument → Prop} (h : p.held = []) : ∀ a ∈ p.held, P a := by
  simp [h]

/-- One step of a process, as far as the requests and the pause are concerned. -/
structure PauseStep (c : LifecycleRun) (s' : Lifecycle) (p p' : Proc) : Prop where
  reads : p'.ReadsStuck
  held : ∀ a ∈ p'.held, a ∈ p.held ∨ a ∈ c.shared.approvals ∧ a.resolution = none
  /-- Nobody resolves a request but by a timeout. -/
  unmarked : ∀ a ∈ s'.approvals, a ∈ c.shared.approvals ∨ a.resolution = none ∨
    a.resolution = some .timedOut
  /-- No request is inserted into a pause. -/
  inserted : s'.hits (.written .paused) = true →
    ∀ a ∈ s'.approvals, a.resolution = none → a ∈ c.shared.approvals
  /-- The pause is the old one, or the one that every open request waits for. -/
  pause : s'.hits (.written .paused) = true →
    (c.shared.hits (.written .paused) = true ∧
      s'.doc.record.approvalId = c.shared.doc.record.approvalId ∧
      s'.accepted = c.shared.accepted) ∨
    ∀ a ∈ openRequests c, AwaitsDecision s'.doc.record.approvalId s'.accepted a = true

/-- A step that leaves the pause and the requests alone. -/
theorem PauseStep.quiet (hstatus : s'.doc.status = c.shared.doc.status)
    (hid : s'.doc.record.approvalId = c.shared.doc.record.approvalId)
    (happrovals : s'.approvals = c.shared.approvals) (haccepted : s'.accepted = c.shared.accepted)
    (hreads : p'.ReadsStuck)
    (hheld : ∀ a ∈ p'.held, a ∈ p.held ∨ a ∈ c.shared.approvals ∧ a.resolution = none) :
    PauseStep c s' p p' where
  reads := hreads
  held := hheld
  unmarked a ha := Or.inl (happrovals ▸ ha)
  inserted _ a ha _ := happrovals ▸ ha
  pause h := Or.inl ⟨by rwa [Lifecycle.hits, ← hstatus], hid, haccepted⟩

/-- A step that ends the pause, if there is one. -/
theorem PauseStep.leaves (hleaves : s'.hits (.written .paused) = false)
    (happrovals : s'.approvals = c.shared.approvals) (hreads : p'.ReadsStuck)
    (hheld : ∀ a ∈ p'.held, a ∈ p.held ∨ a ∈ c.shared.approvals ∧ a.resolution = none) :
    PauseStep c s' p p' where
  reads := hreads
  held := hheld
  unmarked a ha := Or.inl (happrovals ▸ ha)
  inserted h := by simp [hleaves] at h
  pause h := by simp [hleaves] at h

theorem WorkerStep.pauseStep {stage stage' : Worker}
    (h : WorkerStep cfg i c.shared stage input s' stage')
    (hp : c.proc i = some (.worker stage)) (hok : PausesAlone c (.step i input) = true) :
    PauseStep c s' (.worker stage) (.worker stage') := by
  cases h with
  | begin env hbegins =>
      cases hbegins <;> exact .quiet rfl rfl rfl rfl trivial (Proc.holds_none rfl)
  | refuse input => exact .quiet rfl rfl rfl rfl trivial (Proc.holds_none rfl)
  | @act job timed a plan last s' w h =>
      cases act_cases h with
      | ran ctx r | quiet a flag ha => exact .quiet rfl rfl rfl rfl trivial (Proc.holds_none rfl)
      | asked request hran =>
          -- a request is stored before its pause is saved
          have hopen : c.shared.hits (.written .paused) = false := by
            simpa [PausesAlone, hp, hran] using hok
          refine ⟨trivial, Proc.holds_none rfl, fun a ha => ?_, fun h => ?_, fun h => ?_⟩
          · rcases List.mem_append.mp ha with ha | ha
            · exact Or.inl ha
            · rw [List.mem_singleton.mp ha]
              exact Or.inr (Or.inl rfl)
          · exact absurd h (by simp [Lifecycle.hits] at hopen ⊢; exact hopen)
          · exact absurd h (by simp [Lifecycle.hits] at hopen ⊢; exact hopen)
      | saved r hran =>
          refine ⟨trivial, Proc.holds_none rfl, fun a ha => Or.inl ha, fun _ a ha _ => ha,
            fun h => Or.inr ?_⟩
          have hpaused : r.status = .paused := by
            simpa [Lifecycle.hits, ExecutionDocument.save] using h
          have hall : ∀ a ∈ openRequests c,
              AwaitsDecision r.approvalId c.shared.accepted a = true := by
            simpa [PausesAlone, hp, hran, hpaused] using hok
          exact hall
  | interrupt ha hr hstatus => exact .quiet rfl rfl rfl rfl trivial (Proc.holds_none rfl)
  | finish w => exact .quiet rfl rfl rfl rfl trivial (Proc.holds_none rfl)
  | settle w =>
      split <;> exact .quiet rfl rfl rfl rfl trivial (Proc.holds_none rfl)

theorem DecisionStage.pauseStep {approved : Bool} {stage stage' : DecisionStage}
    (h : stage.step approved w c.shared = some (s', stage'))
    (hp : c.proc i = some (.decision approved stage)) (hok : PausesAlone c (.step i (.act w)) = true) :
    PauseStep c s' (.decision approved stage) (.decision approved stage') := by
  cases stage with
  | read =>
      cases h
      exact .quiet rfl rfl rfl rfl trivial (Proc.holds_none rfl)
  | cas =>
      simp only [DecisionStage.step] at h
      split at h <;> cases h
      · split
        · exact .leaves rfl rfl trivial (Proc.holds_none rfl)
        · exact .quiet rfl rfl rfl rfl trivial (Proc.holds_none rfl)
      · exact .quiet rfl rfl rfl rfl trivial (Proc.holds_none rfl)
  | enqueue approvalId =>
      cases h
      split <;> exact .quiet rfl rfl rfl rfl trivial (Proc.holds_none rfl)
  | rollback approvalId =>
      cases h
      split
      next hran =>
        refine ⟨trivial, Proc.holds_none rfl, fun a ha => Or.inl ha, fun _ a ha _ => ha,
          fun _ => Or.inr ?_⟩
        have hall : ∀ a ∈ openRequests c, AwaitsDecision c.shared.doc.record.approvalId
            (c.shared.accepted.erase ⟨approved, approvalId⟩) a = true := by
          simpa [PausesAlone, hp, hran] using hok
        exact hall
      next => exact .quiet rfl rfl rfl rfl trivial (Proc.holds_none rfl)
  | done => cases h

theorem CancelStage.pauseStep {stage stage' : CancelStage}
    (h : stage.step cfg w c.shared = some (s', stage')) :
    PauseStep c s' (.cancel stage) (.cancel stage') := by
  cases stage with
  | read =>
      cases h
      exact .quiet rfl rfl rfl rfl trivial (Proc.holds_none rfl)
  | mark status | flag status | cleanup =>
      cases h
      split <;> exact .quiet rfl rfl rfl rfl trivial (Proc.holds_none rfl)
  | cas =>
      simp only [CancelStage.step] at h
      split at h <;> cases h
      · split
        · exact .leaves rfl rfl trivial (Proc.holds_none rfl)
        · exact .quiet rfl rfl rfl rfl trivial (Proc.holds_none rfl)
      · exact .quiet rfl rfl rfl rfl trivial (Proc.holds_none rfl)
  | done => cases h

theorem ReaperStage.pauseStep {stage stage' : ReaperStage}
    (h : stage.step cfg started w c.shared = some (s', stage'))
    (hreads : (Proc.reaper started stage).ReadsStuck) :
    PauseStep c s' (.reaper started stage) (.reaper started stage') := by
  cases stage with
  | read =>
      cases h
      split
      next hstuck =>
        exact .quiet rfl rfl rfl rfl (ExecutionDocument.stuck_not_paused hstuck.2)
          (Proc.holds_none rfl)
      next => exact .quiet rfl rfl rfl rfl trivial (Proc.holds_none rfl)
  | act snap =>
      simp only [ReaperStage.step] at h
      split at h
      next hhits =>
        cases h
        have hreads' : (Proc.reaper started
            (if w.ok = true ∧ snap.verdict cfg = .crashResume then .enqueue snap
              else .done)).ReadsStuck := by
          split
          · exact hreads
          · exact trivial
        split
        · -- whatever the verdict is, it is no pause
          refine .leaves ?_ rfl hreads' (Proc.holds_none rfl)
          cases snap.verdict cfg <;> rfl
        · exact .quiet rfl rfl rfl rfl hreads' (Proc.holds_none rfl)
      next =>
        cases h
        exact .quiet rfl rfl rfl rfl trivial (Proc.holds_none rfl)
  | enqueue snap =>
      cases h
      have hreads' : (Proc.reaper started (if w.ok then .done else .rollback snap)).ReadsStuck := by
        split
        · exact trivial
        · exact hreads
      split <;> exact .quiet rfl rfl rfl rfl hreads' (Proc.holds_none rfl)
  | rollback snap =>
      cases h
      split
      · refine .leaves ?_ rfl trivial (Proc.holds_none rfl)
        exact decide_eq_false hreads
      · exact .quiet rfl rfl rfl rfl trivial (Proc.holds_none rfl)
  | done => cases h

theorem SweepStage.pauseStep {stage stage' : SweepStage}
    (h : stage.step started w c.shared = some (s', stage')) :
    PauseStep c s' (.approvalSweep started stage) (.approvalSweep started stage') := by
  cases stage with
  | read =>
      cases h
      refine .quiet rfl rfl rfl rfl trivial fun a ha => Or.inr ?_
      split at ha
      · obtain ⟨ha, hopen⟩ := List.mem_filter.mp ha
        exact ⟨ha, (of_decide_eq_true hopen).1⟩
      · cases ha
  | mark pending =>
      cases pending with
      | nil =>
          cases h
          exact .quiet rfl rfl rfl rfl trivial (Proc.holds_none rfl)
      | cons a pending =>
          cases h
          have hheld : ∀ b ∈ (Proc.approvalSweep started
              (if w.ok then .fail a pending else .done)).held, b ∈ a :: pending := by
            split
            · exact fun b hb => hb
            · exact (Proc.holds_none rfl)
          split
          · -- the first request with the id is marked, and the pause stays
            refine ⟨trivial, fun b hb => Or.inl (hheld b hb), fun b hb => ?_, fun _ b hb hopen => ?_,
              fun h => Or.inl ⟨h, rfl, rfl⟩⟩
            · exact (mem_timeOutApproval hb).imp_right Or.inr
            · exact (mem_timeOutApproval hb).resolve_right (by simp [hopen])
          · exact .quiet rfl rfl rfl rfl trivial fun b hb => Or.inl (hheld b hb)
  | fail a pending =>
      cases h
      have hheld : ∀ b ∈ (Proc.approvalSweep started
          (if w.ok then .mark pending else .done)).held, b ∈ a :: pending := by
        split
        · exact fun b hb => List.mem_cons_of_mem _ hb
        · exact (Proc.holds_none rfl)
      split
      · exact .leaves rfl rfl trivial fun b hb => Or.inl (hheld b hb)
      · exact .quiet rfl rfl rfl rfl trivial fun b hb => Or.inl (hheld b hb)
  | done => cases h

theorem Proc.pauseStep (h : p.step cfg i input c.shared = some (s', p')) (hp : c.proc i = some p)
    (hok : PausesAlone c (.step i input) = true) (hreads : p.ReadsStuck) : PauseStep c s' p p' := by
  cases Proc.step_cases h with
  | worker hstep => exact hstep.pauseStep hp hok
  | decision w hstep => exact DecisionStage.pauseStep hstep hp hok
  | cancel w hstep => exact CancelStage.pauseStep hstep
  | reaper w hstep => exact ReaperStage.pauseStep hstep hreads
  | approvalSweep w hstep => exact SweepStage.pauseStep hstep

end

/-! ## Whole runs -/

/-- If the execution is paused, the request is that of the pause and undecided. -/
def Lifecycle.AloneWith (s : Lifecycle) (a : ApprovalDocument) : Prop :=
  s.hits (.written .paused) = true →
    AwaitsDecision s.doc.record.approvalId s.accepted a = true

/-- What holds of the stored requests: the unresolved ones are those of the pause. -/
structure RequestsAlone (s : Lifecycle) : Prop where
  unmarked : ∀ a ∈ s.approvals, a.resolution = none ∨ a.resolution = some .timedOut
  stored : ∀ a ∈ s.approvals, a.resolution = none → s.AloneWith a

/-- What holds of the requests in the hands of a sweep. -/
def Proc.HoldsAlone (s : Lifecycle) (_ : Nat) (p : Proc) : Prop :=
  p.ReadsStuck ∧ ∀ a ∈ p.held, s.AloneWith a

theorem Proc.Starting.holds {s : Lifecycle} {p : Proc} (h : p.Starting s) :
    p.ReadsStuck ∧ p.held = [] := by
  cases h <;> exact ⟨trivial, rfl⟩

section
variable {cfg : LifecycleConfig} {c : LifecycleRun}

/-- After a step the open requests are still those of the pause. -/
theorem PauseStep.alone {s' : Lifecycle} {p p' : Proc} {a : ApprovalDocument}
    (h : PauseStep c s' p p') (hc : System.Inv (fun _ s => RequestsAlone s) Proc.HoldsAlone c)
    (ha : s'.hits (.written .paused) = true → a ∈ openRequests c) : s'.AloneWith a := by
  intro hpaused
  -- an old pause: the request was open before; a new one: the condition tells
  rcases h.pause hpaused with ⟨hold, hid, haccepted⟩ | hall
  · rw [hid, haccepted]
    rcases mem_openRequests.mp (ha hpaused) with ⟨hstored, hopen⟩ | ⟨i, q, hq, hheld⟩
    · exact hc.1.stored a hstored hopen hold
    · exact (hc.2 i q hq).2 a hheld hold
  · exact hall a (ha hpaused)

theorem requestsAlone_invariant :
    (lifecycleSystem cfg).Invariant (fun c m => PausesAlone c m)
      (fun _ s => RequestsAlone s) Proc.HoldsAlone where
  spawn := by
    intro c x s' p hc _ h
    obtain ⟨rfl, hstarts⟩ := lifecycleSystem_spawn h
    obtain ⟨hreads, hheld⟩ := hstarts.holds
    exact ⟨hc.1, ⟨hreads, by simp [hheld]⟩, hc.2⟩
  step := by
    intro c i input p s' p' hc hok hp h
    have hstep := Proc.pauseStep h hp hok (hc.2 i p hp).1
    refine ⟨⟨fun a ha => ?_, fun a ha hopen => ?_⟩, ⟨hstep.reads, fun a ha => ?_⟩,
      fun j q _ hq => ⟨(hc.2 j q hq).1, fun a ha => ?_⟩⟩
    · rcases hstep.unmarked a ha with hold | hnew
      · exact hc.1.unmarked a hold
      · exact hnew
    · -- the requests that are stored, those of the process itself, and those of the others
      exact hstep.alone hc fun hpaused =>
        mem_openRequests.mpr (Or.inl ⟨hstep.inserted hpaused a ha hopen, hopen⟩)
    · refine hstep.alone hc fun _ => mem_openRequests.mpr ?_
      rcases hstep.held a ha with hold | hread
      · exact Or.inr ⟨i, p, hp, hold⟩
      · exact Or.inl hread
    · exact hstep.alone hc fun _ => mem_openRequests.mpr (Or.inr ⟨j, q, hq, ha⟩)
  env := by
    intro c e s' hc _ h
    cases e with
    | tick now =>
        simp only [lifecycleSystem, Outside.apply] at h
        split at h <;> cases h
        exact ⟨⟨hc.1.unmarked, hc.1.stored⟩, hc.2⟩
    | edit workflow | drop job =>
        cases h
        exact ⟨⟨hc.1.unmarked, hc.1.stored⟩, hc.2⟩

/-- A sweep that holds only the requests of the pause fails no other one. -/
theorem sweepsOwnPause_of_alone
    (hc : System.Inv (fun _ s => RequestsAlone s) Proc.HoldsAlone c) : SweepsOwnPause c := by
  intro i started a pending w s' stage' hp h hchanges
  cases h
  split at hchanges
  next hfails =>
    exact ⟨hfails.2.2, (hc.2 i _ hp).2 a List.mem_cons_self hfails.2.2⟩
  next => exact absurd rfl hchanges

/-- No request is ever marked by a decision. -/
theorem acceptedResolved_iff {s : Lifecycle} (h : RequestsAlone s) :
    AcceptedResolved s ↔
      ∀ d ∈ s.accepted, ∀ a ∈ s.approvals, d.approvalId ≠ some a.request.approvalId := by
  constructor
  · intro hresolved d hd a ha hid
    -- a mark can only be that of a timeout
    have hmark := hresolved d hd a ha hid
    rcases h.unmarked a ha with hnone | htimeout
    · simp [hmark] at hnone
    · rw [hmark] at htimeout
      unfold Resolution.ofDecision at htimeout
      split at htimeout <;> cases htimeout
  · intro hno d hd a ha hid
    exact absurd hid (hno d hd a ha)

/-- In a run in which an execution is never paused beside an open request of another pause, a
sweep fails only the pause its request belongs to; and the accepted decisions are marked on
their requests just when there are no such requests. -/
theorem LifecycleRun.sweeps_ownPause {c₀ : LifecycleRun} (hstart : c₀.procs = [])
    (hnone : c₀.shared.approvals = [])
    (hreach : (lifecycleSystem cfg).Reaches (fun c m => PausesAlone c m) c₀ c) :
    SweepsOwnPause c ∧ (AcceptedResolved c.shared ↔
      ∀ d ∈ c.shared.accepted, ∀ a ∈ c.shared.approvals,
        d.approvalId ≠ some a.request.approvalId) := by
  have hc₀ : System.Inv (fun _ s => RequestsAlone s) Proc.HoldsAlone c₀ :=
    .of_start hstart ⟨by simp [hnone], by simp [hnone]⟩
  have hc := System.Reaches.inv requestsAlone_invariant hc₀ hreach
  exact ⟨sweepsOwnPause_of_alone hc, acceptedResolved_iff hc.1⟩

end

/-! ## A request that outlives its decision -/

/-- The flow pauses and nobody decides; a day later a sweep has marked the request. -/
def undecidedRun : List LifecycleMove :=
  deliverMoves (.calm approvalResults) 0 0 8 ++ [.env (.tick 90000)] ++ callMoves .sweepApprovals 1 2

/-- A sweep has marked a request and is about to fail an execution that is paused. -/
def aboutToFail (c : LifecycleRun) : Bool :=
  c.procs.any fun
    | some (.approvalSweep _ (.fail a _)) =>
        a.request.executionId = c.shared.doc.record.executionId && c.shared.hits (.written .paused)
    | _ => false

theorem undecidedRun_sweeps_ownPause : ∃ c,
    (lifecycleSystem {}).Reaches (fun c m => PausesAlone c m) ⟨submitted approvalFlow, []⟩ c ∧
    aboutToFail c = true ∧ SweepsOwnPause c ∧ AcceptedResolved c.shared := by
  obtain ⟨c, hreach, hc⟩ := System.exists_reaches_of_play (lifecycleSystem {})
    (fun c m => PausesAlone c m) undecidedRun ⟨submitted approvalFlow, []⟩
    (fun c => aboutToFail c && c.shared.accepted.isEmpty) (by decide +kernel)
  obtain ⟨hfails, hempty⟩ := (Bool.and_eq_true _ _).mp hc
  obtain ⟨hown, hresolved⟩ := LifecycleRun.sweeps_ownPause rfl rfl hreach
  refine ⟨c, hreach, hfails, hown, hresolved.mpr ?_⟩
  simp [List.isEmpty_iff.mp hempty]

/-- The request of the first pause is approved, the resumed segment pauses again and asks
nobody, and a day later a sweep has marked the request. -/
def twoPausesRun : List LifecycleMove :=
  deliverMoves (.calm twoApprovalsResults) 0 0 8 ++ callMoves (.decide true) 1 3 ++
    deliverMoves (.calm twoApprovalsResults) 1 2 7 ++ [.env (.tick 90000)] ++
    callMoves .sweepApprovals 3 2

theorem twoPausesRun_fails_other : ¬ ∀ (cfg : LifecycleConfig) (c₀ c : LifecycleRun),
    c₀.procs = [] → c₀.shared.approvals = [] →
    (lifecycleSystem cfg).Reaches (fun _ _ => True) c₀ c →
    SweepsOwnPause c ∧ AcceptedResolved c.shared := by
  intro hclaim
  obtain ⟨c, hreach, hc⟩ := System.exists_reaches_of_play (lifecycleSystem {})
    (fun _ _ => True) twoPausesRun ⟨submitted twoApprovalsFlow, []⟩
    (fun c => c.shared.doc.record.approvalId = none && aboutToFail c) (by decide +kernel)
  obtain ⟨hnone, hfails⟩ := (Bool.and_eq_true _ _).mp hc
  obtain ⟨o, ho, hfail⟩ := List.any_eq_true.mp hfails
  split at hfail
  next started a pending =>
    obtain ⟨i, hi⟩ := List.mem_iff_getElem?.mp ho
    obtain ⟨hid, hpaused⟩ := (Bool.and_eq_true _ _).mp hfail
    obtain ⟨-, hown⟩ := (hclaim {} _ c rfl rfl hreach).1 i started a pending .done _ _
      (Configuration.proc_eq_some.mpr hi) rfl (by
        simp [Write.ran, of_decide_eq_true hid, hpaused, ExecutionDocument.finalize,
          of_decide_eq_true hpaused])
    simp [AwaitsDecision, of_decide_eq_true hnone] at hown
  next => cases hfail

end CitraFlows
