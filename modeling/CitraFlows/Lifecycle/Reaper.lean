-- SUMMARY: What the stuck-execution reaper acts on: an abandoned execution, where jobs are picked up within the grace and attempts end within the execution timeout.
import CitraFlows.Lifecycle.Delays

/-!
# The reaper

The sweep takes an execution for abandoned when its `started_at`, or its `resumed_at` while it
is resuming, is older than the execution timeout and a grace. A job may wait in the queue, and
a resumed segment may run, for longer than that. In a run that keeps its delays what is left of
the execution is never older than the stamp the sweep goes by (`ReaperInv`), so the sweep meets
neither a worker nor a job.
-/

namespace CitraFlows

open Processes

/-! ## The records of a worker -/

section
variable {job : Nat} {timed : Bool} {a : WorkerAction} {plan : List WorkerAction}
  {last : Option WorkflowExecution} {r : WorkflowExecution}

theorem mem_records_act
    (hr : r ∈ (Proc.worker (.executing job timed plan (a.saved.or last))).records) :
    r ∈ (Proc.worker (.executing job timed (a :: plan) last)).records := by
  simp only [Proc.records, List.mem_append, Option.mem_toList, List.filterMap_cons] at hr ⊢
  cases hsaved : a.saved with
  | none => simpa [hsaved] using hr
  | some e =>
      simp only [hsaved, Option.some_or, Option.some.injEq] at hr
      simp only [List.mem_cons]
      tauto

theorem mem_records_interrupted (hr : Worker.interrupted plan last = some r) :
    r ∈ (Proc.worker (.executing job timed plan last)).records := by
  simp only [Proc.records, List.mem_append, Option.mem_toList]
  rcases Option.or_eq_some_iff.mp hr with hfound | ⟨-, hlast⟩
  · obtain ⟨a, ha, hsaved⟩ := List.exists_of_findSome?_eq_some hfound
    exact Or.inl (List.mem_filterMap.mpr ⟨a, ha, hsaved⟩)
  · exact Or.inr hlast

theorem mem_records_workerPlan {t : List Event}
    (hr : r ∈ (Proc.worker (.executing job timed (workerPlan t) none)).records) : .save r ∈ t := by
  simp only [Proc.records, Option.toList_none, List.append_nil, List.mem_filterMap] at hr
  obtain ⟨a, ha, hsaved⟩ := hr
  exact mem_workerPlan_saved ha hsaved

/-- What a call saves was begun at the moment, or with the stored record. -/
theorem Begins.records {s s' : Lifecycle} {call : CallResult} {submitted : Nat}
    (h : Begins s job timed call s') (hnow : submitted ≤ s.now)
    (hdoc : submitted ≤ s.doc.record.startedAt) (hr : .save r ∈ call.trace) :
    submitted ≤ r.startedAt ∧ r.status ≠ .resuming := by
  cases h with
  | run env hjob hpayload =>
      obtain ⟨hstarted, hstatus⟩ := execute_begunAt hr
      exact ⟨hnow.trans_eq hstarted.symm, hstatus⟩
  | @resume approved j e c env hjob hpayload hload hc =>
      obtain ⟨hstarted, hstatus⟩ := resume_begunAt hc hr
      have hloaded : e.startedAt = s.doc.record.startedAt := by
        unfold ExecutionDocument.load at hload
        split at hload <;> cases hload
        rfl
      exact ⟨by rw [hstarted, hloaded]; exact hdoc, hstatus⟩

end

section
variable {cfg : LifecycleConfig} {submitted b i j : Nat} {c : ClockedRun} {p q : ClockedProc}
  {s' : Lifecycle} {q' : Proc} {input : Input}

/-! ## A process by its clock -/

/-- A worker follows its clock after a step. -/
theorem ClockedProc.Follows.works {stage' : Worker} (hjobs : JobsMoved c.shared.state s')
    (hjob : ∀ job, (Proc.worker stage').job = some job → job < c.shared.state.jobs.length)
    (hreceived : ∀ job, stage' ≠ .received job)
    (hattends : ∀ job, (Proc.worker stage').attends = some job →
      (p.move c.shared.state.now (.worker stage')).began ≤
        c.shared.asked job + cfg.stuckExecutionGraceSeconds)
    (hrecords : ∀ r ∈ (Proc.worker stage').records,
      submitted ≤ r.startedAt ∧ r.status ≠ .resuming) :
    (p.move c.shared.state.now (.worker stage')).Follows cfg submitted (c.shared.move p s') where
  job job h := (hjob job h).trans_le hjobs.length_le
  received job h := by
    cases h
    exact absurd rfl (hreceived job)
  attends job h := by
    rw [Clocked.move_asked (hjob job (job_of_attends h))]
    exact hattends job h
  records := hrecords
  sweep started stage h := by cases h
  sweeping h := by cases h

theorem WorkerStep.follows {stage stage' : Worker}
    (h : WorkerStep cfg i c.shared.state stage input s' stage') (hc : ReaperInv cfg submitted c)
    (hp : c.proc i = some p) (hproc : p.proc = .worker stage) :
    (p.move c.shared.state.now (.worker stage')).Follows cfg submitted (c.shared.move p s') := by
  have hjobs := h.effect.moves.2
  have hold := hc.follows i p hp
  obtain ⟨proc, began⟩ := p
  cases hproc
  cases h with
  | begin env hbegins =>
      refine .works hjobs hold.job (by simp) (fun job hjob => ?_) fun r hr => ?_
      · cases hjob
        exact hold.received _ rfl
      · exact hbegins.records hc.begun hc.stamped.started (mem_records_workerPlan hr)
  | refuse input =>
      exact .works hjobs (by simp [Proc.job]) (by simp) (by simp [Proc.attends])
        (by simp [Proc.records])
  | act w hact =>
      refine .works hjobs hold.job (by simp) hold.attends fun r hr => ?_
      exact hold.records r (mem_records_act hr)
  | interrupt ha hr hstatus =>
      refine .works hjobs hold.job (by simp) hold.attends fun r' hr' => ?_
      rcases List.mem_append.mp hr' with hsaved | hlast
      · obtain ⟨a', ha', hsaved⟩ := List.mem_filterMap.mp hsaved
        rcases List.mem_cons.mp ha' with rfl | ha'
        · cases hsaved
          exact ⟨(hold.records _ (mem_records_interrupted hr)).1, by simp⟩
        · cases List.mem_singleton.mp ha'
          cases hsaved
      · exact hold.records r' (List.mem_append_right _ hlast)
  | finish w => exact .works hjobs hold.job (by simp) hold.attends (by simp [Proc.records])
  | settle w =>
      exact .works hjobs (by simp [Proc.job]) (by simp) (by simp [Proc.attends])
        (by simp [Proc.records])

/-- Every process follows its clock after a step of it. -/
theorem ProcStep.follows (h : ProcStep cfg i c.shared.state p.proc input s' q')
    (hc : ReaperInv cfg submitted c) (hp : c.proc i = some p) :
    (p.move c.shared.state.now q').Follows cfg submitted (c.shared.move p s') := by
  have hmoves := h.moves
  have hold := hc.follows i p hp
  obtain ⟨proc, began⟩ := p
  cases h with
  | worker hstep => exact hstep.follows hc hp rfl
  | decision w hstep | cancel w hstep | approvalSweep w hstep =>
      exact .free rfl rfl (by simp [ClockedProc.move])
  | @reaper started stage stage' s' w hstep =>
      have hbegan := hold.sweep started stage rfl
      exact
        { job := by simp [ClockedProc.move, Proc.job]
          received := by simp [ClockedProc.move]
          attends := by simp [ClockedProc.move, Proc.attends]
          records := by simp [ClockedProc.move, Proc.records]
          sweep := fun _ _ heq => by
            cases heq
            exact ⟨hbegan.1, hbegan.2.1, hbegan.2.2.trans_eq hmoves.1.symm⟩
          sweeping := fun _ => (Nat.le_of_eq hmoves.1).trans
            (hold.sweeping (ReaperStage.step_sweeping hstep)) }

/-! ## A step of anything but the reaper -/

theorem Left.of_job {job : Nat} (hp : c.proc i = some p) (hjob : p.proc.job = some job) :
    Left c (c.shared.asked job) :=
  Or.inr ⟨i, p, hp, Or.inl ⟨job, hjob, rfl⟩⟩

theorem Left.of_deciding (hp : c.proc i = some p) (h : p.proc.deciding = true) : Left c p.began :=
  Or.inr ⟨i, p, hp, Or.inr ⟨h, rfl⟩⟩

/-- After a job was enqueued, what is new was asked for when the process began. -/
theorem Left.enqueued {payload : Payload}
    (h : Left (ClockedRun.after c i p (c.shared.state.enqueue payload) q') b)
    (hc : ∀ j p, c.proc j = some p → p.Follows cfg submitted c.shared) (hjob : q'.job = none)
    (hdeciding : q'.deciding = true → p.proc.begins = false) : Left c b ∨ b = p.began := by
  rcases h.after hc with ⟨job, j, hj, hopen, rfl⟩ | hhas | hleft
  · by_cases hlt : job < c.shared.state.jobs.length
    · rw [Clocked.move_asked hlt]
      refine Or.inl (Or.inl ⟨job, j, ?_, hopen, rfl⟩)
      rwa [Lifecycle.enqueue, List.getElem?_append_left hlt] at hj
    · obtain ⟨hlength, -⟩ := List.getElem?_eq_some_iff.mp hj
      obtain rfl : job = c.shared.state.jobs.length := by
        simp only [Lifecycle.enqueue, List.length_append, List.length_singleton] at hlength
        omega
      right
      simp [Clocked.move, Lifecycle.enqueue]
  · rcases hhas with ⟨job, hq, -⟩ | ⟨hq, rfl⟩
    · simp [ClockedProc.move, hjob] at hq
    · right
      simp [ClockedProc.move, hdeciding hq]
  · exact Or.inl hleft

/-- After a decision was accepted, what is new was asked for at that moment. -/
theorem Left.accepted {doc : ExecutionDocument} {accepted : List AcceptedDecision}
    (h : Left (ClockedRun.after c i p { c.shared.state with doc, accepted } q') b)
    (hc : ∀ j p, c.proc j = some p → p.Follows cfg submitted c.shared) (hjob : q'.job = none)
    (hbegins : p.proc.begins = true) : Left c b ∨ b = c.shared.state.now := by
  rcases h.after hc with ⟨k, j, hj, hopen, rfl⟩ | hhas | hleft
  · exact Or.inl (JobsKept.left (.of_eq rfl) hj hopen)
  · rcases hhas with ⟨k, hk, -⟩ | ⟨-, rfl⟩
    · simp [ClockedProc.move, hjob] at hk
    · right
      simp [ClockedProc.move, hbegins]
  · exact Or.inl hleft

/-- While nobody resumes the execution, what is left was asked for with the submission. -/
theorem ReaperInv.left_le (hc : ReaperInv cfg submitted c) (hresuming : resuming c = false)
    (hb : Left c b) : b ≤ submitted := by
  simp only [resuming, Bool.or_eq_false_iff, List.any_eq_false] at hresuming
  obtain ⟨hjobs, hprocs⟩ := hresuming
  rcases hb with ⟨job, j, hj, hopen, rfl⟩ | ⟨k, q, hq, hhas⟩
  · refine hc.runs job j hj ?_
    have := hjobs j (List.mem_of_getElem? hj)
    simpa [hopen] using this
  · have hnone := hprocs (some q) (List.mem_of_getElem? (Configuration.proc_eq_some.mp hq))
    simp only [Option.any_some, Bool.or_eq_true, not_or, Bool.not_eq_true] at hnone
    rcases hhas with ⟨job, hjob, rfl⟩ | ⟨hdeciding, -⟩
    · have hlt := (hc.follows k q hq).job job hjob
      refine hc.runs job _ (List.getElem?_eq_getElem hlt) ?_
      simpa [hjob, List.getElem?_eq_getElem hlt] using hnone.2
    · simp [hdeciding] at hnone

theorem StepEffect.stamped (h : StepEffect c.shared.state p.proc input s' q')
    (hc : ReaperInv cfg submitted c) (hp : c.proc i = some p)
    (hok : InTime cfg c (.step i input) = true) :
    Stamped cfg submitted s' (Left (ClockedRun.after c i p s' q')) := by
  have hfollows := hc.follows i p hp
  obtain ⟨proc, began⟩ := p
  cases h with
  | idle stamps jobs job deciding =>
      exact (hc.stamped.same stamps).mono fun b hb => hb.kept hc.follows hp jobs job deciding
  | @save job timed r plan last last' w ran =>
      have hleft : ∀ b, Left (ClockedRun.after c i ⟨_, began⟩
          { c.shared.state with doc := c.shared.state.doc.save r }
          (.worker (.executing job timed plan last'))) b → Left c b := fun b hb =>
        hb.kept hc.follows hp (.of_eq rfl) (Or.inr rfl) (fun h => by cases h)
      obtain ⟨hstarted, hresuming⟩ :=
        hfollows.records r (by simp [Proc.records, WorkerAction.saved])
      have hchecked : r.status = .running → resuming c = false := fun hrunning => by
        simpa [InTime, hp, hrunning, ran] using hok
      exact
        { started := hstarted
          past := fun b hb => hc.stamped.past b (hleft b hb)
          due := fun b hb => hc.stamped.due b (hleft b hb)
          running := fun hstatus b hb => by
            have hrunning : r.status = .running := by
              rcases hstatus with hstatus | hstatus
              · cases hstatus
              · simpa [ExecutionDocument.save] using hstatus
            exact (hc.left_le (hchecked hrunning) (hleft b hb)).trans hstarted
          resuming := fun hstatus => by
            refine absurd ?_ hresuming
            simpa [ExecutionDocument.save] using hstatus }
  | close closed startedAt paused job deciding =>
      refine .mono (.closed hc.stamped rfl closed (startedAt ▸ hc.stamped.started)) fun b hb => ?_
      exact hb.kept hc.follows hp (.of_eq rfl) (Or.inl job) (by simp [deciding])
  | accept paused resuming resumedAt startedAt job =>
      exact
        { started := startedAt ▸ hc.stamped.started
          past := fun b hb =>
            (hb.accepted hc.follows job rfl).elim (hc.stamped.past b) Nat.le_of_eq
          due := fun b hb => by
            rcases hb.accepted hc.follows job rfl with hold | rfl
            · exact hc.stamped.due b hold
            · exact Nat.le_add_right _ _
          running := fun hstatus => by simp [resuming] at hstatus
          resuming := fun _ b hb => ⟨_, resumedAt,
            (hb.accepted hc.follows job rfl).elim (hc.stamped.past b) Nat.le_of_eq⟩ }
  | @ask q q' input approved deciding job =>
      have hsame : SameStamps c.shared.state (c.shared.state.enqueue (.resume approved)) :=
        ⟨rfl, rfl, rfl, rfl⟩
      refine (hc.stamped.same hsame).mono fun b hb => ?_
      rcases hb.enqueued hc.follows job (fun _ => begins_of_deciding deciding) with hleft | rfl
      · exact hleft
      · exact .of_deciding hp deciding

/-- While a sweep acts on the execution, no other process does anything to it. -/
theorem StepEffect.quiet (h : StepEffect c.shared.state p.proc input s' q')
    (hc : ReaperInv cfg submitted c) (hp : c.proc i = some p) (hq : Quiet c q) :
    Quiet (ClockedRun.after c i p s' q') q := by
  obtain ⟨proc, began⟩ := p
  cases h with
  | idle stamps jobs job deciding =>
      refine ⟨fun b hb => hq.left b (hb.kept hc.follows hp jobs job deciding), ?_, fun hstage => ?_⟩
      · exact (congrArg _ stamps.status).trans hq.reapable
      · obtain ⟨hstatus, hresumed⟩ := hq.resumed hstage
        exact ⟨stamps.status.trans hstatus, stamps.resumedAt.trans hresumed⟩
  | save => exact absurd (.of_job hp rfl) (hq.left _)
  | close closed startedAt paused =>
      rcases paused with hpaused | hdeciding
      · simp [hq.reapable] at hpaused
      · exact absurd (.of_deciding hp hdeciding) (hq.left _)
  | accept paused => simp [hq.reapable] at paused
  | ask deciding => exact absurd (.of_deciding hp deciding) (hq.left _)

end

/-! ## A step of the reaper -/

theorem ExecutionDocument.stuck_mono {cfg : LifecycleConfig} {d : ExecutionDocument}
    {now now' : Nat} (hle : now ≤ now') (h : d.stuck cfg now = true) : d.stuck cfg now' = true := by
  unfold ExecutionDocument.stuck at h ⊢
  split at h
  · simp only [decide_eq_true_eq] at h ⊢
    omega
  · simp only [decide_eq_true_eq] at h ⊢
    omega
  · obtain ⟨resumedAt, hresumed, hpast⟩ := (Option.any_eq_true _ _).mp h
    refine (Option.any_eq_true _ _).mpr ⟨resumedAt, hresumed, ?_⟩
    simp only [decide_eq_true_eq] at hpast ⊢
    omega
  · cases h

theorem ExecutionDocument.stuck_reapable {cfg : LifecycleConfig} {d : ExecutionDocument} {now : Nat}
    (h : d.stuck cfg now = true) : d.status.reapable = true := by
  unfold ExecutionDocument.stuck at h
  split at h
  · simp [*, StoredStatus.reapable]
  · simp [*, StoredStatus.reapable]
  · simp [*, StoredStatus.reapable]
  · cases h

@[simp] theorem ExecutionDocument.reap_startedAt (now : Nat) (d : ExecutionDocument)
    (v : ReaperVerdict) : (d.reap now v).record.startedAt = d.record.startedAt := by
  cases v <;> rfl

section
variable {cfg : LifecycleConfig} {submitted started i : Nat} {c : ClockedRun} {p : ClockedProc}
  {s' : Lifecycle} {w : Write} {stage stage' : ReaperStage}

/-- The reaper keeps the clocks, and goes on only with an execution of which nothing is left. -/
theorem ReaperStage.keeps (h : stage.step cfg started w c.shared.state = some (s', stage'))
    (hc : ReaperInv cfg submitted c) (hp : c.proc i = some p)
    (hproc : p.proc = .reaper started stage)
    (hok : InTime cfg c (.step i (.act w)) = true) :
    Stamped cfg submitted s' (Left (ClockedRun.after c i p s' (.reaper started stage'))) ∧
      ((Proc.reaper started stage').reaping = true →
        Quiet (ClockedRun.after c i p s' (.reaper started stage'))
          (p.move c.shared.state.now (.reaper started stage'))) := by
  have hleft : JobsKept c.shared.state s' → ∀ b,
      Left (ClockedRun.after c i p s' (.reaper started stage')) b → Left c b := fun hjobs b hb =>
    hb.kept hc.follows hp hjobs (Or.inl rfl) (fun hdeciding => by cases hdeciding)
  have hfollows := hc.follows i p hp
  obtain ⟨proc, began⟩ := p
  cases hproc
  obtain ⟨hbegan, hsubmitted, hstarted⟩ := hfollows.sweep started stage rfl
  obtain rfl : started = began := hbegan.symm
  cases stage with
  | read =>
      cases h
      refine ⟨hc.stamped.mono (hleft (.of_eq rfl)), fun hreaping => ?_⟩
      split at hreaping
      next hstuck =>
        have hnone := hc.stamped.nothing_left (ExecutionDocument.stuck_mono hstarted hstuck.2)
        refine ⟨fun b hb => hnone b (hleft (.of_eq rfl) b hb),
          ExecutionDocument.stuck_reapable hstuck.2, fun hstage => ?_⟩
        refine absurd ?_ (hstage started c.shared.state.doc.snapshot)
        simp [ClockedProc.move, hstuck]
      next => cases hreaping
  | act snap =>
      have hnone := (hc.quiet i _ hp rfl).left
      simp only [ReaperStage.step] at h
      split at h
      next =>
        cases h
        cases hran : w.ran with
        | false =>
            -- a write that was not made has failed, so no enqueue follows
            have hfailed : w.ok = false := by cases w <;> simp_all [Write.ran, Write.ok]
            simp only [hran, hfailed, Bool.false_eq_true, if_false, false_and] at hleft ⊢
            exact ⟨hc.stamped.mono (hleft (.of_eq rfl)), fun hreaping => by cases hreaping⟩
        | true =>
            simp only [hran, if_true] at hleft ⊢
            have hnone' := fun b hb => hnone b (hleft (.of_eq rfl) b hb)
            refine ⟨.of_nothing ?_ hnone', fun hreaping => ?_⟩
            · exact hc.stamped.started.trans_eq (ExecutionDocument.reap_startedAt _ _ _).symm
            · split at hreaping
              next hcrash =>
                refine ⟨hnone', ?_, fun _ => ?_⟩
                · simp only [ClockedRun.after, Clocked.move, hcrash.2]
                  rfl
                · simp only [ClockedRun.after, Clocked.move, hcrash.2]
                  exact ⟨rfl, rfl⟩
              next => cases hreaping
      next =>
        cases h
        exact ⟨hc.stamped.mono (hleft (.of_eq rfl)), fun hreaping => by cases hreaping⟩
  | enqueue snap =>
      have hquiet := hc.quiet i _ hp rfl
      obtain ⟨hstatus, hresumed⟩ := hquiet.resumed (by simp)
      have hasked : w.ran = true → w.ok = true := fun hran => by simpa [InTime, hp, hran] using hok
      cases h
      cases hran : w.ran with
      | false =>
          simp only [hran, Bool.false_eq_true, if_false] at hleft ⊢
          refine ⟨hc.stamped.mono (hleft (.of_eq rfl)), fun _ => ?_⟩
          exact ⟨fun b hb => hquiet.left b (hleft (.of_eq rfl) b hb), hquiet.reapable,
            fun _ => ⟨hstatus, hresumed⟩⟩
      | true =>
          simp only [hasked hran, if_true]
          refine ⟨?_, fun hreaping => by cases hreaping⟩
          have hbase : ∀ b, Left (ClockedRun.after c i ⟨.reaper started (.enqueue snap), started⟩
              (c.shared.state.enqueue (.resume true)) (.reaper started .done)) b → b = started :=
            fun b hb => (hb.enqueued hc.follows rfl (fun _ => rfl)).resolve_left (hquiet.left b)
          exact
            { started := hc.stamped.started
              past := fun b hb => by
                rw [hbase b hb]
                exact hstarted
              due := fun b hb => by
                rw [hbase b hb]
                have := hfollows.sweeping rfl
                simp only [LifecycleConfig.cutoff]
                exact this.trans (by omega)
              running := fun hrunning => by
                rcases hrunning with hrunning | hrunning <;> cases hrunning.symm.trans hstatus
              resuming := fun _ b hb => ⟨started, hresumed, Nat.le_of_eq (hbase b hb)⟩ }
  | rollback snap =>
      have hnone := (hc.quiet i _ hp rfl).left
      cases h
      refine ⟨?_, fun hreaping => by cases hreaping⟩
      cases hran : w.ran with
      | false =>
          simp only [hran, Bool.false_eq_true, if_false] at hleft ⊢
          exact hc.stamped.mono (hleft (.of_eq rfl))
      | true =>
          simp only [hran, if_true] at hleft ⊢
          exact .of_nothing hc.stamped.started fun b hb => hnone b (hleft (.of_eq rfl) b hb)
  | done => cases h

end

/-! ## Whole runs -/

section
variable {cfg : LifecycleConfig} {submitted i : Nat} {c : ClockedRun} {p : ClockedProc}
  {s' : Lifecycle} {q' : Proc} {input : Input}

/-- A job to run the execution keeps its clock, and one that was added is to resume it. -/
theorem JobsMoved.runs (hjobs : JobsMoved c.shared.state s') (hc : ReaperInv cfg submitted c)
    {job : Nat} {j' : QueuedJob} (hj' : s'.jobs[job]? = some j') (hrun : j'.resumes = false) :
    (c.shared.move p s').asked job ≤ submitted := by
  rcases hjobs with hkept | ⟨approved, happend⟩
  · obtain ⟨j, hj, -, hresumes⟩ := hkept.kept job j' hj'
    rw [Clocked.move_of_length hkept.length]
    exact hc.runs job j hj (hresumes ▸ hrun)
  · rw [happend] at hj'
    by_cases hlt : job < c.shared.state.jobs.length
    · rw [List.getElem?_append_left hlt] at hj'
      rw [Clocked.move_asked hlt]
      exact hc.runs job j' hj' hrun
    · rw [List.getElem?_append_right (by omega)] at hj'
      obtain ⟨hlength, rfl⟩ := List.getElem?_eq_some_iff.mp hj'
      simp only [List.length_singleton] at hlength
      simp [QueuedJob.resumes, show job - c.shared.state.jobs.length = 0 by omega] at hrun

theorem ReaperInv.stepped (hc : ReaperInv cfg submitted c) (hp : c.proc i = some p)
    (hok : InTime cfg c (.step i input) = true)
    (h : p.proc.step cfg i input c.shared.state = some (s', q')) :
    ReaperInv cfg submitted (ClockedRun.after c i p s' q') := by
  have hstep := Proc.step_cases h
  obtain ⟨hnow, hjobs⟩ := hstep.moves
  have hothers : ∀ j q, j ≠ i → c.proc j = some q → p.proc.sweeping = true →
      q.proc.sweeping = false := fun j q hne hq hsweeping =>
    Bool.eq_false_iff.mpr fun hq' => hne (hc.alone j i q p hq hp hq' hsweeping)
  have hfollows : ∀ j q, (ClockedRun.after c i p s' q').proc j = some q →
      q.Follows cfg submitted (c.shared.move p s') := by
    intro j q hq
    rcases Configuration.proc_set (g := c.shared) hq with ⟨rfl, heq⟩ | ⟨-, hold⟩
    · cases heq
      exact hstep.follows hc hp
    · exact (hc.follows j q hold).other hnow hjobs
  rcases hstep.effect with
    ⟨heffect, hsweeping⟩ | ⟨started, w, stage, stage', hproc, rfl, rfl, hreaper⟩
  · exact
      { begun := hc.begun.trans_eq hnow.symm
        runs := fun job j' => hjobs.runs hc
        stamped := heffect.stamped hc hp hok
        follows := hfollows
        alone := Configuration.AtMostOne.set hc.alone fun q heq hq => by
          cases heq
          simp [ClockedProc.move, hsweeping] at hq
        quiet := fun j q hq hreaping => by
          rcases Configuration.proc_set (g := c.shared) hq with ⟨rfl, heq⟩ | ⟨-, hold⟩
          · cases heq
            have hsweeps : q'.sweeping = true := sweeping_of_reaping hreaping
            simp [hsweeping] at hsweeps
          · exact heffect.quiet hc hp (hc.quiet j q hold hreaping) }
  · have hsweeping : p.proc.sweeping = true := hproc ▸ ReaperStage.step_sweeping hreaper
    obtain ⟨hstamped, hquiet⟩ := ReaperStage.keeps hreaper hc hp hproc hok
    exact
      { begun := hc.begun.trans_eq hnow.symm
        runs := fun job j' => hjobs.runs hc
        stamped := hstamped
        follows := hfollows
        alone := Configuration.AtMostOne.set hc.alone fun _ _ _ j q hne hq =>
          hothers j q hne hq hsweeping
        quiet := fun j q hq hreaping => by
          rcases Configuration.proc_set (g := c.shared) hq with ⟨rfl, heq⟩ | ⟨hne, hold⟩
          · cases heq
            exact hquiet hreaping
          · have hsweeps := sweeping_of_reaping hreaping
            simp [hothers j q hne hold hsweeping] at hsweeps }

/-- A process that starts. -/
structure Starts (cfg : LifecycleConfig) (submitted : Nat) (c : ClockedRun) (q : Proc) : Prop where
  reaping : q.reaping = false
  deciding : q.deciding = false
  job : ∀ job, q.job = some job → Left c (c.shared.asked job)
  follows : ClockedProc.Follows cfg submitted c.shared ⟨q, c.shared.state.now⟩
  alone : q.sweeping = true → ∀ j p, c.proc j = some p → p.proc.sweeping = false

theorem ReaperInv.starts {x : Spawn} {q : Proc} (hc : ReaperInv cfg submitted c)
    (hok : InTime cfg c (.spawn x) = true) (h : x.proc c.shared.state = some q) :
    Starts cfg submitted c q := by
  cases x with
  | deliver job =>
      simp only [Spawn.proc] at h
      split at h <;> cases h
      next j hj =>
        refine ⟨rfl, rfl, ?_, ?_, fun hsweeping => by cases hsweeping⟩
        · rintro _ ⟨⟩
          exact Or.inl ⟨job, _, hj, rfl, rfl⟩
        · obtain ⟨hlt, -⟩ := List.getElem?_eq_some_iff.mp hj
          exact
            { job := by
                rintro _ ⟨⟩
                exact hlt
              received := by
                rintro _ ⟨⟩
                simpa [InTime] using hok
              attends := by simp [Proc.attends]
              records := by simp [Proc.records]
              sweep := by simp
              sweeping := by simp [Proc.sweeping] }
  | reap =>
      cases h
      refine ⟨rfl, rfl, by simp [Proc.job], ?_, fun _ j q hq => ?_⟩
      · exact
          { job := by simp [Proc.job]
            received := by simp
            attends := by simp [Proc.attends]
            records := by simp [Proc.records]
            sweep := by
              rintro _ _ ⟨⟩
              exact ⟨rfl, hc.begun, Nat.le_refl _⟩
            sweeping := fun _ => Nat.le_add_right _ _ }
      · have hnone := List.all_eq_true.mp hok (some q)
          (List.mem_of_getElem? (Configuration.proc_eq_some.mp hq))
        simpa using hnone
  | decide approved | cancel | sweepApprovals =>
      cases h
      exact ⟨rfl, rfl, by simp [Proc.job], .free rfl rfl (by simp),
        fun hsweeping => by cases hsweeping⟩

/-- A process has started. -/
theorem ReaperInv.spawned {q : Proc} (hc : ReaperInv cfg submitted c)
    (h : Starts cfg submitted c q) :
    ReaperInv cfg submitted ⟨c.shared, c.procs ++ [some ⟨q, c.shared.state.now⟩]⟩ := by
  have hleft : ∀ b, Left ⟨c.shared, c.procs ++ [some ⟨q, c.shared.state.now⟩]⟩ b → Left c b := by
    rintro b (hopen | ⟨j, q, hq, hhas⟩)
    · exact Or.inl hopen
    · rcases Configuration.proc_append (g := c.shared) hq with ⟨-, rfl⟩ | hold
      · rcases hhas with ⟨job, hq, rfl⟩ | ⟨hq, -⟩
        · exact h.job job hq
        · simp [h.deciding] at hq
      · exact Or.inr ⟨j, q, hold, hhas⟩
  exact
    { begun := hc.begun
      runs := hc.runs
      stamped := hc.stamped.mono hleft
      follows := fun j q hq => by
        rcases Configuration.proc_append (g := c.shared) hq with ⟨-, rfl⟩ | hold
        · exact h.follows
        · exact hc.follows j q hold
      alone := Configuration.AtMostOne.append hc.alone h.alone
      quiet := fun j q hq hq' => by
        rcases Configuration.proc_append (g := c.shared) hq with ⟨-, rfl⟩ | hold
        · simp [h.reaping] at hq'
        · have hquiet := hc.quiet j q hold hq'
          exact ⟨fun b hb => hquiet.left b (hleft b hb), hquiet.reapable, hquiet.resumed⟩ }

/-- A process was lost. -/
theorem ReaperInv.crashed (hc : ReaperInv cfg submitted c) (i : Nat) :
    ReaperInv cfg submitted { c with procs := c.procs.set i none } := by
  have hold : ∀ j q, (⟨c.shared, c.procs.set i none⟩ : ClockedRun).proc j = some q →
      c.proc j = some q := by
    intro j q hq
    rcases Configuration.proc_set (g := c.shared) hq with ⟨-, heq⟩ | ⟨-, hold⟩
    · cases heq
    · exact hold
  have hleft : ∀ b, Left { c with procs := c.procs.set i none } b → Left c b := by
    rintro b (hopen | ⟨j, q, hq, hhas⟩)
    · exact Or.inl hopen
    · exact Or.inr ⟨j, q, hold j q hq, hhas⟩
  exact
    { begun := hc.begun
      runs := hc.runs
      stamped := hc.stamped.mono hleft
      follows := fun j q hq => hc.follows j q (hold j q hq)
      alone := fun j k q r hq hr => hc.alone j k q r (hold j q hq) (hold k r hr)
      quiet := fun j q hq hreaping => by
        have hquiet := hc.quiet j q (hold j q hq) hreaping
        exact ⟨fun b hb => hquiet.left b (hleft b hb), hquiet.reapable, hquiet.resumed⟩ }

/-- The state has changed, but neither its clock nor its document, and no job was added. -/
theorem ReaperInv.changed (hc : ReaperInv cfg submitted c) (hnow : s'.now = c.shared.state.now)
    (hdoc : s'.doc = c.shared.state.doc) (hjobs : JobsKept c.shared.state s') :
    ReaperInv cfg submitted { c with shared := { c.shared with state := s' } } := by
  have hleft : ∀ b, Left { c with shared := { c.shared with state := s' } } b → Left c b := by
    rintro b (⟨job, j, hj, hopen, rfl⟩ | hhas)
    · obtain ⟨j₀, hj₀, hsettled, -⟩ := hjobs.kept job j hj
      refine Or.inl ⟨job, j₀, hj₀, Bool.eq_false_iff.mpr fun h => ?_, rfl⟩
      simp [hsettled h] at hopen
    · exact Or.inr hhas
  have hsame : SameStamps c.shared.state s' := ⟨hnow, by rw [hdoc], by rw [hdoc], by rw [hdoc]⟩
  exact
    { begun := hc.begun.trans_eq hnow.symm
      runs := fun job j' hj' hrun => by
        obtain ⟨j, hj, -, hresumes⟩ := hjobs.kept job j' hj'
        exact hc.runs job j hj (hresumes ▸ hrun)
      stamped := (hc.stamped.same hsame).mono hleft
      follows := fun j q hq =>
        { hc.follows j q hq with
          job := fun job hjob => ((hc.follows j q hq).job job hjob).trans_eq hjobs.length.symm
          received := fun job hjob =>
            (Nat.le_of_eq hnow).trans ((hc.follows j q hq).received job hjob)
          sweep := fun started stage hstage => by
            obtain ⟨hbegan, hle, hpast⟩ := (hc.follows j q hq).sweep started stage hstage
            exact ⟨hbegan, hle, hpast.trans_eq hnow.symm⟩
          sweeping := fun hsweeping =>
            (Nat.le_of_eq hnow).trans ((hc.follows j q hq).sweeping hsweeping) }
      alone := hc.alone
      quiet := fun j q hq hreaping => by
        have hquiet := hc.quiet j q hq hreaping
        exact ⟨fun b hb => hquiet.left b (hleft b hb),
          (congrArg (·.status.reapable) hdoc).trans hquiet.reapable,
          fun hstage => by simpa [hdoc] using hquiet.resumed hstage⟩ }

end

/-! ## Time passes -/

theorem job_cases {q : Proc} {job : Nat} (h : q.job = some job) :
    q = .worker (.received job) ∨ q.attends = some job := by
  cases q with
  | worker stage =>
      cases stage with
      | received job' =>
          cases h
          exact Or.inl rfl
      | executing job' timed plan last => exact Or.inr h
      | settling job' failed =>
          cases failed with
          | false => exact Or.inr h
          | true => cases h
      | done => cases h
  | decision approved stage | cancel stage | reaper started stage | approvalSweep started stage =>
      cases h

section
variable {cfg : LifecycleConfig} {submitted now job : Nat} {asked : Nat → Nat} {c : ClockedRun}
  {p : ClockedProc}

theorem ClockedProc.prompt_attends (h : p.prompt cfg asked now = true)
    (hattends : p.proc.attends = some job) : now ≤ p.began + cfg.executionTimeoutSeconds := by
  obtain ⟨proc, began⟩ := p
  cases proc with
  | worker stage =>
      cases stage with
      | executing job' timed plan last => simpa [prompt] using h
      | settling job' failed =>
          cases failed with
          | false => simpa [prompt] using h
          | true => cases hattends
      | received job' | done => cases hattends
  | decision approved stage | cancel stage | reaper started stage | approvalSweep started stage =>
      cases hattends

theorem ClockedProc.prompt_ends (h : p.prompt cfg asked now = true)
    (hends : p.proc.deciding = true ∨ p.proc.sweeping = true) :
    now ≤ p.began + cfg.stuckExecutionGraceSeconds := by
  obtain ⟨proc, began⟩ := p
  cases proc with
  | worker stage => rcases hends with hends | hends <;> cases hends
  | decision approved stage | cancel stage | reaper started stage | approvalSweep started stage =>
      simp only [prompt, Bool.or_eq_true, Bool.and_eq_true, Bool.not_eq_true',
        decide_eq_true_eq] at h
      rcases h with ⟨hdeciding, hsweeping⟩ | hle
      · rcases hends with hends | hends
        · simp [hdeciding] at hends
        · simp [hsweeping] at hends
      · exact hle

/-- Every delay is kept at the moment. -/
theorem ClockedRun.prompt_proc (h : ClockedRun.prompt cfg c now = true) {i : Nat}
    (hp : c.proc i = some p) : p.prompt cfg c.shared.asked now = true := by
  have hall := ((Bool.and_eq_true _ _).mp h).1
  exact List.all_eq_true.mp hall (some p) (List.mem_of_getElem? (Configuration.proc_eq_some.mp hp))

/-- A job that a worker attends to is not older than the grace and the execution timeout. -/
theorem ReaperInv.attended_due (hc : ReaperInv cfg submitted c)
    (h : ClockedRun.prompt cfg c now = true) {i : Nat} (hp : c.proc i = some p)
    (hattends : p.proc.attends = some job) : now ≤ c.shared.asked job + cfg.cutoff := by
  have hbegan := (hc.follows i p hp).attends job hattends
  have hends := ClockedProc.prompt_attends (ClockedRun.prompt_proc h hp) hattends
  simp only [LifecycleConfig.cutoff]
  omega

/-- What is left at the moment was asked for within the cutoff. -/
theorem ReaperInv.left_due (hc : ReaperInv cfg submitted c)
    (h : ClockedRun.prompt cfg c now = true) {b : Nat} (hb : Left c b) : now ≤ b + cfg.cutoff := by
  rcases hb with ⟨job, j, hj, hopen, rfl⟩ | ⟨i, p, hp, ⟨job, hjob, rfl⟩ | ⟨hdeciding, rfl⟩⟩
  · have hall := ((Bool.and_eq_true _ _).mp h).2
    have hin : (j, job) ∈ c.shared.state.jobs.zipIdx := by
      rw [List.mem_zipIdx_iff_getElem?]
      exact hj
    have hwaits := List.all_eq_true.mp hall _ hin
    simp only [hopen, Bool.false_or, Bool.or_eq_true, decide_eq_true_eq] at hwaits
    rcases hwaits with hattended | hle
    · obtain ⟨o, ho, hany⟩ := List.any_eq_true.mp hattended
      obtain ⟨p, rfl, hp⟩ := (Option.any_eq_true _ _).mp hany
      obtain ⟨i, hi⟩ := List.mem_iff_getElem?.mp ho
      exact hc.attended_due h (Configuration.proc_eq_some.mpr hi) (of_decide_eq_true hp)
    · simp only [LifecycleConfig.cutoff]
      omega
  · rcases job_cases hjob with hreceived | hattends
    · have hle := ClockedRun.prompt_proc h hp
      simp only [ClockedProc.prompt, hreceived, decide_eq_true_eq] at hle
      simp only [LifecycleConfig.cutoff]
      omega
    · exact hc.attended_due h hp hattends
  · have hle := ClockedProc.prompt_ends (ClockedRun.prompt_proc h hp) (Or.inl hdeciding)
    simp only [LifecycleConfig.cutoff]
    omega

theorem ReaperInv.ticked (hc : ReaperInv cfg submitted c) (hle : c.shared.state.now ≤ now)
    (h : ClockedRun.prompt cfg c now = true) :
    ReaperInv cfg submitted
      { c with shared := { c.shared with state := { c.shared.state with now } } } where
  begun := hc.begun.trans hle
  runs := hc.runs
  stamped :=
    { hc.stamped with
      past := fun b hb => (hc.stamped.past b hb).trans hle
      due := fun _ hb => hc.left_due h hb }
  follows i p hp :=
    { hc.follows i p hp with
      received := fun job hjob => by
        have hprompt := ClockedRun.prompt_proc h hp
        simpa [ClockedProc.prompt, hjob] using hprompt
      sweep := fun started stage hstage => by
        obtain ⟨hbegan, hsubmitted, hpast⟩ := (hc.follows i p hp).sweep started stage hstage
        exact ⟨hbegan, hsubmitted, hpast.trans hle⟩
      sweeping := fun hsweeping =>
        ClockedProc.prompt_ends (ClockedRun.prompt_proc h hp) (Or.inr hsweeping) }
  alone := hc.alone
  quiet i p hp hreaping := by
    have hquiet := hc.quiet i p hp hreaping
    exact ⟨hquiet.left, hquiet.reapable, hquiet.resumed⟩

/-! ## Every run -/

/-- A submission: no process has started, the document is queued and starts now, and its jobs were
asked for now. -/
structure ClockedRun.Submitted (c : ClockedRun) : Prop where
  procs : c.procs = []
  queued : c.shared.state.doc.status = .queued
  startedAt : c.shared.state.doc.record.startedAt = c.shared.state.now
  asked : ∀ job < c.shared.state.jobs.length, c.shared.asked job = c.shared.state.now

theorem ClockedRun.Submitted.reaperInv (h : ClockedRun.Submitted c) :
    ReaperInv cfg c.shared.state.now c := by
  have hnone : ∀ i, c.proc i = none := by simp [Configuration.proc, h.procs]
  have hleft : ∀ b, Left c b → b = c.shared.state.now := by
    rintro b (⟨job, j, hj, -, rfl⟩ | ⟨i, p, hp, -⟩)
    · obtain ⟨hlt, -⟩ := List.getElem?_eq_some_iff.mp hj
      exact h.asked job hlt
    · simp [hnone i] at hp
  exact
    { begun := Nat.le_refl _
      runs := fun job j hj _ => by
        obtain ⟨hlt, -⟩ := List.getElem?_eq_some_iff.mp hj
        exact Nat.le_of_eq (h.asked job hlt)
      stamped :=
        { started := Nat.le_of_eq h.startedAt.symm
          past := fun b hb => Nat.le_of_eq (hleft b hb)
          due := fun b hb => by
            rw [hleft b hb]
            exact Nat.le_add_right _ _
          running := fun _ b hb => by rw [hleft b hb, h.startedAt]
          resuming := fun hstatus => by simp [h.queued] at hstatus }
      follows := fun i p hp => by simp [hnone i] at hp
      alone := fun i j p q hp => by simp [hnone i] at hp
      quiet := fun i p hp => by simp [hnone i] at hp }

theorem ReaperInv.steps {c' : ClockedRun} (hc : ReaperInv cfg submitted c)
    (h : (clockedSystem cfg).Steps (fun c m => InTime cfg c m = true) c c') :
    ReaperInv cfg submitted c' := by
  rcases h.cases with ⟨x, g, p, hok, hs, rfl⟩ | ⟨i, input, p, g, p', hok, hp, hs, rfl⟩ |
    ⟨i, -, rfl⟩ | ⟨e, g, hok, hs, rfl⟩
  · obtain ⟨rfl, hproc, hbegan⟩ := clockedSystem_spawn hs
    obtain ⟨q, began⟩ := p
    cases hbegan
    exact hc.spawned (hc.starts hok hproc)
  · obtain ⟨s', q', hstep, rfl, rfl⟩ := clockedSystem_step hs
    exact hc.stepped hp hok hstep
  · exact hc.crashed i
  · obtain ⟨s', he, rfl⟩ := Option.map_eq_some_iff.mp hs
    cases e with
    | tick now =>
        simp only [Outside.apply] at he
        split at he <;> cases he
        next hle => exact hc.ticked hle hok
    | edit workflow =>
        cases he
        exact hc.changed rfl rfl (.of_eq rfl)
    | drop job =>
        cases he
        exact hc.changed rfl rfl (.modify (fun _ _ => rfl) fun _ => rfl)

/-- Where jobs are picked up within the grace and attempts end within the execution timeout, the
reaper moves an execution only when no worker has it and no job of it waits. -/
theorem LifecycleRun.reaps_abandoned {c₀ : ClockedRun} (hstart : ClockedRun.Submitted c₀)
    (hreach : (clockedSystem cfg).Reaches (fun c m => InTime cfg c m = true) c₀ c)
    {i started began : Nat} {snap : Snapshot}
    (hp : c.proc i = some ⟨.reaper started (.act snap), began⟩) :
    (∀ j p, c.proc j = some p → p.proc.working = false) ∧
      ∀ j ∈ c.shared.state.jobs, j.settled = true := by
  have hc : ReaperInv cfg c₀.shared.state.now c :=
    hreach.keeps (fun _ _ => ReaperInv.steps) hstart.reaperInv
  have hquiet := hc.quiet i _ hp rfl
  constructor
  · intro j p hj
    refine Bool.eq_false_iff.mpr fun hworking => ?_
    obtain ⟨proc, clock⟩ := p
    cases proc with
    | worker stage =>
        cases stage with
        | received job | executing job timed plan last => exact hquiet.left _ (.of_job hj rfl)
        | settling job failed | done => cases hworking
    | decision approved stage | cancel stage | reaper started stage | approvalSweep started stage =>
        cases hworking
  · intro j hj
    refine Bool.eq_false_iff.not_left.mp fun hopen => ?_
    obtain ⟨job, hjob⟩ := List.mem_iff_getElem?.mp hj
    exact hquiet.left _ (Or.inl ⟨job, j, hjob, hopen, rfl⟩)

end

/-! ## A job that waits too long -/

/-- The execution has just been submitted. -/
def submittedRun : ClockedRun := ⟨⟨submitted approvalFlow, fun _ => 0⟩, []⟩

theorem submittedRun_submitted : ClockedRun.Submitted submittedRun :=
  ⟨rfl, rfl, rfl, fun _ _ => rfl⟩

/-- A sweep, process `i`, is about to move the execution. -/
def reaping (c : ClockedRun) (i : Nat) : Bool :=
  match c.proc i with
  | some ⟨.reaper _ (.act snap), _⟩ => c.shared.state.hits snap.status
  | _ => false

theorem reaping_cases {c : ClockedRun} {i : Nat} (h : reaping c i = true) :
    ∃ started snap began, c.proc i = some ⟨.reaper started (.act snap), began⟩ ∧
      c.shared.state.hits snap.status = true := by
  unfold reaping at h
  split at h
  next started snap began hp => exact ⟨started, snap, began, hp, h⟩
  next => cases h

/-- The worker is lost, the queue gives the job up, and then the sweep finds the execution. -/
def abandonedRun : List LifecycleMove :=
  deliverMoves (.calm approvalResults) 0 0 2 ++ [.crash 0, .env (.drop 0), .env (.tick 5000)] ++
    callMoves .reap 1 1

theorem abandonedRun_reaped : ∃ c,
    (clockedSystem {}).Reaches (fun c m => InTime {} c m = true) submittedRun c ∧
    reaping c 1 = true ∧ (∀ j p, c.proc j = some p → p.proc.working = false) ∧
    ∀ j ∈ c.shared.state.jobs, j.settled = true := by
  obtain ⟨c, hreach, hreaping⟩ := System.exists_reaches_of_play (clockedSystem {})
    (fun c m => InTime {} c m = true) abandonedRun submittedRun (reaping · 1) (by decide +kernel)
  obtain ⟨started, snap, began, hp, -⟩ := reaping_cases hreaping
  exact ⟨c, hreach, hreaping, LifecycleRun.reaps_abandoned submittedRun_submitted hreach hp⟩

/-- The job is still waiting in the queue when the sweep comes. -/
theorem waitingRun_reaped : ¬ ∀ (cfg : LifecycleConfig) (c₀ c : ClockedRun)
    (i started began : Nat) (snap : Snapshot), ClockedRun.Submitted c₀ →
    (clockedSystem cfg).Reaches (fun _ _ => True) c₀ c →
    c.proc i = some ⟨.reaper started (.act snap), began⟩ →
    c.shared.state.hits snap.status = true →
    (∀ j p, c.proc j = some p → p.proc.working = false) ∧
      ∀ j ∈ c.shared.state.jobs, j.settled = true := by
  intro hclaim
  obtain ⟨c, hreach, hc⟩ := System.exists_reaches_of_play (clockedSystem {})
    (fun _ _ => True) ([.env (.tick 5000)] ++ callMoves .reap 0 1) submittedRun
    (fun c => reaping c 0 && c.shared.state.jobs.any (!·.settled)) (by decide +kernel)
  obtain ⟨hreaping, hwaits⟩ := (Bool.and_eq_true _ _).mp hc
  obtain ⟨started, snap, began, hp, hhits⟩ := reaping_cases hreaping
  obtain ⟨-, hsettled⟩ :=
    hclaim {} _ c 0 started began snap submittedRun_submitted hreach hp hhits
  obtain ⟨j, hj, hopen⟩ := List.any_eq_true.mp hwaits
  simp [hsettled j hj] at hopen

end CitraFlows
