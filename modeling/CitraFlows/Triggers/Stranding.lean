-- SUMMARY: A record whose path has ended has a job or is marked as failed, as long as no enqueue of a scheduled start raises without its job.
import CitraFlows.Triggers.Paths

/-!
# Stranded records

A path is in one of three phases: it has no record yet, it has one and still has to see to its
job, or it is settled. Settled means that its record, if there is one, has a job or is marked as
failed; the only command that ends the second phase without either is the enqueue of a scheduled
start, which the `except` around it does not make up for.
-/

namespace CitraFlows

open Processes RedisKeys

/-! ## Phases -/

inductive TriggerPhase where
  | before | open | settled
  deriving DecidableEq

def TriggerPath.phase : TriggerPath → TriggerPhase
  | .request p =>
      match p.stage with
      | .find | .halt | .putBlob | .insert => .before
      | .enqueue | .markFailed => .open
      | .done => .settled
  | .scheduled p =>
      match p.stage with
      | .enqueue => .open
      | .cleanup | .done => .settled
      | _ => .before

theorem TriggerPath.phase_of_done {p : TriggerPath} (h : p.done = true) : p.phase = .settled := by
  cases p with
  | request p =>
      have hstage : p.stage = .done := by simpa [done] using h
      simp [phase, hstage]
  | scheduled p =>
      have hstage : p.stage = .done := by simpa [done] using h
      simp [phase, hstage]

namespace TriggerState

/-- The record of the execution, if there is one, has a job or is marked as failed. -/
def Settled (s : TriggerState) (id : String) : Prop :=
  ∀ e ∈ s.cron.executions, e.executionId = id → s.hasJob id = true ∨ e.status = .written .failed

/-- The execution has no record. -/
def Unrecorded (s : TriggerState) (id : String) : Prop :=
  ∀ e ∈ s.cron.executions, e.executionId ≠ id

theorem Unrecorded.settled {s : TriggerState} {id : String} (h : s.Unrecorded id) :
    s.Settled id :=
  fun e he hid => absurd hid (h e he)

/-- The step concerns the records of one execution only, and no job is lost. -/
structure Frame (id : String) (s s' : TriggerState) : Prop where
  issued : s'.issued = s.issued
  executions : ∀ e ∈ s'.cron.executions, e.executionId ≠ id → e ∈ s.cron.executions
  hasJob : ∀ id', s.hasJob id' = true → s'.hasJob id' = true

theorem Frame.refl (id : String) (s : TriggerState) : s.Frame id s :=
  ⟨rfl, fun _ he _ => he, fun _ h => h⟩

theorem frame_insert (s : TriggerState) (doc : RunDocument) :
    s.Frame doc.executionId (s.insert doc) := by
  refine ⟨rfl, fun e he hne => ?_, fun _ h => h⟩
  rcases List.mem_append.mp he with he | he
  · exact he
  · rw [List.mem_singleton.mp he] at hne
    exact absurd rfl hne

theorem frame_setStatus (s : TriggerState) (id : String) (status : StoredStatus) :
    s.Frame id (s.setStatus id status) := by
  refine ⟨rfl, fun e he hne => ?_, fun _ h => h⟩
  obtain ⟨d, hd, rfl⟩ := List.mem_map.mp he
  split
  next hid => simp [hid] at hne
  next => exact hd

theorem hasJob_requestJobs (s : TriggerState) (id : String) (job : RequestJob) :
    ({ s with requestJobs := job :: s.requestJobs } : TriggerState).hasJob id =
      (s.hasJob id || decide (job.executionId = id)) := by
  simp only [hasJob, List.any_cons]
  cases s.cron.jobs.any (·.executionId = id) <;>
    cases s.requestJobs.any (·.executionId = id) <;> simp

theorem frame_requestJobs (s : TriggerState) (id : String) (job : RequestJob) :
    s.Frame id { s with requestJobs := job :: s.requestJobs } := by
  refine ⟨rfl, fun _ he _ => he, fun id' h => ?_⟩
  rw [hasJob_requestJobs, h]
  rfl

theorem settled_setStatus (s : TriggerState) (id : String) :
    (s.setStatus id (.written .failed)).Settled id := by
  intro e he hid
  obtain ⟨d, -, rfl⟩ := List.mem_map.mp he
  right
  split
  next => rfl
  next hne => simp [hne] at hid

end TriggerState

/-! ## One step -/

/-- What a step of a path leaves: the other executions as they were, and its own settled when it
is done with it. -/
structure PathStep (s s' : TriggerState) (p p' : TriggerPath) : Prop where
  executionId : p'.executionId = p.executionId
  frame : s.Frame p.executionId s'
  before : p'.phase = .before → p.phase = .before ∧ s'.cron.executions = s.cron.executions
  settled : p'.phase = .settled → (p.phase = .before → s.Unrecorded p.executionId) →
    (p.phase = .settled → s.Settled p.executionId) → s'.Settled p.executionId

theorem TriggerRequest.next_step {attempt : Attempt} {s s' : TriggerState}
    {p p' : TriggerRequest} (h : p.next attempt s = some (s', p'))
    (hmongo : (TriggerPath.request p).writes = true → ∀ ran, attempt ≠ .failed ran) :
    PathStep s s' (.request p) (.request p') ∧ s'.finished = s.finished ∧ s'.skips = s.skips := by
  unfold TriggerRequest.next at h
  cases hstage : p.stage with
  | find | halt | putBlob =>
      simp only [hstage] at h
      repeat' split at h
      all_goals
        cases h
        refine ⟨⟨rfl, .refl _ _, fun _ => ⟨by simp [TriggerPath.phase, hstage], rfl⟩,
          fun _ hbefore _ => (hbefore ?_).settled⟩, rfl, rfl⟩
        simp [TriggerPath.phase, hstage]
  | insert =>
      have hok := hmongo (by simp [TriggerPath.writes, hstage])
      simp only [hstage] at h
      split at h
      next => exact absurd rfl (hok _)
      next => exact absurd rfl (hok _)
      next =>
        cases h
        refine ⟨⟨rfl, s.frame_insert p.runDocument, ?_, ?_⟩, rfl, rfl⟩
        all_goals
          intro hphase
          simp [TriggerPath.phase] at hphase
  | enqueue =>
      simp only [hstage] at h
      split at h
      next =>
        cases h
        refine ⟨⟨rfl, .refl _ _, ?_, ?_⟩, rfl, rfl⟩
        all_goals
          intro hphase
          simp [TriggerPath.phase] at hphase
      next =>
        cases h
        refine ⟨⟨rfl, s.frame_requestJobs _ _, ?_, ?_⟩, rfl, rfl⟩
        all_goals
          intro hphase
          simp [TriggerPath.phase] at hphase
      next =>
        cases h
        refine ⟨⟨rfl, s.frame_requestJobs _ _, ?_, ?_⟩, rfl, rfl⟩
        · intro hphase
          simp [TriggerPath.phase] at hphase
        · intro _ _ _ e _ _
          left
          simp [TriggerState.hasJob_requestJobs, TriggerPath.executionId]
  | markFailed =>
      have hok := hmongo (by simp [TriggerPath.writes, hstage])
      simp only [hstage] at h
      split at h
      next => exact absurd rfl (hok _)
      next =>
        cases h
        refine ⟨⟨rfl, s.frame_setStatus _ _, ?_, fun _ _ _ => s.settled_setStatus _⟩, rfl, rfl⟩
        intro hphase
        simp [TriggerPath.phase] at hphase
  | done =>
      simp only [hstage] at h
      cases h

theorem TriggerRequest.refuse_step {s : TriggerState} {p p' : TriggerRequest}
    (h : p.refuse = some p') : PathStep s s (.request p) (.request p') := by
  unfold TriggerRequest.refuse at h
  cases hstage : p.stage with
  | find | halt | putBlob | insert =>
      simp only [hstage] at h
      cases h
      refine ⟨rfl, .refl _ _, fun hphase => ?_, fun _ hbefore _ => (hbefore ?_).settled⟩
      · simp [TriggerPath.phase] at hphase
      · simp [TriggerPath.phase, hstage]
  | enqueue | markFailed | done =>
      simp only [hstage] at h
      cases h

/-- What a step of a call does to the runs and the jobs: it inserts its record, enqueues its job,
or leaves both alone. -/
theorem CronStart.step_records {cfg : CronConfig} {i : Nat} {input : CronInput} {s s' : CronState}
    {p p' : CronStart} (h : p.step cfg i input s = some (s', p')) :
    p'.executionId = p.executionId ∧
      ((p.stage = .insert ∧ s'.executions = s.executions ++ [p.runDocument] ∧ s'.jobs = s.jobs ∧
          (p'.stage = .enqueue ∨ ∃ ran, input = .next (.failed ran))) ∨
        (p.stage = .enqueue ∧ s'.executions = s.executions ∧ p'.stage = .cleanup ∧
          s'.jobs = ⟨p.workflowId, p.executionId, p.tick, i⟩ :: s.jobs) ∨
        (s'.executions = s.executions ∧ s'.jobs = s.jobs ∧
          ((TriggerPath.scheduled p').phase = (TriggerPath.scheduled p).phase ∨
            ((TriggerPath.scheduled p).phase = .before ∧
              (TriggerPath.scheduled p').phase = .settled) ∨
            (p.stage = .enqueue ∧ input = .next (.failed false))))) := by
  cases input with
  | next attempt =>
      unfold CronStart.step CronStart.next at h
      cases hstage : p.stage with
      | insert =>
          simp only [hstage] at h
          split at h
          next =>
            cases h
            exact ⟨rfl, .inr (.inr ⟨rfl, rfl, .inr (.inl ⟨by simp [TriggerPath.phase, hstage],
              by simp [TriggerPath.phase]⟩)⟩)⟩
          next =>
            cases h
            exact ⟨rfl, .inl ⟨rfl, rfl, rfl, .inr ⟨_, rfl⟩⟩⟩
          next =>
            cases h
            exact ⟨rfl, .inl ⟨rfl, rfl, rfl, .inl rfl⟩⟩
      | enqueue =>
          simp only [hstage] at h
          split at h
          next =>
            cases h
            exact ⟨rfl, .inr (.inr ⟨rfl, rfl, .inr (.inr ⟨rfl, rfl⟩)⟩)⟩
          next =>
            cases h
            exact ⟨rfl, .inr (.inl ⟨rfl, rfl, rfl, rfl⟩)⟩
      | fireLock | overlapLock =>
          -- a lock is asked for, and the call goes on or ends
          simp only [hstage, CronState.onFireLock, CronState.onOverlapLock] at h
          split at h
          all_goals
            next hrun =>
              simp only [Prod.mk.injEq] at hrun
              obtain ⟨-, rfl⟩ := hrun
              cases h
              exact ⟨rfl, .inr (.inr ⟨rfl, rfl, by simp [TriggerPath.phase, hstage]⟩)⟩
      | findWorkflow | inFlight | halt | cleanup =>
          simp only [hstage, CronState.onOverlapLock] at h
          repeat' split at h
          all_goals
            cases h
            exact ⟨rfl, .inr (.inr ⟨rfl, rfl, by simp [TriggerPath.phase, hstage]⟩)⟩
      | done =>
          simp only [hstage] at h
          cases h
  | renewFire attempt | renewOverlap attempt =>
      unfold CronStart.step at h
      simp only [CronState.onFireLock, CronState.onOverlapLock] at h
      split at h
      next =>
        cases h
        exact ⟨rfl, .inr (.inr ⟨rfl, rfl, .inl rfl⟩)⟩
      next => cases h

theorem CronStart.step_path {cfg : CronConfig} {i : Nat} {input : CronInput} {s : TriggerState}
    {g : CronState} {p p' : CronStart} {skips : List FireSkip}
    (h : p.step cfg i input s.cron = some (g, p'))
    (hmongo : (TriggerPath.scheduled p).writes = true → ∀ ran, input ≠ .next (.failed ran))
    (hfire : p.stage = .enqueue → input ≠ .next (.failed false)) :
    PathStep s { s with cron := g, skips := skips } (.scheduled p) (.scheduled p') := by
  obtain ⟨hid, ⟨hstage, hex, hjobs, hnext⟩ | ⟨hstage, hex, hnext, hjobs⟩ | ⟨hex, hjobs, hnext⟩⟩ :=
    step_records h
  · -- the record is inserted
    have hok := hmongo (by simp [TriggerPath.writes, hstage])
    have hnext : p'.stage = .enqueue := hnext.resolve_right fun ⟨ran, hran⟩ => hok ran hran
    refine ⟨hid, ⟨rfl, fun e he hne => ?_, fun id hjob => ?_⟩, ?_, ?_⟩
    · rw [hex] at he
      rcases List.mem_append.mp he with he | he
      · exact he
      · rw [List.mem_singleton.mp he] at hne
        exact absurd rfl hne
    · simpa [TriggerState.hasJob, hjobs] using hjob
    all_goals
      intro hphase
      simp [TriggerPath.phase, hnext] at hphase
  · -- the job is added
    have hmono : ∀ id, s.hasJob id = true →
        ({ s with cron := g, skips := skips } : TriggerState).hasJob id = true := by
      intro id hjob
      simp only [TriggerState.hasJob, hjobs, List.any_cons, Bool.or_eq_true] at hjob ⊢
      tauto
    refine ⟨hid, ⟨rfl, fun e he _ => by rwa [hex] at he, hmono⟩, ?_, fun _ _ _ e _ _ => .inl ?_⟩
    · intro hphase
      simp [TriggerPath.phase, hnext] at hphase
    · simp [TriggerState.hasJob, hjobs, TriggerPath.executionId]
  · -- nothing is written
    have hhas : ∀ id, ({ s with cron := g, skips := skips } : TriggerState).hasJob id =
        s.hasJob id := by
      intro id
      simp [TriggerState.hasJob, hjobs]
    refine ⟨hid, ⟨rfl, fun e he _ => by rwa [hex] at he, fun id hjob => (hhas id).trans hjob⟩,
      fun hphase => ⟨?_, hex⟩, fun hphase hbefore hsettled e he heid => ?_⟩
    · rcases hnext with hsame | ⟨-, hpast⟩ | ⟨hstage, hfail⟩
      · rw [← hsame, hphase]
      · rw [hphase] at hpast
        cases hpast
      · exact absurd hfail (hfire hstage)
    · rw [hex] at he
      rw [hhas]
      rcases hnext with hsame | ⟨hpast, -⟩ | ⟨hstage, hfail⟩
      · exact hsettled (hsame ▸ hphase) e he heid
      · exact (hbefore hpast).settled e he heid
      · exact absurd hfail (hfire hstage)

/-! ## The invariant -/

structure TriggerState.Inv (started : Nat) (s : TriggerState) : Prop where
  started : s.issued.length = started
  issued : s.issued.Nodup
  finished : ∀ id ∈ s.finished, id ∈ s.issued
  strandsNone : s.StrandsNone
  skipsRuns : s.SkipsRuns

structure TriggerPath.Inv (s : TriggerState) (i : Nat) (p : TriggerPath) : Prop where
  issued : s.issued[i]? = some p.executionId
  running : p.done = false → p.executionId ∉ s.finished
  before : p.phase = .before → s.Unrecorded p.executionId
  settled : p.phase = .settled → s.Settled p.executionId

theorem TriggerState.underWay_eq_false {s : TriggerState} {id : String} :
    s.underWay id = false ↔ (id ∈ s.issued → id ∈ s.finished) := by
  simp [underWay]

theorem TriggerState.issued_inj {ids : List String} (h : ids.Nodup) {i j : Nat} {id : String}
    (hi : ids[i]? = some id) (hj : ids[j]? = some id) : i = j := by
  obtain ⟨hlt, -⟩ := List.getElem?_eq_some_iff.mp hi
  exact (List.getElem?_inj hlt h).mp (hi.trans hj.symm)

theorem TriggerPath.ended_eq (s : TriggerState) (p : TriggerPath) :
    (ended s p).cron = s.cron ∧ (ended s p).issued = s.issued ∧ (ended s p).skips = s.skips ∧
      (∀ id, (ended s p).hasJob id = s.hasJob id) ∧
      ∀ id, id ∈ (ended s p).finished ↔ (p.done = true ∧ id = p.executionId) ∨ id ∈ s.finished := by
  unfold ended
  split
  next h => exact ⟨rfl, rfl, rfl, fun _ => rfl, fun id => by simp [h]⟩
  next h => exact ⟨rfl, rfl, rfl, fun _ => rfl, fun id => by simp [h]⟩

/-- A skip that is noted is due to a run that is not stranded. -/
theorem TriggerPath.skipped_hasJob {s : TriggerState} (h : s.StrandsNone) {p : CronStart}
    {input : CronInput} {k : FireSkip} (hk : skipped s p input = some k)
    (hway : k.underWay = false) : k.hasJob = true := by
  have hfound : ∃ e, s.inFlight p.workflowId = some e ∧
      k = ⟨e.executionId, s.hasJob e.executionId, s.underWay e.executionId⟩ := by
    unfold skipped at hk
    split at hk
    next =>
      obtain ⟨e, he, rfl⟩ := Option.map_eq_some_iff.mp hk
      exact ⟨e, he, rfl⟩
    next =>
      obtain ⟨e, he, rfl⟩ := Option.map_eq_some_iff.mp hk
      exact ⟨e, he, rfl⟩
    next => cases hk
  obtain ⟨e, he, rfl⟩ := hfound
  have hflight := List.find?_some he
  simp only [decide_eq_true_eq] at hflight
  refine (h e (List.mem_of_find?_eq_some he) hway).resolve_right fun hfailed => ?_
  rw [hfailed] at hflight
  simp [StoredStatus.inFlight] at hflight

/-- A step of path `i` keeps what is assumed of the state, of the path and of the others. -/
theorem PathStep.inv {n i : Nat} {s s₁ : TriggerState} {p p' : TriggerPath} (hs : s.Inv n)
    (hp : p.Inv s i) (hrunning : p.done = false) (h : PathStep s s₁ p p')
    (hfinished : s₁.finished = s.finished) (hskips : s₁.SkipsRuns) :
    (TriggerPath.ended s₁ p').Inv n ∧ p'.Inv (TriggerPath.ended s₁ p') i ∧
      ∀ j (q : TriggerPath), j ≠ i → q.Inv s j → q.Inv (TriggerPath.ended s₁ p') j := by
  obtain ⟨hcron, hissued, hnoted, hjob, hend⟩ := TriggerPath.ended_eq s₁ p'
  rw [h.frame.issued] at hissued
  simp only [hfinished, h.executionId] at hend
  have hown : p.executionId ∈ s.issued := List.mem_of_getElem? hp.issued
  have hopen : p.executionId ∉ s.finished := hp.running hrunning
  have hsettled : p'.phase = .settled → s₁.Settled p.executionId := fun hphase =>
    h.settled hphase hp.before hp.settled
  refine ⟨⟨by rw [hissued, hs.started], hissued ▸ hs.issued, ?_, ?_, fun k hk =>
    hskips k (hnoted ▸ hk)⟩, ⟨by rw [hissued, h.executionId, hp.issued], ?_, ?_, ?_⟩, ?_⟩
  · intro id hid
    rw [hissued]
    rcases (hend id).mp hid with ⟨-, rfl⟩ | hid
    · exact hown
    · exact hs.finished id hid
  · intro e he hway
    rw [hcron] at he
    rw [hjob]
    rw [TriggerState.underWay_eq_false, hissued, hend] at hway
    by_cases hid : e.executionId = p.executionId
    · -- the record of the path itself: the path has ended
      obtain ⟨hdone, -⟩ := (hway (hid ▸ hown)).resolve_right (hid ▸ hopen)
      rw [hid]
      exact hsettled (TriggerPath.phase_of_done hdone) e he hid
    · have hold : s.underWay e.executionId = false :=
        TriggerState.underWay_eq_false.mpr fun hissued =>
          (hway hissued).resolve_left fun hend => hid hend.2
      exact (hs.strandsNone e (h.frame.executions e he hid) hold).imp_left (h.frame.hasJob _)
  · intro hdone
    rw [h.executionId, hend]
    simp [hdone, hopen]
  · intro hphase e he
    rw [hcron, (h.before hphase).2] at he
    rw [h.executionId]
    exact hp.before (h.before hphase).1 e he
  · intro hphase e he
    rw [hcron] at he
    rw [h.executionId, hjob]
    exact hsettled hphase e he
  · intro j q hj hq
    -- the ids of two paths differ
    have hne : q.executionId ≠ p.executionId := fun heq =>
      hj (TriggerState.issued_inj hs.issued hq.issued (heq ▸ hp.issued))
    have hrecords : ∀ e ∈ (TriggerPath.ended s₁ p').cron.executions,
        e.executionId = q.executionId → e ∈ s.cron.executions := by
      intro e he hid
      rw [hcron] at he
      exact h.frame.executions e he (hid ▸ hne)
    refine ⟨hissued ▸ hq.issued, fun hrun => ?_, fun hphase e he hid => ?_,
      fun hphase e he hid => ?_⟩
    · rw [hend]
      simp [hne, hq.running hrun]
    · exact hq.before hphase e (hrecords e he hid) hid
    · rw [hjob]
      exact (hq.settled hphase e (hrecords e he hid) hid).imp_left (h.frame.hasJob _)

/-! ## Runs -/

/-- What happens around the paths leaves the ids of the records, and changes a record only when
it has a job. -/
theorem TriggerEvent.apply_frame {e : TriggerEvent} {s s' : TriggerState}
    (h : e.apply s = some s') :
    s'.issued = s.issued ∧ s'.finished = s.finished ∧ s'.skips = s.skips ∧
      (∀ id, s'.hasJob id = s.hasJob id) ∧
      ∀ d ∈ s'.cron.executions, d ∈ s.cron.executions ∨
        (s.hasJob d.executionId = true ∧ ¬ s.Unrecorded d.executionId) := by
  cases e with
  | tick now =>
      obtain ⟨cron, hcron, rfl⟩ := Option.map_eq_some_iff.mp h
      simp only [CronEvent.apply] at hcron
      split at hcron
      next =>
        cases hcron
        exact ⟨rfl, rfl, rfl, fun _ => rfl, fun _ hd => .inl hd⟩
      next => cases hcron
  | workflows docs | controls records =>
      cases h
      exact ⟨rfl, rfl, rfl, fun _ => rfl, fun _ hd => .inl hd⟩
  | advance id status =>
      simp only [TriggerEvent.apply] at h
      split at h
      next hjob =>
        cases h
        refine ⟨rfl, rfl, rfl, fun _ => rfl, fun d' hd' => ?_⟩
        obtain ⟨d, hd, rfl⟩ := List.mem_map.mp hd'
        split
        next hid => exact .inr ⟨hid ▸ hjob, fun hnone => hnone d hd rfl⟩
        next => exact .inl hd
      next => cases h

/-- A path starts without a record. -/
theorem TriggerStart.start_eq_some {cfg : CronConfig} {x : TriggerStart} {s s' : TriggerState}
    {p : TriggerPath} (h : x.start cfg s = some (s', p)) :
    s' = { s with issued := s.issued ++ [x.executionId] } ∧ p.executionId = x.executionId ∧
      p.phase = .before ∧ p.done = false ∧ x.executionId ∉ s.issued ∧
      s.Unrecorded x.executionId := by
  unfold TriggerStart.start at h
  split at h
  next => cases h
  next hfresh =>
    simp only [Bool.or_eq_true, List.contains_iff_mem, List.any_eq_true, decide_eq_true_eq,
      not_or, not_exists, not_and] at hfresh
    obtain ⟨hissued, hrecords⟩ := hfresh
    cases x with
    | request kind workflowId userId id =>
        cases h
        exact ⟨rfl, rfl, rfl, rfl, hissued, hrecords⟩
    | scheduled x =>
        obtain ⟨⟨cron, q⟩, hfire, heq⟩ := Option.map_eq_some_iff.mp h
        unfold fire at hfire
        split at hfire
        next =>
          cases hfire
          cases heq
          exact ⟨rfl, rfl, rfl, rfl, hissued, hrecords⟩
        next => cases hfire

/-- A path that has ended takes no step. -/
theorem TriggerPath.running_of_step {cfg : CronConfig} {i : Nat} {input : TriggerInput}
    {s : TriggerState} {p : TriggerPath} {r : TriggerState × TriggerPath}
    (h : p.step cfg i input s = some r) : p.done = false := by
  rw [Bool.eq_false_iff]
  intro hdone
  cases p with
  | request p =>
      have hstage : p.stage = .done := by simpa [done] using hdone
      unfold step TriggerRequest.next TriggerRequest.refuse at h
      simp only [hstage] at h
      cases input <;> cases h
  | scheduled p =>
      have hstage : p.stage = .done := by simpa [done] using hdone
      unfold step CronStart.step CronStart.next CronStart.renewing at h
      simp only [hstage] at h
      cases input with
      | cron input => cases input <;> simp at h
      | next attempt | refuse => cases h

theorem triggerSystem_invariant (cfg : CronConfig) :
    (triggerSystem cfg).Invariant (fun c m => MongoWrites c m ∧ FiresEnqueue c m)
      TriggerState.Inv TriggerPath.Inv where
  spawn := by
    intro c x s' p hc _ h
    obtain ⟨rfl, hid, hphase, hdone, hnew, hnone⟩ := TriggerStart.start_eq_some h
    obtain ⟨hs, hps⟩ := hc
    have hrunning : p.executionId ∉ c.shared.finished := fun hmem =>
      hnew (hid ▸ hs.finished _ hmem)
    refine ⟨⟨by simp [hs.started], ?_, fun id hmem => List.mem_append_left _ (hs.finished id hmem),
      fun e he hway => ?_, hs.skipsRuns⟩, ⟨?_, fun _ => hrunning, fun _ => hid ▸ hnone, ?_⟩, ?_⟩
    · rw [List.nodup_append]
      refine ⟨hs.issued, by simp, fun a ha b hb heq => ?_⟩
      rw [List.mem_singleton.mp hb] at heq
      exact hnew (heq ▸ ha)
    · -- the new path has no record
      rw [TriggerState.underWay_eq_false] at hway
      refine hs.strandsNone e he (TriggerState.underWay_eq_false.mpr fun hmem => hway ?_)
      exact List.mem_append_left _ hmem
    · simp [← hs.started, hid]
    · intro hsettled
      rw [hphase] at hsettled
      cases hsettled
    · intro j q hj
      have hq := hps j q hj
      have hlt : j < c.shared.issued.length := hs.started ▸ Configuration.lt_of_proc hj
      exact ⟨(List.getElem?_append_left hlt).trans hq.issued, hq.running, hq.before, hq.settled⟩
  step := by
    intro c i input p s' p' hc hok hi h
    obtain ⟨hs, hps⟩ := hc
    have hp := hps i p hi
    have hrunning := TriggerPath.running_of_step h
    obtain ⟨hmongo, hfire⟩ := hok
    have hmongo := hmongo p hi
    have hfire := hfire p hi
    have hothers : (∀ j (q : TriggerPath), j ≠ i → q.Inv c.shared j → q.Inv s' j) →
        ∀ j q, j ≠ i → c.proc j = some q → q.Inv s' j :=
      fun hkeep j q hne hj => hkeep j q hne (hps j q hj)
    cases p with
    | request p =>
        cases input with
        | next attempt =>
            obtain ⟨⟨s₁, q⟩, hnext, heq⟩ := Option.map_eq_some_iff.mp h
            cases heq
            have hok : (TriggerPath.request p).writes = true → ∀ ran, attempt ≠ .failed ran := by
              rintro hwrites ran rfl
              exact absurd (hmongo hwrites) (by simp [TriggerInput.raises])
            obtain ⟨hstep, hfinished, hskips⟩ := TriggerRequest.next_step hnext hok
            have := hstep.inv hs hp hrunning hfinished (by
              intro k hk
              exact hs.skipsRuns k (hskips ▸ hk))
            exact ⟨this.1, this.2.1, hothers this.2.2⟩
        | refuse =>
            obtain ⟨q, hrefuse, heq⟩ := Option.map_eq_some_iff.mp h
            cases heq
            have := (TriggerRequest.refuse_step hrefuse).inv hs hp hrunning rfl hs.skipsRuns
            exact ⟨this.1, this.2.1, hothers this.2.2⟩
        | cron input => cases h
    | scheduled p =>
        cases input with
        | cron input =>
            obtain ⟨⟨g, q⟩, hnext, heq⟩ := Option.map_eq_some_iff.mp h
            cases heq
            have hok : (TriggerPath.scheduled p).writes = true →
                ∀ ran, input ≠ .next (.failed ran) := by
              rintro hwrites ran rfl
              exact absurd (hmongo hwrites) (by simp [TriggerInput.raises])
            have hlost : p.stage = .enqueue → input ≠ .next (.failed false) := by
              rintro hstage rfl
              exact hfire (by simp [TriggerPath.enqueuesFire, hstage]) rfl
            have := (CronStart.step_path hnext hok hlost).inv hs hp hrunning rfl (by
              intro k hk hway
              rcases List.mem_append.mp hk with hk | hk
              · have hk : TriggerPath.skipped c.shared p input = some k := Option.mem_toList.mp hk
                exact TriggerPath.skipped_hasJob hs.strandsNone hk hway
              · exact hs.skipsRuns k hk hway)
            exact ⟨this.1, this.2.1, hothers this.2.2⟩
        | next attempt | refuse => cases h
  env := by
    intro c e s' hc _ h
    obtain ⟨hs, hps⟩ := hc
    obtain ⟨hissued, hfinished, hskips, hjob, hrecords⟩ := TriggerEvent.apply_frame h
    have hway : ∀ id, s'.underWay id = c.shared.underWay id := by
      intro id
      simp [TriggerState.underWay, hissued, hfinished]
    refine ⟨⟨hissued ▸ hs.started, hissued ▸ hs.issued, ?_, ?_, ?_⟩, fun j q hj => ?_⟩
    · rw [hissued, hfinished]
      exact hs.finished
    · intro d hd hover
      rw [hjob]
      rcases hrecords d hd with hd | ⟨hhas, -⟩
      · exact hs.strandsNone d hd (hway _ ▸ hover)
      · exact .inl hhas
    · exact fun k hk => hs.skipsRuns k (hskips ▸ hk)
    · have hq := hps j q hj
      refine ⟨hissued ▸ hq.issued, hfinished ▸ hq.running, fun hphase d hd hid => ?_,
        fun hphase d hd hid => ?_⟩
      · rcases hrecords d hd with hd | ⟨-, hsome⟩
        · exact hq.before hphase d hd hid
        · exact hsome (hid ▸ hq.before hphase)
      · rw [hjob]
        rcases hrecords d hd with hd | ⟨hhas, -⟩
        · exact hq.settled hphase d hd hid
        · exact .inl (hid ▸ hhas)

theorem TriggerState.Fresh.inv {s : TriggerState} (h : s.Fresh) : s.Inv 0 := by
  refine ⟨by simp [h.issued], by simp [h.issued], by simp [h.finished], h.strandsNone, ?_⟩
  intro k hk
  simp [h.skips] at hk

/-- A failed enqueue strands no run, as long as it is not that of a scheduled start. -/
theorem TriggerState.Fresh.enqueues {cfg : CronConfig} {s : TriggerState} (h : s.Fresh)
    {c : TriggerRun}
    (hreach : (triggerSystem cfg).Reaches (fun c m => MongoWrites c m ∧ FiresEnqueue c m)
      ⟨s, []⟩ c) :
    c.shared.StrandsNone ∧ c.shared.SkipsRuns := by
  have hinv := hreach.inv (triggerSystem_invariant cfg) (System.Inv.of_start rfl h.inv)
  exact ⟨hinv.1.strandsNone, hinv.1.skipsRuns⟩

/-! ### A tick whose job is lost -/

def hourly : WorkflowDocument where
  workflowId := "hourly"
  status := .written .deployed
  schedule := { enabled := true, cronExpression := some "0 * * * *" }

def hourlyState : TriggerState where
  cron := { now := 0, workflows := [hourly] }

def hourlyFire (tick : Nat) (run : String) : TriggerMove :=
  .spawn (.scheduled ⟨"hourly", "", tick, "replica", run⟩)

/-- Commands of a call, each answered. -/
def answered (i k : Nat) : List TriggerMove :=
  List.replicate k (.step i (.cron (.next .answered)))

/-- A request whose enqueue fails, and a tick whose enqueue raises although the job was added. -/
def recovered : List TriggerMove :=
  [.spawn (.request .executeWorkflow "hourly" "someone" "run-1")] ++
    List.replicate 3 (.step 0 (.next .answered)) ++
    [.step 0 (.next (.failed false)), .step 0 (.next .answered), hourlyFire 0 "run-2"] ++
    answered 1 6 ++ [.step 1 (.cron (.next (.failed true)))] ++ answered 1 1

/-- The enqueue of a tick fails, and the next tick finds its record. -/
def stranded : List TriggerMove :=
  [hourlyFire 0 "run-1"] ++ answered 0 6 ++ [.step 0 (.cron (.next (.failed false)))] ++
    answered 0 1 ++ [.env (.tick 3600), hourlyFire 3600 "run-2"] ++ answered 1 4

theorem hourlyState_fresh : hourlyState.Fresh :=
  ⟨rfl, rfl, rfl, fun e he => by cases he⟩

theorem recovered_enqueues : ∃ c,
    (triggerSystem {}).play (fun c m => MongoWrites c m ∧ FiresEnqueue c m) recovered
      ⟨hourlyState, []⟩ = some c ∧
      c.shared.finished = ["run-2", "run-1"] ∧ c.shared.StrandsNone ∧ c.shared.SkipsRuns := by
  have hfinished : ((triggerSystem {}).play (fun c m => MongoWrites c m ∧ FiresEnqueue c m)
      recovered ⟨hourlyState, []⟩).map (·.shared.finished) = some ["run-2", "run-1"] := by
    decide +kernel
  obtain ⟨c, hc, hfinished⟩ := Option.map_eq_some_iff.mp hfinished
  exact ⟨c, hc, hfinished, hourlyState_fresh.enqueues (System.reaches_of_play hc)⟩

/-- Mongo never fails, the tick has ended, its record has no job, and the next tick is skipped
because of it. -/
theorem stranded_skips : ¬ ∀ (cfg : CronConfig) (s : TriggerState), s.Fresh →
    ∀ c, (triggerSystem cfg).Reaches MongoWrites ⟨s, []⟩ c →
      c.shared.StrandsNone ∧ c.shared.SkipsRuns := by
  intro hclaim
  have hplay : ((triggerSystem {}).play MongoWrites stranded ⟨hourlyState, []⟩).any
      (fun c => c.shared.skips = [⟨"run-1", false, false⟩]) = true := by
    decide +kernel
  obtain ⟨c, hreach, hskips⟩ := System.exists_reaches_of_play _ _ _ _ _ hplay
  have hrun := (hclaim {} hourlyState hourlyState_fresh c hreach).2
  simp only [decide_eq_true_eq] at hskips
  have := hrun ⟨"run-1", false, false⟩ (by simp [hskips]) rfl
  cases this

end CitraFlows
