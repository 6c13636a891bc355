-- SUMMARY: How often an execution is started again after a crash, and that sweeps bring an abandoned one to an end.
import CitraFlows.Lib.Potential
import CitraFlows.Lifecycle.Steps

/-!
# Recovery of abandoned executions

The reaper counts a crash-resume before it enqueues the job, and takes the count back if the
enqueue fails. Between the two the sweep owes a job. What is left of the limit, together with what
is owed, pays for every job that a sweep enqueues. A sweep that nothing disturbs either enqueues a
job or finishes the execution, so only so many sweeps can find it stuck and leave it unfinished.
-/

namespace CitraFlows

open RedisKeys Processes

/-! ## Sweeps of the reaper -/

namespace Proc

/-- A sweep that has counted a crash-resume, and has yet to enqueue it or to take it back. -/
def owing : Proc → Bool
  | .reaper _ (.enqueue _) | .reaper _ (.rollback _) => true
  | _ => false

def enqueuing : Proc → Bool
  | .reaper _ (.enqueue _) => true
  | _ => false

/-- A sweep of the reaper that has returned. -/
def returned : Proc → Bool
  | .reaper _ .done => true
  | _ => false

theorem returned_eq {p : Proc} (h : p.returned = true) : ∃ started, p = .reaper started .done := by
  unfold returned at h
  split at h
  next started => exact ⟨started, rfl⟩
  next => cases h

end Proc

/-- Sweeps do not overlap, which is what their lock is for, and an enqueue that raises has added
no job. -/
def Orderly (c : LifecycleRun) : LifecycleMove → Bool
  | .spawn .reap => c.count Proc.sweeping = 0
  | .step i (.act w) => !((c.proc i).any Proc.enqueuing && w.ran && !w.ok)
  | _ => true

/-- A move starts the execution again. -/
def crashResumes (c : LifecycleRun) : LifecycleMove → Nat
  | .step i (.act w) => if (c.proc i).any Proc.enqueuing && w.ran then 1 else 0
  | _ => 0

/-- The jobs that sweeps enqueue in a run. -/
def crashResumesOf (cfg : LifecycleConfig) (c : LifecycleRun) (ms : List LifecycleMove) : Nat :=
  (lifecycleSystem cfg).spent crashResumes c ms

/-- What a step of a sweep does. -/
inductive ReaperStep (cfg : LifecycleConfig) (started : Nat) (s : Lifecycle) :
    ReaperStage → Write → Lifecycle → ReaperStage → Prop where
  | found {w : Write} (h : s.doc.stuck cfg started = true) :
      ReaperStep cfg started s .read w s (.act s.doc.snapshot)
  | idle {stage : ReaperStage} (w : Write) (h : ∀ snap, stage ≠ .enqueue snap) :
      ReaperStep cfg started s stage w s .done
  | finished {snap : Snapshot} {w : Write} (h : snap.verdict cfg ≠ .crashResume) :
      ReaperStep cfg started s (.act snap) w
        { s with doc := s.doc.reap started (snap.verdict cfg) } .done
  | counted {snap : Snapshot} {w : Write}
      (h : snap.crashResumeCount < cfg.maxCrashResumeAttempts) :
      ReaperStep cfg started s (.act snap) w { s with doc := s.doc.reap started .crashResume }
        (if w.ok then .enqueue snap else .done)
  | enqueued {snap : Snapshot} :
      ReaperStep cfg started s (.enqueue snap) .done (s.enqueue (.resume true)) .done
  | raised {snap : Snapshot} (ran : Bool) :
      ReaperStep cfg started s (.enqueue snap) (.failed ran)
        (if ran then s.enqueue (.resume true) else s) (.rollback snap)
  | rolledBack {snap : Snapshot} {w : Write} :
      ReaperStep cfg started s (.rollback snap) w
        { s with doc := { s.doc with
            status := snap.status
            crashResumeCount := s.doc.crashResumeCount - 1 } } .done

section
variable {cfg : LifecycleConfig} {i started : Nat} {input : Input} {w : Write} {s s' : Lifecycle}
  {p p' : Proc}

theorem Snapshot.lt_of_crashResume {snap : Snapshot} (h : snap.verdict cfg = .crashResume) :
    snap.crashResumeCount < cfg.maxCrashResumeAttempts := by
  unfold Snapshot.verdict at h
  split_ifs at h with _ _ hlt
  exact hlt

theorem ReaperStage.step_cases {stage stage' : ReaperStage}
    (h : stage.step cfg started w s = some (s', stage')) :
    ReaperStep cfg started s stage w s' stage' := by
  cases stage with
  | read =>
      cases h
      split
      next hfound => exact .found hfound.2
      next => exact .idle w (fun _ heq => by cases heq)
  | act snap =>
      simp only [ReaperStage.step] at h
      split at h
      next =>
        cases h
        cases hran : w.ran with
        | false =>
            -- a write that was not made has failed
            have hfailed : w.ok = false := by
              cases w with
              | done => cases hran
              | failed ran => rfl
            have hidle : ReaperStep cfg started s (.act snap) w s .done :=
              .idle w (fun _ heq => by cases heq)
            simpa [hfailed] using hidle
        | true =>
            cases hv : snap.verdict cfg with
            | crashResume =>
                simpa using ReaperStep.counted (w := w) (Snapshot.lt_of_crashResume hv)
            | cancel | failTest | giveUp =>
                have hfinished : ReaperStep cfg started s (.act snap) w
                    { s with doc := s.doc.reap started (snap.verdict cfg) } .done :=
                  .finished (by simp [hv])
                simpa [hv] using hfinished
      next =>
        cases h
        exact .idle w (fun _ heq => by cases heq)
  | enqueue snap =>
      cases h
      cases w with
      | done => exact .enqueued
      | failed ran => exact .raised ran
  | rollback snap =>
      cases h
      split
      · exact .rolledBack
      · exact .idle w (fun _ heq => by cases heq)
  | done => cases h

/-- Only a sweep of the reaper counts crash-resumes. -/
theorem ProcStep.crashResumeCount (h : ProcStep cfg i s p input s' p') :
    (s'.doc.crashResumeCount = s.doc.crashResumeCount ∧ p.sweeping = false ∧
      p'.sweeping = false ∧ p.owing = false ∧ p'.owing = false ∧ p.enqueuing = false) ∨
      ∃ started stage stage' w, p = .reaper started stage ∧ p' = .reaper started stage' ∧
        input = .act w ∧ ReaperStep cfg started s stage w s' stage' := by
  cases h with
  | worker h =>
      refine .inl ⟨?_, rfl, rfl, rfl, rfl, rfl⟩
      cases h with
      | begin env hbegins => cases hbegins <;> rfl
      | act w h => cases act_cases h <;> rfl
      | settle w => split <;> rfl
      | refuse | interrupt | finish => rfl
  | @decision approved stage stage' _ w h =>
      refine .inl ⟨?_, rfl, rfl, rfl, rfl, rfl⟩
      cases stage with
      | cas =>
          simp only [DecisionStage.step] at h
          split at h <;> cases h
          · split <;> rfl
          · rfl
      | read =>
          cases h
          rfl
      | enqueue approvalId | rollback approvalId =>
          cases h
          split <;> rfl
      | done => cases h
  | @cancel stage stage' _ w h =>
      refine .inl ⟨?_, rfl, rfl, rfl, rfl, rfl⟩
      cases stage with
      | cas =>
          simp only [CancelStage.step] at h
          split at h <;> cases h
          · split <;> rfl
          · rfl
      | read =>
          cases h
          rfl
      | mark status | flag status | cleanup =>
          cases h
          split <;> rfl
      | done => cases h
  | reaper w h => exact .inr ⟨_, _, _, w, rfl, rfl, rfl, ReaperStage.step_cases h⟩
  | @approvalSweep started stage stage' _ w h =>
      refine .inl ⟨?_, rfl, rfl, rfl, rfl, rfl⟩
      cases stage with
      | read =>
          cases h
          rfl
      | mark pending =>
          cases pending with
          | nil =>
              cases h
              rfl
          | cons a pending =>
              cases h
              split <;> rfl
      | fail a pending =>
          cases h
          split <;> rfl
      | done => cases h

end

/-! ## The limit -/

/-- What holds while sweeps do not overlap: the sweep that is about to act has seen the count that
is stored, so that the count stays within the limit. -/
structure Limited (limit : Int) (c : LifecycleRun) : Prop where
  sole : c.count Proc.sweeping ≤ 1
  fresh : ∀ i started snap, c.proc i = some (.reaper started (.act snap)) →
    snap.crashResumeCount = c.shared.doc.crashResumeCount
  capped : c.shared.doc.crashResumeCount ≤ limit

/-- What is left of the limit, and what is owed. -/
def allowance (limit : Int) (c : LifecycleRun) : Int :=
  limit - c.shared.doc.crashResumeCount + c.count Proc.owing

section
variable {cfg : LifecycleConfig} {limit : Int} {c d : LifecycleRun} {i : Nat} {s' : Lifecycle}
  {p p' : Proc}

/-- A process has moved. Unless it sweeps, the count stays; a sweep that comes to act has seen the
count. -/
theorem Limited.move (hc : Limited limit c) (hp : c.proc i = some p)
    (hsweeping : p'.sweeping = true → p.sweeping = true)
    (hcount : s'.doc.crashResumeCount = c.shared.doc.crashResumeCount ∨ p.sweeping = true)
    (hfresh : ∀ started snap, p' = .reaper started (.act snap) →
      snap.crashResumeCount = s'.doc.crashResumeCount)
    (hlimit : s'.doc.crashResumeCount ≤ limit) :
    Limited limit ⟨s', c.procs.set i (some p')⟩ where
  sole := by
    have hmove := Configuration.count_move (g := s') (m := p') hp Proc.sweeping
    have hsole := hc.sole
    cases h : p'.sweeping with
    | true =>
        simp only [h, hsweeping h, if_true] at hmove
        omega
    | false =>
        simp only [h, Bool.false_eq_true, if_false] at hmove
        omega
  fresh j started snap hj := by
    rcases Configuration.proc_set (g := c.shared) hj with ⟨rfl, heq⟩ | ⟨hne, hold⟩
    · exact hfresh started snap (Option.some.inj heq)
    · rcases hcount with hsame | hself
      · exact (hc.fresh j started snap hold).trans hsame.symm
      · -- two sweeps would overlap
        exact absurd (Configuration.eq_of_count_le_one hc.sole hold hp rfl hself) hne
  capped := hlimit

theorem owing_move (hp : c.proc i = some p) (s' : Lifecycle) (p' : Proc) :
    ((⟨s', c.procs.set i (some p')⟩ : LifecycleRun).count Proc.owing : Int) +
        (if p.owing then 1 else 0) =
      c.count Proc.owing + if p'.owing then 1 else 0 := by
  have hmove := Configuration.count_move (g := s') (m := p') hp Proc.owing
  split_ifs at hmove ⊢ <;> omega

/-- A step of a sweep pays for the job that it enqueues. -/
theorem ReaperStep.pays {started : Nat} {stage stage' : ReaperStage} {w : Write}
    (hlimit : cfg.maxCrashResumeAttempts ≤ limit) (hc : Limited limit c)
    (hp : c.proc i = some (.reaper started stage)) (hok : Orderly c (.step i (.act w)) = true)
    (h : ReaperStep cfg started c.shared stage w s' stage') :
    Limited limit ⟨s', c.procs.set i (some (.reaper started stage'))⟩ ∧
      crashResumes c (.step i (.act w)) +
          allowance limit ⟨s', c.procs.set i (some (.reaper started stage'))⟩ ≤
        allowance limit c := by
  have howing := owing_move hp s' (.reaper started stage')
  cases h with
  | found hstuck =>
      refine ⟨hc.move hp (fun _ => rfl) (.inl rfl) (fun _ _ heq => ?_) hc.capped, ?_⟩
      · cases heq
        rfl
      · simp [crashResumes, hp, Proc.enqueuing, allowance, Proc.owing] at howing ⊢
        omega
  | idle w hstage =>
      refine ⟨hc.move hp (fun h => by cases h) (.inl rfl) (fun _ _ heq => by cases heq)
        hc.capped, ?_⟩
      have hnone : (Proc.reaper started stage).enqueuing = false := by
        cases stage with
        | enqueue snap => exact absurd rfl (hstage snap)
        | read | act | rollback | done => rfl
      have hgone : (Proc.reaper started .done).owing = false := rfl
      simp only [crashResumes, hp, Option.any_some, hnone, Bool.false_and, Bool.false_eq_true,
        if_false, allowance]
      rw [hgone] at howing
      cases hown : (Proc.reaper started stage).owing <;> simp [hown] at howing <;> omega
  | @finished snap _ hverdict =>
      have hsame : (c.shared.doc.reap started (snap.verdict cfg)).crashResumeCount =
          c.shared.doc.crashResumeCount := by
        cases hv : snap.verdict cfg with
        | cancel | failTest | giveUp => rfl
        | crashResume => exact absurd hv hverdict
      refine ⟨hc.move hp (fun h => by cases h) (.inl hsame) (fun _ _ heq => by cases heq)
        (hsame.le.trans hc.capped), ?_⟩
      simp [crashResumes, hp, Proc.enqueuing, allowance, Proc.owing, hsame] at howing ⊢
      omega
  | @counted snap _ hlt =>
      have hseen := hc.fresh i started snap hp
      have hcount : (c.shared.doc.reap started .crashResume).crashResumeCount =
          c.shared.doc.crashResumeCount + 1 := rfl
      refine ⟨hc.move hp (fun _ => rfl) (.inr rfl) (fun _ _ heq => ?_) ?_, ?_⟩
      · split at heq <;> cases heq
      · show (c.shared.doc.reap started .crashResume).crashResumeCount ≤ limit
        omega
      · -- the sweep now owes the job, unless its write was reported as failed
        simp only [crashResumes, hp, Option.any_some, Proc.enqueuing, Bool.false_and,
          Bool.false_eq_true, if_false, allowance, hcount]
        cases hok' : w.ok <;> simp [Proc.owing, hok'] at howing ⊢ <;> omega
  | @enqueued snap =>
      refine ⟨hc.move hp (fun h => by cases h) (.inl rfl) (fun _ _ heq => by cases heq)
        hc.capped, ?_⟩
      simp [crashResumes, hp, Proc.enqueuing, allowance, Proc.owing, Write.ran,
        Lifecycle.enqueue] at howing ⊢
      omega
  | @raised snap ran =>
      -- by the condition no job was added
      have hran : ran = false := by
        simpa [Orderly, hp, Proc.enqueuing, Write.ran, Write.ok] using hok
      subst hran
      refine ⟨hc.move hp (fun _ => rfl) (.inl rfl) (fun _ _ heq => by cases heq) hc.capped, ?_⟩
      simp [crashResumes, hp, Proc.enqueuing, allowance, Proc.owing, Write.ran] at howing ⊢
      omega
  | @rolledBack snap =>
      refine ⟨hc.move hp (fun h => by cases h) (.inr rfl) (fun _ _ heq => by cases heq) ?_, ?_⟩
      · have := hc.capped
        show c.shared.doc.crashResumeCount - 1 ≤ limit
        omega
      · simp [crashResumes, hp, Proc.enqueuing, allowance, Proc.owing] at howing ⊢
        omega

/-- Every move pays for the job that it enqueues. -/
theorem orderly_pays (hlimit : cfg.maxCrashResumeAttempts ≤ limit) {m : LifecycleMove}
    (hc : Limited limit c) (hok : Orderly c m = true) (hm : (lifecycleSystem cfg).apply c m = some d) :
    Limited limit d ∧ crashResumes c m + allowance limit d ≤ allowance limit c := by
  cases m with
  | spawn x =>
      obtain ⟨⟨s', p⟩, hspawn, rfl⟩ := Option.map_eq_some_iff.mp hm
      obtain ⟨rfl, hstarts⟩ := lifecycleSystem_spawn hspawn
      have howing : p.owing = false := by cases hstarts <;> rfl
      refine ⟨⟨?_, fun i started snap hi => ?_, hc.capped⟩, ?_⟩
      · have hsole := hc.sole
        show (⟨c.shared, c.procs ++ [some p]⟩ : LifecycleRun).count Proc.sweeping ≤ 1
        rw [Configuration.count_append]
        cases x with
        | reap =>
            have hnone : c.count Proc.sweeping = 0 := by simpa [Orderly] using hok
            split <;> omega
        | deliver job =>
            have hidle : p.sweeping = false := by
              obtain ⟨q, hq, heq⟩ := Option.map_eq_some_iff.mp hspawn
              cases heq
              simp only [Spawn.proc] at hq
              split at hq <;> cases hq
              rfl
            simpa [hidle] using hsole
        | decide approved | cancel | sweepApprovals =>
            cases hspawn
            simpa [Proc.sweeping] using hsole
      · rcases Configuration.proc_append (g := c.shared) hi with ⟨-, rfl⟩ | hold
        · cases hstarts
        · exact hc.fresh i started snap hold
      · show ((0 : Nat) : Int) + (limit - c.shared.doc.crashResumeCount +
          (⟨c.shared, c.procs ++ [some p]⟩ : LifecycleRun).count Proc.owing) ≤ _
        rw [Configuration.count_append]
        simp [howing, allowance]
  | step i input =>
      obtain ⟨p, hp, hm⟩ := Option.bind_eq_some_iff.mp hm
      obtain ⟨⟨s', p'⟩, hstep, rfl⟩ := Option.map_eq_some_iff.mp hm
      rcases (Proc.step_cases hstep).crashResumeCount with
        ⟨hcount, hsweeping, hsweeping', howing, howing', henqueuing⟩ |
        ⟨started, stage, stage', w, rfl, rfl, rfl, hreaper⟩
      · refine ⟨hc.move hp (fun h => by simp [hsweeping'] at h) (.inl hcount)
          (fun started snap heq => ?_) (hcount.le.trans hc.capped), ?_⟩
        · subst heq
          cases hsweeping'
        · have hnone : crashResumes c (.step i input) = 0 := by
            cases input with
            | act w => simp [crashResumes, hp, henqueuing]
            | start env | refuse | interrupt => rfl
          have hsame := owing_move hp s' p'
          simp only [howing, howing', Bool.false_eq_true, if_false] at hsame
          simp only [hnone, allowance, hcount]
          omega
      · exact hreaper.pays hlimit hc hp hok
  | crash i =>
      cases hm
      refine ⟨⟨?_, fun j started snap hj => ?_, hc.capped⟩, ?_⟩
      · exact Configuration.count_crash_le.trans hc.sole
      · rcases Configuration.proc_set (g := c.shared) hj with ⟨-, heq⟩ | ⟨-, hold⟩
        · cases heq
        · exact hc.fresh j started snap hold
      · -- what a lost sweep owes is not paid any more
        have hle : (⟨c.shared, c.procs.set i none⟩ : LifecycleRun).count Proc.owing ≤
            c.count Proc.owing := Configuration.count_crash_le
        show ((0 : Nat) : Int) + (limit - c.shared.doc.crashResumeCount +
          (⟨c.shared, c.procs.set i none⟩ : LifecycleRun).count Proc.owing) ≤ _
        simp only [allowance]
        omega
  | env e =>
      obtain ⟨s', henv, rfl⟩ := Option.map_eq_some_iff.mp hm
      have hdoc : s'.doc = c.shared.doc := (Outside.apply_doc henv).1
      refine ⟨⟨hc.sole, fun i started snap hi => ?_, ?_⟩, ?_⟩
      · exact (hc.fresh i started snap hi).trans (congrArg _ hdoc).symm
      · exact (congrArg _ hdoc).le.trans hc.capped
      · show ((0 : Nat) : Int) + (limit - s'.doc.crashResumeCount + c.count Proc.owing) ≤ _
        simp [hdoc, allowance]

theorem lifecycleSystem_pays (hlimit : cfg.maxCrashResumeAttempts ≤ limit) :
    (lifecycleSystem cfg).Pays (fun c m => Orderly c m = true) (Limited limit) crashResumes
      (allowance limit) where
  keeps hc hok hm := (orderly_pays hlimit hc hok hm).1
  pays hc hok hm := (orderly_pays hlimit hc hok hm).2

/-- Before any process has started nothing is owed. -/
theorem Limited.of_start (hstart : c.procs = []) (hcount : c.shared.doc.crashResumeCount ≤ limit) :
    Limited limit c ∧ allowance limit c = limit - c.shared.doc.crashResumeCount := by
  have hnone : ∀ k, c.count k = 0 := fun k => by simp [Configuration.count, hstart]
  refine ⟨⟨?_, fun i started snap hi => ?_, hcount⟩, ?_⟩
  · rw [hnone]
    exact Nat.zero_le 1
  · simp [Configuration.proc, hstart] at hi
  · simp [allowance, hnone]

/-- Whatever has happened before, a run enqueues no more jobs than the allowance. -/
theorem Limited.resumes_le {ms : List LifecycleMove} (hlimit : cfg.maxCrashResumeAttempts ≤ limit)
    (hc : Limited limit c)
    (hrun : (lifecycleSystem cfg).Run (fun c m => Orderly c m = true) c ms d) :
    (crashResumesOf cfg c ms : Int) ≤ allowance limit c := by
  obtain ⟨hend, hspent⟩ := System.Run.spent_le (lifecycleSystem_pays hlimit) hc hrun
  have hleft : 0 ≤ allowance limit d := by
    have := hend.capped
    unfold allowance
    omega
  unfold crashResumesOf
  omega

/-- The attempts that are left to a document. -/
def ExecutionDocument.attemptsLeft (cfg : LifecycleConfig) (d : ExecutionDocument) : Int :=
  max 0 (cfg.maxCrashResumeAttempts - d.crashResumeCount)

theorem exists_allowance (cfg : LifecycleConfig) (hstart : c.procs = []) :
    ∃ limit, cfg.maxCrashResumeAttempts ≤ limit ∧ Limited limit c ∧
      allowance limit c = c.shared.doc.attemptsLeft cfg := by
  obtain ⟨hc, hallowance⟩ := Limited.of_start hstart
    (le_max_left c.shared.doc.crashResumeCount cfg.maxCrashResumeAttempts)
  refine ⟨_, le_max_right _ _, hc, ?_⟩
  rw [hallowance, ExecutionDocument.attemptsLeft]
  omega

/-- However the processes interleave, fail and are lost: the sweeps of a run enqueue no more jobs
than there are attempts left. -/
theorem crashResumes_bounded {c₀ : LifecycleRun} {ms : List LifecycleMove} (hstart : c₀.procs = [])
    (hrun : (lifecycleSystem cfg).Run (fun c m => Orderly c m = true) c₀ ms c) :
    (crashResumesOf cfg c₀ ms : Int) ≤ c₀.shared.doc.attemptsLeft cfg := by
  obtain ⟨limit, hlimit, hbegin, hallowance⟩ := exists_allowance cfg hstart
  exact hallowance ▸ hbegin.resumes_le hlimit hrun

/-- The worker of the execution never comes. A sweep every 5000 seconds starts it again three
times, and the fourth one gives it up. -/
def poisonRun : List LifecycleMove :=
  [Move.env (Outside.tick 5000)] ++ callMoves .reap 0 3 ++
    [Move.env (Outside.tick 10000)] ++ callMoves .reap 1 3 ++
    [Move.env (Outside.tick 15000)] ++ callMoves .reap 2 3 ++
    [Move.env (Outside.tick 20000)] ++ callMoves .reap 3 2

theorem poisonRun_bounded : ∃ c,
    (lifecycleSystem {}).Run (fun c m => Orderly c m = true) ⟨submitted approvalFlow, []⟩ poisonRun
      c ∧ c.shared.doc.terminal = true ∧
    crashResumesOf {} ⟨submitted approvalFlow, []⟩ poisonRun = 3 ∧
    (crashResumesOf {} ⟨submitted approvalFlow, []⟩ poisonRun : Int) ≤
      (submitted approvalFlow).doc.attemptsLeft {} := by
  have hplay : ((lifecycleSystem {}).play (fun c m => Orderly c m = true) poisonRun
      ⟨submitted approvalFlow, []⟩).any (fun c => c.shared.doc.terminal) = true := by
    decide +kernel
  obtain ⟨c, hc, hterminal⟩ := (Option.any_eq_true _ _).mp hplay
  have hrun := System.run_of_play hc
  exact ⟨c, hrun, hterminal, by decide +kernel, crashResumes_bounded rfl hrun⟩

/-! ## Sweeps that find the execution stuck -/

/-- A sweep finds the execution stuck and returns; no command of it fails, and nobody else takes a
step in between. -/
structure SweepsAlone (cfg : LifecycleConfig) (c : LifecycleRun) (ms : List LifecycleMove)
    (d : LifecycleRun) : Prop where
  stuck : c.shared.doc.stuck cfg c.shared.now = true
  run : (lifecycleSystem cfg).Run (fun c m => Orderly c m = true) c ms d
  moves : ∃ n, ms = callMoves .reap c.procs.length n
  returns : (d.proc c.procs.length).any Proc.returned = true

/-- A run in which `n` of the sweeps find the execution stuck, sweep alone, and leave it
unfinished. What happens before, between and after them is any run. -/
inductive Unfinished (cfg : LifecycleConfig) :
    Nat → LifecycleRun → List LifecycleMove → LifecycleRun → Prop where
  | run {c d : LifecycleRun} {ms : List LifecycleMove}
      (h : (lifecycleSystem cfg).Run (fun c m => Orderly c m = true) c ms d) :
      Unfinished cfg 0 c ms d
  | sweep {n : Nat} {c d e f : LifecycleRun} {ms ms' ms'' : List LifecycleMove}
      (hrun : (lifecycleSystem cfg).Run (fun c m => Orderly c m = true) c ms d)
      (hsweep : SweepsAlone cfg d ms' e) (hleft : e.shared.doc.terminal = false)
      (hrest : Unfinished cfg n e ms'' f) :
      Unfinished cfg (n + 1) c (ms ++ (ms' ++ ms'')) f

/-- The commands of process `i`, none of which fails. -/
abbrev commands (i n : Nat) : List LifecycleMove := List.replicate n (.step i (.act .done))

section
variable {started started' n : Nat}

theorem returned_stays (hp : c.proc i = some (.reaper started .done))
    (hrun : (lifecycleSystem cfg).Run (fun c m => Orderly c m = true) c (commands i n) d) :
    d = c := by
  cases n with
  | zero =>
      cases hrun
      rfl
  | succ n =>
      obtain ⟨l, g, l', hl, hstep, -⟩ := System.Run.step_inv hrun
      cases hp.symm.trans hl
      cases hstep

theorem enqueue_resumes {snap : Snapshot} (hp : c.proc i = some (.reaper started (.enqueue snap)))
    (hrun : (lifecycleSystem cfg).Run (fun c m => Orderly c m = true) c (commands i n) d)
    (hend : d.proc i = some (.reaper started' .done)) :
    1 ≤ crashResumesOf cfg c (commands i n) := by
  cases n with
  | zero =>
      cases hrun
      cases hp.symm.trans hend
  | succ n =>
      cases hrun with
      | cons hok hm hrun =>
          have hone : crashResumes c (.step i (.act .done)) = 1 := by
            simp [crashResumes, hp, Proc.enqueuing, Write.ran]
          show 1 ≤ (lifecycleSystem cfg).spent crashResumes c
            (.step i (.act .done) :: commands i n)
          rw [System.spent_cons hm, hone]
          exact Nat.le_add_right 1 _

/-- What comes after a first command counts. -/
theorem crashResumesOf_succ {e : LifecycleRun} (hm : (lifecycleSystem cfg).apply c
    (.step i (.act .done)) = some e) :
    crashResumesOf cfg e (commands i n) ≤ crashResumesOf cfg c (commands i (n + 1)) := by
  show _ ≤ (lifecycleSystem cfg).spent crashResumes c (.step i (.act .done) :: commands i n)
  rw [System.spent_cons hm]
  exact Nat.le_add_left _ _

theorem act_finishes (hp : c.proc i = some (.reaper started (.act c.shared.doc.snapshot)))
    (hrun : (lifecycleSystem cfg).Run (fun c m => Orderly c m = true) c (commands i n) d)
    (hend : d.proc i = some (.reaper started' .done)) :
    d.shared.doc.terminal = true ∨ 1 ≤ crashResumesOf cfg c (commands i n) := by
  cases n with
  | zero =>
      cases hrun
      cases hp.symm.trans hend
  | succ n =>
      cases hrun with
      | @cons _ e _ _ _ hok hm hrun =>
          have hafter := hm
          have hhits : c.shared.hits c.shared.doc.snapshot.status = true := by
            simp [Lifecycle.hits, ExecutionDocument.snapshot]
          simp only [System.apply, hp, Option.bind_some, lifecycleSystem, Proc.step,
            ReaperStage.step, hhits, if_true, Option.map_some, Write.ran, Write.ok,
            Option.some.injEq] at hafter
          cases hv : c.shared.doc.snapshot.verdict cfg with
          | crashResume =>
              right
              have henqueue : e.proc i =
                  some (.reaper started (.enqueue c.shared.doc.snapshot)) := by
                rw [← hafter, Configuration.proc_set_self hp]
                simp [hv]
              exact (enqueue_resumes henqueue hrun hend).trans (crashResumesOf_succ hm)
          | cancel | failTest | giveUp =>
              left
              have hreturned : e.proc i = some (.reaper started .done) := by
                rw [← hafter, Configuration.proc_set_self hp]
                simp [hv]
              rw [returned_stays hreturned hrun, ← hafter, hv]
              rfl

/-- A sweep that sweeps alone starts the execution again, unless it finishes it. -/
theorem SweepsAlone.finishes {ms : List LifecycleMove} (h : SweepsAlone cfg c ms d) :
    d.shared.doc.terminal = true ∨ 1 ≤ crashResumesOf cfg c ms := by
  obtain ⟨n, rfl⟩ := h.moves
  obtain ⟨p, hend, hreturned⟩ := (Option.any_eq_true _ _).mp h.returns
  obtain ⟨started', rfl⟩ := Proc.returned_eq hreturned
  have hstuck := h.stuck
  cases h.run with
  | @cons _ e _ _ _ hok hspawn hrun =>
      cases hspawn
      have hread : (⟨c.shared, c.procs ++ [some (.reaper c.shared.now .read)]⟩ :
          LifecycleRun).proc c.procs.length = some (.reaper c.shared.now .read) := by
        simp [Configuration.proc]
      cases n with
      | zero =>
          cases hrun
          cases hread.symm.trans hend
      | succ n =>
          cases hrun with
          | @cons _ e _ _ _ hok hm hrun =>
              have hafter := hm
              simp only [System.apply, hread, Option.bind_some, lifecycleSystem, Proc.step,
                ReaperStage.step, Write.ok, hstuck, and_self, if_true, Option.map_some,
                Option.some.injEq] at hafter
              subst hafter
              have hact := Configuration.proc_set_self (g := c.shared)
                (m := .reaper c.shared.now (.act c.shared.doc.snapshot)) hread
              refine (act_finishes hact hrun hend).imp_right fun hresumed => ?_
              refine (hresumed.trans (crashResumesOf_succ hm)).trans ?_
              show _ ≤ (lifecycleSystem cfg).spent crashResumes c
                (.spawn .reap :: commands c.procs.length (n + 1))
              rw [System.spent_cons rfl]
              exact Nat.le_add_left _ _

end

/-- Each of the sweeps has enqueued a job. -/
theorem Unfinished.run_resumes {n : Nat} {ms : List LifecycleMove} (h : Unfinished cfg n c ms d) :
    (lifecycleSystem cfg).Run (fun c m => Orderly c m = true) c ms d ∧
      n ≤ crashResumesOf cfg c ms := by
  induction h with
  | run hrun => exact ⟨hrun, Nat.zero_le _⟩
  | @sweep n c d e f ms ms' ms'' hrun hsweep hleft _ ih =>
      have hone : 1 ≤ crashResumesOf cfg d ms' :=
        hsweep.finishes.resolve_left (by simp [hleft])
      have hsum : crashResumesOf cfg c (ms ++ (ms' ++ ms'')) =
          crashResumesOf cfg c ms +
            (crashResumesOf cfg d ms' + crashResumesOf cfg e ms'') := by
        unfold crashResumesOf
        rw [hrun.spent_append, hsweep.run.spent_append]
      refine ⟨hrun.append (hsweep.run.append ih.1), ?_⟩
      have := ih.2
      omega

/-- An execution that more sweeps find stuck than there are attempts left is finished by one of
them. -/
theorem unfinished_sweeps_bounded {c₀ : LifecycleRun} {n : Nat} {ms : List LifecycleMove}
    (hstart : c₀.procs = []) (h : Unfinished cfg n c₀ ms c) :
    (n : Int) ≤ c₀.shared.doc.attemptsLeft cfg := by
  obtain ⟨hrun, hn⟩ := h.run_resumes
  obtain ⟨limit, hlimit, hbegin, hallowance⟩ := exists_allowance cfg hstart
  have hresumes := hallowance ▸ hbegin.resumes_le hlimit hrun
  exact (Int.ofNat_le.mpr hn).trans hresumes

/-- The first sweep over the execution whose worker never comes leaves it unfinished. -/
theorem abandoned_sweep_bounded : ∃ ms c,
    Unfinished {} 1 ⟨submitted approvalFlow, []⟩ ms c ∧
      ((1 : Nat) : Int) ≤ (submitted approvalFlow).doc.attemptsLeft {} := by
  have hplay : ((lifecycleSystem {}).play (fun c m => Orderly c m = true) (callMoves .reap 0 3)
      ⟨{ submitted approvalFlow with now := 5000 }, []⟩).any (fun c =>
        !c.shared.doc.terminal && (c.proc 0).any Proc.returned) = true := by
    decide +kernel
  obtain ⟨c, hc, hleft⟩ := (Option.any_eq_true _ _).mp hplay
  obtain ⟨hopen, hreturned⟩ := (Bool.and_eq_true _ _).mp hleft
  have hwait : (lifecycleSystem {}).Run (fun c m => Orderly c m = true)
      ⟨submitted approvalFlow, []⟩ [.env (.tick 5000)]
      ⟨{ submitted approvalFlow with now := 5000 }, []⟩ := .cons rfl rfl (.nil _)
  have hsweep : SweepsAlone {} ⟨{ submitted approvalFlow with now := 5000 }, []⟩
      (callMoves .reap 0 3) c :=
    ⟨by decide, System.run_of_play hc, ⟨3, rfl⟩, hreturned⟩
  have hrun := Unfinished.sweep hwait hsweep (by simpa using hopen) (.run (.nil c))
  exact ⟨_, c, hrun, unfinished_sweeps_bounded rfl hrun⟩

end

end CitraFlows
