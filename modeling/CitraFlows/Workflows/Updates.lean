-- SUMMARY: PUTs and schedule patches on one document: none is lost and none reverts another while no write falls between the read and the write of a request that checks or copies what it has read.
import CitraFlows.Workflows.Steps

/-!
# Updates

A PUT with an `expected_version` compares it with the version that it has read, and a patch
writes back the whole schedule that it has read, with its own changes. The write itself names
only the workflow.
-/

namespace CitraFlows

open Processes

/-! ## Lost updates -/

/-- The write of a PUT on the workflow that was to find the version `e`. -/
def StoreEvent.expects (id : String) (e : Int) : StoreEvent → Bool
  | .updated _ workflowId expectedVersion _ => workflowId = id && expectedVersion = some e
  | .patched .. => false

/-- The PUTs on a workflow with the same `expected_version` that were written. -/
def WorkflowStore.updates (s : WorkflowStore) (id : String) (e : Int) : List StoreEvent :=
  s.log.filter (·.expects id e)

structure WorkflowStore.LosesNone (s : WorkflowStore) : Prop where
  /-- At most one of the PUTs with the same `expected_version` succeeds. -/
  once : ∀ id e, (s.updates id e).length ≤ 1
  /-- A PUT that was written has found the version it expected. -/
  expected : ∀ i id e stored, .updated i id (some e) stored ∈ s.log → stored = e
  /-- A patch has left what it was not asked to change. -/
  kept : ∀ id enabled cronExpression before after,
    .patched id enabled cronExpression before after ∈ s.log →
      (enabled = none → after.enabled = before.enabled) ∧
      (cronExpression = none → after.cronExpression = before.cronExpression) ∧
      after.timezone = before.timezone

namespace WorkflowRequest

/-- The request writes what depends on the document it has read. -/
def guarded : WorkflowOp → Bool
  | .update body => body.expectedVersion.isSome
  | .patchSchedule _ _ => true
  | _ => false

/-- Such a request writes, and the version is not the one it has read. -/
def writesStale (s : WorkflowStore) (p : WorkflowRequest) (input : RequestInput) : Bool :=
  match p.stage with
  | .write read =>
      input.ran && guarded p.op && (s.docs p.workflowId).any (·.version ≠ read.version)
  | _ => false

end WorkflowRequest

/-- No other PUT, patch or rollback was written between the read and the write of a PUT with an
`expected_version` or of a patch. -/
abbrev Undisturbed : StoreRun → StoreMove → Prop :=
  NoStep fun c p input => p.writesStale c.shared input

/-! ## Versions -/

/-- A document later on: the version has not gone back, and while it is the same, so is the
schedule. -/
structure StoredWorkflow.Follows (old new : StoredWorkflow) : Prop where
  version : old.version ≤ new.version
  schedule : new.version = old.version → new.schedule = old.schedule

namespace StoredWorkflow.Follows

variable {old doc new : StoredWorkflow}

theorem same (hversion : new.version = old.version) (hschedule : new.schedule = old.schedule) :
    old.Follows new :=
  ⟨hversion.ge, fun _ => hschedule⟩

theorem edited (h : new.version = old.version + 1) : old.Follows new := by
  refine ⟨by omega, ?_⟩
  intro heq
  omega

theorem trans (h : old.Follows doc) (h' : doc.Follows new) : old.Follows new := by
  have hle := h.version
  have hle' := h'.version
  refine ⟨by omega, ?_⟩
  intro heq
  rw [h'.schedule (by omega), h.schedule (by omega)]

end StoredWorkflow.Follows

/-- The write of a PUT or of a patch counts as an edit; the others leave the schedule. -/
theorem WorkflowRequest.write_follows (read doc : StoredWorkflow) (op : WorkflowOp) :
    doc.Follows (write read doc op) := by
  cases op with
  | update body => exact .edited rfl
  | patchSchedule enabled cronExpression => exact .edited rfl
  | _ => exact .same rfl rfl

theorem LiveWrite.apply_follows (number : Nat) (doc : StoredWorkflow) (lw : LiveWrite) :
    doc.Follows (lw.apply number doc) := by
  cases lw with
  | deploy token secret => exact .same rfl rfl
  | rollback target => exact .edited rfl

/-- The documents of `s'` follow those of `s`. -/
def WorkflowStore.Follows (s s' : WorkflowStore) : Prop :=
  ∀ id doc, s.docs id = some doc → ∃ doc', s'.docs id = some doc' ∧ doc.Follows doc'

namespace WorkflowStore.Follows

variable {s s' : WorkflowStore}

theorem of_docs (h : s'.docs = s.docs) : s.Follows s' := by
  intro id doc hdoc
  exact ⟨doc, by rw [h, hdoc], .same rfl rfl⟩

theorem update {id : String} {f : StoredWorkflow → StoredWorkflow}
    (h : s'.docs = Function.update s.docs id ((s.docs id).map f))
    (hf : ∀ doc : StoredWorkflow, doc.Follows (f doc)) : s.Follows s' := by
  intro id' doc hdoc
  rw [h]
  by_cases heq : id' = id
  · subst heq
    exact ⟨f doc, by rw [Function.update_self, hdoc]; rfl, hf doc⟩
  · exact ⟨doc, by rw [Function.update_of_ne heq, hdoc], .same rfl rfl⟩

end WorkflowStore.Follows

theorem RequestStep.follows {cfg : StoreConfig} {i : Nat} {input : RequestInput}
    {s s' : WorkflowStore} {p : WorkflowRequest} {stage : WorkflowStage}
    (h : RequestStep cfg i input s p s' stage) : s.Follows s' := by
  cases h with
  | @inserts new hran hstage hnew =>
      intro id doc hdoc
      have hne : id ≠ new.workflowId := by
        rintro rfl
        rw [hnew] at hdoc
        cases hdoc
      exact ⟨doc, (Function.update_of_ne hne _ _).trans hdoc, .same rfl rfl⟩
  | commits hran hstage =>
      exact .update (WorkflowRequest.commit_docs _) (WorkflowRequest.write_follows _ · _)
  | drafts hran hstage => exact .update rfl fun doc => .edited rfl
  | goesLive hran hstage => exact .update rfl (LiveWrite.apply_follows _ · _)
  | reads hop hdoc hadmits hdraw | deploys hop hdoc hnodes hgate hdraw =>
      exact .of_docs hdraw.frame.1
  | _ => exact .of_docs rfl

/-! ## Pending writes -/

/-- The document is later than the one that the request has read, which was the one that it
expected. -/
def WorkflowRequest.Pending (s : WorkflowStore) (p : WorkflowRequest) : Prop :=
  ∀ read, p.stage = .write read →
    (∃ doc, s.docs p.workflowId = some doc ∧ read.Follows doc) ∧
    ∀ body, p.op = .update body → body.expectedVersion.all (read.version = ·) = true

theorem WorkflowRequest.Pending.follows {s s' : WorkflowStore} {p : WorkflowRequest}
    (h : p.Pending s) (hs : s.Follows s') : p.Pending s' := by
  intro read hstage
  obtain ⟨⟨doc, hdoc, hread⟩, hexpected⟩ := h read hstage
  obtain ⟨doc', hdoc', hfollows⟩ := hs _ doc hdoc
  exact ⟨⟨doc', hdoc', hread.trans hfollows⟩, hexpected⟩

theorem WorkflowRequest.Pending.become {s : WorkflowStore} {p : WorkflowRequest}
    {stage : WorkflowStage} (h : ∀ read, stage ≠ .write read) : (p.become stage).Pending s :=
  fun read hstage => absurd hstage (h read)

theorem RequestStep.pending {cfg : StoreConfig} {i : Nat} {input : RequestInput}
    {s s' : WorkflowStore} {p : WorkflowRequest} {stage : WorkflowStage}
    (h : RequestStep cfg i input s p s' stage) : (p.become stage).Pending s' := by
  cases h with
  | @reads s₁ doc hop hdoc hadmits hdraw =>
      intro read hstage
      cases hstage
      refine ⟨⟨doc, by rw [hdraw.frame.1]; exact hdoc, .same rfl rfl⟩, ?_⟩
      intro body hop
      simp only [WorkflowRequest.become_op] at hop
      simp only [hop, WorkflowRequest.admits, UpdateWorkflowRequest.admits, Bool.and_eq_true]
        at hadmits
      exact hadmits.1
  | snapshots hran hstage hnew hnext | prunes hran hstage hnext =>
      refine .become ?_
      rcases hnext with rfl | rfl <;> exact fun _ => WorkflowStage.noConfusion
  | _ => exact .become fun _ => WorkflowStage.noConfusion

/-! ## The log -/

/-- The log says nothing of an update that was lost, and a document is past every version that
a PUT has found. -/
structure WorkflowStore.Recorded (s : WorkflowStore) : Prop extends s.LosesNone where
  past : ∀ i id e stored, .updated i id e stored ∈ s.log →
    ∃ doc, s.docs id = some doc ∧ stored < doc.version

theorem WorkflowStore.Recorded.follows {s s' : WorkflowStore} (h : s.Recorded)
    (hlog : s'.log = s.log) (hs : s.Follows s') : s'.Recorded where
  once := by
    intro id e
    rw [updates, hlog]
    exact h.once id e
  expected := by
    rw [hlog]
    exact h.expected
  kept := by
    rw [hlog]
    exact h.kept
  past := by
    intro i id e stored hev
    rw [hlog] at hev
    obtain ⟨doc, hdoc, hlt⟩ := h.past i id e stored hev
    obtain ⟨doc', hdoc', hfollows⟩ := hs id doc hdoc
    exact ⟨doc', hdoc', lt_of_lt_of_le hlt hfollows.version⟩

theorem WorkflowStore.LosesNone.patched {s s' : WorkflowStore} (h : s.LosesNone) {id : String}
    {enabled : Option Bool} {cronExpression : Option String} {schedule : ScheduleConfig}
    (hlog : s'.log = .patched id enabled cronExpression schedule
      (schedule.patch enabled cronExpression) :: s.log) : s'.LosesNone where
  once := by
    intro id e
    simp only [updates, hlog, List.filter_cons, StoreEvent.expects]
    exact h.once id e
  expected := by
    intro i id e stored hev
    rw [hlog] at hev
    rcases List.mem_cons.mp hev with hev | hev
    · cases hev
    · exact h.expected i id e stored hev
  kept := by
    intro id' enabled' cron' before after hev
    rw [hlog] at hev
    rcases List.mem_cons.mp hev with hev | hev
    · cases hev
      refine ⟨?_, ?_, ?_⟩
      · rintro rfl
        cases cronExpression <;> rfl
      · rintro rfl
        rfl
      · cases cronExpression <;> rfl
    · exact h.kept id' enabled' cron' before after hev

/-- A PUT that finds the version it expects is the only one of its kind: the document was never
at that version when another one was written. -/
theorem WorkflowStore.Recorded.updated {s s' : WorkflowStore} (h : s.Recorded) {i : Nat}
    {id : String} {expectedVersion : Option Int} {doc : StoredWorkflow}
    (hdoc : s.docs id = some doc) (hexpected : expectedVersion.all (doc.version = ·) = true)
    (hlog : s'.log = .updated i id expectedVersion doc.version :: s.log) : s'.LosesNone where
  once := by
    intro id' e
    simp only [updates, hlog, List.filter_cons]
    split
    next hev =>
      -- an earlier one would have left a later version
      simp only [StoreEvent.expects, Bool.and_eq_true, decide_eq_true_eq] at hev
      obtain ⟨rfl, rfl⟩ := hev
      have hnone : s.updates id e = [] := by
        rw [updates, List.filter_eq_nil_iff]
        intro ev hmem hev
        cases ev with
        | patched => cases hev
        | updated j id' e' stored =>
            simp only [StoreEvent.expects, Bool.and_eq_true, decide_eq_true_eq] at hev
            obtain ⟨rfl, rfl⟩ := hev
            obtain ⟨doc', hdoc', hlt⟩ := h.past _ _ _ _ hmem
            have hstored := h.expected _ _ _ _ hmem
            obtain rfl : doc = doc' := Option.some.inj (hdoc.symm.trans hdoc')
            simp only [Option.all_some, decide_eq_true_eq] at hexpected
            omega
      rw [updates] at hnone
      simp [hnone]
    next => exact h.once id' e
  expected := by
    intro j id' e stored hev
    rw [hlog] at hev
    rcases List.mem_cons.mp hev with hev | hev
    · cases hev
      simpa using hexpected
    · exact h.expected j id' e stored hev
  kept := by
    intro id' enabled cron before after hev
    rw [hlog] at hev
    rcases List.mem_cons.mp hev with hev | hev
    · cases hev
    · exact h.kept id' enabled cron before after hev

/-- The write of a request that is still up to date. -/
theorem WorkflowRequest.commit_recorded {s : WorkflowStore} {p : WorkflowRequest} {i : Nat}
    {read : StoredWorkflow} (h : s.Recorded) (hp : p.Pending s) (hstage : p.stage = .write read)
    (hfresh : guarded p.op = true → ∀ doc, s.docs p.workflowId = some doc →
      doc.version = read.version) : (p.commit i read s).Recorded := by
  obtain ⟨⟨doc, hdoc, hread⟩, hexpected⟩ := hp read hstage
  have hdocs : s.Follows (p.commit i read s) := .update (commit_docs _) (write_follows _ · _)
  have hlog := commit_log (i := i) (s := s) (p := p) read
  rw [hdoc, Option.bind_some] at hlog
  cases hop : p.op with
  | update body =>
      have hlog : (p.commit i read s).log =
          .updated i p.workflowId body.expectedVersion doc.version :: s.log := by
        rw [hlog, noted, hop]
        rfl
      refine ⟨h.updated hdoc ?_ hlog, ?_⟩
      · cases he : body.expectedVersion with
        | none => rfl
        | some e =>
            have hversion := hexpected body hop
            rw [← he, hfresh (by simp [hop, guarded, he]) doc hdoc]
            exact hversion
      · intro j id e stored hev
        rw [hlog] at hev
        rcases List.mem_cons.mp hev with hev | hev
        · cases hev
          refine ⟨body.write doc, ?_, Int.lt_succ doc.version⟩
          rw [commit_docs, Function.update_self, hdoc, hop]
          rfl
        · obtain ⟨old, hold, hlt⟩ := h.past j id e stored hev
          obtain ⟨new, hnew, hfollows⟩ := hdocs id old hold
          exact ⟨new, hnew, lt_of_lt_of_le hlt hfollows.version⟩
  | patchSchedule enabled cronExpression =>
      have hschedule := hread.schedule (hfresh (by simp [hop, guarded]) doc hdoc)
      have hlog : (p.commit i read s).log = .patched p.workflowId enabled cronExpression doc.schedule
          (doc.schedule.patch enabled cronExpression) :: s.log := by
        rw [hlog, noted, hop, hschedule]
        rfl
      refine ⟨h.patched hlog, ?_⟩
      intro j id e stored hev
      rw [hlog] at hev
      rcases List.mem_cons.mp hev with hev | hev
      · cases hev
      · obtain ⟨old, hold, hlt⟩ := h.past j id e stored hev
        obtain ⟨new, hnew, hfollows⟩ := hdocs id old hold
        exact ⟨new, hnew, lt_of_lt_of_le hlt hfollows.version⟩
  | _ =>
      refine h.follows ?_ hdocs
      rw [hlog, noted, hop]
      rfl

theorem RequestStep.recorded {cfg : StoreConfig} {i : Nat} {input : RequestInput}
    {s s' : WorkflowStore} {p : WorkflowRequest} {stage : WorkflowStage}
    (h : RequestStep cfg i input s p s' stage) (hs : s.Recorded) (hp : p.Pending s)
    (hok : p.writesStale s input = false) : s'.Recorded := by
  have hfollows := h.follows
  cases h with
  | @commits read hran hstage =>
      refine WorkflowRequest.commit_recorded hs hp hstage ?_
      intro hguarded doc hdoc
      simpa [WorkflowRequest.writesStale, hstage, hran, hguarded, hdoc] using hok
  | reads hop hdoc hadmits hdraw | deploys hop hdoc hnodes hgate hdraw =>
      exact hs.follows hdraw.frame.2.2.2 hfollows
  | _ => exact hs.follows rfl hfollows

/-! ## Runs -/

theorem workflowSystem_updates (cfg : StoreConfig) :
    (workflowSystem cfg).Invariant Undisturbed (fun _ s => s.Recorded)
      (fun s _ p => p.Pending s) where
  spawn := by
    intro c x s' p hc _ h
    cases h
    exact ⟨hc.1, .become (p := ⟨x.workflowId, x.op, .find⟩) fun _ => WorkflowStage.noConfusion, hc.2⟩
  step := by
    intro c i input p s' p' hc hok hi h
    obtain ⟨hs, hps⟩ := hc
    obtain ⟨hp', hstep⟩ := WorkflowRequest.step_sound h
    refine ⟨hstep.recorded hs (hps i p hi) (hok p hi), ?_, ?_⟩
    · rw [hp']
      exact hstep.pending
    · intro j q _ hj
      exact (hps j q hj).follows hstep.follows
  env := by
    intro c e s' _ _ h
    exact e.elim

/-- No update is lost in a run in which nothing is written between the read and the write of a
request that depends on what it has read. -/
theorem WorkflowStore.no_lost_update {cfg : StoreConfig} {c₀ c : StoreRun}
    (hstart : c₀.procs = []) (hlog : c₀.shared.log = [])
    (hreach : (workflowSystem cfg).Reaches Undisturbed c₀ c) : c.shared.LosesNone := by
  have hbegin : c₀.shared.Recorded := by
    refine ⟨⟨?_, ?_, ?_⟩, ?_⟩
    · intro id e
      simp [updates, hlog]
    · intro i id e stored hev
      rw [hlog] at hev
      cases hev
    · intro id enabled cron before after hev
      rw [hlog] at hev
      cases hev
    · intro i id e stored hev
      rw [hlog] at hev
      cases hev
  exact (hreach.inv (workflowSystem_updates cfg) (.of_start hstart hbegin)).1.toLosesNone

/-- A PUT of a name with the version 1. -/
def putsName (name : String) : StoreMove :=
  StoreMove.begin "report" (.update { name := some name, expectedVersion := some 1 })

/-- Two PUTs with the same version one after the other, and a patch. -/
def putsInTurn : List StoreMove :=
  createsReport ++ putsName "Monthly" :: StoreMove.commands 1 2 ++
    putsName "Weekly" :: StoreMove.commands 2 1 ++
    StoreMove.begin "report" (.patchSchedule (some true) none) :: StoreMove.commands 3 2

/-- Both PUTs read the document before one of them writes it. -/
def putsAtOnce : List StoreMove :=
  createsReport ++ [putsName "Monthly", putsName "Weekly"] ++ StoreMove.commands 1 1 ++
    StoreMove.commands 2 2 ++ StoreMove.commands 1 1

theorem putsInTurn_loses_none : ∃ c,
    (workflowSystem bareStore).Reaches Undisturbed ⟨{}, []⟩ c ∧
      c.shared.log.length = 2 ∧ c.shared.LosesNone := by
  have hplay : ((workflowSystem bareStore).play Undisturbed putsInTurn ⟨{}, []⟩).any
      (fun c => c.shared.log.length = 2) = true := by
    decide +kernel
  obtain ⟨c, hreach, hlog⟩ := System.exists_reaches_of_play _ _ _ _ _ hplay
  exact ⟨c, hreach, by simpa using hlog, WorkflowStore.no_lost_update rfl rfl hreach⟩

/-- Two PUTs with the same version both succeed. -/
theorem putsAtOnce_loses_one : ¬ ∀ (cfg : StoreConfig) (s : WorkflowStore), s.log = [] →
    ∀ c, (workflowSystem cfg).Reaches (fun _ _ => True) ⟨s, []⟩ c → c.shared.LosesNone := by
  intro hclaim
  have hplay : ((workflowSystem bareStore).play (fun _ _ => True) putsAtOnce ⟨{}, []⟩).any
      (fun c => (c.shared.updates "report" 1).length = 2) = true := by
    decide +kernel
  obtain ⟨c, hreach, htwo⟩ := System.exists_reaches_of_play _ _ _ _ _ hplay
  have honce := (hclaim bareStore {} rfl c hreach).once "report" 1
  simp only [decide_eq_true_eq] at htwo
  omega

end CitraFlows
