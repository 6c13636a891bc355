-- SUMMARY: The sweep of orphaned blobs deletes no media of a live run, unless it reads an execution that is stored as queued or not stored yet.
import CitraFlows.Media.Model

/-!
# The sweep of orphaned blobs

The sweep judges an execution by its stored status. An execution waiting in the queue, or running
without a checkpoint so far, is stored as `queued`, which is not among the statuses that the
sweep takes for alive; and an upload is stored before its execution.
-/

namespace CitraFlows

open Processes

/-! ## Live executions -/

def CreationStage.underWay : CreationStage → Bool
  | .done => false
  | _ => true

/-- A trigger that has drawn the id of the execution is under way. -/
def creating (c : MediaRun) (id : String) : Bool :=
  c.procs.any fun o => o.any fun
    | .creation p => p.executionId = id && p.stage.underWay
    | _ => false

/-- The execution has not reached a terminal status: it is stored, or its trigger is under way. -/
def liveExecution (c : MediaRun) (id : String) : Bool :=
  !c.shared.terminated id && ((c.shared.executions id).isSome || creating c id)

/-- A step of a sweep. -/
def sweeps (c : MediaRun) : MediaMove → Bool
  | .step i _ =>
      (c.proc i).any fun
        | .sweep _ => true
        | _ => false
  | _ => false

/-- The sweep reads the executions of its blobs, and one of them, in its scope, is stored as
queued or not stored yet. -/
def BlobSweep.misjudges (c : MediaRun) (w : Write) (p : BlobSweep) : Bool :=
  match p.stage with
  | .find orgWfIds blobs =>
      w.ok && p.delete && blobs.any fun b => b.executionId ≠ "" &&
        match c.shared.executions b.executionId with
        | some e =>
            e.status = .queued &&
              orgWfIds.all fun mine => e.workflowId ≠ "" && mine e.workflowId
        | none => orgWfIds.isNone && creating c b.executionId
  | _ => false

/-- No sweep reads the executions of its blobs while one of them is stored as queued or not
stored yet. -/
def SparesWaiting (c : MediaRun) : MediaMove → Prop
  | .step i (.next w) =>
      (c.proc i).all (fun
        | .sweep p => !p.misjudges c w
        | _ => true) = true
  | _ => True

instance (c : MediaRun) (m : MediaMove) : Decidable (SparesWaiting c m) :=
  match m with
  | .step _ (.next _) => inferInstanceAs (Decidable (_ = true))
  | .step _ (.putBlob ..) | .step _ (.save ..) | .step _ (.sweepOwn _) | .spawn _ | .crash _ |
    .env _ => .isTrue trivial

/-! ## Steps -/

/-- What a step of a process does. -/
inductive MediaStep (input : MediaInput) (s : MediaStore) :
    MediaProcess → MediaStore → MediaProcess → Prop
  | ends {p : RunCreation} {stage : CreationStage} (hstage : p.stage.underWay = true)
      (hnext : stage = .insert ∨ stage = .markFailed ∨ stage = .done) :
      MediaStep input s (.creation p) s (.creation (p.become stage))
  | uploads {p : RunCreation} {id : String} {size : Nat} {stage : CreationStage}
      (hstage : p.stage.underWay = true) (hnew : id ∉ s.blobIds)
      (hnext : stage = .insert ∨ stage = .done) :
      MediaStep input s (.creation p) (s.putBlob id p.executionId size) (.creation (p.become stage))
  | inserts {p : RunCreation} {stage : CreationStage} (hstage : p.stage = .insert)
      (hnext : stage = .enqueue ∨ stage = .done) :
      MediaStep input s (.creation p) (s.setExecution p.executionId ⟨p.workflowId, .queued⟩)
        (.creation (p.become stage))
  | enqueues {p : RunCreation} {stage : CreationStage} (hstage : p.stage = .enqueue)
      (hnext : stage = .markFailed ∨ stage = .done) :
      MediaStep input s (.creation p) (s.addJob p.executionId) (.creation (p.become stage))
  | fails {p : RunCreation} (hstage : p.stage.underWay = true) :
      MediaStep input s (.creation p) (s.setStatus p.executionId (.written .failed))
        (.creation (p.become .done))
  | stores {p : MediaWorker} {id : String} {size : Nat} (hnew : id ∉ s.blobIds) :
      MediaStep input s (.worker p) (s.putBlob id p.executionId size) (.worker p)
  | saves {p : MediaWorker} {status : ExecutionStatus} :
      MediaStep input s (.worker p) (s.setExecution p.executionId ⟨p.workflowId, .written status⟩)
        (.worker { p with status })
  | cleans {p : MediaWorker} :
      MediaStep input s (.worker p) (s.dropBlobs (·.executionId = p.executionId)) (.worker p)
  | idles {p p' : MediaWorker} (hsame : p'.executionId = p.executionId) :
      MediaStep input s (.worker p) s (.worker p')
  | stops {p : BlobSweep} {report : Option SweepReport} :
      MediaStep input s (.sweep p) s (.sweep (p.become (.done report)))
  | asks {p : BlobSweep} {orgWfIds : Option (String → Bool)} :
      MediaStep input s (.sweep p) s (.sweep (p.become (.list orgWfIds)))
  | lists {p : BlobSweep} {orgWfIds : Option (String → Bool)} :
      MediaStep input s (.sweep p) s (.sweep (p.become (.find orgWfIds s.blobs)))
  | finds {p : BlobSweep} {orgWfIds : Option (String → Bool)} {blobs : List Blob}
      {report : SweepReport} (hstage : p.stage = .find orgWfIds blobs)
      (hinput : input = .next .done) :
      MediaStep input s (.sweep p) s (.sweep (p.become (.scan orgWfIds s.executions blobs report)))
  | keeps {p : BlobSweep} {orgWfIds : Option (String → Bool)}
      {found : String → Option ExecutionEntry} {b : Blob} {blobs : List Blob}
      {report report' : SweepReport} (hstage : p.stage = .scan orgWfIds found (b :: blobs) report) :
      MediaStep input s (.sweep p) s (.sweep (p.become (.scan orgWfIds found blobs report')))
  | deletes {p : BlobSweep} {orgWfIds : Option (String → Bool)}
      {found : String → Option ExecutionEntry} {b : Blob} {blobs : List Blob}
      {report report' : SweepReport} (hstage : p.stage = .scan orgWfIds found (b :: blobs) report)
      (hdelete : p.delete = true)
      (horphan : blobVerdict s.now orgWfIds b (BlobSweep.lookup found b) = .orphan) :
      MediaStep input s (.sweep p) (s.dropBlobs (·.id = b.id))
        (.sweep (p.become (.scan orgWfIds found blobs report')))

theorem RunCreation.next_sound {s s' : MediaStore} {p p' : RunCreation} {w : Write}
    (h : p.next w s = some (s', p')) : MediaStep (.next w) s (.creation p) s' (.creation p') := by
  unfold next at h
  split at h
  next hstage =>
    split at h
    next id size hupload =>
      split at h
      next => cases h
      next hnew =>
        cases h
        have hnew : id ∉ s.blobIds := by simpa using hnew
        have hunderWay : p.stage.underWay = true := by rw [hstage]; rfl
        cases w with
        | done => exact .uploads hunderWay hnew (.inl rfl)
        | failed ran =>
            cases ran with
            | true => exact .uploads hunderWay hnew (.inr rfl)
            | false => exact .ends hunderWay (.inr (.inr rfl))
    next => cases h
  next hstage =>
    cases h
    cases w with
    | done => exact .inserts hstage (.inl rfl)
    | failed ran =>
        cases ran with
        | true => exact .inserts hstage (.inr rfl)
        | false => exact .ends (by rw [hstage]; rfl) (.inr (.inr rfl))
  next hstage =>
    cases h
    cases w with
    | done => exact .enqueues hstage (.inr rfl)
    | failed ran =>
        cases ran with
        | true => exact .enqueues hstage (.inl rfl)
        | false => exact .ends (by rw [hstage]; rfl) (.inr (.inl rfl))
  next hstage =>
    cases h
    split
    next => exact .fails (by rw [hstage]; rfl)
    next => exact .ends (by rw [hstage]; rfl) (.inr (.inr rfl))
  next => cases h

theorem MediaWorker.step_sound {s s' : MediaStore} {p p' : MediaWorker} {input : MediaInput}
    (h : p.step input s = some (s', p')) : MediaStep input s (.worker p) s' (.worker p') := by
  unfold step at h
  split at h
  next id size w =>
    split at h
    next => cases h
    next hnew =>
      cases h
      split
      next => exact .stores (by simpa using hnew)
      next => exact .idles rfl
  next status w =>
    cases h
    split
    next => exact .saves
    next => exact .idles rfl
  next w =>
    split at h
    next =>
      cases h
      split
      next => exact .cleans
      next => exact .idles rfl
    next => cases h
  next => cases h

theorem BlobSweep.next_sound {s s' : MediaStore} {p p' : BlobSweep} {w : Write}
    (h : p.next w s = some (s', p')) : MediaStep (.next w) s (.sweep p) s' (.sweep p') := by
  unfold next at h
  split at h
  next =>
    cases h
    split
    next => exact .asks
    next => exact .stops
  next =>
    cases h
    split
    next => exact .lists
    next => exact .stops
  next orgWfIds blobs hstage =>
    cases h
    cases w with
    | done => exact .finds hstage rfl
    | failed ran => exact .stops
  next orgWfIds found b blobs report hstage =>
    cases h
    split
    next hdeletes =>
      simp only [Bool.and_eq_true, decide_eq_true_eq] at hdeletes
      exact .deletes hstage hdeletes.1.1 hdeletes.1.2
    next => exact .keeps hstage
  next =>
    cases h
    exact .stops
  next => cases h

theorem MediaProcess.step_sound {s s' : MediaStore} {p p' : MediaProcess} {input : MediaInput}
    (h : p.step input s = some (s', p')) : MediaStep input s p s' p' := by
  cases p with
  | creation p =>
      cases input with
      | next w =>
          obtain ⟨⟨s₁, p₁⟩, hnext, heq⟩ := Option.map_eq_some_iff.mp h
          cases heq
          exact RunCreation.next_sound hnext
      | _ => cases h
  | worker p =>
      obtain ⟨⟨s₁, p₁⟩, hstep, heq⟩ := Option.map_eq_some_iff.mp h
      cases heq
      exact MediaWorker.step_sound hstep
  | sweep p =>
      cases input with
      | next w =>
          obtain ⟨⟨s₁, p₁⟩, hnext, heq⟩ := Option.map_eq_some_iff.mp h
          cases heq
          exact BlobSweep.next_sound hnext
      | _ => cases h

/-! ## Invariants -/

/-- What holds of the store: a terminal status was recorded, only what was drawn is stored, and a
file has one owner. -/
structure MediaStore.Consistent (s : MediaStore) : Prop where
  terminal : ∀ id e, s.executions id = some e → e.status.terminal = true → s.terminated id = true
  known : ∀ id, (s.executions id).isSome = true → id ∈ s.executionIds
  jobs : ∀ id ∈ s.jobs, (s.executions id).isSome = true
  named : "" ∉ s.executionIds
  drawn : ∀ b ∈ s.blobs, b.id ∈ s.blobIds
  owner : ∀ b ∈ s.blobs, ∀ b' ∈ s.blobs, b'.id = b.id → b'.executionId = b.executionId
  owned : ∀ b ∈ s.blobs, b.executionId = "" ∨ b.executionId ∈ s.executionIds

/-- The blobs that a sweep still has before it. -/
def BlobSweepStage.blobs : BlobSweepStage → List Blob
  | .find _ blobs | .scan _ _ blobs _ => blobs
  | _ => []

/-- A listed blob: a stored file with its id is of the same execution. -/
structure Blob.Listed (s : MediaStore) (b : Blob) : Prop where
  drawn : b.id ∈ s.blobIds
  owner : ∀ b' ∈ s.blobs, b'.id = b.id → b'.executionId = b.executionId
  owned : b.executionId = "" ∨ b.executionId ∈ s.executionIds

def MediaProcess.Consistent (s : MediaStore) : MediaProcess → Prop
  | .creation p =>
      p.executionId ∈ s.executionIds ∧
        (p.stage = .enqueue → (s.executions p.executionId).isSome = true)
  | .worker p => (s.executions p.executionId).isSome = true
  | .sweep p => ∀ b ∈ p.stage.blobs, b.Listed s

/-! ### Writes -/

/-- A later store: nothing drawn or stored is forgotten, and new files have new ids. -/
structure MediaStore.Extends (s s' : MediaStore) : Prop where
  executions : ∀ id, (s.executions id).isSome = true → (s'.executions id).isSome = true
  executionIds : s.executionIds ⊆ s'.executionIds
  blobIds : s.blobIds ⊆ s'.blobIds
  blobs : ∀ b ∈ s'.blobs, b ∈ s.blobs ∨ b.id ∉ s.blobIds
  terminated : ∀ id, s.terminated id = true → s'.terminated id = true

namespace MediaStore.Extends

variable {s s' : MediaStore}

theorem refl (s : MediaStore) : s.Extends s :=
  ⟨fun _ h => h, List.Subset.refl _, List.Subset.refl _, fun _ h => .inl h, fun _ h => h⟩

theorem putBlob {id : String} (hnew : id ∉ s.blobIds) (executionId : String) (size : Nat) :
    s.Extends (s.putBlob id executionId size) where
  executions := fun _ h => h
  executionIds := List.Subset.refl _
  blobIds := List.subset_cons_self _ _
  blobs := by
    intro b hb
    rcases List.mem_append.mp hb with hb | hb
    · exact .inl hb
    · rw [List.mem_singleton.mp hb]
      exact .inr hnew
  terminated := fun _ h => h

theorem setExecution (id : String) (e : ExecutionEntry) : s.Extends (s.setExecution id e) where
  executions := by
    intro id' h
    by_cases heq : id' = id
    · subst heq
      simp [MediaStore.setExecution]
    · simpa [MediaStore.setExecution, Function.update_of_ne heq] using h
  executionIds := List.Subset.refl _
  blobIds := List.Subset.refl _
  blobs := fun _ h => .inl h
  terminated := by
    intro id' h
    by_cases heq : id' = id
    · subst heq
      simp [MediaStore.setExecution, h]
    · simpa [MediaStore.setExecution, Function.update_of_ne heq] using h

theorem setStatus (id : String) (status : StoredStatus) : s.Extends (s.setStatus id status) := by
  unfold MediaStore.setStatus
  split
  next => exact setExecution id _
  next => exact refl s

theorem dropBlobs (gone : Blob → Bool) : s.Extends (s.dropBlobs gone) where
  executions := fun _ h => h
  executionIds := List.Subset.refl _
  blobIds := List.Subset.refl _
  blobs := fun _ h => .inl (List.mem_filter.mp h).1
  terminated := fun _ h => h

theorem env {e : MediaEnv} (h : s.env e = some s') : s.Extends s' := by
  cases e with
  | tick seconds | workflow id orgId =>
      cases h
      exact ⟨fun _ h => h, List.Subset.refl _, List.Subset.refl _, fun _ h => .inl h, fun _ h => h⟩
  | decide id status =>
      cases h
      exact setStatus _ _

theorem begin {x : MediaStart} {p : MediaProcess} (h : s.begin x = some (s', p)) :
    s.Extends s' := by
  cases x with
  | run executionId workflowId upload =>
      simp only [MediaStore.begin] at h
      split at h
      next => cases h
      next =>
        cases h
        exact ⟨fun _ h => h, List.subset_cons_self _ _, List.Subset.refl _, fun _ h => .inl h,
          fun _ h => h⟩
  | worker executionId workflowId =>
      simp only [MediaStore.begin] at h
      split at h
      next =>
        cases h
        exact refl s
      next => cases h
  | sweep orgId delete =>
      cases h
      exact refl s

/-- What is known of a process stays. -/
theorem process (h : s.Extends s') {p : MediaProcess} (hp : p.Consistent s) :
    p.Consistent s' := by
  cases p with
  | creation p =>
      refine ⟨h.executionIds hp.1, ?_⟩
      intro hstage
      exact h.executions _ (hp.2 hstage)
  | worker p => exact h.executions _ hp
  | sweep p =>
      intro b hb
      have hlisted := hp b hb
      refine ⟨h.blobIds hlisted.drawn, ?_, hlisted.owned.imp_right fun hmem => h.executionIds hmem⟩
      intro b' hb' hid
      rcases h.blobs b' hb' with hold | hnew
      · exact hlisted.owner b' hold hid
      · rw [hid] at hnew
        exact absurd hlisted.drawn hnew

end MediaStore.Extends

namespace MediaStore.Consistent

variable {s : MediaStore}

theorem putBlob (h : s.Consistent) {id executionId : String} {size : Nat} (hnew : id ∉ s.blobIds)
    (howned : executionId ∈ s.executionIds) : (s.putBlob id executionId size).Consistent where
  terminal := h.terminal
  known := h.known
  jobs := h.jobs
  named := h.named
  drawn := by
    intro b hb
    rcases List.mem_append.mp hb with hb | hb
    · exact List.mem_cons_of_mem _ (h.drawn b hb)
    · rw [List.mem_singleton.mp hb]
      exact List.mem_cons_self
  owner := by
    intro b hb b' hb' hid
    rcases List.mem_append.mp hb with hb | hb <;> rcases List.mem_append.mp hb' with hb' | hb'
    · exact h.owner b hb b' hb' hid
    · rw [List.mem_singleton.mp hb'] at hid
      have hdrawn := h.drawn b hb
      rw [← hid] at hdrawn
      exact absurd hdrawn hnew
    · rw [List.mem_singleton.mp hb] at hid
      have hdrawn := h.drawn b' hb'
      rw [hid] at hdrawn
      exact absurd hdrawn hnew
    · rw [List.mem_singleton.mp hb, List.mem_singleton.mp hb']
  owned := by
    intro b hb
    rcases List.mem_append.mp hb with hb | hb
    · exact h.owned b hb
    · rw [List.mem_singleton.mp hb]
      exact .inr howned

theorem setExecution (h : s.Consistent) {id : String} {e : ExecutionEntry}
    (hknown : id ∈ s.executionIds) : (s.setExecution id e).Consistent where
  terminal := by
    intro id' e' hid' hterminal
    by_cases heq : id' = id
    · subst heq
      simp only [MediaStore.setExecution, Function.update_self, Option.some.injEq] at hid' ⊢
      rw [hid', hterminal]
      rfl
    · simp only [MediaStore.setExecution, Function.update_of_ne heq] at hid' ⊢
      exact h.terminal id' e' hid' hterminal
  known := by
    intro id' hsome
    by_cases heq : id' = id
    · rw [heq]
      exact hknown
    · simp only [MediaStore.setExecution, Function.update_of_ne heq] at hsome
      exact h.known id' hsome
  jobs := fun id' hid' => (MediaStore.Extends.setExecution id e).executions id' (h.jobs id' hid')
  named := h.named
  drawn := h.drawn
  owner := h.owner
  owned := h.owned

theorem setStatus (h : s.Consistent) {id : String} {status : StoredStatus} :
    (s.setStatus id status).Consistent := by
  unfold MediaStore.setStatus
  split
  next e he => exact h.setExecution (h.known id (by rw [he]; rfl))
  next => exact h

theorem addJob (h : s.Consistent) {id : String} (hsome : (s.executions id).isSome = true) :
    (s.addJob id).Consistent where
  terminal := h.terminal
  known := h.known
  jobs := by
    intro id' hid'
    rcases List.mem_cons.mp hid' with rfl | hid'
    · exact hsome
    · exact h.jobs id' hid'
  named := h.named
  drawn := h.drawn
  owner := h.owner
  owned := h.owned

theorem dropBlobs (h : s.Consistent) (gone : Blob → Bool) : (s.dropBlobs gone).Consistent where
  terminal := h.terminal
  known := h.known
  jobs := h.jobs
  named := h.named
  drawn := fun b hb => h.drawn b (List.mem_filter.mp hb).1
  owner := fun b hb b' hb' => h.owner b (List.mem_filter.mp hb).1 b' (List.mem_filter.mp hb').1
  owned := fun b hb => h.owned b (List.mem_filter.mp hb).1

/-- A blob that has just been listed. -/
theorem listed (h : s.Consistent) {b : Blob} (hb : b ∈ s.blobs) : b.Listed s :=
  ⟨h.drawn b hb, fun b' hb' hid => h.owner b hb b' hb' hid, h.owned b hb⟩

end MediaStore.Consistent

/-! ### Steps -/

section Steps

variable {input : MediaInput} {s s' : MediaStore} {p p' : MediaProcess}

theorem MediaStep.extends (h : MediaStep input s p s' p') : s.Extends s' := by
  cases h with
  | uploads hstage hnew hnext | stores hnew => exact .putBlob hnew _ _
  | inserts hstage hnext | saves => exact .setExecution _ _
  | fails hstage => exact .setStatus _ _
  | cleans | deletes hstage hdelete horphan => exact .dropBlobs _
  | enqueues hstage hnext =>
      exact ⟨fun _ h => h, List.Subset.refl _, List.Subset.refl _, fun _ h => .inl h, fun _ h => h⟩
  | _ => exact .refl s

theorem MediaStep.consistent (h : MediaStep input s p s' p') (hs : s.Consistent)
    (hp : p.Consistent s) : s'.Consistent ∧ p'.Consistent s' := by
  have hextends := h.extends
  cases h with
  | ends hstage hnext =>
      refine ⟨hs, hp.1, ?_⟩
      rintro rfl
      rcases hnext with hnext | hnext | hnext <;> cases hnext
  | uploads hstage hnew hnext =>
      refine ⟨hs.putBlob hnew hp.1, hp.1, ?_⟩
      rintro rfl
      rcases hnext with hnext | hnext <;> cases hnext
  | @inserts p stage hstage hnext =>
      refine ⟨hs.setExecution hp.1, hp.1, ?_⟩
      intro _
      simp [RunCreation.become, MediaStore.setExecution]
  | enqueues hstage hnext =>
      refine ⟨hs.addJob (hp.2 hstage), hp.1, ?_⟩
      rintro rfl
      rcases hnext with hnext | hnext <;> cases hnext
  | fails hstage =>
      refine ⟨hs.setStatus, hextends.executionIds hp.1, ?_⟩
      intro hnext
      cases hnext
  | stores hnew => exact ⟨hs.putBlob hnew (hs.known _ hp), hp⟩
  | saves => exact ⟨hs.setExecution (hs.known _ hp), hextends.executions _ hp⟩
  | cleans => exact ⟨hs.dropBlobs _, hp⟩
  | idles hsame =>
      refine ⟨hs, ?_⟩
      rw [MediaProcess.Consistent, hsame]
      exact hp
  | stops | asks =>
      refine ⟨hs, ?_⟩
      intro b hb
      cases hb
  | lists => exact ⟨hs, fun b hb => hs.listed hb⟩
  | finds hstage hinput =>
      refine ⟨hs, ?_⟩
      intro b hb
      exact hp b (by rw [hstage]; exact hb)
  | keeps hstage =>
      refine ⟨hs, ?_⟩
      intro b hb
      exact hp b (by rw [hstage]; exact List.mem_cons_of_mem _ hb)
  | deletes hstage hdelete horphan =>
      refine ⟨hs.dropBlobs _, hextends.process (p := .sweep _) ?_⟩
      intro b hb
      exact hp b (by rw [hstage]; exact List.mem_cons_of_mem _ hb)

end Steps

theorem mediaSystem_consistent (ok : MediaRun → MediaMove → Prop) :
    mediaSystem.Invariant ok (fun _ s => s.Consistent) (fun s _ p => p.Consistent s) where
  spawn := by
    intro c x s' p hc _ h
    obtain ⟨hs, hps⟩ := hc
    have hprocess := fun j q hj => (MediaStore.Extends.begin h).process (hps j q hj)
    cases x with
    | run executionId workflowId upload =>
        simp only [mediaSystem, MediaStore.begin] at h
        split at h
        next => cases h
        next hnew =>
          cases h
          rw [not_or] at hnew
          refine ⟨?_, ⟨List.mem_cons_self, ?_⟩, hprocess⟩
          · exact {
              terminal := hs.terminal
              known := fun id hsome => List.mem_cons_of_mem _ (hs.known id hsome)
              jobs := hs.jobs
              named := by
                intro hmem
                rcases List.mem_cons.mp hmem with heq | hmem
                · exact hnew.1 heq.symm
                · exact hs.named hmem
              drawn := hs.drawn
              owner := hs.owner
              owned := fun b hb => (hs.owned b hb).imp_right (List.mem_cons_of_mem _) }
          · intro hstage
            split at hstage <;> cases hstage
    | worker executionId workflowId =>
        simp only [mediaSystem, MediaStore.begin] at h
        split at h
        next hjob =>
          cases h
          exact ⟨hs, hs.jobs executionId (by simpa using hjob), hprocess⟩
        next => cases h
    | sweep orgId delete =>
        cases h
        refine ⟨hs, ?_, hprocess⟩
        intro b hb
        cases hb
  step := by
    intro c i input p s' p' hc _ hi h
    obtain ⟨hs, hps⟩ := hc
    have hstep := MediaProcess.step_sound h
    obtain ⟨hs', hp'⟩ := hstep.consistent hs (hps i p hi)
    exact ⟨hs', hp', fun j q _ hj => hstep.extends.process (hps j q hj)⟩
  env := by
    intro c e s' hc _ h
    obtain ⟨hs, hps⟩ := hc
    refine ⟨?_, fun j q hj => (MediaStore.Extends.env h).process (hps j q hj)⟩
    cases e with
    | tick seconds | workflow id orgId =>
        cases h
        exact ⟨hs.terminal, hs.known, hs.jobs, hs.named, hs.drawn, hs.owner, hs.owned⟩
    | decide id status =>
        cases h
        exact hs.setStatus

/-! ## Executions that are over -/

theorem creating_eq_true {c : MediaRun} {id : String} :
    creating c id = true ↔
      ∃ i p, c.proc i = some (.creation p) ∧ p.executionId = id ∧ p.stage.underWay = true := by
  simp only [creating, List.any_eq_true, Option.any_eq_true]
  constructor
  · rintro ⟨_, ho, q, rfl, hq⟩
    obtain ⟨i, hi⟩ := List.getElem?_of_mem ho
    cases q with
    | creation p =>
        simp only [Bool.and_eq_true, decide_eq_true_eq] at hq
        exact ⟨i, p, Configuration.proc_eq_some.mpr hi, hq⟩
    | _ => cases hq
  · rintro ⟨i, p, hi, hid, hunderWay⟩
    exact ⟨_, List.mem_of_getElem? (Configuration.proc_eq_some.mp hi), _, rfl,
      by simp [hid, hunderWay]⟩

/-- The execution has reached a terminal status, or it will never be stored. -/
def ExecutionOver (c : MediaRun) (id : String) : Prop :=
  c.shared.terminated id = true ∨
    id ∈ c.shared.executionIds ∧ c.shared.executions id = none ∧ creating c id = false

theorem ExecutionOver.not_live {c : MediaRun} {id : String} (h : ExecutionOver c id) :
    liveExecution c id = false := by
  rcases h with hterminated | ⟨-, hnone, hcreating⟩
  · simp [liveExecution, hterminated]
  · simp [liveExecution, hnone, hcreating]

abbrev MediaInv (c : MediaRun) : Prop :=
  System.Inv (fun _ s => s.Consistent) (fun s _ p => p.Consistent s) c

/-- Only a trigger under way stores an execution for the first time. -/
theorem MediaStep.executions {input : MediaInput} {s s' : MediaStore} {p p' : MediaProcess}
    (h : MediaStep input s p s' p') (hp : p.Consistent s) {id : String}
    (hnone : s.executions id = none) :
    s'.executions id = none ∨
      ∃ q, p = .creation q ∧ q.executionId = id ∧ q.stage.underWay = true := by
  have hset : ∀ (id' : String) (e : ExecutionEntry), id ≠ id' →
      (s.setExecution id' e).executions id = none := by
    intro id' e hne
    rw [← hnone]
    exact Function.update_of_ne hne _ _
  cases h with
  | @inserts q stage hstage hnext =>
      by_cases heq : id = q.executionId
      · exact .inr ⟨q, rfl, heq.symm, by rw [hstage]; rfl⟩
      · exact .inl (hset _ _ heq)
  | @fails q hstage =>
      by_cases heq : id = q.executionId
      · exact .inr ⟨q, rfl, heq.symm, hstage⟩
      · refine .inl ?_
        unfold MediaStore.setStatus
        split
        next => exact hset _ _ heq
        next => exact hnone
  | @saves q status =>
      refine .inl (hset _ _ ?_)
      rintro rfl
      rw [MediaProcess.Consistent, hnone] at hp
      cases hp
  | _ => exact .inl hnone

/-- A trigger that is under way after a step was so before. -/
theorem MediaStep.underWay {input : MediaInput} {s s' : MediaStore} {p : MediaProcess}
    {q : RunCreation} (h : MediaStep input s p s' (.creation q))
    (hq : q.stage.underWay = true) :
    ∃ r, p = .creation r ∧ r.executionId = q.executionId ∧ r.stage.underWay = true := by
  cases h with
  | ends hstage hnext => exact ⟨_, rfl, rfl, hstage⟩
  | uploads hstage hnew hnext => exact ⟨_, rfl, rfl, hstage⟩
  | inserts hstage hnext => exact ⟨_, rfl, rfl, by rw [hstage]; rfl⟩
  | enqueues hstage hnext => exact ⟨_, rfl, rfl, by rw [hstage]; rfl⟩
  | fails hstage => cases hq

theorem ExecutionOver.steps {ok : MediaRun → MediaMove → Prop} {c c' : MediaRun} {id : String}
    (hc : MediaInv c) (h : ExecutionOver c id) (hsteps : mediaSystem.Steps ok c c') : ExecutionOver c' id := by
  rcases hsteps.cases with ⟨x, s', p, -, hbegin, rfl⟩ | ⟨i, input, p, s', p', -, hi, hstep, rfl⟩ |
    ⟨i, -, rfl⟩ | ⟨e, s', -, henv, rfl⟩
  · have hextends := MediaStore.Extends.begin hbegin
    rcases h with hterminated | ⟨hknown, hnone, hcreating⟩
    · exact .inl (hextends.terminated id hterminated)
    · refine .inr ⟨hextends.executionIds hknown, ?_, ?_⟩
      · cases x with
        | run executionId workflowId upload =>
            simp only [mediaSystem, MediaStore.begin] at hbegin
            split at hbegin <;> cases hbegin
            exact hnone
        | worker executionId workflowId =>
            simp only [mediaSystem, MediaStore.begin] at hbegin
            split at hbegin <;> cases hbegin
            exact hnone
        | sweep orgId delete =>
            cases hbegin
            exact hnone
      · rw [Bool.eq_false_iff] at hcreating ⊢
        intro hnew
        obtain ⟨j, q, hj, hid, hunderWay⟩ := creating_eq_true.mp hnew
        rcases Configuration.proc_append (g := c.shared) hj with ⟨-, rfl⟩ | hj
        · -- an id is not drawn twice
          cases x with
          | run executionId workflowId upload =>
              simp only [mediaSystem, MediaStore.begin] at hbegin
              split at hbegin
              next => cases hbegin
              next hfresh =>
                cases hbegin
                rw [not_or] at hfresh
                have hid : executionId = id := hid
                rw [hid] at hfresh
                exact hfresh.2 (by simpa using hknown)
          | worker executionId workflowId =>
              simp only [mediaSystem, MediaStore.begin] at hbegin
              split at hbegin <;> cases hbegin
          | sweep orgId delete => cases hbegin
        · exact hcreating (creating_eq_true.mpr ⟨j, q, hj, hid, hunderWay⟩)
  · have hsound := MediaProcess.step_sound hstep
    have hextends := hsound.extends
    rcases h with hterminated | ⟨hknown, hnone, hcreating⟩
    · exact .inl (hextends.terminated id hterminated)
    · rw [Bool.eq_false_iff] at hcreating
      refine .inr ⟨hextends.executionIds hknown, ?_, ?_⟩
      · rcases hsound.executions (hc.2 i p hi) hnone with hnone | ⟨q, rfl, hid, hunderWay⟩
        · exact hnone
        · exact absurd (creating_eq_true.mpr ⟨i, q, hi, hid, hunderWay⟩) hcreating
      · rw [Bool.eq_false_iff]
        intro hnew
        obtain ⟨j, q, hj, hid, hunderWay⟩ := creating_eq_true.mp hnew
        rcases Configuration.proc_set (g := c.shared) hj with ⟨-, hq⟩ | ⟨-, hj⟩
        · cases hq
          obtain ⟨r, rfl, hr, hunderWay⟩ := hsound.underWay hunderWay
          exact hcreating (creating_eq_true.mpr ⟨i, r, hi, hr.trans hid, hunderWay⟩)
        · exact hcreating (creating_eq_true.mpr ⟨j, q, hj, hid, hunderWay⟩)
  · rcases h with hterminated | ⟨hknown, hnone, hcreating⟩
    · exact .inl hterminated
    · refine .inr ⟨hknown, hnone, ?_⟩
      rw [Bool.eq_false_iff] at hcreating ⊢
      intro hnew
      obtain ⟨j, q, hj, hid, hunderWay⟩ := creating_eq_true.mp hnew
      rcases Configuration.proc_set (g := c.shared) hj with ⟨-, hq⟩ | ⟨-, hj⟩
      · cases hq
      · exact hcreating (creating_eq_true.mpr ⟨j, q, hj, hid, hunderWay⟩)
  · have hextends := MediaStore.Extends.env henv
    rcases h with hterminated | ⟨hknown, hnone, hcreating⟩
    · exact .inl (hextends.terminated id hterminated)
    · refine .inr ⟨hextends.executionIds hknown, ?_, hcreating⟩
      cases e with
      | tick seconds | workflow id' orgId =>
          cases henv
          exact hnone
      | decide id' status =>
          cases henv
          show (c.shared.setStatus id' (.written status)).executions id = none
          unfold MediaStore.setStatus
          split
          next e he =>
            have hne : id ≠ id' := by
              rintro rfl
              rw [hnone] at he
              cases he
            exact (Function.update_of_ne hne _ _).trans hnone
          next => exact hnone

/-! ## Verdicts -/

theorem StoredStatus.of_not_alive {status : StoredStatus}
    (h : aliveExecStatuses.contains status.value = false) :
    status = .queued ∨ status.terminal = true := by
  cases status with
  | queued => exact .inl rfl
  | written status =>
      refine .inr ?_
      cases status <;> first | rfl | (revert h; decide)

/-- What is taken for an orphan is in the scope of the caller and stored as queued or as over, or
it is not stored and the caller is a super admin. -/
theorem blobVerdict_eq_orphan {now : Nat} {orgWfIds : Option (String → Bool)} {b : Blob}
    {ex : Option ExecutionEntry} (h : blobVerdict now orgWfIds b ex = .orphan) :
    (∃ e, ex = some e ∧ (e.status = .queued ∨ e.status.terminal = true) ∧
      orgWfIds.all (fun mine => e.workflowId ≠ "" && mine e.workflowId) = true) ∨
    ex = none ∧ orgWfIds = none := by
  unfold blobVerdict at h
  split at h
  next => cases h
  next hattributed =>
    split at h
    next => cases h
    next hmine =>
      split at h
      next e =>
        split at h
        next => cases h
        next halive =>
          refine .inl ⟨e, rfl, StoredStatus.of_not_alive (by simpa using halive), ?_⟩
          cases orgWfIds with
          | none => rfl
          | some mine => simpa using And.intro (by simpa using hattributed) (by simpa using hmine)
      next =>
        refine .inr ⟨rfl, ?_⟩
        cases orgWfIds with
        | none => rfl
        | some mine => simp at hattributed

/-- What a sweep has still to delete is of executions that are over. -/
def Judged (c : MediaRun) : Prop :=
  ∀ i p orgWfIds found blobs report, c.proc i = some (.sweep p) →
    p.stage = .scan orgWfIds found blobs report → p.delete = true → ∀ b ∈ blobs, ∀ now,
      blobVerdict now orgWfIds b (BlobSweep.lookup found b) = .orphan →
        b.executionId = "" ∨ ExecutionOver c b.executionId

/-- The executions are read while none of them is waiting. -/
theorem BlobSweep.judged_of_find {c : MediaRun} {p : BlobSweep}
    {orgWfIds : Option (String → Bool)} {blobs : List Blob} (hc : c.shared.Consistent)
    (hp : (MediaProcess.sweep p).Consistent c.shared) (hstage : p.stage = .find orgWfIds blobs)
    (hdelete : p.delete = true) (hok : p.misjudges c .done = false) {b : Blob} (hb : b ∈ blobs)
    {now : Nat}
    (horphan : blobVerdict now orgWfIds b (lookup c.shared.executions b) = .orphan) :
    b.executionId = "" ∨ ExecutionOver c b.executionId := by
  by_cases hnamed : b.executionId = ""
  · exact .inl hnamed
  · refine .inr ?_
    rw [lookup, if_neg hnamed] at horphan
    simp only [misjudges, hstage, Write.ok, hdelete, Bool.true_and] at hok
    have hjudged := List.any_eq_false.mp hok b hb
    rcases blobVerdict_eq_orphan horphan with ⟨e, he, hstatus, hscope⟩ | ⟨hnone, horg⟩
    · refine .inl (hc.terminal _ e he ?_)
      rcases hstatus with hqueued | hterminal
      · rw [he] at hjudged
        simp only [hqueued, hscope] at hjudged
        simp [hnamed] at hjudged
      · exact hterminal
    · have hknown := (hp b (by rw [hstage]; exact hb)).owned.resolve_left hnamed
      refine .inr ⟨hknown, hnone, ?_⟩
      rw [hnone] at hjudged
      simpa [hnamed, horg] using hjudged

theorem Judged.steps {c c' : MediaRun} (hc : MediaInv c) (h : Judged c)
    (hsteps : mediaSystem.Steps SparesWaiting c c') : Judged c' := by
  have hover : ∀ id : String, id = "" ∨ ExecutionOver c id → id = "" ∨ ExecutionOver c' id :=
    fun id hid => hid.imp_right fun hover => hover.steps hc hsteps
  have hold : ∀ i p orgWfIds found blobs report, c.proc i = some (.sweep p) →
      p.stage = .scan orgWfIds found blobs report → p.delete = true → ∀ b ∈ blobs, ∀ now,
        blobVerdict now orgWfIds b (BlobSweep.lookup found b) = .orphan →
          b.executionId = "" ∨ ExecutionOver c' b.executionId :=
    fun i p orgWfIds found blobs report hi hstage hdelete b hb now horphan =>
      hover _ (h i p orgWfIds found blobs report hi hstage hdelete b hb now horphan)
  rcases hsteps.cases with ⟨x, s', p, -, hbegin, rfl⟩ | ⟨i, input, p, s', p', hok, hi, hstep, rfl⟩ |
    ⟨i, -, rfl⟩ | ⟨e, s', -, henv, rfl⟩
  · intro j q orgWfIds found blobs report hj hstage
    rcases Configuration.proc_append (g := c.shared) hj with ⟨-, rfl⟩ | hj
    · cases x with
      | run executionId workflowId upload =>
          simp only [mediaSystem, MediaStore.begin] at hbegin
          split at hbegin <;> cases hbegin
      | worker executionId workflowId =>
          simp only [mediaSystem, MediaStore.begin] at hbegin
          split at hbegin <;> cases hbegin
      | sweep orgId delete =>
          cases hbegin
          cases hstage
    · exact hold j q orgWfIds found blobs report hj hstage
  · intro j q orgWfIds found blobs report hj hstage hdelete b hb now horphan
    rcases Configuration.proc_set (g := c.shared) hj with ⟨-, hq⟩ | ⟨-, hj⟩
    · cases hq
      cases MediaProcess.step_sound hstep with
      | stops | asks | lists => cases hstage
      | @finds p₀ _ _ _ hfind hinput =>
          cases hstage
          subst hinput
          have hspares : p₀.misjudges c .done = false := by
            simpa [SparesWaiting, hi] using hok
          exact hover _ (BlobSweep.judged_of_find hc.1 (hc.2 i _ hi) hfind hdelete hspares hb horphan)
      | keeps hscan =>
          cases hstage
          exact hold i _ _ _ _ _ hi hscan hdelete b (List.mem_cons_of_mem _ hb) now horphan
      | deletes hscan _ _ =>
          cases hstage
          exact hold i _ _ _ _ _ hi hscan hdelete b (List.mem_cons_of_mem _ hb) now horphan
    · exact hold j q orgWfIds found blobs report hj hstage hdelete b hb now horphan
  · intro j q orgWfIds found blobs report hj
    rcases Configuration.proc_set (g := c.shared) hj with ⟨-, hq⟩ | ⟨-, hj⟩
    · cases hq
    · exact hold j q orgWfIds found blobs report hj
  · exact hold

/-! ## Runs -/

/-- The empty id is that of no execution. -/
theorem liveExecution_empty {c : MediaRun} (hc : MediaInv c) : liveExecution c "" = false := by
  have hnone : c.shared.executions "" = none := by
    by_contra hsome
    exact hc.1.named (hc.1.known "" (Option.isSome_iff_ne_none.mpr hsome))
  have hcreating : creating c "" = false := by
    rw [Bool.eq_false_iff]
    intro hcreating
    obtain ⟨i, p, hi, hid, -⟩ := creating_eq_true.mp hcreating
    have hmem := (hc.2 i _ hi).1
    rw [hid] at hmem
    exact hc.1.named hmem
  simp [liveExecution, hnone, hcreating]

/-- In a run in which no sweep reads the executions while one of them is waiting, a sweep never
deletes a blob of an execution that has not reached a terminal status. -/
theorem MediaStore.Consistent.sweep_spares_live {c₀ c c' : MediaRun} (hstart : c₀.procs = [])
    (hconsistent : c₀.shared.Consistent) (hreach : mediaSystem.Reaches SparesWaiting c₀ c)
    {m : MediaMove} (hm : mediaSystem.apply c m = some c') (hsweep : sweeps c m = true) :
    ∀ b ∈ c.shared.blobs, b ∉ c'.shared.blobs → liveExecution c b.executionId = false := by
  have hbegin : MediaInv c₀ := .of_start hstart hconsistent
  have hc : MediaInv c := hreach.inv (mediaSystem_consistent _) hbegin
  have hjudged : Judged c := by
    refine hreach.lasts (mediaSystem_consistent _) (fun _ _ hd hjudged => hjudged.steps hd) hbegin ?_
    intro i p orgWfIds found blobs report hi
    simp [Configuration.proc, hstart] at hi
  intro b hb hgone
  cases m with
  | spawn x => cases hsweep
  | crash i => cases hsweep
  | env e => cases hsweep
  | step i input =>
      obtain ⟨p, hi, hm⟩ := Option.bind_eq_some_iff.mp hm
      obtain ⟨⟨s', p'⟩, hstep, rfl⟩ := Option.map_eq_some_iff.mp hm
      cases MediaProcess.step_sound hstep with
      | @deletes p orgWfIds found b' blobs report report' hstage hdelete horphan =>
          have hid : b.id = b'.id := by
            by_contra hne
            exact hgone (List.mem_filter.mpr ⟨hb, by simpa using hne⟩)
          have hlisted := hc.2 i _ hi b' (by rw [hstage]; exact List.mem_cons_self)
          rw [hlisted.owner b hb hid]
          rcases hjudged i p _ _ _ _ hi hstage hdelete b' List.mem_cons_self _ horphan with
            hempty | hover
          · rw [hempty]
            exact liveExecution_empty hc
          · exact hover.not_live
      | stops | asks | lists | finds | keeps => exact absurd hb hgone
      | _ => simp [sweeps, hi] at hsweep

/-- The next `k` commands of a process, none of which fails. -/
def MediaMove.commands (i k : Nat) : List MediaMove := List.replicate k (.step i (.next .done))

/-- An upload is stored, and its run is enqueued. -/
def uploadsScan : List MediaMove :=
  .spawn (.run "run-1" "report" (some ("blob-1", 10))) :: MediaMove.commands 0 3

/-- A super admin sweeps, up to the first verdict. -/
def sweepsAll (i : Nat) : List MediaMove :=
  .spawn (.sweep none true) :: MediaMove.commands i 3

/-- A worker saves the run while it goes on and when it has failed, and is killed. -/
def losesWorker : List MediaMove :=
  [.spawn (.worker "run-1" "report"), .step 1 (.save .running .done), .step 1 (.save .failed .done),
    .crash 1]

/-- The step deletes a blob of an execution that is, or is not, live. -/
def deletesBlob (c : MediaRun) (m : MediaMove) (live : Bool) : Bool :=
  (mediaSystem.apply c m).any fun c' => sweeps c m && c.shared.blobs.any fun b =>
    !c'.shared.blobs.any (·.id = b.id) && liveExecution c b.executionId = live

theorem exists_of_deletesBlob {c : MediaRun} {m : MediaMove} {live : Bool}
    (h : deletesBlob c m live = true) :
    ∃ c', mediaSystem.apply c m = some c' ∧ sweeps c m = true ∧
      ∃ b ∈ c.shared.blobs, b ∉ c'.shared.blobs ∧ liveExecution c b.executionId = live := by
  obtain ⟨c', hc', hboth⟩ := (Option.any_eq_true _ _).mp h
  rw [Bool.and_eq_true] at hboth
  obtain ⟨b, hb, hgone⟩ := List.any_eq_true.mp hboth.2
  simp only [Bool.and_eq_true, Bool.not_eq_true', decide_eq_true_eq] at hgone
  refine ⟨c', hc', hboth.1, b, hb, ?_, hgone.2⟩
  intro hmem
  have hany := List.any_eq_false.mp hgone.1 b hmem
  simp at hany

theorem emptyStore_consistent : MediaStore.Consistent {} where
  terminal := by
    intro id e he
    cases he
  known := by
    intro id hsome
    cases hsome
  jobs := by
    intro id hid
    cases hid
  named := by
    intro hmem
    cases hmem
  drawn := by
    intro b hb
    cases hb
  owner := by
    intro b hb
    cases hb
  owned := by
    intro b hb
    cases hb

/-- The media of a run whose worker was killed is swept. -/
theorem sweep_deletes_failed : ∃ c c',
    mediaSystem.Reaches SparesWaiting ⟨{}, []⟩ c ∧
      mediaSystem.apply c (.step 2 (.next .done)) = some c' ∧
      ∃ b ∈ c.shared.blobs, b ∉ c'.shared.blobs ∧ liveExecution c b.executionId = false := by
  have hplay : (mediaSystem.play SparesWaiting (uploadsScan ++ losesWorker ++ sweepsAll 2)
      ⟨{}, []⟩).any (fun c => deletesBlob c (.step 2 (.next .done)) false) = true := by
    decide +kernel
  obtain ⟨c, hreach, hdeletes⟩ := System.exists_reaches_of_play _ _ _ _ _ hplay
  obtain ⟨c', hc', hsweep, b, hb, hgone, -⟩ := exists_of_deletesBlob hdeletes
  exact ⟨c, c', hreach, hc', b, hb, hgone,
    MediaStore.Consistent.sweep_spares_live rfl emptyStore_consistent hreach hc' hsweep b hb hgone⟩

/-- The media of a run that waits in the queue is swept. -/
theorem sweep_deletes_queued : ¬ ∀ s : MediaStore, s.Consistent →
    ∀ c, mediaSystem.Reaches (fun _ _ => True) ⟨s, []⟩ c →
      ∀ m c', mediaSystem.apply c m = some c' → sweeps c m = true →
        ∀ b ∈ c.shared.blobs, b ∉ c'.shared.blobs → liveExecution c b.executionId = false := by
  intro hclaim
  have hplay : (mediaSystem.play (fun _ _ => True) (uploadsScan ++ sweepsAll 1) ⟨{}, []⟩).any
      (fun c => deletesBlob c (.step 1 (.next .done)) true) = true := by
    decide +kernel
  obtain ⟨c, hreach, hdeletes⟩ := System.exists_reaches_of_play _ _ _ _ _ hplay
  obtain ⟨c', hc', hsweep, b, hb, hgone, hlive⟩ := exists_of_deletesBlob hdeletes
  have hdead := hclaim {} emptyStore_consistent c hreach _ c' hc' hsweep b hb hgone
  rw [hlive] at hdead
  cases hdead

end CitraFlows
