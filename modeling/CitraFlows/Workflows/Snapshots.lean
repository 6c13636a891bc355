-- SUMMARY: The snapshot that a deployed workflow names is kept, and is its graph until it is edited, as long as edits, copies, deletions and prunes leave the deploys under way alone.
import CitraFlows.Workflows.DeployGate

/-!
# Snapshots

A deploy stores a snapshot of the document that it has read, prunes the old ones, and then names
the snapshot in the live document. A rollback of a deployed workflow does the same with the graph
of an older snapshot. An edit of the deployed workflow changes the live graph only.
-/

namespace CitraFlows

open Processes

/-- The graph is that of a snapshot, so that rolling back to it changes nothing. -/
theorem StoredWorkflow.setGraph_graph (doc : StoredWorkflow) : doc.setGraph doc.graph = doc := rfl

/-- The snapshot that a deployed workflow names exists, and has the graph that is live unless it
was edited since. -/
def WorkflowStore.Mirrors (s : WorkflowStore) : Prop :=
  ∀ id doc, s.docs id = some doc → doc.deployed = true →
    ∃ number v, doc.deployedVersion = some number ∧ s.version id number = some v ∧
      (s.edited id = false → doc.graph = v.graph)

/-! ## Steps that lose a snapshot -/

namespace WorkflowStage

/-- The number of the snapshot of a deploy or of a rollback, once it is chosen. -/
def number : WorkflowStage → Option Nat
  | .insertVersion _ _ n | .pruneFind _ _ n | .pruneDelete _ _ n _ | .goLive _ _ n => some n
  | _ => none

/-- The snapshot of a deploy or of a rollback, once it is stored. -/
def stored : WorkflowStage → Option (StoredWorkflow × LiveWrite × Nat)
  | .pruneFind read lw n | .pruneDelete read lw n _ | .goLive read lw n => some (read, lw, n)
  | _ => none

def deleting : WorkflowStage → Bool
  | .deleteVersion => true
  | _ => false

end WorkflowStage

/-- The number that a deployed workflow names. -/
def WorkflowStore.liveVersion (s : WorkflowStore) (id : String) : Option Nat :=
  (s.docs id).bind fun doc => if doc.deployed then doc.deployedVersion else none

/-- The snapshots newer than a number. -/
def WorkflowStore.newer (s : WorkflowStore) (id : String) (n : Nat) : Nat :=
  (s.numbers id).countP (n < ·)

/-- The numbers of the workflow that are live or about to be. -/
def liveNumbers (c : StoreRun) (id : String) : List Nat :=
  (c.shared.liveVersion id).toList ++
    c.procs.filterMap fun o => o.bind fun p => if p.workflowId = id then p.stage.number else none

def LiveWrite.isRollback : LiveWrite → Bool
  | .rollback _ => true
  | .deploy _ _ => false

/-- A copy of a deployed workflow is stored; the graph is written while a deploy is under way; a
prune finds as many snapshots as are kept that are newer than one that is live or about to be; or
a delete-version overlaps a deploy or a rollback. -/
def WorkflowRequest.strays (cfg : StoreConfig) (c : StoreRun) (p : WorkflowRequest)
    (input : RequestInput) : Bool :=
  input.ran &&
    match p.stage with
    | .insert doc => doc.deployed
    | .write _ => editsGraph p.op && underWay c p.workflowId (·.deploying)
    | .restoreDraft _ => underWay c p.workflowId (·.deploying)
    | .pruneFind _ _ _ =>
        (liveNumbers c p.workflowId).any fun n =>
          cfg.maxWorkflowVersions ≤ c.shared.newer p.workflowId n
    | .deleteVersion => underWay c p.workflowId (·.live.isSome)
    | .goLive _ lw _ =>
        underWay c p.workflowId (·.deleting) ||
          lw.isRollback && underWay c p.workflowId (·.deploying)
    | _ => false

abbrev KeepsSnapshots (cfg : StoreConfig) : StoreRun → StoreMove → Prop :=
  NoStep fun c p input => p.strays cfg c input

/-! ## Pruning -/

/-- What is pruned is older than as many snapshots as are kept. -/
theorem le_countP_of_mem_prunedVersions {keep protect n : Nat} {nums : List Nat}
    (h : n ∈ prunedVersions keep protect nums) : keep ≤ nums.countP (n < ·) := by
  obtain ⟨hmem, hpruned⟩ := List.mem_filter.mp h
  simp only [Bool.and_eq_true, Bool.not_eq_true', List.contains_eq_mem, decide_eq_false_iff_not,
    decide_eq_true_eq] at hpruned
  have hsplit := List.take_append_drop keep (nums.insertionSort (· ≥ ·))
  have hdrop : n ∈ (nums.insertionSort (· ≥ ·)).drop keep := by
    have hsorted : n ∈ nums.insertionSort (· ≥ ·) := (List.mem_insertionSort _).mpr hmem
    rw [← hsplit] at hsorted
    exact (List.mem_append.mp hsorted).resolve_left hpruned.1
  have hlength : ((nums.insertionSort (· ≥ ·)).take keep).length = keep := by
    have hlt : keep < (nums.insertionSort (· ≥ ·)).length := by
      by_contra hle
      rw [List.drop_eq_nil_of_le (by omega)] at hdrop
      cases hdrop
    rw [List.length_take]
    omega
  have hpairwise := List.pairwise_insertionSort (· ≥ ·) nums
  rw [← hsplit] at hpairwise
  have hnewer : ∀ m ∈ (nums.insertionSort (· ≥ ·)).take keep, decide (n < m) = true := by
    intro m hm
    have hge := (List.pairwise_append.mp hpairwise).2.2 m hm n hdrop
    have hne : n ≠ m := by
      rintro rfl
      exact hpruned.1 hm
    simp only [decide_eq_true_eq]
    omega
  calc keep = ((nums.insertionSort (· ≥ ·)).take keep).countP (n < ·) := by
        rw [List.countP_eq_length.mpr hnewer, hlength]
    _ ≤ (nums.insertionSort (· ≥ ·)).countP (n < ·) := (List.take_sublist _ _).countP_le
    _ = nums.countP (n < ·) := (List.perm_insertionSort _ nums).countP_eq _

/-! ## Snapshots by number -/

namespace WorkflowStore

variable {s : WorkflowStore} {id id' : String} {n : Nat} {v : WorkflowVersion}

/-- The snapshots of another workflow. -/
theorem version_setVersions_of_ne {vs : List WorkflowVersion} (hne : id' ≠ id) :
    (s.setVersions id vs).version id' n = s.version id' n := by
  simp [version, setVersions, Function.update_of_ne hne]

theorem version_setVersions_self {vs : List WorkflowVersion} :
    (s.setVersions id vs).version id n = vs.find? (·.versionNumber = n) := by
  simp [version, setVersions]

theorem numbers_setVersions_of_ne {vs : List WorkflowVersion} (hne : id' ≠ id) :
    (s.setVersions id vs).numbers id' = s.numbers id' := by
  simp [numbers, setVersions, Function.update_of_ne hne]

theorem numbers_setVersions_self {vs : List WorkflowVersion} :
    (s.setVersions id vs).numbers id = vs.map (·.versionNumber) := by
  simp [numbers, setVersions]

/-- A snapshot that is not deleted. -/
theorem version_filter {k : WorkflowVersion → Bool} (h : s.version id n = some v)
    (hk : ∀ x : WorkflowVersion, x.versionNumber = n → k x = true) :
    (s.setVersions id ((s.versions id).filter k)).version id n = some v := by
  rw [version_setVersions_self, List.find?_filter, ← h, version]
  congr 1
  funext x
  by_cases hnumber : x.versionNumber = n
  · simp [hnumber, hk x hnumber]
  · simp [hnumber]

/-- A snapshot after another one was stored. -/
theorem version_append {x : WorkflowVersion} (h : s.version id n = some v) :
    (s.setVersions id (s.versions id ++ [x])).version id n = some v := by
  rw [version] at h
  rw [version_setVersions_self, List.find?_append, h]
  rfl

/-- A snapshot with a new number. -/
theorem version_append_new {x : WorkflowVersion} (h : x.versionNumber ∉ s.numbers id) :
    (s.setVersions id (s.versions id ++ [x])).version id x.versionNumber = some x := by
  have hnone : (s.versions id).find? (·.versionNumber = x.versionNumber) = none := by
    rw [List.find?_eq_none]
    intro y hy heq
    exact h (List.mem_map.mpr ⟨y, hy, by simpa using heq⟩)
  rw [version_setVersions_self, List.find?_append, hnone]
  simp

theorem lt_nextNumber (h : n ∈ s.numbers id) : n < s.nextNumber id := by
  have hle : ∀ (l : List Nat) (b : Nat), (∀ m ∈ l, m ≤ l.foldl max b) ∧ b ≤ l.foldl max b := by
    intro l
    induction l with
    | nil => simp
    | cons a l ih =>
        intro b
        rw [List.foldl_cons]
        obtain ⟨hmem, hbase⟩ := ih (max b a)
        refine ⟨?_, by omega⟩
        intro m hm
        rcases List.mem_cons.mp hm with rfl | hm
        · omega
        · exact hmem m hm
  have := (hle (s.numbers id) 0).1 n h
  rw [nextNumber]
  omega

theorem liveVersion_eq_some :
    s.liveVersion id = some n ↔
      ∃ doc, s.docs id = some doc ∧ doc.deployed = true ∧ doc.deployedVersion = some n := by
  rw [liveVersion, Option.bind_eq_some_iff]
  constructor
  · rintro ⟨doc, hdoc, hn⟩
    split at hn
    next hdeployed => exact ⟨doc, hdoc, hdeployed, hn⟩
    next => cases hn
  · rintro ⟨doc, hdoc, hdeployed, hn⟩
    exact ⟨doc, hdoc, by rw [if_pos hdeployed, hn]⟩

end WorkflowStore

theorem WorkflowRequest.write_deployedVersion (read doc : StoredWorkflow) (op : WorkflowOp) :
    (write read doc op).deployedVersion = doc.deployedVersion := by
  cases op <;> rfl

/-! ## Invariants -/

/-- The number is live, or about to be. -/
def Kept (c : StoreRun) (id : String) (n : Nat) : Prop :=
  c.shared.liveVersion id = some n ∨
    ∃ i p, c.proc i = some p ∧ p.workflowId = id ∧ p.stage.number = some n

/-- What holds while no step strays: a deploy under way has read the graph that is stored, a
snapshot stays from its insert on, and what a prune or a delete-version is about to delete is
neither live nor about to be. -/
structure Snapshotted (c : StoreRun) : Prop where
  mirrors : c.shared.Mirrors
  read : ∀ i p read token secret, c.proc i = some p →
    p.stage.live = some (read, .deploy token secret) →
      ∃ doc, c.shared.docs p.workflowId = some doc ∧ doc.graph = read.graph
  stored : ∀ i p read lw n, c.proc i = some p → p.stage.stored = some (read, lw, n) →
    ∃ v, c.shared.version p.workflowId n = some v ∧ v.graph = lw.graph read
  doomed : ∀ i p read lw n doomed, c.proc i = some p → p.stage = .pruneDelete read lw n doomed →
    ∀ d ∈ doomed, (∃ m ∈ c.shared.numbers p.workflowId, d < m) ∧ ¬ Kept c p.workflowId d
  aimed : ∀ i p n, c.proc i = some p → p.stage = .deleteVersion → p.op = .deleteVersion n →
    c.shared.liveVersion p.workflowId ≠ some n

theorem mem_liveNumbers {c : StoreRun} {id : String} {n : Nat} (h : Kept c id n) :
    n ∈ liveNumbers c id := by
  rw [liveNumbers, List.mem_append]
  rcases h with hlive | ⟨i, p, hi, rfl, hn⟩
  · exact .inl (by simp [hlive])
  · refine .inr (List.mem_filterMap.mpr ⟨some p, ?_, by simp [hn]⟩)
    exact List.mem_of_getElem? (Configuration.proc_eq_some.mp hi)

/-! ## Steps -/

section Steps

variable {cfg : StoreConfig} {i : Nat} {input : RequestInput} {c : StoreRun} {s' : WorkflowStore}
  {p : WorkflowRequest} {stage : WorkflowStage} {id : String} {n : Nat}

/-- The live numbers after a step: those before it, and the one that a request puts live. -/
theorem RequestStep.liveVersion (h : RequestStep cfg i input c.shared p s' stage)
    (hok : p.strays cfg c input = false) (hlive : s'.liveVersion id = some n) :
    c.shared.liveVersion id = some n ∨
      id = p.workflowId ∧ input.ran = true ∧ ∃ read lw, p.stage = .goLive read lw n := by
  obtain ⟨doc', hdoc', hdeployed, hn⟩ := WorkflowStore.liveVersion_eq_some.mp hlive
  -- a document that is as it was
  have hsame : c.shared.docs id = some doc' → c.shared.liveVersion id = some n :=
    fun hdoc => WorkflowStore.liveVersion_eq_some.mpr ⟨doc', hdoc, hdeployed, hn⟩
  cases h with
  | @inserts new hran hstage hnew =>
      have hdocs : (c.shared.setDoc new.workflowId new).docs =
        Function.update c.shared.docs new.workflowId (some new) := rfl
      rw [hdocs] at hdoc'
      by_cases heq : id = new.workflowId
      · rw [heq, Function.update_self] at hdoc'
        cases hdoc'
        simp [WorkflowRequest.strays, hran, hstage, hdeployed] at hok
      · rw [Function.update_of_ne heq] at hdoc'
        exact .inl (hsame hdoc')
  | @commits read hran hstage =>
      rw [WorkflowRequest.commit_docs] at hdoc'
      by_cases heq : id = p.workflowId
      · rw [heq, Function.update_self] at hdoc'
        obtain ⟨doc, hdoc, rfl⟩ := Option.map_eq_some_iff.mp hdoc'
        rw [WorkflowRequest.write_deployedVersion] at hn
        exact .inl (WorkflowStore.liveVersion_eq_some.mpr
          ⟨doc, heq ▸ hdoc, WorkflowRequest.write_deployed hdeployed, hn⟩)
      · rw [Function.update_of_ne heq] at hdoc'
        exact .inl (hsame hdoc')
  | @drafts target hran hstage =>
      have hdocs : (p.restoreDraft target c.shared).docs = Function.update c.shared.docs p.workflowId
        ((c.shared.docs p.workflowId).map _) := rfl
      rw [hdocs] at hdoc'
      by_cases heq : id = p.workflowId
      · rw [heq, Function.update_self] at hdoc'
        obtain ⟨doc, hdoc, rfl⟩ := Option.map_eq_some_iff.mp hdoc'
        exact .inl (WorkflowStore.liveVersion_eq_some.mpr ⟨doc, heq ▸ hdoc, hdeployed, hn⟩)
      · rw [Function.update_of_ne heq] at hdoc'
        exact .inl (hsame hdoc')
  | @goesLive read lw number hran hstage =>
      have hdocs : ((c.shared.updateDoc p.workflowId fun doc => lw.apply number doc).setEdited
        p.workflowId false).docs = Function.update c.shared.docs p.workflowId
        ((c.shared.docs p.workflowId).map (lw.apply number)) := rfl
      rw [hdocs] at hdoc'
      by_cases heq : id = p.workflowId
      · rw [heq, Function.update_self] at hdoc'
        obtain ⟨doc, hdoc, rfl⟩ := Option.map_eq_some_iff.mp hdoc'
        have hnumber : number = n := by
          cases lw with
          | deploy token secret => exact Option.some.inj hn
          | rollback target => exact Option.some.inj hn
        exact .inr ⟨heq, hran, read, lw, by rw [hstage, hnumber]⟩
      · rw [Function.update_of_ne heq] at hdoc'
        exact .inl (hsame hdoc')
  | reads hop hdoc hadmits hdraw | deploys hop hdoc hnodes hgate hdraw =>
      rw [hdraw.frame.1] at hdoc'
      exact .inl (hsame hdoc')
  | _ => exact .inl (hsame hdoc')

/-- What is kept after a step was kept before it, or has just been numbered. -/
theorem RequestStep.kept (h : RequestStep cfg i input c.shared p s' stage)
    (hok : p.strays cfg c input = false) (hi : c.proc i = some p)
    (hkept : Kept ⟨s', c.procs.set i (some (p.become stage))⟩ id n) :
    Kept c id n ∨ id = p.workflowId ∧ n = c.shared.nextNumber id := by
  rcases hkept with hlive | ⟨j, q, hj, rfl, hn⟩
  · rcases h.liveVersion hok hlive with hlive | ⟨rfl, -, read, lw, hstage⟩
    · exact .inl (.inl hlive)
    · exact .inl (.inr ⟨i, p, hi, rfl, by rw [hstage]; rfl⟩)
  · rcases Configuration.proc_set (g := c.shared) hj with ⟨rfl, hq⟩ | ⟨-, hj⟩
    · cases hq
      rw [WorkflowRequest.become_stage] at hn
      have hold : p.stage.number = some n → Kept c p.workflowId n :=
        fun hnumber => .inr ⟨_, p, hi, rfl, hnumber⟩
      cases h with
      | picks hstage =>
          cases hn
          exact .inr ⟨rfl, rfl⟩
      | keepsAll hstage | dooms hran hstage =>
          exact .inl (hold (by rw [hstage]; exact hn))
      | snapshots hran hstage hnew hnext | prunes hran hstage hnext =>
          rcases hnext with rfl | rfl
          · exact .inl (hold (by rw [hstage]; exact hn))
          · cases hn
      | _ => cases hn
    · exact .inl (.inr ⟨j, q, hj, rfl, hn⟩)

/-- A kept snapshot is not deleted. -/
theorem RequestStep.version (h : RequestStep cfg i input c.shared p s' stage)
    (hc : Snapshotted c) (hok : p.strays cfg c input = false) (hi : c.proc i = some p)
    (hkept : Kept c id n) {v : WorkflowVersion} (hv : c.shared.version id n = some v) :
    s'.version id n = some v := by
  cases h with
  | snapshots hran hstage hnew hnext =>
      by_cases heq : id = p.workflowId
      · subst heq
        exact WorkflowStore.version_append hv
      · rw [WorkflowStore.version_setVersions_of_ne heq]
        exact hv
  | @prunes read lw number doomed _ hran hstage hnext =>
      by_cases heq : id = p.workflowId
      · subst heq
        refine WorkflowStore.version_filter hv ?_
        rintro x rfl
        have hspare : x.versionNumber ∉ doomed :=
          fun hmem => (hc.doomed i p _ _ _ _ hi hstage _ hmem).2 hkept
        simpa using hspare
      · rw [WorkflowStore.version_setVersions_of_ne heq]
        exact hv
  | erases hran hstage hop =>
      by_cases heq : id = p.workflowId
      · subst heq
        refine WorkflowStore.version_filter hv ?_
        rintro x rfl
        rw [decide_eq_true_eq]
        rintro rfl
        rcases hkept with hlive | ⟨j, q, hj, hid, hn⟩
        · exact hc.aimed i p _ hi hstage hop hlive
        · -- a deploy or a rollback would be under way
          have hlive : q.stage.live.isSome = true := by
            cases hq : q.stage <;> simp [hq, WorkflowStage.number] at hn ⊢ <;> rfl
          have hunderWay := underWay_of_proc (k := (·.live.isSome)) hj hlive
          rw [hid] at hunderWay
          simp [WorkflowRequest.strays, hran, hstage, hunderWay] at hok
      · rw [WorkflowStore.version_setVersions_of_ne heq]
        exact hv
  | commits hran hstage | drafts hran hstage | goesLive hran hstage | inserts hran hstage hnew =>
      exact hv
  | reads hop hdoc hadmits hdraw | deploys hop hdoc hnodes hgate hdraw =>
      rw [WorkflowStore.version, hdraw.frame.2.1]
      exact hv
  | _ => exact hv

/-- What a prune is about to delete has a newer number, as long as a deploy or a rollback is under
way. -/
theorem RequestStep.newer (h : RequestStep cfg i input c.shared p s' stage)
    (hc : Snapshotted c) (hok : p.strays cfg c input = false) (hi : c.proc i = some p)
    (hunderWay : underWay c id (·.live.isSome) = true) (hn : ∃ m ∈ c.shared.numbers id, n < m) :
    ∃ m ∈ s'.numbers id, n < m := by
  obtain ⟨m, hm, hlt⟩ := hn
  cases h with
  | snapshots hran hstage hnew hnext =>
      refine ⟨m, ?_, hlt⟩
      by_cases heq : id = p.workflowId
      · subst heq
        rw [WorkflowStore.numbers_setVersions_self, List.map_append]
        exact List.mem_append_left _ hm
      · rw [WorkflowStore.numbers_setVersions_of_ne heq]
        exact hm
  | @prunes read lw number doomed _ hran hstage hnext =>
      by_cases heq : id = p.workflowId
      · subst heq
        -- the newest number is not among them
        obtain ⟨top, htop⟩ : ∃ top, (c.shared.numbers p.workflowId).max? = some top :=
          Option.isSome_iff_exists.mp (List.isSome_max?_of_mem hm)
        obtain ⟨htopMem, htopLe⟩ := List.max?_eq_some_iff.mp htop
        obtain ⟨v, hv, rfl⟩ := List.mem_map.mp htopMem
        refine ⟨v.versionNumber, ?_, lt_of_lt_of_le hlt (htopLe m hm)⟩
        rw [WorkflowStore.numbers_setVersions_self]
        refine List.mem_map_of_mem (List.mem_filter.mpr ⟨hv, ?_⟩)
        have hnot : v.versionNumber ∉ doomed := by
          intro hmem
          obtain ⟨m', hm', hlt'⟩ := (hc.doomed i p _ _ _ _ hi hstage _ hmem).1
          have := htopLe m' hm'
          omega
        simpa using hnot
      · refine ⟨m, ?_, hlt⟩
        rw [WorkflowStore.numbers_setVersions_of_ne heq]
        exact hm
  | erases hran hstage hop =>
      by_cases heq : id = p.workflowId
      · subst heq
        simp [WorkflowRequest.strays, hran, hstage, hunderWay] at hok
      · refine ⟨m, ?_, hlt⟩
        rw [WorkflowStore.numbers_setVersions_of_ne heq]
        exact hm
  | commits hran hstage | drafts hran hstage | goesLive hran hstage | inserts hran hstage hnew =>
      exact ⟨m, hm, hlt⟩
  | reads hop hdoc hadmits hdraw | deploys hop hdoc hnodes hgate hdraw =>
      refine ⟨m, ?_, hlt⟩
      rw [WorkflowStore.numbers, hdraw.frame.2.1]
      exact hm
  | _ => exact ⟨m, hm, hlt⟩

/-- The graph stays while a deploy is under way. -/
theorem RequestStep.graph (h : RequestStep cfg i input c.shared p s' stage)
    (hok : p.strays cfg c input = false) (hunderWay : underWay c id (·.deploying) = true)
    {doc : StoredWorkflow} (hdoc : c.shared.docs id = some doc) :
    ∃ doc', s'.docs id = some doc' ∧ doc'.graph = doc.graph := by
  cases h with
  | @inserts new hran hstage hnew =>
      have hne : id ≠ new.workflowId := by
        rintro rfl
        rw [hnew] at hdoc
        cases hdoc
      exact ⟨doc, (Function.update_of_ne hne _ _).trans hdoc, rfl⟩
  | @commits read hran hstage =>
      refine WorkflowStore.exists_docs_update hdoc rfl _ (WorkflowRequest.commit_docs read) ?_
      rintro rfl
      refine WorkflowRequest.write_graph ?_
      simpa [WorkflowRequest.strays, hran, hstage, hunderWay] using hok
  | @drafts target hran hstage =>
      refine WorkflowStore.exists_docs_update hdoc rfl _ rfl ?_
      rintro rfl
      simp [WorkflowRequest.strays, hran, hstage, hunderWay] at hok
  | @goesLive read lw number hran hstage =>
      refine WorkflowStore.exists_docs_update hdoc rfl _ rfl ?_
      rintro rfl
      cases lw with
      | deploy token secret => rfl
      | rollback target =>
          simp [WorkflowRequest.strays, hran, hstage, hunderWay, LiveWrite.isRollback] at hok
  | reads hop hread hadmits hdraw | deploys hop hread hnodes hgate hdraw =>
      exact ⟨doc, by rw [hdraw.frame.1]; exact hdoc, rfl⟩
  | _ => exact ⟨doc, hdoc, rfl⟩

/-- What is deployed after a step has a snapshot. -/
theorem RequestStep.mirrors (h : RequestStep cfg i input c.shared p s' stage)
    (hc : Snapshotted c) (hok : p.strays cfg c input = false) (hi : c.proc i = some p) :
    s'.Mirrors := by
  -- a document that names the same snapshot, with its graph unless it is edited
  have hkeeps : ∀ (id : String) (doc doc' : StoredWorkflow), c.shared.docs id = some doc →
      doc.deployed = true → doc'.deployedVersion = doc.deployedVersion →
      (s'.edited id = false → c.shared.edited id = false ∧ doc'.graph = doc.graph) →
      ∃ number v, doc'.deployedVersion = some number ∧ s'.version id number = some v ∧
        (s'.edited id = false → doc'.graph = v.graph) := by
    intro id doc doc' hdoc hdeployed hsame hgraph
    obtain ⟨number, v, hn, hv, hmirrors⟩ := hc.mirrors id doc hdoc hdeployed
    have hlive : Kept c id number :=
      .inl (WorkflowStore.liveVersion_eq_some.mpr ⟨doc, hdoc, hdeployed, hn⟩)
    refine ⟨number, v, hsame.trans hn, h.version hc hok hi hlive hv, ?_⟩
    intro hedited
    obtain ⟨hwas, hgraph⟩ := hgraph hedited
    rw [hgraph]
    exact hmirrors hwas
  cases h with
  | @inserts new hran hstage hnew =>
      refine WorkflowStore.forall_docs_update (s := c.shared) ?_ rfl ?_
      · intro id doc hdoc hdeployed
        exact hkeeps id doc doc hdoc hdeployed rfl fun hedited => ⟨hedited, rfl⟩
      · intro doc hsome hdeployed
        cases hsome
        simp [WorkflowRequest.strays, hran, hstage, hdeployed] at hok
  | @commits read hran hstage =>
      intro id doc' hdoc' hdeployed
      rw [WorkflowRequest.commit_docs] at hdoc'
      by_cases heq : id = p.workflowId
      · subst heq
        rw [Function.update_self] at hdoc'
        obtain ⟨doc, hdoc, rfl⟩ := Option.map_eq_some_iff.mp hdoc'
        refine hkeeps _ doc _ hdoc (WorkflowRequest.write_deployed hdeployed)
          (WorkflowRequest.write_deployedVersion _ _ _) ?_
        intro hedited
        have hboth : WorkflowRequest.editsGraph p.op = false ∧
            c.shared.edited p.workflowId = false := by
          simpa [WorkflowRequest.commit, WorkflowStore.setEdited, WorkflowStore.updateDoc]
            using hedited
        exact ⟨hboth.2, WorkflowRequest.write_graph hboth.1⟩
      · rw [Function.update_of_ne heq] at hdoc'
        refine hkeeps id doc' doc' hdoc' hdeployed rfl ?_
        intro hedited
        exact ⟨(Function.update_of_ne heq _ _).symm.trans hedited, rfl⟩
  | @drafts target hran hstage =>
      intro id doc' hdoc' hdeployed
      have hdocs : (p.restoreDraft target c.shared).docs = Function.update c.shared.docs p.workflowId
        ((c.shared.docs p.workflowId).map _) := rfl
      rw [hdocs] at hdoc'
      by_cases heq : id = p.workflowId
      · subst heq
        rw [Function.update_self] at hdoc'
        obtain ⟨doc, hdoc, rfl⟩ := Option.map_eq_some_iff.mp hdoc'
        refine hkeeps _ doc _ hdoc hdeployed rfl ?_
        intro hedited
        simp [WorkflowRequest.restoreDraft, WorkflowStore.setEdited] at hedited
      · rw [Function.update_of_ne heq] at hdoc'
        refine hkeeps id doc' doc' hdoc' hdeployed rfl ?_
        intro hedited
        exact ⟨(Function.update_of_ne heq _ _).symm.trans hedited, rfl⟩
  | @goesLive read lw number hran hstage =>
      intro id doc' hdoc' hdeployed
      have hdocs : ((c.shared.updateDoc p.workflowId fun doc => lw.apply number doc).setEdited
        p.workflowId false).docs = Function.update c.shared.docs p.workflowId
        ((c.shared.docs p.workflowId).map (lw.apply number)) := rfl
      rw [hdocs] at hdoc'
      by_cases heq : id = p.workflowId
      · subst heq
        rw [Function.update_self] at hdoc'
        obtain ⟨doc, hdoc, rfl⟩ := Option.map_eq_some_iff.mp hdoc'
        obtain ⟨v, hv, hgraph⟩ := hc.stored i p read lw number hi (by rw [hstage]; rfl)
        refine ⟨number, v, by cases lw <;> rfl, hv, ?_⟩
        intro _
        cases lw with
        | deploy token secret =>
            obtain ⟨doc₁, hdoc₁, hread⟩ :=
              hc.read i p read token secret hi (by rw [hstage]; rfl)
            obtain rfl : doc = doc₁ := Option.some.inj (hdoc.symm.trans hdoc₁)
            exact hread.trans hgraph.symm
        | rollback target => exact hgraph.symm
      · rw [Function.update_of_ne heq] at hdoc'
        refine hkeeps id doc' doc' hdoc' hdeployed rfl ?_
        intro hedited
        exact ⟨(Function.update_of_ne heq _ _).symm.trans hedited, rfl⟩
  | reads hop hread hadmits hdraw | deploys hop hread hnodes hgate hdraw =>
      intro id doc hdoc hdeployed
      rw [hdraw.frame.1] at hdoc
      rw [hdraw.frame.2.2.1] at hkeeps ⊢
      exact hkeeps id doc doc hdoc hdeployed rfl fun hedited => ⟨hedited, rfl⟩
  | _ =>
      intro id doc hdoc hdeployed
      exact hkeeps id doc doc hdoc hdeployed rfl fun hedited => ⟨hedited, rfl⟩

/-- A step that does not stray keeps everything. -/
theorem RequestStep.snapshotted (h : RequestStep cfg i input c.shared p s' stage)
    (hc : Snapshotted c) (hok : p.strays cfg c input = false) (hi : c.proc i = some p) :
    Snapshotted ⟨s', c.procs.set i (some (p.become stage))⟩ where
  mirrors := h.mirrors hc hok hi
  read := by
    intro j q read token secret hj hlive
    -- a deploy that was under way before the step
    have hold : ∀ q : WorkflowRequest, (∃ j, c.proc j = some q) →
        q.stage.live = some (read, .deploy token secret) →
        ∃ doc, s'.docs q.workflowId = some doc ∧ doc.graph = read.graph := by
      rintro q ⟨j, hj⟩ hlive
      obtain ⟨doc, hdoc, hgraph⟩ := hc.read j q read token secret hj hlive
      obtain ⟨doc', hdoc', hsame⟩ := h.graph hok
        (underWay_of_proc (k := (·.deploying)) hj (by simp [WorkflowStage.deploying, hlive])) hdoc
      exact ⟨doc', hdoc', hsame.trans hgraph⟩
    rcases Configuration.proc_set (g := c.shared) hj with ⟨-, hq⟩ | ⟨-, hj⟩
    · cases hq
      rw [WorkflowRequest.become_stage] at hlive
      rw [WorkflowRequest.become_workflowId]
      cases h with
      | deploys hop hdoc hnodes hgate hdraw =>
          cases hlive
          exact ⟨_, by rw [hdraw.frame.1]; exact hdoc, rfl⟩
      | picks hstage | keepsAll hstage | dooms hran hstage =>
          cases hlive
          exact hold p ⟨i, hi⟩ (by rw [hstage]; rfl)
      | snapshots hran hstage hnew hnext | prunes hran hstage hnext =>
          rcases hnext with rfl | rfl
          · cases hlive
            exact hold p ⟨i, hi⟩ (by rw [hstage]; rfl)
          · cases hlive
      | _ => cases hlive
    · exact hold q ⟨j, hj⟩ hlive
  stored := by
    intro j q read lw n hj hstored
    have hold : ∀ q : WorkflowRequest, (∃ j, c.proc j = some q) →
        q.stage.stored = some (read, lw, n) →
        ∃ v, s'.version q.workflowId n = some v ∧ v.graph = lw.graph read := by
      rintro q ⟨j, hj⟩ hstored
      obtain ⟨v, hv, hgraph⟩ := hc.stored j q read lw n hj hstored
      refine ⟨v, h.version hc hok hi (.inr ⟨j, q, hj, rfl, ?_⟩) hv, hgraph⟩
      cases hq : q.stage <;> simp [hq, WorkflowStage.stored] at hstored <;>
        simp [WorkflowStage.number, hstored]
    rcases Configuration.proc_set (g := c.shared) hj with ⟨-, hq⟩ | ⟨-, hj⟩
    · cases hq
      rw [WorkflowRequest.become_stage] at hstored
      rw [WorkflowRequest.become_workflowId]
      cases h with
      | keepsAll hstage | dooms hran hstage =>
          cases hstored
          exact hold p ⟨i, hi⟩ (by rw [hstage]; rfl)
      | snapshots hran hstage hnew hnext =>
          rcases hnext with rfl | rfl
          · cases hstored
            refine ⟨lw.snapshot read n, ?_, by cases lw <;> rfl⟩
            have hnumber : (lw.snapshot read n).versionNumber = n := by cases lw <;> rfl
            have hnew' := WorkflowStore.version_append_new (x := lw.snapshot read n)
              (by rw [hnumber]; exact hnew)
            rw [hnumber] at hnew'
            exact hnew'
          · cases hstored
      | prunes hran hstage hnext =>
          rcases hnext with rfl | rfl
          · cases hstored
            exact hold p ⟨i, hi⟩ (by rw [hstage]; rfl)
          · cases hstored
      | _ => cases hstored
    · exact hold q ⟨j, hj⟩ hstored
  doomed := by
    intro j q read lw n doomed hj hstage d hd
    -- what another prune is about to delete
    have hold : ∀ q : WorkflowRequest, (∃ j, c.proc j = some q) →
        q.stage = .pruneDelete read lw n doomed →
        (∃ m ∈ s'.numbers q.workflowId, d < m) ∧
          ¬ Kept ⟨s', c.procs.set i (some (p.become stage))⟩ q.workflowId d := by
      rintro q ⟨j, hj⟩ hstage
      obtain ⟨hnewer, hspare⟩ := hc.doomed j q read lw n doomed hj hstage d hd
      refine ⟨h.newer hc hok hi (underWay_of_proc (k := (·.live.isSome)) hj
        (by rw [hstage]; rfl)) hnewer, ?_⟩
      intro hkept
      rcases h.kept hok hi hkept with hwas | ⟨-, hnext⟩
      · exact hspare hwas
      · -- a number that has just been chosen is above all others
        obtain ⟨m, hm, hlt⟩ := hnewer
        have := WorkflowStore.lt_nextNumber hm
        omega
    rcases Configuration.proc_set (g := c.shared) hj with ⟨-, hq⟩ | ⟨-, hj⟩
    · cases hq
      rw [WorkflowRequest.become_stage] at hstage
      rw [WorkflowRequest.become_workflowId]
      cases h with
      | @dooms read' lw' number hran hfind =>
          cases hstage
          have hmany := le_countP_of_mem_prunedVersions hd
          have hpos := cfg.maxWorkflowVersions_pos
          constructor
          · have hsome : 0 < (c.shared.numbers p.workflowId).countP (d < ·) := by omega
            obtain ⟨m, hm, hlt⟩ := List.countP_pos_iff.mp hsome
            exact ⟨m, hm, by simpa using hlt⟩
          · intro hkept
            rcases (RequestStep.dooms hran hfind).kept hok hi hkept with hwas | ⟨-, hnext⟩
            · have hfew : ∀ m ∈ liveNumbers c p.workflowId,
                  c.shared.newer p.workflowId m < cfg.maxWorkflowVersions := by
                simpa [WorkflowRequest.strays, hran, hfind] using hok
              have := hfew d (mem_liveNumbers hwas)
              rw [WorkflowStore.newer] at this
              omega
            · have hmem : d ∈ c.shared.numbers p.workflowId := (List.mem_filter.mp hd).1
              have := WorkflowStore.lt_nextNumber hmem
              omega
      | snapshots hran hfind hnew hnext | prunes hran hfind hnext =>
          rcases hnext with rfl | rfl <;> cases hstage
      | _ => cases hstage
    · exact hold q ⟨j, hj⟩ hstage
  aimed := by
    intro j q n hj hstage hop hlive
    rcases Configuration.proc_set (g := c.shared) hj with ⟨-, hq⟩ | ⟨-, hj⟩
    · cases hq
      rw [WorkflowRequest.become_stage] at hstage
      rw [WorkflowRequest.become_op] at hop
      rw [WorkflowRequest.become_workflowId] at hlive
      cases h with
      | @aims doc number hop' hdoc hother =>
          obtain ⟨doc', hdoc', -, hn⟩ := WorkflowStore.liveVersion_eq_some.mp hlive
          obtain rfl : doc = doc' := Option.some.inj (hdoc.symm.trans hdoc')
          obtain rfl : number = n := by
            rw [hop'] at hop
            cases hop
            rfl
          exact hother hn
      | snapshots hran hfind hnew hnext | prunes hran hfind hnext =>
          rcases hnext with rfl | rfl <;> cases hstage
      | _ => cases hstage
    · rcases h.liveVersion hok hlive with hwas | ⟨hid, hran, read, lw, hgoes⟩
      · exact hc.aimed j q n hj hstage hop hwas
      · -- nothing goes live while a delete-version is under way
        have hunderWay := underWay_of_proc (k := (·.deleting)) hj (by rw [hstage]; rfl)
        rw [hid] at hunderWay
        simp [WorkflowRequest.strays, hran, hgoes, hunderWay] at hok

end Steps

/-! ## Runs -/

/-- Fewer requests, over the same store. -/
theorem Snapshotted.of_procs {c c' : StoreRun} (hc : Snapshotted c) (hshared : c'.shared = c.shared)
    (hprocs : ∀ i p, c'.proc i = some p → c.proc i = some p ∨ p.stage = .find) :
    Snapshotted c' where
  mirrors := by
    rw [hshared]
    exact hc.mirrors
  read := by
    intro i p read token secret hi hlive
    rw [hshared]
    rcases hprocs i p hi with hi | hfind
    · exact hc.read i p read token secret hi hlive
    · rw [hfind] at hlive
      cases hlive
  stored := by
    intro i p read lw n hi hstored
    rw [hshared]
    rcases hprocs i p hi with hi | hfind
    · exact hc.stored i p read lw n hi hstored
    · rw [hfind] at hstored
      cases hstored
  doomed := by
    intro i p read lw n doomed hi hstage d hd
    rcases hprocs i p hi with hi | hfind
    · obtain ⟨hnewer, hspare⟩ := hc.doomed i p read lw n doomed hi hstage d hd
      refine ⟨by rw [hshared]; exact hnewer, ?_⟩
      rintro (hlive | ⟨j, q, hj, hid, hn⟩)
      · rw [hshared] at hlive
        exact hspare (.inl hlive)
      · rcases hprocs j q hj with hj | hfind
        · exact hspare (.inr ⟨j, q, hj, hid, hn⟩)
        · rw [hfind] at hn
          cases hn
    · rw [hfind] at hstage
      cases hstage
  aimed := by
    intro i p n hi hstage hop
    rw [hshared]
    rcases hprocs i p hi with hi | hfind
    · exact hc.aimed i p n hi hstage hop
    · rw [hfind] at hstage
      cases hstage

theorem Snapshotted.steps {cfg : StoreConfig} {c c' : StoreRun} (hc : Snapshotted c)
    (h : (workflowSystem cfg).Steps (KeepsSnapshots cfg) c c') : Snapshotted c' := by
  rcases h.cases with ⟨x, s', p, -, hspawn, rfl⟩ | ⟨i, input, p, s', p', hok, hi, hstep, rfl⟩ |
    ⟨i, -, rfl⟩ | ⟨e, -, -, -, -⟩
  · cases hspawn
    refine hc.of_procs rfl ?_
    intro i p hi
    rcases Configuration.proc_append (g := c.shared) hi with ⟨-, rfl⟩ | hi
    · exact .inr rfl
    · exact .inl hi
  · obtain ⟨hp', hstep⟩ := WorkflowRequest.step_sound hstep
    rw [hp']
    exact hstep.snapshotted hc (hok p hi) hi
  · refine hc.of_procs rfl ?_
    intro j p hj
    rcases Configuration.proc_set (g := c.shared) hj with ⟨-, hnone⟩ | ⟨-, hj⟩
    · cases hnone
    · exact .inl hj
  · exact e.elim

/-- In a run in which no step strays the snapshot that a deployed workflow names is kept, and is
its graph until it is edited: rolling back to it would change nothing. -/
theorem WorkflowStore.Mirrors.deployed_has_snapshot {cfg : StoreConfig} {c₀ c : StoreRun}
    (hstart : c₀.procs = []) (hmirrors : c₀.shared.Mirrors)
    (hreach : (workflowSystem cfg).Reaches (KeepsSnapshots cfg) c₀ c) :
    c.shared.Mirrors ∧ ∀ id doc number v, c.shared.docs id = some doc → doc.deployed = true →
      c.shared.edited id = false → doc.deployedVersion = some number →
      c.shared.version id number = some v → doc.setGraph v.graph = doc := by
  have hnone : ∀ i p, c₀.proc i ≠ some p := by
    intro i p hi
    simp [Configuration.proc, hstart] at hi
  have hbegin : Snapshotted c₀ := by
    refine ⟨hmirrors, ?_, ?_, ?_, ?_⟩
    · intro i p read token secret hi
      exact absurd hi (hnone i p)
    · intro i p read lw n hi
      exact absurd hi (hnone i p)
    · intro i p read lw n doomed hi
      exact absurd hi (hnone i p)
    · intro i p n hi
      exact absurd hi (hnone i p)
  have hend := (hreach.keeps (fun _ _ hc => hc.steps) hbegin).mirrors
  refine ⟨hend, ?_⟩
  intro id doc number v hdoc hdeployed hedited hn hv
  obtain ⟨number', v', hn', hv', hgraph⟩ := hend id doc hdoc hdeployed
  obtain rfl : number = number' := Option.some.inj (hn.symm.trans hn')
  obtain rfl : v = v' := Option.some.inj (hv.symm.trans hv')
  rw [← hgraph hedited]
  exact doc.setGraph_graph

/-- The edited workflow is deployed again. -/
def redeploysHook : List StoreMove :=
  editsHook ++ StoreMove.begin "hook" (.deploy "token-3" "secret-3") :: StoreMove.commands 4 5

theorem redeployed_has_snapshot : ∃ c,
    (workflowSystem namedStore).Reaches (KeepsSnapshots namedStore) ⟨{}, []⟩ c ∧
      (c.shared.docs "hook").bind (·.deployedVersion) = some 2 ∧ c.shared.Mirrors := by
  have hplay : ((workflowSystem namedStore).play (KeepsSnapshots namedStore) redeploysHook
      ⟨{}, []⟩).any (fun c => (c.shared.docs "hook").bind (·.deployedVersion) = some 2) = true := by
    decide +kernel
  obtain ⟨c, hreach, hdeployed⟩ := System.exists_reaches_of_play _ _ _ _ _ hplay
  refine ⟨c, hreach, by simpa using hdeployed,
    (WorkflowStore.Mirrors.deployed_has_snapshot rfl ?_ hreach).1⟩
  intro id doc hdoc
  cases hdoc

/-- The snapshot that a deployed workflow names is its graph. -/
def WorkflowStore.LiveIsSnapshot (s : WorkflowStore) : Prop :=
  ∀ id doc, s.docs id = some doc → doc.deployed = true →
    ∃ number v, doc.deployedVersion = some number ∧ s.version id number = some v ∧
      doc.graph = v.graph

/-- A deployed workflow with its snapshot. -/
def deployedStore : WorkflowStore where
  docs := Function.update (fun _ => none) "report"
    (some { workflowId := "report", status := .written .deployed, deployedVersion := some 1 })
  versions := Function.update (fun _ => []) "report" [{ versionNumber := 1, graph := {} }]

theorem deployedStore_liveIsSnapshot : deployedStore.LiveIsSnapshot := by
  refine WorkflowStore.forall_docs_update (s := {}) ?_ rfl ?_
  · intro id doc hdoc
    cases hdoc
  · intro doc hdoc _
    cases hdoc
    exact ⟨1, { versionNumber := 1, graph := {} }, rfl, rfl, rfl⟩

/-- A PUT changes the schedule of the deployed workflow, and not its snapshot. -/
theorem edit_leaves_snapshot : ¬ ∀ (cfg : StoreConfig) (s : WorkflowStore), s.LiveIsSnapshot →
    ∀ c, (workflowSystem cfg).Reaches (KeepsSnapshots cfg) ⟨s, []⟩ c →
      c.shared.LiveIsSnapshot := by
  intro hclaim
  have hplay : ((workflowSystem bareStore).play (KeepsSnapshots bareStore)
      (StoreMove.begin "report" (.update { schedule := some { enabled := true } }) ::
        StoreMove.commands 0 2) ⟨deployedStore, []⟩).any (fun c =>
          (c.shared.docs "report").any fun doc => doc.deployed && doc.schedule.enabled &&
            doc.deployedVersion.all fun n =>
              (c.shared.version "report" n).all fun v => !v.graph.schedule.enabled) = true := by
    decide +kernel
  obtain ⟨c, hreach, hedited⟩ := System.exists_reaches_of_play _ _ _ _ _ hplay
  obtain ⟨doc, hdoc, hedited⟩ := (Option.any_eq_true _ _).mp hedited
  simp only [Bool.and_eq_true] at hedited
  obtain ⟨⟨hdeployed, henabled⟩, hsnapshot⟩ := hedited
  obtain ⟨n, v, hn, hv, hgraph⟩ :=
    hclaim bareStore deployedStore deployedStore_liveIsSnapshot c hreach "report" doc hdoc hdeployed
  have hschedule : doc.schedule = v.graph.schedule := congrArg WorkflowGraph.schedule hgraph
  rw [hn, Option.all_some, hv, Option.all_some, ← hschedule, henabled] at hsnapshot
  cases hsnapshot

end CitraFlows
