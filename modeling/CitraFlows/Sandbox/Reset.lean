-- SUMMARY: Pooled sandbox containers: what a reset puts back, and when two histories of a container are the same to the next script.
import Mathlib.Logic.Function.Basic

/-!
# Runs in a pooled container

A run pushes the script and its inputs into `/workspace`, executes the script, pulls
`/workspace/output` and resets the workspace for the next tenant. A script may do anything to the
container. `SameStart` says that the next script cannot tell two histories apart, which is so
exactly when the histories have left the same things where the reset does not reach.
-/

namespace CitraFlows

namespace Sandbox

/-! ## Containers -/

abbrev Path := List String

inductive Node where
  | dir
  | file (content : String)
  | symlink (target : String)
  deriving DecidableEq

/-- The file tree and the running processes of a container. -/
structure Container where
  tree : Path → Option Node
  processes : List String

theorem Container.ext {c c' : Container} (htree : ∀ p, c.tree p = c'.tree p)
    (hprocesses : c.processes = c'.processes) : c = c' := by
  cases c
  cases c'
  simp_all [funext_iff]

def inputDir : Path := ["workspace", "input"]

def outputDir : Path := ["workspace", "output"]

def scriptPath : Path := ["workspace", "script.py"]

namespace Container

/-- `rm -rf` -/
def remove (c : Container) (root : Path) : Container :=
  { c with tree := fun p => if root <+: p then none else c.tree p }

/-- `mkdir -p`, of a directory whose parent is there. -/
def mkdir (c : Container) (dir : Path) : Container :=
  { c with tree := fun p => if p = dir ∧ c.tree p = none then some .dir else c.tree p }

/-- `_reset_workspace`, when its command succeeds; otherwise the container is replaced. -/
def resetWorkspace (c : Container) : Container :=
  ((((c.remove inputDir).remove outputDir).remove scriptPath).mkdir inputDir).mkdir outputDir

/-- `put_archive`: the members of the archive are written over what is there. -/
def putArchive (c : Container) (archive : Path → Option Node) : Container :=
  { c with tree := fun p => (archive p).or (c.tree p) }

end Container

/-- `_build_workspace_archive`: the script, and the input directory with its members. -/
def buildWorkspaceArchive (source : String) (inputs : Path → Option Node) : Path → Option Node :=
  fun p =>
    if p = scriptPath then some (.file source)
    else if p = inputDir then some .dir
    else if inputDir <+: p then inputs (p.drop inputDir.length)
    else none

/-! ## Runs -/

structure ExecResult where
  stdout : String
  stderr : String
  exitCode : Int
  deriving DecidableEq

/-- A script: its text, and what its execution does to the container that it starts in. -/
structure Script where
  source : String
  exec : Container → Container × ExecResult

/-- A script with its input files, by their path under the input directory. -/
structure Tenant where
  script : Script
  inputs : Path → Option Node

/-- `_extract_output_archive`: the regular files under `/workspace/output`. -/
def extractOutputArchive (c : Container) : Path → Option String :=
  fun p =>
    match c.tree (outputDir ++ p) with
    | some (.file content) => if p = [] then none else some content
    | _ => none

/-- What a run reports, and the output files that it collects. -/
structure RunReport where
  result : ExecResult
  outputFiles : Path → Option String

namespace Tenant

/-- What the script starts from. -/
def start (t : Tenant) (c : Container) : Container :=
  c.putArchive (buildWorkspaceArchive t.script.source t.inputs)

/-- The container as the script leaves it. -/
def leave (t : Tenant) (c : Container) : Container := (t.script.exec (t.start c)).1

/-- `_run_in_pooled_container`, up to the release. -/
def run (t : Tenant) (c : Container) : RunReport :=
  let r := t.script.exec (t.start c)
  { result := r.2
    outputFiles := if r.2.exitCode = 0 then extractOutputArchive r.1 else fun _ => none }

end Tenant

/-- The container before the next run, after the tenants that ran and released it, the last one
first. -/
def pooled (image : Container) : List Tenant → Container
  | [] => image
  | t :: ts => (t.leave (pooled image ts)).resetWorkspace

/-- The container as the last tenant has left it. -/
def left (image : Container) : List Tenant → Container
  | [] => image
  | t :: ts => t.leave (pooled image ts)

/-! ## What the next script sees -/

/-- Every next run starts from the same container, reports the same and collects the same. -/
def SameStart (image : Container) (h h' : List Tenant) : Prop :=
  ∀ next : Tenant, next.start (pooled image h) = next.start (pooled image h') ∧
    next.run (pooled image h) = next.run (pooled image h')

/-- The paths that a reset removes. -/
def cleared (p : Path) : Bool :=
  inputDir.isPrefixOf p || outputDir.isPrefixOf p || scriptPath.isPrefixOf p

/-- A new container has its two directories, and they are empty. -/
structure Provisioned (image : Container) : Prop where
  input : ∀ p, inputDir <+: p → p ≠ inputDir → image.tree p = none
  output : image.tree outputDir = some .dir
  outputEmpty : ∀ p, outputDir <+: p → p ≠ outputDir → image.tree p = none
  script : ∀ p, scriptPath <+: p → p ≠ scriptPath → image.tree p = none

/-- The histories have left the same outside the paths that a reset removes, and the same running
processes; a container that has never been used counts among them as it was provisioned. -/
structure LeftAlike (image : Container) (h h' : List Tenant) : Prop where
  tree : ∀ p, cleared p = false → (left image h).tree p = (left image h').tree p
  processes : (left image h).processes = (left image h').processes
  unused : (h = [] ↔ h' = []) ∨ Provisioned image

/-! ## The reset -/

theorem cleared_eq_true {p : Path} :
    cleared p = true ↔ inputDir <+: p ∨ outputDir <+: p ∨ scriptPath <+: p := by
  simp [cleared, or_assoc]

theorem ne_of_not_cleared {p q : Path} (hp : cleared p = false) (hq : cleared q = true) :
    p ≠ q := by
  rintro rfl
  simp [hq] at hp

theorem ne_of_prefix {root p q : Path} (hp : root <+: p) (hq : ¬ root <+: q) : p ≠ q := by
  rintro rfl
  exact hq hp

theorem resetWorkspace_tree (c : Container) (p : Path) :
    c.resetWorkspace.tree p =
      if p = inputDir ∨ p = outputDir then some .dir
      else if cleared p then none else c.tree p := by
  simp only [Container.resetWorkspace, Container.mkdir, Container.remove]
  by_cases hin : p = inputDir
  · subst hin
    simp
  · by_cases hout : p = outputDir
    · subst hout
      simp [hin]
    · have hiff := cleared_eq_true (p := p)
      simp only [hin, hout, false_and, if_false, or_self]
      by_cases hscript : scriptPath <+: p
      · simp [hiff.mpr (Or.inr (Or.inr hscript)), hscript]
      · by_cases houtput : outputDir <+: p
        · simp [hiff.mpr (Or.inr (Or.inl houtput)), houtput]
        · by_cases hinput : inputDir <+: p
          · simp [hiff.mpr (Or.inl hinput), hinput]
          · have hkept : cleared p = false := by
              rw [← Bool.not_eq_true, hiff]
              simp [hscript, houtput, hinput]
            simp [hkept, hscript, houtput, hinput]

/-- The reset leaves what it does not remove, and every process. -/
theorem pooled_tree (image : Container) (h : List Tenant) {p : Path} (hp : cleared p = false) :
    (pooled image h).tree p = (left image h).tree p := by
  cases h with
  | nil => rfl
  | cons t ts =>
      have hin : p ≠ inputDir := ne_of_not_cleared hp (by decide)
      have hout : p ≠ outputDir := ne_of_not_cleared hp (by decide)
      simp [pooled, left, resetWorkspace_tree, hin, hout, hp]

theorem pooled_processes (image : Container) (h : List Tenant) :
    (pooled image h).processes = (left image h).processes := by
  cases h <;> rfl

/-! ## The archive -/

theorem buildWorkspaceArchive_of_not_cleared {source : String} {inputs : Path → Option Node}
    {p : Path} (hp : cleared p = false) : buildWorkspaceArchive source inputs p = none := by
  have hnot : ¬ (inputDir <+: p ∨ outputDir <+: p ∨ scriptPath <+: p) := by
    rw [← cleared_eq_true, hp]
    simp
  have hscript : p ≠ scriptPath := ne_of_not_cleared hp (by decide)
  have hin : p ≠ inputDir := ne_of_not_cleared hp (by decide)
  simp [buildWorkspaceArchive, hscript, hin, show ¬ inputDir <+: p from fun h => hnot (Or.inl h)]

/-- An archive without input files holds the script and the input directory. -/
theorem buildWorkspaceArchive_empty {source : String} {p : Path} (hscript : p ≠ scriptPath)
    (hin : p ≠ inputDir) : buildWorkspaceArchive source (fun _ => none) p = none := by
  simp [buildWorkspaceArchive, hscript, hin]

theorem start_tree (t : Tenant) (c : Container) (p : Path) :
    (t.start c).tree p =
      (buildWorkspaceArchive t.script.source t.inputs p).or (c.tree p) := rfl

/-! ## Histories -/

/-- A tenant that only looks. -/
def idle : Tenant := ⟨⟨"", fun c => (c, ⟨"", "", 0⟩)⟩, fun _ => none⟩

/-- What an archive does not write is the same to the next script only if it was the same. -/
theorem SameStart.tree_eq {image : Container} {h h' : List Tenant} (hsame : SameStart image h h')
    {p : Path} (hscript : p ≠ scriptPath) (hin : p ≠ inputDir) :
    (pooled image h).tree p = (pooled image h').tree p := by
  have hstart := congrArg (fun c : Container => c.tree p) (hsame idle).1
  simpa [start_tree, idle, buildWorkspaceArchive_empty hscript hin] using hstart

theorem SameStart.symm {image : Container} {h h' : List Tenant} (hsame : SameStart image h h') :
    SameStart image h' h :=
  fun next => ⟨(hsame next).1.symm, (hsame next).2.symm⟩

/-- A new container that is the same as one after a reset was provisioned. -/
theorem SameStart.provisioned {image : Container} {t : Tenant} {ts : List Tenant}
    (hsame : SameStart image [] (t :: ts)) : Provisioned image := by
  have htree : ∀ p, p ≠ scriptPath → p ≠ inputDir →
      image.tree p = if p = inputDir ∨ p = outputDir then some .dir
        else if cleared p then none else (left image (t :: ts)).tree p := fun p hscript hin => by
    have heq := hsame.tree_eq hscript hin
    rwa [pooled, pooled, resetWorkspace_tree] at heq
  refine ⟨fun p hp hne => ?_, ?_, fun p hp hne => ?_, fun p hp hne => ?_⟩
  · have hscript : p ≠ scriptPath := ne_of_prefix hp (by decide)
    have hout : p ≠ outputDir := ne_of_prefix hp (by decide)
    simp [htree p hscript hne, hne, hout, cleared_eq_true.mpr (Or.inl hp)]
  · simp [htree outputDir (by decide) (by decide)]
  · have hscript : p ≠ scriptPath := ne_of_prefix hp (by decide)
    have hin : p ≠ inputDir := ne_of_prefix hp (by decide)
    simp [htree p hscript hin, hne, hin, cleared_eq_true.mpr (Or.inr (Or.inl hp))]
  · have hin : p ≠ inputDir := ne_of_prefix hp (by decide)
    have hout : p ≠ outputDir := ne_of_prefix hp (by decide)
    simp [htree p hne hin, hin, hout, cleared_eq_true.mpr (Or.inr (Or.inr hp))]

/-- Before a run the workspace of a container holds what a reset puts there, or what it was
provisioned with. -/
theorem pooled_cleared {image : Container} {h : List Tenant} (hused : h ≠ [] ∨ Provisioned image)
    {p : Path} (hp : cleared p = true) (hscript : p ≠ scriptPath) (hin : p ≠ inputDir) :
    (pooled image h).tree p = if p = outputDir then some .dir else none := by
  cases h with
  | cons t ts => simp [pooled, resetWorkspace_tree, hin, hp]
  | nil =>
      have hprov := hused.resolve_left fun hne => hne rfl
      by_cases hout : p = outputDir
      · subst hout
        simpa [pooled] using hprov.output
      · simp only [pooled, hout, if_false]
        rcases cleared_eq_true.mp hp with hpre | hpre | hpre
        · exact hprov.input p hpre hin
        · exact hprov.outputEmpty p hpre hout
        · exact hprov.script p hpre hscript

/-- The next script cannot tell two histories of a container apart exactly when they have left
the same where the reset does not reach. -/
theorem sameStart_iff_leftAlike (image : Container) (h h' : List Tenant) :
    SameStart image h h' ↔ LeftAlike image h h' := by
  constructor
  · intro hsame
    refine ⟨fun p hp => ?_, ?_, ?_⟩
    · have hscript : p ≠ scriptPath := ne_of_not_cleared hp (by decide)
      have hin : p ≠ inputDir := ne_of_not_cleared hp (by decide)
      rw [← pooled_tree image h hp, ← pooled_tree image h' hp]
      exact hsame.tree_eq hscript hin
    · rw [← pooled_processes, ← pooled_processes]
      have hstart := congrArg Container.processes (hsame idle).1
      exact hstart
    · cases h with
      | nil =>
          cases h' with
          | nil => exact Or.inl Iff.rfl
          | cons t ts => exact Or.inr hsame.provisioned
      | cons t ts =>
          cases h' with
          | nil => exact Or.inr hsame.symm.provisioned
          | cons t' ts' => exact Or.inl (by simp)
  · intro halike next
    have hstart : next.start (pooled image h) = next.start (pooled image h') := by
      refine Container.ext (fun p => ?_) ?_
      · rw [start_tree, start_tree]
        cases hp : cleared p with
        | false =>
            rw [buildWorkspaceArchive_of_not_cleared hp, pooled_tree image h hp,
              pooled_tree image h' hp, halike.tree p hp]
        | true =>
            by_cases hscript : p = scriptPath
            · simp [buildWorkspaceArchive, hscript]
            · by_cases hin : p = inputDir
              · simp [buildWorkspaceArchive, hin, show inputDir ≠ scriptPath by decide]
              · rcases halike.unused with hboth | hprov
                · by_cases hnil : h = []
                  · rw [hnil, hboth.mp hnil]
                  · rw [pooled_cleared (Or.inl hnil) hp hscript hin,
                      pooled_cleared (Or.inl (mt hboth.mpr hnil)) hp hscript hin]
                · rw [pooled_cleared (Or.inr hprov) hp hscript hin,
                    pooled_cleared (Or.inr hprov) hp hscript hin]
      · simp only [Tenant.start, Container.putArchive, pooled_processes, halike.processes]
    exact ⟨hstart, by simp only [Tenant.run, hstart]⟩

/-- A tenant that writes a file next to the paths that the reset removes. -/
def noteTenant : Tenant where
  script :=
    { source := "open('/workspace/notes.txt', 'w').write('secret')"
      exec := fun c =>
        ({ c with
          tree := Function.update c.tree ["workspace", "notes.txt"] (some (.file "secret")) },
          ⟨"", "", 0⟩) }
  inputs := fun _ => none

/-- The note of one tenant is there for the script of the next. -/
theorem not_sameStart : ¬ ∀ (image : Container) (h h' : List Tenant), SameStart image h h' := by
  intro hall
  have htree := (hall ⟨fun _ => none, []⟩ [noteTenant] [idle]).tree_eq
    (p := ["workspace", "notes.txt"]) (by decide) (by decide)
  exact absurd htree (by decide)

end Sandbox

end CitraFlows
