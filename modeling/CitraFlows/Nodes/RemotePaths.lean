-- SUMMARY: Remote paths of the file transfer nodes: what the sanitiser lets through resolves below every base it is joined to.
import CitraFlows.Lib.PosixPath
import CitraFlows.Nodes.Interpolation

/-!
# Remote paths

`sanitize_remote_path` normalises the path of a file on a server and refuses one that
leaves the directory it starts from. An absolute path names its own root and is let through.
-/

namespace CitraFlows.RemotePaths

open PosixPath

/-- `sanitize_remote_path` -/
def sanitizeRemotePath (path : String) : Except PyError String :=
  if path = "" then .ok path
  else
    let normalized := normpath path.toList
    if "..".toList <+: normalized ∨ "/../".toList <:+: path.toList then
      .error (.valueError ("Path traversal detected in path: " ++ Value.reprStr path))
    else .ok (String.ofList normalized)

/-- What a sanitiser of remote paths owes to the server -/
structure Confines (sanitize : String → Except PyError String) : Prop where
  no_parent : ∀ path result, sanitize path = .ok result → parent ∉ result.toList.splitOn '/'
  below : ∀ path result, sanitize path = .ok result → Relative result.toList →
    ∀ base, Below base (join base result.toList)
  relative : ∀ path result, sanitize path = .ok result → Relative path.toList →
    Relative result.toList
  stable : ∀ path result, sanitize path = .ok result → sanitize result = .ok result
  rejects : ∀ path, Relative path.toList → ∀ base, ¬Below base (join base path.toList) →
    ∃ e, sanitize path = .error e

variable {path result : String}

/-- A path that is let through is the empty one, or stands normalised in the result. -/
theorem sanitizeRemotePath_eq_ok (h : sanitizeRemotePath path = .ok result) :
    (path = "" ∧ result = "") ∨
      (result.toList = normpath path.toList ∧ ¬parent <+: normpath path.toList) := by
  unfold sanitizeRemotePath at h
  dsimp only at h
  split_ifs at h with hempty hbad
  · cases h
    exact Or.inl ⟨hempty, hempty⟩
  · cases h
    exact Or.inr ⟨String.toList_ofList, fun hup => hbad (Or.inl hup)⟩

theorem resolve_sanitized (h : sanitizeRemotePath path = .ok result) :
    PosixPath.resolve result.toList = PosixPath.resolve path.toList := by
  cases sanitizeRemotePath_eq_ok h with
  | inl empty => rw [empty.1, empty.2]
  | inr normal => rw [normal.1, resolve_normpath]

theorem parent_not_mem_parts (h : sanitizeRemotePath path = .ok result) :
    parent ∉ (PosixPath.resolve path.toList).parts := by
  cases sanitizeRemotePath_eq_ok h with
  | inl empty =>
    rw [empty.1]
    decide
  | inr normal => exact fun hmem => normal.2 (Resolved.parent_prefix_render _ hmem)

theorem parent_not_mem (h : sanitizeRemotePath path = .ok result) :
    parent ∉ result.toList.splitOn '/' := by
  cases sanitizeRemotePath_eq_ok h with
  | inl empty =>
    rw [empty.2]
    decide
  | inr normal =>
    rw [normal.1]
    exact fun hmem => parent_not_mem_parts h (Resolved.mem_splitOn_render _ hmem)

theorem parent_mem_of_climb {path : List Char} (h : "/../".toList <:+: path) :
    parent ∈ path.splitOn '/' := by
  obtain ⟨before, after, rfl⟩ := h
  have htext : before ++ "/../".toList ++ after = before ++ '/' :: (parent ++ '/' :: after) := by
    simp [parent]
  rw [htext, List.splitOn_append_cons_self, List.splitOn_append_cons_self_of_not_mem (by decide)]
  simp

theorem sanitizeRemotePath_stable (h : sanitizeRemotePath path = .ok result) :
    sanitizeRemotePath result = .ok result := by
  cases sanitizeRemotePath_eq_ok h with
  | inl empty =>
    rw [empty.2]
    rfl
  | inr normal =>
    have hnorm : normpath result.toList = result.toList := by rw [normal.1, normpath_normpath]
    have hup : ¬"..".toList <+: result.toList := by
      rw [normal.1]
      exact normal.2
    have hmid : ¬"/../".toList <:+: result.toList := fun hmem =>
      parent_not_mem h (parent_mem_of_climb hmem)
    unfold sanitizeRemotePath
    dsimp only
    rw [hnorm, if_neg (not_or.mpr ⟨hup, hmid⟩), String.ofList_toList, ite_self]

/-- A relative path that some base would not hold is refused, and what is let through stays
below every base. -/
theorem sanitizeRemotePath_confines : Confines sanitizeRemotePath where
  no_parent _ _ := parent_not_mem
  below path result h hrel base :=
    below_join hrel (by rw [resolve_sanitized h]; exact parent_not_mem_parts h)
  relative path result h hrel := by
    rw [relative_iff, ← resolve_slashes, resolve_sanitized h, resolve_slashes]
    exact relative_iff.mp hrel
  stable _ _ := sanitizeRemotePath_stable
  rejects path hrel base hleaves := by
    cases hresult : sanitizeRemotePath path with
    | error e => exact ⟨e, rfl⟩
    | ok result => exact absurd (below_join hrel (parent_not_mem_parts hresult)) hleaves

/-- An absolute path leaves every relative base, and is let through. -/
theorem absolute_admitted :
    sanitizeRemotePath "/etc/passwd" = .ok "/etc/passwd" ∧ Relative "data".toList ∧
      ¬Below "data".toList (join "data".toList "/etc/passwd".toList) := by
  refine ⟨by decide, by decide, fun h => absurd h.slashes (by decide)⟩

/-! ## The path of an upload -/

section

variable {word : Char → Bool} {vars : Variables} {configured : String}

/-- The remote path of `SFTPWriterNode.execute` -/
def SFTPWriterNode.remotePath (word : Char → Bool) (vars : Variables) (configured : String) :
    Except PyError String := do
  let remotePath ←
    sanitizeRemotePath (String.ofList (interpolateVariables word vars configured.toList))
  if remotePath = "" then throw (.valueError "Remote file path is required") else
  return remotePath

/-- No variable leads an upload out of the directory it starts from. -/
theorem remotePath_below (h : SFTPWriterNode.remotePath word vars configured = .ok result) :
    result ≠ "" ∧ parent ∉ result.toList.splitOn '/' ∧
      (Relative result.toList → ∀ base, Below base (join base result.toList)) := by
  obtain ⟨remotePath, hsanitized, hrest⟩ := ok_of_bind h
  obtain ⟨hne, hresult⟩ := refuse_eq_ok.mp hrest
  cases hresult
  refine ⟨hne, parent_not_mem hsanitized, fun hrel base => below_join hrel ?_⟩
  rw [resolve_sanitized hsanitized]
  exact parent_not_mem_parts hsanitized

end

end CitraFlows.RemotePaths
