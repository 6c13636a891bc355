-- SUMMARY: Directory groups of a login: loading the group map, resolving the groups of a token, and when a token gets exactly what its groups grant.
import CitraFlows.Lib.ElementWise
import CitraFlows.Lib.JsValues
import CitraFlows.Lib.KeyedLists
import CitraFlows.Lib.Splitting
import CitraFlows.Python

/-!
# Directory groups

`loadGroupMap` reads which departments and roles a directory group grants, and
`resolveFromClaims` unites the grants of the groups in an ID token. Which groups those are,
`InToken` says without the code. The names in the token are trimmed and those of the file are
not, so a name of the file with white space around it is found for no token.
-/

namespace CitraFlows.DirectoryGroups

/-! ## The file -/

/-- `ROLES.USER` -/
def userRole : String := "user"

/-- `ROLES.SUPER_ADMIN` -/
def superAdminRole : String := "super_admin"

/-- `ALL_ROLES` -/
def allRoles : List String :=
  [userRole, "IT-workflow", "dept_admin", "org_admin", superAdminRole, "decision-app-builder"]

/-- `UNGRANTABLE_ROLES` -/
def ungrantableRoles : List String := [superAdminRole]

/-- What a group grants -/
structure Grants where
  deptIds : List String
  roles : List String
  deriving DecidableEq

/-- `_resolvePath()` and what is found there: no file, a text that does not parse, with the
message of the parser, or a document -/
structure Setup where
  absPath : String
  explicit : Bool
  file : Option (Except String Js)

/-- The map that `loadGroupMap` returns when there is a file -/
structure EnabledMap where
  claim : String
  caseInsensitive : Bool
  groups : List (String × Grants)
  absPath : String

inductive GroupMap where
  | disabled
  | enabled (map : EnabledMap)

/-- The start of an error about a group -/
def inGroup (name message : String) : String :=
  "[oidcGroupMap] group \"" ++ name ++ "\": " ++ message

/-- An element of a list of names -/
def readName (message : String) : Js → Except String String
  | .string s => if Js.trim s = "" then .error message else .ok s
  | _ => .error message

/-- A list of names in an entry, which may be absent -/
def readNames (name field : String) : Option Js → Except String (List String)
  | none => .ok []
  | some (.array xs) =>
      xs.mapM (readName (inGroup name (field ++ " must be an array of non-empty strings")))
  | some _ => .error (inGroup name (field ++ " must be an array of non-empty strings"))

def checkRole (name role : String) : Except String Unit :=
  if role ∉ allRoles then
    .error (inGroup name ("unknown role \"" ++ role ++ "\". Valid roles: " ++
      ", ".intercalate allRoles))
  else if role ∈ ungrantableRoles then
    .error (inGroup name ("role \"" ++ role ++ "\" cannot be granted from an " ++
      "IdP group — it is the break-glass local account role."))
  else .ok ()

/-- The checks of one entry -/
def readEntry (name : String) (value : Js) : Except String Grants :=
  match value.orEmpty with
  | .object entry => do
      let deptIds ← readNames name "dept_ids" (entry.lookup "dept_ids")
      let roles ← readNames name "roles" (entry.lookup "roles")
      roles.forM (checkRole name)
      if deptIds = [] ∧ roles = [] then
        throw (inGroup name ("grants neither dept_ids nor roles. " ++
          "Remove it rather than mapping it to nothing."))
      else return { deptIds := deptIds.map Js.trim, roles := roles.map Js.trim }
  | _ => throw (inGroup name "value must be an object")

/-- The body of the loop over the groups of the file -/
def addGroup (fold : String → String) (groups : List (String × Grants)) (field : String × Js) :
    Except String (List (String × Grants)) := do
  let grants ← readEntry field.1 field.2
  if fold field.1 ∈ groups.map Prod.fst then
    throw ("[oidcGroupMap] duplicate group \"" ++ field.1 ++ "\" (case-insensitive matching is " ++
      "on, so it collides with an earlier entry)")
  else return groups ++ [(fold field.1, grants)]

variable (casing : Casing)

/-- How a name is compared: `caseInsensitive ? name.toLowerCase() : name` -/
def foldName (caseInsensitive : Bool) : String → String :=
  if caseInsensitive then casing.lower else id

def readClaim : Option Js → String
  | some (.string s) => if Js.trim s = "" then "groups" else Js.trim s
  | _ => "groups"

/-- `doc.case_insensitive !== false` -/
def readCaseInsensitive : Option Js → Bool
  | some (.bool b) => b
  | _ => true

def readDocument (absPath : String) : Js → Except String EnabledMap
  | .object doc => do
      let claim := readClaim (doc.lookup "claim")
      let caseInsensitive := readCaseInsensitive (doc.lookup "case_insensitive")
      match doc.lookup "groups" with
      | some (.object []) =>
          throw ("[oidcGroupMap] " ++ absPath ++ " has an empty \"groups\" object — that would map " ++
            "every officer to zero access. Delete the file to disable group mapping " ++
            "instead of shipping an empty one.")
      | some (.object fields) =>
          let groups ← fields.foldlM (addGroup (foldName casing caseInsensitive)) []
          return { claim, caseInsensitive, groups, absPath }
      | _ => throw ("[oidcGroupMap] " ++ absPath ++ " must have a \"groups\" object")
  | _ => throw ("[oidcGroupMap] " ++ absPath ++ " must be a JSON object")

/-- `loadGroupMap` with an empty cache -/
def readGroupMap (s : Setup) : Except String GroupMap :=
  match s.file with
  | none =>
      if s.explicit then
        throw ("[oidcGroupMap] OIDC_GROUP_MAP_PATH is set to \"" ++ s.absPath ++ "\" but no file " ++
          "exists there. Refusing to start: every SSO user would silently land " ++
          "with zero access. Fix the path or unset the variable.")
      else return .disabled
  | some (.error message) =>
      throw ("[oidcGroupMap] could not parse " ++ s.absPath ++ ": " ++ message)
  | some (.ok doc) => return .enabled (← readDocument casing s.absPath doc)

/-- `loadGroupMap`, with the cache of the process before and after -/
def loadGroupMap (s : Setup) : Option GroupMap → Except String (GroupMap × Option GroupMap)
  | some map => return (map, some map)
  | none => do
      let map ← readGroupMap casing s
      return (map, some map)

/-! ## The token -/

/-- The value at a path of claims, with `none` where there is none -/
def claimAt : Option Js → List (List Char) → Option Js
  | node, [] => node
  | none, _ :: _ => none
  | some node, seg :: path => claimAt (node.property (String.ofList seg)) path

/-- The strings of an array, trimmed -/
def trimmedStrings (xs : List Js) : List String :=
  xs.filterMap fun
    | .string s => some (Js.trim s)
    | _ => none

/-- The characters of a delimiter -/
def isDelimiter (c : Char) : Bool := c = ',' ∨ Js.isSpace c

/-- The names in the value of the groups claim. The empty parts between the characters of a
delimiter go with the other empty ones. -/
def groupNames : Option Js → List String
  | some (.array xs) => (trimmedStrings xs).filter (· ≠ "")
  | some (.string s) =>
      ((s.toList.splitOnP isDelimiter).map fun part =>
        Js.trim (String.ofList part)).filter (· ≠ "")
  | _ => []

/-- `extractGroups` -/
def extractGroups (claims : Js) (claimPath : String) : List String :=
  groupNames (claimAt (some claims) (claimPath.toList.splitOn '.'))

/-- The result of `resolveFromClaims` -/
structure Resolved where
  deptIds : List String := []
  roles : List String := [userRole]
  matched : List String := []
  ignored : List String := []
  claim : String
  groupsInToken : ℕ
  deriving DecidableEq

/-- `set.add` of each of some elements -/
def addAll (set xs : List String) : List String :=
  xs.foldl (fun set x => if x ∈ set then set else set ++ [x]) set

def EnabledMap.fold (m : EnabledMap) : String → String := foldName casing m.caseInsensitive

/-- The body of the loop over the groups of the token -/
def EnabledMap.grant (m : EnabledMap) (r : Resolved) (g : String) : Resolved :=
  match m.groups.lookup (m.fold casing g) with
  | none => { r with ignored := r.ignored ++ [g] }
  | some entry =>
      { r with
        matched := r.matched ++ [g]
        deptIds := addAll r.deptIds entry.deptIds
        roles := addAll r.roles entry.roles }

def EnabledMap.groupsOf (m : EnabledMap) (claims : Js) : List String :=
  extractGroups claims.orEmpty m.claim

def EnabledMap.resolve (m : EnabledMap) (claims : Js) : Resolved :=
  (m.groupsOf claims).foldl (m.grant casing)
    { claim := m.claim, groupsInToken := (m.groupsOf claims).length }

/-- `resolveFromClaims`, with the cache of the process before and after -/
def resolveFromClaims (s : Setup) (cache : Option GroupMap) (claims : Js) :
    Except String (Option Resolved × Option GroupMap) := do
  match ← loadGroupMap casing s cache with
  | (.disabled, cache) => return (none, cache)
  | (.enabled m, cache) => return (some (m.resolve casing claims), cache)

/-! ## The union -/

/-- The names that a list in an entry states -/
def namesIn : Option Js → List String
  | some (.array xs) => trimmedStrings xs
  | _ => []

/-- What an entry of the file says that its group grants -/
def stated (value : Js) : Grants where
  deptIds := namesIn (value.property "dept_ids")
  roles := namesIn (value.property "roles")

/-- The entries of the file, with their names as they stand there -/
def Setup.entries (s : Setup) : List (String × Grants) :=
  match s.file with
  | some (.ok (.object doc)) =>
      match doc.lookup "groups" with
      | some (.object fields) => fields.map fun field => (field.1, stated field.2)
      | _ => []
  | _ => []

/-- A value states another at a path of names: of properties, or of the indices of arrays. -/
inductive States : Js → List String → Js → Prop
  | here (value : Js) : States value [] value
  | field {fields : List (String × Js)} {name : String} {value : Js} {path : List String}
      {target : Js} : fields.lookup name = some value → States value path target →
        States (.object fields) (name :: path) target
  | element {xs : List Js} {i : ℕ} {value : Js} {path : List String} {target : Js} :
      xs[i]? = some value → States value path target →
        States (.array xs) (toString i :: path) target

/-- The value of a groups claim names a group: by a string of an array, up to white space around
it, or by a stretch of a string between delimiters. -/
inductive Names : Js → String → Prop
  | element {xs : List Js} {s : String} : .string s ∈ xs → Js.trim s ≠ "" →
      Names (.array xs) (Js.trim s)
  | stretch {s g : String} : Splitting.PartOf isDelimiter g.toList s.toList → g ≠ "" →
      Names (.string s) g

/-- A group of a token: its groups claim, at a dotted path, names it. -/
def EnabledMap.InToken (m : EnabledMap) (claims : Js) (g : String) : Prop :=
  ∃ path value, path ≠ [] ∧ (∀ name ∈ path, '.' ∉ name.toList) ∧
    ".".intercalate path = m.claim ∧ States claims path value ∧ Names value g

/-- The grants of the file to the groups of a token, where `Matches` says which entry is for
which group -/
def granted (Matches : String → String → Prop) (entries : List (String × Grants))
    (IsGroup : String → Prop) (of : Grants → List String) (x : String) : Prop :=
  ∃ g, IsGroup g ∧ ∃ e ∈ entries, Matches g e.1 ∧ x ∈ of e.2

/-- A group matches a name if they are equal up to white space around them, and up to case
where that is configured. -/
def EnabledMap.Matches (m : EnabledMap) (g name : String) : Prop :=
  m.fold casing (Js.trim g) = m.fold casing (Js.trim name)

instance (m : EnabledMap) (g name : String) : Decidable (m.Matches casing g name) :=
  inferInstanceAs (Decidable (_ = _))

/-- A group matches a name as it stands in the file. -/
def EnabledMap.Finds (m : EnabledMap) (g name : String) : Prop :=
  m.fold casing g = m.fold casing name

/-- What a token must get under a map: the union of what its groups grant. The groups that are
matched or ignored are those that were extracted, one by one, and these are the token's. -/
structure UnionOf (s : Setup) (m : EnabledMap) (claims : Js) (r : Resolved) : Prop where
  deptIds : ∀ x, x ∈ r.deptIds ↔
    granted (m.Matches casing) s.entries (m.InToken claims) Grants.deptIds x
  roles : ∀ x, x ∈ r.roles ↔
    x = userRole ∨ granted (m.Matches casing) s.entries (m.InToken claims) Grants.roles x
  no_super_admin : superAdminRole ∉ r.roles
  monotone : ∀ claims' r' cache, resolveFromClaims casing s none claims' = .ok (some r', cache) →
    (∀ g, m.InToken claims g → m.InToken claims' g) → r.deptIds ⊆ r'.deptIds ∧ r.roles ⊆ r'.roles
  accounts : ∀ g, g ∈ r.matched ∨ g ∈ r.ignored ↔ m.InToken claims g
  extracted : (r.matched ++ r.ignored).Perm (m.groupsOf claims)

/-- A token gets what it must get, if the file is accepted. -/
def KeepsUnion (s : Setup) (claims : Js) : Prop :=
  ∀ m r cache, loadGroupMap casing s none = .ok (.enabled m, cache) →
    resolveFromClaims casing s none claims = .ok (some r, cache) → UnionOf casing s m claims r

/-- An entry whose name has white space around it, and that matches a group of the token,
grants nothing that the groups do not get from the names as they stand. -/
def PaddingCovered (s : Setup) (claims : Js) : Prop :=
  ∀ m cache, loadGroupMap casing s none = .ok (.enabled m, cache) →
    ∀ e ∈ s.entries, Js.trim e.1 ≠ e.1 → (∃ g, m.InToken claims g ∧ m.Matches casing g e.1) →
      (∀ x ∈ e.2.deptIds,
        granted (m.Finds casing) s.entries (m.InToken claims) Grants.deptIds x) ∧
      ∀ x ∈ e.2.roles, x = userRole ∨
        granted (m.Finds casing) s.entries (m.InToken claims) Grants.roles x

variable {casing} {s : Setup} {m : EnabledMap} {claims : Js} {r : Resolved} {name g x : String}
  {groups : List (String × Grants)} {gs : List String}

/-! ## Names -/

theorem foldName_trim {caseInsensitive : Bool} (name : String) :
    Js.trim (foldName casing caseInsensitive name) =
      foldName casing caseInsensitive (Js.trim name) := by
  cases caseInsensitive with
  | false => rfl
  | true => exact casing.lower_trim name

theorem trim_of_mem_groupNames {value : Option Js} (h : g ∈ groupNames value) :
    Js.trim g = g := by
  unfold groupNames at h
  split at h
  · obtain ⟨hmem, -⟩ := List.mem_filter.mp h
    obtain ⟨element, -, heq⟩ := List.mem_filterMap.mp hmem
    cases element with
    | string t =>
      cases heq
      exact Js.trim_trim t
    | _ => cases heq
  · obtain ⟨hmem, -⟩ := List.mem_filter.mp h
    obtain ⟨part, -, rfl⟩ := List.mem_map.mp hmem
    exact Js.trim_trim _
  · cases h

theorem trim_of_mem_groupsOf (h : g ∈ m.groupsOf claims) : Js.trim g = g :=
  trim_of_mem_groupNames h

/-! ## The groups of a token -/

theorem claimAt_eq_some {node value : Js} {path : List (List Char)} :
    claimAt (some node) path = some value ↔ States node (path.map String.ofList) value := by
  have hnone : ∀ path, claimAt none path = none := by
    intro path
    cases path <;> rfl
  induction path generalizing node with
  | nil =>
    constructor
    · intro h
      cases h
      exact .here _
    · rintro ⟨⟩
      rfl
  | cons seg path ih =>
    rw [claimAt, List.map_cons]
    constructor
    · intro h
      cases hproperty : node.property (String.ofList seg) with
      | none =>
        rw [hproperty, hnone] at h
        cases h
      | some next =>
        rw [hproperty] at h
        have hrest := ih.mp h
        cases node with
        | object fields => exact .field hproperty hrest
        | array xs =>
          obtain ⟨i, hi, hnext⟩ := Js.property_array_eq_some.mp hproperty
          rw [← hi]
          exact .element hnext hrest
        | _ => cases hproperty
    · intro h
      generalize hname : String.ofList seg = name at h ⊢
      cases h with
      | field hfield hrest =>
        rw [Js.property, hfield]
        exact ih.mpr hrest
      | element hnext hrest =>
        rw [Js.property_array_eq_some.mpr ⟨_, rfl, hnext⟩]
        exact ih.mpr hrest

/-- Without claims there is nothing at a path. -/
theorem states_orEmpty {path : List String} {value : Js} (hpath : path ≠ []) :
    States claims.orEmpty path value ↔ States claims path value := by
  obtain ⟨name, path, rfl⟩ := List.exists_cons_of_ne_nil hpath
  unfold Js.orEmpty
  split_ifs with htruthy
  · rfl
  · constructor
    · rintro (_ | hfield)
      cases hfield
    · rintro (_ | _ | _) <;> exact absurd rfl htruthy

theorem mem_groupNames_iff {value : Js} : g ∈ groupNames (some value) ↔ Names value g := by
  cases value with
  | array xs =>
    simp only [groupNames, trimmedStrings, List.mem_filter, List.mem_filterMap, decide_eq_true_eq]
    constructor
    · rintro ⟨⟨element, helement, heq⟩, hne⟩
      cases element with
      | string t =>
        cases heq
        exact .element helement hne
      | _ => cases heq
    · rintro ⟨helement, hne⟩
      exact ⟨⟨_, helement, rfl⟩, hne⟩
  | string s =>
    have htrim : ∀ part, Splitting.PartOf isDelimiter part s.toList →
        Js.trim (String.ofList part) = String.ofList part := by
      intro part hpart
      refine Js.trim_of_forall fun c hc => ?_
      have hinside := hpart.inside c hc
      simp only [isDelimiter, decide_eq_false_iff_not, not_or] at hinside
      exact Bool.eq_false_of_not_eq_true hinside.2
    simp only [groupNames, List.mem_filter, List.mem_map, Splitting.mem_splitOnP_iff,
      decide_eq_true_eq]
    constructor
    · rintro ⟨⟨part, hpart, rfl⟩, hne⟩
      rw [htrim part hpart] at hne ⊢
      exact .stretch (by rwa [String.toList_ofList]) hne
    · rintro (_ | ⟨hpart, hne⟩)
      exact ⟨⟨g.toList, hpart, by rw [htrim _ hpart, String.ofList_toList]⟩, hne⟩
  | _ =>
    constructor
    · intro h
      cases h
    · rintro ⟨⟩

/-- The segments of a dotted path are the names that it joins. -/
theorem splitOn_eq_iff {claim : String} {path : List String} :
    (claim.toList.splitOn '.').map String.ofList = path ↔
      path ≠ [] ∧ (∀ name ∈ path, '.' ∉ name.toList) ∧ ".".intercalate path = claim := by
  have hdot : ".".toList = ['.'] := rfl
  constructor
  · rintro rfl
    refine ⟨by simp [List.splitOn_eq_splitOnP, List.splitOnP_ne_nil], fun name hname => ?_, ?_⟩
    · obtain ⟨seg, hseg, rfl⟩ := List.mem_map.mp hname
      rw [List.splitOn_eq_splitOnP] at hseg
      rw [String.toList_ofList]
      intro hmem
      have hinside := (Splitting.mem_splitOnP_iff.mp hseg).inside '.' hmem
      simp at hinside
    · rw [← String.toList_inj, String.toList_intercalate, hdot, List.map_map]
      simp [Function.comp_def, List.intercalate_splitOn]
  · rintro ⟨hne, hdots, rfl⟩
    have hsegs : ∀ seg ∈ path.map String.toList, '.' ∉ seg := by simpa using hdots
    rw [String.toList_intercalate, hdot, List.splitOn_intercalate _ hsegs (by simpa using hne),
      List.map_map]
    simp [Function.comp_def]

/-- `extractGroups` finds the groups of the token, and no others. -/
theorem mem_groupsOf_iff : g ∈ m.groupsOf claims ↔ m.InToken claims g := by
  obtain ⟨hne, hdots, hjoin⟩ := splitOn_eq_iff.mp
    (rfl : (m.claim.toList.splitOn '.').map String.ofList = _)
  rw [EnabledMap.groupsOf, extractGroups]
  constructor
  · intro h
    cases hclaim : claimAt (some claims.orEmpty) (m.claim.toList.splitOn '.') with
    | none =>
      rw [hclaim] at h
      cases h
    | some value =>
      rw [hclaim, mem_groupNames_iff] at h
      rw [claimAt_eq_some, states_orEmpty hne] at hclaim
      exact ⟨_, value, hne, hdots, hjoin, hclaim, h⟩
  · rintro ⟨path, value, hne', hdots', hjoin', hstates, hnames⟩
    obtain rfl := splitOn_eq_iff.mpr ⟨hne', hdots', hjoin'⟩
    rw [← states_orEmpty hne', ← claimAt_eq_some] at hstates
    rw [hstates, mem_groupNames_iff]
    exact hnames

theorem mem_groupsOf_eq : (· ∈ m.groupsOf claims) = m.InToken claims :=
  funext fun _ => propext mem_groupsOf_iff

theorem trim_of_inToken (h : m.InToken claims g) : Js.trim g = g :=
  trim_of_mem_groupsOf (mem_groupsOf_iff.mpr h)

/-! ## Matching -/

/-- What is found as it stands matches. -/
theorem EnabledMap.Finds.matches (h : m.Finds casing g name) : m.Matches casing g name := by
  calc m.fold casing (Js.trim g) = Js.trim (m.fold casing g) := (foldName_trim g).symm
    _ = Js.trim (m.fold casing name) := by rw [h]
    _ = m.fold casing (Js.trim name) := foldName_trim name

theorem EnabledMap.Matches.finds (h : m.Matches casing g name) (hg : Js.trim g = g)
    (hname : Js.trim name = name) : m.Finds casing g name := by
  rwa [EnabledMap.Matches, hg, hname] at h

/-! ## Loading -/

theorem trimmedStrings_of_mapM {message : String} {xs : List Js} {names : List String}
    (h : List.Forall₂ (fun x name => readName message x = .ok name) xs names) :
    trimmedStrings xs = names.map Js.trim := by
  induction h with
  | nil => rfl
  | @cons x name xs names hx _ ih =>
    cases x with
    | string t =>
      rw [readName] at hx
      split_ifs at hx with hblank
      cases hx
      rw [List.map_cons, ← ih]
      rfl
    | _ => cases hx

theorem readNames_eq_ok {field : String} {value : Option Js} {names : List String}
    (h : readNames name field value = .ok names) : names.map Js.trim = namesIn value := by
  unfold readNames at h
  split at h
  · cases h
    rfl
  · exact (trimmedStrings_of_mapM (ElementWise.mapM_eq_ok.mp h)).symm
  · cases h

theorem trim_of_mem_allRoles : ∀ role ∈ allRoles, Js.trim role = role :=
  forall_mem_of_all (by decide)

theorem checkRole_eq_ok {role : String} (h : checkRole name role = .ok ()) :
    Js.trim role = role ∧ role ≠ superAdminRole := by
  unfold checkRole at h
  split_ifs at h with hunknown hungrantable
  refine ⟨trim_of_mem_allRoles role hunknown, fun hsuper => hungrantable ?_⟩
  rw [hsuper]
  exact List.mem_singleton_self _

theorem stated_orEmpty (value : Js) : stated value.orEmpty = stated value := by
  unfold Js.orEmpty
  split_ifs with htruthy
  · rfl
  · cases value with
    | array xs => exact absurd rfl htruthy
    | object fields => exact absurd rfl htruthy
    | _ => rfl

/-- What a checked entry grants is what it states, and that is no super admin. -/
theorem readEntry_eq_ok {value : Js} {grants : Grants} (h : readEntry name value = .ok grants) :
    grants = stated value ∧ superAdminRole ∉ grants.roles := by
  rw [← stated_orEmpty]
  unfold readEntry at h
  split at h
  next entry hvalue =>
    obtain ⟨deptIds, hdepts, h⟩ := ok_of_bind h
    obtain ⟨roles, hroles, h⟩ := ok_of_bind h
    obtain ⟨_, hchecked, h⟩ := ok_of_bind h
    obtain ⟨-, h⟩ := refuse_eq_ok.mp h
    cases h
    constructor
    · rw [hvalue, readNames_eq_ok hdepts, readNames_eq_ok hroles]
      rfl
    · intro hsuper
      obtain ⟨role, hrole, heq⟩ := List.mem_map.mp hsuper
      obtain ⟨htrim, hne⟩ := checkRole_eq_ok (ElementWise.forM_eq_ok.mp hchecked role hrole)
      exact hne (htrim.symm.trans heq)
  next => cases h

/-- The map has an entry for each of the file, under its folded name, and no two of them
under one. -/
theorem foldlM_addGroup {fold : String → String} {fields : List (String × Js)}
    {before : List (String × Grants)}
    (h : fields.foldlM (addGroup fold) before = .ok groups) (hnodup : (before.map Prod.fst).Nodup) :
    groups = before ++ fields.map (fun field => (fold field.1, stated field.2)) ∧
      (groups.map Prod.fst).Nodup ∧
      ∀ field ∈ fields, superAdminRole ∉ (stated field.2).roles := by
  induction fields generalizing before with
  | nil =>
    cases h
    exact ⟨by simp, hnodup, by simp⟩
  | cons field fields ih =>
    rw [List.foldlM_cons] at h
    obtain ⟨next, hnext, h⟩ := ok_of_bind h
    obtain ⟨grants, hread, hnext⟩ := ok_of_bind hnext
    obtain ⟨hfresh, hnext⟩ := refuse_eq_ok.mp hnext
    cases hnext
    obtain ⟨rfl, hsuper⟩ := readEntry_eq_ok hread
    have hnodup' : ((before ++ [(fold field.1, stated field.2)]).map Prod.fst).Nodup := by
      rw [List.map_append, List.map_singleton, ← List.concat_eq_append]
      exact hnodup.concat hfresh
    obtain ⟨hgroups, hkeys, hrest⟩ := ih h hnodup'
    exact ⟨by simp [hgroups], hkeys, List.forall_mem_cons.mpr ⟨hsuper, hrest⟩⟩

/-- What a loaded map holds: the entries of the file under their folded names, none of them
super admins -/
structure Loaded (casing : Casing) (s : Setup) (m : EnabledMap) : Prop where
  groups : m.groups = s.entries.map fun e => (m.fold casing e.1, e.2)
  nodup : (m.groups.map Prod.fst).Nodup
  no_super_admin : ∀ e ∈ s.entries, superAdminRole ∉ e.2.roles

theorem loaded_of_readDocument {doc : Js} {absPath : String} (hfile : s.file = some (.ok doc))
    (h : readDocument casing absPath doc = .ok m) : Loaded casing s m := by
  unfold readDocument at h
  split at h
  next fields =>
    split at h
    · cases h
    next entries _ hentries =>
      obtain ⟨groups, hgroups, h⟩ := ok_of_bind h
      cases h
      obtain ⟨heq, hnodup, hsuper⟩ := foldlM_addGroup hgroups List.nodup_nil
      have hfields : s.entries = entries.map fun field => (field.1, stated field.2) := by
        rw [Setup.entries, hfile]
        simp only [hentries]
      refine ⟨?_, hnodup, fun e he => ?_⟩
      · rw [heq, hfields, List.nil_append, List.map_map]
        rfl
      · rw [hfields] at he
        obtain ⟨field, hfield, rfl⟩ := List.mem_map.mp he
        exact hsuper field hfield
    · cases h
  · cases h

theorem loaded_of_loadGroupMap {cache : Option GroupMap}
    (h : loadGroupMap casing s none = .ok (.enabled m, cache)) : Loaded casing s m := by
  obtain ⟨map, hread, hmap⟩ := ok_of_bind h
  cases hmap
  unfold readGroupMap at hread
  split at hread
  · split_ifs at hread
    cases hread
  · cases hread
  next doc hfile =>
    obtain ⟨m', hdoc, hm⟩ := ok_of_bind hread
    cases hm
    exact loaded_of_readDocument hfile hdoc

/-- An entry is found under a group exactly when it stands in the file under such a name. -/
theorem Loaded.lookup_eq_some_iff (h : Loaded casing s m) {grants : Grants} :
    m.groups.lookup (m.fold casing g) = some grants ↔
      ∃ e ∈ s.entries, m.Finds casing g e.1 ∧ e.2 = grants := by
  have hlookup : m.groups.lookup (m.fold casing g) = some grants ↔
      (m.fold casing g, grants) ∈ m.groups :=
    ⟨KeyedLists.mem_of_lookup, KeyedLists.lookup_of_mem h.nodup⟩
  rw [hlookup, h.groups, List.mem_map]
  refine exists_congr fun e => and_congr_right fun _ => ?_
  rw [Prod.mk.injEq, EnabledMap.Finds, eq_comm]

/-! ## Resolving -/

theorem mem_addAll {set xs : List String} : x ∈ addAll set xs ↔ x ∈ set ∨ x ∈ xs := by
  induction xs generalizing set with
  | nil => simp [addAll]
  | cons y xs ih =>
    have hadd : x ∈ (if y ∈ set then set else set ++ [y]) ↔ x ∈ set ∨ x = y := by
      split_ifs with hy
      · exact ⟨Or.inl, fun h => h.elim id fun heq => heq ▸ hy⟩
      · rw [List.mem_append, List.mem_singleton]
    rw [addAll, List.foldl_cons, ← addAll, ih, hadd, List.mem_cons, or_assoc]

theorem grant_of_none (h : m.groups.lookup (m.fold casing g) = none) :
    m.grant casing r g = { r with ignored := r.ignored ++ [g] } := by
  rw [EnabledMap.grant, h]

theorem grant_of_some {entry : Grants} (h : m.groups.lookup (m.fold casing g) = some entry) :
    m.grant casing r g =
      { r with
        matched := r.matched ++ [g]
        deptIds := addAll r.deptIds entry.deptIds
        roles := addAll r.roles entry.roles } := by
  rw [EnabledMap.grant, h]

/-- What one group adds -/
theorem mem_grant_deptIds : x ∈ (m.grant casing r g).deptIds ↔ x ∈ r.deptIds ∨
    ∃ entry, m.groups.lookup (m.fold casing g) = some entry ∧ x ∈ entry.deptIds := by
  cases h : m.groups.lookup (m.fold casing g) with
  | none => simp [grant_of_none h]
  | some entry => simp [grant_of_some h, mem_addAll]

theorem mem_grant_roles : x ∈ (m.grant casing r g).roles ↔ x ∈ r.roles ∨
    ∃ entry, m.groups.lookup (m.fold casing g) = some entry ∧ x ∈ entry.roles := by
  cases h : m.groups.lookup (m.fold casing g) with
  | none => simp [grant_of_none h]
  | some entry => simp [grant_of_some h, mem_addAll]

/-- What all groups add, if `of` of an entry is what one adds to `held` -/
theorem mem_foldl_grant (hloaded : Loaded casing s m) {held : Resolved → List String}
    {of : Grants → List String}
    (hstep : ∀ r g, x ∈ held (m.grant casing r g) ↔ x ∈ held r ∨
      ∃ entry, m.groups.lookup (m.fold casing g) = some entry ∧ x ∈ of entry) :
    x ∈ held (gs.foldl (m.grant casing) r) ↔
      x ∈ held r ∨ granted (m.Finds casing) s.entries (· ∈ gs) of x := by
  have hfound : ∀ g, (∃ entry, m.groups.lookup (m.fold casing g) = some entry ∧ x ∈ of entry) ↔
      ∃ e ∈ s.entries, m.Finds casing g e.1 ∧ x ∈ of e.2 := by
    intro g
    simp only [hloaded.lookup_eq_some_iff]
    constructor
    · rintro ⟨_, ⟨e, he, hfinds, rfl⟩, hx⟩
      exact ⟨e, he, hfinds, hx⟩
    · rintro ⟨e, he, hfinds, hx⟩
      exact ⟨e.2, ⟨e, he, hfinds, rfl⟩, hx⟩
  induction gs generalizing r with
  | nil => simp [granted]
  | cons g gs ih =>
    rw [List.foldl_cons]
    refine ih.trans ?_
    rw [hstep, hfound, or_assoc]
    simp only [granted, List.mem_cons, or_and_right, exists_or, exists_eq_left]

/-- Every group of the token is accounted for. -/
theorem foldl_grant_perm :
    ((gs.foldl (m.grant casing) r).matched ++ (gs.foldl (m.grant casing) r).ignored).Perm
      (r.matched ++ r.ignored ++ gs) := by
  induction gs generalizing r with
  | nil => simp
  | cons g gs ih =>
    have hone : ((m.grant casing r g).matched ++ (m.grant casing r g).ignored).Perm
        (r.matched ++ r.ignored ++ [g]) := by
      cases h : m.groups.lookup (m.fold casing g) with
      | none => simp [grant_of_none h]
      | some entry =>
        rw [grant_of_some h, List.append_assoc, List.append_assoc]
        exact List.Perm.append_left _ List.perm_append_comm
    rw [List.foldl_cons, List.append_cons]
    exact ih.trans (hone.append_right gs)

/-! ## Logins -/

section

variable {cache cache' : Option GroupMap} {of : Grants → List String}

theorem resolveFromClaims_eq_ok (hload : loadGroupMap casing s none = .ok (.enabled m, cache))
    (h : resolveFromClaims casing s none claims = .ok (some r, cache')) :
    r = m.resolve casing claims := by
  obtain ⟨loaded, hloaded, h⟩ := ok_of_bind h
  rw [hload] at hloaded
  cases hloaded
  cases h
  rfl

/-- With the map in the cache, a login comes to the same. -/
theorem resolveFromClaims_cached {map : GroupMap}
    (hload : loadGroupMap casing s none = .ok (map, cache)) :
    resolveFromClaims casing s cache claims = resolveFromClaims casing s none claims := by
  have hcache : loadGroupMap casing s cache = .ok (map, cache) := by
    obtain ⟨_, -, h⟩ := ok_of_bind hload
    cases h
    rfl
  rw [resolveFromClaims, resolveFromClaims, hload, hcache]

theorem resolve_deptIds (h : Loaded casing s m) :
    x ∈ (m.resolve casing claims).deptIds ↔
      granted (m.Finds casing) s.entries (m.InToken claims) Grants.deptIds x := by
  rw [EnabledMap.resolve, mem_foldl_grant h fun _ _ => mem_grant_deptIds, mem_groupsOf_eq]
  simp

theorem resolve_roles (h : Loaded casing s m) :
    x ∈ (m.resolve casing claims).roles ↔ x = userRole ∨
      granted (m.Finds casing) s.entries (m.InToken claims) Grants.roles x := by
  rw [EnabledMap.resolve, mem_foldl_grant h fun _ _ => mem_grant_roles, List.mem_singleton,
    mem_groupsOf_eq]

theorem granted_mono {Matches : String → String → Prop} {entries : List (String × Grants)}
    {IsGroup IsGroup' : String → Prop} (hsub : ∀ g, IsGroup g → IsGroup' g)
    (h : granted Matches entries IsGroup of x) : granted Matches entries IsGroup' of x := by
  obtain ⟨g, hg, hentry⟩ := h
  exact ⟨g, hsub g hg, hentry⟩

theorem granted_matches {IsGroup : String → Prop}
    (h : granted (m.Finds casing) s.entries IsGroup of x) :
    granted (m.Matches casing) s.entries IsGroup of x := by
  obtain ⟨g, hg, e, he, hfinds, hx⟩ := h
  exact ⟨g, hg, e, he, hfinds.matches, hx⟩

/-- What a group gets from an entry that matches, it finds, or the name of the entry has white
space around it. -/
theorem granted_finds
    (h : granted (m.Matches casing) s.entries (m.InToken claims) of x) :
    granted (m.Finds casing) s.entries (m.InToken claims) of x ∨
      ∃ e ∈ s.entries, Js.trim e.1 ≠ e.1 ∧
        (∃ g, m.InToken claims g ∧ m.Matches casing g e.1) ∧ x ∈ of e.2 := by
  obtain ⟨g, hg, e, he, hmatches, hx⟩ := h
  by_cases hname : Js.trim e.1 = e.1
  · exact Or.inl ⟨g, hg, e, he, hmatches.finds (trim_of_inToken hg) hname, hx⟩
  · exact Or.inr ⟨e, he, hname, ⟨g, hg, hmatches⟩, hx⟩

theorem super_admin_not_mem (h : Loaded casing s m) :
    superAdminRole ∉ (m.resolve casing claims).roles := by
  rw [resolve_roles h]
  rintro (huser | ⟨_, _, e, he, _, hsuper⟩)
  · exact absurd huser (by decide)
  · exact h.no_super_admin e he hsuper

theorem resolve_mono (h : Loaded casing s m) {claims' : Js}
    (hsub : ∀ g, m.InToken claims g → m.InToken claims' g) :
    (m.resolve casing claims).deptIds ⊆ (m.resolve casing claims').deptIds ∧
      (m.resolve casing claims).roles ⊆ (m.resolve casing claims').roles := by
  constructor
  · intro x hx
    rw [resolve_deptIds h] at hx ⊢
    exact granted_mono hsub hx
  · intro x hx
    rw [resolve_roles h] at hx ⊢
    exact hx.imp_right (granted_mono hsub)

theorem resolve_accounts :
    ((m.resolve casing claims).matched ++ (m.resolve casing claims).ignored).Perm
      (m.groupsOf claims) :=
  foldl_grant_perm

end

/-- A login gets exactly the union of what its groups grant if and only if white space around
the names of the file hides nothing from it. -/
theorem keepsUnion_iff (casing : Casing) (s : Setup) (claims : Js) :
    KeepsUnion casing s claims ↔ PaddingCovered casing s claims := by
  constructor
  · intro hkeeps m cache hload e he hpadded hmatches
    obtain ⟨g, hg, hmatches⟩ := hmatches
    have hloaded := loaded_of_loadGroupMap hload
    have hresolve : resolveFromClaims casing s none claims =
        .ok (some (m.resolve casing claims), cache) := by
      rw [resolveFromClaims, hload]
      rfl
    have hunion := hkeeps m _ cache hload hresolve
    refine ⟨fun x hx => ?_, fun x hx => ?_⟩
    · rw [← resolve_deptIds hloaded, hunion.deptIds]
      exact ⟨g, hg, e, he, hmatches, hx⟩
    · rw [← resolve_roles hloaded, hunion.roles]
      exact Or.inr ⟨g, hg, e, he, hmatches, hx⟩
  · intro hcovered m r cache hload hresolve
    have hloaded := loaded_of_loadGroupMap hload
    obtain rfl := resolveFromClaims_eq_ok hload hresolve
    refine ⟨fun x => ?_, fun x => ?_, super_admin_not_mem hloaded, ?_, fun g => ?_,
      resolve_accounts⟩
    · rw [resolve_deptIds hloaded]
      refine ⟨granted_matches, fun h => ?_⟩
      cases granted_finds h with
      | inl found => exact found
      | inr hidden =>
        obtain ⟨e, he, hpadded, hmatches, hx⟩ := hidden
        exact (hcovered m cache hload e he hpadded hmatches).1 x hx
    · rw [resolve_roles hloaded]
      refine ⟨fun h => h.imp_right granted_matches, fun h => ?_⟩
      cases h with
      | inl user => exact Or.inl user
      | inr h =>
        cases granted_finds h with
        | inl found => exact Or.inr found
        | inr hidden =>
          obtain ⟨e, he, hpadded, hmatches, hx⟩ := hidden
          exact (hcovered m cache hload e he hpadded hmatches).2 x hx
    · intro claims' r' cache' hresolve' hsub
      obtain rfl := resolveFromClaims_eq_ok hload hresolve'
      exact resolve_mono hloaded hsub
    · rw [← List.mem_append, resolve_accounts.mem_iff]
      exact mem_groupsOf_iff

/-- The file maps a group whose name the token has letter for letter, and the login gets
nothing. -/
theorem padded_group_hidden :
    ¬KeepsUnion Casing.ascii
      { absPath := "/srv/config/oidc-group-map.json"
        explicit := true
        file := some (.ok (.object [("groups", .object
          [(" Ops ", .object [("dept_ids", .array [.string "collections"])])])])) }
      (.object [("groups", .array [.string " Ops "])]) := by
  intro h
  have hunion := h _ _ _ rfl rfl
  have hgranted := (hunion.deptIds "collections").mpr
    ⟨"Ops", mem_groupsOf_iff.mp (by decide), (" Ops ", ⟨["collections"], []⟩), by decide,
      by decide, by decide⟩
  exact absurd hgranted (by decide)

end CitraFlows.DirectoryGroups
