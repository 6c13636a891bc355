-- SUMMARY: Isolation of resolved connections: whose connection a run gets, and what of the collection the outcome depends on.
import CitraFlows.Connections.Crypto
import CitraFlows.Connections.Resolver
import CitraFlows.Workflows.Model

/-!
# Isolation

A run resolves connections of its organisation. The organisation is checked for every run, the
owner of the connection for a run that a service account owns, and only where both ids of the
owner are filled in.
-/

namespace CitraFlows

/-! ## The collection -/

/-- The collection `WorkflowConnections`. -/
structure Connections where
  docs : List Entries
  unique : (docs.map fun doc => Value.getD doc "connection_id").Nodup

/-- Who owns the running workflow. -/
structure RunIdentity where
  orgId : String
  ownerType : String
  ownerId : String

namespace Connections

def hasId (id : String) (doc : Entries) : Bool := (Value.getD doc "connection_id").eqStr id

/-- `find_one({"connection_id": id})` -/
def find (conns : Connections) (id : String) : Option Entries := conns.docs.find? (hasId id)

variable (f : Fernet) (urlPath : Value → Except PyError String)

def store (conns : Connections) : ConnectionStore where
  find
    | .str id => conns.find id
    | _ => none
  decrypt := decryptEnvConfig f
  urlPath := urlPath

/-- `resolve_connection` for a run. -/
def resolve (conns : Connections) (run : RunIdentity) (env : RunEnvironment) (id : String) :
    Except PyError Entries :=
  (conns.store f urlPath).resolveConnection (.str id) run.orgId run.ownerId run.ownerType env.value

/-- What the connection resolves to for a run that may have it. -/
def configOf (conns : Connections) (env : RunEnvironment) (id : String) (doc : Entries) :
    Except PyError Entries := do
  let store := conns.store f urlPath
  let decrypted ← store.environmentConfig (.str id) env.value doc
  let result ← store.fields ((Value.field doc "type").getD (.str "")) decrypted
  ConnectionStore.mergeExtra decrypted result

end Connections

/-! ## Ownership -/

def inOrganisation (orgId : String) (doc : Entries) : Bool :=
  orgId ≠ "" && (Value.getD doc "org_id").eqStr orgId

/-- The connection of a service account, under the id of the account. -/
def ofServiceAccount (accountId : String) (doc : Entries) : Bool :=
  accountId ≠ "" && (Value.getD doc "owner_type").eqStr "service_account" &&
    (Value.getD doc "owner_id").eqStr accountId

/-- The connection belongs to the organisation of the run, and to its service account if one
owns the run. -/
def RunIdentity.Owns (run : RunIdentity) (doc : Entries) : Prop :=
  inOrganisation run.orgId doc = true ∧
    (run.ownerType = "service_account" → ofServiceAccount run.ownerId doc = true)

/-- What the outcome may depend on: who owns the connection, its type, and what is stored for the
environment. -/
def visible (env : RunEnvironment) (doc : Entries) : List (Option Value) :=
  ["org_id", "owner_type", "owner_id", "type", env.value].map (Value.field doc)

/-- The refusal of a connection without a config for the environment quotes its name. -/
def noConfig (env : RunEnvironment) (name : String) : PyError :=
  .valueError ("No '" ++ env.value ++ "' config on connection '" ++ name ++ "'")

/-- The same outcome, whatever the name that a refusal quotes. -/
def SameResolution (env : RunEnvironment) (r r' : Except PyError Entries) : Prop :=
  r = r' ∨ ∃ name name', r = .error (noConfig env name) ∧ r' = .error (noConfig env name')

namespace Connections

variable {f : Fernet} {urlPath : Value → Except PyError String} {conns conns' : Connections}
  {run : RunIdentity} {env : RunEnvironment} {id : String} {doc doc' : Entries}

theorem hasId_iff :
    hasId id doc = true ↔ Value.field doc "connection_id" = some (.str id) := by
  rw [hasId, Value.getD]
  cases Value.field doc "connection_id" with
  | none => simp [Value.eqStr]
  | some v => cases v <;> simp [Value.eqStr]

/-- The id names at most one document. -/
theorem find_eq_some_iff :
    conns.find id = some doc ↔
      doc ∈ conns.docs ∧ Value.field doc "connection_id" = some (.str id) := by
  constructor
  · intro h
    exact ⟨List.mem_of_find?_eq_some h, hasId_iff.mp (List.find?_some h)⟩
  · rintro ⟨hdoc, hid⟩
    cases hfound : conns.find id with
    | none =>
        have hnone := List.find?_eq_none.mp hfound doc hdoc
        exact absurd (hasId_iff.mpr hid) hnone
    | some doc' =>
        have hid' := hasId_iff.mp (List.find?_some hfound)
        have hsame : Value.getD doc' "connection_id" = Value.getD doc "connection_id" := by
          rw [Value.getD, Value.getD, hid, hid']
        rw [List.inj_on_of_nodup_map conns.unique (List.mem_of_find?_eq_some hfound) hdoc hsame]

/-- The check on the owner, made for a service account with both ids at hand. -/
def otherOwner (run : RunIdentity) (doc : Entries) : Bool :=
  run.ownerType = "service_account" && run.ownerId ≠ "" && (Value.getD doc "owner_id").truthy &&
    !(Value.getD doc "owner_id").eqStr run.ownerId

def notFound (id : String) : PyError := .valueError ("Connection '" ++ id ++ "' not found")

def otherTenant (id : String) : PyError :=
  .valueError ("Connection '" ++ id ++ "' is not accessible from this " ++
    "workflow — it belongs to a different tenant, or predates org scoping (recreate it).")

def otherAccount (id : String) : PyError :=
  .valueError ("Connection '" ++ id ++ "' belongs to a different " ++
    "Service Account and cannot be used by this workflow.")

theorem getOr_of_truthy {key : String} {v : Value} (h : (Value.getD doc key).truthy = true) :
    doc.getOr key v = Value.getD doc key := by
  rw [Entries.getOr, if_pos h]

theorem getOr_of_not_truthy {key : String} {v : Value}
    (h : (Value.getD doc key).truthy = false) : doc.getOr key v = v := by
  rw [Entries.getOr, if_neg (by rw [h]; exact Bool.false_ne_true)]

theorem eqStr_of_not_truthy {v : Value} {text : String} (h : v.truthy = false) (hne : text ≠ "") :
    v.eqStr text = false := by
  cases v with
  | str s =>
      have hempty : s = "" := by simpa [Value.truthy] using h
      simpa [Value.eqStr, hempty] using hne.symm
  | _ => rfl

theorem otherTenant_check (orgId : String) :
    (decide (orgId = "") || !(doc.getOr "org_id" (.str "")).eqStr orgId) =
      !inOrganisation orgId doc := by
  by_cases hempty : orgId = ""
  · simp [inOrganisation, hempty]
  · cases htruthy : (Value.getD doc "org_id").truthy with
    | true => simp [inOrganisation, hempty, getOr_of_truthy htruthy]
    | false =>
        rw [getOr_of_not_truthy htruthy, inOrganisation, eqStr_of_not_truthy htruthy hempty,
          eqStr_of_not_truthy rfl hempty]
        simp

theorem otherAccount_check :
    (decide (run.ownerType = "service_account") && decide (run.ownerId ≠ "") &&
        (doc.getOr "owner_id" (.str "")).truthy &&
        !(doc.getOr "owner_id" (.str "")).eqStr run.ownerId) = otherOwner run doc := by
  cases htruthy : (Value.getD doc "owner_id").truthy with
  | true => rw [getOr_of_truthy htruthy, otherOwner]
  | false =>
      have hempty : (Value.str "").truthy = false := rfl
      rw [getOr_of_not_truthy htruthy, otherOwner, htruthy, hempty]
      simp only [Bool.and_false, Bool.false_and]

/-- The checks in turn; the refusals name the connection only. -/
theorem resolve_eq (conns : Connections) :
    conns.resolve f urlPath run env id =
      match conns.find id with
      | none => .error (notFound id)
      | some doc =>
          if inOrganisation run.orgId doc = false then .error (otherTenant id)
          else if otherOwner run doc then .error (otherAccount id)
          else conns.configOf f urlPath env id doc := by
  unfold resolve ConnectionStore.resolveConnection
  have hfind : (conns.store f urlPath).find (.str id) = conns.find id := rfl
  rw [hfind]
  cases hdoc : conns.find id with
  | none => rfl
  | some doc =>
      cases doc with
      | nil => cases (find_eq_some_iff.mp hdoc).2
      | cons p doc =>
          simp only [otherTenant_check, otherAccount_check, Bool.not_eq_true']
          rfl

theorem resolve_ok {config : Entries} (h : conns.resolve f urlPath run env id = .ok config) :
    ∃ doc, conns.find id = some doc ∧ inOrganisation run.orgId doc = true ∧
      otherOwner run doc = false ∧ conns.configOf f urlPath env id doc = .ok config := by
  rw [resolve_eq] at h
  cases hfind : conns.find id with
  | none =>
      rw [hfind] at h
      cases h
  | some doc =>
      rw [hfind] at h
      simp only at h
      split at h
      next => cases h
      next horg =>
        split at h
        next => cases h
        next howner =>
          exact ⟨doc, rfl, Bool.of_not_eq_false horg, Bool.eq_false_iff.mpr howner, h⟩

/-! ## Agreement -/

/-- Two collections agree on what the outcome may depend on. -/
def Agree (env : RunEnvironment) (id : String) (conns conns' : Connections) : Prop :=
  (conns.find id).map (visible env) = (conns'.find id).map (visible env)

theorem visible_field (h : visible env doc = visible env doc') {key : String}
    (hkey : key ∈ ["org_id", "owner_type", "owner_id", "type", env.value]) :
    Value.field doc key = Value.field doc' key :=
  List.map_inj_left.mp h key hkey

/-- Without a config for the environment the refusal quotes the name; otherwise the config and the
type decide. -/
theorem configOf_congr (h : visible env doc = visible env doc') :
    SameResolution env (conns.configOf f urlPath env id doc)
      (conns'.configOf f urlPath env id doc') := by
  have henv : (if env.value = "test" ∨ env.value = "prod" then env.value else "test") =
      env.value := by cases env <;> rfl
  have hconfig := visible_field h (by simp : env.value ∈ _)
  have htype := visible_field h (by simp : "type" ∈ _)
  unfold configOf ConnectionStore.environmentConfig
  simp only [henv, Value.getD, ← hconfig, ← htype]
  split
  next => exact .inl rfl
  next v _ =>
    split
    next => exact .inl rfl
    next => exact .inr ⟨_, _, rfl, rfl⟩

theorem resolve_congr (h : Agree env id conns conns') :
    SameResolution env (conns.resolve f urlPath run env id)
      (conns'.resolve f urlPath run env id) := by
  rw [resolve_eq, resolve_eq]
  unfold Agree at h
  cases hfind : conns.find id with
  | none =>
      cases hfind' : conns'.find id with
      | none => exact .inl rfl
      | some doc' => simp [hfind, hfind'] at h
  | some doc =>
      cases hfind' : conns'.find id with
      | none => simp [hfind, hfind'] at h
      | some doc' =>
          have hvisible : visible env doc = visible env doc' := by simpa [hfind, hfind'] using h
          have horg : inOrganisation run.orgId doc = inOrganisation run.orgId doc' := by
            rw [inOrganisation, inOrganisation, Value.getD, Value.getD,
              visible_field hvisible (by simp : "org_id" ∈ _)]
          have howner : otherOwner run doc = otherOwner run doc' := by
            rw [otherOwner, otherOwner, Value.getD, Value.getD,
              visible_field hvisible (by simp : "owner_id" ∈ _)]
          simp only [← horg, ← howner]
          split
          · exact .inl rfl
          · split
            · exact .inl rfl
            · exact configOf_congr hvisible

/-- A service account has both ids filled in, and the id of a connection's owner is that of a
service account. -/
def Identified (f : Fernet) (urlPath : Value → Except PyError String) (conns : Connections)
    (run : RunIdentity) (env : RunEnvironment) (id : String) : Prop :=
  ∀ doc, conns.find id = some doc → inOrganisation run.orgId doc = true →
    run.ownerType = "service_account" →
    (∃ config, conns.configOf f urlPath env id doc = .ok config) →
    run.ownerId ≠ "" ∧ (Value.getD doc "owner_id").truthy = true ∧
      ((Value.getD doc "owner_id").eqStr run.ownerId = true →
        (Value.getD doc "owner_type").eqStr "service_account" = true)

/-- What resolves belongs to the organisation and to the service account of the run exactly if
the ids of the owners are filled in; and the outcome depends on the connection's ownership, its
type and the config of the environment alone. -/
theorem resolve_isolated_iff (f : Fernet) (urlPath : Value → Except PyError String)
    (conns : Connections) (run : RunIdentity) (env : RunEnvironment) (id : String) :
    ((∀ config, conns.resolve f urlPath run env id = .ok config →
        ∃ doc ∈ conns.docs, Value.field doc "connection_id" = some (.str id) ∧ run.Owns doc) ∧
      ∀ conns', Agree env id conns conns' →
        SameResolution env (conns.resolve f urlPath run env id)
          (conns'.resolve f urlPath run env id)) ↔
    Identified f urlPath conns run env id := by
  constructor
  · rintro ⟨howns, -⟩ doc hfind horg hrun ⟨config, hconfig⟩
    have hresolve : conns.resolve f urlPath run env id =
        if otherOwner run doc then .error (otherAccount id) else .ok config := by
      rw [resolve_eq, hfind]
      simp only [horg, hconfig, Bool.true_eq_false, if_false]
    cases hother : otherOwner run doc with
    | true =>
        simp only [otherOwner, Bool.and_eq_true, decide_eq_true_eq, Bool.not_eq_true'] at hother
        refine ⟨hother.1.1.2, hother.1.2, fun heq => ?_⟩
        rw [hother.2] at heq
        cases heq
    | false =>
        rw [hother, if_neg Bool.false_ne_true] at hresolve
        obtain ⟨doc', hdoc', hid', hmay⟩ := howns config hresolve
        have hsame : some doc = some doc' := hfind.symm.trans (find_eq_some_iff.mpr ⟨hdoc', hid'⟩)
        cases hsame
        have haccount := hmay.2 hrun
        simp only [ofServiceAccount, Bool.and_eq_true, decide_eq_true_eq] at haccount
        refine ⟨haccount.1.1, ?_, fun _ => haccount.1.2⟩
        by_contra hempty
        rw [Bool.not_eq_true] at hempty
        rw [eqStr_of_not_truthy hempty haccount.1.1] at haccount
        cases haccount.2
  · intro hidentified
    refine ⟨fun config hresolve => ?_, fun conns' => resolve_congr⟩
    obtain ⟨doc, hfind, horg, hother, hconfig⟩ := resolve_ok hresolve
    obtain ⟨hdoc, hid⟩ := find_eq_some_iff.mp hfind
    refine ⟨doc, hdoc, hid, horg, fun hrun => ?_⟩
    obtain ⟨hne, htruthy, htype⟩ := hidentified doc hfind horg hrun ⟨config, hconfig⟩
    have heq : (Value.getD doc "owner_id").eqStr run.ownerId = true := by
      simpa [otherOwner, hrun, hne, htruthy] using hother
    simp [ofServiceAccount, hne, heq, htype heq]

def sampleConnections : Connections where
  docs := [[("connection_id", .str "c1"), ("org_id", .str "acme"),
    ("owner_type", .str "service_account"), ("owner_id", .str "sa-1"), ("type", .str "sftp"),
    ("test", .dict [("host", .str "files")])]]
  unique := List.nodup_singleton _

/-- A run whose service account is not filled in gets the connection of another one. -/
theorem resolve_not_isolated :
    (∃ config, sampleConnections.resolve sampleFernet (fun _ => .ok "")
      ⟨"acme", "service_account", ""⟩ .test "c1" = .ok config) ∧
    ¬∃ doc ∈ sampleConnections.docs, Value.field doc "connection_id" = some (.str "c1") ∧
      RunIdentity.Owns ⟨"acme", "service_account", ""⟩ doc := by
  refine ⟨⟨_, rfl⟩, ?_⟩
  rintro ⟨doc, -, -, -, haccount⟩
  have hnamed := haccount rfl
  simp [ofServiceAccount] at hnamed

end Connections

end CitraFlows
