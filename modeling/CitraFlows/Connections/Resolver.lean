-- SUMMARY: resolve_connection: the checks on the tenant and on the service account, and what a connection resolves to.
import CitraFlows.Assistant.Json
import CitraFlows.Executor.Loop

/-!
# Resolving connections

A node names a saved connection by its id. The resolver reads the document, checks it against the
organisation and the owner of the running workflow, and returns the decrypted configuration of
the environment.
-/

namespace CitraFlows

/-! ## What it resolves to -/

/-- `find_one({"connection_id": id})`, `decrypt_env_config`, and `urlparse(uri).path`. -/
structure ConnectionStore where
  find : Value → Option Entries
  decrypt : Entries → Except PyError Entries
  urlPath : Value → Except PyError String

namespace ConnectionStore

/-- `(path or "").lstrip("/").split("?")[0]` -/
def databaseOf (path : String) : String :=
  String.ofList ((path.toList.dropWhile (· = '/')).takeWhile (· ≠ '?'))

/-- The database of a Mongo connection: the stored one, or that of the URI. -/
def mongoDatabase (store : ConnectionStore) (decrypted : Entries) : Except PyError Value :=
  let uri := decrypted.getOr "connection_string" (.str "")
  let database := decrypted.getOr "database" (.str "")
  if !database.truthy && uri.truthy then
    (store.urlPath uri).map fun path => .str (databaseOf path)
  else .ok database

/-- The keys that a node finds, by the type of the connection. -/
def fields (store : ConnectionStore) (type : Value) (decrypted : Entries) :
    Except PyError Entries :=
  let get key default := decrypted.getOr key default
  if type.eqStr "sql" then .ok [("connection_string", get "connection_string" (.str ""))]
  else if type.eqStr "mongo" then
    (store.mongoDatabase decrypted).map fun database =>
      [("connection_string", get "connection_string" (.str "")), ("database", database)]
  else if type.eqStr "api" then
    .ok [("url", get "url" (.str "")), ("headers", get "headers" (.dict []))]
  else if type.eqStr "bucket" then
    let bucket := get "bucket" (.str "")
    let region := get "region" (.str "us-east-1")
    let key := get "access_key_id" (.str "")
    let secret := get "secret_access_key" (.str "")
    .ok [("bucket_name", bucket), ("bucket", bucket), ("aws_region", region), ("region", region),
      ("aws_access_key_id", key), ("access_key_id", key), ("aws_secret_access_key", secret),
      ("secret_access_key", secret), ("endpoint_url", get "endpoint_url" (.str ""))]
  else if type.eqStr "sftp" then
    .ok [("host", get "host" (.str "")), ("port", get "port" (.int 22)),
      ("username", get "username" (.str "")), ("password", get "password" (.str "")),
      ("private_key", get "private_key" (.str "")), ("protocol", get "protocol" (.str "sftp"))]
  else if type.eqStr "smtp" then
    .ok [("host", get "host" (.str "smtp.gmail.com")), ("port", get "port" (.int 587)),
      ("username", get "username" (.str "")), ("password", get "password" (.str "")),
      ("from_address", get "from_address" (get "username" (.str "")))]
  else .ok []

/-- `result.update(decrypted.get("extra", {}))` -/
def mergeExtra (decrypted result : Entries) : Except PyError Entries :=
  match Value.field decrypted "extra" with
  | none => .ok result
  | some (.dict extra) => .ok (result.update extra)
  | some v => .error (.typeError ("'" ++ v.typeName ++ "' object is not iterable"))

/-- The configuration that is stored for the environment, decrypted. -/
def environmentConfig (store : ConnectionStore) (connectionId : Value) (environment : String)
    (doc : Entries) : Except PyError Entries :=
  let envKey := if environment = "test" ∨ environment = "prod" then environment else "test"
  match Value.getD doc envKey with
  | .dict (p :: config) => store.decrypt (p :: config)
  | v =>
      if v.truthy then .error (.typeError ("'" ++ v.typeName ++ "' object is not iterable"))
      else
        .error (.valueError ("No '" ++ envKey ++ "' config on connection '" ++
          ((Value.field doc "name").getD connectionId).text ++ "'"))

/-! ## The checks -/

/-- `resolve_connection` -/
def resolveConnection (store : ConnectionStore) (connectionId : Value)
    (orgId ownerId ownerType environment : String) : Except PyError Entries :=
  match store.find connectionId with
  | none | some [] => .error (.valueError ("Connection '" ++ connectionId.text ++ "' not found"))
  | some doc =>
      let connOrg := doc.getOr "org_id" (.str "")
      let connOwner := doc.getOr "owner_id" (.str "")
      if orgId = "" || !connOrg.eqStr orgId then
        .error (.valueError ("Connection '" ++ connectionId.text ++ "' is not accessible from this " ++
          "workflow — it belongs to a different tenant, or predates org scoping (recreate it)."))
      else if ownerType = "service_account" && ownerId ≠ "" && connOwner.truthy &&
          !connOwner.eqStr ownerId then
        .error (.valueError ("Connection '" ++ connectionId.text ++ "' belongs to a different " ++
          "Service Account and cannot be used by this workflow."))
      else do
        let decrypted ← store.environmentConfig connectionId environment doc
        let result ← store.fields ((Value.field doc "type").getD (.str "")) decrypted
        mergeExtra decrypted result

variable {store : ConnectionStore} {connectionId : Value}
  {orgId ownerId ownerType environment : String}

/-- What resolves is a connection of the organisation. -/
theorem resolveConnection_org {config : Entries}
    (h : store.resolveConnection connectionId orgId ownerId ownerType environment = .ok config) :
    orgId ≠ "" ∧ ∃ doc, store.find connectionId = some doc ∧
      (doc.getOr "org_id" (.str "")).eqStr orgId = true := by
  unfold resolveConnection at h
  split at h
  next => cases h
  next => cases h
  next doc _ hfind =>
    dsimp only at h
    split at h
    next => cases h
    next horg =>
      simp only [Bool.or_eq_true, decide_eq_true_eq, Bool.not_eq_true', not_or,
        Bool.not_eq_false] at horg
      exact ⟨horg.1, doc, hfind, horg.2⟩

/-- The id of the owner counts for a service account only. -/
theorem resolveConnection_owner (h : ownerType ≠ "service_account") (ownerId' : String) :
    store.resolveConnection connectionId orgId ownerId ownerType environment =
      store.resolveConnection connectionId orgId ownerId' ownerType environment := by
  simp only [resolveConnection, h, decide_false, Bool.false_and]

end ConnectionStore

/-- How a node resolves a connection that its config names. -/
def NodeContext.resolve (ctx : NodeContext) (store : ConnectionStore) (connectionId : Value) :
    Except PyError Entries :=
  store.resolveConnection connectionId ctx.orgId ctx.ownerId ctx.ownerType ctx.environment

end CitraFlows
