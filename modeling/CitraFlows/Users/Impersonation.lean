-- SUMMARY: Impersonation tokens of the user service: their minting, the check of every token against the blocklist behind a cache in each process, and their revocation.
import CitraFlows.Lib.JsValues
import CitraFlows.Lib.Processes
import CitraFlows.Lib.RedisKeys
import CitraFlows.Models
import Mathlib.Logic.Function.Basic

/-!
# Impersonation tokens

A super admin may mint a token for another user. Every mint leaves an audit row with the `jti` of
the token, and a revocation puts this `jti` on a blocklist that Mongo purges by itself. Requests run
in several instances of the service, each with a cache of its own in front of the blocklist: that a
token is not revoked is remembered for half a minute, that it is, for an hour.

A request is a process: what it does between two awaits is one command. Times are milliseconds.
-/

namespace CitraFlows

open Processes RedisKeys

namespace Impersonation

/-! ## Documents -/

/-- The claims of a token that the service reads. `exp` counts seconds; a missing `jti` is empty. -/
structure Token where
  jti : String
  email : String
  roles : List String
  exp : Nat
  act : Option String := none
  impersonationId : Option String := none
  deriving DecidableEq

structure CitraAIUser where
  id : String
  email : String
  roles : List String
  isActive : Bool := true
  deletionState : String := "active"
  deriving DecidableEq

structure ImpersonationAudit where
  impersonationId : String
  jti : String
  adminEmail : String
  targetEmail : String
  targetRoles : List String
  issuedAt : Nat
  expiresAt : Nat
  revokedAt : Option Nat := none
  deriving DecidableEq

structure RevokedToken where
  jti : String
  expiresAt : Nat
  deriving DecidableEq

/-- The collections, and the cache of every instance by `jti`. `issued` are the tokens that were
handed out; `jtis` are the ids that were drawn for impersonation tokens, and by which request. -/
structure Store where
  now : Nat
  users : List CitraAIUser
  audits : List ImpersonationAudit := []
  revokedTokens : List RevokedToken := []
  caches : Nat → String → Key Bool := fun _ _ => none
  issued : List Token := []
  jtis : List (String × Nat) := []

/-- `IMPERSONATION_TTL_SECONDS` -/
def impersonationTtlSeconds : Nat := 172800

/-- `NEG_TTL_MS` -/
def negTtlMs : Nat := 30 * 1000

/-- `POS_TTL_MS` -/
def posTtlMs : Nat := 60 * 60 * 1000

/-- When the row of a token is purged, given the `exp` that the revocation passes on. -/
def purgeTime (now expEpochSeconds : Nat) : Nat :=
  if expEpochSeconds = 0 then now + 24 * 60 * 60 * 1000 else expEpochSeconds * 1000

namespace Store

/-- `_cache.set` -/
def setCache (s : Store) (process : Nat) (jti : String) (revoked : Bool) : Store :=
  let entry := Key.setEx s.now revoked (if revoked then posTtlMs else negTtlMs)
  { s with
    caches := Function.update s.caches process (Function.update (s.caches process) jti entry) }

def listed (s : Store) (jti : String) : Bool := s.revokedTokens.any (·.jti = jti)

/-- `updateOne` with `$setOnInsert` and `upsert` -/
def block (s : Store) (jti : String) (expEpochSeconds : Nat) : Store :=
  if s.listed jti then s
  else { s with revokedTokens := ⟨jti, purgeTime s.now expEpochSeconds⟩ :: s.revokedTokens }

/-- The audit row that the revocation may flag. -/
def unrevoked (s : Store) (id : String) : Option ImpersonationAudit :=
  s.audits.find? fun a => a.impersonationId = id ∧ a.revokedAt = none

/-- `findOneAndUpdate` sets `revoked_at`. -/
def flag (s : Store) (id : String) : Store :=
  { s with
    audits := s.audits.map fun a =>
      if a.impersonationId = id ∧ a.revokedAt = none then { a with revokedAt := some s.now } else a }

/-- The unique index of `impersonation_id` -/
def audited (s : Store) (id : String) : Bool := s.audits.any (·.impersonationId = id)

end Store

/-! ## Requests -/

/-- What is asked for. The rest of the API is `other`. -/
inductive Call where
  | other
  | mint (userId : String)
  | revoke (impersonationId : String)
  deriving DecidableEq

/-- What a request does next, or how it was answered. -/
inductive Stage where
  | findRevoked
  | cacheAnswer (found : Bool) (readAt : Nat)
  | findTarget (userId : String)
  | signToken (target : CitraAIUser) (impersonationId jti : String) (issuedAt : Nat)
  | createAudit (audit : ImpersonationAudit) (token : Token)
  | flagAudit (id : String)
  | readAudit (id : String)
  | blocklist (audit : ImpersonationAudit)
  | passed
  | minted (token : Token)
  | revoked (audit : ImpersonationAudit) (tokenRevoked : Bool)
  | refused (status : Nat) (error : String)
  deriving DecidableEq

/-- A request to one instance of the service. -/
structure Request where
  process : Nat
  token : Token
  call : Call
  receivedAt : Nat
  /-- When `authenticateToken` let it pass. -/
  admittedAt : Option Nat := none
  stage : Stage

/-- `jwt.verify`: the signature is good, so only the expiry is left to check. -/
def verifyToken (now : Nat) (t : Token) : Bool := now / 1000 < t.exp

def isHex (c : Char) : Bool := c.isDigit || ('a' ≤ c && c ≤ 'f') || ('A' ≤ c && c ≤ 'F')

/-- The query by e-mail or, where the text is as long as one, by object id; `none` is the error of
a text that is no object id. -/
def findUser (users : List CitraAIUser) (emailOrId : String) : Option (Option CitraAIUser) :=
  if emailOrId.length = 24 then
    if emailOrId.toList.all isHex then
      some (users.find? fun u => u.email = emailOrId ∨ u.id = emailOrId)
    else none
  else some (users.find? (·.email = emailOrId))

namespace Request

def become (p : Request) (stage : Stage) : Request := { p with stage }

def refuse (p : Request) (status : Nat) (error : String) : Request :=
  p.become (.refused status error)

def isSuperAdmin (p : Request) : Bool := p.token.roles.contains "super_admin"

def adminEmail (p : Request) : String := if p.token.email = "" then "unknown" else p.token.email

/-- The first checks of a handler: `requireSuperAdmin`, and that there is an id. -/
def handle (casing : Casing) (p : Request) : Stage :=
  match p.call with
  | .other => .passed
  | .mint userId =>
      if p.isSuperAdmin then
        let id := casing.lower (Js.trim userId)
        if id = "" then .refused 400 "userId required" else .findTarget id
      else .refused 403 "super_admin required for impersonation"
  | .revoke id =>
      if p.isSuperAdmin then
        if Js.trim id = "" then .refused 400 "impersonation_id required"
        else .flagAudit (Js.trim id)
      else .refused 403 "super_admin required"

/-- `next()` of `authenticateToken` -/
def proceed (casing : Casing) (now : Nat) (p : Request) : Request :=
  { p with admittedAt := some now, stage := p.handle casing }

/-- What the lookup of the target answers, if it refuses. -/
def refusesTarget (p : Request) (target : CitraAIUser) : Option (Nat × String) :=
  if target.isActive = false then some (409, "target user is deactivated — reactivate first")
  else if target.deletionState = "deleted" then some (409, "target user is deleted")
  else if target.email = p.adminEmail then some (400, "cannot impersonate yourself")
  else none

/-- The token of `generateToken`, signed at a moment. -/
def tokenFor (p : Request) (now : Nat) (target : CitraAIUser) (impersonationId jti : String) :
    Token where
  jti := jti
  email := target.email
  roles := target.roles
  exp := now / 1000 + impersonationTtlSeconds
  act := some p.adminEmail
  impersonationId := some impersonationId

def auditFor (p : Request) (target : CitraAIUser) (impersonationId jti : String) (issuedAt : Nat) :
    ImpersonationAudit where
  impersonationId := impersonationId
  jti := jti
  adminEmail := p.adminEmail
  targetEmail := target.email
  targetRoles := target.roles
  issuedAt := issuedAt
  expiresAt := issuedAt + impersonationTtlSeconds * 1000

end Request

structure Start where
  process : Nat
  token : Token
  call : Call

/-- The outcome of an await, and the ids that are drawn after it. -/
structure Input where
  write : Write
  impersonationId : String := ""
  jti : String := ""

section

variable (casing : Casing)

/-- `authenticateToken` up to its first await. Only tokens that were handed out verify. -/
def receive (x : Start) (s : Store) : Option Request :=
  let p : Request := ⟨x.process, x.token, x.call, s.now, none, .findRevoked⟩
  if x.token ∈ s.issued then
    some (
      if verifyToken s.now x.token = false then p.refuse 403 "Invalid or expired token"
      else if x.token.jti = "" then p.proceed casing s.now
      else
        match (s.caches x.process x.token.jti).get s.now with
        | some true => p.refuse 401 "Token has been revoked"
        | some false => p.proceed casing s.now
        | none => p)
  else none

def next (i : Nat) (input : Input) (s : Store) (p : Request) : Option (Store × Request) :=
  let w := input.write
  match p.stage with
  | .findRevoked =>
      some (s,
        if w.ok then p.become (.cacheAnswer (s.listed p.token.jti) s.now)
        else p.refuse 403 "Invalid or expired token")
  | .cacheAnswer found _ =>
      some (s.setCache p.process p.token.jti found,
        if found then p.refuse 401 "Token has been revoked" else p.proceed casing s.now)
  | .findTarget userId =>
      match (if w.ok then findUser s.users userId else none) with
      | none => some (s, p.refuse 500 "")
      | some none => some (s, p.refuse 404 "target user not found")
      | some (some target) =>
          match p.refusesTarget target with
          | some (status, error) => some (s, p.refuse status error)
          | none =>
              -- the ids are new ones
              if input.jti = "" ∨ input.jti ∈ s.jtis.map Prod.fst then none
              else
                some ({ s with jtis := (input.jti, i) :: s.jtis },
                  p.become (.signToken target input.impersonationId input.jti s.now))
  | .signToken target impersonationId jti issuedAt =>
      -- a lookup of the memberships that fails is passed over
      some (s, p.become (.createAudit (p.auditFor target impersonationId jti issuedAt)
        (p.tokenFor s.now target impersonationId jti)))
  | .createAudit audit token =>
      if s.audited audit.impersonationId then some (s, p.refuse 500 "")
      else
        let s' := if w.ran then { s with audits := audit :: s.audits } else s
        some (if w.ok then ({ s' with issued := token :: s.issued }, p.become (.minted token))
          else (s', p.refuse 500 ""))
  | .flagAudit id =>
      some (if w.ran then s.flag id else s,
        if w.ok then
          match s.unrevoked id with
          | none => p.become (.readAudit id)
          | some audit =>
              if audit.jti = "" then p.become (.revoked audit false)
              else p.become (.blocklist audit)
        else p.refuse 500 "")
  | .readAudit id =>
      some (s,
        if w.ok = false then p.refuse 500 ""
        else if s.audited id then p.refuse 409 "already revoked"
        else p.refuse 404 "impersonation not found")
  | .blocklist audit =>
      let s' := if w.ran then s.block audit.jti (audit.expiresAt / 1000) else s
      some (
        if w.ok then (s'.setCache p.process audit.jti true, p.become (.revoked audit true))
        else (s', p.refuse 500 ""))
  | .passed | .minted _ | .revoked .. | .refused .. => none

/-- Time passes; a user signs in; Mongo purges a row of the blocklist; an instance starts anew; the
users are changed. -/
inductive Outside where
  | tick (d : Nat)
  | signIn (token : Token)
  | purge (jti : String)
  | restart (process : Nat)
  | setUsers (users : List CitraAIUser)

def Outside.apply (s : Store) : Outside → Option Store
  | .tick d => some { s with now := s.now + d }
  | .signIn token =>
      if token.impersonationId.isNone then some { s with issued := token :: s.issued } else none
  | .purge jti =>
      some { s with
        revokedTokens := s.revokedTokens.filter fun r => ¬ (r.jti = jti ∧ r.expiresAt ≤ s.now) }
  | .restart process =>
      some { s with caches := Function.update s.caches process fun _ => none }
  | .setUsers users => some { s with users }

def system : System Store Request Start Input Outside where
  spawn _ x s := (receive casing x s).map (s, ·)
  step := next casing
  env e s := e.apply s

end

abbrev Run := Configuration Store Request

abbrev Turn := Move Start Input Outside

/-- The service before its first request. -/
def deployed (now : Nat) (users : List CitraAIUser) : Run := ⟨{ now, users }, []⟩

/-- A request that waits for the answer of the blocklist, or for the lookup before a token is signed,
has waited for `d` at most. -/
def Stage.prompt (d now : Nat) : Stage → Bool
  | .cacheAnswer _ readAt => now ≤ readAt + d
  | .signToken _ _ _ issuedAt => now ≤ issuedAt + d
  | _ => true

/-- These two awaits take at most `d`. -/
def Prompt (d : Nat) (c : Run) : Turn → Prop
  | .step i _ => ∀ p ∈ c.proc i, p.stage.prompt d c.shared.now = true
  | _ => True

instance (d : Nat) (c : Run) (m : Turn) : Decidable (Prompt d c m) :=
  match m with
  | .step i _ => inferInstanceAs (Decidable (∀ p ∈ c.proc i, _))
  | .spawn _ | .crash _ | .env _ => .isTrue trivial

end Impersonation

end CitraFlows
