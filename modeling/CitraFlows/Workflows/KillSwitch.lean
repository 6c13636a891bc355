-- SUMMARY: The kill switches of the workflow engine: halt records, the cache in front of them, and when a halt that was set is seen.
import CitraFlows.Lib.Processes
import CitraFlows.Models
import Mathlib.Logic.Function.Basic

/-!
# Kill switches

`set_control` writes a halt record and then invalidates the cache of its process; `get_halt` takes
the cache while it is young, and otherwise awaits a query and fills the cache with the answer,
under the time at which it began. `KillSwitch.Run.Sound` is the promise of the switch; it is kept
as long as no read fills the cache with an answer that misses a halt of the store.
-/

namespace CitraFlows

open Processes

namespace KillSwitch

/-! ## Halt records -/

inductive ScopeType where
  | global | org | dept
  deriving DecidableEq

def ScopeType.name : ScopeType → String
  | .global => "global"
  | .org => "org"
  | .dept => "dept"

structure Scope where
  scopeType : ScopeType
  scopeId : String
  deriving DecidableEq

structure Control where
  scope : Scope
  enabled : Bool
  reason : String := ""
  actor : String := ""
  updatedAt : Nat := 0
  deriving DecidableEq

/-- The scope halts a workflow of this organisation with these department tokens. -/
def Scope.covers (orgId : Option String) (deptTokens : List String) (s : Scope) : Bool :=
  match s.scopeType with
  | .global => true
  | .org => s.scopeId ≠ "" && orgId = some s.scopeId
  | .dept => s.scopeId ≠ "" && deptTokens.contains s.scopeId

/-- `get_halt`, of the controls that are active: the first of the widest scope. -/
def matchHalt (controls : List Control) (orgId : Option String) (deptTokens : List String) :
    Option Control :=
  let of (t : ScopeType) := controls.find? fun c =>
    c.scope.scopeType = t && c.scope.covers orgId deptTokens
  (of .global).or ((of .org).or (of .dept))

/-- Some record that covers a workflow halts it. -/
theorem matchHalt_isSome {controls : List Control} {orgId : Option String}
    {deptTokens : List String} {c : Control} (hc : c ∈ controls)
    (hcovers : c.scope.covers orgId deptTokens = true) :
    (matchHalt controls orgId deptTokens).isSome = true := by
  have hfind : (controls.find? fun d =>
      d.scope.scopeType = c.scope.scopeType && d.scope.covers orgId deptTokens).isSome = true := by
    rw [List.find?_isSome]
    exact ⟨c, hc, by simp [hcovers]⟩
  simp only [matchHalt, Option.isSome_or]
  cases hscope : c.scope.scopeType <;> simp only [hscope] at hfind <;> simp [hfind]

/-! ## The switch -/

/-- `_CACHE_TTL_SECONDS` -/
def cacheTtlSeconds : Nat := 5

/-- The bound of `to_list`. -/
def findLimit : Nat := 2000

structure Cache where
  at_ : Nat := 0
  controls : List Control := []

/-- The clock, the cache and the collection. The last three fields record what has happened: the
scopes whose halt has been set and not been lifted since, and how many writes that lift a scope
have begun and have run. A write that was lost does not count as run, since it may still arrive. -/
structure Shared where
  now : Nat
  cache : Cache := {}
  docs : List Control := []
  halted : Scope → Bool := fun _ => false
  liftsBegun : Scope → Nat := fun _ => 0
  liftsRun : Scope → Nat := fun _ => 0

namespace Shared

/-- `update_one` with upsert, by the scope. -/
def update (s : Shared) (c : Control) : Shared :=
  { s with
    docs :=
      if s.docs.any (·.scope = c.scope) then s.docs.map fun d => if d.scope = c.scope then c else d
      else s.docs ++ [c] }

/-- `find({"enabled": True}).to_list(length=2000)` -/
def findEnabled (s : Shared) : List Control := (s.docs.filter (·.enabled)).take findLimit

/-- A write that lifts a scope has run, or has failed. -/
def liftRun (s : Shared) (c : Control) : Shared :=
  if c.enabled then s
  else { s with liftsRun := Function.update s.liftsRun c.scope (s.liftsRun c.scope + 1) }

/-- `invalidate_cache` -/
def invalidateCache (s : Shared) : Shared := { s with cache := { s.cache with at_ := 0 } }

/-- The cache is younger than its TTL. -/
def fresh (s : Shared) : Bool := s.now < s.cache.at_ + cacheTtlSeconds

end Shared

/-! ## Reads and writes -/

inductive ReadStage where
  | find (now : Nat)
  | fill (now : Nat) (controls : List Control)
  | done (halt : Option Control)
  deriving DecidableEq

/-- A call of `get_halt`, with what was halted when it began, and how many lifts had begun. -/
structure Reader where
  orgId : Option String
  deptTokens : List String
  haltedAtStart : Scope → Bool
  liftsAtStart : Scope → Nat
  stage : ReadStage

namespace Reader

def become (p : Reader) (stage : ReadStage) : Reader := { p with stage }

/-- `get_halt` up to its first await: the cache, if it is fresh. -/
def begin (orgId : Option String) (deptTokens : List String) (s : Shared) : Reader where
  orgId := orgId
  deptTokens := deptTokens
  haltedAtStart := s.halted
  liftsAtStart := s.liftsBegun
  stage := if s.fresh then .done (matchHalt s.cache.controls orgId deptTokens) else .find s.now

/-- The query runs, then its answer fills the cache. A query that fails allows the run. -/
def next (w : Write) (s : Shared) (p : Reader) : Option (Shared × Reader) :=
  match p.stage with
  | .find now =>
      some (s, p.become (if w.ok then .fill now s.findEnabled else .done none))
  | .fill now controls =>
      some ({ s with cache := ⟨now, controls⟩ },
        p.become (.done (matchHalt controls p.orgId p.deptTokens)))
  | .done _ => none

end Reader

inductive WriteStage where
  | update
  | invalidate
  | returned
  | raised
  deriving DecidableEq

/-- A call of `set_control`. A write that sets a halt remembers how many lifts of the scope had
begun, and whether all of them had run. -/
structure Writer where
  control : Control
  liftsAtStart : Nat
  quietAtStart : Bool
  stage : WriteStage

namespace Writer

def become (p : Writer) (stage : WriteStage) : Writer := { p with stage }

/-- The write was not overlapped by one that lifts its scope. -/
def undisputed (s : Shared) (p : Writer) : Bool :=
  p.quietAtStart && s.liftsBegun p.control.scope = p.liftsAtStart

def next (w : Write) (s : Shared) (p : Writer) : Option (Shared × Writer) :=
  match p.stage with
  | .update =>
      let s := if w.ran then s.update p.control else s
      some (s.liftRun p.control, p.become (if w.ok then .invalidate else .raised))
  | .invalidate =>
      let s := s.invalidateCache
      some (if p.control.enabled ∧ p.undisputed s
          then { s with halted := Function.update s.halted p.control.scope true } else s,
        p.become .returned)
  | .returned | .raised => none

end Writer

/-- The scope id that `set_control` stores; `none` stands for its `ValueError`. -/
def storedScope (scopeType : ScopeType) (scopeId : Option String) : Option Scope :=
  match scopeType with
  | .global => some ⟨.global, "*"⟩
  | t => if scopeId.getD "" = "" then none else some ⟨t, scopeId.getD ""⟩

inductive Process where
  | reader (p : Reader)
  | writer (p : Writer)

inductive Start where
  | getHalt (orgId : Option String) (deptTokens : List String)
  | setControl (scopeType : ScopeType) (scopeId : Option String) (enabled : Bool)
      (actor reason : String)

/-- `set_control` up to its first await. A call that lifts a scope begins here. -/
def beginSetControl (c : Control) (s : Shared) : Shared × Writer :=
  (if c.enabled then s
    else
      { s with
        halted := Function.update s.halted c.scope false
        liftsBegun := Function.update s.liftsBegun c.scope (s.liftsBegun c.scope + 1) },
    ⟨c, s.liftsBegun c.scope, s.liftsBegun c.scope = s.liftsRun c.scope, .update⟩)

/-- One process of the service: its reads and writes, and the time. -/
def system : System Shared Process Start Write Nat where
  spawn _ x s :=
    match x with
    | .getHalt orgId deptTokens => some (s, .reader (.begin orgId deptTokens s))
    | .setControl scopeType scopeId enabled actor reason =>
        (storedScope scopeType scopeId).map fun scope =>
          let r := beginSetControl ⟨scope, enabled, reason, actor, s.now⟩ s
          (r.1, .writer r.2)
  step _ w s
    | .reader p => (p.next w s).map fun r => (r.1, .reader r.2)
    | .writer p => (p.next w s).map fun r => (r.1, .writer r.2)
  env d s := some { s with now := s.now + d }

abbrev Run := Configuration Shared Process

/-- A process starts, with an empty cache; the epoch lies further back than the TTL. -/
def Run.start (d : Nat) : Run := ⟨{ now := cacheTtlSeconds + d }, []⟩

/-! ## The promise -/

/-- The scope was halted when the read began, and no write that lifts it has begun since. -/
def Reader.owed (s : Shared) (p : Reader) (sc : Scope) : Bool :=
  p.haltedAtStart sc && s.liftsBegun sc = p.liftsAtStart sc

/-- A read that ends sees a halt that covers it, if one was set before it began and has not been
lifted since. -/
def Reader.Served (s : Shared) (p : Reader) : Prop :=
  ∀ halt sc, p.stage = .done halt → p.owed s sc = true → sc.covers p.orgId p.deptTokens = true →
    halt.isSome = true

namespace Process

/-- A read whose query runs next. -/
def finding : Process → Bool
  | .reader p =>
      match p.stage with
      | .find _ => true
      | _ => false
  | .writer _ => false

/-- The answer with which a read fills the cache next. -/
def answer : Process → Option (List Control)
  | .reader p =>
      match p.stage with
      | .fill _ controls => some controls
      | _ => none
  | .writer _ => none

end Process

namespace Run

/-- Every read that has ended was served: a lift that begins later takes nothing back. -/
def Sound (c : Run) : Prop := ∀ i p, c.proc i = some (.reader p) → p.Served c.shared

/-- The store does not fail the queries. -/
def StoreAnswers (c : Run) : Move Start Write Nat → Prop
  | .step i w => ∀ p ∈ c.proc i, p.finding = true → w.ok = true
  | _ => True

/-- A read fills the cache only with an answer that has every halt that is in the store then. -/
def Complete (c : Run) : Move Start Write Nat → Prop
  | .step i w => ∀ p ∈ c.proc i,
      (p.finding = true → w.ok = true) ∧
        ∀ controls ∈ p.answer, ∀ d ∈ c.shared.docs, d.enabled = true →
          controls.any (·.scope = d.scope) = true
  | _ => True

instance (c : Run) (m : Move Start Write Nat) : Decidable (StoreAnswers c m) :=
  match m with
  | .step i _ => inferInstanceAs (Decidable (∀ p ∈ c.proc i, _))
  | .spawn _ | .crash _ | .env _ => .isTrue trivial

instance (c : Run) (m : Move Start Write Nat) : Decidable (Complete c m) :=
  match m with
  | .step i _ => inferInstanceAs (Decidable (∀ p ∈ c.proc i, _))
  | .spawn _ | .crash _ | .env _ => .isTrue trivial

end Run

end KillSwitch

end CitraFlows
