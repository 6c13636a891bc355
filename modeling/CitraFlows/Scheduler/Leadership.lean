-- SUMMARY: Leader election of the scheduler over the cache manager, and when a replica leads without the lock.
import CitraFlows.Lib.RedisKeys
import Mathlib.Logic.Function.Basic
import Mathlib.Logic.Relation

/-!
# Leader election

Every replica runs `_run_election_loop` against one lock key. Each talks to Redis through its
own `CacheManager`, which drops into non-Redis mode on a connection error and stays there
until an operation, at least a minute later, has reconnected. `_try_acquire_leadership` reads
that mode as "Redis was never configured". `Election.FailClosed` is the promise of the
election; it is kept as long as no cycle starts while the manager is in that mode.
-/

namespace CitraFlows

open RedisKeys

/-! ## The cache manager -/

/-- The fields of a `CacheManager` that has connected to Redis once. -/
structure CacheManager where
  useRedis : Bool := true
  redisLastCheck : Option Nat
  deriving DecidableEq

/-- How Redis answers a command: it may have run although the answer is an error. -/
inductive Reply where
  | ok
  | connectionError (ran : Bool)
  | redisError (ran : Bool)

/-- What an operation meets: whether a reconnect, if it is tried, succeeds, and the answer. -/
structure Network where
  reconnects : Bool
  reply : Reply

namespace CacheManager

/-- `_redis_check_interval` -/
def redisCheckInterval : Nat := 60

/-- `_ensure_connected`: `false` stands for `ConnectionError`. -/
def ensureConnected (m : CacheManager) (now : Nat) (net : Network) : Bool × CacheManager :=
  if m.useRedis then (true, m)
  else if m.redisLastCheck.all fun t => now - t > redisCheckInterval then
    if net.reconnects then (true, ⟨true, some now⟩)
    else (false, { m with redisLastCheck := some now })
  else (false, m)

/-- `_execute` of an operation on one key: `none` stands for an exception. -/
def execute {α β : Type} (m : CacheManager) (now : Nat) (net : Network) (key : Key α)
    (op : Key α → β × Key α) : Option β × CacheManager × Key α :=
  let c := m.ensureConnected now net
  if c.1 then
    match net.reply with
    | .ok => (some (op key).1, c.2, (op key).2)
    | .connectionError ran => (none, ⟨false, some now⟩, if ran then (op key).2 else key)
    | .redisError ran => (none, c.2, if ran then (op key).2 else key)
  else (none, c.2, key)

end CacheManager

/-! ## The election -/

structure ElectionConfig where
  schedulerEnabled : Bool := true
  leaderTtl : Nat := 30
  ttl_pos : 0 < leaderTtl := by decide

/-- Where a replica stands in its election loop. A leader also has the second at which the
lock it won or renewed runs out. -/
inductive Role where
  | follower
  | confirming
  | leader (leaseUntil : Nat)
  deriving DecidableEq

structure Replica where
  manager : CacheManager
  role : Role := .follower

/-- One outcome of `_try_acquire_leadership`: whether it returned `True`, whether the lock key
held this instance at that moment, and whether it was the answer for "no Redis". -/
structure Cycle where
  instanceId : String
  elected : Bool
  heldLock : Bool
  shortcut : Bool

/-- The lock key, the replicas by instance id, and a log of the election cycles. -/
structure Election where
  now : Nat
  leaderKey : Key String
  replica : String → Replica
  cycles : List Cycle

def Election.initial (now : Nat) : Election where
  now := now
  leaderKey := none
  replica := fun _ => { manager := { redisLastCheck := some now } }
  cycles := []

namespace Election

def holds (s : Election) (id : String) : Bool := s.leaderKey.get s.now = some id

/-- The replica after an operation on the lock key. -/
def afterOp (s : Election) (id : String) (m : CacheManager) (key : Key String) (role : Role) :
    Election :=
  { s with
    leaderKey := key
    replica := Function.update s.replica id ⟨m, role⟩ }

/-- The end of a cycle. -/
def conclude (s : Election) (id : String) (elected shortcut : Bool) : Election :=
  { s with cycles := ⟨id, elected, s.holds id, shortcut⟩ :: s.cycles }

/-- `_try_acquire_leadership` up to the `SET NX`. Without Redis the static flag decides. -/
def campaign (cfg : ElectionConfig) (s : Election) (id : String) (net : Network) : Election :=
  let r := s.replica id
  if !r.manager.useRedis then
    (s.afterOp id r.manager s.leaderKey
      (if cfg.schedulerEnabled then .leader (s.now + cfg.leaderTtl) else .follower)).conclude id
      cfg.schedulerEnabled true
  else
    match r.manager.execute s.now net s.leaderKey fun k => k.setNx s.now id cfg.leaderTtl with
    | (none, m, key) => (s.afterOp id m key .follower).conclude id false false
    | (some true, m, key) =>
        (s.afterOp id m key (.leader (s.now + cfg.leaderTtl))).conclude id true false
    | (some false, m, key) => s.afterOp id m key .confirming

/-- The second half of a cycle whose `SET NX` was refused: the lock may be our own. -/
def confirm (s : Election) (id : String) (net : Network) : Election :=
  let r := s.replica id
  match r.manager.execute s.now net s.leaderKey fun k => (k.live s.now, k) with
  | (some (some ⟨owner, expiresAt⟩), m, key) =>
      if owner = id then
        (s.afterOp id m key (.leader (expiresAt.getD s.now))).conclude id true false
      else (s.afterOp id m key .follower).conclude id false false
  | (_, m, key) => (s.afterOp id m key .follower).conclude id false false

/-- The renewal script of `_leader_heartbeat_loop`. -/
def renew (s : Election) (id : String) (ttl : Nat) (k : Key String) : Bool × Key String :=
  if k.get s.now = some id then (true, k.expire s.now ttl) else (false, k)

/-- One heartbeat; when the lock is lost or the renewal fails the replica steps down. -/
def heartbeat (cfg : ElectionConfig) (s : Election) (id : String) (net : Network) : Election :=
  let r := s.replica id
  match r.manager.execute s.now net s.leaderKey (s.renew id cfg.leaderTtl) with
  | (some true, m, key) => s.afterOp id m key (.leader (s.now + cfg.leaderTtl))
  | (_, m, key) => s.afterOp id m key .follower

/-- Any other operation of the replica's manager, such as the key read of a follower or a lock
of a sweep: it does not touch the lock key. -/
def otherOp (s : Election) (id : String) (net : Network) : Election :=
  let r := s.replica id
  { s with
    replica := Function.update s.replica id
      { r with manager := (r.manager.execute s.now net s.leaderKey fun k => ((), k)).2.1 } }

/-! ## Runs -/

inductive Action where
  | campaign (id : String) (net : Network)
  | confirm (id : String) (net : Network)
  | heartbeat (id : String) (net : Network)
  | otherOp (id : String) (net : Network)
  | restart (id : String)
  | tick (now : Nat)

/-- The replica is at that point of its loop; `start` runs no election on a disabled instance. -/
def Action.enabled (cfg : ElectionConfig) (s : Election) : Action → Prop
  | .campaign id _ => cfg.schedulerEnabled = true ∧ (s.replica id).role = .follower
  | .confirm id _ => (s.replica id).role = .confirming
  | .heartbeat id _ => ∃ t, (s.replica id).role = .leader t
  | .otherOp _ _ | .restart _ => True
  | .tick now => s.now ≤ now

/-- A process restarts with a manager that has connected. -/
def Action.apply (cfg : ElectionConfig) (s : Election) : Action → Election
  | .campaign id net => s.campaign cfg id net
  | .confirm id net => s.confirm id net
  | .heartbeat id net => s.heartbeat cfg id net
  | .otherOp id net => s.otherOp id net
  | .restart id =>
      { s with
        replica := Function.update s.replica id { manager := { redisLastCheck := some s.now } } }
  | .tick now => { s with now := now }

/-- The action starts no cycle on a manager in non-Redis mode. -/
def Action.connected (s : Election) : Action → Prop
  | .campaign id _ => (s.replica id).manager.useRedis = true
  | _ => True

def Step (cfg : ElectionConfig) (s s' : Election) : Prop :=
  ∃ a : Action, a.enabled cfg s ∧ s' = a.apply cfg s

def ConnectedStep (cfg : ElectionConfig) (s s' : Election) : Prop :=
  ∃ a : Action, a.enabled cfg s ∧ a.connected s ∧ s' = a.apply cfg s

/-- Every cycle that returned `True` held the lock, and no cycle took Redis for unconfigured. -/
def FailClosed (s : Election) : Prop :=
  ∀ c ∈ s.cycles, (c.elected = true → c.heldLock = true) ∧ c.shortcut = false

/-- A leader whose lease has not run out owns the lock key. -/
def LeasesHold (s : Election) : Prop :=
  ∀ id t, (s.replica id).role = .leader t → s.now < t → s.leaderKey = some ⟨id, some t⟩

/-- No two replicas lead on leases that have not run out. -/
def OneLeader (s : Election) : Prop :=
  ∀ id id' t t', (s.replica id).role = .leader t → (s.replica id').role = .leader t' →
    s.now < t → s.now < t' → id = id'

theorem LeasesHold.oneLeader {s : Election} (h : s.LeasesHold) : s.OneLeader := by
  intro id id' t t' hid hid' hlt hlt'
  have heq := (h id t hid hlt).symm.trans (h id' t' hid' hlt')
  simp only [Option.some.injEq, Cell.mk.injEq] at heq
  exact heq.1

/-! ## One step -/

/-- An operation gives an exception, or its answer and the key it leaves. -/
theorem execute_cases {β : Type} (m : CacheManager) (now : Nat) (net : Network)
    (key : Key String) (op : Key String → β × Key String) :
    (∃ m', m.execute now net key op = (none, m', key) ∨
      m.execute now net key op = (none, m', (op key).2)) ∨
    ∃ m', m.execute now net key op = (some (op key).1, m', (op key).2) := by
  simp only [CacheManager.execute]
  split
  · -- connected: the reply decides, and an exception may come before or after the command
    rcases net.reply with _ | ran | ran
    · exact Or.inr ⟨_, rfl⟩
    · cases ran with
      | false => exact Or.inl ⟨_, Or.inl rfl⟩
      | true => exact Or.inl ⟨_, Or.inr rfl⟩
    · cases ran with
      | false => exact Or.inl ⟨_, Or.inl rfl⟩
      | true => exact Or.inl ⟨_, Or.inr rfl⟩
  · exact Or.inl ⟨_, Or.inl rfl⟩

/-- A running lock of another replica is left alone. -/
def Protects (s : Election) (id : String) (key : Key String) : Prop :=
  ∀ owner t, owner ≠ id → s.now < t → s.leaderKey = some ⟨owner, some t⟩ → key = s.leaderKey

theorem protects_self (s : Election) (id : String) : s.Protects id s.leaderKey :=
  fun _ _ _ _ _ => rfl

theorem live_of_running {now t : Nat} {owner : String} (h : now < t) :
    Key.live now (some ⟨owner, some t⟩ : Key String) = some ⟨owner, some t⟩ :=
  Key.live_eq_some.mpr ⟨rfl, fun _ ht => by cases ht; exact h⟩

theorem protects_setNx (s : Election) (id : String) (ttl : Nat) :
    s.Protects id (s.leaderKey.setNx s.now id ttl).2 := by
  intro owner t _ hlt hkey
  simp [Key.setNx, hkey, live_of_running hlt]

theorem protects_renew (s : Election) (id : String) (ttl : Nat) :
    s.Protects id (s.renew id ttl s.leaderKey).2 := by
  intro owner t hne hlt hkey
  simp [renew, Key.get, hkey, live_of_running hlt, hne]

theorem LeasesHold.afterOp {s : Election} (h : s.LeasesHold) {id : String} (m : CacheManager)
    {key : Key String} (hkey : s.Protects id key) {role : Role}
    (hrole : ∀ t, role = .leader t → s.now < t → key = some ⟨id, some t⟩) :
    (s.afterOp id m key role).LeasesHold := by
  intro id' t hleader hlt
  -- the replica itself has the lease of its new role; the lock of another one is protected
  by_cases hid : id' = id
  · subst hid
    exact hrole t (by simpa [Election.afterOp] using hleader) hlt
  · have hheld := h id' t (by simpa [Election.afterOp, hid] using hleader) hlt
    exact (hkey id' t hid hlt hheld).trans hheld

/-- The invariant of the election. -/
structure Inv (s : Election) : Prop where
  failClosed : s.FailClosed
  leasesHold : s.LeasesHold

section
variable {cfg : ElectionConfig} {s : Election} {id : String} {key : Key String} {role : Role}

/-- An operation on the lock key that ends no cycle. -/
theorem Inv.afterOp (h : s.Inv) (m : CacheManager) (hkey : s.Protects id key)
    (hrole : ∀ t, role = .leader t → s.now < t → key = some ⟨id, some t⟩) :
    (s.afterOp id m key role).Inv :=
  ⟨h.failClosed, h.leasesHold.afterOp m hkey hrole⟩

/-- An operation on the lock key that ends a cycle. -/
theorem Inv.conclude (h : s.Inv) (m : CacheManager) (hkey : s.Protects id key)
    (hrole : ∀ t, role = .leader t → s.now < t → key = some ⟨id, some t⟩) {elected : Bool}
    (hheld : elected = true → key.get s.now = some id) :
    ((s.afterOp id m key role).conclude id elected false).Inv := by
  refine ⟨fun c hc => ?_, h.leasesHold.afterOp m hkey hrole⟩
  rcases List.mem_cons.mp hc with rfl | hc
  · exact ⟨fun helected => decide_eq_true (hheld helected), rfl⟩
  · exact h.failClosed c hc

theorem Inv.campaign (h : s.Inv) (id : String) (net : Network)
    (hredis : (s.replica id).manager.useRedis = true) : (s.campaign cfg id net).Inv := by
  have hprotects := protects_setNx s id cfg.leaderTtl
  simp only [Election.campaign, hredis, Bool.not_true, Bool.false_eq_true, if_false]
  rcases execute_cases (s.replica id).manager s.now net s.leaderKey
    (fun k => k.setNx s.now id cfg.leaderTtl) with ⟨m, heq | heq⟩ | ⟨m, heq⟩
  · simp only [heq]
    exact h.conclude m (protects_self s id) (by simp) (by simp)
  · simp only [heq]
    exact h.conclude m hprotects (by simp) (by simp)
  · rw [heq]
    -- a live lock refuses the `SET NX`; a free one is now ours for the whole lease
    cases hlive : s.leaderKey.live s.now with
    | some c =>
        simp only [Key.setNx, hlive]
        exact h.afterOp m (protects_self s id) (by simp)
    | none =>
        simp only [Key.setNx, hlive] at hprotects ⊢
        have hlt : s.now < s.now + cfg.leaderTtl := Nat.lt_add_of_pos_right cfg.ttl_pos
        refine h.conclude m hprotects (fun t ht _ => ?_) fun _ => ?_
        · cases ht
          rfl
        · simp [Key.get, live_of_running hlt]

theorem Inv.confirm (h : s.Inv) (id : String) (net : Network) : (s.confirm id net).Inv := by
  simp only [Election.confirm]
  rcases execute_cases (s.replica id).manager s.now net s.leaderKey
    (fun k => (k.live s.now, k)) with ⟨m, heq | heq⟩ | ⟨m, heq⟩
  · simp only [heq]
    exact h.conclude m (protects_self s id) (by simp) (by simp)
  · simp only [heq]
    exact h.conclude m (protects_self s id) (by simp) (by simp)
  · rw [heq]
    cases hlive : s.leaderKey.live s.now with
    | none => exact h.conclude m (protects_self s id) (by simp) (by simp)
    | some c =>
        obtain ⟨owner, expiresAt⟩ := c
        -- a lock of our own makes a leader, up to its remaining time
        by_cases howner : owner = id
        · subst howner
          simp only [if_true]
          obtain ⟨hkey, -⟩ := Key.live_eq_some.mp hlive
          refine h.conclude m (protects_self s owner) (fun t ht hlt => ?_) fun _ => ?_
          · cases ht
            cases expiresAt with
            | none => exact absurd hlt (Nat.lt_irrefl _)
            | some t => exact hkey
          · simp [Key.get, hlive]
        · simp only [howner, if_false]
          exact h.conclude m (protects_self s id) (by simp) (by simp)

theorem Inv.heartbeat (h : s.Inv) (id : String) (net : Network) :
    (s.heartbeat cfg id net).Inv := by
  have hprotects := protects_renew s id cfg.leaderTtl
  simp only [Election.heartbeat]
  rcases execute_cases (s.replica id).manager s.now net s.leaderKey
    (s.renew id cfg.leaderTtl) with ⟨m, heq | heq⟩ | ⟨m, heq⟩
  · simp only [heq]
    exact h.afterOp m (protects_self s id) (by simp)
  · simp only [heq]
    exact h.afterOp m hprotects (by simp)
  · rw [heq]
    -- the script renews only a lock that is still ours
    by_cases howns : s.leaderKey.get s.now = some id
    · simp only [renew, howns, if_true] at hprotects ⊢
      refine h.afterOp m hprotects fun t ht _ => ?_
      cases ht
      obtain ⟨c, hlive, rfl⟩ := Option.map_eq_some_iff.mp howns
      simp [Key.expire, hlive]
    · simp only [renew, howns, if_false]
      exact h.afterOp m (protects_self s id) (by simp)

end

theorem Inv.otherOp {s : Election} (h : s.Inv) (id : String) (net : Network) :
    (s.otherOp id net).Inv := by
  refine ⟨h.failClosed, fun id' t hleader hlt => h.leasesHold id' t ?_ hlt⟩
  by_cases hid : id' = id
  · subst hid
    simpa [Election.otherOp] using hleader
  · simpa [Election.otherOp, hid] using hleader

/-- Every action keeps the invariant, if no cycle starts on a manager in non-Redis mode. -/
theorem Inv.step {cfg : ElectionConfig} {s s' : Election} (h : s.Inv)
    (hstep : ConnectedStep cfg s s') : s'.Inv := by
  obtain ⟨a, henabled, hconnected, rfl⟩ := hstep
  cases a with
  | campaign id net => exact h.campaign id net hconnected
  | confirm id net => exact h.confirm id net
  | heartbeat id net => exact h.heartbeat id net
  | otherOp id net => exact h.otherOp id net
  | restart id =>
      -- a replica that restarts is a follower, whatever lock it has left behind
      refine ⟨h.failClosed, fun id' t hleader hlt => h.leasesHold id' t ?_ hlt⟩
      by_cases hid : id' = id
      · subst hid
        simp [Action.apply] at hleader
      · simpa [Action.apply, hid] using hleader
  | tick now =>
      exact ⟨h.failClosed, fun id t hleader hlt =>
        h.leasesHold id t hleader (Nat.lt_of_le_of_lt henabled hlt)⟩

/-! ## Every run -/

/-- In every run in which no cycle starts on a manager in non-Redis mode, the election is fail
closed and at most one replica leads on a running lease. A cycle that does start so is not
fail closed. -/
theorem failClosed_of_connected (cfg : ElectionConfig) {now : Nat} {s : Election}
    (h : Relation.ReflTransGen (ConnectedStep cfg) (initial now) s) :
    (s.FailClosed ∧ s.OneLeader) ∧
      ∀ id net, (s.campaign cfg id net).FailClosed ↔ (s.replica id).manager.useRedis = true := by
  have hinv : s.Inv := by
    induction h with
    | refl =>
        refine ⟨fun c hc => ?_, fun id t hleader => ?_⟩
        · cases hc
        · cases hleader
    | tail _ hstep ih => exact ih.step hstep
  refine ⟨⟨hinv.failClosed, hinv.leasesHold.oneLeader⟩, fun id net => ⟨fun hclosed => ?_,
    fun hredis => (hinv.campaign id net hredis).failClosed⟩⟩
  by_contra hredis
  rw [Bool.not_eq_true] at hredis
  -- without Redis the cycle is answered by the shortcut
  have hshortcut : ∃ c ∈ (s.campaign cfg id net).cycles, c.shortcut = true := by
    simp [campaign, hredis, Election.conclude]
  obtain ⟨c, hc, htrue⟩ := hshortcut
  rw [(hclosed c hc).2] at htrue
  cases htrue

/-! ### Two replicas in an outage -/

def lost : Network := ⟨false, .connectionError false⟩

/-- Both replicas lose the connection in a cycle, read the key in vain, and wait. -/
def outage : List Action :=
  [.campaign "a" lost, .campaign "b" lost, .otherOp "a" lost, .otherOp "b" lost, .tick 15]

def answered : Network := ⟨true, .ok⟩

/-- One replica wins the lock, the other is refused and finds the lock taken. -/
def calm : List Action :=
  [.campaign "a" answered, .campaign "b" answered, .confirm "b" answered]

def play (cfg : ElectionConfig) (as : List Action) (s : Election) : Election :=
  as.foldl (fun s a => a.apply cfg s) s

/-- Each action is enabled when its turn comes. -/
def EnabledAlong (cfg : ElectionConfig) : List Action → Election → Prop
  | [], _ => True
  | a :: as, s => a.enabled cfg s ∧ EnabledAlong cfg as (a.apply cfg s)

theorem play_reached {cfg : ElectionConfig} {as : List Action} {s : Election}
    (h : EnabledAlong cfg as s) : Relation.ReflTransGen (Step cfg) s (play cfg as s) := by
  induction as generalizing s with
  | nil => exact .refl
  | cons a as ih => exact .head ⟨a, h.1, rfl⟩ (ih h.2)

theorem calm_reached :
    Relation.ReflTransGen (ConnectedStep {}) (initial 0) (play {} calm (initial 0)) := by
  let won : Election := Action.apply {} (initial 0) (.campaign "a" answered)
  let refused : Election := Action.apply {} won (.campaign "b" answered)
  have h₁ : ConnectedStep {} (initial 0) won := ⟨.campaign "a" answered, ⟨rfl, rfl⟩, rfl, rfl⟩
  have h₂ : ConnectedStep {} won refused := ⟨.campaign "b" answered, ⟨rfl, rfl⟩, rfl, rfl⟩
  have h₃ : ConnectedStep {} refused (play {} calm (initial 0)) :=
    ⟨.confirm "b" answered, rfl, trivial, rfl⟩
  exact ((Relation.ReflTransGen.single h₁).tail h₂).tail h₃

theorem calm_failClosed :
    (play {} calm (initial 0)).cycles.length = 2 ∧ (play {} calm (initial 0)).FailClosed :=
  ⟨by decide, (failClosed_of_connected {} calm_reached).1.1⟩

/-- In the next cycle both lead, and neither has the lock. -/
theorem outage_electsBoth : ¬ ∀ (cfg : ElectionConfig) (now : Nat) (s : Election),
    Relation.ReflTransGen (Step cfg) (initial now) s → s.FailClosed ∧ s.OneLeader := by
  intro hclaim
  have hreached : Relation.ReflTransGen (Step {}) (initial 0)
      (play {} (outage ++ [.campaign "a" lost, .campaign "b" lost]) (initial 0)) :=
    play_reached
      ⟨⟨rfl, rfl⟩, ⟨rfl, rfl⟩, trivial, trivial, Nat.zero_le 15, ⟨rfl, rfl⟩, ⟨rfl, rfl⟩, trivial⟩
  have hone := (hclaim _ _ _ hreached).2 "a" "b" 45 45 (by decide) (by decide) (by decide)
    (by decide)
  exact absurd hone (by decide)

end Election

end CitraFlows
