-- SUMMARY: What one step of a coroutine can do to a warm pool and to the host: fifteen effects, under the condition that nothing running is left behind.
import CitraFlows.Sandbox.Pool

/-!
# One step of the warm container pool

At every await a coroutine holds a container of its pool or none. `Effect` lists what a step can
do to the pool, to the host and to what the coroutine holds; the lock is seen to by itself.
-/

namespace CitraFlows

open Processes

namespace WarmPool

/-! ## What a coroutine holds -/

/-- What a coroutine has in hand besides the lock. -/
inductive Hold where
  | nothing
  /-- It creates a container. -/
  | creating
  /-- It has created a container, and started it; `_created` does not count it yet. -/
  | fresh (id : Cid)
  | started (id : Cid)
  /-- It has a container on the way between the queue and the set. -/
  | passing (id : Cid)
  /-- Its caller has the container. -/
  | user (id : Cid)
  /-- It looks for orphans in a list, and has found some. -/
  | reaping (labelled orphans : List Cid)
  deriving DecidableEq

namespace Hold

/-- The container in hand-over. -/
@[simp] def handOver : Hold → Option Cid
  | .fresh id | .started id | .passing id => some id
  | _ => none

@[simp] def container : Hold → Option Cid
  | .fresh id | .started id | .passing id | .user id => some id
  | _ => none

/-- `_created` counts the container. -/
@[simp] def counted : Hold → Bool
  | .passing _ | .user _ => true
  | _ => false

/-- `_created` will count one more. -/
@[simp] def creates : Hold → Bool
  | .creating | .fresh _ | .started _ => true
  | _ => false

/-- The containers that a reaper has yet to look at. -/
@[simp] def labelled : Hold → List Cid
  | .reaping labelled _ => labelled
  | _ => []

/-- The containers that a reaper has taken for orphans. -/
@[simp] def orphans : Hold → List Cid
  | .reaping _ orphans => orphans
  | _ => []

theorem container_of_handOver {h : Hold} {id : Cid} (hid : h.handOver = some id) :
    h.container = some id := by
  cases h <;> simp_all

end Hold

namespace Stage

def hold : Stage → Hold
  | .creating _ => .creating
  | .starting _ id => .fresh id
  | .created _ id => .started id
  | .validating _ id | .discarding _ id | .resetting id | .destroying id => .passing id
  | .using id => .user id
  | .inspecting _ _ labelled orphans => .reaping labelled orphans
  | .killing _ orphans => .reaping [] orphans
  | _ => .nothing

/-- The coroutine holds `_grow_lock`. -/
@[simp] def locks : Stage → Bool
  | .take w | .validating w _ | .discarding w _ => w = .slow
  | .creating _ | .starting _ _ | .created _ _ | .warmLoop _ => true
  | _ => false

end Stage

/-! ## Effects -/

/-- The pool with another value for the lock. -/
def Pool.lock (pool : Pool) (b : Bool) : Pool := { pool with locked := b }

/-- What a step can do on behalf of a pool that may have `max` containers, where `places` counts
those of each container. -/
inductive Effect (max : Nat) (places : PoolId → Cid → Nat) (p : PoolId) (g : Shared) :
    Hold → Shared → Hold → Prop
  | stay (h : Hold) (b : Bool) :
      Effect max places p g h (g.setPool p ((g.pools p).lock b)) h
  | enter : (g.pools p).created < max → Effect max places p g .nothing g .creating
  | leave : Effect max places p g .creating (g.unlock p) .nothing
  /-- A container is left behind. -/
  | lose {h : Hold} {id : Cid} (b : Bool) : h.handOver = some id →
      h = .fresh id ∨ g.status id ≠ .running →
      Effect max places p g h (g.setPool p ((g.pools p).lock b)) .nothing
  | take {id : Cid} {rest : List Cid} : (g.pools p).idle = id :: rest →
      Effect max places p g .nothing (g.setPool p { g.pools p with idle := rest }) (.passing id)
  | hand (id : Cid) (b : Bool) :
      Effect max places p g (.passing id)
        (g.setPool p { g.pools p with inUse := id :: (g.pools p).inUse, locked := b }) (.user id)
  | register (id : Cid) :
      Effect max places p g (.started id)
        (g.setPool p
          { g.pools p with
            created := (g.pools p).created + 1, inUse := id :: (g.pools p).inUse
            locked := false })
        (.user id)
  | warm (id : Cid) :
      Effect max places p g (.started id)
        (g.setPool p
          { g.pools p with
            created := (g.pools p).created + 1, idle := (g.pools p).idle ++ [id] })
        .nothing
  | release (id : Cid) :
      Effect max places p g (.user id) (g.setPool p ((g.pools p).discard id)) (.passing id)
  | put (id : Cid) :
      Effect max places p g (.passing id)
        (g.setPool p { g.pools p with idle := (g.pools p).idle ++ [id] }) .nothing
  | destroy {id : Cid} {o : Destroyed} {inUse : List Cid} :
      (o = .kept → g.status id ≠ .running) →
      (∀ x, x ∈ inUse → x ∈ (g.pools p).inUse) →
      (∀ x, x ∈ (g.pools p).inUse → x ≠ id → x ∈ inUse) →
      Effect max places p g (.passing id)
        ((g.destroy id o).setPool p { (g.pools p).decrement with inUse }) .nothing
  | create : Effect max places p g .creating (g.create p) (.fresh g.nextId)
  | createLost : Effect max places p g .nothing (g.create p) .nothing
  | start {id : Cid} : g.status id = .created →
      Effect max places p g (.fresh id) (g.setStatus id .running) (.started id)
  /-- A thread whose coroutine is gone destroys what that had. -/
  | remove (id : Cid) (o : Destroyed) :
      Effect max places p g .nothing (g.destroy id o) .nothing
  | list {labelled : List Cid} : (∀ id ∈ labelled, id < g.nextId) →
      Effect max places p g .nothing g (.reaping labelled [])
  | spare (id : Cid) (labelled orphans : List Cid) :
      Effect max places p g (.reaping (id :: labelled) orphans) g (.reaping labelled orphans)
  | suspect {id : Cid} {labelled orphans : List Cid} : (∀ q ∈ g.owner id, places q id = 0) →
      Effect max places p g (.reaping (id :: labelled) orphans) g
        (.reaping labelled (orphans ++ [id]))
  | reap (id : Cid) (orphans : List Cid) (o : Destroyed) :
      Effect max places p g (.reaping [] (id :: orphans))
        { g.destroy id o with reaped := id :: g.reaped } (.reaping [] orphans)
  | quit (labelled orphans : List Cid) :
      Effect max places p g (.reaping labelled orphans) g .nothing

namespace Stage

/-- A thread whose coroutine is gone starts a container. -/
def startsLost : Stage → Input → Bool
  | .lostStart _, .answer ok => ok
  | _, _ => false

/-- The container that a reaper passes over, and those that it knows. -/
def inspects : Stage → Input → Option (Cid × List Cid)
  | .inspecting _ known (id :: _) _, .go => some (id, known)
  | _, _ => none

end Stage

/-- The condition on what happens to a coroutine: it is not cancelled, and its `_destroy` does
not come to nothing, while the container it has on the way runs; no thread whose coroutine is
gone starts a container; and a reaper that passes over a container with a place knows it, or
finds it running with the label of another pool. -/
structure Careful (places : PoolId → Cid → Nat) (g : Shared) (l : Coroutine) (a : Input) : Prop where
  kept : a = .cancel ∨ a = .destroyed .kept →
    ∀ id ∈ l.stage.hold.handOver, g.status id ≠ .running
  started : l.stage.startsLost a = false
  known : ∀ x ∈ l.stage.inspects a, ∀ q ∈ g.owner x.1,
    places q x.1 = 0 ∨ x.1 ∈ x.2 ∨ q ≠ l.pool ∧ g.status x.1 = .running

instance {places : PoolId → Cid → Nat} {g : Shared} {l : Coroutine} {a : Input} :
    Decidable (Careful places g l a) :=
  decidable_of_iff
    ((a = .cancel ∨ a = .destroyed .kept →
        ∀ id ∈ l.stage.hold.handOver, g.status id ≠ .running) ∧
      l.stage.startsLost a = false ∧
      ∀ x ∈ l.stage.inspects a, ∀ q ∈ g.owner x.1,
        places q x.1 = 0 ∨ x.1 ∈ x.2 ∨ q ≠ l.pool ∧ g.status x.1 = .running)
    ⟨fun h => ⟨h.1, h.2.1, h.2.2⟩, fun h => ⟨h.kept, h.started, h.known⟩⟩

variable {config : PoolId → PoolConfig} {places : PoolId → Cid → Nat} {a : Input}
  {g g' : Shared} {l l' : Coroutine}

theorem Shared.setPool_lock_self (g : Shared) (p : PoolId) :
    g.setPool p ((g.pools p).lock (g.pools p).locked) = g := by
  simp [Shared.setPool, Pool.lock]

theorem Shared.setPool_unlock (g : Shared) (p : PoolId) (pool : Pool) :
    (g.setPool p pool).unlock p = g.setPool p (pool.lock false) := by
  simp [Shared.unlock, Shared.setPool, Pool.lock]

theorem Effect.same {max : Nat} {p : PoolId} (h : Hold) : Effect max places p g h g h := by
  have : Effect max places p g h (g.setPool p ((g.pools p).lock (g.pools p).locked)) h :=
    .stay h _
  rwa [g.setPool_lock_self p] at this

/-- A container is left behind by a coroutine without the lock. -/
theorem Effect.abandon {max : Nat} {p : PoolId} {h : Hold} {id : Cid}
    (hid : h.handOver = some id) (hrun : h = .fresh id ∨ g.status id ≠ .running) :
    Effect max places p g h g .nothing := by
  have : Effect max places p g h (g.setPool p ((g.pools p).lock (g.pools p).locked)) .nothing :=
    .lose _ hid hrun
  rwa [g.setPool_lock_self p] at this

theorem Shared.leaveWay_eq (g : Shared) (p : PoolId) (w : Way) :
    ∃ b, g.leaveWay p w = g.setPool p ((g.pools p).lock b) := by
  cases w with
  | slow => exact ⟨false, rfl⟩
  | fast | waiting => exact ⟨(g.pools p).locked, (g.setPool_lock_self p).symm⟩

theorem takeNext_effect {w : Way} {s : Stage} (hs : s.hold = .nothing)
    (h : takeNext (config l.pool) g l w = some (g', l')) :
    l'.pool = l.pool ∧ Effect (config l.pool).maxSize places l.pool g s.hold g' l'.stage.hold := by
  simp only [takeNext] at h
  rw [hs]
  split at h
  next id rest hidle =>
    cases h
    exact ⟨rfl, .take hidle⟩
  next hidle =>
    cases w with
    | fast =>
        cases h
        exact ⟨rfl, .same _⟩
    | slow =>
        dsimp only at h
        split at h
        next hroom =>
          cases h
          exact ⟨rfl, .enter hroom⟩
        next =>
          cases h
          exact ⟨rfl, .stay _ false⟩
    | waiting => cases h

theorem warmNext_effect {n : Nat} {s : Stage} (hs : s.hold = .nothing) :
    (warmNext (config l.pool) g l n).2.pool = l.pool ∧
      Effect (config l.pool).maxSize places l.pool g s.hold (warmNext (config l.pool) g l n).1
        (warmNext (config l.pool) g l n).2.stage.hold := by
  simp only [warmNext]
  rw [hs]
  split
  next hroom => exact ⟨rfl, .enter hroom.2⟩
  next => exact ⟨rfl, .stay _ false⟩

theorem register_effect {id : Cid} (max : Nat) (purpose : Purpose) :
    (register g l id purpose).2.pool = l.pool ∧
      Effect max places l.pool g (.started id) (register g l id purpose).1
        (register g l id purpose).2.stage.hold := by
  cases purpose with
  | acquire => exact ⟨rfl, .register id⟩
  | warmup n => exact ⟨rfl, .warm id⟩

/-- What a coroutine does on its way out, or after a creation that has failed, needs no
container. -/
theorem Purpose.fail_hold (purpose : Purpose) : purpose.fail.hold = .nothing := by
  cases purpose <;> rfl

theorem Reaper.after_hold (by_ : Reaper) : by_.after.hold = .nothing := by
  cases by_ <;> rfl

theorem next_effect (hcare : Careful places g l a)
    (h : next config a g l = some (g', l')) :
    l'.pool = l.pool ∧
      Effect (config l.pool).maxSize places l.pool g l.stage.hold g' l'.stage.hold := by
  obtain ⟨p, stage⟩ := l
  cases stage <;> cases a <;> try cases h
  case take.go w => exact takeNext_effect rfl h
  case take.cancel w =>
    cases w <;> cases h
    exact ⟨rfl, .same _⟩
  case take.timeout w =>
    cases w <;> cases h
    exact ⟨rfl, .same _⟩
  case lockWait.go =>
    obtain ⟨-, h⟩ := Option.ite_none_left_eq_some.mp h
    cases h
    exact ⟨rfl, .stay _ true⟩
  case warmLock.go =>
    obtain ⟨-, h⟩ := Option.ite_none_left_eq_some.mp h
    cases h
    exact ⟨rfl, .stay _ true⟩
  case validating.answer w id ok =>
    cases ok with
    | false =>
        cases h
        exact ⟨rfl, .same _⟩
    | true =>
        obtain ⟨-, h⟩ := Option.ite_none_right_eq_some.mp h
        cases h
        cases w with
        | slow =>
            refine ⟨rfl, ?_⟩
            simp only [Shared.leaveWay, Shared.setPool_unlock]
            exact .hand id false
        | fast | waiting => exact ⟨rfl, .hand id (g.pools p).locked⟩
  case validating.cancel w id =>
    obtain ⟨b, hb⟩ := g.leaveWay_eq p w
    exact ⟨rfl, hb ▸ .lose b rfl (Or.inr (hcare.kept (Or.inl rfl) id rfl))⟩
  case discarding.cancel w id =>
    obtain ⟨b, hb⟩ := g.leaveWay_eq p w
    exact ⟨rfl, hb ▸ .lose b rfl (Or.inr (hcare.kept (Or.inl rfl) id rfl))⟩
  case discarding.destroyed w id o =>
    refine ⟨rfl, .destroy (fun ho => hcare.kept (Or.inr (ho ▸ rfl)) id rfl) ?_ ?_⟩
    · intro x hx
      exact (List.mem_filter.mp hx).1
    · intro x hx hne
      exact List.mem_filter.mpr ⟨hx, by simpa using hne⟩
  case destroying.destroyed id o =>
    exact ⟨rfl, .destroy (fun ho => hcare.kept (Or.inr (ho ▸ rfl)) id rfl) (fun _ hx => hx)
      fun _ hx _ => hx⟩
  case creating.answer purpose ok =>
    cases ok with
    | false =>
        cases h
        exact ⟨rfl, by simpa only [Coroutine.become, purpose.fail_hold] using .leave⟩
    | true =>
        cases h
        exact ⟨rfl, .create⟩
  case creating.cancel purpose => exact ⟨rfl, .leave⟩
  case starting.answer purpose id ok =>
    cases ok with
    | false =>
        cases h
        refine ⟨rfl, ?_⟩
        simpa only [Coroutine.become, purpose.fail_hold] using
          .lose false rfl (Or.inl rfl)
    | true =>
        obtain ⟨hcreated, h⟩ := Option.ite_none_right_eq_some.mp h
        cases h
        exact ⟨rfl, .start hcreated⟩
  case starting.cancel purpose id =>
    exact ⟨rfl, .lose false rfl (Or.inl rfl)⟩
  case created.go purpose id =>
    obtain ⟨rfl, rfl⟩ := Prod.ext_iff.mp (Option.some.inj h)
    exact register_effect _ purpose
  case created.cancel purpose id =>
    exact ⟨rfl, .lose false rfl (Or.inr (hcare.kept (Or.inl rfl) id rfl))⟩
  case using.go id => exact ⟨rfl, .release id⟩
  case resetting.answer id ok =>
    cases ok with
    | false =>
        cases h
        exact ⟨rfl, .same _⟩
    | true =>
        cases h
        exact ⟨rfl, .put id⟩
  case resetting.cancel id =>
    exact ⟨rfl, .abandon rfl (Or.inr (hcare.kept (Or.inl rfl) id rfl))⟩
  case destroying.cancel id =>
    exact ⟨rfl, .abandon rfl (Or.inr (hcare.kept (Or.inl rfl) id rfl))⟩
  case warmStart.answer ok =>
    cases ok with
    | false =>
        cases h
        exact ⟨rfl, .same _⟩
    | true =>
        dsimp only [next] at h
        split at h <;> cases h <;> exact ⟨rfl, .same _⟩
  case warmLoop.go n =>
    obtain ⟨rfl, rfl⟩ := Prod.ext_iff.mp (Option.some.inj h)
    exact warmNext_effect rfl
  case listing.answer by_ known ok =>
    cases ok with
    | false =>
        cases h
        exact ⟨rfl, by simpa only [Coroutine.become, by_.after_hold] using .same _⟩
    | true =>
        cases h
        refine ⟨rfl, .list fun id hid => ?_⟩
        exact List.mem_range.mp (List.mem_filter.mp hid).1
  case inspecting.go by_ known labelled orphans =>
    cases labelled with
    | nil =>
        cases h
        exact ⟨rfl, .same _⟩
    | cons id ids =>
        dsimp only [next] at h
        split at h
        next horphan =>
          cases h
          refine ⟨rfl, .suspect fun q hq => ?_⟩
          simp only [isOrphan, Bool.and_eq_true, Bool.or_eq_true, decide_eq_true_eq] at horphan
          obtain ⟨-, hunknown, hstale⟩ := horphan
          rcases hcare.known (id, known) rfl q hq with hnone | hknown | ⟨hsibling, hrun⟩
          · exact hnone
          · exact absurd hknown hunknown
          · rcases hstale with hown | hstopped
            · exact absurd (Option.some.inj (hq.symm.trans hown)) hsibling
            · exact absurd hrun hstopped
        next =>
          cases h
          exact ⟨rfl, .spare id ids orphans⟩
  case inspecting.answer by_ known labelled orphans ok =>
    cases labelled <;> cases ok <;> cases h <;>
      exact ⟨rfl, by simpa only [Coroutine.become, by_.after_hold] using .quit _ orphans⟩
  case inspecting.cancel by_ known labelled orphans =>
    cases labelled <;> cases h <;> exact ⟨rfl, .same _⟩
  case inspecting.timeout by_ known labelled orphans => cases labelled <;> cases h
  case inspecting.destroyed by_ known labelled orphans o => cases labelled <;> cases h
  case killing.go by_ orphans =>
    cases orphans <;> cases h
    exact ⟨rfl, by simpa only [Coroutine.become, by_.after_hold] using .quit [] []⟩
  case killing.destroyed by_ orphans o =>
    cases orphans with
    | nil => cases h
    | cons id ids =>
        cases h
        exact ⟨rfl, .reap id ids o⟩
  case killing.cancel by_ orphans =>
    cases orphans <;> cases h <;> exact ⟨rfl, .same _⟩
  case killing.timeout by_ orphans => cases orphans <;> cases h
  case killing.answer by_ orphans ok => cases orphans <;> cases h
  case lostCreate.answer ok =>
    cases ok with
    | false =>
        cases h
        exact ⟨rfl, .same _⟩
    | true =>
        cases h
        exact ⟨rfl, .createLost⟩
  case lostStart.answer id ok =>
    obtain rfl : ok = false := hcare.started
    cases h
    exact ⟨rfl, .same _⟩
  case lostDestroy.destroyed id o => exact ⟨rfl, .remove id o⟩
  all_goals exact ⟨rfl, .same _⟩

/-! ## What the effects have in common -/

section Effects

variable {max : Nat} {p : PoolId} {h h' : Hold}

@[simp] theorem Shared.setPool_self (g : Shared) (p : PoolId) (pool : Pool) :
    (g.setPool p pool).pools p = pool := by
  simp [Shared.setPool]

@[simp] theorem Shared.setPool_ne (g : Shared) {p q : PoolId} (pool : Pool) (hq : q ≠ p) :
    (g.setPool p pool).pools q = g.pools q := by
  simp [Shared.setPool, hq]

@[simp] theorem Shared.destroy_pools (g : Shared) (id : Cid) (o : Destroyed) :
    (g.destroy id o).pools = g.pools := by
  cases o with
  | removed | kept => rfl
  | stopped =>
      simp only [Shared.destroy]
      split <;> rfl

@[simp] theorem Shared.destroy_reaped (g : Shared) (id : Cid) (o : Destroyed) :
    (g.destroy id o).reaped = g.reaped := by
  cases o with
  | removed | kept => rfl
  | stopped =>
      simp only [Shared.destroy]
      split <;> rfl

@[simp] theorem Shared.destroy_owner (g : Shared) (id : Cid) (o : Destroyed) :
    (g.destroy id o).owner = g.owner ∧ (g.destroy id o).nextId = g.nextId := by
  cases o with
  | removed | kept => exact ⟨rfl, rfl⟩
  | stopped =>
      simp only [Shared.destroy]
      split <;> exact ⟨rfl, rfl⟩

/-- A container that runs after a destruction ran before it, and was not the one destroyed unless
nothing came of that. -/
theorem Shared.running_of_destroy {id x : Cid} {o : Destroyed}
    (hrun : (g.destroy id o).status x = .running) :
    g.status x = .running ∧ (x = id → o = .kept) := by
  by_cases hx : x = id
  · subst hx
    cases o with
    | removed => simp [Shared.destroy, Shared.setStatus] at hrun
    | stopped =>
        simp only [Shared.destroy] at hrun
        split at hrun
        · simp [Shared.setStatus] at hrun
        · contradiction
    | kept => exact ⟨hrun, fun _ => rfl⟩
  · refine ⟨?_, fun h => absurd h hx⟩
    cases o with
    | removed => simpa [Shared.destroy, Shared.setStatus, hx] using hrun
    | stopped =>
        simp only [Shared.destroy] at hrun
        split at hrun
        · simpa [Shared.setStatus, hx] using hrun
        · exact hrun
    | kept => exact hrun

namespace Effect

theorem pools_ne (e : Effect max places p g h g' h') {q : PoolId} (hq : q ≠ p) :
    g'.pools q = g.pools q := by
  cases e <;> simp [Shared.unlock, Shared.create, Shared.setStatus, hq]

/-- The lock sees to it that only one coroutine at a time brings a pool nearer to its bound. -/
theorem created_le (e : Effect max places p g h g' h') (hle : (g.pools p).created ≤ max)
    (hroom : h.creates = true → (g.pools p).created < max) :
    (g'.pools p).created ≤ max ∧ (h'.creates = true → (g'.pools p).created < max) := by
  cases e <;>
    simp [Shared.unlock, Shared.create, Shared.setStatus, Pool.lock, Pool.discard,
      Pool.decrement] at hroom ⊢
  case stay => exact ⟨hle, hroom⟩
  all_goals omega

theorem created_grows (e : Effect max places p g h g' h') :
    (g'.pools p).created ≤ (g.pools p).created ∨ h.creates = true := by
  cases e <;>
    simp [Shared.unlock, Shared.create, Shared.setStatus, Pool.lock, Pool.discard, Pool.decrement]

/-- `_created` counts what is idle and what the coroutines have, whatever the others have. -/
theorem room (e : Effect max places p g h g' h') {r : Nat}
    (hr : (g.pools p).idle.length + h.counted.toNat + r ≤ (g.pools p).created) :
    (g'.pools p).idle.length + h'.counted.toNat + r ≤ (g'.pools p).created := by
  cases e <;>
    simp [Shared.unlock, Shared.create, Shared.setStatus, Pool.lock, Pool.discard,
      Pool.decrement] at hr ⊢
  case take hidle =>
    simp only [hidle, List.length_cons] at hr
    omega
  all_goals omega

end Effect

/-- How often a container is idle or with the coroutine. -/
def Shared.has (g : Shared) (p : PoolId) (h : Hold) (id : Cid) : Nat :=
  (g.pools p).idle.count id + if h.container = some id then 1 else 0

namespace Effect

/-- A step gives a container to the pool or to the coroutine only if it creates it. -/
theorem has_le (e : Effect max places p g h g' h') :
    (g'.owner = g.owner ∧ g'.nextId = g.nextId ∧ ∀ id, g'.has p h' id ≤ g.has p h id) ∨
    ((g'.owner = Function.update g.owner g.nextId (some p) ∧ g'.nextId = g.nextId + 1) ∧
      ∀ id, g'.has p h' id ≤ g.has p h id + if id = g.nextId then 1 else 0) := by
  cases e
  case create =>
    refine Or.inr ⟨⟨rfl, rfl⟩, fun id => ?_⟩
    simp [Shared.has, Shared.create, eq_comm]
  case createLost =>
    refine Or.inr ⟨⟨rfl, rfl⟩, fun id => ?_⟩
    simp [Shared.has, Shared.create]
  case take id rest hidle =>
    refine Or.inl ⟨rfl, rfl, fun x => ?_⟩
    simp [Shared.has, hidle, List.count_cons]
  all_goals
    refine Or.inl ⟨by simp [Shared.setPool, Shared.unlock, Shared.setStatus],
      by simp [Shared.setPool, Shared.unlock, Shared.setStatus], fun x => ?_⟩
    simp [Shared.has, Shared.unlock, Shared.setStatus, Pool.lock, Pool.discard, Pool.decrement,
      List.count_append, List.count_singleton]

/-! A label is given with the number of the container, and stays. -/

theorem owner_ne (e : Effect max places p g h g' h') {id : Cid} (hne : id ≠ g.nextId) :
    g'.owner id = g.owner id := by
  rcases e.has_le with ⟨howner, -, -⟩ | ⟨⟨howner, -⟩, -⟩
  · rw [howner]
  · rw [howner, Function.update_of_ne hne]

theorem nextId_le (e : Effect max places p g h g' h') : g.nextId ≤ g'.nextId := by
  rcases e.has_le with ⟨-, hnext, -⟩ | ⟨⟨-, hnext⟩, -⟩
  · exact Nat.le_of_eq hnext.symm
  · exact hnext ▸ Nat.le_succ _

theorem issued (e : Effect max places p g h g' h')
    (hissued : ∀ q id, g.owner id = some q → id < g.nextId) (q : PoolId) (id : Cid)
    (hown : g'.owner id = some q) : id < g'.nextId := by
  by_cases hne : id = g.nextId
  · rcases e.has_le with ⟨howner, hnext, -⟩ | ⟨⟨-, hnext⟩, -⟩
    · exact hnext ▸ hissued q id (howner ▸ hown)
    · exact hnext ▸ hne ▸ Nat.lt_succ_self _
  · exact Nat.lt_of_lt_of_le (hissued q id (e.owner_ne hne ▸ hown)) e.nextId_le

/-- A container that runs stays with the pool or the coroutine. -/
theorem running (e : Effect max places p g h g' h')
    (hfresh : ∀ x, h = .fresh x → g.status x ≠ .running) {id : Cid}
    (hrun : g'.status id = .running) :
    (g.status id = .running ∧ g'.owner id = g.owner id ∧ g.has p h id ≤ g'.has p h' id) ∨
    (h.container = some id ∧ h'.container = some id) := by
  cases e
  case lose x b hx hnot =>
    have hne : h.container ≠ some id := by
      rw [Hold.container_of_handOver hx]
      rintro ⟨⟩
      rcases hnot with hnot | hnot
      · exact hfresh id hnot hrun
      · exact hnot hrun
    refine Or.inl ⟨hrun, rfl, ?_⟩
    simp only [Shared.has, Shared.setPool_self, Pool.lock, hne, if_false, Nat.add_zero,
      Nat.le_add_right]
  case take x rest hidle =>
    exact Or.inl ⟨hrun, rfl, by simp [Shared.has, hidle, List.count_cons]⟩
  case destroy x o inUse hkept _ _ =>
    obtain ⟨hold, hself⟩ := Shared.running_of_destroy hrun
    have hne : x ≠ id := fun hx => hkept (hself hx.symm) (hx ▸ hold)
    refine Or.inl ⟨hold, ?_, by simp [Shared.has, Pool.decrement, hne]⟩
    simp [Shared.setPool]
  case create | createLost =>
    have hne : id ≠ g.nextId := by
      rintro rfl
      simp [Shared.create] at hrun
    refine Or.inl ⟨by simpa [Shared.create, hne] using hrun, ?_, ?_⟩
    · simp [Shared.create, hne]
    · simp [Shared.has, Shared.create]
  case start x _ =>
    by_cases hx : id = x
    · exact Or.inr ⟨by simp [hx], by simp [hx]⟩
    · refine Or.inl ⟨by simpa [Shared.setStatus, hx] using hrun, rfl, ?_⟩
      simp [Shared.has, Shared.setStatus]
  case remove | reap =>
    exact Or.inl ⟨(Shared.running_of_destroy hrun).1, by simp, by simp [Shared.has]⟩
  all_goals
    refine Or.inl ⟨hrun, rfl, ?_⟩
    simp [Shared.has, Shared.unlock, Pool.lock, Pool.discard, List.count_append,
      List.count_singleton]

/-- What the set `_in_use` has after a step, the coroutine has handed out, or it was there before
and has not come back. -/
theorem inUse_of (e : Effect max places p g h g' h') {id : Cid} (hid : id ∈ (g'.pools p).inUse) :
    h' = .user id ∨ (id ∈ (g.pools p).inUse ∧ h ≠ .user id) := by
  cases e
  case stay =>
    by_cases hu : h = .user id
    · exact Or.inl hu
    · exact Or.inr ⟨by simpa [Pool.lock] using hid, hu⟩
  case lose x b hx _ =>
    refine Or.inr ⟨by simpa [Pool.lock] using hid, ?_⟩
    rintro rfl
    cases hx
  case hand x b | register x =>
    simp only [Shared.setPool_self, List.mem_cons] at hid
    rcases hid with rfl | hid
    · exact Or.inl rfl
    · exact Or.inr ⟨hid, by simp⟩
  case release x =>
    simp only [Shared.setPool_self, Pool.discard, List.mem_filter, decide_eq_true_eq] at hid
    exact Or.inr ⟨hid.1, by simpa [eq_comm] using hid.2⟩
  case destroy x o inUse _ hsub _ =>
    simp only [Shared.setPool_self] at hid
    exact Or.inr ⟨hsub id hid, by simp⟩
  all_goals
    exact Or.inr
      ⟨by simpa [Shared.unlock, Shared.create, Shared.setStatus] using hid, by simp⟩

/-- Only a container of the coroutine leaves the set. -/
theorem inUse_stays (e : Effect max places p g h g' h') {id : Cid} (hid : id ∈ (g.pools p).inUse) :
    id ∈ (g'.pools p).inUse ∨ h.container = some id := by
  by_cases hc : h.container = some id
  · exact Or.inr hc
  refine Or.inl ?_
  cases e
  case release x =>
    simp only [Shared.setPool_self, Pool.discard, List.mem_filter, decide_eq_true_eq]
    exact ⟨hid, by simpa [eq_comm] using hc⟩
  case destroy x o inUse _ _ hsub =>
    rw [Shared.setPool_self]
    exact hsub id hid (by simpa [eq_comm] using hc)
  all_goals simp [Shared.unlock, Shared.create, Shared.setStatus, Pool.lock, hid]

theorem inUse_user (e : Effect max places p g h g' h') {id : Cid} (hold : h = .user id → id ∈ (g.pools p).inUse)
    (hid : h' = .user id) : id ∈ (g'.pools p).inUse := by
  subst hid
  cases e
  case stay => simpa [Pool.lock] using hold rfl
  all_goals simp

/-- A container that waits to be started does not run. -/
theorem fresh_of (e : Effect max places p g h g' h')
    (hfresh : ∀ x, h = .fresh x → g.status x ≠ .running) {id : Cid} (hid : h' = .fresh id) :
    g'.status id ≠ .running := by
  subst hid
  cases e
  case stay => exact hfresh id rfl
  case create => simp [Shared.create]

/-! A reaper takes for an orphan only what is in its list, and destroys only orphans. -/

theorem labelled_of (e : Effect max places p g h g' h') {id : Cid} (hid : id ∈ h'.labelled) :
    id ∈ h.labelled ∨ id < g.nextId := by
  cases e
  case stay => exact Or.inl hid
  case list hlt => exact Or.inr (hlt id hid)
  case spare | suspect => exact Or.inl (List.mem_cons_of_mem _ hid)
  all_goals cases hid

theorem orphans_of (e : Effect max places p g h g' h') {id : Cid} (hid : id ∈ h'.orphans) :
    id ∈ h.orphans ∨ (id ∈ h.labelled ∧ ∀ q ∈ g.owner id, places q id = 0) := by
  cases e
  case stay => exact Or.inl hid
  case spare => exact Or.inl hid
  case suspect x labelled orphans hnone =>
    rcases List.mem_append.mp hid with hid | hid
    · exact Or.inl hid
    · obtain rfl := List.mem_singleton.mp hid
      exact Or.inr ⟨List.mem_cons_self, hnone⟩
  case reap => exact Or.inl (List.mem_cons_of_mem _ hid)
  all_goals cases hid

theorem reaped_of (e : Effect max places p g h g' h') {id : Cid} (hid : id ∈ g'.reaped) :
    id ∈ g.reaped ∨ id ∈ h.orphans := by
  cases e
  case reap x orphans o =>
    rcases List.mem_cons.mp hid with rfl | hid
    · exact Or.inr List.mem_cons_self
    · exact Or.inl hid
  case remove x o => exact Or.inl (by simpa using hid)
  case destroy x o inUse _ _ _ => exact Or.inl (by simpa [Shared.setPool] using hid)
  all_goals exact Or.inl hid

end Effect

/-! ## The lock -/

theorem Shared.leaveWay_locked (g : Shared) (p : PoolId) (w : Way)
    (hlock : w = .slow → (g.pools p).locked = true) :
    ((g.leaveWay p w).pools p).locked.toNat + (decide (w = .slow)).toNat =
      (g.pools p).locked.toNat := by
  cases w with
  | slow => simp [Shared.leaveWay, Shared.unlock, hlock]
  | fast | waiting => simp [Shared.leaveWay]

theorem takeNext_locked {w : Way} (hlock : w = .slow → (g.pools l.pool).locked = true)
    (h : takeNext (config l.pool) g l w = some (g', l')) :
    (g'.pools l.pool).locked.toNat + (decide (w = .slow)).toNat =
      (g.pools l.pool).locked.toNat + l'.stage.locks.toNat := by
  simp only [takeNext] at h
  split at h
  next =>
    cases h
    simp [Coroutine.become]
  next =>
    cases w with
    | fast =>
        cases h
        simp [Coroutine.become]
    | slow =>
        dsimp only at h
        split at h
        · cases h
          simp [Coroutine.become]
        · cases h
          simp [Coroutine.become, Shared.unlock, hlock]
    | waiting => cases h

/-- The lock of a pool is with the pool or with a coroutine. -/
theorem next_locked (hlock : l.stage.locks = true → (g.pools l.pool).locked = true)
    (h : next config a g l = some (g', l')) :
    (g'.pools l.pool).locked.toNat + l.stage.locks.toNat =
      (g.pools l.pool).locked.toNat + l'.stage.locks.toNat := by
  obtain ⟨p, stage⟩ := l
  cases stage <;> cases a <;> try cases h
  case take.go w => exact takeNext_locked (by simpa using hlock) h
  case take.cancel w =>
    cases w <;> cases h
    simp [Coroutine.become]
  case take.timeout w =>
    cases w <;> cases h
    simp [Coroutine.become]
  case lockWait.go =>
    obtain ⟨hfree, h⟩ := Option.ite_none_left_eq_some.mp h
    cases h
    simpa [Coroutine.become] using hfree
  case warmLock.go =>
    obtain ⟨hfree, h⟩ := Option.ite_none_left_eq_some.mp h
    cases h
    simpa [Coroutine.become] using hfree
  case validating.answer w id ok =>
    cases ok with
    | false =>
        cases h
        simp [Coroutine.become]
    | true =>
        obtain ⟨-, h⟩ := Option.ite_none_right_eq_some.mp h
        cases h
        have := Shared.leaveWay_locked
          (g.setPool p { g.pools p with inUse := id :: (g.pools p).inUse }) p w
          (by simpa using hlock)
        simpa [Coroutine.become] using this
  case validating.cancel w id =>
    simpa [Coroutine.become] using g.leaveWay_locked p w (by simpa using hlock)
  case discarding.cancel w id =>
    simpa [Coroutine.become] using g.leaveWay_locked p w (by simpa using hlock)
  case discarding.destroyed w id o =>
    simp [Coroutine.become, Pool.decrement, Pool.discard]
  case creating.answer purpose ok =>
    have hheld : (g.pools p).locked = true := hlock rfl
    cases ok <;> cases h
    · cases purpose <;> simp [Coroutine.become, Purpose.fail, Shared.unlock, hheld]
    · simp [Coroutine.become, Shared.create]
  case creating.cancel purpose =>
    have hheld : (g.pools p).locked = true := hlock rfl
    simp [Coroutine.become, Shared.unlock, hheld]
  case starting.answer purpose id ok =>
    have hheld : (g.pools p).locked = true := hlock rfl
    cases ok with
    | false =>
        cases h
        cases purpose <;> simp [Coroutine.become, Purpose.fail, Shared.unlock, hheld]
    | true =>
        obtain ⟨-, h⟩ := Option.ite_none_right_eq_some.mp h
        cases h
        simp [Coroutine.become, Shared.setStatus]
  case starting.cancel purpose id =>
    have hheld : (g.pools p).locked = true := hlock rfl
    simp [Coroutine.become, Shared.unlock, hheld]
  case created.go purpose id =>
    have hheld : (g.pools p).locked = true := hlock rfl
    cases purpose <;> cases h <;> simp [Coroutine.become, hheld]
  case created.cancel purpose id =>
    have hheld : (g.pools p).locked = true := hlock rfl
    simp [Coroutine.become, Shared.unlock, hheld]
  case resetting.answer id ok => cases ok <;> cases h <;> simp [Coroutine.become]
  case warmStart.answer ok =>
    cases ok with
    | false =>
        cases h
        simp [Coroutine.become]
    | true =>
        dsimp only [next] at h
        split at h <;> cases h <;> simp [Coroutine.become]
  case warmLoop.go n =>
    have hheld : (g.pools p).locked = true := hlock rfl
    obtain ⟨rfl, rfl⟩ := Prod.ext_iff.mp (Option.some.inj h)
    simp only [warmNext]
    split <;> simp [Coroutine.become, Shared.unlock, hheld]
  case listing.answer by_ known ok =>
    cases ok <;> cases h <;> cases by_ <;> simp [Coroutine.become, Reaper.after]
  case inspecting.go by_ known labelled orphans =>
    cases labelled with
    | nil =>
        cases h
        simp [Coroutine.become]
    | cons id ids =>
        dsimp only [next] at h
        split at h <;> cases h <;> simp [Coroutine.become]
  case inspecting.answer by_ known labelled orphans ok =>
    cases labelled <;> cases ok <;> cases h <;> cases by_ <;> simp [Coroutine.become, Reaper.after]
  case inspecting.cancel by_ known labelled orphans =>
    cases labelled <;> cases h <;> simp [Coroutine.become]
  case inspecting.timeout by_ known labelled orphans => cases labelled <;> cases h
  case inspecting.destroyed by_ known labelled orphans o => cases labelled <;> cases h
  case killing.go by_ orphans =>
    cases orphans <;> cases h
    cases by_ <;> simp [Coroutine.become, Reaper.after]
  case killing.destroyed by_ orphans o =>
    cases orphans <;> cases h
    simp [Coroutine.become]
  case killing.cancel by_ orphans => cases orphans <;> cases h <;> simp [Coroutine.become]
  case killing.timeout by_ orphans => cases orphans <;> cases h
  case killing.answer by_ orphans ok => cases orphans <;> cases h
  case lostCreate.answer ok => cases ok <;> cases h <;> simp [Coroutine.become, Shared.create]
  case lostStart.answer id ok =>
    cases ok with
    | false =>
        cases h
        simp [Coroutine.become]
    | true =>
        obtain ⟨-, h⟩ := Option.ite_none_right_eq_some.mp h
        cases h
        simp [Coroutine.become, Shared.setStatus]
  all_goals simp [Coroutine.become, Pool.decrement, Pool.discard]

end Effects

end WarmPool

end CitraFlows
