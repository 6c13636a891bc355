-- SUMMARY: The warm container pool: the coroutines of any number of pools that share one Docker host, await by await.
import CitraFlows.Lib.Processes
import Mathlib.Logic.Function.Basic

/-!
# The warm container pool

A pool keeps the containers that wait in a queue, the ids of those that were handed out, the
number it has created, and a lock under which it grows. Between two awaits a coroutine runs
alone; whatever it does with the Docker host it awaits in a thread, so each operation on the
host is a step of its own. A coroutine that is cancelled ends at its await, but a thread that
it waits for goes on.

Not modelled: `shutdown`.
-/

namespace CitraFlows

open Processes

namespace WarmPool

abbrev PoolId := Nat

abbrev Cid := Nat

/-! ## The host and the pools -/

/-- The status of a container; `absent` is one that was never created, or was removed. -/
inductive Status where
  | absent
  | created
  | running
  | exited
  deriving DecidableEq

/-- What `__init__` makes of the sizes. -/
structure PoolConfig where
  minSize : Nat := 1
  maxSize : Nat := 4
  min_le_max : minSize ≤ maxSize := by decide

structure Pool where
  idle : List Cid := []
  created : Nat := 0
  /-- The elements of the set `_in_use`. -/
  inUse : List Cid := []
  /-- `_grow_lock` is held. -/
  locked : Bool := false

/-- The Docker host and the pools. The label `citra.owner` of a container never changes; `none` is
that of an earlier run. `reaped` has the containers that a reaper went on to destroy. -/
structure Shared where
  status : Cid → Status := fun _ => .absent
  owner : Cid → Option PoolId := fun _ => none
  nextId : Cid := 0
  pools : PoolId → Pool := fun _ => {}
  reaped : List Cid := []

namespace Shared

def setStatus (g : Shared) (id : Cid) (status : Status) : Shared :=
  { g with status := Function.update g.status id status }

def setPool (g : Shared) (p : PoolId) (pool : Pool) : Shared :=
  { g with pools := Function.update g.pools p pool }

/-- `containers.create`, with the labels of the pool. -/
def create (g : Shared) (p : PoolId) : Shared :=
  { g with
    status := Function.update g.status g.nextId .created
    owner := Function.update g.owner g.nextId (some p)
    nextId := g.nextId + 1 }

def unlock (g : Shared) (p : PoolId) : Shared :=
  g.setPool p { g.pools p with locked := false }

end Shared

/-- How `_destroy` ends: the container is removed; it is only stopped, or only no longer there to
be removed; or nothing came of it. -/
inductive Destroyed where
  | removed
  | stopped
  | kept
  deriving DecidableEq

/-- `_destroy(container)` -/
def Shared.destroy (g : Shared) (id : Cid) : Destroyed → Shared
  | .removed => g.setStatus id .absent
  | .stopped => if g.status id = .running then g.setStatus id .exited else g
  | .kept => g

/-! ## Coroutines -/

/-- Where `acquire` looks for an idle container: before the lock, under it, or waiting. -/
inductive Way where
  | fast
  | slow
  | waiting
  deriving DecidableEq

/-- Who creates a container under the lock: `acquire`, or `warmup` after so many. -/
inductive Purpose where
  | acquire
  | warmup (createdNow : Nat)
  deriving DecidableEq

/-- Who reaps: the first `warmup`, the periodic reaper, or a thread whose coroutine is gone. -/
inductive Reaper where
  | warmup
  | periodic
  | thread
  deriving DecidableEq

/-- The next thing a coroutine does, or what it awaits. -/
inductive Stage where
  /-- `self._idle.get_nowait()`, or `self._idle.get()` -/
  | take (w : Way)
  | lockWait
  /-- `_validate_alive`: awaits `_is_alive` -/
  | validating (w : Way) (id : Cid)
  /-- `_validate_alive`: awaits `_destroy` of a container that is not alive -/
  | discarding (w : Way) (id : Cid)
  /-- `_create_container_sync`, before the container is created and before it is started -/
  | creating (for_ : Purpose)
  | starting (for_ : Purpose) (id : Cid)
  /-- The thread is done, the coroutine has not gone on. -/
  | created (for_ : Purpose) (id : Cid)
  /-- `acquire` has returned the container to its caller. -/
  | using (id : Cid)
  /-- `release`: awaits `_reset_workspace`, or `_destroy` after that -/
  | resetting (id : Cid)
  | destroying (id : Cid)
  | warmStart
  | warmLock
  | warmLoop (createdNow : Nat)
  | reapSleep
  /-- `_reap_orphans(known_ids)`: before the list, over the containers of the list, over the
  orphans among them -/
  | listing (by_ : Reaper) (known : List Cid)
  | inspecting (by_ : Reaper) (known labelled orphans : List Cid)
  | killing (by_ : Reaper) (orphans : List Cid)
  /-- Threads whose coroutine is gone. -/
  | lostCreate
  | lostStart (id : Cid)
  | lostDestroy (id : Cid)
  | ended
  deriving DecidableEq

structure Coroutine where
  pool : PoolId
  stage : Stage
  deriving DecidableEq

def Coroutine.become (l : Coroutine) (stage : Stage) : Coroutine := { l with stage }

/-- What happens to a coroutine: it goes on, is cancelled at its await, times out, or the thread
it awaits comes back with an answer. -/
inductive Input where
  | go
  | cancel
  | timeout
  | answer (ok : Bool)
  | destroyed (o : Destroyed)
  deriving DecidableEq

/-! ## Steps -/

/-- The lock that `acquire` holds on its way. -/
def Shared.leaveWay (g : Shared) (p : PoolId) : Way → Shared
  | .slow => g.unlock p
  | .fast | .waiting => g

/-- What follows a creation that has failed: the lock is released. -/
def Purpose.fail : Purpose → Stage
  | .acquire => .take .waiting
  | .warmup _ => .ended

/-- `self._created = max(0, self._created - 1)` -/
def Pool.decrement (pool : Pool) : Pool := { pool with created := pool.created - 1 }

def Pool.discard (pool : Pool) (id : Cid) : Pool :=
  { pool with inUse := pool.inUse.filter (· ≠ id) }

/-- The lookup of an idle container. -/
def takeNext (config : PoolConfig) (g : Shared) (l : Coroutine) (w : Way) :
    Option (Shared × Coroutine) :=
  let pool := g.pools l.pool
  match pool.idle with
  | id :: rest => some (g.setPool l.pool { pool with idle := rest }, l.become (.validating w id))
  | [] =>
      match w with
      | .fast => some (g, l.become .lockWait)
      | .slow =>
          if pool.created < config.maxSize then some (g, l.become (.creating .acquire))
          else some (g.unlock l.pool, l.become (.take .waiting))
      | .waiting => none

/-- `self._created += 1`, and the container is handed out or queued. -/
def register (g : Shared) (l : Coroutine) (id : Cid) : Purpose → Shared × Coroutine
  | .acquire =>
      let pool := g.pools l.pool
      (g.setPool l.pool
        { pool with created := pool.created + 1, inUse := id :: pool.inUse, locked := false },
        l.become (.using id))
  | .warmup n =>
      let pool := g.pools l.pool
      (g.setPool l.pool { pool with created := pool.created + 1, idle := pool.idle ++ [id] },
        l.become (.warmLoop (n + 1)))

/-- `while …` of `warmup`, under the lock. -/
def warmNext (config : PoolConfig) (g : Shared) (l : Coroutine) (createdNow : Nat) :
    Shared × Coroutine :=
  let pool := g.pools l.pool
  if pool.idle.length + createdNow < config.minSize ∧ pool.created < config.maxSize then
    (g, l.become (.creating (.warmup createdNow)))
  else (g.unlock l.pool, l.become .ended)

/-- What follows `_reap_orphans`. -/
def Reaper.after : Reaper → Stage
  | .warmup => .warmLock
  | .periodic => .reapSleep
  | .thread => .ended

/-- An id of the list is that of an orphan, by the labels and the status that the list gives. -/
def isOrphan (g : Shared) (p : PoolId) (known : List Cid) (id : Cid) : Bool :=
  id ∉ known && (g.owner id = some p || g.status id ≠ .running)

/-- What a coroutine does on an input at its await; `none` if that cannot happen there. -/
def next (config : PoolId → PoolConfig) (a : Input) (g : Shared) (l : Coroutine) :
    Option (Shared × Coroutine) :=
  let p := l.pool
  let pool := g.pools p
  match l.stage, a with
  | .take w, .go => takeNext (config p) g l w
  | .take .waiting, .timeout => some (g, l.become .ended)
  | .take .waiting, .cancel => some (g, l.become .ended)
  | .lockWait, .go =>
      if pool.locked then none
      else some (g.setPool p { pool with locked := true }, l.become (.take .slow))
  | .lockWait, .cancel => some (g, l.become .ended)
  | .validating w id, .answer true =>
      if g.status id = .running then
        some ((g.setPool p { pool with inUse := id :: pool.inUse }).leaveWay p w,
          l.become (.using id))
      else none
  | .validating w id, .answer false => some (g, l.become (.discarding w id))
  | .validating w _, .cancel => some (g.leaveWay p w, l.become .ended)
  | .discarding w id, .destroyed o =>
      some ((g.destroy id o).setPool p (pool.discard id).decrement, l.become (.take w))
  | .discarding w id, .cancel => some (g.leaveWay p w, l.become (.lostDestroy id))
  | .creating purpose, .answer true => some (g.create p, l.become (.starting purpose g.nextId))
  | .creating purpose, .answer false => some (g.unlock p, l.become purpose.fail)
  | .creating _, .cancel => some (g.unlock p, l.become .lostCreate)
  | .starting purpose id, .answer true =>
      if g.status id = .created then
        some (g.setStatus id .running, l.become (.created purpose id))
      else none
  | .starting purpose _, .answer false => some (g.unlock p, l.become purpose.fail)
  | .starting _ id, .cancel => some (g.unlock p, l.become (.lostStart id))
  | .created purpose id, .go => some (register g l id purpose)
  | .created _ _, .cancel => some (g.unlock p, l.become .ended)
  | .using id, .go => some (g.setPool p (pool.discard id), l.become (.resetting id))
  | .resetting id, .answer true =>
      some (g.setPool p { pool with idle := pool.idle ++ [id] }, l.become .ended)
  | .resetting id, .answer false => some (g, l.become (.destroying id))
  | .resetting _, .cancel => some (g, l.become .ended)
  | .destroying id, .destroyed o =>
      some ((g.destroy id o).setPool p pool.decrement, l.become .ended)
  | .destroying id, .cancel => some (g, l.become (.lostDestroy id))
  | .warmStart, .answer false => some (g, l.become .ended)
  | .warmStart, .answer true =>
      if pool.created = 0 ∧ pool.idle = [] then some (g, l.become (.listing .warmup []))
      else some (g, l.become .warmLock)
  | .warmStart, .cancel => some (g, l.become .ended)
  | .warmLock, .go =>
      if pool.locked then none
      else some (g.setPool p { pool with locked := true }, l.become (.warmLoop 0))
  | .warmLock, .cancel => some (g, l.become .ended)
  | .warmLoop n, .go => some (warmNext (config p) g l n)
  | .reapSleep, .go => some (g, l.become (.listing .periodic (pool.inUse ++ pool.idle)))
  | .reapSleep, .cancel => some (g, l.become .ended)
  | .listing by_ known, .answer true =>
      some (g, l.become (.inspecting by_ known
        ((List.range g.nextId).filter fun id => g.status id ≠ .absent) []))
  | .listing by_ _, .answer false => some (g, l.become by_.after)
  | .listing _ known, .cancel => some (g, l.become (.listing .thread known))
  | .inspecting by_ known (id :: ids) orphans, .go =>
      -- a container that is gone by now is left out of the list
      if g.status id ≠ .absent ∧ isOrphan g p known id then
        some (g, l.become (.inspecting by_ known ids (orphans ++ [id])))
      else some (g, l.become (.inspecting by_ known ids orphans))
  | .inspecting by_ _ [] orphans, .go => some (g, l.become (.killing by_ orphans))
  | .inspecting by_ _ _ _, .answer false => some (g, l.become by_.after)
  | .inspecting _ known ids orphans, .cancel =>
      some (g, l.become (.inspecting .thread known ids orphans))
  | .killing by_ (id :: ids), .destroyed o =>
      some ({ g.destroy id o with reaped := id :: g.reaped }, l.become (.killing by_ ids))
  | .killing by_ [], .go => some (g, l.become by_.after)
  | .killing _ orphans, .cancel => some (g, l.become (.killing .thread orphans))
  | .lostCreate, .answer true => some (g.create p, l.become (.lostStart g.nextId))
  | .lostCreate, .answer false => some (g, l.become .ended)
  | .lostStart id, .answer true =>
      if g.status id = .created then some (g.setStatus id .running, l.become .ended) else none
  | .lostStart _, .answer false => some (g, l.become .ended)
  | .lostDestroy id, .destroyed o => some (g.destroy id o, l.become .ended)
  | _, _ => none

/-- How a coroutine starts. -/
inductive Start where
  | acquire
  | warmup
  | reaper
  deriving DecidableEq

def Start.stage : Start → Stage
  | .acquire => .take .fast
  | .warmup => .warmStart
  | .reaper => .reapSleep

/-- A container that runs stops by itself. -/
def dies (g : Shared) (id : Cid) : Option Shared :=
  if g.status id = .running then some (g.setStatus id .exited) else none

/-- Any number of pools, each with any number of coroutines. -/
def system (config : PoolId → PoolConfig) :
    System Shared Coroutine (PoolId × Start) Input Cid where
  spawn _ x g := some (g, ⟨x.1, x.2.stage⟩)
  step _ a g l := next config a g l
  env id g := dies g id

abbrev Run := Configuration Shared Coroutine

end WarmPool

end CitraFlows
