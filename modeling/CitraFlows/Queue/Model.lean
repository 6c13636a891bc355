-- SUMMARY: The Redis-backed job queue: its keys, its commands, and the producer and consumer programs command by command.
import CitraFlows.Lib.Interleaving
import CitraFlows.Lib.RedisStream
import Mathlib.Algebra.Order.Field.Rat

/-!
# The job queue

Every queue has a stream with the consumer group `workers`, a retry ZSET and a dead-letter
stream; every job has a status hash. Producers and workers are programs over these keys;
each Redis command is one step, and so is each call of a job handler.
-/

namespace CitraFlows.Queue

open Interleaving RedisStream

/-! ## Jobs -/

/-- The JSON object in the `data` field of a stream entry. The queue never looks into the
payload, which stays JSON text here. -/
structure Blob where
  id : String
  handler : String
  payload : String
  queue : String
  enqueuedAt : Rat
  retries : Int
  maxRetries : Int
  tenantId : Option String
  requestId : Option String
  deriving DecidableEq

/-- A job; `streamId` is the delivery id of the entry in flight and not part of the JSON. -/
structure Job extends Blob where
  streamId : Option Nat
  deriving DecidableEq

structure Config where
  defaultMaxRetries : Int := 3
  claimMinIdleMs : Nat := 70 * 60 * 1000
  retryBackoffBaseSeconds : Rat := 5
  retryBackoffCapSeconds : Rat := 300
  retryBackoffJitter : Rat := 1 / 5
  /-- The handler names in the registry. -/
  registered : List String
  /-- The byte order of two JSON texts, by which a ZSET orders members of equal score. -/
  textLe : Blob → Blob → Bool

def defaultQueue : String := "default"

def Job.toJson (job : Job) : Blob := job.toBlob

/-- `x or default` keeps `x` unless it is falsy. -/
def Job.fromJson (cfg : Config) (now : Rat) (blob : Blob) (streamId : Nat) : Job where
  id := blob.id
  handler := blob.handler
  payload := blob.payload
  queue := if blob.queue = "" then defaultQueue else blob.queue
  enqueuedAt := if blob.enqueuedAt = 0 then now else blob.enqueuedAt
  retries := blob.retries
  maxRetries := if blob.maxRetries = 0 then cfg.defaultMaxRetries else blob.maxRetries
  tenantId := blob.tenantId
  requestId := blob.requestId
  streamId := some streamId

/-- Exponential backoff with jitter; `random` is the draw from `[0, 1)`. -/
def retryDelaySeconds (cfg : Config) (retries : Int) (random : Rat) : Rat :=
  let raw := min (cfg.retryBackoffBaseSeconds * 2 ^ (max 0 (retries - 1)).toNat)
    cfg.retryBackoffCapSeconds
  if cfg.retryBackoffJitter > 0 ∧ raw > 0 then
    let spread := raw * cfg.retryBackoffJitter
    max 0 (raw + (-spread + (spread - -spread) * random))
  else raw

/-! ## Redis -/

structure DeadLetter where
  data : Blob
  error : String

/-- The keys of the queue Redis. Two ghost fields record what has happened: the ids of the
jobs added by `enqueue`, and of those whose handler has returned. -/
structure State where
  /-- The clock, in milliseconds. -/
  now : Nat
  streams : String → Stream Blob
  retry : String → List (Blob × Rat)
  dlq : String → List DeadLetter
  jobs : String → String → Option String
  enqueued : List String
  succeeded : List String

def State.initial (now : Nat) : State where
  now := now
  streams := fun _ => Stream.empty
  retry := fun _ => []
  dlq := fun _ => []
  jobs := fun _ _ => none
  enqueued := []
  succeeded := []

/-- `time.time()` -/
def State.time (s : State) : Rat := (s.now : Rat) / 1000

namespace State

def setStream (s : State) (queue : String) (stream : Stream Blob) : State :=
  { s with streams := Function.update s.streams queue stream }

def setRetry (s : State) (queue : String) (members : List (Blob × Rat)) : State :=
  { s with retry := Function.update s.retry queue members }

section
variable (s : State) (queue : String) (stream : Stream Blob) (members : List (Blob × Rat))

@[simp] theorem setStream_streams :
    (s.setStream queue stream).streams = Function.update s.streams queue stream := rfl
@[simp] theorem setStream_retry : (s.setStream queue stream).retry = s.retry := rfl
@[simp] theorem setStream_dlq : (s.setStream queue stream).dlq = s.dlq := rfl
@[simp] theorem setStream_enqueued : (s.setStream queue stream).enqueued = s.enqueued := rfl
@[simp] theorem setStream_succeeded : (s.setStream queue stream).succeeded = s.succeeded := rfl
@[simp] theorem setRetry_streams : (s.setRetry queue members).streams = s.streams := rfl
@[simp] theorem setRetry_retry :
    (s.setRetry queue members).retry = Function.update s.retry queue members := rfl
@[simp] theorem setRetry_dlq : (s.setRetry queue members).dlq = s.dlq := rfl
@[simp] theorem setRetry_enqueued : (s.setRetry queue members).enqueued = s.enqueued := rfl
@[simp] theorem setRetry_succeeded : (s.setRetry queue members).succeeded = s.succeeded := rfl

end

/-- `XADD stream:queue * data blob` -/
def xadd (s : State) (queue : String) (blob : Blob) : State :=
  s.setStream queue ((s.streams queue).add blob)

/-- `ZREM retry:queue blob` -/
def zrem (s : State) (queue : String) (blob : Blob) : State :=
  s.setRetry queue ((s.retry queue).filter fun x => x.1 ≠ blob)

/-- A member enters a ZSET behind those of smaller score, or of equal score and smaller text. -/
def zinsert (cfg : Config) (x : Blob × Rat) : List (Blob × Rat) → List (Blob × Rat)
  | [] => [x]
  | y :: ys =>
      if x.2 < y.2 ∨ (x.2 = y.2 ∧ cfg.textLe x.1 y.1) then x :: y :: ys
      else y :: zinsert cfg x ys

theorem mem_zinsert (cfg : Config) (x a : Blob × Rat) (ys : List (Blob × Rat)) :
    a ∈ zinsert cfg x ys ↔ a = x ∨ a ∈ ys := by
  induction ys with
  | nil => simp [zinsert]
  | cons y ys ih =>
      simp only [zinsert]
      split
      · simp
      · simp only [List.mem_cons, ih]
        tauto

/-- `ZADD retry:queue score blob`: the score of a member that is there is changed. -/
def zadd (cfg : Config) (s : State) (queue : String) (blob : Blob) (score : Rat) : State :=
  s.setRetry queue (zinsert cfg (blob, score) ((s.retry queue).filter fun x => x.1 ≠ blob))

/-- The loop of the promotion script: each due member is added to the stream, then removed
from the ZSET. -/
def promote (s : State) (queue : String) : List Blob → State
  | [] => s
  | blob :: due => ((s.xadd queue blob).zrem queue blob).promote queue due

/-- `ZRANGEBYSCORE retry:queue -inf now LIMIT 0 limit` -/
def due (s : State) (queue : String) (now : Rat) (limit : Nat) : List Blob :=
  (((s.retry queue).filter fun x => x.2 ≤ now).take limit).map Prod.fst

/-- `XREADGROUP … COUNT 1 STREAMS … >`: the count holds for each stream. -/
def readStreams (s : State) (consumer : String) :
    List String → List (String × Entry Blob) × State
  | [] => ([], s)
  | queue :: queues =>
      let r := (s.streams queue).readGroup consumer s.now
      let rest := (s.setStream queue r.2).readStreams consumer queues
      match r.1 with
      | some entry => ((queue, entry) :: rest.1, rest.2)
      | none => rest

theorem readStreams_cons_snd (s : State) (consumer queue : String) (queues : List String) :
    (s.readStreams consumer (queue :: queues)).2 =
      ((s.setStream queue ((s.streams queue).readGroup consumer s.now).2).readStreams
        consumer queues).2 := by
  simp only [readStreams]
  split <;> rfl

/-- An entry that is read comes from the first stream, or from one of the others. -/
theorem mem_readStreams_cons {s : State} {consumer queue : String} {queues : List String}
    {d : String × Entry Blob} (hd : d ∈ (s.readStreams consumer (queue :: queues)).1) :
    d ∈ ((s.setStream queue ((s.streams queue).readGroup consumer s.now).2).readStreams
      consumer queues).1 ∨
      ∃ e, ((s.streams queue).readGroup consumer s.now).1 = some e ∧ d = (queue, e) := by
  simp only [readStreams] at hd
  split at hd
  next e he =>
    rcases List.mem_cons.mp hd with rfl | hd
    · exact Or.inr ⟨e, he, rfl⟩
    · exact Or.inl hd
  · exact Or.inl hd

end State

/-! ## Commands -/

/-- Who acknowledges an entry. -/
inductive Caller where
  | markDone
  | markFailed
  | claimStale
  deriving DecidableEq

inductive Outcome where
  | returned (result : String)
  | permanentFailure (error : String)
  | exception (error : String)

inductive Command where
  | time
  | random
  | xgroupCreate (queue : String)
  | hset (jobId : String) (mapping : List (String × String))
  | expire (jobId : String)
  | setResult (jobId : String)
  | xadd (queue : String) (data : Blob)
  | promote (queue : String) (now : Rat) (limit : Nat)
  | xreadgroup (queues : List String) (consumer : String)
  | xautoclaim (queue consumer : String) (count : Nat)
  | xpendingRange (queue : String) (count : Nat)
  | xack (caller : Caller) (queue : String) (id : Nat)
  | xdel (queue : String) (id : Nat)
  | xaddDlq (queue : String) (data : Blob) (error : String)
  | zadd (queue : String) (data : Blob) (score : Rat)
  | handle (job : Job)

abbrev Command.Answer : Command → Type
  | .time | .random => Rat
  | .xreadgroup _ _ => List (String × Entry Blob)
  | .xautoclaim _ _ _ => List (Entry Blob)
  | .xpendingRange _ _ => List PendingEntry
  | .handle _ => Outcome
  | _ => Unit

/-- What the queue does not decide: how a handler ends, and a random draw. -/
structure Choice where
  outcome : Outcome := .returned "null"
  draw : Rat := 0

/-- One command. Expiry of a status hash and the result signal change nothing the queue
reads. -/
def Command.run (cfg : Config) : (c : Command) → Choice → State → c.Answer × State
  | .time, _, s => (s.time, s)
  | .random, w, s => (if 0 ≤ w.draw ∧ w.draw < 1 then w.draw else 0, s)
  | .xgroupCreate queue, _, s => ((), s.setStream queue (s.streams queue).createGroup)
  | .hset jobId mapping, _, s =>
      ((), { s with
        jobs := Function.update s.jobs jobId
          (mapping.foldl (fun hash f => Function.update hash f.1 (some f.2)) (s.jobs jobId)) })
  | .expire _, _, s => ((), s)
  | .setResult _, _, s => ((), s)
  | .xadd queue data, _, s =>
      ((), { s.xadd queue data with enqueued := data.id :: s.enqueued })
  | .promote queue now limit, _, s => ((), s.promote queue (s.due queue now limit))
  | .xreadgroup queues consumer, _, s => s.readStreams consumer queues
  | .xautoclaim queue consumer count, _, s =>
      let r := (s.streams queue).autoClaim consumer cfg.claimMinIdleMs s.now count
      (r.1, s.setStream queue r.2)
  | .xpendingRange queue count, _, s => ((s.streams queue).pendingRange count, s)
  | .xack _ queue id, _, s => ((), s.setStream queue ((s.streams queue).ack id))
  | .xdel queue id, _, s => ((), s.setStream queue ((s.streams queue).del id))
  | .xaddDlq queue data error, _, s =>
      ((), { s with dlq := Function.update s.dlq queue (s.dlq queue ++ [⟨data, error⟩]) })
  | .zadd queue data score, _, s => ((), s.zadd cfg queue data score)
  | .handle job, w, s =>
      match w.outcome with
      | .returned result => (.returned result, { s with succeeded := job.id :: s.succeeded })
      | .permanentFailure error => (.permanentFailure error, s)
      | .exception error => (.exception error, s)

abbrev Program := Prog Command Command.Answer

abbrev perform (c : Command) : Program c.Answer := Prog.perform c

/-! ## Producer -/

/-- `enqueue`; `id` is the fresh `uuid4().hex`. -/
def enqueue (id handler payload queue : String) (tenantId requestId : Option String)
    (maxRetries : Int) : Program Unit := do
  let now ← perform .time
  let job : Job := {
    id, handler, payload, queue, enqueuedAt := now, retries := 0, maxRetries, tenantId,
    requestId, streamId := none }
  perform (.xgroupCreate queue)
  perform (.hset job.id [("id", job.id), ("handler", job.handler), ("status", "queued"),
    ("queue", queue), ("tenant_id", tenantId.getD ""), ("request_id", requestId.getD "")])
  perform (.expire job.id)
  perform (.xadd queue job.toJson)

/-! ## Consumer -/

section
variable (cfg : Config)

def parseEntries (now : Rat) (entries : List (Entry Blob)) : List Job :=
  entries.map fun e => Job.fromJson cfg now e.value e.id

def promoteDueRetries (queues : List String) : Program Unit := do
  let now ← perform .time
  Prog.forEach queues fun q => perform (.promote q now 256)

/-- The streams read are the keys of a dict, so a queue listed twice is read once. Of the
entries delivered the first one is returned. -/
def consumeOne (queues : List String) (consumer : String) : Program (Option Job) := do
  Prog.forEach queues fun q => perform (.xgroupCreate q)
  promoteDueRetries queues
  let resp ← perform (.xreadgroup queues.eraseDups consumer)
  let now ← perform .time
  return (parseEntries cfg now (resp.map Prod.snd)).head?

/-- `_ack`: `XACK`, then `XDEL`, on behalf of `caller`. -/
def ackEntry (caller : Caller) (queue : String) : Option Nat → Program Unit
  | none => pure ()
  | some id => do
      perform (.xack caller queue id)
      perform (.xdel queue id)

/-- The deliveries of an entry, as `XPENDING` reported them: 1 where it did not. -/
def timesDelivered (pending : List PendingEntry) (job : Job) : Nat :=
  match pending.find? fun p => some p.id = job.streamId with
  | some p => if p.deliveries = 0 then 1 else p.deliveries
  | none => 1

/-- A job delivered more often than its retry budget allows goes to the dead-letter stream,
then it is acknowledged. -/
def deadLetterCrashLoop (queue : String) (job : Job) (times : Nat) : Program Unit := do
  perform (.xaddDlq queue job.toJson ("reclaimed " ++ toString times ++
    "x (worker-crash loop) > max_retries=" ++ toString job.maxRetries))
  ackEntry .claimStale queue job.streamId
  perform (.hset job.id [("status", "failed"), ("retries", toString times),
    ("last_error", "worker-crash loop exceeded max_retries")])
  perform (.setResult job.id)

/-- The jobs of a claim that go back to a worker. -/
def retireCrashLoops (queue : String) (pending : List PendingEntry) :
    List Job → Program (List Job)
  | [] => return []
  | job :: jobs =>
      if (timesDelivered pending job : Int) > max 1 job.maxRetries then do
        deadLetterCrashLoop queue job (timesDelivered pending job)
        retireCrashLoops queue pending jobs
      else do
        let claimed ← retireCrashLoops queue pending jobs
        return job :: claimed

/-- The loop of `claim_stale` over the queues. -/
def claimQueues (consumer : String) : List String → Program (List Job)
  | [] => return []
  | queue :: queues => do
      perform (.xgroupCreate queue)
      let entries ← perform (.xautoclaim queue consumer 16)
      let pending ← perform (.xpendingRange queue 16)
      let now ← perform .time
      let claimed ← retireCrashLoops queue pending (parseEntries cfg now entries)
      let rest ← claimQueues consumer queues
      return claimed ++ rest

def claimStale (queues : List String) (consumer : String) : Program (List Job) := do
  promoteDueRetries queues
  claimQueues cfg consumer queues

def markRunning (job : Job) : Program Unit := do
  perform (.hset job.id [("status", "running"), ("retries", toString job.retries)])
  perform (.expire job.id)

def markDone (job : Job) (result : String) : Program Unit := do
  perform (.hset job.id [("status", "done"), ("result", result)])
  perform (.expire job.id)
  ackEntry .markDone job.queue job.streamId
  perform (.setResult job.id)

/-- `error[:1000]` -/
def truncateError (error : String) : String := String.ofList (error.toList.take 1000)

/-- Park the job until its backoff delay has elapsed. -/
def park (job : Job) : Program Unit := do
  let now ← perform .time
  let random ← perform .random
  perform (.zadd job.queue job.toJson (now + retryDelaySeconds cfg job.retries random))

def deadLetter (job : Job) (error : String) : Program Unit := do
  perform (.xaddDlq job.queue job.toJson (truncateError error))
  perform (.setResult job.id)

/-- Where a failed job goes. -/
def settle (job : Job) (error : String) (willRetry : Bool) : Program Unit :=
  if willRetry then park cfg job else deadLetter job error

/-- The entry is acknowledged first; only then the job is parked or dead-lettered. -/
def markFailed (job : Job) (error : String) (permanent : Bool) : Program Bool := do
  let job := { job with retries := job.retries + 1 }
  let willRetry := !permanent && decide (job.retries < job.maxRetries)
  perform (.hset job.id [("status", if willRetry then "queued" else "failed"),
    ("retries", toString job.retries), ("last_error", truncateError error)])
  perform (.expire job.id)
  ackEntry .markFailed job.queue job.streamId
  settle cfg job error willRetry
  return willRetry

/-! ## Worker -/

/-- `_process_job` -/
def processJob (job : Job) : Program Unit :=
  if job.handler ∈ cfg.registered then do
    markRunning job
    let outcome ← perform (.handle job)
    match outcome with
    | .returned result => markDone job result
    | .permanentFailure error => do
        let _ ← markFailed cfg job error true
    | .exception error => do
        let _ ← markFailed cfg job error false
  else do
    let _ ← markFailed cfg job
      ("no handler registered for '" ++ job.handler ++ "'") true

/-- One round of `_worker_loop`. -/
def workerRound (queues : List String) (consumer : String) : Program Unit := do
  let job ← consumeOne cfg queues consumer
  match job with
  | none => pure ()
  | some job => processJob cfg job

/-- One round of `_reclaim_loop`. -/
def reclaimRound (queues : List String) (consumer : String) : Program Unit := do
  let reclaimed ← claimStale cfg queues consumer
  Prog.forEach reclaimed (processJob cfg)

/-- Producers and worker processes: any number of them, on any queues with a name. -/
inductive Starts : Program Unit → Prop where
  | enqueue (id handler payload queue : String) (tenantId requestId : Option String)
      (maxRetries : Int) : Starts (enqueue id handler payload queue tenantId requestId maxRetries)
  | worker (queues : List String) (consumer : String) (h : "" ∉ queues) :
      Starts (workerRound cfg queues consumer)
  | reclaim (queues : List String) (consumer : String) (h : "" ∉ queues) :
      Starts (reclaimRound cfg queues consumer)

/-- The queue and its processes; the state drifts by the passing of time. -/
def system : System State Command Command.Answer Choice where
  run := Command.run cfg
  starts := fun _ p => Starts cfg p
  drift := fun s s' => ∃ now, s.now ≤ now ∧ s' = { s with now := now }

end

end CitraFlows.Queue
