-- SUMMARY: The worker process: its loops command by command, every command may fail, and what keeps a loop alive.
import CitraFlows.Lib.Processes
import CitraFlows.Lib.Raising
import CitraFlows.Queue.Model
import CitraFlows.Queue.Reads

/-!
# The loops of a worker process

A worker process runs worker loops and a reclaim loop until `_stopped` is set. Here any command
may fail on any round, a handler may end in any way, and Redis may answer anything; a loop is left
when its round says so, and it dies of an exception that no `try` of the round catches.
-/

namespace CitraFlows.WorkerLoops

open Interleaving RedisStream
open QueueReads (Job Fields)
open Raising (raise attempt tryFinally forEach Finishes Raises)

/-! ## Commands -/

/-- A Python exception; `base` is one that is not an `Exception`. -/
inductive Exc where
  | permanentFailure (text : String)
  | exception (text : String)
  | base

/-- Which function of the queue talks to Redis. -/
inductive Site where
  | consumeOne
  | claimStale
  | markRunning
  | markDone
  | markFailed
  deriving DecidableEq

inductive RedisCommand where
  | connect
  | aclose
  | xgroupCreate (queue : String)
  | promote (queue : String) (now : Nat) (limit : Nat)
  | xreadgroup (queues : List String) (consumer : String)
  | xautoclaim (queue consumer : String) (count : Nat)
  | xpendingRange (queue : String) (count : Nat)
  | xaddDlq (queue : String) (data error : String)
  | xack (queue : String) (id : Nat)
  | xdel (queue : String) (id : Nat)
  | hset (jobId : String) (mapping : List (String × String))
  | expire (jobId : String)
  | setResult (jobId : String)
  | zadd (queue : String) (data : String) (score : Rat)

abbrev RedisCommand.Answer : RedisCommand → Type
  | .xreadgroup _ _ => List (String × Entry Fields)
  | .xautoclaim _ _ _ => List (Entry Fields)
  | .xpendingRange _ _ => List PendingEntry
  | _ => Unit

inductive Command where
  | isStopped
  /-- `asyncio.wait_for(_stopped.wait(), timeout)`: whether the flag came before the timeout. -/
  | waitStopped
  | sleep
  /-- `time.time()`, in milliseconds. -/
  | time
  | random
  | registryGet (handler : Value)
  | handle (job : Job)
  /-- `json.dumps(result, default=str)` of what the handler returned. -/
  | dumpsResult
  /-- `job.to_json()`; a handler may have changed the payload. -/
  | toJson (site : Site) (job : Job)
  | redis (site : Site) (c : RedisCommand)

abbrev Command.Answer : Command → Type
  | .isStopped | .waitStopped | .registryGet _ => Bool
  | .time => Nat
  | .random => Rat
  | .dumpsResult | .toJson _ _ => String
  | .redis _ c => c.Answer
  | _ => Unit

abbrev Program := Raising Command (fun c => Except Exc c.Answer) Exc

def perform (c : Command) : Program c.Answer := Raising.perform c

/-- `try: p except Exception: handler` -/
def exceptException {α : Type} (p handler : Program α) : Program α := do
  match ← attempt p with
  | .ok a => return a
  | .error .base => raise .base
  | .error _ => handler

/-! ## Consuming -/

structure Config extends Queue.Config where
  reads : QueueReads.Config
  queues : List String
  consumer : String

section
variable (cfg : Config)

def redis (site : Site) (c : RedisCommand) : Program c.Answer := perform (.redis site c)

/-- A queue whose retries cannot be promoted is passed over. -/
def promoteDueRetries (site : Site) (queues : List String) : Program Unit := do
  let now ← perform .time
  forEach queues fun q => exceptException (redis site (.promote q now 256)) (pure ())

def consumeOne : Program (Option Job) := do
  redis .consumeOne .connect
  let resp ← tryFinally
    (do
      forEach cfg.queues fun q => redis .consumeOne (.xgroupCreate q)
      promoteDueRetries .consumeOne cfg.queues
      redis .consumeOne (.xreadgroup cfg.queues.eraseDups cfg.consumer))
    (redis .consumeOne .aclose)
  let now ← perform .time
  return (QueueReads.firstJob cfg.reads now resp).map Prod.snd

/-- The deliveries of an entry, as `XPENDING` reported them: 1 where it did not. -/
def timesDelivered (pending : List PendingEntry) (job : Job) : Nat :=
  match pending.find? fun p => p.id = job.streamId with
  | some p => if p.deliveries = 0 then 1 else p.deliveries
  | none => 1

def deadLetterCrashLoop (queue : String) (job : Job) (times : Nat) : Program Unit := do
  let data ← perform (.toJson .claimStale job)
  redis .claimStale (.xaddDlq queue data ("reclaimed " ++ toString times ++
    "x (worker-crash loop) > max_retries=" ++ toString job.maxRetries))
  redis .claimStale (.xack queue job.streamId)
  redis .claimStale (.xdel queue job.streamId)
  redis .claimStale (.hset job.id.text [("status", "failed"), ("retries", toString times),
    ("last_error", "worker-crash loop exceeded max_retries")])
  redis .claimStale (.setResult job.id.text)

/-- The jobs of a claim that go back to a worker; one that cannot be dead-lettered does. -/
def retireCrashLoops (queue : String) (pending : List PendingEntry) :
    List Job → Program (List Job)
  | [] => return []
  | job :: jobs =>
      if (timesDelivered pending job : Int) > max 1 job.maxRetries then do
        let claimed ← exceptException
          (do
            deadLetterCrashLoop queue job (timesDelivered pending job)
            return [])
          (pure [job])
        let rest ← retireCrashLoops queue pending jobs
        return claimed ++ rest
      else do
        let rest ← retireCrashLoops queue pending jobs
        return job :: rest

/-- The loop of `claim_stale` over the queues. -/
def claimQueues : List String → Program (List Job)
  | [] => return []
  | queue :: queues => do
      redis .claimStale (.xgroupCreate queue)
      let entries ← redis .claimStale (.xautoclaim queue cfg.consumer 16)
      let pending ← exceptException (redis .claimStale (.xpendingRange queue 16)) (pure [])
      let now ← perform .time
      let claimed ← retireCrashLoops queue pending
        (entries.filterMap (QueueReads.parseEntry cfg.reads now))
      let rest ← claimQueues queues
      return claimed ++ rest

def claimStale : Program (List Job) := do
  redis .claimStale .connect
  tryFinally
    (do
      promoteDueRetries .claimStale cfg.queues
      claimQueues cfg cfg.queues)
    (redis .claimStale .aclose)

/-! ## Bookkeeping -/

/-- `_ack`: a failure is logged. -/
def ack (site : Site) (job : Job) : Program Unit :=
  exceptException
    (do
      redis site (.xack job.queue.text job.streamId)
      redis site (.xdel job.queue.text job.streamId))
    (pure ())

def markRunning (job : Job) : Program Unit := do
  redis .markRunning .connect
  tryFinally
    (do
      redis .markRunning (.hset job.id.text
        [("status", "running"), ("retries", toString job.retries)])
      redis .markRunning (.expire job.id.text))
    (redis .markRunning .aclose)

def markDone (job : Job) : Program Unit := do
  redis .markDone .connect
  tryFinally
    (do
      let result ← perform .dumpsResult
      redis .markDone (.hset job.id.text [("status", "done"), ("result", result)])
      redis .markDone (.expire job.id.text)
      ack .markDone job
      redis .markDone (.setResult job.id.text))
    (redis .markDone .aclose)

/-- From `2 ** 1024` on an integer is too large for a float. -/
def delayOverflows (retries : Int) : Bool := 1024 ≤ max 0 (retries - 1)

def retryDelaySeconds (retries : Int) : Program Rat := do
  if delayOverflows retries then raise (.exception "int too large to convert to float")
  else
    let random ← perform .random
    return Queue.retryDelaySeconds cfg.toConfig retries random

/-- Whether a failed job is tried again; `retries` counts the failure already. -/
def retriesAgain (job : Job) (permanent : Bool) : Bool :=
  !permanent && decide (job.retries < job.maxRetries)

/-- Where a failed job goes. -/
def settle (job : Job) (error : String) (willRetry : Bool) : Program Unit := do
  if willRetry then
    let now ← perform .time
    let delay ← retryDelaySeconds cfg job.retries
    let data ← perform (.toJson .markFailed job)
    redis .markFailed (.zadd job.queue.text data ((now : Rat) / 1000 + delay))
  else
    let data ← perform (.toJson .markFailed job)
    redis .markFailed (.xaddDlq job.queue.text data (Queue.truncateError error))
    redis .markFailed (.setResult job.id.text)

def markFailed (job : Job) (error : String) (permanent : Bool) : Program Bool := do
  let job := { job with retries := job.retries + 1 }
  let willRetry := retriesAgain job permanent
  redis .markFailed .connect
  tryFinally
    (do
      redis .markFailed (.hset job.id.text [("status", if willRetry then "queued" else "failed"),
        ("retries", toString job.retries), ("last_error", Queue.truncateError error)])
      redis .markFailed (.expire job.id.text)
      ack .markFailed job
      settle cfg job error willRetry)
    (redis .markFailed .aclose)
  return willRetry

/-! ## Loops -/

/-- `_process_job` -/
def processJob (job : Job) : Program Unit := do
  if ← perform (.registryGet job.handler) then
    markRunning job
    match ← attempt (perform (.handle job)) with
    | .ok _ => markDone job
    | .error (.permanentFailure text) =>
        let _ ← markFailed cfg job text true
    | .error (.exception text) =>
        let _ ← markFailed cfg job text false
    | .error .base => raise .base
  else
    let _ ← markFailed cfg job ("no handler registered for '" ++ job.handler.text ++ "'") true

/-- How a round of a loop ends: the next one follows, the jobs of the batch it has passed over
being given, or the loop is left. -/
inductive RoundEnd where
  | next (passedOver : List Job)
  | left

/-- One round of `_worker_loop`. -/
def workerRound : Program RoundEnd := do
  if ← perform .isStopped then return .left
  else
    match ← attempt (consumeOne cfg) with
    | .error .base => raise .base
    | .error _ =>
        perform .sleep
        return .next []
    | .ok none => return .next []
    | .ok (some job) =>
        processJob cfg job
        return .next []

/-- The loop over the reclaimed jobs; the rest is passed over once the flag is set. -/
def processBatch : List Job → Program (List Job)
  | [] => return []
  | job :: jobs => do
      if ← perform .isStopped then return job :: jobs
      else
        processJob cfg job
        processBatch jobs

/-- One round of `_reclaim_loop`. -/
def reclaimRound : Program RoundEnd := do
  if ← perform .isStopped then return .left
  else if ← perform .waitStopped then return .left
  else
    match ← attempt (claimStale cfg) with
    | .error .base => raise .base
    | .error _ => return .next []
    | .ok reclaimed =>
        let rest ← processBatch cfg reclaimed
        return .next rest

/-! ## Answers -/

/-- What a command does not decide: whether it fails, what Redis or the clock says, how a handler
ends. -/
structure Choice where
  fails : Bool := false
  resp : List (String × Entry Fields) := []
  entries : List (Entry Fields) := []
  pending : List PendingEntry := []
  outcome : Except Exc Unit := .ok ()
  now : Nat := 0
  draw : Rat := 0
  text : String := ""

def RedisCommand.answer (w : Choice) : (c : RedisCommand) → c.Answer
  | .xreadgroup _ _ => w.resp
  | .xautoclaim _ _ _ => w.entries
  | .xpendingRange _ _ => w.pending
  | .connect | .aclose | .xgroupCreate _ | .promote _ _ _ | .xaddDlq _ _ _ | .xack _ _ | .xdel _ _
  | .hset _ _ | .expire _ | .setResult _ | .zadd _ _ _ => ()

/-- A list or a dict is not a key of the registry. -/
def hashable : Value → Bool
  | .list _ | .dict _ => false
  | _ => true

def Command.run (stopped : Bool) (w : Choice) : (c : Command) → Except Exc c.Answer
  | .isStopped => .ok stopped
  | .waitStopped => .ok stopped
  | .sleep => .ok ()
  | .time => .ok w.now
  | .random => .ok w.draw
  | .registryGet handler =>
      if hashable handler then .ok (cfg.registered.any handler.eqStr)
      else .error (.exception "unhashable type")
  | .handle _ => w.outcome
  | .dumpsResult =>
      if w.fails then .error (.exception "Object is not JSON serializable") else .ok w.text
  | .toJson _ _ =>
      if w.fails then .error (.exception "Object is not JSON serializable") else .ok w.text
  | .redis _ c =>
      if w.fails then .error (.exception "Error while reading from socket") else .ok (c.answer w)

/-! ## Tasks -/

inductive Loop where
  | worker (idx : Nat)
  | reclaim

def Loop.round : Loop → Program RoundEnd
  | .worker _ => workerRound cfg
  | .reclaim => reclaimRound cfg

/-- A loop in the middle of a round, with the reclaimed jobs it has passed over so far. -/
inductive Task where
  | running (loop : Loop) (rest : Program RoundEnd) (passedOver : List Job)
  | left (passedOver : List Job)
  | died

/-- One command, or the end of a round. -/
def Task.step (w : Choice) (stopped : Bool) : Task → Option (Bool × Task)
  | .running loop (.call c k) passed =>
      some (stopped, .running loop (k (c.run cfg stopped w)) passed)
  | .running loop (.ret (.ok (.next rest))) passed =>
      some (stopped, .running loop (loop.round cfg) (passed ++ rest))
  | .running _ (.ret (.ok .left)) passed => some (stopped, .left passed)
  | .running _ (.ret (.error _)) _ => some (stopped, .died)
  | .left _ => none
  | .died => none

/-- The tasks of a worker process over the flag `_stopped`, which a signal sets. -/
def system : Processes.System Bool Task Loop Choice Unit where
  spawn := fun _ loop stopped => some (stopped, .running loop (loop.round cfg) [])
  step := fun _ w stopped task => task.step cfg w stopped
  env := fun _ _ => some true

end

/-- The loop goes on, or has ended after the flag was set; jobs of a batch are passed over only
then. -/
def Task.Survives (stopped : Bool) : Task → Prop
  | .running _ _ passed => passed ≠ [] → stopped = true
  | .left _ => stopped = true
  | .died => False

/-! ## Failures -/

def Site.bookkeeping : Site → Bool
  | .markRunning | .markDone | .markFailed => true
  | .consumeOne | .claimStale => false

/-- `_ack` swallows the failures of its two commands. -/
def RedisCommand.acknowledges : RedisCommand → Bool
  | .xack _ _ | .xdel _ _ => true
  | _ => false

/-- The command does not raise where `_process_job` is not prepared for it. -/
def Command.harmless (w : Choice) : Command → Bool
  | .registryGet handler => hashable handler
  | .handle job =>
      match w.outcome with
      | .ok _ => true
      | .error (.permanentFailure _) => true
      | .error (.exception _) =>
          !(retriesAgain { job with retries := job.retries + 1 } false &&
            delayOverflows (job.retries + 1))
      | .error .base => false
  | .dumpsResult => !w.fails
  | .toJson site _ => !(w.fails && site.bookkeeping)
  | .redis site c => !(w.fails && site.bookkeeping && !c.acknowledges)
  | .isStopped | .waitStopped | .sleep | .time | .random => true

/-- No command of the bookkeeping raises in the move. -/
def Harmless (c : Processes.Configuration Bool Task) :
    Processes.Move Loop Choice Unit → Bool
  | .step i w =>
      match c.proc i with
      | some (.running _ (.call c _) _) => c.harmless w
      | _ => true
  | _ => true

/-! ## Rounds -/

section
variable {cfg : Config} {flag : Bool}

/-- The harmless answers while the flag is set at most if `flag` is. -/
def Admitted (cfg : Config) (flag : Bool) (c : Command) (r : Except Exc c.Answer) : Prop :=
  ∃ w stopped, (stopped = true → flag = true) ∧ c.harmless w = true ∧ r = c.run cfg stopped w

/-- Nothing is raised. -/
abbrev Quiet (cfg : Config) (flag : Bool) {α : Type} (p : Program α) : Prop :=
  Raises (Admitted cfg flag) (fun _ => False) p

/-- Nothing is raised that is not an `Exception`. -/
abbrev Mild (cfg : Config) (flag : Bool) {α : Type} (p : Program α) : Prop :=
  Raises (Admitted cfg flag) (· ≠ .base) p

theorem exceptException_raises {α : Type} {E : Exc → Prop} {p handler : Program α}
    (hp : Mild cfg flag p) (hhandler : Raises (Admitted cfg flag) E handler) :
    Raises (Admitted cfg flag) E (exceptException p handler) := by
  refine Finishes.attempt_bind hp fun r hr => ?_
  match r with
  | .ok a => exact Raises.ret a
  | .error .base => exact absurd rfl (hr .base rfl)
  | .error (.permanentFailure text) => exact hhandler
  | .error (.exception text) => exact hhandler

theorem perform_raises {E : Exc → Prop} {c : Command}
    (h : ∀ w stopped, c.harmless w = true → ∀ e, c.run cfg stopped w = .error e → E e) :
    Raises (Admitted cfg flag) E (perform c) := by
  refine Finishes.perform fun r hr e he => ?_
  obtain ⟨w, stopped, -, hharmless, rfl⟩ := hr
  exact h w stopped hharmless e he

/-- Redis raises an `Exception` at most. -/
theorem redis_mild (site : Site) (c : RedisCommand) : Mild cfg flag (redis site c) := by
  refine perform_raises fun w stopped _ e he => ?_
  simp only [Command.run] at he
  split at he
  · cases he
    simp
  · cases he

theorem redis_quiet {site : Site} (hsite : site.bookkeeping = true) {c : RedisCommand}
    (hc : c.acknowledges = false) : Quiet cfg flag (redis site c) := by
  refine perform_raises fun w stopped hharmless e he => ?_
  simp only [Command.harmless, hsite, hc] at hharmless
  simp only [Command.run] at he
  split at he
  next hfails => simp [hfails] at hharmless
  next => cases he

theorem toJson_mild (site : Site) (job : Job) : Mild cfg flag (perform (.toJson site job)) := by
  refine perform_raises fun w stopped _ e he => ?_
  simp only [Command.run] at he
  split at he
  · cases he
    simp
  · cases he

theorem toJson_quiet {site : Site} (hsite : site.bookkeeping = true) (job : Job) :
    Quiet cfg flag (perform (.toJson site job)) := by
  refine perform_raises fun w stopped hharmless e he => ?_
  simp only [Command.harmless, hsite] at hharmless
  simp only [Command.run] at he
  split at he
  next hfails => simp [hfails] at hharmless
  next => cases he

theorem dumpsResult_quiet : Quiet cfg flag (perform .dumpsResult) := by
  refine perform_raises fun w stopped hharmless e he => ?_
  simp only [Command.harmless] at hharmless
  simp only [Command.run] at he
  split at he
  next hfails => simp [hfails] at hharmless
  next => cases he

/-- The clock, a random draw, a nap and a look at the flag raise nothing. -/
theorem perform_quiet {E : Exc → Prop} {c : Command}
    (h : ∀ w stopped, ∃ a, c.run cfg stopped w = .ok a) : Raises (Admitted cfg flag) E (perform c) := by
  refine perform_raises fun w stopped _ e he => ?_
  obtain ⟨a, ha⟩ := h w stopped
  cases ha.symm.trans he

theorem time_quiet {E : Exc → Prop} : Raises (Admitted cfg flag) E (perform .time) :=
  perform_quiet fun w _ => ⟨w.now, rfl⟩

/-! ### Consuming -/

theorem promoteDueRetries_mild (site : Site) (queues : List String) :
    Mild cfg flag (promoteDueRetries site queues) :=
  time_quiet.bind fun _ => Raises.forEach fun _ _ =>
    exceptException_raises (redis_mild _ _) (Raises.ret ())

theorem consumeOne_mild : Mild cfg flag (consumeOne cfg) := by
  refine (redis_mild _ _).bind fun _ => Raises.bind (Raises.tryFinally ?_ (redis_mild _ _)) fun _ =>
    time_quiet.bind fun _ => Raises.ret _
  exact (Raises.forEach fun _ _ => redis_mild _ _).bind fun _ =>
    (promoteDueRetries_mild _ _).bind fun _ => redis_mild _ _

theorem deadLetterCrashLoop_mild (queue : String) (job : Job) (times : Nat) :
    Mild cfg flag (deadLetterCrashLoop queue job times) :=
  (toJson_mild _ _).bind fun _ => (redis_mild _ _).bind fun _ => (redis_mild _ _).bind fun _ =>
    (redis_mild _ _).bind fun _ => (redis_mild _ _).bind fun _ => redis_mild _ _

theorem retireCrashLoops_mild (queue : String) (pending : List PendingEntry) (jobs : List Job) :
    Mild cfg flag (retireCrashLoops queue pending jobs) := by
  induction jobs with
  | nil => exact Raises.ret _
  | cons job jobs ih =>
      rw [retireCrashLoops]
      split
      · refine Raises.bind ?_ fun _ => ih.bind fun _ => Raises.ret _
        exact exceptException_raises
          ((deadLetterCrashLoop_mild _ _ _).bind fun _ => Raises.ret _) (Raises.ret _)
      · exact ih.bind fun _ => Raises.ret _

theorem claimQueues_mild (queues : List String) : Mild cfg flag (claimQueues cfg queues) := by
  induction queues with
  | nil => exact Raises.ret _
  | cons queue queues ih =>
      exact (redis_mild _ _).bind fun _ => (redis_mild _ _).bind fun _ =>
        (exceptException_raises (redis_mild _ _) (Raises.ret _)).bind fun _ =>
        time_quiet.bind fun _ => (retireCrashLoops_mild _ _ _).bind fun _ =>
        ih.bind fun _ => Raises.ret _

theorem claimStale_mild : Mild cfg flag (claimStale cfg) :=
  (redis_mild _ _).bind fun _ => Raises.tryFinally
    ((promoteDueRetries_mild _ _).bind fun _ => claimQueues_mild _) (redis_mild _ _)

/-! ### Bookkeeping -/

theorem ack_quiet (site : Site) (job : Job) : Quiet cfg flag (ack site job) :=
  exceptException_raises ((redis_mild _ _).bind fun _ => redis_mild _ _) (Raises.ret ())

theorem markRunning_quiet (job : Job) : Quiet cfg flag (markRunning job) :=
  (redis_quiet rfl rfl).bind fun _ => Raises.tryFinally
    ((redis_quiet rfl rfl).bind fun _ => redis_quiet rfl rfl) (redis_quiet rfl rfl)

theorem markDone_quiet (job : Job) : Quiet cfg flag (markDone job) :=
  (redis_quiet rfl rfl).bind fun _ => Raises.tryFinally
    (dumpsResult_quiet.bind fun _ => (redis_quiet rfl rfl).bind fun _ =>
      (redis_quiet rfl rfl).bind fun _ => (ack_quiet _ _).bind fun _ => redis_quiet rfl rfl)
    (redis_quiet rfl rfl)

theorem settle_quiet (job : Job) (error : String) {willRetry : Bool}
    (h : willRetry = true → delayOverflows job.retries = false) :
    Quiet cfg flag (settle cfg job error willRetry) := by
  unfold settle
  split
  next hretry =>
    refine time_quiet.bind fun _ => Raises.bind ?_ fun _ => (toJson_quiet rfl _).bind fun _ =>
      redis_quiet rfl rfl
    rw [retryDelaySeconds, h hretry]
    exact (perform_quiet fun w _ => ⟨w.draw, rfl⟩).bind fun _ => Raises.ret _
  next =>
    exact (toJson_quiet rfl _).bind fun _ => (redis_quiet rfl rfl).bind fun _ => redis_quiet rfl rfl

/-- A failure is recorded unless the delay of the retry overflows. -/
theorem markFailed_quiet (job : Job) (error : String) {permanent : Bool}
    (h : retriesAgain { job with retries := job.retries + 1 } permanent = true →
      delayOverflows (job.retries + 1) = false) :
    Quiet cfg flag (markFailed cfg job error permanent) :=
  (redis_quiet rfl rfl).bind fun _ => Raises.bind
    (Raises.tryFinally
      ((redis_quiet rfl rfl).bind fun _ => (redis_quiet rfl rfl).bind fun _ =>
        (ack_quiet _ _).bind fun _ => settle_quiet _ _ h)
      (redis_quiet rfl rfl))
    fun _ => Raises.ret _

/-! ### Processing -/

theorem processJob_quiet (job : Job) : Quiet cfg flag (processJob cfg job) := by
  have hpermanent : ∀ error : String, Quiet cfg flag (markFailed cfg job error true) := fun error =>
    markFailed_quiet job error (by simp [retriesAgain])
  have hlookup : Quiet cfg flag (perform (.registryGet job.handler)) := by
    refine perform_raises fun w stopped hharmless e he => ?_
    rw [Command.harmless] at hharmless
    simp [Command.run, hharmless] at he
  refine hlookup.bind fun found => ?_
  split
  · refine (markRunning_quiet job).bind fun _ => ?_
    -- what the handler may come to, given that it is harmless
    have hhandle : Finishes (Admitted cfg flag)
        (fun r => r ≠ .error .base ∧ ∀ text, r = .error (.exception text) →
          retriesAgain { job with retries := job.retries + 1 } false = true →
            delayOverflows (job.retries + 1) = false)
        (perform (.handle job)) := by
      refine Finishes.perform fun r hr => ?_
      obtain ⟨w, stopped, -, hharmless, rfl⟩ := hr
      simp only [Command.harmless] at hharmless
      simp only [Command.run]
      refine ⟨fun he => by simp [he] at hharmless, fun text he hretry => ?_⟩
      simpa [he, hretry] using hharmless
    refine Finishes.attempt_bind hhandle fun r hr => ?_
    match r, hr with
    | .ok _, _ => exact markDone_quiet job
    | .error (.permanentFailure text), _ => exact (hpermanent text).bind fun _ => Raises.ret _
    | .error (.exception text), hr =>
        exact (markFailed_quiet job text (hr.2 text rfl)).bind fun _ => Raises.ret _
    | .error .base, hr => exact absurd rfl hr.1
  · exact (hpermanent _).bind fun _ => Raises.ret _

/-! ### The flag -/

/-- A look at the flag: the program goes on as if it were set only if it is. -/
theorem ends_isStopped {α : Type} {Q : Except Exc α → Prop} {f : Bool → Program α}
    (hset : flag = true → Finishes (Admitted cfg flag) Q (f true))
    (hclear : Finishes (Admitted cfg flag) Q (f false)) :
    Finishes (Admitted cfg flag) Q (perform .isStopped >>= f) := by
  have hlook : Finishes (Admitted cfg flag) (fun r => ∃ b, r = .ok b ∧ (b = true → flag = true))
      (perform .isStopped) := Finishes.perform fun r hr => by
    obtain ⟨w, stopped, hflag, -, rfl⟩ := hr
    exact ⟨stopped, rfl, hflag⟩
  refine hlook.bind (fun b hb => ?_) fun e he => ?_
  · obtain ⟨b', heq, hflag⟩ := hb
    cases heq
    cases b with
    | true => exact hset (hflag rfl)
    | false => exact hclear
  · obtain ⟨b, hb, -⟩ := he
    cases hb

theorem ends_waitStopped {α : Type} {Q : Except Exc α → Prop} {f : Bool → Program α}
    (hset : flag = true → Finishes (Admitted cfg flag) Q (f true))
    (hclear : Finishes (Admitted cfg flag) Q (f false)) :
    Finishes (Admitted cfg flag) Q (perform .waitStopped >>= f) :=
  -- both commands answer with the flag
  ends_isStopped hset hclear

/-- How a round ends that keeps its loop alive. -/
def GoesOn (flag : Bool) : Except Exc RoundEnd → Prop
  | .ok (.next rest) => rest ≠ [] → flag = true
  | .ok .left => flag = true
  | .error _ => False

/-- A batch is processed to its last job unless the flag is set. -/
theorem processBatch_ends (jobs : List Job) :
    Finishes (Admitted cfg flag) (fun r => ∃ rest, r = .ok rest ∧ (rest ≠ [] → flag = true))
      (processBatch cfg jobs) := by
  induction jobs with
  | nil => exact Finishes.ret ⟨[], rfl, fun h => absurd rfl h⟩
  | cons job jobs ih =>
      refine ends_isStopped (fun hflag => Finishes.ret ⟨_, rfl, fun _ => hflag⟩) ?_
      exact Finishes.of_quiet (processJob_quiet job) fun _ => ih

theorem workerRound_goesOn : Finishes (Admitted cfg flag) (GoesOn flag) (workerRound cfg) := by
  refine ends_isStopped (fun hflag => Finishes.ret hflag) ?_
  have hnext : GoesOn flag (.ok (.next [])) := fun h => absurd rfl h
  refine Finishes.attempt_bind consumeOne_mild fun r hr => ?_
  have hsleep : Finishes (Admitted cfg flag) (GoesOn flag)
      (do perform .sleep; return RoundEnd.next []) :=
    Finishes.of_quiet (perform_quiet fun _ _ => ⟨(), rfl⟩) fun _ => Finishes.ret hnext
  match r with
  | .error .base => exact absurd rfl (hr .base rfl)
  | .error (.permanentFailure text) => exact hsleep
  | .error (.exception text) => exact hsleep
  | .ok none => exact Finishes.ret hnext
  | .ok (some job) => exact Finishes.of_quiet (processJob_quiet job) fun _ => Finishes.ret hnext

theorem reclaimRound_goesOn : Finishes (Admitted cfg flag) (GoesOn flag) (reclaimRound cfg) := by
  refine ends_isStopped (fun hflag => Finishes.ret hflag) ?_
  refine ends_waitStopped (fun hflag => Finishes.ret hflag) ?_
  have hnext : GoesOn flag (.ok (.next [])) := fun h => absurd rfl h
  refine Finishes.attempt_bind claimStale_mild fun r hr => ?_
  match r with
  | .error .base => exact absurd rfl (hr .base rfl)
  | .error (.permanentFailure text) => exact Finishes.ret hnext
  | .error (.exception text) => exact Finishes.ret hnext
  | .ok reclaimed =>
      refine Finishes.bind (processBatch_ends reclaimed) (fun rest hrest => ?_) fun e he => ?_
      · obtain ⟨rest', heq, hflag⟩ := hrest
        cases heq
        exact Finishes.ret hflag
      · obtain ⟨rest, hrest, -⟩ := he
        cases hrest

theorem Loop.round_goesOn (loop : Loop) :
    Finishes (Admitted cfg flag) (GoesOn flag) (loop.round cfg) := by
  cases loop with
  | worker idx => exact workerRound_goesOn
  | reclaim => exact reclaimRound_goesOn

end

/-! ## Runs -/

section
variable {cfg : Config}

/-- The rest of the round keeps the loop alive, now and once the flag is set. -/
def Task.Lives (cfg : Config) (stopped : Bool) : Task → Prop
  | .running _ rest passed => (passed ≠ [] → stopped = true) ∧
      ∀ flag, (stopped = true → flag = true) → Finishes (Admitted cfg flag) (GoesOn flag) rest
  | .left _ => stopped = true
  | .died => False

theorem Task.Lives.survives {stopped : Bool} {task : Task} (h : task.Lives cfg stopped) :
    task.Survives stopped := by
  cases task with
  | running loop rest passed => exact h.1
  | left passed => exact h
  | died => exact h

theorem Task.Lives.set {stopped : Bool} {task : Task} (h : task.Lives cfg stopped) :
    task.Lives cfg true := by
  cases task with
  | running loop rest passed => exact ⟨fun _ => rfl, fun flag hflag => h.2 flag fun _ => hflag rfl⟩
  | left passed => rfl
  | died => exact h

/-- One command, or the end of a round. -/
theorem Task.Lives.step {w : Choice} {stopped stopped' : Bool} {task task' : Task}
    (h : task.Lives cfg stopped)
    (hok : ∀ loop c k passed, task = .running loop (.call c k) passed → c.harmless w = true)
    (hstep : task.step cfg w stopped = some (stopped', task')) :
    stopped' = stopped ∧ task'.Lives cfg stopped := by
  match task, h with
  | .running loop (.call c k) passed, ⟨hpassed, hrest⟩ =>
      cases hstep
      refine ⟨rfl, hpassed, fun flag hflag => ?_⟩
      exact (hrest flag hflag).2 _ ⟨w, stopped, hflag, hok loop c k passed rfl, rfl⟩
  | .running loop (.ret (.ok (.next rest))) passed, ⟨hpassed, hrest⟩ =>
      cases hstep
      have hnew : rest ≠ [] → stopped = true := hrest stopped id
      refine ⟨rfl, fun hne => ?_, fun flag _ => loop.round_goesOn⟩
      by_cases hempty : passed = []
      · exact hnew (by simpa [hempty] using hne)
      · exact hpassed hempty
  | .running _ (.ret (.ok .left)) passed, ⟨_, hrest⟩ =>
      cases hstep
      exact ⟨rfl, hrest stopped id⟩
  | .running _ (.ret (.error _)) passed, ⟨_, hrest⟩ => exact (hrest stopped id).elim

theorem lives_invariant : (system cfg).Invariant (fun c m => Harmless c m = true)
    (fun _ _ => True) (fun stopped _ task => task.Lives cfg stopped) where
  spawn := fun hc _ hs => by
    cases hs
    exact ⟨trivial, ⟨fun h => absurd rfl h, fun flag _ => Loop.round_goesOn _⟩, hc.2⟩
  step := fun {c i w task stopped' task'} hc hok hi hs => by
    have hharmless : ∀ loop c' k passed, task = .running loop (.call c' k) passed →
        c'.harmless w = true := by
      rintro loop c' k passed rfl
      simpa [Harmless, hi] using hok
    obtain ⟨rfl, hlives⟩ := (hc.2 i task hi).step hharmless hs
    exact ⟨trivial, hlives, fun j task _ hj => hc.2 j task hj⟩
  env := fun hc _ hs => by
    cases hs
    exact ⟨trivial, fun j task hj => (hc.2 j task hj).set⟩

/-- If no bookkeeping command raises, every loop goes on until the flag is set: it does not die,
and the round it is in comes to its end. -/
theorem loops_survive {c : Processes.Configuration Bool Task}
    (h : (system cfg).Reaches (fun c m => Harmless c m = true) ⟨false, []⟩ c) (i : Nat) (task : Task)
    (hi : c.proc i = some task) :
    task.Survives c.shared ∧ ∀ loop rest passed, task = .running loop rest passed →
      ∀ answers, ∃ n r, Prog.follow answers n rest = .ret r := by
  have hinv := Processes.System.Reaches.inv lives_invariant
    (Processes.System.Inv.of_start rfl trivial) h
  exact ⟨(hinv.2 i task hi).survives, fun _ rest _ _ answers => Prog.follow_ends rest answers⟩

end

/-! ### A worker and one job -/

def exampleConfig : Config where
  registered := ["export"]
  textLe := fun _ _ => true
  reads := QueueReads.exampleConfig
  queues := ["default"]
  consumer := "worker"

/-- The answers a worker gets from Redis while it takes one job. -/
def takesJob : Choice := { resp := [("default", ⟨1, some QueueReads.exportJob⟩)] }

/-- A worker loop starts and goes so many steps. -/
def workerSteps (n : Nat) : List (Processes.Move Loop Choice Unit) :=
  .spawn (.worker 0) :: List.replicate n (.step 0 takesJob)

def running (c : Processes.Configuration Bool Task) : Bool :=
  match c.proc 0 with
  | some (.running _ _ _) => true
  | _ => false

def died (c : Processes.Configuration Bool Task) : Bool :=
  match c.proc 0 with
  | some .died => true
  | _ => false

theorem loops_survive_job : ∃ c, running c = true ∧
    ∀ i task, c.proc i = some task → task.Survives c.shared ∧ ∀ loop rest passed,
      task = .running loop rest passed →
        ∀ answers, ∃ n r, Prog.follow answers n rest = .ret r := by
  obtain ⟨c, hreach, hc⟩ := Processes.System.exists_reaches_of_play (system exampleConfig)
    (fun c m => Harmless c m = true) (workerSteps 22) ⟨false, []⟩ running (by decide +kernel)
  exact ⟨c, hc, loops_survive hreach⟩

/-- The worker takes a job, and `HSET` of `mark_running` fails: the loop dies, and the flag is not
set. -/
def hsetFails : List (Processes.Move Loop Choice Unit) :=
  [.step 0 { fails := true }, .step 0 takesJob, .step 0 takesJob]

theorem loop_dies : ¬ ∀ (cfg : Config) (c : Processes.Configuration Bool Task),
    (system cfg).Reaches (fun _ _ => True) ⟨false, []⟩ c →
      ∀ i task, c.proc i = some task → task.Survives c.shared := by
  intro h
  obtain ⟨c, hreach, hc⟩ := Processes.System.exists_reaches_of_play (system exampleConfig)
    (fun _ _ => True)
    (workerSteps 10 ++ hsetFails) ⟨false, []⟩ died (by decide +kernel)
  unfold died at hc
  split at hc
  next hi => exact h exampleConfig c hreach 0 .died hi
  next => cases hc

end CitraFlows.WorkerLoops
