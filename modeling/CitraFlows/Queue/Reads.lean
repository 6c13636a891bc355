-- SUMMARY: Reading new jobs: what one XREADGROUP delivers, what becomes a job, and which entries stay behind in the pending list.
import CitraFlows.Lib.Deduplication
import CitraFlows.Lib.Processes
import CitraFlows.Lib.RedisStream
import CitraFlows.Python

/-!
# Reading new jobs

One `XREADGROUP` with `COUNT 1` delivers an entry of every stream that has an unread one, and
`consume_one` returns the first job it can decode among them. Here the entries are the texts the
producers wrote, which need not decode.
-/

namespace CitraFlows.QueueReads

open Processes RedisStream

/-! ## Jobs -/

/-- The text of the `data` field, if the entry has that field. -/
abbrev Fields := Option String

structure Job where
  id : Value
  handler : Value
  payload : Value
  queue : Value
  enqueuedAt : Value
  retries : Int
  maxRetries : Int
  tenantId : Value
  requestId : Value
  streamId : Nat

structure Config where
  /-- `json.loads`; `none` stands for its exceptions. -/
  loads : String → Option Value
  /-- `time.time()` by the clock in milliseconds. -/
  time : Nat → PyFloat
  defaultMaxRetries : Int

def defaultQueue : String := "default"

/-- `value or default` -/
def orElse (value default : Value) : Value := if value.truthy then value else default

section
variable (cfg : Config)

/-- `Job.from_json`; `none` stands for the exceptions: a text that is not JSON, not an object,
without `id` or `handler`, or with counts that `int` refuses. -/
def Job.fromJson (now : Nat) (blob : String) (streamId : Nat) : Option Job := do
  let d ← (← cfg.loads blob).asDict
  let id ← Value.field d "id"
  let handler ← Value.field d "handler"
  let retries ← (orElse (Value.getD d "retries") (.int 0)).toInt
  let maxRetries ← (orElse (Value.getD d "max_retries") (.int cfg.defaultMaxRetries)).toInt
  return {
    id, handler
    payload := orElse (Value.getD d "payload") (.dict [])
    queue := orElse (Value.getD d "queue") (.str defaultQueue)
    enqueuedAt := orElse (Value.getD d "enqueued_at") (.float (cfg.time now))
    retries, maxRetries
    tenantId := Value.getD d "tenant_id"
    requestId := Value.getD d "request_id"
    streamId }

/-- One entry in the loop of `_parse_entries`: an entry without text is passed over, one that
does not decode is logged and passed over. -/
def parseEntry (now : Nat) (e : Entry Fields) : Option Job :=
  match e.value with
  | none => none
  | some blob => if blob = "" then none else Job.fromJson cfg now blob e.id

/-- The loop of `consume_one` over the response: the first entry that is a job, and the job. -/
def firstJob (now : Nat) (resp : List (String × Entry Fields)) :
    Option ((String × Entry Fields) × Job) :=
  resp.findSome? fun x => (parseEntry cfg now x.2).map fun job => (x, job)

end

/-! ## Redis -/

/-- The keys `consume_one` touches, and the ids of the entries whose jobs were written to the
dead-letter stream of their queue. -/
structure State where
  /-- The clock, in milliseconds. -/
  now : Nat
  streams : String → Stream Fields
  /-- The retry ZSET: members in the order of their scores. -/
  retry : String → List (String × Rat)
  deadLettered : String → List Nat

namespace State

def setStream (s : State) (queue : String) (stream : Stream Fields) : State :=
  { s with streams := Function.update s.streams queue stream }

/-- The loop of the promotion script: each due member is added to the stream, then removed
from the ZSET. -/
def promote (s : State) (queue : String) : List String → State
  | [] => s
  | blob :: due =>
      promote { s.setStream queue ((s.streams queue).add (some blob)) with
        retry := Function.update s.retry queue ((s.retry queue).filter fun x => x.1 ≠ blob) }
        queue due

/-- `ZRANGEBYSCORE retry:queue -inf now LIMIT 0 limit` -/
def due (s : State) (queue : String) (now : Rat) (limit : Nat) : List String :=
  (((s.retry queue).filter fun x => x.2 ≤ now).take limit).map Prod.fst

/-- The oldest entry of the queue that the group has not read. -/
def unread (s : State) (queue : String) : Option (Entry Fields) :=
  (s.streams queue).group.bind (s.streams queue).unread

end State

/-! ## Calls -/

/-- A call of `consume_one` on its way through its commands. -/
inductive Call where
  | ensuring (queues left : List String) (consumer : String)
  | promoting (queues left : List String) (now : Rat) (consumer : String)
  | reading (queues : List String) (consumer : String)
  /-- What the read delivered, and the job returned with the entry it came from. -/
  | returned (delivered : List (String × Entry Fields)) (job : Option ((String × Entry Fields) × Job))

/-- What others do to the keys: the clock goes on, producers and workers create groups, add
entries, park retries, acknowledge, delete, claim what is idle and dead-letter. -/
inductive Other where
  | pass (ms : Nat)
  | xgroupCreate (queue : String)
  | xadd (queue : String) (data : Fields)
  | retries (queue : String) (members : List (String × Rat))
  | xack (queue : String) (id : Nat)
  | xdel (queue : String) (id : Nat)
  | xautoclaim (queue consumer : String) (minIdle count : Nat)
  | deadLetter (queue : String) (id : Nat)

section
variable (cfg : Config)

/-- One command of a call. The streams read are the keys of a dict, so a queue listed twice is
read once. -/
def Call.step (s : State) : Call → Option (State × Call)
  | .ensuring queues [] consumer =>
      some (s, .promoting queues queues (cfg.time s.now).val consumer)
  | .ensuring queues (q :: left) consumer =>
      some (s.setStream q (s.streams q).createGroup, .ensuring queues left consumer)
  | .promoting queues [] _ consumer => some (s, .reading queues consumer)
  | .promoting queues (q :: left) now consumer =>
      some (s.promote q (s.due q now 256), .promoting queues left now consumer)
  | .reading queues consumer =>
      let r := readGroups consumer s.now queues.eraseDups s.streams
      some ({ s with streams := r.2 }, .returned r.1 (firstJob cfg s.now r.1))
  | .returned _ _ => none

def Other.apply (s : State) : Other → State
  | .pass ms => { s with now := s.now + ms }
  | .xgroupCreate queue => s.setStream queue (s.streams queue).createGroup
  | .xadd queue data => s.setStream queue ((s.streams queue).add data)
  | .retries queue members => { s with retry := Function.update s.retry queue members }
  | .xack queue id => s.setStream queue ((s.streams queue).ack id)
  | .xdel queue id => s.setStream queue ((s.streams queue).del id)
  | .xautoclaim queue consumer minIdle count =>
      s.setStream queue ((s.streams queue).autoClaim consumer minIdle s.now count).2
  | .deadLetter queue id =>
      { s with deadLettered := Function.update s.deadLettered queue (id :: s.deadLettered queue) }

/-- Calls of `consume_one` on any queues for any consumer, among whatever else happens. -/
def system : System State Call (List String × String) Unit Other where
  spawn := fun _ x s => some (s, .ensuring x.1 x.1 x.2)
  step := fun _ _ s call => call.step cfg s
  env := fun e s => some (e.apply s)

/-- The workers live: no call is lost. -/
def Lives (_ : Configuration State Call) : Move (List String × String) Unit Other → Bool
  | .crash _ => false
  | _ => true

/-- A pending entry was pending before, or a call has returned it, or it was dead-lettered. -/
def Accounted (start : State) (c : Configuration State Call) (queue : String) (id : Nat) : Prop :=
  id ∈ (start.streams queue).pendingIds ∨ id ∈ c.shared.deadLettered queue ∨
    ∃ i delivered e job, c.proc i = some (.returned delivered (some ((queue, e), job))) ∧ e.id = id

/-- What a read delivered was returned by its call, or is not pending any more, or was
dead-lettered; and nothing is pending that no call has returned. -/
structure Handled (start : State) (c : Configuration State Call) : Prop where
  delivered : ∀ i delivered job, c.proc i = some (.returned delivered job) → ∀ x ∈ delivered,
    job.map Prod.fst = some x ∨ x.2.id ∉ (c.shared.streams x.1).pendingIds ∨
      x.2.id ∈ c.shared.deadLettered x.1
  pending : ∀ queue, ∀ id ∈ (c.shared.streams queue).pendingIds, Accounted start c queue id

/-! ## One read -/

/-- At most one of the queues has an unread entry, and the oldest unread one is a job. -/
def Orderly (s : State) (queues : List String) : Prop :=
  (∀ q ∈ queues, ∀ q' ∈ queues, (s.unread q).isSome → (s.unread q').isSome → q = q') ∧
    ∀ q ∈ queues, ∀ e ∈ s.unread q, (parseEntry cfg s.now e).isSome

instance (s : State) (queues : List String) : Decidable (Orderly cfg s queues) :=
  inferInstanceAs (Decidable (_ ∧ _))

/-- The workers live, and every read finds an orderly state. -/
def OrderlyReads (c : Configuration State Call) : Move (List String × String) Unit Other → Bool
  | .crash _ => false
  | .step i _ =>
      match c.proc i with
      | some (.reading queues _) => Orderly cfg c.shared queues
      | _ => true
  | _ => true

end

section
variable {cfg : Config} {now : Nat} {resp : List (String × Entry Fields)}

/-- What is returned was delivered, and is a job. -/
theorem firstJob_mem {x : String × Entry Fields}
    (h : (firstJob cfg now resp).map Prod.fst = some x) :
    x ∈ resp ∧ (parseEntry cfg now x.2).isSome := by
  obtain ⟨⟨y, job⟩, hfirst, rfl⟩ := Option.map_eq_some_iff.mp h
  obtain ⟨z, hz, hjob⟩ := List.exists_of_findSome?_eq_some hfirst
  obtain ⟨job', hparse, heq⟩ := Option.map_eq_some_iff.mp hjob
  cases heq
  exact ⟨hz, by simp [hparse]⟩

/-- Something is returned if a job was delivered. -/
theorem firstJob_isSome {x : String × Entry Fields} (hx : x ∈ resp)
    (hjob : (parseEntry cfg now x.2).isSome) : ∃ y, (firstJob cfg now resp).map Prod.fst = some y := by
  cases hfirst : firstJob cfg now resp with
  | some r => exact ⟨r.1, rfl⟩
  | none =>
      have hnone := List.findSome?_eq_none_iff.mp hfirst x hx
      obtain ⟨job, hjob⟩ := Option.isSome_iff_exists.mp hjob
      simp [hjob] at hnone

end

section
variable {cfg : Config} {s : State} {queues : List String} {consumer : String}

/-- A read delivers the oldest unread entry of each queue. -/
theorem mem_read {x : String × Entry Fields} :
    x ∈ (readGroups consumer s.now queues.eraseDups s.streams).1 ↔
      x.1 ∈ queues ∧ s.unread x.1 = some x.2 := by
  rw [mem_readGroups (Deduplication.nodup_eraseDups _), List.mem_eraseDups, Stream.readGroup_fst,
    State.unread]

/-- Everything a read delivers is returned if and only if the state is orderly. -/
theorem read_returned_iff :
    (∀ x ∈ (readGroups consumer s.now queues.eraseDups s.streams).1,
      (firstJob cfg s.now (readGroups consumer s.now queues.eraseDups s.streams).1).map Prod.fst =
        some x) ↔ Orderly cfg s queues := by
  constructor
  · intro h
    refine ⟨fun q hq q' hq' he he' => ?_, fun q hq e he => ?_⟩
    · obtain ⟨e, he⟩ := Option.isSome_iff_exists.mp he
      obtain ⟨e', he'⟩ := Option.isSome_iff_exists.mp he'
      have hfirst := h (q, e) (mem_read.mpr ⟨hq, he⟩)
      have hfirst' := h (q', e') (mem_read.mpr ⟨hq', he'⟩)
      cases hfirst.symm.trans hfirst'
      rfl
    · exact (firstJob_mem (h (q, e) (mem_read.mpr ⟨hq, he⟩))).2
  · rintro ⟨hone, hjob⟩ ⟨q, e⟩ hx
    obtain ⟨hq, he⟩ := mem_read.mp hx
    obtain ⟨⟨q', e'⟩, hfirst⟩ := firstJob_isSome hx (hjob q hq e he)
    obtain ⟨hq', he'⟩ := mem_read.mp (firstJob_mem hfirst).1
    -- the entry returned comes from the same queue, so it is the same one
    obtain rfl : q = q' := hone q hq q' hq' (by simp [he]) (by simp [he'])
    obtain rfl : e = e' := Option.some.inj (he.symm.trans he')
    exact hfirst

end

/-! ## Runs -/

section
variable {cfg : Config}

theorem promote_pendingIds (s : State) (queue : String) (due : List String) (q : String) :
    ((s.promote queue due).streams q).pendingIds = (s.streams q).pendingIds := by
  induction due generalizing s with
  | nil => rfl
  | cons blob due ih =>
      rw [State.promote, ih]
      by_cases h : q = queue
      · subst h
        simp [State.setStream]
      · simp [State.setStream, h]

theorem promote_deadLettered (s : State) (queue : String) (due : List String) :
    (s.promote queue due).deadLettered = s.deadLettered := by
  induction due generalizing s with
  | nil => rfl
  | cons blob due ih => rw [State.promote, ih]; rfl

/-- A command that is not a read makes nothing pending. -/
theorem setStream_pendingIds {s : State} {queue q : String} {stream : Stream Fields} {id : Nat}
    (hstream : ∀ i ∈ stream.pendingIds, i ∈ (s.streams queue).pendingIds)
    (h : id ∈ ((s.setStream queue stream).streams q).pendingIds) :
    id ∈ (s.streams q).pendingIds := by
  by_cases heq : q = queue
  · subst heq
    exact hstream id (by simpa [State.setStream] using h)
  · simpa [State.setStream, heq] using h

/-- What others do makes nothing pending, and what was dead-lettered stays so. -/
theorem Other.apply_pendingIds {s : State} {e : Other} {q : String} {id : Nat}
    (h : id ∈ ((e.apply s).streams q).pendingIds) : id ∈ (s.streams q).pendingIds := by
  cases e with
  | pass ms => exact h
  | xgroupCreate queue => exact setStream_pendingIds (by simp) h
  | xadd queue data => exact setStream_pendingIds (by simp) h
  | retries queue members => exact h
  | xack queue id => exact setStream_pendingIds (fun i => Stream.pendingIds_ack) h
  | xdel queue id => exact setStream_pendingIds (by simp) h
  | xautoclaim queue consumer minIdle count =>
      exact setStream_pendingIds (fun i => Stream.pendingIds_autoClaim) h
  | deadLetter queue id => exact h

theorem Other.apply_deadLettered {s : State} {e : Other} {q : String} {id : Nat}
    (h : id ∈ s.deadLettered q) : id ∈ (e.apply s).deadLettered q := by
  cases e with
  | deadLetter queue i =>
      by_cases heq : q = queue
      · subst heq
        simp [Other.apply, h]
      · simpa [Other.apply, heq] using h
  | _ => exact h

/-- What one command of a call does: it returns what it has read, or makes nothing pending. -/
theorem Call.step_cases {s s' : State} {call call' : Call}
    (h : call.step cfg s = some (s', call')) :
    s'.deadLettered = s.deadLettered ∧
      ((∃ queues consumer, call = .reading queues consumer ∧
          s'.streams = (readGroups consumer s.now queues.eraseDups s.streams).2 ∧
          call' = .returned (readGroups consumer s.now queues.eraseDups s.streams).1
            (firstJob cfg s.now (readGroups consumer s.now queues.eraseDups s.streams).1)) ∨
        (∀ delivered job, call' ≠ .returned delivered job) ∧
          (∀ delivered job, call ≠ .returned delivered job) ∧
          ∀ q, ∀ id ∈ (s'.streams q).pendingIds, id ∈ (s.streams q).pendingIds) := by
  cases call with
  | ensuring queues left consumer =>
      cases left with
      | nil =>
          cases h
          exact ⟨rfl, Or.inr ⟨by simp, by simp, fun q id h => h⟩⟩
      | cons q left =>
          cases h
          exact ⟨rfl, Or.inr ⟨by simp, by simp, fun q' id h => setStream_pendingIds (by simp) h⟩⟩
  | promoting queues left now consumer =>
      cases left with
      | nil =>
          cases h
          exact ⟨rfl, Or.inr ⟨by simp, by simp, fun q id h => h⟩⟩
      | cons q left =>
          cases h
          exact ⟨promote_deadLettered _ _ _, Or.inr ⟨by simp, by simp, fun q' id h => by
            rwa [promote_pendingIds] at h⟩⟩
  | reading queues consumer =>
      cases h
      exact ⟨rfl, Or.inl ⟨queues, consumer, rfl, rfl, rfl⟩⟩
  | returned delivered job => cases h

/-- What accounts for an entry lasts. -/
theorem Accounted.lasts {start : State} {c c' : Configuration State Call} {queue : String} {id : Nat}
    (hdead : ∀ id ∈ c.shared.deadLettered queue, id ∈ c'.shared.deadLettered queue)
    (hproc : ∀ i delivered job, c.proc i = some (.returned delivered job) →
      c'.proc i = some (.returned delivered job))
    (h : Accounted start c queue id) : Accounted start c' queue id := by
  rcases h with hstart | hdl | ⟨i, delivered, e, job, hi, hid⟩
  · exact Or.inl hstart
  · exact Or.inr (Or.inl (hdead id hdl))
  · exact Or.inr (Or.inr ⟨i, delivered, e, job, hproc _ _ _ hi, hid⟩)

/-- Every call that has ended returned what it was delivered, and nothing else is pending. -/
structure Served (start : State) (c : Configuration State Call) : Prop where
  returned : ∀ i delivered job, c.proc i = some (.returned delivered job) → ∀ x ∈ delivered,
    job.map Prod.fst = some x
  pending : ∀ queue, ∀ id ∈ (c.shared.streams queue).pendingIds, Accounted start c queue id

theorem Served.handled {start : State} {c : Configuration State Call} (h : Served start c) :
    Handled start c where
  delivered := fun i delivered job hi x hx => Or.inl (h.returned i delivered job hi x hx)
  pending := h.pending

/-- A command of one call. Only an orderly read lets a call return. -/
theorem Served.step {start s' : State} {c : Configuration State Call} {i : Nat} {call call' : Call}
    (hc : Served start c) (hok : OrderlyReads cfg c (.step i ()) = true)
    (hi : c.proc i = some call) (hstep : call.step cfg c.shared = some (s', call')) :
    Served start ⟨s', c.procs.set i (some call')⟩ := by
  obtain ⟨hdead, hcases⟩ := Call.step_cases hstep
  -- the calls that have ended are other ones
  have hended : (∀ delivered job, call ≠ .returned delivered job) → ∀ j delivered job,
      c.proc j = some (.returned delivered job) →
      (⟨s', c.procs.set i (some call')⟩ : Configuration State Call).proc j =
        some (.returned delivered job) := by
    intro hne j delivered job hj
    by_cases heq : j = i
    · subst heq
      exact absurd (Option.some.inj (hi.symm.trans hj)) (hne delivered job)
    · rw [Configuration.proc_set_ne (g := c.shared) heq]
      exact hj
  rcases hcases with ⟨queues, consumer, rfl, hstreams, rfl⟩ | ⟨hnew, hold, hpending⟩
  · have horderly : Orderly cfg c.shared queues := by
      simpa [OrderlyReads, hi] using hok
    have hall : ∀ x ∈ (readGroups consumer c.shared.now queues.eraseDups c.shared.streams).1,
        (firstJob cfg c.shared.now (readGroups consumer c.shared.now queues.eraseDups
          c.shared.streams).1).map Prod.fst = some x := read_returned_iff.mpr horderly
    refine ⟨fun j delivered job hj x hx => ?_, fun queue id hid => ?_⟩
    · rcases Configuration.proc_set (g := c.shared) hj with ⟨-, heq⟩ | ⟨-, hj⟩
      · cases heq
        exact hall x hx
      · exact hc.returned j delivered job hj x hx
    · rw [hstreams] at hid
      rcases pendingIds_readGroups (Deduplication.nodup_eraseDups _) hid with hid | ⟨e, he, hid⟩
      · exact (hc.pending queue id hid).lasts (fun id h => by rwa [hdead]) (hended (by simp))
      · obtain ⟨⟨x, job⟩, hfirst, rfl⟩ := Option.map_eq_some_iff.mp (hall (queue, e) he)
        rw [hfirst]
        exact Or.inr (Or.inr ⟨i, _, e, job, Configuration.proc_set_self hi, hid⟩)
  · refine ⟨fun j delivered job hj x hx => ?_, fun queue id hid => ?_⟩
    · rcases Configuration.proc_set (g := c.shared) hj with ⟨-, heq⟩ | ⟨-, hj⟩
      · exact absurd (Option.some.inj heq) (hnew delivered job)
      · exact hc.returned j delivered job hj x hx
    · exact (hc.pending queue id (hpending queue id hid)).lasts (fun id h => by rwa [hdead])
        (hended hold)

theorem Served.steps {start : State} {c c' : Configuration State Call} (hc : Served start c)
    (h : (system cfg).Steps (fun c m => OrderlyReads cfg c m = true) c c') : Served start c' := by
  rcases h.cases with ⟨x, s', call, -, hs, rfl⟩ | ⟨i, _, call, s', call', hok, hi, hs, rfl⟩ |
    ⟨i, hok, -⟩ | ⟨e, s', -, hs, rfl⟩
  · cases hs
    refine ⟨fun j delivered job hj x hx => ?_, fun queue id hid => ?_⟩
    · rcases Configuration.proc_append (g := c.shared) hj with ⟨-, heq⟩ | hj
      · cases heq
      · exact hc.returned j delivered job hj x hx
    · refine @Accounted.lasts start c _ queue id (fun id h => h) (fun j delivered job hj => ?_)
        (hc.pending queue id hid)
      exact Configuration.proc_append_left (g := c.shared) hj
  · exact hc.step hok hi hs
  · cases hok
  · cases hs
    refine ⟨hc.returned, fun queue id hid => ?_⟩
    exact (hc.pending queue id (Other.apply_pendingIds hid)).lasts
      (fun id h => Other.apply_deadLettered h) fun j delivered job hj => hj

/-- Where every read finds at most one unread entry, and that entry is a job, every entry that is
read reaches a caller. -/
theorem consumeOne_handles {start : State} {c : Configuration State Call}
    (h : (system cfg).Reaches (fun c m => OrderlyReads cfg c m = true) ⟨start, []⟩ c) :
    Handled start c := by
  have hstart : Served start ⟨start, []⟩ :=
    ⟨fun i delivered job hi => by simp [Configuration.proc] at hi, fun queue id hid => Or.inl hid⟩
  have hserved : Served start c := System.Reaches.keeps (fun _ _ hc => hc.steps) hstart h
  exact hserved.handled

end

/-! ### A worker on two queues -/

/-- `json.dumps` of a job's `id` and `handler`. -/
def exportJob : String := "\x7b\"id\": \"a1\", \"handler\": \"export\"\x7d"

def exampleConfig : Config where
  loads := fun t =>
    if t = exportJob then some (.dict [("id", .str "a1"), ("handler", .str "export")]) else none
  time := fun _ => ⟨0, "0.0"⟩
  defaultMaxRetries := 3

def emptyState : State where
  now := 0
  streams := fun _ => Stream.empty
  retry := fun _ => []
  deadLettered := fun _ => []

/-- A job is added to every queue, then a worker on the two queues takes one. -/
def exampleRun (queues : List String) : List (Move (List String × String) Unit Other) :=
  queues.flatMap (fun q => [.env (.xgroupCreate q), .env (.xadd q (some exportJob))]) ++
    .spawn (["high", "default"], "worker") :: List.replicate 7 (.step 0 ())

/-- Call 0 was delivered so many entries and has returned a job. -/
def deliveredTo (n : Nat) (c : Configuration State Call) : Bool :=
  match c.proc 0 with
  | some (.returned delivered job) => delivered.length = n && job.isSome
  | _ => false

theorem consumeOne_handles_job : ∃ c, deliveredTo 1 c = true ∧ Handled emptyState c := by
  obtain ⟨c, hreach, hc⟩ := System.exists_reaches_of_play (system exampleConfig)
    (fun c m => OrderlyReads exampleConfig c m = true) (exampleRun ["default"]) ⟨emptyState, []⟩
    (deliveredTo 1) (by decide +kernel)
  exact ⟨c, hc, consumeOne_handles hreach⟩

/-- Call 0 was delivered an entry that it did not return; the entry is pending and
was not dead-lettered. -/
def leftBehind (c : Configuration State Call) : Bool :=
  match c.proc 0 with
  | some (.returned delivered job) =>
      delivered.any fun x => job.map Prod.fst ≠ some x &&
        (c.shared.streams x.1).pendingIds.contains x.2.id &&
        !(c.shared.deadLettered x.1).contains x.2.id
  | _ => false

theorem not_handled_of_leftBehind {start : State} {c : Configuration State Call}
    (h : leftBehind c = true) : ¬ Handled start c := by
  intro hhandled
  unfold leftBehind at h
  split at h
  next delivered job hproc =>
    obtain ⟨x, hx, hleft⟩ := List.any_eq_true.mp h
    simp only [Bool.and_eq_true, decide_eq_true_eq, Bool.not_eq_true',
      List.contains_eq_mem, decide_eq_false_iff_not] at hleft
    obtain ⟨⟨hne, hpending⟩, hdead⟩ := hleft
    rcases hhandled.delivered 0 delivered job hproc x hx with heq | hnot | hdl
    · exact hne heq
    · exact hnot hpending
    · exact hdead hdl
  next => cases h

/-- With a job on each of its two queues, the worker returns one and leaves the other pending. -/
theorem consumeOne_leaves_entry :
    ¬ ∀ (cfg : Config) (start : State) (c : Configuration State Call),
      (system cfg).Reaches (fun c m => Lives c m = true) ⟨start, []⟩ c → Handled start c := by
  intro h
  obtain ⟨c, hreach, hc⟩ := System.exists_reaches_of_play (system exampleConfig)
    (fun c m => Lives c m = true) (exampleRun ["high", "default"]) ⟨emptyState, []⟩
    leftBehind (by decide +kernel)
  exact not_handled_of_leftBehind hc (h exampleConfig emptyState c hreach)

end CitraFlows.QueueReads
