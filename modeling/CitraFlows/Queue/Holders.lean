-- SUMMARY: Who holds a stream entry: workers whose handlers keep within the visibility timeout, and when two of them have the same entry.
import CitraFlows.Queue.Model

/-!
# Who holds an entry

A worker holds an entry of a stream from its delivery until the handler has ended. `XAUTOCLAIM`
takes an entry to be abandoned when it was delivered `CLAIM_MIN_IDLE_MS` ago. In the runs below
every handler call is shorter than that, and no worker crashes.
-/

namespace CitraFlows.Queue

open Interleaving RedisStream

/-! ## Holders -/

/-- The queue of an entry, by its JSON, and its id. -/
def entryOf (e : Entry Blob) : String × Nat :=
  (if e.value.queue = "" then defaultQueue else e.value.queue, e.id)

def Job.entry (job : Job) : Option (String × Nat) := job.streamId.map fun id => (job.queue, id)

/-- The entry whose job the command hands to a handler. -/
def Command.handled : Command → Option (String × Nat)
  | .handle job => job.entry
  | _ => none

/-- The entries that an answer delivers. -/
def Command.delivered : (c : Command) → c.Answer → List (String × Nat)
  | .xreadgroup _ _, resp => resp.map fun r => entryOf r.2
  | .xautoclaim _ _ _, entries => entries.map entryOf
  | _, _ => []

/-- A handler has the entry. -/
def handling : Program Unit → Option (String × Nat)
  | .call c _ => c.handled
  | .ret _ => none

/-- Unless the entry is delivered to it, the program will not hand it to a handler. -/
abbrev Free {α : Type} (e : String × Nat) (Q : α → Prop) (p : Program α) : Prop :=
  p.Along (fun c => c.handled ≠ some e) (fun c r => e ∉ c.delivered r) Q

/-- The program may hand the entry to a handler without a further delivery of it: it waits for
the handler, or a handler has it. -/
def Holds (e : String × Nat) (p : Program Unit) : Prop := ¬ Free e (fun _ => True) p

theorem Holds.of_handling {e : String × Nat} {p : Program Unit} (h : handling p = some e) :
    Holds e p := by
  cases p with
  | ret => cases h
  | call c k => exact fun hfree => hfree.1 h

/-- What a program holds after a command it has held before, or the answer has delivered it. -/
theorem Holds.of_answer {e : String × Nat} {c : Command} {k : c.Answer → Program Unit}
    {r : c.Answer} (h : Holds e (k r)) : Holds e (.call c k) ∨ e ∈ c.delivered r := by
  by_cases hr : e ∈ c.delivered r
  · exact Or.inr hr
  · exact Or.inl fun hfree => h (hfree.2 r hr)

/-! ## Runs -/

/-- The workers, and since when each of them is at its next command. -/
structure Timed where
  pool : Pool State Command Command.Answer
  since : Nat → Nat

/-- One step, in which a command meets the condition. Time passes only as long as every handler
that is at work keeps within `CLAIM_MIN_IDLE_MS`. -/
inductive TimedStep (cfg : Config) (ok : Timed → Nat → Command → Prop) : Timed → Timed → Prop where
  | start {t : Timed} (i : Nat) {p : Program Unit} (hidle : t.pool.tasks i = .ret ())
      (hp : Starts cfg p) :
      TimedStep cfg ok t ⟨⟨t.pool.shared, Function.update t.pool.tasks i p⟩,
        Function.update t.since i t.pool.shared.now⟩
  | exec {t : Timed} (i : Nat) {c : Command} {k : c.Answer → Program Unit} (w : Choice)
      (hnext : t.pool.tasks i = .call c k) (hok : ok t i c) :
      TimedStep cfg ok t ⟨⟨(c.run cfg w t.pool.shared).2,
        Function.update t.pool.tasks i (k (c.run cfg w t.pool.shared).1)⟩,
        Function.update t.since i t.pool.shared.now⟩
  | wait {t : Timed} (now : Nat) (h : t.pool.shared.now ≤ now)
      (hbusy : ∀ i job k, t.pool.tasks i = .call (.handle job) k →
        now < t.since i + cfg.claimMinIdleMs) :
      TimedStep cfg ok t ⟨⟨{ t.pool.shared with now }, t.pool.tasks⟩, t.since⟩

def Timed.initial (now : Nat) : Timed := ⟨⟨State.initial now, fun _ => .ret ()⟩, fun _ => now⟩

def TimedReachable (cfg : Config) (ok : Timed → Nat → Command → Prop) (now : Nat) : Timed → Prop :=
  Relation.ReflTransGen (TimedStep cfg ok) (Timed.initial now)

/-- No worker's handler has an entry that another worker holds. -/
def Exclusive (t : Timed) : Prop :=
  ∀ i j e, i ≠ j → handling (t.pool.tasks i) = some e → ¬ Holds e (t.pool.tasks j)

/-- When a worker claims the stale entries of a queue, those that another one holds were delivered
less than `CLAIM_MIN_IDLE_MS` ago. -/
def Prompt (cfg : Config) (t : Timed) (i : Nat) : Command → Prop
  | .xautoclaim queue _ _ => ∀ g, (t.pool.shared.streams queue).group = some g → ∀ p ∈ g.pending,
      ∀ j, j ≠ i → Holds (queue, p.id) (t.pool.tasks j) →
        t.pool.shared.now - p.deliveredAt < cfg.claimMinIdleMs
  | _ => True

/-! ## What the programs do -/

/-- Every command but the call of a handler: entries and parked jobs are put on the queue they
name, and workers read queues with a name. -/
def Command.Routine : Command → Prop
  | .handle _ => False
  | .xadd queue data | .zadd queue data _ => data.queue = queue
  | .xreadgroup queues _ => "" ∉ queues
  | .xautoclaim queue _ _ => queue ≠ ""
  | _ => True

/-- All that a program does along answers in `R` is in `P`: its routine, and the handling of the
jobs that it is given. -/
structure Admits (cfg : Config) (P : Command → Prop) (R : (c : Command) → c.Answer → Prop) :
    Prop where
  routine : ∀ c : Command, c.Routine → P c
  read : ∀ queues consumer resp, R (.xreadgroup queues consumer) resp → ∀ r ∈ resp, ∀ now,
    P (.handle (Job.fromJson cfg now r.2.value r.2.id))
  claim : ∀ queue consumer count entries, R (.xautoclaim queue consumer count) entries →
    ∀ x ∈ entries, ∀ now, P (.handle (Job.fromJson cfg now x.value x.id))

section Programs

variable {cfg : Config} {P : Command → Prop} {R : (c : Command) → c.Answer → Prop}

namespace Admits

theorem perform (h : Admits cfg P R) {c : Command} (hc : c.Routine) :
    (perform c : Program c.Answer).Along P R (R c) :=
  Prog.Along.perform (h.routine c hc)

/-- A command whose answer does not matter. -/
theorem ignore (h : Admits cfg P R) {c : Command} (hc : c.Routine) :
    (Queue.perform c : Program c.Answer).Along P R fun _ => True :=
  (h.perform hc).mono fun _ _ => trivial

theorem promoteDueRetries (h : Admits cfg P R) (queues : List String) :
    (promoteDueRetries queues).Along P R fun _ => True :=
  (h.ignore (by trivial)).bind fun _ _ => Prog.Along.forEach fun _ _ => h.ignore (by trivial)

theorem enqueue (h : Admits cfg P R) (id handler payload queue : String)
    (tenantId requestId : Option String) (maxRetries : Int) :
    (enqueue id handler payload queue tenantId requestId maxRetries).Along P R fun _ => True := by
  refine (h.ignore (by trivial)).bind fun now _ => ?_
  refine (h.ignore (by trivial)).bind fun _ _ => ?_
  refine (h.ignore (by trivial)).bind fun _ _ => ?_
  refine (h.ignore (by trivial)).bind fun _ _ => ?_
  exact h.ignore rfl

theorem consumeOne (h : Admits cfg P R) {queues : List String} (hname : "" ∉ queues)
    (consumer : String) :
    (consumeOne cfg queues consumer).Along P R fun job => ∀ j, job = some j → P (.handle j) := by
  refine (Prog.Along.forEach fun q _ => h.ignore (by trivial)).bind fun _ _ => ?_
  refine (h.promoteDueRetries queues).bind fun _ _ => ?_
  refine (h.perform (c := .xreadgroup queues.eraseDups consumer)
    (by simpa [Command.Routine] using hname)).bind fun resp hresp => ?_
  refine (h.ignore (c := .time) trivial).bind fun now _ => ?_
  refine Prog.Along.ret fun j hj => ?_
  obtain ⟨x, hx, rfl⟩ := List.mem_map.mp (List.mem_of_mem_head? hj)
  obtain ⟨r, hr, rfl⟩ := List.mem_map.mp hx
  exact h.read _ _ _ hresp r hr now

theorem ackEntry (h : Admits cfg P R) (caller : Caller) (queue : String) (id : Option Nat) :
    (ackEntry caller queue id).Along P R fun _ => True := by
  cases id with
  | none => exact trivial
  | some id => exact (h.ignore (by trivial)).bind fun _ _ => h.ignore (by trivial)

theorem deadLetterCrashLoop (h : Admits cfg P R) (queue : String) (job : Job) (times : Nat) :
    (deadLetterCrashLoop queue job times).Along P R fun _ => True := by
  refine (h.ignore (by trivial)).bind fun _ _ => ?_
  refine (h.ackEntry _ _ _).bind fun _ _ => ?_
  refine (h.ignore (by trivial)).bind fun _ _ => ?_
  exact h.ignore (by trivial)

theorem retireCrashLoops (h : Admits cfg P R) (queue : String) (pending : List PendingEntry)
    (jobs : List Job) :
    (retireCrashLoops queue pending jobs).Along P R fun claimed => claimed ⊆ jobs := by
  induction jobs with
  | nil => exact Prog.Along.ret (List.Subset.refl _)
  | cons job jobs ih =>
      unfold Queue.retireCrashLoops
      split
      · refine (h.deadLetterCrashLoop queue job _).bind fun _ _ => ?_
        exact ih.mono fun claimed hsub => List.subset_cons_of_subset job hsub
      · exact ih.bind fun claimed hsub => Prog.Along.ret (List.cons_subset_cons job hsub)

theorem claimQueues (h : Admits cfg P R) (consumer : String) {queues : List String}
    (hname : "" ∉ queues) :
    (claimQueues cfg consumer queues).Along P R fun claimed => ∀ job ∈ claimed, P (.handle job) := by
  induction queues with
  | nil => exact Prog.Along.ret fun _ hjob => by cases hjob
  | cons queue queues ih =>
      have hne : queue ≠ "" := fun heq => hname (heq ▸ List.mem_cons_self)
      refine (h.ignore (by trivial)).bind fun _ _ => ?_
      refine (h.perform (c := .xautoclaim queue consumer 16) hne).bind fun entries hentries => ?_
      refine (h.ignore (c := .xpendingRange queue 16) trivial).bind fun pending _ => ?_
      refine (h.ignore (c := .time) trivial).bind fun now _ => ?_
      refine (h.retireCrashLoops queue pending _).bind fun claimed hclaimed => ?_
      refine (ih fun hmem => hname (List.mem_cons_of_mem _ hmem)).bind fun rest hrest => ?_
      refine Prog.Along.ret fun job hjob => ?_
      rcases List.mem_append.mp hjob with hjob | hjob
      · obtain ⟨x, hx, rfl⟩ := List.mem_map.mp (hclaimed hjob)
        exact h.claim _ _ _ _ hentries x hx now
      · exact hrest job hjob

theorem markRunning (h : Admits cfg P R) (job : Job) :
    (markRunning job).Along P R fun _ => True :=
  (h.ignore (by trivial)).bind fun _ _ => h.ignore (by trivial)

theorem markDone (h : Admits cfg P R) (job : Job) (result : String) :
    (markDone job result).Along P R fun _ => True := by
  refine (h.ignore (by trivial)).bind fun _ _ => ?_
  refine (h.ignore (by trivial)).bind fun _ _ => ?_
  refine (h.ackEntry _ _ _).bind fun _ _ => ?_
  exact h.ignore (by trivial)

theorem settle (h : Admits cfg P R) (job : Job) (error : String) (willRetry : Bool) :
    (settle cfg job error willRetry).Along P R fun _ => True := by
  unfold Queue.settle
  split
  · refine (h.ignore (c := .time) trivial).bind fun _ _ => ?_
    refine (h.ignore (c := .random) trivial).bind fun _ _ => ?_
    exact h.ignore rfl
  · exact (h.ignore (by trivial)).bind fun _ _ => h.ignore (by trivial)

theorem markFailed (h : Admits cfg P R) (job : Job) (error : String) (permanent : Bool) :
    (markFailed cfg job error permanent).Along P R fun _ => True := by
  refine (h.ignore (by trivial)).bind fun _ _ => ?_
  refine (h.ignore (by trivial)).bind fun _ _ => ?_
  refine (h.ackEntry _ _ _).bind fun _ _ => ?_
  exact (h.settle _ error _).bind fun _ _ => Prog.Along.ret trivial

theorem processJob (h : Admits cfg P R) {job : Job} (hjob : P (.handle job)) :
    (processJob cfg job).Along P R fun _ => True := by
  have hfailed : ∀ error permanent, (do
      let _ ← Queue.markFailed cfg job error permanent : Program Unit).Along P R fun _ => True :=
    fun error permanent => (h.markFailed job error permanent).bind fun _ _ => Prog.Along.ret trivial
  unfold Queue.processJob
  split
  · refine (h.markRunning job).bind fun _ _ => ?_
    refine (Prog.Along.perform (c := Command.handle job) hjob).bind fun outcome _ => ?_
    cases outcome with
    | returned result => exact h.markDone job result
    | permanentFailure error => exact hfailed error true
    | exception error => exact hfailed error false
  · exact hfailed _ true

/-- Every program that may start. -/
theorem starts (h : Admits cfg P R) {p : Program Unit} (hp : Starts cfg p) :
    p.Along P R fun _ => True := by
  cases hp with
  | enqueue => exact h.enqueue _ _ _ _ _ _ _
  | worker queues consumer hname =>
      refine (h.consumeOne hname consumer).bind fun job hjob => ?_
      cases job with
      | none => exact trivial
      | some job => exact h.processJob (hjob job rfl)
  | reclaim queues consumer hname =>
      refine ((h.promoteDueRetries queues).bind fun _ _ =>
        h.claimQueues consumer hname).bind fun claimed hclaimed => ?_
      exact Prog.Along.forEach fun job hjob => h.processJob (hclaimed job hjob)

end Admits

/-- A program that starts holds nothing. -/
theorem Starts.free {p : Program Unit} (h : Starts cfg p) (e : String × Nat) : ¬ Holds e p := by
  have hadmits : Admits cfg (fun c => c.handled ≠ some e) (fun c r => e ∉ c.delivered r) := by
    refine ⟨fun c hc => ?_, fun queues consumer resp hresp r hr now heq => ?_,
      fun queue consumer count entries hentries x hx now heq => ?_⟩
    · cases c <;> simp [Command.handled, Command.Routine] at hc ⊢
    · exact hresp (List.mem_map.mpr ⟨r, hr, Option.some.inj heq⟩)
    · exact hentries (List.mem_map.mpr ⟨x, hx, Option.some.inj heq⟩)
  exact not_not_intro (hadmits.starts h)

/-- Whatever a program is answered, it does its routine or handles a job. -/
theorem Starts.routine {p : Program Unit} (h : Starts cfg p) :
    p.Along (fun c => c.Routine ∨ ∃ job, c = .handle job) (fun _ _ => True) fun _ => True := by
  have hadmits : Admits cfg (fun c => c.Routine ∨ ∃ job, c = .handle job) (fun _ _ => True) :=
    ⟨fun c hc => Or.inl hc, fun _ _ _ _ _ _ _ => Or.inr ⟨_, rfl⟩,
      fun _ _ _ _ _ _ _ _ => Or.inr ⟨_, rfl⟩⟩
  exact hadmits.starts h

end Programs

/-! ## What the commands do -/

namespace State

/-- Entries and parked jobs are on the queue they name. -/
structure Placed (s : State) : Prop where
  entries : ∀ q, ∀ e ∈ (s.streams q).entries, e.value.queue = q
  retry : ∀ q, ∀ x ∈ s.retry q, x.1.queue = q

/-- No group goes back. -/
def Advances (s s' : State) : Prop := ∀ q, (s.streams q).Grows (s'.streams q)

theorem Advances.refl (s : State) : s.Advances s := fun _ => Stream.Grows.refl _

theorem Advances.trans {s₁ s₂ s₃ : State} (h : s₁.Advances s₂) (h' : s₂.Advances s₃) :
    s₁.Advances s₃ := fun q => (h q).trans (h' q)

theorem Advances.setStream {s : State} {q : String} {stream : Stream Blob}
    (h : (s.streams q).Grows stream) : s.Advances (s.setStream q stream) := by
  intro q'
  by_cases hq : q' = q
  · subst hq
    simpa using h
  · simpa [hq] using Stream.Grows.refl (s.streams q')

theorem Placed.setStream {s : State} (h : s.Placed) {q : String} {stream : Stream Blob}
    (hentries : ∀ e ∈ stream.entries, e.value.queue = q) : (s.setStream q stream).Placed := by
  refine ⟨fun q' e he => ?_, h.retry⟩
  by_cases hq : q' = q
  · subst hq
    exact hentries e (by simpa using he)
  · exact h.entries q' e (by simpa [hq] using he)

/-- A command that adds no entries. -/
theorem Placed.shrink {s : State} (h : s.Placed) {q : String} {stream : Stream Blob}
    (hgrows : (s.streams q).Grows stream) (hmem : stream.entries ⊆ (s.streams q).entries) :
    (s.setStream q stream).Placed ∧ s.Advances (s.setStream q stream) :=
  ⟨h.setStream fun e he => h.entries q e (hmem he), Advances.setStream hgrows⟩

theorem Placed.xadd {s : State} (h : s.Placed) {q : String} {blob : Blob} (hblob : blob.queue = q) :
    (s.xadd q blob).Placed ∧ s.Advances (s.xadd q blob) := by
  refine ⟨h.setStream fun e he => ?_, Advances.setStream (Stream.Grows.add _ _)⟩
  rcases List.mem_append.mp he with he | he
  · exact h.entries q e he
  · obtain rfl := List.mem_singleton.mp he
    exact hblob

theorem Placed.promote {s : State} (h : s.Placed) {q : String} {due : List Blob}
    (hdue : ∀ blob ∈ due, blob.queue = q) :
    (s.promote q due).Placed ∧ s.Advances (s.promote q due) := by
  induction due generalizing s with
  | nil => exact ⟨h, Advances.refl s⟩
  | cons blob due ih =>
      obtain ⟨hadd, hadvances⟩ := h.xadd (hdue blob List.mem_cons_self)
      have hrem : ((s.xadd q blob).zrem q blob).Placed := by
        refine ⟨hadd.entries, fun q' x hx => ?_⟩
        by_cases hq : q' = q
        · subst hq
          simp only [zrem, setRetry_retry, Function.update_self] at hx
          exact hadd.retry q' x (List.mem_of_mem_filter hx)
        · exact hadd.retry q' x (by simpa [zrem, hq] using hx)
      obtain ⟨hplaced, hrest⟩ := ih hrem fun b hb => hdue b (List.mem_cons_of_mem _ hb)
      exact ⟨hplaced, hadvances.trans hrest⟩

theorem Placed.zadd {s : State} (cfg : Config) (h : s.Placed) {q : String} {blob : Blob}
    (score : Rat) (hblob : blob.queue = q) : (s.zadd cfg q blob score).Placed := by
  refine ⟨h.entries, fun q' x hx => ?_⟩
  by_cases hq : q' = q
  · subst hq
    simp only [State.zadd, setRetry_retry, Function.update_self, mem_zinsert] at hx
    rcases hx with rfl | hx
    · exact hblob
    · exact h.retry q' x (List.mem_of_mem_filter hx)
  · exact h.retry q' x (by simpa [State.zadd, hq] using hx)

/-- What is read comes from a queue of the list, and was not read before. -/
theorem Placed.readStreams {s : State} (h : s.Placed) (consumer : String) (queues : List String) :
    ((s.readStreams consumer queues).2.Placed ∧ s.Advances (s.readStreams consumer queues).2) ∧
      ∀ r ∈ (s.readStreams consumer queues).1, (r.1 ∈ queues ∧ r.2.value.queue = r.1) ∧
        (∀ g, (s.streams r.1).group = some g → g.lastDelivered < r.2.id) ∧
        ∃ g, ((s.readStreams consumer queues).2.streams r.1).group = some g ∧
          r.2.id ≤ g.lastDelivered := by
  induction queues generalizing s with
  | nil => exact ⟨⟨h, Advances.refl s⟩, fun r hr => by cases hr⟩
  | cons q queues ih =>
      let r := (s.streams q).readGroup consumer s.now
      obtain ⟨hone, hgrows⟩ := h.shrink (Stream.Grows.readGroup (s.streams q) consumer s.now)
        (by rw [Stream.entries_readGroup]; exact List.Subset.refl _)
      obtain ⟨⟨hplaced, hadvances⟩, hread⟩ := ih hone
      rw [State.readStreams_cons_snd]
      refine ⟨⟨hplaced, hgrows.trans hadvances⟩, fun d hd => ?_⟩
      rcases State.mem_readStreams_cons hd with hd' | ⟨e, he, rfl⟩
      · obtain ⟨⟨hmem, hqueue⟩, hunread, hlast⟩ := hread d hd'
        refine ⟨⟨List.mem_cons_of_mem _ hmem, hqueue⟩, fun g hg => ?_, hlast⟩
        -- the reads of the other streams have not taken the group back
        obtain ⟨g', hg', hle, -⟩ := (hgrows d.1).group g hg
        exact Nat.lt_of_le_of_lt hle (hunread g' hg')
      · refine ⟨⟨List.mem_cons_self, h.entries q e (Stream.readGroup_mem he)⟩,
          Stream.readGroup_unread he, ?_⟩
        have hdelivered : ((s.setStream q r.2).streams q).Delivered e.id e.value := by
          simpa using Stream.delivered_readGroup he
        exact ((hadvances q).delivered hdelivered).1

end State

/-- A program that is at the command does its routine or handles a job. -/
abbrev Command.Known (c : Command) : Prop := c.Routine ∨ ∃ job, c = .handle job

theorem Command.run_placed {cfg : Config} {s : State} (h : s.Placed) {c : Command}
    (hc : c.Known) (w : Choice) :
    (c.run cfg w s).2.Placed ∧ s.Advances (c.run cfg w s).2 := by
  -- neither streams nor parked jobs change
  have hsame : ∀ s' : State, s'.streams = s.streams → s'.retry = s.retry →
      s'.Placed ∧ s.Advances s' := by
    intro s' hstreams hretry
    refine ⟨⟨hstreams ▸ h.entries, hretry ▸ h.retry⟩, fun q => ?_⟩
    rw [hstreams]
    exact Stream.Grows.refl _
  cases c with
  | time => exact hsame _ rfl rfl
  | random => exact hsame _ rfl rfl
  | hset => exact hsame _ rfl rfl
  | expire => exact hsame _ rfl rfl
  | setResult => exact hsame _ rfl rfl
  | xpendingRange => exact hsame _ rfl rfl
  | xaddDlq => exact hsame _ rfl rfl
  | handle job =>
      simp only [Command.run]
      split <;> exact hsame _ rfl rfl
  | xgroupCreate queue =>
      exact h.shrink (Stream.Grows.createGroup _)
        (by rw [Stream.entries_createGroup]; exact List.Subset.refl _)
  | xadd queue data =>
      have hdata : data.queue = queue := hc.resolve_right (by rintro ⟨_, ⟨⟩⟩)
      obtain ⟨hplaced, hadvances⟩ := h.xadd hdata
      exact ⟨⟨hplaced.entries, hplaced.retry⟩, hadvances⟩
  | promote queue now limit =>
      refine h.promote fun blob hblob => ?_
      simp only [State.due, List.mem_map] at hblob
      obtain ⟨x, hx, rfl⟩ := hblob
      exact h.retry queue x (List.mem_of_mem_filter (List.mem_of_mem_take hx))
  | xreadgroup queues consumer => exact (h.readStreams consumer queues).1
  | xautoclaim queue consumer count =>
      exact h.shrink (Stream.Grows.autoClaim _ _ _ _ _)
        (by rw [Stream.entries_autoClaim]; exact List.Subset.refl _)
  | xack caller queue id => exact h.shrink (Stream.Grows.ack _ _) (List.Subset.refl _)
  | xdel queue id => exact h.shrink (Stream.Grows.del _ _) (List.filter_subset_self _)
  | zadd queue data score =>
      have hdata : data.queue = queue := hc.resolve_right (by rintro ⟨_, ⟨⟩⟩)
      exact ⟨h.zadd cfg score hdata, State.Advances.refl _⟩

/-- An entry that is delivered was not read before, or it is claimed as stale. -/
theorem Command.run_delivered {cfg : Config} {s : State} (h : s.Placed) {c : Command}
    (hc : c.Known) {w : Choice} {e : String × Nat} (he : e ∈ c.delivered (c.run cfg w s).1) :
    (∃ g, ((c.run cfg w s).2.streams e.1).group = some g ∧ e.2 ≤ g.lastDelivered) ∧
    ((∀ g, (s.streams e.1).group = some g → g.lastDelivered < e.2) ∨
      ∃ consumer count, c = .xautoclaim e.1 consumer count ∧
        ∃ g, (s.streams e.1).group = some g ∧ ∃ p ∈ g.pending, p.id = e.2 ∧
          cfg.claimMinIdleMs ≤ s.now - p.deliveredAt) := by
  cases c
  case xreadgroup queues consumer =>
    have hname : "" ∉ queues := hc.resolve_right (by rintro ⟨_, ⟨⟩⟩)
    obtain ⟨r, hr, rfl⟩ := List.mem_map.mp he
    obtain ⟨⟨hmem, hqueue⟩, hunread, hlast⟩ := (h.readStreams consumer queues).2 r hr
    have hne : r.1 ≠ "" := fun heq => hname (heq ▸ hmem)
    have hentry : entryOf r.2 = (r.1, r.2.id) := by simp [entryOf, hqueue, hne]
    rw [hentry]
    exact ⟨hlast, Or.inl hunread⟩
  case xautoclaim queue consumer count =>
    have hne : queue ≠ "" := hc.resolve_right (by rintro ⟨_, ⟨⟩⟩)
    obtain ⟨x, hx, rfl⟩ := List.mem_map.mp he
    have hqueue := h.entries queue x (Stream.autoClaim_mem hx)
    have hentry : entryOf x = (queue, x.id) := by simp [entryOf, hqueue, hne]
    rw [hentry]
    refine ⟨?_, Or.inr ⟨consumer, count, rfl, Stream.autoClaim_idle hx⟩⟩
    simpa [Command.run] using (Stream.delivered_autoClaim hx).1
  all_goals cases he

/-! ## One holder -/

/-- Every entry has one holder at most, which was given it. -/
structure Sole (t : Timed) : Prop where
  placed : t.pool.shared.Placed
  known : ∀ i, (t.pool.tasks i).Along Command.Known (fun _ _ => True) fun _ => True
  read : ∀ i e, Holds e (t.pool.tasks i) →
    ∃ g, (t.pool.shared.streams e.1).group = some g ∧ e.2 ≤ g.lastDelivered
  unique : ∀ i j e, Holds e (t.pool.tasks i) → Holds e (t.pool.tasks j) → i = j

theorem Sole.initial (now : Nat) : Sole (Timed.initial now) where
  placed := ⟨fun _ _ he => (List.not_mem_nil he).elim, fun _ _ hx => (List.not_mem_nil hx).elim⟩
  known _ := trivial
  read _ _ h := absurd trivial h
  unique _ _ _ h := absurd trivial h

/-- Who holds an entry after one program has changed. -/
theorem holds_update {tasks : Nat → Program Unit} {i j : Nat} {p : Program Unit}
    {e : String × Nat} (h : Holds e (Function.update tasks i p j)) :
    (j = i ∧ Holds e p) ∨ (j ≠ i ∧ Holds e (tasks j)) := by
  by_cases hji : j = i
  · subst hji
    exact Or.inl ⟨rfl, by simpa using h⟩
  · exact Or.inr ⟨hji, by simpa [hji] using h⟩

section Steps

variable {cfg : Config} {t : Timed}

/-- A program that starts holds nothing, so that there is nothing to share. -/
theorem Sole.start (hs : Sole t) (i : Nat) {p : Program Unit} (hp : Starts cfg p)
    (since : Nat → Nat) :
    Sole ⟨⟨t.pool.shared, Function.update t.pool.tasks i p⟩, since⟩ := by
  have hold : ∀ {j : Nat} {e : String × Nat}, Holds e (Function.update t.pool.tasks i p j) →
      Holds e (t.pool.tasks j) := by
    intro j e hj
    rcases holds_update hj with ⟨-, hj⟩ | ⟨-, hj⟩
    · exact absurd hj (hp.free e)
    · exact hj
  refine ⟨hs.placed, fun j => ?_, fun j e hj => hs.read j e (hold hj),
    fun j k e hj hk => hs.unique j k e (hold hj) (hold hk)⟩
  by_cases hji : j = i
  · subst hji
    simpa using hp.routine
  · simpa [hji] using hs.known j

theorem Sole.exec (hs : Sole t) {i : Nat} {c : Command} {k : c.Answer → Program Unit} (w : Choice)
    (hnext : t.pool.tasks i = .call c k) (hprompt : Prompt cfg t i c) (since : Nat → Nat) :
    Sole ⟨⟨(c.run cfg w t.pool.shared).2,
      Function.update t.pool.tasks i (k (c.run cfg w t.pool.shared).1)⟩, since⟩ := by
  have hknown := hs.known i
  rw [hnext] at hknown
  obtain ⟨hplaced, hadvances⟩ : (c.run cfg w t.pool.shared).2.Placed ∧
      t.pool.shared.Advances (c.run cfg w t.pool.shared).2 :=
    Command.run_placed hs.placed hknown.1 w
  -- what was read stays read
  have hread : ∀ {e : String × Nat},
      (∃ g, (t.pool.shared.streams e.1).group = some g ∧ e.2 ≤ g.lastDelivered) →
      ∃ g, ((c.run cfg w t.pool.shared).2.streams e.1).group = some g ∧ e.2 ≤ g.lastDelivered := by
    rintro e ⟨g, hg, hle⟩
    obtain ⟨g', hg', hle', -⟩ := (hadvances e.1).group g hg
    exact ⟨g', hg', Nat.le_trans hle hle'⟩
  -- what the worker holds now, it has held, or it is delivered to it
  have hself : ∀ {e : String × Nat}, Holds e (k (c.run cfg w t.pool.shared).1) →
      Holds e (t.pool.tasks i) ∨ e ∈ c.delivered (c.run cfg w t.pool.shared).1 := by
    intro e he
    rw [hnext]
    exact Holds.of_answer he
  -- and then no other worker holds it
  have hother : ∀ {j : Nat} {e : String × Nat}, j ≠ i →
      Holds e (k (c.run cfg w t.pool.shared).1) → ¬ Holds e (t.pool.tasks j) := by
    intro j e hne hi hj
    rcases hself hi with hold | hdelivered
    · exact hne (hs.unique j i e hj hold)
    · obtain ⟨g, hg, hle⟩ := hs.read j e hj
      rcases (Command.run_delivered hs.placed hknown.1 hdelivered).2 with hunread |
        ⟨consumer, count, rfl, g', hg', p, hp, hid, hidle⟩
      · exact Nat.lt_irrefl _ (Nat.lt_of_le_of_lt hle (hunread g hg))
      · have hfresh := hprompt g' hg' p hp j hne (hid ▸ hj)
        omega
  constructor
  case placed => exact hplaced
  case known =>
    intro j
    by_cases hji : j = i
    · subst hji
      simpa using hknown.2 _ trivial
    · simpa [hji] using hs.known j
  case read =>
    intro j e hj
    rcases holds_update hj with ⟨rfl, hnew⟩ | ⟨-, hold⟩
    · rcases hself hnew with hold | hdelivered
      · exact hread (hs.read _ e hold)
      · exact (Command.run_delivered hs.placed hknown.1 hdelivered).1
    · exact hread (hs.read j e hold)
  case unique =>
    intro j m e hj hm
    rcases holds_update hj with ⟨rfl, hjnew⟩ | ⟨hji, hjold⟩
    · rcases holds_update hm with ⟨rfl, -⟩ | ⟨hmi, hmold⟩
      · rfl
      · exact absurd hmold (hother hmi hjnew)
    · rcases holds_update hm with ⟨rfl, hmnew⟩ | ⟨-, hmold⟩
      · exact absurd hjold (hother hji hmnew)
      · exact hs.unique j m e hjold hmold

theorem Sole.step (hs : Sole t) {t' : Timed} (h : TimedStep cfg (Prompt cfg) t t') : Sole t' := by
  cases h with
  | start i hidle hp => exact hs.start i hp _
  | exec i w hnext hok => exact hs.exec w hnext hok _
  | wait now hnow hbusy => exact ⟨⟨hs.placed.entries, hs.placed.retry⟩, hs.known, hs.read, hs.unique⟩

end Steps

/-- In every run in which stale entries are claimed only while no other worker has held one of
them for `CLAIM_MIN_IDLE_MS`, no entry has two live holders. -/
theorem claims_exclusive (cfg : Config) (now : Nat) (t : Timed)
    (h : TimedReachable cfg (Prompt cfg) now t) : Exclusive t := by
  have hsole : Sole t := by
    induction h with
    | refl => exact Sole.initial now
    | tail _ hstep ih => exact ih.step hstep
  exact fun i j e hne hi hj => hne (hsole.unique i j e (Holds.of_handling hi) hj)

/-! ## Playing a run -/

namespace State

@[simp] theorem promote_now (s : State) (q : String) (due : List Blob) :
    (s.promote q due).now = s.now := by
  induction due generalizing s with
  | nil => rfl
  | cons blob due ih => exact (ih _).trans rfl

@[simp] theorem readStreams_now (s : State) (consumer : String) (queues : List String) :
    (s.readStreams consumer queues).2.now = s.now := by
  induction queues generalizing s with
  | nil => rfl
  | cons q queues ih =>
      rw [readStreams_cons_snd]
      exact (ih _).trans rfl

end State

/-- Commands take no time by themselves. -/
theorem Command.run_now (cfg : Config) (c : Command) (w : Choice) (s : State) :
    (c.run cfg w s).2.now = s.now := by
  cases c with
  | handle job =>
      simp only [Command.run]
      split <;> rfl
  | promote => exact State.promote_now _ _ _
  | xreadgroup => exact State.readStreams_now _ _ _
  | _ => rfl

section Play

variable {cfg : Config} {ok : Timed → Nat → Command → Prop} {now : Nat}
  {allowed : Command → State → Prop}

/-- A worker that has come to its command just now may go on alone. -/
theorem TimedReachable.play (hok : ∀ t i c, allowed c t.pool.shared → ok t i c) {t : Timed}
    (h : TimedReachable cfg ok now t) {i : Nat} (hsince : t.since i = t.pool.shared.now)
    (ws : List Choice)
    (hadmits : (system cfg).Admits allowed ws (t.pool.tasks i) t.pool.shared) :
    TimedReachable cfg ok now
      ⟨⟨((system cfg).play ws (t.pool.tasks i) t.pool.shared).2,
        Function.update t.pool.tasks i ((system cfg).play ws (t.pool.tasks i) t.pool.shared).1⟩,
        t.since⟩ := by
  induction ws generalizing t with
  | nil => simpa [World.play] using h
  | cons w ws ih =>
      cases hnext : t.pool.tasks i with
      | ret a => simpa [World.play, ← hnext] using h
      | call c k =>
          rw [hnext] at hadmits
          have hstep := Relation.ReflTransGen.tail h (.exec i w hnext (hok t i c hadmits.1))
          have hsame : Function.update t.since i t.pool.shared.now = t.since := by
            rw [← hsince, Function.update_eq_self]
          rw [hsame] at hstep
          have hrest := ih hstep (hsince.trans (Command.run_now cfg c w _).symm)
            (by simp only [Function.update_self]; exact hadmits.2)
          simp only [Function.update_self, Function.update_idem] at hrest
          exact hrest

/-- An idle worker may start a program and go on alone. -/
theorem TimedReachable.startPlay (hok : ∀ t i c, allowed c t.pool.shared → ok t i c) {t : Timed}
    (h : TimedReachable cfg ok now t) {i : Nat} (hidle : t.pool.tasks i = .ret ())
    {q : Program Unit} (hq : Starts cfg q) (ws : List Choice)
    (hadmits : (system cfg).Admits allowed ws q t.pool.shared) :
    TimedReachable cfg ok now
      ⟨⟨((system cfg).play ws q t.pool.shared).2,
        Function.update t.pool.tasks i ((system cfg).play ws q t.pool.shared).1⟩,
        Function.update t.since i t.pool.shared.now⟩ := by
  have hstart := Relation.ReflTransGen.tail h (.start i hidle hq)
  have := TimedReachable.play hok hstart (i := i) (by simp) ws (by simpa using hadmits)
  simpa using this

end Play

/-! ### Claims of a batch -/

def claimConfig : Config := { registered := ["workflow.run"], textLe := fun _ _ => true }

def claimEnqueue (id queue : String) : Program Unit :=
  enqueue id "workflow.run" "null" queue none none 3

theorem claimEnqueue_starts (id queue : String) : Starts claimConfig (claimEnqueue id queue) :=
  .enqueue _ _ _ _ _ _ _

/-- So many commands; every handler returns. -/
def commands (n : Nat) : List Choice := List.replicate n {}

def playFrom (s : State) (n : Nat) (p : Program Unit) : Program Unit × State :=
  (system claimConfig).play (commands n) p s

/-- A run in which every command may be given. -/
def anyCommand (_ : Command) (_ : State) : Prop := True

theorem anyCommand_ok {ok : Timed → Nat → Command → Prop} (hok : ∀ t i c, ok t i c) (t : Timed)
    (i : Nat) (c : Command) (_ : anyCommand c t.pool.shared) : ok t i c := hok t i c

theorem start_claims {ok : Timed → Nat → Command → Prop} (hok : ∀ t i c, ok t i c) {now : Nat}
    {s : State} {tasks : Nat → Program Unit} {since : Nat → Nat}
    (h : TimedReachable claimConfig ok now ⟨⟨s, tasks⟩, since⟩) {i : Nat}
    (hidle : tasks i = .ret ()) {q : Program Unit} (hq : Starts claimConfig q) (n : Nat) :
    TimedReachable claimConfig ok now ⟨⟨(playFrom s n q).2,
      Function.update tasks i (playFrom s n q).1⟩, Function.update since i s.now⟩ :=
  TimedReachable.startPlay (anyCommand_ok hok) h hidle hq _
    (World.admits_of_forall _ (fun _ _ => trivial) _ _ _)

/-- A worker whose handler is at work goes on. -/
theorem resume_claims {ok : Timed → Nat → Command → Prop} (hok : ∀ t i c, ok t i c) {now : Nat}
    {s : State} {tasks : Nat → Program Unit} {since : Nat → Nat}
    (h : TimedReachable claimConfig ok now ⟨⟨s, tasks⟩, since⟩) {i : Nat}
    (hbusy : (handling (tasks i)).isSome) (n : Nat) :
    TimedReachable claimConfig ok now ⟨⟨(playFrom s (n + 1) (tasks i)).2,
      Function.update tasks i (playFrom s (n + 1) (tasks i)).1⟩, Function.update since i s.now⟩ := by
  cases hnext : tasks i with
  | ret a =>
      rw [hnext] at hbusy
      cases hbusy
  | call c k =>
      have hstep := Relation.ReflTransGen.tail h (.exec i {} hnext (hok _ i c))
      have hplay := TimedReachable.play (anyCommand_ok hok) hstep (i := i)
        (by simp [Command.run_now]) (commands n)
        (World.admits_of_forall _ (fun _ _ => trivial) _ _ _)
      simp only [Function.update_self, Function.update_idem] at hplay
      exact hplay

/-- A handler is at work. -/
def busy : Program Unit → Bool
  | .call (.handle _) _ => true
  | _ => false

/-- Time passes while the workers from `n` on are idle. -/
theorem wait_claims {ok : Timed → Nat → Command → Prop} {now : Nat} {s : State}
    {tasks : Nat → Program Unit} {since : Nat → Nat}
    (h : TimedReachable claimConfig ok now ⟨⟨s, tasks⟩, since⟩) (later n : Nat)
    (hlater : s.now ≤ later) (hidle : ∀ i, n ≤ i → tasks i = .ret ())
    (hbusy : ∀ i < n, busy (tasks i) = true → later < since i + claimConfig.claimMinIdleMs) :
    TimedReachable claimConfig ok now ⟨⟨{ s with now := later }, tasks⟩, since⟩ := by
  refine Relation.ReflTransGen.tail h (.wait later hlater fun i job k hi => ?_)
  rcases Nat.lt_or_ge i n with hlt | hge
  · refine hbusy i hlt ?_
    rw [show tasks i = _ from hi]
    rfl
  · cases (hidle i hge).symm.trans hi

/-- Nothing in the queue is stale. -/
def FreshClaim : Command → State → Prop
  | .xautoclaim queue _ _, s => ∀ g, (s.streams queue).group = some g → ∀ p ∈ g.pending,
      s.now - p.deliveredAt < claimConfig.claimMinIdleMs
  | _, _ => True

/-- While a handler is at work another worker looks for stale entries. -/
theorem claims_exclusive_fresh : ∃ t, TimedReachable claimConfig (Prompt claimConfig) 0 t ∧
    handling (t.pool.tasks 1) = some ("default", 1) ∧ Exclusive t := by
  have hok : ∀ (t : Timed) (i : Nat) (c : Command), FreshClaim c t.pool.shared →
      Prompt claimConfig t i c := by
    intro t i c hfresh
    cases c with
    | xautoclaim => exact fun g hg p hp _ _ _ => hfresh g hg p hp
    | _ => exact trivial
  have hinit : TimedReachable claimConfig (Prompt claimConfig) 0 (Timed.initial 0) := .refl
  have hjob := hinit.startPlay hok (i := 0) rfl (claimEnqueue_starts "job-1" "default") (commands 5)
    ⟨trivial, trivial, trivial, trivial, trivial, trivial⟩
  have hwork := hjob.startPlay hok (i := 1) rfl (.worker ["default"] "worker:1" (by decide))
    (commands 7) ⟨trivial, trivial, trivial, trivial, trivial, trivial, trivial, trivial⟩
  have hclaim := hwork.startPlay hok (i := 2) rfl (.reclaim ["default"] "worker:2" (by decide))
    (commands 6) ⟨trivial, trivial, trivial,
      fun _ _ _ _ => Nat.lt_of_le_of_lt (Nat.sub_le _ _) (by decide +kernel),
      trivial, trivial, trivial⟩
  exact ⟨_, hclaim, by decide +kernel, claims_exclusive _ _ _ hclaim⟩

/-- A worker that reads three queues does the job of the first one; the entries of the other two are
delivered to it as well, and dropped. When they are stale a second worker claims both. While it
is at the second one, that has been its own for `CLAIM_MIN_IDLE_MS`, and a third worker claims
it. -/
theorem claims_not_exclusive : ¬ ∀ (cfg : Config) (now : Nat) (t : Timed),
    TimedReachable cfg (fun _ _ _ => True) now t → Exclusive t := by
  intro hclaim
  have hok : ∀ (t : Timed) (i : Nat) (c : Command), (fun _ _ _ => True) t i c :=
    fun _ _ _ => trivial
  have hinit : TimedReachable claimConfig (fun _ _ _ => True) 0 (Timed.initial 0) := .refl
  have ha := start_claims hok hinit (i := 0) rfl (claimEnqueue_starts "job-a" "a") 5
  have hb := start_claims hok ha (i := 1) rfl (claimEnqueue_starts "job-b" "b") 5
  have hc := start_claims hok hb (i := 2) rfl (claimEnqueue_starts "job-c" "c") 5
  have hdropped := start_claims hok hc (i := 3) rfl
    (.worker ["a", "b", "c"] "worker:1" (by decide)) 17
  have hstale := wait_claims hdropped 4200000 4 (by decide +kernel)
    (fun i hi => by repeat rw [Function.update_of_ne (by omega)]) (by decide +kernel)
  have hbatch := start_claims hok hstale (i := 4) rfl
    (.reclaim ["a", "b", "c"] "worker:2" (by decide)) 18
  have hfirst := wait_claims hbatch 4201000 5 (by decide +kernel)
    (fun i hi => by repeat rw [Function.update_of_ne (by omega)]) (by decide +kernel)
  have hsecond := resume_claims hok hfirst (i := 4) (by decide +kernel) 7
  have haged := wait_claims hsecond 8400000 5 (by decide +kernel)
    (fun i hi => by repeat rw [Function.update_of_ne (by omega)]) (by decide +kernel)
  have hthird := start_claims hok haged (i := 5) rfl
    (.reclaim ["a", "b", "c"] "worker:3" (by decide)) 18
  exact hclaim _ _ _ hthird 5 4 ("c", 1) (by decide) (by decide +kernel)
    (Holds.of_handling (by decide +kernel))

end CitraFlows.Queue
