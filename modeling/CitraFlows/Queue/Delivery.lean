-- SUMMARY: At-least-once delivery: when every job whose handler has not returned stays in a stream, a retry ZSET or a dead-letter stream.
import CitraFlows.Queue.Model

/-!
# At-least-once delivery

`NoJobLost` is the promise of the queue. It is an invariant of every command but the `XACK`
of `mark_failed`, which runs before the job is parked or dead-lettered. `Spares` says when
that one is harmless, and `Reachable.noJobLost` that the promise then holds in every state
of every run, with any number of producers, workers and crashes.
-/

namespace CitraFlows.Queue

open Interleaving RedisStream

namespace State

/-! ## The promise -/

def DeadLettered (s : State) (jobId : String) : Prop := ∃ q, ∃ l ∈ s.dlq q, l.data.id = jobId

/-- A copy of the job is unread or pending in a stream, parked for a retry, or dead-lettered. -/
def Present (s : State) (jobId : String) : Prop :=
  (∃ q e, (s.streams q).Live e ∧ e.value.id = jobId) ∨
    (∃ q, ∃ x ∈ s.retry q, x.1.id = jobId) ∨ s.DeadLettered jobId

/-- As `Present`, not counting one stream entry. -/
def PresentBeside (s : State) (queue : String) (id : Nat) (jobId : String) : Prop :=
  (∃ q e, (s.streams q).Live e ∧ (q = queue → e.id ≠ id) ∧ e.value.id = jobId) ∨
    (∃ q, ∃ x ∈ s.retry q, x.1.id = jobId) ∨ s.DeadLettered jobId

def NoJobLost (s : State) : Prop :=
  ∀ jobId ∈ s.enqueued, jobId ∉ s.succeeded → s.Present jobId

theorem Present.of_live {s : State} {q : String} {e : Entry Blob} (h : (s.streams q).Live e) :
    s.Present e.value.id := Or.inl ⟨q, e, h, rfl⟩

theorem Present.of_retry {s : State} {q : String} {x : Blob × Rat} (h : x ∈ s.retry q) :
    s.Present x.1.id := Or.inr (Or.inl ⟨q, x, h, rfl⟩)

/-! ## What keeps jobs -/

/-- No job disappears between the two states. -/
def Keeps (s s' : State) : Prop := ∀ jobId, s.Present jobId → s'.Present jobId

theorem Keeps.intro {s s' : State}
    (hlive : ∀ q e, (s.streams q).Live e → s'.Present e.value.id)
    (hretry : ∀ q, ∀ x ∈ s.retry q, s'.Present x.1.id)
    (hdlq : ∀ q, s.dlq q ⊆ s'.dlq q) : s.Keeps s' := by
  rintro jobId (⟨q, e, h, rfl⟩ | ⟨q, x, hx, rfl⟩ | ⟨q, l, hl, rfl⟩)
  · exact hlive q e h
  · exact hretry q x hx
  · exact Or.inr (Or.inr ⟨q, l, hdlq q hl, rfl⟩)

theorem Keeps.setStream {s : State} {q : String} {stream : Stream Blob}
    (h : ∀ e, (s.streams q).Live e → stream.Live e) : s.Keeps (s.setStream q stream) := by
  refine Keeps.intro (fun q' e he => ?_) (fun q' x hx => Present.of_retry hx) fun _ _ hl => hl
  by_cases hq : q' = q
  · subst hq
    exact Present.of_live (q := q') (by simpa using h e he)
  · exact Present.of_live (q := q') (by simpa [hq] using he)

theorem NoJobLost.keeps {s s' : State} (h : s.NoJobLost) (hkeeps : s.Keeps s')
    (henq : s'.enqueued = s.enqueued) (hsucc : s.succeeded ⊆ s'.succeeded) : s'.NoJobLost :=
  fun jobId hmem hnot =>
    hkeeps jobId (h jobId (henq ▸ hmem) fun hs => hnot (hsucc hs))

/-! ## The discipline of the queue -/

/-- The JSON of an enqueued job, on the queue it names. -/
def Owns (s : State) (q : String) (blob : Blob) : Prop :=
  blob.queue = q ∧ blob.id ∈ s.enqueued

/-- The keys are in order: no job is lost, jobs sit on the queue they name, and a job is
parked only where workers read. -/
structure Inv (s : State) : Prop where
  noJobLost : s.NoJobLost
  entries : ∀ q, ∀ e ∈ (s.streams q).entries, s.Owns q e.value
  retry : ∀ q, ∀ x ∈ s.retry q, s.Owns q x.1
  retryGroup : ∀ q, s.retry q ≠ [] → (s.streams q).HasGroup

/-- What holds of a state and every later one. -/
structure Grows (s s' : State) : Prop where
  streams : ∀ q, (s.streams q).Grows (s'.streams q)
  dlq : ∀ q, s.dlq q ⊆ s'.dlq q
  enqueued : s.enqueued ⊆ s'.enqueued
  succeeded : s.succeeded ⊆ s'.succeeded

theorem Grows.refl (s : State) : s.Grows s :=
  ⟨fun _ => Stream.Grows.refl _, fun _ _ h => h, fun _ h => h, fun _ h => h⟩

theorem Grows.trans {s₁ s₂ s₃ : State} (h : s₁.Grows s₂) (h' : s₂.Grows s₃) : s₁.Grows s₃ :=
  ⟨fun q => (h.streams q).trans (h'.streams q), fun q _ hl => h'.dlq q (h.dlq q hl),
    fun _ hj => h'.enqueued (h.enqueued hj), fun _ hj => h'.succeeded (h.succeeded hj)⟩

theorem Grows.owns {s s' : State} (h : s.Grows s') {q : String} {blob : Blob}
    (howns : s.Owns q blob) : s'.Owns q blob := howns.imp id fun hj => h.enqueued hj

theorem Grows.deadLettered {s s' : State} (h : s.Grows s') {jobId : String}
    (hd : s.DeadLettered jobId) : s'.DeadLettered jobId := by
  obtain ⟨q, l, hl, hid⟩ := hd
  exact ⟨q, l, h.dlq q hl, hid⟩

end State

def discipline : Discipline State where
  inv := State.Inv
  grows := State.Grows
  refl := State.Grows.refl
  trans := State.Grows.trans

namespace State

theorem Grows.setStream {s : State} {q : String} {stream : Stream Blob}
    (h : (s.streams q).Grows stream) : s.Grows (s.setStream q stream) := by
  refine ⟨fun q' => ?_, fun _ _ hl => hl, fun _ hj => hj, fun _ hj => hj⟩
  by_cases hq : q' = q
  · subst hq
    simpa using h
  · simpa [hq] using Stream.Grows.refl (s.streams q')

/-- A command on one stream that adds no entries keeps the invariant if it loses no job. -/
theorem Inv.setStream {s : State} (h : s.Inv) {q : String} {stream : Stream Blob}
    (hgrows : (s.streams q).Grows stream) (hmem : stream.entries ⊆ (s.streams q).entries)
    (hlost : (s.setStream q stream).NoJobLost) : (s.setStream q stream).Inv := by
  refine ⟨hlost, fun q' e he => ?_, h.retry, fun q' hne => ?_⟩
  · by_cases hq : q' = q
    · subst hq
      exact h.entries q' e (hmem (by simpa using he))
    · exact h.entries q' e (by simpa [hq] using he)
  · exact ((Grows.setStream hgrows).streams q').hasGroup (h.retryGroup q' hne)

/-- The invariant reads neither the clock nor the status hashes. -/
theorem Inv.congr {s s' : State} (h : s.Inv) (hstreams : s'.streams = s.streams)
    (hretry : s'.retry = s.retry) (hdlq : s'.dlq = s.dlq) (henq : s'.enqueued = s.enqueued)
    (hsucc : s'.succeeded = s.succeeded) : s'.Inv ∧ s.Grows s' := by
  obtain ⟨now, streams, retry, dlq, jobs, enqueued, succeeded⟩ := s'
  subst hstreams hretry hdlq henq hsucc
  exact ⟨⟨h.noJobLost, h.entries, h.retry, h.retryGroup⟩,
    ⟨fun _ => Stream.Grows.refl _, fun _ _ hl => hl, fun _ hj => hj, fun _ hj => hj⟩⟩

/-! ## Promotion -/

/-- One turn of the promotion script: the job is on the stream before it leaves the ZSET. -/
theorem Inv.promoteOne {s : State} (h : s.Inv) {q : String} {blob : Blob}
    (hgroup : (s.streams q).HasGroup) (howns : s.Owns q blob) :
    ((s.xadd q blob).zrem q blob).Inv ∧ s.Grows ((s.xadd q blob).zrem q blob) := by
  have hstreams : ((s.xadd q blob).zrem q blob).streams =
      Function.update s.streams q ((s.streams q).add blob) := rfl
  have hretry : ((s.xadd q blob).zrem q blob).retry =
      Function.update s.retry q ((s.retry q).filter fun x => x.1 ≠ blob) := rfl
  have hgrows : s.Grows ((s.xadd q blob).zrem q blob) := by
    refine ⟨fun q' => ?_, fun _ _ hl => hl, fun _ hj => hj, fun _ hj => hj⟩
    exact (Grows.setStream (Stream.Grows.add (s.streams q) blob)).streams q'
  -- the promoted blob is in the stream before it leaves the retry set
  have hkeeps : s.Keeps ((s.xadd q blob).zrem q blob) := by
    refine Keeps.intro (fun q' e he => ?_) (fun q' x hx => ?_) fun _ _ hl => hl
    · refine Present.of_live (q := q') ?_
      rw [hstreams]
      by_cases hq : q' = q
      · subst hq
        simpa using Stream.live_add he blob
      · simpa [hq] using he
    · by_cases hx' : q' = q ∧ x.1 = blob
      · obtain ⟨rfl, hblob⟩ := hx'
        rw [hblob]
        refine Or.inl ⟨q', ⟨(s.streams q').lastId + 1, blob⟩, ?_, rfl⟩
        simpa [hstreams] using Stream.live_add_new hgroup blob
      · refine Present.of_retry (q := q') ?_
        by_cases hq : q' = q
        · subst hq
          have hne : x.1 ≠ blob := fun hb => hx' ⟨rfl, hb⟩
          simp [hretry, hx, hne]
        · simpa [hretry, hq] using hx
  refine ⟨⟨h.noJobLost.keeps hkeeps rfl fun _ hj => hj, fun q' e he => ?_, fun q' x hx => ?_,
    fun q' hne => ?_⟩, hgrows⟩
  · rw [hstreams] at he
    by_cases hq : q' = q
    · subst hq
      simp only [Function.update_self, Stream.add, List.mem_append, List.mem_singleton] at he
      rcases he with he | rfl
      · exact h.entries q' e he
      · exact howns
    · exact h.entries q' e (by simpa [hq] using he)
  · rw [hretry] at hx
    by_cases hq : q' = q
    · subst hq
      rw [Function.update_self] at hx
      exact h.retry q' x (List.mem_of_mem_filter hx)
    · exact h.retry q' x (by simpa [hq] using hx)
  · refine (hgrows.streams q').hasGroup (h.retryGroup q' fun hnil => hne ?_)
    rw [hretry]
    by_cases hq : q' = q
    · subst hq
      simp [hnil]
    · simpa [hq] using hnil

theorem Inv.promote {s : State} (h : s.Inv) {q : String} {due : List Blob}
    (hgroup : due ≠ [] → (s.streams q).HasGroup) (howns : ∀ blob ∈ due, s.Owns q blob) :
    (s.promote q due).Inv ∧ s.Grows (s.promote q due) := by
  induction due generalizing s with
  | nil => exact ⟨h, Grows.refl s⟩
  | cons blob due ih =>
      obtain ⟨hinv, hgrows⟩ := h.promoteOne (hgroup (List.cons_ne_nil _ _))
        (howns blob List.mem_cons_self)
      have hrest := ih hinv (fun _ => (hgrows.streams q).hasGroup (hgroup (List.cons_ne_nil _ _)))
        fun b hb => howns b (List.mem_cons_of_mem _ hb)
      exact ⟨hrest.1, hgrows.trans hrest.2⟩

theorem due_mem {s : State} {q : String} {now : Rat} {limit : Nat} {blob : Blob}
    (h : blob ∈ s.due q now limit) : ∃ x ∈ s.retry q, x.1 = blob := by
  simp only [due, List.mem_map] at h
  obtain ⟨x, hx, rfl⟩ := h
  exact ⟨x, List.mem_of_mem_filter (List.mem_of_mem_take hx), rfl⟩

/-! ## Reading -/

theorem Inv.readStreams {s : State} (h : s.Inv) (consumer : String) (queues : List String) :
    (s.readStreams consumer queues).2.Inv ∧ s.Grows (s.readStreams consumer queues).2 ∧
      ∀ r ∈ (s.readStreams consumer queues).1, r.1 ∈ queues ∧ s.Owns r.1 r.2.value ∧
        ((s.readStreams consumer queues).2.streams r.1).Delivered r.2.id r.2.value := by
  induction queues generalizing s with
  | nil => exact ⟨h, Grows.refl s, fun r hr => by cases hr⟩
  | cons q queues ih =>
      let r := (s.streams q).readGroup consumer s.now
      have hgrows : s.Grows (s.setStream q r.2) := Grows.setStream (Stream.Grows.readGroup _ _ _)
      have hinv : (s.setStream q r.2).Inv :=
        h.setStream (Stream.Grows.readGroup _ _ _)
          (by simp [r, Stream.entries_readGroup])
          (h.noJobLost.keeps (Keeps.setStream fun e he => Stream.live_readGroup he _ _) rfl
            fun _ hj => hj)
      obtain ⟨hinv', hgrows', hread⟩ := ih hinv
      rw [State.readStreams_cons_snd]
      refine ⟨hinv', hgrows.trans hgrows', fun d hd => ?_⟩
      rcases State.mem_readStreams_cons hd with hd' | ⟨e, he, rfl⟩
      · exact (hread d hd').imp (List.mem_cons_of_mem _) id
      · refine ⟨List.mem_cons_self, h.entries q e (Stream.readGroup_mem he), ?_⟩
        -- Delivered by this read, and still so after the reads of the other streams.
        have hdelivered : ((s.setStream q r.2).streams q).Delivered e.id e.value := by
          simpa using Stream.delivered_readGroup he
        exact (hgrows'.streams q).delivered hdelivered

/-! ## Acknowledging -/

/-- The `XACK` takes no last copy: the job of the pending entry has succeeded, or there is
another copy of it. -/
def SparesEntry (s : State) (queue : String) (id : Nat) : Prop :=
  ∀ e, (s.streams queue).Live e → (s.streams queue).IsPending e → e.id = id →
    e.value.id ∈ s.succeeded ∨ s.PresentBeside queue id e.value.id

/-- `mark_failed` acknowledges no last copy. -/
def Spares : Command → State → Prop
  | .xack .markFailed queue id, s => s.SparesEntry queue id
  | _, _ => True

theorem Present.ack {s : State} {queue : String} {id : Nat} {jobId : String}
    (h : s.PresentBeside queue id jobId) :
    (s.setStream queue ((s.streams queue).ack id)).Present jobId := by
  rcases h with ⟨q, e, hlive, hne, rfl⟩ | hretry | hdlq
  · refine Present.of_live (q := q) ?_
    by_cases hq : q = queue
    · subst hq
      simpa using Stream.live_ack_iff.mpr ⟨hlive, fun h => hne rfl h.1⟩
    · simpa [hq] using hlive
  · exact Or.inr (Or.inl hretry)
  · exact Or.inr (Or.inr hdlq)

theorem NoJobLost.ack {s : State} (h : s.NoJobLost) {queue : String} {id : Nat}
    (hspare : s.SparesEntry queue id) :
    (s.setStream queue ((s.streams queue).ack id)).NoJobLost := by
  intro jobId hmem hnot
  rcases h jobId hmem hnot with ⟨q, e, hlive, rfl⟩ | hretry | hdlq
  · by_cases hhit : q = queue ∧ e.id = id ∧ (s.streams q).IsPending e
    · obtain ⟨rfl, hid, hpending⟩ := hhit
      exact Present.ack ((hspare e hlive hpending hid).resolve_left hnot)
    · refine Present.of_live (q := q) ?_
      by_cases hq : q = queue
      · subst hq
        simpa using Stream.live_ack_iff.mpr ⟨hlive, fun h => hhit ⟨rfl, h⟩⟩
      · simpa [hq] using hlive
  · exact Or.inr (Or.inl hretry)
  · exact Or.inr (Or.inr hdlq)

/-- The condition is exact: an `XACK` that takes a last copy loses the job. -/
theorem Inv.ack_iff {s : State} (h : s.Inv) {queue : String} {id : Nat} :
    (s.setStream queue ((s.streams queue).ack id)).NoJobLost ↔ s.SparesEntry queue id := by
  refine ⟨fun hkept e hlive hpending hid => ?_, h.noJobLost.ack⟩
  by_cases hsucc : e.value.id ∈ s.succeeded
  · exact Or.inl hsucc
  refine Or.inr ?_
  rcases hkept e.value.id (h.entries queue e hlive.1).2 hsucc with ⟨q, d, hd, hdid⟩ | hretry | hdlq
  · by_cases hq : q = queue
    · subst hq
      obtain ⟨hd, hne⟩ := Stream.live_ack_iff.mp (by simpa using hd)
      refine Or.inl ⟨q, d, hd, fun _ heq => hne ⟨heq, ?_⟩, hdid⟩
      exact Stream.eq_of_id hlive.1 hd.1 (hid.trans heq.symm) ▸ hpending
    · exact Or.inl ⟨q, d, by simpa [hq] using hd, fun heq => absurd heq hq, hdid⟩
  · exact Or.inr (Or.inl hretry)
  · exact Or.inr (Or.inr hdlq)

end State

/-! ## Commands -/

section
variable (cfg : Config)

/-- The queue's commands under its discipline; only `mark_failed` is restrained. -/
abbrev CommandSpec (P : State → Prop) (c : Command) (Q : c.Answer → State → Prop) : Prop :=
  Spec (system cfg).toWorld discipline State.Spares P c Q

abbrev SafeProgram {α : Type} (Q : α → State → Prop) (p : Program α) (s : State) : Prop :=
  Safe (system cfg).toWorld discipline State.Spares Q p s

variable {cfg}

variable (cfg) in
/-- The command touches neither streams, retries nor dead letters. -/
def Harmless (c : Command) : Prop :=
  ∀ s w, (c.run cfg w s).2.streams = s.streams ∧ (c.run cfg w s).2.retry = s.retry ∧
    (c.run cfg w s).2.dlq = s.dlq ∧ (c.run cfg w s).2.enqueued = s.enqueued ∧
    (c.run cfg w s).2.succeeded = s.succeeded

theorem spec_harmless {c : Command} (h : Harmless cfg c) :
    CommandSpec cfg (fun _ => True) c (fun _ _ => True) := by
  intro s w hinv _ _
  obtain ⟨hstreams, hretry, hdlq, henq, hsucc⟩ := h s w
  obtain ⟨hinv', hgrows⟩ := hinv.congr hstreams hretry hdlq henq hsucc
  exact ⟨hinv', hgrows, trivial⟩

theorem spec_xgroupCreate (queue : String) :
    CommandSpec cfg (fun _ => True) (.xgroupCreate queue)
      (fun _ s => (s.streams queue).HasGroup) := by
  intro s w hinv _ _
  have hgrows := Stream.Grows.createGroup (s.streams queue)
  refine ⟨hinv.setStream hgrows (by simp [Stream.entries_createGroup]) ?_,
    State.Grows.setStream hgrows, ?_⟩
  · exact hinv.noJobLost.keeps (State.Keeps.setStream fun _ he => Stream.live_createGroup he) rfl
      fun _ hj => hj
  · simpa [system, Command.run] using Stream.hasGroup_createGroup (s.streams queue)

theorem spec_xadd (queue : String) (data : Blob) (hqueue : data.queue = queue) :
    CommandSpec cfg (fun s => (s.streams queue).HasGroup) (.xadd queue data)
      (fun _ _ => True) := by
  intro s w hinv hgroup _
  have hgrows : s.Grows (s.xadd queue data) := State.Grows.setStream (Stream.Grows.add _ _)
  have hkeeps : s.Keeps (s.xadd queue data) :=
    State.Keeps.setStream fun e he => Stream.live_add he data
  have hnew : (s.xadd queue data).Present data.id := by
    refine Or.inl ⟨queue, ⟨(s.streams queue).lastId + 1, data⟩, ?_, rfl⟩
    simpa [State.xadd] using Stream.live_add_new hgroup data
  have howns {q : String} {blob : Blob} (h : s.Owns q blob) :
      blob.queue = q ∧ blob.id ∈ data.id :: s.enqueued := h.imp id (List.mem_cons_of_mem _)
  refine ⟨⟨fun jobId hmem hnot => ?_, fun q e he => ?_, fun q x hx => howns (hinv.retry q x hx),
    fun q hne => ?_⟩, ⟨hgrows.streams, hgrows.dlq, fun _ hj => List.mem_cons_of_mem _ hj,
    hgrows.succeeded⟩, trivial⟩
  · rcases List.mem_cons.mp hmem with rfl | hmem
    · exact hnew
    · exact hkeeps jobId (hinv.noJobLost jobId hmem hnot)
  · by_cases hq : q = queue
    · subst hq
      simp only [system, Command.run, State.xadd, State.setStream_streams, Function.update_self,
        Stream.add, List.mem_append, List.mem_singleton] at he
      rcases he with he | rfl
      · exact howns (hinv.entries q e he)
      · exact ⟨hqueue, List.mem_cons_self⟩
    · exact howns (hinv.entries q e (by simpa [system, Command.run, State.xadd, hq] using he))
  · exact (hgrows.streams q).hasGroup (hinv.retryGroup q hne)

theorem spec_promote (queue : String) (now : Rat) (limit : Nat) :
    CommandSpec cfg (fun _ => True) (.promote queue now limit) (fun _ _ => True) := by
  intro s w hinv _ _
  have hgroup : s.due queue now limit ≠ [] → (s.streams queue).HasGroup := by
    intro hne
    obtain ⟨blob, hblob⟩ := List.exists_mem_of_ne_nil _ hne
    obtain ⟨x, hx, -⟩ := State.due_mem hblob
    exact hinv.retryGroup queue (List.ne_nil_of_mem hx)
  have howns : ∀ blob ∈ s.due queue now limit, s.Owns queue blob := by
    intro blob hblob
    obtain ⟨x, hx, rfl⟩ := State.due_mem hblob
    exact hinv.retry queue x hx
  obtain ⟨hinv', hgrows⟩ := hinv.promote hgroup howns
  exact ⟨hinv', hgrows, trivial⟩

theorem spec_xreadgroup (queues : List String) (consumer : String) :
    CommandSpec cfg (fun _ => True) (.xreadgroup queues consumer)
      (fun resp s => ∀ r ∈ resp, r.1 ∈ queues ∧ s.Owns r.1 r.2.value ∧
        (s.streams r.1).Delivered r.2.id r.2.value) := by
  intro s w hinv _ _
  obtain ⟨hinv', hgrows, hread⟩ := hinv.readStreams consumer queues
  exact ⟨hinv', hgrows, fun r hr =>
    (hread r hr).imp id fun h => ⟨hgrows.owns h.1, h.2⟩⟩

theorem spec_xautoclaim (queue consumer : String) (count : Nat) :
    CommandSpec cfg (fun _ => True) (.xautoclaim queue consumer count)
      (fun entries s => ∀ e ∈ entries, s.Owns queue e.value ∧
        (s.streams queue).Delivered e.id e.value) := by
  intro s w hinv _ _
  have hgrows := Stream.Grows.autoClaim (s.streams queue) consumer cfg.claimMinIdleMs s.now count
  refine ⟨hinv.setStream hgrows (by simp [Stream.entries_autoClaim]) ?_,
    State.Grows.setStream hgrows, fun e he => ⟨?_, ?_⟩⟩
  · exact hinv.noJobLost.keeps (State.Keeps.setStream fun _ he => Stream.live_autoClaim he _ _ _ _)
      rfl fun _ hj => hj
  · exact hinv.entries queue e (Stream.autoClaim_mem he)
  · simpa [system, Command.run] using Stream.delivered_autoClaim he

/-- Why a caller may acknowledge the entry of a job: `mark_done` has seen its handler return,
`claim_stale` has dead-lettered it, and `mark_failed` has no reason yet. -/
def AckReason (caller : Caller) (jobId : String) (s : State) : Prop :=
  match caller with
  | .markDone => jobId ∈ s.succeeded
  | .claimStale => s.DeadLettered jobId
  | .markFailed => True

theorem spec_xack (caller : Caller) (queue : String) (id : Nat) (blob : Blob) :
    CommandSpec cfg
      (fun s => (s.streams queue).Delivered id blob ∧ AckReason caller blob.id s)
      (.xack caller queue id) (fun _ s => (s.streams queue).Settled id) := by
  intro s w hinv ⟨hdelivered, hreason⟩ hallowed
  have hgrows := Stream.Grows.ack (s.streams queue) id
  refine ⟨hinv.setStream hgrows (fun _ he => he) (hinv.noJobLost.ack fun e hlive hpending hid => ?_),
    State.Grows.setStream hgrows, ?_⟩
  · have hvalue : e.value = blob := hdelivered.2 e hlive.1 hid
    cases caller with
    | markDone => exact Or.inl (hvalue ▸ hreason)
    | markFailed => exact hallowed e hlive hpending hid
    | claimStale => exact Or.inr (Or.inr (Or.inr (hvalue ▸ hreason)))
  · simpa [system, Command.run] using Stream.settled_ack hdelivered

theorem spec_xdel (queue : String) (id : Nat) :
    CommandSpec cfg (fun s => (s.streams queue).Settled id) (.xdel queue id)
      (fun _ _ => True) := by
  intro s w hinv hsettled _
  have hgrows := Stream.Grows.del (s.streams queue) id
  refine ⟨hinv.setStream hgrows (fun _ he => List.mem_of_mem_filter he) ?_,
    State.Grows.setStream hgrows, trivial⟩
  refine hinv.noJobLost.keeps (State.Keeps.setStream fun e hlive => ?_) rfl fun _ hj => hj
  exact Stream.live_del hlive fun hid => (hid ▸ hsettled).not_live hlive

theorem spec_xaddDlq (queue : String) (data : Blob) (error : String) :
    CommandSpec cfg (fun _ => True) (.xaddDlq queue data error)
      (fun _ s => s.DeadLettered data.id) := by
  intro s w hinv _ _
  have hdlq (q : String) :
      s.dlq q ⊆ Function.update s.dlq queue (s.dlq queue ++ [⟨data, error⟩]) q := by
    by_cases hq : q = queue
    · subst hq
      simp
    · simp [hq]
  have hkeeps : s.Keeps (Command.run cfg (.xaddDlq queue data error) w s).2 :=
    State.Keeps.intro (fun _ _ he => State.Present.of_live he)
      (fun _ _ hx => State.Present.of_retry hx) hdlq
  refine ⟨⟨hinv.noJobLost.keeps hkeeps rfl fun _ hj => hj, hinv.entries, hinv.retry,
    hinv.retryGroup⟩, ⟨fun _ => Stream.Grows.refl _, hdlq, fun _ hj => hj, fun _ hj => hj⟩,
    ⟨queue, ⟨data, error⟩, ?_, rfl⟩⟩
  simp [system, Command.run]

theorem spec_zadd (queue : String) (data : Blob) (score : Rat) :
    CommandSpec cfg (fun s => (s.streams queue).HasGroup ∧ s.Owns queue data)
      (.zadd queue data score)
      (fun _ _ => True) := by
  intro s w hinv ⟨hgroup, howns⟩ _
  have hmem (x : Blob × Rat) (q : String) : x ∈ (s.zadd cfg queue data score).retry q ↔
      if q = queue then x = (data, score) ∨ (x ∈ s.retry q ∧ x.1 ≠ data) else x ∈ s.retry q := by
    by_cases hq : q = queue
    · subst hq
      simp [State.zadd, State.mem_zinsert]
    · simp [State.zadd, hq]
  have hkeeps : s.Keeps (s.zadd cfg queue data score) := by
    refine State.Keeps.intro (fun _ _ he => State.Present.of_live he) (fun q x hx => ?_)
      fun _ _ hl => hl
    -- an entry with the same data is replaced, the others stay
    by_cases hx' : q = queue ∧ x.1 = data
    · obtain ⟨rfl, hdata⟩ := hx'
      rw [hdata]
      exact State.Present.of_retry (q := q) (x := (data, score)) ((hmem _ _).mpr (by simp))
    · refine State.Present.of_retry (q := q) ((hmem _ _).mpr ?_)
      split
      next hq => exact Or.inr ⟨hx, fun hdata => hx' ⟨hq, hdata⟩⟩
      · exact hx
  refine ⟨⟨hinv.noJobLost.keeps hkeeps rfl fun _ hj => hj, hinv.entries, fun q x hx => ?_,
    fun q hne => ?_⟩, ⟨fun _ => Stream.Grows.refl _, fun _ _ hl => hl, fun _ hj => hj,
    fun _ hj => hj⟩, trivial⟩
  · have hx := (hmem x q).mp hx
    split at hx
    next hq =>
      rcases hx with rfl | ⟨hx, -⟩
      · exact hq ▸ howns
      · exact hinv.retry q x hx
    · exact hinv.retry q x hx
  · by_cases hq : q = queue
    · exact hq ▸ hgroup
    · exact hinv.retryGroup q (by simpa [system, Command.run, State.zadd, hq] using hne)

theorem spec_handle (job : Job) :
    CommandSpec cfg (fun _ => True) (.handle job)
      (fun outcome s => ∀ result, outcome = .returned result → job.id ∈ s.succeeded) := by
  intro s w hinv _ _
  have hkeeps : s.Keeps { s with succeeded := job.id :: s.succeeded } := fun _ h => h
  have hrun : (Command.run cfg (.handle job) w s).2 = s ∨
      (Command.run cfg (.handle job) w s).2 = { s with succeeded := job.id :: s.succeeded } := by
    simp only [Command.run]
    split
    · exact Or.inr rfl
    · exact Or.inl rfl
    · exact Or.inl rfl
  refine ⟨?_, ?_, fun result hresult => ?_⟩
  · rcases hrun with heq | heq
    · simpa [system, discipline, heq] using hinv
    · simp only [system, discipline, heq]
      exact ⟨hinv.noJobLost.keeps hkeeps rfl fun _ hj => List.mem_cons_of_mem _ hj,
        hinv.entries, hinv.retry, hinv.retryGroup⟩
  · rcases hrun with heq | heq
    · simpa [system, discipline, heq] using State.Grows.refl s
    · simp only [system, discipline, heq]
      exact ⟨fun _ => Stream.Grows.refl _, fun _ _ hl => hl, fun _ hj => hj,
        fun _ hj => List.mem_cons_of_mem _ hj⟩
  · simp only [system, Command.run] at hresult ⊢
    split at hresult
    · simp
    · cases hresult
    · cases hresult

/-! ## Programs -/

/-- A worker holds the job: its entry was delivered, whether or not it was acknowledged since. -/
def Held (job : Job) (s : State) : Prop :=
  s.Owns job.queue job.toJson ∧ ∃ id blob, job.streamId = some id ∧ blob.id = job.id ∧
    (s.streams job.queue).Delivered id blob

theorem Held.mono {job : Job} {s s' : State} (h : Held job s) (hs : s.Grows s') :
    Held job s' := by
  obtain ⟨howns, id, blob, hid, hblob, hdelivered⟩ := h
  exact ⟨hs.owns howns, id, blob, hid, hblob, (hs.streams _).delivered hdelivered⟩

theorem Held.hasGroup {job : Job} {s : State} (h : Held job s) :
    (s.streams job.queue).HasGroup := by
  obtain ⟨-, _, _, _, _, hdelivered⟩ := h
  exact hdelivered.hasGroup

/-- An entry read from a queue with a name is held. -/
theorem Held.of_fromJson {s : State} {queue : String} {e : Entry Blob} (now : Rat)
    (hname : queue ≠ "") (howns : s.Owns queue e.value)
    (h : (s.streams queue).Delivered e.id e.value) : Held (Job.fromJson cfg now e.value e.id) s := by
  have hqueue : (Job.fromJson cfg now e.value e.id).queue = queue := by
    simp [Job.fromJson, howns.1, hname]
  exact ⟨⟨rfl, howns.2⟩, e.id, e.value, rfl, rfl, hqueue ▸ h⟩

theorem AckReason.mono {caller : Caller} {jobId : String} {s s' : State}
    (h : AckReason caller jobId s) (hs : s.Grows s') : AckReason caller jobId s' := by
  cases caller with
  | markDone => exact hs.succeeded h
  | claimStale => exact hs.deadLettered h
  | markFailed => trivial

theorem safe_harmless {c : Command} (h : Harmless cfg c) (s : State) :
    SafeProgram cfg (fun _ _ => True) (perform c) s :=
  Safe.perform (spec_harmless h) (fun _ _ => trivial) trivial

theorem safe_promoteDueRetries (queues : List String) (s : State) :
    SafeProgram cfg (fun _ _ => True) (promoteDueRetries queues) s := by
  refine (safe_harmless (fun _ _ => ⟨rfl, rfl, rfl, rfl, rfl⟩) s).bind fun now s' _ _ => ?_
  exact Safe.forEach fun q _ s'' _ =>
    Safe.perform (spec_promote q now 256) (fun _ _ => trivial) trivial

theorem safe_enqueue (id handler payload queue : String) (tenantId requestId : Option String)
    (maxRetries : Int) (s : State) : SafeProgram cfg (fun _ _ => True)
      (enqueue id handler payload queue tenantId requestId maxRetries) s := by
  refine (safe_harmless (fun _ _ => ⟨rfl, rfl, rfl, rfl, rfl⟩) s).bind fun now s₁ _ _ => ?_
  refine (Safe.perform (spec_xgroupCreate queue) (fun _ _ => trivial) trivial).bind
    fun _ s₂ _ hgroup => ?_
  refine (safe_harmless (fun _ _ => ⟨rfl, rfl, rfl, rfl, rfl⟩) s₂).bind fun _ s₃ hs₃ _ => ?_
  refine (safe_harmless (fun _ _ => ⟨rfl, rfl, rfl, rfl, rfl⟩) s₃).bind fun _ s₄ hs₄ _ => ?_
  exact Safe.perform (spec_xadd queue _ rfl) (fun hs h => (hs.streams queue).hasGroup h)
    ((hs₄.streams queue).hasGroup ((hs₃.streams queue).hasGroup hgroup))

theorem safe_consumeOne {queues : List String} (hname : "" ∉ queues) (consumer : String)
    (s : State) : SafeProgram cfg (fun job s => ∀ j, job = some j → Held j s)
      (consumeOne cfg queues consumer) s := by
  refine (Safe.forEach fun q _ s' _ =>
    (Safe.perform (spec_xgroupCreate q) (fun _ _ => trivial) trivial).weaken
      fun _ _ _ => trivial).bind fun _ s₁ _ _ => ?_
  refine (safe_promoteDueRetries queues s₁).bind fun _ s₂ _ _ => ?_
  refine (Safe.perform (spec_xreadgroup queues.eraseDups consumer)
    (fun _ _ => trivial) trivial).bind fun resp s₃ _ hread => ?_
  refine (safe_harmless (fun _ _ => ⟨rfl, rfl, rfl, rfl, rfl⟩) s₃).bind fun now s₄ hs₄ _ => ?_
  refine Safe.ret fun job hjob => ?_
  obtain ⟨r, rest, rfl⟩ : ∃ r rest, resp = r :: rest := by
    cases resp with
    | nil => cases hjob
    | cons r rest => exact ⟨r, rest, rfl⟩
  obtain rfl : Job.fromJson cfg now r.2.value r.2.id = job := by
    simpa [parseEntries] using hjob
  obtain ⟨hmem, howns, hdelivered⟩ := hread r List.mem_cons_self
  have hne : r.1 ≠ "" := fun heq => hname (heq ▸ List.mem_eraseDups.mp hmem)
  exact (Held.of_fromJson now hne howns hdelivered).mono hs₄

/-- `_ack` of a held job, for a reason. -/
theorem safe_ackEntry (caller : Caller) {job : Job} {s : State} (h : Held job s)
    (hreason : AckReason caller job.id s) :
    SafeProgram cfg (fun _ _ => True) (ackEntry caller job.queue job.streamId) s := by
  obtain ⟨-, id, blob, hid, hblob, hdelivered⟩ := h
  rw [hid]
  have hstable : discipline.Stable fun s =>
      (s.streams job.queue).Delivered id blob ∧ AckReason caller blob.id s :=
    fun hs hP => ⟨(hs.streams _).delivered hP.1, hP.2.mono hs⟩
  refine (Safe.perform (spec_xack caller job.queue id blob) hstable
    ⟨hdelivered, hblob ▸ hreason⟩).bind fun _ s' _ hsettled => ?_
  exact Safe.perform (spec_xdel job.queue id) (fun hs hP => (hs.streams _).settled hP) hsettled

theorem safe_markRunning (job : Job) (s : State) :
    SafeProgram cfg (fun _ _ => True) (markRunning job) s := by
  refine (safe_harmless (fun _ _ => ⟨rfl, rfl, rfl, rfl, rfl⟩) s).bind fun _ s' _ _ => ?_
  exact safe_harmless (fun _ _ => ⟨rfl, rfl, rfl, rfl, rfl⟩) s'

theorem safe_markDone {job : Job} {s : State} (h : Held job s) (hdone : job.id ∈ s.succeeded)
    (result : String) : SafeProgram cfg (fun _ _ => True) (markDone job result) s := by
  refine (safe_harmless (fun _ _ => ⟨rfl, rfl, rfl, rfl, rfl⟩) s).bind fun _ s₁ hs₁ _ => ?_
  refine (safe_harmless (fun _ _ => ⟨rfl, rfl, rfl, rfl, rfl⟩) s₁).bind fun _ s₂ hs₂ _ => ?_
  refine (safe_ackEntry .markDone ((h.mono hs₁).mono hs₂) (hs₂.succeeded (hs₁.succeeded hdone))).bind
    fun _ s₃ _ _ => ?_
  exact safe_harmless (fun _ _ => ⟨rfl, rfl, rfl, rfl, rfl⟩) s₃

theorem safe_park {job : Job} {s : State} (h : Held job s) :
    SafeProgram cfg (fun _ _ => True) (park cfg job) s := by
  refine (safe_harmless (fun _ _ => ⟨rfl, rfl, rfl, rfl, rfl⟩) s).bind fun now s₁ hs₁ _ => ?_
  refine (safe_harmless (fun _ _ => ⟨rfl, rfl, rfl, rfl, rfl⟩) s₁).bind fun random s₂ hs₂ _ => ?_
  have h' : Held job s₂ := (h.mono hs₁).mono hs₂
  exact Safe.perform (spec_zadd job.queue job.toJson _)
    (fun hs hP => ⟨(hs.streams job.queue).hasGroup hP.1, hs.owns hP.2⟩) ⟨h'.hasGroup, h'.1⟩

theorem safe_deadLetter (job : Job) (error : String) (s : State) :
    SafeProgram cfg (fun _ _ => True) (deadLetter job error) s := by
  refine (Safe.perform (spec_xaddDlq job.queue job.toJson (truncateError error))
    (fun _ _ => trivial) trivial).bind fun _ s₁ _ _ => ?_
  exact safe_harmless (fun _ _ => ⟨rfl, rfl, rfl, rfl, rfl⟩) s₁

theorem safe_settle {job : Job} {s : State} (h : Held job s)
    (error : String) (willRetry : Bool) :
    SafeProgram cfg (fun _ _ => True) (settle cfg job error willRetry) s := by
  unfold settle
  split
  · exact safe_park h
  · exact safe_deadLetter job error s

/-- `mark_failed`, as far as its `XACK` is spared. -/
theorem safe_markFailed {job : Job} {s : State} (h : Held job s) (error : String)
    (permanent : Bool) : SafeProgram cfg (fun _ _ => True) (markFailed cfg job error permanent) s := by
  have h' : Held { job with retries := job.retries + 1 } s := h
  refine (safe_harmless (fun _ _ => ⟨rfl, rfl, rfl, rfl, rfl⟩) s).bind fun _ s₁ hs₁ _ => ?_
  refine (safe_harmless (fun _ _ => ⟨rfl, rfl, rfl, rfl, rfl⟩) s₁).bind fun _ s₂ hs₂ _ => ?_
  refine (safe_ackEntry .markFailed ((h'.mono hs₁).mono hs₂) trivial).bind fun _ s₃ hs₃ _ => ?_
  have h₃ := ((h'.mono hs₁).mono hs₂).mono hs₃
  exact (safe_settle h₃ error _).bind fun _ s₄ _ _ => Safe.ret (s := s₄) trivial

theorem safe_processJob {job : Job} {s : State} (h : Held job s) :
    SafeProgram cfg (fun _ _ => True) (processJob cfg job) s := by
  unfold processJob
  split
  · refine (safe_markRunning job s).bind fun _ s₁ hs₁ _ => ?_
    refine (Safe.perform (spec_handle job) (fun _ _ => trivial) trivial).bind
      fun outcome s₂ hs₂ hreturned => ?_
    have h' : Held job s₂ := (h.mono hs₁).mono hs₂
    cases outcome with
    | returned result => exact safe_markDone h' (hreturned result rfl) result
    | permanentFailure error =>
        exact (safe_markFailed h' error true).bind fun _ _ _ _ => Safe.ret trivial
    | exception error =>
        exact (safe_markFailed h' error false).bind fun _ _ _ _ => Safe.ret trivial
  · exact (safe_markFailed h _ true).bind fun _ _ _ _ => Safe.ret trivial

/-- A crash-looping job is dead-lettered before it is acknowledged. -/
theorem safe_deadLetterCrashLoop {job : Job} {s : State} (h : Held job s) (times : Nat) :
    SafeProgram cfg (fun _ _ => True) (deadLetterCrashLoop job.queue job times) s := by
  refine (Safe.perform (spec_xaddDlq job.queue job.toJson _) (fun _ _ => trivial)
    trivial).bind fun _ s₁ hs₁ hdead => ?_
  refine (safe_ackEntry .claimStale (h.mono hs₁) hdead).bind fun _ s₂ _ _ => ?_
  refine (safe_harmless (fun _ _ => ⟨rfl, rfl, rfl, rfl, rfl⟩) s₂).bind fun _ s₃ _ _ => ?_
  exact safe_harmless (fun _ _ => ⟨rfl, rfl, rfl, rfl, rfl⟩) s₃

/-- The jobs that go back to the worker stay held. -/
theorem safe_retireCrashLoops {queue : String} (pending : List PendingEntry) {jobs : List Job}
    {s : State} (h : ∀ job ∈ jobs, job.queue = queue ∧ Held job s) :
    SafeProgram cfg (fun claimed s => ∀ job ∈ claimed, Held job s)
      (retireCrashLoops queue pending jobs) s := by
  induction jobs generalizing s with
  | nil => exact Safe.ret fun job hjob => by cases hjob
  | cons job jobs ih =>
      have hrest {s' : State} (hs : s.Grows s') : ∀ job ∈ jobs, job.queue = queue ∧ Held job s' :=
        fun j hj => (h j (List.mem_cons_of_mem _ hj)).imp id fun hheld => hheld.mono hs
      obtain ⟨rfl, hheld⟩ := h job List.mem_cons_self
      unfold retireCrashLoops
      split
      · exact (safe_deadLetterCrashLoop hheld _).bind fun _ s₁ hs₁ _ => ih (hrest hs₁)
      · refine (ih (hrest (State.Grows.refl s))).bind fun claimed s₁ hs₁ hclaimed => ?_
        refine Safe.ret fun j hj => ?_
        rcases List.mem_cons.mp hj with rfl | hj
        · exact hheld.mono hs₁
        · exact hclaimed j hj

theorem safe_claimQueues {queues : List String} (hname : "" ∉ queues) (consumer : String)
    (s : State) : SafeProgram cfg (fun claimed s => ∀ job ∈ claimed, Held job s)
      (claimQueues cfg consumer queues) s := by
  induction queues generalizing s with
  | nil => exact Safe.ret fun job hjob => by cases hjob
  | cons queue queues ih =>
      have hne : queue ≠ "" := fun heq => hname (heq ▸ List.mem_cons_self)
      refine (Safe.perform (spec_xgroupCreate queue) (fun _ _ => trivial) trivial).bind
        fun _ s₁ _ _ => ?_
      refine (Safe.perform (spec_xautoclaim queue consumer 16) (fun _ _ => trivial)
        trivial).bind fun entries s₂ _ hentries => ?_
      refine (safe_harmless (fun _ _ => ⟨rfl, rfl, rfl, rfl, rfl⟩) s₂).bind
        fun pending s₃ hs₃ _ => ?_
      refine (safe_harmless (fun _ _ => ⟨rfl, rfl, rfl, rfl, rfl⟩) s₃).bind fun now s₄ hs₄ _ => ?_
      have hjobs : ∀ job ∈ parseEntries cfg now entries, job.queue = queue ∧ Held job s₄ := by
        intro job hjob
        obtain ⟨e, he, rfl⟩ := List.mem_map.mp hjob
        obtain ⟨howns, hdelivered⟩ := hentries e he
        exact ⟨by simp [Job.fromJson, howns.1, hne],
          (Held.of_fromJson now hne howns hdelivered).mono (hs₃.trans hs₄)⟩
      refine (safe_retireCrashLoops pending hjobs).bind fun claimed s₅ _ hclaimed => ?_
      refine (ih (fun hmem => hname (List.mem_cons_of_mem _ hmem)) s₅).bind
        fun rest s₆ hs₆ hrest => ?_
      refine Safe.ret fun job hjob => ?_
      rcases List.mem_append.mp hjob with hjob | hjob
      · exact (hclaimed job hjob).mono hs₆
      · exact hrest job hjob

/-- Every program that may start keeps the promise, as far as `mark_failed` does. -/
theorem Starts.safe {p : Program Unit} (h : Starts cfg p) (s : State) :
    SafeProgram cfg (fun _ _ => True) p s := by
  cases h with
  | enqueue => exact safe_enqueue _ _ _ _ _ _ _ s
  | worker queues consumer hname =>
      refine (safe_consumeOne hname consumer s).bind fun job s₁ _ hheld => ?_
      cases job with
      | none => exact Safe.ret trivial
      | some job => exact safe_processJob (hheld job rfl)
  | reclaim queues consumer hname =>
      have hclaim : SafeProgram cfg (fun claimed s => ∀ job ∈ claimed, Held job s)
          (claimStale cfg queues consumer) s :=
        (safe_promoteDueRetries queues s).bind fun _ s₁ _ _ => safe_claimQueues hname consumer s₁
      exact hclaim.bind fun claimed s₁ _ hheld => Safe.forEach fun job hjob s₂ hs₂ =>
        safe_processJob ((hheld job hjob).mono hs₂)

end

/-! ## Every run -/

theorem Reachable.inv (cfg : Config) {now : Nat} {pool : Pool State Command Command.Answer}
    (h : Reachable (system cfg) State.Spares (State.initial now) pool) : pool.shared.Inv := by
  have hinit : (State.initial now).Inv := by
    refine ⟨fun jobId hmem => ?_, fun q e he => ?_, fun q x hx => ?_, fun q hne => ?_⟩
    · cases hmem
    · cases he
    · cases hx
    · exact absurd rfl hne
  have hdrift (s s' : State) (hinv : s.Inv) (hs : (system cfg).drift s s') :
      s'.Inv ∧ s.Grows s' := by
    obtain ⟨now, -, rfl⟩ := hs
    exact hinv.congr rfl rfl rfl rfl rfl
  exact (Interleaving.Reachable.sound (D := discipline)
    (fun s p _ hp => Starts.safe hp s) hdrift hinit h).1

/-- In every run in which `mark_failed` spares last copies, no job is lost: whatever jobs are
enqueued, however many workers run on whatever queues, and wherever they crash. Where it does
not spare one, its `XACK` loses the job. -/
theorem Reachable.noJobLost (cfg : Config) {now : Nat} {pool : Pool State Command Command.Answer}
    (h : Reachable (system cfg) State.Spares (State.initial now) pool) :
    pool.shared.NoJobLost ∧ ∀ queue id w,
      (Command.run cfg (.xack .markFailed queue id) w pool.shared).2.NoJobLost ↔
        State.Spares (.xack .markFailed queue id) pool.shared :=
  ⟨(Reachable.inv cfg h).noJobLost, fun _ _ _ => (Reachable.inv cfg h).ack_iff⟩

/-! ### A handler that raises -/

def failingConfig : Config := { registered := ["workflow.run"], textLe := fun _ _ => true }

def raises : Choice := { outcome := .exception "TimeoutError()" }

def failingEnqueue : Program Unit :=
  enqueue "job-1" "workflow.run" "null" "default" none none 3

def failingRound : Program Unit := workerRound failingConfig ["default"] "worker:1"

/-- The state when `enqueue` has returned. -/
def queuedState : State :=
  ((system failingConfig).play (List.replicate 5 raises) failingEnqueue (State.initial 0)).2

/-- The state after so many commands of the worker that reads the job, whose handler raises. -/
def roundState (commands : Nat) : State :=
  ((system failingConfig).play (List.replicate commands raises) failingRound queuedState).2

theorem queuedState_reachable (allowed : Command → State → Prop)
    (h : (system failingConfig).Admits allowed (List.replicate 5 raises) failingEnqueue
      (State.initial 0)) :
    ∃ t, Reachable (system failingConfig) allowed (State.initial 0) ⟨queuedState, t⟩ ∧
      t 1 = .ret () :=
  ⟨_, Reachable.init.startPlay (i := 0) rfl (Starts.enqueue _ _ _ _ _ _ _) _ h, rfl⟩

theorem roundState_reachable (allowed : Command → State → Prop) (commands : Nat)
    (henqueue : (system failingConfig).Admits allowed (List.replicate 5 raises) failingEnqueue
      (State.initial 0))
    (hround : (system failingConfig).Admits allowed (List.replicate commands raises)
      failingRound queuedState) :
    ∃ t, Reachable (system failingConfig) allowed (State.initial 0) ⟨roundState commands, t⟩ := by
  obtain ⟨t, h, hidle⟩ := queuedState_reachable allowed henqueue
  exact ⟨_, h.startPlay hidle (Starts.worker ["default"] "worker:1" (by decide)) _ hround⟩

/-- Up to its `XACK` the worker may stop or crash anywhere. -/
theorem failingRound_noJobLost :
    (roundState 10).enqueued = ["job-1"] ∧ (roundState 10).succeeded = [] ∧
      (roundState 10).NoJobLost := by
  obtain ⟨t, h⟩ := roundState_reachable State.Spares 10
    ⟨trivial, trivial, trivial, trivial, trivial, trivial⟩
    ⟨trivial, trivial, trivial, trivial, trivial, trivial, trivial, trivial, trivial, trivial,
      trivial⟩
  exact ⟨by decide +kernel, by decide +kernel, (Reachable.noJobLost failingConfig h).1⟩

/-- After the `XACK` of `mark_failed` the job is nowhere: a crash here loses it. -/
theorem failingRound_losesJob : ¬ ∀ (cfg : Config) (now : Nat)
    (pool : Pool State Command Command.Answer),
    Reachable (system cfg) (fun _ _ => True) (State.initial now) pool →
      pool.shared.NoJobLost := by
  intro hclaim
  obtain ⟨t, h⟩ := roundState_reachable (fun _ _ => True) 11
    (World.admits_of_forall _ (fun _ _ => trivial) _ _ _)
    (World.admits_of_forall _ (fun _ _ => trivial) _ _ _)
  have henqueued : "job-1" ∈ (roundState 11).enqueued := by decide +kernel
  have hfailed : "job-1" ∉ (roundState 11).succeeded := by decide +kernel
  have hgroup : ((roundState 11).streams "default").group.map
      (fun g => (g.lastDelivered, g.pending)) = some (1, []) := by decide +kernel
  have hentries : ((roundState 11).streams "default").entries.map Entry.id = [1] := by
    decide +kernel
  have hstreams : ∃ s₁ s₂ s₃ s₄ s₅, (roundState 11).streams =
      Function.update (Function.update (Function.update (Function.update (Function.update
        (fun _ => Stream.empty) "default" s₁) "default" s₂) "default" s₃) "default" s₄)
        "default" s₅ := ⟨_, _, _, _, _, rfl⟩
  rcases hclaim _ _ _ h "job-1" henqueued hfailed with ⟨q, e, hlive, -⟩ | ⟨q, x, hx, -⟩ | ⟨q, l, hl, -⟩
  · by_cases hq : q = "default"
    · subst hq
      obtain ⟨g, hg, hg'⟩ := Option.map_eq_some_iff.mp hgroup
      obtain ⟨hdelivered, hpending⟩ := Prod.mk.inj hg'
      have hmem : e.id ∈ ((roundState 11).streams "default").entries.map Entry.id :=
        List.mem_map_of_mem hlive.1
      have hid : e.id = 1 := by simpa [hentries] using hmem
      have hsettled : ((roundState 11).streams "default").Settled e.id :=
        ⟨g, hg, by omega, by simp [hpending]⟩
      exact hsettled.not_live hlive
    · obtain ⟨_, _, _, _, _, hstreams⟩ := hstreams
      simp [hstreams, hq] at hlive
  · cases hx
  · cases hl

end CitraFlows.Queue
