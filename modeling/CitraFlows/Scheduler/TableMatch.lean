-- SUMMARY: When the cron table of a leader matches the database: the entry each table is heading for, and the runs in which operations reach the leaders in order.
import CitraFlows.Scheduler.CronTable

/-!
# Tables and documents

The refreshes that are on their way to the entry of a workflow are those of the load and those of
the messages in flight; the entry that they lead to is the outcome. `InTurn` says of a run that
the operations on one workflow do not overlap, that none overlaps a take-over or a reconnect, that
no message is lost, and that an operation that publishes nothing has nothing to tell. Then every
table is heading for what the document asks for, but for those that an operation has still to
reach.
-/

namespace CitraFlows

open Processes

/-! ## Outcomes -/

namespace LeaderTerm

/-- The registrations of a workflow that the load has still to make, if the document stays as it
is. -/
def toLoad (found : Option WorkflowDocument) (id : String) (t : LeaderTerm) : List Refresh :=
  t.loading.elim [] fun l =>
    (l.2.filter (·.1 = id)).map (fun p => .register p.2) ++
      if id ∈ l.1 then (found.filter (·.loaded)).toList.map (fun doc => .register doc.schedule)
      else []

/-- The refreshes on their way to the entry of a workflow. -/
def pending (found : Option WorkflowDocument) (id : String) (t : LeaderTerm) : List Refresh :=
  t.toLoad found id ++ (t.inbox.filter (·.workflowId = id)).map (·.action)

/-- The entry of a workflow after the load and the messages in flight. -/
def outcome (cfg : TableConfig) (found : Option WorkflowDocument) (id : String) (t : LeaderTerm) :
    Option CronTrigger :=
  (t.pending found id).foldl (Refresh.apply cfg) (t.jobs id)

end LeaderTerm

/-! ## InTurn runs -/

namespace Operation

/-- The operation is going on. -/
def underway (p : Operation) : Bool :=
  match p.stage with
  | .read | .done => false
  | _ => true

/-- The operation has yet to see to the tables. -/
def owes (p : Operation) : Bool :=
  match p.stage with
  | .reread | .tell _ | .publish _ | .forget => true
  | _ => false

end Operation

/-- Nothing is on its way to the entry of the workflow. -/
def LeaderTerm.idle (id : String) (t : LeaderTerm) : Bool :=
  t.loading = none && t.inbox.all (·.workflowId ≠ id)

/-- Every leader satisfies `k`, given its replica. -/
def Scheduling.leaders (s : Scheduling) (k : Nat → LeaderTerm → Bool) : Bool :=
  s.replicas.zipIdx.all fun (t, r) => t.all (k r)

def Scheduling.leaderless (s : Scheduling) : Bool := s.leaders fun _ _ => false

/-- The operations that may end a schedule and publish nothing. -/
def ScheduleOp.unpublished : ScheduleOp → Bool
  | .archive | .restore | .delete => true
  | _ => false

/-- A write reaches every leader later on. One that nothing is published of is made to a workflow
that is not scheduled, or it is a delete on the one leader, with nothing on its way to the entry.
One that a message follows is made, without an error, when every leader has subscribed. -/
def Operation.writesInOrder (s : Scheduling) (w : Write) (p : Operation)
    (read : WorkflowDocument) : Bool :=
  if p.op.unpublished then
    !read.loaded || s.leaders fun r t =>
      p.op = .delete && w.ok && r = p.replica && t.idle p.workflowId
  else
    p.afterWrite read = .done || s.leaders fun _ t => w.ok && t.listening

/-- The step of the operation is made in order: no error comes between its write and its message,
and a registration is told of an active workflow. -/
def Operation.inOrder (s : Scheduling) (w : Write) (p : Operation) : Bool :=
  match p.stage with
  | .write read => !w.ran || p.writesInOrder s w read
  | .reread => w.ok || s.leaderless
  | .tell action => action = .unregister || (s.find p.workflowId).any (·.isActive)
  | .publish _ => w.ran || s.leaderless
  | .read | .forget | .done => true

/-- An operation begins when no other one on its workflow is going on. An operation is lost, or a
connection, only when there is nothing to tell, and a load ends when it is complete. -/
def InTurn (c : TableRun) : Move OpStart Write LeaderMove → Bool
  | .step i w => (c.proc i).all fun p =>
      (p.stage ≠ .read || c.others i fun q => q.workflowId ≠ p.workflowId || !q.underway) &&
        p.inOrder c.shared w
  | .crash i => (c.proc i).all fun p => !p.owes || c.shared.leaderless
  | .env (.endLoad r) => (c.shared.term r).all fun t => t.loading = some ([], [])
  | .env (.disconnect r) =>
      (c.shared.term r).all (·.inbox = []) && c.procs.all fun p => p.all fun p => !p.owes
  | _ => true

/-! ## Entries -/

section
variable {cfg : TableConfig} {doc : WorkflowDocument} {found : Option WorkflowDocument}
  {id : String} {t t' : LeaderTerm} {s s' : Scheduling}

/-- A registration does not depend on the entry, or leaves it. -/
theorem registerEntry_cases (schedule : ScheduleConfig) :
    (∀ entry, registerEntry cfg schedule entry = entry) ∨
      ∀ entry, registerEntry cfg schedule entry = registerEntry cfg schedule none := by
  -- without an expression the call returns at once; else the entry is removed first
  cases hcron : schedule.cronExpression with
  | none => exact Or.inl fun entry => by simp [registerEntry, hcron]
  | some cron =>
      by_cases hempty : cron = ""
      · exact Or.inl fun entry => by simp [registerEntry, hcron, hempty]
      · exact Or.inr fun entry => by simp [registerEntry, hcron, hempty]

/-- A registration gives a scheduled workflow its entry. -/
theorem registerEntry_eq_cronEntry (h : doc.scheduled = true) :
    registerEntry cfg doc.schedule none = doc.cronEntry cfg := by
  unfold registerEntry WorkflowDocument.cronEntry
  cases doc.schedule.cronExpression with
  | none => rfl
  | some cron =>
      by_cases hempty : cron = ""
      · simp [hempty]
      · simp [h, hempty]

theorem cronEntry_eq_none (h : doc.loaded = false) : doc.cronEntry cfg = none := by
  unfold WorkflowDocument.cronEntry
  cases hcron : doc.schedule.cronExpression with
  | none => rfl
  | some cron =>
      have hscheduled : doc.scheduled = false := by
        simpa [WorkflowDocument.loaded, hcron] using h
      simp [hscheduled]

namespace Refresh

/-- Nor does any other refresh depend on the entry, unless it leaves it. -/
theorem apply_cases (cfg : TableConfig) (action : Refresh) :
    (∀ entry, apply cfg entry action = entry) ∨
      ∀ entry, apply cfg entry action = apply cfg none action := by
  cases action with
  | register schedule => exact registerEntry_cases schedule
  | unregister => exact Or.inr fun _ => rfl

/-- To register twice is to register once. -/
theorem apply_apply (action : Refresh) (entry : Option CronTrigger) :
    apply cfg (apply cfg entry action) action = apply cfg entry action := by
  rcases action.apply_cases cfg with hkeeps | hsets
  · rw [hkeeps, hkeeps]
  · rw [hsets, hsets entry]

/-- The refresh for a deployed workflow gives the entry that the document asks for. -/
theorem ofSchedule_apply (doc : WorkflowDocument) (hdeployed : doc.status = .written .deployed)
    (hactive : doc.isActive = true) (entry : Option CronTrigger) :
    apply cfg entry (.ofSchedule doc.schedule) = doc.cronEntry cfg := by
  unfold ofSchedule
  split
  next hwanted =>
    obtain ⟨henabled, hcron⟩ := (Bool.and_eq_true _ _).mp hwanted
    have hscheduled : doc.scheduled = true := by
      simp [WorkflowDocument.scheduled, hdeployed, hactive, henabled]
    obtain ⟨cron, hsome, hne⟩ := (Option.any_eq_true _ _).mp hcron
    calc registerEntry cfg doc.schedule entry
      _ = registerEntry cfg doc.schedule none := by
        have hne : cron ≠ "" := by simpa using hne
        simp [registerEntry, hsome, hne]
      _ = doc.cronEntry cfg := registerEntry_eq_cronEntry hscheduled
  next hunwanted =>
    unfold WorkflowDocument.cronEntry
    cases hcron : doc.schedule.cronExpression with
    | none => rfl
    | some cron =>
        by_cases henabled : doc.schedule.enabled = true
        · have hempty : cron = "" := by
            simpa [ScheduleConfig.wanted, hcron, henabled] using hunwanted
          simp [apply, hempty]
        · simp [apply, WorkflowDocument.scheduled, henabled]

end Refresh

/-- What an operation tells the scheduler is what the active workflow asks for that it leaves, if
the document is still the one it has read. -/
theorem ScheduleOp.refresh_apply {op : ScheduleOp} {action : Refresh} (hactive : doc.isActive = true)
    (h : op.refresh doc = some action) (entry : Option CronTrigger) :
    action.apply cfg entry = (op.write doc doc).cronEntry cfg := by
  cases op with
  | deploy =>
      obtain ⟨hwanted, hsome⟩ := Option.ite_none_right_eq_some.mp h
      cases hsome
      have hright : Refresh.apply cfg entry (.ofSchedule doc.schedule) =
          ({ doc with status := .written .deployed } : WorkflowDocument).cronEntry cfg :=
        Refresh.ofSchedule_apply { doc with status := .written .deployed } rfl hactive entry
      rwa [Refresh.ofSchedule, if_pos hwanted] at hright
  | undeploy =>
      cases h
      have hoff : ({ doc with status := .written .draft } : WorkflowDocument).loaded = false := by
        simp [WorkflowDocument.loaded, WorkflowDocument.scheduled]
      exact (cronEntry_eq_none hoff).symm
  | patchSchedule enabled cronExpression =>
      obtain ⟨hdeployed, hsome⟩ := Option.ite_none_right_eq_some.mp h
      cases hsome
      exact Refresh.ofSchedule_apply
        { doc with schedule := doc.schedule.patch enabled cronExpression } hdeployed hactive entry
  | rollback schedule =>
      obtain ⟨hdeployed, hsome⟩ := Option.ite_none_right_eq_some.mp h
      cases hsome
      exact Refresh.ofSchedule_apply { doc with schedule := schedule } hdeployed hactive entry
  | update schedule | archive | restore | delete | fire => cases h

/-- Refreshes in a row set the entry as well, or leave it. -/
theorem Refresh.foldl_cases (cfg : TableConfig) (actions : List Refresh) :
    (∀ entry, actions.foldl (Refresh.apply cfg) entry = entry) ∨
      ∃ last, ∀ entry, actions.foldl (Refresh.apply cfg) entry = last := by
  induction actions with
  | nil => exact Or.inl fun _ => rfl
  | cons action actions ih =>
      simp only [List.foldl_cons]
      rcases ih with hkeeps | ⟨last, hlast⟩
      · rcases action.apply_cases cfg with hkeeps' | hsets
        · exact Or.inl fun entry => by rw [hkeeps, hkeeps']
        · exact Or.inr ⟨apply cfg none action, fun entry => by rw [hkeeps, hsets]⟩
      · exact Or.inr ⟨last, fun entry => hlast _⟩

/-- The load registers nothing for the document. -/
def WorkflowDocument.Inert (cfg : TableConfig) (doc : WorkflowDocument) : Prop :=
  doc.cronEntry cfg = none ∧
    (doc.loaded = true → ∀ entry, registerEntry cfg doc.schedule entry = entry)

theorem inert_of_not_loaded (h : doc.loaded = false) : doc.Inert cfg :=
  ⟨cronEntry_eq_none h, fun hloaded => by simp [h] at hloaded⟩

theorem inert_of_not_wanted (h : doc.schedule.wanted = false) : doc.Inert cfg := by
  unfold WorkflowDocument.Inert WorkflowDocument.cronEntry
  cases hcron : doc.schedule.cronExpression with
  | none => exact ⟨rfl, fun _ _ => by simp [registerEntry, hcron]⟩
  | some cron =>
      by_cases henabled : doc.schedule.enabled = true
      · have hempty : cron = "" := by simpa [ScheduleConfig.wanted, hcron, henabled] using h
        simp [hempty, registerEntry, hcron]
      · simp [WorkflowDocument.scheduled, WorkflowDocument.loaded, henabled]

/-- A write that no message follows, of an operation that may publish, changes nothing for the
tables. -/
theorem ScheduleOp.inert_write {op : ScheduleOp} (hpublished : op.unpublished = false)
    (hrefresh : op.refresh doc = none) (hupdate : ∀ schedule, op ≠ .update (some schedule)) :
    op.write doc doc = doc ∨ doc.Inert cfg ∧ (op.write doc doc).Inert cfg := by
  have hdraft : ∀ {doc : WorkflowDocument}, doc.status ≠ .written .deployed → doc.Inert cfg :=
    fun hstatus => inert_of_not_loaded (by simp [WorkflowDocument.loaded,
      WorkflowDocument.scheduled, hstatus])
  cases op with
  | deploy =>
      have hunwanted : doc.schedule.wanted = false := by simpa [refresh] using hrefresh
      exact Or.inr ⟨inert_of_not_wanted hunwanted, inert_of_not_wanted hunwanted⟩
  | undeploy => cases hrefresh
  | update schedule =>
      cases schedule with
      | none => exact Or.inl rfl
      | some schedule => exact absurd rfl (hupdate schedule)
  | patchSchedule enabled cronExpression =>
      have hstatus : doc.status ≠ .written .deployed := by simpa [refresh] using hrefresh
      exact Or.inr ⟨hdraft hstatus, hdraft hstatus⟩
  | rollback schedule =>
      have hstatus : doc.status ≠ .written .deployed := by simpa [refresh] using hrefresh
      exact Or.inr ⟨hdraft hstatus, hdraft hstatus⟩
  | archive | restore | delete => cases hpublished
  | fire => exact Or.inl rfl

/-- After an operation that publishes nothing the workflow asks for no job. -/
theorem ScheduleOp.inert_unpublished {op : ScheduleOp} (h : op.unpublished = true) :
    (op.write doc doc).Inert cfg := by
  apply inert_of_not_loaded
  cases op with
  | archive | restore | delete =>
      simp [write, WorkflowDocument.loaded, WorkflowDocument.scheduled]
  | deploy | undeploy | update | patchSchedule | rollback | fire => cases h

/-! ## Terms -/

/-- A leader listens after its load, and has messages only while it listens. -/
structure LeaderTerm.WellFormed (t : LeaderTerm) : Prop where
  listening : t.listening = true → t.loading = none
  inbox : t.listening = false → t.inbox = []

namespace LeaderTerm

@[simp] theorem refresh_listening (m : RefreshMessage) :
    (t.refresh cfg m).listening = t.listening := rfl

@[simp] theorem receive_listening (m : RefreshMessage) :
    (t.receive m).listening = t.listening := by
  unfold receive
  split <;> rfl

theorem idle_receive {m : RefreshMessage} (hne : m.workflowId ≠ id) (h : t.idle id = true) :
    (t.receive m).idle id = true := by
  unfold receive
  split
  · simpa [idle, hne] using h
  · exact h

/-- A refresh to the entry that the table is heading for makes no difference in the end. -/
theorem outcome_refresh_of_eq {m : RefreshMessage} {entry : Option CronTrigger}
    (hm : m.action.apply cfg (t.jobs m.workflowId) = entry)
    (h : t.outcome cfg found m.workflowId = entry) :
    (t.refresh cfg m).outcome cfg found m.workflowId = entry := by
  have hjobs : (t.refresh cfg m).jobs m.workflowId = entry :=
    (Function.update_self _ _ _).trans hm
  show (t.pending found m.workflowId).foldl (Refresh.apply cfg) _ = entry
  rw [hjobs]
  rcases Refresh.foldl_cases cfg (t.pending found m.workflowId) with hkeeps | ⟨last, hlast⟩
  · exact hkeeps entry
  · rw [hlast, ← h, outcome, hlast]

/-- Nor does one where nothing else is on its way. -/
theorem outcome_refresh_of_idle {m : RefreshMessage} (hidle : t.idle m.workflowId = true) :
    (t.refresh cfg m).outcome cfg found m.workflowId =
      m.action.apply cfg (t.jobs m.workflowId) := by
  simp only [idle, Bool.and_eq_true, decide_eq_true_eq, List.all_eq_true] at hidle
  obtain ⟨hloading, hinbox⟩ := hidle
  have hpending : (t.refresh cfg m).pending found m.workflowId = [] := by
    simpa [pending, toLoad, refresh, put, hloading] using hinbox
  rw [outcome, hpending]
  exact Function.update_self _ _ _

/-- The load does not tell one inert document from another. -/
theorem outcome_inert {doc' : WorkflowDocument} (h : doc.Inert cfg) (h' : doc'.Inert cfg) :
    t.outcome cfg (some doc') id = t.outcome cfg (some doc) id := by
  have hload : ∀ doc : WorkflowDocument, doc.Inert cfg → ∀ entry,
      (((some doc).filter (·.loaded)).toList.map fun doc => Refresh.register doc.schedule).foldl
        (Refresh.apply cfg) entry = entry := by
    intro doc hinert entry
    by_cases hloaded : doc.loaded = true
    · simpa [Option.filter, hloaded, Refresh.apply] using hinert.2 hloaded entry
    · simp [Option.filter, hloaded]
  unfold outcome pending toLoad
  cases t.loading with
  | none => rfl
  | some l =>
      simp only [Option.elim_some]
      split
      · simp only [List.foldl_append, hload _ h, hload _ h']
      · rfl

theorem outcome_refresh_ne {m : RefreshMessage} (hne : m.workflowId ≠ id) :
    (t.refresh cfg m).outcome cfg found id = t.outcome cfg found id := by
  have hjobs : (t.refresh cfg m).jobs id = t.jobs id :=
    Function.update_of_ne (Ne.symm hne) _ _
  unfold outcome
  rw [hjobs]
  rfl

theorem outcome_receive (m : RefreshMessage) :
    (t.receive m).outcome cfg found id =
      if t.listening = true ∧ m.workflowId = id then m.action.apply cfg (t.outcome cfg found id)
      else t.outcome cfg found id := by
  unfold receive
  by_cases hlistening : t.listening = true
  · by_cases hid : m.workflowId = id <;>
      simp [outcome, pending, toLoad, hlistening, hid]
  · simp [hlistening]

theorem outcome_fetch {find : String → Option WorkflowDocument} (h : t.fetch find = some t') :
    t'.outcome cfg (find id) id = t.outcome cfg (find id) id := by
  unfold fetch at h
  split at h
  next id' todo buffer hloading =>
    cases h
    -- the document moves from what is still to be read to what was read
    by_cases hid : id' = id
    · subst hid
      -- an id that the cursor gives twice is registered twice, to the same effect
      cases hfound : (find id').filter (·.loaded) with
      | none => simp [outcome, pending, toLoad, hloading, hfound]
      | some doc =>
          by_cases htodo : id' ∈ todo
          · simp [outcome, pending, toLoad, hloading, hfound, htodo, Refresh.apply_apply]
          · simp [outcome, pending, toLoad, hloading, hfound, htodo]
    · have hother : ((((find id').filter (·.loaded)).toList.map fun doc => (id', doc.schedule)).filter
          (·.1 = id)) = [] := by
        apply List.filter_eq_nil_iff.mpr
        rintro p hp
        obtain ⟨doc, -, rfl⟩ := List.mem_map.mp hp
        simpa using hid
      have htodo : id ∈ id' :: todo ↔ id ∈ todo := by simp [Ne.symm hid]
      simp only [outcome, pending, toLoad, hloading, Option.elim_some, List.filter_append, hother,
        List.append_nil, htodo]
  next => cases h

theorem outcome_register (h : t.register cfg = some t') :
    t'.outcome cfg found id = t.outcome cfg found id := by
  unfold register at h
  split at h
  next todo id' schedule buffer hloading =>
    cases h
    by_cases hid : id' = id
    · subst hid
      simp [outcome, pending, toLoad, hloading, refresh, put]
    · rw [outcome_refresh_ne hid]
      simp [outcome, pending, toLoad, hloading, hid]
  next => cases h

theorem outcome_endLoad (hloading : t.loading = some ([], [])) (h : t.endLoad = some t') :
    t'.outcome cfg found id = t.outcome cfg found id := by
  obtain ⟨l, -, rfl⟩ := Option.map_eq_some_iff.mp h
  simp [outcome, pending, toLoad, hloading]

theorem outcome_subscribe (hwf : t.WellFormed) (h : t.subscribe = some t') :
    t'.outcome cfg found id = t.outcome cfg found id := by
  unfold subscribe at h
  split at h
  next hidle =>
    cases h
    have hinbox : t.inbox = [] := hwf.inbox (by simpa using hidle.2)
    simp [outcome, pending, toLoad, hinbox]
  next => cases h

theorem outcome_deliver (hwf : t.WellFormed) (h : t.deliver cfg = some t') :
    t'.outcome cfg found id = t.outcome cfg found id := by
  unfold deliver at h
  split at h
  next m inbox hinbox =>
    cases h
    -- a leader that has messages listens, so its load is over
    have hloading : t.loading = none := by
      apply hwf.listening
      by_contra hlistening
      simp [hwf.inbox (by simpa using hlistening)] at hinbox
    by_cases hid : m.workflowId = id
    · subst hid
      simp [outcome, pending, toLoad, hloading, hinbox, refresh, put]
    · rw [outcome_refresh_ne hid]
      simp [outcome, pending, toLoad, hloading, hinbox, hid]
  next => cases h

theorem outcome_disconnect (hinbox : t.inbox = []) (h : t.disconnect = some t') :
    t'.outcome cfg found id = t.outcome cfg found id := by
  unfold disconnect at h
  split at h
  next =>
    cases h
    simp [outcome, pending, toLoad, hinbox]
  next => cases h

/-- A new leader is heading for what it will load. -/
theorem outcome_becomeLeader (s : Scheduling) (id : String) :
    LeaderTerm.outcome cfg (s.find id) id { loading := some (s.ids, []) } =
      (s.find id).bind (·.cronEntry cfg) := by
  unfold Scheduling.find
  by_cases hid : id ∈ s.ids
  · by_cases hloaded : (s.docs id).loaded = true
    · have hscheduled : (s.docs id).scheduled = true := by
        unfold WorkflowDocument.loaded at hloaded
        exact (Bool.and_eq_true_iff.mp hloaded).1
      simpa [outcome, pending, toLoad, hid, Option.filter, hloaded, Refresh.apply] using
        registerEntry_eq_cronEntry hscheduled
    · simp [outcome, pending, toLoad, hid, Option.filter, hloaded,
        cronEntry_eq_none (Bool.eq_false_iff.mpr hloaded)]
  · simp [outcome, pending, toLoad, hid]

end LeaderTerm

/-! ## Replicas -/

namespace Scheduling

theorem term_eq_some {r : Nat} : s.term r = some t ↔ s.replicas[r]? = some (some t) :=
  Option.join_eq_some_iff

theorem leaders_iff {k : Nat → LeaderTerm → Bool} :
    s.leaders k = true ↔ ∀ r t, s.term r = some t → k r t = true := by
  simp only [leaders, List.all_eq_true, Option.all_eq_true]
  constructor
  · intro h r t ht
    exact h _ (List.mk_mem_zipIdx_iff_getElem?.mpr (term_eq_some.mp ht)) t rfl
  · rintro h ⟨o, r⟩ ho t ht
    exact h r t (term_eq_some.mpr (by rw [List.mk_mem_zipIdx_iff_getElem?.mp ho]; exact congrArg some ht))

theorem leaderless_iff : s.leaderless = true ↔ ∀ r t, s.term r ≠ some t := by
  simp [leaderless, leaders_iff]

theorem term_onReplica {r r' : Nat} {f : LeaderTerm → LeaderTerm}
    (h : (s.onReplica r f).term r' = some t') :
    ∃ t, s.term r' = some t ∧ (r' = r ∧ t' = f t ∨ r' ≠ r ∧ t' = t) := by
  rw [term_eq_some, onReplica, List.getElem?_modify] at h
  obtain ⟨o, ho, heq⟩ := Option.map_eq_some_iff.mp h
  by_cases hr : r = r'
  · simp only [hr, if_true] at heq
    obtain ⟨t, rfl, rfl⟩ := Option.map_eq_some_iff.mp heq
    exact ⟨t, term_eq_some.mpr ho, Or.inl ⟨hr.symm, rfl⟩⟩
  · simp only [hr, if_false] at heq
    subst heq
    exact ⟨t', term_eq_some.mpr ho, Or.inr ⟨Ne.symm hr, rfl⟩⟩

theorem term_publish {r : Nat} {m : RefreshMessage}
    (h : (s.publish m).term r = some t') : ∃ t, s.term r = some t ∧ t' = t.receive m := by
  rw [term_eq_some, publish, List.getElem?_map] at h
  obtain ⟨o, ho, heq⟩ := Option.map_eq_some_iff.mp h
  obtain ⟨t, rfl, rfl⟩ := Option.map_eq_some_iff.mp heq
  exact ⟨t, term_eq_some.mpr ho, rfl⟩

theorem term_setTerm {r r' : Nat} {o : Option LeaderTerm}
    (h : (s.setTerm r o).term r' = some t') : r = r' ∧ o = some t' ∨ s.term r' = some t' := by
  rw [term_eq_some, setTerm, List.getElem?_set] at h
  by_cases hr : r = r'
  · simp only [hr, if_true] at h
    split at h
    · exact Or.inl ⟨hr, Option.some.inj h⟩
    · cases h
  · simp only [hr, if_false] at h
    exact Or.inr (term_eq_some.mpr h)

theorem find_setDoc_ne {k : String} (hne : id ≠ k) : (s.setDoc k doc).find id = s.find id := by
  simp [find, setDoc, Function.update_of_ne hne]

theorem find_setDoc (s : Scheduling) (id : String) (f : WorkflowDocument → WorkflowDocument) :
    (s.setDoc id (f (s.docs id))).find id = (s.find id).map f := by
  by_cases hid : id ∈ s.ids <;> simp [find, setDoc, hid]

end Scheduling

/-! ## What operations go by -/

theorem cronEntry_of_inactive (h : doc.isActive = false) : doc.cronEntry cfg = none :=
  cronEntry_eq_none (by simp [WorkflowDocument.loaded, WorkflowDocument.scheduled, h])

namespace Refresh

/-- The refresh is what the document asks for. -/
def Right (cfg : TableConfig) (found : Option WorkflowDocument) (action : Refresh) : Prop :=
  ∀ entry, action.apply cfg entry = found.bind (·.cronEntry cfg)

/-- A deployed workflow is told of as it asks, unless it has been deleted. -/
theorem right_ofSchedule (hdeployed : doc.status = .written .deployed)
    (h : ofSchedule doc.schedule = .unregister ∨ doc.isActive = true) :
    (ofSchedule doc.schedule).Right cfg (some doc) := by
  intro entry
  by_cases hactive : doc.isActive = true
  · exact ofSchedule_apply doc hdeployed hactive entry
  · rw [h.resolve_right hactive]
    exact (cronEntry_of_inactive (Bool.eq_false_iff.mpr hactive)).symm

end Refresh

/-- So is the document that an operation leaves. -/
theorem ScheduleOp.right_refresh {op : ScheduleOp} {action : Refresh}
    (hrefresh : op.refresh doc = some action)
    (h : action = .unregister ∨ (op.write doc doc).isActive = true) :
    action.Right cfg (some (op.write doc doc)) := by
  intro entry
  by_cases hactive : doc.isActive = true
  · exact refresh_apply hactive hrefresh entry
  · have hkept : (op.write doc doc).isActive = doc.isActive := by
      cases op with
      | deploy | undeploy | patchSchedule | rollback => rfl
      | update | archive | restore | delete | fire => cases hrefresh
    rw [hkept] at h
    rw [h.resolve_right hactive]
    exact (cronEntry_of_inactive (hkept.trans (Bool.eq_false_iff.mpr hactive))).symm

namespace Operation

variable {w : Write} {p p' : Operation} {read : WorkflowDocument} {r : Nat}

/-- The operation has still to reach the leader on a replica, and will. -/
def Reaches (s : Scheduling) (p : Operation) (r : Nat) (t : LeaderTerm) : Prop :=
  match p.stage with
  | .reread =>
      t.listening = true ∧ (s.find p.workflowId).any (·.status = .written .deployed) = true
  | .tell _ | .publish _ => t.listening = true
  | .forget => r = p.replica ∧ t.idle p.workflowId = true
  | .read | .write _ | .done => False

/-- What the operation goes by is still so. -/
def Stands (cfg : TableConfig) (s : Scheduling) (p : Operation) : Prop :=
  match p.stage with
  | .write read => s.find p.workflowId = some read
  | .tell action =>
      action = .unregister ∨ (s.find p.workflowId).any (·.isActive) = true →
        action.Right cfg (s.find p.workflowId)
  | .publish action => action.Right cfg (s.find p.workflowId)
  | .forget => s.cronEntry cfg p.workflowId = none
  | .read | .reread | .done => True

theorem owes_of_reaches (h : p.Reaches s r t) : p.owes = true := by
  unfold Reaches at h
  unfold owes
  cases hstage : p.stage <;> simp [hstage] at h ⊢

theorem underway_of_owes (h : p.owes = true) : p.underway = true := by
  unfold owes at h
  unfold underway
  cases hstage : p.stage <;> simp [hstage] at h ⊢

end Operation

/-- The table is heading for what the document asks for. -/
def LeaderTerm.Heads (cfg : TableConfig) (s : Scheduling) (id : String) (t : LeaderTerm) : Prop :=
  t.outcome cfg (s.find id) id = s.cronEntry cfg id

/-- Every table is heading for what the document asks for, or the operation will reach it. -/
def Scheduling.Reached (cfg : TableConfig) (s : Scheduling) (p : Operation) : Prop :=
  ∀ r t, s.term r = some t → t.Heads cfg s p.workflowId ∨ p.Reaches s r t

theorem LeaderTerm.heads_of_inert {doc' : WorkflowDocument} (hfound : s.find id = some doc)
    (hfound' : s'.find id = some doc') (h : doc.Inert cfg) (h' : doc'.Inert cfg)
    (hheads : t.Heads cfg s id) : t.Heads cfg s' id := by
  unfold Heads Scheduling.cronEntry at hheads ⊢
  rw [hfound, Option.bind_some, h.1] at hheads
  rw [hfound', Option.bind_some, h'.1, outcome_inert h h', hheads]

/-! ## Steps of operations -/

namespace Operation

variable {w : Write} {p p' : Operation} {read : WorkflowDocument} {r : Nat}

/-- What follows the write of an operation that may publish. -/
theorem afterWrite_cases (cfg : TableConfig) (read : WorkflowDocument)
    (hpublished : p.op.unpublished = false) :
    p.afterWrite read = .done ∧
      (p.op.write read read = read ∨ read.Inert cfg ∧ (p.op.write read read).Inert cfg) ∨
    (∃ schedule, p.op = .update (some schedule) ∧ p.afterWrite read = .reread) ∨
    ∃ action, p.op.refresh read = some action ∧ p.afterWrite read = .tell action := by
  by_cases hupdate : ∃ schedule, p.op = .update (some schedule)
  · obtain ⟨schedule, hop⟩ := hupdate
    exact Or.inr (Or.inl ⟨schedule, hop, by simp [afterWrite, hop]⟩)
  · have hafter : p.afterWrite read = (p.op.refresh read).elim .done .tell := by
      unfold afterWrite
      split
      next schedule hop => exact absurd ⟨schedule, hop⟩ hupdate
      next hop => simp [hop, ScheduleOp.unpublished] at hpublished
      next => rfl
    cases hrefresh : p.op.refresh read with
    | none =>
        refine Or.inl ⟨by rw [hafter, hrefresh]; rfl, ?_⟩
        exact ScheduleOp.inert_write hpublished hrefresh fun schedule hop => hupdate ⟨schedule, hop⟩
    | some action => exact Or.inr (Or.inr ⟨action, rfl, by rw [hafter, hrefresh]; rfl⟩)

theorem afterWrite_unpublished (h : p.op.unpublished = true) :
    p.op = .delete ∧ p.afterWrite read = .forget ∨ p.afterWrite read = .done := by
  unfold afterWrite
  cases hop : p.op with
  | delete => exact Or.inl ⟨rfl, rfl⟩
  | archive | restore => exact Or.inr rfl
  | deploy | undeploy | update | patchSchedule | rollback | fire =>
      simp [hop, ScheduleOp.unpublished] at h

/-- The write of an operation that publishes nothing. -/
theorem write_unpublished {stage : OpStage} (hunpublished : p.op.unpublished = true)
    (hfound : s.find p.workflowId = some read)
    (hfound' : s'.find p.workflowId = some (p.op.write read read))
    (hstage : stage = if w.ok then p.afterWrite read else .done)
    (horder : p.writesInOrder s w read = true) (hterms : ∀ r, s'.term r = s.term r)
    (hheads : ∀ r t, s.term r = some t → t.Heads cfg s p.workflowId) :
    s'.Reached cfg { p with stage := stage } ∧ ({ p with stage := stage } : Operation).Stands cfg s' := by
  have hinert : (p.op.write read read).Inert cfg := ScheduleOp.inert_unpublished hunpublished
  constructor
  · intro r t ht
    rw [hterms] at ht
    simp only [writesInOrder, hunpublished, if_true, Bool.or_eq_true, Bool.not_eq_true'] at horder
    rcases horder with hunscheduled | hown
    · exact Or.inl (LeaderTerm.heads_of_inert hfound hfound' (inert_of_not_loaded hunscheduled)
        hinert (hheads r t ht))
    · -- the leader on the own replica is told later
      have hown := Scheduling.leaders_iff.mp hown r t ht
      simp only [Bool.and_eq_true, decide_eq_true_eq] at hown
      obtain ⟨⟨⟨hdelete, hok⟩, hr⟩, hidle⟩ := hown
      have hforget : stage = .forget := by simp [hstage, hok, afterWrite, hdelete]
      refine Or.inr ?_
      simp only [Reaches, hforget]
      exact ⟨hr, hidle⟩
  · have hstages : stage = .forget ∨ stage = .done := by
      rw [hstage]
      split
      · exact (afterWrite_unpublished hunpublished).imp_left And.right
      · exact Or.inr rfl
    rcases hstages with rfl | rfl
    · show s'.cronEntry cfg p.workflowId = none
      rw [Scheduling.cronEntry, hfound']
      exact hinert.1
    · trivial

/-- The write of an operation that may publish. -/
theorem write_published {stage : OpStage} (hpublished : p.op.unpublished = false)
    (hfound : s.find p.workflowId = some read)
    (hfound' : s'.find p.workflowId = some (p.op.write read read))
    (hstage : stage = if w.ok then p.afterWrite read else .done)
    (horder : p.writesInOrder s w read = true) (hterms : ∀ r, s'.term r = s.term r)
    (hheads : ∀ r t, s.term r = some t → t.Heads cfg s p.workflowId) :
    s'.Reached cfg { p with stage := stage } ∧ ({ p with stage := stage } : Operation).Stands cfg s' := by
  simp only [writesInOrder, hpublished, Bool.false_eq_true, if_false, Bool.or_eq_true,
    decide_eq_true_eq] at horder
  rcases afterWrite_cases cfg read hpublished with
    ⟨hdone, hchange⟩ | ⟨schedule, hop, hreread⟩ | ⟨action, hrefresh, htell⟩
  · -- nothing follows, and nothing has changed for the tables
    have hstage : stage = .done := by rw [hstage, hdone, ite_self]
    subst hstage
    refine ⟨fun r t ht => Or.inl ?_, trivial⟩
    rw [hterms] at ht
    rcases hchange with hsame | ⟨hinert, hinert'⟩
    · have hfind : s'.find p.workflowId = s.find p.workflowId := by rw [hfound', hsame, hfound]
      have hheads := hheads r t ht
      unfold LeaderTerm.Heads Scheduling.cronEntry at hheads ⊢
      rwa [hfind]
    · exact LeaderTerm.heads_of_inert hfound hfound' hinert hinert' (hheads r t ht)
  · -- the document is read again, and told of if it is deployed
    have hleaders := Scheduling.leaders_iff.mp (horder.resolve_left (by simp [hreread]))
    constructor
    · intro r t ht
      rw [hterms] at ht
      obtain ⟨hok, hlistening⟩ := (Bool.and_eq_true _ _).mp (hleaders r t ht)
      have hstage : stage = .reread := by simp [hstage, hok, hreread]
      by_cases hdeployed : read.status = .written .deployed
      · refine Or.inr ?_
        simp only [Reaches, hstage, hfound', hop]
        exact ⟨hlistening, by simpa [ScheduleOp.write] using hdeployed⟩
      · refine Or.inl (LeaderTerm.heads_of_inert hfound hfound' ?_ ?_ (hheads r t ht))
        · exact inert_of_not_loaded (by simp [WorkflowDocument.loaded,
            WorkflowDocument.scheduled, hdeployed])
        · exact inert_of_not_loaded (by simp [hop, ScheduleOp.write, WorkflowDocument.loaded,
            WorkflowDocument.scheduled, hdeployed])
    · cases hok : w.ok <;> simp [Stands, hstage, hok, hreread]
  · -- the leaders are told what the document asks for
    have hleaders := Scheduling.leaders_iff.mp (horder.resolve_left (by simp [htell]))
    constructor
    · intro r t ht
      rw [hterms] at ht
      obtain ⟨hok, hlistening⟩ := (Bool.and_eq_true _ _).mp (hleaders r t ht)
      refine Or.inr ?_
      simp only [Reaches, hstage, hok, if_true, htell]
      exact hlistening
    · cases hok : w.ok with
      | false => simp [Stands, hstage, hok]
      | true =>
          simp only [Stands, hstage, hok, if_true, htell, hfound', Option.any_some]
          exact fun h => ScheduleOp.right_refresh hrefresh h

/-- What a step does to the documents and the tables, and for which workflow. -/
theorem step_effect (h : p.step cfg w s = some (s', p')) :
    p'.workflowId = p.workflowId ∧
      (s' = s ∨ (∃ doc, s' = s.setDoc p.workflowId doc) ∨
        (∃ action, s' = s.onReplica p.replica (·.refresh cfg ⟨p.workflowId, action⟩)) ∨
        ∃ action, s' = s.publish ⟨p.workflowId, action⟩) := by
  unfold step at h
  split at h
  next => cases h; exact ⟨rfl, Or.inl rfl⟩
  next read _ =>
    cases h
    refine ⟨rfl, ?_⟩
    by_cases hran : w.ran = true
    · exact Or.inr (Or.inl ⟨p.op.write read (s.docs p.workflowId), by simp [hran]⟩)
    · exact Or.inl (by simp [hran])
  next => cases h; exact ⟨rfl, Or.inl rfl⟩
  next action _ => cases h; exact ⟨rfl, Or.inr (Or.inr (Or.inl ⟨action, rfl⟩))⟩
  next action _ =>
    cases h
    refine ⟨rfl, ?_⟩
    by_cases hran : w.ran = true
    · exact Or.inr (Or.inr (Or.inr ⟨action, by simp [hran]⟩))
    · exact Or.inl (by simp [hran])
  next => cases h; exact ⟨rfl, Or.inr (Or.inr (Or.inl ⟨.unregister, rfl⟩))⟩
  next => cases h

/-- A step leaves the terms well formed. -/
theorem step_wellFormed (h : p.step cfg w s = some (s', p'))
    (hwf : ∀ r t, s.term r = some t → t.WellFormed) (r : Nat) (t' : LeaderTerm)
    (ht' : s'.term r = some t') : t'.WellFormed := by
  rcases (step_effect h).2 with rfl | ⟨doc, rfl⟩ | ⟨action, rfl⟩ | ⟨action, rfl⟩
  · exact hwf r t' ht'
  · exact hwf r t' ht'
  · obtain ⟨t, ht, ⟨-, rfl⟩ | ⟨-, rfl⟩⟩ := Scheduling.term_onReplica ht'
    · exact ⟨(hwf r t ht).listening, (hwf r t ht).inbox⟩
    · exact hwf r t' ht
  · obtain ⟨t, ht, rfl⟩ := Scheduling.term_publish ht'
    by_cases hlistening : t.listening = true
    · have hloading := (hwf r t ht).listening hlistening
      constructor
      · simp [LeaderTerm.receive, hlistening, hloading]
      · simp [LeaderTerm.receive, hlistening]
    · simpa [LeaderTerm.receive, hlistening] using hwf r t ht

/-- A step in order reaches the leaders that the operation had to reach, or the operation goes on
to. -/
theorem step_reached (h : p.step cfg w s = some (s', p')) (hread : p.stage ≠ .read)
    (hstands : p.Stands cfg s) (horder : p.inOrder s w = true) (hreached : s.Reached cfg p) :
    s'.Reached cfg p' ∧ p'.Stands cfg s' := by
  unfold step at h
  cases hstage : p.stage with
  | read => exact absurd hstage hread
  | write read =>
      simp only [hstage, Option.some.injEq, Prod.mk.injEq] at h
      obtain ⟨rfl, rfl⟩ := h
      have hfound : s.find p.workflowId = some read := by simpa [Stands, hstage] using hstands
      have hheads : ∀ r t, s.term r = some t → t.Heads cfg s p.workflowId := fun r t ht =>
        (hreached r t ht).resolve_right (by simp [Reaches, hstage])
      cases hran : w.ran with
      | false =>
          -- nothing was written, and the operation ends with the error
          have hfailed : w.ok = false := by cases w <;> simp_all [Write.ran, Write.ok]
          simp only [hfailed, Bool.false_eq_true, if_false]
          exact ⟨fun r t ht => Or.inl (hheads r t ht), trivial⟩
      | true =>
          simp only [if_true]
          have horder : p.writesInOrder s w read = true := by
            simpa [inOrder, hstage, hran] using horder
          have hfound' := Scheduling.find_setDoc s p.workflowId (p.op.write read)
          rw [hfound, Option.map_some] at hfound'
          cases hkind : p.op.unpublished with
          | false => exact write_published hkind hfound hfound' rfl horder (fun _ => rfl) hheads
          | true => exact write_unpublished hkind hfound hfound' rfl horder (fun _ => rfl) hheads
  | reread =>
      simp only [hstage, Option.some.injEq, Prod.mk.injEq] at h
      obtain ⟨rfl, rfl⟩ := h
      have horder : w.ok = true ∨ s.leaderless = true := by simpa [inOrder, hstage] using horder
      cases hok : w.ok with
      | false =>
          have hnone := Scheduling.leaderless_iff.mp (horder.resolve_left (by simp [hok]))
          exact ⟨fun r t ht => absurd ht (hnone r t), trivial⟩
      | true =>
          simp only [if_true]
          have hdeployed : ∀ r t, s.term r = some t → t.Heads cfg s p.workflowId ∨
              t.listening = true ∧
                (s.find p.workflowId).any (·.status = .written .deployed) = true := by
            intro r t ht
            simpa only [Reaches, hstage] using hreached r t ht
          unfold afterReread
          split
          next doc hfound =>
            split
            next hstatus =>
              refine ⟨fun r t ht => (hdeployed r t ht).imp_right And.left, ?_⟩
              simp only [Stands, hfound, Option.any_some]
              exact Refresh.right_ofSchedule hstatus
            next hstatus =>
              refine ⟨fun r t ht => Or.inl ((hdeployed r t ht).resolve_right ?_), trivial⟩
              simp [hfound, hstatus]
          next hfound =>
            refine ⟨fun r t ht => Or.inl ((hdeployed r t ht).resolve_right ?_), trivial⟩
            simp [hfound]
  | tell action =>
      simp only [hstage, Option.some.injEq, Prod.mk.injEq] at h
      obtain ⟨rfl, rfl⟩ := h
      have hright : action.Right cfg (s.find p.workflowId) := by
        simp only [Stands, hstage] at hstands
        simp only [inOrder, hstage, Bool.or_eq_true, decide_eq_true_eq] at horder
        exact hstands horder
      refine ⟨fun r t' ht' => ?_, hright⟩
      obtain ⟨t, ht, ⟨-, rfl⟩ | ⟨-, rfl⟩⟩ := Scheduling.term_onReplica ht'
      · refine (hreached r t ht).imp (fun hheads => ?_) fun hreach => ?_
        · exact LeaderTerm.outcome_refresh_of_eq (m := ⟨p.workflowId, action⟩) (hright _) hheads
        · simpa [Reaches, hstage] using hreach
      · refine (hreached r t' ht).imp_right fun hreach => ?_
        simpa [Reaches, hstage] using hreach
  | publish action =>
      simp only [hstage, Option.some.injEq, Prod.mk.injEq] at h
      obtain ⟨rfl, rfl⟩ := h
      have hright : action.Right cfg (s.find p.workflowId) := by
        simpa [Stands, hstage] using hstands
      have horder : w.ran = true ∨ s.leaderless = true := by simpa [inOrder, hstage] using horder
      refine ⟨fun r t' ht' => Or.inl ?_, trivial⟩
      cases hran : w.ran with
      | false =>
          have hnone := Scheduling.leaderless_iff.mp (horder.resolve_left (by simp [hran]))
          simp only [hran, Bool.false_eq_true, if_false] at ht'
          exact absurd ht' (hnone r t')
      | true =>
          simp only [hran, if_true] at ht' ⊢
          obtain ⟨t, ht, rfl⟩ := Scheduling.term_publish ht'
          show (t.receive ⟨p.workflowId, action⟩).outcome cfg (s.find p.workflowId) p.workflowId = _
          rw [LeaderTerm.outcome_receive]
          split
          next => exact hright _
          next hdeaf =>
            -- a leader that has not subscribed is heading right without the message
            refine (hreached r t ht).resolve_right fun hreach => hdeaf ⟨?_, rfl⟩
            simpa only [Reaches, hstage] using hreach
  | forget =>
      simp only [hstage, Option.some.injEq, Prod.mk.injEq] at h
      obtain ⟨rfl, rfl⟩ := h
      have hnone : s.cronEntry cfg p.workflowId = none := by simpa [Stands, hstage] using hstands
      refine ⟨fun r t' ht' => Or.inl ?_, trivial⟩
      obtain ⟨t, ht, ⟨-, rfl⟩ | ⟨hr, rfl⟩⟩ := Scheduling.term_onReplica ht'
      · show (t.refresh cfg ⟨p.workflowId, .unregister⟩).outcome cfg (s.find p.workflowId)
          p.workflowId = s.cronEntry cfg p.workflowId
        rw [hnone]
        rcases hreached r t ht with hheads | hreach
        · exact LeaderTerm.outcome_refresh_of_eq (m := ⟨p.workflowId, .unregister⟩) rfl
            (hheads.trans hnone)
        · simp only [Reaches, hstage] at hreach
          exact LeaderTerm.outcome_refresh_of_idle (m := ⟨p.workflowId, .unregister⟩) hreach.2
      · refine (hreached r t' ht).resolve_right fun hreach => ?_
        simp only [Reaches, hstage] at hreach
        exact hr hreach.1
  | done => simp [hstage] at h

/-- A step is of no concern to other workflows. -/
theorem step_elsewhere (h : p.step cfg w s = some (s', p')) (hne : id ≠ p.workflowId) :
    s'.find id = s.find id ∧ ∀ r t', s'.term r = some t' → ∃ t, s.term r = some t ∧
      t'.outcome cfg (s.find id) id = t.outcome cfg (s.find id) id ∧
      t'.listening = t.listening ∧ (t.idle id = true → t'.idle id = true) := by
  -- nothing; a write; a change of the own table; a message
  rcases (step_effect h).2 with rfl | ⟨doc, rfl⟩ | ⟨action, rfl⟩ | ⟨action, rfl⟩
  · exact ⟨rfl, fun r t' ht' => ⟨t', ht', rfl, rfl, fun hidle => hidle⟩⟩
  · exact ⟨Scheduling.find_setDoc_ne hne, fun r t' ht' => ⟨t', ht', rfl, rfl, fun hidle => hidle⟩⟩
  · refine ⟨rfl, fun r t' ht' => ?_⟩
    obtain ⟨t, ht, ⟨-, rfl⟩ | ⟨-, rfl⟩⟩ := Scheduling.term_onReplica ht'
    · exact ⟨t, ht, LeaderTerm.outcome_refresh_ne (Ne.symm hne), rfl, fun hidle => hidle⟩
    · exact ⟨t', ht, rfl, rfl, fun hidle => hidle⟩
  · refine ⟨rfl, fun r t' ht' => ?_⟩
    obtain ⟨t, ht, rfl⟩ := Scheduling.term_publish ht'
    refine ⟨t, ht, ?_, LeaderTerm.receive_listening _, fun hidle => ?_⟩
    · rw [LeaderTerm.outcome_receive, if_neg fun h => hne h.2.symm]
    · exact LeaderTerm.idle_receive (Ne.symm hne) hidle

/-- A look-up finds what the operation then goes by. -/
theorem stands_afterRead : ({ p with
    stage := if w.ok then p.afterRead cfg (s.find p.workflowId) else .done } : Operation).Stands
      cfg s := by
  cases w.ok with
  | false => trivial
  | true =>
      simp only [if_true]
      unfold afterRead
      split
      next =>
        -- a call that does not find its workflow scheduled
        split
        next => trivial
        next hunscheduled =>
          show s.cronEntry cfg p.workflowId = none
          unfold Scheduling.cronEntry
          cases hfound : s.find p.workflowId with
          | none => rfl
          | some doc =>
              have hscheduled : doc.scheduled = false := by simpa [hfound] using hunscheduled
              exact cronEntry_eq_none (by simp [WorkflowDocument.loaded, hscheduled])
      next doc hfound _ =>
        split
        next => simpa only [Stands] using hfound
        next => trivial
      next => trivial

theorem Stands.of_find (hfind : s'.find p.workflowId = s.find p.workflowId)
    (h : p.Stands cfg s) : p.Stands cfg s' := by
  unfold Stands Scheduling.cronEntry at h ⊢
  rwa [hfind]

theorem stands_of_idle (h : p.underway = false) : p.Stands cfg s := by
  unfold underway at h
  unfold Stands
  cases hstage : p.stage <;> simp [hstage] at h ⊢

theorem Reaches.mono (h : p.Reaches s r t) (hfind : s'.find p.workflowId = s.find p.workflowId)
    (hlistening : t.listening = true → t'.listening = true)
    (hidle : t.idle p.workflowId = true → t'.idle p.workflowId = true) : p.Reaches s' r t' := by
  unfold Reaches at h ⊢
  rw [hfind]
  cases hstage : p.stage with
  | reread => simp only [hstage] at h; exact h.imp_left hlistening
  | tell action => simp only [hstage] at h; exact hlistening h
  | publish action => simp only [hstage] at h; exact hlistening h
  | forget => simp only [hstage] at h; exact h.imp_right hidle
  | read | write read | done => simp [hstage] at h

end Operation

end

/-! ## Runs -/

/-- An operation on the workflow. -/
def Operation.on (id : String) (p : Operation) : Bool := p.workflowId = id && p.underway

/-- Every table is heading for what the documents ask for, but for what an operation will reach. -/
structure TableInv (cfg : TableConfig) (c : TableRun) : Prop where
  terms : ∀ r t, c.shared.term r = some t → t.WellFormed
  stands : ∀ i p, c.proc i = some p → p.Stands cfg c.shared
  alone : ∀ id, c.AtMostOne (Operation.on id)
  reached : ∀ id r t, c.shared.term r = some t →
    t.Heads cfg c.shared id ∨ ∃ i p, c.proc i = some p ∧ p.workflowId = id ∧ p.Reaches c.shared r t

section
variable {cfg : TableConfig} {s s' : Scheduling} {c c' : TableRun} {t t' : LeaderTerm}

theorem Scheduling.lead_eq_some {r : Nat} {f : LeaderTerm → Option LeaderTerm}
    (h : s.lead r f = some s') :
    ∃ t t', s.term r = some t ∧ f t = some t' ∧ s' = s.setTerm r (some t') := by
  obtain ⟨t', hbind, rfl⟩ := Option.map_eq_some_iff.mp h
  obtain ⟨t, ht, hf⟩ := Option.bind_eq_some_iff.mp hbind
  exact ⟨t, t', ht, hf, rfl⟩

/-- A step of a leader leaves what its table is heading for, and what will reach it. -/
structure LeaderTerm.Kept (cfg : TableConfig) (s : Scheduling) (t t' : LeaderTerm) : Prop where
  wellFormed : t'.WellFormed
  outcome : ∀ id, t'.outcome cfg (s.find id) id = t.outcome cfg (s.find id) id
  listening : t.listening = true → t'.listening = true
  idle : ∀ id, t.idle id = true → t'.idle id = true

namespace LeaderTerm

theorem WellFormed.fetch {find : String → Option WorkflowDocument} (hwf : t.WellFormed)
    (h : t.fetch find = some t') : t'.WellFormed := by
  unfold LeaderTerm.fetch at h
  split at h
  next hloading =>
    cases h
    exact ⟨fun hlistening => by simp [hwf.listening hlistening] at hloading, hwf.inbox⟩
  next => cases h

theorem WellFormed.register (hwf : t.WellFormed) (h : t.register cfg = some t') :
    t'.WellFormed := by
  unfold LeaderTerm.register at h
  split at h
  next hloading =>
    cases h
    exact ⟨fun hlistening => by simp [hwf.listening hlistening] at hloading, hwf.inbox⟩
  next => cases h

theorem WellFormed.endLoad (hwf : t.WellFormed) (h : t.endLoad = some t') : t'.WellFormed := by
  obtain ⟨l, -, rfl⟩ := Option.map_eq_some_iff.mp h
  exact ⟨fun _ => rfl, hwf.inbox⟩

theorem WellFormed.subscribe (h : t.subscribe = some t') : t'.WellFormed := by
  unfold LeaderTerm.subscribe at h
  split at h
  next hidle =>
    cases h
    exact ⟨fun _ => hidle.1, fun _ => rfl⟩
  next => cases h

theorem WellFormed.deliver (hwf : t.WellFormed) (h : t.deliver cfg = some t') :
    t'.WellFormed := by
  unfold LeaderTerm.deliver at h
  split at h
  next hinbox =>
    cases h
    exact ⟨hwf.listening, fun hlistening => by simp [hwf.inbox hlistening] at hinbox⟩
  next => cases h

theorem WellFormed.disconnect (hwf : t.WellFormed) (h : t.disconnect = some t') :
    t'.WellFormed := by
  unfold LeaderTerm.disconnect at h
  split at h
  next hlistening =>
    cases h
    exact ⟨fun _ => hwf.listening hlistening, fun _ => rfl⟩
  next => cases h

theorem Kept.of_fetch (hwf : t.WellFormed) (h : t.fetch s.find = some t') : Kept cfg s t t' := by
  refine ⟨hwf.fetch h, fun id => outcome_fetch h, ?_, ?_⟩
  all_goals
    unfold LeaderTerm.fetch at h
    split at h
  · cases h
    exact fun hlistening => hlistening
  · cases h
  · next hloading => simp [LeaderTerm.idle, hloading]
  · cases h

theorem Kept.of_register (hwf : t.WellFormed) (h : t.register cfg = some t') : Kept cfg s t t' := by
  refine ⟨hwf.register h, fun id => outcome_register h, ?_, ?_⟩
  all_goals
    unfold LeaderTerm.register at h
    split at h
  · cases h
    exact fun hlistening => hlistening
  · cases h
  · next hloading => simp [LeaderTerm.idle, hloading]
  · cases h

theorem Kept.of_endLoad (hwf : t.WellFormed) (hcomplete : t.loading = some ([], []))
    (h : t.endLoad = some t') : Kept cfg s t t' := by
  refine ⟨hwf.endLoad h, fun id => outcome_endLoad hcomplete h, ?_, ?_⟩
  · obtain ⟨l, -, rfl⟩ := Option.map_eq_some_iff.mp h
    exact fun hlistening => hlistening
  · simp [LeaderTerm.idle, hcomplete]

theorem Kept.of_subscribe (hwf : t.WellFormed) (h : t.subscribe = some t') : Kept cfg s t t' := by
  refine ⟨.subscribe h, fun id => outcome_subscribe hwf h, ?_, ?_⟩
  all_goals
    unfold LeaderTerm.subscribe at h
    split at h
  · cases h
    exact fun _ => rfl
  · cases h
  · next hidle =>
    cases h
    simp [LeaderTerm.idle, hidle.1]
  · cases h

theorem Kept.of_deliver (hwf : t.WellFormed) (h : t.deliver cfg = some t') : Kept cfg s t t' := by
  refine ⟨hwf.deliver h, fun id => outcome_deliver hwf h, ?_, ?_⟩
  all_goals
    unfold LeaderTerm.deliver at h
    split at h
  · cases h
    exact fun hlistening => hlistening
  · cases h
  · next m inbox hinbox =>
    cases h
    intro id hidle
    simp only [LeaderTerm.idle, hinbox, List.all_cons, Bool.and_eq_true] at hidle ⊢
    exact ⟨hidle.1, hidle.2.2⟩
  · cases h

end LeaderTerm

namespace TableInv

/-- A replica gets another term, or loses it. -/
theorem setTerm (hinv : TableInv cfg c) (r : Nat) {o : Option LeaderTerm}
    (hwf : ∀ t', o = some t' → t'.WellFormed)
    (hright : ∀ t' id, o = some t' → t'.Heads cfg c.shared id ∨
      ∃ i p, c.proc i = some p ∧ p.workflowId = id ∧ p.Reaches c.shared r t') :
    TableInv cfg { c with shared := c.shared.setTerm r o } := by
  refine ⟨fun r' t' ht' => ?_, hinv.stands, hinv.alone, fun id r' t' ht' => ?_⟩
  · rcases Scheduling.term_setTerm ht' with ⟨-, hnew⟩ | hold
    · exact hwf t' hnew
    · exact hinv.terms r' t' hold
  · rcases Scheduling.term_setTerm ht' with ⟨rfl, hnew⟩ | hold
    · exact hright t' id hnew
    · exact hinv.reached id r' t' hold

/-- A step of a leader that is kept. -/
theorem lead (hinv : TableInv cfg c) {r : Nat} {f : LeaderTerm → Option LeaderTerm}
    (h : c.shared.lead r f = some s')
    (hkept : ∀ t t', c.shared.term r = some t → t.WellFormed → f t = some t' →
      LeaderTerm.Kept cfg c.shared t t') :
    TableInv cfg { c with shared := s' } := by
  obtain ⟨t, t', ht, hf, rfl⟩ := Scheduling.lead_eq_some h
  have hkept := hkept t t' ht (hinv.terms r t ht) hf
  apply hinv.setTerm r
  · rintro _ ⟨⟩
    exact hkept.wellFormed
  · rintro _ id ⟨⟩
    refine (hinv.reached id r t ht).imp (hkept.outcome id).trans ?_
    rintro ⟨i, p, hp, hid, hreach⟩
    exact ⟨i, p, hp, hid, hreach.mono rfl hkept.listening (hkept.idle _)⟩

theorem env {e : LeaderMove} (hinv : TableInv cfg c) (hok : InTurn c (.env e) = true)
    (h : e.apply cfg c.shared = some s') : TableInv cfg { c with shared := s' } := by
  cases e with
  | becomeLeader r =>
      simp only [LeaderMove.apply] at h
      split at h
      next =>
        cases h
        apply hinv.setTerm r
        · rintro _ ⟨⟩
          exact ⟨fun h => (Bool.false_ne_true h).elim, fun _ => rfl⟩
        · rintro _ id ⟨⟩
          exact Or.inl (LeaderTerm.outcome_becomeLeader c.shared id)
      next => cases h
  | loseLeadership r =>
      obtain ⟨t, -, rfl⟩ := Option.map_eq_some_iff.mp h
      apply hinv.setTerm r
      · rintro _ ⟨⟩
      · rintro _ _ ⟨⟩
  | fetch r => exact hinv.lead h fun t t' _ hwf hf => .of_fetch hwf hf
  | register r => exact hinv.lead h fun t t' _ hwf hf => .of_register hwf hf
  | endLoad r =>
      refine hinv.lead h fun t t' ht hwf hf => .of_endLoad hwf ?_ hf
      simpa [InTurn, ht] using hok
  | subscribe r => exact hinv.lead h fun t t' _ hwf hf => .of_subscribe hwf hf
  | deliver r => exact hinv.lead h fun t t' _ hwf hf => .of_deliver hwf hf
  | disconnect r =>
      obtain ⟨t, t', ht, hf, rfl⟩ := Scheduling.lead_eq_some h
      simp only [InTurn, ht, Option.all_some, Bool.and_eq_true, decide_eq_true_eq,
        List.all_eq_true, Option.all_eq_true, Bool.not_eq_true'] at hok
      obtain ⟨hinbox, hnone⟩ := hok
      have hwf := hinv.terms r t ht
      apply hinv.setTerm r
      · rintro _ ⟨⟩
        exact hwf.disconnect hf
      · rintro _ id ⟨⟩
        -- there is nothing to tell, so the table is heading right by itself
        refine Or.inl ((LeaderTerm.outcome_disconnect hinbox hf).trans ?_)
        refine (hinv.reached id r t ht).resolve_right ?_
        rintro ⟨i, p, hp, -, hreach⟩
        have howes := Operation.owes_of_reaches hreach
        rw [hnone _ (List.mem_of_getElem? (Configuration.proc_eq_some.mp hp)) p rfl] at howes
        cases howes

theorem crash {i : Nat} (hinv : TableInv cfg c) (hok : InTurn c (.crash i) = true)
    (halone : ∀ id, ({ c with procs := c.procs.set i none } : TableRun).AtMostOne
      (Operation.on id)) :
    TableInv cfg { c with procs := c.procs.set i none } := by
  refine ⟨hinv.terms, fun j p hp => ?_, halone, fun id r t ht => ?_⟩
  · rcases Configuration.proc_set (g := c.shared) hp with ⟨-, hlost⟩ | ⟨-, hold⟩
    · cases hlost
    · exact hinv.stands j p hold
  · refine (hinv.reached id r t ht).imp_right ?_
    rintro ⟨j, p, hp, hid, hreach⟩
    have hne : j ≠ i := by
      rintro rfl
      simp only [InTurn, hp, Option.all_some, Operation.owes_of_reaches hreach, Bool.not_true,
        Bool.false_or] at hok
      exact Scheduling.leaderless_iff.mp hok r t ht
    exact ⟨j, p, (Configuration.proc_set_ne hne).trans hp, hid, hreach⟩

/-- While an operation is going on, no other one on its workflow is. -/
theorem others_idle {i j : Nat} {p q : Operation} (hinv : TableInv cfg c) (hp : c.proc i = some p)
    (hunder : p.underway = true) (hq : c.proc j = some q) (hsame : q.workflowId = p.workflowId)
    (hne : j ≠ i) : q.underway = false := by
  refine Bool.eq_false_iff.mpr fun hqunder => hne ?_
  exact hinv.alone p.workflowId j i q p hq hp (by simp [Operation.on, hsame, hqunder])
    (by simp [Operation.on, hunder])

/-- So it is the one to reach the leaders. -/
theorem reached_by {i : Nat} {p : Operation} (hinv : TableInv cfg c) (hp : c.proc i = some p)
    (hunder : p.underway = true) : c.shared.Reached cfg p := by
  intro r t ht
  refine (hinv.reached p.workflowId r t ht).imp_right ?_
  rintro ⟨j, q, hq, hsame, hreach⟩
  by_cases hne : j = i
  · subst hne
    cases hp.symm.trans hq
    exact hreach
  · have hidle := hinv.others_idle hp hunder hq hsame hne
    simp [Operation.underway_of_owes (Operation.owes_of_reaches hreach)] at hidle

/-- A step for another workflow leaves what its table is heading for, and what will reach it. -/
theorem step_other {i : Nat} {w : Write} {p p' : Operation} {id : String} {r : Nat}
    (hinv : TableInv cfg c) (hp : c.proc i = some p) (h : p.step cfg w c.shared = some (s', p'))
    (hne : id ≠ p.workflowId) (ht' : s'.term r = some t') :
    t'.Heads cfg s' id ∨ ∃ j q, (⟨s', c.procs.set i (some p')⟩ : TableRun).proc j = some q ∧
      q.workflowId = id ∧ q.Reaches s' r t' := by
  obtain ⟨hfind, hterms⟩ := Operation.step_elsewhere h hne
  obtain ⟨t, ht, houtcome, hlistening, hidle⟩ := hterms r t' ht'
  refine (hinv.reached id r t ht).imp (fun hheads => ?_) ?_
  · unfold LeaderTerm.Heads Scheduling.cronEntry at hheads ⊢
    rw [hfind, houtcome, hheads]
  · rintro ⟨j, q, hq, rfl, hreach⟩
    have hji : j ≠ i := by
      rintro rfl
      cases hp.symm.trans hq
      exact hne rfl
    exact ⟨j, q, (Configuration.proc_set_ne hji).trans hq, rfl,
      hreach.mono hfind hlistening.trans hidle⟩

/-- An operation looks its workflow up. -/
theorem look {i : Nat} {w : Write} {p : Operation} (hinv : TableInv cfg c)
    (hp : c.proc i = some p) (hread : p.stage = .read) {stage : OpStage}
    (hstage : stage = if w.ok then p.afterRead cfg (c.shared.find p.workflowId) else .done)
    (halone : ∀ id, (⟨c.shared, c.procs.set i (some { p with stage := stage })⟩ :
      TableRun).AtMostOne (Operation.on id)) :
    TableInv cfg ⟨c.shared, c.procs.set i (some { p with stage := stage })⟩ := by
  refine ⟨hinv.terms, fun j q hq => ?_, halone, fun id r t ht => ?_⟩
  · rcases Configuration.proc_set (g := c.shared) hq with ⟨-, hnew⟩ | ⟨-, hold⟩
    · cases hnew
      exact hstage ▸ Operation.stands_afterRead
    · exact hinv.stands j q hold
  · refine (hinv.reached id r t ht).imp_right ?_
    rintro ⟨j, q, hq, hid, hreach⟩
    have hne : j ≠ i := by
      rintro rfl
      cases hp.symm.trans hq
      simp [Operation.Reaches, hread] at hreach
    exact ⟨j, q, (Configuration.proc_set_ne hne).trans hq, hid, hreach⟩

theorem step {i : Nat} {w : Write} {p p' : Operation} (hinv : TableInv cfg c)
    (hok : InTurn c (.step i w) = true) (hp : c.proc i = some p)
    (h : p.step cfg w c.shared = some (s', p'))
    (halone : ∀ id, (⟨s', c.procs.set i (some p')⟩ : TableRun).AtMostOne (Operation.on id)) :
    TableInv cfg ⟨s', c.procs.set i (some p')⟩ := by
  by_cases hread : p.stage = .read
  · simp only [Operation.step, hread, Option.some.injEq, Prod.mk.injEq] at h
    obtain ⟨rfl, rfl⟩ := h
    exact hinv.look hp hread rfl halone
  · have hid : p'.workflowId = p.workflowId := (Operation.step_effect h).1
    have hunder : p.underway = true := by
      cases hstage : p.stage <;> simp [Operation.underway, Operation.step, hstage] at h hread ⊢
    have horder : p.inOrder c.shared w = true := by
      simp only [InTurn, hp, Option.all_some, Bool.and_eq_true] at hok
      exact hok.2
    obtain ⟨hreached, hstands⟩ := Operation.step_reached h hread (hinv.stands i p hp) horder
      (hinv.reached_by hp hunder)
    refine ⟨Operation.step_wellFormed h hinv.terms, fun j q hq => ?_, halone,
      fun id r t' ht' => ?_⟩
    · rcases Configuration.proc_set (g := c.shared) hq with ⟨-, hnew⟩ | ⟨hne, hold⟩
      · cases hnew
        exact hstands
      · by_cases hsame : q.workflowId = p.workflowId
        · exact Operation.stands_of_idle (hinv.others_idle hp hunder hold hsame hne)
        · exact (hinv.stands j q hold).of_find (Operation.step_elsewhere h hsame).1
    · by_cases hsame : id = p.workflowId
      · subst hsame
        rw [← hid]
        exact (hreached r t' ht').imp_right fun hreach =>
          ⟨i, p', Configuration.proc_set_self hp, rfl, hreach⟩
      · exact hinv.step_other hp h hsame ht'

theorem steps (hinv : TableInv cfg c)
    (h : (tableSystem cfg).Steps (fun c m => InTurn c m = true) c c') :
    TableInv cfg c' := by
  have halone : ∀ id, c'.AtMostOne (Operation.on id) := by
    intro id
    refine System.Steps.atMostOne ?_ ?_ (hinv.alone id) h
    · rintro n x g g' l ⟨⟩
      simp [Operation.on, Operation.underway]
    · intro d i w p g p' hok hp hs hon
      have hstep : p.step cfg w d.shared = some (g, p') := hs
      have hid := (Operation.step_effect hstep).1
      simp only [Operation.on, hid, Bool.and_eq_true, decide_eq_true_eq] at hon ⊢
      cases hunder : p.underway with
      | true => exact Or.inl ⟨hon.1, rfl⟩
      | false =>
          -- an operation that comes to be underway begins
          have hread : p.stage = .read := by
            cases hstage : p.stage <;>
              simp [Operation.underway, Operation.step, hstage] at hunder hstep ⊢
          simp only [InTurn, hp, Option.all_some, hread, ne_eq, not_true_eq_false, decide_false,
            Bool.false_or, Bool.and_eq_true] at hok
          refine Or.inr (Configuration.others_eq_true.mpr fun j q hne hq => ?_)
          have := Configuration.others_eq_true.mp hok.1 j q hne hq
          simpa [← hon.1] using this
  rcases h.cases with ⟨x, s', p, -, hs, rfl⟩ | ⟨i, w, p, s', p', hok, hp, hs, rfl⟩ |
    ⟨i, hok, rfl⟩ | ⟨e, s', hok, hs, rfl⟩
  · cases hs
    refine ⟨hinv.terms, fun i p hp => ?_, halone, fun id r t ht => ?_⟩
    · rcases Configuration.proc_append (g := c.shared) hp with ⟨-, rfl⟩ | hold
      · trivial
      · exact hinv.stands i p hold
    · refine (hinv.reached id r t ht).imp_right ?_
      rintro ⟨i, p, hp, hid, hreach⟩
      exact ⟨i, p, Configuration.proc_append_left hp, hid, hreach⟩
  · exact hinv.step hok hp hs halone
  · exact hinv.crash hok halone
  · exact hinv.env hok hs

theorem reaches (hinv : TableInv cfg c)
    (h : (tableSystem cfg).Reaches (fun c m => InTurn c m = true) c c') : TableInv cfg c' :=
  System.Reaches.keeps (fun _ _ => steps) hinv h

end TableInv

/-! ## Tables that match -/

/-- No operation is going on, no message is in flight, and no leader is loading. -/
def TableRun.atRest (c : TableRun) : Bool :=
  (c.procs.all fun p => p.all fun p => !p.underway) &&
    c.shared.replicas.all fun t => t.all fun t => t.loading = none && t.inbox = []

/-- No operation has started, and no replica leads. -/
structure TableRun.Starting (c : TableRun) : Prop where
  procs : c.procs = []
  replicas : ∀ t ∈ c.shared.replicas, t = none

theorem TableRun.Starting.term (h : c.Starting) (r : Nat) : c.shared.term r = none := by
  apply Option.eq_none_iff_forall_ne_some.mpr
  intro t ht
  have hnone := h.replicas _ (List.mem_of_getElem? (Scheduling.term_eq_some.mp ht))
  cases hnone

theorem TableRun.Starting.inv (h : c.Starting) : TableInv cfg c := by
  have hproc : ∀ i, c.proc i = none := fun i => by simp [Configuration.proc, h.procs]
  constructor
  · intro r t ht
    simp [h.term r] at ht
  · intro i p hp
    simp [hproc i] at hp
  · intro id i j p q hp
    simp [hproc i] at hp
  · intro id r t ht
    simp [h.term r] at ht

/-- In a run that goes in turn, every leader at rest has exactly the entries that the documents ask for. -/
theorem TableRun.table_matches (hstart : c.Starting)
    (hreach : (tableSystem cfg).Reaches (fun c m => InTurn c m = true) c c')
    (hrest : TableRun.atRest c' = true) {r : Nat} (hleads : c'.shared.term r = some t)
    (id : String) : t.jobs id = c'.shared.cronEntry cfg id := by
  have hinv := TableInv.reaches hstart.inv hreach
  simp only [TableRun.atRest, Bool.and_eq_true, List.all_eq_true, Option.all_eq_true,
    decide_eq_true_eq] at hrest
  obtain ⟨hoperations, hleaders⟩ := hrest
  -- an operation that has still to reach a leader is going on
  have hheads : t.Heads cfg c'.shared id := by
    refine (hinv.reached id r t hleads).resolve_right ?_
    rintro ⟨i, p, hp, -, hreaches⟩
    have hidle := hoperations _ (List.mem_of_getElem? (Configuration.proc_eq_some.mp hp)) p rfl
    simp [Operation.underway_of_owes (Operation.owes_of_reaches hreaches)] at hidle
  obtain ⟨hloading, hinbox⟩ :=
    hleaders _ (List.mem_of_getElem? (Scheduling.term_eq_some.mp hleads)) t rfl
  have hpending : t.pending (c'.shared.find id) id = [] := by
    simp [LeaderTerm.pending, LeaderTerm.toLoad, hloading, hinbox]
  rwa [LeaderTerm.Heads, LeaderTerm.outcome, hpending] at hheads

end

/-! ## A delete on another replica -/

/-- Two replicas and one workflow. -/
def oneWorkflow (status : WorkflowStatus) : TableRun :=
  ⟨{ ids := ["w"]
     docs := fun _ =>
       { workflowId := "w", status := .written status
         schedule := { enabled := true, cronExpression := some "0 9 * * *", timezone := "UTC" } }
     replicas := [none, none] }, []⟩

theorem oneWorkflow_starting (status : WorkflowStatus) : (oneWorkflow status).Starting :=
  ⟨rfl, by simp [oneWorkflow]⟩

/-- The scheduling library takes the expression of the workflow. -/
def nineOClock : TableConfig := ⟨fun cron timezone => cron = "0 9 * * *" && timezone = "UTC"⟩

abbrev TableMove := Move OpStart Write LeaderMove

/-- A replica takes over, reads what there is to read, and subscribes. -/
def takeOver (loads : List LeaderMove) : List TableMove :=
  let moves : List LeaderMove := [.becomeLeader 0, .fetch 0] ++ loads ++ [.endLoad 0, .subscribe 0]
  moves.map .env

/-- An operation on the other replica, with the steps that go well. -/
def onOther (op : ScheduleOp) (steps : Nat) : List TableMove :=
  .spawn ⟨1, "w", op⟩ :: List.replicate steps (.step 0 .done)

/-- What the table of the first replica has for the workflow. -/
def firstTable (c : TableRun) : Option CronTrigger := (c.shared.term 0).bind (·.jobs "w")

/-- The workflow is deployed on one replica, and the other one, which leads, gets the message. -/
theorem deployedRun_matches : ∃ c t,
    (tableSystem nineOClock).Reaches (fun c m => InTurn c m = true)
      (oneWorkflow .draft) c ∧
    c.shared.term 0 = some t ∧ t.jobs "w" = c.shared.cronEntry nineOClock "w" ∧
    t.jobs "w" = some ⟨"0 9 * * *", "UTC"⟩ := by
  obtain ⟨c, hreach, hc⟩ := System.exists_reaches_of_play (tableSystem nineOClock)
    (fun c m => InTurn c m = true)
    (takeOver [] ++ onOther .deploy 4 ++ [.env (.deliver 0)]) (oneWorkflow .draft)
    (fun c => TableRun.atRest c && firstTable c = some ⟨"0 9 * * *", "UTC"⟩) (by decide +kernel)
  obtain ⟨hrest, hentry⟩ := (Bool.and_eq_true _ _).mp hc
  obtain ⟨t, ht, hjobs⟩ := Option.bind_eq_some_iff.mp (of_decide_eq_true hentry)
  exact ⟨c, t, hreach, ht,
    TableRun.table_matches (oneWorkflow_starting .draft) hreach hrest ht "w", hjobs⟩

/-- The workflow is deleted on one replica, and the other one, which leads, keeps its entry. -/
theorem deletedRun_keeps_entry : ¬ ∀ (cfg : TableConfig) (c c' : TableRun) (r : Nat)
    (t : LeaderTerm) (id : String), c.Starting →
    (tableSystem cfg).Reaches (fun _ _ => True) c c' → TableRun.atRest c' = true →
    c'.shared.term r = some t → t.jobs id = c'.shared.cronEntry cfg id := by
  intro hclaim
  obtain ⟨c, hreach, hc⟩ := System.exists_reaches_of_play (tableSystem nineOClock)
    (fun _ _ => True) (takeOver [.register 0] ++ onOther .delete 3) (oneWorkflow .deployed)
    (fun c => TableRun.atRest c && (firstTable c ≠ none && c.shared.cronEntry nineOClock "w" = none))
    (by decide +kernel)
  simp only [Bool.and_eq_true, decide_eq_true_eq] at hc
  obtain ⟨hrest, hentry, hnone⟩ := hc
  obtain ⟨trigger, htrigger⟩ := Option.ne_none_iff_exists'.mp hentry
  obtain ⟨t, ht, hjobs⟩ := Option.bind_eq_some_iff.mp htrigger
  have hright := hclaim nineOClock _ c 0 t "w" (oneWorkflow_starting .deployed) hreach hrest ht
  rw [hjobs, hnone] at hright
  cases hright

end CitraFlows
