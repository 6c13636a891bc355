-- SUMMARY: A Redis stream with a consumer group: its commands, the entries they keep alive, and what may change under a consumer's feet.
import Mathlib.Data.List.Nodup

/-!
# Redis streams with a consumer group

An entry stays alive for the group as long as the group has not read it yet or holds it in
its pending entries list. `Stream.Live` is that predicate; every command other than `XACK`
and `XDEL` of an entry keeps the entry alive. `Stream.Grows` is the preorder of all
commands: ids are never given twice, the group never goes back, and an id that left the
pending list does not come back.
-/

namespace RedisStream

variable {α : Type}

/-! ## Entries and groups -/

/-- Stream ids grow; the first one is 1. -/
structure Entry (α : Type) where
  id : Nat
  value : α
  deriving DecidableEq

/-- An entry of the pending entries list; `deliveredAt` is in milliseconds. -/
structure PendingEntry where
  id : Nat
  consumer : String
  deliveredAt : Nat
  deliveries : Nat
  deriving DecidableEq

structure Group where
  lastDelivered : Nat
  pending : List PendingEntry
  sorted : (pending.map PendingEntry.id).Pairwise (· < ·)
  le_lastDelivered : ∀ i ∈ pending.map PendingEntry.id, i ≤ lastDelivered

namespace Group

/-- The group after an unread entry was delivered. -/
def deliver (g : Group) (id : Nat) (h : g.lastDelivered < id) (consumer : String)
    (now : Nat) : Group where
  lastDelivered := id
  pending := g.pending ++ [⟨id, consumer, now, 1⟩]
  sorted := by
    simp only [List.map_append, List.map_cons, List.map_nil, List.pairwise_append]
    refine ⟨g.sorted, by simp, fun i hi j hj => ?_⟩
    have := g.le_lastDelivered i hi
    simp only [List.mem_singleton] at hj
    omega
  le_lastDelivered := by
    simp only [List.map_append, List.map_cons, List.map_nil, List.mem_append, List.mem_singleton]
    rintro i (hi | rfl)
    · exact Nat.le_trans (g.le_lastDelivered i hi) (Nat.le_of_lt h)
    · exact Nat.le_refl _

/-- The group without a pending id. -/
def ack (g : Group) (id : Nat) : Group where
  lastDelivered := g.lastDelivered
  pending := g.pending.filter fun p => p.id ≠ id
  sorted := g.sorted.sublist (List.filter_sublist.map _)
  le_lastDelivered := fun i hi => g.le_lastDelivered i ((List.filter_sublist.map _).subset hi)

/-- The scan of `XAUTOCLAIM` over the pending list: the list it leaves and the entries it
claims. An id whose entry was deleted is dropped and counts as claimed; an entry delivered
less than `minIdle` ago only costs an attempt. -/
def claim (entries : List (Entry α)) (consumer : String) (minIdle now : Nat) :
    Nat → Nat → List PendingEntry → List PendingEntry × List (Entry α)
  | 0, _, ps => (ps, [])
  | _ + 1, 0, ps => (ps, [])
  | _ + 1, _ + 1, [] => ([], [])
  | attempts + 1, count + 1, p :: ps =>
      match entries.find? fun e => e.id = p.id with
      | none => claim entries consumer minIdle now attempts count ps
      | some e =>
          if now - p.deliveredAt < minIdle then
            let r := claim entries consumer minIdle now attempts (count + 1) ps
            (p :: r.1, r.2)
          else
            let r := claim entries consumer minIdle now attempts count ps
            (⟨p.id, consumer, now, p.deliveries + 1⟩ :: r.1, e :: r.2)

theorem claim_ids_sublist (entries : List (Entry α)) (consumer : String) (minIdle now : Nat)
    (attempts count : Nat) (ps : List PendingEntry) :
    ((claim entries consumer minIdle now attempts count ps).1.map PendingEntry.id).Sublist
      (ps.map PendingEntry.id) := by
  fun_induction claim entries consumer minIdle now attempts count ps with
  | case1 => exact List.Sublist.refl _
  | case2 => exact List.Sublist.refl _
  | case3 => exact List.Sublist.refl _
  | case4 _ _ _ _ _ ih => exact ih.cons _
  | case5 _ _ _ _ _ _ _ _ ih => exact ih.cons_cons _
  | case6 _ _ _ _ _ _ _ _ ih => exact ih.cons_cons _

/-- A pending id whose entry exists stays in the list. -/
theorem claim_keeps {entries : List (Entry α)} {e : Entry α} (he : e ∈ entries)
    (consumer : String) (minIdle now attempts count : Nat) {ps : List PendingEntry}
    (h : e.id ∈ ps.map PendingEntry.id) :
    e.id ∈ (claim entries consumer minIdle now attempts count ps).1.map PendingEntry.id := by
  fun_induction claim entries consumer minIdle now attempts count ps with
  | case1 => exact h
  | case2 => exact h
  | case3 => exact h
  | case4 attempts count p ps hnone ih =>
      -- `p` is not the id of `e`, since `e` is found.
      have hne : e.id ≠ p.id := fun heq => by
        simpa [heq] using List.find?_eq_none.mp hnone e he
      rw [List.map_cons, List.mem_cons] at h
      exact ih (h.resolve_left hne)
  | case5 attempts count p ps e' _ _ r ih =>
      rw [List.map_cons, List.mem_cons] at h ⊢
      exact h.imp id ih
  | case6 attempts count p ps e' _ _ r ih =>
      rw [List.map_cons, List.mem_cons] at h ⊢
      exact h.imp id ih

/-- What is claimed exists and was pending. -/
theorem claim_mem {entries : List (Entry α)} {consumer : String}
    {minIdle now attempts count : Nat} {ps : List PendingEntry} {e : Entry α}
    (h : e ∈ (claim entries consumer minIdle now attempts count ps).2) :
    e ∈ entries ∧ e.id ∈ ps.map PendingEntry.id := by
  fun_induction claim entries consumer minIdle now attempts count ps with
  | case1 => cases h
  | case2 => cases h
  | case3 => cases h
  | case4 _ _ _ _ _ ih => exact (ih h).imp id (List.mem_cons_of_mem _)
  | case5 _ _ _ _ _ _ _ _ ih => exact (ih h).imp id (List.mem_cons_of_mem _)
  | case6 attempts count p ps e' hfind _ r ih =>
      rcases List.mem_cons.mp h with rfl | h
      · have hid : e.id = p.id := by simpa using List.find?_some hfind
        exact ⟨List.mem_of_find?_eq_some hfind, by simp [hid]⟩
      · exact (ih h).imp id (List.mem_cons_of_mem _)

/-- What is claimed was delivered long enough ago. -/
theorem claim_idle {entries : List (Entry α)} {consumer : String}
    {minIdle now attempts count : Nat} {ps : List PendingEntry} {e : Entry α}
    (h : e ∈ (claim entries consumer minIdle now attempts count ps).2) :
    ∃ p ∈ ps, p.id = e.id ∧ minIdle ≤ now - p.deliveredAt := by
  have hcons : ∀ (p : PendingEntry) (ps : List PendingEntry),
      (∃ p' ∈ ps, p'.id = e.id ∧ minIdle ≤ now - p'.deliveredAt) →
      ∃ p' ∈ p :: ps, p'.id = e.id ∧ minIdle ≤ now - p'.deliveredAt := by
    rintro p ps ⟨p', hp', hid⟩
    exact ⟨p', List.mem_cons_of_mem _ hp', hid⟩
  fun_induction claim entries consumer minIdle now attempts count ps with
  | case1 => cases h
  | case2 => cases h
  | case3 => cases h
  | case4 _ _ p ps _ ih => exact hcons p ps (ih h)
  | case5 _ _ p ps _ _ _ _ ih => exact hcons p ps (ih h)
  | case6 attempts count p ps e' hfind hidle r ih =>
      rcases List.mem_cons.mp h with rfl | h
      · have hid : e.id = p.id := by simpa using List.find?_some hfind
        exact ⟨p, List.mem_cons_self, hid.symm, Nat.le_of_not_lt hidle⟩
      · exact hcons p ps (ih h)

/-- The group after a scan. -/
def autoClaim (g : Group) (entries : List (Entry α)) (consumer : String)
    (minIdle now count : Nat) : Group where
  lastDelivered := g.lastDelivered
  pending := (claim entries consumer minIdle now (10 * count) count g.pending).1
  sorted := g.sorted.sublist (claim_ids_sublist _ _ _ _ _ _ _)
  le_lastDelivered := fun i hi =>
    g.le_lastDelivered i ((claim_ids_sublist _ _ _ _ _ _ _).subset hi)

end Group

/-! ## Streams -/

/-- A stream with at most one consumer group. -/
structure Stream (α : Type) where
  lastId : Nat
  entries : List (Entry α)
  group : Option Group
  sorted : (entries.map Entry.id).Pairwise (· < ·)
  le_lastId : ∀ i ∈ entries.map Entry.id, i ≤ lastId
  delivered_le : ∀ g ∈ group, g.lastDelivered ≤ lastId

namespace Stream

def empty : Stream α := ⟨0, [], none, by simp, by simp, by simp⟩

theorem eq_of_id {s : Stream α} {e e' : Entry α} (h : e ∈ s.entries) (h' : e' ∈ s.entries)
    (hid : e.id = e'.id) : e = e' := by
  have hnodup : (s.entries.map Entry.id).Nodup := s.sorted.imp fun h => Nat.ne_of_lt h
  exact List.inj_on_of_nodup_map hnodup h h' hid

theorem id_le {s : Stream α} {e : Entry α} (h : e ∈ s.entries) : e.id ≤ s.lastId :=
  s.le_lastId _ (List.mem_map_of_mem h)

/-! ## Commands -/

/-- `XADD stream * …` -/
def add (s : Stream α) (v : α) : Stream α where
  lastId := s.lastId + 1
  entries := s.entries ++ [⟨s.lastId + 1, v⟩]
  group := s.group
  sorted := by
    simp only [List.map_append, List.map_cons, List.map_nil, List.pairwise_append]
    refine ⟨s.sorted, by simp, fun i hi j hj => ?_⟩
    have := s.le_lastId i hi
    simp only [List.mem_singleton] at hj
    omega
  le_lastId := by
    simp only [List.map_append, List.map_cons, List.map_nil, List.mem_append, List.mem_singleton]
    rintro i (hi | rfl)
    · exact Nat.le_succ_of_le (s.le_lastId i hi)
    · exact Nat.le_refl _
  delivered_le := fun g hg => Nat.le_succ_of_le (s.delivered_le g hg)

/-- `XGROUP CREATE stream group $ MKSTREAM`: an existing group stays as it is (`BUSYGROUP`). -/
def createGroup (s : Stream α) : Stream α :=
  match hg : s.group with
  | some _ => s
  | none =>
      { s with
        group := some ⟨s.lastId, [], by simp, by simp⟩
        delivered_le := by simp }

/-- The first entry the group has not read. -/
def unread (s : Stream α) (g : Group) : Option (Entry α) :=
  s.entries.find? fun e => g.lastDelivered < e.id

theorem unread_mem {s : Stream α} {g : Group} {e : Entry α} (h : s.unread g = some e) :
    e ∈ s.entries := List.mem_of_find?_eq_some h

theorem unread_lt {s : Stream α} {g : Group} {e : Entry α} (h : s.unread g = some e) :
    g.lastDelivered < e.id := by simpa using List.find?_some h

/-- The entry read next is the oldest unread one. -/
theorem unread_le {s : Stream α} {g : Group} {e e' : Entry α} (h : s.unread g = some e')
    (he : e ∈ s.entries) (hlt : g.lastDelivered < e.id) : e'.id ≤ e.id := by
  obtain ⟨-, before, after, hentries, hbefore⟩ := List.find?_eq_some_iff_append.mp h
  have hsorted := s.sorted
  rw [hentries, List.map_append, List.map_cons, List.pairwise_append, List.pairwise_cons] at hsorted
  rw [hentries, List.mem_append, List.mem_cons] at he
  rcases he with he | rfl | he
  · simpa [hlt] using hbefore e he
  · exact Nat.le_refl _
  · exact Nat.le_of_lt (hsorted.2.1.1 _ (List.mem_map_of_mem he))

/-- `XREADGROUP GROUP group consumer COUNT 1 STREAMS stream >` -/
def readGroup (s : Stream α) (consumer : String) (now : Nat) : Option (Entry α) × Stream α :=
  match hg : s.group with
  | none => (none, s)
  | some g =>
      match he : s.unread g with
      | none => (none, s)
      | some e =>
          (some e,
            { s with
              group := some (g.deliver e.id (unread_lt he) consumer now)
              delivered_le := by
                rintro _ ⟨⟩
                exact id_le (unread_mem he) })

/-- Nothing was read, or the oldest unread entry was delivered. -/
theorem readGroup_cases (s : Stream α) (consumer : String) (now : Nat) :
    s.readGroup consumer now = (none, s) ∨
      ∃ (g : Group) (e : Entry α) (hlt : g.lastDelivered < e.id),
        s.group = some g ∧ s.unread g = some e ∧ (s.readGroup consumer now).1 = some e ∧
        (s.readGroup consumer now).2.lastId = s.lastId ∧
        (s.readGroup consumer now).2.entries = s.entries ∧
        (s.readGroup consumer now).2.group = some (g.deliver e.id hlt consumer now) := by
  unfold readGroup
  split
  · exact Or.inl rfl
  next g hg =>
    split
    · exact Or.inl rfl
    next e he => exact Or.inr ⟨g, e, unread_lt he, hg, he, rfl, rfl, rfl, rfl⟩

theorem readGroup_fst (s : Stream α) (consumer : String) (now : Nat) :
    (s.readGroup consumer now).1 = s.group.bind s.unread := by
  unfold readGroup
  split
  next hg => simp [hg]
  next g hg =>
    split
    next he => simp [hg, he]
    next e he => simp [hg, he]

/-- `XACK stream group id` -/
def ack (s : Stream α) (id : Nat) : Stream α where
  lastId := s.lastId
  entries := s.entries
  group := s.group.map fun g => g.ack id
  sorted := s.sorted
  le_lastId := s.le_lastId
  delivered_le := by
    simp only [Option.mem_def, Option.map_eq_some_iff]
    rintro _ ⟨g, hg, rfl⟩
    exact s.delivered_le g hg

/-- `XDEL stream id` -/
def del (s : Stream α) (id : Nat) : Stream α where
  lastId := s.lastId
  entries := s.entries.filter fun e => e.id ≠ id
  group := s.group
  sorted := s.sorted.sublist (List.filter_sublist.map _)
  le_lastId := fun i hi => s.le_lastId i ((List.filter_sublist.map _).subset hi)
  delivered_le := s.delivered_le

/-- `XAUTOCLAIM stream group consumer minIdle 0-0 COUNT count` -/
def autoClaim (s : Stream α) (consumer : String) (minIdle now count : Nat) :
    List (Entry α) × Stream α :=
  match hg : s.group with
  | none => ([], s)
  | some g =>
      ((Group.claim s.entries consumer minIdle now (10 * count) count g.pending).2,
        { s with
          group := some (g.autoClaim s.entries consumer minIdle now count)
          delivered_le := by
            rintro _ ⟨⟩
            exact s.delivered_le g hg })

/-- Without a group nothing is claimed; otherwise the pending list is scanned. -/
theorem autoClaim_cases (s : Stream α) (consumer : String) (minIdle now count : Nat) :
    s.autoClaim consumer minIdle now count = ([], s) ∨
      ∃ g : Group, s.group = some g ∧
        (s.autoClaim consumer minIdle now count).1 =
          (Group.claim s.entries consumer minIdle now (10 * count) count g.pending).2 ∧
        (s.autoClaim consumer minIdle now count).2.lastId = s.lastId ∧
        (s.autoClaim consumer minIdle now count).2.entries = s.entries ∧
        (s.autoClaim consumer minIdle now count).2.group =
          some (g.autoClaim s.entries consumer minIdle now count) := by
  unfold autoClaim
  split
  · exact Or.inl rfl
  next g hg => exact Or.inr ⟨g, hg, rfl, rfl, rfl, rfl⟩

/-- Only `XADD` and `XDEL` change the entries. -/
theorem entries_createGroup (s : Stream α) : s.createGroup.entries = s.entries := by
  unfold createGroup
  split <;> rfl

theorem entries_readGroup (s : Stream α) (consumer : String) (now : Nat) :
    (s.readGroup consumer now).2.entries = s.entries := by
  rcases s.readGroup_cases consumer now with heq | ⟨g, e, _, -, -, -, -, hentries, -⟩
  · rw [heq]
  · exact hentries

theorem entries_autoClaim (s : Stream α) (consumer : String) (minIdle now count : Nat) :
    (s.autoClaim consumer minIdle now count).2.entries = s.entries := by
  rcases s.autoClaim_cases consumer minIdle now count with heq | ⟨g, -, -, -, hentries, -⟩
  · rw [heq]
  · exact hentries

/-- `XPENDING stream group - + count` -/
def pendingRange (s : Stream α) (count : Nat) : List PendingEntry :=
  ((s.group.map Group.pending).getD []).take count

/-! ## Pending ids -/

/-- The ids in the pending entries list. -/
def pendingIds (s : Stream α) : List Nat :=
  ((s.group.map Group.pending).getD []).map PendingEntry.id

theorem pendingIds_of_group {s : Stream α} {g : Group} (h : s.group = some g) :
    s.pendingIds = g.pending.map PendingEntry.id := by
  simp [pendingIds, h]

@[simp] theorem pendingIds_empty : (empty : Stream α).pendingIds = [] := rfl

@[simp] theorem pendingIds_add (s : Stream α) (v : α) : (s.add v).pendingIds = s.pendingIds := rfl

@[simp] theorem pendingIds_del (s : Stream α) (id : Nat) :
    (s.del id).pendingIds = s.pendingIds := rfl

@[simp] theorem pendingIds_createGroup (s : Stream α) :
    s.createGroup.pendingIds = s.pendingIds := by
  unfold createGroup
  split
  · rfl
  next hg => simp [pendingIds, hg]

theorem pendingIds_ack {s : Stream α} {id i : Nat} (h : i ∈ (s.ack id).pendingIds) :
    i ∈ s.pendingIds := by
  cases hg : s.group with
  | none => simp [pendingIds, ack, hg] at h
  | some g =>
      rw [pendingIds_of_group (g := g.ack id) (by simp [ack, hg])] at h
      rw [pendingIds_of_group hg]
      exact (List.filter_sublist.map _).subset h

theorem pendingIds_autoClaim {s : Stream α} {consumer : String} {minIdle now count i : Nat}
    (h : i ∈ (s.autoClaim consumer minIdle now count).2.pendingIds) : i ∈ s.pendingIds := by
  rcases s.autoClaim_cases consumer minIdle now count with heq | ⟨g, hg, -, -, -, hgroup⟩
  · rwa [heq] at h
  · rw [pendingIds_of_group hgroup] at h
    rw [pendingIds_of_group hg]
    exact (Group.claim_ids_sublist _ _ _ _ _ _ _).subset h

/-- A read adds the id of what it delivers. -/
theorem pendingIds_readGroup {s : Stream α} {consumer : String} {now i : Nat}
    (h : i ∈ (s.readGroup consumer now).2.pendingIds) :
    i ∈ s.pendingIds ∨ ∃ e, (s.readGroup consumer now).1 = some e ∧ e.id = i := by
  rcases s.readGroup_cases consumer now with heq | ⟨g, e, hlt, hg, -, hfst, -, -, hgroup⟩
  · rw [heq] at h
    exact Or.inl h
  · rw [pendingIds_of_group hgroup] at h
    rw [pendingIds_of_group hg]
    simp only [Group.deliver, List.map_append, List.map_cons, List.map_nil, List.mem_append,
      List.mem_singleton] at h
    exact h.imp_right fun hi => ⟨e, hfst, hi.symm⟩

/-! ## Live entries -/

/-- The entry is still owed to the group: unread or pending. -/
def Live (s : Stream α) (e : Entry α) : Prop :=
  e ∈ s.entries ∧
    ∃ g, s.group = some g ∧ (g.lastDelivered < e.id ∨ e.id ∈ g.pending.map PendingEntry.id)

def IsPending (s : Stream α) (e : Entry α) : Prop :=
  ∃ g, s.group = some g ∧ e.id ∈ g.pending.map PendingEntry.id

def HasGroup (s : Stream α) : Prop := s.group.isSome

/-- The id was read by the group and is not pending. -/
def Settled (s : Stream α) (id : Nat) : Prop :=
  ∃ g, s.group = some g ∧ id ≤ g.lastDelivered ∧ id ∉ g.pending.map PendingEntry.id

/-- The id was read by the group, and its entry, if it still exists, carries `v`. -/
def Delivered (s : Stream α) (id : Nat) (v : α) : Prop :=
  (∃ g, s.group = some g ∧ id ≤ g.lastDelivered) ∧ ∀ e ∈ s.entries, e.id = id → e.value = v

theorem Live.hasGroup {s : Stream α} {e : Entry α} (h : s.Live e) : s.HasGroup := by
  obtain ⟨-, g, hg, -⟩ := h
  simp [HasGroup, hg]

theorem Delivered.hasGroup {s : Stream α} {id : Nat} {v : α} (h : s.Delivered id v) :
    s.HasGroup := by
  obtain ⟨⟨g, hg, -⟩, -⟩ := h
  simp [HasGroup, hg]

theorem Settled.not_live {s : Stream α} {e : Entry α} (h : s.Settled e.id) : ¬ s.Live e := by
  rintro ⟨-, g, hg, hlive⟩
  obtain ⟨g', hg', hle, hnot⟩ := h
  obtain rfl : g = g' := by simpa [hg] using hg'
  rcases hlive with hlt | hmem
  · omega
  · exact hnot hmem

@[simp] theorem not_live_empty (e : Entry α) : ¬ (empty : Stream α).Live e := by
  simp [Live, empty]

theorem live_add {s : Stream α} {e : Entry α} (h : s.Live e) (v : α) : (s.add v).Live e :=
  ⟨List.mem_append_left _ h.1, h.2⟩

/-- What is added while the group exists is live. -/
theorem live_add_new {s : Stream α} (h : s.HasGroup) (v : α) :
    (s.add v).Live ⟨s.lastId + 1, v⟩ := by
  obtain ⟨g, hg⟩ := Option.isSome_iff_exists.mp h
  have hle := s.delivered_le g hg
  exact ⟨List.mem_append_right _ (List.mem_singleton_self _), g, hg,
    Or.inl (Nat.lt_succ_of_le hle)⟩

theorem hasGroup_createGroup (s : Stream α) : s.createGroup.HasGroup := by
  unfold createGroup
  split
  · simp [HasGroup, *]
  · simp [HasGroup]

theorem live_createGroup {s : Stream α} {e : Entry α} (h : s.Live e) : s.createGroup.Live e := by
  obtain ⟨g, hg⟩ := Option.isSome_iff_exists.mp h.hasGroup
  unfold createGroup
  split
  · exact h
  · simp_all

theorem live_readGroup {s : Stream α} {e : Entry α} (h : s.Live e) (consumer : String)
    (now : Nat) : (s.readGroup consumer now).2.Live e := by
  rcases s.readGroup_cases consumer now with heq | ⟨g, e', hlt', hg, he', -, -, hentries, hgroup⟩
  · simpa [heq] using h
  · obtain ⟨hmem, g', hg', hlive⟩ := h
    obtain rfl : g = g' := by simpa [hg] using hg'
    refine ⟨hentries ▸ hmem, _, hgroup, ?_⟩
    rcases hlive with hlt | hpending
    · -- An unread entry is the one delivered, or comes after it.
      rcases Nat.eq_or_lt_of_le (unread_le he' hmem hlt) with heq | hlt''
      · exact Or.inr (by simp [Group.deliver, heq])
      · exact Or.inl hlt''
    · refine Or.inr ?_
      simp only [Group.deliver, List.map_append]
      exact List.mem_append_left _ hpending

/-- `XACK` ends the life of an entry only if it is pending under the id. -/
theorem live_ack_iff {s : Stream α} {e : Entry α} {id : Nat} :
    (s.ack id).Live e ↔ s.Live e ∧ ¬ (e.id = id ∧ s.IsPending e) := by
  constructor
  · rintro ⟨hmem, g', hg', hlive⟩
    obtain ⟨g, hg, rfl⟩ := Option.map_eq_some_iff.mp hg'
    refine ⟨⟨hmem, g, hg, hlive.imp_right fun h => (List.filter_sublist.map _).subset h⟩, ?_⟩
    rintro ⟨rfl, g'', hg'', hpending⟩
    obtain rfl : g = g'' := by simpa [hg] using hg''
    rcases hlive with hlt | hleft
    · exact absurd (g.le_lastDelivered _ hpending) (by simpa [Group.ack] using hlt)
    · obtain ⟨p, hp, hid⟩ := List.mem_map.mp hleft
      simp only [Group.ack, List.mem_filter, decide_eq_true_eq] at hp
      exact hp.2 hid
  · rintro ⟨⟨hmem, g, hg, hlive⟩, hnot⟩
    refine ⟨hmem, g.ack id, by simp [ack, hg], hlive.imp_right fun hpending => ?_⟩
    have hne : e.id ≠ id := fun hid => hnot ⟨hid, g, hg, hpending⟩
    simp only [Group.ack, List.mem_map, List.mem_filter] at hpending ⊢
    obtain ⟨p, hp, hid⟩ := hpending
    exact ⟨p, ⟨hp, by simpa [hid] using hne⟩, hid⟩

theorem live_del {s : Stream α} {e : Entry α} (h : s.Live e) {id : Nat} (hne : e.id ≠ id) :
    (s.del id).Live e :=
  ⟨List.mem_filter.mpr ⟨h.1, by simpa using hne⟩, h.2⟩

theorem live_autoClaim {s : Stream α} {e : Entry α} (h : s.Live e) (consumer : String)
    (minIdle now count : Nat) : (s.autoClaim consumer minIdle now count).2.Live e := by
  rcases s.autoClaim_cases consumer minIdle now count with heq | ⟨g, hg, -, -, hentries, hgroup⟩
  · simpa [heq] using h
  · obtain ⟨hmem, g', hg', hlive⟩ := h
    obtain rfl : g = g' := by simpa [hg] using hg'
    exact ⟨hentries ▸ hmem, _, hgroup, hlive.imp_right (Group.claim_keeps hmem _ _ _ _ _)⟩

/-! ## What commands may change -/

/-- Between two states of a stream: the group is never destroyed and never goes back, ids
are not given twice, and an id the group has read becomes pending only if it is. -/
structure Grows (s s' : Stream α) : Prop where
  lastId : s.lastId ≤ s'.lastId
  entries : ∀ e ∈ s'.entries, e ∈ s.entries ∨ s.lastId < e.id
  group : ∀ g, s.group = some g → ∃ g', s'.group = some g' ∧ g.lastDelivered ≤ g'.lastDelivered ∧
    ∀ i ∈ g'.pending.map PendingEntry.id, i ∈ g.pending.map PendingEntry.id ∨ g.lastDelivered < i

namespace Grows

theorem refl (s : Stream α) : s.Grows s :=
  ⟨Nat.le_refl _, fun _ h => Or.inl h, fun g hg => ⟨g, hg, Nat.le_refl _, fun _ h => Or.inl h⟩⟩

theorem trans {s₁ s₂ s₃ : Stream α} (h : s₁.Grows s₂) (h' : s₂.Grows s₃) : s₁.Grows s₃ where
  lastId := Nat.le_trans h.lastId h'.lastId
  entries := fun e he => by
    rcases h'.entries e he with he | hlt
    · exact h.entries e he
    · exact Or.inr (Nat.lt_of_le_of_lt h.lastId hlt)
  group := fun g hg => by
    obtain ⟨g₂, hg₂, hle₂, hids₂⟩ := h.group g hg
    obtain ⟨g₃, hg₃, hle₃, hids₃⟩ := h'.group g₂ hg₂
    refine ⟨g₃, hg₃, Nat.le_trans hle₂ hle₃, fun i hi => ?_⟩
    rcases hids₃ i hi with hi | hlt
    · exact hids₂ i hi
    · exact Or.inr (Nat.lt_of_le_of_lt hle₂ hlt)

theorem hasGroup {s s' : Stream α} (h : s.Grows s') (hs : s.HasGroup) : s'.HasGroup := by
  obtain ⟨g, hg⟩ := Option.isSome_iff_exists.mp hs
  obtain ⟨g', hg', -, -⟩ := h.group g hg
  simp [HasGroup, hg']

theorem settled {s s' : Stream α} (h : s.Grows s') {id : Nat} (hs : s.Settled id) :
    s'.Settled id := by
  obtain ⟨g, hg, hle, hnot⟩ := hs
  obtain ⟨g', hg', hle', hids⟩ := h.group g hg
  refine ⟨g', hg', Nat.le_trans hle hle', fun hmem => ?_⟩
  rcases hids id hmem with hmem | hlt
  · exact hnot hmem
  · omega

theorem delivered {s s' : Stream α} (h : s.Grows s') {id : Nat} {v : α} (hs : s.Delivered id v) :
    s'.Delivered id v := by
  obtain ⟨⟨g, hg, hle⟩, hval⟩ := hs
  obtain ⟨g', hg', hle', -⟩ := h.group g hg
  refine ⟨⟨g', hg', Nat.le_trans hle hle'⟩, fun e he hid => ?_⟩
  rcases h.entries e he with he | hlt
  · exact hval e he hid
  · have := s.delivered_le g hg
    omega

theorem add (s : Stream α) (v : α) : s.Grows (s.add v) where
  lastId := Nat.le_succ _
  entries := fun e he => by
    rcases List.mem_append.mp he with he | he
    · exact Or.inl he
    · obtain rfl := List.mem_singleton.mp he
      exact Or.inr (Nat.lt_succ_self _)
  group := fun g hg => ⟨g, hg, Nat.le_refl _, fun _ h => Or.inl h⟩

theorem createGroup (s : Stream α) : s.Grows s.createGroup := by
  unfold Stream.createGroup
  split
  · exact refl s
  · exact ⟨Nat.le_refl _, fun _ h => Or.inl h, by simp_all⟩

theorem readGroup (s : Stream α) (consumer : String) (now : Nat) :
    s.Grows (s.readGroup consumer now).2 := by
  rcases s.readGroup_cases consumer now with heq | ⟨g, e, hlt, hg, -, -, hlast, hentries, hgroup⟩
  · simpa [heq] using refl s
  · refine ⟨hlast.symm ▸ Nat.le_refl _, fun e h => Or.inl (hentries ▸ h), fun g' hg' => ?_⟩
    obtain rfl : g = g' := by simpa [hg] using hg'
    refine ⟨_, hgroup, Nat.le_of_lt hlt, fun i hi => ?_⟩
    simp only [Group.deliver, List.map_append, List.map_cons, List.map_nil, List.mem_append,
      List.mem_singleton] at hi
    rcases hi with hi | rfl
    · exact Or.inl hi
    · exact Or.inr hlt

theorem ack (s : Stream α) (id : Nat) : s.Grows (s.ack id) where
  lastId := Nat.le_refl _
  entries := fun _ h => Or.inl h
  group := fun g hg => ⟨g.ack id, by simp [Stream.ack, hg], Nat.le_refl _,
    fun _ hi => Or.inl ((List.filter_sublist.map _).subset hi)⟩

theorem del (s : Stream α) (id : Nat) : s.Grows (s.del id) where
  lastId := Nat.le_refl _
  entries := fun _ h => Or.inl (List.mem_of_mem_filter h)
  group := fun g hg => ⟨g, hg, Nat.le_refl _, fun _ h => Or.inl h⟩

theorem autoClaim (s : Stream α) (consumer : String) (minIdle now count : Nat) :
    s.Grows (s.autoClaim consumer minIdle now count).2 := by
  rcases s.autoClaim_cases consumer minIdle now count with heq | ⟨g, hg, -, hlast, hentries, hgroup⟩
  · simpa [heq] using refl s
  · refine ⟨hlast.symm ▸ Nat.le_refl _, fun e h => Or.inl (hentries ▸ h), fun g' hg' => ?_⟩
    obtain rfl : g = g' := by simpa [hg] using hg'
    exact ⟨_, hgroup, Nat.le_refl _, fun i hi =>
      Or.inl ((Group.claim_ids_sublist _ _ _ _ _ _ _).subset hi)⟩

end Grows

/-! ## What commands hand out -/

/-- An acknowledged id that was delivered is settled. -/
theorem settled_ack {s : Stream α} {id : Nat} {v : α} (h : s.Delivered id v) :
    (s.ack id).Settled id := by
  obtain ⟨⟨g, hg, hle⟩, -⟩ := h
  exact ⟨g.ack id, by simp [ack, hg], hle, by simp [Group.ack]⟩

theorem readGroup_mem {s : Stream α} {consumer : String} {now : Nat} {e : Entry α}
    (h : (s.readGroup consumer now).1 = some e) : e ∈ s.entries := by
  rcases s.readGroup_cases consumer now with heq | ⟨g, e', -, -, he', hfst, -⟩
  · simp [heq] at h
  · obtain rfl : e' = e := by simpa [hfst] using h
    exact unread_mem he'

/-- The entry that was read is delivered. -/
theorem delivered_readGroup {s : Stream α} {consumer : String} {now : Nat} {e : Entry α}
    (h : (s.readGroup consumer now).1 = some e) :
    (s.readGroup consumer now).2.Delivered e.id e.value := by
  have hmem := readGroup_mem h
  rcases s.readGroup_cases consumer now with heq | ⟨g, e', hlt, -, -, hfst, -, hentries, hgroup⟩
  · simp [heq] at h
  · obtain rfl : e' = e := by simpa [hfst] using h
    refine ⟨⟨_, hgroup, Nat.le_refl _⟩, fun d hd hid => ?_⟩
    rw [eq_of_id (hentries ▸ hd) hmem hid]

theorem autoClaim_mem {s : Stream α} {consumer : String} {minIdle now count : Nat}
    {e : Entry α} (h : e ∈ (s.autoClaim consumer minIdle now count).1) : e ∈ s.entries := by
  rcases s.autoClaim_cases consumer minIdle now count with heq | ⟨g, -, hfst, -⟩
  · simp [heq] at h
  · exact (Group.claim_mem (hfst ▸ h)).1

/-- What is read was not read before, and has been read then. -/
theorem readGroup_unread {s : Stream α} {consumer : String} {now : Nat} {e : Entry α}
    (h : (s.readGroup consumer now).1 = some e) :
    ∀ g, s.group = some g → g.lastDelivered < e.id := by
  rcases s.readGroup_cases consumer now with heq | ⟨g, e', hlt, hg, -, hfst, -⟩
  · simp [heq] at h
  · obtain rfl : e' = e := by simpa [hfst] using h
    intro g' hg'
    obtain rfl : g = g' := Option.some.inj (hg.symm.trans hg')
    exact hlt

/-- What is claimed was pending, and delivered long enough ago. -/
theorem autoClaim_idle {s : Stream α} {consumer : String} {minIdle now count : Nat}
    {e : Entry α} (h : e ∈ (s.autoClaim consumer minIdle now count).1) :
    ∃ g, s.group = some g ∧ ∃ p ∈ g.pending, p.id = e.id ∧ minIdle ≤ now - p.deliveredAt := by
  rcases s.autoClaim_cases consumer minIdle now count with heq | ⟨g, hg, hfst, -⟩
  · simp [heq] at h
  · exact ⟨g, hg, Group.claim_idle (hfst ▸ h)⟩

/-- The entries that are claimed are delivered. -/
theorem delivered_autoClaim {s : Stream α} {consumer : String} {minIdle now count : Nat}
    {e : Entry α} (h : e ∈ (s.autoClaim consumer minIdle now count).1) :
    (s.autoClaim consumer minIdle now count).2.Delivered e.id e.value := by
  have hmem := autoClaim_mem h
  rcases s.autoClaim_cases consumer minIdle now count with heq | ⟨g, -, hfst, -, hentries, hgroup⟩
  · simp [heq] at h
  · have hpending := (Group.claim_mem (hfst ▸ h)).2
    refine ⟨⟨_, hgroup, g.le_lastDelivered _ hpending⟩, fun d hd hid => ?_⟩
    rw [eq_of_id (hentries ▸ hd) hmem hid]

end Stream

/-! ## Reading several streams -/

/-- `XREADGROUP … COUNT 1 STREAMS … >`: the count holds for each stream. -/
def readGroups (consumer : String) (now : Nat) :
    List String → (String → Stream α) → List (String × Entry α) × (String → Stream α)
  | [], streams => ([], streams)
  | name :: names, streams =>
      let r := (streams name).readGroup consumer now
      let rest := readGroups consumer now names (Function.update streams name r.2)
      (match r.1 with
        | some entry => (name, entry) :: rest.1
        | none => rest.1, rest.2)

section
variable {consumer : String} {now : Nat} {names : List String} {streams : String → Stream α}

/-- The entries delivered, in the order of the streams. -/
theorem readGroups_fst (hnodup : names.Nodup) :
    (readGroups consumer now names streams).1 =
      names.filterMap fun n => ((streams n).readGroup consumer now).1.map (n, ·) := by
  induction names generalizing streams with
  | nil => rfl
  | cons name names ih =>
      obtain ⟨hnot, hnodup⟩ := List.nodup_cons.mp hnodup
      have hrest : names.filterMap (fun n => (((Function.update streams name
            ((streams name).readGroup consumer now).2) n).readGroup consumer now).1.map (n, ·)) =
          names.filterMap fun n => ((streams n).readGroup consumer now).1.map (n, ·) := by
        refine List.filterMap_congr fun n hn => ?_
        rw [Function.update_of_ne (ne_of_mem_of_not_mem hn hnot)]
      simp only [readGroups, ih hnodup, hrest, List.filterMap_cons]
      cases ((streams name).readGroup consumer now).1 <;> rfl

theorem readGroups_snd (hnodup : names.Nodup) (n : String) :
    (readGroups consumer now names streams).2 n =
      if n ∈ names then ((streams n).readGroup consumer now).2 else streams n := by
  induction names generalizing streams with
  | nil => rfl
  | cons name names ih =>
      obtain ⟨hnot, hnodup⟩ := List.nodup_cons.mp hnodup
      simp only [readGroups, ih hnodup, List.mem_cons]
      by_cases heq : n = name
      · subst heq
        simp [hnot]
      · simp [heq]

theorem mem_readGroups (hnodup : names.Nodup) {x : String × Entry α} :
    x ∈ (readGroups consumer now names streams).1 ↔
      x.1 ∈ names ∧ ((streams x.1).readGroup consumer now).1 = some x.2 := by
  obtain ⟨n, e⟩ := x
  simp only [readGroups_fst hnodup, List.mem_filterMap, Option.map_eq_some_iff, Prod.mk.injEq]
  constructor
  · rintro ⟨m, hm, d, hd, rfl, rfl⟩
    exact ⟨hm, hd⟩
  · rintro ⟨hn, he⟩
    exact ⟨n, hn, e, he, rfl, rfl⟩

/-- A read of several streams makes pending what it delivers. -/
theorem pendingIds_readGroups (hnodup : names.Nodup) {n : String} {i : Nat}
    (h : i ∈ ((readGroups consumer now names streams).2 n).pendingIds) :
    i ∈ (streams n).pendingIds ∨
      ∃ e, (n, e) ∈ (readGroups consumer now names streams).1 ∧ e.id = i := by
  rw [readGroups_snd hnodup] at h
  split at h
  next hn =>
    refine (Stream.pendingIds_readGroup h).imp_right ?_
    rintro ⟨e, he, hid⟩
    exact ⟨e, (mem_readGroups hnodup).mpr ⟨hn, he⟩, hid⟩
  next => exact Or.inl h

end

end RedisStream
