-- SUMMARY: The runs of warm pools: where every container is, and the condition under which none is lost, taken away or handed out twice.
import CitraFlows.Sandbox.PoolSteps

/-!
# Where the containers are

A container of a pool is idle, in use, or with a coroutine that carries it from one to the other.
`Sound` counts every container over the queue and the coroutines, and every step keeps it.
-/

namespace CitraFlows

open Processes

namespace WarmPool

/-- In how many of the three places a container is: idle, in use, in hand-over. -/
def places (c : Run) (p : PoolId) (id : Cid) : Nat :=
  (c.shared.pools p).idle.count id + (if id ∈ (c.shared.pools p).inUse then 1 else 0) +
    c.count fun l => l.pool = p && l.stage.hold.handOver = some id

/-- How many containers of the pool run. -/
def running (c : Run) (p : PoolId) : Nat :=
  (List.range c.shared.nextId).countP fun id =>
    c.shared.owner id = some p && c.shared.status id = .running

/-- No container is lost, taken away or handed out twice, and there are not too many. -/
structure Lawful (config : PoolId → PoolConfig) (c : Run) : Prop where
  tracked : ∀ p id, c.shared.owner id = some p → c.shared.status id = .running →
    places c p id = 1
  spared : ∀ id ∈ c.shared.reaped, ∀ p, places c p id = 0
  one_caller : ∀ id, c.AtMostOne fun l => l.stage = .using id
  created_le : ∀ p, (c.shared.pools p).created ≤ (config p).maxSize
  running_le : ∀ p, running c p ≤ (config p).maxSize

/-- Before any pool has begun; the containers that there are come from earlier runs. -/
structure Initial (g : Shared) : Prop where
  pools : ∀ p, g.pools p = {}
  owner : ∀ id, g.owner id = none
  absent : ∀ id, g.nextId ≤ id → g.status id = .absent
  reaped : g.reaped = []

abbrev PoolMove := Move (PoolId × Start) Input Cid

/-- Every coroutine ends by itself. -/
def Uncrashed (_ : Run) : PoolMove → Prop
  | .crash _ => False
  | _ => True

/-- A move that meets the condition. -/
def Heedful (c : Run) : PoolMove → Prop
  | .crash _ => False
  | .step i a => ∀ l ∈ c.proc i, Careful (places c) c.shared l a
  | .spawn _ | .env _ => True

/-! ## Counting over the queue and the coroutines -/

/-- How often a container is idle or with a coroutine. -/
def tokens (c : Run) (p : PoolId) (id : Cid) : Nat :=
  (c.shared.pools p).idle.count id + c.count fun l => l.pool = p && l.stage.hold.container = some id

/-- Every container is in one place at most, and one that runs is in one; `_created` counts the
containers but the one under way, which the lock guards. -/
structure Sound (config : PoolId → PoolConfig) (c : Run) : Prop where
  locked : ∀ p, (c.count fun l => l.pool = p && l.stage.locks) = (c.shared.pools p).locked.toNat
  room : ∀ p, (c.shared.pools p).idle.length +
    (c.count fun l => l.pool = p && l.stage.hold.counted) ≤ (c.shared.pools p).created
  created_le : ∀ p, (c.shared.pools p).created ≤ (config p).maxSize
  creates : ∀ i l, c.proc i = some l → l.stage.hold.creates = true →
    (c.shared.pools l.pool).created < (config l.pool).maxSize
  tokens_le : ∀ p id, tokens c p id ≤ 1
  owned : ∀ p id, 0 < tokens c p id → c.shared.owner id = some p
  issued : ∀ p id, c.shared.owner id = some p → id < c.shared.nextId
  running : ∀ p id, c.shared.owner id = some p → c.shared.status id = .running →
    0 < tokens c p id
  users : ∀ i l id, c.proc i = some l → l.stage.hold = .user id →
    id ∈ (c.shared.pools l.pool).inUse
  inUse : ∀ p, ∀ id ∈ (c.shared.pools p).inUse,
    ∃ i l, c.proc i = some l ∧ l.pool = p ∧ l.stage.hold = .user id
  fresh : ∀ i l id, c.proc i = some l → l.stage.hold = .fresh id → c.shared.status id ≠ .running
  labelled : ∀ i l, c.proc i = some l → ∀ id ∈ l.stage.hold.labelled, id < c.shared.nextId
  orphans : ∀ i l, c.proc i = some l → ∀ id ∈ l.stage.hold.orphans,
    id < c.shared.nextId ∧ ∀ p, tokens c p id = 0
  reaped : ∀ id ∈ c.shared.reaped, id < c.shared.nextId ∧ ∀ p, tokens c p id = 0

theorem Stage.locks_of_creates {s : Stage} (h : s.hold.creates = true) : s.locks = true := by
  cases s <;> simp_all [Stage.hold]

/-- The run after a step of coroutine `i`. -/
abbrev after (c : Run) (g' : Shared) (i : Nat) (l' : Coroutine) : Run :=
  ⟨g', c.procs.set i (some l')⟩

section Counts

variable {c : Run} {i : Nat} {l l' : Coroutine}

theorem toNat_eq_ite (b : Bool) : b.toNat = if b then 1 else 0 := by
  cases b <;> rfl

theorem count_step_self (g' : Shared) (hi : c.proc i = some l) (hpool : l'.pool = l.pool)
    (f : Stage → Bool) :
    ((after c g' i l').count fun m => m.pool = l.pool && f m.stage) +
        (if f l.stage then 1 else 0) =
      (c.count fun m => m.pool = l.pool && f m.stage) + if f l'.stage then 1 else 0 := by
  have := Configuration.count_move (g := g') (m := l') hi
    fun m => decide (m.pool = l.pool) && f m.stage
  simpa [hpool] using this

theorem count_step_ne (g' : Shared) (hi : c.proc i = some l) (hpool : l'.pool = l.pool)
    (f : Stage → Bool) {q : PoolId} (hq : q ≠ l.pool) :
    ((after c g' i l').count fun m => m.pool = q && f m.stage) =
      c.count fun m => m.pool = q && f m.stage :=
  Configuration.count_move_of_eq hi (by simp [hpool, Ne.symm hq])

/-- What a step of a coroutine of the pool does to the count of a container. -/
theorem tokens_step_self (g' : Shared) (hi : c.proc i = some l) (hpool : l'.pool = l.pool)
    (id : Cid) :
    tokens (after c g' i l') l.pool id + c.shared.has l.pool l.stage.hold id =
      tokens c l.pool id + g'.has l.pool l'.stage.hold id := by
  have := count_step_self g' hi hpool fun s => s.hold.container = some id
  simp only [decide_eq_true_eq] at this
  simp only [tokens, Shared.has]
  omega

theorem tokens_step_ne {g' : Shared} (hi : c.proc i = some l) (hpool : l'.pool = l.pool) {q : PoolId}
    (hq : q ≠ l.pool) (hpools : g'.pools q = c.shared.pools q) (id : Cid) :
    tokens (after c g' i l') q id = tokens c q id := by
  have := count_step_ne g' hi hpool (fun s => s.hold.container = some id) hq
  simp only [tokens, hpools, this]

end Counts

/-! ## What the invariant says of the places -/

theorem tokens_pos {c : Run} {i : Nat} {l : Coroutine} {id : Cid} (hi : c.proc i = some l)
    (hl : l.stage.hold.container = some id) : 0 < tokens c l.pool id := by
  have := Configuration.count_pos (k := fun m : Coroutine =>
    decide (m.pool = l.pool) && decide (m.stage.hold.container = some id)) hi
    (by simp only [hl, decide_true, Bool.and_self])
  simp only [tokens]
  omega

namespace Sound

variable {config : PoolId → PoolConfig} {c : Run}

/-- Two coroutines never have the same container, nor is it idle then. -/
theorem holder_unique (hs : Sound config c) {i j : Nat} {l m : Coroutine} {id : Cid}
    (hi : c.proc i = some l) (hj : c.proc j = some m) (hpool : m.pool = l.pool)
    (hl : l.stage.hold.container = some id) (hm : m.stage.hold.container = some id) : i = j := by
  have hle := hs.tokens_le l.pool id
  refine Configuration.eq_of_count_le_one
    (k := fun m => decide (m.pool = l.pool) && decide (m.stage.hold.container = some id))
    (by simp only [tokens] at hle; omega) hi hj ?_ ?_
  · simp only [hl, decide_true, Bool.and_self]
  · simp only [hpool, hm, decide_true, Bool.and_self]

/-- The set has exactly the containers that callers have. -/
theorem count_users (hs : Sound config c) (p : PoolId) (id : Cid) :
    (c.count fun l => l.pool = p && l.stage.hold = .user id) =
      if id ∈ (c.shared.pools p).inUse then 1 else 0 := by
  split
  next hin =>
    obtain ⟨i, l, hi, rfl, hl⟩ := hs.inUse p id hin
    have hpos := Configuration.count_pos
      (k := fun m : Coroutine => decide (m.pool = l.pool) && decide (m.stage.hold = .user id)) hi
      (by simp [hl])
    have hle : (c.count fun m => m.pool = l.pool && m.stage.hold = .user id) ≤
        c.count fun m => m.pool = l.pool && m.stage.hold.container = some id :=
      Configuration.count_mono fun m hm => by
        simp only [Bool.and_eq_true, decide_eq_true_eq] at hm ⊢
        exact ⟨hm.1, by simp [hm.2]⟩
    have htokens := hs.tokens_le l.pool id
    simp only [tokens] at htokens
    omega
  next hout =>
    refine Configuration.count_eq_zero.mpr fun i l hi => ?_
    simp only [Bool.and_eq_false_iff, decide_eq_false_iff_not]
    by_cases hp : l.pool = p
    · exact Or.inr fun hl => hout (hp ▸ hs.users i l id hi hl)
    · exact Or.inl hp

theorem places_eq (hs : Sound config c) (p : PoolId) (id : Cid) : places c p id = tokens c p id := by
  have hsplit := c.count_or (fun l => l.pool = p && l.stage.hold.handOver = some id)
    (fun l => l.pool = p && l.stage.hold = .user id) (by
      intro l hl
      simp only [Bool.and_eq_true, decide_eq_true_eq] at hl
      simp only [Bool.and_eq_false_iff, decide_eq_false_iff_not]
      refine Or.inr fun hu => ?_
      simp [hu] at hl)
  have hcongr : (c.count fun l => l.pool = p && l.stage.hold.container = some id) =
      c.count fun l => (l.pool = p && l.stage.hold.handOver = some id) ||
        (l.pool = p && l.stage.hold = .user id) := by
    congr 1
    funext l
    cases l.stage.hold <;> simp
  rw [places, tokens, hcongr, hsplit, hs.count_users p id]
  omega

end Sound

/-! ## A step keeps the invariant -/

section Step

variable {config : PoolId → PoolConfig} {c : Run} {g' : Shared} {i : Nat} {l l' : Coroutine}

theorem Sound.holders (hs : Sound config c) {j : Nat} {m : Coroutine} {id : Cid}
    (hi : c.proc i = some l) (hj : c.proc j = some m) (hl : l.stage.hold.container = some id)
    (hm : m.stage.hold.container = some id) : i = j := by
  have hlown := hs.owned _ _ (tokens_pos hi hl)
  have hmown := hs.owned _ _ (tokens_pos hj hm)
  exact hs.holder_unique hi hj (Option.some.inj (hmown.symm.trans hlown)) hl hm

/-- The number that the next container will get is not in use. -/
theorem Sound.tokens_new (hs : Sound config c) (q : PoolId) : tokens c q c.shared.nextId = 0 := by
  by_contra hne
  exact Nat.lt_irrefl _ (hs.issued _ _ (hs.owned _ _ (Nat.pos_of_ne_zero hne)))

theorem Sound.has_new (hs : Sound config c) (hi : c.proc i = some l) :
    c.shared.has l.pool l.stage.hold c.shared.nextId = 0 := by
  have hnone := hs.tokens_new l.pool
  simp only [tokens, Nat.add_eq_zero_iff] at hnone
  have hhold : l.stage.hold.container ≠ some c.shared.nextId := by
    intro hl
    have := Configuration.count_eq_zero.mp hnone.2 i l hi
    simp only [hl, decide_true, Bool.and_self] at this
    cases this
  simp only [Shared.has, hnone.1, hhold, if_false]

theorem Sound.locks_le (hs : Sound config c) (p : PoolId) :
    (c.count fun m => m.pool = p && m.stage.locks) ≤ 1 := by
  rw [hs.locked p]
  exact Bool.toNat_le _

/-- A container gets no further place, but for a new one. -/
theorem tokens_step_le (hi : c.proc i = some l) (hpool : l'.pool = l.pool)
    (e : Effect (config l.pool).maxSize (places c) l.pool c.shared l.stage.hold g' l'.stage.hold)
    (q : PoolId) {id : Cid} (hne : id ≠ c.shared.nextId) :
    tokens (after c g' i l') q id ≤ tokens c q id := by
  by_cases hq : q = l.pool
  · subst hq
    have hstep := tokens_step_self g' hi hpool id
    have hhas : g'.has l.pool l'.stage.hold id ≤ c.shared.has l.pool l.stage.hold id := by
      rcases e.has_le with ⟨-, -, hle⟩ | ⟨-, hle⟩
      · exact hle id
      · simpa [hne] using hle id
    omega
  · exact Nat.le_of_eq (tokens_step_ne hi hpool hq (e.pools_ne hq) id)

/-- What has no place gets none. -/
theorem tokens_step_zero (hi : c.proc i = some l) (hpool : l'.pool = l.pool)
    (e : Effect (config l.pool).maxSize (places c) l.pool c.shared l.stage.hold g' l'.stage.hold)
    {id : Cid} (h : id < c.shared.nextId ∧ ∀ p, tokens c p id = 0) :
    id < g'.nextId ∧ ∀ p, tokens (after c g' i l') p id = 0 := by
  refine ⟨Nat.lt_of_lt_of_le h.1 e.nextId_le, fun p => ?_⟩
  have := tokens_step_le hi hpool e p (Nat.ne_of_lt h.1)
  have := h.2 p
  omega

variable (hs : Sound config c) (hi : c.proc i = some l) (hpool : l'.pool = l.pool)
  (e : Effect (config l.pool).maxSize (places c) l.pool c.shared l.stage.hold g' l'.stage.hold)
include hs hi e

theorem fresh_step {j : Nat} {m : Coroutine} {id : Cid} (hj : (after c g' i l').proc j = some m)
    (hm : m.stage.hold = .fresh id) : g'.status id ≠ .running := by
  have hfresh : ∀ x, l.stage.hold = .fresh x → c.shared.status x ≠ .running :=
    fun x hx => hs.fresh i l x hi hx
  rcases Configuration.proc_set (g := c.shared) hj with ⟨rfl, heq⟩ | ⟨hne, hj⟩
  · cases heq
    exact e.fresh_of hfresh hm
  · intro hrun
    rcases e.running hfresh hrun with ⟨hold, -, -⟩ | ⟨hl, -⟩
    · exact hs.fresh j m id hj hm hold
    · exact hne (hs.holders hi hj hl (by simp only [hm, Hold.container])).symm

theorem orphans_step {id : Cid} (hid : id ∈ l'.stage.hold.orphans) :
    id < c.shared.nextId ∧ ∀ p, tokens c p id = 0 := by
  rcases e.orphans_of hid with hold | ⟨hlabelled, hnone⟩
  · exact hs.orphans i l hi id hold
  · refine ⟨hs.labelled i l hi id hlabelled, fun p => ?_⟩
    by_contra hne
    have hown := hs.owned p id (Nat.pos_of_ne_zero hne)
    exact hne ((hs.places_eq p id).symm.trans (hnone p hown))

include hpool

theorem tokens_step_new (q : PoolId) :
    tokens (after c g' i l') q c.shared.nextId = 0 ∨
    (tokens (after c g' i l') q c.shared.nextId ≤ 1 ∧ g'.owner c.shared.nextId = some q) := by
  by_cases hq : q = l.pool
  · subst hq
    have hstep := tokens_step_self g' hi hpool c.shared.nextId
    have hnew := hs.tokens_new l.pool
    have hold := hs.has_new hi
    rcases e.has_le with ⟨-, -, hle⟩ | ⟨⟨howner, -⟩, hle⟩
    · have := hle c.shared.nextId
      left
      omega
    · have := hle c.shared.nextId
      simp only [if_true] at this
      right
      exact ⟨by omega, by simp [howner]⟩
  · left
    rw [tokens_step_ne hi hpool hq (e.pools_ne hq)]
    exact hs.tokens_new q

theorem running_step {q : PoolId} {id : Cid} (hown : g'.owner id = some q)
    (hrun : g'.status id = .running) : 0 < tokens (after c g' i l') q id := by
  rcases e.running (fun x hx => hs.fresh i l x hi hx) hrun with
    ⟨hold, howner, hhas⟩ | ⟨hl, hl'⟩
  · have hpos := hs.running q id (howner ▸ hown) hold
    by_cases hq : q = l.pool
    · subst hq
      have hstep := tokens_step_self g' hi hpool id
      omega
    · rwa [tokens_step_ne hi hpool hq (e.pools_ne hq)]
  · -- the coroutine has started its container
    have hown' := hs.owned _ _ (tokens_pos hi hl)
    have hne : id ≠ c.shared.nextId := Nat.ne_of_lt (hs.issued _ _ hown')
    have hq : q = l.pool := by
      exact Option.some.inj (hown.symm.trans ((e.owner_ne hne).trans hown'))
    have hmoved : (after c g' i l').proc i = some l' := Configuration.proc_set_self hi
    have := tokens_pos hmoved hl'
    rwa [hpool, ← hq] at this

theorem users_step {j : Nat} {m : Coroutine} {id : Cid} (hj : (after c g' i l').proc j = some m)
    (hm : m.stage.hold = .user id) : id ∈ (g'.pools m.pool).inUse := by
  rcases Configuration.proc_set (g := c.shared) hj with ⟨rfl, heq⟩ | ⟨hne, hj⟩
  · cases heq
    rw [hpool]
    exact e.inUse_user (hs.users _ l id hi) hm
  · have hin := hs.users j m id hj hm
    by_cases hp : m.pool = l.pool
    · rw [hp] at hin ⊢
      refine (e.inUse_stays hin).resolve_right fun hl => hne ?_
      exact (hs.holders hi hj hl (by simp only [hm, Hold.container])).symm
    · rwa [e.pools_ne hp]

theorem inUse_step {p : PoolId} {id : Cid} (hid : id ∈ (g'.pools p).inUse) :
    ∃ j m, (after c g' i l').proc j = some m ∧ m.pool = p ∧ m.stage.hold = .user id := by
  -- a user that has not moved
  have hkeep : ∀ j m, j ≠ i → c.proc j = some m → (after c g' i l').proc j = some m :=
    fun j m hne hj => (Configuration.proc_set_ne (g := c.shared) hne).trans hj
  by_cases hp : p = l.pool
  · subst hp
    rcases e.inUse_of hid with huser | ⟨hold, hnot⟩
    · exact ⟨i, l', Configuration.proc_set_self hi, hpool, huser⟩
    · obtain ⟨j, m, hj, hm, huser⟩ := hs.inUse l.pool id hold
      refine ⟨j, m, hkeep j m ?_ hj, hm, huser⟩
      rintro rfl
      exact hnot (Option.some.inj (hi.symm.trans hj) ▸ huser)
  · rw [e.pools_ne hp] at hid
    obtain ⟨j, m, hj, hm, huser⟩ := hs.inUse p id hid
    refine ⟨j, m, hkeep j m ?_ hj, hm, huser⟩
    rintro rfl
    exact hp (Option.some.inj (hi.symm.trans hj) ▸ hm.symm)

theorem creates_step {j : Nat} {m : Coroutine} (hj : (after c g' i l').proc j = some m)
    (hm : m.stage.hold.creates = true) :
    (g'.pools m.pool).created < (config m.pool).maxSize := by
  rcases Configuration.proc_set (g := c.shared) hj with ⟨rfl, heq⟩ | ⟨hne, hj⟩
  · cases heq
    have hbound := e.created_le (hs.created_le l.pool) (hs.creates _ l hi)
    rw [hpool]
    exact hbound.2 hm
  · have hroom := hs.creates j m hj hm
    by_cases hp : m.pool = l.pool
    · rcases e.created_grows with hle | hl
      · rw [hp] at hroom ⊢
        exact Nat.lt_of_le_of_lt hle hroom
      · -- both would hold the lock
        refine absurd ?_ hne
        refine (Configuration.eq_of_count_le_one (hs.locks_le l.pool) hi hj ?_ ?_).symm
        · simp only [Stage.locks_of_creates hl, decide_true, Bool.and_self]
        · simp only [Stage.locks_of_creates hm, hp, decide_true, Bool.and_self]
    · rwa [e.pools_ne hp]

theorem room_step (p : PoolId) : (g'.pools p).idle.length +
    ((after c g' i l').count fun m => m.pool = p && m.stage.hold.counted) ≤
      (g'.pools p).created := by
  by_cases hp : p = l.pool
  · subst hp
    have hcount := count_step_self g' hi hpool fun s => s.hold.counted
    have hothers : l.stage.hold.counted.toNat ≤
        c.count fun m => m.pool = l.pool && m.stage.hold.counted := by
      cases hl : l.stage.hold.counted with
      | false => exact Nat.zero_le _
      | true => exact Configuration.count_pos hi (by simp only [hl, decide_true, Bool.and_self])
    have hroom := hs.room l.pool
    have := e.room (r := (c.count fun m => m.pool = l.pool && m.stage.hold.counted) -
      l.stage.hold.counted.toNat) (by omega)
    simp only [toNat_eq_ite] at this hothers
    omega
  · rw [count_step_ne g' hi hpool (fun s => s.hold.counted) hp, e.pools_ne hp]
    exact hs.room p

end Step

namespace Sound

variable {config : PoolId → PoolConfig} {c : Run}

theorem step (hs : Sound config c) {a : Input} {g' : Shared} {i : Nat} {l l' : Coroutine}
    (hi : c.proc i = some l) (hcare : Careful (places c) c.shared l a)
    (h : next config a c.shared l = some (g', l')) : Sound config (after c g' i l') := by
  obtain ⟨hpool, e⟩ := next_effect hcare h
  have hlocked : l.stage.locks = true → (c.shared.pools l.pool).locked = true := by
    intro hl
    have hpos := Configuration.count_pos
      (k := fun m : Coroutine => decide (m.pool = l.pool) && m.stage.locks) hi
      (by simp only [hl, decide_true, Bool.and_self])
    rw [hs.locked l.pool] at hpos
    by_contra hfree
    rw [Bool.eq_false_iff.mpr hfree] at hpos
    exact Nat.lt_irrefl 0 hpos
  constructor
  case locked =>
    intro p
    by_cases hp : p = l.pool
    · subst hp
      have hcount := count_step_self g' hi hpool Stage.locks
      have hlaw := next_locked hlocked h
      have hold := hs.locked l.pool
      simp only [toNat_eq_ite] at hlaw hold ⊢
      omega
    · rw [count_step_ne g' hi hpool Stage.locks hp, e.pools_ne hp]
      exact hs.locked p
  case room => exact room_step hs hi hpool e
  case created_le =>
    intro p
    by_cases hp : p = l.pool
    · subst hp
      exact (e.created_le (hs.created_le l.pool) (hs.creates i l hi)).1
    · rw [e.pools_ne hp]
      exact hs.created_le p
  case creates => exact fun j m hj hm => creates_step hs hi hpool e hj hm
  case tokens_le =>
    intro p id
    by_cases hne : id = c.shared.nextId
    · rcases hne ▸ tokens_step_new hs hi hpool e p with hnone | ⟨hle, -⟩
      · exact hnone ▸ Nat.zero_le _
      · exact hle
    · exact Nat.le_trans (tokens_step_le hi hpool e p hne) (hs.tokens_le p id)
  case owned =>
    intro p id hpos
    by_cases hne : id = c.shared.nextId
    · subst hne
      rcases tokens_step_new hs hi hpool e p with hnone | ⟨-, hown⟩
      · exact absurd hnone (Nat.ne_of_gt hpos)
      · exact hown
    · rw [e.owner_ne hne]
      exact hs.owned p id (Nat.lt_of_lt_of_le hpos (tokens_step_le hi hpool e p hne))
  case issued => exact e.issued hs.issued
  case running => exact fun p id hown hrun => running_step hs hi hpool e hown hrun
  case users => exact fun j m id hj hm => users_step hs hi hpool e hj hm
  case inUse => exact fun p id hid => inUse_step hs hi hpool e hid
  case fresh => exact fun j m id hj hm => fresh_step hs hi e hj hm
  case labelled =>
    intro j m hj id hid
    rcases Configuration.proc_set (g := c.shared) hj with ⟨rfl, heq⟩ | ⟨-, hj⟩
    · cases heq
      rcases e.labelled_of hid with hold | hlt
      · exact Nat.lt_of_lt_of_le (hs.labelled _ l hi id hold) e.nextId_le
      · exact Nat.lt_of_lt_of_le hlt e.nextId_le
    · exact Nat.lt_of_lt_of_le (hs.labelled j m hj id hid) e.nextId_le
  case orphans =>
    intro j m hj id hid
    refine tokens_step_zero hi hpool e ?_
    rcases Configuration.proc_set (g := c.shared) hj with ⟨rfl, heq⟩ | ⟨-, hj⟩
    · cases heq
      exact orphans_step hs hi e hid
    · exact hs.orphans j m hj id hid
  case reaped =>
    intro id hid
    refine tokens_step_zero hi hpool e ?_
    rcases e.reaped_of hid with hold | horphan
    · exact hs.reaped id hold
    · exact hs.orphans i l hi id horphan

/-- A new coroutine has nothing. -/
theorem spawn (hs : Sound config c) (p : PoolId) (start : Start) :
    Sound config ⟨c.shared, c.procs ++ [some ⟨p, start.stage⟩]⟩ := by
  have hcount : ∀ (q : PoolId) (f : Stage → Bool), f start.stage = false →
      ((⟨c.shared, c.procs ++ [some ⟨p, start.stage⟩]⟩ : Run).count
        fun m => m.pool = q && f m.stage) = c.count fun m => m.pool = q && f m.stage := by
    intro q f hf
    have := Configuration.count_append c c.shared (⟨p, start.stage⟩ : Coroutine)
      fun m => decide (m.pool = q) && f m.stage
    simpa [hf] using this
  have hhold : start.stage.hold = .nothing := by cases start <;> rfl
  have htokens : ∀ q id, tokens ⟨c.shared, c.procs ++ [some ⟨p, start.stage⟩]⟩ q id =
      tokens c q id := by
    intro q id
    simp only [tokens, hcount q (fun s => s.hold.container = some id) (by simp [hhold])]
  -- a coroutine that has something has been there before
  have hthere : ∀ {j : Nat} {m : Coroutine},
      (⟨c.shared, c.procs ++ [some ⟨p, start.stage⟩]⟩ : Run).proc j = some m →
      m.stage.hold = .nothing ∨ c.proc j = some m := by
    intro j m hj
    rcases Configuration.proc_append (g := c.shared) hj with ⟨-, rfl⟩ | hj
    · exact Or.inl hhold
    · exact Or.inr hj
  constructor
  case locked =>
    intro q
    rw [hcount q Stage.locks (by cases start <;> rfl)]
    exact hs.locked q
  case room =>
    intro q
    rw [hcount q (fun s => s.hold.counted) (by simp [hhold])]
    exact hs.room q
  case created_le => exact hs.created_le
  case creates =>
    intro j m hj hm
    rcases hthere hj with hnone | hj
    · simp [hnone] at hm
    · exact hs.creates j m hj hm
  case tokens_le => exact fun q id => htokens q id ▸ hs.tokens_le q id
  case owned => exact fun q id hpos => hs.owned q id (htokens q id ▸ hpos)
  case issued => exact hs.issued
  case running => exact fun q id hown hrun => htokens q id ▸ hs.running q id hown hrun
  case users =>
    intro j m id hj hm
    rcases hthere hj with hnone | hj
    · simp [hnone] at hm
    · exact hs.users j m id hj hm
  case inUse =>
    intro q id hid
    obtain ⟨j, m, hj, hm⟩ := hs.inUse q id hid
    exact ⟨j, m, Configuration.proc_append_left hj, hm⟩
  case fresh =>
    intro j m id hj hm
    rcases hthere hj with hnone | hj
    · simp [hnone] at hm
    · exact hs.fresh j m id hj hm
  case labelled =>
    intro j m hj id hid
    rcases hthere hj with hnone | hj
    · simp [hnone] at hid
    · exact hs.labelled j m hj id hid
  case orphans =>
    intro j m hj id hid
    rcases hthere hj with hnone | hj
    · simp [hnone] at hid
    · exact ⟨(hs.orphans j m hj id hid).1, fun q => (htokens q id).trans ((hs.orphans j m hj id hid).2 q)⟩
  case reaped =>
    exact fun id hid => ⟨(hs.reaped id hid).1, fun q => (htokens q id).trans ((hs.reaped id hid).2 q)⟩

/-- A container that stops by itself stays where it is. -/
theorem env (hs : Sound config c) {id : Cid} {g : Shared} (h : dies c.shared id = some g) :
    Sound config { c with shared := g } := by
  obtain ⟨-, h⟩ := Option.ite_none_right_eq_some.mp h
  cases h
  have hran : ∀ {x : Cid}, (c.shared.setStatus id .exited).status x = .running →
      c.shared.status x = .running := by
    intro x hx
    by_cases hne : x = id
    · simp [Shared.setStatus, hne] at hx
    · simpa [Shared.setStatus, hne] using hx
  exact {
    locked := hs.locked
    room := hs.room
    created_le := hs.created_le
    creates := hs.creates
    tokens_le := hs.tokens_le
    owned := hs.owned
    issued := hs.issued
    running := fun p x hown hrun => hs.running p x hown (hran hrun)
    users := hs.users
    inUse := hs.inUse
    fresh := fun j m x hj hm hrun => hs.fresh j m x hj hm (hran hrun)
    labelled := hs.labelled
    orphans := hs.orphans
    reaped := hs.reaped }

/-- Before any coroutine has begun there is nothing to count. -/
theorem initial {g : Shared} (hg : Initial g) : Sound config ⟨g, []⟩ := by
  have hnone : ∀ {j : Nat} {m : Coroutine}, (⟨g, []⟩ : Run).proc j ≠ some m := by
    simp [Configuration.proc]
  have htokens : ∀ p id, tokens ⟨g, []⟩ p id = 0 := by
    simp [tokens, Configuration.count, hg.pools]
  constructor
  case locked => simp [Configuration.count, hg.pools]
  case room => simp [Configuration.count, hg.pools]
  case created_le => simp [hg.pools]
  case creates => exact fun j m hj => absurd hj hnone
  case tokens_le => simp [htokens]
  case owned => simp [htokens]
  case issued => simp [hg.owner]
  case running => simp [hg.owner]
  case users => exact fun j m id hj => absurd hj hnone
  case inUse => simp [hg.pools]
  case fresh => exact fun j m id hj => absurd hj hnone
  case labelled => exact fun j m hj => absurd hj hnone
  case orphans => exact fun j m hj => absurd hj hnone
  case reaped => simp [hg.reaped]

theorem keeps (hs : Sound config c) {c' : Run} (h : (system config).Steps Heedful c c') :
    Sound config c' := by
  rcases h.cases with ⟨⟨p, start⟩, g, l, -, hspawn, rfl⟩ | ⟨i, a, l, g, l', hok, hl, hstep, rfl⟩ |
    ⟨i, hok, -⟩ | ⟨id, g, -, henv, rfl⟩
  · cases hspawn
    exact hs.spawn p start
  · exact hs.step hl (hok l hl) hstep
  · exact hok.elim
  · exact hs.env henv

end Sound

/-! ## The runs -/

/-- The containers that are idle or with a coroutine of the pool. -/
def held (c : Run) (p : PoolId) : List Cid :=
  (c.shared.pools p).idle ++ c.procs.filterMap fun o =>
    o.bind fun l => if l.pool = p then l.stage.hold.container else none

theorem held_length (c : Run) (p : PoolId) : (held c p).length =
    (c.shared.pools p).idle.length +
      c.count fun l => l.pool = p && l.stage.hold.container.isSome := by
  simp only [held, List.length_append, List.length_filterMap_eq_countP, Configuration.count]
  congr 1
  refine List.countP_congr fun o _ => ?_
  cases o with
  | none => simp
  | some l => by_cases hp : l.pool = p <;> simp [hp]

theorem mem_held {c : Run} {p : PoolId} {id : Cid} (h : 0 < tokens c p id) : id ∈ held c p := by
  rcases Nat.eq_zero_or_pos ((c.shared.pools p).idle.count id) with hnone | hidle
  · refine List.mem_append_right _ ?_
    simp only [tokens, hnone, Nat.zero_add] at h
    obtain ⟨i, l, hi, hl⟩ := Configuration.exists_of_count_pos h
    simp only [Bool.and_eq_true, decide_eq_true_eq] at hl
    exact List.mem_filterMap.mpr ⟨some l, List.mem_of_getElem? (Configuration.proc_eq_some.mp hi),
      by simp only [Option.bind_some, hl.1, if_true, hl.2]⟩
  · exact List.mem_append_left _ (List.count_pos_iff.mp hidle)

/-- The containers of a pool that run are idle or with a coroutine; one of them may be under way,
and then the lock has kept room for it. -/
theorem Sound.running_le {config : PoolId → PoolConfig} {c : Run} (hs : Sound config c)
    (p : PoolId) : WarmPool.running c p ≤ (config p).maxSize := by
  have hheld : WarmPool.running c p ≤ (held c p).length := by
    rw [WarmPool.running, List.countP_eq_length_filter]
    refine List.Nodup.length_le_of_subset (List.nodup_range.filter _) fun id hid => ?_
    simp only [List.mem_filter, Bool.and_eq_true, decide_eq_true_eq] at hid
    exact mem_held (hs.running p id hid.2.1 hid.2.2)
  have hsplit : (c.count fun l => l.pool = p && l.stage.hold.container.isSome) ≤
      (c.count fun l => l.pool = p && l.stage.hold.counted) +
        c.count fun l => l.pool = p && l.stage.hold.creates := by
    rw [← Configuration.count_or _ _ _ fun l hl => ?_]
    · refine Configuration.count_mono fun l hl => ?_
      cases hh : l.stage.hold <;> simp_all
    · cases hh : l.stage.hold <;> simp_all
  have hlock : (c.count fun l => l.pool = p && l.stage.hold.creates) ≤ 1 := by
    refine Nat.le_trans (Configuration.count_mono fun l hl => ?_) (hs.locks_le p)
    simp only [Bool.and_eq_true] at hl ⊢
    exact ⟨hl.1, Stage.locks_of_creates hl.2⟩
  have hroom := hs.room p
  have hcreated := hs.created_le p
  rw [held_length] at hheld
  by_cases hnone : (c.count fun l => l.pool = p && l.stage.hold.creates) = 0
  · omega
  · -- somebody creates a container
    have hless : (c.shared.pools p).created < (config p).maxSize := by
      obtain ⟨i, l, hi, hl⟩ := Configuration.exists_of_count_pos (Nat.pos_of_ne_zero hnone)
      simp only [Bool.and_eq_true, decide_eq_true_eq] at hl
      obtain ⟨rfl, hcreates⟩ := hl
      exact hs.creates i l hi hcreates
    omega

theorem Sound.lawful {config : PoolId → PoolConfig} {c : Run} (hs : Sound config c) :
    Lawful config c := by
  constructor
  case tracked =>
    intro p id hown hrun
    rw [hs.places_eq p id]
    exact Nat.le_antisymm (hs.tokens_le p id) (hs.running p id hown hrun)
  case spared => exact fun id hid p => (hs.places_eq p id).trans ((hs.reaped id hid).2 p)
  case one_caller =>
    intro id i j l m hi hj hl hm
    simp only [decide_eq_true_eq] at hl hm
    refine hs.holders hi hj (show l.stage.hold.container = some id from ?_) ?_
    · simp only [hl, Stage.hold, Hold.container]
    · simp only [hm, Stage.hold, Hold.container]
  case created_le => exact hs.created_le
  case running_le => exact hs.running_le

/-- In every run of any number of pools in which no container that runs is left behind, and no
reaper overlooks one that has a place, no container is lost, taken away or handed out twice. -/
theorem pool_lawful (config : PoolId → PoolConfig) (g : Shared) (hg : Initial g) (c : Run)
    (hreach : (system config).Reaches Heedful ⟨g, []⟩ c) : Lawful config c :=
  Sound.lawful (System.Reaches.keeps (fun _ _ hs hstep => hs.keeps hstep) (Sound.initial hg) hreach)

instance (c : Run) (m : PoolMove) : Decidable (Uncrashed c m) :=
  match m with
  | .crash _ => isFalse id
  | .spawn _ | .step _ _ | .env _ => isTrue trivial

instance (c : Run) (m : PoolMove) : Decidable (Heedful c m) :=
  match m with
  | .crash _ => isFalse id
  | .step i a => inferInstanceAs (Decidable (∀ l ∈ c.proc i, Careful (places c) c.shared l a))
  | .spawn _ | .env _ => isTrue trivial

/-- A container that an earlier run has left, and has stopped. -/
def leftover : Shared where
  status id := if id = 0 then .exited else .absent
  nextId := 1

theorem leftover_initial : Initial leftover where
  pools _ := rfl
  owner _ := rfl
  absent id hid := by
    have : id ≠ 0 := Nat.ne_of_gt hid
    simp [leftover, this]
  reaped := rfl

/-- The first `warmup` of a pool on a host with a leftover: it reaps that, and creates container
1. -/
def warmupMoves : List PoolMove :=
  [.spawn (0, .warmup), .step 0 (.answer true), .step 0 (.answer true), .step 0 .go, .step 0 .go,
    .step 0 (.destroyed .removed), .step 0 .go, .step 0 .go, .step 0 .go, .step 0 (.answer true),
    .step 0 (.answer true), .step 0 .go, .step 0 .go]

/-- A caller gets the container, and the reaper passes over it. -/
def sparingMoves : List PoolMove :=
  [.spawn (0, .acquire), .step 1 .go, .step 1 (.answer true), .spawn (0, .reaper), .step 2 .go,
    .step 2 (.answer true), .step 2 .go]

theorem pool_lawful_after_warmup : ∃ c, (system fun _ => {}).Reaches Heedful ⟨leftover, []⟩ c ∧
    (0 ∈ c.shared.reaped ∧ 1 ∈ (c.shared.pools 0).inUse) ∧ Lawful (fun _ => {}) c := by
  obtain ⟨c, hreach, hc⟩ := System.exists_reaches_of_play (system fun _ => {}) Heedful
    (warmupMoves ++ sparingMoves) ⟨leftover, []⟩ (fun c => 0 ∈ c.shared.reaped ∧ 1 ∈ (c.shared.pools 0).inUse)
    (by decide +kernel)
  exact ⟨c, hreach, of_decide_eq_true hc, pool_lawful _ leftover leftover_initial c hreach⟩

/-- The reaper notes what is known while the container is between the queue and the set, and
destroys it when its caller has it. -/
def destroyingMoves : List PoolMove :=
  [.spawn (0, .acquire), .step 1 .go, .spawn (0, .reaper), .step 2 .go, .step 1 (.answer true),
    .step 2 (.answer true), .step 2 .go, .step 2 .go, .step 2 (.destroyed .removed)]

theorem pool_not_lawful : ¬ ∀ (config : PoolId → PoolConfig) (g : Shared), Initial g →
    ∀ c, (system config).Reaches Uncrashed ⟨g, []⟩ c → Lawful config c := by
  intro h
  obtain ⟨c, hreach, hc⟩ := System.exists_reaches_of_play (system fun _ => {}) Uncrashed
    (warmupMoves ++ destroyingMoves) ⟨leftover, []⟩ (fun c => 1 ∈ c.shared.reaped ∧ places c 0 1 = 1)
    (by decide +kernel)
  obtain ⟨hreaped, hplace⟩ := of_decide_eq_true hc
  have hspared := (h (fun _ => {}) leftover leftover_initial c hreach).spared 1 hreaped 0
  omega

end WarmPool

end CitraFlows
