-- SUMMARY: A halt that was set is seen by every later read, unless a read fills the cache with an answer that misses it.
import CitraFlows.Workflows.KillSwitch

/-!
# Halting

A halt that was set is in the store until a write lifts it, and in the cache if the cache may
still be taken. The second half needs that reads fill the cache with complete answers.
-/

namespace CitraFlows

open Processes

namespace KillSwitch

/-- A write that lifts the scope and has not run. -/
def Process.lifting (sc : Scope) : Process → Bool
  | .reader _ => false
  | .writer p => !p.control.enabled && p.control.scope = sc && p.stage = .update

/-- The collection has a halt of the scope. -/
def HasHalt (docs : List Control) (sc : Scope) : Prop :=
  ∃ d ∈ docs, d.enabled = true ∧ d.scope = sc

/-- What is known of a read. -/
structure Reader.Follows (s : Shared) (p : Reader) : Prop where
  lifts : ∀ sc, p.liftsAtStart sc ≤ s.liftsBegun sc
  halted : ∀ sc, p.owed s sc = true → s.halted sc = true
  served : p.Served s

/-- What is known of a write that sets a halt and was not overlapped by one that lifts it: no lift
is under way, and its record is in the store once it was written. -/
structure Writer.Follows (s : Shared) (p : Writer) : Prop where
  lifts : p.liftsAtStart ≤ s.liftsBegun p.control.scope
  quiet : p.control.enabled = true → p.undisputed s = true →
    s.liftsRun p.control.scope = s.liftsBegun p.control.scope
  written : p.control.enabled = true → p.undisputed s = true → p.stage = .invalidate →
    HasHalt s.docs p.control.scope

def Process.Follows (s : Shared) : Process → Prop
  | .reader p => p.Follows s
  | .writer p => p.Follows s

/-- The invariant of a run with complete answers. -/
structure Run.Kept (c : Run) : Prop where
  lifts : ∀ sc, c.shared.liftsRun sc + c.count (Process.lifting sc) ≤ c.shared.liftsBegun sc
  quiet : ∀ sc, c.shared.halted sc = true → c.shared.liftsRun sc = c.shared.liftsBegun sc
  stored : ∀ sc, c.shared.halted sc = true → HasHalt c.shared.docs sc
  cached : ∀ sc, c.shared.halted sc = true →
    c.shared.cache.at_ = 0 ∨ ∃ d ∈ c.shared.cache.controls, d.scope = sc
  clock : cacheTtlSeconds ≤ c.shared.now
  procs : ∀ i p, c.proc i = some p → p.Follows c.shared

/-! ## Writing a record -/

/-- A record of the scope is there after it was written. -/
theorem Shared.update_hasHalt {s : Shared} {c : Control} (hc : c.enabled = true) :
    HasHalt (s.update c).docs c.scope := by
  simp only [update]
  split
  next hany =>
    obtain ⟨d, hd, hscope⟩ := List.any_eq_true.mp hany
    exact ⟨c, List.mem_map.mpr ⟨d, hd, by simp_all⟩, hc, rfl⟩
  next => exact ⟨c, by simp, hc, rfl⟩

/-- A halt stays when a record is written, unless the record lifts it. -/
theorem HasHalt.update {s : Shared} {c : Control} {sc : Scope} (h : HasHalt s.docs sc)
    (hc : c.enabled = true ∨ sc ≠ c.scope) : HasHalt (s.update c).docs sc := by
  obtain ⟨d, hd, hen, rfl⟩ := h
  by_cases hscope : d.scope = c.scope
  · have hen' := hc.resolve_right (by simp [hscope])
    rw [hscope]
    exact Shared.update_hasHalt hen'
  · simp only [Shared.update]
    split
    · exact ⟨d, List.mem_map.mpr ⟨d, hd, by simp [hscope]⟩, hen, rfl⟩
    · exact ⟨d, by simp [hd], hen, rfl⟩

/-! ## Processes that look on -/

/-- How the state moves under a process: no lift is forgotten, a halt goes only when a lift of its
scope begins, and while no lift of a scope begins or is under way its record stays. -/
structure Shared.Grows (s s' : Shared) : Prop where
  lifts : ∀ sc, s.liftsBegun sc ≤ s'.liftsBegun sc
  halted : ∀ sc, s.halted sc = true → s'.liftsBegun sc = s.liftsBegun sc → s'.halted sc = true
  quiet : ∀ sc, s.liftsRun sc = s.liftsBegun sc → s'.liftsBegun sc = s.liftsBegun sc →
    s'.liftsRun sc = s.liftsRun sc ∧ (HasHalt s.docs sc → HasHalt s'.docs sc)

theorem Reader.Follows.grows {s s' : Shared} {p : Reader} (h : p.Follows s) (hs : s.Grows s') :
    p.Follows s' := by
  have howed : ∀ sc, p.owed s' sc = true → p.owed s sc = true ∧
      s'.liftsBegun sc = s.liftsBegun sc := by
    intro sc ho
    simp only [owed, Bool.and_eq_true, decide_eq_true_eq] at ho ⊢
    have h₁ := h.lifts sc
    have h₂ := hs.lifts sc
    exact ⟨⟨ho.1, by omega⟩, by omega⟩
  refine ⟨fun sc => Nat.le_trans (h.lifts sc) (hs.lifts sc), fun sc ho => ?_,
    fun halt sc hstage ho hcovers => ?_⟩
  · obtain ⟨hold, hsame⟩ := howed sc ho
    exact hs.halted sc (h.halted sc hold) hsame
  · exact h.served halt sc hstage (howed sc ho).1 hcovers

theorem Writer.Follows.grows {s s' : Shared} {p : Writer} (h : p.Follows s) (hs : s.Grows s') :
    p.Follows s' := by
  have hund : p.undisputed s' = true → p.undisputed s = true ∧
      s'.liftsBegun p.control.scope = s.liftsBegun p.control.scope := by
    intro hu
    simp only [undisputed, Bool.and_eq_true, decide_eq_true_eq] at hu ⊢
    have h₁ := h.lifts
    have h₂ := hs.lifts p.control.scope
    exact ⟨⟨hu.1, by omega⟩, by omega⟩
  refine ⟨Nat.le_trans h.lifts (hs.lifts _), fun hen hu => ?_, fun hen hu hstage => ?_⟩
  · obtain ⟨hold, hsame⟩ := hund hu
    have hquiet := h.quiet hen hold
    rw [(hs.quiet _ hquiet hsame).1, hquiet, hsame]
  · obtain ⟨hold, hsame⟩ := hund hu
    exact (hs.quiet _ (h.quiet hen hold) hsame).2 (h.written hen hold hstage)

theorem Process.Follows.grows {s s' : Shared} {p : Process} (h : p.Follows s) (hs : s.Grows s') :
    p.Follows s' := by
  cases p with
  | reader p => exact Reader.Follows.grows h hs
  | writer p => exact Writer.Follows.grows h hs

theorem Shared.Grows.refl {s : Shared} : s.Grows s :=
  ⟨fun _ => Nat.le_refl _, fun _ h _ => h, fun _ _ _ => ⟨rfl, id⟩⟩

/-! ## Moves -/

/-- A write that sets or lifts a scope begins. -/
theorem beginSetControl_grows (s : Shared) (c : Control) : s.Grows (beginSetControl c s).1 := by
  unfold beginSetControl
  split
  · exact .refl
  · refine ⟨fun sc => ?_, fun sc hsc hsame => ?_, fun _ _ _ => ⟨rfl, id⟩⟩
    · by_cases hscope : sc = c.scope
      · simp [hscope]
      · simp [hscope]
    · by_cases hscope : sc = c.scope
      · simp [hscope] at hsame
      · simpa [hscope] using hsc

theorem beginSetControl_follows (s : Shared) (c : Control) :
    (beginSetControl c s).2.Follows (beginSetControl c s).1 := by
  have hgrows := beginSetControl_grows s c
  refine ⟨hgrows.lifts _, fun hen hu => ?_, fun _ _ hstage => by cases hstage⟩
  have hen : c.enabled = true := hen
  simp only [beginSetControl, hen, if_true, Writer.undisputed, Bool.and_eq_true,
    decide_eq_true_eq] at hu ⊢
  exact hu.1.symm

/-- What the write of a record leaves as it is. -/
theorem update_keeps (s : Shared) (c : Control) (w : Write) :
    ((if w.ran then s.update c else s).liftRun c).liftsBegun = s.liftsBegun ∧
      ((if w.ran then s.update c else s).liftRun c).halted = s.halted ∧
      ((if w.ran then s.update c else s).liftRun c).cache = s.cache ∧
      ((if w.ran then s.update c else s).liftRun c).now = s.now := by
  unfold Shared.liftRun
  split <;> split <;> exact ⟨rfl, rfl, rfl, rfl⟩

theorem liftsRun_update (s : Shared) (c : Control) (w : Write) (sc : Scope) :
    ((if w.ran then s.update c else s).liftRun c).liftsRun sc =
      s.liftsRun sc + if c.enabled = false ∧ c.scope = sc then 1 else 0 := by
  have hsame : (if w.ran then s.update c else s).liftsRun = s.liftsRun := by
    split <;> rfl
  unfold Shared.liftRun
  split
  next hen => simp [hsame, hen]
  next hen =>
    by_cases hscope : sc = c.scope
    · subst hscope
      simp [hsame, hen]
    · simp [hsame, hscope, Ne.symm hscope]

/-- A record is written by a process that is under way. -/
theorem update_grows {s : Shared} {c : Control} (w : Write)
    (hlift : c.enabled = false → s.liftsRun c.scope < s.liftsBegun c.scope) :
    s.Grows ((if w.ran then s.update c else s).liftRun c) := by
  have hsame : (if w.ran then s.update c else s).liftsBegun = s.liftsBegun ∧
      (if w.ran then s.update c else s).liftsRun = s.liftsRun ∧
      (if w.ran then s.update c else s).halted = s.halted := by
    split <;> exact ⟨rfl, rfl, rfl⟩
  have hdocs : ∀ sc, c.enabled = true ∨ sc ≠ c.scope → HasHalt s.docs sc →
      HasHalt (if w.ran then s.update c else s).docs sc := by
    intro sc hc h
    split
    · exact h.update hc
    · exact h
  unfold Shared.liftRun
  split
  next hen =>
    exact ⟨fun sc => by rw [hsame.1], fun sc hsc _ => by rw [hsame.2.2]; exact hsc,
      fun sc _ _ => ⟨by rw [hsame.2.1], hdocs sc (Or.inl hen)⟩⟩
  next hen =>
    have hlt := hlift (by simpa using hen)
    refine ⟨fun sc => by simp [hsame.1], fun sc hsc _ => by simpa [hsame.2.2] using hsc,
      fun sc hquiet _ => ?_⟩
    have hscope : sc ≠ c.scope := by
      rintro rfl
      omega
    exact ⟨by simp [hsame.2.1, hscope], hdocs sc (Or.inr hscope)⟩

namespace Run

/-- What a move has to keep. -/
theorem Kept.of_grows {c : Run} {s' : Shared} {ps : List (Option Process)}
    (hgrows : c.shared.Grows s')
    (hlifts : ∀ sc, s'.liftsRun sc + (⟨s', ps⟩ : Run).count (Process.lifting sc) ≤
      s'.liftsBegun sc)
    (hhalted : ∀ sc, s'.halted sc = true →
      s'.liftsBegun sc = c.shared.liftsBegun sc ∧ c.shared.liftsRun sc = c.shared.liftsBegun sc ∧
        HasHalt c.shared.docs sc)
    (hcached : ∀ sc, s'.halted sc = true →
      s'.cache.at_ = 0 ∨ ∃ d ∈ s'.cache.controls, d.scope = sc)
    (hclock : cacheTtlSeconds ≤ s'.now)
    (hprocs : ∀ i p, (⟨s', ps⟩ : Run).proc i = some p → p.Follows s') :
    Kept ⟨s', ps⟩ where
  lifts := hlifts
  quiet sc hsc := by
    obtain ⟨hbegun, hquiet, -⟩ := hhalted sc hsc
    rw [(hgrows.quiet sc hquiet hbegun).1, hquiet, hbegun]
  stored sc hsc := by
    obtain ⟨hbegun, hquiet, hdocs⟩ := hhalted sc hsc
    exact (hgrows.quiet sc hquiet hbegun).2 hdocs
  cached := hcached
  clock := hclock
  procs := hprocs

theorem Kept.start (d : Nat) : Kept (Run.start d) where
  lifts sc := by simp [Run.start, Configuration.count]
  quiet sc h := by cases h
  stored sc h := by cases h
  cached sc h := by cases h
  clock := Nat.le_add_right _ _
  procs i p hi := by simp [Run.start, Configuration.proc] at hi

/-- The processes that look on, and the one that has moved. -/
theorem Kept.follows_set {c : Run} (h : c.Kept) {s' : Shared} {i : Nat} {p : Process}
    (hgrows : c.shared.Grows s') (hp : p.Follows s') :
    ∀ j q, (⟨s', c.procs.set i (some p)⟩ : Run).proc j = some q → q.Follows s' := by
  intro j q hj
  rcases Configuration.proc_set (g := c.shared) hj with ⟨-, hnew⟩ | ⟨-, hold⟩
  · cases hnew
    exact hp
  · exact (h.procs j q hold).grows hgrows

/-- A halt that is cached serves a read that it covers. -/
theorem Kept.begin_follows {c : Run} (h : c.Kept) (orgId : Option String)
    (deptTokens : List String) : (Reader.begin orgId deptTokens c.shared).Follows c.shared where
  lifts sc := Nat.le_refl _
  halted sc ho := by
    simp only [Reader.owed, Reader.begin, Bool.and_eq_true] at ho
    exact ho.1
  served halt sc hstage ho hcovers := by
    simp only [Reader.owed, Reader.begin, Bool.and_eq_true] at ho
    simp only [Reader.begin] at hstage hcovers
    split at hstage
    next hfresh =>
      cases hstage
      rcases h.cached sc ho.1 with hzero | ⟨d, hd, rfl⟩
      · have hclock := h.clock
        simp only [Shared.fresh, hzero, decide_eq_true_eq] at hfresh
        omega
      · exact matchHalt_isSome hd hcovers
    next => cases hstage

/-- Nothing but the cache has changed. -/
theorem grows_of_cache {s : Shared} {cache : Cache} : s.Grows { s with cache } :=
  ⟨fun _ => Nat.le_refl _, fun _ h _ => h, fun _ _ _ => ⟨rfl, id⟩⟩

theorem Kept.reader {c : Run} (h : c.Kept) {i : Nat} {w : Write} {p p' : Reader} {s' : Shared}
    (hi : c.proc i = some (.reader p)) (hok : Complete c (.step i w))
    (hnext : p.next w c.shared = some (s', p')) :
    Kept ⟨s', c.procs.set i (some (.reader p'))⟩ := by
  obtain ⟨hfind, hfill⟩ := hok _ hi
  have hp := h.procs i _ hi
  have hcount : ∀ sc, (⟨s', c.procs.set i (some (.reader p'))⟩ : Run).count
      (Process.lifting sc) = c.count (Process.lifting sc) := fun _ =>
    Configuration.count_move_of_eq hi rfl
  unfold Reader.next at hnext
  split at hnext
  next now hstage =>
    have hw := hfind (by simp [Process.finding, hstage])
    simp only [hw, if_true] at hnext
    cases hnext
    refine Kept.of_grows .refl (fun sc => by rw [hcount]; exact h.lifts sc)
      (fun sc hsc => ⟨rfl, h.quiet sc hsc, h.stored sc hsc⟩) h.cached h.clock
      (h.follows_set .refl ⟨hp.lifts, hp.halted, ?_⟩)
    intro halt sc hdone
    cases hdone
  next now controls hstage =>
    cases hnext
    have hanswer := hfill controls (by simp [Process.answer, hstage])
    -- a halt that was set is in the store, and so in the answer
    have hhalt : ∀ sc, c.shared.halted sc = true → ∃ d ∈ controls, d.scope = sc := by
      intro sc hsc
      obtain ⟨d, hd, hen, rfl⟩ := h.stored sc hsc
      obtain ⟨e, he, hscope⟩ := List.any_eq_true.mp (hanswer d hd hen)
      exact ⟨e, he, by simpa using hscope⟩
    refine Kept.of_grows grows_of_cache (fun sc => by rw [hcount]; exact h.lifts sc)
      (fun sc hsc => ⟨rfl, h.quiet sc hsc, h.stored sc hsc⟩) (fun sc hsc => Or.inr (hhalt sc hsc))
      h.clock (h.follows_set grows_of_cache ⟨hp.lifts, hp.halted, ?_⟩)
    intro halt sc hdone ho hcovers
    cases hdone
    obtain ⟨d, hd, rfl⟩ := hhalt sc (hp.halted sc ho)
    exact matchHalt_isSome hd hcovers
  next => cases hnext

theorem Kept.writer {c : Run} (h : c.Kept) {i : Nat} {w : Write} {p p' : Writer} {s' : Shared}
    (hi : c.proc i = some (.writer p)) (hnext : p.next w c.shared = some (s', p')) :
    Kept ⟨s', c.procs.set i (some (.writer p'))⟩ := by
  have hp : p.Follows c.shared := h.procs i _ hi
  have hcount : ∀ sc, (⟨s', c.procs.set i (some (.writer p'))⟩ : Run).count
      (Process.lifting sc) + (if Process.lifting sc (.writer p) then 1 else 0) =
        c.count (Process.lifting sc) + if Process.lifting sc (.writer p') then 1 else 0 :=
    fun sc => Configuration.count_move hi (Process.lifting sc)
  unfold Writer.next at hnext
  split at hnext
  next hstage =>
    cases hnext
    have hlift : p.control.enabled = false →
        c.shared.liftsRun p.control.scope < c.shared.liftsBegun p.control.scope := by
      intro hen
      have hself : 0 < c.count (Process.lifting p.control.scope) :=
        Configuration.count_pos hi (by simp [Process.lifting, hen, hstage])
      have := h.lifts p.control.scope
      omega
    have hgrows := update_grows w hlift
    obtain ⟨hbegun, hhalted, hcache, hnow⟩ := update_keeps c.shared p.control w
    refine Kept.of_grows hgrows (fun sc => ?_) (fun sc hsc => ?_) (fun sc hsc => ?_) ?_
      (h.follows_set hgrows ⟨?_, fun hen hu => ?_, fun hen hu hnew => ?_⟩)
    · have hlifts := h.lifts sc
      have hmoved := hcount sc
      have hafter : Process.lifting sc (.writer
          (p.become (if w.ok then .invalidate else .raised))) = false := by
        cases w <;> simp [Process.lifting, Writer.become, Write.ok]
      have hbefore : Process.lifting sc (.writer p) = true ↔
          p.control.enabled = false ∧ p.control.scope = sc := by
        simp [Process.lifting, hstage]
      rw [liftsRun_update, hbegun]
      simp only [hafter, hbefore, Bool.false_eq_true, if_false] at hmoved
      omega
    · rw [hhalted] at hsc
      exact ⟨by rw [hbegun], h.quiet sc hsc, h.stored sc hsc⟩
    · rw [hhalted] at hsc
      rw [hcache]
      exact h.cached sc hsc
    · rw [hnow]
      exact h.clock
    · rw [hbegun]
      exact hp.lifts
    · have hen : p.control.enabled = true := hen
      have hu : p.undisputed c.shared = true := by
        simpa [Writer.undisputed, Writer.become, hbegun] using hu
      have hquiet := hp.quiet hen hu
      simp only [Writer.become, liftsRun_update, hbegun, hen]
      simpa using hquiet
    · have hw : w.ran = true := by
        cases w with
        | done => rfl
        | failed ran => cases hnew
      have hen : p.control.enabled = true := hen
      have hdocs := Shared.update_hasHalt (s := c.shared) hen
      simpa [Shared.liftRun, hen, hw, Writer.become] using hdocs
  next hstage =>
    cases hnext
    have hund : p.undisputed c.shared.invalidateCache = p.undisputed c.shared := rfl
    have hafter : ∀ sc, Process.lifting sc (.writer (p.become .returned)) = false := fun sc => by
      simp [Process.lifting, Writer.become]
    have hbefore : ∀ sc, Process.lifting sc (.writer p) = false := fun sc => by
      simp [Process.lifting, hstage]
    split
    next hset =>
      have hquiet := hp.quiet hset.1 (hund ▸ hset.2)
      have hdocs := hp.written hset.1 (hund ▸ hset.2) hstage
      have hgrows : c.shared.Grows { c.shared.invalidateCache with
          halted := Function.update c.shared.invalidateCache.halted p.control.scope true } := by
        refine ⟨fun _ => Nat.le_refl _, fun sc hsc _ => ?_, fun _ _ _ => ⟨rfl, id⟩⟩
        by_cases hscope : sc = p.control.scope
        · simp [hscope]
        · simpa [hscope, Shared.invalidateCache] using hsc
      refine Kept.of_grows hgrows (fun sc => ?_) (fun sc hsc => ?_) (fun _ _ => Or.inl rfl) h.clock
        (h.follows_set hgrows ⟨hp.lifts, fun _ _ => hquiet, fun _ _ hnew => by cases hnew⟩)
      · have hmoved := hcount sc
        simp only [hset, hafter, hbefore, and_self, if_true, Bool.false_eq_true, if_false,
          Nat.add_zero] at hmoved
        rw [hmoved]
        exact h.lifts sc
      · by_cases hscope : sc = p.control.scope
        · subst hscope
          exact ⟨rfl, hquiet, hdocs⟩
        · have hold : c.shared.halted sc = true := by
            simpa [hscope, Shared.invalidateCache] using hsc
          exact ⟨rfl, h.quiet sc hold, h.stored sc hold⟩
    next hnot =>
      have hgrows : c.shared.Grows c.shared.invalidateCache := grows_of_cache
      refine Kept.of_grows hgrows (fun sc => ?_)
        (fun sc hsc => ⟨rfl, h.quiet sc hsc, h.stored sc hsc⟩) (fun _ _ => Or.inl rfl) h.clock
        (h.follows_set hgrows ⟨hp.lifts, hp.quiet, fun _ _ hnew => by cases hnew⟩)
      have hmoved := hcount sc
      simp only [hnot, hafter, hbefore, Bool.false_eq_true, if_false, Nat.add_zero] at hmoved
      rw [hmoved]
      exact h.lifts sc
  next => cases hnext
  next => cases hnext

/-- A process that starts. -/
theorem Kept.spawn {c : Run} (h : c.Kept) {s' : Shared} {p : Process}
    (hgrows : c.shared.Grows s') (hcache : s'.cache = c.shared.cache)
    (hnow : s'.now = c.shared.now)
    (hhalted : ∀ sc, s'.halted sc = true → c.shared.halted sc = true ∧
      s'.liftsBegun sc = c.shared.liftsBegun sc)
    (hlifts : ∀ sc, s'.liftsRun sc = c.shared.liftsRun sc ∧
      c.shared.liftsBegun sc + (if p.lifting sc then 1 else 0) ≤ s'.liftsBegun sc)
    (hp : p.Follows s') : Kept ⟨s', c.procs ++ [some p]⟩ := by
  refine Kept.of_grows hgrows (fun sc => ?_) (fun sc hsc => ?_) (fun sc hsc => ?_) ?_
    fun j q hj => ?_
  · have hcount := Configuration.count_append c s' p (Process.lifting sc)
    have hold : c.shared.liftsRun sc + c.count (Process.lifting sc) ≤
        c.shared.liftsBegun sc := h.lifts sc
    have := hlifts sc
    omega
  · obtain ⟨hold, hbegun⟩ := hhalted sc hsc
    exact ⟨hbegun, h.quiet sc hold, h.stored sc hold⟩
  · rw [hcache]
    exact h.cached sc (hhalted sc hsc).1
  · rw [hnow]
    exact h.clock
  · rcases Configuration.proc_append (g := c.shared) hj with ⟨-, rfl⟩ | hold
    · exact hp
    · exact (h.procs j q hold).grows hgrows

theorem Kept.steps {c c' : Run} (h : c.Kept) (hstep : system.Steps Complete c c') : c'.Kept := by
  rcases hstep.cases with ⟨x, s', p, -, hs, rfl⟩ | ⟨i, w, p, s', p', hok, hi, hs, rfl⟩ |
    ⟨i, -, rfl⟩ | ⟨d, s', -, hs, rfl⟩
  · cases x with
    | getHalt orgId deptTokens =>
        cases hs
        exact h.spawn .refl rfl rfl (fun sc hsc => ⟨hsc, rfl⟩)
          (fun sc => ⟨rfl, by simp [Process.lifting]⟩) (h.begin_follows orgId deptTokens)
    | setControl scopeType scopeId enabled actor reason =>
        obtain ⟨scope, -, hr⟩ := Option.map_eq_some_iff.mp hs
        cases hr
        have hgrows := beginSetControl_grows c.shared ⟨scope, enabled, reason, actor, c.shared.now⟩
        refine h.spawn hgrows ?_ ?_ (fun sc hsc => ?_) (fun sc => ?_)
          (beginSetControl_follows c.shared _)
        · cases enabled <;> rfl
        · cases enabled <;> rfl
        · cases enabled with
          | true => exact ⟨hsc, rfl⟩
          | false =>
              have hscope : sc ≠ scope := by
                rintro rfl
                simp [beginSetControl] at hsc
              exact ⟨by simpa [beginSetControl, hscope] using hsc,
                by simp [beginSetControl, hscope]⟩
        · cases enabled with
          | true => simp [beginSetControl, Process.lifting]
          | false =>
              by_cases hscope : sc = scope
              · subst hscope
                simp [beginSetControl, Process.lifting]
              · simp [beginSetControl, Process.lifting, hscope, Ne.symm hscope]
  · cases p with
    | reader p =>
        obtain ⟨r, hnext, hr⟩ := Option.map_eq_some_iff.mp hs
        cases hr
        exact h.reader hi hok hnext
    | writer p =>
        obtain ⟨r, hnext, hr⟩ := Option.map_eq_some_iff.mp hs
        cases hr
        exact h.writer hi hnext
  · refine Kept.of_grows .refl (fun sc => ?_) (fun sc hsc => ⟨rfl, h.quiet sc hsc, h.stored sc hsc⟩)
      h.cached h.clock fun j q hj => ?_
    · refine Nat.le_trans (Nat.add_le_add_left ?_ _) (h.lifts sc)
      exact Configuration.count_crash_le
    · rcases Configuration.proc_set (g := c.shared) hj with ⟨-, hnew⟩ | ⟨-, hold⟩
      · cases hnew
      · exact h.procs j q hold
  · cases hs
    have hgrows : c.shared.Grows { c.shared with now := c.shared.now + d } :=
      ⟨fun _ => Nat.le_refl _, fun _ hsc _ => hsc, fun _ _ _ => ⟨rfl, id⟩⟩
    exact Kept.of_grows hgrows h.lifts (fun sc hsc => ⟨rfl, h.quiet sc hsc, h.stored sc hsc⟩) h.cached
      (Nat.le_trans h.clock (Nat.le_add_right _ _))
      fun j q hj => (h.procs j q hj).grows hgrows

/-- In every run in which reads fill the cache with complete answers, a halt that was set is seen. -/
theorem sound_of_complete {d : Nat} {c : Run} (h : system.Reaches Complete (Run.start d) c) :
    c.Sound := by
  have hkept : c.Kept :=
    System.Reaches.keeps (fun _ _ hc hstep => hc.steps hstep) (Kept.start d) h
  intro i p hi
  have hp : p.Follows c.shared := hkept.procs i _ hi
  exact hp.served

/-- A read that has ended without a halt, although everything was halted before it began. -/
def missesGlobal (c : Run) (i : Nat) : Bool :=
  (c.proc i).any fun
    | .reader p => p.stage = .done none && p.owed c.shared ⟨.global, "*"⟩
    | .writer _ => false

/-- Everything is halted, and a read that begins then sees it. -/
theorem halts_global : ∃ c : Run, c.Sound ∧ c.procs.length = 2 ∧
    ((c.proc 1).any fun
      | .reader p => p.owed c.shared ⟨.global, "*"⟩ && (p.stage ≠ .done none)
      | .writer _ => false) = true := by
  obtain ⟨c, hreach, hc⟩ := System.exists_reaches_of_play system Complete
    [.spawn (.setControl .global none true "admin" ""), .step 0 .done, .step 0 .done,
      .spawn (.getHalt (some "acme") []), .step 1 .done, .step 1 .done] (Run.start 0)
    (fun c => c.procs.length = 2 && (c.proc 1).any fun
      | .reader p => p.owed c.shared ⟨.global, "*"⟩ && (p.stage ≠ .done none)
      | .writer _ => false) (by decide +kernel)
  simp only [Bool.and_eq_true, decide_eq_true_eq] at hc
  exact ⟨c, sound_of_complete hreach, hc⟩

/-- A read whose query was answered before the halt was written fills the cache after the halt has
invalidated it; the next read takes the cache. -/
theorem not_sound : ¬ ∀ (d : Nat) (c : Run),
    system.Reaches StoreAnswers (Run.start d) c → c.Sound := by
  intro hall
  obtain ⟨c, hreach, hc⟩ := System.exists_reaches_of_play system StoreAnswers
    [.spawn (.getHalt (some "acme") []), .step 0 .done,
      .spawn (.setControl .global none true "admin" ""), .step 1 .done, .step 1 .done,
      .step 0 .done, .spawn (.getHalt (some "acme") [])] (Run.start 0)
    (fun c => missesGlobal c 2) (by decide +kernel)
  have hsound := hall 0 c hreach
  obtain ⟨p, hp, hmiss⟩ := (Option.any_eq_true _ _).mp hc
  cases p with
  | writer p => cases hmiss
  | reader p =>
      simp only [Bool.and_eq_true, decide_eq_true_eq] at hmiss
      have hserved := hsound 2 p hp none ⟨.global, "*"⟩ hmiss.1 hmiss.2 rfl
      cases hserved

end Run

/-! ## The endpoint -/

section
variable (lower : String → String)

structure HaltClaims where
  orgId : Option String
  deptIds : List String
  isSuper : Bool
  isOrgAdmin : Bool
  isDeptAdmin : Bool

inductive HaltRequestError where
  | globalRequiresSuperAdmin
  | orgRequiresOrgAdmin
  | notYourOrg
  | malformedDeptScope
  | notYourDept
  deriving DecidableEq

/-- `sid.split(":", 1)`, of a text with a colon. -/
def splitScopeId (sid : String) : Option (String × String) :=
  let i := sid.toList.findIdx (· = ':')
  if i < sid.toList.length then
    some (String.ofList (sid.toList.take i), String.ofList (sid.toList.drop (i + 1)))
  else none

/-- `set_workflow_halt` up to its `set_control`: the scope id that is passed on. -/
def haltScopeId (claims : HaltClaims) (scopeType : ScopeType) (scopeId : Option String) :
    Except HaltRequestError (Option String) :=
  match scopeType with
  | .global => if claims.isSuper then .ok none else .error .globalRequiresSuperAdmin
  | .org =>
      if ¬ (claims.isSuper ∨ claims.isOrgAdmin) then .error .orgRequiresOrgAdmin
      else if ¬ claims.isSuper ∧ scopeId ≠ none ∧ scopeId ≠ claims.orgId then .error .notYourOrg
      else .ok (if scopeId.getD "" = "" then claims.orgId else scopeId)
  | .dept =>
      match splitScopeId (scopeId.getD "") with
      | none => .error .malformedDeptScope
      | some (org, dept) =>
          if claims.isSuper ∨ (claims.isOrgAdmin ∧ some org = claims.orgId) ∨
              (claims.isDeptAdmin ∧ some org = claims.orgId ∧
                (claims.deptIds.map lower).contains (lower dept)) then
            .ok (some (org ++ ":" ++ lower dept))
          else .error .notYourDept

/-- The tokens that `_enforce_workflow_not_halted` and the scheduler build for a workflow. -/
def deptTokens (org : String) (deptIds : List String) : List String :=
  deptIds.map fun d => org ++ ":" ++ lower d

/-- A halt of a department that the endpoint has accepted covers every workflow of that
organisation that names the department, in any case. -/
theorem haltScopeId_covers {claims : HaltClaims} {sid org dept id : String}
    (hsid : splitScopeId sid = some (org, dept))
    (h : haltScopeId lower claims .dept (some sid) = .ok (some id)) {deptIds : List String}
    {d : String} (hd : d ∈ deptIds) (hlower : lower d = lower dept) :
    (Scope.mk .dept id).covers (some org) (deptTokens lower org deptIds) = true := by
  simp only [haltScopeId, Option.getD_some, hsid] at h
  split at h
  · cases h
    have hne : org ++ ":" ++ lower dept ≠ "" := by
      intro hempty
      have := congrArg String.length hempty
      simp [String.length_append] at this
    simp only [Scope.covers, deptTokens, Bool.and_eq_true, ne_eq, hne, not_false_eq_true,
      decide_true, true_and, List.contains_iff_mem, List.mem_map]
    exact ⟨d, hd, by rw [hlower]⟩
  · cases h

end

end KillSwitch

end CitraFlows
