-- SUMMARY: The global concurrency cap: the counter in Redis, the slots held, and when the two agree.
import CitraFlows.Lib.RedisKeys
import Mathlib.Logic.Relation

/-!
# The concurrency gate

`execute()` takes a slot before it runs and gives it back in its `finally`. The slots are
counted in one Redis key, which carries a TTL that is set when the count goes from 0 to 1 and
not renewed afterwards. `Gate.Sound` is the promise of the gate; it is kept as long as the key
does not expire under a slot that is held.
-/

namespace CitraFlows

open RedisKeys

structure GateConfig where
  maxConcurrentExecutions : Nat := 20
  executionTimeoutSeconds : Nat := 3600
  concurrencyTtl : Nat := 3600 + 60
  ttl_pos : 0 < concurrencyTtl := by decide

/-- An execution between `_acquire_slot` and `_release_slot`. -/
structure SlotHolder where
  executionId : String
  since : Nat
  deriving DecidableEq

/-- The counter key and the executions that hold a slot. -/
structure Gate where
  now : Nat
  counter : Key Int
  holders : List SlotHolder

def Gate.initial (now : Nat) : Gate := ⟨now, none, []⟩

/-! ## The two scripts -/

/-- `_acquire_slot`: whether a slot was acquired, and the counter. -/
def acquireSlot (cfg : GateConfig) (now : Nat) (counter : Key Int) : Bool × Key Int :=
  let r := counter.incrBy now 1
  let counter := if r.1 = 1 then r.2.expire now cfg.concurrencyTtl else r.2
  if r.1 > cfg.maxConcurrentExecutions then (false, (counter.incrBy now (-1)).2)
  else (true, counter)

/-- `_release_slot`: a negative count is reset to 0. -/
def releaseSlot (cfg : GateConfig) (now : Nat) (counter : Key Int) : Key Int :=
  let r := counter.incrBy now (-1)
  if r.1 < 0 then Key.setEx now 0 cfg.concurrencyTtl else r.2

/-- What the counter says. -/
def Gate.count (g : Gate) : Int := (g.counter.get g.now).getD 0

/-! ## Runs -/

/-- Any worker acquires a slot or is refused, a holder releases its slot, or time passes, no
slot being held longer than an execution may run. -/
inductive Gate.Step (cfg : GateConfig) : Gate → Gate → Prop where
  | acquire (g : Gate) (executionId : String)
      (h : (acquireSlot cfg g.now g.counter).1 = true) :
      Step cfg g
        { g with
          counter := (acquireSlot cfg g.now g.counter).2
          holders := ⟨executionId, g.now⟩ :: g.holders }
  | refuse (g : Gate) (h : (acquireSlot cfg g.now g.counter).1 = false) :
      Step cfg g { g with counter := (acquireSlot cfg g.now g.counter).2 }
  | release (g : Gate) (holder : SlotHolder) (h : holder ∈ g.holders) :
      Step cfg g
        { g with
          counter := releaseSlot cfg g.now g.counter
          holders := g.holders.erase holder }
  | tick (g : Gate) (now : Nat) (h : g.now ≤ now)
      (hbound : ∀ holder ∈ g.holders, now ≤ holder.since + cfg.executionTimeoutSeconds) :
      Step cfg g { g with now := now }

/-- At the given time the counter key is still there, or no slot is held. -/
def Gate.KeepsCounter (g : Gate) (now : Nat) : Prop :=
  g.holders = [] ∨ (g.counter.live now).isSome

/-- At most the allowed number of slots is held, and the counter is their number. -/
structure Gate.Sound (cfg : GateConfig) (g : Gate) : Prop where
  le_max : g.holders.length ≤ cfg.maxConcurrentExecutions
  count_eq : g.count = g.holders.length

/-! ## What the scripts do to the counter -/

theorem count_incrBy (now : Nat) (counter : Key Int) (d : Int) :
    (counter.incrBy now d).1 = (counter.get now).getD 0 + d ∧
      (counter.incrBy now d).2.get now = some ((counter.get now).getD 0 + d) := by
  unfold Key.incrBy
  split
  next c hc =>
    obtain ⟨-, halive⟩ := Key.live_eq_some.mp hc
    have hlive : Key.live now (some { c with value := c.value + d }) =
        some { c with value := c.value + d } := Key.live_eq_some.mpr ⟨rfl, halive⟩
    simp [Key.get, hc, hlive]
  next hnone =>
    have hlive : Key.live now (some (⟨d, none⟩ : Cell Int)) = some ⟨d, none⟩ := rfl
    simp only [Key.get, hnone, hlive, Option.map_none, Option.map_some, Option.getD_none,
      Int.zero_add, and_self]

theorem get_expire (now : Nat) (k : Key Int) {ttl : Nat} (h : 0 < ttl) :
    (k.expire now ttl).get now = k.get now := by
  unfold Key.expire Key.get
  cases hk : k.live now with
  | none => rfl
  | some c => simp [Key.live, Option.filter, h]

/-- A granted slot is counted; a refused one leaves the count. -/
theorem acquireSlot_count (cfg : GateConfig) (now : Nat) (counter : Key Int) :
    let n := (counter.get now).getD 0
    (acquireSlot cfg now counter).1 = decide (n + 1 ≤ cfg.maxConcurrentExecutions) ∧
      ((acquireSlot cfg now counter).2.get now).getD 0 =
        if n + 1 ≤ cfg.maxConcurrentExecutions then n + 1 else n := by
  obtain ⟨hcount, hget⟩ := count_incrBy now counter 1
  simp only [acquireSlot, hcount, gt_iff_lt]
  generalize hcounter : (if (counter.get now).getD 0 + 1 = 1 then
    (counter.incrBy now 1).2.expire now cfg.concurrencyTtl else (counter.incrBy now 1).2) = counter'
  -- the first slot of a busy period sets the expiry, which does not change the count
  have hget' : counter'.get now = some ((counter.get now).getD 0 + 1) := by
    rw [← hcounter]
    split
    · rw [get_expire now _ cfg.ttl_pos, hget]
    · exact hget
  -- a refused caller takes its own increment back
  have hback : (counter'.incrBy now (-1)).2.get now = some ((counter.get now).getD 0) := by
    rw [(count_incrBy now counter' (-1)).2, hget', Option.getD_some]
    congr 1
    omega
  split
  next hlt =>
    have hle : ¬ (counter.get now).getD 0 + 1 ≤ cfg.maxConcurrentExecutions := by omega
    simp [hle, hback]
  next hlt =>
    have hle : (counter.get now).getD 0 + 1 ≤ cfg.maxConcurrentExecutions := by omega
    simp [hle, hget']

/-- Releasing one of the slots that are counted takes one off the count. -/
theorem releaseSlot_count (cfg : GateConfig) (now : Nat) (counter : Key Int)
    (h : 0 < (counter.get now).getD 0) :
    ((releaseSlot cfg now counter).get now).getD 0 = (counter.get now).getD 0 - 1 := by
  obtain ⟨hcount, hget⟩ := count_incrBy now counter (-1)
  simp only [releaseSlot, hcount]
  -- a slot that is counted leaves the count at 0 or above, so there is no reset
  split
  · omega
  · rw [hget]
    rfl

/-! ## The promise -/

theorem Gate.Sound.tick_iff {cfg : GateConfig} {g : Gate} (h : g.Sound cfg) {now : Nat}
    (hnow : g.now ≤ now) :
    Gate.Sound cfg { g with now := now } ↔ g.KeepsCounter now := by
  have hcount := h.count_eq
  constructor
  · rintro ⟨-, hsound⟩
    -- a key that is gone counts as 0, so the number of holders is 0
    cases hlive : g.counter.live now with
    | none =>
        refine Or.inl (List.eq_nil_of_length_eq_zero ?_)
        simp [Gate.count, Key.get, hlive] at hsound
        simpa using hsound.symm
    | some c => exact Or.inr (by simp [hlive])
  · intro hkeeps
    refine ⟨h.le_max, ?_⟩
    cases hlive : g.counter.live now with
    | none =>
        have hnil : g.holders = [] := by simpa [Gate.KeepsCounter, hlive] using hkeeps
        simp [Gate.count, Key.get, hlive, hnil]
    | some c =>
        have hbefore := Key.live_of_le hnow hlive
        simpa [Gate.count, Key.get, hlive, hbefore] using hcount

theorem Gate.Step.sound {cfg : GateConfig} {g g' : Gate} (h : g.Sound cfg)
    (hstep : Gate.Step cfg g g') (hkeeps : g.KeepsCounter g'.now) : g'.Sound cfg := by
  have hcount : (g.counter.get g.now).getD 0 = (g.holders.length : Int) := h.count_eq
  obtain ⟨hgranted, hafter⟩ := acquireSlot_count cfg g.now g.counter
  cases hstep with
  | acquire executionId hacquired =>
      rw [hgranted, decide_eq_true_eq, hcount] at hacquired
      rw [hcount, if_pos hacquired] at hafter
      exact ⟨by simp only [List.length_cons]; omega, by simpa [Gate.count] using hafter⟩
  | refuse hrefused =>
      rw [hgranted, decide_eq_false_iff_not, hcount] at hrefused
      rw [hcount, if_neg hrefused] at hafter
      exact ⟨h.le_max, hafter⟩
  | release holder hmem =>
      -- the slot of the holder is one of those counted
      have hpos : 0 < g.holders.length := List.length_pos_of_mem hmem
      have hreleased := releaseSlot_count cfg g.now g.counter (by omega)
      have hlength := List.length_erase_of_mem hmem
      refine ⟨?_, ?_⟩
      · have := h.le_max
        simp only [hlength]
        omega
      · simp only [Gate.count, hreleased, hlength]
        omega
  | tick now hnow _ => exact (h.tick_iff hnow).mpr hkeeps

/-- A step under which the counter outlives the slots held. -/
def Gate.TimelyStep (cfg : GateConfig) (g g' : Gate) : Prop :=
  Gate.Step cfg g g' ∧ g.KeepsCounter g'.now

/-- In every run in which the counter key never expires under a slot that is held, the cap
holds and the counter is the number of holders; where it does expire so, it no longer is. -/
theorem Gate.sound_of_timely (cfg : GateConfig) {now : Nat} {g : Gate}
    (h : Relation.ReflTransGen (Gate.TimelyStep cfg) (Gate.initial now) g) :
    g.Sound cfg ∧ ∀ now, g.now ≤ now →
      (Gate.Sound cfg { g with now := now } ↔ g.KeepsCounter now) := by
  have hsound : g.Sound cfg := by
    induction h with
    | refl => exact ⟨Nat.zero_le _, rfl⟩
    | tail _ hstep ih => exact hstep.1.sound ih hstep.2
  exact ⟨hsound, fun now hnow => hsound.tick_iff hnow⟩

/-! ### A slot held when the key expires -/

def pairConfig : GateConfig := { maxConcurrentExecutions := 2 }

/-- One slot is taken at second 0, another at 3000, and the first given back at 3600. -/
def overlapGate : Gate where
  now := 3600
  counter := some ⟨1, some 3660⟩
  holders := [⟨"b", 3000⟩]

theorem overlapGate_reached :
    Relation.ReflTransGen (Gate.TimelyStep pairConfig) (Gate.initial 0) overlapGate := by
  let first : Gate := ⟨0, some ⟨1, some 3660⟩, [⟨"a", 0⟩]⟩
  let later : Gate := { first with now := 3000 }
  let both : Gate := ⟨3000, some ⟨2, some 3660⟩, [⟨"b", 3000⟩, ⟨"a", 0⟩]⟩
  let finished : Gate := { both with now := 3600 }
  have h₁ : Gate.TimelyStep pairConfig (Gate.initial 0) first :=
    ⟨.acquire (Gate.initial 0) "a" (by decide), Or.inl rfl⟩
  have h₂ : Gate.TimelyStep pairConfig first later :=
    ⟨.tick first 3000 (by decide) (by decide), Or.inr (by decide)⟩
  have h₃ : Gate.TimelyStep pairConfig later both :=
    ⟨.acquire later "b" (by decide), Or.inr (by decide)⟩
  have h₄ : Gate.TimelyStep pairConfig both finished :=
    ⟨.tick both 3600 (by decide) (by decide), Or.inr (by decide)⟩
  have h₅ : Gate.TimelyStep pairConfig finished overlapGate :=
    ⟨.release finished ⟨"a", 0⟩ (by decide), Or.inr (by decide)⟩
  exact ((((Relation.ReflTransGen.single h₁).tail h₂).tail h₃).tail h₄).tail h₅

/-- Up to here the counter is right. -/
theorem overlapGate_sound : overlapGate.count = 1 ∧ overlapGate.Sound pairConfig :=
  ⟨by decide, (Gate.sound_of_timely pairConfig overlapGate_reached).1⟩

/-- At second 3660 the key expires under the second slot, and two more are granted. -/
theorem overlapGate_overflows : ¬ ∀ (cfg : GateConfig) (now : Nat) (g : Gate),
    Relation.ReflTransGen (Gate.Step cfg) (Gate.initial now) g → g.Sound cfg := by
  intro hclaim
  have hreached : Relation.ReflTransGen (Gate.Step pairConfig) (Gate.initial 0) overlapGate :=
    overlapGate_reached.lift id fun _ _ h => h.1
  let expired : Gate := { overlapGate with now := 3660 }
  let third : Gate := ⟨3660, some ⟨1, some 7320⟩, [⟨"c", 3660⟩, ⟨"b", 3000⟩]⟩
  let fourth : Gate := ⟨3660, some ⟨2, some 7320⟩, [⟨"d", 3660⟩, ⟨"c", 3660⟩, ⟨"b", 3000⟩]⟩
  have h₁ : Gate.Step pairConfig overlapGate expired :=
    .tick overlapGate 3660 (by decide) (by decide)
  have h₂ : Gate.Step pairConfig expired third := .acquire expired "c" (by decide)
  have h₃ : Gate.Step pairConfig third fourth := .acquire third "d" (by decide)
  exact absurd (hclaim _ _ _ (((hreached.tail h₁).tail h₂).tail h₃)).le_max (by decide)

end CitraFlows
