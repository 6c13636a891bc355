-- SUMMARY: A Redis key that may expire: the commands on it, and locks held through SET NX EX.
import Mathlib.Data.Option.Basic

/-!
# Redis keys with expiry

A key holds a value and perhaps a time of expiry. An expired key is absent for every
command, so time alone can free a lock or reset a counter.
-/

namespace RedisKeys

/-- The value of a key and the second at which it expires. -/
structure Cell (α : Type) where
  value : α
  expiresAt : Option Nat
  deriving DecidableEq

/-- What is stored under a key. -/
abbrev Key (α : Type) := Option (Cell α)

variable {α : Type}

namespace Key

/-- What commands see of the key at a moment. -/
def live (now : Nat) (k : Key α) : Key α := k.filter fun c => c.expiresAt.all (now < ·)

/-- `GET` -/
def get (now : Nat) (k : Key α) : Option α := (k.live now).map Cell.value

/-- `SET key value NX EX ttl`: whether the key was set, and the key. -/
def setNx (now : Nat) (k : Key α) (v : α) (ttl : Nat) : Bool × Key α :=
  match k.live now with
  | some _ => (false, k)
  | none => (true, some ⟨v, some (now + ttl)⟩)

/-- `SET key value EX ttl` -/
def setEx (now : Nat) (v : α) (ttl : Nat) : Key α := some ⟨v, some (now + ttl)⟩

/-- `EXPIRE key ttl` -/
def expire (now : Nat) (k : Key α) (ttl : Nat) : Key α :=
  (k.live now).map fun c => { c with expiresAt := some (now + ttl) }

/-- `INCRBY key d`: an absent key counts from 0 and does not expire; a present one keeps its
expiry. -/
def incrBy (now : Nat) (k : Key Int) (d : Int) : Int × Key Int :=
  match k.live now with
  | some c => (c.value + d, some { c with value := c.value + d })
  | none => (d, some ⟨d, none⟩)

/-- `GET key` answers with the value, and then `EXPIRE key ttl`. -/
def expireIfOwner [DecidableEq α] (now : Nat) (v : α) (ttl : Nat) (k : Key α) : Bool × Key α :=
  if k.get now = some v then (true, k.expire now ttl) else (false, k)

/-- `GET key` answers with the value, and then `DEL key`. -/
def deleteIfOwner [DecidableEq α] (now : Nat) (v : α) (k : Key α) : Bool × Key α :=
  if k.get now = some v then (true, none) else (false, k)

theorem live_eq_some {now : Nat} {k : Key α} {c : Cell α} :
    k.live now = some c ↔ k = some c ∧ ∀ t, c.expiresAt = some t → now < t := by
  cases k with
  | none => simp [live]
  | some d =>
      simp only [live, Option.filter_eq_some_iff, Option.some.injEq, Option.all_eq_true,
        decide_eq_true_eq]

/-- What is present later was present before. -/
theorem live_of_le {now now' : Nat} (h : now ≤ now') {k : Key α} {c : Cell α}
    (hlive : k.live now' = some c) : k.live now = some c := by
  obtain ⟨hk, ht⟩ := live_eq_some.mp hlive
  exact live_eq_some.mpr ⟨hk, fun t hc => Nat.lt_of_le_of_lt h (ht t hc)⟩

/-- The key holds some value until the given time at least. -/
def HeldUntil (t : Nat) (k : Key α) : Prop := ∃ c t', k = some c ∧ c.expiresAt = some t' ∧ t ≤ t'

theorem HeldUntil.live {t now : Nat} {k : Key α} (h : k.HeldUntil t) (hnow : now < t) :
    k.live now = k := by
  obtain ⟨c, t', rfl, hexp, hle⟩ := h
  refine live_eq_some.mpr ⟨rfl, fun u hu => ?_⟩
  rw [hexp] at hu
  cases hu
  omega

/-- A held key refuses `SET NX`. -/
theorem HeldUntil.setNx {t now ttl : Nat} {k : Key α} {v : α} (h : k.HeldUntil t)
    (hnow : now < t) : k.setNx now v ttl = (false, k) := by
  have hlive := h.live hnow
  obtain ⟨c, t', rfl, -, -⟩ := h
  simp [Key.setNx, hlive]

theorem setNx_fst_eq_true {now ttl : Nat} {k : Key α} {v : α} :
    (k.setNx now v ttl).1 = true ↔ k.live now = none := by
  unfold setNx
  split
  next c hc => simp [hc]
  next hnone => simp [hnone]

theorem setNx_heldUntil {now ttl : Nat} {k : Key α} {v : α} (h : k.live now = none) :
    (k.setNx now v ttl).2.HeldUntil (now + ttl) := by
  simp only [setNx, h]
  exact ⟨_, _, rfl, rfl, Nat.le_refl _⟩

/-- A renewal that lasts at least as long keeps a key held. -/
theorem HeldUntil.expireIfOwner [DecidableEq α] {t now ttl : Nat} {k : Key α} {v : α}
    (h : k.HeldUntil t) (hle : t ≤ now + ttl) : (k.expireIfOwner now v ttl).2.HeldUntil t := by
  unfold Key.expireIfOwner
  split
  next hget =>
    obtain ⟨c, hc, -⟩ := Option.map_eq_some_iff.mp hget
    exact ⟨{ c with expiresAt := some (now + ttl) }, now + ttl, by simp [expire, hc], rfl, hle⟩
  next => exact h

end Key

/-! ## Commands that may be lost or sent again -/

/-- How a command reaches its server: once; twice, because the client sends it again after a
timeout; or with an exception, and then it may have run. -/
inductive Attempt where
  | answered
  | resent
  | failed (ran : Bool)
  deriving DecidableEq

namespace Attempt

/-- The answer to a command on a key, where `none` stands for an exception, and the key. -/
def run {β : Type} (attempt : Attempt) (op : Key α → β × Key α) (k : Key α) :
    Option β × Key α :=
  match attempt with
  | .answered => (some (op k).1, (op k).2)
  | .resent => (some (op (op k).2).1, (op (op k).2).2)
  | .failed ran => (none, if ran then (op k).2 else k)

/-- What the command keeps is kept however it is sent. -/
theorem run_keeps {β : Type} {op : Key α → β × Key α} {K : Key α → Prop}
    (hop : ∀ k, K k → K (op k).2) (attempt : Attempt) {k : Key α} (h : K k) :
    K (attempt.run op k).2 := by
  cases attempt with
  | answered => exact hop k h
  | resent => exact hop _ (hop k h)
  | failed ran =>
      cases ran with
      | false => exact h
      | true => exact hop k h

/-- A `SET NX` that answers that it has set the key was sent once and found it free. -/
theorem run_setNx {attempt : Attempt} {now ttl : Nat} {k k' : Key α} {v : α} (hpos : 0 < ttl)
    (h : attempt.run (·.setNx now v ttl) k = (some true, k')) :
    k.live now = none ∧ k'.HeldUntil (now + ttl) := by
  cases attempt with
  | answered =>
      simp only [run, Prod.mk.injEq, Option.some.injEq] at h
      obtain ⟨hset, rfl⟩ := h
      have hfree := Key.setNx_fst_eq_true.mp hset
      exact ⟨hfree, Key.setNx_heldUntil hfree⟩
  | resent =>
      simp only [run, Prod.mk.injEq, Option.some.injEq] at h
      have hfree := Key.setNx_fst_eq_true.mp h.1
      cases hlive : k.live now with
      | none =>
          -- the second time the key is the one set the first time
          have hheld := (Key.setNx_heldUntil (v := v) hlive).live (Nat.lt_add_of_pos_right hpos)
          rw [hfree] at hheld
          simp [Key.setNx, hlive] at hheld
      | some c => simp [Key.setNx, hlive] at hfree
  | failed ran => simp [run] at h

end Attempt

end RedisKeys
