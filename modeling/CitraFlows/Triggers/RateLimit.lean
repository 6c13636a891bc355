-- SUMMARY: The in-process rate limiter of the webhook: over every sequence of calls it is a sliding window over the allowed ones.
import CitraFlows.Lib.SlidingWindow
import Mathlib.Algebra.Order.Field.Rat
import Mathlib.Logic.Function.Basic

/-!
# The in-process rate limiter

`_check_rate_limit` keeps one bucket of times for each key. A call prunes the bucket of its
key and adds its own time if there is room. The log of a key holds the times of all its
allowed calls, and the bucket agrees with it on everything that is still recent.
-/

namespace CitraFlows.RateLimit

open SlidingWindow

/-- A call of `_check_rate_limit`, with the reading of the clock -/
structure Call where
  key : String
  maxRequests : ℤ
  window : ℚ
  now : ℚ

/-- `_rate_buckets`, a `defaultdict(list)` -/
abbrev Buckets := String → List ℚ

/-- `_check_rate_limit` -/
def checkRateLimit (buckets : Buckets) (c : Call) : Bool × Buckets :=
  let bucket := (buckets c.key).filter fun t => c.now - t < c.window
  if c.maxRequests ≤ bucket.length then (false, Function.update buckets c.key bucket)
  else (true, Function.update buckets c.key (bucket ++ [c.now]))

/-! ## Runs -/

/-- The buckets, and the calls so far with their answers -/
structure Limiter where
  buckets : Buckets := fun _ => []
  history : List (Call × Bool) := []

namespace Limiter

def serve (s : Limiter) (c : Call) : Limiter where
  buckets := (checkRateLimit s.buckets c).2
  history := s.history ++ [(c, (checkRateLimit s.buckets c).1)]

end Limiter

/-- The calls one after the other, from the start of the process -/
def run (calls : List Call) : Limiter := calls.foldl Limiter.serve {}

/-- The times of the allowed calls of a key -/
def allowedTimes (key : String) (history : List (Call × Bool)) : List ℚ :=
  (history.filter fun p => p.1.key = key ∧ p.2 = true).map fun p => p.1.now

/-- A history is that of a sliding window for a key: a call is allowed exactly when fewer
than `limit` calls were allowed in the window before it, so that no window of that length
has more. A negative limit lets nothing through. -/
structure Slides (key : String) (limit : ℤ) (window : ℚ) (history : List (Call × Bool)) :
    Prop where
  allows : ∀ before c ok after, history = before ++ (c, ok) :: after → c.key = key →
    (ok = true ↔
      ((allowedTimes key before).countP fun t => c.now - window < t ∧ t ≤ c.now : ℤ) < limit)
  capped_Ioc : ∀ s, ((allowedTimes key history).countP fun t => s < t ∧ t ≤ s + window : ℤ) ≤
    max limit 0
  capped_Ico : ∀ s, ((allowedTimes key history).countP fun t => s ≤ t ∧ t < s + window : ℤ) ≤
    max limit 0

section

variable {key : String} {limit : ℤ} {window : ℚ} {calls : List Call} {c : Call} {ok : Bool}
  {history : List (Call × Bool)} {buckets : Buckets}

theorem run_concat : run (calls ++ [c]) = (run calls).serve c := by
  simp [run]

theorem history_run : (run calls).history.map Prod.fst = calls := by
  induction calls using List.reverseRecOn with
  | nil => rfl
  | append_singleton calls c ih => simp [run_concat, Limiter.serve, ih]

/-! ## One call -/

theorem allowedTimes_other (h : c.key ≠ key) :
    allowedTimes key (history ++ [(c, ok)]) = allowedTimes key history := by
  simp [allowedTimes, h]

theorem allowedTimes_refused :
    allowedTimes key (history ++ [(c, false)]) = allowedTimes key history := by
  simp [allowedTimes]

theorem allowedTimes_allowed (h : c.key = key) :
    allowedTimes key (history ++ [(c, true)]) = allowedTimes key history ++ [c.now] := by
  simp [allowedTimes, h]

/-- A full bucket refuses the call, and is pruned. -/
theorem checkRateLimit_full
    (h : c.maxRequests ≤ (recent c.window c.now (buckets c.key)).length) :
    checkRateLimit buckets c =
      (false, Function.update buckets c.key (recent c.window c.now (buckets c.key))) :=
  if_pos h

theorem checkRateLimit_room
    (h : ¬c.maxRequests ≤ (recent c.window c.now (buckets c.key)).length) :
    checkRateLimit buckets c =
      (true, Function.update buckets c.key (recent c.window c.now (buckets c.key) ++ [c.now])) :=
  if_neg h

/-- Calls for other keys leave a bucket alone. -/
theorem checkRateLimit_other (h : c.key ≠ key) :
    (checkRateLimit buckets c).2 key = buckets key := by
  by_cases hfull : c.maxRequests ≤ (recent c.window c.now (buckets c.key)).length
  · rw [checkRateLimit_full hfull]
    exact Function.update_of_ne h.symm _ _
  · rw [checkRateLimit_room hfull]
    exact Function.update_of_ne h.symm _ _

/-! ## Whole runs -/

/-- The bucket of the key agrees with its log on what is recent at any later time, and the
log and the history are as they should be. -/
structure Tracks (key : String) (limit : ℤ) (window : ℚ) (calls : List Call) (s : Limiter) :
    Prop where
  recents : ∀ n, (∀ c ∈ calls, c.now ≤ n) →
    recent window n (s.buckets key) = recent window n (allowedTimes key s.history)
  capped : Capped limit window (allowedTimes key s.history)
  within : ∀ t ∈ allowedTimes key s.history, ∃ c ∈ calls, t = c.now
  allows : ∀ before c ok after, s.history = before ++ (c, ok) :: after → c.key = key →
    (ok = true ↔ ((recent window c.now (allowedTimes key before)).length : ℤ) < limit)

namespace Tracks

theorem start : Tracks key limit window [] {} where
  recents n _ := rfl
  capped := Capped.nil
  within t ht := by cases ht
  allows before c ok after h := by simp at h

/-- A history splits at its last call or before it. -/
theorem allows_concat {s : Limiter}
    (h : ∀ before c ok after, s.history = before ++ (c, ok) :: after → c.key = key →
      (ok = true ↔ ((recent window c.now (allowedTimes key before)).length : ℤ) < limit))
    (hlast : c.key = key →
      (ok = true ↔ ((recent window c.now (allowedTimes key s.history)).length : ℤ) < limit)) :
    ∀ before c' ok' after, s.history ++ [(c, ok)] = before ++ (c', ok') :: after → c'.key = key →
      (ok' = true ↔ ((recent window c'.now (allowedTimes key before)).length : ℤ) < limit) := by
  intro before c' ok' after heq hkey
  cases split_concat heq with
  | inl last =>
    obtain ⟨rfl, hcall⟩ := last
    cases hcall
    exact hlast hkey
  | inr earlier =>
    obtain ⟨after', heq⟩ := earlier
    exact h before c' ok' after' heq hkey

theorem other {s : Limiter} (h : Tracks key limit window calls s) (hkey : c.key ≠ key) :
    Tracks key limit window (calls ++ [c]) (s.serve c) where
  recents n hn := by
    simp only [Limiter.serve, checkRateLimit_other hkey, allowedTimes_other hkey]
    exact h.recents n fun c hc => hn c (List.mem_append_left _ hc)
  capped := by
    simp only [Limiter.serve, allowedTimes_other hkey]
    exact h.capped
  within t ht := by
    simp only [Limiter.serve, allowedTimes_other hkey] at ht
    obtain ⟨c', hc', heq⟩ := h.within t ht
    exact ⟨c', List.mem_append_left _ hc', heq⟩
  allows := allows_concat h.allows fun heq => absurd heq hkey

/-- A refused call leaves the log as it is, and the pruned bucket still agrees with it. -/
theorem refused {s : Limiter} (h : Tracks c.key c.maxRequests c.window calls s)
    (horder : ∀ c' ∈ calls, c'.now ≤ c.now)
    (hfull : c.maxRequests ≤ (recent c.window c.now (s.buckets c.key)).length) :
    Tracks c.key c.maxRequests c.window (calls ++ [c]) (s.serve c) := by
  have hrecent := h.recents c.now horder
  rw [Limiter.serve, checkRateLimit_full hfull]
  refine ⟨fun n hn => ?_, ?_, fun t ht => ?_, allows_concat h.allows fun _ => ?_⟩
  · dsimp only
    rw [Function.update_self, allowedTimes_refused, hrecent, recent_recent]
    exact hn c (by simp)
  · rw [allowedTimes_refused]
    exact h.capped
  · rw [allowedTimes_refused] at ht
    obtain ⟨c', hc', heq⟩ := h.within t ht
    exact ⟨c', List.mem_append_left _ hc', heq⟩
  · rw [← hrecent]
    simpa using hfull

/-- An allowed call found room in the log, and adds its time to the log and the bucket. -/
theorem allowed {s : Limiter} (h : Tracks c.key c.maxRequests c.window calls s)
    (horder : ∀ c' ∈ calls, c'.now ≤ c.now)
    (hroom : ¬c.maxRequests ≤ (recent c.window c.now (s.buckets c.key)).length) :
    Tracks c.key c.maxRequests c.window (calls ++ [c]) (s.serve c) := by
  have hrecent := h.recents c.now horder
  have hfewer := lt_of_not_ge hroom
  rw [hrecent] at hfewer
  rw [Limiter.serve, checkRateLimit_room hroom]
  refine ⟨fun n hn => ?_, ?_, fun t ht => ?_, allows_concat h.allows fun _ => ?_⟩
  · dsimp only
    rw [Function.update_self, allowedTimes_allowed rfl, hrecent, recent_append, recent_append,
      recent_recent (hn c (by simp))]
  · rw [allowedTimes_allowed rfl]
    refine h.capped.concat (fun u hu => ?_) hfewer
    obtain ⟨c', hc', rfl⟩ := h.within u hu
    exact horder c' hc'
  · rw [allowedTimes_allowed rfl, List.mem_append, List.mem_singleton] at ht
    cases ht with
    | inl old =>
      obtain ⟨c', hc', heq⟩ := h.within t old
      exact ⟨c', List.mem_append_left _ hc', heq⟩
    | inr new => exact ⟨c, by simp, new⟩
  · simpa using hfewer

theorem slides {s : Limiter} (h : Tracks key limit window calls s)
    (hordered : (s.history.map Prod.fst).Pairwise (·.now ≤ ·.now)) :
    Slides key limit window s.history where
  allows before c ok after heq hkey := by
    rw [h.allows before c ok after heq hkey, length_recent]
    intro t ht
    rw [heq, List.map_append, List.map_cons, List.pairwise_append] at hordered
    simp only [allowedTimes, List.mem_map, List.mem_filter] at ht
    obtain ⟨p, ⟨hp, -⟩, rfl⟩ := ht
    exact hordered.2.2 p.1 (List.mem_map_of_mem hp) c (by simp)
  capped_Ioc s := h.capped.countP_le (narrow_Ioc s)
  capped_Ico s := h.capped.countP_le (narrow_Ico s)

end Tracks

/-- Over ordered calls, those of the key under one limit and window, the limiter keeps
track. -/
theorem tracks_run (hordered : calls.Pairwise (·.now ≤ ·.now))
    (hsame : ∀ c ∈ calls, c.key = key → c.maxRequests = limit ∧ c.window = window) :
    Tracks key limit window calls (run calls) := by
  induction calls using List.reverseRecOn with
  | nil => exact Tracks.start
  | append_singleton calls c ih =>
    rw [List.pairwise_append] at hordered
    have before := ih hordered.1 fun c' hc' => hsame c' (List.mem_append_left _ hc')
    rw [run_concat]
    by_cases hkey : c.key = key
    · obtain ⟨hlimit, hwindow⟩ := hsame c (by simp) hkey
      have horder : ∀ c' ∈ calls, c'.now ≤ c.now := fun c' hc' =>
        hordered.2.2 c' hc' c (by simp)
      subst hkey hlimit hwindow
      by_cases hfull :
          c.maxRequests ≤ (recent c.window c.now ((run calls).buckets c.key)).length
      · exact before.refused horder hfull
      · exact before.allowed horder hfull
    · exact before.other hkey

end

/-- The limiter is a sliding window for every key whose calls have one limit and window,
whatever the calls for other keys are. -/
theorem run_slides (key : String) (limit : ℤ) (window : ℚ) (calls : List Call)
    (hordered : calls.Pairwise (·.now ≤ ·.now))
    (hsame : ∀ c ∈ calls, c.key = key → c.maxRequests = limit ∧ c.window = window) :
    Slides key limit window (run calls).history :=
  (tracks_run hordered hsame).slides (by rwa [history_run])

/-- Two calls one window apart, between them one that is refused, and one of another key -/
theorem edge_slides : Slides "a" 1 60
    (run [⟨"a", 1, 60, 0⟩, ⟨"b", 5, 10, 1⟩, ⟨"a", 1, 60, 59⟩, ⟨"a", 1, 60, 60⟩]).history :=
  run_slides "a" 1 60 _ (by decide) (by decide)

end CitraFlows.RateLimit
