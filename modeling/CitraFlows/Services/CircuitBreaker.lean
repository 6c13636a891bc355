-- SUMMARY: The circuit breaker: calls that overlap through one breaker, and the runs in which its three states mean what they say.
import CitraFlows.Lib.Processes

/-!
# The circuit breaker

A call checks the state, awaits its function and records how it went. No lock is held across
an await, so each of the check and the recording is one step, and the recording does not know
in which state the call was let through. `BreakerRun.Lawful` is what one step of the protocol
may do; a step does so exactly when it is `Undisturbed`.
-/

namespace CitraFlows

open Processes

inductive BreakerState where
  | closed
  | opened
  | halfOpen
  deriving DecidableEq

structure BreakerConfig where
  failureThreshold : Int := 3
  recoveryTimeout : Int := 30

/-- The fields of a `CircuitBreaker` that change. -/
structure CircuitBreaker where
  state : BreakerState := .closed
  consecutiveFailures : Nat := 0
  openedAt : Int := 0
  deriving DecidableEq

namespace CircuitBreaker

/-- The recovery window of a breaker that is open has elapsed. -/
def recovers (cfg : BreakerConfig) (now : Int) (b : CircuitBreaker) : Bool :=
  b.openedAt + cfg.recoveryTimeout ≤ now

/-- `_maybe_close_or_half_open` -/
def maybeCloseOrHalfOpen (cfg : BreakerConfig) (now : Int) (b : CircuitBreaker) :
    CircuitBreaker :=
  if b.state ≠ .opened then b
  else if b.recovers cfg now then { b with state := .halfOpen }
  else b

/-- `_record_success` -/
def recordSuccess (b : CircuitBreaker) : CircuitBreaker :=
  { b with
    state := .closed
    consecutiveFailures := 0 }

/-- `_record_failure` -/
def recordFailure (cfg : BreakerConfig) (now : Int) (b : CircuitBreaker) : CircuitBreaker :=
  let failures := b.consecutiveFailures + 1
  if b.state = .halfOpen then ⟨.opened, failures, now⟩
  else if failures ≥ cfg.failureThreshold then ⟨.opened, failures, now⟩
  else { b with consecutiveFailures := failures }

end CircuitBreaker

/-! ## Calls -/

/-- How the awaited function ends: it returns, it raises an `expected_exception`, or it raises
something else (a cancellation included), which `call` does not catch. -/
inductive CallOutcome where
  | returned
  | raised
  | escaped
  deriving DecidableEq

/-- A call: let through in a state, after so many openings of the breaker; or refused with
`CircuitBreakerOpen`; or over. -/
inductive BreakerCall where
  | running (startedIn : BreakerState) (openings : Nat)
  | refused
  | ended
  deriving DecidableEq

/-- A breaker, the clock, and how often the breaker has opened so far. -/
structure BreakerClock where
  now : Int
  breaker : CircuitBreaker := {}
  openings : Nat := 0

namespace BreakerClock

/-- The breaker has changed. -/
def become (g : BreakerClock) (b : CircuitBreaker) : BreakerClock :=
  { g with
    breaker := b
    openings := if g.breaker.state ≠ .opened ∧ b.state = .opened then g.openings + 1 else g.openings }

/-- `call` up to its `await fn()`. -/
def check (cfg : BreakerConfig) (g : BreakerClock) : BreakerClock × BreakerCall :=
  let g := g.become (g.breaker.maybeCloseOrHalfOpen cfg g.now)
  if g.breaker.state = .opened then (g, .refused)
  else (g, .running g.breaker.state g.openings)

/-- `call` after its `await fn()`. -/
def record (cfg : BreakerConfig) (g : BreakerClock) : CallOutcome → BreakerClock
  | .returned => g.become g.breaker.recordSuccess
  | .raised => g.become (g.breaker.recordFailure cfg g.now)
  | .escaped => g

end BreakerClock

/-- A process is a call; time is what moves by itself. -/
def breakerSystem (cfg : BreakerConfig) : System BreakerClock BreakerCall Unit CallOutcome Int where
  spawn _ _ g := some (g.check cfg)
  step _ o g
    | .running _ _ => some (g.record cfg o, .ended)
    | _ => none
  env d g := some { g with now := g.now + d }

abbrev BreakerRun := Configuration BreakerClock BreakerCall

abbrev BreakerMove := Move Unit CallOutcome Int

/-- A new breaker, before any call. -/
def BreakerRun.start (now : Int) : BreakerRun := ⟨{ now }, []⟩

/-! ## The protocol -/

/-- A trial call in flight: it was let through in HALF_OPEN. -/
def BreakerCall.isTrial : BreakerCall → Bool
  | .running .halfOpen _ => true
  | _ => false

namespace BreakerRun

def breaker (c : BreakerRun) : CircuitBreaker := c.shared.breaker

/-- What the step from `c` to `c'` may do. -/
structure Lawful (cfg : BreakerConfig) (c : BreakerRun) (m : BreakerMove) (c' : BreakerRun) :
    Prop where
  /-- While the breaker is HALF_OPEN at most one trial call is in flight. -/
  singleTrial : c'.breaker.state = .halfOpen → c'.AtMostOne BreakerCall.isTrial
  /-- While the breaker is OPEN and the window has not elapsed, no call starts. -/
  failsFast : c.breaker.state = .opened → c.breaker.recovers cfg c.shared.now = false →
    m = .spawn () → c'.breaker = c.breaker ∧ c'.proc c.procs.length = some .refused
  /-- Only the success of a call started in HALF_OPEN closes the breaker. -/
  closedByTrial : c.breaker.state ≠ .closed → c'.breaker.state = .closed →
    ∃ i n, m = .step i .returned ∧ c.proc i = some (.running .halfOpen n)
  /-- The success of a call started before the breaker opened neither closes it nor resets its
  failure count. -/
  staleIgnored : ∀ i s n, m = .step i .returned → c.proc i = some (.running s n) →
    n < c.shared.openings →
    (c'.breaker.state = .closed → c.breaker.state = .closed) ∧
      c'.breaker.consecutiveFailures = c.breaker.consecutiveFailures

/-- No call begins in HALF_OPEN while a trial call is in flight, and no call that was started
before the breaker opened returns, unless the breaker is closed with no failure counted. -/
def Undisturbed (cfg : BreakerConfig) (c : BreakerRun) : BreakerMove → Prop
  | .spawn _ =>
      (c.breaker.maybeCloseOrHalfOpen cfg c.shared.now).state = .halfOpen →
        ∀ i l, c.proc i = some l → l.isTrial = false
  | .step i .returned =>
      ∀ s n, c.proc i = some (.running s n) → n < c.shared.openings →
        c.breaker.state = .closed ∧ c.breaker.consecutiveFailures = 0
  | _ => True

/-! ## Steps -/

variable {cfg : BreakerConfig}

/-- What a move does: a call begins, a call in flight is recorded, or nothing but the clock and
the calls that are left changes. -/
theorem cases_of_apply {c c' : BreakerRun} {m : BreakerMove}
    (h : (breakerSystem cfg).apply c m = some c') :
    (m = .spawn () ∧
      c' = ⟨(c.shared.check cfg).1, c.procs ++ [some (c.shared.check cfg).2]⟩) ∨
    (∃ i o s n, m = .step i o ∧ c.proc i = some (.running s n) ∧
      c' = ⟨c.shared.record cfg o, c.procs.set i (some .ended)⟩) ∨
    (∃ i, m = .crash i ∧ c' = { c with procs := c.procs.set i none }) ∨
    ∃ d, m = .env d ∧ c' = { c with shared := { c.shared with now := c.shared.now + d } } := by
  cases m with
  | spawn x =>
      cases h
      exact Or.inl ⟨rfl, rfl⟩
  | step i o =>
      obtain ⟨l, hl, h⟩ := Option.bind_eq_some_iff.mp h
      cases l with
      | running s n =>
          cases h
          exact Or.inr (Or.inl ⟨i, o, s, n, rfl, hl, rfl⟩)
      | refused => cases h
      | ended => cases h
  | crash i =>
      cases h
      exact Or.inr (Or.inr (Or.inl ⟨i, rfl, rfl⟩))
  | env d =>
      cases h
      exact Or.inr (Or.inr (Or.inr ⟨d, rfl, rfl⟩))

end BreakerRun

namespace BreakerClock

variable {cfg : BreakerConfig} {g : BreakerClock}

theorem openings_le_become {b : CircuitBreaker} : g.openings ≤ (g.become b).openings := by
  simp only [become]
  split <;> omega

/-- An opening is counted. -/
theorem lt_openings_become {b : CircuitBreaker} (hold : g.breaker.state ≠ .opened)
    (hnew : b.state = .opened) : g.openings < (g.become b).openings := by
  simp [become, hold, hnew]

theorem check_breaker (cfg : BreakerConfig) (g : BreakerClock) :
    (g.check cfg).1.breaker = g.breaker.maybeCloseOrHalfOpen cfg g.now := by
  simp only [check]
  split <;> rfl

/-- What the check finds: a breaker that is not OPEN lets the call through in its state, one
whose window has elapsed lets it through in HALF_OPEN, and otherwise the call is refused. -/
theorem check_cases (cfg : BreakerConfig) (g : BreakerClock) :
    (g.breaker.state ≠ .opened ∧ g.check cfg = (g, .running g.breaker.state g.openings)) ∨
    (g.breaker.state = .opened ∧ g.breaker.recovers cfg g.now = true ∧
      g.check cfg = ({ g with breaker := { g.breaker with state := .halfOpen } },
        .running .halfOpen g.openings)) ∨
    (g.breaker.state = .opened ∧ g.breaker.recovers cfg g.now = false ∧
      g.check cfg = (g, .refused)) := by
  by_cases hopen : g.breaker.state = .opened
  · cases hrec : g.breaker.recovers cfg g.now with
    | true =>
        exact Or.inr (Or.inl ⟨hopen, rfl, by
          simp [check, become, CircuitBreaker.maybeCloseOrHalfOpen, hopen, hrec]⟩)
    | false =>
        exact Or.inr (Or.inr ⟨hopen, rfl, by
          simp [check, become, CircuitBreaker.maybeCloseOrHalfOpen, hopen, hrec]⟩)
  · exact Or.inl ⟨hopen, by simp [check, become, CircuitBreaker.maybeCloseOrHalfOpen, hopen]⟩

end BreakerClock

/-- A failure leaves the breaker open, or counts one more and leaves its state. -/
theorem CircuitBreaker.recordFailure_cases (cfg : BreakerConfig) (now : Int)
    (b : CircuitBreaker) :
    (b.recordFailure cfg now).state = .opened ∨ (b.recordFailure cfg now).state = b.state := by
  simp only [recordFailure]
  split
  · exact Or.inl rfl
  · split
    · exact Or.inl rfl
    · exact Or.inr rfl

namespace BreakerRun

variable {cfg : BreakerConfig}

/-! ## The invariant -/

/-- A call in flight that was started since the breaker last opened: in CLOSED, and the breaker
is still closed; or in HALF_OPEN, and it has not opened again. -/
def Current (g : BreakerClock) (_ : Nat) : BreakerCall → Prop
  | .running s n =>
      n ≤ g.openings ∧ (n = g.openings → s ≠ .opened ∧ (s = .closed → g.breaker.state = .closed))
  | _ => True

/-- A call stays current when the breaker changes, unless the change opens it. -/
theorem Current.become {g : BreakerClock} {b : CircuitBreaker} {i : Nat} {l : BreakerCall}
    (h : Current g i l)
    (hb : b.state = .opened ∨ (g.breaker.state = .closed → b.state = .closed)) :
    Current (g.become b) i l := by
  cases l with
  | running s n =>
      obtain ⟨hle, hcur⟩ := h
      have hgrows : g.openings ≤ (g.become b).openings := BreakerClock.openings_le_become
      refine ⟨Nat.le_trans hle hgrows, fun heq => ?_⟩
      have hn : n = g.openings := by omega
      refine ⟨(hcur hn).1, fun hs => ?_⟩
      have hclosed := (hcur hn).2 hs
      rcases hb with hopen | hstays
      · have := BreakerClock.lt_openings_become (g := g) (b := b) (by simp [hclosed]) hopen
        omega
      · exact hstays hclosed
  | refused => exact trivial
  | ended => exact trivial

theorem invariant : (breakerSystem cfg).Invariant (fun _ _ => True) (fun _ _ => True) Current where
  spawn {c x g l} hc _ hs := by
    have hs : c.shared.check cfg = (g, l) := Option.some.inj hs
    rcases c.shared.check_cases cfg with ⟨hopen, hcheck⟩ | ⟨hopen, -, hcheck⟩ | ⟨-, -, hcheck⟩
    · cases hs.symm.trans hcheck
      exact ⟨trivial, ⟨Nat.le_refl _, fun _ => ⟨hopen, id⟩⟩, hc.2⟩
    · cases hs.symm.trans hcheck
      refine ⟨trivial, ⟨Nat.le_refl _, fun _ => ⟨by simp, by simp⟩⟩, fun j m hj => ?_⟩
      have hm := (hc.2 j m hj).become (b := { c.shared.breaker with state := .halfOpen })
        (Or.inr fun hclosed => by simp [hopen] at hclosed)
      simpa [BreakerClock.become] using hm
    · cases hs.symm.trans hcheck
      exact ⟨trivial, trivial, hc.2⟩
  step {c i o l g l'} hc _ hl hs := by
    cases l with
    | running s n =>
        cases hs
        refine ⟨trivial, trivial, fun j m _ hj => ?_⟩
        cases o with
        | returned => exact (hc.2 j m hj).become (Or.inr fun _ => rfl)
        | raised =>
            refine (hc.2 j m hj).become ?_
            rcases c.shared.breaker.recordFailure_cases cfg c.shared.now with hopen | hsame
            · exact Or.inl hopen
            · exact Or.inr fun hclosed => hsame.trans hclosed
        | escaped => exact hc.2 j m hj
    | refused => cases hs
    | ended => cases hs
  env {c e g} hc _ hs := by
    cases hs
    exact ⟨trivial, fun j m hj => by cases m <;> exact hc.2 j _ hj⟩

/-! ## One step -/

/-- A move that starts no trial leaves the trials that were in flight, or fewer. -/
theorem atMostOne_set {c : BreakerRun} {g : BreakerClock} {i : Nat} {o : Option BreakerCall}
    (hc : c.AtMostOne BreakerCall.isTrial) (ho : ∀ l, o = some l → l.isTrial = false) :
    (⟨g, c.procs.set i o⟩ : BreakerRun).AtMostOne BreakerCall.isTrial := by
  intro p q l m hp hq hl hm
  rcases Configuration.proc_set (g := c.shared) hp with ⟨-, hnew⟩ | ⟨-, hp⟩
  · simp [ho l hnew] at hl
  · rcases Configuration.proc_set (g := c.shared) hq with ⟨-, hnew⟩ | ⟨-, hq⟩
    · simp [ho m hnew] at hm
    · exact hc p q l m hp hq hl hm

/-- A new call is the only trial if no other one is in flight. -/
theorem atMostOne_append {c : BreakerRun} {g : BreakerClock} {l : BreakerCall}
    (hc : c.AtMostOne BreakerCall.isTrial)
    (hl : l.isTrial = true → ∀ i m, c.proc i = some m → m.isTrial = false) :
    (⟨g, c.procs ++ [some l]⟩ : BreakerRun).AtMostOne BreakerCall.isTrial := by
  intro p q m m' hp hq hm hm'
  rcases Configuration.proc_append (g := c.shared) hp with ⟨hpnew, rfl⟩ | hpold
  · rcases Configuration.proc_append (g := c.shared) hq with ⟨hqnew, -⟩ | hqold
    · exact hpnew.trans hqnew.symm
    · simp [hl hm q m' hqold] at hm'
  · rcases Configuration.proc_append (g := c.shared) hq with ⟨-, rfl⟩ | hqold
    · simp [hl hm' p m hpold] at hm
    · exact hc p q m m' hpold hqold hm hm'

/-- A call let through in HALF_OPEN is a trial. -/
theorem check_isTrial {g : BreakerClock} :
    (g.check cfg).2.isTrial = true ↔
      (g.breaker.maybeCloseOrHalfOpen cfg g.now).state = .halfOpen := by
  have hfound := g.check_breaker cfg
  rcases g.check_cases cfg with ⟨-, hcheck⟩ | ⟨-, -, hcheck⟩ | ⟨hopen, -, hcheck⟩
  · rw [← hfound, hcheck]
    cases g.breaker.state <;> simp [BreakerCall.isTrial]
  · simp [← hfound, hcheck, BreakerCall.isTrial]
  · simp [← hfound, hcheck, hopen, BreakerCall.isTrial]

theorem Undisturbed.atMostOne {c c' : BreakerRun} {m : BreakerMove} (hok : Undisturbed cfg c m)
    (h : (breakerSystem cfg).apply c m = some c') (hc : c.AtMostOne BreakerCall.isTrial) :
    c'.AtMostOne BreakerCall.isTrial := by
  rcases cases_of_apply h with ⟨rfl, rfl⟩ | ⟨i, o, s, n, rfl, -, rfl⟩ | ⟨i, rfl, rfl⟩ | ⟨d, rfl, rfl⟩
  · exact atMostOne_append hc fun htrial => hok (check_isTrial.mp htrial)
  · exact atMostOne_set hc fun l hl => by cases hl; rfl
  · exact atMostOne_set hc fun l hl => by cases hl
  · exact hc

/-- A step that meets the condition is lawful. -/
theorem Undisturbed.lawful {c c' : BreakerRun} {m : BreakerMove} (hok : Undisturbed cfg c m)
    (h : (breakerSystem cfg).apply c m = some c') (hc : c.AtMostOne BreakerCall.isTrial)
    (hcur : ∀ i l, c.proc i = some l → Current c.shared i l) : Lawful cfg c m c' where
  singleTrial _ := hok.atMostOne h hc
  failsFast hopen hrec hm := by
    subst hm
    rcases c.shared.check_cases cfg with ⟨hne, -⟩ | ⟨-, htrue, -⟩ | ⟨-, -, hcheck⟩
    · exact absurd hopen hne
    · simp [breaker] at hrec
      simp [hrec] at htrue
    · cases h
      simp [hcheck, breaker, Configuration.proc]
  closedByTrial hne hclosed := by
    rcases cases_of_apply h with ⟨rfl, rfl⟩ | ⟨i, o, s, n, rfl, hi, rfl⟩ | ⟨i, rfl, rfl⟩ |
      ⟨d, rfl, rfl⟩
    · rcases c.shared.check_cases cfg with ⟨-, hcheck⟩ | ⟨-, -, hcheck⟩ | ⟨-, -, hcheck⟩
      · simp only [breaker, hcheck] at hclosed
        exact absurd hclosed hne
      · simp [breaker, hcheck] at hclosed
      · simp only [breaker, hcheck] at hclosed
        exact absurd hclosed hne
    · cases o with
      | returned =>
          refine ⟨i, n, rfl, ?_⟩
          obtain ⟨hle, hcurrent⟩ := hcur i _ hi
          rcases Nat.lt_or_eq_of_le hle with hlt | heq
          · exact absurd (hok s n hi hlt).1 hne
          · -- it was started since the last opening, and the breaker is not closed
            obtain ⟨hs, hsclosed⟩ := hcurrent heq
            cases s with
            | closed => exact absurd (hsclosed rfl) hne
            | opened => exact absurd rfl hs
            | halfOpen => exact hi
      | raised =>
          rcases c.shared.breaker.recordFailure_cases cfg c.shared.now with hopen | hsame
          · simp [breaker, BreakerClock.record, BreakerClock.become, hopen] at hclosed
          · simp only [breaker, BreakerClock.record, BreakerClock.become, hsame] at hclosed
            exact absurd hclosed hne
      | escaped => exact absurd hclosed hne
    · exact absurd hclosed hne
    · exact absurd hclosed hne
  staleIgnored i s n hm hi hlt := by
    subst hm
    obtain ⟨hclosed, hzero⟩ := hok s n hi hlt
    rcases cases_of_apply h with ⟨hm, -⟩ | ⟨j, o, s', n', hm, -, rfl⟩ | ⟨j, hm, -⟩ | ⟨d, hm, -⟩
    · cases hm
    · cases hm
      exact ⟨fun _ => hclosed, hzero.symm⟩
    · cases hm
    · cases hm

/-- A step that is lawful meets the condition. -/
theorem Lawful.undisturbed {c c' : BreakerRun} {m : BreakerMove} (hlaw : Lawful cfg c m c')
    (h : (breakerSystem cfg).apply c m = some c') : Undisturbed cfg c m := by
  cases m with
  | spawn x =>
      intro hhalf i l hi
      cases h
      refine Bool.eq_false_iff.mpr fun htrial => ?_
      have hone := hlaw.singleTrial ((congrArg _ (c.shared.check_breaker cfg)).trans hhalf)
      have hnew : (⟨(c.shared.check cfg).1, c.procs ++ [some (c.shared.check cfg).2]⟩ :
          BreakerRun).proc c.procs.length = some (c.shared.check cfg).2 := by
        simp [Configuration.proc]
      have hlt := Configuration.lt_of_proc hi
      have hold : (⟨(c.shared.check cfg).1, c.procs ++ [some (c.shared.check cfg).2]⟩ :
          BreakerRun).proc i = some l := by
        rw [Configuration.proc_eq_some] at hi ⊢
        simpa [List.getElem?_append_left hlt] using hi
      have := hone _ _ _ _ hold hnew htrial (check_isTrial.mpr hhalf)
      omega
  | step i o =>
      cases o with
      | returned =>
          intro s n hi hlt
          obtain ⟨hclosed, hcount⟩ := hlaw.staleIgnored i s n rfl hi hlt
          rcases cases_of_apply h with ⟨hm, -⟩ | ⟨j, o, s', n', hm, -, rfl⟩ | ⟨j, hm, -⟩ | ⟨d, hm, -⟩
          · cases hm
          · cases hm
            exact ⟨hclosed rfl, hcount.symm⟩
          · cases hm
          · cases hm
      | raised => exact trivial
      | escaped => exact trivial
  | crash i => exact trivial
  | env d => exact trivial

/-! ## Runs -/

/-- The runs whose every step is lawful are the runs whose every step is undisturbed. -/
theorem lawful_iff_undisturbed (cfg : BreakerConfig) (now : Int) (c : BreakerRun) :
    (breakerSystem cfg).Reaches
        (fun d m => ∀ d', (breakerSystem cfg).apply d m = some d' → Lawful cfg d m d')
        (BreakerRun.start now) c ↔
      (breakerSystem cfg).Reaches (Undisturbed cfg) (BreakerRun.start now) c := by
  constructor
  · intro h
    induction h with
    | refl => exact .refl
    | tail _ hstep ih =>
        obtain ⟨m, hlaw, hm⟩ := hstep
        exact ih.tail ⟨m, (hlaw _ hm).undisturbed hm, hm⟩
  · intro h
    have hstart : System.Inv (fun _ _ => True) Current (BreakerRun.start now) :=
      System.Inv.of_start rfl trivial
    have hone : (BreakerRun.start now).AtMostOne BreakerCall.isTrial := by
      intro i j l m hi
      simp [BreakerRun.start, Configuration.proc] at hi
    -- both invariants hold where each step of the run begins
    obtain ⟨h, -⟩ := System.Reaches.assuming
      (J := fun d => System.Inv (fun _ _ => True) Current d ∧ d.AtMostOne BreakerCall.isTrial)
      (fun d d' hd hstep => by
        obtain ⟨m, hok, hm⟩ := hstep
        exact ⟨invariant.steps hd.1 ⟨m, trivial, hm⟩, hok.atMostOne hm hd.2⟩)
      ⟨hstart, hone⟩ h
    refine Relation.ReflTransGen.mono ?_ _ _ h
    rintro d d' ⟨m, ⟨hok, hinv, hd⟩, hm⟩
    exact ⟨m, fun d'' hm' => hok.lawful hm' hd hinv.2, hm⟩

/-- Four calls begin, and three of them fail. -/
def openingMoves : List BreakerMove :=
  [.spawn (), .spawn (), .spawn (), .spawn (), .step 1 .raised, .step 2 .raised, .step 3 .raised]

/-- Four calls begin. Three of them fail and open the breaker; the first one then returns, and
closes it at once. -/
theorem not_lawful : ¬ ∀ (cfg : BreakerConfig) (now : Int) (c c' : BreakerRun) (m : BreakerMove),
    (breakerSystem cfg).Reaches (fun _ _ => True) (BreakerRun.start now) c →
      (breakerSystem cfg).apply c m = some c' → Lawful cfg c m c' := by
  intro hall
  have hreach : (breakerSystem {}).Reaches (fun _ _ => True) (BreakerRun.start 0) _ :=
    System.reaches_of_play (show System.play _ _ openingMoves _ = _ from rfl)
  have hlaw := hall {} 0 _ _ (.step 0 .returned) hreach rfl
  obtain ⟨hclosed, -⟩ := hlaw.staleIgnored 0 .closed 0 rfl rfl (by decide)
  exact absurd (hclosed rfl) (by decide)

end BreakerRun

end CitraFlows
