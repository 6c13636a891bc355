-- SUMMARY: The Send Email node: the marker is checked, the request sent and the marker written in three commands, and when that sends once.
import CitraFlows.Lib.Processes
import Mathlib.Logic.Function.Basic

/-!
# Sending an email once

A dispatch of an `email_sender` node checks the idempotency marker, sends the request to the User
Service, and writes the marker once it is answered 200. Any number of dispatches take these steps
on one cache, and each may be lost between any two. Times are in milliseconds.
-/

namespace CitraFlows.EmailSender

open Processes

/-! ## Dispatches -/

structure Email where
  executionId : String
  nodeId : String
  toAddr : String
  subject : String
  deriving DecidableEq

inductive Output where
  | sent
  /-- `duplicate suppressed (idempotency)` -/
  | suppressed
  | notSent (reason : String)
  deriving DecidableEq

/-- The next command of a dispatch; `cache` says whether the check has reached the cache. -/
inductive Stage where
  | check
  | post (cache : Bool)
  /-- The request is on its way; `reached` says whether the User Service has received it. -/
  | awaiting (cache reached : Bool)
  | mark
  | done (output : Output)
  deriving DecidableEq

structure Dispatch where
  email : Email
  stage : Stage := .check

/-- A request that has reached the User Service. -/
structure Sent where
  email : Email
  sentAt : Nat
  deriving DecidableEq

/-- The cache by key, a marker being given by the end of its lifetime, and the requests that have
reached the User Service, the latest first. -/
structure State where
  now : Nat
  markers : String → Option Nat
  sends : List Sent

/-- `ex=86400` -/
def markerLifetime : Nat := 86400 * 1000

section
/- The first 16 digits of the SHA-1 of a text. -/
variable (digest : String → String)

/-- `_idem_key` -/
def Email.idemKey (e : Email) : String :=
  "wf:email:sent:" ++ e.executionId ++ ":" ++ e.nodeId ++ ":" ++ digest (e.toAddr ++ "|" ++ e.subject)

/-- `exists` -/
def State.existsKey (s : State) (key : String) : Bool := (s.markers key).any (s.now < ·)

/-- What a dispatch does not decide: whether a command of the cache succeeds, whether the request
reaches the User Service, and the status of the answer, if one comes within the timeout. -/
structure Answer where
  cache : Bool := true
  reaches : Bool := true
  status : Option Nat := some 200

/-- One command of `execute`. -/
def Dispatch.next (w : Answer) (s : State) (p : Dispatch) : Option (State × Dispatch) :=
  match p.stage with
  | .check =>
      if !w.cache then some (s, { p with stage := .post false })
      else if s.existsKey (p.email.idemKey digest) then some (s, { p with stage := .done .suppressed })
      else some (s, { p with stage := .post true })
  | .post cache =>
      some (if w.reaches then { s with sends := ⟨p.email, s.now⟩ :: s.sends } else s,
        { p with stage := .awaiting cache w.reaches })
  | .awaiting cache reached =>
      -- a request that has not reached the service is not answered
      match if reached then w.status else none with
      | none => some (s, { p with stage := .done (.notSent "Email send failed") })
      | some status =>
          if status = 200 then
            some (s, { p with stage := if cache then .mark else .done .sent })
          else some (s, { p with stage := .done (.notSent ("User Service error: " ++ toString status)) })
  | .mark =>
      some (if w.cache then
          { s with
            markers := Function.update s.markers (p.email.idemKey digest)
              (some (s.now + markerLifetime)) }
        else s,
        { p with stage := .done .sent })
  | .done _ => none

/-- Dispatches of any emails; time passes. -/
def system : System State Dispatch Email Answer Nat where
  spawn := fun _ e s => some (s, { email := e })
  step := fun _ w s p => p.next digest w s
  env := fun d s => some { s with now := s.now + d }

abbrev Run := Configuration State Dispatch

abbrev EmailMove := Move Email Answer Nat

/-- Requests for the same email reach the service at least the lifetime of the marker apart. -/
def SendsOnce (s : State) : Prop :=
  s.sends.Pairwise fun later earlier =>
    later.email = earlier.email → earlier.sentAt + markerLifetime ≤ later.sentAt

/-! ## When the marker suffices -/

/-- Between its check and its marker. -/
def Dispatch.underWay (p : Dispatch) : Bool :=
  match p.stage with
  | .post _ | .awaiting _ _ | .mark => true
  | .check | .done _ => false

/-- The request has reached the service and is not marked. -/
def Dispatch.unmarked (p : Dispatch) : Bool :=
  match p.stage with
  | .awaiting _ true | .mark => true
  | _ => false

/-- The dispatch goes under way for the key. -/
def Dispatch.holds (key : String) (p : Dispatch) : Bool :=
  p.underWay && p.email.idemKey digest = key

/-- The cache is reachable, no dispatch passes the check while another one of the same email is
between its check and its marker, and every request that reaches the service is answered 200 in
time and marked. -/
def Marked (c : Run) : EmailMove → Bool
  | .step i w =>
      (c.proc i).all fun p =>
        match p.stage with
        | .check =>
            w.cache && (c.shared.existsKey (p.email.idemKey digest) ||
              c.others i fun q => !q.holds digest (p.email.idemKey digest))
        | .awaiting _ reached => !reached || w.status = some 200
        | .mark => w.cache
        | _ => true
  | .crash i => (c.proc i).all fun p => !p.unmarked
  | _ => true

end

/-! ## Runs -/

section
variable {digest : String → String}

/-- The marker of the request lasts long enough, or a dispatch is about to write it. -/
def Covered (digest : String → String) (c : Run) (x : Sent) : Prop :=
  (∃ e, c.shared.markers (x.email.idemKey digest) = some e ∧ x.sentAt + markerLifetime ≤ e) ∨
    ∃ i p, c.proc i = some p ∧ p.unmarked = true ∧
      p.email.idemKey digest = x.email.idemKey digest

/-- The lifetimes of all earlier requests of the email have ended. -/
def Elapsed (digest : String → String) (s : State) (p : Dispatch) : Prop :=
  ∀ x ∈ s.sends, x.email.idemKey digest = p.email.idemKey digest →
    x.sentAt + markerLifetime ≤ s.now

/-- What is known of a dispatch: it has reached the cache, and it sends only after the lifetimes of
the requests before. -/
def Ready (digest : String → String) (s : State) (p : Dispatch) : Prop :=
  match p.stage with
  | .post cache => cache = true ∧ Elapsed digest s p
  | .awaiting cache _ => cache = true
  | _ => True

structure Sound (digest : String → String) (c : Run) : Prop where
  apart : c.shared.sends.Pairwise fun later earlier =>
    later.email.idemKey digest = earlier.email.idemKey digest →
      earlier.sentAt + markerLifetime ≤ later.sentAt
  past : ∀ x ∈ c.shared.sends, x.sentAt ≤ c.shared.now
  exclusive : ∀ key, c.AtMostOne fun p => p.holds digest key
  covered : ∀ x ∈ c.shared.sends, Covered digest c x
  ready : ∀ i p, c.proc i = some p → Ready digest c.shared p

theorem unmarked_underWay {p : Dispatch} (h : p.unmarked = true) : p.underWay = true := by
  obtain ⟨email, stage⟩ := p
  cases stage with
  | check => cases h
  | post cache => rfl
  | awaiting cache reached => rfl
  | mark => rfl
  | done output => cases h

/-- One dispatch has gone on. -/
theorem Covered.step {c : Run} {i : Nat} {p p' : Dispatch} {s' : State} {x : Sent}
    (h : Covered digest c x) (hi : c.proc i = some p)
    (hmarkers : s'.markers (x.email.idemKey digest) = c.shared.markers (x.email.idemKey digest))
    (hkeep : p.unmarked = true → p.email.idemKey digest = x.email.idemKey digest →
      p'.unmarked = true ∧ p'.email = p.email) :
    Covered digest ⟨s', c.procs.set i (some p')⟩ x := by
  rcases h with ⟨e, he, hle⟩ | ⟨j, q, hj, hq, hkey⟩
  · exact Or.inl ⟨e, hmarkers.trans he, hle⟩
  · by_cases hne : j = i
    · subst hne
      obtain rfl : p = q := Option.some.inj (hi.symm.trans hj)
      obtain ⟨hp', hemail⟩ := hkeep hq hkey
      exact Or.inr ⟨j, p', Configuration.proc_set_self hi, hp', hemail ▸ hkey⟩
    · exact Or.inr ⟨j, q, (Configuration.proc_set_ne (g := c.shared) hne).trans hj, hq, hkey⟩

/-- A step of a dispatch that sends and marks nothing. -/
theorem Sound.advance {c : Run} {i : Nat} {p p' : Dispatch} (h : Sound digest c)
    (hi : c.proc i = some p)
    (hexclusive : ∀ key, (⟨c.shared, c.procs.set i (some p')⟩ : Run).AtMostOne
      fun p => p.holds digest key)
    (hkeep : p.unmarked = true → p'.unmarked = true ∧ p'.email = p.email)
    (hready : Ready digest c.shared p') :
    Sound digest ⟨c.shared, c.procs.set i (some p')⟩ where
  apart := h.apart
  past := h.past
  exclusive := hexclusive
  covered := fun x hx => (h.covered x hx).step hi rfl fun hp _ => hkeep hp
  ready := fun j q hj => by
    rcases Configuration.proc_set (g := c.shared) hj with ⟨-, heq⟩ | ⟨-, hj⟩
    · cases heq
      exact hready
    · exact h.ready j q hj

/-- A request reaches the service. -/
theorem Sound.send {c : Run} {i : Nat} {email : Email} {cache : Bool} (h : Sound digest c)
    (hi : c.proc i = some ⟨email, .post cache⟩)
    (hexclusive : ∀ key, (⟨{ c.shared with sends := ⟨email, c.shared.now⟩ :: c.shared.sends },
      c.procs.set i (some ⟨email, .awaiting cache true⟩)⟩ : Run).AtMostOne
        fun p => p.holds digest key) :
    Sound digest ⟨{ c.shared with sends := ⟨email, c.shared.now⟩ :: c.shared.sends },
      c.procs.set i (some ⟨email, .awaiting cache true⟩)⟩ where
  apart := by
    obtain ⟨-, helapsed⟩ := h.ready i _ hi
    exact List.pairwise_cons.mpr ⟨fun x hx hkey => helapsed x hx hkey.symm, h.apart⟩
  past := fun x hx => by
    rcases List.mem_cons.mp hx with rfl | hx
    · exact Nat.le_refl _
    · exact h.past x hx
  exclusive := hexclusive
  covered := fun x hx => by
    rcases List.mem_cons.mp hx with rfl | hx
    · exact Or.inr ⟨i, _, Configuration.proc_set_self hi, rfl, rfl⟩
    · exact (h.covered x hx).step hi rfl fun hp _ => by cases hp
  ready := fun j q hj => by
    rcases Configuration.proc_set (g := c.shared) hj with ⟨-, heq⟩ | ⟨hne, hj⟩
    · cases heq
      exact (h.ready i _ hi).1
    · have hready := h.ready j q hj
      obtain ⟨email', stage⟩ := q
      cases stage with
      | post cache' =>
          refine ⟨hready.1, fun x hx hkey => ?_⟩
          rcases List.mem_cons.mp hx with rfl | hx
          · -- two dispatches of one email would be under way
            have hboth := h.exclusive (email.idemKey digest) j i _ _ hj hi
              (by simp [Dispatch.holds, Dispatch.underWay, ← hkey])
              (by simp [Dispatch.holds, Dispatch.underWay])
            exact absurd hboth hne
          · exact hready.2 x hx hkey
      | check => trivial
      | awaiting cache' reached => exact hready
      | mark => trivial
      | done output => trivial

/-- The marker is written. -/
theorem Sound.write {c : Run} {i : Nat} {email : Email} (h : Sound digest c)
    (hi : c.proc i = some ⟨email, .mark⟩)
    (hexclusive : ∀ key, (⟨{ c.shared with
        markers := Function.update c.shared.markers (email.idemKey digest)
          (some (c.shared.now + markerLifetime)) },
      c.procs.set i (some ⟨email, .done .sent⟩)⟩ : Run).AtMostOne fun p => p.holds digest key) :
    Sound digest ⟨{ c.shared with
        markers := Function.update c.shared.markers (email.idemKey digest)
          (some (c.shared.now + markerLifetime)) },
      c.procs.set i (some ⟨email, .done .sent⟩)⟩ where
  apart := h.apart
  past := h.past
  exclusive := hexclusive
  covered := fun x hx => by
    by_cases hkey : x.email.idemKey digest = email.idemKey digest
    · refine Or.inl ⟨c.shared.now + markerLifetime, by simp [hkey], ?_⟩
      exact Nat.add_le_add_right (h.past x hx) _
    · refine (h.covered x hx).step hi (by simp [hkey]) fun _ hsame => ?_
      exact absurd hsame.symm hkey
  ready := fun j q hj => by
    rcases Configuration.proc_set (g := c.shared) hj with ⟨-, heq⟩ | ⟨-, hj⟩
    · cases heq
      trivial
    · exact h.ready j q hj

/-! ## Every move -/

theorem next_email {w : Answer} {s s' : State} {p p' : Dispatch}
    (h : p.next digest w s = some (s', p')) : p'.email = p.email := by
  obtain ⟨email, stage⟩ := p
  cases stage with
  | check =>
      simp only [Dispatch.next] at h
      split at h
      next => cases h; rfl
      next => split at h <;> (cases h; rfl)
  | post cache =>
      cases h
      rfl
  | awaiting cache reached =>
      simp only [Dispatch.next] at h
      split at h
      next => cases h; rfl
      next => split at h <;> (cases h; rfl)
  | mark =>
      cases h
      rfl
  | done output => cases h

/-- A dispatch goes under way at its check only, where the condition keeps the others away. -/
theorem exclusive_steps {c c' : Run}
    (hstep : (system digest).Steps (fun c m => Marked digest c m = true) c c')
    (h : ∀ key, c.AtMostOne fun p => p.holds digest key) (key : String) :
    c'.AtMostOne fun p => p.holds digest key := by
  refine System.Steps.atMostOne ?_ ?_ (h key) hstep
  · intro _ e s s' p hs
    cases hs
    rfl
  · intro c i w p s p' hok hi hs hk
    have hemail := next_email hs
    simp only [Dispatch.holds, Bool.and_eq_true, decide_eq_true_eq, hemail] at hk ⊢
    obtain ⟨email, stage⟩ := p
    cases stage with
    | check =>
        refine Or.inr ?_
        simp only [Marked, hi, Option.all_some, Bool.and_eq_true, Bool.or_eq_true] at hok
        obtain ⟨hcache, hexists | hothers⟩ := hok
        · -- the duplicate is suppressed
          simp only [system, Dispatch.next, hcache, hexists] at hs
          cases hs
          cases hk.1
        · rw [hk.2] at hothers
          exact hothers
    | post cache => exact Or.inl ⟨rfl, hk.2⟩
    | awaiting cache reached => exact Or.inl ⟨rfl, hk.2⟩
    | mark => exact Or.inl ⟨rfl, hk.2⟩
    | done output => cases hs

/-- A new dispatch. -/
theorem Sound.spawn {c : Run} {email : Email} (h : Sound digest c)
    (hexclusive : ∀ key, (⟨c.shared, c.procs ++ [some ⟨email, .check⟩]⟩ : Run).AtMostOne
      fun p => p.holds digest key) :
    Sound digest ⟨c.shared, c.procs ++ [some ⟨email, .check⟩]⟩ where
  apart := h.apart
  past := h.past
  exclusive := hexclusive
  covered := fun x hx => by
    rcases h.covered x hx with hmarker | ⟨i, p, hi, hp, hkey⟩
    · exact Or.inl hmarker
    · exact Or.inr ⟨i, p, Configuration.proc_append_left (g := c.shared) hi, hp, hkey⟩
  ready := fun i p hi => by
    rcases Configuration.proc_append (g := c.shared) hi with ⟨-, rfl⟩ | hi
    · trivial
    · exact h.ready i p hi

/-- A dispatch whose request has not reached the service, or is marked, is lost. -/
theorem Sound.crash {c : Run} {i : Nat} (h : Sound digest c)
    (hlost : ∀ p, c.proc i = some p → p.unmarked = false)
    (hexclusive : ∀ key, (⟨c.shared, c.procs.set i none⟩ : Run).AtMostOne
      fun p => p.holds digest key) :
    Sound digest ⟨c.shared, c.procs.set i none⟩ where
  apart := h.apart
  past := h.past
  exclusive := hexclusive
  covered := fun x hx => by
    rcases h.covered x hx with hmarker | ⟨j, p, hj, hp, hkey⟩
    · exact Or.inl hmarker
    · have hne : j ≠ i := by
        rintro rfl
        simp [hlost p hj] at hp
      exact Or.inr ⟨j, p, (Configuration.proc_set_ne (g := c.shared) hne).trans hj, hp, hkey⟩
  ready := fun j p hj => by
    rcases Configuration.proc_set (g := c.shared) hj with ⟨-, heq⟩ | ⟨-, hj⟩
    · cases heq
    · exact h.ready j p hj

/-- Time passes. -/
theorem Sound.wait {c : Run} {d : Nat} (h : Sound digest c) :
    Sound digest { c with shared := { c.shared with now := c.shared.now + d } } where
  apart := h.apart
  past := fun x hx => Nat.le_add_right_of_le (h.past x hx)
  exclusive := h.exclusive
  covered := h.covered
  ready := fun i p hi => by
    have hready := h.ready i p hi
    obtain ⟨email, stage⟩ := p
    cases stage with
    | post cache => exact ⟨hready.1, fun x hx hkey => Nat.le_add_right_of_le (hready.2 x hx hkey)⟩
    | check => trivial
    | awaiting cache reached => exact hready
    | mark => trivial
    | done output => trivial

/-- A check that finds no marker, with no other dispatch of the email under way, finds the
lifetimes of all requests before ended. -/
theorem Sound.elapsed {c : Run} {i : Nat} {email : Email} (h : Sound digest c)
    (hi : c.proc i = some ⟨email, .check⟩)
    (hnone : c.shared.existsKey (email.idemKey digest) = false)
    (hothers : c.others i (fun q => !q.holds digest (email.idemKey digest)) = true)
    (stage : Stage) : Elapsed digest c.shared ⟨email, stage⟩ := by
  intro x hx hkey
  rcases h.covered x hx with ⟨e, he, hle⟩ | ⟨j, q, hj, hq, hsame⟩
  · have hended : e ≤ c.shared.now := by
      rw [hkey] at he
      simpa [State.existsKey, he] using hnone
    exact Nat.le_trans hle hended
  · have hne : j ≠ i := by
      rintro rfl
      cases Option.some.inj (hi.symm.trans hj)
      cases hq
    have hnot := Configuration.others_eq_true.mp hothers j q hne hj
    simp [Dispatch.holds, unmarked_underWay hq, hsame, hkey] at hnot

/-- A command that meets the condition, by the stage of the dispatch. -/
theorem Sound.next {c : Run} {i : Nat} {w : Answer} {p p' : Dispatch} {s' : State}
    (h : Sound digest c) (hok : Marked digest c (.step i w) = true) (hi : c.proc i = some p)
    (hs : p.next digest w c.shared = some (s', p'))
    (hexclusive : ∀ key, (⟨s', c.procs.set i (some p')⟩ : Run).AtMostOne
      fun p => p.holds digest key) :
    Sound digest ⟨s', c.procs.set i (some p')⟩ := by
  obtain ⟨email, stage⟩ := p
  simp only [Marked, hi, Option.all_some] at hok
  cases stage with
  | check =>
      simp only [Bool.and_eq_true, Bool.or_eq_true] at hok
      obtain ⟨hcache, hguard⟩ := hok
      cases hexists : c.shared.existsKey (email.idemKey digest) with
      | true =>
          simp only [Dispatch.next, hcache, hexists] at hs
          cases hs
          exact h.advance hi hexclusive (fun hp => by cases hp) trivial
      | false =>
          have hothers := hguard.resolve_left (by simp [hexists])
          simp only [Dispatch.next, hcache, hexists] at hs
          cases hs
          exact h.advance hi hexclusive (fun hp => by cases hp)
            ⟨rfl, h.elapsed hi hexists hothers _⟩
  | post cache =>
      cases hreaches : w.reaches with
      | true =>
          simp only [Dispatch.next, hreaches] at hs
          cases hs
          exact h.send hi hexclusive
      | false =>
          simp only [Dispatch.next, hreaches] at hs
          cases hs
          exact h.advance hi hexclusive (fun hp => by cases hp) (h.ready i _ hi).1
  | awaiting cache reached =>
      obtain rfl : cache = true := h.ready i _ hi
      cases reached with
      | false =>
          -- the request may be sent again by a later dispatch
          cases hs
          exact h.advance hi hexclusive (fun hp => by cases hp) trivial
      | true =>
          have hstatus : w.status = some 200 := by simpa using hok
          simp only [Dispatch.next, hstatus] at hs
          cases hs
          exact h.advance hi hexclusive (fun _ => ⟨rfl, rfl⟩) trivial
  | mark =>
      simp only [Dispatch.next, hok] at hs
      cases hs
      exact h.write hi hexclusive
  | done output => cases hs

theorem Sound.steps {c c' : Run} (h : Sound digest c)
    (hstep : (system digest).Steps (fun c m => Marked digest c m = true) c c') :
    Sound digest c' := by
  have hexclusive := exclusive_steps hstep h.exclusive
  rcases hstep.cases with ⟨email, s, p, -, hs, rfl⟩ | ⟨i, w, p, s, p', hok, hi, hs, rfl⟩ |
    ⟨i, hok, rfl⟩ | ⟨d, s, -, hs, rfl⟩
  · cases hs
    exact h.spawn hexclusive
  · exact h.next hok hi hs hexclusive
  · refine h.crash (fun p hi => ?_) hexclusive
    simpa [Marked, hi] using hok
  · cases hs
    exact h.wait

/-- Before any dispatch. -/
theorem Sound.of_start {c : Run} (hprocs : c.procs = []) (hsends : c.shared.sends = []) :
    Sound digest c where
  apart := by simp [hsends]
  past := by simp [hsends]
  exclusive := fun key i j p q hi => by simp [Configuration.proc, hprocs] at hi
  covered := by simp [hsends]
  ready := fun i p hi => by simp [Configuration.proc, hprocs] at hi

/-- In a run whose moves all meet the condition, requests for one email reach the service at
least the lifetime of the marker apart. -/
theorem sends_once {start : State} {c : Run} (hstart : start.sends = [])
    (h : (system digest).Reaches (fun c m => Marked digest c m = true) ⟨start, []⟩ c) :
    SendsOnce c.shared := by
  have hsound : Sound digest c :=
    h.keeps (fun _ _ hd hstep => hd.steps hstep) (Sound.of_start rfl hstart)
  refine hsound.apart.imp fun {later earlier} hapart hemail => ?_
  exact hapart (congrArg (Email.idemKey digest) hemail)

end

/-- The digest of the recipient and the subject of `welcome`. -/
def welcomeDigest (_ : String) : String := "d08c643bf4782b31"

def welcome : Email where
  executionId := "exec-1"
  nodeId := "node-7"
  toAddr := "ada@example.com"
  subject := "Welcome"

/-- Dispatch `i` finds no marker, sends and marks. -/
def sendAndMark (i : Nat) : List EmailMove :=
  [.spawn welcome, .step i { }, .step i { }, .step i { }, .step i { }]

/-- A dispatch sends, the job is redelivered within the lifetime of the marker, and once more
when it has ended. -/
def redelivered : List EmailMove :=
  sendAndMark 0 ++ [.spawn welcome, .step 1 { }, .env markerLifetime] ++ sendAndMark 2

theorem sends_once_redelivered : ∃ c : Run, c.shared.sends.length = 2 ∧ SendsOnce c.shared := by
  obtain ⟨c, hreach, hc⟩ := System.exists_reaches_of_play (system welcomeDigest)
    (fun c m => Marked welcomeDigest c m = true) redelivered ⟨⟨0, fun _ => none, []⟩, []⟩
    (fun c => c.shared.sends.length = 2) (by decide +kernel)
  exact ⟨c, by simpa using hc, sends_once rfl hreach⟩

def CacheReachable : EmailMove → Bool
  | .step _ w => w.cache
  | _ => true

/-- Both dispatches check before either of them marks. -/
def overlapping : List EmailMove :=
  [.spawn welcome, .spawn welcome, .step 0 { }, .step 1 { }, .step 0 { }, .step 1 { }]

/-- Two dispatches of one email overlap, and both requests reach the service at once. -/
theorem sends_twice :
    ¬ ∀ (digest : String → String) (start : State) (c : Run), start.sends = [] →
      (system digest).Reaches (fun _ m => CacheReachable m = true) ⟨start, []⟩ c →
        SendsOnce c.shared := by
  intro h
  obtain ⟨c, hreach, hc⟩ := System.exists_reaches_of_play (system welcomeDigest)
    (fun _ m => CacheReachable m = true) overlapping ⟨⟨0, fun _ => none, []⟩, []⟩
    (fun c => c.shared.sends = [⟨welcome, 0⟩, ⟨welcome, 0⟩]) (by decide +kernel)
  have honce := h welcomeDigest _ c rfl hreach
  rw [SendsOnce, of_decide_eq_true hc, List.pairwise_cons] at honce
  exact absurd (honce.1 ⟨welcome, 0⟩ (by simp) rfl) (by decide)

end CitraFlows.EmailSender
