-- SUMMARY: The frequency cap on cron schedules: what `validate_cron_schedule` measures, and the schedules it lets through.
import CitraFlows.Scheduler.CronTable
import CitraFlows.Nodes.RulesText
import CitraFlows.Lib.Enumeration

/-!
# The cron frequency cap

`validate_cron_schedule` builds the trigger of a schedule, asks it for twelve fire times
and compares the distances between them, as differences on the wall clock of the
schedule's timezone, with `MIN_CRON_INTERVAL_SECONDS`. The trigger enumerates the minutes
that match its five fields. The cap is meant for all of them. Where the clocks do not change,
twelve fire times tell enough of a schedule that comes round with eleven of them, and of one
with at most eleven minutes in the hour; minutes that lie evenly in the hour need no check.
-/

namespace CitraFlows.CronCap

open Enumeration

/-! ## Time -/

/-- Moments are counted in microseconds, like `datetime`. -/
def second : ℤ := 1000000

def minute : ℤ := 60 * second

/-- A timezone, by its offset from UTC at each moment -/
structure Zone where
  utcoffset : ℤ → ℤ

/-- What the clocks of a zone show at a moment -/
def Zone.wall (z : Zone) (t : ℤ) : ℤ := t + z.utcoffset t

structure Date where
  year : ℤ
  month : ℤ
  day : ℤ
  deriving DecidableEq

/-- The Gregorian date of a day, counted from 1970-01-01 -/
def Date.ofDays (days : ℤ) : Date :=
  -- years start in March here, so that a leap day ends its year
  let z := days + 719468
  let era := z / 146097
  let dayOfEra := z % 146097
  let yearOfEra := (dayOfEra - dayOfEra / 1460 + dayOfEra / 36524 - dayOfEra / 146096) / 365
  let dayOfYear := dayOfEra - (365 * yearOfEra + yearOfEra / 4 - yearOfEra / 100)
  let m := (5 * dayOfYear + 2) / 153
  let month := if m < 10 then m + 3 else m - 9
  { year := yearOfEra + era * 400 + if month ≤ 2 then 1 else 0
    month := month
    day := dayOfYear - (153 * m + 2) / 5 + 1 }

/-- `datetime.weekday()`; Monday is 0. -/
def weekday (days : ℤ) : ℤ := (days + 3) % 7

/-! ## Triggers -/

/-- The five fields of a trigger. A day may depend on its month and year, as `last` does. -/
structure Fields where
  minute : ℤ → Bool
  hour : ℤ → Bool
  day : Date → Bool
  month : ℤ → Bool
  dayOfWeek : ℤ → Bool

/-- The clocks show a whole minute that matches the fields. -/
def Fields.matches (f : Fields) (wall : ℤ) : Bool :=
  let minutes := wall / CronCap.minute
  let days := minutes / 1440
  let date := Date.ofDays days
  wall % CronCap.minute = 0 && f.minute (minutes % 60) && f.hour (minutes / 60 % 24) &&
    f.day date && f.month date.month && f.dayOfWeek (weekday days)

/-- Where `get_next_fire_time` starts to look -/
def startDate (prev : Option ℤ) (now : ℤ) : ℤ :=
  match prev with
  | none => now
  | some t => min now (t + 1)

/-- A `CronTrigger`: it enumerates in order the minutes that match its fields. -/
structure Trigger where
  fields : Fields
  zone : Zone
  getNextFireTime : Option ℤ → ℤ → Option ℤ
  isNext : ∀ prev now, IsNext {t | fields.matches (zone.wall t) = true} (startDate prev now)
    (getNextFireTime prev now)

namespace Trigger

variable (tr : Trigger)

/-- The fire times of a schedule -/
def minutes : Set ℤ := {t | tr.fields.matches (tr.zone.wall t) = true}

/-- The loop over `range(12)`, with the number of passes still to go -/
def fireTimes : ℕ → Option ℤ → ℤ → List ℤ
  | 0, _, _ => []
  | n + 1, prev, ref =>
      match tr.getNextFireTime prev ref with
      | none => []
      | some nxt => nxt :: fireTimes n (some nxt) (nxt + 1)

/-- `fires[i + 1] - fires[i]`: both ends have the same `tzinfo`, so that the difference is
one of their wall clocks. -/
def gaps (fires : List ℤ) : List ℤ :=
  (fires.zip fires.tail).map fun p => tr.zone.wall p.2 - tr.zone.wall p.1

end Trigger

/-! ## The validation -/

structure CapConfig where
  minCronIntervalSeconds : ℤ := 300

/-- The zones the platform knows, and the reading of the five fields by `CronTrigger`,
with the text of its exception -/
structure Platform where
  zoneInfo : String → Option Zone
  cronTrigger : List (List Char) → Option Zone → Except String Trigger

/-- The frequency cap: the smallest gap across the next twelve fire times -/
def frequencyErrors (cfg : CapConfig) (tr : Trigger) (now : ℤ) : List String :=
  match (tr.gaps (tr.fireTimes 12 none now)).min? with
  | none => []
  | some minGap =>
      let least := cfg.minCronIntervalSeconds
      let seconds := minGap.tdiv second
      let inMinutes := least / 60
      if minGap < least * second then
        [s!"Schedule fires too frequently (about every {seconds}s). " ++
          s!"The minimum allowed interval is {least}s (~{inMinutes} min). " ++
          "Use a less frequent cron."]
      else []

/-- `validate_cron_schedule` -/
def validateCronSchedule (cfg : CapConfig) (p : Platform) (cronExpr timezone : String)
    (now : ℤ) : List String :=
  let expr := Python.strip cronExpr.toList
  let text := String.ofList expr
  let parts := RulesText.splitWords expr
  let tzName := normalizeTimezone timezone
  if expr = [] then ["A cron expression is required for a scheduled workflow."]
  else if parts.length ≠ 5 then
    [s!"Cron expression '{text}' must have exactly 5 fields " ++
      "(minute hour day month day_of_week)."]
  else
    let errors := if (p.zoneInfo tzName).isNone then [s!"Unknown timezone '{tzName}'."] else []
    match p.cronTrigger parts (p.zoneInfo tzName <|> p.zoneInfo "UTC") with
    | .error exc => errors ++ [s!"Invalid cron expression '{text}': {exc}"]
    | .ok tr => errors ++ frequencyErrors cfg tr now

/-- The trigger of a schedule with five readable fields in a known zone -/
def Platform.schedule (p : Platform) (cronExpr timezone : String) : Option Trigger :=
  let parts := RulesText.splitWords (Python.strip cronExpr.toList)
  if parts.length = 5 then
    (p.zoneInfo (normalizeTimezone timezone)).bind fun zone =>
      (p.cronTrigger parts (some zone)).toOption
  else none

/-! ## What the check measures -/

namespace Trigger

variable (tr : Trigger) (now : ℤ)

/-- The fire time after a fire time -/
def after (t : ℤ) : Option ℤ := tr.getNextFireTime (some t) (t + 1)

/-- The fire times from a moment on, in order -/
def fire (n : ℕ) : Option ℤ := nth (tr.getNextFireTime none now) tr.after n

/-- Two fire times, the second next after the first, of which the first is in place `n` -/
def Pair (n : ℕ) (t u : ℤ) : Prop := tr.fire now n = some t ∧ tr.fire now (n + 1) = some u

variable {tr} {now}

theorem enumerates :
    Enumerates tr.minutes now (tr.getNextFireTime none now) tr.after where
  first_isNext := tr.isNext none now
  succ_isNext t := by
    have next := tr.isNext (some t) (t + 1)
    rwa [startDate, min_self] at next

theorem neighbours_iff {t u : ℤ} :
    Neighbours tr.minutes now t u ↔ ∃ n, tr.Pair now n t u :=
  enumerates.neighbours_iff

/-- The loop collects the fire times in their places. -/
theorem fireTimes_getElem? {k i : ℕ} {prev : Option ℤ} {ref : ℤ} :
    (tr.fireTimes k prev ref)[i]? =
      if i < k then nth (tr.getNextFireTime prev ref) tr.after i else none := by
  induction k generalizing prev ref i with
  | zero => simp [fireTimes]
  | succ k ih =>
    cases hnext : tr.getNextFireTime prev ref with
    | none => simp [fireTimes, hnext, nth_none]
    | some nxt =>
      cases i with
      | zero => simp [fireTimes, hnext, nth]
      | succ i =>
        rw [nth_succ_first, Option.bind_some]
        simp only [fireTimes, hnext, List.getElem?_cons_succ, ih, Nat.add_lt_add_iff_right]
        rfl

theorem mem_gaps {g : ℤ} :
    g ∈ tr.gaps (tr.fireTimes 12 none now) ↔
      ∃ n < 11, ∃ t u, tr.Pair now n t u ∧ g = tr.zone.wall u - tr.zone.wall t := by
  have place : ∀ n t, (tr.fireTimes 12 none now)[n]? = some t ↔ n < 12 ∧ tr.fire now n = some t := by
    intro n t
    rw [fireTimes_getElem?]
    split
    · rename_i hn
      simp [fire, hn]
    · rename_i hn
      simp [hn]
  rw [gaps, List.mem_map]
  constructor
  · rintro ⟨⟨t, u⟩, hmem, hg⟩
    obtain ⟨n, hn⟩ := List.mem_iff_getElem?.mp hmem
    rw [List.getElem?_zip_eq_some, List.getElem?_tail, place, place] at hn
    exact ⟨n, Nat.lt_of_succ_lt_succ hn.2.1, t, u, ⟨hn.1.2, hn.2.2⟩, hg.symm⟩
  · rintro ⟨n, hn, t, u, ⟨ht, hu⟩, hg⟩
    refine ⟨(t, u), List.mem_iff_getElem?.mpr ⟨n, ?_⟩, hg.symm⟩
    rw [List.getElem?_zip_eq_some, List.getElem?_tail, place, place]
    exact ⟨⟨Nat.lt_succ_of_lt hn, ht⟩, Nat.succ_lt_succ hn, hu⟩

end Trigger

theorem frequencyErrors_eq_nil {cfg : CapConfig} {tr : Trigger} {now : ℤ} :
    frequencyErrors cfg tr now = [] ↔ ∀ g ∈ tr.gaps (tr.fireTimes 12 none now),
      cfg.minCronIntervalSeconds * second ≤ g := by
  unfold frequencyErrors
  cases hmin : (tr.gaps (tr.fireTimes 12 none now)).min? with
  | none =>
    rw [List.min?_eq_none_iff] at hmin
    simp [hmin]
  | some minGap =>
    obtain ⟨hmem, hle⟩ := List.min?_eq_some_iff.mp hmin
    simp only [ite_eq_right_iff, List.cons_ne_nil, imp_false, not_lt]
    exact ⟨fun h g hg => le_trans h (hle g hg), fun h => h minGap hmem⟩

/-- No error is found exactly for a schedule that has a trigger, in a known zone, and
passes the cap. -/
theorem validateCronSchedule_eq_nil {cfg : CapConfig} {p : Platform}
    {cronExpr timezone : String} {now : ℤ} :
    validateCronSchedule cfg p cronExpr timezone now = [] ↔
      ∃ tr, p.schedule cronExpr timezone = some tr ∧ frequencyErrors cfg tr now = [] := by
  unfold validateCronSchedule Platform.schedule
  by_cases hparts : (RulesText.splitWords (Python.strip cronExpr.toList)).length = 5
  · have hexpr : Python.strip cronExpr.toList ≠ [] := by
      intro hempty
      rw [hempty] at hparts
      exact absurd hparts (by decide)
    simp only [hexpr, hparts, if_false, if_true, ne_eq, not_true_eq_false]
    cases p.zoneInfo (normalizeTimezone timezone) with
    | none => split <;> simp
    | some zone =>
      have known : (some zone <|> p.zoneInfo "UTC") = some zone := rfl
      rw [known, Option.bind_some]
      cases p.cronTrigger (RulesText.splitWords (Python.strip cronExpr.toList)) (some zone) with
      | error exc => simp [Except.toOption]
      | ok tr => simp [Except.toOption]
  · simp only [hparts, if_false, reduceCtorEq, false_and, exists_false, iff_false]
    split <;> simp

/-! ## What the cap asks -/

variable (cfg : CapConfig)

/-- Two moments are at least the cap apart. -/
def Apart (t u : ℤ) : Prop := cfg.minCronIntervalSeconds * second ≤ u - t

/-- A schedule without errors never fires twice within the cap. -/
def KeepsCap (p : Platform) (cronExpr timezone : String) (now : ℤ) : Prop :=
  validateCronSchedule cfg p cronExpr timezone now = [] →
    ∀ tr, p.schedule cronExpr timezone = some tr →
      ∀ t u, Neighbours tr.minutes now t u → Apart cfg t u

/-- The first twelve fire times are the cap apart on the wall clock. -/
def Measured (tr : Trigger) (now : ℤ) : Prop :=
  ∀ n < 11, ∀ t u, tr.Pair now n t u → Apart cfg (tr.zone.wall t) (tr.zone.wall u)

/-- Two consecutive fire times come within the cap of each other. -/
def Bunches (tr : Trigger) (now : ℤ) : Prop :=
  ∃ t u, Neighbours tr.minutes now t u ∧ ¬ Apart cfg t u

/-- At most ten fire times come before it, so that it is not the last of the first twelve. -/
def Trigger.Early (tr : Trigger) (now t : ℤ) : Prop :=
  ∃ before : Finset ℤ, before.card ≤ 10 ∧
    ∀ v, now ≤ v → v < t → v ∈ tr.minutes → v ∈ before

/-- Two consecutive ones of the first twelve do, on the wall clock. -/
def BunchesEarly (tr : Trigger) (now : ℤ) : Prop :=
  ∃ t u, Neighbours tr.minutes now t u ∧ tr.Early now t ∧
    ¬ Apart cfg (tr.zone.wall t) (tr.zone.wall u)

/-! ## Schedules for which the check is enough -/

/-- The clocks of the zone do not change from the moment on. -/
def Zone.Steady (z : Zone) (now : ℤ) : Prop := ∀ t, now ≤ t → z.utcoffset t = z.utcoffset now

/-- From the moment on the clocks change by whole hours only. -/
def Zone.WholeHours (z : Zone) (now : ℤ) : Prop :=
  ∀ t u, now ≤ t → now ≤ u → 60 * minute ∣ z.utcoffset t - z.utcoffset u

/-- From a reading of the clock on, the fields repeat after some time, in which at most eleven
readings match. -/
def Fields.ComesRound (f : Fields) (wall : ℤ) : Prop :=
  ∃ P, 0 < P ∧ (∀ w, wall ≤ w → f.matches (w + P) = f.matches w) ∧
    ∃ readings : Finset ℤ, readings.card ≤ 11 ∧
      ∀ w, wall ≤ w → w < wall + P → f.matches w = true → w ∈ readings

/-- Going round the hour, any two minutes of the fields are at least the cap apart. -/
def Fields.Even (f : Fields) : Prop :=
  cfg.minCronIntervalSeconds ≤ 3600 ∧ ∀ m m', f.minute m = true → f.minute m' = true →
    (m' - m) % 60 = 0 ∨ cfg.minCronIntervalSeconds ≤ 60 * ((m' - m) % 60)

/-- The fields have at most eleven minutes, and the last minutes of an hour are at least the cap
apart from the first ones of the next. -/
def Fields.FewMinutes (f : Fields) : Prop :=
  (∃ values : Finset ℤ, values.card ≤ 11 ∧
    ∀ m, 0 ≤ m → m < 60 → f.minute m = true → m ∈ values) ∧
  ∀ m m', 0 ≤ m → m < 60 → 0 ≤ m' → f.minute m = true → f.minute m' = true →
    cfg.minCronIntervalSeconds ≤ 60 * (60 + m' - m)

/-- The check is enough for the schedule, by its fields, its zone and the moment. -/
def Covered (tr : Trigger) (now : ℤ) : Prop :=
  tr.zone.Steady now ∧ (tr.fields.ComesRound (tr.zone.wall now) ∨ tr.fields.FewMinutes cfg) ∨
    tr.zone.WholeHours now ∧ tr.fields.Even cfg

variable {cfg} {p : Platform} {cronExpr timezone : String} {tr : Trigger} {now t u : ℤ}

theorem frequencyErrors_iff_measured :
    frequencyErrors cfg tr now = [] ↔ Measured cfg tr now := by
  rw [frequencyErrors_eq_nil]
  constructor
  · intro h n hn t u hpair
    exact h _ (Trigger.mem_gaps.mpr ⟨n, hn, t, u, hpair, rfl⟩)
  · intro h g hg
    obtain ⟨n, hn, t, u, hpair, rfl⟩ := Trigger.mem_gaps.mp hg
    exact h n hn t u hpair

theorem Zone.Steady.wall {z : Zone} (h : z.Steady now) (ht : now ≤ t) :
    z.wall t = t + z.utcoffset now := by
  rw [Zone.wall, h t ht]

/-- With at most ten fire times before it, a fire time is measured. -/
theorem Measured.apart (hmeasured : Measured cfg tr now) (hsteady : tr.zone.Steady now)
    (hlo : now ≤ t) (ht : t ∈ tr.minutes) (hu : u ∈ tr.minutes) (htu : t < u)
    (hearly : tr.Early now t) : Apart cfg t u := by
  obtain ⟨before, hfew, hbefore⟩ := hearly
  obtain ⟨n, v, hn, hv, hvu⟩ := Trigger.enumerates.exists_pair hlo ht hu htu
  have hplace := Trigger.enumerates.place_le hn before hbefore
  have happart := hmeasured n (by omega) t v ⟨hn, hv⟩
  have hnow : now ≤ v := (Trigger.enumerates.mem hv).1
  rw [Apart, hsteady.wall hlo, hsteady.wall hnow] at happart
  simp only [Apart]
  linarith

/-! ### Schedules that come round -/

theorem matches_add_mul {f : Fields} {wall P w : ℤ} (hP : 0 < P)
    (hrepeat : ∀ w, wall ≤ w → f.matches (w + P) = f.matches w) (hw : wall ≤ w) (q : ℕ) :
    f.matches (w + q * P) = f.matches w := by
  induction q with
  | zero => simp
  | succ q ih =>
    have hle : wall ≤ w + q * P := hw.trans (le_add_of_nonneg_right (by positivity))
    rw [show w + ((q + 1 : ℕ) : ℤ) * P = w + q * P + P by push_cast; ring, hrepeat _ hle, ih]

/-- What holds in the first round holds in every one. -/
theorem Measured.apart_of_round (hmeasured : Measured cfg tr now) (hsteady : tr.zone.Steady now)
    (hround : tr.fields.ComesRound (tr.zone.wall now)) (hlo : now ≤ t) (ht : t ∈ tr.minutes)
    (hu : u ∈ tr.minutes) (htu : t < u) : Apart cfg t u := by
  obtain ⟨P, hP, hrepeat, readings, hfew, hreadings⟩ := hround
  -- the same place in the first round
  let q := ((t - now) / P).toNat
  have hq : (q : ℤ) = (t - now) / P :=
    Int.toNat_of_nonneg (Int.ediv_nonneg (by linarith) hP.le)
  have hdiv := Int.mul_ediv_add_emod (t - now) P
  have hmod := Int.emod_nonneg (t - now) hP.ne'
  have hmod' := Int.emod_lt_of_pos (t - now) hP
  have hfirst : t - q * P = now + (t - now) % P := by
    rw [hq]
    linarith [mul_comm P ((t - now) / P)]
  have hback : ∀ v, t ≤ v → v ∈ tr.minutes → v - q * P ∈ tr.minutes := by
    intro v hv hmem
    have hlo' : now ≤ v - q * P := by linarith
    show tr.fields.matches (tr.zone.wall (v - q * P)) = true
    rw [hsteady.wall hlo', ← matches_add_mul hP hrepeat
      (by rw [hsteady.wall le_rfl]; linarith) q]
    have hvisit : tr.fields.matches (tr.zone.wall v) = true := hmem
    rwa [hsteady.wall (hlo.trans hv),
      show v + tr.zone.utcoffset now = v - q * P + tr.zone.utcoffset now + q * P by ring] at hvisit
  have hearly : Apart cfg (t - q * P) (u - q * P) := by
    refine hmeasured.apart hsteady (by linarith) (hback t le_rfl ht) (hback u htu.le hu)
      (by linarith) ⟨(readings.erase (tr.zone.wall (t - q * P))).image
        (· - tr.zone.utcoffset now), ?_, ?_⟩
    · have hmem : tr.zone.wall (t - q * P) ∈ readings := by
        refine hreadings _ ?_ ?_ (hback t le_rfl ht)
        · rw [hsteady.wall le_rfl, hsteady.wall (by linarith)]
          linarith
        · rw [hsteady.wall le_rfl, hsteady.wall (by linarith)]
          linarith
      have hcard := Finset.card_erase_of_mem hmem
      exact Finset.card_image_le.trans (by omega)
    · intro v hv hvt hmem
      refine Finset.mem_image.mpr ⟨tr.zone.wall v, Finset.mem_erase.mpr ⟨?_, ?_⟩, ?_⟩
      · rw [hsteady.wall hv, hsteady.wall (by linarith)]
        linarith
      · refine hreadings _ ?_ ?_ hmem
        · rw [hsteady.wall le_rfl, hsteady.wall hv]
          linarith
        · rw [hsteady.wall le_rfl, hsteady.wall hv]
          linarith
      · rw [hsteady.wall hv]
        ring
  simp only [Apart] at hearly ⊢
  linarith

/-! ### Minutes of matching hours -/

/-- The clocks show an hour, counted from 1970-01-01, that matches the fields above the minute. -/
def Fields.matchesHour (f : Fields) (hour : ℤ) : Bool :=
  let date := Date.ofDays (hour / 24)
  f.hour (hour % 24) && f.day date && f.month date.month && f.dayOfWeek (weekday (hour / 24))

/-- They show a minute, counted from 1970-01-01, that matches the fields. -/
def Fields.due (f : Fields) (k : ℤ) : Prop :=
  f.minute (k % 60) = true ∧ f.matchesHour (k / 60) = true

/-- A reading that matches is a whole minute that matches. -/
theorem Fields.matches_iff {f : Fields} {w : ℤ} :
    f.matches w = true ↔ ∃ k, w = k * CronCap.minute ∧ f.due k := by
  have hdays : ∀ k : ℤ, k / 60 / 24 = k / 1440 := fun k => by omega
  constructor
  · intro h
    simp only [Fields.matches, Bool.and_eq_true, decide_eq_true_eq] at h
    obtain ⟨⟨⟨⟨⟨hwhole, hminute⟩, hhour⟩, hday⟩, hmonth⟩, hweek⟩ := h
    refine ⟨w / CronCap.minute, ?_, hminute, ?_⟩
    · exact (Int.ediv_mul_cancel (Int.dvd_of_emod_eq_zero hwhole)).symm
    · simp [Fields.matchesHour, hdays, hhour, hday, hmonth, hweek]
  · rintro ⟨k, rfl, hminute, hhour⟩
    simp only [Fields.matchesHour, hdays, Bool.and_eq_true] at hhour
    obtain ⟨⟨⟨hhour, hday⟩, hmonth⟩, hweek⟩ := hhour
    have hdiv : k * CronCap.minute / CronCap.minute = k := Int.mul_ediv_cancel k (by decide)
    simp [Fields.matches, hdiv, hminute, hhour, hday, hmonth, hweek]

/-- Even minutes are the cap apart whatever the other fields are, and across clock changes. -/
theorem apart_of_even (hwhole : tr.zone.WholeHours now) (heven : tr.fields.Even cfg)
    (hlo : now ≤ t) (ht : t ∈ tr.minutes) (hu : u ∈ tr.minutes) (htu : t < u) :
    Apart cfg t u := by
  obtain ⟨a, ha, hma, -⟩ := Fields.matches_iff.mp ht
  obtain ⟨b, hb, hmb, -⟩ := Fields.matches_iff.mp hu
  obtain ⟨c, hc⟩ := hwhole t u hlo (hlo.trans htu.le)
  simp only [Zone.wall, minute, second] at ha hb hc
  -- the time between them in minutes
  have hlen : u - t = (b - a + 60 * c) * 60000000 := by linarith
  have hpos : 0 < b - a + 60 * c := by omega
  have hmod : (b % 60 - a % 60) % 60 = (b - a + 60 * c) % 60 := by omega
  simp only [Apart, second]
  rcases heven.2 _ _ hma hmb with hzero | hapart
  · have := heven.1
    omega
  · omega

/-- When the clocks of a steady zone show a minute -/
def Zone.moment (z : Zone) (now k : ℤ) : ℤ := k * minute - z.utcoffset now

theorem Zone.moment_lt {z : Zone} {j k : ℤ} : z.moment now j < z.moment now k ↔ j < k := by
  simp only [Zone.moment, minute, second]
  omega

theorem Zone.moment_le {z : Zone} {j k : ℤ} : z.moment now j ≤ z.moment now k ↔ j ≤ k := by
  rw [← not_lt, Zone.moment_lt, not_lt]

/-- In a zone without clock changes, the fire times are the minutes that match. -/
theorem Zone.Steady.mem_minutes (hsteady : tr.zone.Steady now) (hlo : now ≤ t) :
    t ∈ tr.minutes ↔ ∃ k, t = tr.zone.moment now k ∧ tr.fields.due k := by
  show tr.fields.matches (tr.zone.wall t) = true ↔ _
  rw [Fields.matches_iff, hsteady.wall hlo]
  refine exists_congr fun k => and_congr_left' ?_
  rw [Zone.moment, eq_sub_iff_add_eq]

theorem Zone.Steady.moment_mem (hsteady : tr.zone.Steady now) {k : ℤ}
    (hlo : now ≤ tr.zone.moment now k) (hdue : tr.fields.due k) :
    tr.zone.moment now k ∈ tr.minutes :=
  (hsteady.mem_minutes hlo).mpr ⟨k, rfl, hdue⟩

/-- The first minute from a moment on that matches -/
theorem Zone.Steady.exists_first (hsteady : tr.zone.Steady now) {lo a : ℤ} (hnow : now ≤ lo)
    (hlo : lo ≤ tr.zone.moment now a) (hdue : tr.fields.due a) :
    ∃ a₀ ≤ a, lo ≤ tr.zone.moment now a₀ ∧ tr.fields.due a₀ ∧
      ∀ c, lo ≤ tr.zone.moment now c → tr.fields.due c → a₀ ≤ c := by
  have ha := hsteady.moment_mem (hnow.trans hlo) hdue
  obtain ⟨t₀, -, ⟨hlo₀, hmem₀⟩, hleast⟩ := (tr.isNext none lo).exists_isLeast hlo ha
  have hlo₀ : lo ≤ t₀ := hlo₀
  obtain ⟨a₀, rfl, hdue₀⟩ := (hsteady.mem_minutes (hnow.trans hlo₀)).mp hmem₀
  refine ⟨a₀, Zone.moment_le.mp (hleast ⟨hlo, ha⟩), hlo₀, hdue₀, fun c hc hduec => ?_⟩
  exact Zone.moment_le.mp (hleast ⟨hc, hsteady.moment_mem (hnow.trans hc) hduec⟩)

/-- A minute of the hour matches first in some hour: until then, minutes match in this hour, below
it, and in at most one earlier hour, above it. -/
theorem Zone.Steady.exists_first_hour (hsteady : tr.zone.Steady now) {a : ℤ}
    (hlo : now ≤ tr.zone.moment now a) (hdue : tr.fields.due a) :
    ∃ k₀ k₁, tr.fields.matchesHour k₁ = true ∧ now ≤ tr.zone.moment now (60 * k₁ + a % 60) ∧
      ∀ c < 60 * k₁ + a % 60, now ≤ tr.zone.moment now c → tr.fields.due c →
        c / 60 = k₀ ∧ a % 60 < c % 60 ∨ c / 60 = k₁ ∧ c % 60 < a % 60 := by
  obtain ⟨a₀, hle₀, hlo₀, hdue₀, hfirst⟩ := hsteady.exists_first le_rfl hlo hdue
  by_cases hcase : a₀ % 60 ≤ a % 60
  · -- the hour of the first fire time
    refine ⟨a₀ / 60, a₀ / 60, hdue₀.2, hlo₀.trans (Zone.moment_le.mpr (by omega)), ?_⟩
    intro c hc hclo hcdue
    have := hfirst c hclo hcdue
    omega
  · -- the hour of the first fire time from the next hour on
    have hnow : now ≤ tr.zone.moment now (60 * (a₀ / 60 + 1)) :=
      hlo₀.trans (Zone.moment_le.mpr (by omega))
    obtain ⟨a₁, hle₁, hlo₁, hdue₁, hnext⟩ :=
      hsteady.exists_first hnow (Zone.moment_le.mpr (by omega)) hdue
    have hlater := Zone.moment_le.mp hlo₁
    refine ⟨a₀ / 60, a₁ / 60, hdue₁.2, hnow.trans (Zone.moment_le.mpr (by omega)), ?_⟩
    intro c hc hclo hcdue
    have := hfirst c hclo hcdue
    by_cases hhour : c < 60 * (a₀ / 60 + 1)
    · omega
    · have := hnext c (Zone.moment_le.mpr (by omega)) hcdue
      omega

/-- With at most eleven minutes, two minutes of an hour are measured where the first of them
matches first. -/
theorem Measured.apart_of_fewMinutes (hmeasured : Measured cfg tr now)
    (hsteady : tr.zone.Steady now) (hfew : tr.fields.FewMinutes cfg)
    (hlo : now ≤ t) (ht : t ∈ tr.minutes) (hu : u ∈ tr.minutes) (htu : t < u) :
    Apart cfg t u := by
  obtain ⟨⟨values, hcard, hvalues⟩, hacross⟩ := hfew
  obtain ⟨a, rfl, hduea⟩ := (hsteady.mem_minutes hlo).mp ht
  obtain ⟨b, rfl, hdueb⟩ := (hsteady.mem_minutes (hlo.trans htu.le)).mp hu
  have hab := Zone.moment_lt.mp htu
  by_cases hsame : b / 60 = a / 60
  · obtain ⟨k₀, k₁, hhour, hlo₁, hbefore⟩ := hsteady.exists_first_hour hlo hduea
    have hlt : tr.zone.moment now (60 * k₁ + a % 60) < tr.zone.moment now (60 * k₁ + b % 60) :=
      Zone.moment_lt.mpr (by omega)
    have hmem : ∀ m, 0 ≤ m → m < 60 → tr.fields.minute m = true →
        now ≤ tr.zone.moment now (60 * k₁ + m) → tr.zone.moment now (60 * k₁ + m) ∈ tr.minutes := by
      intro m hm hm' hminute hlo
      refine hsteady.moment_mem hlo ⟨?_, ?_⟩
      · rwa [show (60 * k₁ + m) % 60 = m by omega]
      · rwa [show (60 * k₁ + m) / 60 = k₁ by omega]
    have hearly : Apart cfg (tr.zone.moment now (60 * k₁ + a % 60))
        (tr.zone.moment now (60 * k₁ + b % 60)) := by
      refine hmeasured.apart hsteady hlo₁ (hmem _ (by omega) (by omega) hduea.1 hlo₁)
        (hmem _ (by omega) (by omega) hdueb.1 (hlo₁.trans hlt.le)) hlt
        ⟨(values.erase (a % 60)).image fun r =>
          tr.zone.moment now (60 * (if a % 60 < r then k₀ else k₁) + r), ?_, ?_⟩
      · have hcard' := Finset.card_erase_of_mem (hvalues (a % 60) (by omega) (by omega) hduea.1)
        exact Finset.card_image_le.trans (by omega)
      · intro v hv hvt hvm
        obtain ⟨c, rfl, hduec⟩ := (hsteady.mem_minutes hv).mp hvm
        have hplace := hbefore c (Zone.moment_lt.mp hvt) hv hduec
        refine Finset.mem_image.mpr ⟨c % 60, Finset.mem_erase.mpr ⟨by omega,
          hvalues (c % 60) (by omega) (by omega) hduec.1⟩, ?_⟩
        congr 1
        split <;> omega
    simp only [Apart, Zone.moment, minute, second] at hearly ⊢
    omega
  · have hgap := hacross (a % 60) (b % 60) (by omega) (by omega) (by omega) hduea.1 hdueb.1
    simp only [Apart, Zone.moment, minute, second]
    omega
/-- Where the check is enough, a schedule that passes it keeps the cap without end. -/
theorem Measured.apart_of_covered (hmeasured : Measured cfg tr now) (hcovered : Covered cfg tr now)
    (hpair : Neighbours tr.minutes now t u) : Apart cfg t u := by
  obtain ⟨hlo, ht, ⟨htu, hu⟩, -⟩ := hpair
  have htu : t < u := htu
  rcases hcovered with ⟨hsteady, hround | hfew⟩ | ⟨hwhole, heven⟩
  · exact hmeasured.apart_of_round hsteady hround hlo ht hu htu
  · exact hmeasured.apart_of_fewMinutes hsteady hfew hlo ht hu htu
  · exact apart_of_even hwhole heven hlo ht hu htu

/-! ## Schedules of every hour -/

/-- The first of the next `n` whole minutes that matches -/
def search (f : Fields) : ℕ → ℤ → Option ℤ
  | 0, _ => none
  | n + 1, k => if f.matches (k * minute) then some (k * minute) else search f n (k + 1)

/-- Only whole minutes match. -/
theorem not_matches_between {f : Fields} {k w : ℤ} (hlo : k * minute < w)
    (hhi : w < (k + 1) * minute) : f.matches w = false := by
  have rest : w % minute ≠ 0 := by
    simp only [minute, second] at hlo hhi ⊢
    omega
  simp [Fields.matches, rest]

/-- A search that reaches a match finds the first one. -/
theorem search_isNext {f : Fields} {n j : ℕ} {k : ℤ} (hj : j < n)
    (hmatch : f.matches ((k + j) * minute) = true) :
    IsNext {t | f.matches t = true} (k * minute) (search f n k) := by
  induction n generalizing k j with
  | zero => exact absurd hj (Nat.not_lt_zero j)
  | succ n ih =>
    by_cases here : f.matches (k * minute) = true
    · rw [search, if_pos here]
      exact ⟨⟨le_rfl, here⟩, fun v hv => hv.1⟩
    · rw [search, if_neg here]
      cases j with
      | zero => exact absurd (by simpa using hmatch) here
      | succ j =>
        have rest := ih (Nat.lt_of_succ_lt_succ hj)
          (by rwa [show k + 1 + (j : ℤ) = k + (j + 1 : ℕ) by push_cast; ring])
        refine rest.lower (by simp only [minute, second]; linarith) fun v hv hv' hmem => ?_
        cases lt_or_eq_of_le hv with
        | inl inside => simp [not_matches_between inside hv'] at hmem
        | inr start => exact here (start ▸ hmem)

/-- The fields `… * * * *` -/
def hourly (ofHour : ℤ → Bool) : Fields where
  minute := ofHour
  hour _ := true
  day _ := true
  month _ := true
  dayOfWeek _ := true

theorem hourly_matches {ofHour : ℤ → Bool} {w : ℤ} :
    (hourly ofHour).matches w = true ↔ ∃ k, w = k * minute ∧ ofHour (k % 60) = true := by
  simp [Fields.matches_iff, Fields.due, Fields.matchesHour, hourly]

/-- Such a schedule does not depend on the hour that the clocks show. -/
theorem hourly_wall {ofHour : ℤ → Bool} {z : Zone} {t c : ℤ}
    (hzone : z.utcoffset t = c * (60 * minute)) :
    (hourly ofHour).matches (z.wall t) = (hourly ofHour).matches t := by
  rw [Bool.eq_iff_iff, hourly_matches, hourly_matches, Zone.wall, hzone]
  constructor
  · rintro ⟨k, hk, hmatch⟩
    refine ⟨k - 60 * c, by linarith, ?_⟩
    rwa [show (k - 60 * c) % 60 = k % 60 by omega]
  · rintro ⟨k, hk, hmatch⟩
    refine ⟨k + 60 * c, by linarith, ?_⟩
    rwa [show (k + 60 * c) % 60 = k % 60 by omega]

/-- Its trigger in a zone of whole hours, which looks through one hour -/
def hourlyTrigger (ofHour : ℤ → Bool) (m : ℕ) (hm : m < 60) (hmatch : ofHour m = true) (z : Zone)
    (hzone : ∀ t, ∃ c, z.utcoffset t = c * (60 * minute)) : Trigger where
  fields := hourly ofHour
  zone := z
  getNextFireTime prev now := search (hourly ofHour) 60 (-(-startDate prev now / minute))
  isNext prev now := by
    have hwall : ∀ t, (hourly ofHour).matches (z.wall t) = (hourly ofHour).matches t := fun t =>
      (hzone t).elim fun c hc => hourly_wall hc
    simp only [hwall]
    generalize startDate prev now = start
    have hup : start ≤ -(-start / minute) * minute := by
      simp only [minute, second]
      omega
    have hdown : (-(-start / minute) - 1) * minute < start := by
      simp only [minute, second]
      omega
    generalize -(-start / minute) = k at hup hdown ⊢
    have hreach : (hourly ofHour).matches ((k + ((m - k) % 60).toNat) * minute) = true := by
      refine hourly_matches.mpr ⟨_, rfl, ?_⟩
      rwa [show (k + ((m - k) % 60).toNat) % 60 = (m : ℤ) by omega]
    have found := search_isNext (n := 60) (by omega) hreach
    refine found.lower hup fun v hv hv' hmem => ?_
    have between := not_matches_between (f := hourly ofHour) (lt_of_lt_of_le hdown hv)
      (by rwa [sub_add_cancel])
    simp [between] at hmem

/-- A platform that knows one zone and one schedule -/
def Platform.of (tr : Trigger) (zone minutes : String) : Platform where
  zoneInfo name := if name = zone then some tr.zone else none
  cronTrigger parts _ :=
    if parts = [minutes.toList, ['*'], ['*'], ['*'], ['*']] then .ok tr
    else .error "Unrecognized expression"

/-- Clocks that are set forward by an hour once -/
def springZone : Zone := ⟨fun t => if t < 100 * minute then -5 * (60 * minute) else -4 * (60 * minute)⟩

theorem springZone_hours (t : ℤ) : ∃ c, springZone.utcoffset t = c * (60 * minute) := by
  by_cases ht : t < 100 * minute
  · exact ⟨-5, if_pos ht⟩
  · exact ⟨-4, if_neg ht⟩

/-- `0,30 * * * *` -/
def halfHours : Trigger :=
  hourlyTrigger (fun m => m % 30 = 0) 0 (by decide) (by decide) springZone springZone_hours

/-! ## The law -/

theorem measured_iff : Measured cfg tr now ↔ ¬BunchesEarly cfg tr now := by
  constructor
  · rintro hmeasured ⟨t, u, hpair, ⟨before, hfew, hbefore⟩, hnot⟩
    obtain ⟨n, ht, hu⟩ := Trigger.neighbours_iff.mp hpair
    have hplace := Trigger.enumerates.place_le ht before hbefore
    exact hnot (hmeasured n (by omega) t u ⟨ht, hu⟩)
  · intro hnot n hn t u hpair
    by_contra happart
    obtain ⟨before, hfew, hbefore⟩ := Trigger.enumerates.exists_before hpair.1
    exact hnot ⟨t, u, Trigger.neighbours_iff.mpr ⟨n, hpair⟩, ⟨before, by omega, hbefore⟩, happart⟩

theorem bunches_iff :
    (∀ t u, Neighbours tr.minutes now t u → Apart cfg t u) ↔ ¬Bunches cfg tr now := by
  simp only [Bunches]
  push Not
  rfl

/-- The cap holds for every schedule that the check is enough for: one that comes round with
eleven fire times or has at most eleven minutes, where the clocks do not change, and one with even
minutes, where they change by whole hours. It holds exactly when a schedule that ever bunches does
so among its first twelve fire times. -/
theorem keepsCap_iff :
    ((∀ tr, p.schedule cronExpr timezone = some tr → Covered cfg tr now) →
      KeepsCap cfg p cronExpr timezone now) ∧
    (KeepsCap cfg p cronExpr timezone now ↔
      ∀ tr, p.schedule cronExpr timezone = some tr →
        Bunches cfg tr now → BunchesEarly cfg tr now) := by
  have law : KeepsCap cfg p cronExpr timezone now ↔
      ∀ tr, p.schedule cronExpr timezone = some tr → Measured cfg tr now →
        ∀ t u, Neighbours tr.minutes now t u → Apart cfg t u := by
    rw [KeepsCap, validateCronSchedule_eq_nil]
    constructor
    · intro keeps tr htr hmeasured
      exact keeps ⟨tr, htr, frequencyErrors_iff_measured.mpr hmeasured⟩ tr htr
    · rintro apart ⟨tr, htr, hnil⟩ tr' htr'
      obtain rfl : tr = tr' := Option.some.inj (htr.symm.trans htr')
      exact apart tr htr (frequencyErrors_iff_measured.mp hnil)
  refine ⟨fun covered => law.mpr ?_, law.trans ?_⟩
  · intro tr htr hmeasured t u hpair
    exact hmeasured.apart_of_covered (covered tr htr) hpair
  · refine forall₂_congr fun tr _ => ?_
    rw [measured_iff, bunches_iff, not_imp_not]

theorem halfHours_keepsCap :
    KeepsCap {} (Platform.of halfHours "America/New_York" "0,30") "0,30 * * * *"
      "America/New_York" 0 := by
  refine keepsCap_iff.1 fun tr htr => Or.inr ?_
  obtain rfl : halfHours = tr := Option.some.inj (htr ▸ by rfl)
  refine ⟨fun t u _ _ => ?_, by decide, fun m m' hm hm' => ?_⟩
  · obtain ⟨c, hc⟩ := springZone_hours t
    obtain ⟨d, hd⟩ := springZone_hours u
    exact ⟨c - d, by rw [show halfHours.zone = springZone from rfl, hc, hd]; ring⟩
  · simp only [halfHours, hourlyTrigger, hourly, decide_eq_true_eq] at hm hm'
    simp only
    omega

/-- UTC, whose clocks never change -/
def utc : Zone := ⟨fun _ => 0⟩

/-- `0,5,10,15,20,25,30,35,40,45,50,55,56 * * * *` -/
def crowded : Trigger :=
  hourlyTrigger (fun m => m % 5 = 0 ∨ m = 56) 0 (by decide) (by decide) utc fun _ => ⟨0, rfl⟩

/-- Half a minute past 00:56, the next twelve fire times are five minutes apart, and the
thirteenth follows after one. -/
theorem crowded_accepted :
    ¬KeepsCap {} (Platform.of crowded "UTC" "0,5,10,15,20,25,30,35,40,45,50,55,56")
      "0,5,10,15,20,25,30,35,40,45,50,55,56 * * * *" "UTC" (56 * minute + 30 * second) := by
  intro h
  have start : crowded.fields.matches (115 * minute + 0) = true := by decide
  have found : crowded.after (115 * minute) = some (116 * minute) := by decide
  have next := crowded.isNext (some (115 * minute)) (115 * minute + 1)
  rw [show crowded.getNextFireTime _ _ = _ from found] at next
  have apart := h (by decide) crowded (by rfl) (115 * minute) (116 * minute)
    ⟨by decide, start, next⟩
  simp [Apart, minute, second] at apart

end CitraFlows.CronCap
