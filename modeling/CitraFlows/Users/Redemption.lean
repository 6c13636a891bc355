-- SUMMARY: A coupon is redeemed once by a user and within its limit as long as requests keep apart and nothing fails after a grant.
import CitraFlows.Users.Coupons

/-!
# Redeeming a coupon

The credits are added before the usage is recorded and counted, so what a request has read may be
out of date when it makes its grant. `CouponRun.Settled` is about the overlaps of requests: none
looks for a usage while another one of the user is between its look and its record, none reads a
coupon while others are between their reads and their counts unless the limit has room for all of
them, and no command fails between a grant and its count. The checks of the handler do the rest.
-/

namespace CitraFlows

open Processes

/-! ## Where a request stands -/

namespace Redemption

/-- The user and the code of a grant that has been made and is not recorded. -/
def unrecorded (p : Redemption) : Option (String × String) :=
  match p.stage with
  | .createTransaction user .. | .recordUsage user .. => some (user.id, p.couponCode)
  | _ => none

/-- The code of a usage that is recorded and not counted. -/
def uncounted (p : Redemption) : Option String :=
  match p.stage with
  | .incrementUsage .. => some p.couponCode
  | _ => none

/-- The user and the code of a request that has found no usage and has not made its grant. -/
def cleared (p : Redemption) : Option (String × String) :=
  match p.stage with
  | .findUsage user _ | .initializeNewUser user _ | .addCredits user _ _ =>
      some (user.id, p.couponCode)
  | _ => none

/-- The code of a request that has read the coupon and has not made its grant. -/
def deciding (p : Redemption) : Option String :=
  match p.stage with
  | .checkUsed .. | .findUsage .. | .initializeNewUser .. | .addCredits .. => some p.couponCode
  | _ => none

/-- The coupon that the request has read. -/
def coupon? (p : Redemption) : Option Coupon :=
  match p.stage with
  | .checkUsed _ coupon | .findUsage _ coupon | .initializeNewUser _ coupon | .addCredits _ coupon _
  | .createTransaction _ coupon _ _ | .recordUsage _ coupon _ | .incrementUsage _ coupon _ =>
      some coupon
  | _ => none

/-- The user and the coupon of the grant that the next command makes, if it runs. -/
def granting (s : CouponStore) (p : Redemption) : Option (String × Coupon) :=
  match p.stage with
  | .initializeNewUser user coupon =>
      if (s.creditBalance p.email).isSome then none else some (user.id, coupon)
  | .addCredits user coupon _ =>
      if (s.creditBalance p.email).isSome then some (user.id, coupon) else none
  | _ => none

/-- Between its grant and its count. -/
def underWay (p : Redemption) : Bool := p.unrecorded.isSome || p.uncounted.isSome

/-- Between its look for a usage and its record. -/
def redeeming (x : String × String) (p : Redemption) : Bool :=
  p.cleared.any (· = x) || p.unrecorded.any (· = x)

/-- Between its read of the coupon and its count. -/
def inFlight (code : String) (p : Redemption) : Bool :=
  p.deciding.any (· = code) || (p.unrecorded.any (fun x => x.2 = code) ||
    p.uncounted.any (· = code))

end Redemption

/-- The limit of a coupon. -/
def CouponStore.limit (s : CouponStore) (code : String) : Option (Option Nat) :=
  (s.coupons code).map Coupon.maxUses

namespace CouponRun

/-- What the request reads next is not about to change: when it reads a coupon with a limit, no
other request of the coupon is in flight, or there is room for them all; when it looks for a usage,
no other request of the user is on its way to record one. -/
def Apart (c : CouponRun) (p : Redemption) : Bool :=
  match p.stage with
  | .findCoupon _ =>
      (c.shared.findValidCoupon p.couponCode).all fun coupon => coupon.maxUses.all fun limit =>
        c.count (Redemption.inFlight p.couponCode) = 0 ||
          coupon.currentUses + c.count (Redemption.inFlight p.couponCode) < limit
  | .checkUsed user _ => c.count (Redemption.redeeming (user.id, p.couponCode)) = 0
  | _ => true

/-- The requests keep apart, and nothing fails between a grant and its count: a grant that runs is
reported, the commands after it are done, and the request is not lost. -/
def Settled (c : CouponRun) : CouponMove → Prop
  | .step i w => ∀ p ∈ c.proc i,
      Apart c p = true ∧ (p.underWay = true → w = .done) ∧
        (p.granting c.shared ≠ none → w.ran = true → w = .done)
  | .crash i => ∀ p ∈ c.proc i, p.underWay = false
  | _ => True

instance (c : CouponRun) (m : CouponMove) : Decidable (Settled c m) :=
  match m with
  | .step i _ => inferInstanceAs (Decidable (∀ p ∈ c.proc i, _))
  | .crash i => inferInstanceAs (Decidable (∀ p ∈ c.proc i, _))
  | .spawn _ | .env _ => .isTrue trivial

/-- A user is granted the credits of a coupon at most once, a coupon is granted at most as often
as its limit says, and the count agrees with the recorded usages whenever no request stands
between recording and counting. -/
structure Redeemed (c : CouponRun) : Prop where
  onePerUser : ∀ userId code, c.shared.granted.count (userId, code) ≤ 1
  withinLimit : ∀ code coupon limit, c.shared.coupons code = some coupon →
    coupon.maxUses = some limit → c.shared.granted.countP (fun x => x.2 = code) ≤ limit
  counted : ∀ code, (∀ i p, c.proc i = some p → p.uncounted ≠ some code) →
    c.shared.currentUses code = c.shared.userCoupons.countP fun u => u.couponCode = code

end CouponRun

/-! ## What a command does -/

/-- The collections that the law is about have not changed. -/
structure CouponStore.SameUses (s s' : CouponStore) : Prop where
  granted : s'.granted = s.granted
  userCoupons : s'.userCoupons = s.userCoupons
  coupons : s'.coupons = s.coupons

/-- What one command of a request does to the grants, the usages and the counts. -/
inductive RedemptionStep (w : Write) (s : CouponStore) (p : Redemption) :
    CouponStore → Redemption → Prop
  | idles {s' : CouponStore} {p' : Redemption} (hsame : s.SameUses s')
      (hp : p.underWay = false) (hp' : p'.underWay = false) : RedemptionStep w s p s' p'
  | grants {s' : CouponStore} {p' : Redemption} {userId : String} {coupon : Coupon}
      (hgrant : p.granting s = some (userId, coupon)) (hcoupon : p.coupon? = some coupon)
      (hran : w.ran = true)
      (hp : p.underWay = false) (hcleared : p.cleared = some (userId, p.couponCode))
      (hdeciding : p.deciding = some p.couponCode)
      (hgranted : s'.granted = (userId, p.couponCode) :: s.granted)
      (husages : s'.userCoupons = s.userCoupons) (hcoupons : s'.coupons = s.coupons)
      (hcleared' : p'.cleared = none) (hdeciding' : p'.deciding = none)
      (hp' : w = .done → p'.unrecorded = some (userId, p.couponCode) ∧ p'.uncounted = none) :
      RedemptionStep w s p s' p'
  | carries {s' : CouponStore} {p' : Redemption} (hsame : s.SameUses s')
      (hun : p'.unrecorded = p.unrecorded) (hun' : p'.uncounted = p.uncounted) :
      RedemptionStep w s p s' p'
  | records {s' : CouponStore} {p' : Redemption} {u : UserCoupon}
      (hp : p.unrecorded = some (u.userId, u.couponCode)) (hp' : p.uncounted = none)
      (hnew : s.hasUserUsedCoupon u.userId u.couponCode = false)
      (hgranted : s'.granted = s.granted) (husages : s'.userCoupons = u :: s.userCoupons)
      (hcoupons : s'.coupons = s.coupons)
      (hnext : p'.unrecorded = none) (hnext' : p'.uncounted = some u.couponCode) :
      RedemptionStep w s p s' p'
  | repeats {s' : CouponStore} {p' : Redemption} {userId code : String}
      (hp : p.unrecorded = some (userId, code)) (hold : s.hasUserUsedCoupon userId code = true) :
      RedemptionStep w s p s' p'
  | counts {p' : Redemption} {coupon : Coupon} (hp : p.unrecorded = none)
      (hp' : p.uncounted = some p.couponCode) (hcoupon : p.coupon? = some coupon)
      (hnext : p'.underWay = false) :
      RedemptionStep w s p (s.incrementUsage p.couponCode coupon.maxUses) p'
  | fails {s' : CouponStore} {p' : Redemption} (hp : p.underWay = true) (hw : w ≠ .done) :
      RedemptionStep w s p s' p'

theorem RedemptionStep.of_eq {w : Write} {s s' : CouponStore} {p p' : Redemption}
    {r : CouponStore × Redemption} (h : some r = some (s', p'))
    (hr : RedemptionStep w s p r.1 r.2) : RedemptionStep w s p s' p' := by
  cases h
  exact hr

namespace Redemption

variable {w : Write} {s s' : CouponStore} {p p' : Redemption}

theorem underWay_eq_false :
    p.underWay = false ↔ p.unrecorded = none ∧ p.uncounted = none := by
  simp [underWay]

/-- A read leads to a stage that is not under way. -/
theorem read_idles {stage : RedemptionStage} (hp : p.underWay = false)
    (hstage : (p.become stage).underWay = false) :
    RedemptionStep w s p (p.read w s stage).1 (p.read w s stage).2 := by
  refine .idles ⟨rfl, rfl, rfl⟩ hp ?_
  cases w with
  | done => exact hstage
  | failed ran => rfl

theorem afterCoupon_idle {user : CouponUser} {o : Option Coupon} :
    (p.become (afterCoupon user o)).underWay = false := by
  cases o with
  | none => rfl
  | some c =>
      simp only [afterCoupon]
      split <;> rfl

/-- A grant that has run: it is reported, or the request has failed. -/
theorem write_grants {s₁ : CouponStore} {userId : String} {coupon : Coupon}
    {stage : RedemptionStage} (hgrant : p.granting s = some (userId, coupon))
    (hcoupon : p.coupon? = some coupon) (hp : p.underWay = false)
    (hcleared : p.cleared = some (userId, p.couponCode))
    (hdeciding : p.deciding = some p.couponCode)
    (husages : s₁.userCoupons = s.userCoupons) (hcoupons : s₁.coupons = s.coupons)
    (hgranted : s₁.granted = s.granted)
    (hstage : (p.become stage).unrecorded = some (userId, p.couponCode))
    (hstage' : (p.become stage).uncounted = none) (hnext : (p.become stage).cleared = none)
    (hnext' : (p.become stage).deciding = none) :
    RedemptionStep w s p (p.write w s (some (s₁.grant userId p.couponCode)) stage).1
      (p.write w s (some (s₁.grant userId p.couponCode)) stage).2 := by
  have hwritten : (s₁.grant userId p.couponCode).granted = (userId, p.couponCode) :: s.granted := by
    simp [CouponStore.grant, hgranted]
  cases w with
  | done =>
      exact .grants hgrant hcoupon rfl hp hcleared hdeciding hwritten husages hcoupons hnext hnext'
        fun _ => ⟨hstage, hstage'⟩
  | failed ran =>
      cases ran with
      | true =>
          exact .grants hgrant hcoupon rfl hp hcleared hdeciding hwritten husages hcoupons rfl rfl
            fun hw => by cases hw
      | false => exact .idles ⟨rfl, rfl, rfl⟩ hp rfl

/-- A write of a request that is under way: it is done, or it has failed. -/
theorem write_underWay {after : Option CouponStore} {stage : RedemptionStage}
    (hp : p.underWay = true)
    (hdone : w = .done → RedemptionStep w s p (p.write .done s after stage).1
      (p.write .done s after stage).2) :
    RedemptionStep w s p (p.write w s after stage).1 (p.write w s after stage).2 := by
  cases w with
  | done => exact hdone rfl
  | failed ran => exact .fails hp (by simp)

theorem next_sound (h : p.next w s = some (s', p')) : RedemptionStep w s p s' p' := by
  unfold next at h
  split at h
  next hstage =>
    cases h
    refine read_idles (by simp [underWay, unrecorded, uncounted, hstage]) ?_
    split <;> rfl
  next user hstage =>
    cases h
    exact read_idles (by simp [underWay, unrecorded, uncounted, hstage]) afterCoupon_idle
  next hstage =>
    cases h
    exact read_idles (by simp [underWay, unrecorded, uncounted, hstage]) rfl
  next user coupon hstage =>
    cases h
    refine read_idles (by simp [underWay, unrecorded, uncounted, hstage]) ?_
    split <;> rfl
  next user coupon hstage =>
    cases h
    refine read_idles (by simp [underWay, unrecorded, uncounted, hstage]) ?_
    split <;> rfl
  next user coupon hstage =>
    have hp : p.underWay = false := by simp [underWay, unrecorded, uncounted, hstage]
    refine .of_eq h ?_
    by_cases hrow : (s.creditBalance p.email).isSome = true
    · simp only [CouponStore.initializeNewUser, hrow, if_true, Option.map_none, write]
      exact .idles ⟨rfl, rfl, rfl⟩ hp rfl
    · simp only [CouponStore.initializeNewUser, hrow, if_false, Option.map_some, Bool.false_eq_true]
      have hcoupon : p.coupon? = some coupon := by simp [coupon?, hstage]
      exact write_grants (by simp [granting, hstage, hrow]) hcoupon hp (by simp [cleared, hstage])
        (by simp [deciding, hstage]) rfl rfl rfl rfl rfl rfl rfl
  next user coupon balance hstage =>
    have hp : p.underWay = false := by simp [underWay, unrecorded, uncounted, hstage]
    split at h
    next s₁ hadd =>
      obtain ⟨old, hold, rfl⟩ := Option.map_eq_some_iff.mp hadd
      cases h
      have hcoupon : p.coupon? = some coupon := by simp [coupon?, hstage]
      exact write_grants (by simp [granting, hstage, hold]) hcoupon hp (by simp [cleared, hstage])
        (by simp [deciding, hstage]) rfl rfl rfl rfl rfl rfl rfl
    next =>
      cases h
      exact .idles ⟨rfl, rfl, rfl⟩ hp rfl
  next user coupon balanceBefore newBalance hstage =>
    have hp : p.underWay = true := by simp [underWay, unrecorded, hstage]
    refine .of_eq h (write_underWay hp fun _ => ?_)
    exact .carries ⟨rfl, rfl, rfl⟩ (by simp [write, Write.ok, become, unrecorded, hstage])
      (by simp [write, Write.ok, become, uncounted, hstage])
  next user coupon newBalance hstage =>
    have hp : p.unrecorded = some (user.id, p.couponCode) := by simp [unrecorded, hstage]
    have hway : p.underWay = true := by simp [underWay, hp]
    refine .of_eq h (write_underWay hway fun _ => ?_)
    by_cases hold : s.hasUserUsedCoupon user.id p.couponCode = true
    · exact .repeats hp hold
    · simp only [CouponStore.recordUsage, hold, if_false, Bool.false_eq_true]
      exact .records (u := ⟨user.id, p.email, p.couponCode⟩) hp (by simp [uncounted, hstage])
        (by simpa using hold) rfl rfl rfl rfl rfl
  next user coupon newBalance hstage =>
    have hp : p.uncounted = some p.couponCode := by simp [uncounted, hstage]
    have hway : p.underWay = true := by simp [underWay, hp]
    refine .of_eq h (write_underWay hway fun _ => ?_)
    refine .counts (by simp [unrecorded, hstage]) hp (by simp [coupon?, hstage]) ?_
    simp only [write, Write.ok, if_true]
    split <;> rfl
  next coupon newBalance hstage =>
    cases h
    have hp : p.underWay = false := by simp [underWay, unrecorded, uncounted, hstage]
    refine .idles ?_ hp ?_
    · cases w with
      | done => exact ⟨rfl, rfl, rfl⟩
      | failed ran => cases ran <;> exact ⟨rfl, rfl, rfl⟩
    · cases w <;> rfl
  next => cases h

/-- What a command leaves: the code of the request, the limits of the coupons, and the coupon
that the request has read, unless it reads it now. -/
structure Keeps (s s' : CouponStore) (p p' : Redemption) : Prop where
  couponCode : p'.couponCode = p.couponCode
  limit : ∀ code, s'.limit code = s.limit code
  coupon : ∀ c, p'.coupon? = some c → p.coupon? = some c ∨ s.coupons p.couponCode = some c

theorem Keeps.of_eq {r : CouponStore × Redemption} (h : some r = some (s', p'))
    (hr : Keeps s r.1 p r.2) : Keeps s s' p p' := by
  cases h
  exact hr

theorem read_keeps {stage : RedemptionStage} (hstage : ∀ c, (p.become stage).coupon? = some c →
      p.coupon? = some c ∨ s.coupons p.couponCode = some c) :
    Keeps s (p.read w s stage).1 p (p.read w s stage).2 := by
  refine ⟨rfl, fun _ => rfl, fun c hc => ?_⟩
  cases w with
  | done => exact hstage c hc
  | failed ran => cases hc

theorem write_keeps {after : Option CouponStore} {stage : RedemptionStage}
    (hafter : ∀ s₁, after = some s₁ → ∀ code, s₁.limit code = s.limit code)
    (hstage : ∀ c, (p.become stage).coupon? = some c → p.coupon? = some c) :
    Keeps s (p.write w s after stage).1 p (p.write w s after stage).2 := by
  cases after with
  | none => exact ⟨rfl, fun _ => rfl, fun c hc => by cases hc⟩
  | some s₁ =>
      refine ⟨rfl, fun code => ?_, fun c hc => ?_⟩
      · simp only [write]
        split
        · exact hafter s₁ rfl code
        · rfl
      · cases w with
        | done => exact Or.inl (hstage c hc)
        | failed ran => cases hc

theorem limit_incrementUsage {code code' : String} {maxUses : Option Nat} :
    (s.incrementUsage code maxUses).limit code' = s.limit code' := by
  unfold CouponStore.incrementUsage
  split
  next c hc =>
    split
    · by_cases hcode : code' = code
      · subst hcode
        simp [CouponStore.limit, hc]
      · simp [CouponStore.limit, hcode]
    · rfl
  next => rfl

theorem next_keeps (h : p.next w s = some (s', p')) : Keeps s s' p p' := by
  unfold next at h
  split at h
  next hstage =>
    refine .of_eq h (read_keeps fun c hc => ?_)
    split at hc <;> cases hc
  next user hstage =>
    refine .of_eq h (read_keeps fun c hc => Or.inr ?_)
    unfold CouponStore.findValidCoupon at hc
    cases hfound : (s.coupons p.couponCode).filter (·.isValid s.now) with
    | none =>
        rw [hfound] at hc
        cases hc
    | some found =>
        rw [hfound] at hc
        simp only [afterCoupon] at hc
        split at hc
        · cases hc
        · cases hc
          exact (Option.filter_eq_some_iff.mp hfound).1
  next hstage => exact .of_eq h (read_keeps fun c hc => by cases hc)
  next user coupon hstage =>
    refine .of_eq h (read_keeps fun c hc => Or.inl ?_)
    split at hc
    · cases hc
    · simpa [coupon?, become, hstage] using hc
  next user coupon hstage =>
    refine .of_eq h (read_keeps fun c hc => Or.inl ?_)
    split at hc <;> simpa [coupon?, become, hstage] using hc
  next user coupon hstage =>
    refine .of_eq h (write_keeps ?_ fun c hc => by simpa [coupon?, become, hstage] using hc)
    intro s₁ hs₁ code
    obtain ⟨s₂, hs₂, rfl⟩ := Option.map_eq_some_iff.mp hs₁
    unfold CouponStore.initializeNewUser at hs₂
    split at hs₂
    · cases hs₂
    · cases hs₂
      rfl
  next user coupon balance hstage =>
    split at h
    next s₁ hadd =>
      obtain ⟨old, hold, rfl⟩ := Option.map_eq_some_iff.mp hadd
      refine .of_eq h (write_keeps ?_ fun c hc => by simpa [coupon?, become, hstage] using hc)
      intro s₁ hs₁ code
      cases hs₁
      rfl
    next =>
      exact .of_eq h ⟨rfl, fun _ => rfl, fun c hc => by cases hc⟩
  next user coupon balanceBefore newBalance hstage =>
    refine .of_eq h (write_keeps ?_ fun c hc => by simpa [coupon?, become, hstage] using hc)
    intro s₁ hs₁ code
    cases hs₁
    rfl
  next user coupon newBalance hstage =>
    refine .of_eq h (write_keeps ?_ fun c hc => by simpa [coupon?, become, hstage] using hc)
    intro s₁ hs₁ code
    unfold CouponStore.recordUsage at hs₁
    split at hs₁
    · cases hs₁
    · cases hs₁
      rfl
  next user coupon newBalance hstage =>
    refine .of_eq h (write_keeps ?_ fun c hc => ?_)
    · intro s₁ hs₁ code
      cases hs₁
      exact limit_incrementUsage
    · split at hc <;> cases hc
  next coupon newBalance hstage =>
    refine .of_eq h (write_keeps ?_ fun c hc => by cases hc)
    intro s₁ hs₁ code
    cases hs₁
    rfl
  next => cases h

/-- How a request comes to make a grant: it has read a coupon that is valid, and it has found no
usage. -/
structure Looks (s s' : CouponStore) (p p' : Redemption) : Prop where
  deciding : ∀ code, p'.deciding = some code → p.deciding = some code ∨
    s' = s ∧ code = p.couponCode ∧ ∃ user coupon, p.stage = .findCoupon user ∧
      s.findValidCoupon p.couponCode = some coupon
  cleared : ∀ x, p'.cleared = some x → p.cleared = some x ∨
    s' = s ∧ ∃ user coupon, p.stage = .checkUsed user coupon ∧ x = (user.id, p.couponCode) ∧
      s.hasUserUsedCoupon user.id p.couponCode = false

theorem Looks.of_none (hdeciding : p'.deciding = none) (hcleared : p'.cleared = none) :
    Looks s s' p p' :=
  ⟨fun code h => by simp [hdeciding] at h, fun x h => by simp [hcleared] at h⟩

theorem Looks.of_eq {r : CouponStore × Redemption} (h : some r = some (s', p'))
    (hr : Looks s r.1 p r.2) : Looks s s' p p' := by
  cases h
  exact hr

/-- A read that is no error. -/
theorem read_looks {stage : RedemptionStage} (h : Looks s s p (p.become stage)) :
    Looks s (p.read w s stage).1 p (p.read w s stage).2 := by
  cases w with
  | done => exact h
  | failed ran => exact .of_none rfl rfl

/-- After a write a request makes no grant. -/
theorem write_looks {after : Option CouponStore} {stage : RedemptionStage}
    (hdeciding : (p.become stage).deciding = none) (hcleared : (p.become stage).cleared = none) :
    Looks s (p.write w s after stage).1 p (p.write w s after stage).2 := by
  cases after with
  | none => cases w <;> exact .of_none rfl rfl
  | some s₁ =>
      cases w with
      | done => exact .of_none hdeciding hcleared
      | failed ran => exact .of_none rfl rfl

theorem next_looks (h : p.next w s = some (s', p')) : Looks s s' p p' := by
  unfold next at h
  split at h
  next hstage =>
    refine .of_eq h (read_looks ?_)
    split <;> exact .of_none rfl rfl
  next user hstage =>
    refine .of_eq h (read_looks ?_)
    cases hfound : s.findValidCoupon p.couponCode with
    | none => exact .of_none rfl rfl
    | some coupon =>
        refine ⟨fun code hcode => ?_, fun x hx => ?_⟩
        · simp only [afterCoupon] at hcode
          split at hcode
          · cases hcode
          · cases hcode
            exact .inr ⟨rfl, rfl, user, coupon, hstage, hfound⟩
        · simp only [afterCoupon] at hx
          split at hx <;> cases hx
  next hstage => exact .of_eq h (read_looks (.of_none rfl rfl))
  next user coupon hstage =>
    refine .of_eq h (read_looks ?_)
    split
    next => exact .of_none rfl rfl
    next hunused =>
      refine ⟨fun code hcode => .inl ?_, fun x hx => ?_⟩
      · simpa [deciding, become, hstage] using hcode
      · cases hx
        exact .inr ⟨rfl, user, coupon, hstage, rfl, by simpa using hunused⟩
  next user coupon hstage =>
    refine .of_eq h (read_looks ?_)
    split
    next =>
      exact ⟨fun code hcode => .inl (by simpa [deciding, become, hstage] using hcode),
        fun x hx => .inl (by simpa [cleared, become, hstage] using hx)⟩
    next =>
      exact ⟨fun code hcode => .inl (by simpa [deciding, become, hstage] using hcode),
        fun x hx => .inl (by simpa [cleared, become, hstage] using hx)⟩
  next => exact .of_eq h (write_looks rfl rfl)
  next =>
    split at h
    next => exact .of_eq h (write_looks rfl rfl)
    next => exact .of_eq h (.of_none rfl rfl)
  next => exact .of_eq h (write_looks rfl rfl)
  next => exact .of_eq h (write_looks rfl rfl)
  next user _ _ _ =>
    refine .of_eq h (write_looks ?_ ?_)
    · split <;> rfl
    · split <;> rfl
  next => exact .of_eq h (write_looks rfl rfl)
  next => cases h

end Redemption

namespace CouponRun

/-! ## The invariant -/

/-- The grants that were made, and those that requests may still make on what they have read, stay
within the law. -/
structure Reserved (c : CouponRun) : Prop where
  onePerUser : ∀ x,
    c.shared.granted.countP (· = x) + c.count (fun p => p.cleared.any (· = x)) ≤ 1
  withinLimit : ∀ code limit, c.shared.limit code = some (some limit) →
    c.shared.granted.countP (fun x => x.2 = code) +
      c.count (fun p => p.deciding.any (· = code)) ≤ limit

/-- The grants are the recorded usages and the grants on their way to be recorded; the usages are
those that are counted and those on their way to be counted. -/
structure Tallied (c : CouponRun) : Prop extends Reserved c where
  granted : ∀ q : String × String → Bool, c.shared.granted.countP q =
    c.shared.userCoupons.countP (fun u => q (u.userId, u.couponCode)) +
      c.count fun p => p.unrecorded.any q
  counted : ∀ code, c.shared.currentUses code + c.count (fun p => p.uncounted.any (· = code)) =
    c.shared.userCoupons.countP fun u => u.couponCode = code
  limits : ∀ i p coupon, c.proc i = some p → p.coupon? = some coupon →
    c.shared.limit p.couponCode = some coupon.maxUses

/-- A usage is recorded for the user. -/
theorem countP_pos_of_used {s : CouponStore} {userId code : String}
    (h : s.hasUserUsedCoupon userId code = true) :
    0 < s.userCoupons.countP fun u => (u.userId, u.couponCode) = (userId, code) := by
  obtain ⟨u, hu, hmatch⟩ := List.any_eq_true.mp h
  exact List.countP_pos_iff.mpr ⟨u, hu, by simpa using hmatch⟩

theorem countP_eq_zero_of_unused {s : CouponStore} {userId code : String}
    (h : s.hasUserUsedCoupon userId code = false) :
    (s.userCoupons.countP fun u => (u.userId, u.couponCode) = (userId, code)) = 0 := by
  rw [List.countP_eq_zero]
  intro u hu hmatch
  have : s.hasUserUsedCoupon userId code = true :=
    List.any_eq_true.mpr ⟨u, hu, by simpa using hmatch⟩
  simp [this] at h

/-- The invariant looks at the collections that the law is about and at the counts of requests. -/
theorem Tallied.of_same {c c' : CouponRun} (h : Tallied c) (hreserved : Reserved c')
    (hgranted : c'.shared.granted = c.shared.granted)
    (husages : c'.shared.userCoupons = c.shared.userCoupons)
    (hcoupons : c'.shared.coupons = c.shared.coupons)
    (hun : ∀ q, c'.count (fun p => p.unrecorded.any q) = c.count fun p => p.unrecorded.any q)
    (hun' : ∀ q, c'.count (fun p => p.uncounted.any q) = c.count fun p => p.uncounted.any q)
    (hlimits : ∀ i p coupon, c'.proc i = some p → p.coupon? = some coupon →
      c'.shared.limit p.couponCode = some coupon.maxUses) : Tallied c' where
  toReserved := hreserved
  granted q := by rw [hgranted, husages, hun, h.granted]
  counted code := by
    rw [husages, hun', ← h.counted]
    simp only [CouponStore.currentUses, hcoupons]
  limits := hlimits

/-- Fewer requests that may still make a grant. -/
theorem Reserved.of_le {c c' : CouponRun} (h : Reserved c)
    (hgranted : c'.shared.granted = c.shared.granted)
    (hlimit : ∀ code, c'.shared.limit code = c.shared.limit code)
    (hcleared : ∀ x, c'.count (fun p => p.cleared.any (· = x)) ≤
      c.count fun p => p.cleared.any (· = x))
    (hdeciding : ∀ code, c'.count (fun p => p.deciding.any (· = code)) ≤
      c.count fun p => p.deciding.any (· = code)) : Reserved c' where
  onePerUser x := by
    rw [hgranted]
    exact (Nat.add_le_add_left (hcleared x) _).trans (h.onePerUser x)
  withinLimit code limit hmax := by
    rw [hgranted]
    rw [hlimit] at hmax
    exact (Nat.add_le_add_left (hdeciding code) _).trans (h.withinLimit code limit hmax)

/-- The requests in flight are those that decide and those between their grant and their count. -/
theorem count_inFlight (c : CouponRun) (code : String) :
    c.count (Redemption.inFlight code) = c.count (fun p => p.deciding.any (· = code)) +
      (c.count (fun p => p.unrecorded.any fun x => x.2 = code) +
        c.count fun p => p.uncounted.any (· = code)) := by
  have hafter := Configuration.count_or c (fun p => p.unrecorded.any fun x => x.2 = code)
    (fun p => p.uncounted.any (· = code)) fun p hp => by
      unfold Redemption.unrecorded at hp
      unfold Redemption.uncounted
      cases hstage : p.stage <;> simp only [hstage] at hp ⊢ <;> first | rfl | cases hp
  have hbefore := Configuration.count_or c (fun p => p.deciding.any (· = code))
    (fun p => p.unrecorded.any (fun x => x.2 = code) || p.uncounted.any (· = code)) fun p hp => by
      unfold Redemption.deciding at hp
      unfold Redemption.unrecorded Redemption.uncounted
      cases hstage : p.stage <;> simp only [hstage] at hp ⊢ <;> first | rfl | cases hp
  rw [← hafter]
  exact hbefore

/-- The requests on their way to record a usage are those that have found none and those that have
made their grant. -/
theorem count_redeeming (c : CouponRun) (x : String × String) :
    c.count (Redemption.redeeming x) = c.count (fun p => p.cleared.any (· = x)) +
      c.count fun p => p.unrecorded.any (· = x) :=
  Configuration.count_or c _ _ fun p hp => by
    cases hstage : p.stage <;> simp_all [Redemption.cleared, Redemption.unrecorded]

/-- The grants of a coupon are counted, or on their way to be. -/
theorem Tallied.granted_eq {c : CouponRun} (h : Tallied c) (code : String) :
    c.shared.granted.countP (fun x => x.2 = code) = c.shared.currentUses code +
      (c.count (fun p => p.unrecorded.any fun x => x.2 = code) +
        c.count fun p => p.uncounted.any (· = code)) := by
  have htally : c.shared.granted.countP (fun x => x.2 = code) =
      c.shared.userCoupons.countP (fun u => u.couponCode = code) +
        c.count fun p => p.unrecorded.any fun x => x.2 = code := h.granted fun x => x.2 = code
  have hcounted := h.counted code
  omega

/-- A user without a usage, none of whose requests is on its way to record one, has no grant. -/
theorem Tallied.ungranted {c : CouponRun} (h : Tallied c) {userId code : String}
    (hunused : c.shared.hasUserUsedCoupon userId code = false)
    (hnone : c.count (Redemption.redeeming (userId, code)) = 0) :
    c.shared.granted.countP (· = (userId, code)) +
      c.count (fun p => p.cleared.any (· = (userId, code))) = 0 := by
  have htally : c.shared.granted.countP (· = (userId, code)) =
      c.shared.userCoupons.countP (fun u => (u.userId, u.couponCode) = (userId, code)) +
        c.count fun p => p.unrecorded.any (· = (userId, code)) := h.granted (· = (userId, code))
  rw [countP_eq_zero_of_unused hunused] at htally
  rw [count_redeeming] at hnone
  omega

/-- A valid coupon, read while nothing else is in flight or while there is room, has a use left. -/
theorem Tallied.room {c : CouponRun} (h : Tallied c) {code : String} {coupon : Coupon} {limit : Nat}
    (hfound : c.shared.findValidCoupon code = some coupon) (hmax : coupon.maxUses = some limit)
    (hapart : c.count (Redemption.inFlight code) = 0 ∨
      coupon.currentUses + c.count (Redemption.inFlight code) < limit) :
    c.shared.granted.countP (fun x => x.2 = code) +
      c.count (fun p => p.deciding.any (· = code)) < limit := by
  obtain ⟨hcoupon, hvalid⟩ := Option.filter_eq_some_iff.mp hfound
  have huses : coupon.currentUses < limit := by
    simp only [Coupon.isValid, hmax, Option.all_some, Bool.and_eq_true, decide_eq_true_eq] at hvalid
    exact hvalid.2
  have hcurrent : c.shared.currentUses code = coupon.currentUses := by
    simp [CouponStore.currentUses, hcoupon]
  rw [h.granted_eq, hcurrent]
  rw [count_inFlight] at hapart
  omega

theorem any_of_ne {α : Type} [DecidableEq α] {o : Option α} {x : α} (h : o ≠ some x) :
    o.any (· = x) = false := by
  cases o with
  | none => rfl
  | some y => simpa using h

/-- A command that makes no grant: a request comes to make one only on what it has read while the
others kept apart. -/
theorem Tallied.reserves {c : CouponRun} (h : Tallied c) {i : Nat} {p p' : Redemption}
    {s' : CouponStore} (hapart : Apart c p = true) (hi : c.proc i = some p)
    (hkeeps : Redemption.Keeps c.shared s' p p') (hlooks : Redemption.Looks c.shared s' p p')
    (hgranted : s'.granted = c.shared.granted) : Reserved ⟨s', c.procs.set i (some p')⟩ where
  onePerUser x := by
    have hcount := Configuration.count_move (g := s') (m := p') hi fun p => p.cleared.any (· = x)
    have hold := h.onePerUser x
    by_cases hx : p'.cleared = some x
    · rcases hlooks.cleared x hx with hx' | ⟨-, user, coupon, hstage, rfl, hunused⟩
      · simp only [hx, hx', Option.any_some] at hcount
        rw [hgranted]
        omega
      · have hnone : c.count (Redemption.redeeming (user.id, p.couponCode)) = 0 := by
          simpa [Apart, hstage] using hapart
        have hzero := h.ungranted hunused hnone
        simp only [hx, Option.any_some, decide_true, if_true] at hcount
        rw [hgranted]
        omega
    · simp only [any_of_ne hx, Bool.false_eq_true, if_false] at hcount
      rw [hgranted]
      omega
  withinLimit code limit hlimit := by
    have hcount := Configuration.count_move (g := s') (m := p') hi fun p =>
      p.deciding.any (· = code)
    rw [hkeeps.limit] at hlimit
    have hold := h.withinLimit code limit hlimit
    by_cases hx : p'.deciding = some code
    · rcases hlooks.deciding code hx with hx' | ⟨-, rfl, user, coupon, hstage, hfound⟩
      · simp only [hx, hx', Option.any_some] at hcount
        rw [hgranted]
        omega
      · have hcoupon := (Option.filter_eq_some_iff.mp hfound).1
        have hmax : coupon.maxUses = some limit := by
          simpa [CouponStore.limit, hcoupon] using hlimit
        have hroom := h.room hfound hmax (by simpa [Apart, hstage, hfound, hmax] using hapart)
        simp only [hx, Option.any_some, decide_true, if_true] at hcount
        rw [hgranted]
        omega
    · simp only [any_of_ne hx, Bool.false_eq_true, if_false] at hcount
      rw [hgranted]
      omega

/-- A grant takes the place that was kept for it. -/
theorem Reserved.grant {c : CouponRun} (h : Reserved c) {i : Nat} {p p' : Redemption}
    {s' : CouponStore} {userId : String} (hi : c.proc i = some p)
    (hkeeps : Redemption.Keeps c.shared s' p p')
    (hcleared : p.cleared = some (userId, p.couponCode)) (hdeciding : p.deciding = some p.couponCode)
    (hgranted : s'.granted = (userId, p.couponCode) :: c.shared.granted)
    (hcleared' : p'.cleared = none) (hdeciding' : p'.deciding = none) :
    Reserved ⟨s', c.procs.set i (some p')⟩ where
  onePerUser x := by
    have hcount := Configuration.count_move (g := s') (m := p') hi fun p => p.cleared.any (· = x)
    have hold := h.onePerUser x
    simp only [hcleared, hcleared', Option.any_some, Option.any_none, Bool.false_eq_true,
      if_false, decide_eq_true_eq] at hcount
    simp only [hgranted, List.countP_cons, decide_eq_true_eq]
    omega
  withinLimit code limit hlimit := by
    have hcount := Configuration.count_move (g := s') (m := p') hi fun p =>
      p.deciding.any (· = code)
    rw [hkeeps.limit] at hlimit
    have hold := h.withinLimit code limit hlimit
    simp only [hdeciding, hdeciding', Option.any_some, Option.any_none, Bool.false_eq_true,
      if_false, decide_eq_true_eq] at hcount
    simp only [hgranted, List.countP_cons, decide_eq_true_eq]
    omega

/-- The limit that a request has read stays the limit of its coupon. -/
theorem Tallied.limits_step {c : CouponRun} (h : Tallied c) {i : Nat} {p p' : Redemption}
    {s' : CouponStore} (hi : c.proc i = some p) (hkeeps : Redemption.Keeps c.shared s' p p') :
    ∀ j q coupon, (⟨s', c.procs.set i (some p')⟩ : CouponRun).proc j = some q →
      q.coupon? = some coupon → s'.limit q.couponCode = some coupon.maxUses := by
  intro j q coupon hj hq
  rcases Configuration.proc_set (g := c.shared) hj with ⟨-, hnew⟩ | ⟨-, hold⟩
  · cases hnew
    rw [hkeeps.couponCode, hkeeps.limit]
    rcases hkeeps.coupon coupon hq with hread | hfound
    · exact h.limits i p coupon hi hread
    · simp [CouponStore.limit, hfound]
  · rw [hkeeps.limit]
    exact h.limits j q coupon hold hq

/-- A grant is on its way to be recorded. -/
theorem Tallied.grant {c : CouponRun} (h : Tallied c) {i : Nat} {p p' : Redemption}
    {s' : CouponStore} {userId : String} (hi : c.proc i = some p)
    (hkeeps : Redemption.Keeps c.shared s' p p')
    (hreserved : Reserved ⟨s', c.procs.set i (some p')⟩) (hp : p.underWay = false)
    (hgranted : s'.granted = (userId, p.couponCode) :: c.shared.granted)
    (husages : s'.userCoupons = c.shared.userCoupons) (hcoupons : s'.coupons = c.shared.coupons)
    (hun : p'.unrecorded = some (userId, p.couponCode)) (hun' : p'.uncounted = none) :
    Tallied ⟨s', c.procs.set i (some p')⟩ := by
  obtain ⟨hpun, hpun'⟩ := Redemption.underWay_eq_false.mp hp
  have hcount := Configuration.count_move (g := s') (m := p') hi
  refine ⟨hreserved, fun q => ?_, fun code => ?_, h.limits_step hi hkeeps⟩
  · have := hcount fun p => p.unrecorded.any q
    have := h.granted q
    simp only [hpun, hun, Option.any_none, Option.any_some, hgranted, husages,
      List.countP_cons] at *
    simp_all
    omega
  · have := hcount fun p => p.uncounted.any (· = code)
    have := h.counted code
    simp only [hpun', hun', Option.any_none, husages, CouponStore.currentUses, hcoupons] at *
    simp_all

/-- A usage is recorded: the grant is on its way to be counted. -/
theorem Tallied.record {c : CouponRun} (h : Tallied c) {i : Nat} {p p' : Redemption}
    {s' : CouponStore} {u : UserCoupon} (hi : c.proc i = some p)
    (hkeeps : Redemption.Keeps c.shared s' p p')
    (hreserved : Reserved ⟨s', c.procs.set i (some p')⟩)
    (hp : p.unrecorded = some (u.userId, u.couponCode)) (hp' : p.uncounted = none)
    (hgranted : s'.granted = c.shared.granted)
    (husages : s'.userCoupons = u :: c.shared.userCoupons)
    (hcoupons : s'.coupons = c.shared.coupons) (hun : p'.unrecorded = none)
    (hun' : p'.uncounted = some u.couponCode) : Tallied ⟨s', c.procs.set i (some p')⟩ := by
  have hcount := Configuration.count_move (g := s') (m := p') hi
  refine ⟨hreserved, fun q => ?_, fun code => ?_, h.limits_step hi hkeeps⟩
  · have := hcount fun p => p.unrecorded.any q
    have := h.granted q
    simp only [hp, hun, Option.any_none, Option.any_some, hgranted, husages,
      List.countP_cons] at *
    simp_all
    omega
  · have := hcount fun p => p.uncounted.any (· = code)
    have := h.counted code
    simp only [hp', hun', Option.any_none, Option.any_some, husages, CouponStore.currentUses,
      hcoupons, List.countP_cons] at *
    simp_all
    omega

theorem currentUses_incrementUsage {s : CouponStore} {code code' : String} {coupon : Coupon}
    (hcoupon : s.coupons code = some coupon)
    (hroom : ∀ limit, coupon.maxUses = some limit → coupon.currentUses < limit) :
    (s.incrementUsage code coupon.maxUses).currentUses code' =
      s.currentUses code' + if code' = code then 1 else 0 := by
  have hguard : coupon.maxUses.all (coupon.currentUses < ·) = true := by
    rw [Option.all_eq_true]
    intro limit hlimit
    simpa using hroom limit hlimit
  simp only [CouponStore.incrementUsage, hcoupon, hguard, if_true, CouponStore.currentUses]
  by_cases hcode : code' = code
  · subst hcode
    simp [hcoupon]
  · simp [hcode]

theorem incrementUsage_sameLists {s : CouponStore} {code : String} {maxUses : Option Nat} :
    (s.incrementUsage code maxUses).granted = s.granted ∧
      (s.incrementUsage code maxUses).userCoupons = s.userCoupons := by
  unfold CouponStore.incrementUsage
  split
  · split <;> exact ⟨rfl, rfl⟩
  · exact ⟨rfl, rfl⟩

/-- A recorded usage is counted: the limit has not been reached. -/
theorem Tallied.count {c : CouponRun} (h : Tallied c) {i : Nat} {p p' : Redemption}
    {coupon : Coupon} (hi : c.proc i = some p)
    (hkeeps : Redemption.Keeps c.shared (c.shared.incrementUsage p.couponCode coupon.maxUses) p p')
    (hreserved : Reserved ⟨c.shared.incrementUsage p.couponCode coupon.maxUses,
      c.procs.set i (some p')⟩)
    (hp : p.unrecorded = none) (hp' : p.uncounted = some p.couponCode)
    (hcoupon : p.coupon? = some coupon) (hnext : p'.underWay = false) :
    Tallied ⟨c.shared.incrementUsage p.couponCode coupon.maxUses,
      c.procs.set i (some p')⟩ := by
  obtain ⟨hun, hun'⟩ := Redemption.underWay_eq_false.mp hnext
  obtain ⟨hgranted, husages⟩ := @incrementUsage_sameLists c.shared p.couponCode coupon.maxUses
  have hcount := Configuration.count_move
    (g := c.shared.incrementUsage p.couponCode coupon.maxUses) (m := p') hi
  -- the coupon is there, and this usage is recorded and not counted yet
  obtain ⟨stored, hstored, hlimit⟩ := Option.map_eq_some_iff.mp (h.limits i p coupon hi hcoupon)
  have hroom : ∀ limit, stored.maxUses = some limit → stored.currentUses < limit := by
    intro limit hmax
    have hbound := h.withinLimit p.couponCode limit (by simp [CouponStore.limit, hstored, hmax])
    have htally := h.granted_eq p.couponCode
    have hself : 0 < c.count fun q => q.uncounted.any (· = p.couponCode) :=
      Configuration.count_pos hi (by simp [hp'])
    simp only [CouponStore.currentUses, hstored, Option.map_some, Option.getD_some] at htally
    omega
  refine ⟨hreserved, fun q => ?_, fun code => ?_, h.limits_step hi hkeeps⟩
  · have hsame := hcount fun p => p.unrecorded.any q
    simp only [hp, hun, Option.any_none, Bool.false_eq_true, if_false, Nat.add_zero] at hsame
    rw [hsame, hgranted, husages]
    exact h.granted q
  · have hsame := hcount fun p => p.uncounted.any (· = code)
    have hcounted := h.counted code
    simp only [← hlimit, currentUses_incrementUsage hstored hroom]
    simp only [hp', hun', Option.any_none, Option.any_some, Bool.false_eq_true, if_false,
      Nat.add_zero, decide_eq_true_eq, ← hlimit] at hsame
    simp only [incrementUsage_sameLists.2]
    rw [← hcounted]
    by_cases hcode : code = p.couponCode
    · subst hcode
      simp only [if_true] at hsame ⊢
      omega
    · simp only [hcode, Ne.symm hcode, if_false] at hsame ⊢
      omega

/-! ## Runs -/

theorem Tallied.of_unused {s : CouponStore} (hs : s.Unused) : Tallied ⟨s, []⟩ where
  granted q := by simp [hs.granted, hs.userCoupons, Configuration.count]
  counted code := by
    simp only [hs.userCoupons, Configuration.count, List.countP_nil, Nat.add_zero,
      CouponStore.currentUses]
    cases hcoupon : s.coupons code with
    | none => rfl
    | some c => simpa using hs.currentUses code c hcoupon
  onePerUser x := by simp [hs.granted, Configuration.count]
  withinLimit code limit _ := by simp [hs.granted, Configuration.count]
  limits i p coupon hi := by simp [Configuration.proc] at hi

/-- A user who has a grant on its way has no usage of the coupon recorded. -/
theorem Tallied.unused {c : CouponRun} (h : Tallied c) {i : Nat} {p : Redemption}
    {userId code : String} (hi : c.proc i = some p) (hp : p.unrecorded = some (userId, code)) :
    c.shared.hasUserUsedCoupon userId code = false := by
  refine Bool.eq_false_iff.mpr fun hused => ?_
  have hrecorded := countP_pos_of_used hused
  have hself : 0 < c.count fun q => q.unrecorded.any (· = (userId, code)) :=
    Configuration.count_pos hi (by simp [hp])
  have htally := h.granted (· = (userId, code))
  have hone := h.onePerUser (userId, code)
  omega

/-- What the invariant needs of a step of a request. -/
theorem Tallied.next {c : CouponRun} (h : Tallied c) {i : Nat} {w : Write} {p p' : Redemption}
    {s' : CouponStore} (hok : Settled c (.step i w)) (hi : c.proc i = some p)
    (hnext : p.next w c.shared = some (s', p')) : Tallied ⟨s', c.procs.set i (some p')⟩ := by
  have hkeeps := Redemption.next_keeps hnext
  have hlooks := Redemption.next_looks hnext
  obtain ⟨hapart, hdone, hgrants⟩ := hok p hi
  have hsame : ∀ k : Redemption → Bool, k p' = k p →
      (⟨s', c.procs.set i (some p')⟩ : CouponRun).count k = c.count k := fun _ hk =>
    Configuration.count_move_of_eq hi hk
  cases Redemption.next_sound hnext with
  | idles hs hp hp' =>
      obtain ⟨hun, hun'⟩ := Redemption.underWay_eq_false.mp hp
      obtain ⟨hnew, hnew'⟩ := Redemption.underWay_eq_false.mp hp'
      exact h.of_same (h.reserves hapart hi hkeeps hlooks hs.granted) hs.granted hs.userCoupons
        hs.coupons (fun q => hsame _ (by simp [hun, hnew]))
        (fun q => hsame _ (by simp [hun', hnew'])) (h.limits_step hi hkeeps)
  | grants hgrant hcoupon hran hp hcleared hdeciding hgranted husages hcoupons hcleared' hdeciding'
      hafter =>
      have hw : w = .done := hgrants (by simp [hgrant]) hran
      have hreserved := h.toReserved.grant hi hkeeps hcleared hdeciding hgranted hcleared' hdeciding'
      exact h.grant hi hkeeps hreserved hp hgranted husages hcoupons (hafter hw).1 (hafter hw).2
  | carries hs hun hun' =>
      exact h.of_same (h.reserves hapart hi hkeeps hlooks hs.granted) hs.granted hs.userCoupons
        hs.coupons (fun q => hsame _ (by simp [hun])) (fun q => hsame _ (by simp [hun']))
        (h.limits_step hi hkeeps)
  | records hp hp' hnew hgranted husages hcoupons hafter hafter' =>
      have hreserved := h.reserves hapart hi hkeeps hlooks hgranted
      exact h.record hi hkeeps hreserved hp hp' hgranted husages hcoupons hafter hafter'
  | repeats hp hold =>
      have hunused := h.unused hi hp
      simp [hunused] at hold
  | counts hp hp' hcoupon hafter =>
      have hreserved := h.reserves hapart hi hkeeps hlooks incrementUsage_sameLists.1
      exact h.count hi hkeeps hreserved hp hp' hcoupon hafter
  | fails hp hw => exact absurd (hdone hp) hw

theorem Tallied.steps {c c' : CouponRun} (h : Tallied c)
    (hstep : couponSystem.Steps Settled c c') : Tallied c' := by
  rcases hstep.cases with ⟨x, s', p, -, hs, rfl⟩ | ⟨i, w, p, s', p', hok, hi, hs, rfl⟩ |
    ⟨i, hok, rfl⟩ | ⟨d, s', -, hs, rfl⟩
  · cases hs
    have hbegin : ∀ stage, (Redemption.begin x.1 x.2).stage = stage →
        stage = .findUser ∨ stage = .done .codeRequired := by
      intro stage hstage
      unfold Redemption.begin at hstage
      split at hstage
      · exact Or.inr hstage.symm
      · exact Or.inl hstage.symm
    have hidle : (Redemption.begin x.1 x.2).unrecorded = none ∧
        (Redemption.begin x.1 x.2).uncounted = none ∧
          (Redemption.begin x.1 x.2).coupon? = none := by
      rcases hbegin _ rfl with hstage | hstage <;>
        simp [Redemption.unrecorded, Redemption.uncounted, Redemption.coupon?, hstage]
    have hundecided : (Redemption.begin x.1 x.2).cleared = none ∧
        (Redemption.begin x.1 x.2).deciding = none := by
      rcases hbegin _ rfl with hstage | hstage <;>
        simp [Redemption.cleared, Redemption.deciding, hstage]
    have hreserved : Reserved ⟨c.shared, c.procs ++ [some (Redemption.begin x.1 x.2)]⟩ := by
      refine h.toReserved.of_le rfl (fun _ => rfl) (fun y => Nat.le_of_eq ?_)
        fun code => Nat.le_of_eq ?_
      · simpa [hundecided.1] using Configuration.count_append c c.shared
          (Redemption.begin x.1 x.2) fun p => p.cleared.any (· = y)
      · simpa [hundecided.2] using Configuration.count_append c c.shared
          (Redemption.begin x.1 x.2) fun p => p.deciding.any (· = code)
    refine h.of_same hreserved rfl rfl rfl (fun q => ?_) (fun q => ?_) fun j p coupon hj hp => ?_
    · simpa [hidle.1] using Configuration.count_append c c.shared (Redemption.begin x.1 x.2)
        fun p => p.unrecorded.any q
    · simpa [hidle.2.1] using Configuration.count_append c c.shared (Redemption.begin x.1 x.2)
        fun p => p.uncounted.any q
    · rcases Configuration.proc_append (g := c.shared) hj with ⟨-, rfl⟩ | hold
      · rw [hidle.2.2] at hp
        cases hp
      · exact h.limits j p coupon hold hp
  · exact h.next hok hi hs
  · have hreserved : Reserved ⟨c.shared, c.procs.set i none⟩ :=
      h.toReserved.of_le rfl (fun _ => rfl) (fun _ => Configuration.count_crash_le)
        fun _ => Configuration.count_crash_le
    refine h.of_same hreserved rfl rfl rfl (fun q => ?_) (fun q => ?_) fun j p coupon hj hp => ?_
    · exact Configuration.count_crash fun p hp => by
        simp [(Redemption.underWay_eq_false.mp (hok p hp)).1]
    · exact Configuration.count_crash fun p hp => by
        simp [(Redemption.underWay_eq_false.mp (hok p hp)).2]
    · rcases Configuration.proc_set (g := c.shared) hj with ⟨-, hnew⟩ | ⟨-, hold⟩
      · cases hnew
      · exact h.limits j p coupon hold hp
  · cases hs
    exact h.of_same ⟨h.onePerUser, h.withinLimit⟩ rfl rfl rfl (fun _ => rfl) (fun _ => rfl) h.limits

theorem Tallied.redeemed {c : CouponRun} (h : Tallied c) : Redeemed c where
  onePerUser userId code := by
    have hone := (Nat.le_add_right _ _).trans (h.onePerUser (userId, code))
    rwa [List.count_eq_countP, List.countP_congr (q := fun x => x = (userId, code))]
    intro x _
    simp
  withinLimit code coupon limit hcoupon hmax :=
    (Nat.le_add_right _ _).trans
      (h.withinLimit code limit (by simp [CouponStore.limit, hcoupon, hmax]))
  counted code hnone := by
    have hzero : c.count (fun p => p.uncounted.any (· = code)) = 0 :=
      Configuration.count_eq_zero.mpr fun i p hi => by
        have hne := hnone i p hi
        cases hp : p.uncounted with
        | none => rfl
        | some x => simpa [hp] using hne
    have hcounted := h.counted code
    omega

/-- In every run whose requests keep apart, and in which nothing fails between a grant and its
count, coupons are redeemed once by a user and within their limit. -/
theorem Settled.redeems {s : CouponStore} (hs : s.Unused) {c : CouponRun}
    (h : couponSystem.Reaches Settled ⟨s, []⟩ c) : Redeemed c := by
  have htallied : Tallied c :=
    System.Reaches.keeps (fun _ _ hd hstep => hd.steps hstep) (Tallied.of_unused hs) h
  exact htallied.redeemed

/-- Two users with credits, a coupon without a limit, and one that can be used twice. -/
def springStore : CouponStore where
  users := Function.update (Function.update (fun _ => none) "ann@x" (some ⟨"ann", false⟩))
    "bob@x" (some ⟨"bob", false⟩)
  coupons := Function.update (Function.update (fun _ => none) "SPRING" (some { expiryDate := 10 }))
    "PAIR" (some { expiryDate := 10, maxUses := some 2 })
  creditBalance := Function.update (Function.update (fun _ => none) "ann@x" (some 0)) "bob@x"
    (some 0)

theorem springStore_unused : springStore.Unused where
  userCoupons := rfl
  granted := rfl
  currentUses code c hc := by
    simp only [springStore, Function.update_apply] at hc
    split at hc
    · cases hc
      rfl
    · split at hc
      · cases hc
        rfl
      · cases hc

/-- The next commands of request `i`, none of which fails. -/
def CouponMove.commands (i k : Nat) : List CouponMove := List.replicate k (.step i .done)

/-- A second request of Ann reads the coupon between the grant and the count of her first one, and
looks for a usage once it is recorded; Bob takes the other use, and nothing is left for a third
request of Ann. -/
def pairMoves : List CouponMove :=
  [Move.spawn ("ann@x", "PAIR"), Move.spawn ("ann@x", "PAIR"), Move.spawn ("bob@x", "PAIR")] ++
    CouponMove.commands 0 5 ++ CouponMove.commands 1 2 ++ CouponMove.commands 0 4 ++
    CouponMove.commands 1 1 ++ CouponMove.commands 2 9 ++ [Move.spawn ("ann@x", "PAIR")] ++
    CouponMove.commands 3 3

/-- Two users and a limit of two. -/
theorem springStore_redeems : ∃ c, Redeemed c ∧
    c.shared.granted = [("bob", "PAIR"), ("ann", "PAIR")] ∧
      c.shared.currentUses "PAIR" = 2 ∧
        (c.proc 1).map (·.stage) = some (.done .alreadyUsed) ∧
          (c.proc 3).map (·.stage) = some (.done .limitReached) := by
  obtain ⟨c, hreach, hc⟩ := System.exists_reaches_of_play couponSystem Settled pairMoves
    ⟨springStore, []⟩ (fun c => c.shared.granted = [("bob", "PAIR"), ("ann", "PAIR")] ∧
      c.shared.currentUses "PAIR" = 2 ∧
        (c.proc 1).map (·.stage) = some (.done .alreadyUsed) ∧
          (c.proc 3).map (·.stage) = some (.done .limitReached)) (by decide +kernel)
  exact ⟨c, Settled.redeems springStore_unused hreach, by simpa using hc⟩

/-- Two requests of one user check the usages before either of them is recorded. -/
theorem not_redeemed : ¬ ∀ (s : CouponStore) (c : CouponRun), s.Unused →
    couponSystem.Reaches (fun _ _ => True) ⟨s, []⟩ c → Redeemed c := by
  intro hall
  obtain ⟨c, hreach, hc⟩ := System.exists_reaches_of_play couponSystem (fun _ _ => True)
    ([Move.spawn ("ann@x", "SPRING"), Move.spawn ("ann@x", "SPRING")] ++
      CouponMove.commands 0 4 ++ CouponMove.commands 1 5 ++ CouponMove.commands 0 1)
    ⟨springStore, []⟩ (fun c => c.shared.granted.count ("ann", "SPRING") = 2) (by decide +kernel)
  have hone := (hall springStore c springStore_unused hreach).onePerUser "ann" "SPRING"
  simp only [decide_eq_true_eq] at hc
  omega

end CouponRun

end CitraFlows
