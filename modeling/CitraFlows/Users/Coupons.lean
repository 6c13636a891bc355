-- SUMMARY: Applying a coupon: the collections of the user service, and a request command by command.
import CitraFlows.Lib.Processes
import CitraFlows.Models

/-!
# Applying a coupon

A request reads the coupon and whether its user has used it, adds the credits, and only then
records the usage, under a unique index, and counts it. Any number of requests take these
steps on the same collections, and each command may fail, before or after it has run.
-/

namespace CitraFlows

open Processes

/-! ## Collections -/

inductive CouponType where
  | standard | referral
  deriving DecidableEq

/-- A document of `coupons`. -/
structure Coupon where
  expiryDate : Nat
  creditAmount : Option Nat := some 1000
  isActive : Bool := true
  maxUses : Option Nat := none
  currentUses : Nat := 0
  couponType : CouponType := .standard
  deriving DecidableEq

/-- `isValid` -/
def Coupon.isValid (now : Nat) (c : Coupon) : Bool :=
  now < c.expiryDate && c.isActive && c.maxUses.all (c.currentUses < ·)

/-- `coupon.credit_amount || 1000` -/
def Coupon.credits (c : Coupon) : Nat :=
  match c.creditAmount with
  | some (n + 1) => n + 1
  | _ => 1000

structure CouponUser where
  id : String
  paid : Bool
  deriving DecidableEq

/-- A document of `user_coupons`. -/
structure UserCoupon where
  userId : String
  email : String
  couponCode : String
  deriving DecidableEq

structure CreditTransaction where
  userId : String
  amount : Nat
  balanceBefore : Int
  balanceAfter : Int
  deriving DecidableEq

/-- The collections: the users and their balances by email, the coupons by code. The last field
records every addition of credits for a coupon, by the id of the user and the code. -/
structure CouponStore where
  now : Nat := 0
  users : String → Option CouponUser := fun _ => none
  coupons : String → Option Coupon := fun _ => none
  creditBalance : String → Option Int := fun _ => none
  userCoupons : List UserCoupon := []
  transactions : List CreditTransaction := []
  granted : List (String × String) := []

namespace CouponStore

/-- `findValidCoupon` -/
def findValidCoupon (s : CouponStore) (code : String) : Option Coupon :=
  (s.coupons code).filter (·.isValid s.now)

/-- `hasUserUsedCoupon` -/
def hasUserUsedCoupon (s : CouponStore) (userId code : String) : Bool :=
  s.userCoupons.any fun u => u.userId = userId && u.couponCode = code

/-- `initializeNewUser`: the unique index refuses a second document of the user. -/
def initializeNewUser (s : CouponStore) (email : String) (welcomeBonus : Nat) :
    Option CouponStore :=
  if (s.creditBalance email).isSome then none
  else some { s with creditBalance := Function.update s.creditBalance email (some welcomeBonus) }

/-- `addCredits`: an atomic `$inc`. -/
def addCredits (s : CouponStore) (email : String) (amount : Nat) : Option CouponStore :=
  (s.creditBalance email).map fun balance =>
    { s with creditBalance := Function.update s.creditBalance email (some (balance + amount)) }

def grant (s : CouponStore) (userId code : String) : CouponStore :=
  { s with granted := (userId, code) :: s.granted }

/-- `recordUsage`: the unique index refuses a second usage of the coupon by the user. -/
def recordUsage (s : CouponStore) (u : UserCoupon) : Option CouponStore :=
  if s.hasUserUsedCoupon u.userId u.couponCode then none
  else some { s with userCoupons := u :: s.userCoupons }

/-- `incrementUsage`: the update matches while the limit that was read is not reached. -/
def incrementUsage (s : CouponStore) (code : String) (maxUses : Option Nat) : CouponStore :=
  match s.coupons code with
  | some c =>
      if maxUses.all (c.currentUses < ·) then
        { s with
          coupons := Function.update s.coupons code
            (some { c with currentUses := c.currentUses + 1 }) }
      else s
  | none => s

def setPaid (s : CouponStore) (email : String) : CouponStore :=
  { s with users := Function.update s.users email ((s.users email).map ({ · with paid := true })) }

end CouponStore

/-! ## Requests -/

inductive CouponResponse where
  | applied (amountAdded : Nat) (newBalance : Int)
  | refused (status : Nat) (error : String) (errorCode : Option String)
  deriving DecidableEq

namespace CouponResponse

def codeRequired : CouponResponse := .refused 400 "Coupon code is required" none

def userNotFound : CouponResponse := .refused 404 "User not found" (some "USER_NOT_FOUND")

def referral : CouponResponse :=
  .refused 400 ("This is a referral code. Share the referral link with new users instead of " ++
    "applying it as a coupon.") (some "REFERRAL_COUPON_NOT_ALLOWED")

def inactive : CouponResponse :=
  .refused 400 "This coupon has been deactivated" (some "COUPON_INACTIVE")

def expired : CouponResponse := .refused 400 "This coupon has expired" (some "COUPON_EXPIRED")

def limitReached : CouponResponse :=
  .refused 400 "This coupon has reached its usage limit" (some "COUPON_LIMIT_REACHED")

def notFound : CouponResponse := .refused 404 "Invalid coupon code" (some "COUPON_NOT_FOUND")

def alreadyUsed : CouponResponse :=
  .refused 400 "You have already used this coupon" (some "COUPON_ALREADY_USED")

def failed : CouponResponse := .refused 500 "Failed to apply coupon" none

/-- Why a coupon that was found is not valid. -/
def ofInvalid (now : Nat) (c : Coupon) : CouponResponse :=
  if !c.isActive then inactive
  else if c.expiryDate ≤ now then expired
  else if c.maxUses.any (· ≤ c.currentUses) then limitReached
  else notFound

end CouponResponse

/-- The next command of a request, with the documents that it has read. -/
inductive RedemptionStage where
  | findUser
  | findCoupon (user : CouponUser)
  | findExisting
  | checkUsed (user : CouponUser) (coupon : Coupon)
  | findUsage (user : CouponUser) (coupon : Coupon)
  | initializeNewUser (user : CouponUser) (coupon : Coupon)
  | addCredits (user : CouponUser) (coupon : Coupon) (balance : Int)
  | createTransaction (user : CouponUser) (coupon : Coupon) (balanceBefore newBalance : Int)
  | recordUsage (user : CouponUser) (coupon : Coupon) (newBalance : Int)
  | incrementUsage (user : CouponUser) (coupon : Coupon) (newBalance : Int)
  | saveUser (coupon : Coupon) (newBalance : Int)
  | done (response : CouponResponse)
  deriving DecidableEq

/-- A request of `apply-coupon`; codes are compared in upper case. -/
structure Redemption where
  email : String
  couponCode : String
  stage : RedemptionStage := .findUser
  deriving DecidableEq

namespace Redemption

def become (p : Redemption) (stage : RedemptionStage) : Redemption := { p with stage }

def begin (email couponCode : String) : Redemption :=
  if couponCode = "" ∨ email = "" then ⟨email, couponCode, .done .codeRequired⟩
  else { email, couponCode }

/-- A read, and what it leads to. -/
def read (p : Redemption) (w : Write) (s : CouponStore) (stage : RedemptionStage) :
    CouponStore × Redemption :=
  (s, p.become (if w.ok then stage else .done .failed))

/-- A write, and what it leads to; `none` stands for a duplicate key. -/
def write (p : Redemption) (w : Write) (s : CouponStore) (after : Option CouponStore)
    (stage : RedemptionStage) : CouponStore × Redemption :=
  match after with
  | some s' =>
      (if w.ran then s' else s, p.become (if w.ok then stage else .done .failed))
  | none =>
      (s, p.become (.done (if w.ok then .alreadyUsed else .failed)))

/-- `findValidCoupon`, and the two refusals that need no other command. -/
def afterCoupon (user : CouponUser) : Option Coupon → RedemptionStage
  | none => .findExisting
  | some c => if c.couponType = .referral then .done .referral else .checkUsed user c

/-- `handler`, one command. -/
def next (w : Write) (s : CouponStore) (p : Redemption) : Option (CouponStore × Redemption) :=
  match p.stage with
  | .findUser =>
      some (p.read w s (match s.users p.email with
        | some user => .findCoupon user
        | none => .done .userNotFound))
  | .findCoupon user => some (p.read w s (afterCoupon user (s.findValidCoupon p.couponCode)))
  | .findExisting =>
      some (p.read w s (.done (match s.coupons p.couponCode with
        | some c => .ofInvalid s.now c
        | none => .notFound)))
  | .checkUsed user coupon =>
      some (p.read w s (if s.hasUserUsedCoupon user.id p.couponCode then .done .alreadyUsed
        else .findUsage user coupon))
  | .findUsage user coupon =>
      some (p.read w s (match s.creditBalance p.email with
        | some balance => .addCredits user coupon balance
        | none => .initializeNewUser user coupon))
  | .initializeNewUser user coupon =>
      some (p.write w s ((s.initializeNewUser p.email coupon.credits).map
          (·.grant user.id p.couponCode))
        (.createTransaction user coupon 0 coupon.credits))
  | .addCredits user coupon balance =>
      match s.addCredits p.email coupon.credits with
      | some s' =>
          some (p.write w s (some (s'.grant user.id p.couponCode))
            (.createTransaction user coupon balance ((s'.creditBalance p.email).getD 0)))
      -- `updated` is null and its fields are read
      | none => some (s, p.become (.done .failed))
  | .createTransaction user coupon balanceBefore newBalance =>
      some (p.write w s
        (some { s with
          transactions := ⟨p.email, coupon.credits, balanceBefore, newBalance⟩ :: s.transactions })
        (.recordUsage user coupon newBalance))
  | .recordUsage user coupon newBalance =>
      some (p.write w s (s.recordUsage ⟨user.id, p.email, p.couponCode⟩)
        (.incrementUsage user coupon newBalance))
  | .incrementUsage user coupon newBalance =>
      -- that no document matched is not looked at
      some (p.write w s (some (s.incrementUsage p.couponCode coupon.maxUses))
        (if user.paid then .done (.applied coupon.credits newBalance)
          else .saveUser coupon newBalance))
  | .saveUser coupon newBalance =>
      some (p.write w s (some (s.setPaid p.email)) (.done (.applied coupon.credits newBalance)))
  | .done _ => none

end Redemption

/-- A process is a request; time is what moves by itself. -/
def couponSystem : System CouponStore Redemption (String × String) Write Nat where
  spawn _ x s := some (s, .begin x.1 x.2)
  step _ w s p := p.next w s
  env d s := some { s with now := s.now + d }

abbrev CouponRun := Configuration CouponStore Redemption

abbrev CouponMove := Move (String × String) Write Nat

/-- Before the first request: no coupon has been used. -/
structure CouponStore.Unused (s : CouponStore) : Prop where
  userCoupons : s.userCoupons = []
  granted : s.granted = []
  currentUses : ∀ code c, s.coupons code = some c → c.currentUses = 0

/-- How many uses of a coupon have been counted. -/
def CouponStore.currentUses (s : CouponStore) (code : String) : Nat :=
  ((s.coupons code).map Coupon.currentUses).getD 0

end CitraFlows
