-- SUMMARY: Adding credits: the ledger entry and the increment run outside the transaction, and when they still come together.
import CitraFlows.Lib.Doubles
import CitraFlows.Lib.Processes
import CitraFlows.Models

/-!
# Adding credits

`addCredits` opens a transaction, but only the read of the usage row and its creation belong to
it: the ledger entry and the increment are written at once. Any number of calls take their
commands on the same collections among other operations, and each command may fail, before or
after it has run. Amounts are doubles, whose sums are rounded.
-/

namespace CitraFlows.CreditLedger

open Doubles (Double toDouble)
open Processes

/-! ## Collections -/

/-- A row of `userusages`. -/
structure UserUsage where
  id : Nat
  creditBalance : Double

/-- A document of `credittransactions`. -/
structure CreditTransaction where
  transactionId : String
  userId : String
  email : String
  amount : Double
  balanceBefore : Double
  balanceAfter : Double
  source : Option String
  currency : String
  originalAmount : Option Double
  exchangeRate : Option Double
  bonusAmount : Option Double
  bonusPercentage : Option Double
  ipAddress : Option String
  userAgent : Option String

/-- The required texts and numbers, and the enumeration of the sources. -/
def CreditTransaction.valid (t : CreditTransaction) : Bool :=
  t.transactionId ≠ "" && t.userId ≠ "" && t.email ≠ "" &&
    ([t.amount, t.balanceBefore, t.balanceAfter].all fun x => x.value ≠ .nan) &&
    t.source.all fun x => ["google_play", "app_store", "admin", "system"].contains x

/-- A change of the balance of a user; a user without a row has none. -/
structure Change where
  userId : String
  before : Option Double
  after : Option Double

/-- The committed collections. Every ledger entry and every change of a balance carries the number
of the call that made it, if a call did; the latest comes first. -/
structure Store where
  usage : String → Option UserUsage
  nextId : Nat
  ledger : List (Option Nat × CreditTransaction)
  changes : List (Option Nat × Change)

namespace Store

/-- The balance of a user; a user without a row has none. -/
def balance (s : Store) (userId : String) : Option Double :=
  (s.usage userId).map UserUsage.creditBalance

def setUsage (s : Store) (author : Option Nat) (userId : String) (usage : Option UserUsage) :
    Store :=
  { s with
    usage := Function.update s.usage userId usage
    changes :=
      (author, ⟨userId, s.balance userId, usage.map UserUsage.creditBalance⟩) :: s.changes }

/-- `findOneAndUpdate` with `$inc` on the row of the id. -/
def inc (s : Store) (author : Option Nat) (userId : String) (id : Nat) (amount : Double) :
    Option (Store × Double) :=
  match s.usage userId with
  | some row =>
      if row.id = id then
        let row := { row with creditBalance := row.creditBalance.add amount }
        some (s.setUsage author userId (some row), row.creditBalance)
      else none
  | none => none

/-- A new row; the unique index refuses a second one of the user. -/
def create (s : Store) (author : Option Nat) (userId : String) (row : UserUsage) : Option Store :=
  if (s.usage userId).isSome then none
  else some (s.setUsage author userId (some row))

/-- A new ledger entry; the unique index refuses a second one of the transaction. -/
def record (s : Store) (author : Option Nat) (t : CreditTransaction) : Option Store :=
  if t.valid && s.ledger.all (fun x => x.2.transactionId ≠ t.transactionId) then
    some { s with ledger := (author, t) :: s.ledger }
  else none

end Store

/-! ## Calls -/

structure Meta where
  source : Option String
  currency : Option String
  originalAmount : Option Double
  exchangeRate : Option Double

structure Request where
  userId : String
  email : String
  amount : Double
  ipAddress : Option String
  userAgent : Option String
  extraMeta : Meta
  /-- The clock and the random text the call puts into its transaction id. -/
  transactionId : String

structure BonusInfo where
  bonusPercentage : Double
  bonusAmount : Double
  totalCredits : Double

def calculateBonusCredits (amount : Double) : BonusInfo where
  bonusPercentage := .zero
  bonusAmount := .zero
  totalCredits := amount

inductive Response where
  | success (newBalance amountPurchased bonusApplied bonusPercentage totalCreditsAdded : Double)
      (transactionId : String)
  /-- The error is thrown on. For a duplicate key that is a `ReferenceError`: `transactionId` is
  not in scope where it is handled. -/
  | failed

inductive Stage where
  | findOne
  | create
  | getPricing (usage : UserUsage)
  | createTransaction (usage : UserUsage)
  | addCredits (usage : UserUsage)
  | commit (newBalance : Double)
  | done (response : Response)

/-- A call; `session` is the row its transaction has created and not committed. -/
structure Call where
  request : Request
  session : Option UserUsage := none
  stage : Stage := .findOne

/-- `x || null` drops a zero and what is no number. -/
def orNull (x : Option Double) : Option Double :=
  x.filter fun x => x.value ≠ .number 0 ∧ x.value ≠ .nan

namespace Request

/-- `createPurchaseTransaction`; `x || null` drops an empty text too. -/
def transaction (r : Request) (balanceBefore : Double) : CreditTransaction :=
  let bonusInfo := calculateBonusCredits r.amount
  { transactionId := r.transactionId
    userId := r.userId
    email := r.email
    amount := bonusInfo.totalCredits
    balanceBefore
    balanceAfter := balanceBefore.add bonusInfo.totalCredits
    source := r.extraMeta.source.filter (· ≠ "")
    currency := (r.extraMeta.currency.filter (· ≠ "")).getD "USD"
    originalAmount := orNull r.extraMeta.originalAmount
    exchangeRate := orNull r.extraMeta.exchangeRate
    bonusAmount := orNull bonusInfo.bonusAmount
    bonusPercentage := orNull bonusInfo.bonusPercentage
    ipAddress := r.ipAddress
    userAgent := r.userAgent }

def response (r : Request) (newBalance : Double) : Response :=
  let bonusInfo := calculateBonusCredits r.amount
  .success newBalance r.amount bonusInfo.bonusAmount bonusInfo.bonusPercentage
    bonusInfo.totalCredits r.transactionId

end Request

namespace Call

/-- `catch`: the transaction is aborted, so the row it has created is gone. -/
def abort (p : Call) : Call := { p with session := none, stage := .done .failed }

/-- The call goes on where the command is reported done, and aborts otherwise. -/
def after (p : Call) (w : Write) (stage : Stage) : Call :=
  if w.ok then { p with stage } else p.abort

/-- A write, and what it leads to; `none` stands for one that is refused. -/
def write (p : Call) (w : Write) (s : Store) (written : Option Store) (stage : Stage) :
    Store × Call :=
  match written with
  | some s' => (if w.ran then s' else s, p.after w stage)
  | none => (s, p.abort)

def initialBalance : Double := toDouble 999999999

/-- `UserUsage.create` in the transaction. The driver has chosen the id of the row; nobody else
sees the row before it is committed. -/
def createUsage (p : Call) (w : Write) (s : Store) : Store × Call :=
  if p.request.userId = "" ∨ p.request.email = "" ∨ (s.usage p.request.userId).isSome then
    (s, p.abort)
  else
    ({ s with nextId := s.nextId + 1 },
      if w.ok then
        { p with
          session := some ⟨s.nextId, initialBalance⟩
          stage := .getPricing ⟨s.nextId, initialBalance⟩ }
      else p.abort)

/-- `addCredits`, one command of the call with the number `i`. -/
def next (i : Nat) (w : Write) (s : Store) (p : Call) : Option (Store × Call) :=
  match p.stage with
  | .findOne =>
      some (s, p.after w (match s.usage p.request.userId with
        | some usage => .getPricing usage
        | none => .create))
  | .create => some (p.createUsage w s)
  | .getPricing usage => some (s, p.after w (.createTransaction usage))
  | .createTransaction usage =>
      -- without the session
      some (p.write w s (s.record (some i) (p.request.transaction usage.creditBalance))
        (.addCredits usage))
  | .addCredits usage =>
      -- without the session: the row that the transaction has created is not found
      match s.inc (some i) p.request.userId usage.id
          (calculateBonusCredits p.request.amount).totalCredits with
      | some (s', newBalance) => some (p.write w s (some s') (.commit newBalance))
      -- `updated` is null and its fields are read
      | none => some (s, p.abort)
  | .commit newBalance =>
      match p.session with
      | none => some (s, p.after w (.done (p.request.response newBalance)))
      | some usage =>
          some (p.write w s (s.create (some i) p.request.userId usage)
            (.done (p.request.response newBalance)))
  | .done _ => none

end Call

/-- What else happens to the collections: other increments, rows that are created or deleted,
other ledger entries. -/
inductive Other where
  | inc (userId : String) (id : Nat) (amount : Double)
  | initializeNewUser (userId : String) (creditBalance : Double)
  | deleteUser (userId : String)
  | record (t : CreditTransaction)

def Other.apply (s : Store) : Other → Option Store
  | .inc userId id amount => (s.inc none userId id amount).map Prod.fst
  | .initializeNewUser userId creditBalance =>
      (s.create none userId ⟨s.nextId, creditBalance⟩).map ({ · with nextId := s.nextId + 1 })
  | .deleteUser userId => some (s.setUsage none userId none)
  | .record t => s.record none t

def system : System Store Call Request Write Other where
  spawn := fun _ r s => some (s, { request := r })
  step := fun i w s p => p.next i w s
  env := fun e s => e.apply s

abbrev Run := Configuration Store Call

abbrev CreditMove := Move Request Write Other

/-! ## What a call has done -/

namespace Store

/-- The changes of balances that a call has made. -/
def changesBy (s : Store) (i : Nat) : List Change :=
  (s.changes.filter (·.1 = some i)).map Prod.snd

/-- The ledger entries that a call has made. -/
def entriesBy (s : Store) (i : Nat) : List CreditTransaction :=
  (s.ledger.filter (·.1 = some i)).map Prod.snd

/-- The changes of the balance of a user. -/
def changesOf (s : Store) (userId : String) : List Change :=
  (s.changes.map Prod.snd).filter (·.userId = userId)

end Store

/-- The changes, the latest of them first, lead from one balance to the other. -/
def Leads (start : Option Double) : List Change → Option Double → Prop
  | [], now => now = start
  | c :: cs, now => now = c.after ∧ Leads start cs c.before

/-- The numbers differ by exactly the amount. -/
def GrowsBy (before after amount : Double) : Prop :=
  ∃ b a, before.value = .number b ∧ amount.value = .number a ∧ after.value = .number (b + a)

/-- The call has changed neither a balance nor the ledger. -/
def Untouched (s : Store) (i : Nat) : Prop := s.changesBy i = [] ∧ s.entriesBy i = []

/-- The call has made one ledger entry, and that is the one of the request. -/
def Entered (s : Store) (i : Nat) (r : Request) : Prop :=
  ∃ t, s.entriesBy i = [t] ∧ t.transactionId = r.transactionId ∧ t.userId = r.userId ∧
    GrowsBy t.balanceBefore t.balanceAfter r.amount

/-- The call has let the balance grow by the amount, and has made the ledger entry of the
request. -/
def Booked (s : Store) (i : Nat) (r : Request) : Prop :=
  (∃ before after, s.changesBy i = [⟨r.userId, some before, some after⟩] ∧
    GrowsBy before after r.amount) ∧ Entered s i r

/-- Before the first call. -/
structure Fresh (s : Store) : Prop where
  changes : s.changes = []
  ledger : ∀ x ∈ s.ledger, x.1 = none
  unique : (s.ledger.map (·.2.transactionId)).Nodup

/-- A call that has ended, or was lost, has booked its request or has done nothing; it reports
success only if it has booked. The balances are what the changes say, and a transaction has one
ledger entry at most. -/
structure Atomic (start : Store) (c : Run) : Prop where
  balance : ∀ userId,
    Leads (start.balance userId) (c.shared.changesOf userId) (c.shared.balance userId)
  unique : (c.shared.ledger.map (·.2.transactionId)).Nodup
  ended : ∀ i p response, c.proc i = some p → p.stage = .done response →
    Booked c.shared i p.request ∨ Untouched c.shared i
  lost : ∀ i < c.procs.length, c.proc i = none →
    (∃ r, Booked c.shared i r) ∨ Untouched c.shared i
  told : ∀ i p response, c.proc i = some p → p.stage = .done response → response ≠ .failed →
    Booked c.shared i p.request

/-! ## When the entry and the increment come together -/

/-- A ledger entry is made only by a call that has found the row of its user, and is reported as
made; the increment that follows finds the row, and runs. The amount adds up exactly with the
balance that was found, and with the one that is incremented. -/
def Call.unbroken (s : Store) (i : Nat) (w : Write) (p : Call) : Bool :=
  match p.stage with
  | .createTransaction usage =>
      !(w.ran && (s.record (some i) (p.request.transaction usage.creditBalance)).isSome) ||
        (p.session.isNone && w.ok && decide (usage.creditBalance.ExactSum p.request.amount))
  | .addCredits usage =>
      w.ran && (s.usage p.request.userId).any fun row =>
        row.id = usage.id && decide (row.creditBalance.ExactSum p.request.amount)
  | _ => true

/-- Between its ledger entry and its increment. -/
def Call.entered (p : Call) : Bool :=
  match p.stage with
  | .addCredits _ => true
  | _ => false

/-- No call breaks off between its ledger entry and its increment. -/
def Unbroken (c : Run) : CreditMove → Bool
  | .step i w => (c.proc i).all fun p => p.unbroken c.shared i w
  | .crash i => (c.proc i).all fun p => !p.entered
  | _ => true

/-- Where a call stands. -/
def Standing (s : Store) (i : Nat) (p : Call) : Prop :=
  match p.stage with
  | .findOne | .create => Untouched s i ∧ p.session = none
  | .getPricing _ | .createTransaction _ => Untouched s i
  | .addCredits _ => s.changesBy i = [] ∧ Entered s i p.request ∧ p.session = none
  | .commit _ => Booked s i p.request ∧ p.session = none
  | .done .failed => Booked s i p.request ∨ Untouched s i
  | .done (.success ..) => Booked s i p.request

/-! ### What one write does -/

section
variable {s s' : Store} {author : Option Nat} {userId : String} {i : Nat}

/-- For the call `i` nothing has changed. -/
def Same (s s' : Store) (i : Nat) : Prop :=
  s'.changesBy i = s.changesBy i ∧ s'.entriesBy i = s.entriesBy i

theorem Same.refl (s : Store) (i : Nat) : Same s s i := ⟨rfl, rfl⟩

theorem Untouched.same (h : Untouched s i) (hs : Same s s' i) : Untouched s' i :=
  ⟨hs.1.trans h.1, hs.2.trans h.2⟩

theorem Entered.same {r : Request} (h : Entered s i r) (hs : Same s s' i) : Entered s' i r := by
  obtain ⟨t, ht, hrest⟩ := h
  exact ⟨t, hs.2.trans ht, hrest⟩

theorem Booked.same {r : Request} (h : Booked s i r) (hs : Same s s' i) : Booked s' i r := by
  obtain ⟨⟨before, after, hchanges, hgrows⟩, hentered⟩ := h
  exact ⟨⟨before, after, hs.1.trans hchanges, hgrows⟩, hentered.same hs⟩

theorem Standing.same {p : Call} (h : Standing s i p) (hs : Same s s' i) : Standing s' i p := by
  obtain ⟨r, session, stage⟩ := p
  cases stage with
  | findOne => exact ⟨h.1.same hs, h.2⟩
  | create => exact ⟨h.1.same hs, h.2⟩
  | getPricing usage => exact Untouched.same h hs
  | createTransaction usage => exact Untouched.same h hs
  | addCredits usage => exact ⟨hs.1.trans h.1, h.2.1.same hs, h.2.2⟩
  | commit newBalance => exact ⟨h.1.same hs, h.2⟩
  | done response =>
      cases response with
      | success => exact Booked.same h hs
      | failed => exact Or.imp (·.same hs) (·.same hs) h

/-- What every operation keeps: balances change as the changes say, a transaction has one ledger
entry at most, and nothing has changed for a call that is not the author. -/
structure Moves (author : Option Nat) (s s' : Store) : Prop where
  balance : ∀ start u, Leads start (s.changesOf u) (s.balance u) →
    Leads start (s'.changesOf u) (s'.balance u)
  unique : (s.ledger.map (·.2.transactionId)).Nodup → (s'.ledger.map (·.2.transactionId)).Nodup
  same : ∀ j, author ≠ some j → Same s s' j

theorem Moves.refl (author : Option Nat) (s : Store) : Moves author s s :=
  ⟨fun _ _ h => h, id, fun j _ => Same.refl s j⟩

theorem setUsage_moves (s : Store) (author : Option Nat) (userId : String)
    (usage : Option UserUsage) : Moves author s (s.setUsage author userId usage) where
  balance := fun start u h => by
    by_cases hu : userId = u
    · subst hu
      have hnew : (s.setUsage author userId usage).balance userId =
          usage.map UserUsage.creditBalance := by
        simp [Store.balance, Store.setUsage]
      have hchanges : (s.setUsage author userId usage).changesOf userId =
          ⟨userId, s.balance userId, usage.map UserUsage.creditBalance⟩ :: s.changesOf userId := by
        simp [Store.changesOf, Store.setUsage]
      rw [hnew, hchanges]
      exact ⟨rfl, h⟩
    · have hold : (s.setUsage author userId usage).balance u = s.balance u := by
        simp [Store.balance, Store.setUsage, Ne.symm hu]
      have hchanges : (s.setUsage author userId usage).changesOf u = s.changesOf u := by
        simp [Store.changesOf, Store.setUsage, hu]
      rw [hold, hchanges]
      exact h
  unique := id
  same := fun j hj => by
    refine ⟨?_, rfl⟩
    simp [Store.changesBy, Store.setUsage, hj]

theorem inc_eq {id : Nat} {amount newBalance : Double}
    (h : s.inc author userId id amount = some (s', newBalance)) :
    ∃ row, s.usage userId = some row ∧ row.id = id ∧
      s' = s.setUsage author userId
        (some { row with creditBalance := row.creditBalance.add amount }) := by
  unfold Store.inc at h
  split at h
  next row hrow =>
    split at h
    next hid =>
      cases h
      exact ⟨row, hrow, hid, rfl⟩
    next => cases h
  next => cases h

theorem inc_moves {id : Nat} {amount newBalance : Double}
    (h : s.inc author userId id amount = some (s', newBalance)) : Moves author s s' := by
  obtain ⟨row, -, -, rfl⟩ := inc_eq h
  exact setUsage_moves s author userId _

theorem create_moves {row : UserUsage} (h : s.create author userId row = some s') :
    Moves author s s' := by
  unfold Store.create at h
  split at h
  next => cases h
  next =>
    cases h
    exact setUsage_moves s author userId _

theorem record_eq {t : CreditTransaction} (h : s.record author t = some s') :
    (∀ x ∈ s.ledger, x.2.transactionId ≠ t.transactionId) ∧
      s' = { s with ledger := (author, t) :: s.ledger } := by
  unfold Store.record at h
  split at h
  next hnew =>
    cases h
    refine ⟨fun x hx => ?_, rfl⟩
    simp only [Bool.and_eq_true, List.all_eq_true, decide_eq_true_eq] at hnew
    exact hnew.2 x hx
  next => cases h

theorem record_moves {t : CreditTransaction} (h : s.record author t = some s') :
    Moves author s s' := by
  obtain ⟨hnew, rfl⟩ := record_eq h
  refine ⟨fun _ _ h => h, fun hnodup => ?_, fun j hj => ⟨rfl, ?_⟩⟩
  · refine List.nodup_cons.mpr ⟨fun hmem => ?_, hnodup⟩
    obtain ⟨x, hx, heq⟩ := List.mem_map.mp hmem
    exact hnew x hx heq
  · simp [Store.entriesBy, hj]

/-- What else happens is the work of no call. -/
theorem apply_moves {e : Other} (h : e.apply s = some s') : Moves none s s' := by
  cases e with
  | inc userId id amount =>
      obtain ⟨⟨s₁, newBalance⟩, hinc, rfl⟩ := Option.map_eq_some_iff.mp h
      exact inc_moves hinc
  | initializeNewUser userId creditBalance =>
      obtain ⟨s₁, hcreate, rfl⟩ := Option.map_eq_some_iff.mp h
      have hmoves := create_moves hcreate
      exact ⟨hmoves.balance, hmoves.unique, hmoves.same⟩
  | deleteUser userId =>
      cases h
      exact setUsage_moves s none userId none
  | record t => exact record_moves h

/-- A command of a call is the work of that call. -/
theorem next_moves {w : Write} {p p' : Call} (h : p.next i w s = some (s', p')) :
    Moves (some i) s s' ∧ p'.request = p.request := by
  have hafter : ∀ stage, (p.after w stage).request = p.request := fun stage => by
    unfold Call.after
    split <;> rfl
  have hwrite : ∀ (written : Option Store) (stage : Stage),
      (∀ s₁, written = some s₁ → Moves (some i) s s₁) →
        Moves (some i) s (p.write w s written stage).1 ∧
          (p.write w s written stage).2.request = p.request := by
    intro written stage hw
    cases written with
    | none => exact ⟨Moves.refl _ s, rfl⟩
    | some s₁ =>
        refine ⟨?_, hafter stage⟩
        simp only [Call.write]
        split
        · exact hw s₁ rfl
        · exact Moves.refl _ s
  have hof : ∀ r : Store × Call, some r = some (s', p') →
      Moves (some i) s r.1 ∧ r.2.request = p.request → Moves (some i) s s' ∧ p'.request = p.request := by
    rintro r hr hmoves
    cases hr
    exact hmoves
  unfold Call.next at h
  split at h
  next =>
    cases h
    exact ⟨Moves.refl _ s, hafter _⟩
  next =>
    refine hof _ h ?_
    unfold Call.createUsage
    split
    · exact ⟨Moves.refl _ s, rfl⟩
    · exact ⟨⟨fun _ _ h => h, id, fun j _ => Same.refl s j⟩, by dsimp only; split <;> rfl⟩
  next =>
    cases h
    exact ⟨Moves.refl _ s, hafter _⟩
  next usage hstage => exact hof _ h (hwrite _ _ fun s₁ hs => record_moves hs)
  next usage hstage =>
    split at h
    next s₁ newBalance hinc =>
      exact hof _ h (hwrite _ _ fun s₂ hs => by
        cases hs
        exact inc_moves hinc)
    next =>
      cases h
      exact ⟨Moves.refl _ s, rfl⟩
  next newBalance hstage =>
    split at h
    next =>
      cases h
      exact ⟨Moves.refl _ s, hafter _⟩
    next usage _ => exact hof _ h (hwrite _ _ fun s₁ hs => create_moves hs)
  next => cases h

theorem growsBy_add {before amount : Double} (h : before.ExactSum amount) :
    GrowsBy before (before.add amount) amount := by
  obtain ⟨b, a, hbefore, hamount, hsum⟩ := h.exists
  exact ⟨b, a, hbefore, hamount, hsum⟩

/-- A ledger entry of the call. -/
theorem entered_record {r : Request} {balance : Double} (h : s.entriesBy i = [])
    (hexact : balance.ExactSum r.amount)
    (hs : s.record (some i) (r.transaction balance) = some s') :
    s'.changesBy i = s.changesBy i ∧ Entered s' i r := by
  obtain ⟨-, rfl⟩ := record_eq hs
  refine ⟨rfl, r.transaction balance, ?_, rfl, rfl, growsBy_add hexact⟩
  simpa [Store.entriesBy] using h

/-- The increment of the call. -/
theorem booked_inc {r : Request} {id : Nat} {newBalance : Double} (hchanges : s.changesBy i = [])
    (hentered : Entered s i r)
    (hexact : ∀ row, s.usage r.userId = some row → row.creditBalance.ExactSum r.amount)
    (hs : s.inc (some i) r.userId id (calculateBonusCredits r.amount).totalCredits =
      some (s', newBalance)) : Booked s' i r := by
  obtain ⟨row, hrow, -, rfl⟩ := inc_eq hs
  obtain ⟨t, ht, hrest⟩ := hentered
  refine ⟨⟨row.creditBalance, row.creditBalance.add r.amount, ?_, growsBy_add (hexact row hrow)⟩,
    t, ht, hrest⟩
  have hself : (s.setUsage (some i) r.userId
      (some { row with creditBalance := row.creditBalance.add r.amount })).changesBy i =
        ⟨r.userId, some row.creditBalance, some (row.creditBalance.add r.amount)⟩ ::
          s.changesBy i := by
    simp [Store.changesBy, Store.setUsage, Store.balance, hrow]
  rw [hchanges] at hself
  exact hself

/-- One command of a call that does not break off. -/
theorem next_standing {w : Write} {p p' : Call} (h : Standing s i p)
    (hok : p.unbroken s i w = true) (hnext : p.next i w s = some (s', p')) : Standing s' i p' := by
  obtain ⟨r, session, stage⟩ := p
  cases stage with
  | findOne =>
      obtain ⟨hnone, hsession⟩ := h
      cases hnext
      cases w with
      | failed ran => exact Or.inr hnone
      | done =>
          simp only [Call.after, Write.ok, if_true]
          split
          · exact hnone
          · exact ⟨hnone, hsession⟩
  | create =>
      obtain ⟨hnone, -⟩ := h
      simp only [Call.next, Option.some.injEq] at hnext
      unfold Call.createUsage at hnext
      split at hnext
      · cases hnext
        exact Or.inr hnone
      · cases hnext
        cases w with
        | failed ran => exact Or.inr hnone
        | done => exact hnone
  | getPricing usage =>
      cases hnext
      cases w with
      | failed ran => exact Or.inr h
      | done => exact h
  | createTransaction usage =>
      simp only [Call.next, Option.some.injEq] at hnext
      cases hrecord : s.record (some i) (r.transaction usage.creditBalance) with
      | none =>
          rw [hrecord] at hnext
          cases hnext
          exact Or.inr h
      | some s₁ =>
          rw [hrecord] at hnext
          cases w with
          | done =>
              cases hnext
              have hheld : session = none ∧ usage.creditBalance.ExactSum r.amount := by
                simpa [Call.unbroken, Write.ran, Write.ok, hrecord] using hok
              obtain ⟨hchanges, hentered⟩ := entered_record h.2 hheld.2 hrecord
              exact ⟨hchanges.trans h.1, hentered, hheld.1⟩
          | failed ran =>
              cases ran with
              | true => simp [Call.unbroken, Write.ran, Write.ok, hrecord] at hok
              | false =>
                  cases hnext
                  exact Or.inr h
  | addCredits usage =>
      obtain ⟨hchanges, hentered, hsession⟩ := h
      simp only [Call.unbroken, Bool.and_eq_true, Option.any_eq_true, decide_eq_true_eq] at hok
      obtain ⟨hran, row, hrow, hid, hexact⟩ := hok
      simp only [Call.next] at hnext
      split at hnext
      next s₁ newBalance hinc =>
        have hbooked := booked_inc hchanges hentered (fun row' hrow' => by
          rw [hrow] at hrow'
          cases hrow'
          exact hexact) hinc
        cases w with
        | done =>
            cases hnext
            exact ⟨hbooked, hsession⟩
        | failed ran =>
            cases ran with
            | true =>
                cases hnext
                exact Or.inl hbooked
            | false => cases hran
      next hinc => simp [Store.inc, hrow, hid] at hinc
  | commit newBalance =>
      obtain ⟨hbooked, hsession⟩ := h
      cases hsession
      cases hnext
      cases w with
      | failed ran => exact Or.inl hbooked
      | done => exact hbooked
  | done response => cases hnext

end

/-! ## Runs -/

/-- Nothing is known of a call that has not started; one that was lost has booked its request or
has done nothing. -/
structure Sound (start : Store) (c : Run) : Prop where
  balance : ∀ u, Leads (start.balance u) (c.shared.changesOf u) (c.shared.balance u)
  unique : (c.shared.ledger.map (·.2.transactionId)).Nodup
  fresh : ∀ i, c.procs.length ≤ i → Untouched c.shared i
  standing : ∀ i p, c.proc i = some p → Standing c.shared i p
  lost : ∀ i < c.procs.length, c.proc i = none →
    (∃ r, Booked c.shared i r) ∨ Untouched c.shared i

theorem Sound.of_fresh {start : Store} (h : Fresh start) : Sound start ⟨start, []⟩ where
  balance u := by simp [Store.changesOf, h.changes, Leads]
  unique := h.unique
  fresh i _ := by
    refine ⟨by simp [Store.changesBy, h.changes], ?_⟩
    have hnone : start.ledger.filter (·.1 = some i) = [] :=
      List.filter_eq_nil_iff.mpr fun x hx => by simp [h.ledger x hx]
    simp [Store.entriesBy, hnone]
  standing i p hi := by simp [Configuration.proc] at hi
  lost i hi := by simp at hi

/-- A call that is not between its entry and its increment may be lost. -/
theorem Standing.lost {s : Store} {i : Nat} {p : Call} (h : Standing s i p)
    (hp : p.entered = false) : (∃ r, Booked s i r) ∨ Untouched s i := by
  obtain ⟨r, session, stage⟩ := p
  cases stage with
  | findOne => exact Or.inr h.1
  | create => exact Or.inr h.1
  | getPricing usage => exact Or.inr h
  | createTransaction usage => exact Or.inr h
  | addCredits usage => cases hp
  | commit newBalance => exact Or.inl ⟨r, h.1⟩
  | done response =>
      cases response with
      | success => exact Or.inl ⟨r, h⟩
      | failed => exact Or.imp (fun hbooked => ⟨r, hbooked⟩) id h

theorem Sound.steps {start : Store} {c c' : Run} (h : Sound start c)
    (hstep : system.Steps (fun c m => Unbroken c m = true) c c') : Sound start c' := by
  rcases hstep.cases with ⟨r, s', p, -, hs, rfl⟩ | ⟨i, w, p, s', p', hok, hi, hs, rfl⟩ |
    ⟨i, hok, rfl⟩ | ⟨e, s', -, hs, rfl⟩
  · cases hs
    refine ⟨h.balance, h.unique, fun j hj => h.fresh j ?_, fun j q hj => ?_, fun j hj hnone => ?_⟩
    · simp only [List.length_append, List.length_singleton] at hj
      omega
    · rcases Configuration.proc_append (g := c.shared) hj with ⟨rfl, rfl⟩ | hj
      · exact ⟨h.fresh _ (Nat.le_refl _), rfl⟩
      · exact h.standing j q hj
    · by_cases hlt : j < c.procs.length
      · refine h.lost j hlt ?_
        simpa [Configuration.proc, List.getElem?_append_left hlt] using hnone
      · exact Or.inr (h.fresh j (by omega))
  · have hunbroken : p.unbroken c.shared i w = true := by simpa [Unbroken, hi] using hok
    obtain ⟨hmoves, -⟩ := next_moves hs
    have hlt := Configuration.lt_of_proc hi
    have hother : ∀ j, j ≠ i → Same c.shared s' j := fun j hne =>
      hmoves.same j (by simpa using Ne.symm hne)
    refine ⟨fun u => hmoves.balance _ u (h.balance u), hmoves.unique h.unique,
      fun j hj => ?_, fun j q hj => ?_, fun j hj hnone => ?_⟩
    · simp only [List.length_set] at hj
      exact (h.fresh j hj).same (hother j (by omega))
    · rcases Configuration.proc_set (g := c.shared) hj with ⟨rfl, heq⟩ | ⟨hne, hj⟩
      · cases heq
        exact next_standing (h.standing j p hi) hunbroken hs
      · exact (h.standing j q hj).same (hother j hne)
    · simp only [List.length_set] at hj
      have hne : j ≠ i := by
        rintro rfl
        rw [Configuration.proc_set_self hi] at hnone
        cases hnone
      rw [Configuration.proc_set_ne (g := c.shared) hne] at hnone
      exact (h.lost j hj hnone).imp (fun hr => hr.imp fun r hr => hr.same (hother j hne))
        (·.same (hother j hne))
  · refine ⟨h.balance, h.unique, fun j hj => h.fresh j (by simpa using hj), fun j q hj => ?_,
      fun j hj hnone => ?_⟩
    · rcases Configuration.proc_set (g := c.shared) hj with ⟨-, heq⟩ | ⟨-, hj⟩
      · cases heq
      · exact h.standing j q hj
    · simp only [List.length_set] at hj
      by_cases hne : j = i
      · subst hne
        cases hp : c.proc j with
        | none => exact h.lost j hj hp
        | some p => exact (h.standing j p hp).lost (by simpa [Unbroken, hp] using hok)
      · rw [Configuration.proc_set_ne (g := c.shared) hne] at hnone
        exact h.lost j hj hnone
  · have hmoves := apply_moves hs
    have hsame : ∀ j, Same c.shared s' j := fun j => hmoves.same j (by simp)
    exact ⟨fun u => hmoves.balance _ u (h.balance u), hmoves.unique h.unique,
      fun j hj => (h.fresh j hj).same (hsame j), fun j q hj => (h.standing j q hj).same (hsame j),
      fun j hj hnone => (h.lost j hj hnone).imp (fun hr => hr.imp fun r hr => hr.same (hsame j))
        (·.same (hsame j))⟩

theorem Sound.atomic {start : Store} {c : Run} (h : Sound start c) : Atomic start c where
  balance := h.balance
  unique := h.unique
  ended i p response hi hstage := by
    obtain ⟨r, session, stage⟩ := p
    have hstanding := h.standing i _ hi
    cases hstage
    cases response with
    | success => exact Or.inl hstanding
    | failed => exact hstanding
  lost := h.lost
  told i p response hi hstage hne := by
    obtain ⟨r, session, stage⟩ := p
    have hstanding := h.standing i _ hi
    cases hstage
    cases response with
    | success => exact hstanding
    | failed => exact absurd rfl hne

/-- If no call breaks off between its ledger entry and its increment, and their sums are exact, every
call has booked its request or has done nothing. -/
theorem addCredits_atomic {start : Store} (hstart : Fresh start) {c : Run}
    (h : system.Reaches (fun c m => Unbroken c m = true) ⟨start, []⟩ c) : Atomic start c := by
  have hsound : Sound start c :=
    System.Reaches.keeps (fun _ _ hc => hc.steps) (Sound.of_fresh hstart) h
  exact hsound.atomic

/-! ### A user with a row, and one without -/

def emptyStore : Store where
  usage := fun _ => none
  nextId := 1
  ledger := []
  changes := []

def storeWithRow : Store :=
  { emptyStore with usage := Function.update (fun _ => none) "ann" (some ⟨0, toDouble 10⟩) }

def purchase : Request where
  userId := "ann"
  email := "ann@x"
  amount := toDouble 25
  ipAddress := none
  userAgent := none
  extraMeta := ⟨some "admin", none, none, none⟩
  transactionId := "purchase_1_a"

/-- A call starts and takes so many commands, none of which fails. -/
def purchaseRun (n : Nat) : List CreditMove :=
  .spawn purchase :: List.replicate n (.step 0 .done)

def succeeded (c : Run) : Bool :=
  match (c.proc 0).map Call.stage with
  | some (.done (.success ..)) => true
  | _ => false

/-- Call 0 has ended with a ledger entry and without a change of the balance. -/
def entryAlone (c : Run) : Bool :=
  match (c.proc 0).map Call.stage with
  | some (.done _) => (c.shared.changesBy 0).isEmpty && !(c.shared.entriesBy 0).isEmpty
  | _ => false

theorem addCredits_atomic_purchase : ∃ c, succeeded c = true ∧ Atomic storeWithRow c := by
  obtain ⟨c, hreach, hc⟩ := System.exists_reaches_of_play system
    (fun c m => Unbroken c m = true) (purchaseRun 5) ⟨storeWithRow, []⟩ succeeded
    (by decide +kernel)
  have hfresh : Fresh storeWithRow := ⟨rfl, by simp [storeWithRow, emptyStore], by
    simp [storeWithRow, emptyStore]⟩
  exact ⟨c, hc, addCredits_atomic hfresh hreach⟩

/-- The first purchase of a user, in which no command fails: the row is created in the
transaction, the ledger entry outside it, and the increment does not find the row. -/
theorem addCredits_not_atomic :
    ¬ ∀ (start : Store), Fresh start → ∀ c : Run,
      system.Reaches (fun _ _ => True) ⟨start, []⟩ c → Atomic start c := by
  intro h
  obtain ⟨c, hreach, hc⟩ := System.exists_reaches_of_play system (fun _ _ => True)
    (purchaseRun 5) ⟨emptyStore, []⟩ entryAlone (by decide +kernel)
  have hfresh : Fresh emptyStore := ⟨rfl, by simp [emptyStore], by simp [emptyStore]⟩
  have hatomic := h emptyStore hfresh c hreach
  unfold entryAlone at hc
  split at hc
  next response hstage =>
    obtain ⟨p, hp, hstage⟩ := Option.map_eq_some_iff.mp hstage
    simp only [Bool.and_eq_true, List.isEmpty_iff, Bool.not_eq_true', List.isEmpty_eq_false_iff]
      at hc
    rcases hatomic.ended 0 p response hp hstage with ⟨⟨before, after, hchanges, -⟩, -⟩ | hnone
    · simp [hchanges] at hc
    · exact hc.2 hnone.2
  next => cases hc

end CitraFlows.CreditLedger
