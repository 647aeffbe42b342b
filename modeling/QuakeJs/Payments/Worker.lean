import QuakeJs.Async.Task
import QuakeJs.Ledger.Queue
import Mathlib.Data.Rat.Defs
import Mathlib.Algebra.Order.Ring.Rat

/-!
# The payout worker of `payments.py`

`process_payout` and `reconcile_payout` as coroutines.  Their awaits are the
transactions of `Ledger.Payouts`, and the calls into the core of the wallet
and out to a Lightning address provider, which may answer anything or raise.

`World` is what the workers share: the ledger, the claim tokens drawn so far,
and a history of what was committed and what was paid.  The last two are not
in the source.
-/

namespace QuakeJs.Payments

open Async

/-- A decoded invoice.  A payment hash is 32 bytes in hexadecimal. -/
structure Invoice where
  amountMsat : Option Int
  date : Int
  expiry : Int
  paymentHash : String
  paymentHash_ne : paymentHash ≠ ""

/-- An exception, as `invoice_error_detail` reports it. -/
structure Fault where
  detail : String
deriving DecidableEq, Repr

/-- `invoice_error_detail` of what a transaction raises. -/
def Fault.ofLedger : LedgerError → Fault
  | .valueError message => ⟨message⟩
  | _ => ⟨"Unable to obtain a valid payout invoice."⟩

/-- The keyword arguments of `pay_invoice`. -/
structure PayArguments where
  walletId : String
  paymentRequest : Option String
  maxSat : Int
  description : String
  tag : String
  externalId : Uid
  extraTag : String
  quakejsPayout : Uid
  quakejsVictim : Uid
  quakejsKind : String
deriving DecidableEq, Repr

/-- What a worker awaits.  `pay_invoice` is two operations: the call is made,
and later it returns. -/
inductive Op
  | claimPayout
  | updatePayout (k : Outbox) (row : Payout) (status : PayoutStatus)
      (values : Ledger.PayoutValues)
  | releasePayout (k : Outbox) (row : Payout)
  | getPrFromLnurl (lnAddress : String) (amountMsat : Int)
  | getStandalonePayment (paymentHash walletId : Option String)
  | checkPaymentStatus (payment : Payment)
  | payInvoice (k : Outbox) (claim : Uid) (arguments : PayArguments)
  | payInvoiceResult
  | notify (arenaId : Uid)
  | now
  | time

/-- What an operation returns. -/
abbrev Op.Ans : Op → Type
  | claimPayout => Option (Outbox × Payout)
  | updatePayout .. => Payout
  | releasePayout .. => Unit
  | getPrFromLnurl .. => String
  | getStandalonePayment .. => Option Payment
  | checkPaymentStatus _ => Bool
  | payInvoice .. => Unit
  | payInvoiceResult => Payment
  | notify _ => Unit
  | now => Int
  | time => Rat

abbrev Coroutine := Task Op Op.Ans Fault

/-! ## The operations -/

/-- `payout_kind`. -/
def payoutKind : Outbox → String
  | .payouts => "kill"
  | .creatorPayouts => "creator"
  | .refundPayouts => "refund"

/-- `matches_payout`. -/
def matchesPayout (payment : Payment) (k : Outbox) (row : Payout) : Bool :=
  payment.isOut
    && (payoutKind k = "kill" || payment.quakejsKind = some (payoutKind k))
    && payment.walletId = row.walletId
    && some payment.paymentHash = row.paymentHash
    && payment.amount = -row.amount * 1000
    && payment.tag = some "quakejs"
    && payment.quakejsPayout = some row.id
    && payment.quakejsVictim = some row.victimId

/-- The description of a payment. -/
def description : Outbox → String
  | .payouts => "QuakeJS frag payout"
  | .creatorPayouts => "QuakeJS creator fee"
  | .refundPayouts => "QuakeJS unused lives refund"

/-- What `process_payout` passes to `pay_invoice`. -/
def payArguments (k : Outbox) (row : Payout) : PayArguments where
  walletId := row.walletId
  paymentRequest := row.bolt11
  maxSat := row.amount
  description := description k
  tag := "quakejs"
  externalId := row.id
  extraTag := "quakejs"
  quakejsPayout := row.id
  quakejsVictim := row.victimId
  quakejsKind := payoutKind k

def await (op : Op) : Coroutine op.Ans := Task.perform op

/-- `update_payout`, on the worker's own copy of the row. -/
def updatePayout (k : Outbox) (row : Payout) (status : PayoutStatus)
    (values : Ledger.PayoutValues) : Coroutine Payout :=
  await (.updatePayout k row status values)

def getStandalonePayment (paymentHash walletId : Option String) : Coroutine (Option Payment) :=
  await (.getStandalonePayment paymentHash walletId)

/-- `pay_invoice`. -/
def payInvoice (k : Outbox) (claim : Uid) (arguments : PayArguments) : Coroutine Payment := do
  let _ ← await (.payInvoice k claim arguments)
  await .payInvoiceResult

def now : Coroutine Int := await .now

/-! ## `process_payout` -/

section

variable (decode : String → Option Invoice)

/-- The invoice is for the amount of the row, and does not expire too soon. -/
def Invoice.fits (invoice : Invoice) (row : Payout) (time : Rat) : Prop :=
  invoice.amountMsat = some (row.amount * 1000) ∧ time + 10 < invoice.date + invoice.expiry

instance (invoice : Invoice) (row : Payout) (time : Rat) : Decidable (invoice.fits row time) :=
  inferInstanceAs (Decidable (_ ∧ _))

/-- `existing and not (existing.is_in and existing.pending)`. -/
def alreadyUsed (existing : Option Payment) : Bool :=
  match existing with
  | none => false
  | some payment => !(payment.isIn && payment.pending)

/-- The rest of the `try` of a queued row, once there is an invoice. -/
def reservePr (k : Outbox) (row : Payout) (pr : String) (invoice : Invoice) :
    Coroutine Payout := do
  let time ← (await .time : Coroutine Rat)
  if !decide (invoice.fits row time) then Task.raise ⟨"Invalid payout invoice."⟩ else
  let existing ← getStandalonePayment invoice.paymentHash none
  if alreadyUsed existing then Task.raise ⟨"Payout invoice was already used."⟩ else
  updatePayout k row .prepared
    { bolt11 := some (some pr), paymentHash := some (some invoice.paymentHash), error := some "" }

/-- The `try` of a queued row. -/
def fetchInvoice (k : Outbox) (row : Payout) : Coroutine Payout := do
  let pr ← (await (.getPrFromLnurl row.lnAddress (row.amount * 1000)) : Coroutine String)
  match decode pr with
  | none => Task.raise ⟨"Unable to obtain a valid payout invoice."⟩
  | some invoice => reservePr k row pr invoice

/-- The `except` of a queued row. -/
def deferPayout (k : Outbox) (row : Payout) (fault : Fault) : Coroutine Payout := do
  let attempts := row.attempts + 1
  let t ← now
  updatePayout k row (if 8 ≤ attempts then .failed else .queued)
    { attempts := some attempts
      nextAttempt := some (t + min 3600 (15 * 2 ^ min attempts 8))
      error := some fault.detail }

/-- `if row["status"] == "queued"`.  The result is `none` when it returns. -/
def preparePayout (k : Outbox) (row : Payout) : Coroutine (Option Payout) :=
  Task.handle (do return some (← fetchInvoice decode k row)) fun fault => do
    let _ ← deferPayout k row fault
    return none

/-- The `try` around `pay_invoice`. -/
def payRow (k : Outbox) (row : Payout) : Coroutine Payout := do
  let payment ← payInvoice k row.claim (payArguments k row)
  if matchesPayout payment k row then
    let t ← now
    updatePayout k row (if payment.success then .paid else .pending)
      { nextAttempt := some (t + 15) }
  else
    updatePayout k row .failed
      { error := some "Payment identity mismatch. Owner review required." }

/-- `if row["status"] == "prepared"`. -/
def sendPayout (k : Outbox) (row : Payout) : Coroutine Payout := do
  -- Committed before the call: a crash after this point is uncertain.
  let sending ← updatePayout k row .sending {}
  (payRow k sending).handle fun _ => do
    let t ← now
    updatePayout k sending .pending
      { nextAttempt := some (t + 15), error := some "Payment outcome needs reconciliation." }

/-! ## `reconcile_payout` -/

/-- The last statement: look again in half a minute. -/
def lookAgain (k : Outbox) (row : Payout) : Coroutine Payout := do
  let t ← now
  updatePayout k row .pending { nextAttempt := some (t + 30) }

/-- The statements after the status check: `payment` is what is known by then. -/
def concludePayout (k : Outbox) (row : Payout) (payment : Option Payment) : Coroutine Payout :=
  match payment with
  | some payment =>
    if matchesPayout payment k row && payment.success then
      updatePayout k row .paid { error := some "" }
    else if payment.failed then
      updatePayout k row .failed {
        error := some "Lightning payment failed. No automatic resend." }
    else lookAgain k row
  | none => lookAgain k row

/-- The `try` around `check_payment_status`.  The result is `none` when it
returns, and otherwise the payment that is known after it. -/
def checkPayout (k : Outbox) (row : Payout) (payment : Payment) :
    Coroutine (Option (Option Payment)) :=
  Task.handle (do
    let success ← (await (.checkPaymentStatus payment) : Coroutine Bool)
    if success then
      let _ ← updatePayout k row .paid { error := some "" }
      return none
    else
      let again ← getStandalonePayment row.paymentHash (some row.walletId)
      return some again)
    fun _ => return some (some payment)

/-- `if payment.pending`. -/
def recheckPayout (k : Outbox) (row : Payout) (payment : Payment) :
    Coroutine (Option (Option Payment)) :=
  if payment.pending then checkPayout k row payment else return some (some payment)

/-- The part of `reconcile_payout` where there is a payment that matches. -/
def reconcileKnown (k : Outbox) (row : Payout) (payment : Payment) : Coroutine Unit := do
  match ← recheckPayout k row payment with
  | none => return ()
  | some known => do
    let _ ← concludePayout k row known
    return ()

/-- `reconcile_payout` of a payment that is known. -/
def reconcileFound (k : Outbox) (row : Payout) (payment : Payment) : Coroutine Unit :=
  if matchesPayout payment k row then reconcileKnown k row payment
  else do
    let _ ← updatePayout k row .failed
      { error := some "Payment identity mismatch. Owner review required." }
    return ()

/-- `reconcile_payout`. -/
def reconcilePayout (k : Outbox) (row : Payout) : Coroutine Unit := do
  match ← getStandalonePayment row.paymentHash (some row.walletId) with
  | some payment => reconcileFound k row payment
  | none => do
    let _ ← concludePayout k row none
    return ()

/-- `process_payout`, from the second `if` on. -/
def processPrepared (k : Outbox) (row : Payout) : Coroutine Unit := do
  if row.status = .prepared then
    let _ ← sendPayout k row
    return ()
  else if row.status = .sending ∨ row.status = .pending then reconcilePayout k row
  else return ()

/-- `process_payout`. -/
def processPayout (k : Outbox) (row : Payout) : Coroutine Unit := do
  if row.status = .queued then
    match ← preparePayout decode k row with
    | none => return ()
    | some prepared => processPrepared k prepared
  else processPrepared k row

/-- One round of `payout_loop`.  Its `fail_after(60)` shows as a cancellation. -/
def payoutRound : Coroutine Unit := do
  let claimed ← (await .claimPayout : Coroutine (Option (Outbox × Payout)))
  match claimed with
  | none => return ()
  | some (k, row) =>
    Task.anyway
      (Task.handle (do
        processPayout decode k row
        await (.notify row.arenaId)) fun _ => return ())
      (Task.handle (await (.releasePayout k row)) fun _ => return ())

end

/-! ## The world of the workers -/

/-- What was done to the payouts. -/
inductive Happening
  /-- An `update_payout` was committed, and left this row. -/
  | wrote (k : Outbox) (row : Payout)
  /-- `pay_invoice` was called, by the worker with this claim. -/
  | called (k : Outbox) (claim : Uid) (arguments : PayArguments)
deriving DecidableEq, Repr

/-- `history` has the newest first. -/
structure World where
  ledger : Ledger
  tokens : List Uid
  history : List Happening

def World.initial : World := ⟨Ledger.empty, [], []⟩

/-- The world after a committed update of the row `id`. -/
def World.wrote (w : World) (k : Outbox) (id : Uid) (σ : Ledger) : World :=
  { w with
    ledger := σ
    history := (((σ.outbox k).get? id).map (Happening.wrote k)).toList ++ w.history }

/-- What an operation does when it runs to its end. -/
def Effect (op : Op) (w : World) (result : Except LedgerError op.Ans) (w' : World) : Prop :=
  match op with
  | .claimPayout => ∃ env : Env, env.uid 0 ≠ "" ∧ env.uid 0 ∉ w.tokens ∧
      result = .ok (Ledger.claimPayout env w.ledger).1 ∧
      w' = { w with
        ledger := (Ledger.claimPayout env w.ledger).2
        tokens := env.uid 0 :: w.tokens }
  | .updatePayout k row status values => ∃ env : Env,
      (∃ row' σ, Ledger.updatePayout env k row status values w.ledger = .ok (row', σ) ∧
        result = .ok row' ∧ w' = w.wrote k row.id σ) ∨
      (∃ e, Ledger.updatePayout env k row status values w.ledger = .error e ∧
        result = .error e ∧ w' = w)
  | .releasePayout k row => ∃ env : Env, result = .ok () ∧
      w' = { w with
        ledger := Ledger.releasePayout env k row w.ledger }
  | .payInvoice k claim arguments => result = .ok () ∧
      w' = { w with
        history := .called k claim arguments :: w.history }
  | _ => w' = w

/-- An operation runs to its end, or raises without having done anything, or
has done what it does and still raises: a cancellation can come before the
await returns, and a connection can be lost after a commit. -/
def Performs (op : Op) (w : World) (outcome : Except (Raised Fault) op.Ans) (w' : World) : Prop :=
  (∃ result, Effect op w result w' ∧
    (outcome = result.mapError (fun e => .error (.ofLedger e)) ∨
      ∃ raised, outcome = .error raised)) ∨
  (w' = w ∧ ∃ raised, outcome = .error raised)

/-- As `Performs`, with a database that keeps the word of `transaction`: an
update that raises an exception was rolled back.  One that is cancelled may
have been committed. -/
def PerformsAtomically (op : Op) (w : World) (outcome : Except (Raised Fault) op.Ans)
    (w' : World) : Prop :=
  Performs op w outcome w' ∧ ∀ k row status values fault,
    op = .updatePayout k row status values → outcome = .error (.error fault) → w' = w

/-- The rest of the extension commits one of its transactions. -/
def Outside (w w' : World) : Prop :=
  ∃ env a σ, a.ofGame = true ∧ Env.Fresh env w.ledger ∧ perform env a w.ledger = .ok σ ∧
    w' = { w with
      ledger := σ }

/-- A crash of the process leaves the world as it is. -/
def Crashes (w w' : World) : Prop := w' = w

/-- Any number of workers, from the empty ledger on. -/
abbrev Reachable (decode : String → Option Invoice) (pool : Pool Op Op.Ans Fault World) : Prop :=
  Pool.Reachable Performs (fun task => task = payoutRound decode)
    Outside Crashes World.initial pool

/-- The same workers over a database that rolls back what raises. -/
abbrev Commits (decode : String → Option Invoice) (pool : Pool Op Op.Ans Fault World) : Prop :=
  Pool.Reachable PerformsAtomically (fun task => task = payoutRound decode) Outside Crashes
    World.initial pool

/-- The same workers, with a log of the answers that they got. -/
abbrev Logs (decode : String → Option Invoice)
    (pool : Pool Op Op.Ans Fault (World × List (Answer Op Op.Ans Fault))) : Prop :=
  Pool.Reachable (Logged PerformsAtomically) (fun task => task = payoutRound decode)
    (Unlogged Outside) (Unlogged Crashes) (World.initial, []) pool

/-- The steps of such a pool. -/
abbrev Goes (decode : String → Option Invoice)
    (pool pool' : Pool Op Op.Ans Fault (World × List (Answer Op Op.Ans Fault))) : Prop :=
  Relation.ReflTransGen (Pool.Step (Logged PerformsAtomically)
    (fun task => task = payoutRound decode) (Unlogged Outside) (Unlogged Crashes)) pool pool'

end QuakeJs.Payments
