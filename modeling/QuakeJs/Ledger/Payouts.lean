import QuakeJs.Ledger.Leases

/-!
# The transactions of `payments.py`

A payout worker claims a due row of one of the three outboxes, and writes the
row back under its claim.  A claim is a lease: it names the worker by a fresh
token and ends at `claimed_until`.
-/

namespace QuakeJs.Ledger

/-- The rows of an outbox that a worker may claim. -/
def readyIn (σ : Ledger) (now : Int) (k : Outbox) : List (Outbox × Payout) :=
  ((σ.outbox k).select (fun p => p.status.due && p.nextAttempt ≤ now
    && p.claimedUntil ≤ now)).map (fun p => (k, p))

/-- The `UNION ALL` of `claim_payout`. -/
def ready (σ : Ledger) (now : Int) : List (Outbox × Payout) :=
  σ.readyIn now .payouts ++ σ.readyIn now .creatorPayouts ++ σ.readyIn now .refundPayouts

/-- `ORDER BY next_attempt,created_at,id`. -/
def readyBefore (c d : Outbox × Payout) : Bool :=
  c.2.nextAttempt < d.2.nextAttempt || (c.2.nextAttempt = d.2.nextAttempt &&
    (c.2.createdAt < d.2.createdAt || (c.2.createdAt = d.2.createdAt && c.2.id < d.2.id)))

/-- `claim_payout`.  `uid 0` is the claim token.  The result is the claimed
row as it is written, with its outbox. -/
def claimPayout (env : Env) (σ : Ledger) : Option (Outbox × Payout) × Ledger :=
  match Table.first readyBefore (σ.ready env.now) with
  | none => (none, σ)
  | some (k, row) =>
    let lease : Payout → Payout :=
      fun p => { p with claim := env.uid 0, claimedUntil := env.now + 90 }
    (some (k, lease row),
      σ.setOutbox k ((σ.outbox k).updateKey row.id lease (fun _ => rfl)))

/-- The keyword arguments of `update_payout`: a column that is not given
keeps the value of the worker's own copy of the row. -/
structure PayoutValues where
  bolt11 : Option (Option String) := none
  paymentHash : Option (Option String) := none
  attempts : Option Nat := none
  nextAttempt : Option Int := none
  error : Option String := none
deriving DecidableEq, Repr

/-- `row.update(status=status, **values)`. -/
def PayoutValues.apply (v : PayoutValues) (status : PayoutStatus) (row : Payout) : Payout :=
  { row with
    status
    bolt11 := v.bolt11.getD row.bolt11
    paymentHash := v.paymentHash.getD row.paymentHash
    attempts := v.attempts.getD row.attempts
    nextAttempt := v.nextAttempt.getD row.nextAttempt
    error := v.error.getD row.error }

/-- The reservation of an invoice hash: insert the claim unless the hash has
one, and require that the claim is the row's own. -/
def claimInvoice (σ : Ledger) (hash : String) (payoutId : Uid) : Except LedgerError Ledger :=
  match σ.invoiceClaims.get? hash with
  | some owner => do
    require (owner.payoutId = payoutId) (.valueError "Payout invoice was already used.")
    pure σ
  | none => do
    require (σ.invoiceClaims.any (fun c => c.payoutId = payoutId) = false)
      (.integrityError "payout_id")
    let invoiceClaims ← orRaise (σ.invoiceClaims.insert? { paymentHash := hash, payoutId })
      (.integrityError "payment_hash")
    pure { σ with invoiceClaims }

/-- `if status == "prepared" and fields["payment_hash"]:` of `update_payout`. -/
def reserveInvoice (σ : Ledger) (fields : Payout) : Except LedgerError Ledger :=
  if fields.status = .prepared ∧ truthy fields.paymentHash = true then
    σ.claimInvoice (fields.paymentHash.getD "") fields.id
  else pure σ

/-- `update_payout`.  The result is the worker's own copy of the row. -/
def updatePayout (env : Env) (k : Outbox) (row : Payout) (status : PayoutStatus)
    (values : PayoutValues) (σ : Ledger) : Except LedgerError (Payout × Ledger) := do
  let fields := values.apply status row
  let σ₁ ← σ.reserveInvoice fields
  -- The `WHERE id=:id AND claim=:claim` of the update, and its `rowcount`.
  let stored ← orRaise ((σ₁.outbox k).get? row.id) (.runtimeError "Payout lease was lost.")
  require (stored.claim = row.claim) (.runtimeError "Payout lease was lost.")
  require (fields.paymentHash.isSome = true → (σ₁.outbox k).any (fun p => p.id ≠ row.id
      && p.paymentHash = fields.paymentHash) = false) (.integrityError "payment_hash")
  pure (fields, σ₁.setOutbox k ((σ₁.outbox k).updateKey row.id
    (fun p => { p with
      status
      updatedAt := env.now
      bolt11 := fields.bolt11
      paymentHash := fields.paymentHash
      attempts := fields.attempts
      nextAttempt := fields.nextAttempt
      error := fields.error }) (fun _ => rfl)))

/-- The last statement of an iteration of `payout_loop`: give the claim back,
and put off a row that is still due. -/
def releasePayout (env : Env) (k : Outbox) (row : Payout) (σ : Ledger) : Ledger :=
  σ.setOutbox k ((σ.outbox k).update (fun p => p.id = row.id && p.claim = row.claim)
    (fun p => { p with
      claimedUntil := 0
      nextAttempt := if p.status.due && p.nextAttempt ≤ env.now then env.now + 30
        else p.nextAttempt }) (fun _ => rfl))

end QuakeJs.Ledger
