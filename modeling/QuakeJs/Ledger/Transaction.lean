import QuakeJs.Data.Fallible
import QuakeJs.Ledger.Rows
import Mathlib.Algebra.Order.Ring.Int

/-!
# Transactions

`crud.transaction` runs a sequence of statements and commits them together;
any exception rolls all of them back.  A transaction is therefore a function
from the ledger to `Except LedgerError (result × Ledger)`: on `.error` the
ledger stays what it was.

The functions read the clock, draw fresh ids and hash the player token.
`Env` carries these, so that a transaction is a function of its arguments.
The statements of one transaction read one value of each clock.
-/

namespace QuakeJs

/-- The exceptions that leave a transaction, with their texts. -/
inductive LedgerError
  /-- `PublicError`, shown to a player. -/
  | publicError (message : String)
  /-- `LobbyError`, shown to a visitor of the lobby. -/
  | lobbyError (message : String)
  /-- `ValueError`. -/
  | valueError (message : String)
  /-- `RuntimeError`. -/
  | runtimeError (message : String)
  /-- `HTTPException`. -/
  | httpError (status : Nat) (detail : String)
  /-- `IntegrityError`: the named column breaks a constraint of the schema. -/
  | integrityError (column : String)
  /-- `TypeError`: a subscript of `None`, where a row was expected. -/
  | typeError
deriving DecidableEq, Repr

/-- What a transaction takes from outside: `now()`, `time_ns()`, the ids that
successive calls of `uid()` return, and `hashlib.sha256`. -/
structure Env where
  now : Int
  timeNs : Int
  uid : Nat → Uid
  sha256 : String → String

/-! ## `models.py` -/

def maxPlayers : Nat := 8

def maxTotalHaircut : Int := 50

/-- `MAPS`, the values only. -/
def maps : List String := ["aggressor", "oa_dm7", "oa_minia", "czest1dm", "oa_shine", "kaos2"]

/-- One fifth of the entry, less the fee, rounded down once to whole sats. -/
def prizePerKill (entryAmount haircut : Int) : Int := entryAmount * (100 - haircut) / 500

/-- A validated `ArenaInput`. -/
structure ArenaInput where
  name : String
  joinAmount : Int
  map : String
  joinAmount_ge : 100 ≤ joinAmount
  joinAmount_le : joinAmount ≤ 1000000

/-- A validated `PublicArenaInput`. -/
structure PublicArenaInput extends ArenaInput where
  creatorHaircut : Int
  lnAddress : String
  nonce : String
  creatorHaircut_ge : 0 ≤ creatorHaircut
  creatorHaircut_le : creatorHaircut ≤ maxTotalHaircut

/-- A validated `EntryInput`. -/
structure EntryInput where
  lnAddress : String
  nonce : String
  name : String
deriving DecidableEq, Repr

/-- The fields that the extension reads of a payment record of the core. -/
structure Payment where
  walletId : String
  /-- In millisatoshis, negative when outgoing. -/
  amount : Int
  paymentHash : String
  bolt11 : String
  success : Bool
  pending : Bool
  failed : Bool
  isIn : Bool
  isOut : Bool
  /-- `extra.get("tag")`. -/
  tag : Option String
  /-- `extra.get("quakejs_entry")`. -/
  quakejsEntry : Option String
  /-- `extra.get("quakejs_payout")`. -/
  quakejsPayout : Option String
  /-- `extra.get("quakejs_victim")`. -/
  quakejsVictim : Option String
  /-- `extra.get("quakejs_kind")`. -/
  quakejsKind : Option String
deriving DecidableEq, Repr

/-- The truth value of a nullable text: neither `None` nor empty. -/
def truthy (text : Option String) : Bool :=
  match text with
  | none => false
  | some t => t ≠ ""

/-! ## The shared statements -/

/-- `token_hash`: the only accepted token is 48 hexadecimal digits. -/
def tokenHash (env : Env) (token : String) : Except LedgerError String := do
  require (token.length = 48 ∧ token.toList.all (fun c => c ∈ "0123456789abcdef".toList) = true)
    (.publicError "Invalid player session.")
  pure (env.sha256 token)

namespace Ledger

/-- `Tx.lock_arena`: take the write lock of an arena by bumping its revision. -/
def lockArena (σ : Ledger) (arenaId : Uid) (active : Bool) :
    Except LedgerError (Arena × Ledger) := do
  let row ← orRaise (σ.arenas.get? arenaId) (.publicError "Arena is unavailable.")
  require (active = true → row.active = true) (.publicError "Arena is unavailable.")
  pure ({ row with revision := row.revision + 1 },
    { σ with
      arenas := σ.arenas.updateKey arenaId
        (fun a => { a with revision := a.revision + 1 }) (fun _ => rfl) })

/-- `participant`: the session of a token in an arena. -/
def participant (σ : Ledger) (env : Env) (arenaId : Uid) (token : String) :
    Except LedgerError (Option Participant) := do
  let hash ← tokenHash env token
  pure (σ.participants.select (fun p => p.arenaId = arenaId && p.tokenHash = hash)).head?

/-- The `CHECK(amount ...)` of an outbox. -/
def amountOk : Outbox → Int → Bool
  | .payouts, amount => 0 ≤ amount
  | .creatorPayouts, amount => 0 < amount
  | .refundPayouts, amount => 0 ≤ amount

/-- `INSERT` into an outbox, under its `CHECK`, `UNIQUE(victim_id)` and
primary key. -/
def insertPayout (σ : Ledger) (k : Outbox) (row : Payout) : Except LedgerError Ledger := do
  require (amountOk k row.amount = true) (.integrityError "amount")
  require ((σ.outbox k).any (fun p => p.victimId = row.victimId) = false)
    (.integrityError "victim_id")
  let t ← orRaise ((σ.outbox k).insert? row) (.integrityError "id")
  pure (σ.setOutbox k t)

/-- `INSERT ... ON CONFLICT(victim_id) DO NOTHING` into an outbox. -/
def queuePayout (σ : Ledger) (k : Outbox) (row : Payout) : Except LedgerError Ledger := do
  require (amountOk k row.amount = true) (.integrityError "amount")
  if (σ.outbox k).any (fun p => p.victimId = row.victimId) then
    pure σ
  else
    let t ← orRaise ((σ.outbox k).insert? row) (.integrityError "id")
    pure (σ.setOutbox k t)

end Ledger

/-- A new row of an outbox, with the column defaults of the schema. -/
def newPayout (env : Env) (id arenaId victimId killerId playerId walletId : String)
    (lnAddress : String) (amount : Int) (status : PayoutStatus) : Payout where
  id
  arenaId
  victimId
  killerId
  playerId
  walletId
  lnAddress
  amount
  status
  bolt11 := none
  paymentHash := none
  attempts := 0
  nextAttempt := 0
  claimedUntil := 0
  claim := ""
  error := ""
  createdAt := env.now
  updatedAt := env.now

end QuakeJs
