import QuakeJs.Data.Table

/-!
# The rows of the ledger

One structure for each table of `migrations.py`, with the columns of the
schema after migration 12.  A column that can be `NULL` is an `Option`, a
0/1 column is a `Bool`, and a status column is an enumeration of the texts
that the code writes.  Money is integer satoshis, and a time is an integer
number of seconds or, for the `created_at` of an entry or a life,
nanoseconds.

The three outboxes `payouts`, `creator_payouts` and `refund_payouts` have the
same columns, so they share the row `Payout` and differ in their constraints
only.
-/

namespace QuakeJs

/-- `uid()`: 48 hexadecimal digits, or the empty string of a column default. -/
abbrev Uid := String

/-- A row of `settings_native`, one for each arena owner. -/
structure Settings where
  id : Uid
  walletId : String
  enabled : Bool
  haircut : Int
  updatedAt : Int
  allowPublicCreation : Bool
  publicId : Option String
deriving DecidableEq, Repr

/-- A row of `arenas`. -/
structure Arena where
  id : Uid
  ownerId : Uid
  walletId : String
  name : String
  map : String
  entryAmount : Int
  haircut : Int
  active : Bool
  revision : Nat
  createdAt : Int
  runId : Uid
  worker : Uid
  leaseUntil : Int
  isPublic : Bool
  creatorHaircut : Int
  creatorLnAddress : String
  publicNonce : Option String
  idleSince : Option Int
  lobbyHidden : Bool
  adminClosed : Bool
deriving DecidableEq, Repr

/-- `participants.leave_state`: `''`, `'leaving'` or `'left'`. -/
inductive LeaveState | none | leaving | left
deriving DecidableEq, Repr

/-- A row of `participants`: one player session in one arena. -/
structure Participant where
  id : Uid
  arenaId : Uid
  tokenHash : String
  name : String
  lnAddress : String
  createdAt : Int
  leaveState : LeaveState
deriving DecidableEq, Repr

/-- `entries.status`.  No code writes a text other than the first three;
`other` keeps the branch of `settleEntry` that refuses one. -/
inductive EntryStatus | creating | pending | paid | other (text : String)
deriving DecidableEq, Repr

/-- `status IN ('creating','pending')`. -/
def EntryStatus.unsettled : EntryStatus → Bool
  | .creating | .pending => true
  | .paid | .other _ => false

/-- A row of `entries`: one payment for five lives. -/
structure Entry where
  id : Uid
  arenaId : Uid
  playerId : Uid
  nonce : String
  walletId : String
  amount : Int
  haircut : Int
  lnAddress : String
  status : EntryStatus
  paymentHash : Option String
  bolt11 : Option String
  remaining : Nat
  createdAt : Int
  expiresAt : Int
deriving DecidableEq, Repr

inductive LifeStatus | alive | left | dead | refunded
deriving DecidableEq, Repr

/-- `status IN ('alive','left')`: the life can still be played. -/
def LifeStatus.open : LifeStatus → Bool
  | .alive | .left => true
  | .dead | .refunded => false

/-- A row of `lives`: one life of a paid entry, admitted to a run. -/
structure Life where
  id : Uid
  arenaId : Uid
  playerId : Uid
  entryId : Uid
  runId : Uid
  status : LifeStatus
  slot : Nat
  connectedUntil : Int
  createdAt : Int
  diedAt : Option Int
  killerId : Uid
deriving DecidableEq, Repr

inductive RunStatus | running | stopped | recovered
deriving DecidableEq, Repr

/-- A row of `runs`: one start of a game engine for an arena. -/
structure Run where
  id : Uid
  arenaId : Uid
  worker : Uid
  createdAt : Int
  status : RunStatus
  eventSequence : Int
deriving DecidableEq, Repr

inductive PayoutStatus | queued | prepared | sending | pending | paid | failed | withheld
deriving DecidableEq, Repr

/-- `status IN ('queued','prepared','sending','pending')`: the worker still
has something to do. -/
def PayoutStatus.due : PayoutStatus → Bool
  | .queued | .prepared | .sending | .pending => true
  | .paid | .failed | .withheld => false

/-- A row of one of the three outboxes. -/
structure Payout where
  id : Uid
  arenaId : Uid
  victimId : Uid
  killerId : Uid
  playerId : Uid
  walletId : String
  lnAddress : String
  amount : Int
  status : PayoutStatus
  bolt11 : Option String
  paymentHash : Option String
  attempts : Nat
  nextAttempt : Int
  claimedUntil : Int
  claim : Uid
  error : String
  createdAt : Int
  updatedAt : Int
deriving DecidableEq, Repr

/-- The outboxes, with the words of `payout_kind` in their docstrings. -/
inductive Outbox
  /-- `payouts`, the kind `kill`. -/
  | payouts
  /-- `creator_payouts`, the kind `creator`. -/
  | creatorPayouts
  /-- `refund_payouts`, the kind `refund`. -/
  | refundPayouts
deriving DecidableEq, Repr

/-- A row of `payout_invoice_claims`. -/
structure InvoiceClaim where
  paymentHash : String
  payoutId : Uid
deriving DecidableEq, Repr

instance : Keyed Settings Uid := ⟨Settings.id⟩
instance : Keyed Arena Uid := ⟨Arena.id⟩
instance : Keyed Participant Uid := ⟨Participant.id⟩
instance : Keyed Entry Uid := ⟨Entry.id⟩
instance : Keyed Life Uid := ⟨Life.id⟩
instance : Keyed Run Uid := ⟨Run.id⟩
instance : Keyed Payout Uid := ⟨Payout.id⟩
instance : Keyed InvoiceClaim String := ⟨InvoiceClaim.paymentHash⟩

/-- A whole ledger, at the moment between two transactions. -/
structure Ledger where
  settings : Table Settings
  arenas : Table Arena
  participants : Table Participant
  entries : Table Entry
  lives : Table Life
  runs : Table Run
  payouts : Table Payout
  creatorPayouts : Table Payout
  refundPayouts : Table Payout
  invoiceClaims : Table InvoiceClaim

namespace Ledger

/-- The schema with no rows. -/
def empty : Ledger where
  settings := .empty
  arenas := .empty
  participants := .empty
  entries := .empty
  lives := .empty
  runs := .empty
  payouts := .empty
  creatorPayouts := .empty
  refundPayouts := .empty
  invoiceClaims := .empty

/-- The table behind an outbox. -/
def outbox (σ : Ledger) : Outbox → Table Payout
  | .payouts => σ.payouts
  | .creatorPayouts => σ.creatorPayouts
  | .refundPayouts => σ.refundPayouts

/-- The ledger with the table of one outbox replaced. -/
def setOutbox (σ : Ledger) (k : Outbox) (t : Table Payout) : Ledger :=
  match k with
  | .payouts => { σ with payouts := t }
  | .creatorPayouts => { σ with creatorPayouts := t }
  | .refundPayouts => { σ with refundPayouts := t }

end Ledger

end QuakeJs
