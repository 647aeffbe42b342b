import QuakeJs.Ledger.Transaction

/-!
# `leaving.py`

Retiring a player session: `requestLeave` sets the durable flag, and
`finishLeave` queues one refund for each entry that still holds lives.
-/

namespace QuakeJs.Ledger

/-- `request_leave`. -/
def requestLeave (env : Env) (arenaId : Uid) (token : String) (σ : Ledger) :
    Except LedgerError (Participant × Ledger) := do
  let (_, σ₁) ← σ.lockArena arenaId false
  let player? ← σ₁.participant env arenaId token
  let player ← orRaise player? (.publicError "A paid player session is required.")
  if player.leaveState = .none then
    require (σ₁.entries.any (fun e => e.playerId = player.id && e.status = .paid) = true)
      (.publicError "There are no paid lives to refund.")
    pure ({ player with leaveState := .leaving },
      { σ₁ with
        participants := σ₁.participants.updateKey player.id
          (fun p => { p with leaveState := .leaving }) (fun _ => rfl) })
  else
    pure (player, σ₁)

/-- The creator share of an arena: none unless the arena was created publicly. -/
def creatorFee (arena : Arena) : Int := if arena.isPublic then arena.creatorHaircut else 0

/-- `refund_amounts`: the player's refund and the creator's share. -/
def refundAmounts (entry : Entry) (arena : Arena) : Int × Int :=
  let creator := creatorFee arena
  let value := (entry.remaining : Int) * entry.amount
  (value * (100 - entry.haircut - creator) / 500, value * creator / 500)

/-- The row that `refund_entry` inserts into `refund_payouts`. -/
def refundRow (env : Env) (k : Nat) (entry : Entry) (arena : Arena) : Payout :=
  let amount := (refundAmounts entry arena).1
  newPayout env (env.uid k) entry.arenaId entry.id "" entry.playerId entry.walletId
    entry.lnAddress amount (if amount = 0 then .withheld else .queued)

/-- The row that `refund_entry` inserts into `creator_payouts`. -/
def refundFeeRow (env : Env) (k : Nat) (entry : Entry) (arena : Arena) : Payout :=
  newPayout env (env.uid (k + 1)) entry.arenaId entry.id "" "" entry.walletId
    arena.creatorLnAddress (refundAmounts entry arena).2 .queued

/-- `if creator:` and the `INSERT` of a creator's share. -/
def insertFee (σ : Ledger) (row : Payout) : Except LedgerError Ledger :=
  if row.amount = 0 then pure σ else σ.insertPayout .creatorPayouts row

/-- `refund_entry`.  It draws the ids `uid k` and `uid (k + 1)`. -/
def refundEntry (env : Env) (k : Nat) (entry : Entry) (arena : Arena) (σ : Ledger) :
    Except LedgerError Ledger := do
  if entry.status ≠ .paid ∨ entry.remaining = 0 then
    pure σ
  else
    let σ₁ ← σ.insertPayout .refundPayouts (refundRow env k entry arena)
    let σ₂ ← σ₁.insertFee (refundFeeRow env k entry arena)
    pure { σ₂ with
      entries := σ₂.entries.updateKey entry.id
        (fun e => { e with remaining := 0 }) (fun _ => rfl) }

/-- The `for` loop of `finish_leave`. -/
def refundEntries (env : Env) (arena : Arena) : Nat → List Entry → Ledger →
    Except LedgerError Ledger
  | _, [], σ => pure σ
  | k, entry :: rest, σ => do
    let σ₁ ← refundEntry env k entry arena σ
    refundEntries env arena (k + 2) rest σ₁

/-- `finish_leave`. -/
def finishLeave (env : Env) (playerId revokedRun : Uid) (σ : Ledger) :
    Except LedgerError Ledger := do
  let row ← orRaise (σ.participants.get? playerId) .typeError
  let (arena, σ₁) ← σ.lockArena row.arenaId false
  let player ← orRaise (σ₁.participants.get? playerId) .typeError
  if player.leaveState = .left then
    pure σ₁
  else
    require (player.leaveState = .leaving) (.publicError "A leave request is required.")
    require (σ₁.lives.any (fun l => l.playerId = playerId && l.status = .alive
        && l.runId ≠ revokedRun) = false)
      (.publicError "Your game is recovering. The leave request is saved.")
    let entries := σ₁.entries.select
      (fun e => e.playerId = playerId && e.status = .paid && 0 < e.remaining)
    let σ₂ ← refundEntries env arena 0 entries σ₁
    pure { σ₂ with
      lives := σ₂.lives.update (fun l => l.playerId = playerId && l.status.open)
        (fun l => { l with status := .refunded, connectedUntil := 0, diedAt := some env.now })
        (fun _ => rfl)
      participants := σ₂.participants.updateKey playerId
        (fun p => { p with leaveState := .left }) (fun _ => rfl) }

end QuakeJs.Ledger
