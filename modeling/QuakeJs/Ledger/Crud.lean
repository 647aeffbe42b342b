import Mathlib.Data.String.Basic
import QuakeJs.Ledger.Leaving

/-!
# `crud.py`

The transactions of the life ledger: settings and arenas, the reservation and
settlement of an entry, the death of a life and its payouts, and the
allocation of a life to a player.
-/

namespace QuakeJs.Ledger

/-! ## Settings and arenas -/

/-- The upsert of `save_settings`. -/
def upsertSettings (env : Env) (owner walletId : String) (enabled : Bool) (haircut : Int)
    (σ : Ledger) : Except LedgerError (Table Settings) :=
  match σ.settings.get? owner with
  | some _ => pure (σ.settings.updateKey owner
      (fun s => { s with walletId, enabled, haircut, updatedAt := env.now }) (fun _ => rfl))
  | none => orRaise (σ.settings.insert?
      { id := owner, walletId, enabled, haircut, updatedAt := env.now
        allowPublicCreation := false, publicId := none }) (.integrityError "id")

/-- `save_settings`.  The upsert keeps the columns that its second statement
does not name, and `public_id` is only ever assigned once. -/
def saveSettings (env : Env) (owner walletId : String) (enabled : Bool) (haircut : Int)
    (allowPublicCreation : Bool) (σ : Ledger) : Except LedgerError Ledger := do
  require (0 ≤ haircut ∧ haircut ≤ maxTotalHaircut)
    (.valueError "The service fee must be a whole percentage from 0 to 50.")
  let settings ← upsertSettings env owner walletId enabled haircut σ
  require (((σ.settings.get? owner).bind Settings.publicId).isNone = true →
      σ.settings.any (fun s => s.publicId = some (env.uid 0)) = false)
    (.integrityError "public_id")
  pure { σ with
    settings := settings.updateKey owner
      (fun s => { s with
        allowPublicCreation
        publicId := some (s.publicId.getD (env.uid 0)) }) (fun _ => rfl) }

/-- A new row of `arenas`, with the column defaults of the schema. -/
def newArena (id ownerId walletId name map : String) (entryAmount haircut createdAt : Int) :
    Arena where
  id
  ownerId
  walletId
  name
  map
  entryAmount
  haircut
  active := true
  revision := 0
  createdAt
  runId := ""
  worker := ""
  leaseUntil := 0
  isPublic := false
  creatorHaircut := 0
  creatorLnAddress := ""
  publicNonce := none
  idleSince := none
  lobbyHidden := false
  adminClosed := false

/-- `create_arena`. -/
def createArena (env : Env) (owner : Uid) (data : ArenaInput) (σ : Ledger) :
    Except LedgerError (Arena × Ledger) := do
  let settings ← orRaise (σ.settings.get? owner)
    (.valueError "Enable QuakeJS and select a wallet first.")
  require (settings.enabled = true) (.valueError "Enable QuakeJS and select a wallet first.")
  require (0 ≤ settings.haircut ∧ settings.haircut ≤ maxTotalHaircut)
    (.valueError "Set the service fee between 0 and 50% first.")
  let row := newArena (env.uid 0) owner settings.walletId data.name data.map data.joinAmount
    settings.haircut env.now
  let arenas ← orRaise (σ.arenas.insert? row) (.integrityError "id")
  pure (row, { σ with arenas })

/-! ## Entries -/

/-- `SELECT SUM(remaining)` over the entries of a player. -/
def remainingOf (σ : Ledger) (playerId : Uid) : Nat :=
  σ.entries.sum (fun e => if e.playerId = playerId then e.remaining else 0)

/-- The players that hold a place in an arena: by an alive life, or by an
entry whose invoice is still open. -/
def occupants (σ : Ledger) (arenaId : Uid) (now : Int) : List Uid :=
  ((σ.lives.select (fun l => l.arenaId = arenaId && l.status = .alive)).map Life.playerId ++
    (σ.entries.select (fun e => e.arenaId = arenaId && e.status.unsettled
      && now < e.expiresAt)).map Entry.playerId).dedup

/-- `if not player:` of `reserve_entry`: insert the session of a new token.
The result is the id of the player. -/
def insertParticipant (env : Env) (arenaId : Uid) (token : String) (data : EntryInput)
    (player? : Option Participant) (σ : Ledger) : Except LedgerError (Uid × Ledger) :=
  match player? with
  | some player => pure (player.id, σ)
  | none => do
    let hash ← tokenHash env token
    require (σ.participants.any (fun p => p.arenaId = arenaId && p.tokenHash = hash) = false)
      (.integrityError "token_hash")
    let participants ← orRaise (σ.participants.insert?
      { id := env.uid 0, arenaId, tokenHash := hash, name := data.name
        lnAddress := data.lnAddress, createdAt := env.now, leaveState := .none })
      (.integrityError "id")
    pure (env.uid 0, { σ with participants })

/-- The row that `reserve_entry` inserts into `entries`. -/
def entryRow (env : Env) (arena : Arena) (playerId : Uid) (data : EntryInput) : Entry where
  id := env.uid 1
  arenaId := arena.id
  playerId
  nonce := data.nonce
  walletId := arena.walletId
  amount := arena.entryAmount
  haircut := arena.haircut
  lnAddress := data.lnAddress
  status := .creating
  paymentHash := none
  bolt11 := none
  remaining := 0
  createdAt := env.timeNs
  expiresAt := env.now + 300

/-- The last part of `reserve_entry`: insert the participant, if it is new,
and the entry. -/
def insertEntry (env : Env) (arena : Arena) (token : String) (data : EntryInput)
    (player? : Option Participant) (σ : Ledger) : Except LedgerError (Entry × Ledger) := do
  require ((σ.occupants arena.id env.now).length < maxPlayers)
    (.publicError "This arena is full. Try again when a slot opens.")
  let (playerId, σ₁) ← insertParticipant env arena.id token data player? σ
  require (σ₁.entries.any (fun e => e.playerId = playerId && e.nonce = data.nonce) = false)
    (.integrityError "nonce")
  let entry := entryRow env arena playerId data
  let entries ← orRaise (σ₁.entries.insert? entry) (.integrityError "id")
  pure (entry, { σ₁ with entries })

/-- `reserve_entry`.  The `Bool` of the result is the key `_new`. -/
def reserveEntry (env : Env) (arenaId : Uid) (token : String) (data : EntryInput)
    (σ : Ledger) : Except LedgerError ((Entry × Bool) × Ledger) := do
  let (arena, σ₁) ← σ.lockArena arenaId true
  let setting ← orRaise (σ₁.settings.get? arena.ownerId)
    (.publicError "This arena is not accepting new entries.")
  require (setting.enabled = true) (.publicError "This arena is not accepting new entries.")
  let player? ← σ₁.participant env arenaId token
  match player? with
  | none =>
    let (entry, σ₂) ← insertEntry env arena token data none σ₁
    pure ((entry, true), σ₂)
  | some player =>
    require (player.leaveState = .none)
      (.publicError "You have left this game. Start a new player session to rejoin.")
    match (σ₁.entries.select (fun e => e.playerId = player.id && e.nonce = data.nonce)).head? with
    | some existing => pure ((existing, false), σ₁)
    | none =>
      require (σ₁.remainingOf player.id = 0)
        (.publicError "You already have unused lives. Respawn instead of paying again.")
      match (σ₁.entries.select (fun e => e.playerId = player.id && e.status.unsettled
          && env.now < e.expiresAt)).head? with
      | some existing => pure ((existing, false), σ₁)
      | none =>
        let (entry, σ₂) ← insertEntry env arena token data (some player) σ₁
        pure ((entry, true), σ₂)

/-- Whether writing a payment hash to an entry breaks `UNIQUE(payment_hash)`. -/
def hashTaken (σ : Ledger) (entryId : Uid) (hash : String) : Bool :=
  σ.entries.any (fun e => e.id ≠ entryId && e.paymentHash = some hash)

/-- `record_invoice`: one `UPDATE`, which matches an entry that is being
created and has no hash. -/
def recordInvoice (entryId : Uid) (payment : Payment) (σ : Ledger) :
    Except LedgerError Ledger :=
  match σ.entries.get? entryId with
  | none => pure σ
  | some entry =>
    if entry.status = .creating ∧ entry.paymentHash = none then do
      require (σ.hashTaken entryId payment.paymentHash = false) (.integrityError "payment_hash")
      pure { σ with
        entries := σ.entries.updateKey entryId
          (fun e => { e with
            paymentHash := some payment.paymentHash
            bolt11 := some payment.bolt11
            status := .pending }) (fun _ => rfl) }
    else pure σ

/-- The transaction of `settle_entry`, for an entry that exists. -/
def creditEntry (env : Env) (payment : Payment) (entry : Entry) (σ : Ledger) :
    Except LedgerError Ledger := do
  let (arena, σ₁) ← σ.lockArena entry.arenaId false
  require (payment.walletId = entry.walletId ∧ payment.amount = entry.amount * 1000)
    (.valueError "Entry payment does not match its wallet and amount.")
  require (truthy entry.paymentHash = true → entry.paymentHash = some payment.paymentHash)
    (.valueError "Entry payment hash mismatch.")
  if entry.status = .paid then
    pure σ₁
  else
    require (entry.status.unsettled = true) (.valueError "Entry payment requires owner review.")
    require (σ₁.hashTaken entry.id payment.paymentHash = false) (.integrityError "payment_hash")
    let σ₂ : Ledger := { σ₁ with
      entries := σ₁.entries.updateKey entry.id
        (fun e => { e with
          status := .paid
          remaining := 5
          paymentHash := some payment.paymentHash
          bolt11 := some payment.bolt11 }) (fun _ => rfl) }
    let player ← orRaise (σ₂.participants.get? entry.playerId) .typeError
    match player.leaveState with
    | .left => refundEntry env 0 { entry with status := .paid, remaining := 5 } arena σ₂
    | .leaving => pure σ₂
    | .none =>
      pure { σ₂ with
        -- A late payment restores an expired arena, but not one its owner closed.
        arenas := σ₂.arenas.update (fun a => a.id = entry.arenaId && !a.adminClosed)
          (fun a => { a with active := true, lobbyHidden := false, idleSince := some env.now })
          (fun _ => rfl)
        participants := σ₂.participants.updateKey entry.playerId
          (fun p => { p with lnAddress := entry.lnAddress }) (fun _ => rfl) }

/-- `settle_entry`.  The result is the arena of the entry, or `None` for a
payment that is not a settled entry of this extension. -/
def settleEntry (env : Env) (payment : Payment) (σ : Ledger) :
    Except LedgerError (Option Uid × Ledger) :=
  if payment.success = false ∨ payment.isIn = false ∨ payment.tag ≠ some "quakejs" then
    pure (none, σ)
  else
    match payment.quakejsEntry.bind σ.entries.get? with
    | none => pure (none, σ)
    | some entry => do
      let σ₁ ← creditEntry env payment entry σ
      pure (some entry.arenaId, σ₁)

/-! ## Deaths -/

/-- Whether the killer of a death earns a payout: another life of the same
run, of another player. -/
def payableKiller (σ : Ledger) (arenaId runId : Uid) (victim : Life) (killerId : Uid) :
    Option Life :=
  (σ.lives.get? killerId).filter (fun killer => killer.arenaId = arenaId
    && killer.runId = runId && killerId ≠ victim.id && killer.playerId ≠ victim.playerId)

/-- The row that a payable death inserts into `payouts`. -/
def killRow (env : Env) (arena : Arena) (entry destination : Entry) (victim killer : Life) :
    Payout :=
  let amount := prizePerKill entry.amount (entry.haircut + creatorFee arena)
  newPayout env (env.uid 0) arena.id victim.id killer.id killer.playerId entry.walletId
    destination.lnAddress amount (if amount = 0 then .withheld else .queued)

/-- The row that a payable death inserts into `creator_payouts`. -/
def killFeeRow (env : Env) (arena : Arena) (entry : Entry) (victim killer : Life) : Payout :=
  newPayout env (env.uid 1) arena.id victim.id killer.id "" entry.walletId
    arena.creatorLnAddress (entry.amount * creatorFee arena / 500) .queued

/-- `if creator_amount:` and the `INSERT ... ON CONFLICT` of a creator's share. -/
def queueFee (σ : Ledger) (row : Payout) : Except LedgerError Ledger :=
  if row.amount = 0 then pure σ else σ.queuePayout .creatorPayouts row

/-- The two payouts of a payable death. -/
def payKill (env : Env) (arena : Arena) (entry : Entry) (victim killer : Life) (σ : Ledger) :
    Except LedgerError Ledger := do
  let destination ← orRaise (σ.entries.get? killer.entryId) .typeError
  let σ₁ ← σ.queuePayout .payouts (killRow env arena entry destination victim killer)
  σ₁.queueFee (killFeeRow env arena entry victim killer)

/-- `if killer and ...` of `consume_death`. -/
def payKiller (env : Env) (arena : Arena) (entry : Entry) (victim : Life)
    (killer? : Option Life) (σ : Ledger) : Except LedgerError Ledger :=
  match killer? with
  | none => pure σ
  | some killer => payKill env arena entry victim killer σ

/-- The death of a life that is not dead yet: charge its entry, close the
life, and pay the kill. -/
def spendLife (env : Env) (arena : Arena) (run : Run) (victim : Life) (killerId : Uid)
    (σ : Ledger) : Except LedgerError Ledger := do
  let entry ← orRaise (σ.entries.get? victim.entryId)
    (.valueError "Consumed life has no funded entry.")
  require (0 < entry.remaining) (.valueError "Consumed life has no funded entry.")
  let σ₁ : Ledger := { σ with
    entries := σ.entries.updateKey entry.id
      (fun e => { e with remaining := e.remaining - 1 }) (fun _ => rfl)
    lives := σ.lives.updateKey victim.id
      (fun l => { l with
        status := .dead, diedAt := some env.now, killerId, connectedUntil := 0 })
      (fun _ => rfl) }
  payKiller env arena entry victim (σ₁.payableKiller run.arenaId run.id victim killerId) σ₁

/-- `if victim["status"] != "dead":` of `consume_death`. -/
def endLife (env : Env) (arena : Arena) (run : Run) (victim : Life) (killerId : Uid)
    (σ : Ledger) : Except LedgerError Ledger :=
  if victim.status = .dead then pure σ else spendLife env arena run victim killerId σ

/-- `consume_death`: apply one line of the journal of a run. -/
def consumeDeath (env : Env) (runId : Uid) (sequence : Int) (victimId killerId : Uid)
    (σ : Ledger) : Except LedgerError (Uid × Ledger) := do
  let run ← orRaise (σ.runs.get? runId) (.valueError "Unknown server run.")
  let (arena, σ₁) ← σ.lockArena run.arenaId false
  if sequence ≤ run.eventSequence then
    pure (run.arenaId, σ₁)
  else
    require (sequence = run.eventSequence + 1) (.valueError "Game journal has a gap.")
    let victim ← orRaise (σ₁.lives.get? victimId)
      (.valueError "Death does not belong to this server run.")
    require (victim.runId = runId ∧ victim.arenaId = run.arenaId)
      (.valueError "Death does not belong to this server run.")
    let σ₂ ← endLife env arena run victim killerId σ₁
    pure (run.arenaId, { σ₂ with
      runs := σ₂.runs.updateKey runId (fun r => { r with eventSequence := sequence })
        (fun _ => rfl) })

/-! ## Admissions -/

/-- The newest life of a player that can still be played. -/
def currentLife (σ : Ledger) (playerId : Uid) : Option Life :=
  Table.first (fun l m => m.createdAt < l.createdAt)
    (σ.lives.select (fun l => l.playerId = playerId && l.status.open))

/-- The life that `public_state` reports: `ORDER BY created_at DESC,id DESC LIMIT 1`. -/
def newestLife (σ : Ledger) (playerId : Uid) : Option Life :=
  Table.first
    (fun l m => m.createdAt < l.createdAt || (m.createdAt = l.createdAt && m.id < l.id))
    (σ.lives.select (fun l => l.playerId = playerId))

/-- The oldest paid entry of a player that still holds lives. -/
def fundedEntry (σ : Ledger) (playerId : Uid) : Option Entry :=
  Table.first (fun e f => e.createdAt < f.createdAt)
    (σ.entries.select (fun e => e.playerId = playerId && e.status = .paid && 0 < e.remaining))

/-- The slots of the alive lives of an arena. -/
def usedSlots (σ : Ledger) (arenaId : Uid) : List Nat :=
  (σ.lives.select (fun l => l.arenaId = arenaId && l.status = .alive)).map Life.slot

/-- `next(s for s in range(1, MAX_PLAYERS + 1) if s not in used)`. -/
def freeSlot (σ : Ledger) (arenaId : Uid) : Option Nat :=
  (List.range' 1 maxPlayers).find? (fun s => s ∉ σ.usedSlots arenaId)

/-- `allocate_life`.  `uid 0` is the id of a new life. -/
def allocateLife (env : Env) (arenaId : Uid) (token : String) (runId : Uid) (σ : Ledger) :
    Except LedgerError (Life × Ledger) := do
  let (arena, σ₁) ← σ.lockArena arenaId true
  require (arena.runId = runId ∧ env.now < arena.leaseUntil)
    (.publicError "Game server is restarting. Please retry.")
  let player? ← σ₁.participant env arenaId token
  let player ← orRaise player? (.publicError "A paid entry is required.")
  require (player.leaveState = .none)
    (.publicError "You are leaving this game; these lives cannot be used again.")
  let current := σ₁.currentLife player.id
  match current.filter (fun l => l.status = .alive && l.runId = runId) with
  | some life => pure (life, σ₁)
  | none =>
    let entry ← orRaise (σ₁.fundedEntry player.id)
      (.publicError "No lives left. Pay for another five lives.")
    let slot ← orRaise (σ₁.freeSlot arenaId)
      (.publicError "Arena full. Your remaining lives are saved.")
    let σ₂ : Ledger := { σ₁ with
      arenas := σ₁.arenas.updateKey arenaId (fun a => { a with idleSince := none })
        (fun _ => rfl) }
    match current with
    | some life =>
      let resume : Life → Life := fun l =>
        { l with status := .alive, runId, slot, connectedUntil := env.now + 30 }
      pure (resume life, { σ₂ with lives := σ₂.lives.updateKey life.id resume (fun _ => rfl) })
    | none =>
      let life : Life :=
        { id := env.uid 0, arenaId, playerId := player.id, entryId := entry.id, runId
          status := .alive, slot, connectedUntil := env.now + 30, createdAt := env.timeNs
          diedAt := none, killerId := "" }
      let lives ← orRaise (σ₂.lives.insert? life) (.integrityError "id")
      pure (life, { σ₂ with lives })

end QuakeJs.Ledger
