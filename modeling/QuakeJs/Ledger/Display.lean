import Mathlib.Data.Rat.Defs
import QuakeJs.Ledger.Listing

/-!
# What players and visitors are shown

`public_arena` and `public_state` of `crud.py`, `refund_state` of
`leaving.py`, and `snapshot` of `lobby.py`.  They only read the ledger, so
they are functions of it.
-/

namespace QuakeJs

namespace Ledger

/-- The text under `status` of a public arena. -/
inductive GameStatus | active | closed
deriving DecidableEq, Repr

/-- The result of `public_arena`. -/
structure PublicArena where
  id : Uid
  name : String
  map : String
  joinAmount : Int
  haircut : Int
  prizePerKill : Int
  creatorHaircut : Int
  creatorPerKill : Int
  publicCreated : Bool
  playersCount : Nat
  maxPlayers : Nat
  status : GameStatus
  createdAt : Int
deriving DecidableEq, Repr

/-- `public_arena`. -/
def publicArena (arena : Arena) (count : Nat) : PublicArena where
  id := arena.id
  name := arena.name
  map := arena.map
  joinAmount := arena.entryAmount
  haircut := arena.haircut
  prizePerKill := prizePerKill arena.entryAmount (arena.haircut + creatorFee arena)
  creatorHaircut := creatorFee arena
  creatorPerKill := arena.entryAmount * creatorFee arena / 500
  publicCreated := arena.isPublic
  playersCount := count
  maxPlayers := QuakeJs.maxPlayers
  status := if arena.active then .active else .closed
  createdAt := arena.createdAt

/-! ## Refunds and winnings -/

/-- The amounts of the payouts of a player with one of the statuses. -/
def totalOf (t : Table Payout) (playerId : Uid) (statuses : List PayoutStatus) : Int :=
  t.sum (fun r => if r.playerId = playerId ∧ r.status ∈ statuses then r.amount else 0)

/-- The statuses of a payout that is on its way. -/
def onTheWay : List PayoutStatus := [.queued, .prepared, .sending, .pending]

/-- The paid entries of a player that still hold lives. -/
def funded (σ : Ledger) (playerId : Uid) : List Entry :=
  σ.entries.select (fun e => e.playerId = playerId && e.status = .paid && 0 < e.remaining)

/-- The result of `refund_state`. -/
structure RefundState where
  estimate : Int
  paid : Int
  pending : Int
  failed : Int
deriving DecidableEq, Repr

/-- `refund_state`. -/
def refundState (σ : Ledger) (player : Participant) (arena : Arena) : RefundState where
  estimate := ((σ.funded player.id).map (fun e => (refundAmounts e arena).1)).sum
  paid := totalOf σ.refundPayouts player.id [.paid]
  pending := totalOf σ.refundPayouts player.id onTheWay
  failed := totalOf σ.refundPayouts player.id [.failed]

/-! ## The state of a game, for one player -/

/-- The text under `status` of a player. -/
inductive PlayerStatus | alive | dead | left | leaving
deriving DecidableEq, Repr

/-- An open invoice, as its player sees it. -/
structure ShownInvoice where
  paymentHash : Option String
  paymentRequest : Option String
  expiresAt : Int
  nonce : String
deriving DecidableEq, Repr

/-- The entry `player` of `public_state`.  Its constant fields are left out. -/
structure PlayerCard where
  id : Uid
  name : String
  status : PlayerStatus
  livesRemaining : Nat
  entryAmount : Int
  /-- A fifth of the entry. -/
  paidAmount : Rat
  slot : Nat
  autoAdmit : Bool

/-- What `public_state` adds for the player with the token. -/
structure Session where
  leaveState : LeaveState
  refund : RefundState
  won : Int
  pendingWinnings : Int
  failedWinnings : Int
  entryNonce : String
  invoiceExpired : Bool
  invoice : Option ShownInvoice
  player : Option PlayerCard

/-- The result of `public_state`. -/
structure PublicState where
  game : PublicArena
  players : List (Uid × String)
  canJoin : Bool
  lobbyUrl : String
  session : Option Session

/-- The alive lives of an arena whose heartbeat is recent. -/
def roster (σ : Ledger) (arenaId : Uid) (now : Int) : List Life :=
  σ.lives.select (fun l => l.arenaId = arenaId && l.status = .alive && now < l.connectedUntil)

/-- The rows of `public_state` behind `players`: an id of a life, and the name of
its player. -/
def shownPlayers (σ : Ledger) (arenaId : Uid) (now : Int) : List (Uid × String) :=
  (σ.roster arenaId now).filterMap
    (fun l => (σ.participants.get? l.playerId).map (fun p => (l.id, p.name)))

/-- `ORDER BY CASE WHEN status='paid' AND remaining>0 THEN 0 ELSE 1 END,created_at DESC,
id DESC`. -/
def shownBefore (e f : Entry) : Bool :=
  let holds : Entry → Bool := fun e => e.status = .paid && 0 < e.remaining
  (holds e && !holds f) || (holds e = holds f &&
    (f.createdAt < e.createdAt || (f.createdAt = e.createdAt && f.id < e.id)))

/-- The entry that `public_state` reports. -/
def shownEntry (σ : Ledger) (playerId : Uid) : Option Entry :=
  Table.first shownBefore (σ.entries.select (fun e => e.playerId = playerId))

/-- `SUM(remaining)` over the paid entries of a player. -/
def balanceOf (σ : Ledger) (playerId : Uid) : Nat :=
  σ.entries.sum (fun e => if e.playerId = playerId ∧ e.status = .paid then e.remaining else 0)

/-- The status of a player who has paid. -/
def playerStatus (player : Participant) (life? : Option Life) (balance : Nat) (now : Int) :
    PlayerStatus :=
  match player.leaveState with
  | .leaving => .leaving
  | .left => .left
  | .none =>
    match life? with
    | none => if balance = 0 then .dead else .left
    | some life =>
      if life.status = .alive ∧ now < life.connectedUntil then .alive
      else if life.status = .dead then .dead
      else if balance = 0 then .dead else .left

/-- The invoice that is shown for an unpaid entry: it has not expired, and the
arena is active. -/
def shownInvoice (arena : Arena) (entry : Entry) (now : Int) : Option ShownInvoice :=
  if now < entry.expiresAt ∧ entry.status = .pending ∧ arena.active = true then
    some
      { paymentHash := entry.paymentHash, paymentRequest := entry.bolt11
        expiresAt := entry.expiresAt, nonce := entry.nonce }
  else none

/-- Whether the page admits the player by itself. -/
def autoAdmit (arena : Arena) (player : Participant) (entry : Entry) (life? : Option Life)
    (balance : Nat) : Bool :=
  arena.active && player.leaveState = .none && 0 < balance
    && life?.all (fun life => life.entryId ≠ entry.id)

/-- The card of a player who has paid. -/
def playerCard (σ : Ledger) (arena : Arena) (player : Participant) (entry : Entry) (now : Int) :
    PlayerCard :=
  let life? := σ.newestLife player.id
  let balance := σ.balanceOf player.id
  { id := life?.elim player.id Life.id
    name := player.name
    status := playerStatus player life? balance now
    livesRemaining := balance
    entryAmount := entry.amount
    paidAmount := entry.amount / 5
    slot := life?.elim 0 Life.slot
    autoAdmit := autoAdmit arena player entry life? balance }

/-- The part of `public_state` for a player. -/
def session (σ : Ledger) (arena : Arena) (player : Participant) (now : Int) : Session :=
  let shown? := σ.shownEntry player.id
  let unpaid? := shown?.filter (fun e => e.status ≠ .paid)
  { leaveState := player.leaveState
    refund := σ.refundState player arena
    won := totalOf σ.payouts player.id [.paid]
    pendingWinnings := totalOf σ.payouts player.id onTheWay
    failedWinnings := totalOf σ.payouts player.id [.failed]
    entryNonce := shown?.elim "" Entry.nonce
    invoiceExpired := unpaid?.any (fun e => e.expiresAt ≤ now)
    invoice := unpaid?.bind (fun e => shownInvoice arena e now)
    player := (shown?.filter (fun e => e.status = .paid)).map
      (fun e => σ.playerCard arena player e now) }

/-- The link to the lobby of an arena. -/
def lobbyUrl (setting? : Option Settings) : String :=
  match setting? with
  | none => ""
  | some setting =>
    if setting.allowPublicCreation && truthy setting.publicId then
      "/quakejs/lobby/" ++ setting.publicId.getD ""
    else ""

/-- `await participant(tx, arena_id, token) if token else None`. -/
def sessionPlayer (σ : Ledger) (env : Env) (arenaId token : String) :
    Except LedgerError (Option Participant) :=
  if token = "" then pure none else σ.participant env arenaId token

/-- `public_state`. -/
def publicState (env : Env) (arenaId token : String) (σ : Ledger) :
    Except LedgerError PublicState := do
  let arena ← orRaise (σ.arenas.get? arenaId) (.publicError "Arena not found.")
  let alive := σ.shownPlayers arenaId env.now
  let player? ← σ.sessionPlayer env arenaId token
  pure
    { game := publicArena arena alive.length
      players := alive
      canJoin := arena.active && alive.length < maxPlayers
      lobbyUrl := lobbyUrl (σ.settings.get? arena.ownerId)
      session := player?.map (fun player => σ.session arena player env.now) }

/-! ## The lobby -/

/-- The games on the list of an owner. -/
def listed (σ : Ledger) (owner : Uid) : List Arena :=
  σ.arenas.select (fun a => a.ownerId = owner && a.active && !a.lobbyHidden)

/-- `ORDER BY a.is_public ASC,a.created_at DESC,a.id DESC`. -/
def listedBefore (a b : Arena) : Bool :=
  (!a.isPublic && b.isPublic) || (a.isPublic = b.isPublic &&
    (b.createdAt < a.createdAt || (b.createdAt = a.createdAt && b.id ≤ a.id)))

/-- A line of the scoreboard: an address, what it was paid, and for how many
kills. -/
structure Score where
  address : String
  sats : Int
  kills : Nat
deriving DecidableEq, Repr

/-- The payouts of kills in the games of an owner that were paid. -/
def wins (σ : Ledger) (owner : Uid) : List Payout :=
  σ.payouts.select (fun p => p.status = .paid
    && (σ.arenas.get? p.arenaId).any (fun a => a.ownerId = owner))

/-- The scoreboard of an owner, the ten best. -/
def scoreboard (σ : Ledger) (owner : Uid) : List Score :=
  let rows := σ.wins owner
  let scores := (rows.map Payout.lnAddress).dedup.map (fun address =>
    let mine := rows.filter (fun p => p.lnAddress = address)
    { address, sats := (mine.map Payout.amount).sum, kills := mine.length : Score })
  (scores.mergeSort (fun s t => t.sats < s.sats || (s.sats = t.sats &&
    s.address ≤ t.address))).take 10

/-- The result of `snapshot`. -/
structure Snapshot where
  games : List PublicArena
  total : Nat
  page : Nat
  maps : List String
  adminHaircut : Int
  canCreate : Bool
  maxPlayers : Nat
  scoreboard : List Score

/-- `snapshot`; pages are counted from 1. -/
def snapshot (env : Env) (publicId : String) (page : Nat) (σ : Ledger) :
    Except LedgerError Snapshot := do
  let setting ← orRaise (σ.settings.select
      (fun s => s.publicId = some publicId && s.allowPublicCreation)).head?
    (.lobbyError "This public lobby is unavailable.")
  let games := ((σ.listed setting.id).mergeSort listedBefore).drop ((page - 1) * 20) |>.take 20
  pure
    { games := games.map (fun a => publicArena a (σ.roster a.id env.now).length)
      total := (σ.listed setting.id).length
      page
      maps := QuakeJs.maps
      adminHaircut := setting.haircut
      canCreate := setting.enabled
      maxPlayers := QuakeJs.maxPlayers
      scoreboard := σ.scoreboard setting.id }

end Ledger

end QuakeJs
