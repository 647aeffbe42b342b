import QuakeJs.Async.Task
import QuakeJs.Ledger.Lobby

/-!
# Owners and their games, statement by statement

`create_game`, `create_arena` and `save_settings` as coroutines that send one
SQL statement after the other, in a database that shows a transaction what
others have committed when the statement starts.  A statement that writes a
row of the settings takes the lock of the row, and the transaction keeps it to
its end.  What a transaction inserts or updates appears when it commits, and
that is also where a unique index refuses it.

On SQLite a transaction holds the lock of the whole database, so its runs are
among those of this model.

`World.versions` is not in the source.  It has every row of the settings that
was ever committed.
-/

namespace QuakeJs.Games

open Async

/-- What is raised. -/
inductive Fault
  | ledger (e : LedgerError)
  /-- Whatever the database raises. -/
  | database
deriving DecidableEq, Repr

/-- What a transaction writes besides its locks. -/
inductive Write
  | settings (row : Settings)
  | arena (row : Arena)

/-- The statements, and what else the functions need.  `respond` hands the
result of `create_game` to its caller. -/
inductive Op
  | begin
  /-- `UPDATE settings_native ... WHERE public_id=:id AND allow_public_creation=1`. -/
  | lockLobby (tx : Nat) (publicId : String)
  /-- The upsert of `save_settings`, with the row that was there before. -/
  | lockOwner (tx : Nat) (owner : Uid)
  | readSettings (owner : Uid)
  | findGame (owner : Uid) (nonce : String)
  | countGames (owner : Uid) (recent : Int)
  | now
  | uid
  | commit (tx : Nat) (write : Option Write)
  | rollback (tx : Nat)
  | respond (publicId nonce : String) (arena : Arena)

/-- What an operation returns. -/
abbrev Op.Ans : Op → Type
  | begin => Nat
  | lockLobby .. => Option Settings
  | lockOwner .. => Option Settings
  | readSettings _ => Option Settings
  | findGame .. => Option Arena
  | countGames .. => Nat
  | now => Int
  | uid => Uid
  | _ => Unit

abbrev Coroutine := Task Op Op.Ans Fault

def await (op : Op) : Coroutine op.Ans := Task.perform op

/-- `raise LobbyError(message)`. -/
def lobbyError {α : Type} (message : String) : Coroutine α :=
  Task.raise (.ledger (.lobbyError message))

/-- `raise ValueError(message)`. -/
def valueError {α : Type} (message : String) : Coroutine α :=
  Task.raise (.ledger (.valueError message))

/-! ## The functions -/

/-- `async with transaction() as tx`.  Once it is committed there is nothing
left to roll back. -/
def transaction {α : Type} (body : Nat → Coroutine (α × Option Write)) : Coroutine α := do
  let tx ← (await .begin : Coroutine Nat)
  Task.anyway
    (do
      let r ← body tx
      let _ ← await (.commit tx r.2)
      return r.1)
    (await (.rollback tx))

/-- The row that `create_game` inserts. -/
def gameRow (id : Uid) (time : Int) (setting : Settings) (data : PublicArenaInput) : Arena :=
  { Ledger.newArena id setting.id setting.walletId data.name data.map data.joinAmount
      setting.haircut time with
    isPublic := true
    creatorHaircut := data.creatorHaircut
    creatorLnAddress := data.lnAddress
    publicNonce := some data.nonce
    idleSince := some time }

/-- `create_game`, when no game has the nonce. -/
def insertGame (setting : Settings) (data : PublicArenaInput) :
    Coroutine (Arena × Option Write) := do
  if maxTotalHaircut < data.creatorHaircut + setting.haircut then
    lobbyError "The admin and creator fees cannot total more than 50%." else
  if data.creatorHaircut ≠ 0 ∧ data.lnAddress = "" then
    lobbyError "Enter a Lightning address to receive your creator fee." else
  let time ← (await .now : Coroutine Int)
  let count ← (await (.countGames setting.id (time - 3600)) : Coroutine Nat)
  if 50 ≤ count then
    lobbyError "This lobby has reached its game-creation limit. Try again later." else
  let id ← (await .uid : Coroutine Uid)
  let time ← (await .now : Coroutine Int)
  return (gameRow id time setting data, some (.arena (gameRow id time setting data)))

/-- `create_game`, once the row of the lobby is locked. -/
def findOrInsert (setting : Settings) (data : PublicArenaInput) :
    Coroutine (Arena × Option Write) := do
  let existing ← (await (.findGame setting.id data.nonce) : Coroutine (Option Arena))
  match existing with
  | some arena => return (arena, none)
  | none => insertGame setting data

/-- The transaction of `create_game`. -/
def createGameIn (publicId : String) (data : PublicArenaInput) (tx : Nat) :
    Coroutine (Arena × Option Write) := do
  let setting ← (await (.lockLobby tx publicId) : Coroutine (Option Settings))
  match setting with
  | none => lobbyError "This lobby is not accepting new games."
  | some setting =>
    if setting.enabled = false then lobbyError "This lobby is not accepting new games."
    else findOrInsert setting data

/-- `create_game`. -/
def createGame (publicId : String) (data : PublicArenaInput) : Coroutine Arena :=
  transaction (createGameIn publicId data)

/-- The row that `create_arena` inserts. -/
def arenaRow (id : Uid) (time : Int) (setting : Settings) (data : ArenaInput) : Arena :=
  Ledger.newArena id setting.id setting.walletId data.name data.map data.joinAmount
    setting.haircut time

/-- The transaction of `create_arena`. -/
def createArenaIn (owner : Uid) (data : ArenaInput) (_tx : Nat) :
    Coroutine (Arena × Option Write) := do
  let setting ← (await (.readSettings owner) : Coroutine (Option Settings))
  match setting with
  | none => valueError "Enable QuakeJS and select a wallet first."
  | some setting =>
    if setting.enabled = false then valueError "Enable QuakeJS and select a wallet first." else
    if ¬(0 ≤ setting.haircut ∧ setting.haircut ≤ maxTotalHaircut) then
      valueError "Set the service fee between 0 and 50% first." else
    let id ← (await .uid : Coroutine Uid)
    let time ← (await .now : Coroutine Int)
    return (arenaRow id time setting data, some (.arena (arenaRow id time setting data)))

/-- `create_arena`. -/
def createArena (owner : Uid) (data : ArenaInput) : Coroutine Arena :=
  transaction (createArenaIn owner data)

/-- The arguments of `save_settings`. -/
structure SettingsArguments where
  owner : Uid
  walletId : String
  enabled : Bool
  haircut : Int
  allowPublicCreation : Bool

/-- The row that the two statements of `save_settings` leave, for the row that
was there before. -/
def settingsRow (arguments : SettingsArguments) (time : Int) (fresh : Uid)
    (old : Option Settings) : Settings where
  id := arguments.owner
  walletId := arguments.walletId
  enabled := arguments.enabled
  haircut := arguments.haircut
  updatedAt := time
  allowPublicCreation := arguments.allowPublicCreation
  publicId := some ((old.bind Settings.publicId).getD fresh)

/-- The transaction of `save_settings`. -/
def saveSettingsIn (arguments : SettingsArguments) (tx : Nat) :
    Coroutine (Unit × Option Write) := do
  let time ← (await .now : Coroutine Int)
  let old ← (await (.lockOwner tx arguments.owner) : Coroutine (Option Settings))
  let fresh ← (await .uid : Coroutine Uid)
  return ((), some (.settings (settingsRow arguments time fresh old)))

/-- `save_settings`. -/
def saveSettings (arguments : SettingsArguments) : Coroutine (Option Settings) := do
  if ¬(0 ≤ arguments.haircut ∧ arguments.haircut ≤ maxTotalHaircut) then
    valueError "The service fee must be a whole percentage from 0 to 50." else
  let _ ← transaction (saveSettingsIn arguments)
  (await (.readSettings arguments.owner) : Coroutine (Option Settings))

/-- A request. -/
inductive Request
  | createGame (publicId : String) (data : PublicArenaInput)
  | createArena (owner : Uid) (data : ArenaInput)
  | saveSettings (arguments : SettingsArguments)

def Request.task : Request → Coroutine Unit
  | .createGame publicId data => do
    let arena ← Games.createGame publicId data
    await (.respond publicId data.nonce arena)
  | .createArena owner data => do
    let _ ← Games.createArena owner data
    return ()
  | .saveSettings arguments => do
    let _ ← Games.saveSettings arguments
    return ()

/-! ## The database -/

/-- What is committed, with the locks of the settings.  `begun` counts the
transactions. -/
structure World where
  settings : Table Settings
  arenas : Table Arena
  locks : Uid → Option Nat
  begun : Nat
  clock : Int
  versions : List Settings

def World.initial (start : Int) : World where
  settings := .empty
  arenas := .empty
  locks := fun _ => none
  begun := 0
  clock := start
  versions := []

/-- The row can be locked by the transaction. -/
def World.free (w : World) (tx : Nat) (id : Uid) : Prop :=
  w.locks id = none ∨ w.locks id = some tx

def World.lock (w : World) (tx : Nat) (id : Uid) : World :=
  { w with
    locks := Function.update w.locks id (some tx) }

/-- The locks of a transaction are released. -/
def World.release (w : World) (tx : Nat) : World :=
  { w with
    locks := fun id => if w.locks id = some tx then none else w.locks id }

/-- The settings of an owner, by the public id of its lobby. -/
def World.lobby (w : World) (publicId : String) : Option Settings :=
  (w.settings.select fun s => s.publicId = some publicId && s.allowPublicCreation).head?

def World.game (w : World) (owner : Uid) (nonce : String) : Option Arena :=
  (w.arenas.select fun a => a.ownerId = owner && a.publicNonce = some nonce).head?

/-- The public games of an owner that are active or were created after `recent`. -/
def World.games (w : World) (owner : Uid) (recent : Int) : Nat :=
  w.arenas.count fun a => a.ownerId = owner && a.isPublic && (a.active || recent < a.createdAt)

/-- A row of the settings is inserted or replaced. -/
def World.upsert (w : World) (row : Settings) : Except LedgerError (Table Settings) :=
  match w.settings.get? row.id with
  | some _ => pure (w.settings.updateKey row.id (fun s => { row with
      id := s.id }) fun _ => rfl)
  | none => orRaise (w.settings.insert? row) (.integrityError "id")

/-- A row of the settings is put.  `lobby_public_id_idx` is unique. -/
def World.putSettings (w : World) (row : Settings) : Except LedgerError World := do
  require (w.settings.any (fun s => s.id ≠ row.id && s.publicId.isSome
      && s.publicId = row.publicId) = false) (.integrityError "public_id")
  let settings ← w.upsert row
  pure { w with
    settings
    versions := row :: w.versions }

/-- An arena is inserted.  `public_arena_nonce_idx` is unique. -/
def World.putArena (w : World) (row : Arena) : Except LedgerError World := do
  require (w.arenas.any (fun a => a.ownerId = row.ownerId && a.publicNonce.isSome
      && a.publicNonce = row.publicNonce) = false) (.integrityError "public_nonce")
  let arenas ← orRaise (w.arenas.insert? row) (.integrityError "id")
  pure { w with
    arenas }

def World.put (w : World) : Option Write → Except LedgerError World
  | none => pure w
  | some (.settings row) => w.putSettings row
  | some (.arena row) => w.putArena row

/-- What an operation does when it runs to its end.  One that waits for a lock
has not run yet. -/
def Effect (op : Op) (w : World) (result : Except LedgerError op.Ans) (w' : World) : Prop :=
  match op with
  | .begin => result = .ok w.begun ∧ w' = { w with
      begun := w.begun + 1 }
  | .lockLobby tx publicId =>
    (w.lobby publicId = none ∧ result = .ok none ∧ w' = w) ∨
    ∃ s, w.lobby publicId = some s ∧ w.free tx s.id ∧ result = .ok (some s) ∧ w' = w.lock tx s.id
  | .lockOwner tx owner =>
    w.free tx owner ∧ result = .ok (w.settings.get? owner) ∧ w' = w.lock tx owner
  | .readSettings owner => result = .ok (w.settings.get? owner) ∧ w' = w
  | .findGame owner nonce => result = .ok (w.game owner nonce) ∧ w' = w
  | .countGames owner recent => result = .ok (w.games owner recent) ∧ w' = w
  | .now => result = .ok w.clock ∧ w' = w
  | .uid => w' = w
  | .commit tx write =>
    (∃ w₁, w.put write = .ok w₁ ∧ result = .ok () ∧ w' = w₁.release tx) ∨
    ∃ e, w.put write = .error e ∧ result = .error e ∧ w' = w
  | .rollback tx => result = .ok () ∧ w' = w.release tx
  | .respond .. => result = .ok () ∧ w' = w

/-- An operation runs to its end, or raises without having done anything, or
has done what it does and still raises. -/
def Performs (op : Op) (w : World) (outcome : Except (Raised Fault) op.Ans) (w' : World) : Prop :=
  (∃ result, Effect op w result w' ∧
    (outcome = result.mapError (fun e => .error (.ledger e)) ∨
      ∃ raised, outcome = .error raised)) ∨
  (w' = w ∧ ∃ raised, outcome = .error raised)

/-- A game that has ended. -/
def ended (adminClosed : Bool) (a : Arena) : Arena :=
  { a with
    active := false
    lobbyHidden := true
    adminClosed := a.adminClosed || adminClosed }

/-- A game ends by `expire_game` or by `close_game`. -/
def World.deactivate (w : World) (arenaId : Uid) (adminClosed : Bool) : World :=
  { w with
    arenas := w.arenas.updateKey arenaId (ended adminClosed) fun _ => rfl }

/-- Time passes, or a game ends. -/
def Outside (w w' : World) : Prop :=
  (∃ time, w.clock ≤ time ∧ w' = { w with
    clock := time }) ∨
  ∃ arenaId adminClosed, w' = w.deactivate arenaId adminClosed

/-- When the process crashes, the database rolls its transactions back. -/
def Crashes (w w' : World) : Prop := w' = { w with
  locks := fun _ => none }

def Starts (task : Coroutine Unit) : Prop := ∃ request : Request, task = request.task

/-- Every state that any number of requests can come to. -/
abbrev Reachable (start : Int) (pool : Pool Op Op.Ans Fault World) : Prop :=
  Pool.Reachable Performs Starts Outside Crashes (World.initial start) pool

end QuakeJs.Games
