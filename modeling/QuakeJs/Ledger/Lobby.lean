import QuakeJs.Ledger.Crud

/-!
# `lobby.py` and the closure of a game

Public creation of a game, its automatic expiry, and `close_game` of
`views.py`.
-/

namespace QuakeJs.Ledger

/-- An arena with its idle clock set. -/
def idleFrom (since : Option Int) (a : Arena) : Arena := { a with idleSince := since }

/-- `create_game`: a retry with the nonce of an arena returns that arena. -/
def createGame (env : Env) (publicId : String) (data : PublicArenaInput) (σ : Ledger) :
    Except LedgerError (Arena × Ledger) := do
  let setting ← orRaise (σ.settings.select
      (fun s => s.publicId = some publicId && s.allowPublicCreation)).head?
    (.lobbyError "This lobby is not accepting new games.")
  require (setting.enabled = true) (.lobbyError "This lobby is not accepting new games.")
  let owner := setting.id
  match (σ.arenas.select
      (fun a => a.ownerId = owner && a.publicNonce = some data.nonce)).head? with
  | some existing => pure (existing, σ)
  | none =>
    require (data.creatorHaircut + setting.haircut ≤ maxTotalHaircut)
      (.lobbyError "The admin and creator fees cannot total more than 50%.")
    require (data.creatorHaircut = 0 ∨ data.lnAddress ≠ "")
      (.lobbyError "Enter a Lightning address to receive your creator fee.")
    require (σ.arenas.count (fun a => a.ownerId = owner && a.isPublic
        && (a.active || env.now - 3600 < a.createdAt)) < 50)
      (.lobbyError "This lobby has reached its game-creation limit. Try again later.")
    let row : Arena :=
      { newArena (env.uid 0) owner setting.walletId data.name data.map data.joinAmount
          setting.haircut env.now with
        isPublic := true
        creatorHaircut := data.creatorHaircut
        creatorLnAddress := data.lnAddress
        publicNonce := some data.nonce
        idleSince := some env.now }
    let arenas ← orRaise (σ.arenas.insert? row) (.integrityError "id")
    pure (row, { σ with arenas })

/-- The players of an arena: alive lives whose heartbeat is recent. -/
def playing (σ : Ledger) (arenaId : Uid) (now : Int) : Nat :=
  σ.lives.count (fun l => l.arenaId = arenaId && l.status = .alive && now < l.connectedUntil)

/-- The entries that keep an arena listed: unused lives or an open invoice. -/
def outstanding (σ : Ledger) (arenaId : Uid) (now : Int) : Nat :=
  σ.entries.count (fun e => e.arenaId = arenaId
    && (0 < e.remaining || (e.status.unsettled && now < e.expiresAt)))

/-- `expire_game`.  The result says whether the game was taken off the list. -/
def expireGame (env : Env) (arenaId : Uid) (σ : Ledger) :
    Except LedgerError (Bool × Ledger) := do
  let (arena, σ₁) ← σ.lockArena arenaId false
  if arena.isPublic = false ∨ arena.active = false then
    pure (false, σ₁)
  else if σ₁.playing arenaId env.now ≠ 0 then
    pure (false, { σ₁ with
      arenas := σ₁.arenas.updateKey arenaId (idleFrom none) (fun _ => rfl) })
  else
    match arena.idleSince with
    | none =>
      pure (false, { σ₁ with
        arenas := σ₁.arenas.updateKey arenaId (idleFrom (some env.now)) (fun _ => rfl) })
    | some since =>
      if env.now - 600 < since ∨ σ₁.outstanding arenaId env.now ≠ 0 then
        pure (false, σ₁)
      else
        pure (true, { σ₁ with
          arenas := σ₁.arenas.updateKey arenaId
            (fun a => { a with active := false, lobbyHidden := true }) (fun _ => rfl) })

/-- `close_game`, for the owner that the wallet key belongs to. -/
def closeGame (arenaId owner : Uid) (σ : Ledger) : Except LedgerError Ledger := do
  let row ← orRaise (σ.arenas.get? arenaId) (.httpError 404 "Arena not found.")
  require (row.ownerId = owner) (.httpError 404 "Arena not found.")
  let (_, σ₁) ← σ.lockArena arenaId false
  pure { σ₁ with
    arenas := σ₁.arenas.updateKey arenaId
      (fun a => { a with active := false, adminClosed := true, lobbyHidden := true })
      (fun _ => rfl) }

end QuakeJs.Ledger
