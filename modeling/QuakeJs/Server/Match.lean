import QuakeJs.Server.World

/-!
# The coroutines of `Match`

`replay`, `attach`, `detach`, `stop` and `start`, statement by statement.
`fuel` bounds the number of batches that `drain_journal` reads: a drain that
runs out of it raises.  No claim about a run depends on the bound.
-/

namespace QuakeJs.Server

open Async Engine

abbrev Coroutine := Task Op Op.Ans Fault

def await (op : Op) : Coroutine op.Ans := Task.perform op

def memory : Coroutine Memory := await .memory

def write (x : Write) : Coroutine Unit := await (.write x)

def now : Coroutine Int := await .now

def ledger : Coroutine Ledger := await .ledger

def transact (t : Transaction) : Coroutine t.Result := await (.transact t)

/-- `raise PublicError(message)`. -/
def refuse {α : Type} (message : String) : Coroutine α := Task.raise (.publicError message)

/-- `async with lock`. -/
def withLock {α : Type} (l : Lock) (body : Coroutine α) : Coroutine α := do
  let _ ← await (.lock l)
  Task.anyway body (await (.unlock l))

/-- `for x in xs`. -/
def forEach {α : Type} (f : α → Coroutine Unit) : List α → Coroutine Unit
  | [] => return ()
  | x :: xs => do
    let _ ← f x
    forEach f xs

/-- `self.last_used = crud.now()`. -/
def use (m : MatchId) : Coroutine Unit := do
  let t ← now
  write (.used m t)

/-- `Match.control`. -/
def control (m : MatchId) (kind peer : Nat) (payload : List UInt8) (purpose : Purpose) :
    Coroutine Unit := do
  let _ ← write (.register m (kind, peer))
  Task.anyway
    (do
      let _ ← await (.send m kind peer payload purpose)
      await (.ack m (kind, peer) purpose))
    (write (.dropAck m (kind, peer)))

/-! ## The journal -/

/-- `if not self.closed`. -/
def unlessClosed (m : MatchId) (body : Coroutine Unit) : Coroutine Unit := do
  let s ← memory
  if (s.objects m).closed then return () else body

/-- The part of `replay` for a connection that holds the life of the victim. -/
def settle (m : MatchId) (attaching : Bool) (peer : Nat) (c : ConnectionId) : Coroutine Unit := do
  let _ ← unlessClosed m (control m 3 peer [] (.settled attaching))
  let _ ← write (.popPeer m peer)
  let _ ← write (.clearLife c)
  use m

/-- The inner loop of `replay`. -/
def settlePeer (m : MatchId) (attaching : Bool) (victim : Uid)
    (entry : Sigma fun _ : Nat => ConnectionId) : Coroutine Unit := do
  let s ← memory
  if (s.connections entry.2).life.any (fun life => life.id = victim) then
    settle m attaching entry.1 entry.2
  else return ()

/-- The outer loop of `replay`. -/
def applyEvent (m : MatchId) (attaching : Bool) (event : Nat × Line) : Coroutine Unit := do
  let s ← memory
  let _ ← transact (.consumeDeath (s.objects m).run event.2.sequence
    event.2.victim event.2.killer)
  let _ ← write (.setOffset m event.1)
  let s ← memory
  forEach (settlePeer m attaching event.2.victim) (s.objects m).peers.entries

/-- `Match.replay`.  `attaching` tells that `attach` calls it. -/
def replay (m : MatchId) (attaching : Bool) : Coroutine Bool := do
  let events ← (await (.readEvents m) : Coroutine (List (Nat × Line)))
  let _ ← forEach (applyEvent m attaching) events
  return !events.isEmpty

/-- `Match.drain_journal`. -/
def drainJournal (m : MatchId) : Nat → Coroutine Unit
  | 0 => Task.raise .exhausted
  | fuel + 1 => do
    let changed ← replay m false
    if changed then drainJournal m fuel else return ()

/-! ## Admissions -/

/-- The life that a connection still holds is over: revoke it. -/
def revokeRecorded (m : MatchId) (c : ConnectionId) : Coroutine (Option Life) := do
  let s ← memory
  match (s.connections c).life with
  | none => Task.raise .failure
  | some life => do
    let _ ← control m 3 life.slot [] (.revoked c)
    let _ ← replay m true
    let s ← memory
    match (s.connections c).life with
    | none => Task.raise .failure
    | some life => do
      let _ ← write (.popPeer m life.slot)
      return none

/-- `return connection.life`. -/
def recordedLife (c : ConnectionId) : Coroutine (Option Life) := do
  let s ← memory
  match (s.connections c).life with
  | none => Task.raise .failure
  | some life => return some life

/-- `if connection.life`.  The result is the life, when it is still alive. -/
def checkRecorded (m : MatchId) (c : ConnectionId) : Coroutine (Option Life) := do
  let s ← memory
  match (s.connections c).life with
  | none => return none
  | some life => do
    let σ ← ledger
    if (σ.lives.get? life.id).any (fun row => row.status = .alive) then recordedLife c
    else revokeRecorded m c

/-- The control packet of an admission.  When it fails, the match is closed. -/
def seatLife (m : MatchId) (c : ConnectionId) (life : Life) : Coroutine Unit :=
  Task.handle (control m 1 life.slot (encode life.id) (.admitted c)) fun _ => do
    let _ ← write (.close m)
    refuse "Game server is restarting. Please retry."

/-- The rest of `attach`, for a connection that has no life. -/
def admitLife (m : MatchId) (c : ConnectionId) : Coroutine Life := do
  let s ← memory
  let life ← transact (.allocateLife (s.objects m).arenaId
    (s.connections c).token (s.objects m).run)
  let _ ← seatLife m c life
  let _ ← write (.seat c life m)
  let _ ← write (.setPeer m life.slot c)
  let _ ← use m
  return life

/-- Another connection of the same player is attached. -/
def Memory.elsewhere (s : Memory) (m : MatchId) (c : ConnectionId) : Bool :=
  (s.objects m).peers.entries.any fun entry =>
    (s.connections entry.2).token = (s.connections c).token && entry.2 ≠ c

/-- The statements of `attach` behind the check for another connection. -/
def attachAlone (m : MatchId) (c : ConnectionId) : Coroutine Life := do
  match ← checkRecorded m c with
  | some life => return life
  | none => admitLife m c

/-- The statements of `attach`, under the lock. -/
def attachLocked (m : MatchId) (c : ConnectionId) : Coroutine Life := do
  let _ ← replay m true
  let s ← memory
  if s.elsewhere m c then refuse "This player is already connected in another tab."
  else attachAlone m c

/-- `Match.attach`. -/
def attach (m : MatchId) (c : ConnectionId) : Coroutine Life :=
  withLock (.game m) (attachLocked m c)

/-! ## The end of a match -/

/-- The transaction of `stop`, behind the drain. -/
def stopRun (m : MatchId) : Coroutine Unit := do
  let s ← memory
  transact (.stopRun (s.objects m).arenaId s.worker (s.objects m).run)

/-- `Match.stop`. -/
def stop (fuel : Nat) (m : MatchId) : Coroutine Unit := do
  let _ ← write (.close m)
  let _ ← await (.exited m)
  let _ ← withLock (.game m) (do
    let _ ← drainJournal m fuel
    stopRun m)
  write (.clearPeers m)

/-- The life of a connection ends with it: it is forfeited, unless the player
is leaving the game. -/
def forfeit (m : MatchId) (c : ConnectionId) (life : Life) : Coroutine Unit := do
  let σ ← ledger
  match σ.participants.get? life.playerId with
  | none => Task.raise .failure
  | some player =>
    control m (if player.leaveState = .none then 7 else 3) life.slot [] (.forfeited c)

/-- The statements of `detach`, for a connection that is attached. -/
def detachLife (m : MatchId) (c : ConnectionId) (life : Life) : Coroutine Unit := do
  let _ ← unlessClosed m (forfeit m c life)
  let _ ← replay m false
  let _ ← write (.popPeer m life.slot)
  let _ ← write (.clearLife c)
  use m

/-- The statements of `detach`, under the lock. -/
def detachLocked (m : MatchId) (c : ConnectionId) : Coroutine Unit := do
  let s ← memory
  match (s.connections c).life with
  | none => return ()
  | some life =>
    if (s.objects m).peers.lookup life.slot = some c then detachLife m c life else return ()

/-- `Match.detach`. -/
def detach (fuel : Nat) (m : MatchId) (c : ConnectionId) : Coroutine Unit :=
  Task.handle (withLock (.game m) (detachLocked m c)) fun fault => do
    -- A failed barrier must never leave an authorized orphan character.
    let _ ← stop fuel m
    Task.raise fault

/-! ## The start of a match -/

/-- `Match.start`. -/
def start (m : MatchId) : Coroutine Unit := do
  let _ ← await (.socketpair m)
  let _ ← await .prepareBinary
  let _ ← await (.mkdir m)
  let _ ← await (.touch m)
  let _ ← await (.spawn m)
  let _ ← await (.awaitReady m)
  let s ← memory
  let ended ← (await (.returncode m) : Coroutine Bool)
  if (s.objects m).closed || ended then refuse "The game server could not start."
  else return ()

end QuakeJs.Server
