import QuakeJs.Server.Match

/-!
# The coroutines of `Manager` and of `Connection`

`ensure`, `finish_leave`, `recover_leaves`, one round of `loop` and its end, and
what a browser connection and a leave request do with them.
-/

namespace QuakeJs.Server

open Async

/-! ## The manager -/

/-- `Manager.check_available`.  The platform is the right one. -/
def checkAvailable (arenaId : Uid) (s : Memory) : Coroutine Unit :=
  if s.running = false then refuse "QuakeJS is starting. Please retry shortly."
  else if arenaId ∈ s.blocked then refuse "This arena's ledger needs owner review."
  else return ()

/-- The recovery of a run that a previous worker left, in `ensure`. -/
def recoverOld (fuel : Nat) (arenaId : Uid) (old : Run) : Coroutine Unit := do
  let m ← (await (.create arenaId old.id false) : Coroutine MatchId)
  let _ ← drainJournal m fuel
  transact (.recoverRun old.id)

/-- The `try` of `ensure` around `match.start()`. -/
def startMatch (fuel : Nat) (arenaId : Uid) (m : MatchId) : Coroutine Unit :=
  Task.handle (start m) fun _ => do
    let _ ← stop fuel m
    let _ ← write (.retire arenaId)
    refuse "Game server unavailable. No entry payment is needed; contact the arena owner."

/-- `ensure`, from the insertion of the new run on. -/
def serveRun (fuel : Nat) (arenaId run worker : Uid) : Coroutine MatchId := do
  let _ ← transact (.insertRun run arenaId worker)
  let m ← (await (.create arenaId run true) : Coroutine MatchId)
  let _ ← startMatch fuel arenaId m
  return m

/-- `ensure`, from the capacity check on. -/
def serveArena (fuel : Nat) (arenaId : Uid) : Coroutine MatchId := do
  let s ← memory
  if s.maxMatches ≤ s.serving.keys.length then
    refuse "The game server is at capacity. Try again later."
  else do
    let leased ← transact (.leaseArena s.worker arenaId)
    let _ ← forEach (recoverOld fuel arenaId) leased.2.2
    serveRun fuel arenaId leased.1 s.worker

/-- `ensure`, under the lock. -/
def ensureLocked (fuel : Nat) (arenaId : Uid) : Coroutine MatchId := do
  let s ← memory
  let _ ← checkAvailable arenaId s
  match s.serving.lookup arenaId with
  | none => serveArena fuel arenaId
  | some m =>
    if (s.objects m).closed = false then return m
    else do
      let _ ← write (.retire arenaId)
      let _ ← stop fuel m
      serveArena fuel arenaId

/-- `Manager.ensure`. -/
def ensure (fuel : Nat) (arenaId : Uid) : Coroutine MatchId :=
  withLock .manager (ensureLocked fuel arenaId)

/-- `peer = match.peers.pop(slot, None)`, and the life of that connection. -/
def dropPeer (m : MatchId) (peer : Nat) : Coroutine Unit := do
  let s ← memory
  match (s.objects m).peers.lookup peer with
  | none => return ()
  | some c => do
    let _ ← write (.popPeer m peer)
    write (.clearLife c)

/-- One life of a player who leaves is revoked, without forfeiting it. -/
def revokeLife (m : MatchId) (life : Life) : Coroutine Unit := do
  let _ ← control m 3 life.slot [] .leaving
  dropPeer m life.slot

/-- The lives of a player that a run may still hold. -/
def livesIn (σ : Ledger) (playerId run : Uid) : List Life :=
  σ.lives.select fun l => l.playerId = playerId && l.status = .alive && l.runId = run

/-- The barrier of `finish_leave`, under the lock of the match. -/
def barrier (fuel : Nat) (m : MatchId) (playerId : Uid) : Coroutine Unit := do
  let s ← memory
  let σ ← ledger
  let _ ← forEach (revokeLife m) (livesIn σ playerId (s.objects m).run)
  let _ ← drainJournal m fuel
  let _ ← transact (.finishLeave playerId (s.objects m).run)
  use m

/-- `finish_leave`, when the arena is served. -/
def leaveMatch (fuel : Nat) (m : MatchId) (player : Participant) : Coroutine Unit :=
  Task.handle (withLock (.game m) (barrier fuel m player.id)) fun fault => do
    -- Recovery must succeed before any refund can be queued.
    let _ ← stop fuel m
    let _ ← write (.retire player.arenaId)
    Task.raise fault

/-- The running runs that have lives of a player. -/
def runsOf (σ : Ledger) (playerId : Uid) : List Run :=
  σ.runs.select fun r =>
    r.status = .running && σ.lives.any fun l => l.runId = r.id && l.playerId = playerId

/-- The recovery of a run that a previous worker left, in `finish_leave`. -/
def recoverLeaving (fuel : Nat) (arenaId : Uid) (run : Run) : Coroutine Unit := do
  let m ← (await (.create arenaId run.id false) : Coroutine MatchId)
  let _ ← drainJournal m fuel
  transact (.recoverLeavingRun arenaId run.id)

/-- `finish_leave`, when the arena is not served. -/
def leaveRecovered (fuel : Nat) (player : Participant) : Coroutine Unit := do
  let arenas ← ledger
  let σ ← ledger
  let t ← now
  if runsOf σ player.id ≠ [] ∧
      ¬(arenas.arenas.get? player.arenaId).any (fun arena => arena.leaseUntil ≤ t) then
    refuse "Your game is recovering. The leave request is saved."
  else do
    let _ ← forEach (recoverLeaving fuel player.arenaId) (runsOf σ player.id)
    transact (.finishLeave player.id "")

/-- `match`, after a closed one is stopped. -/
def openMatch (fuel : Nat) (arenaId : Uid) : Coroutine (Option MatchId) := do
  let s ← memory
  match s.serving.lookup arenaId with
  | none => return none
  | some m =>
    if (s.objects m).closed = false then return some m
    else do
      let _ ← stop fuel m
      let _ ← write (.retire arenaId)
      return none

/-- `finish_leave`, under the lock. -/
def finishLeaveLocked (fuel : Nat) (player : Participant) : Coroutine Unit := do
  match ← openMatch fuel player.arenaId with
  | some m => leaveMatch fuel m player
  | none => leaveRecovered fuel player

/-- `Manager.finish_leave`. -/
def finishLeave (fuel : Nat) (player : Participant) : Coroutine Unit := do
  let s ← memory
  let _ ← checkAvailable player.arenaId s
  withLock .manager (finishLeaveLocked fuel player)

/-- The players that one sweep of `recover_leaves` takes on. -/
def leavingPlayers (σ : Ledger) (cursor : Uid) : List Participant :=
  ((σ.participants.select fun p => p.leaveState = .leaving && decide (cursor < p.id)).mergeSort
    fun p q => decide (p.id ≤ q.id)).take 10

/-- `Manager.recover_leaves`. -/
def recoverLeaves (fuel : Nat) (cursor : Uid) : Coroutine Unit := do
  let σ ← ledger
  forEach (fun player => Task.handle (finishLeave fuel player) fun _ => return ())
    (leavingPlayers σ cursor)

/-- The `try` of `leave_loop`. -/
def leaveSweep (fuel : Nat) (cursor : Uid) : Coroutine Unit := do
  let s ← memory
  if s.running then recoverLeaves fuel cursor else return ()

/-- The lives that the connections of a match hold. -/
def Memory.connected (s : Memory) (m : MatchId) : List Uid :=
  (s.objects m).peers.entries.filterMap fun entry =>
    (s.connections entry.2).life.map Life.id

/-- `Manager.renew`. -/
def renew (m : MatchId) (arenaId : Uid) : Coroutine Unit := do
  let t ← now
  let s ← memory
  if t - (s.objects m).lastLease < 5 then return ()
  else do
    let _ ← transact (.renewLease s.worker arenaId (s.objects m).run (s.connected m))
    let t ← now
    write (.leased m t)

/-- `Manager.notify`.  What it reads is for the lobby, and need not be there. -/
def notify : Coroutine Unit :=
  Task.handle (do
    let _ ← ledger
    return ()) fun _ => return ()

/-- `if changed`, in a round of `loop`. -/
def notifyIf (changed : Bool) : Coroutine Unit := if changed then notify else return ()

/-- The `try` in a round of `loop`. -/
def tend (fuel : Nat) (arenaId : Uid) (m : MatchId) : Coroutine Unit := do
  let changed ← withLock (.game m) (do
    let changed ← replay m false
    let _ ← renew m arenaId
    return changed)
  let _ ← notifyIf changed
  let s ← memory
  let t ← now
  if (s.objects m).closed = true ∨
      ((s.objects m).peers.keys = [] ∧ 300 < t - (s.objects m).lastUsed) then do
    let _ ← stop fuel m
    write (.retire arenaId)
  else return ()

/-- The `except` in a round of `loop`. -/
def protect (fuel : Nat) (arenaId : Uid) (m : MatchId) : Coroutine Unit :=
  Task.anyway (Task.handle (stop fuel m) fun _ => write (.block arenaId))
    (write (.retire arenaId))

/-- A task of which some operations are shielded. -/
abbrev Marked := Task (Op × Bool) (fun o => o.1.Ans) Fault

/-- The task can be cancelled wherever it waits. -/
def exposed {α : Type} (task : Coroutine α) : Marked α := task.mark true

/-- The task is not cancelled: it is awaited through `finish_on_cancel`, or
nothing cancels it. -/
def shielded {α : Type} (task : Coroutine α) : Marked α := task.mark false

/-- A round of `loop`, for one of the matches it lists, under the lock.  It is
not cancelled while it protects the ledger. -/
def roundLocked (fuel : Nat) (arenaId : Uid) (m : MatchId) : Marked Unit := do
  let s ← exposed memory
  if s.serving.lookup arenaId = some m then
    Task.handle (exposed (tend fuel arenaId m)) fun _ => shielded (protect fuel arenaId m)
  else return ()

/-- A round of `Manager.loop`. -/
def round (fuel : Nat) (arenaId : Uid) (m : MatchId) : Marked Unit := do
  let _ ← exposed (await (.lock .manager))
  Task.anyway (roundLocked fuel arenaId m) (exposed (await (.unlock .manager)))

/-- The `finally` of `loop`.  It waits for the stops. -/
def shutDown : Coroutine Unit := do
  let _ ← write .halt
  await .clear

/-- One of the stops of the `finally` of `loop`.  What it raises is not looked
at. -/
def shutStop (fuel : Nat) (m : MatchId) : Coroutine Unit := do
  let s ← memory
  if m ∈ s.stopping then do
    let _ ← Task.handle (stop fuel m) fun _ => return ()
    write (.stopped m)
  else return ()

/-! ## Connections and requests -/

/-- `Connection.message`, for an admission.  The checks before `ensure` only
refuse, and what goes to the browser is not modelled. -/
def admission (fuel : Nat) (c : ConnectionId) : Coroutine Unit :=
  withLock (.reader c) (Task.handle
    (do
      let s ← memory
      let m ← ensure fuel (s.connections c).arenaId
      let _ ← attach m c
      return ())
    fun _ => return ())

/-- `Connection.read`, for a gameplay packet. -/
def gameplay (c : ConnectionId) (payload : List UInt8) : Coroutine Unit :=
  withLock (.reader c) (await (.forward c payload))

/-- `Connection.detach`, when the browser is gone.  There are no more messages. -/
def disconnect (fuel : Nat) (c : ConnectionId) : Coroutine Unit := do
  let _ ← await (.lock (.reader c))
  let s ← memory
  match (s.connections c).host with
  | none => return ()
  | some m => Task.handle (detach fuel m c) fun _ => return ()

/-- `leave_game`. -/
def leaveGame (fuel : Nat) (arenaId token : String) : Coroutine Unit := do
  let s ← memory
  let _ ← checkAvailable arenaId s
  let player ← transact (.requestLeave arenaId token)
  finishLeave fuel player

end QuakeJs.Server
