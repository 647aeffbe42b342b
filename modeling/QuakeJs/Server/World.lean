import QuakeJs.Async.Task
import QuakeJs.Ledger.Run
import QuakeJs.Server.Journal
import Mathlib.Data.List.AList

/-!
# The world of `server.py`

What the tasks of a worker share: the ledger, the memory of the process (its
`Manager`, its `Match` and `Connection` objects), the journal files and the
engine processes.

`Op` lists what a task awaits or does to the shared memory, and
`Op.outcomes` what can come of it.  A statement that touches the memory is an
operation of its own, so another task can step in more often than at the
awaits of the source.  Nothing is lost by that: what holds in every run of
the model holds in every run of the program.

A task that is not shielded can be cancelled wherever it waits.
-/

namespace QuakeJs.Server

open Async Engine

/-- The identity of a `Match` object. -/
abbrev MatchId := Nat

/-- The identity of a `Connection` object. -/
abbrev ConnectionId := Nat

/-! ## Memory -/

/-- A `Match`.  `acks` tells of each future whether it is done. -/
structure Match where
  arenaId : Uid
  run : Uid
  locked : Bool
  peers : AList fun _ : Nat => ConnectionId
  acks : Nat × Nat → Option Bool
  ready : Bool
  spawned : Bool
  socket : Bool
  offset : Nat
  lastUsed : Int
  closed : Bool
  lastLease : Int

/-- `Match.__init__`. -/
def Match.new (arenaId run : Uid) (now : Int) : Match where
  arenaId
  run
  locked := false
  peers := ∅
  acks := fun _ => none
  ready := false
  spawned := false
  socket := false
  offset := 0
  lastUsed := now
  closed := false
  lastLease := 0

/-- A `Connection`.  `host` is its `match`, and `busy` tells that the task that
serves the browser is in the middle of a message. -/
structure Connection where
  token : String
  arenaId : Uid
  host : Option MatchId
  life : Option Life
  busy : Bool

/-- The memory of a worker.  `serving` is `Manager.matches`, and `objects` has
every `Match` that was made, the first of them `created`.  When `loop` has come
to its end, `ended` tells how many there were by then; the source has no such
field. -/
structure Memory where
  worker : Uid
  serving : AList fun _ : Uid => MatchId
  blocked : List Uid
  locked : Bool
  running : Bool
  ended : Option MatchId
  /-- The matches that the end of `loop` stops, and those that it need not wait
  for any more. -/
  stopping : List MatchId
  stopped : List MatchId
  maxMatches : Nat
  objects : MatchId → Match
  created : Nat
  connections : ConnectionId → Connection

/-- One of the locks.  `reader` is the task of a connection, which takes one
message after the other. -/
inductive Lock
  | manager
  | game (m : MatchId)
  | reader (c : ConnectionId)
deriving DecidableEq, Repr

/-- A statement that changes the memory. -/
inductive Write
  | close (m : MatchId)
  | setOffset (m : MatchId) (offset : Nat)
  | used (m : MatchId) (now : Int)
  | leased (m : MatchId) (now : Int)
  | register (m : MatchId) (key : Nat × Nat)
  | dropAck (m : MatchId) (key : Nat × Nat)
  | popPeer (m : MatchId) (peer : Nat)
  | setPeer (m : MatchId) (peer : Nat) (c : ConnectionId)
  | clearPeers (m : MatchId)
  | clearLife (c : ConnectionId)
  | seat (c : ConnectionId) (life : Life) (m : MatchId)
  | retire (arenaId : Uid)
  | block (arenaId : Uid)
  | halt
  | stopped (m : MatchId)

/-- The memory with one `Match` changed. -/
def Memory.setMatch (s : Memory) (m : MatchId) (f : Match → Match) : Memory :=
  { s with
    objects := Function.update s.objects m (f (s.objects m)) }

/-- The memory with one `Connection` changed. -/
def Memory.setConnection (s : Memory) (c : ConnectionId) (f : Connection → Connection) : Memory :=
  { s with
    connections := Function.update s.connections c (f (s.connections c)) }

/-- The first statements of the `finally` of `loop`: the worker does not run any
more, and the matches that are served are to be stopped. -/
def Memory.halt (s : Memory) : Memory :=
  if s.running then
    { s with
      running := false
      ended := some s.created
      stopping := s.serving.entries.map Sigma.snd }
  else s

/-- What a statement does. -/
def Write.apply (x : Write) (s : Memory) : Memory :=
  match x with
  | close m => s.setMatch m fun M => { M with
      closed := true }
  | setOffset m offset => s.setMatch m fun M => { M with
      offset }
  | used m now => s.setMatch m fun M => { M with
      lastUsed := now }
  | leased m now => s.setMatch m fun M => { M with
      lastLease := now }
  | register m key => s.setMatch m fun M => { M with
      acks := Function.update M.acks key (some false) }
  | dropAck m key => s.setMatch m fun M => { M with
      acks := Function.update M.acks key none }
  | popPeer m peer => s.setMatch m fun M => { M with
      peers := M.peers.erase peer }
  | setPeer m peer c => s.setMatch m fun M => { M with
      peers := M.peers.insert peer c }
  | clearPeers m => s.setMatch m fun M => { M with
      peers := ∅ }
  | clearLife c => s.setConnection c fun C => { C with
      life := none }
  | seat c life m => s.setConnection c fun C => { C with
      life := some life
      host := some m }
  | retire arenaId => { s with
      serving := s.serving.erase arenaId }
  | block arenaId => { s with
      blocked := arenaId :: s.blocked }
  | halt => s.halt
  | stopped m => { s with
      stopped := m :: s.stopped }

/-- Whether a lock is taken. -/
def Memory.taken (s : Memory) : Lock → Bool
  | .manager => s.locked
  | .game m => (s.objects m).locked
  | .reader c => (s.connections c).busy

/-- A lock is taken or released. -/
def Memory.setLock (s : Memory) (l : Lock) (taken : Bool) : Memory :=
  match l with
  | .manager => { s with
      locked := taken }
  | .game m => s.setMatch m fun M => { M with
      locked := taken }
  | .reader c => s.setConnection c fun C => { C with
      busy := taken }

/-! ## Engines -/

/-- An engine process.  `inbox` has the packets that it has not read yet, and
`received` counts those of `tables.sent` that the parent has read. -/
structure EngineProcess where
  running : Bool
  tables : Tables
  inbox : List (List UInt8)
  received : Nat

/-- An engine that has just been started. -/
def EngineProcess.new : EngineProcess where
  running := true
  tables := .initial
  inbox := []
  received := 0

/-- The packets that the parent has not read yet. -/
def EngineProcess.outbox (e : EngineProcess) : List Packet := e.tables.sent.drop e.received

/-- `life["id"].encode()`.  An id is ASCII. -/
def encode (id : String) : List UInt8 := id.toList.map fun c => UInt8.ofNat c.toNat

/-! ## The world -/

structure World where
  ledger : Ledger
  memory : Memory
  /-- The runs whose journal file exists. -/
  touched : Uid → Bool
  /-- The engine processes, by their run, with those that have exited. -/
  engines : Uid → Option EngineProcess

/-- The whole lines of a journal.  Only the engine of the run writes it. -/
def World.journal (w : World) (run : Uid) : List Line :=
  match w.engines run with
  | none => []
  | some e => e.tables.journal

/-- What is left in a journal of a line that was not written whole. -/
def World.torn (w : World) (run : Uid) : List Char :=
  match (w.engines run).bind fun e => e.tables.torn with
  | none => []
  | some (line, bytes) => (chars line).take bytes

/-- The text of a journal file, if there is one. -/
def World.file (w : World) (run : Uid) : Option (List Char) :=
  if w.touched run then some (content (w.journal run) ++ w.torn run) else none

/-- An engine of a run changes. -/
def World.setEngine (w : World) (run : Uid) (e : EngineProcess) : World :=
  { w with
    engines := Function.update w.engines run (some e) }

/-- The engine of a run is running. -/
def World.alive (w : World) (run : Uid) : Bool :=
  match w.engines run with
  | none => false
  | some e => e.running

/-- A packet goes into the socket of an engine. -/
def World.push (w : World) (run : Uid) (bytes : List UInt8) : World :=
  match w.engines run with
  | none => w
  | some e => w.setEngine run { e with
      inbox := e.inbox ++ [bytes] }

/-! ## Operations -/

/-- The transactions that `server.py` runs. -/
inductive Transaction
  | consumeDeath (runId : Uid) (sequence : Int) (victimId killerId : Uid)
  | allocateLife (arenaId token runId : Uid)
  | requestLeave (arenaId token : Uid)
  | finishLeave (playerId revokedRun : Uid)
  | leaseArena (worker arenaId : Uid)
  | insertRun (runId arenaId worker : Uid)
  | recoverRun (runId : Uid)
  | recoverLeavingRun (arenaId runId : Uid)
  | stopRun (arenaId worker runId : Uid)
  | renewLease (worker arenaId runId : Uid) (connected : List Uid)
deriving DecidableEq, Repr

/-- What a transaction returns.  The first one of `ensure` returns the new run
with the arena and the old runs. -/
abbrev Transaction.Result : Transaction → Type
  | consumeDeath .. => Uid
  | allocateLife .. => Life
  | requestLeave .. => Participant
  | leaseArena .. => Uid × Arena × List Run
  | _ => Unit

/-- A transaction that returns nothing. -/
def committed (result : Except LedgerError Ledger) : Except LedgerError (Unit × Ledger) :=
  result.map fun σ => ((), σ)

def Transaction.run (env : Env) (t : Transaction) (σ : Ledger) :
    Except LedgerError (t.Result × Ledger) :=
  match t with
  | consumeDeath runId sequence victimId killerId =>
    Ledger.consumeDeath env runId sequence victimId killerId σ
  | allocateLife arenaId token runId => Ledger.allocateLife env arenaId token runId σ
  | requestLeave arenaId token => Ledger.requestLeave env arenaId token σ
  | finishLeave playerId revokedRun => committed (Ledger.finishLeave env playerId revokedRun σ)
  | leaseArena worker arenaId =>
    (Ledger.leaseArena env worker arenaId σ).map fun r => ((env.uid 0, r.1), r.2)
  | insertRun runId arenaId worker => committed (Ledger.insertRun env runId arenaId worker σ)
  | recoverRun runId => .ok ((), σ.recoverRun runId)
  | recoverLeavingRun arenaId runId => committed (Ledger.recoverLeavingRun arenaId runId σ)
  | stopRun arenaId worker runId => committed (Ledger.stopRun arenaId worker runId σ)
  | renewLease worker arenaId runId connected =>
    committed (Ledger.renewLease env worker arenaId runId connected σ)

/-- Why a control packet is sent. -/
inductive Purpose
  /-- The death of a life was read, in an admission or elsewhere. -/
  | settled (attaching : Bool)
  /-- `attach`: the life that the connection still holds is over. -/
  | revoked (c : ConnectionId)
  /-- `attach`: a life is admitted. -/
  | admitted (c : ConnectionId)
  /-- `detach`: the life of the connection is revoked or forfeited. -/
  | forfeited (c : ConnectionId)
  /-- `finish_leave`: a life is revoked before its refund. -/
  | leaving
deriving DecidableEq, Repr

/-- What a task awaits, and what it does to the shared memory. -/
inductive Op
  | memory
  | write (x : Write)
  | lock (l : Lock)
  | unlock (l : Lock)
  /-- `Match(...)`, and `self.matches[arena_id] = match` if it is to be served. -/
  | create (arenaId run : Uid) (listed : Bool)
  /-- `self.matches.clear()`, when the matches have been stopped. -/
  | clear
  | now
  /-- A `SELECT`. -/
  | ledger
  | transact (t : Transaction)
  | readEvents (m : MatchId)
  /-- `Match.send` of a control packet. -/
  | send (m : MatchId) (kind peer : Nat) (payload : List UInt8) (purpose : Purpose)
  /-- The future of a control packet. -/
  | ack (m : MatchId) (key : Nat × Nat) (purpose : Purpose)
  /-- `Connection.read`: a gameplay packet. -/
  | forward (c : ConnectionId) (payload : List UInt8)
  | socketpair (m : MatchId)
  | prepareBinary
  | mkdir (m : MatchId)
  | touch (m : MatchId)
  | spawn (m : MatchId)
  | awaitReady (m : MatchId)
  /-- `process.returncode is not None`. -/
  | returncode (m : MatchId)
  /-- The process has been terminated and waited for. -/
  | exited (m : MatchId)

/-- What an operation returns. -/
abbrev Op.Ans : Op → Type
  | memory => Memory
  | create .. => MatchId
  | now => Int
  | ledger => Ledger
  | transact t => t.Result
  | readEvents _ => List (Nat × Line)
  | returncode _ => Bool
  | _ => Unit

abbrev Outcome (op : Op) := Except (Raised Fault) op.Ans

def World.setMemory (w : World) (s : Memory) : World := { w with
  memory := s }

/-- A transaction that commits changes the ledger, and one that raises does not. -/
def World.commit (w : World) (t : Transaction) (env : Env) :
    Except (Raised Fault) t.Result × World :=
  match t.run env w.ledger with
  | .ok (result, σ) => (.ok result, { w with
      ledger := σ })
  | .error e => (.error (.error (.raised e)), w)

/-- `Match.send`. -/
def World.send (w : World) (m : MatchId) (kind peer : Nat) (payload : List UInt8) :
    Except (Raised Fault) Unit × World :=
  let M := w.memory.objects m
  if M.closed ∨ M.socket = false then
    (.error (.error (.publicError "The game server is restarting.")), w)
  else if 256 ≤ peer then (.error (.error .failure), w)
  else (.ok (), w.push M.run (UInt8.ofNat kind :: UInt8.ofNat peer :: payload))

/-- A gameplay packet, for a connection that has a life. -/
def World.forward (w : World) (c : ConnectionId) (payload : List UInt8) :
    Except (Raised Fault) Unit × World :=
  match (w.memory.connections c).host, (w.memory.connections c).life with
  | some m, some life => w.send m 2 life.slot payload
  | _, _ => (.ok (), w)

/-- A `Match` is made. -/
def Memory.create (s : Memory) (arenaId run : Uid) (now : Int) (listed : Bool) : Memory :=
  { s with
    serving := if listed then s.serving.insert arenaId s.created else s.serving
    objects := Function.update s.objects s.created (Match.new arenaId run now)
    created := s.created + 1 }

/-- What comes of an operation that runs to its end.  An empty list means that
the task has to wait. -/
def Op.effects (env : Env) (op : Op) (w : World) : List (Outcome op × World) :=
  match op with
  | memory => [(.ok w.memory, w)]
  | write x => [(.ok (), w.setMemory (x.apply w.memory))]
  | lock l => if w.memory.taken l then [] else [(.ok (), w.setMemory (w.memory.setLock l true))]
  | unlock l => [(.ok (), w.setMemory (w.memory.setLock l false))]
  | create arenaId run listed =>
    [(.ok w.memory.created, w.setMemory (w.memory.create arenaId run env.now listed))]
  | clear =>
    if w.memory.ended ≠ none ∧ ∀ m ∈ w.memory.stopping, m ∈ w.memory.stopped then
      [(.ok (), w.setMemory { w.memory with
        serving := ∅ })]
    else []
  | now => [(.ok env.now, w)]
  | ledger => [(.ok w.ledger, w)]
  | transact t => [w.commit t env]
  | readEvents m =>
    [((Server.readEvents (w.file (w.memory.objects m).run) (w.memory.objects m).offset).mapError
      .error, w)]
  | send m kind peer payload _ => [w.send m kind peer payload]
  | ack m key _ => if (w.memory.objects m).acks key = some true then [(.ok (), w)] else []
  -- A packet that does not fit into the socket is dropped.
  | forward c payload => [w.forward c payload, (.ok (), w)]
  | socketpair m => [(.ok (), w.setMemory (w.memory.setMatch m fun M => { M with
      socket := true }))]
  | prepareBinary => [(.ok (), w)]
  | mkdir _ => [(.ok (), w)]
  | touch m =>
    if w.touched (w.memory.objects m).run then [(.error (.error .failure), w)]
    else [(.ok (), { w with
      touched := Function.update w.touched (w.memory.objects m).run true })]
  | spawn m =>
    [(.ok (), (w.setEngine (w.memory.objects m).run .new).setMemory
      (w.memory.setMatch m fun M => { M with
        spawned := true }))]
  | awaitReady m => if (w.memory.objects m).ready then [(.ok (), w)] else []
  | returncode m => [(.ok (!w.alive (w.memory.objects m).run), w)]
  | exited m =>
    if (w.memory.objects m).spawned ∧ w.alive (w.memory.objects m).run then [] else [(.ok (), w)]

/-- Whether an operation can raise because of something below it. -/
def Op.fallible : Op → Bool
  | memory | write _ | lock _ | unlock _ | create .. | clear | now | returncode _ | exited _ =>
    false
  | _ => true

/-- Whether a task waits here, so that it can be cancelled. -/
def Op.waits : Op → Bool
  | lock _ | clear | ledger | transact _ | readEvents _ | ack .. | prepareBinary | spawn _
  | awaitReady _ | exited _ => true
  | _ => false

/-- Whether it can raise though it was done. -/
def Op.uncertain : Op → Bool
  | transact _ => true
  | _ => false

/-- What an operation can raise besides.  `exposed` tells that the task is not
shielded. -/
def Op.raises (exposed : Bool) (op : Op) : List (Raised Fault) :=
  (if op.fallible then [.error .failure] else [])
    ++ (if op.waits && exposed then [.cancelled] else [])

/-- Everything that can come of an operation. -/
def Op.outcomes (env : Env) (exposed : Bool) (op : Op) (w : World) :
    List (Outcome op × World) :=
  op.effects env w ++ (op.raises exposed).flatMap fun raised =>
    (.error raised, w) :: (if op.uncertain then
      (op.effects env w).map fun effect => (.error raised, effect.2) else [])

end QuakeJs.Server
