import QuakeJs.Server.Manager

/-!
# The whole system

A worker with any number of tasks, its engines, and the rest of the extension.
`Starter` lists the tasks that can start, `Happening` what happens besides
them, and `Crashes` is a crash of the worker: its memory is gone, while the
ledger, the journals and, until they notice, the engines stay.

A new worker starts to serve only when no engine is left: the engines inherit
its lock file.

What can be cancelled is the work of the tasks that `quakejs_stop` and the end
of a connection cancel, as far as `finish_on_cancel` does not shield it.  The
loop of a process comes to its end once, and it is not cancelled while it stops
a match to protect the ledger.
-/

namespace QuakeJs.Server

open Async Engine

/-- What the operations draw: ids that are new everywhere, and the digests of
`hashlib.sha256`.  An id that a run or a life can get is one that the engine
accepts. -/
structure Draws (digest : String → String) (env : Env) (w : World) : Prop where
  fresh : env.Fresh w.ledger
  valid : validId (env.uid 0) = true
  engines : w.engines (env.uid 0) = none
  touched : w.touched (env.uid 0) = false
  sha256 : env.sha256 = digest

/-- What can come of an operation. -/
def Performs (digest : String → String) (exposed : Bool) (op : Op) (w : World)
    (outcome : Outcome op) (w' : World) : Prop :=
  ∃ env, Draws digest env w ∧ (outcome, w') ∈ op.outcomes env exposed w

/-- The same, of an operation with its mark. -/
def Proceeds (digest : String → String) (o : Op × Bool) : World → Outcome o.1 → World → Prop :=
  Performs digest o.2 o.1

/-! ## Tasks -/

/-- A task that can start. -/
inductive Starter
  | admission (c : ConnectionId)
  | gameplay (c : ConnectionId) (payload : List UInt8)
  | disconnect (c : ConnectionId)
  | leaveGame (arenaId token : String)
  | leaveSweep (cursor : Uid)
  | round (arenaId : Uid) (m : MatchId)
  | shutDown
  | shutStop (m : MatchId)

def Starter.task (fuel : Nat) (starter : Starter) : Marked Unit :=
  match starter with
  | admission c => shielded (Server.admission fuel c)
  | gameplay c payload => exposed (Server.gameplay c payload)
  | disconnect c => exposed (Server.disconnect fuel c)
  | leaveGame arenaId token => shielded (Server.leaveGame fuel arenaId token)
  | leaveSweep cursor => exposed (Server.leaveSweep fuel cursor)
  | round arenaId m => Server.round fuel arenaId m
  | shutDown => shielded Server.shutDown
  | shutStop m => shielded (Server.shutStop fuel m)

/-- Any task can start at any time, with any bound on its drains. -/
def Starts (task : Marked Unit) : Prop := ∃ fuel starter, task = Starter.task fuel starter

/-! ## What happens besides -/

/-- What the engines, the readers of their sockets and the rest of the
extension do. -/
inductive Happening
  /-- An engine takes a packet out of its socket, or its server comes by. -/
  | engine (run : Uid) (event : Event)
  /-- An engine exits. -/
  | exit (run : Uid)
  /-- `receive` takes a packet of the engine. -/
  | receive (m : MatchId)
  /-- `receive` takes the packet of `Arena_Ready`. -/
  | ready (m : MatchId)
  /-- `receive` comes to its end. -/
  | disconnected (m : MatchId)
  /-- The rest of the extension commits a transaction. -/
  | game (env : Env) (a : Action)

/-- The transactions that the rest of the extension leaves to `server.py`. -/
def ofServer : Action → Bool
  | .consumeDeath .. | .allocateLife .. | .finishLeave .. | .leaseArena .. | .insertRun ..
  | .recoverRun .. | .recoverLeavingRun .. | .stopRun .. | .renewLease .. => true
  | _ => false

/-- An engine that has handled an event goes on or has exited. -/
def EngineProcess.after (e : EngineProcess) (process : Process) : EngineProcess :=
  match process with
  | .ok t => { e with
      tables := t }
  | .error t => { e with
      running := false
      tables := t }

/-- An engine handles an event.  A packet is the next one of its socket. -/
def EngineProcess.handle (maxClients : Nat) (event : Event) (e : EngineProcess) :
    Option EngineProcess :=
  if e.running = false then none
  else match event, e.inbox with
  | .packet bytes connected notified acked, next :: rest =>
    if bytes = next then
      some { e.after (e.tables.handle maxClients (.packet bytes connected notified acked)) with
        inbox := rest }
    else none
  | .packet .., [] => none
  | event, _ => some (e.after (e.tables.handle maxClients event))

/-- `receive` on one packet: it may resolve a future. -/
def Match.receive (packet : Packet) (M : Match) : Match :=
  let key := (packet.kind.toNat, packet.peer.toNat)
  if packet.kind ∈ [1, 3, 7] ∧ M.acks key = some false then
    { M with
      acks := Function.update M.acks key (some true) }
  else M

/-- `receive` of a match takes the next packet of its engine. -/
def World.receive (w : World) (m : MatchId) : Option World :=
  match w.engines (w.memory.objects m).run with
  | none => none
  | some e =>
    match e.outbox with
    | [] => none
    | packet :: _ =>
      if (w.memory.objects m).spawned then
        some ((w.setEngine (w.memory.objects m).run { e with
          received := e.received + 1 }).setMemory (w.memory.setMatch m (Match.receive packet)))
      else none

/-- What happens to the world. -/
def World.happen (maxClients : Nat) (h : Happening) (w : World) : Option World :=
  match h with
  | .engine run event =>
    ((w.engines run).bind (EngineProcess.handle maxClients event)).map (w.setEngine run)
  | .exit run => (w.engines run).map fun e => w.setEngine run { e with
      running := false }
  | .receive m => w.receive m
  | .ready m =>
    if (w.memory.objects m).spawned then
      some (w.setMemory (w.memory.setMatch m fun M => { M with
        ready := true }))
    else none
  | .disconnected m =>
    if (w.memory.objects m).spawned then
      some (w.setMemory (w.memory.setMatch m fun M => { M with
        ready := true
        closed := true }))
    else none
  | .game env a =>
    if ofServer a then none
    else (perform env a w.ledger).toOption.map fun σ => { w with
      ledger := σ }

/-- `loop`, up to `self.running = True`: a new worker takes the lock file. -/
def World.restarted (worker : Uid) (maxMatches : Nat) (w : World) : World :=
  { w with
    memory := { w.memory with
      worker
      running := true
      maxMatches } }

/-- Something happens besides the tasks. -/
inductive Outside (digest : String → String) (maxClients : Nat) (w : World) : World → Prop
  | happens (h : Happening) (w' : World)
      (draws : ∀ env a, h = .game env a → Draws digest env w)
      (happens : w.happen maxClients h = some w') : Outside digest maxClients w w'
  | restarts (worker : Uid) (maxMatches : Nat) (stopped : w.memory.running = false)
      (fresh : w.memory.ended = none) (exited : ∀ run, w.alive run = false) :
      Outside digest maxClients w (w.restarted worker maxMatches)

/-- The memory of a worker whose loop has not started. -/
def Memory.initial (visitors : ConnectionId → String × Uid) (created : Nat) : Memory where
  worker := ""
  serving := ∅
  blocked := []
  locked := false
  running := false
  ended := none
  stopping := []
  stopped := []
  maxMatches := 0
  objects := fun _ => { Match.new "" "" 0 with
    closed := true }
  created
  connections := fun c =>
    { token := (visitors c).1, arenaId := (visitors c).2,
      host := none, life := none, busy := false }

/-- A crash: the memory is gone. -/
def Crashes (visitors : ConnectionId → String × Uid) (w w' : World) : Prop :=
  w' = { w with
    memory := .initial visitors w.memory.created }

def World.initial (visitors : ConnectionId → String × Uid) : World where
  ledger := .empty
  memory := .initial visitors 0
  touched := fun _ => false
  engines := fun _ => none

/-- The worker with its tasks. -/
abbrev Tasks := Pool (Op × Bool) (fun o => o.1.Ans) Fault World

/-- One step of the system. -/
abbrev Steps (digest : String → String) (maxClients : Nat)
    (visitors : ConnectionId → String × Uid) : Tasks → Tasks → Prop :=
  Pool.Step (Proceeds digest) Starts (Outside digest maxClients) (Crashes visitors)

/-- Every state of the system that can be reached, whoever the visitors are. -/
abbrev Reachable (digest : String → String) (maxClients : Nat)
    (visitors : ConnectionId → String × Uid) (pool : Tasks) : Prop :=
  Pool.Reachable (Proceeds digest) Starts (Outside digest maxClients) (Crashes visitors)
    (World.initial visitors) pool

end QuakeJs.Server
