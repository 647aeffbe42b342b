import QuakeJs.Data.Fallible
import Mathlib.Algebra.BigOperators.Group.List.Basic
import Mathlib.Algebra.Order.Ring.Int

/-!
# The engine's side of an admission, from `engine/native.c`

The parent process authorises a virtual peer, the engine binds a client slot
to it, and a death is journaled before anyone is told.  The static tables of
the file are the fields of `Tables`.  `Arena_Fatal` ends the process, so a
function that can reach it returns `Except`: an error carries the tables as
they stood at the exit, and the journal file with a line that may be there
only in part.

`trace` is not in the source.  It keeps, newest first, what was done to each
peer, so that statements about the order of admissions, revocations and
journal lines can be made.
-/

namespace QuakeJs.Engine

/-- `ARENA_PEERS`. -/
def arenaPeers : Nat := 8

/-- `ARENA_ID`. -/
def arenaId : Nat := 48

/-- One line of the journal. -/
structure Line where
  sequence : Nat
  killer : String
  victim : String
deriving DecidableEq, Repr

/-- The text that `snprintf` formats. -/
def Line.render (line : Line) : String :=
  "\x7b\"sequence\":" ++ toString line.sequence ++ ",\"killer\":\"" ++ line.killer ++
    "\",\"victim\":\"" ++ line.victim ++ "\"\x7d\n"

/-- A packet of the private socket: its first two bytes, and the rest. -/
structure Packet where
  kind : UInt8
  peer : UInt8
  payload : String
deriving DecidableEq, Repr

/-- The bytes as the characters they stand for. -/
def text (bytes : List UInt8) : String :=
  String.ofList (bytes.map fun byte => Char.ofNat byte.toNat)

/-- A packet from its bytes.  `Arena_Sleep` skips one that is too short. -/
def Packet.ofBytes : List UInt8 → Option Packet
  | kind :: peer :: rest => some { kind, peer, payload := text rest }
  | _ => none

/-- `netadr_t`, as far as `Arena_Peer` reads it. -/
structure Address where
  isIp : Bool
  ip : UInt8 × UInt8 × UInt8 × UInt8
deriving DecidableEq, Repr

/-- What `send` reports: sent whole, `EAGAIN` or `EWOULDBLOCK`, or another error. -/
inductive Sent
  | whole
  | again
  | failed
deriving DecidableEq, Repr

/-- How the calls of `Arena_EndLife` end.  When `write` and `fsync` keep the line,
it is what `send` reports of the notification. -/
inductive Logged
  | whole
  | again
  | failed
  /-- `write` or `fsync` fails, with so many bytes of the line in the file. -/
  | torn (bytes : Nat)
deriving DecidableEq, Repr

/-- What the functions below did to a peer. -/
inductive Mark
  | admitted (peer : Nat) (id : String)
  | revoked (peer : Nat)
  | journaled (peer : Nat) (line : Line)
deriving DecidableEq, Repr

/-- The static variables of the file, the journal file and the packets sent. -/
structure Tables where
  admissions : Nat → String
  consumed : Nat → Bool
  claimed : Nat → Bool
  clients : Nat → String
  clientPeer : Nat → Nat
  sequence : Nat
  journal : List Line
  /-- The line at the end of the file that is not whole, and its bytes there. -/
  torn : Option (Line × Nat)
  sent : List Packet
  trace : List Mark

/-- Static storage starts out zero, and the journal empty. -/
def Tables.initial : Tables where
  admissions := fun _ => ""
  consumed := fun _ => false
  claimed := fun _ => false
  clients := fun _ => ""
  clientPeer := fun _ => 0
  sequence := 0
  journal := []
  torn := none
  sent := []
  trace := []

/-- The process goes on with `ok` tables, or has exited with the `error` tables. -/
abbrev Process := Except Tables Tables

/-! ## Identities and addresses -/

/-- `Arena_Id`: 48 lower case hexadecimal digits.  A zero byte ends a C string. -/
def validId (id : String) : Bool :=
  id.length = arenaId &&
    id.toList.all fun c => ('0' ≤ c && c ≤ '9') || ('a' ≤ c && c ≤ 'f')

/-- `Arena_Peer`: the last octet of a loopback address, and 0 for anything else. -/
def peerOf (address : Address) : Nat :=
  match address.isIp, address.ip with
  | true, (127, 0, 0, peer) => if 1 ≤ peer.toNat ∧ peer.toNat ≤ arenaPeers then peer.toNat else 0
  | _, _ => 0

/-! ## The journal -/

/-- The bytes that are in the journal file. -/
def Tables.journaled (t : Tables) : Nat :=
  (t.journal.map fun line => line.render.length).sum

/-- The line is in the file. -/
def Tables.append (peer : Nat) (line : Line) (t : Tables) : Tables :=
  { t with
    journal := t.journal ++ [line]
    trace := .journaled peer line :: t.trace }

/-- So many bytes of the line are in the file. -/
def Tables.tear (line : Line) (bytes : Nat) (t : Tables) : Tables :=
  { t with
    torn := some (line, bytes) }

/-- Whether the file has room for the line: it holds at most `2^63 - 1` bytes.
The text of the line is not to be computed to go on. -/
@[irreducible]
def Tables.hasRoom (line : Line) (t : Tables) : Bool :=
  t.journaled + line.render.length < 2 ^ 63

/-- `write` and `fsync`. -/
def Tables.write (peer : Nat) (line : Line) (result : Logged) (t : Tables) : Process :=
  if t.hasRoom line then
    match result with
    | .torn bytes =>
      if line.render.length ≤ bytes then .error (t.append peer line)
      else .error (t.tear line bytes)
    | _ => .ok (t.append peer line)
  else .error t

/-- `Arena_Ack`: a send that is not whole is fatal. -/
def Tables.ack (packet : Packet) (result : Sent) (t : Tables) : Process :=
  match result with
  | .whole => .ok { t with
      sent := t.sent ++ [packet] }
  | _ => .error t

/-- The notification of a death.  It may be dropped under pressure. -/
def Tables.notify (line : Line) (result : Logged) (t : Tables) : Process :=
  match result with
  | .whole => .ok { t with
      sent := t.sent ++ [{ kind := 4, peer := 0, payload := line.render }] }
  | .again => .ok t
  | _ => .error t

/-- `++arena_sequence`, which is an `unsigned long`. -/
def increment (sequence : Nat) : Nat :=
  (sequence + 1) % 2 ^ 64

/-- The line that `Arena_EndLife` formats. -/
def Tables.lineOf (peer : Nat) (killerId : String) (t : Tables) : Line :=
  { sequence := increment t.sequence, killer := killerId, victim := t.admissions peer }

/-- The tables when `Arena_EndLife` is about to write. -/
def Tables.spent (peer : Nat) (t : Tables) : Tables :=
  { t with
    consumed := Function.update t.consumed peer true
    sequence := increment t.sequence }

/-- `Arena_EndLife`. -/
def Tables.endLife (peer : Nat) (killerId : String) (result : Logged) (t : Tables) : Process :=
  if peer < 1 ∨ arenaPeers < peer ∨ t.consumed peer ∨ t.admissions peer = "" then .ok t
  else if 256 ≤ (t.lineOf peer killerId).render.length then .error (t.spent peer)
  else do
    let t' ← (t.spent peer).write peer (t.lineOf peer killerId) result
    t'.notify (t.lineOf peer killerId) result

/-! ## The entry points -/

section

variable (maxClients : Nat)

/-- `Arena_Admit`. -/
def Tables.admits (sender : Address) (id : String) (t : Tables) : Bool :=
  peerOf sender ≠ 0 && !t.consumed (peerOf sender) && !t.claimed (peerOf sender) &&
    validId id && t.admissions (peerOf sender) = id

/-- `Arena_Client`. -/
def Tables.client (slot : Int) (sender : Address) (t : Tables) : Process :=
  if slot < 0 ∨ maxClients ≤ slot ∨ peerOf sender = 0 then .error t
  else .ok { t with
    clients := Function.update t.clients slot.toNat (t.admissions (peerOf sender))
    clientPeer := Function.update t.clientPeer slot.toNat (peerOf sender)
    claimed := Function.update t.claimed (peerOf sender) true }

/-- `Arena_Disconnect`, which `SV_DropClient` calls. -/
def Tables.disconnect (slot : Int) (result : Logged) (t : Tables) : Process :=
  if 0 ≤ slot ∧ slot < maxClients then t.endLife (t.clientPeer slot.toNat) "" result
  else .ok t

/-- `Arena_Frag`.  `event` holds the two numbers that `sscanf` read, if it read two. -/
def Tables.frag (event : Option (Int × Int)) (result : Logged) (t : Tables) : Process :=
  match event with
  | none => .ok t
  | some (killer, victim) =>
    if victim < 0 ∨ maxClients ≤ victim then .ok t
    else
      let peer := t.clientPeer victim.toNat
      if peer = 0 ∨ t.clients victim.toNat = "" ∨ t.admissions peer ≠ t.clients victim.toNat then
        .ok t
      else
        let killerId :=
          if 0 ≤ killer ∧ killer < maxClients ∧ killer ≠ victim
            then t.clients killer.toNat else ""
        t.endLife peer killerId result

/-- `SV_DropClient`, for a slot where the server has a client. -/
def Tables.dropClient (connected : Nat → Bool) (slot : Nat) (t : Tables) : Process :=
  if connected slot then t.disconnect maxClients slot .whole else .ok t

/-- What the loop of `Arena_Revoke` does for one client slot. -/
def Tables.unbind (peer : Nat) (connected : Nat → Bool) (t : Tables) (slot : Nat) : Process :=
  if t.clientPeer slot = peer then do
    let t' ← t.dropClient maxClients connected slot
    .ok { t' with
      clients := Function.update t'.clients slot ""
      clientPeer := Function.update t'.clientPeer slot 0 }
  else .ok t

/-- `Arena_Revoke`. -/
def Tables.revoke (peer : Nat) (connected : Nat → Bool) (t : Tables) : Process :=
  (List.range maxClients).foldlM (fun t slot => t.unbind maxClients peer connected slot) { t with
    consumed := Function.update t.consumed peer true
    admissions := Function.update t.admissions peer ""
    trace := .revoked peer :: t.trace }

/-- The tables once `Arena_Sleep` has copied an admission in. -/
def Tables.seat (peer : Nat) (id : String) (t : Tables) : Tables :=
  { t with
    admissions := Function.update t.admissions peer id
    consumed := Function.update t.consumed peer false
    claimed := Function.update t.claimed peer false
    trace := .admitted peer id :: t.trace }

/-- What `Arena_Sleep` does with a packet for one of its peers.  A packet of
kind 2 is handed to the server, which comes back through the other entry
points. -/
def Tables.dispatch (peer : Nat) (packet : Packet) (connected : Nat → Bool)
    (notified : Logged) (acked : Sent) (t : Tables) : Process :=
  if packet.kind = 1 ∧ packet.payload.length = arenaId then
    if !validId packet.payload then .ok t
    else do
      let t₁ ← t.revoke maxClients peer connected
      (t₁.seat peer packet.payload).ack packet acked
  else if packet.kind = 7 ∧ packet.payload.length = 0 then do
    let t₁ ← t.endLife peer "" notified
    let t₂ ← t₁.revoke maxClients peer connected
    t₂.ack packet acked
  else if packet.kind = 3 then do
    let t₁ ← t.revoke maxClients peer connected
    t₁.ack { packet with payload := "" } acked
  else .ok t

/-- One turn of the loop of `Arena_Sleep`. -/
def Tables.receive (packet : Packet) (connected : Nat → Bool) (notified : Logged) (acked : Sent)
    (t : Tables) : Process :=
  if packet.peer.toNat < 1 ∨ arenaPeers < packet.peer.toNat then .ok t
  else t.dispatch maxClients packet.peer.toNat packet connected notified acked

/-- The same, from the bytes that `recv` put in the buffer. -/
def Tables.deliver (bytes : List UInt8) (connected : Nat → Bool) (notified : Logged)
    (acked : Sent) (t : Tables) : Process :=
  match Packet.ofBytes bytes with
  | none => .ok t
  | some packet => t.receive maxClients packet connected notified acked

/-! ## Runs of the process -/

/-- What can reach the entry points. -/
inductive Event
  /-- A packet of the parent process. -/
  | packet (bytes : List UInt8) (connected : Nat → Bool) (notified : Logged) (acked : Sent)
  /-- A connection attempt: once admitted, the server may drop some clients
  and then either refuses it or gives it a slot. -/
  | connect (sender : Address) (id : String) (drops : List (Int × Logged)) (slot : Option Int)
  | frag (event : Option (Int × Int)) (notified : Logged)
  | drop (slot : Int) (notified : Logged)

/-- A connection attempt that has got past `Arena_Admit`. -/
def Tables.join (sender : Address) (drops : List (Int × Logged)) (slot : Option Int)
    (t : Tables) : Process := do
  let t₁ ← drops.foldlM (fun t drop => t.disconnect maxClients drop.1 drop.2) t
  match slot with
  | none => .ok t₁
  | some slot => t₁.client maxClients slot sender

/-- What the process does on one event. -/
def Tables.handle (event : Event) (t : Tables) : Process :=
  match event with
  | .packet bytes connected notified acked => t.deliver maxClients bytes connected notified acked
  | .connect sender id drops slot =>
    if t.admits sender id then t.join maxClients sender drops slot else .ok t
  | .frag event notified => t.frag maxClients event notified
  | .drop slot notified => t.disconnect maxClients slot notified

/-- The process on a sequence of events.  Nothing happens after an exit. -/
def run (events : List Event) : Process :=
  events.foldlM (fun t event => t.handle maxClients event) Tables.initial

end

/-- The tables of a process, whether it goes on or has exited. -/
def tables (process : Process) : Tables :=
  match process with
  | .ok t => t
  | .error t => t

end QuakeJs.Engine
