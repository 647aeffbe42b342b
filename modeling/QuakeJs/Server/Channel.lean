import QuakeJs.Engine.Control
import QuakeJs.Server.System

/-!
# The channel between a match and its engine

`Match.control` over two queues: the packets that the engine has not read yet,
and the acknowledgements that `receive` has not read yet.  One call at a time
is under way, since every caller holds the lock of the match.  A call may give
up while its acknowledgement is still on the way, and an acknowledgement names
only the kind of a packet and its peer, so it may be that of an earlier call.

`Inv` says what the two queues can hold.  As long as no admission is under way
(`Settled`), whatever is still acknowledged is true already: the peer is
revoked.  An admission that is under way (`Seating`) is behind every other
control packet, and it is the last one when it fails, since the match is then
closed.
-/

namespace QuakeJs.Server

open Engine

/-- The data of a call of `Match.control`. -/
inductive Command
  | seat (peer : UInt8) (id : List UInt8)
  | revoke (peer : UInt8)
  | forfeit (peer : UInt8)
deriving DecidableEq

def Command.kind : Command → UInt8
  | seat .. => 1
  | revoke _ => 3
  | forfeit _ => 7

def Command.peer : Command → UInt8
  | seat peer _ => peer
  | revoke peer => peer
  | forfeit peer => peer

def Command.bytes : Command → List UInt8
  | seat peer id => 1 :: peer :: id
  | revoke peer => [3, peer]
  | forfeit peer => [7, peer]

/-- `key = (data[0], data[1])`. -/
def Command.key (cmd : Command) : Nat × Nat := (cmd.kind.toNat, cmd.peer.toNat)

/-- A match and its engine.  `calling` is the call that is under way. -/
structure Channel where
  parent : Match
  engine : EngineProcess
  calling : Option Command

/-- What can happen. -/
inductive Move
  /-- `control` registers its future and sends its packet. -/
  | call (cmd : Command)
  /-- `control`, when `send` raises. -/
  | refuse (cmd : Command)
  /-- `control` returns. -/
  | returns
  /-- `control` raises after the packet was sent. -/
  | fails
  /-- A gameplay packet is sent. -/
  | forward (peer : UInt8) (payload : List UInt8)
  /-- `receive` takes the next packet of the engine. -/
  | receive
  | engine (event : Event)
  /-- The engine exits. -/
  | exit
  /-- `closed` is set. -/
  | close

namespace Channel

def initial (arenaId run : Uid) (now : Int) : Channel where
  parent := Match.new arenaId run now
  engine := EngineProcess.new
  calling := none

/-- The parent forgets the future of a call.  After a failed admission it is
closed. -/
def forget (cmd : Command) (failed : Bool) (c : Channel) : Channel :=
  { c with
    calling := none
    parent := { c.parent with
      acks := Function.update c.parent.acks cmd.key none
      closed := c.parent.closed || (failed && cmd.kind = 1) } }

/-- A packet goes into the socket of the engine. -/
def push (bytes : List UInt8) (c : Channel) : Channel :=
  { c with
    engine := { c.engine with
      inbox := c.engine.inbox ++ [bytes] } }

/-- The future of a call is registered. -/
def register (cmd : Command) (c : Channel) : Channel :=
  { c with
    calling := some cmd
    parent := { c.parent with
      acks := Function.update c.parent.acks cmd.key (some false) } }

def step (maxClients : Nat) (c : Channel) (move : Move) : Option Channel :=
  match move, c.calling with
  | .call cmd, none =>
    if c.parent.closed = false then some ((c.register cmd).push cmd.bytes) else none
  | .refuse cmd, none => some (c.forget cmd true)
  | .returns, some cmd =>
    if c.parent.acks cmd.key = some true then some (c.forget cmd false) else none
  | .fails, some cmd => some (c.forget cmd true)
  | .forward peer payload, _ =>
    if c.parent.closed = false then some (c.push (2 :: peer :: payload)) else none
  | .receive, _ =>
    match c.engine.outbox with
    | [] => none
    | packet :: _ => some { c with
        parent := c.parent.receive packet
        engine := { c.engine with
          received := c.engine.received + 1 } }
  | .engine event, _ => (c.engine.handle maxClients event).map fun e => { c with
      engine := e }
  | .exit, _ => some { c with
      engine := { c.engine with
        running := false } }
  | .close, _ => some { c with
      parent := { c.parent with
        closed := true } }
  | _, _ => none

/-- What becomes of a channel by these moves. -/
def run (maxClients : Nat) (moves : List Move) (c : Channel) : Option Channel :=
  moves.foldlM (step maxClients) c

/-! ## The engine of a channel -/

/-- The packet that an event takes out of the socket. -/
def takes : Event → List (List UInt8)
  | .packet bytes .. => [bytes]
  | _ => []

/-- An engine process that has come this far in order. -/
structure Sane (maxClients : Nat) (e : EngineProcess) : Prop where
  kept : Kept maxClients e.tables
  live : e.running = true → Live maxClients e.tables
  received : e.received ≤ e.tables.sent.length

/-- What an engine makes of an event, `packets` being what it sends. -/
structure Handled (maxClients : Nat) (event : Event) (packets : List Packet)
    (e e' : EngineProcess) : Prop where
  inbox : e.inbox = takes event ++ e'.inbox
  outbox : e'.outbox = e.outbox ++ packets
  sane : Sane maxClients e'
  written : Extends (fun _ => True) e.tables e'.tables
  marks : Marks (fun mark => mark.ends ∨ event.asks) e.tables e'.tables
  admissions : event.controls ∨ e'.tables.admissions = e.tables.admissions
  /-- Only a control packet is acknowledged, and only when it was carried out. -/
  acks : ∀ packet ∈ packets, packet.isAck →
    (∃ rest, takes event = [packet.kind :: packet.peer :: rest]) ∧
      (packet.kind = 1 ∨ Revoked packet.peer.toNat e'.tables)
  seats : ∀ peer id, takes event = [1 :: peer :: id] →
    (∀ packet ∈ packets, ¬packet.isAck) ∨
      (∃ payload, packets = [⟨1, peer, payload⟩]) ∧ e'.tables.admissions peer.toNat = text id

theorem outbox_append {e e' : EngineProcess} {packets : List Packet}
    (hle : e.received ≤ e.tables.sent.length) (hreceived : e'.received = e.received)
    (hsent : e'.tables.sent = e.tables.sent ++ packets) : e'.outbox = e.outbox ++ packets := by
  unfold EngineProcess.outbox
  rw [hreceived, hsent, List.drop_append_of_le_length hle]

/-- What the outcome of the entry points comes to. -/
theorem handle_ends {maxClients : Nat} {event : Event} {e e' : EngineProcess}
    (h : e.handle maxClients event = some e') :
    e.running = true ∧ e.inbox = takes event ++ e'.inbox ∧ e'.received = e.received ∧
      ((e'.running = true ∧ e.tables.handle maxClients event = .ok e'.tables) ∨
        (e'.running = false ∧ e.tables.handle maxClients event = .error e'.tables)) := by
  have hafter : ∀ process : Process, (e.after process).inbox = e.inbox ∧
      (e.after process).received = e.received ∧
      (e.running = true → ((e.after process).running = true ∧
        process = .ok (e.after process).tables) ∨
        ((e.after process).running = false ∧ process = .error (e.after process).tables)) := by
    intro process
    cases process with
    | ok t => exact ⟨rfl, rfl, fun hrunning => .inl ⟨hrunning, rfl⟩⟩
    | error t => exact ⟨rfl, rfl, fun _ => .inr ⟨rfl, rfl⟩⟩
  unfold EngineProcess.handle at h
  split_ifs at h with hstopped
  have hrunning : e.running = true := by simpa using hstopped
  have hgoes := hafter (e.tables.handle maxClients event)
  cases event with
  | packet bytes connected notified acked =>
    cases hinbox : e.inbox with
    | nil => simp [hinbox] at h
    | cons next rest =>
      simp only [hinbox] at h
      split_ifs at h with hnext
      cases h
      exact ⟨hrunning, by rw [hnext]; rfl, hgoes.2.1, hgoes.2.2 hrunning⟩
  | connect sender id drops slot =>
    cases h
    exact ⟨hrunning, hgoes.1.symm, hgoes.2.1, hgoes.2.2 hrunning⟩
  | frag frag notified =>
    cases h
    exact ⟨hrunning, hgoes.1.symm, hgoes.2.1, hgoes.2.2 hrunning⟩
  | drop slot notified =>
    cases h
    exact ⟨hrunning, hgoes.1.symm, hgoes.2.1, hgoes.2.2 hrunning⟩

theorem not_isAck_of_tells {packets : List Packet} {kind : UInt8}
    {peer : UInt8} {payload : String}
    (h : ∀ packet ∈ packets, ¬packet.isAck) {packet : Packet}
    (hmem : packet ∈ packets ++ [⟨kind, peer, payload⟩]) (hack : packet.isAck) :
    packet = ⟨kind, peer, payload⟩ := by
  rcases List.mem_append.mp hmem with hold | hnew
  · exact absurd hack (h packet hold)
  · exact List.mem_singleton.mp hnew

theorem handled {maxClients : Nat} {event : Event} {e e' : EngineProcess}
    (hsane : Sane maxClients e) (h : e.handle maxClients event = some e') :
    ∃ packets, Handled maxClients event packets e e' := by
  obtain ⟨hrunning, hinbox, hreceived, hprocess⟩ := handle_ends h
  have hproceeds := handle_proceeds (hsane.live hrunning) event
  have heffect := handle_effect maxClients e.tables event
  rcases hprocess with ⟨hrunning', hok⟩ | ⟨hstopped, herror⟩
  · rw [hok] at hproceeds heffect
    have hsane' : ∀ packets, e'.tables.sent = e.tables.sent ++ packets → Sane maxClients e' := by
      intro packets hsent
      refine ⟨hproceeds.live.kept, fun _ => hproceeds.live, ?_⟩
      rw [hreceived, hsent, List.length_append]
      exact Nat.le_add_right_of_le hsane.received
    have hwritten : Extends (fun _ => True) e.tables e'.tables := by
      obtain ⟨lines, heq, -⟩ := hproceeds.written
      exact ⟨lines, heq, fun _ _ => trivial⟩
    cases heffect with
    | quiet hquiet =>
      obtain ⟨packets, hsent, hpackets⟩ := hquiet.tells
      exact ⟨packets,
        { inbox := hinbox
          outbox := outbox_append hsane.received hreceived hsent
          sane := hsane' packets hsent
          written := hwritten
          marks := hquiet.marks.mono fun _ hends => .inl hends
          admissions := .inr hquiet.admissions
          acks := fun packet hmem hack => absurd hack (hpackets packet hmem)
          seats := fun _ _ _ => .inl hpackets }⟩
    | seated peer id connected notified acked packet admissions trace sent =>
      subst packet
      refine ⟨_,
        { inbox := hinbox
          outbox := outbox_append hsane.received hreceived sent
          sane := hsane' _ sent
          written := hwritten
          marks := ⟨[.admitted peer.toNat (text id), .revoked peer.toNat], trace,
            fun _ _ => .inr rfl⟩
          admissions := .inl (Or.inl rfl)
          acks := ?_
          seats := ?_ }⟩
      · intro packet hmem _
        rw [List.mem_singleton.mp hmem]
        exact ⟨⟨id, rfl⟩, .inl rfl⟩
      · intro peer' id' htakes
        simp only [takes, List.cons.injEq, true_and, and_true] at htakes
        rw [← htakes.1, ← htakes.2, admissions, Function.update_self]
        exact .inr ⟨⟨_, rfl⟩, rfl⟩
    | revoked kind peer rest connected notified acked payload t₁ packet control ended admissions
        trace sent =>
      subst packet
      obtain ⟨packets, hsent, hpackets⟩ := ended.tells
      have hall : e'.tables.sent = e.tables.sent ++ (packets ++ [⟨kind, peer, payload⟩]) := by
        rw [sent, hsent, List.append_assoc]
      have hkind : kind ≠ 1 := by rcases control with rfl | rfl <;> decide
      refine ⟨_,
        { inbox := hinbox
          outbox := outbox_append hsane.received hreceived hall
          sane := hsane' _ hall
          written := hwritten
          marks := (ended.marks.mono fun _ hends => .inl hends).trans
            (.one (.revoked peer.toNat) trace (.inl trivial))
          admissions := .inl (Or.inr (by simpa using control))
          acks := ?_
          seats := ?_ }⟩
      · intro packet hmem hack
        rw [not_isAck_of_tells hpackets hmem hack]
        refine ⟨⟨rest, rfl⟩, .inr ?_⟩
        unfold Revoked
        rw [trace]
        exact latest_cons_self (.revoked peer.toNat) t₁.trace
      · intro peer' id' htakes
        simp only [takes, List.cons.injEq] at htakes
        exact absurd htakes.1.1 hkind
  · rw [herror] at hproceeds heffect
    obtain ⟨packets, hsent, hpackets⟩ := heffect.tells
    have hsane' : Sane maxClients e' := by
      refine ⟨hproceeds.kept, fun hgoes => absurd hgoes (by simp [hstopped]), ?_⟩
      rw [hreceived, hsent, List.length_append]
      exact Nat.le_add_right_of_le hsane.received
    obtain ⟨lines, heq, -⟩ := hproceeds.written
    exact ⟨packets,
      { inbox := hinbox
        outbox := outbox_append hsane.received hreceived hsent
        sane := hsane'
        written := ⟨lines, heq, fun _ _ => trivial⟩
        marks := heffect.marks
        admissions := heffect.admissions
        acks := fun packet hmem hack => absurd hack (hpackets packet hmem)
        seats := fun _ _ _ => .inl hpackets }⟩

/-! ## When no admission is under way -/

/-- The packets are gameplay. -/
def Gameplay (inbox : List (List UInt8)) : Prop := ∀ bytes ∈ inbox, bytes.head? = some 2

/-- None of the packets asks for an admission. -/
def Seatless (inbox : List (List UInt8)) : Prop := ∀ bytes ∈ inbox, bytes.head? ≠ some 1

/-- None of the packets acknowledges an admission. -/
def Unseated (packets : List Packet) : Prop := ∀ packet ∈ packets, packet.kind ≠ 1

/-- No admission is on its way, and the peer of every acknowledgement that is
on its way is revoked. -/
structure Settled (e : EngineProcess) : Prop where
  inbox : Seatless e.inbox
  outbox : Unseated e.outbox
  revoked : ∀ packet ∈ e.outbox, packet.isAck → Revoked packet.peer.toNat e.tables

theorem Gameplay.seatless {inbox : List (List UInt8)} (h : Gameplay inbox) : Seatless inbox := by
  intro bytes hmem hhead
  rw [h bytes hmem] at hhead
  simp at hhead

theorem Seatless.of_append {before after : List (List UInt8)} (h : Seatless (before ++ after)) :
    Seatless after := fun bytes hmem => h bytes (List.mem_append_right before hmem)

theorem Gameplay.of_append {before after : List (List UInt8)} (h : Gameplay (before ++ after)) :
    Gameplay after := fun bytes hmem => h bytes (List.mem_append_right before hmem)

section

variable {maxClients : Nat} {event : Event} {packets : List Packet} {e e' : EngineProcess}

/-- An event that takes nothing, or a packet that is no admission, is not one
that asks for an admission. -/
theorem not_asks (h : Seatless (takes event)) : ¬event.asks := by
  intro hasks
  cases event with
  | packet bytes connected notified acked => exact h bytes (by simp [takes]) hasks
  | connect sender id drops slot => exact hasks
  | frag frag notified => exact hasks
  | drop slot notified => exact hasks

theorem not_controls (h : Gameplay (takes event)) : ¬event.controls := by
  intro hcontrols
  cases event with
  | packet bytes connected notified acked =>
    have hcontrol : bytes.head? = some 1 ∨ bytes.head? = some 3 ∨ bytes.head? = some 7 :=
      hcontrols
    rw [h bytes (by simp [takes])] at hcontrol
    simp at hcontrol
  | connect sender id drops slot => exact hcontrols
  | frag frag notified => exact hcontrols
  | drop slot notified => exact hcontrols

theorem Handled.unseated (h : Handled maxClients event packets e e')
    (hseatless : Seatless (takes event)) : ∀ packet ∈ packets,
      packet.isAck → packet.kind ≠ 1 := by
  intro packet hmem hack hkind
  obtain ⟨⟨rest, htakes⟩, -⟩ := h.acks packet hmem hack
  apply hseatless (packet.kind :: packet.peer :: rest) (by simp [htakes])
  simp [hkind]

/-- Gameplay is not acknowledged. -/
theorem Handled.unacknowledged (h : Handled maxClients event packets e e')
    (hgameplay : Gameplay (takes event)) : ∀ packet ∈ packets, ¬packet.isAck := by
  intro packet hmem hack
  obtain ⟨⟨rest, htakes⟩, -⟩ := h.acks packet hmem hack
  have hhead := hgameplay (packet.kind :: packet.peer :: rest) (by simp [htakes])
  have hkind : packet.kind = 2 := by simpa using hhead
  rw [Packet.isAck, hkind] at hack
  revert hack
  decide

theorem kind_ne_one {packet : Packet} (h : packet.isAck → packet.kind ≠ 1) : packet.kind ≠ 1 :=
  fun hkind => h (.inl hkind) hkind

/-- A peer that is revoked stays so until it is admitted again. -/
theorem Handled.revoked (h : Handled maxClients event packets e e')
    (hseatless : Seatless (takes event)) {peer : Nat} (hrevoked : Revoked peer e.tables) :
    Revoked peer e'.tables := by
  refine hrevoked.of_marks ?_ h.sane.kept.chronicle.ordered
  exact h.marks.mono fun _ hends => hends.resolve_right (not_asks hseatless)

theorem Settled.handled (h : Settled e) (hstep : Handled maxClients event packets e e') :
    Settled e' ∧ ∀ peer, Revoked peer e.tables → Revoked peer e'.tables := by
  have hinbox : Seatless (takes event ++ e'.inbox) := by
    rw [← hstep.inbox]
    exact h.inbox
  have htakes : Seatless (takes event) :=
    fun bytes hmem => hinbox bytes (List.mem_append_left _ hmem)
  have hrevoked : ∀ peer, Revoked peer e.tables → Revoked peer e'.tables :=
    fun _ hold => hstep.revoked htakes hold
  refine ⟨⟨hinbox.of_append, ?_, ?_⟩, hrevoked⟩
  · intro packet hmem
    rw [hstep.outbox, List.mem_append] at hmem
    rcases hmem with hold | hnew
    · exact h.outbox packet hold
    · exact kind_ne_one (hstep.unseated htakes packet hnew)
  · intro packet hmem hack
    rw [hstep.outbox, List.mem_append] at hmem
    rcases hmem with hold | hnew
    · exact hrevoked _ (h.revoked packet hold hack)
    · refine (hstep.acks packet hnew hack).2.resolve_left ?_
      exact hstep.unseated htakes packet hnew hack

end

/-! ## While an admission is under way -/

/-- How far an admission has come.  `done` tells whether its future is done. -/
inductive Seating (peer : UInt8) (id : List UInt8) (e : EngineProcess) : (done : Bool) → Prop
  /-- The engine has not read the packet. -/
  | waiting (before after : List (List UInt8)) (inbox : e.inbox = before ++
      (1 :: peer :: id) :: after)
      (seatless : Seatless before) (gameplay : Gameplay after) (outbox : Unseated e.outbox) :
      Seating peer id e false
  /-- The acknowledgement is on its way, behind those of earlier calls. -/
  | seated (before after : List Packet) (payload : String) (inbox : Gameplay e.inbox)
      (outbox : e.outbox = before ++ ⟨1, peer, payload⟩ :: after) (unseated : Unseated before)
      (last : ∀ packet ∈ after, ¬packet.isAck)
      (holds : e.tables.admissions peer.toNat = text id) : Seating peer id e false
  /-- The engine did not take the packet for an admission, or has exited. -/
  | lost (inbox : Gameplay e.inbox) (outbox : Unseated e.outbox) : Seating peer id e false
  | held (inbox : Gameplay e.inbox) (outbox : ∀ packet ∈ e.outbox, ¬packet.isAck)
      (holds : e.tables.admissions peer.toNat = text id) : Seating peer id e true

section

variable {maxClients : Nat} {event : Event} {packets : List Packet} {e e' : EngineProcess}
  {peer : UInt8} {id : List UInt8} {done : Bool}

theorem Seating.handled (h : Seating peer id e done)
    (hstep : Handled maxClients event packets e e') : Seating peer id e' done := by
  have hnext : ∀ {inbox : List (List UInt8)}, e.inbox = inbox → Gameplay inbox →
      Gameplay (takes event) ∧ Gameplay e'.inbox := by
    intro inbox heq hgameplay
    rw [← heq, hstep.inbox] at hgameplay
    exact ⟨fun bytes hmem => hgameplay bytes (List.mem_append_left _ hmem), hgameplay.of_append⟩
  have hunseated : Unseated e.outbox → (∀ packet ∈ packets, packet.isAck → packet.kind ≠ 1) →
      Unseated e'.outbox := by
    intro hold hnew packet hmem
    rw [hstep.outbox, List.mem_append] at hmem
    rcases hmem with hmem | hmem
    · exact hold packet hmem
    · exact kind_ne_one (hnew packet hmem)
  cases h with
  | waiting before after inbox seatless gameplay outbox =>
    cases before with
    | nil =>
      -- the next packet is that of the admission
      cases htakes : takes event with
      | nil =>
        have hseatless : Seatless (takes event) := by simp [htakes, Seatless]
        have hinbox : e'.inbox = [] ++ (1 :: peer :: id) :: after := by
          rw [← inbox, hstep.inbox, htakes, List.nil_append]
        exact .waiting [] after hinbox (by simp [Seatless]) gameplay
          (hunseated outbox (hstep.unseated hseatless))
      | cons bytes rest =>
        have hone : takes event = [bytes] := by
          cases event <;> simp_all [takes]
        have hinbox : bytes :: e'.inbox = (1 :: peer :: id) :: after := by
          rw [← List.nil_append ((1 :: peer :: id) :: after), ← inbox, hstep.inbox, hone]
          rfl
        rw [List.cons.injEq] at hinbox
        have hgameplay : Gameplay e'.inbox := hinbox.2 ▸ gameplay
        rcases hstep.seats peer id (hinbox.1 ▸ hone) with hsilent | ⟨⟨payload, hsent⟩, hholds⟩
        · exact .lost hgameplay (hunseated outbox fun packet hmem hack =>
            absurd hack (hsilent packet hmem))
        · refine .seated e.outbox [] payload hgameplay ?_ outbox (by simp) hholds
          rw [hstep.outbox, hsent]
    | cons first before =>
      cases htakes : takes event with
      | nil =>
        have hseatless' : Seatless (takes event) := by simp [htakes, Seatless]
        have hinbox : e'.inbox = (first :: before) ++ (1 :: peer :: id) :: after := by
          rw [← inbox, hstep.inbox, htakes, List.nil_append]
        exact .waiting (first :: before) after hinbox seatless gameplay
          (hunseated outbox (hstep.unseated hseatless'))
      | cons bytes rest =>
        have hone : takes event = [bytes] := by
          cases event <;> simp_all [takes]
        have hinbox : bytes :: e'.inbox = first :: (before ++ (1 :: peer :: id) :: after) := by
          rw [← List.cons_append, ← inbox, hstep.inbox, hone]
          rfl
        rw [List.cons.injEq] at hinbox
        have hseatless' : Seatless (takes event) := by
          intro b hb
          rw [hone, List.mem_singleton] at hb
          rw [hb, hinbox.1]
          exact seatless first List.mem_cons_self
        exact .waiting before after hinbox.2
          (fun b hb => seatless b (List.mem_cons_of_mem _ hb)) gameplay
          (hunseated outbox (hstep.unseated hseatless'))
  | seated before after payload inbox outbox unseated last holds =>
    obtain ⟨htakes, hinbox⟩ := hnext rfl inbox
    have hadmissions := hstep.admissions.resolve_left (not_controls htakes)
    refine .seated before (after ++ packets) payload hinbox ?_ unseated ?_
      (by rw [hadmissions, holds])
    · rw [hstep.outbox, outbox, List.append_assoc, List.cons_append]
    · intro packet hmem
      rcases List.mem_append.mp hmem with hold | hnew
      · exact last packet hold
      · exact hstep.unacknowledged htakes packet hnew
  | lost inbox outbox =>
    obtain ⟨htakes, hinbox⟩ := hnext rfl inbox
    exact .lost hinbox (hunseated outbox (hstep.unseated htakes.seatless))
  | held inbox outbox holds =>
    obtain ⟨htakes, hinbox⟩ := hnext rfl inbox
    have hadmissions := hstep.admissions.resolve_left (not_controls htakes)
    refine .held hinbox ?_ (by rw [hadmissions, holds])
    intro packet hmem
    rw [hstep.outbox, List.mem_append] at hmem
    rcases hmem with hold | hnew
    · exact outbox packet hold
    · exact hstep.unacknowledged htakes packet hnew

end

/-! ## What the parent reads -/

/-- The key of the future that an acknowledgement resolves. -/
def ackKey (packet : Packet) : Nat × Nat := (packet.kind.toNat, packet.peer.toNat)

theorem receive_closed (M : Match) (packet : Packet) :
    (M.receive packet).closed = M.closed := by
  simp only [Match.receive]
  split_ifs <;> rfl

theorem receive_acks (M : Match) (packet : Packet) (key : Nat × Nat) :
    (M.receive packet).acks key =
      if packet.kind ∈ [1, 3, 7] ∧ key = ackKey packet ∧ M.acks key = some false then some true
      else M.acks key := by
  simp only [Match.receive, ← show ackKey packet = (packet.kind.toNat,
    packet.peer.toNat) from rfl]
  split_ifs with hack hsame hsame
  · show Function.update M.acks (ackKey packet) (some true) key = some true
    rw [hsame.2.1, Function.update_self]
  · have hkey : key ≠ ackKey packet := fun h => hsame ⟨hack.1, h, h ▸ hack.2⟩
    exact Function.update_of_ne hkey _ _
  · exact absurd ⟨hsame.1, hsame.2.1 ▸ hsame.2.2⟩ hack
  · rfl

/-- An acknowledgement of something else resolves no future. -/
theorem receive_acks_of_ne {M : Match} {packet : Packet} {key : Nat × Nat}
    (h : packet.isAck → key ≠ ackKey packet) : (M.receive packet).acks key = M.acks key := by
  rw [receive_acks, if_neg]
  intro hall
  exact h (by simpa [Packet.isAck] using hall.1) hall.2.1

/-- A future that is registered stays so, and one that is not is not made. -/
theorem receive_acks_ne_none {M : Match} {packet : Packet} {key : Nat × Nat}
    (h : (M.receive packet).acks key ≠ none) : M.acks key ≠ none := by
  rw [receive_acks] at h
  split_ifs at h with hresolved
  · rw [hresolved.2.2]
    simp
  · exact h

theorem key_ne_of_kind (cmd : Command) {packet : Packet} (h : packet.kind ≠ cmd.kind) :
    cmd.key ≠ ackKey packet := by
  intro heq
  have hkind : cmd.kind.toNat = packet.kind.toNat := congrArg Prod.fst heq
  exact h (UInt8.toNat_inj.mp hkind).symm

theorem peer_of_key {cmd : Command} {packet : Packet} (h : cmd.key = ackKey packet) :
    cmd.peer.toNat = packet.peer.toNat := congrArg Prod.snd h

/-- The engine once the parent has read one more of its packets. -/
def read (e : EngineProcess) : EngineProcess :=
  { e with
    received := e.received + 1 }

theorem outbox_read {e : EngineProcess} {packet : Packet} {rest : List Packet}
    (h : e.outbox = packet :: rest) : (read e).outbox = rest := by
  show e.tables.sent.drop (e.received + 1) = rest
  have hdrop : e.tables.sent.drop e.received = packet :: rest := h
  rw [← List.tail_drop, hdrop, List.tail_cons]

theorem Sane.read {maxClients : Nat} {e : EngineProcess} {packet : Packet} {rest : List Packet}
    (h : Sane maxClients e) (houtbox : e.outbox = packet :: rest) :
    Sane maxClients (read e) := by
  refine ⟨h.kept, h.live, ?_⟩
  show e.received + 1 ≤ e.tables.sent.length
  by_contra hover
  have hempty : e.outbox = [] := List.drop_of_length_le (by omega)
  rw [hempty] at houtbox
  simp at houtbox

/-! ## The invariant -/

/-- What the queues may hold, for the call that is under way. -/
inductive Phase (c : Channel) : Prop
  | free (calling : c.calling = none) (settled : Settled c.engine)
  | shut (calling : c.calling = none) (closed : c.parent.closed = true)
  | seating (peer : UInt8) (id : List UInt8) (done : Bool)
      (calling : c.calling = some (.seat peer id))
      (future : c.parent.acks (Command.seat peer id).key = some done)
      (seating : Seating peer id c.engine done)
  | fencing (cmd : Command) (done : Bool) (calling : c.calling = some cmd)
      (kind : cmd.kind = 3 ∨ cmd.kind = 7) (future : c.parent.acks cmd.key = some done)
      (settled : Settled c.engine) (revoked : done = true →
        Revoked cmd.peer.toNat c.engine.tables)

structure Inv (maxClients : Nat) (c : Channel) : Prop where
  engine : Sane maxClients c.engine
  /-- Only the call that is under way has a future. -/
  futures : ∀ key, c.parent.acks key ≠ none → ∃ cmd, c.calling = some cmd ∧ cmd.key = key
  phase : Phase c

section

variable {maxClients : Nat} {c : Channel}

theorem Inv.initial (maxClients : Nat) (arenaId run : Uid) (now : Int) :
    Inv maxClients (initial arenaId run now) where
  engine := ⟨(Live.initial maxClients).kept, fun _ => Live.initial maxClients, Nat.zero_le _⟩
  futures := fun _ h => absurd rfl h
  phase := .free rfl
    { inbox := fun _ hmem => absurd hmem List.not_mem_nil
      outbox := fun _ hmem => absurd hmem List.not_mem_nil
      revoked := fun _ hmem => absurd hmem List.not_mem_nil }

/-- The engine handles an event. -/
theorem Inv.event (h : Inv maxClients c) {event : Event} {e : EngineProcess}
    (hstep : c.engine.handle maxClients event = some e) :
    Inv maxClients { c with
      engine := e } := by
  obtain ⟨packets, hhandled⟩ := Channel.handled h.engine hstep
  refine ⟨hhandled.sane, h.futures, ?_⟩
  cases h.phase with
  | free calling settled => exact .free calling (settled.handled hhandled).1
  | shut calling closed => exact .shut calling closed
  | seating peer id done calling future seating =>
    exact .seating peer id done calling future (seating.handled hhandled)
  | fencing cmd done calling kind future settled revoked =>
    obtain ⟨hsettled, hkeeps⟩ := settled.handled hhandled
    exact .fencing cmd done calling kind future hsettled fun hdone => hkeeps _ (revoked hdone)

/-- Only the queues and the tables of the engine matter, and a match that is
closed stays closed. -/
theorem Inv.of_same (h : Inv maxClients c) {e : EngineProcess} (closed : Bool)
    (hsane : Sane maxClients e) (htables : e.tables = c.engine.tables)
    (hinbox : e.inbox = c.engine.inbox) (houtbox : e.outbox = c.engine.outbox)
    (hclosed : c.parent.closed = true → closed = true) :
    Inv maxClients { c with
      engine := e
      parent := { c.parent with
        closed } } := by
  have hsettled : Settled c.engine → Settled e := by
    intro settled
    refine ⟨hinbox ▸ settled.inbox, houtbox ▸ settled.outbox, ?_⟩
    rw [houtbox, htables]
    exact settled.revoked
  refine ⟨hsane, h.futures, ?_⟩
  cases h.phase with
  | free calling settled => exact .free calling (hsettled settled)
  | shut calling closed => exact .shut calling (hclosed closed)
  | seating peer id done calling future seating =>
    refine .seating peer id done calling future ?_
    cases seating with
    | waiting before after inbox seatless gameplay outbox =>
      exact .waiting before after (hinbox.trans inbox) seatless gameplay (houtbox ▸ outbox)
    | seated before after payload inbox outbox unseated last holds =>
      exact .seated before after payload (hinbox ▸ inbox) (houtbox.trans outbox) unseated last
        (htables ▸ holds)
    | lost inbox outbox => exact .lost (hinbox ▸ inbox) (houtbox ▸ outbox)
    | held inbox outbox holds =>
      exact .held (hinbox ▸ inbox) (houtbox ▸ outbox) (htables ▸ holds)
  | fencing cmd done calling kind future settled revoked =>
    exact .fencing cmd done calling kind future (hsettled settled) (htables ▸ revoked)

/-- A gameplay packet goes into the socket. -/
theorem Inv.forward (h : Inv maxClients c) (peer : UInt8) (payload : List UInt8) :
    Inv maxClients (c.push (2 :: peer :: payload)) := by
  have hseatless : ∀ {inbox}, Seatless inbox → Seatless (inbox ++ [2 :: peer :: payload]) := by
    intro inbox hold bytes hmem
    rcases List.mem_append.mp hmem with hmem | hmem
    · exact hold bytes hmem
    · rw [List.mem_singleton.mp hmem]
      simp
  have hgameplay : ∀ {inbox}, Gameplay inbox → Gameplay (inbox ++ [2 :: peer :: payload]) := by
    intro inbox hold bytes hmem
    rcases List.mem_append.mp hmem with hmem | hmem
    · exact hold bytes hmem
    · rw [List.mem_singleton.mp hmem]
      rfl
  refine ⟨⟨h.engine.kept, h.engine.live, h.engine.received⟩, h.futures, ?_⟩
  cases h.phase with
  | free calling settled =>
    exact .free calling ⟨hseatless settled.inbox, settled.outbox, settled.revoked⟩
  | shut calling closed => exact .shut calling closed
  | seating peer' id done calling future seating =>
    refine .seating peer' id done calling future ?_
    cases seating with
    | waiting before after inbox seatless gameplay outbox =>
      refine .waiting before (after ++ [2 :: peer :: payload]) ?_ seatless
        (hgameplay gameplay) outbox
      show c.engine.inbox ++ [2 :: peer :: payload] = _
      rw [inbox, List.append_assoc, List.cons_append]
    | seated before after payload' inbox outbox unseated last holds =>
      exact .seated before after payload' (hgameplay inbox) outbox unseated last holds
    | lost inbox outbox => exact .lost (hgameplay inbox) outbox
    | held inbox outbox holds => exact .held (hgameplay inbox) outbox holds
  | fencing cmd done calling kind future settled revoked =>
    exact .fencing cmd done calling kind future
      ⟨hseatless settled.inbox, settled.outbox, settled.revoked⟩ revoked

/-- `control` sends its packet, when no call is under way. -/
theorem Inv.call (h : Inv maxClients c) (cmd : Command) (hcalling : c.calling = none)
    (hopen : c.parent.closed = false) : Inv maxClients ((c.register cmd).push cmd.bytes) := by
  have hsettled : Settled c.engine := by
    cases h.phase with
    | free calling settled => exact settled
    | shut calling closed => simp [hopen] at closed
    | seating peer id done calling future seating => simp [hcalling] at calling
    | fencing cmd done calling kind future settled revoked => simp [hcalling] at calling
  refine ⟨⟨h.engine.kept, h.engine.live, h.engine.received⟩, ?_, ?_⟩
  · intro key hkey
    refine ⟨cmd, rfl, ?_⟩
    by_contra hne
    have hold : c.parent.acks key ≠ none := by
      rwa [show ((c.register cmd).push cmd.bytes).parent.acks key = c.parent.acks key from
        Function.update_of_ne (Ne.symm hne) _ _] at hkey
    obtain ⟨cmd', hcmd', -⟩ := h.futures key hold
    simp [hcalling] at hcmd'
  · have hfuture : ((c.register cmd).push cmd.bytes).parent.acks cmd.key = some false :=
      Function.update_self _ _ _
    have hfencing : cmd.bytes.head? ≠ some 1 →
      Settled ((c.register cmd).push cmd.bytes).engine := by
      intro hhead
      refine ⟨?_, hsettled.outbox, hsettled.revoked⟩
      intro bytes hmem
      rcases List.mem_append.mp hmem with hmem | hmem
      · exact hsettled.inbox bytes hmem
      · rw [List.mem_singleton.mp hmem]
        exact hhead
    cases cmd with
    | seat peer id =>
      refine .seating peer id false rfl hfuture ?_
      exact .waiting c.engine.inbox [] rfl hsettled.inbox
        (fun _ hmem => absurd hmem List.not_mem_nil)
        hsettled.outbox
    | revoke peer =>
      exact .fencing (.revoke peer) false rfl (.inl rfl) hfuture
        (hfencing (by simp [Command.bytes]))
        nofun
    | forfeit peer =>
      exact .fencing (.forfeit peer) false rfl (.inr rfl) hfuture
        (hfencing (by simp [Command.bytes]))
        nofun

/-- The call that was under way is forgotten. -/
theorem Inv.forget (h : Inv maxClients c) (cmd : Command) (failed : Bool)
    (hcalling : c.calling = none ∨ c.calling = some cmd)
    (hdone : failed = false → c.parent.acks cmd.key = some true) :
    Inv maxClients (c.forget cmd failed) := by
  refine ⟨h.engine, ?_, ?_⟩
  · intro key hkey
    have hnone : (c.forget cmd failed).parent.acks key = none := by
      show Function.update c.parent.acks cmd.key none key = none
      by_cases hsame : key = cmd.key
      · rw [hsame, Function.update_self]
      · rw [Function.update_of_ne hsame]
        by_contra hold
        obtain ⟨cmd', hcmd', hkey'⟩ := h.futures key hold
        rcases hcalling with hidle | hone
        · simp [hidle] at hcmd'
        · rw [hone, Option.some.injEq] at hcmd'
          exact hsame (hcmd' ▸ hkey').symm
    exact absurd hnone hkey
  · cases h.phase with
    | free calling settled => exact .free rfl settled
    | shut calling closed => exact .shut rfl (by simp [Channel.forget, closed])
    | seating peer id done calling future seating =>
      have hcmd : cmd = .seat peer id := by
        rcases hcalling with hidle | hone
        · simp [hidle] at calling
        · rw [hone, Option.some.injEq] at calling
          exact calling
      subst hcmd
      cases failed with
      | true => exact .shut rfl (by simp [Channel.forget, Command.kind])
      | false =>
        rw [hdone rfl, Option.some.injEq] at future
        subst future
        cases seating with
        | held inbox outbox holds =>
          exact .free rfl ⟨inbox.seatless, fun packet hmem hkind =>
            outbox packet hmem (.inl hkind),
            fun packet hmem hack => absurd hack (outbox packet hmem)⟩
    | fencing cmd' done calling kind future settled revoked => exact .free rfl settled

/-- `receive` takes the next packet of the engine. -/
theorem Inv.receive (h : Inv maxClients c) {packet : Packet} {rest : List Packet}
    (houtbox : c.engine.outbox = packet :: rest) :
    Inv maxClients { c with
      parent := c.parent.receive packet
      engine := read c.engine } := by
  have hrest := outbox_read houtbox
  have hmem : packet ∈ c.engine.outbox := by simp [houtbox]
  have hsettled : Settled c.engine → Settled (read c.engine) := by
    intro settled
    refine ⟨settled.inbox, ?_, ?_⟩
    · rw [hrest]
      exact fun p hp => settled.outbox p (houtbox ▸ List.mem_cons_of_mem _ hp)
    · rw [hrest]
      exact fun p hp => settled.revoked p (houtbox ▸ List.mem_cons_of_mem _ hp)
  refine ⟨h.engine.read houtbox, fun key hkey => h.futures key (receive_acks_ne_none hkey), ?_⟩
  cases h.phase with
  | free calling settled => exact .free calling (hsettled settled)
  | shut calling closed => exact .shut calling ((receive_closed _ _).trans closed)
  | fencing cmd done calling kind future settled revoked =>
    by_cases hkey : packet.isAck ∧ cmd.key = ackKey packet
    · have hrevoked : Revoked cmd.peer.toNat c.engine.tables := by
        rw [peer_of_key hkey.2]
        exact settled.revoked packet hmem hkey.1
      have hfuture : (c.parent.receive packet).acks cmd.key = some true := by
        have hkind : packet.kind ∈ [1, 3, 7] := by simpa [Packet.isAck] using hkey.1
        rw [receive_acks, future]
        cases done with
        | false => rw [if_pos ⟨hkind, hkey.2, rfl⟩]
        | true => simp
      exact .fencing cmd true calling kind hfuture (hsettled settled) fun _ => hrevoked
    · refine .fencing cmd done calling kind ?_ (hsettled settled) revoked
      rw [← future]
      exact receive_acks_of_ne fun hack hsame => hkey ⟨hack, hsame⟩
  | seating peer id done calling future seating =>
    have hother : packet.kind ≠ 1 →
        (c.parent.receive packet).acks (Command.seat peer id).key = some done := by
      intro hkind
      rw [← future]
      exact receive_acks_of_ne fun _ => key_ne_of_kind (.seat peer id) hkind
    have hunseated : Unseated c.engine.outbox → Unseated (read c.engine).outbox := by
      rw [hrest]
      exact fun hold p hp => hold p (houtbox ▸ List.mem_cons_of_mem _ hp)
    cases seating with
    | waiting before after inbox seatless gameplay outbox =>
      exact .seating peer id false calling (hother (outbox packet hmem))
        (.waiting before after inbox seatless gameplay (hunseated outbox))
    | lost inbox outbox =>
      exact .seating peer id false calling (hother (outbox packet hmem))
        (.lost inbox (hunseated outbox))
    | held inbox outbox holds =>
      have hsilent : packet.kind ≠ 1 := fun hkind => outbox packet hmem (.inl hkind)
      refine .seating peer id true calling (hother hsilent) (.held inbox ?_ holds)
      rw [hrest]
      exact fun p hp => outbox p (houtbox ▸ List.mem_cons_of_mem _ hp)
    | seated before after payload inbox outbox unseated last holds =>
      rw [outbox] at houtbox
      cases before with
      | nil =>
        -- the acknowledgement of the admission is the next one
        rw [List.nil_append, List.cons.injEq] at houtbox
        have hfuture : (c.parent.receive packet).acks (Command.seat peer id).key = some true := by
          rw [receive_acks, ← houtbox.1, if_pos ⟨by simp, rfl, future⟩]
        refine .seating peer id true calling hfuture (.held inbox ?_ holds)
        rw [hrest, ← houtbox.2]
        exact last
      | cons first before =>
        rw [List.cons_append, List.cons.injEq] at houtbox
        have hkind : packet.kind ≠ 1 := houtbox.1 ▸ unseated first List.mem_cons_self
        refine .seating peer id false calling (hother hkind)
          (.seated before after payload inbox ?_ ?_ last holds)
        · rw [hrest, ← houtbox.2]
        · exact fun p hp => unseated p (List.mem_cons_of_mem _ hp)

/-- What one move keeps. -/
theorem Inv.step (h : Inv maxClients c) {move : Move} {c' : Channel}
    (hstep : c.step maxClients move = some c') : Inv maxClients c' := by
  unfold Channel.step at hstep
  split at hstep
  · split_ifs at hstep with hopen
    cases hstep
    exact h.call _ ‹_› hopen
  · cases hstep
    exact h.forget _ true (.inl ‹_›) nofun
  · split_ifs at hstep with hdone
    cases hstep
    exact h.forget _ false (.inr ‹_›) fun _ => hdone
  · cases hstep
    exact h.forget _ true (.inr ‹_›) nofun
  · split_ifs at hstep with hopen
    cases hstep
    exact h.forward _ _
  · split at hstep
    · cases hstep
    · cases hstep
      exact h.receive ‹_›
  · obtain ⟨e, hevent, rfl⟩ := Option.map_eq_some_iff.mp hstep
    exact h.event hevent
  · cases hstep
    exact h.of_same c.parent.closed
      ⟨h.engine.kept, fun hgoes => by simp at hgoes,
        h.engine.received⟩ rfl rfl rfl fun hclosed => hclosed
  · cases hstep
    exact h.of_same true h.engine rfl rfl rfl fun _ => rfl
  · cases hstep

/-- What a run keeps. -/
theorem Inv.run (h : Inv maxClients c) {moves : List Move} {c' : Channel}
    (hrun : c.run maxClients moves = some c') : Inv maxClients c' := by
  induction moves generalizing c with
  | nil =>
    cases hrun
    exact h
  | cons move moves ih =>
    obtain ⟨c₁, hstep, hrest⟩ := Option.bind_eq_some_iff.mp hrun
    exact ih (h.step hstep) hrest

/-! ## What is written later -/

/-- What `t` has is in `t'`, and a line about the peer that `t` does not have
follows an admission of its victim that `t` does not have. -/
structure Fenced (peer : Nat) (t t' : Tables) : Prop where
  journal : Extends (fun _ => True) t t'
  fresh : ∃ newer, t'.trace = newer ++ t.trace ∧ ∀ after line before,
    newer = after ++ .journaled peer line :: before → .admitted peer line.victim ∈ before

/-- The engine takes nothing off its journal or its record. -/
structure Grows (t t' : Tables) : Prop where
  journal : Extends (fun _ => True) t t'
  marks : Marks (fun _ => True) t t'

theorem Grows.trans {t₁ t₂ t₃ : Tables} (h : Grows t₁ t₂) (h' : Grows t₂ t₃) : Grows t₁ t₃ :=
  ⟨h.journal.trans h'.journal, h.marks.trans h'.marks⟩

theorem step_grows (h : Inv maxClients c) {move : Move} {c' : Channel}
    (hstep : c.step maxClients move = some c') : Grows c.engine.tables c'.engine.tables := by
  have hsame : c'.engine.tables = c.engine.tables → Grows c.engine.tables c'.engine.tables := by
    intro heq
    rw [heq]
    exact ⟨.of_eq rfl, .of_eq rfl⟩
  unfold Channel.step at hstep
  split at hstep
  case h_7 event _ =>
    obtain ⟨e, hevent, rfl⟩ := Option.map_eq_some_iff.mp hstep
    obtain ⟨packets, hhandled⟩ := Channel.handled h.engine hevent
    exact ⟨hhandled.written, hhandled.marks.mono fun _ _ => trivial⟩
  case h_6 =>
    split at hstep
    · cases hstep
    · cases hstep
      exact hsame rfl
  all_goals
    first
      | (split_ifs at hstep; cases hstep; exact hsame rfl)
      | (cases hstep; exact hsame rfl)
      | cases hstep

theorem run_grows (h : Inv maxClients c) {moves : List Move} {c' : Channel}
    (hrun : c.run maxClients moves = some c') : Grows c.engine.tables c'.engine.tables := by
  induction moves generalizing c with
  | nil =>
    cases hrun
    exact ⟨.of_eq rfl, .of_eq rfl⟩
  | cons move moves ih =>
    obtain ⟨c₁, hstep, hrest⟩ := Option.bind_eq_some_iff.mp hrun
    exact (step_grows h hstep).trans (ih (h.step hstep) hrest)

/-- A peer that is revoked is fenced. -/
theorem Grows.fenced {t t' : Tables} {peer : Nat} (h : Grows t t') (hordered : Ordered t'.trace)
    (hrevoked : Revoked peer t) : Fenced peer t t' := by
  obtain ⟨newer, htrace, -⟩ := h.marks
  refine ⟨h.journal, newer, htrace, ?_⟩
  intro after line before hsplit
  have hlatest : latest peer (before ++ t.trace) = some (.admitted peer line.victim) := by
    apply hordered after (before ++ t.trace) peer line
    rw [htrace, hsplit, List.append_assoc, List.cons_append]
  have hold : t.trace.find? (fun mark => mark.peer = peer) = some (.revoked peer) := hrevoked
  rw [latest, List.find?_append, hold] at hlatest
  cases hfound : before.find? (fun mark => mark.peer = peer) with
  | none =>
    rw [hfound] at hlatest
    simp at hlatest
  | some mark =>
    rw [hfound] at hlatest
    have hmark : mark = .admitted peer line.victim := by simpa using hlatest
    exact hmark ▸ List.mem_of_find?_eq_some hfound

end

/-! ## The barrier -/

/-- When `control` returns from an admission, its id is the current admission
of the peer.  When it returns from a revocation or a forfeiture, the last
thing that the engine did to the peer is to revoke it: every line that it
wrote before is in the journal, and no further one is written for an admission
before that. -/
theorem acknowledged {maxClients : Nat} {arenaId runId : Uid} {now : Int} {moves : List Move}
    {c c₁ : Channel} {cmd : Command}
    (hrun : (initial arenaId runId now).run maxClients moves = some c)
    (hcalling : c.calling = some cmd) (hreturns : c.step maxClients .returns = some c₁) :
    let t := c₁.engine.tables
    (∀ peer id, cmd = .seat peer id → t.admissions peer.toNat = text id) ∧
    (cmd.kind = 3 ∨ cmd.kind = 7 →
      Revoked cmd.peer.toNat t ∧ t.trace.reverse.filterMap Mark.line? = t.journal ∧
        ∀ more c₂, c₁.run maxClients more = some c₂ →
          Fenced cmd.peer.toNat t c₂.engine.tables) := by
  have hinv : Inv maxClients c := (Inv.initial maxClients arenaId runId now).run hrun
  have hinv₁ : Inv maxClients c₁ := hinv.step hreturns
  have hdone : c.parent.acks cmd.key = some true ∧ c₁.engine = c.engine := by
    simp only [Channel.step, hcalling] at hreturns
    split_ifs at hreturns with hdone
    cases hreturns
    exact ⟨hdone, rfl⟩
  rw [hdone.2]
  cases hinv.phase with
  | free calling settled => simp [hcalling] at calling
  | shut calling closed => simp [hcalling] at calling
  | seating peer id done calling future seating =>
    rw [hcalling, Option.some.injEq] at calling
    subst calling
    rw [hdone.1, Option.some.injEq] at future
    subst future
    cases seating with
    | held inbox outbox holds =>
      refine ⟨?_, fun hkind => absurd hkind (by simp [Command.kind])⟩
      intro peer' id' hcmd
      rw [Command.seat.injEq] at hcmd
      rw [← hcmd.1, ← hcmd.2]
      exact holds
  | fencing cmd' done calling kind future settled revoked =>
    rw [hcalling, Option.some.injEq] at calling
    subst calling
    rw [hdone.1, Option.some.injEq] at future
    have hrevoked := revoked future.symm
    refine ⟨?_, fun _ => ⟨hrevoked, hinv.engine.kept.chronicle.traced, ?_⟩⟩
    · rintro peer id rfl
      exact absurd kind (by simp [Command.kind])
    · intro more c₂ hmore
      have hgrows := run_grows hinv₁ hmore
      rw [hdone.2] at hgrows
      exact hgrows.fenced (hinv₁.run hmore).engine.kept.chronicle.ordered hrevoked

/-! ## A late acknowledgement -/

/-- The id of a life. -/
def lifeId : List UInt8 := List.replicate 48 97

def answered (bytes : List UInt8) : Move :=
  .engine (.packet bytes (fun _ => false) .whole .whole)

/-- A life is admitted.  Its revocation times out, and the next one returns on
the acknowledgement of the first, while its own packet is still in the socket. -/
def late : List Move :=
  [.call (.seat 5 lifeId), answered (Command.seat 5 lifeId).bytes, .receive, .returns,
    .call (.revoke 5), .fails, answered (Command.revoke 5).bytes, .call (.revoke 5), .receive]

theorem acknowledged_late : ∃ c c₁ : Channel, (initial "" "" 0).run 8 late = some c ∧
    c.engine.inbox = [(Command.revoke 5).bytes] ∧ c.step 8 .returns = some c₁ ∧
    Revoked 5 c₁.engine.tables := by
  have hrun : ((initial "" "" 0).run 8 late).isSome = true := by decide
  obtain ⟨c, hc⟩ := Option.isSome_iff_exists.mp hrun
  have hstate : ((initial "" "" 0).run 8 late).map (fun c => (c.calling, c.engine.inbox)) =
      some (some (.revoke 5), [(Command.revoke 5).bytes]) := by decide
  have hmore : (((initial "" "" 0).run 8 late).bind fun c =>
    c.step 8 .returns).isSome = true := by
    decide
  rw [hc] at hstate hmore
  obtain ⟨c₁, hc₁⟩ := Option.isSome_iff_exists.mp hmore
  have hboth := Prod.mk.inj (Option.some.inj hstate)
  exact ⟨c, c₁, hc, hboth.2, hc₁, ((acknowledged hc hboth.1 hc₁).2 (.inl rfl)).1⟩

end Channel

end QuakeJs.Server
