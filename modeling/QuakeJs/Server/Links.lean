import QuakeJs.Server.Channel
import QuakeJs.Server.Custody

/-!
# The calls of `control` in the world

`Link` puts the channel of `Channel` into the world: the futures of a match,
and the two queues of its engine.  A call of `control` takes three steps there,
so it goes through a few stages.  `Drifts` is what a match and its engine can
do while the task that holds the lock of the match does nothing.
-/

namespace QuakeJs.Server

open Engine

/-- How far a call of `control` has come. -/
inductive Stage
  | idle
  /-- The future is registered. -/
  | registered (key : Nat × Nat)
  /-- The packet is sent. -/
  | calling (cmd : Command)
  | answered (cmd : Command)
  /-- The packet may be sent. -/
  | unanswered (key : Nat × Nat)
  /-- An admission has failed, and the match is about to be closed. -/
  | failed

/-- The future of a call whose packet is not sent yet. -/
structure Registered (maxClients : Nat) (key : Nat × Nat) (M : Match)
    (e : EngineProcess) : Prop where
  engine : Channel.Sane maxClients e
  futures : ∀ k, M.acks k ≠ none → k = key
  phase : M.closed = true ∨ Channel.Settled e ∧ ∃ done, M.acks key = some done ∧
    (done = true → key.1 ≠ 1 ∧ Revoked key.2 e.tables)

def Stage.Holds (maxClients : Nat) (M : Match) (e : EngineProcess) : Stage → Prop
  | idle => Channel.Inv maxClients ⟨M, e, none⟩
  | registered key => Registered maxClients key M e
  | calling cmd => Channel.Inv maxClients ⟨M, e, some cmd⟩
  | answered cmd => Channel.Inv maxClients ⟨M, e, some cmd⟩ ∧ M.acks cmd.key = some true
  | unanswered key => Registered maxClients key M e ∨
      ∃ cmd : Command, cmd.key = key ∧ Channel.Inv maxClients ⟨M, e, some cmd⟩
  | failed => Channel.Sane maxClients e ∧ ∀ key, M.acks key = none

/-- What can become of a match and its engine besides. -/
inductive Drifts (maxClients : Nat) (M : Match) (e : EngineProcess) :
    Match → EngineProcess → Prop
  | kept (M' : Match) (acks : M'.acks = M.acks) (closed : M.closed = true → M'.closed = true) :
      Drifts maxClients M e M' e
  | event (event : Event) (e' : EngineProcess) (handled : e.handle maxClients event = some e') :
      Drifts maxClients M e M e'
  | exit : Drifts maxClients M e M { e with
      running := false }
  | receive (packet : Packet) (rest : List Packet) (outbox : e.outbox = packet :: rest) :
      Drifts maxClients M e (M.receive packet) (Channel.read e)
  | forward (peer : UInt8) (payload : List UInt8) (isOpen : M.closed = false) :
      Drifts maxClients M e M { e with
        inbox := e.inbox ++ [2 :: peer :: payload] }

section

variable {maxClients : Nat} {M M' : Match} {e e' : EngineProcess}

/-- Only the futures matter, and whether the match is closed. -/
theorem Channel.Inv.congr {calling : Option Command} (h : Channel.Inv maxClients ⟨M, e, calling⟩)
    (hacks : M'.acks = M.acks) (hclosed : M.closed = true → M'.closed = true) :
    Channel.Inv maxClients ⟨M', e, calling⟩ := by
  refine ⟨h.engine, ?_, ?_⟩
  · show ∀ key, M'.acks key ≠ none → _
    rw [hacks]
    exact h.futures
  · cases h.phase with
    | free calling settled => exact .free calling settled
    | shut calling closed => exact .shut calling (hclosed closed)
    | seating peer id done calling future seating =>
      exact .seating peer id done calling (by rw [← future]; exact congrFun hacks _) seating
    | fencing cmd done calling kind future settled revoked =>
      exact .fencing cmd done calling kind
        (by rw [← future]; exact congrFun hacks _) settled revoked

/-- A channel goes on, whatever call is under way. -/
theorem Channel.Inv.drifts {calling : Option Command} (h : Channel.Inv maxClients ⟨M, e, calling⟩)
    (hdrifts : Drifts maxClients M e M' e') : Channel.Inv maxClients ⟨M', e', calling⟩ := by
  cases hdrifts with
  | kept M' acks closed => exact h.congr acks closed
  | event event e' handled => exact h.event handled
  | exit =>
    have hstep : (⟨M, e, calling⟩ : Channel).step maxClients .exit = some ⟨M, { e with
        running := false }, calling⟩ := by cases calling <;> rfl
    exact h.step hstep
  | receive packet rest outbox => exact h.receive outbox
  | forward peer payload isOpen => exact h.forward peer payload

theorem read_settled {packet : Packet} {rest : List Packet} (h : Channel.Settled e)
    (houtbox : e.outbox = packet :: rest) : Channel.Settled (Channel.read e) := by
  have hrest := Channel.outbox_read houtbox
  refine ⟨h.inbox, ?_, ?_⟩
  · rw [hrest]
    exact fun p hp => h.outbox p (houtbox ▸ List.mem_cons_of_mem _ hp)
  · rw [hrest]
    exact fun p hp => h.revoked p (houtbox ▸ List.mem_cons_of_mem _ hp)

theorem Registered.drifts {key : Nat × Nat} (h : Registered maxClients key M e)
    (hdrifts : Drifts maxClients M e M' e') : Registered maxClients key M' e' := by
  cases hdrifts with
  | kept M' acks closed =>
    refine ⟨h.engine, by rw [acks]; exact h.futures, ?_⟩
    rw [acks]
    exact h.phase.imp_left closed
  | event event e' handled =>
    obtain ⟨packets, hhandled⟩ := Channel.handled h.engine handled
    refine ⟨hhandled.sane, h.futures, h.phase.imp_right ?_⟩
    rintro ⟨settled, done, future, revoked⟩
    obtain ⟨hsettled, hkeeps⟩ := settled.handled hhandled
    exact ⟨hsettled, done, future, fun hdone => ⟨(revoked hdone).1, hkeeps _ (revoked hdone).2⟩⟩
  | exit =>
    refine ⟨⟨h.engine.kept, (fun hgoes => by cases hgoes), h.engine.received⟩, h.futures,
      h.phase.imp_right ?_⟩
    rintro ⟨settled, rest⟩
    exact ⟨⟨settled.inbox, settled.outbox, settled.revoked⟩, rest⟩
  | receive packet rest outbox =>
    refine ⟨h.engine.read outbox, fun k hk => h.futures k (Channel.receive_acks_ne_none hk), ?_⟩
    rcases h.phase with closed | ⟨settled, done, future, revoked⟩
    · exact .inl ((Channel.receive_closed M packet).trans closed)
    · have hmem : packet ∈ e.outbox := by simp [outbox]
      refine .inr ⟨read_settled settled outbox, ?_⟩
      by_cases hack : packet.kind ∈ [1, 3, 7] ∧
        key = Channel.ackKey packet ∧ M.acks key = some false
      · refine ⟨true, by rw [Channel.receive_acks, if_pos hack], fun _ => ?_⟩
        have hkind := settled.outbox packet hmem
        have hisAck : packet.isAck := by simpa [Packet.isAck] using hack.1
        rw [hack.2.1]
        refine ⟨fun hone => hkind (UInt8.toNat_inj.mp hone), settled.revoked packet hmem hisAck⟩
      · exact ⟨done, by rw [Channel.receive_acks, if_neg hack, future], revoked⟩
  | forward peer payload isOpen =>
    refine ⟨⟨h.engine.kept, h.engine.live, h.engine.received⟩, h.futures, h.phase.imp_right ?_⟩
    rintro ⟨settled, rest⟩
    refine ⟨⟨?_, settled.outbox, settled.revoked⟩, rest⟩
    intro bytes hbytes
    rcases List.mem_append.mp hbytes with hold | hnew
    · exact settled.inbox bytes hold
    · rw [List.mem_singleton.mp hnew]
      simp

theorem Drifts.sane (h : Drifts maxClients M e M' e') (hsane : Channel.Sane maxClients e) :
    Channel.Sane maxClients e' := by
  cases h with
  | kept M' acks closed => exact hsane
  | event event e' handled =>
    obtain ⟨packets, hhandled⟩ := Channel.handled hsane handled
    exact hhandled.sane
  | exit => exact ⟨hsane.kept, (fun hgoes => by cases hgoes), hsane.received⟩
  | receive packet rest outbox => exact hsane.read outbox
  | forward peer payload isOpen => exact ⟨hsane.kept, hsane.live, hsane.received⟩

/-- A future that is resolved stays so, and there are no new ones. -/
theorem Drifts.acks (h : Drifts maxClients M e M' e') (key : Nat × Nat) :
    (M.acks key = some true → M'.acks key = some true) ∧
      (M.acks key = none → M'.acks key = none) := by
  cases h with
  | kept M' acks closed => exact ⟨fun h => acks ▸ h, fun h => acks ▸ h⟩
  | event event e' handled => exact ⟨fun h => h, fun h => h⟩
  | exit => exact ⟨fun h => h, fun h => h⟩
  | receive packet rest outbox =>
    constructor
    · intro htrue
      rw [Channel.receive_acks]
      split_ifs
      · rfl
      · exact htrue
    · intro hnone
      by_contra hsome
      exact Channel.receive_acks_ne_none hsome hnone
  | forward peer payload isOpen => exact ⟨fun h => h, fun h => h⟩

/-- A call stays where it is. -/
theorem Stage.Holds.drifts {stage : Stage} (h : stage.Holds maxClients M e)
    (hdrifts : Drifts maxClients M e M' e') : stage.Holds maxClients M' e' := by
  cases stage with
  | idle => exact Channel.Inv.drifts h hdrifts
  | registered key => exact Registered.drifts h hdrifts
  | calling cmd => exact Channel.Inv.drifts h hdrifts
  | answered cmd => exact ⟨Channel.Inv.drifts h.1 hdrifts, (hdrifts.acks _).1 h.2⟩
  | unanswered key =>
    exact h.imp (fun hregistered => hregistered.drifts hdrifts)
      fun ⟨cmd, hkey, hinv⟩ => ⟨cmd, hkey, hinv.drifts hdrifts⟩
  | failed => exact ⟨hdrifts.sane h.1, fun key => (hdrifts.acks key).2 (h.2 key)⟩

/-! ## What a call does -/

/-- `self.acks[key] = future`. -/
theorem Stage.register (h : Stage.idle.Holds maxClients M e) (key : Nat × Nat) :
    (Stage.registered key).Holds maxClients { M with
      acks := Function.update M.acks key (some false) } e := by
  have hinv : Channel.Inv maxClients ⟨M, e, none⟩ := h
  have hnone : ∀ k, M.acks k = none := by
    intro k
    by_contra hk
    obtain ⟨cmd, hcmd, -⟩ := hinv.futures k hk
    cases hcmd
  refine ⟨hinv.engine, ?_, ?_⟩
  · intro k hk
    by_contra hne
    exact hk ((Function.update_of_ne hne _ _).trans (hnone k))
  · cases hinv.phase with
    | free calling settled =>
      exact .inr ⟨settled, false, Function.update_self _ _ _, fun hdone => by cases hdone⟩
    | shut calling closed => exact .inl closed
    | seating peer id done calling future seating => cases calling
    | fencing cmd done calling kind future settled revoked => cases calling

/-- The packet goes into the socket. -/
theorem Registered.send {cmd : Command} (h : Registered maxClients cmd.key M e)
    (hopen : M.closed = false) : (Stage.calling cmd).Holds maxClients M { e with
      inbox := e.inbox ++ [cmd.bytes] } := by
  obtain ⟨settled, done, future, revoked⟩ := h.phase.resolve_left (by simp [hopen])
  refine ⟨⟨h.engine.kept, h.engine.live, h.engine.received⟩, ?_, ?_⟩
  · exact fun key hkey => ⟨cmd, rfl, (h.futures key hkey).symm⟩
  · have hfencing : cmd.bytes.head? ≠ some 1 → Channel.Settled { e with
        inbox := e.inbox ++ [cmd.bytes] } := by
      intro hhead
      refine ⟨?_, settled.outbox, settled.revoked⟩
      intro bytes hmem
      rcases List.mem_append.mp hmem with hold | hnew
      · exact settled.inbox bytes hold
      · rw [List.mem_singleton.mp hnew]
        exact hhead
    cases cmd with
    | seat peer id =>
      have hdone : done = false := by
        by_contra htrue
        rw [Bool.not_eq_false] at htrue
        exact (revoked htrue).1 rfl
      subst hdone
      exact .seating peer id false rfl future (.waiting e.inbox [] rfl settled.inbox
        (fun _ hmem => absurd hmem List.not_mem_nil) settled.outbox)
    | revoke peer =>
      exact .fencing (.revoke peer) done rfl (.inl rfl) future
        (hfencing (by simp [Command.bytes]))
        fun hdone => (revoked hdone).2
    | forfeit peer =>
      exact .fencing (.forfeit peer) done rfl (.inr rfl) future
        (hfencing (by simp [Command.bytes]))
        fun hdone => (revoked hdone).2

/-- The match without the future of a call. -/
def Match.without (key : Nat × Nat) (M : Match) : Match :=
  { M with
    acks := Function.update M.acks key none }

theorem without_none {key : Nat × Nat} (h : ∀ k, M.acks k ≠ none → k = key) (k : Nat × Nat) :
    (M.without key).acks k = none := by
  show Function.update M.acks key none k = none
  by_cases hk : k = key
  · rw [hk, Function.update_self]
  · rw [Function.update_of_ne hk]
    by_contra hsome
    exact hk (h k hsome)

/-- `self.acks.pop(key, None)`, when the packet was not sent. -/
theorem Registered.drop {key : Nat × Nat} (h : Registered maxClients key M e) :
    Stage.idle.Holds maxClients (M.without key) e := by
  refine ⟨h.engine, fun k hk => absurd (without_none h.futures k) hk, ?_⟩
  rcases h.phase with closed | ⟨settled, -⟩
  · exact .shut rfl closed
  · exact .free rfl settled

/-- The same, when it was that of a revocation or a forfeiture. -/
theorem Stage.drop {cmd : Command} (h : Channel.Inv maxClients ⟨M, e, some cmd⟩)
    (hkind : cmd.kind ≠ 1) : Stage.idle.Holds maxClients (M.without cmd.key) e := by
  have hforget := Channel.Inv.forget h cmd true (.inr rfl) (fun hfalse => by cases hfalse)
  refine Channel.Inv.congr (M := (Channel.forget cmd true ⟨M, e, some cmd⟩).parent) hforget rfl ?_
  simp [Channel.forget, hkind, Match.without]

/-- The same, when it was that of an admission which was acknowledged. -/
theorem Stage.seated {cmd : Command} (h : (Stage.answered cmd).Holds maxClients M e) :
    Stage.idle.Holds maxClients (M.without cmd.key) e := by
  have hforget := Channel.Inv.forget h.1 cmd false (.inr rfl) fun _ => h.2
  refine Channel.Inv.congr (M :=
    (Channel.forget cmd false ⟨M, e, some cmd⟩).parent) hforget rfl ?_
  simp [Channel.forget, Match.without]

/-- The same, when nobody knows whether the packet was sent. -/
theorem Stage.lost {key : Nat × Nat} (h : (Stage.unanswered key).Holds maxClients M e)
    (hkind : key.1 ≠ 1) : Stage.idle.Holds maxClients (M.without key) e := by
  rcases h with hregistered | ⟨cmd, rfl, hinv⟩
  · exact hregistered.drop
  · exact Stage.drop hinv fun hone => hkind (by rw [Command.key, hone]; rfl)

/-- The same, for an admission. -/
theorem Stage.fails {key : Nat × Nat} (h : (Stage.unanswered key).Holds maxClients M e) :
    Stage.failed.Holds maxClients (M.without key) e := by
  rcases h with hregistered | ⟨cmd, rfl, hinv⟩
  · exact ⟨hregistered.engine, without_none hregistered.futures⟩
  · refine ⟨hinv.engine, without_none fun k hk => ?_⟩
    obtain ⟨cmd', hcmd, hkey⟩ := hinv.futures k hk
    rw [Option.some.injEq] at hcmd
    rw [← hkey, hcmd]

/-- After a failed admission the match is closed. -/
theorem Stage.closes (h : Stage.failed.Holds maxClients M e) :
    Stage.idle.Holds maxClients { M with
      closed := true } e :=
  ⟨h.1, fun key hkey => absurd (h.2 key) hkey, .shut rfl rfl⟩

/-- When a revocation or a forfeiture is answered, its peer is revoked and no
admission is on its way. -/
theorem Stage.revoked {cmd : Command} (h : (Stage.answered cmd).Holds maxClients M e)
    (hkind : cmd.kind ≠ 1) : Channel.Settled e ∧ Revoked cmd.peer.toNat e.tables := by
  obtain ⟨hinv, hdone⟩ := h
  cases hinv.phase with
  | free calling settled => cases calling
  | shut calling closed => cases calling
  | seating peer id done calling future seating =>
    have hcmd : cmd = .seat peer id := Option.some.inj calling
    exact absurd (congrArg Command.kind hcmd) hkind
  | fencing cmd' done calling kind future settled revoked =>
    have hcmd : cmd = cmd' := Option.some.inj calling
    subst hcmd
    have hfuture : some true = some done := hdone.symm.trans future
    exact ⟨settled, revoked (Option.some.inj hfuture).symm⟩

end

/-! ## In the world -/

/-- The calls of `control` of a match have come this far.  A match without an
engine has none. -/
structure Link (maxClients : Nat) (m : MatchId) (stage : Stage) (w : World) : Prop where
  spawned : (w.memory.objects m).spawned = true → ∀ e,
    w.engines (w.memory.objects m).run = some e → stage.Holds maxClients (w.memory.objects m) e
  unspawned : (w.memory.objects m).spawned = false →
    stage = .idle ∧ ∀ key, (w.memory.objects m).acks key = none

/-- Whoever holds the lock of a match is not disturbed. -/
structure Drifting (maxClients : Nat) (m : MatchId) (w w' : World) : Prop where
  run : (w'.memory.objects m).run = (w.memory.objects m).run
  spawned : (w'.memory.objects m).spawned = (w.memory.objects m).spawned
  engine : (w.memory.objects m).spawned = true → ∀ e',
    w'.engines (w.memory.objects m).run = some e' →
      ∃ e, w.engines (w.memory.objects m).run = some e ∧
        Drifts maxClients (w.memory.objects m) e (w'.memory.objects m) e'
  acks : (w.memory.objects m).spawned = false → ∀ key,
    (w.memory.objects m).acks key = none → (w'.memory.objects m).acks key = none

theorem Link.drifts {maxClients : Nat} {m : MatchId} {w w' : World} {stage : Stage}
    (h : Link maxClients m stage w) (hdrifting : Drifting maxClients m w w') :
    Link maxClients m stage w' where
  spawned := by
    rw [hdrifting.spawned, hdrifting.run]
    intro hspawned e' he'
    obtain ⟨e, he, hdrifts⟩ := hdrifting.engine hspawned e' he'
    exact (h.spawned hspawned e he).drifts hdrifts
  unspawned := by
    rw [hdrifting.spawned]
    intro hspawned
    obtain ⟨hidle, hnone⟩ := h.unspawned hspawned
    exact ⟨hidle, fun key => hdrifting.acks hspawned key (hnone key)⟩

/-- The engine of the match is as it was. -/
theorem Drifting.of_engine {maxClients : Nat} {m : MatchId} {w w' : World}
    (hkeeps : (w.memory.objects m).Keeps (w'.memory.objects m))
    (hspawned : (w'.memory.objects m).spawned = (w.memory.objects m).spawned)
    (hacks : (w'.memory.objects m).acks = (w.memory.objects m).acks)
    (hengine : w'.engines (w.memory.objects m).run = w.engines (w.memory.objects m).run) :
    Drifting maxClients m w w' where
  run := hkeeps.run
  spawned := hspawned
  engine := fun _ e' he' => ⟨e', hengine ▸ he', .kept _ hacks hkeeps.closed⟩
  acks := fun _ key hnone => (congrFun hacks key).trans hnone

section

variable {maxClients : Nat} {m : MatchId} {w : World} {stage stage' : Stage}

/-- The holder of the lock changes the futures. -/
theorem Link.futures (h : Link maxClients m stage w)
    (hspawned : (w.memory.objects m).spawned = true)
    {acks : Nat × Nat → Option Bool} (hstage : ∀ e,
      stage.Holds maxClients (w.memory.objects m) e →
      stage'.Holds maxClients { w.memory.objects m with
        acks } e) :
    Link maxClients m stage' (w.setMemory (w.memory.setMatch m fun M => { M with
      acks })) := by
  have hself : (w.memory.setMatch m fun M => { M with
      acks }).objects m = { w.memory.objects m with
      acks } := Function.update_self _ _ _
  refine ⟨?_, ?_⟩
  all_goals simp only [World.setMemory, hself]
  · exact fun _ e he => hstage e (h.spawned hspawned e he)
  · simp [hspawned]

/-- The packet goes into the socket. -/
theorem Link.push {cmd : Command} (h : Link maxClients m (.registered cmd.key) w)
    (hspawned : (w.memory.objects m).spawned = true)
    (hopen : (w.memory.objects m).closed = false) :
    Link maxClients m (.calling cmd) (w.push (w.memory.objects m).run cmd.bytes) := by
  unfold World.push
  cases he : w.engines (w.memory.objects m).run with
  | none =>
    exact ⟨fun _ e hsome => by simp [he] at hsome,
      fun hunspawned => by simp [hspawned] at hunspawned⟩
  | some e =>
    refine ⟨fun _ e' he' => ?_, fun hunspawned => by
      simp [World.setEngine, hspawned] at hunspawned⟩
    simp only [World.setEngine, Function.update_self, Option.some.injEq] at he'
    exact he' ▸ Registered.send (h.spawned hspawned e he) hopen

/-- The match is closed after an admission that failed. -/
theorem Link.close (h : Link maxClients m .failed w)
    (hspawned : (w.memory.objects m).spawned = true) :
    Link maxClients m .idle (w.setMemory ((Write.close m).apply w.memory)) := by
  have hself : ((Write.close m).apply w.memory).objects m = { w.memory.objects m with
      closed := true } := Function.update_self _ _ _
  refine ⟨?_, ?_⟩
  all_goals simp only [World.setMemory, hself]
  · exact fun _ e he => Stage.closes (h.spawned hspawned e he)
  · simp [hspawned]

/-- A call that is not answered may have been sent. -/
theorem Link.unanswered {key : Nat × Nat} (h : Link maxClients m (.registered key) w ∨
      ∃ cmd : Command, cmd.key = key ∧ Link maxClients m (.calling cmd) w)
    (hspawned : (w.memory.objects m).spawned = true) : Link maxClients m (.unanswered key) w := by
  refine ⟨fun _ e he => ?_, fun hunspawned => by simp [hspawned] at hunspawned⟩
  exact h.imp (fun hlink => hlink.spawned hspawned e he)
    fun ⟨cmd, hkey, hlink⟩ => ⟨cmd, hkey, hlink.spawned hspawned e he⟩

end

end QuakeJs.Server
