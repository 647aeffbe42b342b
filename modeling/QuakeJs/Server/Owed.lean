import QuakeJs.Engine.Spending
import QuakeJs.Server.Custody
import QuakeJs.Server.Seats

/-!
# What the engines owe

An engine may still write a line for an admission that is not consumed, or
that is in its socket.  `Owed` says that all these lives, and the victims of
the lines that the ledger has not applied, are in play in the run of the
engine.  So a line that is written can always be applied.

A life that an engine cannot end any more is `Banned`, and when no line that
waits to be applied names it either, it is `Barred`.  That is what a refund
waits for.
-/

namespace QuakeJs.Server

open Engine Ledger

/-! ## One engine -/

/-- What an engine that goes on may still write a line for. -/
structure Promised (P : Nat → String → Prop) (e : EngineProcess) : Prop where
  holds : e.running = true → ∀ peer id, e.tables.Holds peer id → P peer id
  sent : e.running = true → ∀ (p : UInt8) rest, 1 :: p :: rest ∈ e.inbox → P p.toNat (text rest)

/-- What can become of an engine.  `sent` are the packets that it can get. -/
inductive Evolves (maxClients : Nat) (sent : List UInt8 → Prop) (e : EngineProcess) :
    EngineProcess → Prop
  | same : Evolves maxClients sent e e
  | handled (event : Event) (e' : EngineProcess) (handled : e.handle maxClients event = some e') :
      Evolves maxClients sent e e'
  | exit : Evolves maxClients sent e { e with
      running := false }
  | read : Evolves maxClients sent e { e with
      received := e.received + 1 }
  | pushed (bytes : List UInt8) (may : sent bytes) : Evolves maxClients sent e { e with
      inbox := e.inbox ++ [bytes] }

section

variable {maxClients : Nat} {P Q : Nat → String → Prop} {e e' : EngineProcess}
  {sent : List UInt8 → Prop}

/-- An engine to which nobody was sent has nothing to write. -/
theorem EngineProcess.Untouched.promised (h : e.Untouched) (P : Nat → String → Prop) :
    Promised P e where
  holds := fun _ peer id hholds =>
    absurd (hholds.admitted.symm.trans (h.admissions peer)) hholds.named
  sent := fun _ p rest hmem => by
    rw [h.inbox] at hmem
    cases hmem

theorem Promised.of_stopped (h : e.running = false) (P : Nat → String → Prop) : Promised P e :=
  ⟨fun hrunning => by simp [h] at hrunning, fun hrunning => by simp [h] at hrunning⟩

/-- Every line that an event writes was promised, and no event makes promises. -/
theorem Promised.handle (h : Promised P e) {event : Event}
    (hstep : e.handle maxClients event = some e') : Promised P e' ∧
      ∃ lines, e'.tables.journal = e.tables.journal ++ lines ∧ ∀ line ∈ lines,
        ∃ peer, P peer line.victim := by
  obtain ⟨hrunning, inbox, rfl, htaken⟩ := EngineProcess.handle_cases hstep
  have hturns : Turns event e.tables (e.after (e.tables.handle maxClients event)).tables := by
    have hends := @handle_turns maxClients e.tables event
    cases hnext : e.tables.handle maxClients event with
    | ok t =>
      rw [hnext] at hends
      exact hends
    | error t =>
      rw [hnext] at hends
      exact hends
  have hinbox : ∀ bytes ∈ inbox, bytes ∈ e.inbox := by
    rcases htaken with ⟨bytes, _, _, _, -, hnext⟩ | ⟨-, rfl⟩
    · rw [hnext]
      exact fun b hb => List.mem_cons_of_mem bytes hb
    · exact fun b hb => hb
  obtain ⟨lines, hlines, hvictims⟩ := hturns.lines
  refine ⟨⟨fun _ peer id hholds => ?_, fun _ p rest hmem =>
    h.sent hrunning p rest (hinbox _ hmem)⟩,
    lines, hlines, fun line hline => ?_⟩
  · rcases hturns.holds peer id hholds with hold | ⟨p, rest, connected,
      notified, acked, hevent, rfl, rfl⟩
    · exact h.holds hrunning peer id hold
    · rcases htaken with ⟨bytes, connected', notified', acked', hevent', hnext⟩ | ⟨hother, -⟩
      · rw [hevent, Event.packet.injEq] at hevent'
        refine h.sent hrunning p rest ?_
        rw [hnext, hevent'.1]
        exact List.mem_cons_self
      · exact absurd hevent (hother _ _ _ _)
  · obtain ⟨peer, hholds⟩ := hvictims line hline
    exact ⟨peer, h.holds hrunning peer _ hholds⟩

/-- What can become of an engine keeps its promises, when it gets no packet
that asks for another one. -/
theorem Promised.evolves (h : Promised P e) (hevolves : Evolves maxClients sent e e')
    (hsent : e.running = true → ∀ (p : UInt8) rest, sent (1 :: p :: rest) →
      P p.toNat (text rest)) :
    Promised P e' ∧ ∃ lines, e'.tables.journal = e.tables.journal ++ lines ∧
      ∀ line ∈ lines, ∃ peer, P peer line.victim := by
  have hsame : ∃ lines, e.tables.journal = e.tables.journal ++ lines ∧
      ∀ line ∈ lines, ∃ peer, P peer line.victim := ⟨[], by simp, by simp⟩
  cases hevolves with
  | same => exact ⟨h, hsame⟩
  | handled event e' handled => exact h.handle handled
  | exit => exact ⟨.of_stopped rfl P, hsame⟩
  | read => exact ⟨⟨h.holds, h.sent⟩, hsame⟩
  | pushed bytes may =>
    refine ⟨⟨h.holds, fun hrunning p rest hmem => ?_⟩, hsame⟩
    rcases List.mem_append.mp hmem with hold | hnew
    · exact h.sent hrunning p rest hold
    · exact hsent hrunning p rest (List.mem_singleton.mp hnew ▸ may)

/-- What can become of an engine, as far as the books are concerned. -/
theorem Evolves.goes (h : Evolves maxClients sent e e') (hsound : e.Sound maxClients) :
    e'.Sound maxClients ∧ e.tables.journal <+: e'.tables.journal ∧
      (e.running = false → e'.running = false ∧ e'.tables.journal = e.tables.journal) ∧
      (e.Untouched → (∀ bytes, ¬sent bytes) → e'.Untouched) := by
  cases h with
  | same => exact ⟨hsound, List.prefix_rfl, fun hr => ⟨hr, rfl⟩, fun hu _ => hu⟩
  | handled event e' handled =>
    obtain ⟨hsound', lines, hlines⟩ := hsound.handle handled
    have hrunning := (EngineProcess.handle_cases handled).1
    exact ⟨hsound', hlines ▸ List.prefix_append _ _, fun hr => by simp [hrunning] at hr,
      fun hu _ => hu.handle handled⟩
  | exit =>
    exact ⟨⟨hsound.kept, (fun hgoes => by cases hgoes), hsound.readable⟩, List.prefix_rfl,
      fun _ => ⟨rfl, rfl⟩, fun hu _ => ⟨hu.inbox, hu.journal, hu.admissions⟩⟩
  | read =>
    exact ⟨⟨hsound.kept, hsound.live, hsound.readable⟩, List.prefix_rfl, fun hr => ⟨hr, rfl⟩,
      fun hu _ => ⟨hu.inbox, hu.journal, hu.admissions⟩⟩
  | pushed bytes may =>
    exact ⟨⟨hsound.kept, hsound.live, hsound.readable⟩, List.prefix_rfl, fun hr => ⟨hr, rfl⟩,
      fun _ hnone => absurd may (hnone bytes)⟩

end

/-! ## All engines -/

/-- The engines go on, and get no packets but these. -/
structure Evolve (maxClients : Nat) (sent : Uid → List UInt8 → Prop) (w w' : World) : Prop where
  absent : ∀ run, w.engines run = none → w'.engines run = none
  present : ∀ run e, w.engines run = some e →
    ∃ e', w'.engines run = some e' ∧ Evolves maxClients (sent run) e e'

/-- The lines of a run that the ledger has not applied. -/
def World.unapplied (w : World) (run : Uid) : List Line :=
  (w.journal run).drop (w.applied run).length

/-- Whoever an engine may still end, and whoever is in a line that waits, is
in play. -/
structure Owed (w : World) : Prop where
  lines : ∀ run, ∀ line ∈ w.unapplied run, ∃ slot, Seated w.ledger run slot line.victim
  engines : ∀ run e, w.engines run = some e → Promised (Seated w.ledger run) e

/-- The engine of the run cannot end the life any more. -/
def Banned (run id : Uid) (w : World) : Prop :=
  ∀ e, w.engines run = some e → Promised (fun _ id' => id' ≠ id) e

/-- Neither does a line that waits to be applied. -/
structure Barred (run id : Uid) (w : World) : Prop where
  banned : Banned run id w
  lines : ∀ line ∈ w.unapplied run, line.victim ≠ id

section

variable {maxClients : Nat} {w w' : World} {sent : Uid → List UInt8 → Prop}

theorem Evolve.of_eq (h : w'.engines = w.engines) : Evolve maxClients sent w w' where
  absent := fun run hnone => (congrFun h run).trans hnone
  present := fun run e he => ⟨e, (congrFun h run).trans he, .same⟩

theorem Evolve.goes (h : Evolve maxClients sent w w')
    (hsound : ∀ run e, w.engines run = some e → e.Sound maxClients)
    (hcut : ∀ run bytes, sent run bytes → ¬Cut run w) : EnginesGo maxClients w w' where
  absent := h.absent
  present := by
    intro run e he
    obtain ⟨e', he', hevolves⟩ := h.present run e he
    obtain ⟨hsound', hbelow, hends, huntouched⟩ := hevolves.goes (hsound run e he)
    exact ⟨e', he', hsound', hbelow, hends,
      fun hu hcutoff => huntouched hu fun bytes hsent => hcut run bytes hsent hcutoff⟩

/-- The lines that wait are those that waited before, or were written since. -/
theorem unapplied_of {run : Uid} {lines : List Line}
    (hlines : w'.journal run = w.journal run ++ lines)
    (hle : (w.applied run).length ≤ (w'.applied run).length) {line : Line}
    (hline : line ∈ w'.unapplied run) : line ∈ w.unapplied run ∨ line ∈ lines := by
  unfold World.unapplied at hline ⊢
  rw [hlines, List.drop_append] at hline
  rcases List.mem_append.mp hline with hold | hnew
  · refine .inl (List.mem_of_mem_drop (i := (w'.applied run).length - (w.applied run).length) ?_)
    rw [List.drop_drop]
    have hsum : (w.applied run).length + ((w'.applied run).length - (w.applied run).length) =
        (w'.applied run).length := by omega
    rw [hsum]
    exact hold
  · exact .inr (List.mem_of_mem_drop hnew)

/-- What the engines write and what is applied meanwhile, for one run. -/
theorem Evolve.written (h : Evolve maxClients sent w w') {P : Nat → String → Prop} {run : Uid}
    (hpromised : ∀ e, w.engines run = some e → Promised P e)
    (hsent : ∀ e, w.engines run = some e → e.running = true → ∀ (p : UInt8) rest,
      sent run (1 :: p :: rest) → P p.toNat (text rest))
    (hle : (w.applied run).length ≤ (w'.applied run).length) :
    (∀ e', w'.engines run = some e' → Promised P e') ∧
      ∀ line ∈ w'.unapplied run, line ∈ w.unapplied run ∨ ∃ peer, P peer line.victim := by
  cases he : w.engines run with
  | none =>
    have he' := h.absent run he
    refine ⟨fun e' hsome => ?_, fun line hline => .inl ?_⟩
    · rw [he'] at hsome
      cases hsome
    · have hsame : w'.journal run = w.journal run ++ [] := by
        rw [journal_of_none he, journal_of_none he']
        rfl
      exact (unapplied_of hsame hle hline).resolve_right (List.not_mem_nil)
  | some e =>
    obtain ⟨e', he', hevolves⟩ := h.present run e he
    obtain ⟨hpromised', lines, hlines, hvictims⟩ :=
      (hpromised e he).evolves hevolves (hsent e he)
    refine ⟨fun e'' hsome => ?_, fun line hline => ?_⟩
    · rw [he', Option.some.injEq] at hsome
      exact hsome ▸ hpromised'
    · have hsame : w'.journal run = w.journal run ++ lines := by
        rw [journal_of_some he, journal_of_some he', hlines]
      exact (unapplied_of hsame hle hline).imp_right (hvictims line)

/-- The engines write and get packets, and the ledger stays as it is. -/
theorem Owed.evolve (h : Owed w) (hevolve : Evolve maxClients sent w w')
    (hledger : w'.ledger = w.ledger)
    (hsent : ∀ run e, w.engines run = some e → e.running = true → ∀ (p : UInt8) rest,
      sent run (1 :: p :: rest) → Seated w.ledger run p.toNat (text rest))
    (hle : ∀ run, (w.applied run).length ≤ (w'.applied run).length) : Owed w' := by
  have hwritten := fun run => hevolve.written (h.engines run) (hsent run) (hle run)
  refine ⟨fun run line hline => ?_, fun run e' he' => ?_⟩
  · rw [hledger]
    exact ((hwritten run).2 line hline).elim (h.lines run line) fun hseated => hseated
  · rw [hledger]
    exact (hwritten run).1 e' he'

theorem Banned.evolve {run id : Uid} (h : Banned run id w) (hevolve : Evolve maxClients sent w w')
    (hsent : ∀ e, w.engines run = some e → e.running = true → ∀ (p : UInt8) rest,
      sent run (1 :: p :: rest) → text rest ≠ id)
    (hle : (w.applied run).length ≤ (w'.applied run).length) : Banned run id w' :=
  (hevolve.written h hsent hle).1

theorem Barred.evolve {run id : Uid} (h : Barred run id w) (hevolve : Evolve maxClients sent w w')
    (hsent : ∀ e, w.engines run = some e → e.running = true → ∀ (p : UInt8) rest,
      sent run (1 :: p :: rest) → text rest ≠ id)
    (hle : (w.applied run).length ≤ (w'.applied run).length) : Barred run id w' := by
  obtain ⟨hbanned, hlines⟩ := hevolve.written h.banned hsent hle
  exact ⟨hbanned, fun line hline =>
    (hlines line hline).elim (h.lines line) fun ⟨_, hne⟩ => hne⟩

/-- The engine of a run writes no more. -/
def Stilled (run : Uid) (w : World) : Prop :=
  w.engines run = none ∨ Exited run w ∨ Shut run w

/-- The run of a transaction that releases one is settled: every line is
applied, and its engine writes no more. -/
structure Settled (run : Uid) (w : World) : Prop where
  applied : w.applied run = w.journal run
  still : Stilled run w

theorem Settled.unapplied {run : Uid} (h : Settled run w) : w.unapplied run = [] := by
  unfold World.unapplied
  rw [h.applied]
  exact List.drop_length

theorem Settled.promised {run : Uid} (h : Settled run w) (P : Nat → String → Prop) :
    ∀ e, w.engines run = some e → Promised P e := by
  intro e he
  rcases h.still with hnone | ⟨e', he', hstopped⟩ | hshut
  · rw [hnone] at he
    cases he
  · rw [he, Option.some.injEq] at he'
    exact .of_stopped (he' ▸ hstopped) P
  · obtain ⟨e', he', huntouched⟩ := hshut.untouched
    rw [he, Option.some.injEq] at he'
    exact he' ▸ huntouched.promised P

/-- A transaction commits.  It may release a run that is settled, or complete
a leave whose lives are barred. -/
theorem Owed.perform (h : Owed w) {env : Env} {a : Action} {σ' : Ledger}
    (hbooks : Books w.journal w.ledger) (hacc : Accounts w.ledger)
    (hfits : Fits w.journal w.ledger a) (hrun : perform env a w.ledger = .ok σ')
    (hreleases : ∀ run, a.releases = some run → Settled run w)
    (hleaves : ∀ playerId run, a = .finishLeave playerId run → ∀ l ∈ w.ledger.lives,
      l.playerId = playerId → l.runId = run → l.status = .alive → Barred run l.id w) :
    Owed { w with
      ledger := σ' } := by
  have hstays : ∀ {run slot id}, Seated w.ledger run slot id →
      Seated σ' run slot id ∨ Settled run w ∨ Barred run id w := by
    intro run slot id hseated
    rcases hseated.stays hbooks hacc hfits hrun with hold | hreleased | ⟨l, hl,
      hid, hhere, halive, hcall⟩
    · exact .inl hold
    · exact .inr (.inl (hreleases run hreleased))
    · exact .inr (.inr (hid ▸ hleaves _ _ hcall l hl rfl hhere halive))
  have hle : ∀ run, (w.applied run).length ≤ (({ w with
      ledger := σ' } : World).applied run).length :=
    fun run => ((Further.of_perform hrun).applied w.journal run).length_le
  refine ⟨fun run line hline => ?_, fun run e he => ?_⟩
  · have hsame : ({ w with
        ledger := σ' } : World).journal run = w.journal run ++ [] := (List.append_nil _).symm
    have hbefore := (unapplied_of hsame (hle run) hline).resolve_right List.not_mem_nil
    obtain ⟨slot, hseated⟩ := h.lines run line hbefore
    rcases hstays hseated with hold | hsettled | hbarred
    · exact ⟨slot, hold⟩
    · rw [hsettled.unapplied] at hbefore
      cases hbefore
    · exact absurd rfl (hbarred.lines line hbefore)
  · have hpromised := h.engines run e he
    refine ⟨fun hrunning peer id hholds => ?_, fun hrunning p rest hmem => ?_⟩
    · rcases hstays (hpromised.holds hrunning peer id hholds) with hold | hsettled | hbarred
      · exact hold
      · exact ((hsettled.promised fun _ _ => False) e he).holds hrunning peer id hholds |>.elim
      · exact absurd rfl ((hbarred.banned e he).holds hrunning peer id hholds)
    · rcases hstays (hpromised.sent hrunning p rest hmem) with hold | hsettled | hbarred
      · exact hold
      · exact ((hsettled.promised fun _ _ => False) e he).sent hrunning p rest hmem |>.elim
      · exact absurd rfl ((hbarred.banned e he).sent hrunning p rest hmem)

end

end QuakeJs.Server
