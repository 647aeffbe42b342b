import QuakeJs.Server.Attendance

/-!
# The manager's books

What the holder of the manager's lock knows of an arena: `Spare`, when no match
is served there, `Vacant`, while the runs of a previous worker are recovered,
and `Starting`, from the moment on that a new match is served.
-/

namespace QuakeJs.Server

open Async Engine Ledger

/-- No match is served in the arena, and no engine of it runs. -/
structure Spare (arenaId : Uid) (w : World) : Prop where
  tidy : Tidy none w
  unserved : w.memory.serving.lookup arenaId = none
  still : ∀ r ∈ w.ledger.runs, r.arenaId = arenaId → w.alive r.id = false

/-- The arena is leased for a new run.  These runs may still be running. -/
structure Vacant (arenaId run : Uid) (olds : List Run) (w : World) : Prop
    extends Spare arenaId w where
  named : run ≠ ""
  leased : ∃ b ∈ w.ledger.arenas, b.id = arenaId ∧ b.runId = run
  unrun : ∀ r ∈ w.ledger.runs, r.id ≠ run
  rest : ∀ r ∈ w.ledger.runs, r.arenaId = arenaId → r.status = .running → ∃ o ∈ olds, o.id = r.id
  rows : ∀ o ∈ olds, ∃ r ∈ w.ledger.runs, r.id = o.id ∧ r.arenaId = arenaId

/-- A match without an engine. -/
structure Bare (m : MatchId) (run : Uid) (w : World) : Prop where
  made : m < w.memory.created
  run_eq : (w.memory.objects m).run = run
  unspawned : (w.memory.objects m).spawned = false

/-- The row of a new run is there, and nothing else of it. -/
structure Inserted (arenaId run : Uid) (w : World) : Prop extends Spare arenaId w where
  row : ∃ r ∈ w.ledger.runs, r.id = run ∧ r.arenaId = arenaId
  goes : Goes run w
  unmade : ∀ m < w.memory.created, (w.memory.objects m).run ≠ run
  engineless : w.engines run = none

/-- A match that was made to be served, which is the only one of its run, and
the only one of the arena whose engine may run. -/
structure Starting (arenaId : Uid) (m : MatchId) (w : World) : Prop where
  tidy : Tidy (some m) w
  placed : w.memory.serving.lookup arenaId = some m ∨ Dropped m w
  only : ∀ m', w.memory.serving.lookup arenaId = some m' → m' = m
  own : Own m w
  alone : Alone m w
  goes : Goes (w.memory.objects m).run w
  arena : (w.memory.objects m).arenaId = arenaId
  lone : ∀ r ∈ w.ledger.runs, r.arenaId = arenaId → w.alive r.id = true →
    r.id = (w.memory.objects m).run

section

variable {maxClients : Nat} {w w' : World} {m : MatchId} {arenaId run : Uid} {olds : List Run}

/-- While a task holds the lock, no engine is started and no run is inserted. -/
theorem Held.still (h : Held w w') {P : Uid → Prop}
    (hstill : ∀ r ∈ w.ledger.runs, r.arenaId = arenaId → w.alive r.id = true → P r.id) :
    ∀ r ∈ w'.ledger.runs, r.arenaId = arenaId → w'.alive r.id = true → P r.id := by
  intro r' hr' harena halive
  obtain ⟨r, hr, hid, harena', -⟩ := h.runs r' hr'
  rw [← hid]
  refine hstill r hr (harena'.trans harena) (h.alive _ ?_)
  rw [hid]
  exact halive

theorem Held.unserved (h : Held w w') (hnone : w.memory.serving.lookup arenaId = none) :
    w'.memory.serving.lookup arenaId = none := by
  cases hlookup : w'.memory.serving.lookup arenaId with
  | none => rfl
  | some m =>
    rw [h.shrinks _ _ hlookup] at hnone
    cases hnone

theorem Spare.keeps : Keeps maxClients ⟨true, none⟩ (Spare arenaId) := by
  intro w w' halong h
  have hheld := halong.held rfl
  refine ⟨Tidy.keeps none w w' halong h.tidy, hheld.unserved h.unserved, ?_⟩
  intro r hr harena
  by_contra halive
  rw [Bool.not_eq_false] at halive
  refine hheld.still (P := fun _ => False) ?_ r hr harena halive
  intro q hq hqarena hqalive
  rw [h.still q hq hqarena] at hqalive
  cases hqalive

theorem Vacant.keeps : Keeps maxClients ⟨true, none⟩ (Vacant arenaId run olds) := by
  intro w w' halong h
  have hheld := halong.held rfl
  refine ⟨Spare.keeps w w' halong h.toSpare, h.named, ?_, ?_, ?_, ?_⟩
  · obtain ⟨b, hb, hid, hrun⟩ := h.leased
    obtain ⟨b', hb', hid', hrun'⟩ := hheld.leases b hb
    exact ⟨b', hb', hid'.trans hid, hrun'.trans hrun⟩
  · intro r' hr' heq
    obtain ⟨r, hr, hid, -⟩ := hheld.runs r' hr'
    exact h.unrun r hr (hid.trans heq)
  · intro r' hr' harena hgoes
    obtain ⟨r, hr, hid, harena', hgoes'⟩ := hheld.runs r' hr'
    obtain ⟨o, ho, hoid⟩ := h.rest r hr (harena'.trans harena) (hgoes' hgoes)
    exact ⟨o, ho, hoid.trans hid⟩
  · intro o ho
    obtain ⟨r, hr, hid, harena⟩ := h.rows o ho
    obtain ⟨r', hr', hid', harena', -⟩ := halong.onward.progress.further r hr
    exact ⟨r', hr', hid'.trans hid, harena'.trans harena⟩

theorem Bare.keeps : Keeps maxClients ⟨true, none⟩ (Bare m run) := by
  intro w w' halong h
  refine ⟨h.made.trans_le halong.onward.created, ?_, ?_⟩
  · rw [(halong.onward.objects m h.made).run]
    exact h.run_eq
  · rw [((halong.held rfl).started m).1]
    exact h.unspawned

theorem Stilled.onward (h : Stilled run w) (honward : Onward w w')
    (hengines : w.engines run = none → w'.engines run = none) : Stilled run w' := by
  rcases h with hnone | hexited | hshut
  · exact .inl (hengines hnone)
  · exact .inr (.inl (honward.exited run hexited).1)
  · exact .inr (.inr (honward.shut run hshut))

theorem Stilled.commit (h : Stilled run w) (σ' : Ledger) : Stilled run { w with
    ledger := σ' } :=
  h.imp_right fun hrest => hrest.imp_right fun hshut => ⟨hshut.untouched, hshut.cut⟩

theorem Stilled.keeps : Keeps maxClients ⟨true, none⟩ (Stilled run) :=
  fun _ _ halong h => h.onward halong.onward ((halong.held rfl).engines run)

/-- An engine that is shut has written nothing. -/
theorem Shut.journal (h : Shut run w) : w.journal run = [] := by
  obtain ⟨e, he, huntouched⟩ := h.untouched
  rw [journal_of_some he]
  exact huntouched.journal

theorem Settled.keeps : Keeps maxClients ⟨true, none⟩ (Settled run) := by
  intro w w' halong h
  refine ⟨applied_stays halong.onward h.applied ?_, Stilled.keeps w w' halong h.still⟩
  rcases h.still with hnone | hexited | hshut
  · rw [journal_of_none hnone, journal_of_none ((halong.held rfl).engines run hnone)]
  · exact (halong.onward.exited run hexited).2
  · rw [hshut.journal, (halong.onward.shut run hshut).journal]

theorem Inserted.keeps : Keeps maxClients ⟨true, none⟩ (Inserted arenaId run) := by
  intro w w' halong h
  have hheld := halong.held rfl
  refine ⟨Spare.keeps w w' halong h.toSpare, ?_, hheld.goes run h.goes, ?_,
    hheld.engines run h.engineless⟩
  · obtain ⟨r, hr, hid, harena⟩ := h.row
    obtain ⟨r', hr', hid', harena', -⟩ := halong.onward.progress.further r hr
    exact ⟨r', hr', hid'.trans hid, harena'.trans harena⟩
  · intro m hm
    rw [hheld.created] at hm
    rw [(halong.onward.objects m hm).run]
    exact h.unmade m hm

theorem Alone.keeps (hm : m < w.memory.created) (h : Alone m w)
    (hcreated : w'.memory.created = w.memory.created)
    (hruns : ∀ m < w.memory.created, (w'.memory.objects m).run = (w.memory.objects m).run) :
    Alone m w' := by
  intro m' hm' hrun
  rw [hcreated] at hm'
  rw [hruns m' hm', hruns m hm] at hrun
  exact h m' hm' hrun

theorem Starting.keeps : Keeps maxClients ⟨true, none⟩ (Starting arenaId m) := by
  intro w w' halong h
  have hheld := halong.held rfl
  have hkeeps := halong.onward.objects m h.own.made
  refine ⟨Tidy.keeps (some m) w w' halong h.tidy, ?_,
    fun m' hm' => h.only m' (hheld.shrinks _ _ hm'), halong.onward.own m h.own, ?_, ?_,
    hkeeps.arenaId.trans h.arena, ?_⟩
  · rcases h.placed with hserved | hdropped
    · exact hheld.drops _ _ hserved
    · exact .inr (hdropped.onward halong.onward)
  · exact h.alone.keeps h.own.made hheld.created fun m' hm' => (halong.onward.objects m' hm').run
  · rw [hkeeps.run]
    exact hheld.goes _ h.goes
  · rw [hkeeps.run]
    exact hheld.still (P := fun id => id = (w.memory.objects m).run) h.lone

/-- An engine does not run any more. -/
theorem dead_keeps : Keeps maxClients ⟨true, none⟩ fun w => w.alive run = false := by
  intro w w' halong h
  by_contra halive
  rw [Bool.not_eq_false] at halive
  have hbefore := (halong.held rfl).alive run halive
  rw [h] at hbefore
  cases hbefore

theorem still_of_dead (h : w.alive run = false) : Stilled run w := by
  cases he : w.engines run with
  | none => exact .inl he
  | some e =>
    refine .inr (.inl ⟨e, he, ?_⟩)
    unfold World.alive at h
    simpa [he] using h

/-- The arena of the row of a match. -/
theorem Sane.arena (h : Sane maxClients w) {r : Run} (hr : r ∈ w.ledger.runs)
    (hrun : (w.memory.objects m).run = r.id) : (w.memory.objects m).arenaId = r.arenaId := by
  have hnamed : (w.memory.objects m).run ≠ "" := by
    rw [hrun]
    exact h.books.named r hr
  obtain ⟨r', hr', hid, harena⟩ := h.rows m hnamed
  have hsame : r' = r := Table.mem_inj hr' hr (hid.trans hrun)
  rw [← harena, hsame]

/-- The engines of an arena that run are those of the match that is served,
while the worker serves. -/
theorem Tidy.served (h : Tidy none w) (horderly : Orderly maxClients w)
    (hrunning : w.memory.running = true) {r : Run} (hr : r ∈ w.ledger.runs)
    (halive : w.alive r.id = true) : ∃ m, w.memory.serving.lookup r.arenaId = some m ∧
      (w.memory.objects m).run = r.id := by
  obtain ⟨m, hspawned, hrun⟩ := horderly.sane.spawners (.inl hrunning) _ halive
  rcases h.covered m hspawned (hrun ▸ halive) with hnone | hserved | ⟨hended, -⟩
  · cases hnone
  · rw [horderly.sane.arena hr hrun] at hserved
    exact ⟨m, hserved, hrun⟩
  · rw [horderly.sane.halted hended] at hrunning
    cases hrunning

/-- An arena that is not served. -/
theorem Tidy.spare (h : Tidy none w) (horderly : Orderly maxClients w)
    (hrunning : w.memory.running = true) (hnone : w.memory.serving.lookup arenaId = none) :
    Spare arenaId w := by
  refine ⟨h, hnone, fun r hr harena => ?_⟩
  by_contra halive
  rw [Bool.not_eq_false] at halive
  obtain ⟨m, hserved, -⟩ := h.served horderly hrunning hr halive
  rw [harena, hnone] at hserved
  cases hserved

/-- No engine of an arena runs whose match is not served. -/
theorem Spare.dead (h : Spare arenaId w)
    (hrow : ∃ r ∈ w.ledger.runs, r.id = run ∧ r.arenaId = arenaId) : w.alive run = false := by
  obtain ⟨r, hr, rfl, harena⟩ := hrow
  exact h.still r hr harena

/-- The engine of a match that starts is the only one of its arena. -/
theorem Starting.lonely (h : Starting arenaId m w) (horderly : Orderly maxClients w)
    (hunspawned : (w.memory.objects m).spawned = false) :
    ∀ run, w.alive run = true → ¬Neighbours w run (w.memory.objects m).run := by
  rintro run halive ⟨r, hr, r', hr', rfl, hid', harena⟩
  have harena' := horderly.sane.arena hr' hid'.symm
  have hself := h.lone r hr (harena.trans (harena'.symm.trans h.arena)) halive
  obtain ⟨e, he, -⟩ := alive_iff.mp halive
  rw [hself, h.own.pending hunspawned] at he
  cases he

/-- The run of a match that starts goes on, unless the match is closed. -/
theorem Starting.going (h : Starting arenaId m w) : Going m w := by
  rcases h.goes with hrow | ⟨m', hm', hrun, hclosed⟩
  · exact .inl hrow
  · exact .inr (h.alone m' hm' hrun ▸ hclosed)

/-- A match that has ended is no exception any more. -/
theorem Tidy.ended (h : Tidy (some m) w) (hended : Ended m w)
    (hdead : w.alive (w.memory.objects m).run = false) : Tidy none w := by
  refine ⟨fun a m' hlookup => ?_, fun m' hspawned halive => .inr ?_⟩
  · obtain ⟨hmade, hready⟩ := h.ready a m' hlookup
    refine ⟨hmade, .inr ?_⟩
    rcases hready with hsome | hready
    · exact .inr (Option.some.inj hsome ▸ hended.closed)
    · exact hready
  · rcases h.covered m' hspawned halive with hsome | hrest
    · rw [← Option.some.inj hsome, hdead] at halive
      cases halive
    · exact hrest

/-- A match that has an engine is no exception any more. -/
theorem Starting.ready (h : Starting arenaId m w)
    (hspawned : (w.memory.objects m).spawned = true) : Tidy none w := by
  refine ⟨fun a m' hlookup => ?_, fun m' hspawned' halive => .inr ?_⟩
  · obtain ⟨hmade, hready⟩ := h.tidy.ready a m' hlookup
    refine ⟨hmade, .inr ?_⟩
    rcases hready with hsome | hready
    · exact .inl (Option.some.inj hsome ▸ hspawned)
    · exact hready
  · rcases h.tidy.covered m' hspawned' halive with hsome | hrest
    · rw [← Option.some.inj hsome, h.arena]
      exact h.placed
    · exact hrest

/-- A match that is retired before it is stopped. -/
theorem Tidy.retired (h : Tidy none w) (horderly : Orderly maxClients w)
    (honly : ∀ m', w.memory.serving.lookup arenaId = some m' → m' = m) :
    Tidy (some m) (w.setMemory ((Write.retire arenaId).apply w.memory)) := by
  have honward : Onward w (w.setMemory ((Write.retire arenaId).apply w.memory)) :=
    .manages (horderly.sane.retires arenaId)
  refine ⟨fun a m' hafter => ?_, fun m' hspawned halive => ?_⟩
  · obtain ⟨hmade, hready⟩ := h.ready a m' (lookup_of_erase hafter)
    exact ⟨hmade, .inr (hready.resolve_left (by simp))⟩
  · rcases h.covered m' hspawned halive with hnone | hserved | hdropped
    · cases hnone
    · by_cases ha : (w.memory.objects m').arenaId = arenaId
      · rw [ha] at hserved
        exact .inl (congrArg some (honly m' hserved).symm)
      · exact .inr (.inl ((AList.lookup_erase_ne ha).trans hserved))
    · exact .inr (.inr (hdropped.onward honward))

/-- A match that is retired after its engine has stopped. -/
theorem Tidy.retired_dead (h : Tidy none w) (horderly : Orderly maxClients w)
    (hdead : ∀ m, w.memory.serving.lookup arenaId = some m →
      w.alive (w.memory.objects m).run = false) :
    Tidy none (w.setMemory ((Write.retire arenaId).apply w.memory)) := by
  have honward : Onward w (w.setMemory ((Write.retire arenaId).apply w.memory)) :=
    .manages (horderly.sane.retires arenaId)
  refine ⟨fun a m' hafter => h.ready a m' (lookup_of_erase hafter),
    fun m' hspawned halive => .inr ?_⟩
  rcases h.covered m' hspawned halive with hnone | hserved | hdropped
  · cases hnone
  · by_cases ha : (w.memory.objects m').arenaId = arenaId
    · have hstopped := hdead m' (ha ▸ hserved)
      rw [show w.alive (w.memory.objects m').run = true from halive] at hstopped
      cases hstopped
    · exact .inl ((AList.lookup_erase_ne ha).trans hserved)
  · exact .inr (hdropped.onward honward)

end

end QuakeJs.Server
