import QuakeJs.Server.Serving

/-!
# `ensure`

The arena gets a match that has an engine, or the manager's books are as tidy
as they were.
-/

namespace QuakeJs.Server

open Async Engine Ledger

/-- The engine of a match that is served in the arena does not run. -/
structure Halted (arenaId : Uid) (w : World) : Prop where
  tidy : Tidy none w
  dead : ∀ m, w.memory.serving.lookup arenaId = some m →
    w.alive (w.memory.objects m).run = false

/-- A match that is not served any more, and the only one of the arena whose
engine may run. -/
structure Retired (arenaId : Uid) (m : MatchId) (w : World) : Prop where
  tidy : Tidy (some m) w
  unserved : w.memory.serving.lookup arenaId = none
  own : Own m w
  lone : ∀ r ∈ w.ledger.runs, r.arenaId = arenaId → w.alive r.id = true →
    r.id = (w.memory.objects m).run

section

variable {maxClients : Nat} {w w' : World} {m : MatchId} {arenaId run : Uid}

theorem Halted.keeps : Keeps maxClients ⟨true, none⟩ (Halted arenaId) := by
  intro w w' halong h
  refine ⟨Tidy.keeps none w w' halong h.tidy, fun m hafter => ?_⟩
  have hlookup := (halong.held rfl).shrinks _ _ hafter
  rw [(halong.onward.objects m (h.tidy.ready arenaId m hlookup).1).run]
  exact dead_keeps w w' halong (h.dead m hlookup)

theorem Retired.keeps : Keeps maxClients ⟨true, none⟩ (Retired arenaId m) := by
  intro w w' halong h
  have hheld := halong.held rfl
  refine ⟨Tidy.keeps (some m) w w' halong h.tidy, hheld.unserved h.unserved,
    halong.onward.own m h.own, ?_⟩
  rw [(halong.onward.objects m h.own.made).run]
  exact hheld.still (P := fun id => id = (w.memory.objects m).run) h.lone

/-- The engine of a match that has been waited for does not run. -/
theorem Own.dead (h : Own m w)
    (hwaited : ¬((w.memory.objects m).spawned = true ∧ w.alive (w.memory.objects m).run = true)) :
    w.alive (w.memory.objects m).run = false := by
  by_contra halive
  rw [Bool.not_eq_false] at halive
  by_cases hspawned : (w.memory.objects m).spawned = true
  · exact hwaited ⟨hspawned, halive⟩
  · obtain ⟨e, he, -⟩ := alive_iff.mp halive
    rw [h.pending (by simpa using hspawned)] at he
    cases he

/-- A match that is served is retired: it is closed. -/
theorem Tidy.retires (h : Tidy none w) (horderly : Orderly maxClients w)
    (hown : Own m w) (honly : ∀ m', w.memory.serving.lookup arenaId = some m' → m' = m)
    (hlone : ∀ r ∈ w.ledger.runs, r.arenaId = arenaId → w.alive r.id = true →
      r.id = (w.memory.objects m).run) :
    Retired arenaId m (w.setMemory ((Write.retire arenaId).apply w.memory)) :=
  ⟨h.retired horderly honly, AList.lookup_erase _ _,
    ⟨hown.made, hown.named, hown.sole, hown.pending⟩, hlone⟩

/-- The match that was retired has been stopped. -/
theorem Retired.spare (h : Retired arenaId m w) (hended : Ended m w)
    (hdead : w.alive (w.memory.objects m).run = false) : Spare arenaId w := by
  refine ⟨h.tidy.ended hended hdead, h.unserved, fun r hr harena => ?_⟩
  by_contra halive
  rw [Bool.not_eq_false] at halive
  rw [h.lone r hr harena halive, hdead] at halive
  cases halive

/-- The row of a new run is inserted. -/
theorem Vacant.inserted (h : Vacant arenaId run [] w)
    (horderly : Orderly maxClients w) {env : Env}
    {worker : Uid} {σ' : Ledger} (hrun : insertRun env run arenaId worker w.ledger = .ok σ') :
    Inserted arenaId run { w with
      ledger := σ' } := by
  obtain ⟨runs, hinsert, rfl⟩ := insertRun_ok hrun
  have hmem := (Table.mem_insert? hinsert).mpr (.inr rfl)
  have hnone : w.engines run = none := by
    by_contra hsome
    obtain ⟨r, hr, hid⟩ := horderly.sane.known run hsome
    exact h.unrun r hr hid
  refine ⟨⟨h.tidy.commit _, h.unserved, ?_⟩, ⟨_, hmem, rfl, rfl⟩,
    .inl ⟨_, hmem, rfl, rfl⟩, ?_, hnone⟩
  · intro r hr harena
    rcases (Table.mem_insert? hinsert).mp hr with hold | rfl
    · exact h.still r hold harena
    · by_contra halive
      rw [Bool.not_eq_false] at halive
      obtain ⟨e, he, -⟩ := alive_iff.mp halive
      rw [show w.engines _ = some e from he] at hnone
      cases hnone
  · intro m _ hsame
    have hnamed : (w.memory.objects m).run ≠ "" := fun hempty => h.named (hsame.symm.trans hempty)
    obtain ⟨r, hr, hid, -⟩ := horderly.sane.rows m hnamed
    exact h.unrun r hr (hid.trans hsame)

/-- The arena is leased for a run that is new. -/
theorem Spare.leased (h : Spare arenaId w) {env : Env} {worker : Uid} {arena : Arena}
    {olds : List Run} {σ' : Ledger} (hfresh : env.Fresh w.ledger)
    (hrun : leaseArena env worker arenaId w.ledger = .ok ((arena, olds), σ')) :
    Vacant arenaId (env.uid 0) olds { w with
      ledger := σ' } := by
  obtain ⟨row, hrow, -, -, -, -, rfl, rfl⟩ := leaseArena_ok hrun
  obtain ⟨hmem, hid⟩ := Table.get?_eq_some.mp hrow
  refine ⟨⟨h.tidy.commit _, h.unserved, h.still⟩, hfresh.ne_empty 0, ?_, ?_, ?_, ?_⟩
  · have hbumped := (Table.mem_updateKey (f := fun a : Arena => { a with
      revision := a.revision + 1 }) (k := arenaId)).mpr (.inr ⟨row, hmem, hid, rfl⟩)
    exact ⟨_, (Table.mem_updateKey).mpr (.inr ⟨_, hbumped, hid, rfl⟩), hid, rfl⟩
  · intro r hr heq
    have hnone := hfresh.runs 0
    have hsome : w.ledger.runs.get? (env.uid 0) = some r := Table.get?_eq_some.mpr ⟨hr, heq⟩
    rw [hsome] at hnone
    cases hnone
  · intro r hr harena hgoes
    refine ⟨r, Table.mem_select.mpr ⟨hr, ?_⟩, rfl⟩
    simp [harena, hgoes]
  · intro o ho
    obtain ⟨hmem', hp⟩ := Table.mem_select.mp ho
    rw [Bool.and_eq_true, decide_eq_true_eq] at hp
    exact ⟨o, hmem', rfl, hp.1⟩

end

namespace Spec

variable {maxClients : Nat} {digest : String → String} {exposed : Bool}
  {m : MatchId} {arenaId run : Uid}

/-- The match of an arena is stopped.  A task that is cancelled may not have
waited for it. -/
theorem stopServed {F : World → Prop} (hF : Keeps maxClients ⟨true, none⟩ F)
    (hown : ∀ w, F w → Own m w)
    (hdone : ∀ w, Orderly maxClients w → F w → Ended m w →
      w.alive (w.memory.objects m).run = false → Halted arenaId w) (fuel : Nat) :
    Spec maxClients digest exposed ⟨true, none⟩ F (Server.stop fuel m) (fun _ => Halted arenaId)
      fun w => F w ∧ (exposed = false → Halted arenaId w) :=
  (@stop maxClients digest exposed _ _ _ _ hF Halted.keeps hown
    (fun w horderly hw hended hwaited =>
    hdone w horderly hw hended ((hown w hw).dead hwaited)) fuel).mono (fun _ _ h => h)
      (fun _ _ _ h => h.2) fun _ _ h => h

/-- Then it is not served any more. -/
theorem retireHalted :
    Spec maxClients digest exposed ⟨true, none⟩ (Halted arenaId) (Server.write (.retire arenaId))
      (fun _ => Tidy none) (Tidy none) :=
  retire Halted.keeps (Tidy.keeps none) (Tidy.keeps none) fun _ horderly hw =>
    hw.tidy.retired_dead horderly hw.dead

/-- The `try` around `match.start()`. -/
theorem startMatch (fuel : Nat) :
    Spec maxClients digest false ⟨true, none⟩ (fun w => Starting arenaId m w ∧ Bare m run w)
      (Server.startMatch fuel arenaId m) (fun _ w => Hosted m w ∧ Tidy none w) (Tidy none) := by
  have hT : Keeps maxClients ⟨true, none⟩ (Tidy none) := Tidy.keeps none
  have hstart := (@start maxClients digest m arenaId run).mono (fun _ _ h => h)
    (fun _ w _ h => (⟨h.2, h.1.ready h.2.live.spawned⟩ : Hosted m w ∧ Tidy none w))
    fun _ _ h => h
  refine .handle hstart (fun _ => ?_) fun hexposed => (by cases hexposed)
  have hstop := @stopServed maxClients digest false m arenaId _
    Starting.keeps (fun _ hw => hw.own)
    (fun w _ hw hended hdead => ⟨hw.tidy.ended hended hdead, fun m' hlookup =>
      hw.only m' hlookup ▸ hdead⟩) fuel
  exact .bind (hstop.mono (fun _ _ h => h) (fun _ _ _ h => h) fun _ _ h => (h.2 rfl).tidy)
    fun _ => .bind retireHalted fun _ => .refuse hT fun _ _ h => h

/-- `ensure`, from the insertion of the new run on. -/
theorem serveRun (fuel : Nat) (worker : Uid) :
    Spec maxClients digest false ⟨true, none⟩ (Vacant arenaId run [])
      (Server.serveRun fuel arenaId run worker) (fun m w => Hosted m w ∧ Tidy none w)
      (Tidy none) := by
  have hT : Keeps maxClients ⟨true, none⟩ (Tidy none) := Tidy.keeps none
  have hinsert : Spec maxClients digest false ⟨true, none⟩ (Vacant arenaId run [])
      (transact (.insertRun run arenaId worker)) (fun _ => Inserted arenaId run) (Tidy none) := by
    refine managed Vacant.keeps (fun _ => Inserted.keeps) hT ?_
      (fun _ _ hcall => by cases hcall) ?_ fun w σ' hw => hw.tidy.commit σ'
    · intro w _ hw
      refine .of_ordinary rfl ⟨hw.named, hw.leased, fun r hr harena hgoes => ?_⟩
        fun _ hcall => by cases hcall
      obtain ⟨o, ho, -⟩ := hw.rest r hr harena hgoes
      cases ho
    · intro w env result σ' horderly hw _ hrun
      exact hw.inserted horderly (committed_ok hrun)
  have hcreate : Spec maxClients digest false ⟨true, none⟩ (Inserted arenaId run)
      (await (.create arenaId run true)) (fun m w => Starting arenaId m w ∧ Bare m run w)
      (Tidy none) := by
    refine create Inserted.keeps (fun _ => Starting.keeps.and Bare.keeps) hT
      (fun _ _ hw => hw.row) (fun _ _ horderly hw _ => (hw.made horderly).1) ?_
    exact fun w now horderly hw honward => ⟨hw.serve horderly honward, .of_made⟩
  refine .bind hinsert fun _ => .bind hcreate fun m => .bind (startMatch fuel) fun _ =>
    .pure (Hosted.keeps.and hT) fun _ _ hw => hw

/-- `ensure`, from the capacity check on. -/
theorem serveArena (fuel : Nat) :
    Spec maxClients digest false ⟨true, none⟩ (Spare arenaId) (Server.serveArena fuel arenaId)
      (fun m w => Hosted m w ∧ Tidy none w) (Tidy none) := by
  have hT : Keeps maxClients ⟨true, none⟩ (Tidy none) := Tidy.keeps none
  refine .memory Spare.keeps hT (fun _ hw => hw.tidy) fun s _ _ => ?_
  refine Spec.pre (G := Spare arenaId) ?_ fun _ _ hw => hw.1
  split
  · exact .refuse Spare.keeps fun _ _ hw => hw.tidy
  · have hlease : Spec maxClients digest false ⟨true, none⟩ (Spare arenaId)
        (transact (.leaseArena s.memory.worker arenaId))
        (fun leased => Vacant arenaId leased.1 leased.2.2) (Tidy none) := by
      refine managed Spare.keeps (fun _ => Vacant.keeps) hT ?_
        (fun _ _ hcall => by cases hcall) ?_
        fun w σ' hw => hw.tidy.commit σ'
      · intro w _ _
        exact .of_ordinary rfl trivial fun _ hcall => by cases hcall
      · intro w env result σ' _ hw hdraws hrun
        cases hleased : Ledger.leaseArena env s.memory.worker arenaId w.ledger with
        | error e => simp [Transaction.run, hleased, Except.map] at hrun
        | ok leased =>
          simp only [Transaction.run, hleased, Except.map, Except.ok.injEq, Prod.mk.injEq] at hrun
          obtain ⟨rfl, rfl⟩ := hrun
          exact hw.leased hdraws.fresh hleased
    refine .bind hlease fun leased => ?_
    have hloop := @forEach maxClients digest false ⟨true, none⟩ (Tidy none) _
      (Server.recoverOld fuel arenaId) (Vacant arenaId leased.1) (fun _ => Vacant.keeps)
      (fun old olds => recoverOld fuel old) leased.2.2
    exact .bind hloop fun _ => serveRun fuel s.memory.worker

/-- `ensure`, under the lock. -/
theorem ensureLocked (fuel : Nat) :
    Spec maxClients digest false ⟨true, none⟩ (Tidy none) (Server.ensureLocked fuel arenaId)
      (fun m w => Hosted m w ∧ Tidy none w) (Tidy none) := by
  have hT : Keeps maxClients ⟨true, none⟩ (Tidy none) := Tidy.keeps none
  refine .memory hT hT (fun _ hw => hw) fun s horderly htidy => ?_
  have hA := hT.and (@Keeps.along maxClients ⟨true, none⟩ s)
  have hK := hA.and (.const (s.memory.running = true))
  refine .bind ((checkAvailable hA).mono (fun _ _ hw => hw) (fun _ _ _ hw => hw)
    fun _ _ hw => hw.1) fun _ => ?_
  cases hlookup : s.memory.serving.lookup arenaId with
  | none =>
    exact (serveArena fuel).pre fun w _ hw =>
      Spare.keeps s w hw.1.2 (htidy.spare horderly hw.2 hlookup)
  | some m =>
    obtain ⟨hown, -⟩ := horderly.sane.serving arenaId m hlookup
    dsimp only
    split
    · rename_i hopen
      refine .pure hK fun w _ hw => ⟨?_, hw.1.1⟩
      have hspawned : (s.memory.objects m).spawned = true := by
        rcases (htidy.ready arenaId m hlookup).2 with hnone | hspawned | hclosed
        · cases hnone
        · exact hspawned
        · rw [hopen] at hclosed
          cases hclosed
      exact Hosted.keeps s w hw.1.2 ⟨⟨hown.made, hspawned⟩, hown⟩
    · have hretire : Spec maxClients digest false ⟨true, none⟩
          (fun w => (Tidy none w ∧ Along maxClients ⟨true, none⟩ s w) ∧ s.memory.running = true)
          (Server.write (.retire arenaId)) (fun _ => Retired arenaId m) (Tidy none) := by
        refine retire hK Retired.keeps hT fun w horderly' hw => ?_
        have hheld := hw.1.2.held rfl
        refine hw.1.1.retires horderly' (hw.1.2.onward.own m hown) (fun m' hm' => ?_) ?_
        · have hbefore := hheld.shrinks _ _ hm'
          rw [hlookup] at hbefore
          exact (Option.some.inj hbefore).symm
        · rw [(hw.1.2.onward.objects m hown.made).run]
          refine hheld.still (P := fun id => id = (s.memory.objects m).run) ?_
          intro r hr harena halive
          obtain ⟨m', hserved, hrun⟩ := htidy.served horderly hw.2 hr halive
          rw [harena, hlookup] at hserved
          rw [Option.some.inj hserved, hrun]
      have hstop := @stop maxClients digest false true m (Retired arenaId m) _ Retired.keeps
        Spare.keeps (fun _ hw => hw.own)
        (fun w _ hw hended hwaited => hw.spare hended (hw.own.dead hwaited)) fuel
      exact .bind hretire fun _ => .bind (hstop.mono (fun _ _ h => h) (fun _ _ _ h => h.2)
        fun _ _ h => (h.2 rfl).tidy) fun _ => serveArena fuel

/-- `ensure`. -/
theorem ensure (fuel : Nat) :
    Spec maxClients digest false ⟨false, none⟩ (fun _ => True) (Server.ensure fuel arenaId)
      (fun m => Hosted m) fun _ => True :=
  withManager (.const True) (fun _ => Hosted.keeps) (.const True) (fun _ _ => trivial)
    ((ensureLocked fuel).mono (fun _ _ h => h.2) (fun _ _ _ h => h) fun _ _ h => ⟨trivial, h⟩)

end Spec

end QuakeJs.Server
