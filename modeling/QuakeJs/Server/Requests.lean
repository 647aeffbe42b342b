import QuakeJs.Server.Leaves

/-!
# Requests, rounds and connections

What a task that starts does, with all the locks it takes on its way.
-/

namespace QuakeJs.Server

open Async Engine Ledger

/-- No match is served in the arena. -/
structure Unserved (arenaId : Uid) (w : World) : Prop where
  tidy : Tidy none w
  unserved : w.memory.serving.lookup arenaId = none

/-- These runs of the arena are to be recovered. -/
structure Recovering (arenaId : Uid) (olds : List Run) (w : World) : Prop where
  tidy : Tidy none w
  rows : ∀ o ∈ olds, ∃ r ∈ w.ledger.runs, r.id = o.id ∧ r.arenaId = arenaId
  still : ∀ o ∈ olds, Stilled o.id w

/-- A player who leaves, and whose engines have exited or belong to matches
that were made while the worker served. -/
structure Vetted (player : Participant) (w : World) : Prop where
  leaving : Leaving player w
  started : ∀ l ∈ w.ledger.lives, l.playerId = player.id → Exited l.runId w ∨
    ∃ m < w.memory.created, ¬Late m w ∧ (w.memory.objects m).spawned = true ∧
      (w.memory.objects m).run = l.runId

section

variable {maxClients : Nat} {w : World} {arenaId : Uid} {olds : List Run} {player : Participant}

theorem Unserved.keeps : Keeps maxClients ⟨true, none⟩ (Unserved arenaId) :=
  fun w w' halong h =>
    ⟨Tidy.keeps none w w' halong h.tidy, (halong.held rfl).unserved h.unserved⟩

theorem Recovering.keeps : Keeps maxClients ⟨true, none⟩ (Recovering arenaId olds) := by
  intro w w' halong h
  refine ⟨Tidy.keeps none w w' halong h.tidy, fun o ho => ?_,
    fun o ho => Stilled.keeps w w' halong (h.still o ho)⟩
  obtain ⟨r, hr, hid, harena⟩ := h.rows o ho
  obtain ⟨r', hr', hid', harena', -⟩ := halong.onward.progress.further r hr
  exact ⟨r', hr', hid'.trans hid, harena'.trans harena⟩

theorem Vetted.keeps {v : View} : Keeps maxClients v (Vetted player) := by
  intro w w' halong h
  refine ⟨Leaving.keeps w w' halong h.leaving, fun l' hl' hplayer => ?_⟩
  have honward := halong.onward
  obtain ⟨l, hl, -, hplayer', hhere, -⟩ :=
    honward.progress.lives l' hl' (hplayer ▸ h.leaving.quitting)
  rw [← hhere]
  rcases h.started l hl (hplayer'.trans hplayer) with hexited | ⟨m, hm, htimely, hspawned, hrun⟩
  · exact .inl (honward.exited _ hexited).1
  · have hkeeps := honward.objects m hm
    exact .inr ⟨m, hm.trans_le honward.created, fun hlate => htimely (honward.late m hm hlate),
      hkeeps.spawned hspawned, hkeeps.run.trans hrun⟩

/-- Whoever leaves while the worker serves. -/
theorem Leaving.vetted (h : Leaving player w) (horderly : Orderly maxClients w)
    (hrunning : w.memory.running = true) : Vetted player w := by
  refine ⟨h, fun l hl _ => ?_⟩
  by_cases halive : w.alive l.runId = true
  · obtain ⟨m, hspawned, hrun⟩ := horderly.sane.spawners (.inl hrunning) _ halive
    refine .inr ⟨m, (horderly.sane.live hspawned).made, ?_, hspawned, hrun⟩
    rintro ⟨k, hk, -⟩
    rw [horderly.sane.halted (by simp [hk])] at hrunning
    cases hrunning
  · rw [Bool.not_eq_true] at halive
    rcases still_of_dead halive with hnone | hexited | hshut
    · exact absurd hnone (horderly.sane.launched l hl)
    · exact .inl hexited
    · obtain ⟨e, he, -⟩ := hshut.untouched
      unfold World.alive at halive
      rw [he] at halive
      exact .inl ⟨e, he, halive⟩

/-- The engines of a player who leaves an arena that is not served write no
more. -/
theorem Vetted.stilled (h : Vetted player w) (horderly : Orderly maxClients w)
    (hunserved : Unserved player.arenaId w) {r : Run} (hr : r ∈ runsOf w.ledger player.id) :
    Stilled r.id w := by
  obtain ⟨hmem, harena⟩ := h.leaving.row horderly hr
  obtain ⟨-, hp⟩ := Table.mem_select.mp hr
  rw [Bool.and_eq_true] at hp
  obtain ⟨l, hl, hhere⟩ := Table.any_eq_true.mp hp.2
  rw [Bool.and_eq_true, decide_eq_true_eq, decide_eq_true_eq] at hhere
  rw [← hhere.1]
  rcases h.started l hl hhere.2 with hexited | ⟨m, hm, htimely, hspawned, hrun⟩
  · exact .inr (.inl hexited)
  · by_cases halive : w.alive l.runId = true
    · rcases hunserved.tidy.covered m hspawned (hrun ▸ halive) with
        hnone | hserved | ⟨-, hlate | hended⟩
      · cases hnone
      · rw [horderly.sane.arena hmem (hrun.trans hhere.1), harena, hunserved.unserved] at hserved
        cases hserved
      · exact absurd hlate htimely
      · exact hrun ▸ hended.stilled
    · exact still_of_dead (Bool.not_eq_true _ ▸ halive)

end

/-- Whoever asks to leave is leaving. -/
theorem requested {env : Env} {arenaId token : String} {player : Participant} {σ' : Ledger}
    {w : World} (hrun : requestLeave env arenaId token w.ledger = .ok (player, σ')) :
    Leaving player { w with
      ledger := σ' } := by
  obtain ⟨p, hp, -, -, ⟨hleaves, rfl, rfl⟩ | ⟨-, rfl, -, rfl⟩⟩ := requestLeave_ok hrun
  · exact ⟨_, hp, rfl, rfl, hleaves⟩
  · exact ⟨_, (Table.mem_updateKey).mpr (.inr ⟨p, hp, rfl, rfl⟩), rfl, rfl, by simp⟩

namespace Spec

variable {maxClients : Nat} {digest : String → String} {exposed : Bool} {m : MatchId}
  {arenaId : Uid} {player : Participant}

/-! ### Leaving -/

/-- `finish_leave`, when the arena is served. -/
theorem leaveMatch (fuel : Nat) :
    Spec maxClients digest exposed ⟨true, none⟩
      (fun w => (Serves player.arenaId m w ∧ Hosted m w) ∧ Leaving player w)
      (Server.leaveMatch fuel m player) (fun _ => Tidy none) (Tidy none) := by
  have hS : Keeps maxClients ⟨true, none⟩ (Serves player.arenaId m) := Serves.keeps
  have hL : Keeps maxClients ⟨true, none⟩ (Leaving player) := Leaving.keeps
  have hlocked := @withGame maxClients digest exposed _ _ _ _ true m
    _ ((hS.and Hosted.keeps).and hL)
    (fun _ => hS) hS (fun _ hw => hw.1.1) (fun _ hw => hw.1.1.own.made) (barrier fuel)
  refine .handle (hlocked.mono (fun _ _ h => h) (fun _ _ _ h =>
    h.tidy) fun _ _ h => h) (fun fault => ?_) fun _ _ _ h => h.tidy
  have hstop := @stopServed maxClients digest exposed _ _ _ hS (fun _ hw => hw.own)
    (fun _ _ hw _ hdead => hw.halted hdead) fuel
  exact .bind (hstop.mono (fun _ _ h => h) (fun _ _ _ h => h) fun _ _ h => h.1.tidy) fun _ =>
    .bind retireHalted fun _ => .raise (Tidy.keeps none) fun _ _ h => h

/-- A run of a previous worker is recovered. -/
theorem recoverLeaving (fuel : Nat) (old : Run) (olds : List Run) :
    Spec maxClients digest exposed ⟨true, none⟩ (Recovering arenaId (old :: olds))
      (Server.recoverLeaving fuel arenaId old)
        (fun _ => Recovering arenaId olds) (Tidy none) := by
  have hT : Keeps maxClients ⟨true, none⟩ (Tidy none) := Tidy.keeps none
  have hF : Keeps maxClients ⟨true, none⟩ (Recovering arenaId (old :: olds)) := Recovering.keeps
  have hrow : ∀ w, Recovering arenaId (old :: olds) w →
      ∃ r ∈ w.ledger.runs, r.id = old.id ∧ r.arenaId = arenaId :=
    fun w hw => hw.rows old List.mem_cons_self
  have hFB := fun m => hF.and (@Bare.keeps maxClients m old.id)
  have hcreate : Spec maxClients digest exposed ⟨true, none⟩ (Recovering arenaId (old :: olds))
      (await (.create arenaId old.id false))
      (fun m w => Recovering arenaId (old :: olds) w ∧ Bare m old.id w) (Tidy none) := by
    refine create hF hFB hT (fun w _ hw => hrow w hw) (fun _ _ _ _ hlisted => by cases hlisted) ?_
    intro w now _ hw honward
    exact ⟨⟨hw.tidy.made honward fun hlisted => (by cases hlisted), hw.rows,
      fun o ho => (hw.still o ho).onward honward fun hnone => hnone⟩, .of_made⟩
  refine .bind hcreate fun m => ?_
  refine .bind (drainOld hF (fun _ hw => hw.tidy)
    (fun _ hw => hw.still old List.mem_cons_self) fuel) fun _ => ?_
  refine managed ((hFB m).and Settled.keeps) (fun _ => Recovering.keeps) hT ?_
    (fun _ _ hcall => by cases hcall) ?_ fun w σ' hw => hw.1.1.tidy.commit σ'
  · rintro w - hw
    refine .of_ordinary rfl trivial ?_
    rintro run' ⟨⟩
    exact hw.2
  · rintro w env result σ' - ⟨⟨hw, -⟩, -⟩ - hrun
    have hprogress : Progress w.ledger σ' := .of_perform (Transaction.performs hrun)
    refine ⟨hw.tidy.commit σ', fun o ho => ?_, fun o ho => ?_⟩
    · obtain ⟨r, hr, hid, harena⟩ := hw.rows o (List.mem_cons_of_mem old ho)
      obtain ⟨r', hr', hid', harena', -⟩ := hprogress.further r hr
      exact ⟨r', hr', hid'.trans hid, harena'.trans harena⟩
    · exact Stilled.commit (hw.still o (List.mem_cons_of_mem old ho)) σ'

/-- `finish_leave`, when the arena is not served. -/
theorem leaveRecovered (fuel : Nat) :
    Spec maxClients digest exposed ⟨true, none⟩
      (fun w => Unserved player.arenaId w ∧ Vetted player w)
      (Server.leaveRecovered fuel player) (fun _ => Tidy none) (Tidy none) := by
  have hT : Keeps maxClients ⟨true, none⟩ (Tidy none) := Tidy.keeps none
  have hF : Keeps maxClients ⟨true, none⟩ fun w => Unserved player.arenaId w ∧ Vetted player w :=
    Unserved.keeps.and Vetted.keeps
  refine .ledger hF hT (fun _ hw => hw.1.tidy) fun w₁ _ _ => ?_
  refine Spec.pre (G := fun w => Unserved player.arenaId w ∧ Vetted player w) ?_
    fun _ _ hw => hw.1
  refine .ledger hF hT (fun _ hw => hw.1.tidy) fun w₀ horderly₀ hw₀ => ?_
  have hrecovering : Recovering player.arenaId (runsOf w₀.ledger player.id) w₀ := by
    refine ⟨hw₀.1.tidy, fun r hr => ?_, fun r hr => hw₀.2.stilled horderly₀ hw₀.1 hr⟩
    obtain ⟨hmem, harena⟩ := hw₀.2.leaving.row horderly₀ hr
    exact ⟨r, hmem, rfl, harena⟩
  refine Spec.pre (G := Recovering player.arenaId (runsOf w₀.ledger player.id)) ?_ fun w _ hw =>
    Recovering.keeps w₀ w hw.2 hrecovering
  refine .now Recovering.keeps hT (fun _ hw => hw.tidy) fun t => ?_
  split
  · exact .refuse Recovering.keeps fun _ _ hw => hw.tidy
  · have hloop := @forEach maxClients digest exposed ⟨true, none⟩ (Tidy none) _
      (Server.recoverLeaving fuel player.arenaId) (Recovering player.arenaId)
      (fun _ => Recovering.keeps) (fun old olds => recoverLeaving fuel old olds)
      (runsOf w₀.ledger player.id)
    have hfinish : Spec maxClients digest exposed ⟨true, none⟩ (Recovering player.arenaId [])
        (transact (.finishLeave player.id "")) (fun _ => Tidy none) (Tidy none) := by
      refine managed Recovering.keeps (fun _ => hT) hT ?_ ?_ ?_
        fun w σ' hw => hw.tidy.commit σ'
      · intro w horderly hw
        refine ⟨trivial, (fun _ _ _ _ hcall => by cases hcall),
          (fun _ hcall => by cases hcall), ?_, fun _ _ _ hcall => by cases hcall⟩
        -- There is no run without a name.
        rintro _ _ ⟨⟩ l hl - hhere -
        obtain ⟨r, hr, hid, -⟩ := horderly.sane.books.home l hl
        exact absurd (hid.trans hhere) (horderly.sane.books.named r hr)
      · rintro _ _ ⟨⟩
        rfl
      · rintro w env result σ' - hw - -
        exact hw.tidy.commit σ'
    exact .bind hloop fun _ => hfinish

/-- `match`, after a closed one is stopped. -/
theorem openMatch (fuel : Nat) :
    Spec maxClients digest exposed ⟨true, none⟩ (fun w => Tidy none w ∧ Vetted player w)
      (Server.openMatch fuel player.arenaId)
      (fun found w => (∀ m, found = some m → Serves player.arenaId m w ∧ Hosted m w) ∧
        (found = none → Unserved player.arenaId w) ∧ Vetted player w) (Tidy none) := by
  have hT : Keeps maxClients ⟨true, none⟩ (Tidy none) := Tidy.keeps none
  have hV : Keeps maxClients ⟨true, none⟩ (Vetted player) := Vetted.keeps
  refine .memory (hT.and hV) hT (fun _ hw => hw.1) fun w horderly hw => ?_
  have hK := (hT.and hV).and (@Keeps.along maxClients ⟨true, none⟩ w)
  cases hlookup : w.memory.serving.lookup player.arenaId with
  | none =>
    exact .pure hK fun w' _ hw' => ⟨(fun _ hm => by cases hm),
      fun _ => Unserved.keeps w w' hw'.2 ⟨hw.1, hlookup⟩, hw'.1.2⟩
  | some m =>
    obtain ⟨hown, -⟩ := horderly.sane.serving player.arenaId m hlookup
    have hserves : Serves player.arenaId m w := by
      refine ⟨hw.1, fun m' hm' => ?_, hown⟩
      rw [hlookup] at hm'
      exact (Option.some.inj hm').symm
    dsimp only
    split
    · rename_i hopen
      refine .pure hK fun w' _ hw' => ⟨?_, (fun hnone => by cases hnone), hw'.1.2⟩
      have hspawned : (w.memory.objects m).spawned = true := by
        rcases (hw.1.ready player.arenaId m hlookup).2 with hnone | hspawned | hclosed
        · cases hnone
        · exact hspawned
        · rw [hopen] at hclosed
          cases hclosed
      rintro _ ⟨⟩
      exact ⟨Serves.keeps w w' hw'.2 hserves,
        Hosted.keeps w w' hw'.2 ⟨⟨hown.made, hspawned⟩, hown⟩⟩
    · have hbase : Keeps maxClients ⟨true, none⟩ fun w =>
          Serves player.arenaId m w ∧ Vetted player w := Serves.keeps.and hV
      have hstop := @stop maxClients digest exposed _ m _
        (Halted player.arenaId) hbase Halted.keeps
        (fun _ hw' => hw'.1.own)
        (fun w' _ hw' hended hwaited => hw'.1.halted (hw'.1.own.dead hwaited)) fuel
      have hretire : Spec maxClients digest exposed ⟨true, none⟩
          (fun w => (Serves player.arenaId m w ∧ Vetted player w) ∧ Halted player.arenaId w)
          (Server.write (.retire player.arenaId))
          (fun _ w => Unserved player.arenaId w ∧ Vetted player w) (Tidy none) :=
        retire (hbase.and Halted.keeps) (Unserved.keeps.and hV) hT fun w' horderly' hw' =>
          ⟨⟨hw'.2.tidy.retired_dead horderly' hw'.2.dead, AList.lookup_erase _ _⟩,
            hw'.1.2.leaving, hw'.1.2.started⟩
      refine .bind (hstop.mono ?_ (fun _ _ _ h => h) fun _ _ h => h.1.1.tidy) fun _ =>
        .bind hretire fun _ => .pure (Unserved.keeps.and hV) fun _ _ hw' =>
          ⟨(fun _ hm => by cases hm), fun _ => hw'.1, hw'.2⟩
      exact fun w' _ hw' => ⟨Serves.keeps w w' hw'.2 hserves, hw'.1.2⟩

/-- `finish_leave`. -/
theorem finishLeave (fuel : Nat) :
    Spec maxClients digest exposed ⟨false, none⟩ (Leaving player) (Server.finishLeave fuel player)
      (fun _ _ => True) fun _ => True := by
  have hL : Keeps maxClients ⟨false, none⟩ (Leaving player) := Leaving.keeps
  refine .memory hL (.const True) (fun _ _ => trivial) fun s horderly hleaving => ?_
  have hcheck := @checkAvailable maxClients digest exposed _ player.arenaId ⟨false, none⟩ s.memory
    (hL.and (.along s))
  refine .bind (hcheck.mono (fun _ _ h => h) (fun _ _ _ h => h) fun _ _ _ => trivial) fun _ => ?_
  -- The engines are those of this worker, also when it stops before the lock is free.
  refine Spec.pre (G := Vetted player) ?_ fun w _ hw =>
    Vetted.keeps s w hw.1.2 (hleaving.vetted horderly hw.2)
  refine withManager Vetted.keeps (fun _ => .const True) (.const True) (fun _ _ => trivial) ?_
  have hopen := @openMatch maxClients digest exposed player fuel
  refine .bind (hopen.mono (fun _ _ hw => ⟨hw.2, hw.1⟩) (fun _ _ _ h => h)
    fun _ _ h => ⟨trivial, h⟩) fun found => ?_
  cases found with
  | none =>
    exact (leaveRecovered fuel).mono (fun _ _ hw => ⟨hw.2.1 rfl, hw.2.2⟩)
      (fun _ _ _ h => ⟨trivial, h⟩) fun _ _ h => ⟨trivial, h⟩
  | some m =>
    exact (leaveMatch fuel).mono (fun _ _ hw => ⟨hw.1 m rfl, hw.2.2.leaving⟩)
      (fun _ _ _ h => ⟨trivial, h⟩) fun _ _ h => ⟨trivial, h⟩

/-- `recover_leaves`. -/
theorem recoverLeaves (fuel : Nat) (cursor : Uid) :
    Spec maxClients digest exposed ⟨false, none⟩ (fun _ => True)
      (Server.recoverLeaves fuel cursor)
      (fun _ _ => True) fun _ => True := by
  refine .ledger (.const True) (.const True) (fun _ _ => trivial) fun w _ _ => ?_
  have hI : ∀ players : List Participant, Keeps maxClients ⟨false, none⟩ fun w =>
      ∀ p ∈ players, Leaving p w :=
    fun players w w' halong h p hp => Leaving.keeps w w' halong (h p hp)
  have hloop := @forEach maxClients digest exposed ⟨false, none⟩ (fun _ => True) _
    (fun player => Task.handle (Server.finishLeave fuel player) fun _ => return ())
    (fun players w => ∀ p ∈ players, Leaving p w) hI
    (fun player players => by
      have hone := (@finishLeave maxClients digest exposed player fuel).frame (hI players)
      refine .handle (hone.mono ?_ (fun _ _ _ h => h.2) fun _ _ h => h.2) (fun _ =>
        .pure (hI players) fun _ _ h => h) fun _ _ _ _ => trivial
      exact fun _ _ hw => ⟨hw player List.mem_cons_self,
        fun p hp => hw p (List.mem_cons_of_mem player hp)⟩) (leavingPlayers w.ledger cursor)
  refine hloop.mono ?_ (fun _ _ _ _ => trivial) fun _ _ h => h
  rintro w' - ⟨-, halong⟩ p hp
  have hmem := List.mem_of_mem_take hp
  rw [List.mem_mergeSort] at hmem
  obtain ⟨hmem', hleaves⟩ := Table.mem_select.mp hmem
  rw [Bool.and_eq_true, decide_eq_true_eq] at hleaves
  exact Leaving.keeps w w' halong ⟨p, hmem', rfl, rfl, by simp [hleaves.1]⟩

/-- The `try` of `leave_loop`. -/
theorem leaveSweep (fuel : Nat) (cursor : Uid) :
    Spec maxClients digest exposed ⟨false, none⟩ (fun _ => True) (Server.leaveSweep fuel cursor)
      (fun _ _ => True) fun _ => True := by
  have hT : Keeps maxClients ⟨false, none⟩ fun _ => True := .const True
  refine .memory hT hT (fun _ h => h) fun w _ _ => ?_
  refine Spec.pre (G := fun _ => True) ?_ fun _ _ _ => trivial
  split
  · exact recoverLeaves fuel cursor
  · exact .pure hT fun _ _ h => h

/-- `leave_game`. -/
theorem leaveGame (fuel : Nat) (arenaId token : String) :
    Spec maxClients digest exposed ⟨false, none⟩ (fun _ => True)
      (Server.leaveGame fuel arenaId token)
      (fun _ _ => True) fun _ => True := by
  have hT : Keeps maxClients ⟨false, none⟩ fun _ => True := .const True
  refine .memory hT hT (fun _ h => h) fun s _ _ => ?_
  refine Spec.pre (G := fun _ => True) ?_ fun _ _ _ => trivial
  refine .bind ((checkAvailable hT).mono (fun _ _ h => h) (fun _ _ _ h => h.1) fun _ _ h => h)
    fun _ => ?_
  have hdue : ∀ w, Due (.requestLeave arenaId token) w := fun w =>
    .of_ordinary rfl trivial fun _ hcall => by cases hcall
  refine .quiet hT hT (fun _ h => h) (fun w _ _ => hdue w) ?_ ?_
  · intro w outcome w' horderly _ _ hdoes
    refine horderly.transact hdoes (hdue w) ?_ ?_ ?_
    · rintro (⟨_, _, hcall⟩ | ⟨_, _, _, hcall⟩) <;> cases hcall
    · rintro run hcall
      cases hcall
    · rintro playerId run hcall
      cases hcall
  · intro player w w' _ _ hdoes _
    refine (finishLeave fuel).pre fun w'' _ hw => Leaving.keeps w' w'' hw.2 ?_
    obtain ⟨env, -, ⟨-, _, hraised⟩ | ⟨result, σ', hrun, rfl, hresult⟩⟩ := transact_cases hdoes
    · cases hraised
    · rw [hresult player rfl]
      exact requested hrun

/-! ### Rounds -/

/-- `renew`. -/
theorem renew {v : View} {F : World → Prop} (hF : Keeps maxClients v F) :
    Spec maxClients digest exposed v F (Server.renew m arenaId) (fun _ => F) F := by
  refine .now hF hF (fun _ h => h) fun t => .memory hF hF (fun _ h => h) fun w _ _ => ?_
  refine Spec.pre (G := F) ?_ fun _ _ hw => hw.1
  split
  · exact .pure hF fun _ _ h => h
  · have hdue : ∀ w', Due (.renewLease w.memory.worker arenaId (w.memory.objects m).run
        (w.memory.connected m)) w' := fun w' =>
      .of_ordinary rfl trivial fun _ hcall => by cases hcall
    refine .bind (.act hF (fun w' _ _ => hdue w') ?_) fun _ => .now hF hF (fun _ h => h) fun t' =>
      .write hF hF hF (fun _ _ _ => trivial) fun _ _ h => h
    intro w₁ outcome w₂ horderly _ _ hdoes
    refine horderly.transact hdoes (hdue w₁) ?_ ?_ ?_
    · rintro (⟨_, _, hcall⟩ | ⟨_, _, _, hcall⟩) <;> cases hcall
    · rintro run hcall
      cases hcall
    · rintro playerId run hcall
      cases hcall

/-- `if changed`, in a round of `loop`. -/
theorem notifyIf {v : View} {F : World → Prop} (hF : Keeps maxClients v F) (changed : Bool) :
    Spec maxClients digest exposed v F (Server.notifyIf changed) (fun _ => F) F := by
  unfold Server.notifyIf
  split
  · refine .handle (.ledger hF hF (fun _ h => h) fun w _ _ => ?_)
      (fun _ => .pure hF fun _ _ h => h) fun _ _ _ h => h
    exact .pure (hF.and (.along w)) fun _ _ h => h.1
  · exact .pure hF fun _ _ h => h

/-- The `try` in a round of `loop`. -/
theorem tend (fuel : Nat) :
    Spec maxClients digest exposed ⟨true, none⟩ (Serves arenaId m) (Server.tend fuel arenaId m)
      (fun _ => Tidy none) (Serves arenaId m) := by
  have hS : Keeps maxClients ⟨true, none⟩ (Serves arenaId m) := Serves.keeps
  have hT : Keeps maxClients ⟨true, none⟩ (Tidy none) := Tidy.keeps none
  have hS' : Keeps maxClients ⟨true, some m⟩ (Serves arenaId m) :=
    Keeps.forget (v := ⟨true, some m⟩) hS
  have hreads : Reads maxClients ⟨true, some m⟩ m (Serves arenaId m) :=
    ⟨hS', fun _ hw => hw.own.made, fun _ _ _ => rfl⟩
  have hreplay := (@replay maxClients digest exposed _ _ _ _ hreads
    (.const True) (fun _ _ _ _ => trivial)
    false).mono (fun _ _ h => h) (fun (_ : Bool) _ _ h => h.1) fun _ _ h => h
  have hrenew : Spec maxClients digest exposed ⟨true, some m⟩ (Serves arenaId m)
    (Server.renew m arenaId)
      (fun _ => Serves arenaId m) (Serves arenaId m) := renew hS'
  have hbody : Spec maxClients digest exposed ⟨true, some m⟩ (Serves arenaId m)
      (do
        let changed ← Server.replay m false
        let _ ← Server.renew m arenaId
        return changed) (fun _ => Serves arenaId m) (Serves arenaId m) :=
    .bind hreplay fun _ => .bind hrenew fun _ => .pure hS' fun _ _ h => h
  have hlocked := @withGame maxClients digest exposed _ _ _ _ true m _ hS (fun _ : Bool => hS) hS
    (fun _ hw => hw) (fun _ hw => hw.own.made) hbody
  have hstop := @stop maxClients digest exposed _ _ _ (Halted arenaId) hS Halted.keeps
    (fun _ hw => hw.own) (fun _ _ hw _ hwaited => hw.halted (hw.own.dead hwaited)) fuel
  refine .bind hlocked fun changed => .bind (notifyIf hS changed) fun _ =>
    .memory hS hS (fun _ h => h) fun w _ _ => ?_
  refine Spec.pre (G := Serves arenaId m) ?_ fun _ _ hw => hw.1
  refine .now hS hS (fun _ h => h) fun t => ?_
  split
  · refine .bind (hstop.mono (fun _ _ h => h) (fun _ _ _ h => h.2) fun _ _ h => h.1) fun _ => ?_
    exact retire Halted.keeps hT hS fun _ horderly hw => hw.tidy.retired_dead horderly hw.dead
  · exact .pure hS fun _ _ h => h.tidy

/-- The `except` in a round of `loop`. -/
theorem protect (fuel : Nat) :
    Spec maxClients digest false ⟨true, none⟩ (Serves arenaId m) (Server.protect fuel arenaId m)
      (fun _ => Tidy none) (Tidy none) := by
  have hT : Keeps maxClients ⟨true, none⟩ (Tidy none) := Tidy.keeps none
  have hH : Keeps maxClients ⟨true, none⟩ (Halted arenaId) := Halted.keeps
  have hS : Keeps maxClients ⟨true, none⟩ (Serves arenaId m) := Serves.keeps
  have hstop := (@stopServed maxClients digest false _ _ _ hS (fun _ hw => hw.own)
    (fun _ _ hw _ hdead => hw.halted hdead) fuel).mono (fun _ _ h => h) (fun _ _ _ h => h)
      fun _ _ h => h.2 rfl
  refine .anyway (fun _ => hT) hT (.handle hstop (fun _ => ?_) fun _ _ _ h => h)
    (fun _ => retireHalted) retireHalted
  exact .write hH hH hH (fun _ _ _ => trivial) fun _ _ h => h

/-- A round of `loop`, under the lock. -/
theorem roundLocked (fuel : Nat) :
    MarkedSpec maxClients digest ⟨true, none⟩ (Tidy none) (Server.roundLocked fuel arenaId m)
      (fun _ => Tidy none) (Tidy none) := by
  have hT : Keeps maxClients ⟨true, none⟩ (Tidy none) := Tidy.keeps none
  have hS : Keeps maxClients ⟨true, none⟩ (Serves arenaId m) := Serves.keeps
  have hpost : ∀ s : Memory, Keeps maxClients ⟨true, none⟩ fun w =>
      Tidy none w ∧ (s.serving.lookup arenaId = some m → Serves arenaId m w) :=
    fun s => hT.and fun w w' halong hw hlookup => hS w w' halong (hw hlookup)
  have hread : Spec maxClients digest true ⟨true, none⟩ (Tidy none) Server.memory
      (fun s w => Tidy none w ∧ (s.serving.lookup arenaId = some m → Serves arenaId m w))
      (Tidy none) := by
    refine on_perform hT hpost hT (fun _ _ _ => trivial) ?_
    intro w outcome w' hon hdoes
    obtain ⟨env, heffect⟩ := hdoes.sure rfl rfl
    rw [Op.effects, List.mem_singleton, Prod.mk.injEq] at heffect
    obtain ⟨rfl, rfl⟩ := heffect
    refine ⟨false, none, .refl _ _ hon.orderly, fun h => (by cases h), fun _ h => (by cases h),
      hon.owns, ?_, fun _ h => by cases h⟩
    rintro _ ⟨⟩
    refine ⟨hon.link, hon.holds, fun hlookup => ⟨hon.holds, fun m' hm' => ?_,
      (hon.orderly.sane.serving _ _ hlookup).1⟩⟩
    rw [hlookup] at hm'
    exact (Option.some.inj hm').symm
  refine Triple.bind hread.marked fun s => ?_
  split
  · rename_i hlookup
    have htend : MarkedSpec maxClients digest ⟨true, none⟩
        (fun w => Tidy none w ∧ (s.serving.lookup arenaId = some m → Serves arenaId m w))
        (Server.exposed (Server.tend fuel arenaId m)) (fun _ => Tidy none) (Serves arenaId m) :=
      ((tend fuel).pre fun _ _ hw => hw.2 hlookup).marked
    exact Triple.handle htend (fun _ => (protect fuel).marked) fun _ _ hon =>
      hon.mono fun _ hw => hw.tidy
  · exact Triple.pure (On.stable (hpost s)) fun _ _ hon => hon.mono fun _ hw => hw.1

/-- A round of `loop`, for one of its matches. -/
theorem round (fuel : Nat) :
    MarkedSpec maxClients digest ⟨false, none⟩ (fun _ => True) (Server.round fuel arenaId m)
      (fun _ _ => True) fun _ => True := by
  let N := On maxClients ⟨false, none⟩ .idle fun _ => True
  let M := On maxClients ⟨true, none⟩ .idle fun w => True ∧ Tidy none w
  have hT : Keeps maxClients ⟨false, none⟩ fun _ => True := .const True
  have hlock : Triple ((custody maxClients).marked Bool) (Proceeds digest) N
      (Server.exposed (await (.lock .manager))) (fun _ => M) fun _ => N := by
    refine (Triple.mark (lockManager hT)).consequence (fun _ _ _ hon => hon) ?_
    intro outcome view w _ hpost
    cases outcome with
    | ok _ => exact hpost
    | error raised => exact hpost.2
  have hbody : Triple ((custody maxClients).marked Bool) (Proceeds digest) M
      (Server.roundLocked fuel arenaId m) (fun _ => M) fun _ => M := by
    refine Triple.consequence (roundLocked fuel) (fun _ _ _ hon => hon.mono fun _ hw => hw.2) ?_
    intro outcome view w _ hpost
    cases outcome with
    | ok _ => exact On.mono hpost fun _ hw => ⟨trivial, hw⟩
    | error raised => exact On.mono hpost fun _ hw => ⟨trivial, hw⟩
  have hunlock : Triple ((custody maxClients).marked Bool) (Proceeds digest) M
      (Server.exposed (await (.unlock .manager))) (fun _ => N) fun _ => N := by
    refine (Triple.mark (unlockManager hT)).consequence (fun _ _ _ hon => hon) ?_
    intro outcome view w _ hpost
    cases outcome with
    | ok _ => exact hpost
    | error raised => exact hpost.elim
  exact Triple.bind hlock fun _ => Triple.anyway (On.stable hT) hbody hunlock

/-! ### The end of `loop` -/

theorem clear_cases {w w' : World} {outcome : Outcome .clear}
    (h : Performs digest false .clear w outcome w') : outcome = .ok () ∧
      w.memory.ended ≠ none ∧ (∀ m ∈ w.memory.stopping, m ∈ w.memory.stopped) ∧
      w' = w.setMemory { w.memory with
        serving := ∅ } := by
  obtain ⟨env, heffect⟩ | ⟨hfalse, -⟩ := h.patient rfl rfl
  · simp only [Op.effects] at heffect
    split_ifs at heffect with hdone
    · rw [List.mem_singleton, Prod.mk.injEq] at heffect
      exact ⟨heffect.1, hdone.1, hdone.2, heffect.2⟩
    · cases heffect
  · cases hfalse

/-- The `finally` of `loop`. -/
theorem shutDown :
    Spec maxClients digest false ⟨false, none⟩ (fun _ => True) Server.shutDown
      (fun _ _ => True) fun _ => True := by
  have hT : Keeps maxClients ⟨false, none⟩ fun _ => True := .const True
  refine .bind (.act hT (fun _ _ _ => trivial) ?_) fun _ => .act hT (fun _ _ _ => trivial) ?_
  · intro w outcome w' horderly _ _ hdoes
    obtain ⟨-, rfl⟩ := write_cases hdoes
    exact horderly.halt
  · intro w outcome w' horderly _ _ hdoes
    obtain ⟨-, hended, hstopped, rfl⟩ := clear_cases hdoes
    exact horderly.clear hended hstopped

/-- One of the stops of the `finally` of `loop`. -/
theorem shutStop (fuel : Nat) :
    Spec maxClients digest false ⟨false, none⟩ (fun _ => True) (Server.shutStop fuel m)
      (fun _ _ => True) fun _ => True := by
  have hT : Keeps maxClients ⟨false, none⟩ fun _ => True := .const True
  refine .memory hT hT (fun _ h => h) fun w horderly _ => ?_
  split
  · rename_i hlisted
    have hO : Keeps maxClients ⟨false, none⟩ (Own m) := Own.keeps
    have hE : Keeps maxClients ⟨false, none⟩ (Ended m) := Ended.keeps
    have hstop := @stop maxClients digest false _ _ _ _ hO hE (fun _ hw => hw)
      (fun _ _ _ hended _ => hended) fuel
    have hown : ∀ w', Along maxClients ⟨false, none⟩ w w' → Own m w' :=
      fun w' halong => Own.keeps w w' halong (horderly.sane.stopping m hlisted)
    refine .bind (.handle (hstop.mono (fun w' _ hw => hown w' hw.2) (fun _ _ _ hw => hw.2)
      fun _ _ hw => hw.2 rfl) (fun _ => .pure hE fun _ _ hw =>
        hw) fun _ _ _ _ => trivial) fun _ =>
      Spec.mono (.act hE (fun _ _ _ => trivial) ?_) (fun _ _ hw => hw)
        (fun _ _ _ _ => trivial) fun _ _ _ => trivial
    intro w₁ outcome w₂ horderly' _ hended hdoes
    obtain ⟨-, rfl⟩ := write_cases hdoes
    exact horderly'.stopped hended
  · exact .pure (hT.and (.along w)) fun _ _ _ => trivial

/-! ### Connections -/

/-- An admission. -/
theorem admission (fuel : Nat) (c : ConnectionId) :
    Spec maxClients digest false ⟨false, none⟩ (fun _ => True) (Server.admission fuel c)
      (fun _ _ => True) fun _ => True := by
  have hT : Keeps maxClients ⟨false, none⟩ fun _ => True := .const True
  refine withReader hT (fun _ => hT) hT (fun _ h => h) (.handle (T := fun _ => True) ?_ (fun _ =>
    .pure hT fun _ _ h => h) fun _ _ _ h => h)
  refine .memory hT hT (fun _ h => h) fun w _ _ => ?_
  refine Spec.pre (G := fun _ => True) ?_ fun _ _ _ => trivial
  refine .bind (ensure fuel) fun m => ?_
  exact .bind ((attach c).mono (fun _ _ h => h) (fun _ _ _ h => h) fun _ _ _ => trivial) fun _ =>
    .pure Hosted.keeps fun _ _ _ => trivial

/-- A gameplay packet. -/
theorem gameplay (c : ConnectionId) (payload : List UInt8) :
    Spec maxClients digest exposed ⟨false, none⟩ (fun _ => True) (Server.gameplay c payload)
      (fun _ _ => True) fun _ => True := by
  have hT : Keeps maxClients ⟨false, none⟩ fun _ => True := .const True
  refine withReader hT (fun _ => hT) hT (fun _ h => h) (.act hT (fun _ _ _ => trivial) ?_)
  intro w outcome w' horderly _ _ hdoes
  obtain ⟨env, heffect⟩ | ⟨-, rfl⟩ := hdoes.plain rfl
  · simp only [Op.effects, List.mem_cons, List.not_mem_nil, or_false] at heffect
    rcases heffect with heffect | heffect
    · unfold World.forward at heffect
      split at heffect
      · simp only [World.send] at heffect
        split_ifs at heffect with hshut hpeer
        · rw [(Prod.mk.inj heffect).2]
          exact .refl _ _ horderly
        · rw [(Prod.mk.inj heffect).2]
          exact .refl _ _ horderly
        · rw [not_or, Bool.not_eq_true, Bool.not_eq_false] at hshut
          rw [(Prod.mk.inj heffect).2]
          refine horderly.push hshut.1 hshut.2 ?_ (.inr ⟨_, _, rfl⟩)
          intro p rest hbytes
          simp at hbytes
      · rw [(Prod.mk.inj heffect).2]
        exact .refl _ _ horderly
    · rw [(Prod.mk.inj heffect).2]
      exact .refl _ _ horderly
  · exact .refl _ _ horderly

/-- A browser that is gone. -/
theorem disconnect (fuel : Nat) (c : ConnectionId) :
    Spec maxClients digest exposed ⟨false, none⟩ (fun _ => True) (Server.disconnect fuel c)
      (fun _ _ => True) fun _ => True := by
  have hT : Keeps maxClients ⟨false, none⟩ fun _ => True := .const True
  refine .bind (lockReader hT fun _ h => h) fun _ => .memory hT hT (fun _ h => h)
    fun w horderly _ => ?_
  cases hhost : (w.memory.connections c).host with
  | none => exact .pure (hT.and (.along w)) fun _ _ _ => trivial
  | some m =>
    refine Spec.pre (G := Hosted m) ?_ fun w' _ hw =>
      Hosted.keeps w w' hw.2 (horderly.hosted hhost)
    exact .handle ((detach fuel c).mono (fun _ _ h => h) (fun _ _ _ _ => trivial) fun _ _ h => h)
      (fun _ => .pure Hosted.keeps fun _ _ _ => trivial) fun _ _ _ _ => trivial

/-- Every task that can start. -/
theorem starts {task : Marked Unit} (h : Starts task) :
    MarkedSpec maxClients digest ⟨false, none⟩ (fun _ => True) task
      (fun _ _ => True) fun _ => True := by
  obtain ⟨fuel, starter, rfl⟩ := h
  cases starter with
  | admission c => exact (admission fuel c).marked
  | gameplay c payload => exact (gameplay c payload).marked
  | disconnect c => exact (disconnect fuel c).marked
  | leaveGame arenaId token => exact (leaveGame fuel arenaId token).marked
  | leaveSweep cursor => exact (leaveSweep fuel cursor).marked
  | round arenaId m => exact round fuel
  | shutDown => exact shutDown.marked
  | shutStop m => exact (shutStop fuel).marked

end Spec

end QuakeJs.Server
