import QuakeJs.Server.Arenas

/-!
# Serving an arena

`ensure`, with the recovery of the runs of a previous worker and the start of a
new engine.  All of it happens under the manager's lock.
-/

namespace QuakeJs.Server

open Async Engine Ledger

/-- `Match(...)`. -/
def World.made (w : World) (arenaId run : Uid) (now : Int) (listed : Bool) : World :=
  w.setMemory (w.memory.create arenaId run now listed)

section

variable {maxClients : Nat} {w w' : World} {m : MatchId} {arenaId run : Uid} {now : Int}
  {listed : Bool}

theorem made_object : (w.made arenaId run now listed).memory.objects w.memory.created =
    Match.new arenaId run now := Function.update_self _ _ _

theorem made_others (hm : m ≠ w.memory.created) :
    (w.made arenaId run now listed).memory.objects m = w.memory.objects m :=
  Function.update_of_ne hm _ _

/-- A new match is not in the books yet, unless it is to be served. -/
theorem Tidy.made (h : Tidy none w) (honward : Onward w (w.made arenaId run now listed))
    (hnone : listed = true → w.memory.serving.lookup arenaId = none) :
    Tidy (if listed then some w.memory.created else none) (w.made arenaId run now listed) := by
  refine ⟨fun a m hlookup => ?_, fun m hspawned halive => ?_⟩
  · have hbefore : ∀ {m}, w.memory.serving.lookup a = some m →
        m < w.memory.created + 1 ∧ (((w.made arenaId run now listed).memory.objects m).spawned =
          true ∨ ((w.made arenaId run now listed).memory.objects m).closed = true) := by
      intro m hm
      obtain ⟨hmade, hready⟩ := h.ready a m hm
      rw [made_others (Nat.ne_of_lt hmade)]
      exact ⟨Nat.lt_succ_of_lt hmade, hready.resolve_left (by simp)⟩
    cases listed with
    | false => exact (hbefore hlookup).imp_right .inr
    | true =>
      by_cases ha : a = arenaId
      · rw [ha] at hlookup
        have hself := (AList.lookup_insert w.memory.serving).symm.trans hlookup
        exact ⟨Option.some.inj hself ▸ Nat.lt_succ_self _, .inl hself⟩
      · exact (hbefore ((AList.lookup_insert_ne ha).symm.trans hlookup)).imp_right .inr
  · have hm : m ≠ w.memory.created := by
      rintro rfl
      rw [made_object] at hspawned
      cases hspawned
    rw [made_others hm] at hspawned halive ⊢
    rcases h.covered m hspawned halive with hfalse | hserved | hdropped
    · cases hfalse
    · refine .inr (.inl ?_)
      cases listed with
      | false => exact hserved
      | true =>
        refine (AList.lookup_insert_ne fun ha => ?_).trans hserved
        rw [ha, hnone rfl] at hserved
        cases hserved
    · exact .inr (.inr (hdropped.onward honward))

theorem Bare.of_made : Bare w.memory.created run (w.made arenaId run now listed) := by
  refine ⟨Nat.lt_succ_self _, ?_, ?_⟩
  all_goals rw [made_object]
  · rfl
  · rfl

/-- What `start` does to the memory of its match. -/
theorem Starting.step (h : Starting arenaId m w) (horderly : Orderly maxClients w)
    (honward : Onward w w')
    (hledger : w'.ledger = w.ledger) (hserving : w'.memory.serving = w.memory.serving)
    (hcreated : w'.memory.created = w.memory.created)
    (hothers : ∀ m', m' ≠ m → w'.memory.objects m' = w.memory.objects m')
    (halive : ∀ run, w'.alive run = true →
      w.alive run = true ∨ run = (w.memory.objects m).run) : Starting arenaId m w' := by
  have hgoes : ∀ run, Goes run w → Goes run w' := by
    rintro run (hrow | ⟨m', hm', hrun, hclosed⟩)
    · rw [← hledger] at hrow
      exact .inl hrow
    · have hkeeps := honward.objects m' hm'
      exact .inr ⟨m', hcreated ▸ hm', hkeeps.run.trans hrun, hkeeps.closed hclosed⟩
  have hself := honward.objects m h.own.made
  refine ⟨⟨fun a m' hlookup => ?_, fun m' hs hrunning => ?_⟩, ?_, ?_,
    honward.own m h.own,
    h.alone.keeps h.own.made hcreated fun m' hm' => (honward.objects m' hm').run, ?_,
    hself.arenaId.trans h.arena, ?_⟩
  · rw [hserving] at hlookup
    obtain ⟨hmade, hready⟩ := h.tidy.ready a m' hlookup
    have hkeeps := honward.objects m' hmade
    exact ⟨hcreated ▸ hmade, hready.imp_right fun hrest => hrest.imp hkeeps.spawned hkeeps.closed⟩
  · by_cases hm : m' = m
    · exact .inl (congrArg some hm.symm)
    · rw [hothers m' hm] at hs hrunning ⊢
      rw [hserving]
      rcases halive _ hrunning with hold | hrun
      · exact (h.tidy.covered m' hs hold).imp_right fun hrest =>
          hrest.imp_right fun hdropped => hdropped.onward honward
      · have hmade := (horderly.sane.live hs).made
        exact .inl (congrArg some (h.alone m' hmade hrun).symm)
  · rw [hserving]
    exact h.placed.imp_right fun hdropped => hdropped.onward honward
  · rw [hserving]
    exact h.only
  · rw [hself.run]
    exact hgoes _ h.goes
  · rw [hledger, hself.run]
    exact fun r hr harena hrunning => (halive _ hrunning).elim (h.lone r hr harena) fun heq => heq

/-- The manager's books are not about the ledger. -/
theorem Tidy.commit {e : Option MatchId} (h : Tidy e w) (σ' : Ledger) :
    Tidy e { w with
      ledger := σ' } := by
  refine ⟨h.ready, fun m hspawned halive => ?_⟩
  refine (h.covered m hspawned halive).imp_right fun hrest => hrest.imp_right ?_
  rintro ⟨hended, hlate | ⟨hown, hclosed, hstill⟩⟩
  · exact ⟨hended, .inl hlate⟩
  · refine ⟨hended, .inr ⟨⟨hown.made, hown.named, hown.sole, hown.pending⟩, hclosed, ?_⟩⟩
    exact hstill.imp (fun hexited => hexited) fun hbarren =>
      ⟨hbarren.made, hbarren.closed, hbarren.sole, hbarren.untouched⟩

/-- When no other match has the run of a new one, it is its own. -/
theorem Inserted.made (h : Inserted arenaId run w) (horderly : Orderly maxClients w) :
    Own w.memory.created (w.made arenaId run now listed) ∧
      Alone w.memory.created (w.made arenaId run now listed) ∧
      Goes run (w.made arenaId run now listed) := by
  obtain ⟨r, hr, hid, -⟩ := h.row
  have hnamed : run ≠ "" := hid ▸ horderly.sane.books.named r hr
  have hother : ∀ m', m' ≠ w.memory.created →
      ((w.made arenaId run now listed).memory.objects m').run ≠ run := by
    intro m' hm'
    rw [made_others hm']
    by_cases hmade : m' < w.memory.created
    · exact h.unmade m' hmade
    · rw [(horderly.sane.blank m' (not_lt.mp hmade)).1]
      exact hnamed.symm
  refine ⟨⟨Nat.lt_succ_self _, ?_, ?_, ?_⟩, ?_, ?_⟩
  · rw [made_object]
    exact hnamed
  · intro m' _ hrun
    rw [made_object] at hrun
    by_contra hne
    exact hother m' hne hrun
  · intro _
    rw [made_object]
    exact h.engineless
  · intro m' _ hrun
    rw [made_object] at hrun
    by_contra hne
    exact hother m' hne hrun
  · rcases h.goes with hrow | ⟨m', hm', hrun, -⟩
    · exact .inl hrow
    · exact absurd hrun (h.unmade m' hm')

/-- The match of a new run is made, and served. -/
theorem Inserted.serve (h : Inserted arenaId run w) (horderly : Orderly maxClients w)
    (honward : Onward w (w.made arenaId run now true)) :
    Starting arenaId w.memory.created (w.made arenaId run now true) := by
  obtain ⟨hown, halone, hgoes⟩ := @Inserted.made _ _ _ _ now true h horderly
  refine ⟨h.tidy.made honward fun _ => h.unserved, .inl (AList.lookup_insert _), ?_, hown, halone,
    ?_, ?_, fun r hr harena halive => ?_⟩
  · intro m' hm'
    exact (Option.some.inj ((AList.lookup_insert w.memory.serving).symm.trans hm')).symm
  · rw [made_object]
    exact hgoes
  · rw [made_object]
    rfl
  · have hstill := h.still r hr harena
    rw [show w.alive r.id = true from halive] at hstill
    cases hstill

/-- A match that is about to start, with its socket. -/
structure Paired (arenaId run : Uid) (m : MatchId) (w : World) : Prop where
  starting : Starting arenaId m w
  bare : Bare m run w
  socket : (w.memory.objects m).socket = true

theorem Paired.keeps : Keeps maxClients ⟨true, none⟩ (Paired arenaId run m) := by
  intro w w' halong h
  refine ⟨Starting.keeps w w' halong h.starting, Bare.keeps w w' halong h.bare, ?_⟩
  rw [((halong.held rfl).started m).2]
  exact h.socket

end

namespace Spec

variable {maxClients : Nat} {digest : String → String} {exposed : Bool}
  {F G S : World → Prop} {m : MatchId}
  {arenaId run : Uid} {olds : List Run}

/-- A transaction of the holder of the manager's lock. -/
theorem managed {t : Transaction} {R : t.Result → World → Prop}
    (hF : Keeps maxClients ⟨true, none⟩ F) (hR : ∀ a, Keeps maxClients ⟨true, none⟩ (R a))
    (hS : Keeps maxClients ⟨true, none⟩ S)
    (hdue : ∀ w, Orderly maxClients w → F w → Due t.action w)
    (hleaves : ∀ playerId run, t.action = .finishLeave playerId run → run = "")
    (hok : ∀ w env result σ', Orderly maxClients w → F w → Draws digest env w →
      t.run env w.ledger = .ok (result, σ') → R result { w with
        ledger := σ' })
    (herror : ∀ w σ', F w → S { w with
      ledger := σ' }) :
    Spec maxClients digest exposed ⟨true, none⟩ F (transact t) R S := by
  refine manage hF hR hS hdue ?_
  intro w outcome w' horderly hlocked hholds hdoes
  have hpass : Passes maxClients true none w w' :=
    horderly.transact hdoes (hdue w horderly hholds) (fun _ => rfl) (fun _ _ => .inl rfl)
      fun playerId run hcall => .inl (hleaves playerId run hcall)
  obtain ⟨env, hdraws, ⟨rfl, raised, rfl⟩ | ⟨result, σ', hrun, rfl, hresult⟩⟩ :=
    transact_cases hdoes
  · exact ⟨hpass, hlocked, (fun _ h => by cases h), fun _ _ => herror _ _ hholds⟩
  · refine ⟨hpass, hlocked, fun a ha => ?_, fun _ _ => herror _ _ hholds⟩
    rw [hresult a ha]
    exact hok w env result σ' horderly hholds hdraws hrun

/-- `Match(...)`. -/
theorem create {listed : Bool} {R : MatchId → World → Prop}
    (hF : Keeps maxClients ⟨true, none⟩ F) (hR : ∀ a, Keeps maxClients ⟨true, none⟩ (R a))
    (hS : Keeps maxClients ⟨true, none⟩ S)
    (hrow : ∀ w, Orderly maxClients w → F w → ∃ r ∈ w.ledger.runs,
      r.id = run ∧ r.arenaId = arenaId)
    (hown : ∀ w now, Orderly maxClients w → F w → listed = true →
      Own w.memory.created (w.made arenaId run now listed))
    (hdone : ∀ w now, Orderly maxClients w → F w → Onward w (w.made arenaId run now listed) →
      R w.memory.created (w.made arenaId run now listed)) :
    Spec maxClients digest exposed ⟨true, none⟩ F (await (.create arenaId run listed)) R S := by
  refine manage hF hR hS (fun _ _ _ => trivial) ?_
  intro w outcome w' horderly hlocked hholds hdoes
  obtain ⟨env, heffect⟩ := hdoes.sure rfl rfl
  rw [Op.effects, List.mem_singleton, Prod.mk.injEq] at heffect
  obtain ⟨rfl, rfl⟩ := heffect
  have hpass := horderly.create hlocked (hrow w horderly hholds) rfl
    (hown w env.now horderly hholds)
  refine ⟨hpass, hlocked, ?_, fun _ h => by cases h⟩
  rintro _ ⟨⟩
  exact hdone w env.now horderly hholds hpass.onward

/-- `self.matches.pop(arena_id, None)`. -/
theorem retire (hF : Keeps maxClients ⟨true, none⟩ F) (hG : Keeps maxClients ⟨true, none⟩ G)
    (hS : Keeps maxClients ⟨true, none⟩ S)
    (hdone : ∀ w, Orderly maxClients w → F w →
      G (w.setMemory ((Write.retire arenaId).apply w.memory))) :
    Spec maxClients digest exposed ⟨true, none⟩ F
      (Server.write (.retire arenaId)) (fun _ => G) S := by
  refine manage hF (fun _ => hG) hS (fun _ _ _ => trivial) ?_
  intro w outcome w' horderly hlocked hholds hdoes
  obtain ⟨rfl, rfl⟩ := write_cases hdoes
  exact ⟨horderly.retire hlocked, hlocked,
    fun _ _ => hdone w horderly hholds, fun _ h => by cases h⟩

/-- The manager does not serve anybody, or not this arena. -/
theorem checkAvailable {v : View} {s : Memory} (hF : Keeps maxClients v F) :
    Spec maxClients digest exposed v F (Server.checkAvailable arenaId s)
      (fun _ w => F w ∧ s.running = true) F := by
  unfold Server.checkAvailable
  split
  · exact .refuse hF fun _ _ hw => hw
  · rename_i hrunning
    split
    · exact .refuse hF fun _ _ hw => hw
    · exact .pure hF fun _ _ hw => ⟨hw, by simpa using hrunning⟩

/-! ### Recovery -/

/-- A match that starts no engine drains the journal of an old run, whose
engine writes no more, and the run is settled. -/
theorem drainOld (hF : Keeps maxClients ⟨true, none⟩ F) (htidy : ∀ w, F w → Tidy none w)
    (hstill : ∀ w, F w → Stilled run w) (fuel : Nat) :
    Spec maxClients digest exposed ⟨true, none⟩ (fun w => F w ∧ Bare m run w)
      (Server.drainJournal m fuel) (fun _ w => (F w ∧ Bare m run w) ∧
        Settled run w) (Tidy none) := by
  have hreads : Reads maxClients ⟨true, none⟩ m fun w => F w ∧ Bare m run w :=
    ⟨hF.and Bare.keeps, fun _ hw => hw.2.made, fun _ hw hspawned => by
      simp [hw.2.unspawned] at hspawned⟩
  have hdrain := @drainJournal maxClients digest exposed _ _ _ (Settled run) hreads Settled.keeps
    (fun w _ hw hnone => by
      rw [hw.2.run_eq] at hnone
      exact ⟨applied_of_unapplied hnone, hstill w hw.1⟩) fuel
  exact hdrain.mono (fun _ _ h => h) (fun _ _ _ h => h) fun w _ h => htidy w h.1

/-- A run that a previous worker left is recovered. -/
theorem recoverOld (fuel : Nat) (old : Run) :
    Spec maxClients digest exposed ⟨true, none⟩ (Vacant arenaId run (old :: olds))
      (Server.recoverOld fuel arenaId old) (fun _ => Vacant arenaId run olds) (Tidy none) := by
  have hV : Keeps maxClients ⟨true, none⟩ (Vacant arenaId run (old :: olds)) := Vacant.keeps
  have hT : Keeps maxClients ⟨true, none⟩ (Tidy none) := Tidy.keeps none
  have hrow : ∀ w, Vacant arenaId run (old :: olds) w →
      ∃ r ∈ w.ledger.runs, r.id = old.id ∧ r.arenaId = arenaId :=
    fun w hw => hw.rows old List.mem_cons_self
  have hcreate : Spec maxClients digest exposed ⟨true, none⟩ (Vacant arenaId run (old :: olds))
      (await (.create arenaId old.id false)) (fun m w => Vacant arenaId run
        (old :: olds) w ∧ Bare m old.id w)
      (Tidy none) := by
    refine create hV (fun _ => hV.and Bare.keeps) hT (fun w _ hw => hrow w hw)
      (fun _ _ _ _ hlisted => by cases hlisted) ?_
    intro w now horderly hw honward
    exact ⟨⟨⟨hw.tidy.made honward fun hlisted => (by cases hlisted), hw.unserved, hw.still⟩,
      hw.named, hw.leased, hw.unrun, hw.rest, hw.rows⟩, .of_made⟩
  refine .bind hcreate fun m => ?_
  refine .bind (drainOld hV (fun _ hw => hw.tidy)
    (fun w hw => still_of_dead (hw.dead (hrow w hw))) fuel) fun _ => ?_
  refine managed ((hV.and Bare.keeps).and Settled.keeps) (fun _ => Vacant.keeps) hT ?_
    (fun _ _ hcall => by cases hcall) ?_ fun w σ' hw => hw.1.1.tidy.commit σ'
  · rintro w - hw
    refine .of_ordinary rfl trivial ?_
    rintro run' ⟨⟩
    exact hw.2
  · rintro w env result σ' horderly ⟨⟨hw, -⟩, -⟩ - hrun
    obtain rfl : w.ledger.recoverRun old.id = σ' := by
      simpa [Transaction.run] using hrun
    have hmem : ∀ r' ∈ (w.ledger.recoverRun old.id).runs, (r' ∈ w.ledger.runs ∧ r'.id ≠ old.id) ∨
        ∃ r ∈ w.ledger.runs, r.id = old.id ∧ r' = { r with
          status := .recovered } := fun r' hr' => (Table.mem_updateKey).mp hr'
    have hkept : ∀ r ∈ w.ledger.runs, ∃ r' ∈ (w.ledger.recoverRun old.id).runs,
        r'.id = r.id ∧ r'.arenaId = r.arenaId := by
      intro r hr
      by_cases hid : r.id = old.id
      · exact ⟨_, (Table.mem_updateKey).mpr (.inr ⟨r, hr, hid, rfl⟩), rfl, rfl⟩
      · exact ⟨r, (Table.mem_updateKey).mpr (.inl ⟨hr, hid⟩), rfl, rfl⟩
    refine ⟨⟨hw.tidy.commit _, hw.unserved, ?_⟩, hw.named, hw.leased, ?_, ?_, ?_⟩
    · intro r' hr' harena
      rcases hmem r' hr' with ⟨hold, -⟩ | ⟨r, hr, -, rfl⟩
      · exact hw.still r' hold harena
      · exact hw.still r hr harena
    · intro r' hr' heq
      rcases hmem r' hr' with ⟨hold, -⟩ | ⟨r, hr, -, rfl⟩
      · exact hw.unrun r' hold heq
      · exact hw.unrun r hr heq
    · intro r' hr' harena hgoes
      rcases hmem r' hr' with ⟨hold, hne⟩ | ⟨r, hr, -, rfl⟩
      · obtain ⟨o, ho, hid⟩ := hw.rest r' hold harena hgoes
        rcases List.mem_cons.mp ho with rfl | ho'
        · exact absurd hid.symm hne
        · exact ⟨o, ho', hid⟩
      · cases hgoes
    · intro o ho
      obtain ⟨r, hr, hid, harena⟩ := hw.rows o (List.mem_cons_of_mem old ho)
      obtain ⟨r', hr', hid', harena'⟩ := hkept r hr
      exact ⟨r', hr', hid'.trans hid, harena'.trans harena⟩

/-! ### A new engine -/

/-- A statement of `start` that leaves the world alone. -/
theorem still {op : Op} (hF : Keeps maxClients ⟨true, none⟩ F) (hS : ∀ w, F w → S w)
    (hsafe : ∀ w, Safe op w) (hstill : ∀ env w, ∀ effect ∈ op.effects env w, effect.2 = w) :
    Spec maxClients digest false ⟨true, none⟩ F (await op) (fun _ => F) S := by
  refine Spec.mono (.act hF (fun w _ _ => hsafe w) ?_) (fun _ _ h => h) (fun _ _ _ h => h)
    fun w _ h => hS w h
  intro w outcome w' horderly _ _ hdoes
  rw [hdoes.still fun env => hstill env w]
  exact .refl _ _ horderly

/-- The socket of the match comes first. -/
theorem socketpair :
    Spec maxClients digest false ⟨true, none⟩
      (fun w => Starting arenaId m w ∧ Bare m run w)
      (await (.socketpair m)) (fun _ => Paired arenaId run m) (Starting arenaId m) := by
  have hT : Keeps maxClients ⟨true, none⟩ (Starting arenaId m) := Starting.keeps
  refine manage (hT.and Bare.keeps) (fun _ => Paired.keeps) hT (fun _ _ _ => trivial) ?_
  rintro w outcome w' horderly hlocked ⟨hstarting, hbare⟩ hdoes
  obtain ⟨env, heffect⟩ | ⟨⟨raised, rfl⟩, rfl⟩ := hdoes.plain rfl
  · rw [Op.effects, List.mem_singleton, Prod.mk.injEq] at heffect
    obtain ⟨rfl, rfl⟩ := heffect
    have hpass := horderly.socketpair hlocked hbare.made hstarting.own.named hstarting.alone
      (hstarting.own.pending hbare.unspawned)
    refine ⟨hpass, hlocked, fun _ _ => ⟨?_, ⟨hbare.made, ?_, ?_⟩, ?_⟩, fun _ h => by cases h⟩
    · exact hstarting.step horderly hpass.onward rfl rfl rfl
        (fun _ hm' => Function.update_of_ne hm' _ _) fun _ halive => .inl halive
    all_goals simp only [World.setMemory, Memory.setMatch, Function.update_self]
    · exact hbare.run_eq
    · exact hbare.unspawned
  · exact ⟨.refl _ _ horderly, hlocked, (fun _ h => by cases h), fun _ _ => hstarting⟩

/-- The journal is created before the engine. -/
theorem touch :
    Spec maxClients digest false ⟨true, none⟩ (Paired arenaId run m) (await (.touch m))
      (fun _ => Paired arenaId run m) (Starting arenaId m) := by
  refine Spec.mono (.act Paired.keeps (fun _ _ _ => trivial) ?_) (fun _ _ h => h)
    (fun _ _ _ h => h) fun _ _ h => h.starting
  intro w outcome w' horderly _ _ hdoes
  have hsame : ∃ touched, w' = { w with
      touched } := by
    obtain ⟨env, heffect⟩ | ⟨-, rfl⟩ := hdoes.plain rfl
    · simp only [Op.effects] at heffect
      split_ifs at heffect
      all_goals
        rw [List.mem_singleton, Prod.mk.injEq] at heffect
        exact ⟨_, heffect.2⟩
    · exact ⟨_, rfl⟩
  obtain ⟨touched, rfl⟩ := hsame
  exact .of_memory horderly rfl rfl (.refl _) (fun _ => .inl rfl) (fun _ _ h => .inl h)
    (fun _ _ => ⟨rfl, fun h => h⟩) fun _ hfree => .inl ⟨hfree, by simp⟩

/-- The new engine is the only one of the arena. -/
theorem spawn :
    Spec maxClients digest false ⟨true, none⟩ (Paired arenaId run m) (await (.spawn m))
      (fun _ w => Starting arenaId m w ∧ Hosted m w) (Starting arenaId m) := by
  have hT : Keeps maxClients ⟨true, none⟩ (Starting arenaId m) := Starting.keeps
  refine manage Paired.keeps (fun _ => hT.and Hosted.keeps) hT (fun _ _ _ => trivial) ?_
  rintro w outcome w' horderly hlocked ⟨hstarting, hbare, hsocket⟩ hdoes
  obtain ⟨env, heffect⟩ | ⟨⟨raised, rfl⟩, rfl⟩ := hdoes.plain rfl
  · rw [Op.effects, List.mem_singleton, Prod.mk.injEq] at heffect
    obtain ⟨rfl, rfl⟩ := heffect
    have hpass := horderly.spawn hlocked hstarting.own hsocket hbare.unspawned hstarting.going
      (hstarting.lonely horderly hbare.unspawned) rfl
    refine ⟨hpass, hlocked, fun _ _ => ⟨?_, ⟨hbare.made, ?_⟩, hpass.onward.own m hstarting.own⟩,
      fun _ h => by cases h⟩
    · refine hstarting.step horderly hpass.onward rfl rfl rfl
        (fun _ hm' => Function.update_of_ne hm' _ _) fun run' halive => ?_
      by_cases hself : run' = (w.memory.objects m).run
      · exact .inr hself
      · refine .inl ?_
        unfold World.alive at halive ⊢
        rwa [show ((w.setEngine (w.memory.objects m).run .new).setMemory _).engines run' =
          w.engines run' from Function.update_of_ne hself _ _] at halive
    · simp only [World.setMemory, Memory.setMatch, Function.update_self]
  · exact ⟨.refl _ _ horderly, hlocked, (fun _ h => by cases h), fun _ _ => hstarting⟩

/-- `start`. -/
theorem start :
    Spec maxClients digest false ⟨true, none⟩
      (fun w => Starting arenaId m w ∧ Bare m run w) (Server.start m)
      (fun _ w => Starting arenaId m w ∧ Hosted m w) (Starting arenaId m) := by
  have hT : Keeps maxClients ⟨true, none⟩ (Starting arenaId m) := Starting.keeps
  have hP : Keeps maxClients ⟨true, none⟩ (Paired arenaId run m) := Paired.keeps
  have hH := hT.and (@Hosted.keeps maxClients ⟨true, none⟩ m)
  refine .bind socketpair fun _ => .bind (still hP (fun _ h => h.starting) (fun _ => trivial) ?_)
    fun _ => .bind (still hP (fun _ h => h.starting) (fun _ => trivial) ?_) fun _ =>
      .bind touch fun _ => .bind spawn fun _ =>
        .bind (still hH (fun _ h => h.1) (fun _ => trivial) ?_) fun _ =>
          .memory hH hT (fun _ hw => hw.1) fun w _ _ => ?_
  · simp [Op.effects]
  · simp [Op.effects]
  · intro env w effect heffect
    simp only [Op.effects] at heffect
    split_ifs at heffect
    · exact (List.mem_singleton.mp heffect) ▸ rfl
    · cases heffect
  · refine Spec.pre (G := fun w => Starting arenaId m w ∧ Hosted m w) ?_ fun _ _ hw => hw.1
    refine .bind (still hH (fun _ h => h.1) (fun _ => trivial) (by simp [Op.effects]))
      fun ended => ?_
    split
    · exact .refuse hH fun _ _ hw => hw.1
    · exact .pure hH fun _ _ hw => hw

end Spec

end QuakeJs.Server
