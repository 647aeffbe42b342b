import QuakeJs.Ledger.Binding
import QuakeJs.Server.Steps
import QuakeJs.Server.System

/-!
# The transactions and the world

`Due` is what a transaction of `server.py` needs.  With it a transaction keeps
the world orderly, and disturbs those who hold a lock only where it may.  What
happens besides the tasks disturbs nobody, and a crash keeps the world orderly.
-/

namespace QuakeJs.Server

open Async Engine Ledger

/-- The action of a transaction. -/
def Transaction.action : Transaction → Action
  | consumeDeath runId sequence victimId killerId =>
      .consumeDeath runId sequence victimId killerId
  | allocateLife arenaId token runId => .allocateLife arenaId token runId
  | requestLeave arenaId token => .requestLeave arenaId token
  | finishLeave playerId revokedRun => .finishLeave playerId revokedRun
  | leaseArena worker arenaId => .leaseArena worker arenaId
  | insertRun runId arenaId worker => .insertRun runId arenaId worker
  | recoverRun runId => .recoverRun runId
  | recoverLeavingRun arenaId runId => .recoverLeavingRun arenaId runId
  | stopRun arenaId worker runId => .stopRun arenaId worker runId
  | renewLease worker arenaId runId connected => .renewLease worker arenaId runId connected

theorem committed_ok {result : Except LedgerError Ledger} {σ : Ledger}
    (h : committed result = .ok ((), σ)) : result = .ok σ := by
  cases result with
  | ok σ' =>
    cases h
    rfl
  | error e => cases h

theorem Transaction.performs {env : Env} {t : Transaction} {σ σ' : Ledger} {result : t.Result}
    (h : t.run env σ = .ok (result, σ')) : perform env t.action σ = .ok σ' := by
  cases t with
  | consumeDeath runId sequence victimId killerId =>
    exact congrArg (Except.map Prod.snd) h
  | allocateLife arenaId token runId => exact congrArg (Except.map Prod.snd) h
  | requestLeave arenaId token => exact congrArg (Except.map Prod.snd) h
  | finishLeave playerId revokedRun => exact committed_ok h
  | leaseArena worker arenaId =>
    cases hlease : Ledger.leaseArena env worker arenaId σ with
    | error e => simp [Transaction.run, hlease, Except.map] at h
    | ok leased =>
      simp only [Transaction.run, hlease, Except.map, Except.ok.injEq, Prod.mk.injEq] at h
      simp [Transaction.action, perform, hlease, Except.map, h.2]
  | insertRun runId arenaId worker => exact committed_ok h
  | recoverRun runId =>
    cases h
    rfl
  | recoverLeavingRun arenaId runId => exact committed_ok h
  | stopRun arenaId worker runId => exact committed_ok h
  | renewLease worker arenaId runId connected => exact committed_ok h

/-- What a transaction needs. -/
structure Due (a : Action) (w : World) : Prop where
  fits : Fits w.journal w.ledger a
  /-- A death is the next line of the journal at the latest. -/
  next : ∀ runId sequence victimId killerId, a = .consumeDeath runId sequence victimId killerId →
    sequence ≤ (w.applied runId).length + 1
  settled : ∀ run, a.releases = some run → Settled run w
  /-- The lives that a leave refunds cannot be ended any more. -/
  barred : ∀ playerId run, a = .finishLeave playerId run → ∀ l ∈ w.ledger.lives,
    l.playerId = playerId → l.runId = run → l.status = .alive → Barred run l.id w
  /-- A run that gets lives has had an engine. -/
  launched : ∀ arenaId token runId, a = .allocateLife arenaId token runId → w.engines runId ≠ none

/-- Neither a death nor a leave nor an admission. -/
def Ordinary : Action → Bool
  | .consumeDeath .. | .finishLeave .. | .allocateLife .. => false
  | _ => true

theorem Due.of_ordinary {a : Action} {w : World} (hordinary : Ordinary a = true)
    (hfits : Fits w.journal w.ledger a) (hsettled : ∀ run,
      a.releases = some run → Settled run w) :
    Due a w where
  fits := hfits
  next := by
    rintro runId sequence victimId killerId rfl
    cases hordinary
  settled := hsettled
  barred := by
    rintro playerId run rfl
    cases hordinary
  launched := by
    rintro arenaId token runId rfl
    cases hordinary

/-- The transactions that need the manager's lock in any case. -/
def OfLeases (a : Action) : Prop :=
  (∃ worker arenaId, a = .leaseArena worker arenaId) ∨
    ∃ runId arenaId worker, a = .insertRun runId arenaId worker

section

variable {maxClients : Nat} {w w' : World}

/-- The lines of every journal are numbered. -/
theorem Sane.numbered (h : Sane maxClients w) (run : Uid) : Numbered (w.journal run) := by
  cases he : w.engines run with
  | none =>
    rw [journal_of_none he]
    rfl
  | some e =>
    rw [journal_of_some he]
    exact (h.engines run e he).kept.chronicle.numbered

/-- Nobody gets into a match whose run is settled. -/
theorem Settled.shuts {run : Uid} (h : Settled run w) (hsane : Sane maxClients w) {m : MatchId}
    (hm : Live m w) (hrun : (w.memory.objects m).run = run) :
    (w.memory.objects m).closed = true ∨ Exited run w := by
  rcases h.still with hnone | hexited | hshut
  · exact absurd (hrun ▸ hnone) (hsane.started m hm.spawned).2
  · exact .inr hexited
  · exact .inl (hshut.cut m (hsane.live_socket hm) hrun)

/-- A match whose run is not released can be entered as before. -/
theorem Going.stays {env : Env} {a : Action} {σ' : Ledger} {m : MatchId} (h : Going m w)
    (hrun : perform env a w.ledger = .ok σ') :
    Going m { w with
      ledger := σ' } ∨ a.releases = some (w.memory.objects m).run := by
  rcases h with ⟨r, hr, hid, hgoes⟩ | hclosed
  · rcases running_stays hrun hr hgoes with hreleased | ⟨r', hr', hid', hgoes'⟩
    · exact .inr (hid ▸ hreleased)
    · exact .inl (.inl ⟨r', hr', hid'.trans hid, hgoes'⟩)
  · exact .inl (.inr hclosed)

section

variable {env : Env} {a : Action} {σ' : Ledger} (h : Orderly maxClients w) (hdue : Due a w)
  (hrun : perform env a w.ledger = .ok σ')

include h hdue hrun

theorem Orderly.commits (hfresh : env.Fresh w.ledger) : Commits w σ' where
  reach := h.sane.reach.step env a hfresh hrun
  progress := .of_perform hrun
  books := h.sane.books.step h.sane.numbered h.sane.reach hfresh hdue.fits hrun
  launched := by
    intro l' hl'
    rcases (perform_lifeTurns hrun).new l' hl' with ⟨l, hl, -, hturn⟩ | hnew
    · have hbefore := h.sane.launched l hl
      cases hturn with
      | same => exact hbefore
      | killed sequence killerId call undead => exact hbefore
      | refunded revokedRun call playable here => exact hbefore
      | orphaned alive call => exact hbefore
      | heard worker arenaId runId connected call mem alive => exact hbefore
      | resumed arenaId token runId slot call playable elsewhere =>
        exact hdue.launched arenaId token runId call
    · obtain ⟨token, hcall⟩ := hnew.call
      exact hdue.launched _ token _ hcall

/-- What the holder of the lock of a match attends to. -/
theorem Orderly.attended {m : MatchId} (hleaves : ∀ playerId run, a = .finishLeave playerId run →
      run = "" ∨ ∃ m', m' ≠ m ∧ Live m' w ∧ run = (w.memory.objects m').run) :
    Attended m w { w with
      ledger := σ' } := by
  refine ⟨fun ht => ⟨ht.made, ht.locked⟩, ?_, fun _ _ hbanned => hbanned, ?_⟩
  · intro hm peer id hseatable
    rcases hseatable with hseated | hrest
    · rcases hseated.stays h.sane.books (.of_reachable h.sane.reach) hdue.fits hrun with
        hstays | hreleased | ⟨l, hl, -, hhere, -, hcall⟩
      · exact .inl hstays
      · exact .inr ((hdue.settled _ hreleased).shuts h.sane hm rfl)
      · rcases hleaves _ _ hcall with hempty | ⟨m', hne, hm', hsame⟩
        · exact absurd hempty (h.sane.live_named hm)
        · exact absurd hsame (h.sane.live_run hm' (h.sane.live_socket hm) (Ne.symm hne))
    · exact .inr hrest
  · intro _ id hbarred
    refine ⟨hbarred.banned, fun line hline => hbarred.lines line ?_⟩
    have hle := ((Further.of_perform hrun).applied w.journal (w.memory.objects m).run).length_le
    have hsame : ({ w with
        ledger := σ' } : World).journal (w.memory.objects m).run =
          w.journal (w.memory.objects m).run ++ [] := (List.append_nil _).symm
    exact (unapplied_of hsame hle hline).resolve_right List.not_mem_nil

/-- A transaction that has what it needs. -/
theorem Orderly.commit {manager : Bool} {game : Option MatchId} (hfresh : env.Fresh w.ledger)
    (hvalid : validId (env.uid 0) = true) (hmoves : OfLeases a → manager = true)
    (hreleases : ∀ run, a.releases = some run → manager = true ∨
      ∃ m < w.memory.created, (w.memory.objects m).run = run ∧ (w.memory.objects m).closed = true)
    (hleaves : ∀ playerId run, a = .finishLeave playerId run →
      run = "" ∨ ∃ m, game = some m ∧ Live m w ∧ run = (w.memory.objects m).run) :
    Passes maxClients manager game w { w with
      ledger := σ' } := by
  have hcommits := h.commits hdue hrun hfresh
  have hengines : EnginesGo maxClients w { w with
      ledger := σ' } := .of_eq h.sane.engines rfl
  have honward : Onward w { w with
      ledger := σ' } := .calm (.refl _) hengines hcommits.progress
  have hlink : ∀ m stage, Link maxClients m stage w → Link maxClients m stage { w with
      ledger := σ' } := fun m stage hl => ⟨hl.spawned, hl.unspawned⟩
  have howed := h.owed.perform h.sane.books (.of_reachable h.sane.reach)
    hdue.fits hrun hdue.settled
    hdue.barred
  refine ⟨⟨?_, fun m hfree => hlink m _ (h.links m hfree), howed, ?_, ?_⟩, honward, ?_, ?_⟩
  · exact h.sane.calm (.refl _) hengines hcommits (fun _ => .inl rfl) fun _ _ hhost => .inl hhost
  · intro l' hl'
    rcases (perform_lifeTurns hrun).new l' hl' with ⟨l, hl, hid, -⟩ | hnew
    · have hid : l'.id = l.id := hid
      rw [hid]
      exact h.ids l hl
    · rw [hnew.id]
      exact hvalid
  · intro m hm
    have hbefore : Live m w := ⟨hm.made, hm.spawned⟩
    rcases h.going m hbefore with hgoing | hexited
    · rcases hgoing.stays hrun with hstays | hreleased
      · exact .inl hstays
      · exact ((hdue.settled _ hreleased).shuts h.sane hbefore rfl).imp
          .inr fun hexited => hexited
    · exact .inr hexited
  · intro hfree
    have hstill : ¬OfLeases a := fun hmoves' => by simp [hmoves hmoves'] at hfree
    refine .calm (.refl _) hengines ?_ ?_ ?_
    · intro b hb
      obtain ⟨b', hb', hid, hmove⟩ := (perform_moves hrun).old b hb
      rcases hmove.run with hsame | ⟨-, -, worker, hcall⟩
      · exact ⟨b', hb', hid, hsame⟩
      · exact absurd (.inl ⟨worker, b.id, hcall⟩) hstill
    · intro r' hr'
      rcases (perform_runs hrun).new r' hr' with ⟨r, hr, hid, hturn⟩ | hnew
      · exact ⟨r, hr, hid.symm, hturn.kept.1.symm, hturn.kept.2.2⟩
      · exact absurd (.inr ⟨_, _, _, hnew.call⟩) hstill
    · rintro run ⟨r, hr, rfl, hgoes⟩
      rcases running_stays hrun hr hgoes with hreleased | ⟨r', hr', hid, hgoes'⟩
      · rcases hreleases _ hreleased with htrue | hclosed
        · simp [htrue] at hfree
        · exact .inr hclosed
      · exact .inl ⟨r', hr', hid, hgoes'⟩
  · intro m hm
    refine ⟨h.attended hdue hrun fun playerId run hcall => ?_, hlink m⟩
    refine (hleaves playerId run hcall).imp_right ?_
    rintro ⟨m', hgame, hm', hsame⟩
    exact ⟨m', fun heq => hm (heq ▸ hgame), hm', hsame⟩

end

/-! ## What happens besides -/

/-- One engine goes on, and the parent may read from it. -/
theorem Passes.evolve (h : Orderly maxClients w) {run : Uid} {e e' : EngineProcess} {s : Memory}
    (he : w.engines run = some e) (hevolves : Evolves maxClients (fun _ => False) e e')
    (hcalm : Calm w.memory s) (hconnections : s.connections = w.memory.connections)
    (hfields : ∀ m, (s.objects m).offset = (w.memory.objects m).offset ∧
      (s.objects m).locked = (w.memory.objects m).locked)
    (hdrifts : ∀ m, (w.memory.objects m).spawned = true → (w.memory.objects m).run = run →
      Drifts maxClients (w.memory.objects m) e (s.objects m) e')
    (hacks : ∀ m, ((w.memory.objects m).spawned = true → (w.memory.objects m).run ≠ run) →
      (s.objects m).acks = (w.memory.objects m).acks) :
    Passes maxClients false none w ((w.setEngine run e').setMemory s) := by
  have hengines : ∀ run', run' ≠ run → (w.setEngine run e').engines run' = w.engines run' :=
    fun run' hne => Function.update_of_ne hne _ _
  have hcalms : Calms maxClients (fun _ _ => False) w ((w.setEngine run e').setMemory s) := by
    refine ⟨rfl, hcalm, ⟨?_, ?_⟩, fun _ _ hsent => hsent.elim,
      fun _ _ _ _ _ _ hsent => hsent.elim⟩
    · intro run' hnone
      have hne : run' ≠ run := by
        intro heq
        rw [heq, he] at hnone
        cases hnone
      exact (hengines run' hne).trans hnone
    · intro run' e'' he''
      by_cases hrun : run' = run
      · subst hrun
        rw [he, Option.some.injEq] at he''
        exact ⟨e', Function.update_self _ _ _, he'' ▸ hevolves⟩
      · exact ⟨e'', (hengines run' hrun).trans he'', .same⟩
  have hdrifting : ∀ m, Drifting maxClients m w ((w.setEngine run e').setMemory s) := by
    intro m
    refine ⟨(hcalm.objects m).run, (hcalm.kept m).2, ?_, ?_⟩
    · intro hspawned e'' he''
      by_cases hrun : (w.memory.objects m).run = run
      · rw [hrun] at he'' ⊢
        simp only [World.setMemory, World.setEngine, Function.update_self,
          Option.some.injEq] at he''
        exact ⟨e, he, he'' ▸ hdrifts m hspawned hrun⟩
      · exact ⟨e'', (hengines _ hrun).symm.trans he'',
          .kept _ (hacks m fun _ => hrun) (hcalm.objects m).closed⟩
    · intro hunspawned key hnone
      exact (congrFun (hacks m fun hspawned => by simp [hunspawned] at hspawned) key).trans hnone
  refine ⟨hcalms.keeps h (fun m => .inl (hfields m).1) ?_ ?_, hcalms.onward h,
    fun _ => hcalms.held h, fun m _ => ⟨?_, fun stage hlink => hlink.drifts (hdrifting m)⟩⟩
  · intro c m hhost
    exact .inl (hconnections ▸ hhost)
  · exact fun m hfree => (h.links m ((hfields m).2.symm.trans hfree)).drifts (hdrifting m)
  · exact hcalms.attended h (fun hl => (hfields m).2.trans hl) fun _ _ _ hsent => hsent

theorem Orderly.receive (h : Orderly maxClients w) {m : MatchId}
    (hreceive : w.receive m = some w') :
    Passes maxClients false none w w' := by
  unfold World.receive at hreceive
  cases he : w.engines (w.memory.objects m).run with
  | none => simp [he] at hreceive
  | some e =>
    cases houtbox : e.outbox with
    | nil => simp [he, houtbox] at hreceive
    | cons packet rest =>
      simp only [he, houtbox] at hreceive
      split_ifs at hreceive with hspawned
      cases hreceive
      have hsame : ∀ M : Match, (M.receive packet).run = M.run ∧
          (M.receive packet).arenaId = M.arenaId ∧ (M.receive packet).closed = M.closed ∧
          (M.receive packet).spawned = M.spawned ∧ (M.receive packet).socket = M.socket ∧
          (M.receive packet).peers = M.peers ∧ (M.receive packet).offset = M.offset ∧
          (M.receive packet).locked = M.locked := by
        intro M
        simp only [Match.receive]
        split_ifs <;> exact ⟨rfl, rfl, rfl, rfl, rfl, rfl, rfl, rfl⟩
      obtain ⟨hrun, harena, hclosed, hspawned', hsocket, hpeers, -, -⟩ :=
        hsame (w.memory.objects m)
      have hself : (w.memory.setMatch m (Match.receive packet)).objects m =
          (w.memory.objects m).receive packet := Function.update_self _ _ _
      have hother : ∀ m', m' ≠ m → (w.memory.setMatch m (Match.receive packet)).objects m' =
          w.memory.objects m' := fun m' hm' => Function.update_of_ne hm' _ _
      refine .evolve h he .read (.setMatch ⟨hrun, harena, fun hc => hclosed.trans hc,
        fun hs => hspawned'.trans hs⟩ ⟨hsocket, hspawned'⟩ fun _ hp =>
          hpeers.trans hp) rfl ?_ ?_ ?_
      · intro m'
        by_cases hm' : m' = m
        · subst hm'
          rw [hself]
          exact (hsame _).2.2.2.2.2.2
        · rw [hother m' hm']
          exact ⟨rfl, rfl⟩
      · intro m' hlive hrun'
        have heq : m' = m := h.sane.sockets m' m (h.sane.started m' hlive).1
          (h.sane.started m hspawned).1 hrun'
        subst heq
        rw [hself]
        exact .receive packet rest houtbox
      · intro m' hne
        have hm' : m' ≠ m := by
          rintro rfl
          exact hne hspawned rfl
        rw [hother m' hm']

/-- What happens besides the tasks disturbs nobody. -/
theorem Orderly.happens (h : Orderly maxClients w)
    {digest : String → String} {happening : Happening}
    (hdraws : ∀ env a, happening = .game env a → Draws digest env w)
    (hstep : w.happen maxClients happening = some w') : Passes maxClients false none w w' := by
  cases happening with
  | engine run event =>
    obtain ⟨e', he', rfl⟩ := Option.map_eq_some_iff.mp hstep
    obtain ⟨e, he, hhandled⟩ := Option.bind_eq_some_iff.mp he'
    exact .evolve h he (.handled event e' hhandled) (.refl _) rfl (fun _ => ⟨rfl, rfl⟩)
      (fun m _ _ => .event event e' hhandled) fun _ _ => rfl
  | exit run =>
    obtain ⟨e, he, rfl⟩ := Option.map_eq_some_iff.mp hstep
    exact .evolve h he .exit (.refl _) rfl (fun _ => ⟨rfl, rfl⟩)
      (fun m _ _ => .exit) fun _ _ => rfl
  | receive m => exact h.receive hstep
  | ready m =>
    simp only [World.happen] at hstep
    split_ifs at hstep
    cases hstep
    exact .setField h m (fun M => { M with
      ready := true }) ⟨rfl, rfl, fun hc => hc, fun hs => hs⟩
        ⟨rfl, rfl⟩ (fun _ hp => hp) (.inl rfl)
      rfl rfl
  | disconnected m =>
    simp only [World.happen] at hstep
    split_ifs at hstep
    cases hstep
    exact .setField h m (fun M => { M with
      ready := true
      closed := true }) ⟨rfl, rfl, fun _ => rfl, fun hs => hs⟩ ⟨rfl, rfl⟩ (fun _ hp => hp)
      (.inl rfl) rfl rfl
  | game env a =>
    simp only [World.happen] at hstep
    split_ifs at hstep with hours
    have hfresh := hdraws env a rfl
    have hnone : ¬OfLeases a ∧ a.releases = none ∧ ∀ playerId run,
      a ≠ .finishLeave playerId run := by
      refine ⟨?_, ?_, ?_⟩
      · rintro (⟨worker, arenaId, rfl⟩ | ⟨runId, arenaId, worker, rfl⟩)
        · exact hours rfl
        · exact hours rfl
      · cases a <;> first | rfl | exact absurd rfl hours
      · rintro playerId run rfl
        exact hours rfl
    have hdue : Due a w := by
      refine ⟨?_, ?_, ?_, ?_, ?_⟩
      · cases a <;> trivial
      · rintro runId sequence victimId killerId rfl
        exact absurd rfl hours
      · simp [hnone.2.1]
      · exact fun playerId run hcall => absurd hcall (hnone.2.2 playerId run)
      · rintro arenaId token runId rfl
        exact absurd rfl hours
    cases hrun : perform env a w.ledger with
    | error e => simp [hrun, Except.toOption] at hstep
    | ok σ' =>
      simp only [hrun, Except.toOption, Option.map_some, Option.some.injEq] at hstep
      subst hstep
      exact h.commit hdue hrun hfresh.fresh hfresh.valid (fun hmoves => absurd hmoves hnone.1)
        (by simp [hnone.2.1]) fun playerId run hcall => absurd hcall (hnone.2.2 playerId run)

theorem Orderly.outside (h : Orderly maxClients w) {digest : String → String}
    (hstep : Outside digest maxClients w w') : Passes maxClients false none w w' := by
  cases hstep with
  | happens happening w' draws happens => exact h.happens draws happens
  | restarts worker maxMatches stopped fresh exited => exact h.restarted fresh exited

/-- A crash. -/
theorem Orderly.crashes (h : Orderly maxClients w) {visitors : ConnectionId → String × Uid}
    (hcrash : Crashes visitors w w') : Orderly maxClients w' ∧ Lasting w w' := by
  obtain ⟨hsane, hlasting⟩ := h.sane.crashes hcrash
  subst hcrash
  refine ⟨⟨hsane, fun m _ => .of_new rfl fun _ => rfl,
    h.owed.of_same rfl rfl, h.ids, ?_⟩, hlasting⟩
  intro m hm
  exact absurd hm.spawned (by simp [Memory.initial, Match.new])

/-- The world of a worker that has not done anything yet. -/
theorem Orderly.initial (maxClients : Nat) (visitors : ConnectionId → String × Uid) :
    Orderly maxClients (World.initial visitors) := by
  have hempty : ∀ run e, (World.initial visitors).engines run ≠ some e := by
    intro run e he
    cases he
  refine ⟨?_, fun m _ => .of_new rfl fun _ => rfl, ⟨?_, ?_⟩, ?_, ?_⟩
  · exact
      { reach := .empty
        books := .empty _
        engines := fun run e he => absurd he (hempty run e)
        known := fun _ hsome => absurd rfl hsome
        single := fun _ _ halive => by cases halive
        offsets := fun _ => ⟨0, rfl, Nat.zero_le _⟩
        rows := fun _ hnamed => absurd rfl hnamed
        blank := fun _ _ => ⟨rfl, rfl, rfl⟩
        started := fun _ hspawned => by cases hspawned
        peers := fun _ _ => rfl
        sockets := fun _ _ hsocket => by cases hsocket
        serving := fun _ _ hlookup => by simp [World.initial, Memory.initial] at hlookup
        hosts := fun _ _ hhost => by cases hhost
        launched := fun l hl => absurd hl (Table.not_mem_empty l)
        spawners := fun _ _ halive => by cases halive
        halted := fun _ => rfl
        counted := fun _ hk => by cases hk
        listed := fun _ hk => by cases hk
        stopping := fun _ hm => absurd hm List.not_mem_nil
        stopped := fun _ hm => absurd hm List.not_mem_nil
        tidy := fun _ => ⟨fun _ _ hlookup => by simp [World.initial, Memory.initial] at hlookup,
          fun _ hspawned => by cases hspawned⟩ }
  · intro run line hline
    cases hline
  · exact fun run e he => absurd he (hempty run e)
  · exact fun l hl => absurd hl (Table.not_mem_empty l)
  · exact fun m hm => absurd hm.spawned (by simp [World.initial, Memory.initial, Match.new])

end

end QuakeJs.Server
