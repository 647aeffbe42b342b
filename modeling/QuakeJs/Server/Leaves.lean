import QuakeJs.Server.Ensures

/-!
# Players who leave

`finish_leave` has a barrier: it revokes the lives that the player has in the
run, reads the rest of the journal, and only then lets the refund be queued.
By then no engine can end one of these lives, and no line that waits to be
applied names one: they are `Barred`.
-/

namespace QuakeJs.Server

open Async Engine Ledger

/-- No match but this one is served in the arena. -/
structure Serves (arenaId : Uid) (m : MatchId) (w : World) : Prop where
  tidy : Tidy none w
  only : ∀ m', w.memory.serving.lookup arenaId = some m' → m' = m
  own : Own m w

/-- The player is leaving, or has left. -/
def Leaving (player : Participant) (w : World) : Prop :=
  ∃ p ∈ w.ledger.participants, p.id = player.id ∧ p.arenaId = player.arenaId ∧
    p.leaveState ≠ .none

/-- It holds of each life that the player has in the run. -/
def OfLives (playerId run : Uid) (P : Uid → World → Prop) (w : World) : Prop :=
  ∀ l ∈ w.ledger.lives, l.playerId = playerId → l.runId = run → l.status = .alive → P l.id w

/-- The lives of the player in the run that are not revoked yet, at the barrier. -/
def Fenced (m : MatchId) (arenaId : Uid) (player : Participant) (run : Uid) (lives : List Life)
    (w : World) : Prop :=
  ((Serves arenaId m w ∧ Hosted m w) ∧ Leaving player w) ∧ (w.memory.objects m).run = run ∧
    OfLives player.id run (fun id w => Banned run id w ∨ ∃ l ∈ lives, l.id = id) w

section

variable {maxClients : Nat} {v : View} {w w' : World} {m : MatchId} {arenaId playerId run : Uid}
  {player : Participant}

theorem Serves.keeps : Keeps maxClients ⟨true, none⟩ (Serves arenaId m) := by
  intro w w' halong h
  exact ⟨Tidy.keeps none w w' halong h.tidy,
    fun m' hm' => h.only m' ((halong.held rfl).shrinks _ _ hm'), halong.onward.own m h.own⟩

theorem Serves.halted (h : Serves arenaId m w)
    (hdead : w.alive (w.memory.objects m).run = false) : Halted arenaId w :=
  ⟨h.tidy, fun m' hlookup => h.only m' hlookup ▸ hdead⟩

theorem Leaving.keeps : Keeps maxClients v (Leaving player) := by
  rintro w w' halong ⟨p, hp, hid, harena, hleaves⟩
  obtain ⟨p', hp', hid', harena', hstays⟩ := halong.onward.progress.players p hp
  exact ⟨p', hp', hid'.trans hid, harena'.trans harena, hstays hleaves⟩

theorem Leaving.quitting (h : Leaving player w) : Quitting w.ledger player.id := by
  obtain ⟨p, hp, hid, -, hleaves⟩ := h
  exact ⟨p, hp, hid, hleaves⟩

/-- A player who leaves gets no more lives in a run. -/
theorem OfLives.mono {P Q : Uid → World → Prop} (h : OfLives playerId run P w)
    (hprogress : Progress w.ledger w'.ledger) (hquits : Quitting w.ledger playerId)
    (hPQ : ∀ id, P id w → Q id w') : OfLives playerId run Q w' := by
  intro l' hl' hplayer hhere halive
  obtain ⟨l, hl, hid, hplayer', hhere', hwas⟩ := hprogress.lives l' hl' (hplayer ▸ hquits)
  exact hid ▸ hPQ l.id (h l hl (hplayer'.trans hplayer) (hhere'.trans hhere) (hwas halive))

theorem Fenced.keeps {lives : List Life} :
    Keeps maxClients ⟨true, some m⟩ (Fenced m arenaId player run lives) := by
  rintro w w' halong ⟨⟨⟨hserves, hhosted⟩, hleaving⟩, hrun, hfenced⟩
  refine ⟨⟨⟨?_, Hosted.keeps w w' halong hhosted⟩, Leaving.keeps w w' halong hleaving⟩, ?_, ?_⟩
  · exact Serves.keeps w w' (halong.forget (.inr rfl)) hserves
  · exact (halong.onward.objects m hhosted.live.made).run.trans hrun
  · refine hfenced.mono halong.onward.progress hleaving.quitting fun id hid => hid.imp_left ?_
    rw [← hrun]
    exact (halong.attended m rfl).banned hhosted.live id

/-- The row of a run of a player who leaves is one of the arena. -/
theorem Leaving.row (h : Leaving player w) (horderly : Orderly maxClients w) {r : Run}
    (hr : r ∈ runsOf w.ledger player.id) : r ∈ w.ledger.runs ∧ r.arenaId = player.arenaId := by
  obtain ⟨hmem, hp⟩ := Table.mem_select.mp hr
  rw [Bool.and_eq_true] at hp
  obtain ⟨l, hl, hhere⟩ := Table.any_eq_true.mp hp.2
  rw [Bool.and_eq_true, decide_eq_true_eq, decide_eq_true_eq] at hhere
  obtain ⟨q, hq, hqid, hqarena⟩ := horderly.sane.books.home l hl
  obtain ⟨p, hp', hpid, hparena⟩ := (Accounts.of_reachable horderly.sane.reach).lifePlayer hl
  obtain ⟨p', hp'', hpid', hparena', -⟩ := h
  have hrow : q = r := Table.mem_inj hq hmem (hqid.trans hhere.1)
  have hplayer : p = p' := Table.mem_inj hp' hp'' (hpid.trans (hhere.2.trans hpid'.symm))
  refine ⟨hmem, ?_⟩
  rw [← hrow, hqarena, ← hparena, hplayer, hparena']

end

namespace Spec

variable {maxClients : Nat} {digest : String → String} {exposed : Bool} {m : MatchId}
  {arenaId : Uid} {player : Participant}

/-- One of the lives is revoked. -/
theorem revokeLife {run : Uid} (w₀ : World) (l : Life) (lives : List Life)
    (hl : l ∈ w₀.ledger.lives)
    (hplayer : l.playerId = player.id) (hquits : Quitting w₀.ledger player.id) :
    Spec maxClients digest exposed ⟨true, some m⟩
      (fun w => Fenced m arenaId player run (l :: lives) w ∧ Along maxClients ⟨true, some m⟩ w₀ w)
      (Server.revokeLife m l)
      (fun _ w => Fenced m arenaId player run lives w ∧ Along maxClients ⟨true, some m⟩ w₀ w)
      (Fenced m arenaId player run (l :: lives)) := by
  let P := fun w => Fenced m arenaId player run (l :: lives) w ∧
    Along maxClients ⟨true, some m⟩ w₀ w
  let Q := fun w => Fenced m arenaId player run lives w ∧ Along maxClients ⟨true, some m⟩ w₀ w
  have hP : Keeps maxClients ⟨true, some m⟩ P := Fenced.keeps.and (.along w₀)
  have hQ : Keeps maxClients ⟨true, some m⟩ Q := Fenced.keeps.and (.along w₀)
  have hS : Keeps maxClients ⟨true, some m⟩ (Fenced m arenaId player run (l :: lives)) :=
    Fenced.keeps
  have hweak : ∀ w, Fenced m arenaId player run lives w →
      Fenced m arenaId player run (l :: lives) w := by
    rintro w ⟨hbase, hrun, hfenced⟩
    refine ⟨hbase, hrun, fun l' hl' hp hhere halive =>
      (hfenced l' hl' hp hhere halive).imp_right ?_⟩
    rintro ⟨x, hx, hid⟩
    exact ⟨x, List.mem_cons_of_mem l hx, hid⟩
  have hfence : Spec maxClients digest exposed ⟨true, some m⟩ P (control m 3 l.slot [] .leaving)
      (fun _ w => P w ∧ Q w) P := by
    refine fence rfl hP hQ (fun w hw => hw.1.1.1.2.live) (.inl rfl) ?_
    rintro w horderly ⟨⟨hbase, hrun, hfenced⟩, halong⟩ hbanned
    refine ⟨⟨hbase, hrun, fun l' hl' hp hhere halive => ?_⟩, halong⟩
    rcases hfenced l' hl' hp hhere halive with hban | ⟨x, hx, hid⟩
    · exact .inl hban
    · rcases List.mem_cons.mp hx with rfl | hrest
      · refine .inl ?_
        rw [← hrun, ← hid]
        -- The slot of the life is the one that it had when the player was leaving.
        refine hbanned x.id fun l'' hl'' hid'' => ?_
        obtain ⟨q, hq, hqid, -, hslot⟩ := halong.onward.progress.slots x hl (hplayer ▸ hquits)
        have hsame : l'' = q := Table.mem_inj hl'' hq (hid''.trans hqid.symm)
        rw [hsame, hslot]
      · exact .inr ⟨x, hrest, hid⟩
  have hwrite : ∀ x : Write, (∀ w, x.Quiet w) → Spec maxClients digest exposed ⟨true, some m⟩ Q
      (Server.write x) (fun _ => Q) (Fenced m arenaId player run (l :: lives)) :=
    fun x hx => .write hQ hQ hS (fun w _ _ => hx w) fun _ _ hw => hw
  refine .bind (hfence.mono (fun _ _ h => h) (fun _ _ _ h => h.2) fun _ _ h => h.1) fun _ => ?_
  refine .memory hQ hS (fun w hw => hweak w hw.1) fun w _ _ => ?_
  refine Spec.pre (G := Q) ?_ fun _ _ hw => hw.1
  cases (w.memory.objects m).peers.lookup l.slot with
  | none => exact .pure hQ fun _ _ hw => hw
  | some c =>
    exact .bind (hwrite (.popPeer m l.slot) fun _ => trivial) fun _ =>
      hwrite (.clearLife c) fun _ => trivial

/-- `finish_leave` under the lock of a match: when the refund is queued, the
lives of the player are barred. -/
theorem barrier (fuel : Nat) :
    Spec maxClients digest exposed ⟨true, some m⟩
      (fun w => (Serves arenaId m w ∧ Hosted m w) ∧ Leaving player w)
      (Server.barrier fuel m player.id) (fun _ => Serves arenaId m) (Serves arenaId m) := by
  have hS : Keeps maxClients ⟨true, some m⟩ (Serves arenaId m) :=
    Keeps.forget (v := ⟨true, some m⟩) Serves.keeps
  have hB : Keeps maxClients ⟨true, some m⟩ fun w =>
      (Serves arenaId m w ∧ Hosted m w) ∧ Leaving player w :=
    (hS.and Hosted.keeps).and Leaving.keeps
  refine .memory hB hS (fun _ hw => hw.1.1) fun s _ hs => ?_
  refine .ledger (hB.and (.along s)) hS (fun _ hw => hw.1.1.1) fun w₀ horderly₀ hw₀ => ?_
  have hrun₀ : (w₀.memory.objects m).run = (s.memory.objects m).run :=
    (hw₀.2.onward.objects m hs.1.2.live.made).run
  let run := (s.memory.objects m).run
  have hinit : Fenced m arenaId player run (livesIn w₀.ledger player.id run) w₀ := by
    refine ⟨hw₀.1, hrun₀, fun l hl hp hhere halive => .inr ⟨l, ?_, rfl⟩⟩
    refine Table.mem_select.mpr ⟨hl, ?_⟩
    simp [hp, hhere, halive]
  have hmem : ∀ l ∈ livesIn w₀.ledger player.id run, l ∈ w₀.ledger.lives ∧
    l.playerId = player.id := by
    intro l hl
    obtain ⟨hl', hp⟩ := Table.mem_select.mp hl
    rw [Bool.and_eq_true, Bool.and_eq_true, decide_eq_true_eq] at hp
    exact ⟨hl', hp.1.1⟩
  let I := fun lives w => (Fenced m arenaId player run lives w ∧
    Along maxClients ⟨true, some m⟩ w₀ w) ∧
    ∀ l ∈ lives, l ∈ w₀.ledger.lives ∧ l.playerId = player.id
  have hI : ∀ lives, Keeps maxClients ⟨true, some m⟩ (I lives) :=
    fun lives => (Fenced.keeps.and (.along w₀)).and (.const _)
  have hloop := @forEach maxClients digest exposed ⟨true, some m⟩ (Serves arenaId m) _
    (Server.revokeLife m) I hI (fun l lives => by
      intro view w horderly hon
      obtain ⟨hl, hplayer⟩ := hon.holds.2 l List.mem_cons_self
      have hrest : ∀ x ∈ lives, x ∈ w₀.ledger.lives ∧ x.playerId = player.id :=
        fun x hx => hon.holds.2 x (List.mem_cons_of_mem l hx)
      refine (@revokeLife maxClients digest exposed _ _ _ run w₀ l lives hl hplayer
        hw₀.1.2.quitting).mono (fun _ _ h => h.1) (fun _ _ _ h => ⟨h, hrest⟩)
        (fun _ _ h => h.1.1.1) view w horderly hon) (livesIn w₀.ledger player.id run)
  refine .bind (hloop.mono (fun w _ hw => ⟨⟨Fenced.keeps w₀ w hw.2 hinit, hw.2⟩, hmem⟩)
    (fun _ _ _ h => h.1.1) fun _ _ h => h) fun _ => ?_
  let D := Fenced m arenaId player run []
  have hD : Keeps maxClients ⟨true, some m⟩ D := Fenced.keeps
  let E := fun w => D w ∧ OfLives player.id run (Barred run) w
  have hE : Keeps maxClients ⟨true, some m⟩ E := by
    rintro w w' halong ⟨hd, hbarred⟩
    refine ⟨hD w w' halong hd, hbarred.mono halong.onward.progress
      hd.1.2.quitting fun id hid => ?_⟩
    rw [← hd.2.1] at hid ⊢
    exact (halong.attended m rfl).barred hd.1.1.2.live id hid
  have hreads : Reads maxClients ⟨true, some m⟩ m D :=
    ⟨hD, fun _ hw => hw.1.1.2.live.made, fun _ _ _ => rfl⟩
  have hdrain := @drainJournal maxClients digest exposed _ _ _ _ hreads hE (fun w _ hw hnone => by
    refine ⟨hw, fun l hl hp hhere halive => ?_⟩
    rw [hw.2.1] at hnone
    refine ⟨?_, by rw [hnone]; exact fun _ hline => absurd hline List.not_mem_nil⟩
    rcases hw.2.2 l hl hp hhere halive with hban | ⟨x, hx, -⟩
    · exact hban
    · cases hx) fuel
  have hfinish : Spec maxClients digest exposed ⟨true, some m⟩ E
    (transact (.finishLeave player.id run))
      (fun _ => Serves arenaId m) (Serves arenaId m) := by
    have hdue : ∀ w, E w → Due (.finishLeave player.id run) w := by
      intro w hw
      refine ⟨trivial, (fun _ _ _ _ hcall => by cases hcall), (fun _ hcall => by cases hcall), ?_,
        fun _ _ _ hcall => by cases hcall⟩
      rintro _ _ ⟨⟩ l hl hp hhere halive
      exact hw.2 l hl hp hhere halive
    refine on_perform hE (fun _ => hS) hS (fun w _ hw => hdue w hw) ?_
    intro w outcome w' hon hdoes
    obtain ⟨⟨⟨⟨hserves, hhosted⟩, -⟩, hrun, -⟩, -⟩ := hon.holds
    have hpass : Passes maxClients false (some m) w w' := by
      refine hon.orderly.transact hdoes (hdue w hon.holds) ?_ ?_ ?_
      · rintro (⟨_, _, hcall⟩ | ⟨_, _, _, hcall⟩) <;> cases hcall
      · rintro run' hcall
        cases hcall
      · rintro _ _ ⟨⟩
        exact .inr ⟨m, rfl, hhosted.live, hrun.symm⟩
    have hsame : w'.memory = w.memory ∧ w'.engines = w.engines ∧ Tidy none w' := by
      obtain ⟨env, -, ⟨rfl, -⟩ | ⟨result, σ', -, rfl, -⟩⟩ := transact_cases hdoes
      · exact ⟨rfl, rfl, hserves.tidy⟩
      · exact ⟨rfl, rfl, hserves.tidy.commit σ'⟩
    have howns : View.Owns ⟨true, some m⟩ w' := by
      refine ⟨fun _ => ?_, fun m' hm' => ?_⟩
      · rw [hsame.1]
        exact hon.owns.manager rfl
      · obtain ⟨hmade, hlocked⟩ := hon.owns.game m' hm'
        refine ⟨?_, ?_⟩
        all_goals rw [hsame.1]
        · exact hmade
        · exact hlocked
    have hlink : ∀ m', (⟨true, some m⟩ : View).game = some m' → Link maxClients m' .idle w' := by
      intro m' hm'
      refine (hon.link m' hm').drifts (.of_engine ?_ ?_ ?_ (congrFun hsame.2.1 _))
      all_goals rw [hsame.1]
      · exact .refl _
    have hafter : Serves arenaId m w' := by
      refine ⟨hsame.2.2, ?_, hpass.onward.own m hserves.own⟩
      rw [hsame.1]
      exact hserves.only
    exact ⟨false, some m, hpass, fun h => (by cases h), fun _ h => h, howns,
      fun _ _ => ⟨hlink, hafter⟩, fun _ _ => ⟨hlink, hafter⟩⟩
  refine .bind (hdrain.mono (fun _ _ h => h) (fun _ _ _ h => h.2)
    fun _ _ h => h.1.1.1) fun _ => ?_
  exact .bind hfinish fun _ => .use hS

end Spec

end QuakeJs.Server
