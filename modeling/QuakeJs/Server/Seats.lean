import QuakeJs.Ledger.Retirement
import QuakeJs.Server.Books

/-!
# Lives in play

A life that an engine may still end is in the books as one of its run, alive or
dead by now, and the run goes on.  `Seated.stays` says which two transactions
take such a life out of the run: the release of the run, and the completion of
a leave with that run.

`Progress` is what every transaction leaves in place, in particular for a
player who is leaving: no life of that player gets into a run any more.
-/

namespace QuakeJs.Server

open Engine Ledger

variable {journal : Uid → List Line} {env : Env} {a : Action} {σ σ' : Ledger} {run id : Uid}
  {slot : Nat}

/-- The life is in the slot of a run that goes on, or has died there. -/
def Seated (σ : Ledger) (run : Uid) (slot : Nat) (id : Uid) : Prop :=
  (∃ r ∈ σ.runs, r.id = run ∧ r.status = .running) ∧
    ∃ l ∈ σ.lives, l.id = id ∧ l.runId = run ∧ l.slot = slot ∧
      (l.status = .alive ∨ l.status = .dead)

/-- A run goes on until it is released. -/
theorem running_stays (hrun : perform env a σ = .ok σ') {r : Run} (hr : r ∈ σ.runs)
    (hgoes : r.status = .running) :
    a.releases = some r.id ∨ ∃ r' ∈ σ'.runs, r'.id = r.id ∧ r'.status = .running := by
  obtain ⟨r', hr', hid, hturn⟩ := (perform_runs hrun).old r hr
  cases hturn with
  | same => exact .inr ⟨r, hr', rfl, hgoes⟩
  | advanced victim killerId call mem here => exact .inr ⟨_, hr', hid, hgoes⟩
  | ended status halted call => exact .inl call

/-- An admission writes to no life but those of its player, who is staying. -/
theorem allocateLife_writes {arenaId token runId : Uid} {life : Life}
    (hrun : allocateLife env arenaId token runId σ = .ok (life, σ')) {l' : Life}
    (hl' : l' ∈ σ'.lives) : l' ∈ σ.lives ∨
      ∃ p ∈ σ.participants, p.id = l'.playerId ∧ p.arenaId = arenaId ∧ p.leaveState = .none := by
  obtain ⟨_, -, -, -, -, player, hplayer, harena, -, hstay, hadmission⟩ := allocateLife_ok hrun
  cases hadmission with
  | again mem hp alive here eq =>
    rw [eq] at hl'
    exact .inl hl'
  | resume old current notHere entry funded slot free eq ledger =>
    rw [ledger] at hl'
    obtain ⟨hold, howner, -⟩ := currentLife_mem current
    rcases (Table.mem_updateKey (f := resumed env runId slot)).mp hl' with
      ⟨hmem, -⟩ | ⟨o, ho, hkey, rfl⟩
    · exact .inl hmem
    · have ho : o = old := Table.mem_inj ho hold hkey
      exact .inr ⟨player, hplayer, by rw [ho]; exact howner.symm, harena, hstay⟩
  | new noCurrent entry funded slot free eq lives insert ledger =>
    rw [ledger] at hl'
    rcases (Table.mem_insert? insert).mp hl' with hold | rfl
    · exact .inl hold
    · exact .inr ⟨player, hplayer, by rw [eq], harena, hstay⟩

/-- An admission does not take a life out of a run that goes on. -/
theorem Books.resumes (h : Books journal σ) {arenaId token runId : Uid}
    (hfits : Fits journal σ (.allocateLife arenaId token runId))
    (hrun : perform env (.allocateLife arenaId token runId) σ = .ok σ') {l : Life}
    (hl : l ∈ σ.lives) (harena : l.arenaId = arenaId)
    (hgoes : ∃ r ∈ σ.runs, r.id = l.runId ∧ r.status = .running) : l.runId = runId := by
  obtain ⟨life, hadmits⟩ := map_snd_ok hrun
  obtain ⟨row, hrow, -, hnamed, -⟩ := allocateLife_ok hadmits
  obtain ⟨hmem, hrowId⟩ := Table.get?_eq_some.mp hrow
  obtain ⟨s, hs, hsid⟩ := hfits
  obtain ⟨r, hr, hid, hrunning⟩ := hgoes
  obtain ⟨q, hq, hqid, hqarena⟩ := h.home l hl
  have hsame : q = r := Table.mem_inj hq hr (hqid.trans hid.symm)
  have hhere : r.arenaId = row.id := by
    rw [← hsame, hqarena, harena]
    exact hrowId.symm
  have hone := h.lone row hmem s hs (hnamed.trans hsid.symm) r hr hhere hrunning
  rw [← hid, hone, hsid]

/-- A life stays in play until its run is released or its player has left. -/
theorem Seated.stays (h : Seated σ run slot id) (hbooks : Books journal σ) (hacc : Accounts σ)
    (hfits : Fits journal σ a) (hrun : perform env a σ = .ok σ') :
    Seated σ' run slot id ∨ a.releases = some run ∨
      ∃ l ∈ σ.lives, l.id = id ∧ l.runId = run ∧ l.status = .alive ∧
        a = .finishLeave l.playerId run := by
  obtain ⟨⟨r, hr, hid, hgoes⟩, l, hl, hlid, hhere, hslot, hplays⟩ := h
  rcases running_stays hrun hr hgoes with hreleased | ⟨r', hr', hid', hgoes'⟩
  · exact .inr (.inl (hid ▸ hreleased))
  have hrow : ∃ r ∈ σ'.runs, r.id = run ∧ r.status = .running :=
    ⟨r', hr', hid'.trans hid, hgoes'⟩
  obtain ⟨l', hl', -, hturn⟩ := (perform_lifeTurns hrun).old l hl
  cases hturn with
  | same => exact .inl ⟨hrow, l, hl', hlid, hhere, hslot, hplays⟩
  | killed sequence killerId call undead =>
    exact .inl ⟨hrow, _, hl', hlid, hhere, hslot, .inr rfl⟩
  | heard worker arenaId runId connected call mem alive =>
    exact .inl ⟨hrow, _, hl', hlid, hhere, hslot, .inl alive⟩
  | orphaned alive call => exact .inr (.inl (hhere ▸ call))
  | refunded revokedRun call playable here =>
    have halive : l.status = .alive := by
      rcases hplays with halive | hdead
      · exact halive
      · simp [hdead, LifeStatus.open] at playable
    refine .inr (.inr ⟨l, hl, hlid, hhere, halive, ?_⟩)
    rw [call, ← here halive, hhere]
  | resumed arenaId token runId slot' call playable elsewhere =>
    have halive : l.status = .alive := by
      rcases hplays with halive | hdead
      · exact halive
      · simp [hdead, LifeStatus.open] at playable
    subst call
    obtain ⟨life, hadmits⟩ := map_snd_ok hrun
    rcases allocateLife_writes hadmits hl' with hold | ⟨p, hp, howner, harena, -⟩
    · have hsame : resumed env runId slot' l = l := Table.mem_inj hold hl rfl
      exact absurd ⟨halive, (congrArg Life.runId hsame).symm⟩ elsewhere
    · obtain ⟨q, hq, hqid, hqarena⟩ := hacc.lifePlayer hl
      have heq : q = p := Table.mem_inj hq hp (hqid.trans howner.symm)
      have hlife : l.arenaId = arenaId := by rw [← hqarena, heq, harena]
      have hrunning : ∃ r ∈ σ.runs, r.id = l.runId ∧ r.status = .running :=
        ⟨r, hr, hid.trans hhere.symm, hgoes⟩
      exact absurd ⟨halive, hbooks.resumes hfits hrun hl hlife hrunning⟩ elsewhere

/-! ## Players who leave -/

/-- The player is leaving, or has left. -/
def Quitting (σ : Ledger) (playerId : Uid) : Prop :=
  ∃ p ∈ σ.participants, p.id = playerId ∧ p.leaveState ≠ .none

/-- What every transaction leaves in place. -/
structure Progress (σ σ' : Ledger) : Prop where
  further : Further σ σ'
  players : ∀ p ∈ σ.participants, ∃ p' ∈ σ'.participants, p'.id = p.id ∧ p'.arenaId = p.arenaId ∧
    (p.leaveState ≠ .none → p'.leaveState ≠ .none)
  slots : ∀ l ∈ σ.lives, Quitting σ l.playerId →
    ∃ l' ∈ σ'.lives, l'.id = l.id ∧ l'.playerId = l.playerId ∧ l'.slot = l.slot
  lives : ∀ l' ∈ σ'.lives, Quitting σ l'.playerId → ∃ l ∈ σ.lives, l.id = l'.id ∧
    l.playerId = l'.playerId ∧ l.runId = l'.runId ∧ (l'.status = .alive → l.status = .alive)

namespace Progress

theorem refl (σ : Ledger) : Progress σ σ where
  further := .refl σ
  players := fun p hp => ⟨p, hp, rfl, rfl, fun h => h⟩
  slots := fun l hl _ => ⟨l, hl, rfl, rfl, rfl⟩
  lives := fun l hl _ => ⟨l, hl, rfl, rfl, rfl, fun h => h⟩

theorem quitting {σ' : Ledger} (h : Progress σ σ') {playerId : Uid}
    (hquits : Quitting σ playerId) :
    Quitting σ' playerId := by
  obtain ⟨p, hp, hid, hleaves⟩ := hquits
  obtain ⟨p', hp', hid', -, hstays⟩ := h.players p hp
  exact ⟨p', hp', hid'.trans hid, hstays hleaves⟩

theorem trans {σ₁ σ₂ σ₃ : Ledger} (h : Progress σ₁ σ₂) (h' : Progress σ₂ σ₃) :
    Progress σ₁ σ₃ where
  further := h.further.trans h'.further
  players := by
    intro p hp
    obtain ⟨p', hp', hid, harena, hstays⟩ := h.players p hp
    obtain ⟨p'', hp'', hid', harena', hstays'⟩ := h'.players p' hp'
    exact ⟨p'', hp'', hid'.trans hid, harena'.trans harena,
      fun hleaves => hstays' (hstays hleaves)⟩
  slots := by
    intro l hl hquits
    obtain ⟨l', hl', hid, hplayer, hslot⟩ := h.slots l hl hquits
    obtain ⟨l'', hl'', hid', hplayer', hslot'⟩ := h'.slots l' hl' (hplayer ▸ h.quitting hquits)
    exact ⟨l'', hl'', hid'.trans hid, hplayer'.trans hplayer, hslot'.trans hslot⟩
  lives := by
    intro l'' hl'' hquits
    obtain ⟨l', hl', hid', hplayer', hrun', halive'⟩ := h'.lives l'' hl'' (h.quitting hquits)
    obtain ⟨l, hl, hid, hplayer, hrun, halive⟩ := h.lives l' hl' (hplayer' ▸ hquits)
    exact ⟨l, hl, hid.trans hid', hplayer.trans hplayer', hrun.trans hrun',
      fun h => halive (halive' h)⟩

/-- A player who is leaving is not admitted. -/
theorem staying {p : Participant} {playerId : Uid} (hquits : Quitting σ playerId)
    (hp : p ∈ σ.participants) (hid : p.id = playerId) : p.leaveState ≠ .none := by
  obtain ⟨q, hq, hqid, hleaves⟩ := hquits
  have heq : p = q := Table.mem_inj hp hq (hid.trans hqid.symm)
  exact heq ▸ hleaves

theorem of_perform (hrun : perform env a σ = .ok σ') : Progress σ σ' where
  further := .of_perform hrun
  players := by
    intro p hp
    obtain ⟨p', hp', hid, hturn⟩ := (perform_players hrun).old p hp
    refine ⟨p', hp', hid, ?_⟩
    cases hturn with
    | same => exact ⟨rfl, fun h => h⟩
    | addressed entry => exact ⟨rfl, fun h => h⟩
    | asked token call staying => exact ⟨rfl, fun h => absurd staying h⟩
    | gone revokedRun call leaving => exact ⟨rfl, fun _ => by simp [gone]⟩
  slots := by
    intro l hl hquits
    obtain ⟨l', hl', hid, hturn⟩ := (perform_lifeTurns hrun).old l hl
    refine ⟨l', hl', hid, hturn.kept.1, ?_⟩
    cases hturn with
    | same => rfl
    | killed sequence killerId call undead => rfl
    | refunded revokedRun call playable here => rfl
    | orphaned alive call => rfl
    | heard worker arenaId runId connected call mem alive => rfl
    | resumed arenaId token runId slot call playable elsewhere =>
      subst call
      obtain ⟨life, hadmits⟩ := map_snd_ok hrun
      rcases allocateLife_writes hadmits hl' with hold | ⟨p, hp, howner, -, hstays⟩
      · have hsame : resumed env runId slot l = l := Table.mem_inj hold hl rfl
        rw [hsame]
      · exact absurd hstays (staying hquits hp howner)
  lives := by
    intro l' hl' hquits
    rcases (perform_lifeTurns hrun).new l' hl' with ⟨l, hl, hid, hturn⟩ | hnew
    · refine ⟨l, hl, hid.symm, hturn.kept.1.symm, ?_⟩
      cases hturn with
      | same => exact ⟨rfl, fun halive => halive⟩
      | killed sequence killerId call undead => exact ⟨rfl, fun halive => by cases halive⟩
      | refunded revokedRun call playable here => exact ⟨rfl, fun halive => by cases halive⟩
      | orphaned alive call => exact ⟨rfl, fun halive => by cases halive⟩
      | heard worker arenaId runId connected call mem alive => exact ⟨rfl, fun _ => alive⟩
      | resumed arenaId token runId slot call playable elsewhere =>
        subst call
        obtain ⟨life, hadmits⟩ := map_snd_ok hrun
        rcases allocateLife_writes hadmits hl' with hold | ⟨p, hp, howner, -, hstays⟩
        · have hsame : resumed env runId slot l = l := Table.mem_inj hold hl rfl
          exact ⟨(congrArg Life.runId hsame).symm, fun halive => hsame ▸ halive⟩
        · exact absurd hstays (staying hquits hp howner)
    · obtain ⟨token, hcall⟩ := hnew.call
      subst hcall
      obtain ⟨life, hadmits⟩ := map_snd_ok hrun
      rcases allocateLife_writes hadmits hl' with hold | ⟨p, hp, howner, -, hstays⟩
      · exact ⟨l', hold, rfl, rfl, rfl, fun halive => halive⟩
      · exact absurd hstays (staying hquits hp howner)

end Progress

end QuakeJs.Server
