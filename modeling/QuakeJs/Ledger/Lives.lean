import QuakeJs.Ledger.Turns

/-!
# What a transaction makes of a life

The list for the table `lives`, beside those of `Turns`.  No life is deleted,
and no transaction moves one to another player or another entry.
-/

namespace QuakeJs

/-- The transactions that write the lives. -/
def Action.ofLives : Action → Bool
  | .allocateLife .. | .consumeDeath .. | .finishLeave .. | .recoverRun .. | .recoverLeavingRun ..
  | .stopRun .. | .renewLease .. => true
  | _ => false

/-- The run whose lives a transaction releases. -/
def Action.releases : Action → Option Uid
  | .recoverRun runId | .recoverLeavingRun _ runId | .stopRun _ _ runId => some runId
  | _ => none

namespace Ledger

/-- The life of a run that has ended. -/
def orphaned (l : Life) : Life := { l with status := .left, connectedUntil := 0 }

/-- The life of a player who is connected. -/
def heard (env : Env) (l : Life) : Life := { l with connectedUntil := env.now + 30 }

/-- What a transaction can make of a life. -/
inductive LifeTurns (env : Env) (a : Action) (l : Life) : Life → Prop
  | same : LifeTurns env a l l
  | killed (sequence : Int) (killerId : Uid)
      (call : a = .consumeDeath l.runId sequence l.id killerId)
      (undead : l.status ≠ .dead) : LifeTurns env a l (killed env killerId l)
  | refunded (revokedRun : Uid) (call : a = .finishLeave l.playerId revokedRun)
      (playable : l.status.open = true) (here : l.status = .alive → l.runId = revokedRun) :
      LifeTurns env a l (refunded env l)
  | resumed (arenaId token runId : Uid) (slot : Nat)
      (call : a = .allocateLife arenaId token runId)
      (playable : l.status.open = true) (elsewhere : ¬(l.status = .alive ∧ l.runId = runId)) :
      LifeTurns env a l (resumed env runId slot l)
  | orphaned (alive : l.status = .alive) (call : a.releases = some l.runId) :
      LifeTurns env a l (orphaned l)
  | heard (worker arenaId runId : Uid) (connected : List Uid)
      (call : a = .renewLease worker arenaId runId connected) (mem : l.id ∈ connected)
      (alive : l.status = .alive) : LifeTurns env a l (heard env l)

/-- Only the run, the slot, the heartbeat and the end of a life are ever
written. -/
theorem LifeTurns.kept {env : Env} {a : Action} {l l' : Life} (h : LifeTurns env a l l') :
    l'.playerId = l.playerId ∧ l'.entryId = l.entryId ∧ l'.arenaId = l.arenaId
      ∧ l'.createdAt = l.createdAt := by
  cases h <;> exact ⟨rfl, rfl, rfl, rfl⟩

/-- A life that is inserted. -/
structure NewLife (env : Env) (a : Action) (σ : Ledger) (l : Life) : Prop where
  call : ∃ token, a = .allocateLife l.arenaId token l.runId
  id : l.id = env.uid 0
  alive : l.status = .alive
  created : l.createdAt = env.timeNs
  noCurrent : σ.currentLife l.playerId = none
  funded : ∃ e, σ.fundedEntry l.playerId = some e ∧ l.entryId = e.id

section

variable {env : Env} {σ σ' : Ledger}

/-- The other transactions do not. -/
theorem perform_lives_eq {a : Action} (ha : a.ofLives = false) (hrun : perform env a σ = .ok σ') :
    σ'.lives = σ.lives := by
  cases a with
  | saveSettings owner walletId enabled haircut allow =>
    obtain ⟨settings, rfl, -⟩ := saveSettings_ok hrun
    rfl
  | createArena owner data =>
    obtain ⟨arena, hrun⟩ := map_snd_ok hrun
    obtain ⟨_, arenas, -, rfl, -⟩ := createArena_ok hrun
    rfl
  | createGame publicId data =>
    obtain ⟨arena, hrun⟩ := map_snd_ok hrun
    obtain ⟨_, -, -, -, ⟨-, -, -, rfl⟩ | ⟨-, -, -, -, -, arenas, -, rfl⟩⟩ := createGame_ok hrun
    · rfl
    · rfl
  | reserveEntry arenaId token data =>
    obtain ⟨⟨entry, new⟩, hrun⟩ := map_snd_ok hrun
    obtain ⟨_, -, -, ⟨-, -, rfl⟩ | ⟨-, _, _, _, _, -, -, -, -, -, rfl⟩⟩ := reserveEntry_ok hrun
    · rfl
    · rfl
  | recordInvoice entryId payment =>
    obtain rfl | ⟨_, -, -, -, -, rfl⟩ := recordInvoice_ok hrun
    · rfl
    · rfl
  | settleEntry payment =>
    obtain ⟨arena?, hrun⟩ := map_snd_ok hrun
    exact settleEntry_lives hrun
  | requestLeave arenaId token =>
    obtain ⟨player, hrun⟩ := map_snd_ok hrun
    obtain ⟨_, -, -, -, ⟨-, -, rfl⟩ | ⟨-, -, -, rfl⟩⟩ := requestLeave_ok hrun
    · rfl
    · rfl
  | expireGame arenaId =>
    obtain ⟨expired, hrun⟩ := map_snd_ok hrun
    obtain ⟨row, -, hexpiry⟩ := expireGame_ok hrun
    cases hexpiry <;> (subst_vars; rfl)
  | closeGame arenaId owner =>
    obtain ⟨row, -, -, rfl⟩ := closeGame_ok hrun
    rfl
  | leaseArena worker arenaId =>
    obtain ⟨⟨arena, oldRuns⟩, hrun⟩ := map_snd_ok hrun
    obtain ⟨_, -, -, -, -, -, -, rfl⟩ := leaseArena_ok hrun
    rfl
  | insertRun runId arenaId worker =>
    obtain ⟨runs, -, rfl⟩ := insertRun_ok hrun
    rfl
  | claimPayout =>
    cases hrun
    exact (claimPayout_keeps env σ).lives
  | updatePayout k row status values =>
    obtain ⟨row', hrun⟩ := map_snd_ok hrun
    exact (updatePayout_keeps hrun).lives
  | releasePayout k row =>
    cases hrun
    exact (releasePayout_keeps env k row σ).lives
  | _ => cases ha

/-- The end of a run, in each of its three transactions. -/
theorem releaseLives_turns {a : Action} {runId : Uid} (ha : a.releases = some runId) :
    Table.Turned (LifeTurns env a) (NewLife env a σ) σ.lives (σ.releaseLives runId).lives := by
  refine Table.turned_update (fun _ _ _ => .same) fun l _ hl => ?_
  simp only [Bool.and_eq_true, decide_eq_true_eq] at hl
  exact .orphaned hl.2 (hl.1 ▸ ha)

theorem allocateLife_turns {arenaId token runId : Uid} {life : Life}
    (h : allocateLife env arenaId token runId σ = .ok (life, σ')) :
    Table.Turned (LifeTurns env (.allocateLife arenaId token runId))
      (NewLife env (.allocateLife arenaId token runId) σ) σ.lives σ'.lives := by
  have hsame : ∀ l ∈ σ.lives, LifeTurns env (.allocateLife arenaId token runId) l l :=
    fun _ _ => .same
  obtain ⟨_, -, -, -, -, player, -, -, -, -, hadm⟩ := allocateLife_ok h
  cases hadm with
  | again _ _ _ _ eq =>
    rw [eq]
    exact .refl hsame
  | resume old current notHere _ _ slot _ _ ledger =>
    rw [ledger]
    obtain ⟨hold, -, hopen⟩ := currentLife_mem current
    refine Table.turned_updateKey hsame fun l hl hid => ?_
    rw [Table.mem_inj hl hold hid]
    exact .resumed arenaId token runId slot rfl hopen notHere
  | new noCurrent entry funded slot _ eq lives insert ledger =>
    rw [ledger]
    refine Table.turned_insert? insert hsame ?_
    rw [eq]
    exact ⟨⟨token, rfl⟩, rfl, rfl, rfl, noCurrent, entry, funded, rfl⟩

/-- Every transaction keeps to what a life can turn into. -/
theorem perform_lifeTurns {a : Action} (hrun : perform env a σ = .ok σ') :
    Table.Turned (LifeTurns env a) (NewLife env a σ) σ.lives σ'.lives := by
  have hsame : ∀ l ∈ σ.lives, LifeTurns env a l l := fun _ _ => .same
  cases ha : a.ofLives with
  | false =>
    rw [perform_lives_eq ha hrun]
    exact .refl hsame
  | true =>
    cases a with
    | allocateLife arenaId token runId =>
      obtain ⟨life, hrun⟩ := map_snd_ok hrun
      exact allocateLife_turns hrun
    | consumeDeath runId sequence victimId killerId =>
      obtain ⟨arenaId, hrun⟩ := map_snd_ok hrun
      obtain ⟨_, -, -, _, -, ⟨-, rfl⟩ | ⟨-, victim, hvictim, here, -, σ₂, hσ₂, rfl⟩⟩ :=
        consumeDeath_ok hrun
      · exact .refl hsame
      · obtain ⟨-, rfl⟩ | ⟨hundead, entry, -, -, hpaid⟩ := hσ₂
        · exact .refl hsame
        · obtain ⟨hmem, rfl⟩ := Table.get?_eq_some.mp hvictim
          rw [hpaid.only]
          refine Table.turned_updateKey hsame fun l hl hid => ?_
          rw [Table.mem_inj hl hmem hid]
          exact .killed sequence killerId (here ▸ rfl) hundead
    | finishLeave playerId revokedRun =>
      obtain ⟨_, -, _, -, ⟨-, rfl⟩ | ⟨-, hhere, σ₂, hrefunds, rfl⟩⟩ := finishLeave_ok hrun
      · exact .refl hsame
      · rw [refundEntries_only hrefunds]
        refine Table.turned_update (fun _ _ _ => .same) fun l hmem hl => ?_
        simp only [Bool.and_eq_true, decide_eq_true_eq] at hl
        exact .refunded revokedRun (hl.1 ▸ rfl) hl.2 (hhere l hmem hl.1)
    | recoverRun runId =>
      cases hrun
      exact releaseLives_turns rfl
    | recoverLeavingRun arenaId runId =>
      rw [recoverLeavingRun_ok hrun]
      exact releaseLives_turns rfl
    | stopRun arenaId worker runId =>
      rw [stopRun_ok hrun]
      exact releaseLives_turns rfl
    | renewLease worker arenaId runId connected =>
      obtain ⟨_, -, -, -, -, -, rfl⟩ := renewLease_ok hrun
      refine Table.turned_update (fun _ _ _ => .same) fun l _ hl => ?_
      simp only [Bool.and_eq_true, decide_eq_true_eq] at hl
      exact .heard worker arenaId runId connected rfl hl.1 hl.2
    | _ => cases ha

end

end Ledger

end QuakeJs
