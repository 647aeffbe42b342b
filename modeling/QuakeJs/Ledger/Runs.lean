import QuakeJs.Ledger.Lives
import QuakeJs.Ledger.Victims

/-!
# What a transaction makes of a run

The list for the table `runs`, and who a kill payout names.  The sequence of a
run counts the lines of its journal that were applied: only `consume_death`
writes it, and only for the next line.
-/

namespace QuakeJs

/-- The transactions that write the runs. -/
def Action.ofRuns : Action → Bool
  | .consumeDeath .. | .insertRun .. | .recoverRun .. | .recoverLeavingRun
      .. | .stopRun .. => true
  | _ => false

namespace Ledger

/-- A run with one more line applied. -/
def advanced (sequence : Int) (r : Run) : Run := { r with eventSequence := sequence }

/-- A run that has ended. -/
def ended (status : RunStatus) (r : Run) : Run := { r with status }

/-- What a transaction can make of a run. -/
inductive RunTurns (a : Action) (σ : Ledger) (r : Run) : Run → Prop
  | same : RunTurns a σ r r
  | advanced (victim : Life) (killerId : Uid)
      (call : a = .consumeDeath r.id (r.eventSequence + 1) victim.id killerId)
      (mem : victim ∈ σ.lives) (here : victim.runId = r.id) :
      RunTurns a σ r (advanced (r.eventSequence + 1) r)
  | ended (status : RunStatus) (halted : status ≠ .running) (call : a.releases = some r.id) :
      RunTurns a σ r (ended status r)

theorem RunTurns.kept {a : Action} {σ : Ledger} {r r' : Run} (h : RunTurns a σ r r') :
    r'.arenaId = r.arenaId ∧ r.eventSequence ≤ r'.eventSequence ∧
      (r'.status = .running → r.status = .running) := by
  cases h with
  | same => exact ⟨rfl, Int.le_refl _, fun h => h⟩
  | advanced victim killerId call mem here =>
    refine ⟨rfl, ?_, fun h => h⟩
    show r.eventSequence ≤ r.eventSequence + 1
    omega
  | ended status halted call => exact ⟨rfl, Int.le_refl _, fun h => absurd h halted⟩

/-- A run that is inserted. -/
structure NewRun (a : Action) (r : Run) : Prop where
  call : a = .insertRun r.id r.arenaId r.worker
  sequence : r.eventSequence = 0

section

variable {env : Env} {σ σ' : Ledger}

theorem settleEntry_runs {payment : Payment} {arena? : Option Uid}
    (h : settleEntry env payment σ = .ok (arena?, σ')) : σ'.runs = σ.runs := by
  obtain rfl | ⟨-, -, -, _, -, -, -, -, -, hcredit⟩ := settleEntry_ok h
  · rfl
  · cases hcredit with
    | again _ eq => rw [eq]; rfl
    | first _ _ player _ staying leaving left =>
      cases hs : player.leaveState with
      | none => rw [staying hs]; rfl
      | leaving => rw [leaving hs]; rfl
      | left =>
        obtain ⟨_, -, hrefund⟩ := left hs
        rw [refundEntry_only hrefund]
        rfl

/-- The other transactions do not. -/
theorem perform_runs_eq {a : Action} (ha : a.ofRuns = false) (hrun : perform env a σ = .ok σ') :
    σ'.runs = σ.runs := by
  cases a with
  | saveSettings owner walletId enabled haircut allow =>
    obtain ⟨settings, rfl, -⟩ := saveSettings_ok hrun
    rfl
  | createArena owner data =>
    obtain ⟨arena, hrun⟩ := map_snd_ok hrun
    obtain ⟨_, arenas, -, rfl, -⟩ := createArena_ok hrun
    rfl
  | createGame publicId data =>
    obtain ⟨arena, hrun⟩ := map_snd_ok hrun
    obtain ⟨_, -, -, -, ⟨-, -, -, rfl⟩ | ⟨-, -, -, -, -, arenas, -, rfl⟩⟩ := createGame_ok hrun
    · rfl
    · rfl
  | reserveEntry arenaId token data =>
    obtain ⟨⟨entry, new⟩, hrun⟩ := map_snd_ok hrun
    obtain ⟨_, -, -, ⟨-, -, rfl⟩ | ⟨-, _, _, _, _, -, -, -, -, -, rfl⟩⟩ := reserveEntry_ok hrun
    · rfl
    · rfl
  | recordInvoice entryId payment =>
    obtain rfl | ⟨_, -, -, -, -, rfl⟩ := recordInvoice_ok hrun
    · rfl
    · rfl
  | settleEntry payment =>
    obtain ⟨arena?, hrun⟩ := map_snd_ok hrun
    exact settleEntry_runs hrun
  | allocateLife arenaId token runId =>
    obtain ⟨life, hrun⟩ := map_snd_ok hrun
    obtain ⟨_, -, -, -, -, player, -, -, -, -, hadm⟩ := allocateLife_ok hrun
    cases hadm <;> (subst_vars; rfl)
  | requestLeave arenaId token =>
    obtain ⟨player, hrun⟩ := map_snd_ok hrun
    obtain ⟨_, -, -, -, ⟨-, -, rfl⟩ | ⟨-, -, -, rfl⟩⟩ := requestLeave_ok hrun
    · rfl
    · rfl
  | finishLeave playerId revokedRun =>
    obtain ⟨_, -, _, -, ⟨-, rfl⟩ | ⟨-, -, σ₂, hrefunds, rfl⟩⟩ := finishLeave_ok hrun
    · rfl
    · rw [refundEntries_only hrefunds]
      rfl
  | expireGame arenaId =>
    obtain ⟨expired, hrun⟩ := map_snd_ok hrun
    obtain ⟨row, -, hexpiry⟩ := expireGame_ok hrun
    cases hexpiry <;> (subst_vars; rfl)
  | closeGame arenaId owner =>
    obtain ⟨row, -, -, rfl⟩ := closeGame_ok hrun
    rfl
  | leaseArena worker arenaId =>
    obtain ⟨⟨arena, oldRuns⟩, hrun⟩ := map_snd_ok hrun
    obtain ⟨_, -, -, -, -, -, -, rfl⟩ := leaseArena_ok hrun
    rfl
  | renewLease worker arenaId runId connected =>
    obtain ⟨_, -, -, -, -, -, rfl⟩ := renewLease_ok hrun
    rfl
  | claimPayout =>
    cases hrun
    exact (claimPayout_keeps env σ).runs
  | updatePayout k row status values =>
    obtain ⟨row', hrun⟩ := map_snd_ok hrun
    exact (updatePayout_keeps hrun).runs
  | releasePayout k row =>
    cases hrun
    exact (releasePayout_keeps env k row σ).runs
  | _ => cases ha

/-- The end of a run, in each of its three transactions. -/
theorem setRunStatus_turns {a : Action} (σ : Ledger) {runId : Uid} {status : RunStatus}
    (ha : a.releases = some runId) (hover : status ≠ .running) :
    Table.Turned (RunTurns a σ) (NewRun a) σ.runs (σ.setRunStatus runId status).runs := by
  refine Table.turned_updateKey (fun _ _ => .same) fun r _ hid => .ended status hover ?_
  have hid : r.id = runId := hid
  rw [ha, hid]

/-- Every transaction keeps to what a run can turn into. -/
theorem perform_runs {a : Action} (hrun : perform env a σ = .ok σ') :
    Table.Turned (RunTurns a σ) (NewRun a) σ.runs σ'.runs := by
  have hsame : ∀ r ∈ σ.runs, RunTurns a σ r r := fun _ _ => .same
  cases ha : a.ofRuns with
  | false =>
    rw [perform_runs_eq ha hrun]
    exact .refl hsame
  | true =>
    cases a with
    | consumeDeath runId sequence victimId killerId =>
      obtain ⟨arenaId, hrun⟩ := map_snd_ok hrun
      obtain ⟨run, hget, -, _, -, ⟨-, rfl⟩ | ⟨hnext, victim, hvictim, here, -, σ₂, -, rfl⟩⟩ :=
        consumeDeath_ok hrun
      · exact .refl hsame
      · obtain ⟨hmem, rfl⟩ := Table.get?_eq_some.mp hget
        obtain ⟨hlife, rfl⟩ := Table.get?_eq_some.mp hvictim
        refine Table.turned_updateKey hsame fun r hr hid => ?_
        rw [Table.mem_inj hr hmem hid, hnext]
        exact .advanced victim killerId rfl hlife here
    | insertRun runId arenaId worker =>
      obtain ⟨runs, hins, rfl⟩ := insertRun_ok hrun
      exact Table.turned_insert? hins hsame ⟨rfl, rfl⟩
    | recoverRun runId =>
      cases hrun
      exact setRunStatus_turns σ rfl (by decide)
    | recoverLeavingRun arenaId runId =>
      rw [recoverLeavingRun_ok hrun]
      exact setRunStatus_turns σ rfl (by decide)
    | stopRun arenaId worker runId =>
      rw [stopRun_ok hrun]
      exact setRunStatus_turns σ rfl (by decide)
    | _ => cases ha

/-- After a death its run has got as far as the line. -/
theorem consumeDeath_reaches {runId victimId killerId arenaId : Uid} {sequence : Int}
    (h : consumeDeath env runId sequence victimId killerId σ = .ok (arenaId, σ')) :
    ∃ r ∈ σ'.runs, r.id = runId ∧ sequence ≤ r.eventSequence := by
  obtain ⟨run, hget, -, _, -, ⟨hdone, rfl⟩ | ⟨-, victim, -, -, -, σ₂, -, rfl⟩⟩ :=
    consumeDeath_ok h
  · obtain ⟨hmem, hid⟩ := Table.get?_eq_some.mp hget
    exact ⟨run, hmem, hid, hdone⟩
  · obtain ⟨hmem, hid⟩ := Table.get?_eq_some.mp hget
    exact ⟨_, (Table.mem_updateKey (f := advanced sequence)).mpr
      (.inr ⟨run, hmem, hid, rfl⟩), hid,
      Int.le_refl _⟩

/-- The victim of the next line is dead afterwards. -/
theorem consumeDeath_ends {runId victimId killerId arenaId : Uid} {sequence : Int}
    (h : consumeDeath env runId sequence victimId killerId σ = .ok (arenaId, σ'))
    (hnext : ∀ r ∈ σ.runs, r.id = runId → r.eventSequence < sequence) :
    ∃ l ∈ σ'.lives, l.id = victimId ∧ l.runId = runId ∧ l.status = .dead := by
  obtain ⟨run, hget, -, _, -, ⟨hdone, -⟩ | ⟨-, victim, hvictim, here, -, σ₂, hσ₂, rfl⟩⟩ :=
    consumeDeath_ok h
  · obtain ⟨hmem, hid⟩ := Table.get?_eq_some.mp hget
    exact absurd hdone (not_le.mpr (hnext run hmem hid))
  · obtain ⟨hmem, hid⟩ := Table.get?_eq_some.mp hvictim
    obtain ⟨hdead, rfl⟩ | ⟨-, entry, -, -, hpaid⟩ := hσ₂
    · exact ⟨victim, hmem, hid, here, hdead⟩
    · have hlives : σ₂.lives = σ.lives.updateKey victim.id (killed env killerId) (fun _ => rfl) :=
        congrArg Ledger.lives hpaid.only
      refine ⟨killed env killerId victim, ?_, hid, here, rfl⟩
      show killed env killerId victim ∈ σ₂.lives
      rw [hlives]
      exact (Table.mem_updateKey (f := killed env killerId)).mpr (.inr ⟨victim, hmem, rfl, rfl⟩)

/-- A life that is dead stays as it is. -/
theorem dead_stays {a : Action} (hrun : perform env a σ = .ok σ') {l : Life} (hl : l ∈ σ.lives)
    (hdead : l.status = .dead) : l ∈ σ'.lives := by
  obtain ⟨l', hl', -, hturn⟩ := (perform_lifeTurns hrun).old l hl
  cases hturn with
  | same => exact hl'
  | killed _ _ _ undead => exact absurd hdead undead
  | refunded _ _ playable _ => simp [hdead, LifeStatus.open] at playable
  | resumed _ _ _ _ _ playable _ => simp [hdead, LifeStatus.open] at playable
  | orphaned alive _ => simp [hdead] at alive
  | heard _ _ _ _ _ _ alive => simp [hdead] at alive

/-! ## Who a kill payout names -/

theorem payKiller_names {arena : Arena} {entry : Entry} {victim : Life} {killer? : Option Life}
    (h : payKiller env arena entry victim killer? σ = .ok σ') {p : Payout} (hp : p ∈ σ'.payouts) :
    p ∈ σ.payouts ∨ ∃ killer, killer? = some killer ∧ p.victimId = victim.id
      ∧ p.killerId = killer.id := by
  cases killer? with
  | none =>
    simp only [payKiller, pure_ok_iff] at h
    exact .inl (h ▸ hp)
  | some killer =>
    simp only [payKiller, payKill, bind_ok_iff, orRaise_ok_iff] at h
    obtain ⟨destination, -, σ₁, hkill, hfee⟩ := h
    have hsame : σ'.payouts = σ₁.payouts := by
      unfold queueFee at hfee
      split_ifs at hfee
      · rw [pure_ok_iff] at hfee
        rw [hfee]
      · obtain ⟨-, ⟨-, rfl⟩ | ⟨-, _, -, rfl⟩⟩ := queuePayout_ok hfee
        · rfl
        · rfl
    rw [hsame] at hp
    obtain ⟨-, ⟨-, rfl⟩ | ⟨-, t, ht, rfl⟩⟩ := queuePayout_ok hkill
    · exact .inl hp
    · rcases (Table.mem_insert? ht).mp hp with hold | rfl
      · exact .inl hold
      · exact .inr ⟨killer, rfl, rfl, rfl⟩

/-- A kill payout names the victim and the killer of the line. -/
theorem consumeDeath_names {runId victimId killerId arenaId : Uid} {sequence : Int}
    (h : consumeDeath env runId sequence victimId killerId σ = .ok (arenaId, σ')) {p : Payout}
    (hp : p ∈ σ'.payouts) (hnew : p ∉ σ.payouts) :
    p.victimId = victimId ∧ p.killerId = killerId ∧
      ∃ l ∈ σ'.lives, l.id = victimId ∧ l.status = .dead ∧ l.killerId = killerId := by
  simp only [consumeDeath, bind_ok_iff, orRaise_ok_iff, Prod.exists] at h
  obtain ⟨run, -, arena, σ₁, hlock, h⟩ := h
  obtain ⟨rfl, row, -, -, -⟩ := lockArena_ok hlock
  split_ifs at h with hseq
  · rw [pure_ok_iff, Prod.mk.injEq] at h
    rw [← h.2] at hp
    exact absurd hp hnew
  · simp only [bind_ok_iff, require_ok_iff, orRaise_ok_iff, pure_ok_iff, Prod.mk.injEq] at h
    obtain ⟨_, -, victim, hvictim, _, -, σ₂, hend, -, rfl⟩ := h
    obtain ⟨hmem, rfl⟩ := Table.get?_eq_some.mp hvictim
    unfold endLife at hend
    split_ifs at hend with hdead
    · rw [pure_ok_iff] at hend
      subst hend
      exact absurd hp hnew
    · simp only [spendLife, bind_ok_iff, require_ok_iff, orRaise_ok_iff] at hend
      obtain ⟨entry, -, _, -, hpay⟩ := hend
      have hlives := congrArg Ledger.lives (payKiller_ok hpay).only
      rcases payKiller_names hpay hp with hold | ⟨killer, hkiller, hpv, hpk⟩
      · exact absurd hold hnew
      · have hid : killer.id = killerId :=
          Table.key_of_get? (Option.filter_eq_some_iff.mp hkiller).1
        refine ⟨hpv, hpk.trans hid, killed env killerId victim, ?_, rfl, rfl, rfl⟩
        show killed env killerId victim ∈ σ₂.lives
        rw [hlives]
        exact (Table.mem_updateKey (f := killed env killerId)).mpr (.inr ⟨victim, hmem, rfl, rfl⟩)

end

end Ledger

end QuakeJs
