import QuakeJs.Ledger.Privacy
import QuakeJs.Ledger.Promises
import QuakeJs.Payments.Outbox

/-!
# What a player is told, while the payout workers run

`public_state` adds up the winnings of a player by the statuses of its
payouts, which the workers write.  The sums leave out a status that no payout
of any worth ever has, and a payout that was paid stays paid.
-/

namespace QuakeJs.Payments

open Async Ledger

variable {decode : String → Option Invoice}

/-! ## Pools whose clock moves -/

/-- As `Outside`, behind a clock that moves. -/
def OutsideLater (w w' : World) : Prop :=
  ∃ env a σ, a.ofGame = true ∧ Env.Fresh env w.ledger ∧ Env.Later env w.ledger ∧
    perform env a w.ledger = .ok σ ∧ w' = { w with
      ledger := σ }

theorem outside_of_later (x x' : World × Log) (h : Unlogged OutsideLater x x') :
    Unlogged Outside x x' := by
  obtain ⟨⟨env, a, σ, hgame, hfresh, -, hrun, hw⟩, hlog⟩ := h
  exact ⟨⟨env, a, σ, hgame, hfresh, hrun, hw⟩, hlog⟩

/-- As `Logs`, behind a clock that moves. -/
abbrev Timed (decode : String → Option Invoice)
    (pool : Pool Op Op.Ans Fault (World × Log)) : Prop :=
  Pool.Reachable (Logged PerformsAtomically) (fun task => task = payoutRound decode)
    (Unlogged OutsideLater) (Unlogged Crashes) (World.initial, []) pool

theorem Timed.logs {pool : Pool Op Op.Ans Fault (World × Log)} (h : Timed decode pool) :
    Logs decode pool := by
  exact h.weaken outside_of_later

theorem logs_of_goes {pool pool' : Pool Op Op.Ans Fault (World × Log)} (h : Logs decode pool)
    (hgoes : Goes decode pool pool') : Logs decode pool' := by
  induction hgoes with
  | refl => exact h
  | tail _ hstep ih => exact ih.step hstep

/-! ## What a worker leaves alone -/

section

variable {op : Op} {result : Except LedgerError op.Ans} {w w' : World}

/-- A worker writes the outboxes only, and keeps the terms of the payouts. -/
theorem Effect.keeps (h : Effect op w result w') : KeepsTerms w.ledger w'.ledger := by
  have hsame : KeepsTerms w.ledger w.ledger :=
    ⟨rfl, rfl, rfl, rfl, rfl, rfl, fun _ => .refl _ _⟩
  cases op with
  | claimPayout =>
    obtain ⟨env, -, -, -, rfl⟩ := h
    exact claimPayout_keeps env w.ledger
  | updatePayout k row status values =>
    obtain ⟨env, ⟨row', σ, hrun, -, rfl⟩ | ⟨e, -, -, rfl⟩⟩ := h
    · exact updatePayout_keeps hrun
    · exact hsame
  | releasePayout k row =>
    obtain ⟨env, -, rfl⟩ := h
    exact releasePayout_keeps env k row w.ledger
  | payInvoice k claim arguments =>
    obtain ⟨-, rfl⟩ := h
    exact hsame
  | _ =>
    have heq : w' = w := h
    rw [heq]
    exact hsame

/-- A row that no update has written. -/
structure Untouched (w : World) (k : Outbox) (row : Payout) : Prop where
  mem : row ∈ w.ledger.outbox k
  statuses : statuses w.history k row.id = []

/-- A row that is still untouched was so before, with its status and amount. -/
theorem Effect.untouched (h : Effect op w result w') {k : Outbox} {row' : Payout}
    (hrow : Untouched w' k row') :
    ∃ row, Untouched w k row ∧ row.status = row'.status ∧ row.amount = row'.amount := by
  obtain ⟨hmem, hnone⟩ := hrow
  -- A rewrite that keeps the status and the amount of each row, and the history.
  have hkeep : ∀ {k₀ : Outbox} {id : Uid} {f : Payout → Payout},
      Rewrites k₀ id f w.ledger w'.ledger → w'.history = w.history →
      (∀ row, (f row).status = row.status ∧ (f row).amount = row.amount) →
      ∃ row, Untouched w k row ∧ row.status = row'.status ∧ row.amount = row'.amount := by
    intro k₀ id f hr hhistory hf
    rw [hhistory] at hnone
    rcases hr.rows k row' hmem with ⟨hold, -⟩ | ⟨rfl, row, hold, -, rfl⟩
    · exact ⟨row', ⟨hold, hnone⟩, rfl, rfl⟩
    · rw [hr.key] at hnone
      exact ⟨row, ⟨hold, hnone⟩, (hf row).1.symm, (hf row).2.symm⟩
  have hsame : w'.ledger = w.ledger → w'.history = w.history →
      ∃ row, Untouched w k row ∧ row.status = row'.status ∧ row.amount = row'.amount := by
    intro hledger hhistory
    rw [hledger] at hmem
    rw [hhistory] at hnone
    exact ⟨row', ⟨hmem, hnone⟩, rfl, rfl⟩
  cases op with
  | claimPayout =>
    obtain ⟨env, -, -, -, rfl⟩ := h
    obtain ⟨-, hσ⟩ | ⟨k₀, row, -, -, -, -, -, hσ⟩ :=
      claimPayout_eq (Prod.eta (claimPayout env w.ledger)).symm
    · exact hsame hσ rfl
    · have hr : Rewrites k₀ row.id (Ledger.leased env) w.ledger (claimPayout env w.ledger).2 := by
        rw [hσ]
        exact Rewrites.updateKey (f := Ledger.leased env) w.ledger k₀ row.id (fun _ => rfl)
          fun _ _ hclaim => hclaim
      exact hkeep hr rfl fun _ => ⟨rfl, rfl⟩
  | updatePayout k₀ row status values =>
    obtain ⟨env, ⟨row₁, σ, hrun, -, rfl⟩ | ⟨e, -, -, rfl⟩⟩ := h
    · obtain ⟨-, claims, stored, hreserved, hget, -, -, hσ⟩ := updatePayout_ok hrun
      have hr : Rewrites k₀ row.id (written env row₁) w.ledger σ := by
        rw [hσ]
        exact Rewrites.updateKey (f := written env row₁) w.ledger k₀ row.id (fun _ => rfl)
          hreserved.extends
      obtain ⟨hstored, hid⟩ := Table.get?_eq_some.mp hget
      have hkey : (written env row₁ stored).id = row.id := hid
      have hfound := Table.get?_key (hr.written stored hstored hid)
      rw [show Keyed.key (written env row₁ stored) = row.id from hkey] at hfound
      have hhistory : (w.wrote k₀ row.id σ).history =
          .wrote k₀ (written env row₁ stored) :: w.history := by
        simp only [World.wrote, hfound, Option.map_some,
          Option.toList_some, List.singleton_append]
      rw [hhistory] at hnone
      by_cases hwhich : k = k₀ ∧ row'.id = row.id
      · -- The written row has the status of the update.
        obtain ⟨rfl, hid'⟩ := hwhich
        rw [hid', ← hkey, statuses_wrote] at hnone
        cases hnone
      · rw [statuses_wrote_of_ne _ (by rw [hkey]; exact hwhich)] at hnone
        rcases hr.rows k row' hmem with ⟨hold, -⟩ | ⟨rfl, old, -, hold, rfl⟩
        · exact ⟨row', ⟨hold, hnone⟩, rfl, rfl⟩
        · exact absurd ⟨rfl, hold⟩ hwhich
    · exact hsame rfl rfl
  | releasePayout k₀ row =>
    obtain ⟨env, -, rfl⟩ := h
    have hr : Rewrites k₀ row.id (released env row.claim) w.ledger
        (releasePayout env k₀ row w.ledger) := by
      rw [releasePayout_eq]
      exact Rewrites.updateKey w.ledger k₀ row.id (keepsKey_released env row.claim)
        fun _ _ hclaim => hclaim
    refine hkeep hr rfl fun p => ?_
    unfold released
    split_ifs <;> exact ⟨rfl, rfl⟩
  | payInvoice k₀ claim arguments =>
    obtain ⟨-, rfl⟩ := h
    rw [statuses_called] at hnone
    exact ⟨row', ⟨hmem, hnone⟩, rfl, rfl⟩
  | _ =>
    have heq : w' = w := h
    exact hsame (by rw [heq]) (by rw [heq])

end

/-! ## The invariant -/

/-- What the winnings rest on. -/
structure Genuine (w : World) : Prop where
  sound : Sound w.ledger
  fees : Fees w.ledger
  solvent : Solvent w.ledger
  withheld : ∀ k row, Untouched w k row → row.status = .withheld → row.amount = 0

theorem Genuine.initial : Genuine World.initial where
  sound := .empty
  fees := .empty
  solvent := .empty
  withheld := fun k row hrow => by cases k <;> exact absurd hrow.mem (Table.not_mem_empty row)

theorem Genuine.keeps {w w' : World} (h : Genuine w) (hkeeps : KeepsTerms w.ledger w'.ledger)
    (huntouched : ∀ k row', Untouched w' k row' →
      ∃ row, Untouched w k row ∧ row.status = row'.status ∧ row.amount = row'.amount) :
    Genuine w' where
  sound :=
    { accounts := h.sound.accounts.frame (.of_eq hkeeps.participants) hkeeps.entries
        (.of_eq hkeeps.lives) (hkeeps.outbox .refundPayouts)
      exclusive := by
        rw [hkeeps.lives]
        exact h.sound.exclusive
      funded := h.sound.funded.frame_eq hkeeps.participants hkeeps.entries hkeeps.lives }
  fees := h.fees.frame hkeeps.settings (.of_eq hkeeps.arenas) (.of_eq hkeeps.entries)
  solvent := h.solvent.frame_eq (.of_eq hkeeps.lives) hkeeps.entries hkeeps.outbox
  withheld := by
    intro k row' hrow' hstatus
    obtain ⟨row, hrow, hs, hamount⟩ := huntouched k row' hrow'
    rw [← hamount]
    exact h.withheld k row hrow (hs.trans hstatus)

theorem Genuine.performs {op : Op} {outcome : Except (Raised Fault) op.Ans} {w w' : World}
    (h : Genuine w) (hdoes : Performs op w outcome w') : Genuine w' := by
  rcases hdoes with ⟨result, heffect, -⟩ | ⟨rfl, -⟩
  · exact h.keeps heffect.keeps fun _ _ hrow => heffect.untouched hrow
  · exact h

theorem Genuine.outside {w w' : World} (h : Genuine w) (hout : Outside w w') : Genuine w' := by
  obtain ⟨env, a, σ, hgame, hfresh, hrun, rfl⟩ := hout
  refine ⟨h.sound.step hrun, h.fees.step hrun, ?_, fun k row hrow hstatus => ?_⟩
  · exact h.solvent.step h.sound.accounts h.fees hfresh hrun
  · rcases (perform_grows hgame hfresh hrun).added k row hrow.mem with hold | ⟨hqueued, -⟩
    · exact h.withheld k row ⟨hold, hrow.statuses⟩ hstatus
    · rcases hqueued.status with hs | ⟨-, hamount⟩
      · rw [hs] at hstatus
        cases hstatus
      · exact hamount

theorem Genuine.of_logs {pool : Pool Op Op.Ans Fault (World × Log)} (h : Logs decode pool) :
    Genuine pool.world.1 := by
  refine h.invariant (P := fun x => Genuine x.1) .initial ?_ ?_ ?_
  · exact fun op x outcome x' hx hdoes => hx.performs hdoes.1.1
  · exact fun x x' hx hout => hx.outside hout.1
  · rintro x x' hx ⟨hcrash, -⟩
    have heq : x'.1 = x.1 := hcrash
    rw [heq]
    exact hx

/-- Behind a clock that moves, the open life of a player is its newest. -/
theorem newest_of_timed {pool : Pool Op Op.Ans Fault (World × Log)} (h : Timed decode pool) :
    Newest pool.world.1.ledger.lives := by
  refine h.invariant (P := fun x => Newest x.1.ledger.lives) ?_ ?_ ?_ ?_
  · exact fun _ hl => absurd hl (Table.not_mem_empty _)
  · rintro op x outcome x' hx ⟨⟨⟨result, heffect, -⟩ | ⟨hsame, -⟩, -⟩, -⟩
    · rw [heffect.keeps.lives]
      exact hx
    · rw [hsame]
      exact hx
  · rintro x x' hx ⟨⟨env, a, σ, -, -, hlater, hrun, hworld⟩, -⟩
    rw [hworld]
    exact hx.step hlater hrun
  · rintro x x' hx ⟨hcrash, -⟩
    have heq : x'.1 = x.1 := hcrash
    rw [heq]
    exact hx

/-! ## The winnings -/

/-- No update withholds a payout. -/
theorem Path.not_withheld {history : List Happening} (h : Path history) (k : Outbox) (id : Uid) :
    PayoutStatus.withheld ∉ statuses history k id := by
  intro hmem
  obtain ⟨happening, hold, hstatus⟩ := List.mem_filterMap.mp hmem
  cases happening with
  | called k' claim arguments => cases hstatus
  | wrote k' row =>
    simp only [Happening.statusOf?, Option.ite_none_right_eq_some, Option.some.injEq] at hstatus
    obtain ⟨newer, older, hsplit⟩ := List.append_of_mem hold
    have hnext := h newer older k' row hsplit
    rw [hstatus.2] at hnext
    cases hs : lastStatus older k' row.id <;> rw [hs] at hnext <;> simp [followers] at hnext

/-- A payout that is withheld is worth nothing. -/
theorem withheld_amount {x : World × Log} (h : Recorded x) (hgenuine : Genuine x.1) {k : Outbox}
    {row : Payout} (hrow : row ∈ x.1.ledger.outbox k) (hstatus : row.status = .withheld) :
    row.amount = 0 := by
  refine hgenuine.withheld k row ⟨hrow, ?_⟩ hstatus
  rcases (h.rows k row hrow).last with hlast | ⟨-, hnone⟩
  · unfold lastStatus at hlast
    cases hs : statuses x.1.history k row.id with
    | nil => rfl
    | cons s rest =>
      rw [hs, List.headD_cons, hstatus] at hlast
      have hmem : PayoutStatus.withheld ∈ statuses x.1.history k row.id := by
        rw [hs, hlast]
        exact List.mem_cons_self
      exact absurd hmem (h.path.not_withheld k row.id)
  · exact hnone

/-- The three sums of the winnings are all of the payouts of the player. -/
theorem winnings_eq {t : Table Payout} {playerId : Uid}
    (hwithheld : ∀ row ∈ t, row.status = .withheld → row.amount = 0) :
    totalOf t playerId [.paid] + totalOf t playerId onTheWay + totalOf t playerId [.failed] =
      t.sum (fun row => if row.playerId = playerId then row.amount else 0) := by
  unfold totalOf
  rw [← Table.sum_add, ← Table.sum_add]
  refine Table.sum_congr fun row hrow => ?_
  by_cases hmine : row.playerId = playerId
  · have hzero := hwithheld row hrow
    cases hs : row.status <;> simp [hmine, hs, onTheWay] at hzero ⊢
    exact hzero.symm
  · simp [hmine]

/-- Winnings that were paid stay paid. -/
theorem won_le {pool pool' : Pool Op Op.Ans Fault (World × Log)} (h : Logs decode pool)
    (hgoes : Goes decode pool pool')
    (hpos : ∀ row ∈ pool'.world.1.ledger.payouts, 0 ≤ row.amount) (playerId : Uid) :
    totalOf pool.world.1.ledger.payouts playerId [.paid] ≤
      totalOf pool'.world.1.ledger.payouts playerId [.paid] := by
  unfold totalOf
  refine Table.sum_le_sum_of_old (fun row hrow => ?_) fun row hrow => ?_
  · obtain ⟨row', hrow', hterms, -, hpath⟩ := (keeps_of_goes h hgoes).rows .payouts row hrow
    have hamount : row'.amount = row.amount := congrArg PayoutTerms.amount hterms
    have hplayer : row'.playerId = row.playerId := congrArg PayoutTerms.playerId hterms
    refine ⟨row', hrow', congrArg PayoutTerms.id hterms, ?_⟩
    rw [hamount, hplayer]
    by_cases hpaid : row.status = .paid
    · rw [hpaid] at hpath
      rw [eq_of_final hpath (.inl rfl), hpaid]
    · rw [if_neg (by simp [hpaid])]
      split_ifs
      · exact hamount ▸ hpos row' hrow'
      · exact le_refl 0
  · split_ifs
    · exact hpos row hrow
    · exact le_refl 0

/-! ## The law -/

/-- What a player is told agrees with what the ledger grants.  A player who
stays in an active arena is shown lives that remain exactly when it would be
admitted, under an unexpired lease and with room for it, its winnings are all
of its payouts, and what it has won never falls.  Where the clock has moved
between any two entries and lives, it is shown as alive exactly when a life of
it is alive and connected. -/
theorem told_agrees (decode : String → Option Invoice)
    {pool : Pool Op Op.Ans Fault (World × Log)} (h : Logs decode pool) {env : Env}
    (hfresh : env.Fresh pool.world.1.ledger) {arenaId token : String} {arena : Arena}
    {player : Participant} (harena : pool.world.1.ledger.arenas.get? arenaId = some arena)
    (hactive : arena.active = true)
    (hplayer : pool.world.1.ledger.participant env arenaId token = .ok (some player))
    (hstay : player.leaveState = .none) :
    ∃ state session, publicState env arenaId token pool.world.1.ledger = .ok state ∧
      state.session = some session ∧
      (env.now < arena.leaseUntil →
        ((∃ slot, pool.world.1.ledger.freeSlot arenaId = some slot) ∨
          ∃ l ∈ pool.world.1.ledger.lives, l.playerId = player.id ∧ l.status = .alive ∧
            l.runId = arena.runId) →
        ((∃ card, session.player = some card ∧ 0 < card.livesRemaining) ↔
          ∃ life σ', allocateLife env arenaId token arena.runId pool.world.1.ledger =
            .ok (life, σ'))) ∧
      (Timed decode pool →
        ((∃ card, session.player = some card ∧ card.status = .alive) ↔
          ∃ l ∈ pool.world.1.ledger.lives, l.playerId = player.id ∧ l.status = .alive ∧
            env.now < l.connectedUntil)) ∧
      session.won + session.pendingWinnings + session.failedWinnings =
        pool.world.1.ledger.payouts.sum
          (fun row => if row.playerId = player.id then row.amount else 0) ∧
      ∀ pool', Goes decode pool pool' → ∀ arena' now',
        session.won ≤ (pool'.world.1.ledger.session arena' player now').won := by
  have hrecorded : Recorded pool.world := (sound_of_logs h).1
  have hgenuine := Genuine.of_logs h
  have hsound := hgenuine.sound
  have htoken : token ≠ "" := by
    rintro rfl
    have hnone : tokenHash env "" = .error (.publicError "Invalid player session.") := rfl
    unfold participant at hplayer
    rw [hnone] at hplayer
    cases hplayer
  have hsession : pool.world.1.ledger.sessionPlayer env arenaId token = .ok (some player) := by
    unfold sessionPlayer
    rw [if_neg htoken]
    exact hplayer
  refine ⟨pool.world.1.ledger.stateOf arena (some player) env.now,
    pool.world.1.ledger.session arena player env.now, ?_, rfl, fun hlease hroom => ?_,
    fun htimed => ?_, ?_, ?_⟩
  · rw [publicState_of_arena harena, hsession]
    rfl
  · rw [livesRemaining_iff]
    constructor
    · intro hholds
      exact allocateLife_of_holds harena hactive hlease hplayer hstay hsound.exclusive hfresh
        hholds hroom
    · rintro ⟨life, σ', hrun⟩
      exact holds_of_allocateLife hsound.accounts hsound.funded hplayer hrun
  · exact alive_iff hsound.accounts hsound.funded (newest_of_timed htimed) hstay
  · exact winnings_eq fun row hrow => withheld_amount hrecorded hgenuine (k := .payouts) hrow
  · intro pool' hgoes arena' now'
    refine won_le h hgoes (fun row hrow => ?_) player.id
    exact (Genuine.of_logs (logs_of_goes h hgoes)).solvent.amounts .payouts row hrow

namespace Kill

open Duel

/-- The steps of a script, with no worker at work. -/
theorem timed_script {script : List (Env × Action)} {σ : Ledger}
    (hgame : ∀ step ∈ script, step.2.ofGame = true) (hfresh : QuakeJs.Follows Env.Fresh σ script)
    (hlater : QuakeJs.Follows Env.Later σ script)
    (h : Timed provider ⟨(⟨σ, [], []⟩, []), fun _ => .done (.ok ())⟩) :
    Timed provider ⟨(⟨script.foldl commit σ, [], []⟩, []), fun _ => .done (.ok ())⟩ := by
  induction script generalizing σ with
  | nil => exact h
  | cons step script ih =>
    apply ih (fun s hs => hgame s (List.mem_cons_of_mem step hs)) hfresh.2 hlater.2
    unfold commit
    cases hrun : perform step.1 step.2 σ with
    | error e => exact h
    | ok σ' =>
      have hstep := hgame step List.mem_cons_self
      have hdoes : OutsideLater ⟨σ, [], []⟩ ⟨σ', [], []⟩ :=
        ⟨step.1, step.2, σ', hstep, hfresh.1, hlater.1, hrun, rfl⟩
      have hdoes' : Unlogged OutsideLater (⟨σ, [], []⟩, ([] : Log)) (⟨σ', [], []⟩, []) :=
        ⟨hdoes, rfl⟩
      exact h.step (.world _ hdoes')

theorem timed_slain : Timed provider ⟨(⟨slain, [], []⟩, []), fun _ => .done (.ok ())⟩ := by
  have hduel := follows_append.mp duel_evaluates.2.1
  have hfresh : QuakeJs.Follows Env.Fresh (ledgerAfter opening) [slay] :=
    ⟨follows_opening.2.1, trivial⟩
  have hlater : QuakeJs.Follows Env.Later (ledgerAfter opening) [slay] := ⟨hduel.2.1, trivial⟩
  exact timed_script (by decide) (follows_append.mpr ⟨follows_opening.1, hfresh⟩)
    (follows_append.mpr ⟨hduel.1, hlater⟩) .initial

theorem fresh_slain : (tick 11).Fresh slain := by
  unfold slain
  rw [ledgerAfter_concat]
  exact follows_opening.2.2.1

/-- The winner is still alive, and owed the price of its kill. -/
theorem winner_evaluates :
    (slain.arenas.get? arenaId).any (fun a => a.active) = true
      ∧ ((slain.participant (tick 11) arenaId (token 'b')).toOption.join).any
          (fun p => p.id = winner && p.leaveState = .none) = true
      ∧ (∃ l ∈ slain.lives, l.playerId = winner ∧ l.status = .alive ∧
        (tick 11).now < l.connectedUntil)
      ∧ slain.payouts.sum (fun row => if row.playerId = winner then row.amount else 0) = 18 := by
  decide +kernel

/-- The clock is set back. -/
def rewound : Env :=
  { tick 12 with
    timeNs := 0 }

/-- The loser is admitted again, by the clock that was set back. -/
def readmit : Env × Action := (rewound, .allocateLife arenaId (token 'a') runId)

/-- The ledger after it. -/
def readmitted : Ledger := ledgerAfter (opening ++ [slay, readmit])

/-- The loser is alive and connected, and is told of its first life. -/
theorem readmit_evaluates :
    Short (ledgerAfter (opening ++ [slay])) (2 * 12)
      ∧ Short readmitted (2 * 13)
      ∧ (readmitted.arenas.get? arenaId).any (fun a => a.active) = true
      ∧ (readmitted.participant (tick 13) arenaId (token 'a')).toOption.join.any
          (fun p => p.leaveState = .none && readmitted.lives.any (fun l =>
            l.playerId = p.id && l.status = .alive && decide
              ((tick 13).now < l.connectedUntil))) =
          true
      ∧ (publicState (tick 13) arenaId (token 'a') readmitted).toOption.any
          (fun state => state.session.any fun session => session.player.any fun card =>
            card.status = .dead) = true := by
  decide +kernel

theorem logs_readmitted : ∃ log,
    Logs provider ⟨(⟨readmitted, [], []⟩, log), fun _ => .done (.ok ())⟩ := by
  have hfresh : rewound.Fresh (commit (ledgerAfter opening) slay) := by
    rw [← ledgerAfter_concat]
    exact tick_fresh (i := 12) rfl readmit_evaluates.1
  have hopening : QuakeJs.Follows Env.Fresh Ledger.empty (opening ++ [slay, readmit]) :=
    follows_append.mpr ⟨follows_opening.1, fresh_slay, hfresh, trivial⟩
  exact logs_of_commits (reachable_script (by decide) hopening .initial)

end Kill

open Kill Duel in
theorem told_agrees_slain : ∃ state session,
    publicState (tick 11) arenaId (token 'b') slain = .ok state ∧ state.session = some session ∧
      (∃ card, session.player = some card ∧ card.status = .alive) ∧
      session.won + session.pendingWinnings + session.failedWinnings = 18 := by
  obtain ⟨harena, hplayer, hlife, hsum⟩ := winner_evaluates
  have htimed := timed_slain
  have hfresh := fresh_slain
  generalize slain = σ at *
  obtain ⟨arena, harena, hactive⟩ := (Option.any_eq_true _ _).mp harena
  obtain ⟨player, hplayer, hstay⟩ := (Option.any_eq_true _ _).mp hplayer
  have hplayer' : σ.participant (tick 11) arenaId (token 'b') = .ok (some player) :=
    of_toOption (Option.join_eq_some_iff.mp hplayer)
  obtain ⟨hid, hstay⟩ : player.id = winner ∧ player.leaveState = .none := by simpa using hstay
  obtain ⟨state, session, hstate, hsession, -, halive, hwinnings, -⟩ :=
    told_agrees provider htimed.logs hfresh harena hactive hplayer' hstay
  rw [← hid] at hlife hsum
  exact ⟨state, session, hstate, hsession, (halive htimed).mpr hlife, hwinnings.trans hsum⟩

open Kill Duel in
/-- After the clock was set back, a player who is alive and connected is told
that it is dead: its newest life by `created_at` is one that it has lost. -/
theorem told_agrees_rewound :
    (∃ log, Logs provider ⟨(⟨readmitted, [], []⟩, log), fun _ => .done (.ok ())⟩) ∧
    (tick 13).Fresh readmitted ∧
    (∃ arena, readmitted.arenas.get? arenaId = some arena ∧ arena.active = true) ∧
    ∃ player, readmitted.participant (tick 13) arenaId (token 'a') = .ok (some player) ∧
      player.leaveState = .none ∧
      (∃ l ∈ readmitted.lives, l.playerId = player.id ∧ l.status = .alive ∧
        (tick 13).now < l.connectedUntil) ∧
      ∃ state session card, publicState (tick 13) arenaId (token 'a') readmitted = .ok state ∧
        state.session = some session ∧ session.player = some card ∧ card.status = .dead := by
  obtain ⟨-, hshort, harena, hplayer, hstate⟩ := readmit_evaluates
  refine ⟨logs_readmitted, tick_fresh rfl hshort, ?_, ?_⟩
  · exact (Option.any_eq_true _ _).mp harena
  · obtain ⟨player, hplayer, halive⟩ := (Option.any_eq_true _ _).mp hplayer
    obtain ⟨state, hstate, hsession⟩ := (Option.any_eq_true _ _).mp hstate
    obtain ⟨session, hsession, hcard⟩ := (Option.any_eq_true _ _).mp hsession
    obtain ⟨card, hcard, hdead⟩ := (Option.any_eq_true _ _).mp hcard
    obtain ⟨hstay, hlife⟩ := (Bool.and_eq_true _ _).mp halive
    obtain ⟨l, hl, hconnected⟩ := List.any_eq_true.mp hlife
    simp only [Bool.and_eq_true, decide_eq_true_eq] at hstay hconnected hdead
    exact ⟨player, of_toOption (Option.join_eq_some_iff.mp hplayer), hstay,
      ⟨l, hl, hconnected.1.1, hconnected.1.2, hconnected.2⟩,
      state, session, card, of_toOption hstate, hsession, hcard, hdead⟩

end QuakeJs.Payments
