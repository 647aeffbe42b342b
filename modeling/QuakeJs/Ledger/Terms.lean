import QuakeJs.Ledger.Display

/-!
# Displayed terms are the settled terms

What `public_arena` shows of an arena never changes, and it is what a kill
pays.  What `refund_state` estimates is what `finish_leave` pays back.
-/

namespace QuakeJs

open Ledger

/-! ## The price of an arena -/

/-- An arena keeps its price for ever. -/
theorem Reaches.price {ok : Env → Ledger → Prop} {σ τ : Ledger}
    (h : Reaches ok σ τ) {arena : Arena}
    (harena : arena ∈ σ.arenas) : ∃ arena' ∈ τ.arenas, arena'.price = arena.price := by
  induction h with
  | refl => exact ⟨arena, harena, rfl⟩
  | step env a _ _ hrun ih =>
    obtain ⟨arena₁, harena₁, hprice₁⟩ := ih
    obtain ⟨arena', harena', hprice⟩ := Fees.arenaStays hrun harena₁
    exact ⟨arena', harena', hprice.trans hprice₁⟩

theorem creatorFee_congr {a b : Arena} (h : b.price = a.price) : creatorFee b = creatorFee a := by
  simp only [Arena.price, Prod.mk.injEq] at h
  unfold creatorFee
  rw [h.2.2.2.1, h.2.2.2.2]

/-- Arenas with one price show the same terms. -/
theorem publicArena_congr {a b : Arena} (h : b.price = a.price) (n m : Nat) :
    (publicArena b m).prizePerKill = (publicArena a n).prizePerKill
      ∧ (publicArena b m).creatorPerKill = (publicArena a n).creatorPerKill := by
  have hfee := creatorFee_congr h
  simp only [Arena.price, Prod.mk.injEq] at h
  simp only [publicArena, hfee, h.2.1, h.2.2.1, and_self]

/-! ## The payouts of a kill -/

section

variable {env : Env} {σ σ' : Ledger}

/-- The rows for the death of a victim: one of the killer with the prize, and
one of the creator with the share, which is missing only if the share is
zero. -/
structure Rewards (victimId : Uid) (prize share : Int) (σ : Ledger) : Prop where
  kill : ∃ r ∈ σ.payouts, r.victimId = victimId ∧ r.amount = prize
    ∧ ∀ r' ∈ σ.payouts, r'.victimId = victimId → r' = r
  creator : ∀ r ∈ σ.creatorPayouts, r.victimId = victimId → r.amount = share
  owed : share ≠ 0 → ∃ r ∈ σ.creatorPayouts, r.victimId = victimId

/-- A payable kill queues its row, and the creator's row if it is positive. -/
theorem payKill_ok {arena : Arena} {entry : Entry} {victim killer : Life}
    (h : payKill env arena entry victim killer σ = .ok σ')
    (hfree : ∀ k, k ≠ .refundPayouts → ∀ r ∈ σ.outbox k, r.victimId ≠ victim.id) :
    Rewards victim.id (prizePerKill entry.amount (entry.haircut + creatorFee arena))
      (entry.amount * creatorFee arena / 500) σ' := by
  simp only [payKill, bind_ok_iff, orRaise_ok_iff] at h
  obtain ⟨destination, -, σ₁, hkill, hfee⟩ := h
  obtain ⟨-, ⟨⟨p, hp, hvictim⟩, -⟩ | ⟨-, t, ht, rfl⟩⟩ := queuePayout_ok hkill
  · exact absurd hvictim (hfree .payouts (by decide) p hp)
  have hkills : ∃ r ∈ t, r.victimId = victim.id
      ∧ r.amount = prizePerKill entry.amount (entry.haircut + creatorFee arena)
      ∧ ∀ r' ∈ t, r'.victimId = victim.id → r' = r := by
    refine ⟨_, (Table.mem_insert? ht).mpr (.inr rfl), rfl, rfl, fun r' hr' hvictim => ?_⟩
    rcases (Table.mem_insert? ht).mp hr' with hr' | rfl
    · exact absurd hvictim (hfree .payouts (by decide) r' hr')
    · rfl
  unfold queueFee at hfee
  split_ifs at hfee with hzero
  · rw [pure_ok_iff] at hfee
    subst hfee
    have hamount : entry.amount * creatorFee arena / 500 = 0 := hzero
    exact ⟨hkills, fun r hr hvictim => absurd hvictim (hfree .creatorPayouts (by decide) r hr),
      fun hne => absurd hamount hne⟩
  · obtain ⟨-, ⟨⟨p, hp, hvictim⟩, -⟩ | ⟨-, t', ht', rfl⟩⟩ := queuePayout_ok hfee
    · exact absurd hvictim (hfree .creatorPayouts (by decide) p hp)
    · refine ⟨hkills, fun r hr hvictim => ?_,
        fun _ => ⟨_, (Table.mem_insert? ht').mpr (.inr rfl), rfl⟩⟩
      rcases (Table.mem_insert? ht').mp hr with hr | rfl
      · exact absurd hvictim (hfree .creatorPayouts (by decide) r hr)
      · rfl

/-- The killer of a death is looked up after the victim has died, which makes
no difference. -/
theorem payableKiller_spent {arenaId runId killerId : Uid} {entry : Entry} {victim : Life} :
    (σ.spent env entry victim killerId).payableKiller arenaId runId victim killerId
      = σ.payableKiller arenaId runId victim killerId := by
  unfold payableKiller
  have hlives : (σ.spent env entry victim killerId).lives.get? killerId
      = if killerId = victim.id then (σ.lives.get? killerId).map (killed env killerId)
        else σ.lives.get? killerId :=
    Table.get?_updateKey (f := killed env killerId) _ _ fun _ => rfl
  rw [hlives]
  split_ifs with hself
  · have hnone : ∀ o : Option Life, o.filter (fun killer => killer.arenaId = arenaId
        && killer.runId = runId && killerId ≠ victim.id && killer.playerId ≠ victim.playerId)
        = none := by
      intro o
      cases o with
      | none => rfl
      | some l => simp [Option.filter, hself]
    rw [hnone, hnone]
  · rfl

/-- A death that is applied, by a killer who earns a payout. -/
structure Applied (env : Env) (runId : Uid) (sequence : Int) (victim killer : Life)
    (arenaId : Uid) (σ σ' : Ledger) : Prop where
  run : consumeDeath env runId sequence victim.id killer.id σ = .ok (arenaId, σ')
  mem : victim ∈ σ.lives
  alive : victim.status ≠ .dead
  dead : ∃ l ∈ σ'.lives, l.id = victim.id ∧ l.status = .dead
  payable : σ.payableKiller arenaId runId victim killer.id = some killer

/-- What an applied death pays. -/
theorem Applied.pays {runId : Uid} {sequence : Int} {victim killer : Life} {arenaId : Uid}
    (h : Applied env runId sequence victim killer arenaId σ σ') (hvictims : Victims σ) :
    ∃ entry ∈ σ.entries, entry.id = victim.entryId ∧ victim.arenaId = arenaId ∧
      ∃ row ∈ σ.arenas, row.id = arenaId ∧
        Rewards victim.id (prizePerKill entry.amount (entry.haircut + creatorFee row))
          (entry.amount * creatorFee row / 500) σ' := by
  obtain ⟨hrun, hmem, halive, ⟨l, hl, hlid, hdead⟩, hpayable⟩ := h
  have hstays : σ'.lives ≠ σ.lives := by
    intro heq
    rw [heq] at hl
    rw [Table.mem_inj hl hmem hlid] at hdead
    exact halive hdead
  simp only [consumeDeath, bind_ok_iff, orRaise_ok_iff, Prod.exists] at hrun
  obtain ⟨run, hrunrow, arena, σ₁, hlock, hrest⟩ := hrun
  obtain ⟨rfl, row, hrow, rfl, -⟩ := lockArena_ok hlock
  split_ifs at hrest with hseq
  · rw [pure_ok_iff, Prod.mk.injEq] at hrest
    exact absurd (by rw [← hrest.2]; rfl) hstays
  simp only [bind_ok_iff, require_ok_iff, orRaise_ok_iff, pure_ok_iff, Prod.mk.injEq] at hrest
  obtain ⟨_, -, victim', hvictim', _, ⟨-, hvarena⟩, σ₂, hend, rfl, rfl⟩ := hrest
  have hkey : run.id = runId := Table.key_of_get? hrunrow
  obtain ⟨hmem', hid'⟩ := Table.get?_eq_some.mp hvictim'
  obtain rfl : victim' = victim := Table.mem_inj hmem' hmem hid'
  unfold endLife at hend
  rw [if_neg halive] at hend
  simp only [spendLife, bind_ok_iff, require_ok_iff, orRaise_ok_iff] at hend
  obtain ⟨entry, hentry, _, -, hpay⟩ := hend
  obtain ⟨hrow, hrowid⟩ := Table.get?_eq_some.mp hrow
  obtain ⟨hentry, hentryid⟩ := Table.get?_eq_some.mp hentry
  refine ⟨entry, hentry, hentryid, hvarena, row, hrow, hrowid, ?_⟩
  have hkiller : ((σ.bumpArena run.arenaId).spent env entry victim' killer.id).payableKiller
      run.arenaId run.id victim' killer.id = some killer := by
    rw [payableKiller_spent, hkey]
    exact hpayable
  change payKiller env _ entry victim' (payableKiller
    ((σ.bumpArena run.arenaId).spent env entry victim' killer.id) _ _ _ _) _ = .ok σ₂ at hpay
  rw [hkiller] at hpay
  change payKill env { row with revision := row.revision + 1 } entry
    victim' killer _ = .ok σ₂ at hpay
  have hfree : ∀ k, k ≠ .refundPayouts →
      ∀ r ∈ ((σ.bumpArena run.arenaId).spent env entry victim' killer.id).outbox k,
        r.victimId ≠ victim'.id := by
    intro k hk r hr hvictim
    refine halive (hvictims.dead k hk r ?_ victim' hmem hvictim.symm)
    cases k <;> exact hr
  exact ⟨(payKill_ok hpay hfree).kill, (payKill_ok hpay hfree).creator,
    (payKill_ok hpay hfree).owed⟩

/-- An applied death pays what its arena shows. -/
theorem Applied.shown {runId : Uid} {sequence : Int} {victim killer : Life} {arenaId : Uid}
    (h : Applied env runId sequence victim killer arenaId σ σ') (hvictims : Victims σ)
    (hfees : Fees σ) (hacc : Accounts σ) : ∃ row ∈ σ.arenas, row.id = arenaId ∧ ∀ count,
      Rewards victim.id (publicArena row count).prizePerKill
        (publicArena row count).creatorPerKill σ' := by
  obtain ⟨entry, hentry, hid, harena, row, hrow, hrowid, hrewards⟩ := h.pays hvictims
  refine ⟨row, hrow, hrowid, fun count => ?_⟩
  obtain ⟨e, he, heid, -, hein⟩ := hacc.life victim h.mem
  obtain rfl : e = entry := Table.mem_inj he hentry (heid.trans hid.symm)
  obtain ⟨a, ha, haid, hamount, hhaircut⟩ := hfees.entries e he
  obtain rfl : a = row :=
    Table.mem_inj ha hrow (haid.trans (hein.trans (harena.trans hrowid.symm)))
  rw [← hamount, ← hhaircut] at hrewards
  exact hrewards

end

/-! ## The refund of a leave -/

/-- A death of a life of the player, a settlement of one of its entries, or
its refund. -/
def Action.Disturbs (a : Action) (playerId : Uid) (σ : Ledger) : Prop :=
  match a with
  | .consumeDeath _ _ victimId _ => ∃ l ∈ σ.lives, l.id = victimId ∧ l.playerId = playerId
  | .settleEntry payment =>
    ∃ e ∈ σ.entries, payment.quakejsEntry = some e.id ∧ e.playerId = playerId
  | .finishLeave id _ => id = playerId
  | _ => False

/-- A run in which nothing disturbs the player. -/
inductive Waiting (playerId : Uid) (σ : Ledger) : Ledger → Prop
  | refl : Waiting playerId σ σ
  | step {τ τ' : Ledger} (env : Env) (a : Action) (wait : Waiting playerId σ τ)
      (meets : Env.Fresh env τ) (calm : ¬a.Disturbs playerId τ) (run : perform env a τ = .ok τ') :
      Waiting playerId σ τ'

theorem Waiting.reaches {playerId : Uid} {σ τ : Ledger} (h : Waiting playerId σ τ) :
    Reaches Env.Fresh σ τ := by
  induction h with
  | refl => exact .refl
  | step env a _ hmeets _ hrun ih => exact .step env a ih hmeets hrun

/-- What an entry adds to the estimate of a player. -/
def owed (arena : Arena) (playerId : Uid) (e : Entry) : Int :=
  if (e.playerId = playerId && e.status = .paid && 0 < e.remaining) = true then
    (refundAmounts e arena).1
  else 0

theorem estimate_eq (σ : Ledger) (player : Participant) (arena : Arena) :
    (σ.refundState player arena).estimate = σ.entries.sum (owed arena player.id) := by
  show ((σ.entries.rows.filter _).map _).sum = (σ.entries.rows.map _).sum
  induction σ.entries.rows with
  | nil => rfl
  | cons e rest ih =>
    rw [List.map_cons, List.sum_cons, ← ih, List.filter_cons]
    unfold owed
    split_ifs
    · rfl
    · exact (Int.zero_add _).symm

/-- A step that does not disturb the player keeps what its entries add. -/
theorem owed_turns {env : Env} {a : Action} {σ : Ledger} {e e' : Entry} {playerId : Uid}
    (h : EntryTurns env a σ e e') (he : e ∈ σ.entries) (hacc : Accounts σ)
    (hcalm : ¬a.Disturbs playerId σ) (arena : Arena) :
    owed arena playerId e' = owed arena playerId e := by
  by_cases howner : e.playerId = playerId
  swap
  · have howner' : e'.playerId ≠ playerId := by
      have hkept := congrArg Entry.playerId h.kept
      exact fun heq => howner (hkept.symm.trans heq)
    unfold owed
    simp [howner, howner']
  cases h with
  | same => rfl
  | invoiced payment _ creating _ _ => simp [owed, Ledger.invoiced, creating]
  | credited payment call funds _ _ _ _ _ =>
    subst call
    exact absurd ⟨e, he, funds.names, howner⟩ hcalm
  | returned payment call funds _ _ _ _ _ =>
    subst call
    exact absurd ⟨e, he, funds.names, howner⟩ hcalm
  | charged _ _ victim _ call mem entry _ _ =>
    subst call
    obtain ⟨e₁, he₁, hid, hplayer, -⟩ := hacc.life victim mem
    obtain rfl : e₁ = e := Table.mem_inj he₁ he (hid.trans entry)
    exact absurd ⟨victim, mem, rfl, hplayer.symm.trans howner⟩ hcalm
  | refunded _ call _ _ _ _ _ =>
    subst call
    exact absurd howner hcalm

/-- While nothing disturbs a player, the player keeps leaving, and is owed the
same. -/
theorem Waiting.owed {σ τ : Ledger} {player : Participant} (h : Waiting player.id σ τ)
    (hreach : Reachable Env.Fresh σ) (hplayer : player ∈ σ.participants)
    (hleaving : player.leaveState = .leaving) (arena : Arena) :
    (∃ p ∈ τ.participants, p.id = player.id ∧ p.arenaId = player.arenaId
      ∧ p.leaveState = .leaving)
    ∧ τ.entries.sum (owed arena player.id) = σ.entries.sum (owed arena player.id) := by
  induction h with
  | refl => exact ⟨⟨player, hplayer, rfl, rfl, hleaving⟩, rfl⟩
  | step env a hwait hmeets hcalm hrun ih =>
    obtain ⟨⟨p, hp, hid, hin, hleaves⟩, hsum⟩ := ih
    constructor
    · obtain ⟨p', hp', hkey, hturn⟩ := (perform_players hrun).old p hp
      refine ⟨p', hp', hkey.trans hid, ?_⟩
      cases hturn with
      | same => exact ⟨hin, hleaves⟩
      | addressed => exact ⟨hin, hleaves⟩
      | asked _ _ staying => exact absurd (hleaves.symm.trans staying) (by decide)
      | gone _ call _ =>
        subst call
        exact absurd hid hcalm
    · rw [← hsum]
      refine (perform_entries hrun).sum_eq (fun e he e' _ hturn => ?_) fun e' _ hnew => ?_
      · exact owed_turns hturn he (.of_reachable (hreach.trans hwait.reaches)) hcalm arena
      · simp [QuakeJs.owed, hnew.status]

theorem amounts_refunds {arena : Arena} {entries : List Entry} {rows : List Payout}
    (h : List.Forall₂ (Refunds arena) entries rows) :
    rows.map Payout.amount = entries.map (fun e => (refundAmounts e arena).1) := by
  induction h with
  | nil => rfl
  | cons hone _ ih => rw [List.map_cons, List.map_cons, hone.amount, ih]

/-- The rows that the completion of a leave appends. -/
theorem finishLeave_repays {env : Env} {playerId revokedRun : Uid} {σ σ' : Ledger}
    {player : Participant} (hplayer : player ∈ σ.participants) (hid : player.id = playerId)
    (hleaving : player.leaveState = .leaving)
    (h : finishLeave env playerId revokedRun σ = .ok σ') :
    ∃ row ∈ σ.arenas, row.id = player.arenaId
      ∧ ∃ rows, σ'.refundPayouts.rows = σ.refundPayouts.rows ++ rows
        ∧ (rows.map Payout.amount).sum = (σ.refundState player row).estimate := by
  obtain ⟨p, hp, row, hrow, hcases⟩ := finishLeave_ok h
  obtain ⟨hmem, hkey⟩ := Table.get?_eq_some.mp hp
  obtain rfl : p = player := Table.mem_inj hmem hplayer (hkey.trans hid.symm)
  obtain ⟨hleft, -⟩ | ⟨-, -, σ₂, hrefunds, rfl⟩ := hcases
  · exact absurd (hleaving.symm.trans hleft) (by decide)
  obtain ⟨hrowmem, hrowid⟩ := Table.get?_eq_some.mp hrow
  refine ⟨row, hrowmem, hrowid, ?_⟩
  have hselected : ∀ e ∈ σ.entries.select
      (fun e => e.playerId = playerId && e.status = .paid && 0 < e.remaining),
      e.status = .paid ∧ 0 < e.remaining := by
    intro e he
    have hsel := (Table.mem_select.mp he).2
    simp only [Bool.and_eq_true, decide_eq_true_eq] at hsel
    exact ⟨hsel.1.2, hsel.2⟩
  obtain ⟨-, ⟨rows, hrows, hall⟩, -⟩ := refundEntries_repaid hselected hrefunds
  refine ⟨rows, hrows, ?_⟩
  subst hid
  have hamounts := amounts_refunds hall
  exact congrArg List.sum hamounts

/-! ## The law -/

/-- Displayed terms are the settled terms.  A payable death pays what
`public_arena` shows of the arena at any time, and the completion of a leave
pays back what `refund_state` estimated, if nothing was settled and no life
has died since. -/
theorem displayed_terms {σ : Ledger} (h : Reachable Env.Fresh σ) :
    (∀ env runId sequence victim killer arenaId σ', Env.Fresh env σ →
      Applied env runId sequence victim killer arenaId σ σ' →
      ∀ τ, Reachable Env.Fresh τ ∧ Reaches Env.Fresh τ σ ∨ Reaches Env.Fresh σ' τ →
        ∀ arena ∈ τ.arenas, arena.id = arenaId → ∀ count,
          Rewards victim.id (publicArena arena count).prizePerKill
            (publicArena arena count).creatorPerKill σ')
    ∧ ∀ player ∈ σ.participants, player.leaveState = .leaving →
      ∀ arena ∈ σ.arenas, arena.id = player.arenaId → ∀ τ, Waiting player.id σ τ →
        ∀ env revokedRun τ', finishLeave env player.id revokedRun τ = .ok τ' →
          ∃ rows, τ'.refundPayouts.rows = τ.refundPayouts.rows ++ rows
            ∧ (rows.map Payout.amount).sum = (σ.refundState player arena).estimate := by
  refine ⟨fun env runId sequence victim killer arenaId σ' hfresh happlied τ hτ arena harena hid
    count => ?_, fun player hplayer hleaving arena harena hid τ
      hwait env revokedRun τ' hrun => ?_⟩
  · obtain ⟨row, hrow, hrowid, hrewards⟩ :=
      happlied.shown (.of_reachable h) (.of_reachable h) (.of_reachable h)
    have hprice : arena.price = row.price := by
      rcases hτ with ⟨-, hτ⟩ | hτ
      · obtain ⟨a, ha, hprice⟩ := hτ.price harena
        have haid : a.id = arena.id := congrArg Prod.fst hprice
        rw [← hprice, Table.mem_inj ha hrow (haid.trans (hid.trans hrowid.symm))]
      · have hrun : perform env (.consumeDeath runId sequence
          victim.id killer.id) σ = .ok σ' := by
          show (consumeDeath _ _ _ _ _ _).map Prod.snd = _
          rw [happlied.run]
          rfl
        obtain ⟨a, ha, hprice⟩ := (Reaches.step env _ .refl hfresh hrun).price hrow
        obtain ⟨b, hb, hprice'⟩ := hτ.price ha
        have hbid : b.id = row.id := congrArg Prod.fst (hprice'.trans hprice)
        rw [← hprice, ← hprice', Table.mem_inj hb harena (hbid.trans (hrowid.trans hid.symm))]
    obtain ⟨hprize, hshare⟩ := publicArena_congr hprice count count
    rw [hprize, hshare]
    exact hrewards count
  · obtain ⟨⟨p, hp, hpid, hin, hleaves⟩, hsum⟩ := hwait.owed h hplayer hleaving arena
    obtain ⟨row, hrow, hrowid, rows, hrows, hamount⟩ :=
      finishLeave_repays hp hpid hleaves hrun
    refine ⟨rows, hrows, hamount.trans ?_⟩
    obtain ⟨a, ha, hprice⟩ := hwait.reaches.price harena
    have haid : a.id = arena.id := congrArg Prod.fst hprice
    obtain rfl : a = row :=
      Table.mem_inj ha hrow (haid.trans (hid.trans (hin.symm.trans hrowid.symm)))
    have hsame : owed a p.id = owed arena player.id := by
      funext e
      simp only [Arena.price, Prod.mk.injEq] at hprice
      unfold owed
      rw [refundAmounts_congr hprice.2.2.2.1 hprice.2.2.2.2, hpid]
    rw [estimate_eq, estimate_eq, hsame, hsum]

open Duel in
theorem displayed_terms_duel :
    (∃ r ∈ (commit (ledgerAfter opening) slay).payouts, r.victimId = lifeA ∧ r.amount = 18)
    ∧ ∃ rows, (ledgerAfter duel).refundPayouts.rows
        = (ledgerAfter leaving).refundPayouts.rows ++ rows
      ∧ (rows.map Payout.amount).sum = 90 := by
  obtain ⟨victim, hvictim, killer, -, hvid, hkid, halive, hpayable⟩ :
      ∃ victim ∈ (ledgerAfter opening).lives, ∃ killer ∈ (ledgerAfter opening).lives,
        victim.id = lifeA ∧ killer.id = lifeB ∧ victim.status ≠ .dead
          ∧ (ledgerAfter opening).payableKiller arenaId runId victim killer.id = some killer := by
    decide
  obtain ⟨arena, harena, hin, hprize⟩ : ∃ arena ∈ (ledgerAfter opening).arenas,
      arena.id = arenaId ∧ (publicArena arena 2).prizePerKill = 18 := by decide
  obtain ⟨p, hp, hpid, hleaving, game, hgame, hgameid, hestimate⟩ :
      ∃ p ∈ (ledgerAfter leaving).participants, p.id = (tick 3).uid 0 ∧ p.leaveState = .leaving
        ∧ ∃ arena ∈ (ledgerAfter leaving).arenas, arena.id = p.arenaId
          ∧ ((ledgerAfter leaving).refundState p arena).estimate = 90 := by decide
  constructor
  · have hperform : (consumeDeath slay.1 runId 1 lifeA lifeB (ledgerAfter opening)).map Prod.snd
        = .ok (commit (ledgerAfter opening) slay) := perform_slay
    obtain ⟨a, hrun⟩ := map_snd_ok hperform
    have ha : (consumeDeath slay.1 runId 1 lifeA lifeB
      (ledgerAfter opening)).toOption.map Prod.fst
        = some arenaId := by decide
    rw [hrun] at ha
    obtain rfl : a = arenaId := Option.some.inj ha
    have happlied : Applied slay.1 runId 1 victim killer arenaId (ledgerAfter opening)
        (commit (ledgerAfter opening) slay) :=
      ⟨by rw [hvid, hkid]; exact hrun, hvictim, halive, by rw [hvid]; decide, hpayable⟩
    obtain ⟨r, hr, hrvictim, hamount, -⟩ := ((displayed_terms reachable_opening).1 _ _ _ _ _ _ _
      fresh_slay happlied _ (.inl ⟨reachable_opening, .refl⟩) arena harena hin 2).kill
    exact ⟨r, hr, hrvictim.trans hvid, hamount.trans hprize⟩
  · obtain ⟨rows, hrows, hsum⟩ := (displayed_terms reachable_leaving).2 p hp hleaving game hgame
      hgameid _ .refl leave.1 runId _ (by rw [hpid]; exact perform_leave)
    exact ⟨rows, hrows, hsum.trans hestimate⟩

end QuakeJs
