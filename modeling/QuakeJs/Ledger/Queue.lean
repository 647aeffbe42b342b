import QuakeJs.Ledger.Run

/-!
# What the game does to the outboxes

The transactions of the game only append to the three outboxes.  A new row is
queued, or withheld when it is worth nothing, nobody has claimed it, and its
id is used in no outbox.
-/

namespace QuakeJs

/-- The transactions that are not those of the payout workers. -/
def Action.ofGame : Action → Bool
  | .claimPayout | .updatePayout .. | .releasePayout .. => false
  | _ => true

namespace Ledger

theorem outbox_setOutbox_of_ne (σ : Ledger) {k k' : Outbox} (t : Table Payout) (h : k' ≠ k) :
    (σ.setOutbox k t).outbox k' = σ.outbox k' := by
  cases k <;> cases k' <;> first | rfl | exact absurd rfl h

/-- The row was queued and not touched since. -/
structure Queued (r : Payout) : Prop where
  claim : r.claim = ""
  status : r.status = .queued ∨ r.status = .withheld ∧ r.amount = 0
  paymentHash : r.paymentHash = none
  attempts : r.attempts = 0

/-- The outboxes have grown by queued rows. -/
structure Grows (σ σ' : Ledger) : Prop where
  claims : σ'.invoiceClaims = σ.invoiceClaims
  kept : ∀ k, ∀ r ∈ σ.outbox k, r ∈ σ'.outbox k
  added : ∀ k, ∀ r ∈ σ'.outbox k, r ∈ σ.outbox k ∨
    Queued r ∧ ∀ k', ∀ r' ∈ σ'.outbox k', r'.id = r.id → k' = k

theorem Grows.of_eq {σ σ' : Ledger} (hclaims : σ'.invoiceClaims = σ.invoiceClaims)
    (houtbox : ∀ k, σ'.outbox k = σ.outbox k) : Grows σ σ' where
  claims := hclaims
  kept := fun k r hr => by rw [houtbox k]; exact hr
  added := fun k r hr => .inl (by rw [← houtbox k]; exact hr)

theorem Grows.trans {σ₁ σ₂ σ₃ : Ledger} (h : Grows σ₁ σ₂) (h' : Grows σ₂ σ₃) : Grows σ₁ σ₃ where
  claims := h'.claims.trans h.claims
  kept := fun k r hr => h'.kept k r (h.kept k r hr)
  added := by
    intro k r hr
    rcases h'.added k r hr with hold | hnew
    · rcases h.added k r hold with holder | ⟨hqueued, hunique⟩
      · exact .inl holder
      · refine .inr ⟨hqueued, ?_⟩
        intro k' r' hr' hid
        -- A row of the second step shares its id with no row of the first.
        rcases h'.added k' r' hr' with hr' | ⟨-, hunique'⟩
        · exact hunique k' r' hr' hid
        · exact (hunique' k r hr hid.symm).symm
    · exact .inr hnew

/-- No outbox uses one of the ids from the `n`th on. -/
def Unused (env : Env) (n : Nat) (σ : Ledger) : Prop :=
  ∀ m, n ≤ m → ∀ k, ∀ r ∈ σ.outbox k, r.id ≠ env.uid m

theorem Unused.of_fresh {env : Env} {σ : Ledger} (h : Env.Fresh env σ) : Unused env 0 σ := by
  intro m _ k r hr hid
  exact Table.get?_eq_none.mp (h.payouts m k) r hr hid

theorem Unused.mono {env : Env} {σ : Ledger} {n m : Nat} (h : Unused env n σ) (hnm : n ≤ m) :
    Unused env m σ :=
  fun i hi => h i (hnm.trans hi)

theorem Unused.of_eq {env : Env} {σ σ' : Ledger} {n : Nat} (h : Unused env n σ)
    (houtbox : ∀ k, σ'.outbox k = σ.outbox k) : Unused env n σ' :=
  fun m hm k r hr => h m hm k r (by rw [← houtbox k]; exact hr)

/-- The row with the `n`th id is appended to an outbox. -/
theorem Grows.insert {env : Env} {σ : Ledger} {k : Outbox} {row : Payout} {t : Table Payout}
    {n : Nat} (hinj : Function.Injective env.uid) (hunused : Unused env n σ)
    (hid : row.id = env.uid n) (hqueued : Queued row) (h : (σ.outbox k).insert? row = some t) :
    Grows σ (σ.setOutbox k t) ∧ Unused env (n + 1) (σ.setOutbox k t) := by
  have hmem : ∀ k', ∀ r ∈ (σ.setOutbox k t).outbox k', r ∈ σ.outbox k' ∨ r = row ∧ k' = k := by
    intro k' r hr
    by_cases hk : k' = k
    · rw [hk, outbox_setOutbox, Table.mem_insert? h] at hr
      rcases hr with hr | rfl
      · exact .inl (hk ▸ hr)
      · exact .inr ⟨rfl, hk⟩
    · rw [outbox_setOutbox_of_ne σ t hk] at hr
      exact .inl hr
  refine ⟨⟨by cases k <;> rfl, ?_, ?_⟩, ?_⟩
  · intro k' r hr
    by_cases hk : k' = k
    · rw [hk, outbox_setOutbox]
      exact (Table.mem_insert? h).mpr (.inl (hk ▸ hr))
    · rw [outbox_setOutbox_of_ne σ t hk]
      exact hr
  · intro k' r hr
    rcases hmem k' r hr with hold | ⟨rfl, rfl⟩
    · exact .inl hold
    · refine .inr ⟨hqueued, ?_⟩
      intro k'' r' hr' heq
      rcases hmem k'' r' hr' with hold | ⟨-, hk⟩
      · exact absurd (heq.trans hid) (hunused n (le_refl n) k'' r' hold)
      · exact hk
  · intro m hm k' r hr
    rcases hmem k' r hr with hold | ⟨rfl, -⟩
    · exact hunused m (by omega) k' r hold
    · rw [hid]
      intro heq
      have hnm := hinj heq
      omega

theorem queued_newPayout {env : Env}
    {id arenaId victimId killerId playerId walletId lnAddress : Uid}
    {amount : Int} {status : PayoutStatus}
    (h : status = .queued ∨ status = .withheld ∧ amount = 0) :
    Queued (newPayout env id arenaId victimId killerId playerId
      walletId lnAddress amount status) :=
  ⟨rfl, h, rfl, rfl⟩

theorem withheld_or_queued (amount : Int) :
    (if amount = 0 then PayoutStatus.withheld else .queued) = .queued ∨
      (if amount = 0 then PayoutStatus.withheld else .queued) = .withheld ∧ amount = 0 := by
  by_cases h : amount = 0
  · rw [if_pos h]
    exact .inr ⟨rfl, h⟩
  · rw [if_neg h]
    exact .inl rfl

/-! ## The transactions that queue payouts -/

/-- The payouts of a death have the first two ids. -/
theorem Paid.grows {env : Env} {arena : Arena} {entry : Entry} {victim : Life} {σ σ' : Ledger}
    (h : Paid env arena entry victim σ σ') (hinj : Function.Injective env.uid)
    (hunused : Unused env 0 σ) : Grows σ σ' := by
  have hkill : Grows σ (σ.setOutbox .payouts σ'.payouts) ∧
      Unused env 1 (σ.setOutbox .payouts σ'.payouts) := by
    rcases h.kill with heq | ⟨-, -, destination, killer, hinsert⟩
    · have hsame : σ.setOutbox .payouts σ'.payouts = σ := by
        rw [heq]
        exact setOutbox_outbox σ .payouts
      rw [hsame]
      exact ⟨.of_eq rfl fun _ => rfl, hunused.mono (by omega)⟩
    · exact Grows.insert (k := .payouts) hinj hunused rfl
        (queued_newPayout (withheld_or_queued _)) hinsert
  have hfee : Grows (σ.setOutbox .payouts σ'.payouts)
      ((σ.setOutbox .payouts σ'.payouts).setOutbox .creatorPayouts σ'.creatorPayouts) := by
    rcases h.fee with heq | ⟨-, -, killer, hinsert⟩
    · rw [heq]
      exact .of_eq rfl fun k => by cases k <;> rfl
    · exact (Grows.insert (k := .creatorPayouts) hinj hkill.2 rfl
        (queued_newPayout (.inl rfl)) hinsert).1
  rw [h.only]
  exact hkill.1.trans hfee

/-- A refund uses up two ids. -/
theorem refundEntry_grows {σ σ' : Ledger} {env : Env} {n : Nat} {entry : Entry} {arena : Arena}
    (hinj : Function.Injective env.uid) (hunused : Unused env n σ)
    (h : refundEntry env n entry arena σ = .ok σ') : Grows σ σ' ∧ Unused env (n + 2) σ' := by
  obtain ⟨-, rfl⟩ | ⟨-, -, -, -, refunds, fees, hrefund, hfee, rfl⟩ := refundEntry_ok h
  · exact ⟨.of_eq rfl fun _ => rfl, hunused.mono (by omega)⟩
  · have hfirst := Grows.insert (k := .refundPayouts) hinj hunused rfl
      (queued_newPayout (withheld_or_queued _)) hrefund
    have hrest : ∀ τ : Ledger, τ.refundPayouts = refunds → τ.payouts = σ.payouts →
        τ.creatorPayouts = fees → τ.invoiceClaims = σ.invoiceClaims →
        Grows (σ.setOutbox .refundPayouts refunds) τ ∧ Unused env (n + 2) τ := by
      intro τ hrefunds hpayouts hfees hclaims
      rcases hfee with ⟨-, heq⟩ | ⟨-, -, hinsert⟩
      · have hsame : ∀ k, τ.outbox k = (σ.setOutbox .refundPayouts refunds).outbox k := by
          rintro (_ | _ | _)
          · exact hpayouts
          · exact hfees.trans heq
          · exact hrefunds
        exact ⟨.of_eq hclaims hsame, (hfirst.2.of_eq hsame).mono (by omega)⟩
      · have hsecond := Grows.insert (k := .creatorPayouts) hinj hfirst.2 rfl
          (queued_newPayout (.inl rfl)) hinsert
        have hsame : ∀ k, τ.outbox k =
            ((σ.setOutbox .refundPayouts refunds).setOutbox .creatorPayouts fees).outbox k := by
          rintro (_ | _ | _)
          · exact hpayouts
          · exact hfees
          · exact hrefunds
        exact ⟨hsecond.1.trans (.of_eq hclaims hsame), (hsecond.2.of_eq hsame).mono (by omega)⟩
    have hend := hrest { σ with
      refundPayouts := refunds
      creatorPayouts := fees
      entries := σ.entries.updateKey entry.id emptied (fun _ => rfl) } rfl rfl rfl rfl
    exact ⟨hfirst.1.trans hend.1, hend.2⟩

theorem refundEntries_grows {env : Env} {arena : Arena} {entries : List Entry} {n : Nat}
    {σ σ' : Ledger} (hinj : Function.Injective env.uid) (hunused : Unused env n σ)
    (h : refundEntries env arena n entries σ = .ok σ') : Grows σ σ' := by
  induction entries generalizing n σ with
  | nil =>
    rw [refundEntries, pure_ok_iff] at h
    rw [h]
    exact .of_eq rfl fun _ => rfl
  | cons entry rest ih =>
    rw [refundEntries, bind_ok_iff] at h
    obtain ⟨σ₁, hone, hrest⟩ := h
    have hfirst := refundEntry_grows hinj hunused hone
    exact hfirst.1.trans (ih hfirst.2 hrest)

theorem finishLeave_grows {σ σ' : Ledger} {env : Env} {playerId revokedRun : Uid}
    (hinj : Function.Injective env.uid) (hunused : Unused env 0 σ)
    (h : finishLeave env playerId revokedRun σ = .ok σ') : Grows σ σ' := by
  obtain ⟨player, -, row, -, ⟨-, rfl⟩ | ⟨-, -, σ₂, hrefunds, rfl⟩⟩ := finishLeave_ok h
  · exact .of_eq rfl fun k => by cases k <;> rfl
  · have hbump : ∀ k, (σ.bumpArena player.arenaId).outbox k = σ.outbox k :=
      fun k => by cases k <;> rfl
    have hgrows := refundEntries_grows hinj (hunused.of_eq hbump) hrefunds
    have hstart : Grows σ (σ.bumpArena player.arenaId) := .of_eq rfl hbump
    exact (hstart.trans hgrows).trans (.of_eq rfl fun k => by cases k <;> rfl)

theorem settleEntry_grows {σ σ' : Ledger} {env : Env} {payment : Payment} {arena? : Option Uid}
    (hinj : Function.Injective env.uid) (hunused : Unused env 0 σ)
    (h : settleEntry env payment σ = .ok (arena?, σ')) : Grows σ σ' := by
  obtain rfl | ⟨-, -, -, entry, -, -, -, -, -, hcredit⟩ := settleEntry_ok h
  · exact .of_eq rfl fun _ => rfl
  · cases hcredit with
    | again _ eq =>
      rw [eq]
      exact .of_eq rfl fun k => by cases k <;> rfl
    | first _ _ player _ staying leaving left =>
      cases hs : player.leaveState with
      | none =>
        rw [staying hs]
        exact .of_eq rfl fun k => by cases k <;> rfl
      | leaving =>
        rw [leaving hs]
        exact .of_eq rfl fun k => by cases k <;> rfl
      | left =>
        obtain ⟨_, -, hrefund⟩ := left hs
        have hcredited : ∀ k, (σ.creditLedger entry payment).outbox k = σ.outbox k :=
          fun k => by cases k <;> rfl
        have hstart : Grows σ (σ.creditLedger entry payment) := .of_eq rfl hcredited
        exact hstart.trans (refundEntry_grows hinj (hunused.of_eq hcredited) hrefund).1

theorem consumeDeath_grows {σ σ' : Ledger} {env : Env} {runId victimId killerId arenaId : Uid}
    {sequence : Int} (hinj : Function.Injective env.uid) (hunused : Unused env 0 σ)
    (h : consumeDeath env runId sequence victimId killerId σ = .ok (arenaId, σ')) :
    Grows σ σ' := by
  obtain ⟨run, -, -, row, -, ⟨-, rfl⟩ | ⟨-, victim, -, -, -, σ₂, hend, rfl⟩⟩ := consumeDeath_ok h
  · exact .of_eq rfl fun k => by cases k <;> rfl
  · have hmoved : Grows σ₂ { σ₂ with
        runs := σ.runs.updateKey runId (fun r => { r with eventSequence := sequence })
          (fun _ => rfl) } := .of_eq rfl fun k => by cases k <;> rfl
    rcases hend with ⟨-, rfl⟩ | ⟨-, entry, -, -, hpaid⟩
    · have hbump : Grows σ (σ.bumpArena run.arenaId) := .of_eq rfl fun k => by cases k <;> rfl
      exact hbump.trans hmoved
    · have hspent : ∀ k, ((σ.bumpArena run.arenaId).spent env entry victim killerId).outbox k =
          σ.outbox k := fun k => by cases k <;> rfl
      have hstart : Grows σ ((σ.bumpArena run.arenaId).spent env entry victim killerId) :=
        .of_eq rfl hspent
      exact (hstart.trans (hpaid.grows hinj (hunused.of_eq hspent))).trans hmoved

/-- The statements that touch no payout. -/
theorem Grows.of_untouched {σ σ' : Ledger} (hclaims : σ'.invoiceClaims = σ.invoiceClaims)
    (hpayouts : σ'.payouts = σ.payouts) (hcreator : σ'.creatorPayouts = σ.creatorPayouts)
    (hrefund : σ'.refundPayouts = σ.refundPayouts) : Grows σ σ' := by
  refine .of_eq hclaims ?_
  rintro (_ | _ | _)
  · exact hpayouts
  · exact hcreator
  · exact hrefund

end Ledger

open Ledger in
/-- A transaction of the game appends queued rows to the outboxes, if anything. -/
theorem perform_grows {env : Env} {a : Action} {σ σ' : Ledger} (hgame : a.ofGame = true)
    (hfresh : Env.Fresh env σ) (hrun : perform env a σ = .ok σ') : Grows σ σ' := by
  have hunused := Unused.of_fresh hfresh
  cases a with
  | saveSettings owner walletId enabled haircut allow =>
    obtain ⟨settings, rfl, -⟩ := saveSettings_ok hrun
    exact .of_untouched rfl rfl rfl rfl
  | createArena owner data =>
    obtain ⟨arena, hrun⟩ := map_snd_ok hrun
    obtain ⟨_, arenas, -, rfl, -⟩ := createArena_ok hrun
    exact .of_untouched rfl rfl rfl rfl
  | createGame publicId data =>
    obtain ⟨arena, hrun⟩ := map_snd_ok hrun
    obtain ⟨_, -, -, -, ⟨-, -, -, rfl⟩ | ⟨-, -, -, -, -, arenas, -, rfl⟩⟩ := createGame_ok hrun
    · exact .of_untouched rfl rfl rfl rfl
    · exact .of_untouched rfl rfl rfl rfl
  | reserveEntry arenaId token data =>
    obtain ⟨⟨entry, new⟩, hrun⟩ := map_snd_ok hrun
    obtain ⟨row, -, -, ⟨-, -, rfl⟩ | ⟨-, _, _, participants, entries, -, -, -, -, -, rfl⟩⟩ :=
      reserveEntry_ok hrun
    · exact .of_untouched rfl rfl rfl rfl
    · exact .of_untouched rfl rfl rfl rfl
  | recordInvoice entryId payment =>
    obtain rfl | ⟨entry, -, -, -, -, rfl⟩ := recordInvoice_ok hrun
    · exact .of_untouched rfl rfl rfl rfl
    · exact .of_untouched rfl rfl rfl rfl
  | settleEntry payment =>
    obtain ⟨arena?, hrun⟩ := map_snd_ok hrun
    exact settleEntry_grows hfresh.injective hunused hrun
  | consumeDeath runId sequence victimId killerId =>
    obtain ⟨arenaId, hrun⟩ := map_snd_ok hrun
    exact consumeDeath_grows hfresh.injective hunused hrun
  | allocateLife arenaId token runId =>
    obtain ⟨life, hrun⟩ := map_snd_ok hrun
    obtain ⟨row, -, -, -, -, player, -, -, -, -, hadmission⟩ := allocateLife_ok hrun
    cases hadmission <;> (subst_vars; exact .of_untouched rfl rfl rfl rfl)
  | requestLeave arenaId token =>
    obtain ⟨player, hrun⟩ := map_snd_ok hrun
    obtain ⟨p, -, -, -, ⟨-, -, rfl⟩ | ⟨-, -, -, rfl⟩⟩ := requestLeave_ok hrun
    · exact .of_untouched rfl rfl rfl rfl
    · exact .of_untouched rfl rfl rfl rfl
  | finishLeave playerId revokedRun => exact finishLeave_grows hfresh.injective hunused hrun
  | expireGame arenaId =>
    obtain ⟨expired, hrun⟩ := map_snd_ok hrun
    obtain ⟨row, -, hexpiry⟩ := expireGame_ok hrun
    cases hexpiry <;> (subst_vars; exact .of_untouched rfl rfl rfl rfl)
  | closeGame arenaId owner =>
    obtain ⟨row, -, -, rfl⟩ := closeGame_ok hrun
    exact .of_untouched rfl rfl rfl rfl
  | leaseArena worker arenaId =>
    obtain ⟨⟨arena, oldRuns⟩, hrun⟩ := map_snd_ok hrun
    obtain ⟨_, -, -, -, -, -, -, rfl⟩ := leaseArena_ok hrun
    exact .of_untouched rfl rfl rfl rfl
  | insertRun runId arenaId worker =>
    obtain ⟨runs, -, rfl⟩ := insertRun_ok hrun
    exact .of_untouched rfl rfl rfl rfl
  | recoverRun runId =>
    cases hrun
    exact .of_untouched rfl rfl rfl rfl
  | recoverLeavingRun arenaId runId =>
    rw [recoverLeavingRun_ok hrun]
    exact .of_untouched rfl rfl rfl rfl
  | stopRun arenaId worker runId =>
    rw [stopRun_ok hrun]
    exact .of_untouched rfl rfl rfl rfl
  | renewLease worker arenaId runId connected =>
    obtain ⟨_, -, -, -, -, -, rfl⟩ := renewLease_ok hrun
    exact .of_untouched rfl rfl rfl rfl
  | claimPayout => cases hgame
  | updatePayout k row status values => cases hgame
  | releasePayout k row => cases hgame

end QuakeJs
