import QuakeJs.Ledger.Fees

/-!
# Solvency

Every row of the three outboxes is charged to one paid entry: a kill to the
entry of its victim, a refund to the refunded entry, and a creator's share to
either.  `spentOn` adds up what is charged to an entry.  This module proves
that it never exceeds the payment less the service fee.

The proof carries a potential: 500 times the amount spent, plus what the
remaining lives are still worth, is at most the worth of five lives.  A death
takes one life's worth from the second part and adds at most as much to the
first, because the two shares of a life are rounded down (`share_le`).  A
refund moves the whole second part at once.
-/

namespace QuakeJs

namespace Ledger

/-- The victim is a life of the entry. -/
def killOf (σ : Ledger) (entryId victimId : Uid) : Bool :=
  σ.lives.any (fun l => l.id = victimId && l.entryId = entryId)

/-- A payout with this victim is charged to the entry. -/
def chargedTo (σ : Ledger) (k : Outbox) (entryId victimId : Uid) : Bool :=
  match k with
  | .payouts => σ.killOf entryId victimId
  | .creatorPayouts => σ.killOf entryId victimId || victimId = entryId
  | .refundPayouts => victimId = entryId

/-- The amounts of an outbox that are charged to an entry. -/
def spentIn (σ : Ledger) (k : Outbox) (entryId : Uid) : Int :=
  (σ.outbox k).sum (fun r => if σ.chargedTo k entryId r.victimId then r.amount else 0)

/-- The amounts of all outboxes that are charged to an entry. -/
def spentOn (σ : Ledger) (entryId : Uid) : Int :=
  σ.spentIn .payouts entryId + σ.spentIn .creatorPayouts entryId +
    σ.spentIn .refundPayouts entryId

/-- The amounts of an outbox that a wallet pays. -/
def walletIn (σ : Ledger) (k : Outbox) (wallet : String) : Int :=
  (σ.outbox k).sum (fun r => if r.walletId = wallet then r.amount else 0)

/-- The amounts of all outboxes that a wallet pays. -/
def outboxTotal (σ : Ledger) (wallet : String) : Int :=
  σ.walletIn .payouts wallet + σ.walletIn .creatorPayouts wallet +
    σ.walletIn .refundPayouts wallet

/-- The payments of entries that a wallet has received. -/
def paidTotal (σ : Ledger) (wallet : String) : Int :=
  σ.entries.sum (fun e => if e.status = .paid ∧ e.walletId = wallet then e.amount else 0)

/-- What one life of an entry is worth, in 500ths of a sat. -/
def worth (e : Entry) : Int := e.amount * (100 - e.haircut)

/-- An amount for each outbox. -/
def amounts (kill creator refund : Int) : Outbox → Int
  | .payouts => kill
  | .creatorPayouts => creator
  | .refundPayouts => refund

/-- A life with its entry. -/
def lifeOwner (l : Life) : Uid × Uid := (l.id, l.entryId)

end Ledger

open Ledger

theorem killOf_eq_true {σ : Ledger} {entryId victimId : Uid} :
    σ.killOf entryId victimId = true ↔ ∃ l ∈ σ.lives, l.id = victimId ∧ l.entryId = entryId := by
  unfold killOf
  rw [Table.any_eq_true]
  exact exists_congr fun l => and_congr_right fun _ => by simp

/-- Tables of lives that agree charge an entry the same. -/
theorem chargedTo_congr {σ σ' : Ledger} (h : Table.Agree lifeOwner σ.lives σ'.lives) (k : Outbox)
    (entryId victimId : Uid) : σ'.chargedTo k entryId victimId =
      σ.chargedTo k entryId victimId := by
  have hkill : σ'.killOf entryId victimId = σ.killOf entryId victimId := by
    have hle : ∀ τ τ' : Ledger, Table.Agree lifeOwner τ.lives τ'.lives →
        τ'.killOf entryId victimId = true → τ.killOf entryId victimId = true := by
      intro τ τ' hagree hk
      obtain ⟨l', hl', hid, he⟩ := killOf_eq_true.mp hk
      obtain ⟨l, hl, hv⟩ := hagree.exists_old hl'
      simp only [lifeOwner, Prod.mk.injEq] at hv
      exact killOf_eq_true.mpr ⟨l, hl, hv.1.trans hid, hv.2.trans he⟩
    rw [Bool.eq_iff_iff]
    exact ⟨hle σ σ' h, hle σ' σ h.symm⟩
  cases k with
  | payouts => exact hkill
  | creatorPayouts =>
    unfold chargedTo
    rw [hkill]
  | refundPayouts => rfl

/-- Payouts with the same terms, and lives with the same entries, charge an
entry the same. -/
theorem spentIn_congr {σ σ' : Ledger} (hlives : Table.Agree lifeOwner σ.lives σ'.lives)
    {k : Outbox} (hrows : Table.Agree terms (σ.outbox k) (σ'.outbox k)) (entryId : Uid) :
    σ'.spentIn k entryId = σ.spentIn k entryId := by
  unfold spentIn
  rw [Table.sum_congr fun r _ => by rw [chargedTo_congr hlives k entryId r.victimId]]
  exact hrows.sum
    (g := fun t => if σ.chargedTo k entryId t.victimId then t.amount else 0) fun _ => rfl

/-- A new payout adds its amount to what it is charged to. -/
theorem spentIn_insert {σ σ' : Ledger} (hlives : Table.Agree lifeOwner σ.lives σ'.lives)
    {k : Outbox} {row : Payout} (hins : (σ.outbox k).insert? row = some (σ'.outbox k))
    (entryId : Uid) : σ'.spentIn k entryId
      = σ.spentIn k entryId + if σ.chargedTo k entryId row.victimId then row.amount else 0 := by
  unfold spentIn
  rw [Table.sum_congr fun r _ => by rw [chargedTo_congr hlives k entryId r.victimId]]
  exact Table.sum_insert? hins _

theorem agree_outbox {σ σ' : Ledger} (hkill : σ'.payouts = σ.payouts)
    (hcreator : σ'.creatorPayouts = σ.creatorPayouts)
      (hrefund : σ'.refundPayouts = σ.refundPayouts)
    (k : Outbox) : Table.Agree terms (σ.outbox k) (σ'.outbox k) := by
  cases k with
  | payouts => exact .of_eq hkill
  | creatorPayouts => exact .of_eq hcreator
  | refundPayouts => exact .of_eq hrefund

/-- Every payout is charged to a paid entry and its wallet, and what is
charged to an entry is covered by the lives it no longer holds. -/
structure Solvent (σ : Ledger) : Prop where
  apart : ∀ l ∈ σ.lives, ∀ e ∈ σ.entries, l.id ≠ e.id
  owned : ∀ k, ∀ r ∈ σ.outbox k, ∃ e ∈ σ.entries, e.status = .paid
    ∧ σ.chargedTo k e.id r.victimId = true ∧ r.walletId = e.walletId
  amounts : ∀ k, ∀ r ∈ σ.outbox k, 0 ≤ r.amount
  covered : ∀ e ∈ σ.entries, e.status = .paid →
    500 * σ.spentOn e.id + e.remaining * worth e ≤ 5 * worth e

namespace Solvent

variable {σ σ' : Ledger}

theorem empty : Solvent Ledger.empty where
  apart := fun _ hl => absurd hl (Table.not_mem_empty _)
  owned := fun k r hr => by cases k <;> exact absurd hr (Table.not_mem_empty r)
  amounts := fun k r hr => by cases k <;> exact absurd hr (Table.not_mem_empty r)
  covered := fun _ he => absurd he (Table.not_mem_empty _)

/-- A transaction that neither pays an entry nor writes a paid one, and
queues no payout. -/
theorem frame (h : Solvent σ) (hlives : Table.Agree lifeOwner σ.lives σ'.lives)
    (hpaid : ∀ e ∈ σ'.entries, e.status = .paid → e ∈ σ.entries)
    (hkeep : ∀ e ∈ σ.entries, e.status = .paid → e ∈ σ'.entries)
    (hids : ∀ e ∈ σ'.entries, ∀ l ∈ σ.lives, l.id ≠ e.id)
    (hrows : ∀ k, Table.Agree terms (σ.outbox k) (σ'.outbox k)) : Solvent σ' where
  apart := by
    intro l hl e he
    obtain ⟨l', hl', hv⟩ := hlives.exists_old hl
    simp only [lifeOwner, Prod.mk.injEq] at hv
    rw [← hv.1]
    exact hids e he l' hl'
  owned := by
    intro k r hr
    obtain ⟨r', hr', hv⟩ := (hrows k).exists_old hr
    obtain ⟨e, he, hp, hc, hw⟩ := h.owned k r' hr'
    refine ⟨e, hkeep e he hp, hp, ?_, ?_⟩
    · rw [chargedTo_congr hlives, ← show r'.victimId = r.victimId from
        congrArg PayoutTerms.victimId hv]
      exact hc
    · rw [← hw]
      exact (congrArg PayoutTerms.walletId hv).symm
  amounts := by
    intro k r hr
    obtain ⟨r', hr', hv⟩ := (hrows k).exists_old hr
    have hamount : r'.amount = r.amount := congrArg PayoutTerms.amount hv
    rw [← hamount]
    exact h.amounts k r' hr'
  covered := by
    intro e he hp
    have hspent : σ'.spentOn e.id = σ.spentOn e.id := by
      unfold spentOn
      rw [spentIn_congr hlives (hrows _), spentIn_congr hlives (hrows _),
        spentIn_congr hlives (hrows _)]
    rw [hspent]
    exact h.covered e (hpaid e he hp) hp

/-- A transaction that writes none of the tables that count. -/
theorem frame_eq (h : Solvent σ) (hlives : Table.Agree lifeOwner σ.lives σ'.lives)
    (hentries : σ'.entries = σ.entries)
    (hrows : ∀ k, Table.Agree terms (σ.outbox k) (σ'.outbox k)) : Solvent σ' :=
  h.frame hlives (fun _ he _ => hentries ▸ he) (fun _ he _ => hentries ▸ he)
    (fun e he l hl => h.apart l hl e (hentries ▸ he)) hrows

/-- A payout is charged to one entry. -/
theorem charged_unique (h : Solvent σ) {k : Outbox} {victimId : Uid} {e e' : Entry}
    (he : e ∈ σ.entries) (he' : e' ∈ σ.entries) (hc : σ.chargedTo k e.id victimId = true)
    (hc' : σ.chargedTo k e'.id victimId = true) : e = e' := by
  have hlives : σ.killOf e.id victimId = true → σ.killOf e'.id victimId = true → e = e' := by
    intro hk hk'
    obtain ⟨l, hl, hid, hentry⟩ := killOf_eq_true.mp hk
    obtain ⟨l', hl', hid', hentry'⟩ := killOf_eq_true.mp hk'
    obtain rfl : l = l' := Table.mem_inj hl hl' (hid.trans hid'.symm)
    exact Table.mem_inj he he' (hentry.symm.trans hentry')
  have hapart : ∀ e₁ ∈ σ.entries, ∀ id, victimId = e₁.id → ¬σ.killOf id victimId = true := by
    intro e₁ he₁ id hv hk
    obtain ⟨l, hl, hid, -⟩ := killOf_eq_true.mp hk
    exact h.apart l hl e₁ he₁ (hid.trans hv)
  cases k with
  | payouts => exact hlives hc hc'
  | creatorPayouts =>
    simp only [chargedTo, Bool.or_eq_true, decide_eq_true_eq] at hc hc'
    rcases hc with hk | hv <;> rcases hc' with hk' | hv'
    · exact hlives hk hk'
    · exact absurd hk (hapart e' he' e.id hv')
    · exact absurd hk' (hapart e he e'.id hv)
    · exact Table.mem_inj he he' (hv.symm.trans hv')
  | refundPayouts =>
    exact Table.mem_inj he he' ((of_decide_eq_true hc).symm.trans (of_decide_eq_true hc'))

/-- Nothing is charged to an entry that is not paid. -/
theorem unpaid (h : Solvent σ) {e : Entry} (he : e ∈ σ.entries) (hn : e.status ≠ .paid) :
    σ.spentOn e.id = 0 := by
  have hnone : ∀ k, ∀ r ∈ σ.outbox k, σ.chargedTo k e.id r.victimId = false := by
    intro k r hr
    by_contra hc
    rw [Bool.not_eq_false] at hc
    obtain ⟨e', he', hp, hc', -⟩ := h.owned k r hr
    exact hn (h.charged_unique he he' hc hc' ▸ hp)
  have hzero : ∀ k, σ.spentIn k e.id = 0 := by
    intro k
    unfold spentIn
    rw [Table.sum_congr fun r hr => by rw [hnone k r hr]]
    simp [Table.sum]
  unfold spentOn
  rw [hzero, hzero, hzero]
  rfl

/-- What one outbox may gain when an entry is charged: one row at most, for
that entry and its wallet, of at most the given amount. -/
def Gains (σ σ' : Ledger) (entry : Entry) (k : Outbox) (amount : Int) : Prop :=
  σ'.outbox k = σ.outbox k ∨ ∃ row, (σ.outbox k).insert? row = some (σ'.outbox k)
    ∧ σ.chargedTo k entry.id row.victimId = true
    ∧ (∀ e ∈ σ.entries, e.id ≠ entry.id → σ.chargedTo k e.id row.victimId = false)
    ∧ row.walletId = entry.walletId ∧ 0 ≤ row.amount ∧ row.amount ≤ amount

/-- A charge raises what is spent on its entry by its amount at most, and
nothing on the others. -/
theorem spentIn_gains {entry : Entry} {k : Outbox} {amount : Int} (hpos : 0 ≤ amount)
    (hlives : Table.Agree lifeOwner σ.lives σ'.lives) (hgain : Gains σ σ' entry k amount)
    {e : Entry} (he : e ∈ σ.entries) :
    σ'.spentIn k e.id ≤ σ.spentIn k e.id + if e.id = entry.id then amount else 0 := by
  rcases hgain with hsame | ⟨row, hins, -, hothers, -, -, hle⟩
  · rw [spentIn_congr hlives (.of_eq hsame)]
    split_ifs <;> omega
  · rw [spentIn_insert hlives hins]
    by_cases hid : e.id = entry.id
    · rw [if_pos hid]
      split_ifs <;> omega
    · rw [if_neg hid, hothers e he hid]
      simp

/-- A transaction that charges one paid entry and takes the worth of the
charge from its remaining lives. -/
theorem charge (h : Solvent σ) {entry : Entry} (hentry : entry ∈ σ.entries)
    (hpaid : entry.status = .paid) (f : Entry → Entry) (hf : ∀ e, (f e).id = e.id)
    (hentries : σ'.entries = σ.entries.updateKey entry.id f hf)
    (hkeep : (f entry).status = .paid ∧ (f entry).walletId = entry.walletId
      ∧ worth (f entry) = worth entry)
    (hlives : Table.Agree lifeOwner σ.lives σ'.lives) (amount : Outbox → Int)
    (hpos : ∀ k, 0 ≤ amount k) (hgains : ∀ k, Gains σ σ' entry k (amount k))
    (hworth : 500 * (amount .payouts + amount .creatorPayouts + amount .refundPayouts)
      + (f entry).remaining * worth entry ≤ entry.remaining * worth entry) : Solvent σ' := by
  have hnew : ∀ e ∈ σ'.entries, (e ∈ σ.entries ∧ e.id ≠ entry.id) ∨ e = f entry := by
    intro e he
    rw [hentries] at he
    rcases (Table.mem_updateKey hf).mp he with he | ⟨e', he', hid, rfl⟩
    · exact Or.inl he
    · rw [Table.mem_inj he' hentry hid]
      exact Or.inr rfl
  have hold : ∀ e ∈ σ.entries, e.status = .paid →
      ∃ e' ∈ σ'.entries, e'.id = e.id ∧ e'.status = .paid ∧ e'.walletId = e.walletId := by
    intro e he hp
    rw [hentries]
    by_cases hid : e.id = entry.id
    · obtain rfl := Table.mem_inj he hentry hid
      exact ⟨f e, (Table.mem_updateKey hf).mpr (Or.inr ⟨e, he, rfl, rfl⟩),
        hf e, hkeep.1, hkeep.2.1⟩
    · exact ⟨e, Table.mem_updateKey_of_ne he hid hf, rfl, hp, rfl⟩
  refine ⟨?_, ?_, ?_, ?_⟩
  · intro l hl e he
    obtain ⟨l', hl', hv⟩ := hlives.exists_old hl
    simp only [lifeOwner, Prod.mk.injEq] at hv
    rw [← hv.1]
    rcases hnew e he with ⟨he, -⟩ | rfl
    · exact h.apart l' hl' e he
    · rw [hf]
      exact h.apart l' hl' entry hentry
  · intro k r hr
    have hcase : ∃ e ∈ σ.entries, e.status = .paid ∧ σ.chargedTo k e.id r.victimId = true
        ∧ r.walletId = e.walletId := by
      rcases hgains k with hsame | ⟨row, hins, hcharge, -, hwallet, -, -⟩
      · exact h.owned k r (hsame ▸ hr)
      · rcases (Table.mem_insert? hins).mp hr with hr | rfl
        · exact h.owned k r hr
        · exact ⟨entry, hentry, hpaid, hcharge, hwallet⟩
    obtain ⟨e, he, hp, hc, hw⟩ := hcase
    obtain ⟨e', he', hid, hp', hw'⟩ := hold e he hp
    refine ⟨e', he', hp', ?_, hw.trans hw'.symm⟩
    rw [chargedTo_congr hlives, hid]
    exact hc
  · intro k r hr
    rcases hgains k with hsame | ⟨row, hins, -, -, -, hrow, -⟩
    · exact h.amounts k r (hsame ▸ hr)
    · rcases (Table.mem_insert? hins).mp hr with hr | rfl
      · exact h.amounts k r hr
      · exact hrow
  · intro e he hp
    have hspent : ∀ e ∈ σ.entries, ∀ k, σ'.spentIn k e.id
        ≤ σ.spentIn k e.id + if e.id = entry.id then amount k else 0 :=
      fun e he k => spentIn_gains (hpos k) hlives (hgains k) he
    rcases hnew e he with ⟨he, hid⟩ | rfl
    · have h1 := hspent e he .payouts
      have h2 := hspent e he .creatorPayouts
      have h3 := hspent e he .refundPayouts
      have hcov := h.covered e he hp
      rw [if_neg hid] at h1 h2 h3
      unfold spentOn at hcov ⊢
      omega
    · have h1 := hspent entry hentry .payouts
      have h2 := hspent entry hentry .creatorPayouts
      have h3 := hspent entry hentry .refundPayouts
      have hcov := h.covered entry hentry hpaid
      rw [if_pos rfl] at h1 h2 h3
      rw [hf, hkeep.2.2]
      unfold spentOn at hcov ⊢
      omega

/-- A payment fills an entry on which nothing has been spent. -/
theorem creditLedger (h : Solvent σ) {entry : Entry}
    (hentry : entry ∈ σ.entries) (hun : entry.status.unsettled = true) (payment : Payment) :
    Solvent (σ.creditLedger entry payment) := by
  have hne : entry.status ≠ .paid := fun hp => by simp [hp, EntryStatus.unsettled] at hun
  have hnew : ∀ e ∈ (σ.creditLedger entry payment).entries,
      (e ∈ σ.entries ∧ e.id ≠ entry.id) ∨ e = credited payment entry := by
    intro e he
    rcases (Table.mem_updateKey fun _ => by rfl).mp he with he | ⟨e', he', hid, rfl⟩
    · exact Or.inl he
    · rw [Table.mem_inj he' hentry hid]
      exact Or.inr rfl
  have hsame : ∀ id, (σ.creditLedger entry payment).spentOn id = σ.spentOn id := fun _ => rfl
  refine ⟨?_, ?_, h.amounts, ?_⟩
  · intro l hl e he
    rcases hnew e he with ⟨he, -⟩ | rfl
    · exact h.apart l hl e he
    · exact h.apart l hl entry hentry
  · intro k r hr
    obtain ⟨e, he, hp, hc, hw⟩ := h.owned k r hr
    have hid : e.id ≠ entry.id := fun hid => hne (Table.mem_inj he hentry hid ▸ hp)
    exact ⟨e, Table.mem_updateKey_of_ne he hid (fun _ => by rfl), hp, hc, hw⟩
  · intro e he hp
    rw [hsame]
    rcases hnew e he with ⟨he, -⟩ | rfl
    · exact h.covered e he hp
    · have hzero : σ.spentOn entry.id = 0 := h.unpaid hentry hne
      show 500 * σ.spentOn entry.id + 5 * worth entry ≤ 5 * worth entry
      omega

/-- A death charges the victim's entry with the two shares of one life. -/
theorem death (h : Solvent σ) (hacc : Accounts σ) (hfees : Fees σ) {env : Env}
    {arena row : Arena} {entry : Entry} {victim : Life} {killerId : Uid}
    (hentry : entry ∈ σ.entries) (hvictim : victim ∈ σ.lives) (hof : victim.entryId = entry.id)
    (hpos : 0 < entry.remaining) (hrow : row ∈ σ.arenas) (hid : row.id = entry.arenaId)
    (hprice : arena.price = row.price)
    (hpay : Paid env arena entry victim (σ.spent env entry victim killerId) σ') : Solvent σ' := by
  obtain ⟨hamount, hcut, hfee, htotal⟩ := hfees.entry hentry hrow hid hprice
  have hpaid : entry.status = .paid := by
    by_contra hn
    exact absurd ((hacc.balanced entry hentry).unpaid hn).1 hpos.ne'
  have hlives : Table.Agree lifeOwner σ.lives σ'.lives := by
    rw [hpay.only]
    exact Table.agree_updateKey (fun _ _ _ => by rfl) fun _ => by rfl
  -- The victim is a life of this entry only, and it is not an entry.
  have hkill : σ.killOf entry.id victim.id = true :=
    killOf_eq_true.mpr ⟨victim, hvictim, rfl, hof⟩
  have hothers : ∀ e ∈ σ.entries, e.id ≠ entry.id → σ.killOf e.id victim.id = false := by
    intro e he hne
    by_contra hk
    rw [Bool.not_eq_false] at hk
    obtain ⟨l, hl, hlid, hle⟩ := killOf_eq_true.mp hk
    obtain rfl : l = victim := Table.mem_inj hl hvictim hlid
    exact hne (hle.symm.trans hof)
  have hapart : ∀ e ∈ σ.entries, victim.id ≠ e.id := fun e he => h.apart victim hvictim e he
  refine h.charge hentry hpaid charged (fun _ => rfl) (by rw [hpay.only]; rfl)
    ⟨hpaid, rfl, rfl⟩ hlives
    (Ledger.amounts (prizePerKill entry.amount (entry.haircut + creatorFee arena))
      (entry.amount * creatorFee arena / 500) 0) ?_ ?_ ?_
  · intro k
    cases k with
    | payouts => exact share_nonneg hamount (by simp only [maxTotalHaircut] at htotal; omega)
    | creatorPayouts => exact share_nonneg hamount hfee
    | refundPayouts => exact le_refl 0
  · intro k
    cases k with
    | payouts =>
      rcases hpay.kill with hsame | ⟨-, hnonneg, destination, killer, hins⟩
      · exact Or.inl hsame
      · exact Or.inr ⟨_, hins, hkill, hothers, rfl, hnonneg, le_refl _⟩
    | creatorPayouts =>
      rcases hpay.fee with hsame | ⟨-, hnonneg, killer, hins⟩
      · exact Or.inl hsame
      · refine Or.inr ⟨_, hins, ?_, fun e he hne => ?_, rfl, hnonneg.le, le_refl _⟩
        · show (σ.killOf entry.id victim.id || decide (victim.id = entry.id)) = true
          rw [hkill, Bool.true_or]
        · show (σ.killOf e.id victim.id || decide (victim.id = e.id)) = false
          rw [hothers e he hne, Bool.false_or]
          exact decide_eq_false (hapart e he)
    | refundPayouts =>
      left
      rw [hpay.only]
      rfl
  · have hshare := share_le entry.amount entry.haircut (creatorFee arena)
    have hcast : ((charged entry).remaining : Int) = entry.remaining - 1 := by
      show ((entry.remaining - 1 : Nat) : Int) = _
      omega
    have hprize : prizePerKill entry.amount (entry.haircut + creatorFee arena)
        = entry.amount * (100 - entry.haircut - creatorFee arena) / 500 := by
      unfold prizePerKill
      rw [Int.sub_sub]
    rw [hcast, Int.sub_mul]
    simp only [Ledger.amounts, worth]
    omega

/-- A refund charges the entry with the two shares of its remaining lives.
The transaction may hold a copy of the row that differs from it in the
invoice. -/
theorem refundEntry (h : Solvent σ) (hfees : Fees σ) {env : Env} {k : Nat} {copy entry : Entry}
    {arena row : Arena} (hentry : entry ∈ σ.entries) (hoffer : copy.offer = entry.offer)
    (hstatus : copy.status = entry.status) (hremaining : copy.remaining = entry.remaining)
    (hrow : row ∈ σ.arenas) (hid : row.id = entry.arenaId) (hprice : arena.price = row.price)
    (hrun : refundEntry env k copy arena σ = .ok σ') : Solvent σ' := by
  obtain ⟨-, rfl⟩ | ⟨hpaid, -, -, hrefund, refunds, fees, hins, hfeerow, rfl⟩ :=
    refundEntry_ok hrun
  · exact h
  · simp only [Entry.offer, Prod.mk.injEq] at hoffer
    obtain ⟨hkey, -, -, hwallet, hcopy, hcopycut⟩ := hoffer
    rw [hstatus] at hpaid
    obtain ⟨hamount, hcut, hfee, htotal⟩ := hfees.entry hentry hrow hid hprice
    have hvalue : 0 ≤ (copy.remaining : Int) * copy.amount :=
      Int.mul_nonneg (Int.natCast_nonneg _) (hcopy ▸ hamount)
    -- No life has the id of the entry, so its rows are charged to it alone.
    have hkill : ∀ id, σ.killOf id copy.id = false := by
      intro id
      by_contra hk
      rw [Bool.not_eq_false] at hk
      obtain ⟨l, hl, hlid, -⟩ := killOf_eq_true.mp hk
      exact h.apart l hl entry hentry (hlid.trans hkey)
    refine h.charge hentry hpaid emptied (fun _ => rfl) (by rw [hkey]) ⟨hpaid, rfl, rfl⟩
      (.refl _ _) (Ledger.amounts 0 (refundAmounts copy arena).2 (refundAmounts copy arena).1)
      ?_ ?_ ?_
    · intro k
      cases k with
      | payouts => exact le_refl 0
      | creatorPayouts => exact share_nonneg hvalue hfee
      | refundPayouts => exact hrefund
    · intro k
      cases k with
      | payouts => exact Or.inl rfl
      | creatorPayouts =>
        rcases hfeerow with ⟨-, rfl⟩ | ⟨hpos, -, hins⟩
        · exact Or.inl rfl
        · refine Or.inr ⟨_, hins, ?_, fun e _ hne => ?_, hwallet, hpos.le, le_refl _⟩
          · show (σ.killOf entry.id copy.id || decide (copy.id = entry.id)) = true
            rw [decide_eq_true hkey, Bool.or_true]
          · show (σ.killOf e.id copy.id || decide (copy.id = e.id)) = false
            rw [hkill, Bool.false_or]
            exact decide_eq_false fun hk => hne (hk.symm.trans hkey)
      | refundPayouts =>
        refine Or.inr ⟨_, hins, ?_, fun e _ hne => ?_, hwallet, hrefund, le_refl _⟩
        · exact decide_eq_true hkey
        · exact decide_eq_false fun hk => hne (hk.symm.trans hkey)
    · have hshare := share_le (entry.remaining * entry.amount) entry.haircut (creatorFee arena)
      rw [Int.mul_assoc _ entry.amount (100 - entry.haircut)] at hshare
      have hzero : ((emptied entry).remaining : Int) * worth entry = 0 := Int.zero_mul _
      rw [hzero]
      simp only [Ledger.amounts, worth, refundAmounts, hcopy, hcopycut, hremaining]
      omega

/-- The loop of `finish_leave`, over different entries of one arena. -/
theorem refundEntries (h : Solvent σ) (hfees : Fees σ) {env : Env} {k : Nat}
    {entries : List Entry} {arena row : Arena} (hrow : row ∈ σ.arenas)
    (hprice : arena.price = row.price)
    (hentries : ∀ e ∈ entries, e ∈ σ.entries ∧ e.arenaId = row.id)
    (hnodup : (entries.map Entry.id).Nodup)
    (hrun : refundEntries env arena k entries σ = .ok σ') : Solvent σ' := by
  induction entries generalizing k σ with
  | nil =>
    rw [Ledger.refundEntries, pure_ok_iff] at hrun
    exact hrun ▸ h
  | cons entry rest ih =>
    rw [Ledger.refundEntries, bind_ok_iff] at hrun
    obtain ⟨σ₁, hone, hrest⟩ := hrun
    rw [List.map_cons, List.nodup_cons] at hnodup
    obtain ⟨hentry, harena⟩ := hentries entry List.mem_cons_self
    have h₁ : Solvent σ₁ :=
      h.refundEntry hfees hentry rfl rfl rfl hrow harena.symm hprice hone
    have hsame : σ₁.settings = σ.settings ∧ σ₁.arenas = σ.arenas := by
      rw [refundEntry_only hone]
      exact ⟨rfl, rfl⟩
    have hfees₁ : Fees σ₁ :=
      hfees.frame hsame.1 (.of_eq hsame.2) (agree_emptied (refundEntry_agree hone))
    refine ih h₁ hfees₁ (hsame.2 ▸ hrow) (fun e he => ?_) hnodup.2 hrest
    -- The later entries are other entries, and still as they were.
    obtain ⟨hmem, ha⟩ := hentries e (List.mem_cons_of_mem _ he)
    have hne : e.id ≠ entry.id := fun hid => hnodup.1 (hid ▸ List.mem_map_of_mem he)
    refine ⟨?_, ha⟩
    obtain ⟨-, rfl⟩ | ⟨-, -, -, -, _, _, -, -, rfl⟩ := refundEntry_ok hone
    · exact hmem
    · exact Table.mem_updateKey_of_ne hmem hne fun _ => by rfl

theorem settleEntry (h : Solvent σ) (hfees : Fees σ) {env : Env}
    {payment : Payment} {arena? : Option Uid}
    (hrun : settleEntry env payment σ = .ok (arena?, σ')) : Solvent σ' := by
  obtain rfl | ⟨-, -, -, entry, -, hentry, -, -, -, hcredit⟩ := settleEntry_ok hrun
  · exact h
  · cases hcredit with
    | again _ eq =>
      rw [eq]
      exact h.frame_eq (.refl _ _) rfl (agree_outbox rfl rfl rfl)
    | first unsettled _ player _ staying leaving left =>
      have hcredit := h.creditLedger hentry unsettled payment
      cases hs : player.leaveState with
      | none =>
        rw [staying hs]
        exact hcredit.frame_eq (.refl _ _) rfl (agree_outbox rfl rfl rfl)
      | leaving =>
        rw [leaving hs]
        exact hcredit
      | left =>
        obtain ⟨row, hget, hrefund⟩ := left hs
        have hfees₁ : Fees (σ.creditLedger entry payment) :=
          hfees.frame rfl (agree_bumpArena σ entry.arenaId) (Table.agree_updateKey
            (fun _ _ _ => by rfl) fun _ => by rfl)
        have hmem : credited payment entry ∈ (σ.creditLedger entry payment).entries :=
          (Table.mem_updateKey fun _ => by rfl).mpr (Or.inr ⟨entry, hentry, rfl, rfl⟩)
        obtain ⟨hrow, hid⟩ := Table.get?_eq_some.mp hget
        obtain ⟨row', hrow', hprice⟩ := (agree_bumpArena σ entry.arenaId).exists_new hrow
        have hid' : row'.id = entry.arenaId := (congrArg Prod.fst hprice).trans hid
        exact hcredit.refundEntry hfees₁ hmem rfl rfl rfl hrow' hid' hprice.symm hrefund

/-- A new life adds no charge: no payout names a life that does not exist. -/
theorem allocateLife (h : Solvent σ) {env : Env} (hfresh : env.Fresh σ)
    {arenaId token runId : Uid} {life : Life}
    (hrun : allocateLife env arenaId token runId σ = .ok (life, σ')) : Solvent σ' := by
  obtain ⟨_, -, -, -, -, player, -, -, -, -, hadm⟩ := allocateLife_ok hrun
  cases hadm with
  | again _ _ _ _ eq =>
    rw [eq]
    exact h.frame_eq (.refl _ _) rfl (agree_outbox rfl rfl rfl)
  | resume old _ _ _ _ slot _ _ ledger =>
    rw [ledger]
    exact h.frame_eq (Table.agree_updateKey (fun _ _ _ => by rfl) fun _ => by rfl) rfl
      (agree_outbox rfl rfl rfl)
  | new _ entry _ slot _ eq lives insert ledger =>
    have hlife : life.id = env.uid 0 := by rw [eq]
    have hnotEntry : ∀ e ∈ σ.entries, life.id ≠ e.id := by
      intro e he hid
      exact Table.get?_eq_none.mp (hfresh.entries 0) e he (hid.symm.trans hlife)
    have hnotLife : ∀ l ∈ σ.lives, l.id ≠ life.id := (Table.insert?_eq_some.mp insert).1
    have houtbox : ∀ k, σ'.outbox k = σ.outbox k := fun k => by
      rw [ledger]
      cases k <;> rfl
    have hentries : σ'.entries = σ.entries := by
      rw [ledger]
      rfl
    have hlives : ∀ l, l ∈ σ'.lives ↔ l ∈ σ.lives ∨ l = life := fun l => by
      rw [ledger]
      exact Table.mem_insert? insert
    -- No queued payout names the new life.
    have hvictim : ∀ k, ∀ r ∈ σ.outbox k, r.victimId ≠ life.id := by
      intro k r hr hv
      obtain ⟨e, he, -, hc, -⟩ := h.owned k r hr
      have hkill : ¬σ.killOf e.id r.victimId = true := fun hk => by
        obtain ⟨l, hl, hid, -⟩ := killOf_eq_true.mp hk
        exact hnotLife l hl (hid.trans hv)
      cases k with
      | payouts => exact hkill hc
      | creatorPayouts =>
        have : r.victimId = e.id := by simpa [chargedTo, hkill] using hc
        exact hnotEntry e he (hv.symm.trans this)
      | refundPayouts => exact hnotEntry e he (hv.symm.trans (of_decide_eq_true hc))
    have hcharged : ∀ k id, ∀ r ∈ σ.outbox k, σ'.chargedTo k id r.victimId
        = σ.chargedTo k id r.victimId := by
      intro k id r hr
      have hkill : σ'.killOf id r.victimId = σ.killOf id r.victimId := by
        rw [Bool.eq_iff_iff, killOf_eq_true, killOf_eq_true]
        constructor
        · rintro ⟨l, hl, hid, he⟩
          rcases (hlives l).mp hl with hl | rfl
          · exact ⟨l, hl, hid, he⟩
          · exact absurd hid.symm (hvictim k r hr)
        · rintro ⟨l, hl, hk⟩
          exact ⟨l, (hlives l).mpr (Or.inl hl), hk⟩
      cases k with
      | payouts => exact hkill
      | creatorPayouts =>
        unfold chargedTo
        rw [hkill]
      | refundPayouts => rfl
    refine ⟨?_, ?_, ?_, ?_⟩
    · intro l hl e he
      rw [hentries] at he
      rcases (hlives l).mp hl with hl | rfl
      · exact h.apart l hl e he
      · exact hnotEntry e he
    · intro k r hr
      rw [houtbox] at hr
      obtain ⟨e, he, hp, hc, hw⟩ := h.owned k r hr
      exact ⟨e, hentries ▸ he, hp, by rw [hcharged k e.id r hr]; exact hc, hw⟩
    · intro k r hr
      rw [houtbox] at hr
      exact h.amounts k r hr
    · intro e he hp
      rw [hentries] at he
      have hspent : ∀ k, σ'.spentIn k e.id = σ.spentIn k e.id := by
        intro k
        unfold spentIn
        rw [houtbox]
        exact Table.sum_congr fun r hr => by rw [hcharged k e.id r hr]
      unfold spentOn
      rw [hspent, hspent, hspent]
      exact h.covered e he hp

theorem consumeDeath (h : Solvent σ) (hacc : Accounts σ) (hfees : Fees σ) {env : Env}
    {runId victimId killerId arenaId : Uid} {sequence : Int}
    (hrun : consumeDeath env runId sequence victimId killerId σ = .ok (arenaId, σ')) :
    Solvent σ' := by
  obtain ⟨run, -, -, row, hrow, ⟨-, rfl⟩ | ⟨-, victim, hvictim, -, harena, σ₂, hσ₂, rfl⟩⟩ :=
    consumeDeath_ok hrun
  · exact h.frame_eq (.refl _ _) rfl (agree_outbox rfl rfl rfl)
  · have h₁ : Solvent (σ.bumpArena run.arenaId) :=
      h.frame_eq (.refl _ _) rfl (agree_outbox rfl rfl rfl)
    have h₂ : Solvent σ₂ := by
      obtain ⟨-, rfl⟩ | ⟨-, entry, hentry, hpos, hpaid⟩ := hσ₂
      · exact h₁
      · obtain ⟨hentry, hkey⟩ := Table.get?_eq_some.mp hentry
        have hvictim := Table.mem_of_get? hvictim
        have hbump := agree_bumpArena σ run.arenaId
        obtain ⟨hrow, hid⟩ := Table.get?_eq_some.mp hrow
        obtain ⟨row', hrow', hprice⟩ := hbump.exists_new hrow
        -- The victim died in the arena of its entry.
        have hid' : row'.id = entry.arenaId := by
          obtain ⟨e, he, heid, -, hea⟩ := hacc.life victim hvictim
          obtain rfl : e = entry := Table.mem_inj he hentry (heid.trans hkey.symm)
          rw [show row'.id = row.id from congrArg Prod.fst hprice,
            show row.id = run.arenaId from hid,
            ← harena, hea]
        have hsame : ({ row with revision := row.revision + 1 } : Arena).price = row'.price :=
          hprice.symm
        exact h₁.death (hacc.frame_eq rfl rfl rfl rfl) (hfees.frame rfl hbump (.refl _ _)) hentry
          hvictim hkey.symm hpos hrow' hid' hsame hpaid
    exact h₂.frame_eq (.refl _ _) rfl (agree_outbox rfl rfl rfl)

theorem finishLeave (h : Solvent σ) (hacc : Accounts σ) (hfees : Fees σ) {env : Env}
    {playerId revokedRun : Uid} (hrun : finishLeave env playerId revokedRun σ = .ok σ') :
    Solvent σ' := by
  obtain ⟨player, hplayer, row, hrow, ⟨-, rfl⟩ | ⟨-, -, σ₂, hrefunds, rfl⟩⟩ := finishLeave_ok hrun
  · exact h.frame_eq (.refl _ _) rfl (agree_outbox rfl rfl rfl)
  · have h₁ : Solvent (σ.bumpArena player.arenaId) :=
      h.frame_eq (.refl _ _) rfl (agree_outbox rfl rfl rfl)
    have hbump := agree_bumpArena σ player.arenaId
    obtain ⟨hrow, hid⟩ := Table.get?_eq_some.mp hrow
    obtain ⟨row', hrow', hprice⟩ := hbump.exists_new hrow
    have hsame : ({ row with revision := row.revision + 1 } : Arena).price = row'.price :=
      hprice.symm
    have h₂ : Solvent σ₂ := by
      refine h₁.refundEntries (hfees.frame rfl hbump (.refl _ _)) hrow' hsame (fun e he => ?_)
        (Table.nodup_select _ _) hrefunds
      obtain ⟨hmem, hsel⟩ := Table.mem_select.mp he
      simp only [Bool.and_eq_true, decide_eq_true_eq] at hsel
      obtain ⟨p, hp, hpid, hpa⟩ := hacc.player e hmem
      obtain ⟨hpm, hpkey⟩ := Table.get?_eq_some.mp hplayer
      obtain rfl : p = player := Table.mem_inj hp hpm ((hpid.trans hsel.1.1).trans hpkey.symm)
      refine ⟨hmem, ?_⟩
      rw [← hpa, show row'.id = row.id from congrArg Prod.fst hprice]
      exact hid.symm
    exact h₂.frame_eq (Table.agree_update (fun _ _ _ => by rfl) fun _ => by rfl) rfl
      (agree_outbox rfl rfl rfl)

theorem reserveEntry (h : Solvent σ) {env : Env} (hfresh : env.Fresh σ)
    {arenaId token : String} {data : EntryInput} {entry : Entry} {new : Bool}
    (hrun : reserveEntry env arenaId token data σ = .ok ((entry, new), σ')) : Solvent σ' := by
  obtain ⟨_, -, -, ⟨-, -, rfl⟩ | ⟨-, _, _, _, _, -, -, rfl, -, hins, rfl⟩⟩ := reserveEntry_ok hrun
  · exact h.frame_eq (.refl _ _) rfl (agree_outbox rfl rfl rfl)
  · refine h.frame (.refl _ _) (fun e he hp => ?_) (fun e he _ => ?_) (fun e he l hl => ?_)
      (agree_outbox rfl rfl rfl)
    · rcases (Table.mem_insert? hins).mp he with he | rfl
      · exact he
      · cases hp
    · exact (Table.mem_insert? hins).mpr (Or.inl he)
    · rcases (Table.mem_insert? hins).mp he with he | rfl
      · exact h.apart l hl e he
      · exact Table.get?_eq_none.mp (hfresh.lives 1) l hl

theorem recordInvoice (h : Solvent σ) {entryId : Uid} {payment : Payment}
    (hrun : recordInvoice entryId payment σ = .ok σ') : Solvent σ' := by
  obtain rfl | ⟨entry, hget, hcreating, -, -, rfl⟩ := recordInvoice_ok hrun
  · exact h
  · obtain ⟨hentry, hkey⟩ := Table.get?_eq_some.mp hget
    refine h.frame (.refl _ _) (fun e he hp => ?_) (fun e he hp => ?_) (fun e he l hl => ?_)
      (agree_outbox rfl rfl rfl)
    · rcases (Table.mem_updateKey fun _ => by rfl).mp he with ⟨he, -⟩ | ⟨_, -, -, rfl⟩
      · exact he
      · cases hp
    · refine Table.mem_updateKey_of_ne he (fun hid => ?_) fun _ => by rfl
      rw [Table.mem_inj he hentry (hid.trans hkey.symm), hcreating] at hp
      cases hp
    · rcases (Table.mem_updateKey fun _ => by rfl).mp he with ⟨he, -⟩ | ⟨e', he', -, rfl⟩
      · exact h.apart l hl e he
      · exact h.apart l hl e' he'

/-- Every transaction with fresh ids keeps the ledger solvent. -/
theorem step (h : Solvent σ) (hacc : Accounts σ) (hfees : Fees σ) {env : Env} {a : Action}
    (hfresh : env.Fresh σ) (hrun : perform env a σ = .ok σ') : Solvent σ' := by
  cases perform_effect hrun with
  | other _ entries lives outbox => exact h.frame_eq (.of_eq lives) entries outbox
  | reserve _ _ _ _ _ run => exact h.reserveEntry hfresh run
  | invoice _ _ run => exact h.recordInvoice run
  | settle _ _ run => exact h.settleEntry hfees run
  | death _ _ _ _ _ run => exact h.consumeDeath hacc hfees run
  | allocate _ _ _ _ run => exact h.allocateLife hfresh run
  | request _ _ _ run =>
    obtain ⟨_, -, -, -, ⟨-, -, rfl⟩ | ⟨-, -, -, rfl⟩⟩ := requestLeave_ok run
    · exact h.frame_eq (.refl _ _) rfl (agree_outbox rfl rfl rfl)
    · exact h.frame_eq (.refl _ _) rfl (agree_outbox rfl rfl rfl)
  | finish _ _ run => exact h.finishLeave hacc hfees run
  | release runId _ entries lives outbox =>
    refine h.frame_eq ?_ entries fun k => .of_eq (outbox k)
    rw [lives]
    exact Table.agree_update (fun _ _ _ => by rfl) fun _ => by rfl
  | renew _ entries lives outbox =>
    exact h.frame_eq (lives.map lifeOwner (g := lifeOwner) fun _ => rfl) entries
      fun k => .of_eq (outbox k)

theorem of_reachable (h : Reachable Env.Fresh σ) : Solvent σ := by
  have hall := h.invariant (P := fun σ => Accounts σ ∧ Fees σ ∧
    Solvent σ) ⟨.empty, .empty, .empty⟩
    fun _ _ _ _ hσ hfresh hrun =>
      ⟨hσ.1.step hrun, hσ.2.1.step hrun, hσ.2.2.step hσ.1 hσ.2.1 hfresh hrun⟩
  exact hall.2.2

/-! ## The total of a wallet -/

/-- The payouts of an outbox that a wallet pays are charged to paid entries
of that wallet. -/
theorem walletIn_le (h : Solvent σ) (k : Outbox) (wallet : String) :
    σ.walletIn k wallet ≤ σ.entries.sum
      (fun e => if e.status = .paid ∧ e.walletId = wallet then σ.spentIn k e.id else 0) := by
  have hsum : σ.entries.sum
        (fun e => if e.status = .paid ∧ e.walletId = wallet then σ.spentIn k e.id else 0)
      = (σ.outbox k).sum (fun r => σ.entries.sum (fun e =>
          if e.status = .paid ∧ e.walletId = wallet then
            if σ.chargedTo k e.id r.victimId then r.amount else 0
          else 0)) := by
    rw [Table.sum_comm]
    refine Table.sum_congr fun e _ => ?_
    split_ifs
    · rfl
    · simp [Table.sum]
  rw [hsum]
  refine Table.sum_le_sum fun r hr => ?_
  have hamount := h.amounts k r hr
  have hterm : ∀ e ∈ σ.entries, 0 ≤ if e.status = .paid ∧ e.walletId = wallet then
      if σ.chargedTo k e.id r.victimId then r.amount else 0 else (0 : Int) := by
    intro e _
    split_ifs <;> omega
  by_cases hw : r.walletId = wallet
  · -- The entry that the row is charged to is one of the summands.
    obtain ⟨e, he, hp, hc, hwallet⟩ := h.owned k r hr
    have hle := Table.le_sum hterm he
    rw [if_pos ⟨hp, hwallet.symm.trans hw⟩, if_pos hc] at hle
    rw [if_pos hw]
    exact hle
  · rw [if_neg hw]
    calc (0 : Int) = σ.entries.sum (fun _ => 0) := by simp [Table.sum]
      _ ≤ _ := Table.sum_le_sum hterm

/-- What is spent on an entry, in whole sats. -/
theorem spentOn_le (h : Solvent σ) (hfees : Fees σ) {e : Entry} (he : e ∈ σ.entries) :
    σ.spentOn e.id ≤ e.amount * (100 - e.haircut) / 100
      ∧ (e.status = .paid → σ.spentOn e.id ≤ e.amount) := by
  obtain ⟨arena, harena, hid, -, -⟩ := hfees.entries e he
  obtain ⟨hamount, hcut, -, htotal⟩ := hfees.entry he harena hid rfl
  have hfee := (hfees.arenas arena harena).creator
  have hworth : 0 ≤ worth e := Int.mul_nonneg hamount
    (by simp only [maxTotalHaircut] at htotal; omega)
  have hle : worth e ≤ 100 * e.amount := by
    have : 0 ≤ e.amount * e.haircut := Int.mul_nonneg hamount hcut
    unfold worth
    rw [Int.mul_sub]
    omega
  have hremaining : 0 ≤ (e.remaining : Int) * worth e :=
    Int.mul_nonneg (Int.natCast_nonneg _) hworth
  by_cases hp : e.status = .paid
  · have hcov := h.covered e he hp
    have hbound : 100 * σ.spentOn e.id ≤ worth e := by omega
    refine ⟨?_, fun _ => by omega⟩
    exact Int.le_ediv_of_mul_le (by omega) (by unfold worth at hbound; omega)
  · rw [h.unpaid he hp]
    exact ⟨Int.ediv_nonneg hworth (by omega), fun hpaid => absurd hpaid hp⟩

theorem outboxTotal_le (h : Solvent σ) (hfees : Fees σ) (wallet : String) :
    σ.outboxTotal wallet ≤ σ.paidTotal wallet := by
  have h1 := h.walletIn_le .payouts wallet
  have h2 := h.walletIn_le .creatorPayouts wallet
  have h3 := h.walletIn_le .refundPayouts wallet
  have hsum : σ.entries.sum (fun e =>
        if e.status = .paid ∧ e.walletId = wallet then σ.spentOn e.id else 0)
      ≤ σ.paidTotal wallet := by
    refine Table.sum_le_sum fun e he => ?_
    split_ifs with hc
    · exact (h.spentOn_le hfees he).2 hc.1
    · exact le_refl 0
  have hsplit : σ.entries.sum (fun e =>
        if e.status = .paid ∧ e.walletId = wallet then σ.spentOn e.id else 0)
      = σ.entries.sum (fun e =>
          if e.status = .paid ∧ e.walletId = wallet then σ.spentIn .payouts e.id else 0)
        + σ.entries.sum (fun e =>
          if e.status = .paid ∧ e.walletId = wallet then σ.spentIn .creatorPayouts e.id else 0)
        + σ.entries.sum (fun e =>
          if e.status = .paid ∧ e.walletId = wallet then σ.spentIn
            .refundPayouts e.id else 0) := by
    rw [← Table.sum_add, ← Table.sum_add]
    refine Table.sum_congr fun e _ => ?_
    split_ifs
    · rfl
    · rfl
  unfold outboxTotal
  omega

end Solvent

/-! ## No transaction fails on an amount -/

/-- The error of a broken `CHECK(amount ...)`. -/
def amountError : LedgerError := .integrityError "amount"

theorem lockArena_avoids (σ : Ledger) (id : Uid) (active : Bool) :
    Avoids amountError (σ.lockArena id active) :=
  .bind (.orRaise (by simp [amountError])) fun _ _ =>
    .bind (.require_of_ne (by simp [amountError])) fun _ _ => .pure _

theorem queuePayout_avoids (σ : Ledger) {k : Outbox} {row : Payout}
    (h : amountOk k row.amount = true) : Avoids amountError (σ.queuePayout k row) := by
  refine .bind (.require fun _ => h) fun _ _ => ?_
  split_ifs
  · exact .pure _
  · exact .bind (.orRaise (by decide)) fun _ _ => .pure _

theorem insertPayout_avoids (σ : Ledger) {k : Outbox} {row : Payout}
    (h : amountOk k row.amount = true) : Avoids amountError (σ.insertPayout k row) :=
  .bind (.require fun _ => h) fun _ _ =>
    .bind (.require fun he => absurd he (by decide)) fun _ _ =>
    .bind (.orRaise (by decide)) fun _ _ => .pure _

/-- The shares of an entry are not negative. -/
theorem Fees.shares {σ : Ledger} (h : Fees σ) {e : Entry} (he : e ∈ σ.entries) {arena row : Arena}
    (hrow : row ∈ σ.arenas) (hid : row.id = e.arenaId) (hprice : arena.price = row.price) :
    0 ≤ prizePerKill e.amount (e.haircut + creatorFee arena)
      ∧ 0 ≤ e.amount * creatorFee arena / 500
      ∧ 0 ≤ (refundAmounts e arena).1 ∧ 0 ≤ (refundAmounts e arena).2 := by
  obtain ⟨hamount, hcut, hfee, htotal⟩ := h.entry he hrow hid hprice
  simp only [maxTotalHaircut] at htotal
  have hvalue : 0 ≤ (e.remaining : Int) * e.amount :=
    Int.mul_nonneg (Int.natCast_nonneg _) hamount
  exact ⟨share_nonneg hamount (by omega), share_nonneg hamount hfee,
    share_nonneg hvalue (by omega), share_nonneg hvalue hfee⟩

theorem payKiller_avoids (σ : Ledger) (env : Env) {arena : Arena} {entry : Entry} (victim : Life)
    (killer? : Option Life) (hprize : 0 ≤ prizePerKill entry.amount
      (entry.haircut + creatorFee arena))
    (hfee : 0 ≤ entry.amount * creatorFee arena / 500) :
    Avoids amountError (payKiller env arena entry victim killer? σ) := by
  cases killer? with
  | none => exact .pure _
  | some killer =>
    refine .bind (.orRaise (by simp [amountError])) fun destination _ =>
      .bind (queuePayout_avoids _ (decide_eq_true hprize)) fun _ _ => ?_
    unfold queueFee
    split_ifs with hz
    · exact .pure _
    · exact queuePayout_avoids _ (decide_eq_true (lt_of_le_of_ne hfee (Ne.symm hz)))

/-- A death never breaks a `CHECK`. -/
theorem consumeDeath_avoids {σ : Ledger} (hacc : Accounts σ) (hfees : Fees σ) (env : Env)
    (runId : Uid) (sequence : Int) (victimId killerId : Uid) :
    Avoids amountError (consumeDeath env runId sequence victimId killerId σ) := by
  refine .bind (.orRaise (by simp [amountError])) fun run _ =>
    .bind (lockArena_avoids _ _ _) fun locked hlock => ?_
  obtain ⟨arena, σ₁⟩ := locked
  obtain ⟨rfl, row, hrow, rfl, -⟩ := lockArena_ok hlock
  obtain ⟨hrow, hid⟩ := Table.get?_eq_some.mp hrow
  show Avoids amountError (if sequence ≤ run.eventSequence then _ else _)
  split_ifs
  · exact .pure _
  refine .bind (.require_of_ne (by simp [amountError])) fun _ _ =>
    .bind (.orRaise (by simp [amountError])) fun victim hvictim =>
    .bind (.require_of_ne (by simp [amountError])) fun _ hown => .bind ?_ fun _ _ => .pure _
  rw [orRaise_ok_iff] at hvictim
  rw [require_ok_iff] at hown
  have hvictim := Table.mem_of_get? hvictim
  unfold endLife
  split_ifs
  · exact .pure _
  refine .bind (.orRaise (by simp [amountError])) fun entry hentry =>
    .bind (.require_of_ne (by simp [amountError])) fun _ _ => ?_
  rw [orRaise_ok_iff] at hentry
  obtain ⟨hentry, hkey⟩ := Table.get?_eq_some.mp hentry
  have hid' : row.id = entry.arenaId := by
    obtain ⟨e, he, heid, -, hea⟩ := hacc.life victim hvictim
    obtain rfl : e = entry := Table.mem_inj he hentry (heid.trans hkey.symm)
    rw [hea, hown.2]
    exact hid
  have hsame : ({ row with revision := row.revision + 1 } : Arena).price = row.price := rfl
  obtain ⟨hprize, hfee, -, -⟩ := hfees.shares hentry hrow hid' hsame
  exact payKiller_avoids _ env victim _ hprize hfee

/-- A refund of an entry with shares that are not negative never breaks a
`CHECK`. -/
theorem refundEntry_avoids (σ : Ledger) (env : Env) (k : Nat) {entry : Entry} {arena : Arena}
    (hrefund : 0 ≤ (refundAmounts entry arena).1) (hfee : 0 ≤ (refundAmounts entry arena).2) :
    Avoids amountError (refundEntry env k entry arena σ) := by
  unfold refundEntry
  split_ifs
  · exact .pure _
  refine .bind (insertPayout_avoids _ (decide_eq_true hrefund)) fun _ _ =>
    .bind ?_ fun _ _ => .pure _
  unfold insertFee
  split_ifs with hz
  · exact .pure _
  · exact insertPayout_avoids _ (decide_eq_true (lt_of_le_of_ne hfee (Ne.symm hz)))

theorem refundEntries_avoids (env : Env) (arena : Arena) {entries : List Entry}
    (h : ∀ e ∈ entries, 0 ≤ (refundAmounts e arena).1 ∧ 0 ≤ (refundAmounts e arena).2) (k : Nat)
    (σ : Ledger) : Avoids amountError (refundEntries env arena k entries σ) := by
  induction entries generalizing k σ with
  | nil => exact .pure _
  | cons e rest ih =>
    obtain ⟨hrefund, hfee⟩ := h e List.mem_cons_self
    exact .bind (refundEntry_avoids σ env k hrefund hfee) fun _ _ =>
      ih (fun e he => h e (List.mem_cons_of_mem _ he)) _ _

/-- A leave never breaks a `CHECK`. -/
theorem finishLeave_avoids {σ : Ledger} (hacc : Accounts σ) (hfees : Fees σ) (env : Env)
    (playerId revokedRun : Uid) : Avoids amountError (finishLeave env playerId revokedRun σ) := by
  refine .bind (.orRaise (by simp [amountError])) fun player hplayer =>
    .bind (lockArena_avoids _ _ _) fun locked hlock => ?_
  obtain ⟨arena, σ₁⟩ := locked
  obtain ⟨rfl, row, hget, rfl, -⟩ := lockArena_ok hlock
  obtain ⟨hrow, hid⟩ := Table.get?_eq_some.mp hget
  rw [orRaise_ok_iff] at hplayer
  obtain ⟨hplayer, hkey⟩ := Table.get?_eq_some.mp hplayer
  refine .bind (.orRaise (by simp [amountError])) fun player' _ => ?_
  show Avoids amountError (if player'.leaveState = .left then _ else _)
  split_ifs
  · exact .pure _
  refine .bind (.require_of_ne (by simp [amountError])) fun _ _ =>
    .bind (.require_of_ne (by simp [amountError])) fun _ _ =>
    .bind (refundEntries_avoids _ _ (fun e he => ?_) _ _) fun _ _ => .pure _
  obtain ⟨he, hsel⟩ := Table.mem_select.mp he
  simp only [Bool.and_eq_true, decide_eq_true_eq] at hsel
  obtain ⟨p, hp, hpid, hpa⟩ := hacc.player e he
  obtain rfl : p = player := Table.mem_inj hp hplayer ((hpid.trans hsel.1.1).trans hkey.symm)
  have hsame : ({ row with revision := row.revision + 1 } : Arena).price = row.price := rfl
  exact (hfees.shares he hrow (hid.trans hpa) hsame).2.2

/-! ## The law -/

/-- Solvency.  What is charged to an entry is covered by its payment less the
service fee, nothing is charged to an unpaid entry, and its wallet pays.  No
wallet pays out more than it was paid, no amount is negative, and no death
and no leave fails on an amount. -/
theorem solvency {σ : Ledger} (h : Reachable Env.Fresh σ) :
    (∀ e ∈ σ.entries, σ.spentOn e.id ≤ e.amount * (100 - e.haircut) / 100
      ∧ (e.status ≠ .paid → σ.spentOn e.id = 0)
      ∧ ∀ k, ∀ r ∈ σ.outbox k, σ.chargedTo k e.id r.victimId = true → r.walletId = e.walletId)
    ∧ (∀ wallet, σ.outboxTotal wallet ≤ σ.paidTotal wallet)
    ∧ (∀ k, ∀ r ∈ σ.outbox k, 0 ≤ r.amount)
    ∧ (∀ e ∈ σ.entries, ∀ arena ∈ σ.arenas, arena.id = e.arenaId →
        0 ≤ prizePerKill e.amount (e.haircut + creatorFee arena)
          ∧ 0 ≤ e.amount * creatorFee arena / 500
          ∧ 0 ≤ (refundAmounts e arena).1 ∧ 0 ≤ (refundAmounts e arena).2)
    ∧ (∀ env runId sequence victimId killerId,
        consumeDeath env runId sequence victimId killerId σ ≠ .error (.integrityError "amount"))
    ∧ ∀ env playerId revokedRun,
        finishLeave env playerId revokedRun σ ≠ .error (.integrityError "amount") := by
  have hacc := Accounts.of_reachable h
  have hfees := Fees.of_reachable h
  have hs := Solvent.of_reachable h
  refine ⟨fun e he => ⟨(hs.spentOn_le hfees he).1, hs.unpaid he, fun k r hr hc => ?_⟩,
    hs.outboxTotal_le hfees, hs.amounts, fun e he arena harena hid => ?_,
    consumeDeath_avoids hacc hfees, finishLeave_avoids hacc hfees⟩
  · obtain ⟨e', he', -, hc', hw⟩ := hs.owned k r hr
    rw [hs.charged_unique he he' hc hc']
    exact hw
  · exact hfees.shares he harena hid rfl

open Duel in
theorem solvency_duel :
    (ledgerAfter duel).spentOn entryA = 18 ∧ (ledgerAfter duel).spentOn entryB = 90
    ∧ (ledgerAfter duel).outboxTotal "wallet" ≤ (ledgerAfter duel).paidTotal "wallet" := by
  exact ⟨by decide +kernel, by decide +kernel, (solvency reachable_duel).2.1 "wallet"⟩

end QuakeJs
