import QuakeJs.Ledger.Solvency
import QuakeJs.Ledger.Turns

/-!
# The victims of the payouts

A payout names the life or the entry that it is paid for.  This module says
when a transaction queues a payout and for whom, and proves that a life with
a payout is dead, and that a creator's share of an entry comes with its
refund.  So whoever queues a payout finds no older one in its way.
-/

namespace QuakeJs

namespace Ledger

/-- A row of `refund_payouts` that pays an entry back. -/
structure Refunds (arena : Arena) (entry : Entry) (r : Payout) : Prop where
  victim : r.victimId = entry.id
  player : r.playerId = entry.playerId
  wallet : r.walletId = entry.walletId
  lnAddress : r.lnAddress = entry.lnAddress
  amount : r.amount = (refundAmounts entry arena).1

/-- A row of `creator_payouts` with the creator's share of a refund. -/
structure Shares (arena : Arena) (entry : Entry) (r : Payout) : Prop where
  victim : r.victimId = entry.id
  wallet : r.walletId = entry.walletId
  lnAddress : r.lnAddress = arena.creatorLnAddress
  amount : r.amount = (refundAmounts entry arena).2

/-- The rows that a refund of the entries appends. -/
structure Repaid (arena : Arena) (entries : List Entry) (σ σ' : Ledger) : Prop where
  payouts : σ'.payouts = σ.payouts
  refunds : ∃ rows, σ'.refundPayouts.rows = σ.refundPayouts.rows ++ rows
    ∧ List.Forall₂ (Refunds arena) entries rows
  shares : ∃ rows, σ'.creatorPayouts.rows = σ.creatorPayouts.rows ++ rows
    ∧ List.Forall₂ (Shares arena)
        (entries.filter fun e => decide (0 < (refundAmounts e arena).2)) rows

/-- The refund of one entry that holds lives. -/
theorem refundEntry_repaid {σ σ' : Ledger} {env : Env} {k : Nat} {entry : Entry} {arena : Arena}
    (hpaid : entry.status = .paid) (hpos : 0 < entry.remaining)
    (h : refundEntry env k entry arena σ = .ok σ') : Repaid arena [entry] σ σ' := by
  obtain ⟨hno, -⟩ | ⟨-, -, -, -, refunds, fees, hrefunds, hfees, rfl⟩ := refundEntry_ok h
  · exact absurd hno (not_or.mpr ⟨not_not.mpr hpaid, hpos.ne'⟩)
  refine ⟨rfl, ⟨_, (Table.insert?_eq_some.mp hrefunds).2, ?_⟩, ?_⟩
  · exact .cons ⟨rfl, rfl, rfl, rfl, rfl⟩ .nil
  · obtain ⟨hzero, rfl⟩ | ⟨hshare, -, hins⟩ := hfees
    · refine ⟨[], (List.append_nil _).symm, ?_⟩
      rw [List.filter_cons_of_neg (by simp [hzero])]
      exact .nil
    · refine ⟨_, (Table.insert?_eq_some.mp hins).2, ?_⟩
      rw [List.filter_cons_of_pos (by simpa using hshare)]
      exact .cons ⟨rfl, rfl, rfl, rfl⟩ .nil

theorem Repaid.trans {arena : Arena} {entries entries' : List Entry} {σ₁ σ₂ σ₃ : Ledger}
    (h : Repaid arena entries σ₁ σ₂) (h' : Repaid arena entries' σ₂ σ₃) :
    Repaid arena (entries ++ entries') σ₁ σ₃ := by
  obtain ⟨hpayouts, ⟨refunds, hrefunds, hall⟩, shares, hshares, hfees⟩ := h
  obtain ⟨hpayouts', ⟨refunds', hrefunds', hall'⟩, shares', hshares', hfees'⟩ := h'
  refine ⟨hpayouts'.trans hpayouts, ⟨refunds ++ refunds', ?_, ?_⟩, shares ++ shares', ?_, ?_⟩
  · rw [hrefunds', hrefunds, List.append_assoc]
  · exact List.rel_append hall hall'
  · rw [hshares', hshares, List.append_assoc]
  · rw [List.filter_append]
    exact List.rel_append hfees hfees'

/-- The loop of `finish_leave`. -/
theorem refundEntries_repaid {env : Env} {arena : Arena} {entries : List Entry}
    (hentries : ∀ e ∈ entries, e.status = .paid ∧ 0 < e.remaining) {k : Nat} {σ σ' : Ledger}
    (h : refundEntries env arena k entries σ = .ok σ') : Repaid arena entries σ σ' := by
  induction entries generalizing k σ with
  | nil =>
    rw [refundEntries, pure_ok_iff] at h
    subst h
    exact ⟨rfl, ⟨[], (List.append_nil _).symm, .nil⟩, [], (List.append_nil _).symm, .nil⟩
  | cons entry rest ih =>
    rw [refundEntries, bind_ok_iff] at h
    obtain ⟨σ₁, hone, hrest⟩ := h
    obtain ⟨hpaid, hpos⟩ := hentries entry List.mem_cons_self
    have hrepaid := refundEntry_repaid hpaid hpos hone
    exact hrepaid.trans (ih (fun e he => hentries e (List.mem_cons_of_mem _ he)) hrest)

/-- Whom a new payout may name: a life that has just died, or an entry that
is paid back. -/
inductive NewPayout (σ σ' : Ledger) (k : Outbox) (r : Payout) : Prop
  | death (outbox : k ≠ .refundPayouts) (victim : Life) (mem : victim ∈ σ.lives)
      (names : r.victimId = victim.id) (alive : victim.status ≠ .dead)
      (dead : ∀ l ∈ σ'.lives, l.id = victim.id → l.status = .dead)
  | refund (outbox : k ≠ .payouts) (entry : Entry) (mem : entry ∈ σ.entries)
      (names : r.victimId = entry.id)
      (owed : entry.status.unsettled = true ∨ entry.status = .paid ∧ 0 < entry.remaining)
      (refunded : ∃ r' ∈ σ'.refundPayouts, r'.victimId = entry.id)

/-- Every row of the list has a row of the other list. -/
theorem exists_of_forall₂ {α β : Type} {R : α → β → Prop} {l : List α} {l' : List β}
    (h : List.Forall₂ R l l') : (∀ a ∈ l, ∃ b ∈ l', R a b) ∧ ∀ b ∈ l', ∃ a ∈ l, R a b := by
  induction h with
  | nil => exact ⟨fun a ha => absurd ha List.not_mem_nil, fun b hb => absurd hb List.not_mem_nil⟩
  | cons hR _ ih =>
    refine ⟨fun a ha => ?_, fun b hb => ?_⟩
    · rcases List.mem_cons.mp ha with rfl | ha
      · exact ⟨_, List.mem_cons_self, hR⟩
      · obtain ⟨b, hb, hab⟩ := ih.1 a ha
        exact ⟨b, List.mem_cons_of_mem _ hb, hab⟩
    · rcases List.mem_cons.mp hb with rfl | hb
      · exact ⟨_, List.mem_cons_self, hR⟩
      · obtain ⟨a, ha, hab⟩ := ih.2 b hb
        exact ⟨a, List.mem_cons_of_mem _ ha, hab⟩

/-- An entry that is repaid has its refund, and its creator's share if it is
positive. -/
theorem Repaid.exists {arena : Arena} {entries : List Entry} {σ σ' : Ledger}
    (h : Repaid arena entries σ σ') {e : Entry} (he : e ∈ entries) :
    (∃ r ∈ σ'.refundPayouts, Refunds arena e r) ∧ (0 < (refundAmounts e arena).2 →
      ∃ r ∈ σ'.creatorPayouts, Shares arena e r) := by
  obtain ⟨-, ⟨rows, hrows, hall⟩, fees, hfees, hshares⟩ := h
  constructor
  · obtain ⟨r, hr, hrefund⟩ := (exists_of_forall₂ hall).1 e he
    exact ⟨r, Table.mem_def.mpr (hrows ▸ List.mem_append_right _ hr), hrefund⟩
  · intro hpos
    obtain ⟨r, hr, hshare⟩ := (exists_of_forall₂ hshares).1 e
      (List.mem_filter.mpr ⟨he, by simpa using hpos⟩)
    exact ⟨r, Table.mem_def.mpr (hfees ▸ List.mem_append_right _ hr), hshare⟩

/-- The terms of the payouts stay, and the new ones name the repaid entries. -/
theorem Repaid.turned {arena : Arena} {entries : List Entry} {σ σ₁ σ₂ σ' : Ledger}
    (h : Repaid arena entries σ₁ σ₂) (hold : ∀ k, σ₁.outbox k = σ.outbox k)
    (hnew : ∀ k, σ'.outbox k = σ₂.outbox k)
    (hentries : ∀ e ∈ entries, ∃ e' ∈ σ.entries, e'.id = e.id
      ∧ (e'.status.unsettled = true ∨ e'.status = .paid ∧ 0 < e'.remaining)) (k : Outbox) :
    Table.Turned (fun r r' => terms r' = terms r) (NewPayout σ σ' k)
      (σ.outbox k) (σ'.outbox k) := by
  have hrefund : ∀ e ∈ entries, ∃ r' ∈ σ'.refundPayouts, r'.victimId = e.id := by
    intro e he
    obtain ⟨r, hr, hrefund⟩ := (h.exists he).1
    have hsame : σ'.refundPayouts = σ₂.refundPayouts := hnew .refundPayouts
    exact ⟨r, hsame ▸ hr, hrefund.victim⟩
  have hmem : k ≠ .payouts → ∀ e ∈ entries, ∀ r : Payout, r.victimId = e.id →
      NewPayout σ σ' k r := by
    intro hk e he r hr
    obtain ⟨e', he', hid, howed⟩ := hentries e he
    exact .refund hk e' he' (hr.trans hid.symm) howed (hid ▸ hrefund e he)
  obtain ⟨hpayouts, ⟨rows, hrows, hall⟩, fees, hfees, hshares⟩ := h
  rw [hnew k, ← hold k]
  cases k with
  | payouts =>
    have hsame : σ₂.outbox .payouts = σ₁.outbox .payouts := hpayouts
    rw [hsame]
    exact .refl fun _ _ => rfl
  | creatorPayouts =>
    refine Table.turned_append hfees (fun _ _ => rfl) fun r hr => ?_
    obtain ⟨e, he, hshare⟩ := (exists_of_forall₂ hshares).2 r hr
    exact hmem (by decide) e (List.mem_filter.mp he).1 r hshare.victim
  | refundPayouts =>
    refine Table.turned_append hrows (fun _ _ => rfl) fun r hr => ?_
    obtain ⟨e, he, hrefund⟩ := (exists_of_forall₂ hall).2 r hr
    exact hmem (by decide) e he r hrefund.victim

end Ledger

open Ledger

section

variable {env : Env} {σ σ' : Ledger}

/-- What a transaction that writes no outbox does to the outboxes. -/
theorem turned_outbox (h : ∀ k, σ'.outbox k = σ.outbox k) (k : Outbox) :
    Table.Turned (fun r r' => terms r' = terms r) (NewPayout σ σ' k) (σ.outbox k)
      (σ'.outbox k) := by
  rw [h k]
  exact .refl fun _ _ => rfl

/-- A death pays for the life that it ends. -/
theorem consumeDeath_outboxes {runId victimId killerId arenaId : Uid} {sequence : Int}
    (h : consumeDeath env runId sequence victimId killerId σ = .ok (arenaId, σ')) (k : Outbox) :
    Table.Turned (fun r r' => terms r' = terms r) (NewPayout σ σ' k) (σ.outbox k)
      (σ'.outbox k) := by
  obtain ⟨run, -, -, row, -, ⟨-, rfl⟩ | ⟨-, victim, hvictim, -, -, σ₂, hσ₂, rfl⟩⟩ :=
    consumeDeath_ok h
  · exact turned_outbox (fun k => by cases k <;> rfl) k
  · obtain ⟨-, rfl⟩ | ⟨halive, entry, -, -, hpaid⟩ := hσ₂
    · exact turned_outbox (fun k => by cases k <;> rfl) k
    · obtain ⟨hmem, rfl⟩ := Table.get?_eq_some.mp hvictim
      have hlives : σ₂.lives = σ.lives.updateKey victim.id (killed env killerId) (fun _ => rfl) :=
        congrArg Ledger.lives hpaid.only
      have hdead : ∀ l ∈ σ₂.lives, l.id = victim.id → l.status = .dead := by
        intro l hl hid
        rw [hlives] at hl
        rcases (Table.mem_updateKey).mp hl with ⟨-, hne⟩ | ⟨_, _, _, rfl⟩
        · exact absurd hid hne
        · rfl
      have hnew : ∀ {k' : Outbox}, k' ≠ .refundPayouts → ∀ r : Payout, r.victimId = victim.id →
          NewPayout σ { σ₂ with
            runs := σ.runs.updateKey runId (fun r => { r with eventSequence := sequence })
              (fun _ => rfl) } k' r :=
        fun hk r hr => .death hk victim hmem hr halive hdead
      cases k with
      | payouts =>
        rcases hpaid.kill with heq | ⟨-, -, _, killer, hins⟩
        · exact heq ▸ .refl fun _ _ => rfl
        · exact Table.turned_insert? hins (fun _ _ => rfl) (hnew (by decide) _ rfl)
      | creatorPayouts =>
        rcases hpaid.fee with heq | ⟨-, -, killer, hins⟩
        · exact heq ▸ .refl fun _ _ => rfl
        · exact Table.turned_insert? hins (fun _ _ => rfl) (hnew (by decide) _ rfl)
      | refundPayouts =>
        have heq : σ₂.refundPayouts = σ.refundPayouts := by
          rw [hpaid.only]
          rfl
        exact heq ▸ .refl fun _ _ => rfl

/-- A settlement pays the entry of a player that has left back. -/
theorem settleEntry_outboxes {payment : Payment} {arena? : Option Uid}
    (h : settleEntry env payment σ = .ok (arena?, σ')) (k : Outbox) :
    Table.Turned (fun r r' => terms r' = terms r) (NewPayout σ σ' k) (σ.outbox k)
      (σ'.outbox k) := by
  obtain rfl | ⟨-, -, -, entry, -, hentry, -, -, -, hcredit⟩ := settleEntry_ok h
  · exact turned_outbox (fun _ => rfl) k
  · cases hcredit with
    | again _ eq =>
      rw [eq]
      exact turned_outbox (fun k => by cases k <;> rfl) k
    | first unsettled _ player _ staying leaving left =>
      cases hs : player.leaveState with
      | none =>
        rw [staying hs]
        exact turned_outbox (fun k => by cases k <;> rfl) k
      | leaving =>
        rw [leaving hs]
        exact turned_outbox (fun k => by cases k <;> rfl) k
      | left =>
        obtain ⟨row, -, hrefund⟩ := left hs
        have hrepaid := refundEntry_repaid rfl (Nat.succ_pos 4) hrefund
        refine hrepaid.turned (fun k => by cases k <;> rfl) (fun _ => rfl) (fun e he => ?_) k
        rw [List.mem_singleton] at he
        exact ⟨entry, hentry, by rw [he], .inl unsettled⟩

/-- A leave pays the entries of the player back. -/
theorem finishLeave_outboxes {playerId revokedRun : Uid}
    (h : finishLeave env playerId revokedRun σ = .ok σ') (k : Outbox) :
    Table.Turned (fun r r' => terms r' = terms r) (NewPayout σ σ' k) (σ.outbox k)
      (σ'.outbox k) := by
  obtain ⟨player, -, row, -, ⟨-, rfl⟩ | ⟨-, -, σ₂, hrefunds, rfl⟩⟩ := finishLeave_ok h
  · exact turned_outbox (fun k => by cases k <;> rfl) k
  · have hselected : ∀ e ∈ σ.entries.select
        (fun e => e.playerId = playerId && e.status = .paid && 0 < e.remaining),
        e ∈ σ.entries ∧ e.status = .paid ∧ 0 < e.remaining := by
      intro e he
      obtain ⟨hmem, hsel⟩ := Table.mem_select.mp he
      simp only [Bool.and_eq_true, decide_eq_true_eq] at hsel
      exact ⟨hmem, hsel.1.2, hsel.2⟩
    have hrepaid := refundEntries_repaid (fun e he => (hselected e he).2) hrefunds
    refine hrepaid.turned (fun k => by cases k <;> rfl) (fun k => by cases k <;> rfl) ?_ k
    exact fun e he => ⟨e, (hselected e he).1, rfl, .inr (hselected e he).2⟩

/-- Every transaction keeps the terms of the payouts, and queues new ones for
a death or for a refund. -/
theorem perform_outboxes {a : Action} (hrun : perform env a σ = .ok σ') (k : Outbox) :
    Table.Turned (fun r r' => terms r' = terms r) (NewPayout σ σ' k) (σ.outbox k)
      (σ'.outbox k) := by
  cases ha : a.ofPlayers with
  | false => exact ((perform_others ha hrun).2.2 k).turned PayoutTerms.id fun _ => rfl
  | true =>
    cases a with
    | reserveEntry arenaId token data =>
      obtain ⟨⟨entry, new⟩, hrun⟩ := map_snd_ok hrun
      obtain ⟨row, -, -, ⟨-, -, rfl⟩ | ⟨-, _, _, _, _, -, -, -, -, -, rfl⟩⟩ :=
        reserveEntry_ok hrun
      · exact turned_outbox (fun k => by cases k <;> rfl) k
      · exact turned_outbox (fun k => by cases k <;> rfl) k
    | recordInvoice entryId payment =>
      obtain rfl | ⟨entry, -, -, -, -, rfl⟩ := recordInvoice_ok hrun
      · exact turned_outbox (fun _ => rfl) k
      · exact turned_outbox (fun k => by cases k <;> rfl) k
    | settleEntry payment =>
      obtain ⟨arena?, hrun⟩ := map_snd_ok hrun
      exact settleEntry_outboxes hrun k
    | consumeDeath runId sequence victimId killerId =>
      obtain ⟨arenaId, hrun⟩ := map_snd_ok hrun
      exact consumeDeath_outboxes hrun k
    | requestLeave arenaId token =>
      obtain ⟨player, hrun⟩ := map_snd_ok hrun
      obtain ⟨p, -, -, -, ⟨-, -, rfl⟩ | ⟨-, -, -, rfl⟩⟩ := requestLeave_ok hrun
      · exact turned_outbox (fun k => by cases k <;> rfl) k
      · exact turned_outbox (fun k => by cases k <;> rfl) k
    | finishLeave playerId revokedRun => exact finishLeave_outboxes hrun k
    | _ => cases ha

/-- A life of the later ledger was there before, or it has a new id. -/
theorem perform_lifeIds {a : Action} (hrun : perform env a σ = .ok σ') {l' : Life}
    (hl' : l' ∈ σ'.lives) : (∃ l ∈ σ.lives, l.id = l'.id) ∨ l'.id = env.uid 0 := by
  rcases perform_lives hrun with hwaned | ⟨arenaId, token, runId, life, hrun⟩
  · obtain ⟨l, hl, hw⟩ := hwaned l' hl'
    exact .inl ⟨l, hl, hw.id.symm⟩
  · obtain ⟨_, -, -, -, -, player, -, -, -, -, hadm⟩ := allocateLife_ok hrun
    cases hadm with
    | again _ _ _ _ eq =>
      rw [eq] at hl'
      exact .inl ⟨l', hl', rfl⟩
    | resume old current _ _ _ slot _ eq ledger =>
      rw [ledger] at hl'
      rcases (Table.mem_updateKey).mp hl' with ⟨hl, -⟩ | ⟨l, hl, -, rfl⟩
      · exact .inl ⟨l', hl, rfl⟩
      · exact .inl ⟨l, hl, rfl⟩
    | new _ _ _ slot _ eq lives insert ledger =>
      rw [ledger] at hl'
      rcases (Table.mem_insert? insert).mp hl' with hl | rfl
      · exact .inl ⟨l', hl, rfl⟩
      · rw [eq]
        exact .inr rfl

end

/-! ## The invariant -/

/-- A life that a payout names is dead, and an entry that a creator's share
names is refunded. -/
structure Victims (σ : Ledger) : Prop where
  dead : ∀ k, k ≠ .refundPayouts → ∀ r ∈ σ.outbox k, ∀ l ∈ σ.lives, l.id = r.victimId →
    l.status = .dead
  refunded : ∀ r ∈ σ.creatorPayouts, ∀ e ∈ σ.entries, e.id = r.victimId →
    ∃ r' ∈ σ.refundPayouts, r'.victimId = e.id

namespace Victims

variable {σ σ' : Ledger}

theorem empty : Victims Ledger.empty where
  dead := fun k _ r hr => by cases k <;> exact absurd hr (Table.not_mem_empty r)
  refunded := fun r hr => absurd hr (Table.not_mem_empty r)

/-- The victim of a payout has its id already. -/
theorem known (h : Solvent σ) {k : Outbox} {r : Payout} (hr : r ∈ σ.outbox k) :
    (∃ l ∈ σ.lives, l.id = r.victimId) ∨ ∃ e ∈ σ.entries, e.id = r.victimId := by
  obtain ⟨e, he, -, hcharged, -⟩ := h.owned k r hr
  have hkill : σ.killOf e.id r.victimId = true → ∃ l ∈ σ.lives, l.id = r.victimId := by
    intro hk
    obtain ⟨l, hl, hid, -⟩ := killOf_eq_true.mp hk
    exact ⟨l, hl, hid⟩
  cases k with
  | payouts => exact .inl (hkill hcharged)
  | creatorPayouts =>
    rcases Bool.or_eq_true_iff.mp hcharged with hk | hid
    · exact .inl (hkill hk)
    · exact .inr ⟨e, he, (of_decide_eq_true hid).symm⟩
  | refundPayouts => exact .inr ⟨e, he, (of_decide_eq_true hcharged).symm⟩

/-- No payout names an id that is not used yet. -/
theorem unnamed (h : Solvent σ) {env : Env} (hfresh : env.Fresh σ) {k : Outbox} {r : Payout}
    (hr : r ∈ σ.outbox k) (n : Nat) : r.victimId ≠ env.uid n := by
  intro heq
  rcases known h hr with ⟨l, hl, hid⟩ | ⟨e, he, hid⟩
  · exact Table.get?_eq_none.mp (hfresh.lives n) l hl (hid.trans heq)
  · exact Table.get?_eq_none.mp (hfresh.entries n) e he (hid.trans heq)

theorem step (h : Victims σ) (hsound : Sound σ) (hsol : Solvent σ)
    (hsol' : Solvent σ') {env : Env}
    {a : Action} (hfresh : env.Fresh σ) (hrun : perform env a σ = .ok σ') : Victims σ' where
  dead := by
    intro k hk r' hr' l' hl' hid
    rcases (perform_outboxes hrun k).new r' hr' with ⟨r, hr, -, hterms⟩ | hnew
    · have hvictim : r'.victimId = r.victimId := congrArg PayoutTerms.victimId hterms
      rcases perform_lifeIds hrun hl' with ⟨l, hl, hlid⟩ | hnewlife
      · have hdead := h.dead k hk r hr l hl (hlid.trans (hid.trans hvictim))
        obtain ⟨l'', hl'', hid'', hstatus⟩ := ended_stays hsound hrun hl (.inl hdead)
        rw [Table.mem_inj hl' hl'' (hlid.symm.trans hid''.symm), hstatus]
        exact hdead
      · exact absurd (hvictim.symm.trans (hid.symm.trans hnewlife)) (unnamed hsol hfresh hr 0)
    · cases hnew with
      | death _ victim _ names _ dead => exact dead l' hl' (hid.trans names)
      | refund _ entry mem names _ _ =>
        obtain ⟨e', he', hkey, -⟩ := (perform_entries hrun).old entry mem
        exact absurd (hid.trans (names.trans hkey.symm)) (hsol'.apart l' hl' e' he')
  refunded := by
    intro r' hr' e' he' hid
    rcases (perform_outboxes hrun .creatorPayouts).new r' hr' with ⟨r, hr, -, hterms⟩ | hnew
    · have hvictim : r'.victimId = r.victimId := congrArg PayoutTerms.victimId hterms
      rcases (perform_entries hrun).new e' he' with ⟨e, he, hkey, -⟩ | hnew
      · obtain ⟨p, hp, hpid⟩ := h.refunded r hr e he (hkey.symm.trans (hid.trans hvictim))
        obtain ⟨p', hp', -, hpterms⟩ := (perform_outboxes hrun .refundPayouts).old p hp
        have hpvictim : p'.victimId = p.victimId := congrArg PayoutTerms.victimId hpterms
        exact ⟨p', hp', hpvictim.trans (hpid.trans hkey.symm)⟩
      · exact absurd (hvictim.symm.trans (hid.symm.trans hnew.id)) (unnamed hsol hfresh hr 1)
    · cases hnew with
      | death _ victim mem names _ _ =>
        rcases (perform_entries hrun).new e' he' with ⟨e, he, hkey, -⟩ | hnew
        · exact absurd (names.symm.trans (hid.symm.trans hkey)) (hsol.apart victim mem e he)
        · have hlife : victim.id = env.uid 1 := names.symm.trans (hid.symm.trans hnew.id)
          exact absurd hlife (Table.get?_eq_none.mp (hfresh.lives 1) victim mem)
      | refund _ entry mem names _ refunded => exact hid.symm ▸ names ▸ refunded

theorem of_reachable (h : Reachable Env.Fresh σ) : Victims σ := by
  induction h with
  | empty => exact .empty
  | step env a hreach hfresh hrun ih =>
    exact ih.step (.of_reachable hreach) (.of_reachable hreach)
      (.of_reachable (.step env a hreach hfresh hrun)) hfresh hrun

end Victims

end QuakeJs
