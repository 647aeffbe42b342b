import QuakeJs.Ledger.Victims

/-!
# Retirement

A player session that leaves never comes back, and what it had paid for is
paid back once.  `Retires` names the two transactions that pay an entry back:
the completion of the leave, and the settlement of an invoice that arrives
after it.  `Closed` is what the ledger says of such an entry from then on.
-/

namespace QuakeJs

open Ledger

/-- The transaction pays back an entry that holds this number of lives. -/
inductive Retires (a : Action) (σ σ' : Ledger) (e : Entry) : Nat → Prop
  /-- `finish_leave` completes the leave of its player. -/
  | leave (revokedRun : Uid) (call : a = .finishLeave e.playerId revokedRun)
      (player : Participant) (mem : player ∈ σ.participants) (owner : player.id = e.playerId)
      (leaving : player.leaveState = .leaving) (paid : e.status = .paid)
      (pos : 0 < e.remaining) : Retires a σ σ' e e.remaining
  /-- `settle_entry` credits it after its player has left. -/
  | late (payment : Payment) (call : a = .settleEntry payment)
      (names : payment.quakejsEntry = some e.id) (player : Participant)
      (mem : player ∈ σ.participants) (owner : player.id = e.playerId)
      (left : player.leaveState = .left) (unsettled : e.status.unsettled = true)
      (settled : ∃ e' ∈ σ'.entries, e'.id = e.id ∧ e'.status = .paid) : Retires a σ σ' e 5

/-- The entry is paid and empty, has a refund of this amount, and the creator
has a share of it as `share` says. -/
structure Closed (e : Entry) (amount : Int) (share : Prop) (σ : Ledger) : Prop where
  entry : ∃ e' ∈ σ.entries, e'.id = e.id ∧ e'.status = .paid ∧ e'.remaining = 0
  refund : ∃ r ∈ σ.refundPayouts, r.victimId = e.id ∧ r.amount = amount
    ∧ r.lnAddress = e.lnAddress
  share : (∃ r ∈ σ.creatorPayouts, r.victimId = e.id) ↔ share

section

variable {env : Env} {a : Action} {σ σ' : Ledger} {e : Entry} {amount : Int} {share : Prop}

/-- A closed entry stays closed, whatever is called. -/
theorem Closed.step (h : Closed e amount share σ) (hsol : Solvent σ)
    (hrun : perform env a σ = .ok σ') : Closed e amount share σ' := by
  obtain ⟨⟨e₀, he₀, hid, hpaid, hzero⟩, ⟨r, hr, hvictim, hamount, hto⟩, hshare⟩ := h
  refine ⟨?_, ?_, ?_⟩
  · obtain ⟨e', he', hkey, hturn⟩ := (perform_entries hrun).old e₀ he₀
    obtain rfl := hturn.closed hpaid hzero
    exact ⟨e', he', hid, hpaid, hzero⟩
  · obtain ⟨r', hr', -, hterms⟩ := (perform_outboxes hrun .refundPayouts).old r hr
    have hsame : r'.victimId = r.victimId ∧ r'.amount = r.amount ∧ r'.lnAddress = r.lnAddress :=
      ⟨congrArg PayoutTerms.victimId hterms, congrArg PayoutTerms.amount hterms,
        congrArg PayoutTerms.lnAddress hterms⟩
    exact ⟨r', hr', hsame.1.trans hvictim, hsame.2.1.trans hamount, hsame.2.2.trans hto⟩
  · rw [← hshare]
    constructor
    · rintro ⟨p', hp', hpid⟩
      rcases (perform_outboxes hrun .creatorPayouts).new p' hp' with ⟨p, hp, -, hterms⟩ | hnew
      · have hsame : p'.victimId = p.victimId := congrArg PayoutTerms.victimId hterms
        exact ⟨p, hp, hsame.symm.trans hpid⟩
      · -- Nothing is queued for a life with this id, nor for an entry that owes nothing.
        cases hnew with
        | death _ victim mem names _ _ =>
          have hsame : victim.id = e₀.id := names.symm.trans (hpid.trans hid.symm)
          exact absurd hsame (hsol.apart victim mem e₀ he₀)
        | refund _ entry mem names owed _ =>
          obtain rfl : entry = e₀ :=
            Table.mem_inj mem he₀ (names.symm.trans (hpid.trans hid.symm))
          rcases owed with hun | ⟨-, hpos⟩
          · rw [hpaid] at hun
            cases hun
          · omega
    · rintro ⟨p, hp, hpid⟩
      obtain ⟨p', hp', -, hterms⟩ := (perform_outboxes hrun .creatorPayouts).old p hp
      have hsame : p'.victimId = p.victimId := congrArg PayoutTerms.victimId hterms
      exact ⟨p', hp', hsame.trans hpid⟩

theorem Closed.reaches (h : Closed e amount share σ) (hreach : Reachable Env.Fresh σ) {τ : Ledger}
    (hlater : Reaches Env.Fresh σ τ) : Closed e amount share τ :=
  hlater.invariant hreach h fun _ _ _ _ hτ hclosed _ hrun => hclosed.step (.of_reachable hτ) hrun

/-- A refund closes what it pays back, when no share was queued before. -/
theorem Ledger.Repaid.payouts_of {arena : Arena} {entries : List Entry} {copy : Entry}
    (h : Repaid arena entries σ σ') (hcopy : copy ∈ entries)
    (hone : ∀ c ∈ entries, c.id = copy.id → c = copy)
    (hfree : ∀ r ∈ σ.creatorPayouts, r.victimId ≠ copy.id) :
    (∃ r ∈ σ'.refundPayouts, r.victimId = copy.id ∧ r.amount = (refundAmounts copy arena).1
      ∧ r.lnAddress = copy.lnAddress)
    ∧ ((∃ r ∈ σ'.creatorPayouts, r.victimId = copy.id) ↔ 0 < (refundAmounts copy arena).2) := by
  obtain ⟨⟨r, hr, hrefund⟩, hpos⟩ := h.exists hcopy
  refine ⟨⟨r, hr, hrefund.victim, hrefund.amount, hrefund.lnAddress⟩, ?_, ?_⟩
  · rintro ⟨p, hp, hpid⟩
    obtain ⟨rows, hrows, hall⟩ := h.shares
    rw [Table.mem_def, hrows, List.mem_append] at hp
    rcases hp with hp | hp
    · exact absurd hpid (hfree p hp)
    · obtain ⟨c, hc, hshares⟩ := (exists_of_forall₂ hall).2 p hp
      obtain ⟨hmem, hshare⟩ := List.mem_filter.mp hc
      rw [← hone c hmem (hshares.victim.symm.trans hpid)]
      exact of_decide_eq_true hshare
  · intro hshare
    obtain ⟨p, hp, hshares⟩ := hpos hshare
    exact ⟨p, hp, hshares.victim⟩

/-- An entry without a refund has no creator's share either. -/
theorem Victims.free (h : Victims σ) (he : e ∈ σ.entries)
    (hnone : ∀ r ∈ σ.refundPayouts, r.victimId ≠ e.id) :
    ∀ r ∈ σ.creatorPayouts, r.victimId ≠ e.id := by
  intro r hr hvictim
  obtain ⟨r', hr', hv⟩ := h.refunded r hr e he hvictim.symm
  exact hnone r' hr' hv

/-- An entry that is unpaid, or holds lives, has no refund. -/
theorem Accounts.unrefunded (h : Accounts σ) (he : e ∈ σ.entries)
    (howed : e.status ≠ .paid ∨ 0 < e.remaining) :
    ∀ r ∈ σ.refundPayouts, r.victimId ≠ e.id := by
  have hbal := h.balanced e he
  have hzero : σ.refundsOf e.id = 0 := by
    rcases howed with hun | hpos
    · exact (hbal.unpaid hun).2.2
    · by_contra hne
      have hone := hbal.once
      have := hbal.empty (by omega)
      omega
  intro r hr
  simpa using Table.count_eq_zero.mp hzero r hr

/-- The amounts of a refund depend on the price of the arena only. -/
theorem refundAmounts_congr {arena arena' : Arena} (h : arena'.isPublic = arena.isPublic)
    (h' : arena'.creatorHaircut = arena.creatorHaircut) (e : Entry) :
    refundAmounts e arena' = refundAmounts e arena := by
  unfold refundAmounts creatorFee
  rw [h, h']

/-- The completion of a leave closes what the player still held. -/
theorem finishLeave_closes {revokedRun : Uid} {player : Participant} (he : e ∈ σ.entries)
    (hacc : Accounts σ) (hvictims : Victims σ) (hplayer : player ∈ σ.participants)
    (howner : player.id = e.playerId) (hleaving : player.leaveState = .leaving)
    (hpaid : e.status = .paid) (hpos : 0 < e.remaining)
    (hrun : finishLeave env e.playerId revokedRun σ = .ok σ') {arena : Arena}
    (harena : arena ∈ σ.arenas) (hin : arena.id = e.arenaId) :
    Closed e (refundAmounts e arena).1 (0 < (refundAmounts e arena).2) σ' := by
  obtain ⟨player', hget, row, hrow, hcases⟩ := finishLeave_ok hrun
  obtain ⟨hmem', hkey'⟩ := Table.get?_eq_some.mp hget
  obtain rfl : player' = player := Table.mem_inj hmem' hplayer (hkey'.trans howner.symm)
  obtain ⟨hleft, -⟩ | ⟨-, -, σ₂, hrefunds, rfl⟩ := hcases
  · rw [hleaving] at hleft
    cases hleft
  obtain ⟨hmem, hkey⟩ := Table.get?_eq_some.mp hrow
  obtain rfl : row = arena := by
    obtain ⟨p, hp, hpid, hparena⟩ := hacc.player e he
    obtain rfl : p = player' := Table.mem_inj hp hmem' (hpid.trans howner.symm)
    exact Table.mem_inj hmem harena (hkey.trans (hparena.trans hin.symm))
  have hselected : e ∈ σ.entries.select
      (fun e' => e'.playerId = e.playerId && e'.status = .paid && 0 < e'.remaining) :=
    Table.mem_select.mpr ⟨he, by simp [hpaid, hpos]⟩
  have hall : ∀ c ∈ σ.entries.select
      (fun e' => e'.playerId = e.playerId && e'.status = .paid && 0 < e'.remaining),
      c ∈ σ.entries ∧ c.status = .paid ∧ 0 < c.remaining := by
    intro c hc
    obtain ⟨hcmem, hsel⟩ := Table.mem_select.mp hc
    simp only [Bool.and_eq_true, decide_eq_true_eq] at hsel
    exact ⟨hcmem, hsel.1.2, hsel.2⟩
  have hrepaid := refundEntries_repaid (fun c hc => (hall c hc).2) hrefunds
  have hfree := hvictims.free he (hacc.unrefunded he (.inr hpos))
  obtain ⟨hrefund, hshare⟩ := hrepaid.payouts_of hselected
    (fun c hc hid => Table.mem_inj (hall c hc).1 he hid) hfree
  refine ⟨⟨emptied e, ?_, rfl, hpaid, rfl⟩, hrefund, hshare⟩
  show emptied e ∈ σ₂.entries
  rw [congrArg Ledger.entries (refundEntries_entries (fun c hc => (hall c hc).2) hrefunds)]
  refine (Table.mem_update (f := emptied) fun _ => rfl).mpr ⟨e, he, ?_⟩
  rw [if_pos (decide_eq_true (List.mem_map_of_mem hselected))]

/-- The settlement of an entry whose player has left closes it. -/
theorem settleEntry_closes {payment : Payment} {arena? : Option Uid} {player : Participant}
    (he : e ∈ σ.entries) (hacc : Accounts σ) (hvictims : Victims σ)
    (hnames : payment.quakejsEntry = some e.id) (hplayer : player ∈ σ.participants)
    (howner : player.id = e.playerId) (hleft : player.leaveState = .left)
    (hun : e.status.unsettled = true) (hsettled : ∃ e' ∈ σ'.entries,
      e'.id = e.id ∧ e'.status = .paid)
    (hrun : settleEntry env payment σ = .ok (arena?, σ')) {arena : Arena}
    (harena : arena ∈ σ.arenas) (hin : arena.id = e.arenaId) :
    Closed e (refundAmounts { e with remaining := 5 } arena).1
      (0 < (refundAmounts { e with remaining := 5 } arena).2) σ' := by
  have hunpaid : e.status ≠ .paid := by
    intro hpaid
    rw [hpaid] at hun
    cases hun
  have hstill : ∀ e' ∈ σ.entries, e'.id = e.id → e'.status ≠ .paid := by
    intro e' he' hid
    rw [Table.mem_inj he' he hid]
    exact hunpaid
  obtain rfl | ⟨-, -, -, entry, hid, hentry, -, -, -, hcredit⟩ := settleEntry_ok hrun
  · obtain ⟨e', he', hid, hpaid⟩ := hsettled
    exact absurd hpaid (hstill e' he' hid)
  obtain rfl : entry = e :=
    Table.mem_inj hentry he (Option.some.inj (hid.symm.trans hnames))
  cases hcredit with
  | again paid _ => exact absurd paid hunpaid
  | first _ _ player' get _ _ left =>
    obtain ⟨hmem', hkey'⟩ := Table.get?_eq_some.mp get
    obtain rfl : player' = player := Table.mem_inj hmem' hplayer (hkey'.trans howner.symm)
    obtain ⟨row, hrow, hrefund⟩ := left hleft
    obtain ⟨hmem, hkey⟩ := Table.get?_eq_some.mp hrow
    obtain rfl : row = arena := Table.mem_inj hmem harena (hkey.trans hin.symm)
    have hrepaid := refundEntry_repaid rfl (Nat.succ_pos 4) hrefund
    have hfree := hvictims.free he (hacc.unrefunded he (.inl hunpaid))
    obtain ⟨hback, hshare⟩ := hrepaid.payouts_of (List.mem_singleton_self _)
      (fun c hc _ => List.mem_singleton.mp hc) hfree
    refine ⟨?_, hback, hshare⟩
    obtain ⟨hno, -⟩ | ⟨-, -, -, -, _, _, -, -, rfl⟩ := refundEntry_ok hrefund
    · exact absurd hno (not_or.mpr ⟨not_not.mpr rfl, Nat.succ_ne_zero 4⟩)
    · have hcredited : credited payment entry ∈ (σ.creditLedger entry payment).entries :=
        (Table.mem_updateKey).mpr (.inr ⟨entry, he, rfl, rfl⟩)
      exact ⟨emptied (credited payment entry),
        (Table.mem_updateKey).mpr (.inr ⟨_, hcredited, rfl, rfl⟩), rfl, rfl, rfl⟩

/-- Whoever is paid back is closed. -/
theorem Retires.closed {n : Nat} (h : Retires a σ σ' e n) (he : e ∈ σ.entries)
    (hacc : Accounts σ) (hvictims : Victims σ) (hrun : perform env a σ = .ok σ') {arena : Arena}
    (harena : arena ∈ σ.arenas) (hin : arena.id = e.arenaId) :
    Closed e (refundAmounts { e with remaining := n } arena).1
      (0 < (refundAmounts { e with remaining := n } arena).2) σ' := by
  cases h with
  | leave revokedRun call player mem owner leaving paid pos =>
    subst call
    exact finishLeave_closes he hacc hvictims mem owner leaving paid pos hrun harena hin
  | late payment call names player mem owner left unsettled settled =>
    subst call
    obtain ⟨arena?, hrun⟩ := map_snd_ok hrun
    exact settleEntry_closes he hacc hvictims names mem owner left
      unsettled settled hrun harena hin

end

/-! ## Players that have left -/

/-- The entries of a player that has left hold no lives. -/
def Emptied (σ : Ledger) : Prop :=
  ∀ p ∈ σ.participants, p.leaveState = .left → ∀ e ∈ σ.entries, e.playerId = p.id →
    e.remaining = 0

/-- The completion of a leave leaves the player nothing. -/
theorem finishLeave_empties {env : Env} {σ σ' : Ledger} {p : Participant} {revokedRun : Uid}
    (hacc : Accounts σ) (hp : p ∈ σ.participants) (hleaving : p.leaveState = .leaving)
    (hrun : finishLeave env p.id revokedRun σ = .ok σ') :
    ∀ e ∈ σ'.entries, e.playerId = p.id → e.remaining = 0 := by
  obtain ⟨p', hget, row, -, ⟨hleft, -⟩ | ⟨-, -, σ₂, hrefunds, rfl⟩⟩ := finishLeave_ok hrun
  · obtain ⟨hmem', hkey'⟩ := Table.get?_eq_some.mp hget
    rw [Table.mem_inj hmem' hp hkey', hleaving] at hleft
    cases hleft
  intro e he howner
  have hselected : ∀ c ∈ σ.entries.select
      (fun e => e.playerId = p.id && e.status = .paid && 0 < e.remaining),
      c.status = .paid ∧ 0 < c.remaining := by
    intro c hc
    have hsel := (Table.mem_select.mp hc).2
    simp only [Bool.and_eq_true, decide_eq_true_eq] at hsel
    exact ⟨hsel.1.2, hsel.2⟩
  have he' : e ∈ σ₂.entries := he
  rw [congrArg Ledger.entries (refundEntries_entries hselected hrefunds)] at he'
  obtain ⟨e₀, he₀, rfl⟩ := (Table.mem_update (f := emptied) fun _ => rfl).mp he'
  split_ifs at howner ⊢ with hmem
  · rfl
  · -- An entry that is spared is unpaid or empty.
    by_contra hne
    have hpaid : e₀.status = .paid := by
      by_contra hunpaid
      exact hne ((hacc.balanced e₀ he₀).unpaid hunpaid).1
    refine hmem ?_
    have hsel : e₀ ∈ σ.entries.select
        (fun e => e.playerId = p.id && e.status = .paid && 0 < e.remaining) :=
      Table.mem_select.mpr ⟨he₀, by simp [howner, hpaid, Nat.pos_of_ne_zero hne]⟩
    simpa using List.mem_map_of_mem hsel

theorem Emptied.step {env : Env} {a : Action} {σ σ' : Ledger} (h : Emptied σ) (hacc : Accounts σ)
    (hrun : perform env a σ = .ok σ') : Emptied σ' := by
  intro p' hp' hleft e' he' howner
  rcases (perform_players hrun).new p' hp' with ⟨p, hp, hkey, hturn⟩ | hnew
  · -- A player that had left already, with entries that were empty already.
    have hbefore : p.leaveState = .left → e'.remaining = 0 := by
      intro hwas
      rcases (perform_entries hrun).new e' he' with ⟨e, he, -, heturn⟩ | hnew
      · have hsame : e.playerId = p.id :=
          (congrArg Entry.playerId heturn.kept).symm.trans (howner.trans hkey)
        have hzero := h p hp hwas e he hsame
        cases heturn with
        | same => exact hzero
        | invoiced => exact hzero
        | credited payment _ _ _ _ player get here =>
          obtain ⟨hmem, hid⟩ := Table.get?_eq_some.mp get
          rw [Table.mem_inj hmem hp (hid.trans hsame)] at here
          exact absurd hwas here
        | returned => rfl
        | charged _ _ _ _ _ _ _ _ pos => omega
        | refunded => rfl
      · exact hnew.remaining
    cases hturn with
    | same => exact hbefore hleft
    | addressed entry => exact hbefore hleft
    | asked => cases hleft
    | gone revokedRun call leaving =>
      subst call
      exact finishLeave_empties hacc hp leaving hrun e' he' howner
  · rw [hnew.staying] at hleft
    cases hleft

theorem Emptied.of_reachable {ok : Env → Ledger → Prop} {σ : Ledger} (h : Reachable ok σ) :
    Emptied σ := by
  induction h with
  | empty => exact fun p hp => absurd hp (Table.not_mem_empty p)
  | step env a hreach _ hrun ih => exact ih.step (.of_reachable hreach) hrun

/-- Nobody reserves an entry for a player that is leaving. -/
theorem reserveEntry_refuses {env : Env} {arenaId token : String} {data : EntryInput}
    {entry : Entry} {σ σ' : Ledger} {p : Participant} (hp : p ∈ σ.participants)
    (hleaving : p.leaveState ≠ .none)
    (hrun : reserveEntry env arenaId token data σ = .ok ((entry, true), σ')) :
    entry.playerId ≠ p.id := by
  obtain ⟨row, -, -, ⟨hold, -⟩ | ⟨-, arena, playerId, participants,
    entries, -, hplayer, rfl, -⟩⟩ :=
    reserveEntry_ok hrun
  · cases hold
  · intro hid
    cases hplayer with
    | known player mem id _ staying _ _ _ =>
      rw [Table.mem_inj mem hp (id.trans hid)] at staying
      exact hleaving staying
    | new q id _ _ _ _ insert =>
      exact (Table.insert?_eq_some.mp insert).1 p hp (hid.symm.trans id.symm)

/-- Nobody admits a player that is leaving. -/
theorem allocateLife_refuses {env : Env} {arenaId token runId : Uid} {life : Life}
    {σ σ' : Ledger} {p : Participant} (hp : p ∈ σ.participants) (hleaving : p.leaveState ≠ .none)
    (hrun : allocateLife env arenaId token runId σ = .ok (life, σ')) : life.playerId ≠ p.id := by
  obtain ⟨_, -, -, -, -, player, hplayer, -, -, hstay, hadm⟩ := allocateLife_ok hrun
  have howner : life.playerId = player.id := by
    cases hadm with
    | again _ hp _ _ _ => exact hp
    | resume old current _ _ _ slot _ eq _ =>
      rw [eq]
      exact (currentLife_mem current).2.1
    | new _ _ _ _ _ eq _ _ _ => rw [eq]
  intro hid
  rw [Table.mem_inj hplayer hp (howner.symm.trans hid)] at hstay
  exact hleaving hstay

/-! ## The law -/

/-- What the ledger holds for an entry that was paid back with `n` lives: one
refund, and a creator's share if it is positive. -/
theorem Closed.refunded {σ : Ledger} {e : Entry} {amount : Int} {share : Prop}
    (h : Closed e amount share σ) (hacc : Accounts σ) :
    (∃ r ∈ σ.refundPayouts, r.victimId = e.id ∧ r.amount = amount ∧ r.lnAddress = e.lnAddress
      ∧ ∀ r' ∈ σ.refundPayouts, r'.victimId = e.id → r' = r)
    ∧ ((∃ r ∈ σ.creatorPayouts, r.victimId = e.id) ↔ share) := by
  obtain ⟨⟨e', he', hid, -⟩, ⟨r, hr, hvictim, hamount, hto⟩, hshare⟩ := h
  have honce := (hacc.balanced e' he').once
  rw [hid] at honce
  refine ⟨⟨r, hr, hvictim, hamount, hto, fun r' hr' hvictim' => ?_⟩, hshare⟩
  exact Table.eq_of_count_le_one honce hr' hr (by simpa using hvictim') (by simpa using hvictim)

/-- Retirement is final and is paid back once.  The leave state of a player
only moves forward; from `leaving` on the player gets no entry and no life;
once `left`, it holds no lives, and every entry that was paid back at the
leave or is settled after it has one refund, in every later ledger. -/
theorem retirement_final {σ : Ledger} (h : Reachable Env.Fresh σ) :
    (∀ env a σ', env.Fresh σ → perform env a σ = .ok σ' →
      (∀ p ∈ σ.participants, ∃ p' ∈ σ'.participants, p'.id = p.id
        ∧ (p'.leaveState = p.leaveState ∨ p.leaveState = .none ∧ p'.leaveState = .leaving
          ∨ p.leaveState = .leaving ∧ p'.leaveState = .left))
      ∧ (∀ p' ∈ σ'.participants, (∀ p ∈ σ.participants, p.id ≠ p'.id) → p'.leaveState = .none)
      ∧ ∀ e ∈ σ.entries, ∀ n, Retires a σ σ' e n → ∀ arena ∈ σ.arenas, arena.id = e.arenaId →
        ∀ τ, Reaches Env.Fresh σ' τ →
          (∃ r ∈ τ.refundPayouts, r.victimId = e.id
            ∧ r.amount = n * e.amount * (100 - e.haircut - creatorFee arena) / 500
            ∧ r.lnAddress = e.lnAddress ∧ ∀ r' ∈ τ.refundPayouts, r'.victimId = e.id → r' = r)
          ∧ ((∃ r ∈ τ.creatorPayouts, r.victimId = e.id)
            ↔ 0 < n * e.amount * creatorFee arena / 500))
    ∧ (∀ p ∈ σ.participants, p.leaveState ≠ .none →
      (∀ env arenaId token data entry σ',
        reserveEntry env arenaId token data σ = .ok ((entry, true), σ') → entry.playerId ≠ p.id)
      ∧ ∀ env arenaId token runId life σ',
        allocateLife env arenaId token runId σ = .ok (life, σ') → life.playerId ≠ p.id)
    ∧ (∀ p ∈ σ.participants, p.leaveState = .left →
      (∀ e ∈ σ.entries, e.playerId = p.id → e.remaining = 0)
      ∧ ∀ l ∈ σ.lives, l.playerId = p.id → l.status ≠ .alive ∧ l.status ≠ .left)
    ∧ ∀ env playerId revokedRun error, finishLeave env playerId revokedRun σ = .error error →
      commit σ (env, .finishLeave playerId revokedRun) = σ := by
  refine ⟨fun env a σ' hfresh hrun => ⟨fun p hp => ?_, fun p' hp' hnew => ?_,
      fun e he n hretires arena harena hin τ hlater => ?_⟩, fun p hp hleaving => ⟨?_, ?_⟩,
    fun p hp hleft => ⟨Emptied.of_reachable h p hp hleft, fun l hl howner => ?_⟩,
    fun env playerId revokedRun error hraises => commit_error hraises⟩
  · obtain ⟨p', hp', hid, hturn⟩ := (perform_players hrun).old p hp
    refine ⟨p', hp', hid, ?_⟩
    cases hturn with
    | same => exact .inl rfl
    | addressed => exact .inl rfl
    | asked _ _ staying => exact .inr (.inl ⟨staying, rfl⟩)
    | gone _ _ leaving => exact .inr (.inr ⟨leaving, rfl⟩)
  · rcases (perform_players hrun).new p' hp' with ⟨p, hp, hid, -⟩ | hplayer
    · exact absurd hid.symm (hnew p hp)
    · exact hplayer.staying
  · have hreach : Reachable Env.Fresh σ' := .step env a h hfresh hrun
    have hclosed := hretires.closed he (.of_reachable h) (.of_reachable h) hrun harena hin
    exact (hclosed.reaches hreach hlater).refunded (.of_reachable (hreach.trans hlater))
  · exact fun _ _ _ _ _ _ hrun => reserveEntry_refuses hp hleaving hrun
  · exact fun _ _ _ _ _ _ hrun => allocateLife_refuses hp hleaving hrun
  · have hclosed : l.status.open = false := by
      by_contra hopen
      obtain ⟨q, hq, hid, hstay⟩ :=
        (Sound.of_reachable h).funded.staying l hl (by simpa using hopen)
      rw [Table.mem_inj hq hp (hid.trans howner)] at hstay
      exact hstay hleft
    constructor <;> intro hs <;> rw [hs] at hclosed <;> cases hclosed

open Duel in
theorem retirement_final_duel :
    ∃ r ∈ (ledgerAfter duel).refundPayouts, r.victimId = entryB ∧ r.amount = 90
      ∧ ∀ r' ∈ (ledgerAfter duel).refundPayouts, r'.victimId = entryB → r' = r := by
  obtain ⟨e, he, hid, howner, hpaid, hfive, hterms⟩ : ∃ e ∈ (ledgerAfter leaving).entries,
      e.id = entryB ∧ e.playerId = (tick 3).uid 0 ∧ e.status = .paid ∧ e.remaining = 5
        ∧ e.amount = 100 ∧ e.haircut = 10 ∧ e.arenaId = arenaId := by decide +kernel
  obtain ⟨p, hp, hpid, hleaving⟩ : ∃ p ∈ (ledgerAfter leaving).participants,
      p.id = (tick 3).uid 0 ∧ p.leaveState = .leaving := by decide +kernel
  obtain ⟨arena, harena, hin, hfee⟩ : ∃ arena ∈ (ledgerAfter leaving).arenas,
      arena.id = arenaId ∧ creatorFee arena = 0 := by decide +kernel
  have hretires : Retires leave.2 (ledgerAfter leaving) (ledgerAfter duel) e e.remaining :=
    .leave runId (howner ▸ rfl) p hp (hpid.trans howner.symm) hleaving hpaid (by omega)
  have hlaw := (retirement_final reachable_leaving).1 _ _ _ fresh_leave perform_leave
  obtain ⟨r, hr, hvictim, hamount, -, honce⟩ :=
    (hlaw.2.2 e he _ hretires arena harena (hin.trans hterms.2.2.symm) _ .refl).1
  rw [hfive, hterms.1, hterms.2.1, hfee] at hamount
  exact ⟨r, hr, hvictim.trans hid, hamount, fun r' hr' hv => honce r' hr' (hv.trans hid.symm)⟩

end QuakeJs
