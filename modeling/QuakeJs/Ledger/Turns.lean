import QuakeJs.Ledger.Conservation

/-!
# What a transaction makes of a row

The invariants of single rows follow a row through a transaction.  For each
of the tables `entries`, `participants` and `arenas` there is one relation
that lists what a row can turn into, with the call and the guards that allow
it, and one theorem that says that every transaction keeps to the list.
-/

namespace QuakeJs

namespace Ledger

/-! ## Entries -/

/-- The payment of an entry, as `settle_entry` accepts it. -/
structure Funds (payment : Payment) (e : Entry) : Prop where
  success : payment.success = true
  incoming : payment.isIn = true
  tag : payment.tag = some "quakejs"
  names : payment.quakejsEntry = some e.id
  wallet : payment.walletId = e.walletId
  amount : payment.amount = e.amount * 1000
  hash : truthy e.paymentHash = true → e.paymentHash = some payment.paymentHash

/-- What a transaction can make of an entry. -/
inductive EntryTurns (env : Env) (a : Action) (σ : Ledger) (e : Entry) : Entry → Prop
  | same : EntryTurns env a σ e e
  | invoiced (payment : Payment) (call : a = .recordInvoice e.id payment)
      (creating : e.status = .creating) (unhashed : e.paymentHash = none)
      (free : σ.hashTaken e.id payment.paymentHash = false) :
      EntryTurns env a σ e (invoiced payment e)
  | credited (payment : Payment) (call : a = .settleEntry payment) (funds : Funds payment e)
      (unsettled : e.status.unsettled = true)
      (free : σ.hashTaken e.id payment.paymentHash = false) (player : Participant)
      (get : σ.participants.get? e.playerId = some player) (here : player.leaveState ≠ .left) :
      EntryTurns env a σ e (credited payment e)
  | returned (payment : Payment) (call : a = .settleEntry payment) (funds : Funds payment e)
      (unsettled : e.status.unsettled = true)
      (free : σ.hashTaken e.id payment.paymentHash = false) (player : Participant)
      (get : σ.participants.get? e.playerId = some player) (left : player.leaveState = .left) :
      EntryTurns env a σ e (emptied (credited payment e))
  | charged (runId : Uid) (sequence : Int) (victim : Life) (killerId : Uid)
      (call : a = .consumeDeath runId sequence victim.id killerId) (mem : victim ∈ σ.lives)
      (entry : victim.entryId = e.id) (alive : victim.status ≠ .dead) (pos : 0 < e.remaining) :
      EntryTurns env a σ e (charged e)
  | refunded (revokedRun : Uid) (call : a = .finishLeave e.playerId revokedRun)
      (paid : e.status = .paid) (pos : 0 < e.remaining) (player : Participant)
      (get : σ.participants.get? e.playerId = some player)
      (leaving : player.leaveState = .leaving) :
      EntryTurns env a σ e (emptied e)

/-- Only the status, the invoice and the lives of an entry are ever written. -/
theorem EntryTurns.kept {env : Env} {a : Action} {σ : Ledger} {e e' : Entry}
    (h : EntryTurns env a σ e e') :
    { e' with status := e.status, paymentHash := e.paymentHash, bolt11 := e.bolt11
              remaining := e.remaining } = e := by
  cases h <;> rfl

/-- A paid entry that holds no lives is not written any more. -/
theorem EntryTurns.closed {env : Env} {a : Action} {σ : Ledger} {e e' : Entry}
    (h : EntryTurns env a σ e e') (hpaid : e.status = .paid) (hzero : e.remaining = 0) :
    e' = e := by
  cases h with
  | same => rfl
  | invoiced _ _ creating _ _ => simp [hpaid] at creating
  | credited _ _ _ unsettled _ _ _ _ => simp [hpaid, EntryStatus.unsettled] at unsettled
  | returned _ _ _ unsettled _ _ _ _ => simp [hpaid, EntryStatus.unsettled] at unsettled
  | charged _ _ _ _ _ _ _ _ pos => omega
  | refunded _ _ _ pos _ _ _ => omega

/-- A player that may buy five more lives. -/
structure MayPay (env : Env) (σ : Ledger) (p : Participant) : Prop where
  staying : p.leaveState = .none
  spent : σ.remainingOf p.id = 0
  noOpen : ∀ e ∈ σ.entries, ¬(e.playerId = p.id ∧ e.status.unsettled = true
    ∧ env.now < e.expiresAt)

/-- A new entry. -/
structure NewEntry (env : Env) (a : Action) (σ : Ledger) (e : Entry) : Prop where
  call : ∃ token data, a = .reserveEntry e.arenaId token data ∧ data.nonce = e.nonce
  id : e.id = env.uid 1
  player : e.playerId = env.uid 0 ∨ ∃ p ∈ σ.participants, p.id = e.playerId
    ∧ p.arenaId = e.arenaId ∧ MayPay env σ p
  expires : e.expiresAt = env.now + 300
  status : e.status = .creating
  unhashed : e.paymentHash = none
  remaining : e.remaining = 0
  arena : ∃ row ∈ σ.arenas, row.id = e.arenaId ∧ row.active = true
  nonce : ∀ e' ∈ σ.entries, ¬(e'.playerId = e.playerId ∧ e'.nonce = e.nonce)

/-! ## Players -/

/-- A player that has asked to leave. -/
def asked (p : Participant) : Participant := { p with leaveState := .leaving }

/-- A player that has left. -/
def gone (p : Participant) : Participant := { p with leaveState := .left }

/-- What a transaction can make of a player. -/
inductive PlayerTurns (a : Action) (p : Participant) : Participant → Prop
  | same : PlayerTurns a p p
  | addressed (entry : Entry) : PlayerTurns a p (addressed entry p)
  | asked (token : String) (call : a = .requestLeave p.arenaId token)
      (staying : p.leaveState = .none) : PlayerTurns a p (asked p)
  | gone (revokedRun : Uid) (call : a = .finishLeave p.id revokedRun)
      (leaving : p.leaveState = .leaving) : PlayerTurns a p (gone p)

/-- A new player. -/
structure NewPlayer (env : Env) (a : Action) (p : Participant) : Prop where
  call : ∃ token data, a = .reserveEntry p.arenaId token data ∧ p.tokenHash = env.sha256 token
  staying : p.leaveState = .none
  id : p.id = env.uid 0

end Ledger

open Ledger

/-- The transactions that write the entries or the players. -/
def Action.ofPlayers : Action → Bool
  | .reserveEntry .. | .recordInvoice .. | .settleEntry .. | .consumeDeath .. | .requestLeave ..
  | .finishLeave .. => true
  | _ => false

/-- The other transactions write neither, and keep the terms of the payouts. -/
theorem perform_others {env : Env} {a : Action} {σ σ' : Ledger} (ha : a.ofPlayers = false)
    (hrun : perform env a σ = .ok σ') :
    σ'.entries = σ.entries ∧ σ'.participants = σ.participants
      ∧ ∀ k, Table.Agree terms (σ.outbox k) (σ'.outbox k) := by
  have hsame : ∀ {τ : Ledger} (k : Outbox), τ.outbox k = σ.outbox k →
      Table.Agree terms (σ.outbox k) (τ.outbox k) := fun _ h => .of_eq h
  have hkeeps : KeepsTerms σ σ' → σ'.entries = σ.entries ∧ σ'.participants = σ.participants
      ∧ ∀ k, Table.Agree terms (σ.outbox k) (σ'.outbox k) :=
    fun h => ⟨h.entries, h.participants, h.outbox⟩
  cases a with
  | saveSettings owner walletId enabled haircut allow =>
    obtain ⟨settings, rfl, -⟩ := saveSettings_ok hrun
    exact ⟨rfl, rfl, fun k => hsame k (by cases k <;> rfl)⟩
  | createArena owner data =>
    obtain ⟨arena, hrun⟩ := map_snd_ok hrun
    obtain ⟨_, arenas, -, rfl, -⟩ := createArena_ok hrun
    exact ⟨rfl, rfl, fun k => hsame k (by cases k <;> rfl)⟩
  | createGame publicId data =>
    obtain ⟨arena, hrun⟩ := map_snd_ok hrun
    obtain ⟨_, -, -, -, ⟨-, -, -, rfl⟩ | ⟨-, -, -, -, -, arenas, -, rfl⟩⟩ := createGame_ok hrun
    · exact ⟨rfl, rfl, fun k => hsame k rfl⟩
    · exact ⟨rfl, rfl, fun k => hsame k (by cases k <;> rfl)⟩
  | reserveEntry arenaId token data => cases ha
  | recordInvoice entryId payment => cases ha
  | settleEntry payment => cases ha
  | consumeDeath runId sequence victimId killerId => cases ha
  | requestLeave arenaId token => cases ha
  | finishLeave playerId revokedRun => cases ha
  | allocateLife arenaId token runId =>
    obtain ⟨life, hrun⟩ := map_snd_ok hrun
    obtain ⟨row, -, -, -, -, player, -, -, -, -, hadmission⟩ := allocateLife_ok hrun
    cases hadmission <;> (subst_vars; exact ⟨rfl, rfl, fun k => hsame k (by cases k <;> rfl)⟩)
  | expireGame arenaId =>
    obtain ⟨expired, hrun⟩ := map_snd_ok hrun
    obtain ⟨row, -, hexpiry⟩ := expireGame_ok hrun
    cases hexpiry <;> (subst_vars; exact ⟨rfl, rfl, fun k => hsame k (by cases k <;> rfl)⟩)
  | closeGame arenaId owner =>
    obtain ⟨row, -, -, rfl⟩ := closeGame_ok hrun
    exact ⟨rfl, rfl, fun k => hsame k (by cases k <;> rfl)⟩
  | leaseArena worker arenaId =>
    obtain ⟨⟨arena, oldRuns⟩, hrun⟩ := map_snd_ok hrun
    obtain ⟨_, -, -, -, -, -, -, rfl⟩ := leaseArena_ok hrun
    exact ⟨rfl, rfl, fun k => hsame k (by cases k <;> rfl)⟩
  | insertRun runId arenaId worker =>
    obtain ⟨runs, -, rfl⟩ := insertRun_ok hrun
    exact ⟨rfl, rfl, fun k => hsame k (by cases k <;> rfl)⟩
  | recoverRun runId =>
    cases hrun
    exact ⟨rfl, rfl, fun k => hsame k (by cases k <;> rfl)⟩
  | recoverLeavingRun arenaId runId =>
    rw [recoverLeavingRun_ok hrun]
    exact ⟨rfl, rfl, fun k => hsame k (by cases k <;> rfl)⟩
  | stopRun arenaId worker runId =>
    rw [stopRun_ok hrun]
    exact ⟨rfl, rfl, fun k => hsame k (by cases k <;> rfl)⟩
  | renewLease worker arenaId runId connected =>
    obtain ⟨_, -, -, -, -, -, rfl⟩ := renewLease_ok hrun
    exact ⟨rfl, rfl, fun k => hsame k (by cases k <;> rfl)⟩
  | claimPayout =>
    cases hrun
    exact hkeeps (claimPayout_keeps env σ)
  | updatePayout k row status values =>
    obtain ⟨row', hrun⟩ := map_snd_ok hrun
    exact hkeeps (updatePayout_keeps hrun)
  | releasePayout k row =>
    cases hrun
    exact hkeeps (releasePayout_keeps env k row σ)

section

variable {env : Env} {σ σ' : Ledger}

/-- A settlement, as a write to the entries. -/
theorem settleEntry_turns {payment : Payment} {arena? : Option Uid}
    (h : settleEntry env payment σ = .ok (arena?, σ')) :
    Table.Turned (EntryTurns env (.settleEntry payment) σ) (NewEntry env (.settleEntry payment) σ)
      σ.entries σ'.entries := by
  have hsame : ∀ e ∈ σ.entries, EntryTurns env (.settleEntry payment) σ e e := fun _ _ => .same
  obtain rfl | ⟨hsuccess, hin, htag, entry, hnames, hentry, hwallet, hamount, hhash, hcredit⟩ :=
    settleEntry_ok h
  · exact .refl hsame
  have hfunds : Funds payment entry := ⟨hsuccess, hin, htag, hnames, hwallet, hamount, hhash⟩
  have hone : ∀ e ∈ σ.entries, e.id = entry.id → e = entry :=
    fun e he hid => Table.mem_inj he hentry hid
  cases hcredit with
  | again _ eq =>
    rw [eq]
    exact .refl hsame
  | first unsettled unused player get staying leaving left =>
    have hcredited : player.leaveState ≠ .left → Table.Turned
        (EntryTurns env (.settleEntry payment) σ)
          (NewEntry env (.settleEntry payment) σ) σ.entries
        (σ.creditLedger entry payment).entries := by
      intro hhere
      refine Table.turned_updateKey hsame fun e he hid => ?_
      rw [hone e he hid]
      exact .credited payment rfl hfunds unsettled unused player get hhere
    cases hs : player.leaveState with
    | none =>
      rw [staying hs]
      exact hcredited (by rw [hs]; decide)
    | leaving =>
      rw [leaving hs]
      exact hcredited (by rw [hs]; decide)
    | left =>
      obtain ⟨row, -, hrefund⟩ := left hs
      obtain ⟨hno, -⟩ | ⟨-, -, -, -, _, _, -, -, rfl⟩ := refundEntry_ok hrefund
      · rcases hno with hno | hno
        · exact absurd rfl hno
        · cases hno
      · show Table.Turned _ _ _ ((σ.entries.updateKey entry.id (credited payment)
          (fun _ => rfl)).updateKey entry.id emptied (fun _ => rfl))
        rw [Table.updateKey_updateKey]
        refine Table.turned_updateKey hsame fun e he hid => ?_
        rw [hone e he hid]
        exact .returned payment rfl hfunds unsettled unused player get hs

/-- The line of a journal, as a write to the entries. -/
theorem consumeDeath_turns {runId victimId killerId arenaId : Uid} {sequence : Int}
    (h : consumeDeath env runId sequence victimId killerId σ = .ok (arenaId, σ')) :
    Table.Turned (EntryTurns env (.consumeDeath runId sequence victimId killerId) σ)
      (NewEntry env (.consumeDeath runId sequence victimId killerId) σ) σ.entries σ'.entries := by
  have hsame : ∀ e ∈ σ.entries,
      EntryTurns env (.consumeDeath runId sequence victimId killerId) σ e e := fun _ _ => .same
  obtain ⟨run, -, -, _, -, ⟨-, rfl⟩ | ⟨-, victim, hvictim, -, -, σ₂, hσ₂, rfl⟩⟩ :=
    consumeDeath_ok h
  · exact .refl hsame
  · obtain ⟨-, rfl⟩ | ⟨halive, entry, hentry, hpos, hpaid⟩ := hσ₂
    · exact .refl hsame
    · rw [hpaid.only]
      obtain ⟨hmem, rfl⟩ := Table.get?_eq_some.mp hvictim
      obtain ⟨hentry, hkey⟩ := Table.get?_eq_some.mp hentry
      refine Table.turned_updateKey hsame fun e he hid => ?_
      obtain rfl : e = entry := Table.mem_inj he hentry hid
      exact .charged runId sequence victim killerId rfl hmem hkey.symm halive hpos

/-- A leave, as a write to the entries. -/
theorem finishLeave_turns {playerId revokedRun : Uid}
    (h : finishLeave env playerId revokedRun σ = .ok σ') :
    Table.Turned (EntryTurns env (.finishLeave playerId revokedRun) σ)
      (NewEntry env (.finishLeave playerId revokedRun) σ) σ.entries σ'.entries := by
  have hsame : ∀ e ∈ σ.entries, EntryTurns env (.finishLeave playerId revokedRun) σ e e :=
    fun _ _ => .same
  obtain ⟨player, hplayer, row, -, ⟨-, rfl⟩ | ⟨hleaving, -, σ₂, hrefunds, rfl⟩⟩ :=
    finishLeave_ok h
  · exact .refl hsame
  · have hselected : ∀ e ∈ σ.entries.select
        (fun e => e.playerId = playerId && e.status = .paid && 0 < e.remaining),
        e ∈ σ.entries ∧ e.playerId = playerId ∧ e.status = .paid ∧ 0 < e.remaining := by
      intro e he
      simpa [and_assoc] using Table.mem_select.mp he
    rw [refundEntries_entries (fun e he => (hselected e he).2.2) hrefunds]
    refine Table.turned_update (fun e he _ => hsame e he) fun e he hmem => ?_
    obtain ⟨e', he', hid⟩ := List.mem_map.mp (of_decide_eq_true hmem)
    obtain ⟨hmem', howner, hpaid, hpos⟩ := hselected e' he'
    obtain rfl : e' = e := Table.mem_inj hmem' he hid
    subst howner
    exact .refunded revokedRun rfl hpaid hpos player hplayer hleaving

/-- Every transaction keeps to what an entry can turn into. -/
theorem perform_entries {a : Action} (hrun : perform env a σ = .ok σ') :
    Table.Turned (EntryTurns env a σ) (NewEntry env a σ) σ.entries σ'.entries := by
  have hsame : ∀ e ∈ σ.entries, EntryTurns env a σ e e := fun _ _ => .same
  cases ha : a.ofPlayers with
  | false =>
    rw [(perform_others ha hrun).1]
    exact .refl hsame
  | true =>
    cases a with
    | reserveEntry arenaId token data =>
      obtain ⟨⟨entry, new⟩, hrun⟩ := map_snd_ok hrun
      obtain ⟨row, hrow, hactive, ⟨-, -, rfl⟩ | ⟨-, _, playerId, _, _, rfl, hplayer, rfl, hnonce,
        hins, rfl⟩⟩ := reserveEntry_ok hrun
      · exact .refl hsame
      · obtain ⟨hmem, rfl⟩ := Table.get?_eq_some.mp hrow
        refine Table.turned_insert? hins hsame
          ⟨⟨token, data, rfl, rfl⟩, rfl, ?_, rfl, rfl, rfl, rfl,
          ⟨row, hmem, rfl, hactive⟩, hnonce⟩
        cases hplayer with
        | known player mem id arena staying spent noOpen _ =>
          exact .inr ⟨player, mem, id, arena, staying, spent, noOpen⟩
        | new p id fresh _ _ _ _ => exact .inl (id.symm.trans fresh)
    | recordInvoice entryId payment =>
      obtain rfl | ⟨entry, hentry, hcreating, hunhashed, hfree, rfl⟩ := recordInvoice_ok hrun
      · exact .refl hsame
      · obtain ⟨hmem, rfl⟩ := Table.get?_eq_some.mp hentry
        refine Table.turned_updateKey hsame fun e he hid => ?_
        obtain rfl : e = entry := Table.mem_inj he hmem hid
        exact .invoiced payment rfl hcreating hunhashed hfree
    | settleEntry payment =>
      obtain ⟨arena?, hrun⟩ := map_snd_ok hrun
      exact settleEntry_turns hrun
    | consumeDeath runId sequence victimId killerId =>
      obtain ⟨arenaId, hrun⟩ := map_snd_ok hrun
      exact consumeDeath_turns hrun
    | requestLeave arenaId token =>
      obtain ⟨player, hrun⟩ := map_snd_ok hrun
      obtain ⟨_, -, -, -, ⟨-, -, rfl⟩ | ⟨-, -, -, rfl⟩⟩ := requestLeave_ok hrun
      · exact .refl hsame
      · exact .refl hsame
    | finishLeave playerId revokedRun => exact finishLeave_turns hrun
    | _ => cases ha

/-- Every transaction keeps to what a player can turn into. -/
theorem perform_players {a : Action} (hrun : perform env a σ = .ok σ') :
    Table.Turned (PlayerTurns a) (NewPlayer env a) σ.participants σ'.participants := by
  have hsame : ∀ p ∈ σ.participants, PlayerTurns a p p := fun _ _ => .same
  cases ha : a.ofPlayers with
  | false =>
    rw [(perform_others ha hrun).2.1]
    exact .refl hsame
  | true =>
    cases a with
    | reserveEntry arenaId token data =>
      obtain ⟨⟨entry, new⟩, hrun⟩ := map_snd_ok hrun
      obtain ⟨row, -, -, ⟨-, -, rfl⟩ | ⟨-, _, playerId, _, _, -, hplayer, -, -, -, rfl⟩⟩ :=
        reserveEntry_ok hrun
      · exact .refl hsame
      · cases hplayer with
        | known _ _ _ _ _ _ _ same =>
          rw [same]
          exact .refl hsame
        | new p _ fresh arena htoken staying insert =>
          subst arena
          exact Table.turned_insert? insert hsame ⟨⟨token, data, rfl, htoken⟩, staying, fresh⟩
    | recordInvoice entryId payment =>
      obtain rfl | ⟨entry, -, -, -, -, rfl⟩ := recordInvoice_ok hrun
      · exact .refl hsame
      · exact .refl hsame
    | settleEntry payment =>
      obtain ⟨arena?, hrun⟩ := map_snd_ok hrun
      obtain rfl | ⟨-, -, -, entry, -, -, -, -, -, hcredit⟩ := settleEntry_ok hrun
      · exact .refl hsame
      · cases hcredit with
        | again _ eq =>
          rw [eq]
          exact .refl hsame
        | first _ _ player _ staying leaving left =>
          cases hs : player.leaveState with
          | none =>
            rw [staying hs]
            exact Table.turned_updateKey hsame fun _ _ _ => .addressed entry
          | leaving =>
            rw [leaving hs]
            exact .refl hsame
          | left =>
            obtain ⟨_, -, hrefund⟩ := left hs
            rw [refundEntry_only hrefund]
            exact .refl hsame
    | consumeDeath runId sequence victimId killerId =>
      obtain ⟨arenaId, hrun⟩ := map_snd_ok hrun
      obtain ⟨run, -, -, _, -, ⟨-, rfl⟩ | ⟨-, victim, -, -, -, σ₂, hσ₂, rfl⟩⟩ :=
        consumeDeath_ok hrun
      · exact .refl hsame
      · obtain ⟨-, rfl⟩ | ⟨-, entry, -, -, hpaid⟩ := hσ₂
        · exact .refl hsame
        · rw [hpaid.only]
          exact .refl hsame
    | requestLeave arenaId token =>
      obtain ⟨player, hrun⟩ := map_snd_ok hrun
      obtain ⟨p, hp, harena, -, ⟨-, -, rfl⟩ | ⟨hstay, -, -, rfl⟩⟩ := requestLeave_ok hrun
      · exact .refl hsame
      · refine Table.turned_updateKey hsame fun q hq hid => ?_
        obtain rfl : q = p := Table.mem_inj hq hp hid
        subst harena
        exact .asked token rfl hstay
    | finishLeave playerId revokedRun =>
      obtain ⟨player, hplayer, row, -, ⟨-, rfl⟩ | ⟨hleaving, -, σ₂, hrefunds, rfl⟩⟩ :=
        finishLeave_ok hrun
      · exact .refl hsame
      · rw [refundEntries_only hrefunds]
        obtain ⟨hmem, rfl⟩ := Table.get?_eq_some.mp hplayer
        refine Table.turned_updateKey hsame fun q hq hid => ?_
        obtain rfl : q = player := Table.mem_inj hq hmem hid
        exact .gone revokedRun rfl hleaving
    | _ => cases ha

end

end QuakeJs
