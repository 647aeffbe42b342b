import QuakeJs.Ledger.Arenas
import QuakeJs.Ledger.Retirement

/-!
# The listing of the arenas

An arena is `active` while it admits players, and its owner can close it for
good.  `ArenaTurns` says what a transaction can make of these columns.  Two
laws follow: an arena that expired leaves no player with unused lives behind,
and an arena that its owner closed stays closed.
-/

namespace QuakeJs

namespace Ledger

/-- What the lobby and the admissions read of an arena. -/
def listing (b : Arena) : Uid × Uid × Bool × Bool × Bool :=
  (b.id, b.ownerId, b.active, b.lobbyHidden, b.adminClosed)

/-- What a transaction can make of the listing of an arena. -/
inductive ArenaTurns (env : Env) (a : Action) (σ : Ledger) (b : Arena) : Arena → Prop
  | kept (b' : Arena) (same : listing b' = listing b) : ArenaTurns env a σ b b'
  | relisted (b' : Arena) (payment : Payment) (call : a = .settleEntry payment)
      (allowed : b.adminClosed = false)
      (listed : listing b' = (b.id, b.ownerId, true, false, false)) : ArenaTurns env a σ b b'
  | expired (b' : Arena) (call : a = .expireGame b.id) (empty : σ.playing b.id env.now = 0)
      (settled : σ.outstanding b.id env.now = 0)
      (unlisted : listing b' = (b.id, b.ownerId, false, true, b.adminClosed)) :
      ArenaTurns env a σ b b'
  | closed (b' : Arena) (call : a = .closeGame b.id b.ownerId)
      (unlisted : listing b' = (b.id, b.ownerId, false, true, true)) : ArenaTurns env a σ b b'

/-- A new arena is open. -/
structure NewArena (env : Env) (b : Arena) : Prop where
  id : b.id = env.uid 0
  active : b.active = true
  shown : b.lobbyHidden = false
  unclosed : b.adminClosed = false

/-- The listing of an arena does not depend on its revision. -/
theorem listing_of_body {b b' : Arena} (h : b'.body = b.body) : listing b' = listing b := by
  show listing b'.body = listing b.body
  rw [h]

theorem ArenaMove.turns {env : Env} {a : Action} {σ : Ledger} {b b' : Arena}
    (h : ArenaMove env a σ b b') : ArenaTurns env a σ b b' := by
  cases h with
  | kept same => exact .kept b' (listing_of_body same)
  | idle since _ same => exact .kept b' ((listing_of_body same).trans rfl)
  | relisted payment call allowed same =>
    refine .relisted b' payment call allowed ((listing_of_body same).trans ?_)
    show (b.id, b.ownerId, true, false, b.adminClosed) = _
    rw [allowed]
  | expired call empty settled same => exact .expired b' call empty settled (listing_of_body same)
  | closed call same => exact .closed b' call (listing_of_body same)
  | leased worker _ _ same => exact .kept b' ((listing_of_body same).trans rfl)
  | stopped _ same => exact .kept b' ((listing_of_body same).trans rfl)
  | renewed connected _ _ same => exact .kept b' ((listing_of_body same).trans rfl)

theorem ArenaNew.opens {env : Env} {a : Action} {σ : Ledger} {b : Arena}
    (h : ArenaNew env a σ b) : NewArena env b := by
  cases h with
  | own owner data settings _ _ _ _ eq =>
    rw [eq]
    exact ⟨rfl, rfl, rfl, rfl⟩
  | game publicId data setting _ _ _ eq =>
    rw [eq]
    exact ⟨rfl, rfl, rfl, rfl⟩

end Ledger

open Ledger

/-- Every transaction keeps to what the listing of an arena can turn into. -/
theorem perform_arenas {env : Env} {a : Action} {σ σ' : Ledger}
    (hrun : perform env a σ = .ok σ') :
    Table.Turned (ArenaTurns env a σ) (NewArena env) σ.arenas σ'.arenas :=
  (perform_moves hrun).mono (fun _ _ _ _ hmove => hmove.turns) fun _ _ hnew => hnew.opens

/-! ## Expiry -/

/-- The lives that are left in an arena that expired belong to players whose
refund is still to be queued. -/
def Awaited (σ : Ledger) : Prop :=
  ∀ b ∈ σ.arenas, b.active = false → b.adminClosed = false →
    ∀ e ∈ σ.entries, e.arenaId = b.id → 0 < e.remaining →
      ∃ p ∈ σ.participants, p.id = e.playerId ∧ p.leaveState = .leaving

section

variable {env : Env} {σ σ' : Ledger}

/-- A late payment puts the arena of a player who stays back on the list. -/
theorem settleEntry_relists {payment : Payment} {arena? : Option Uid}
    {e : Entry} {p : Participant}
    (h : settleEntry env payment σ = .ok (arena?, σ')) (he : e ∈ σ.entries)
    (hnames : payment.quakejsEntry = some e.id) (hunpaid : e.status ≠ .paid)
    (hsettled : ∃ e' ∈ σ'.entries, e'.id = e.id ∧ e'.status = .paid) (hp : p ∈ σ.participants)
    (howner : p.id = e.playerId) (hstay : p.leaveState = .none) {b : Arena} (hb : b ∈ σ'.arenas)
    (hin : b.id = e.arenaId) (hopen : b.adminClosed = false) :
    b.active = true ∧ b.lobbyHidden = false := by
  obtain rfl | ⟨-, -, -, entry, hid, hentry, -, -, -, hcredit⟩ := settleEntry_ok h
  · obtain ⟨e', he', hid, hpaid⟩ := hsettled
    rw [Table.mem_inj he' he hid] at hpaid
    exact absurd hpaid hunpaid
  obtain rfl : entry = e := Table.mem_inj hentry he (Option.some.inj (hid.symm.trans hnames))
  cases hcredit with
  | again paid _ => exact absurd paid hunpaid
  | first _ _ player get staying _ _ =>
    obtain ⟨hmem, hkey⟩ := Table.get?_eq_some.mp get
    obtain rfl : player = p := Table.mem_inj hmem hp (hkey.trans howner.symm)
    rw [staying hstay] at hb
    obtain ⟨b₀, -, hb₀⟩ := (Table.mem_update (f := relisted env) fun _ => rfl).mp hb
    subst hb₀
    split_ifs at hin hopen ⊢ with hcond
    · exact ⟨rfl, rfl⟩
    · exact absurd (by simp [hin, hopen]) hcond

/-- An entry that still holds lives after a leave is not of the player who
left. -/
theorem Awaited.step {a : Action} (h : Awaited σ) (hacc : Accounts σ)
    (hrun : perform env a σ = .ok σ') : Awaited σ' := by
  intro b' hb' hinactive hopen e' he' hin hpos
  rcases (perform_arenas hrun).new b' hb' with ⟨b, hb, hkey, hturn⟩ | hnew
  swap
  · rw [hnew.active] at hinactive
    cases hinactive
  rcases (perform_entries hrun).new e' he' with ⟨e, he, -, heturn⟩ | hnew
  swap
  · have hzero := hnew.remaining
    omega
  have hkept := heturn.kept
  have hplayer : e.playerId = e'.playerId := (congrArg Entry.playerId hkept).symm
  have hbid : b'.id = b.id := hkey
  have harena : e.arenaId = b.id := (congrArg Entry.arenaId hkept).symm.trans (hin.trans hbid)
  -- A player who was leaving still is, unless the leave has just been completed.
  have hstill : ∀ p ∈ σ.participants, p.id = e.playerId → p.leaveState = .leaving →
      ∃ p' ∈ σ'.participants, p'.id = e'.playerId ∧ p'.leaveState = .leaving := by
    intro p hp hid hleaving
    obtain ⟨p', hp', hkey', hpturn⟩ := (perform_players hrun).old p hp
    refine ⟨p', hp', hkey'.trans (hid.trans hplayer), ?_⟩
    cases hpturn with
    | same => exact hleaving
    | addressed => exact hleaving
    | asked _ _ staying => rfl
    | gone revokedRun call _ =>
      subst call
      have hzero := finishLeave_empties hacc hp hleaving hrun e' he' (hplayer.symm.trans hid.symm)
      omega
  cases hturn with
  | relisted payment call allowed listed =>
    have hactive : b'.active = true := congrArg (fun v => v.2.2.1) listed
    rw [hactive] at hinactive
    cases hinactive
  | closed call unlisted =>
    have hclosed : b'.adminClosed = true := congrArg (fun v => v.2.2.2.2) unlisted
    rw [hclosed] at hopen
    cases hopen
  | expired call empty settled unlisted =>
    subst call
    have hnone := Table.count_eq_zero.mp settled e he
    have hzero : e.remaining = 0 := by
      by_contra hne
      simp [harena, Nat.pos_of_ne_zero hne] at hnone
    cases heturn with
    | same => omega
    | invoiced _ call => cases call
    | credited _ call => cases call
    | returned _ call => cases call
    | charged _ _ _ _ call => cases call
    | refunded _ call => cases call
  | kept same =>
    simp only [listing, Prod.mk.injEq] at same
    obtain ⟨-, -, hactive, -, hclosed⟩ := same
    have hbefore := h b hb (hactive.symm.trans hinactive) (hclosed.symm.trans hopen) e he harena
    have hleaving : 0 < e.remaining →
        ∃ p' ∈ σ'.participants, p'.id = e'.playerId ∧ p'.leaveState = .leaving := by
      intro hpos
      obtain ⟨p, hp, hid, hs⟩ := hbefore hpos
      exact hstill p hp hid hs
    cases heturn with
    | same => exact hleaving hpos
    | invoiced => exact hleaving hpos
    | charged _ _ _ _ _ _ _ _ pos => exact hleaving pos
    | returned => exact absurd hpos (Nat.lt_irrefl 0)
    | refunded => exact absurd hpos (Nat.lt_irrefl 0)
    | credited payment call funds unsettled free player get here =>
      subst call
      obtain ⟨hmem, hid⟩ := Table.get?_eq_some.mp get
      cases hs : player.leaveState with
      | left => exact absurd hs here
      | leaving => exact hstill player hmem hid hs
      | none =>
        obtain ⟨arena?, hrun⟩ := map_snd_ok hrun
        have hunpaid : e.status ≠ .paid :=
          fun hp => by simp [hp, EntryStatus.unsettled] at unsettled
        have hactive := (settleEntry_relists hrun he funds.names hunpaid
          ⟨_, he', rfl, rfl⟩ hmem hid
          hs hb' (hbid.trans harena.symm) hopen).1
        rw [hactive] at hinactive
        cases hinactive

theorem Awaited.of_reachable {ok : Env → Ledger → Prop} (h : Reachable ok σ) : Awaited σ := by
  induction h with
  | empty => exact fun b hb => absurd hb (Table.not_mem_empty b)
  | step env a hreach _ hrun ih => exact ih.step (.of_reachable hreach) hrun

end

/-- Expiry strands nobody.  The lives that an arena holds after it expired
belong to players whose refund is still to be queued, and a late payment for
a player who stays puts the arena back on the list, unless its owner closed
it. -/
theorem expiry_strands_nobody {ok : Env → Ledger → Prop} {σ : Ledger} (h : Reachable ok σ) :
    (∀ b ∈ σ.arenas, b.active = false → b.adminClosed = false →
      ∀ e ∈ σ.entries, e.arenaId = b.id → 0 < e.remaining →
        ∃ p ∈ σ.participants, p.id = e.playerId ∧ p.leaveState = .leaving)
    ∧ ∀ env payment arena? σ', settleEntry env payment σ = .ok (arena?, σ') →
      ∀ e ∈ σ.entries, payment.quakejsEntry = some e.id → e.status ≠ .paid →
        (∃ e' ∈ σ'.entries, e'.id = e.id ∧ e'.status = .paid) →
        ∀ p ∈ σ.participants, p.id = e.playerId → p.leaveState = .none →
          ∀ b ∈ σ'.arenas, b.id = e.arenaId → b.adminClosed = false →
            b.active = true ∧ b.lobbyHidden = false :=
  ⟨Awaited.of_reachable h, fun _ _ _ _ hrun _ he hnames hunpaid
    hsettled _ hp howner hstay _ hb hin
    hopen => settleEntry_relists hrun he hnames hunpaid hsettled hp howner hstay hb hin hopen⟩

namespace Duel

/-- A step of the clock, a long time later. -/
def lateTick (i : Nat) : Env := { tick i with now := 5000 + i }

theorem share_ge : (0 : Int) ≤ 10 := by decide
theorem share_le : (10 : Int) ≤ maxTotalHaircut := by decide

/-- A game that anybody may create. -/
def publicGame : PublicArenaInput where
  name := "game"
  joinAmount := 100
  map := "oa_dm7"
  joinAmount_ge := price_ge
  joinAmount_le := price_le
  creatorHaircut := 10
  lnAddress := "creator@ln"
  nonce := "nonce"
  creatorHaircut_ge := share_ge
  creatorHaircut_le := share_le

/-- A public game expires with an invoice that nobody paid in time. -/
def expired : List (Env × Action) :=
  [(tick 0, .saveSettings "owner" "wallet" true 10 true),
    (tick 1, .createGame ((tick 0).uid 0) publicGame),
    (tick 2, .reserveEntry arenaId (token 'a') ⟨"a@ln", "nonce", "A"⟩),
    (lateTick 3, .expireGame arenaId)]

end Duel

open Duel in
theorem expiry_strands_nobody_late :
    (∃ b ∈ (ledgerAfter expired).arenas, b.id = arenaId ∧ b.active = false)
    ∧ ∃ b ∈ (commit (ledgerAfter expired) (lateTick 4,
      .settleEntry (payment entryA "hashA"))).arenas,
        b.id = arenaId ∧ b.active = true := by
  refine ⟨by decide, ?_⟩
  have h : Reachable (fun _ _ => True) (ledgerAfter expired) :=
    .ledgerAfter ⟨trivial, trivial, trivial, trivial, trivial⟩
  have hcommit : perform (lateTick 4)
    (.settleEntry (payment entryA "hashA")) (ledgerAfter expired)
      = .ok (commit (ledgerAfter expired) (lateTick 4, .settleEntry (payment entryA "hashA"))) :=
    perform_commit (by decide)
  obtain ⟨arena?, hrun⟩ := map_snd_ok
    (x := settleEntry (lateTick 4) (payment entryA "hashA") (ledgerAfter expired)) hcommit
  obtain ⟨e, he, hid, howner, hunpaid, hin⟩ : ∃ e ∈ (ledgerAfter expired).entries, e.id = entryA
      ∧ e.playerId = (tick 2).uid 0 ∧ e.status ≠ .paid ∧ e.arenaId = arenaId := by decide
  obtain ⟨p, hp, hpid, hstay⟩ : ∃ p ∈ (ledgerAfter expired).participants, p.id = (tick 2).uid 0
      ∧ p.leaveState = .none := by decide
  have hsettled : ∃ e' ∈ (commit (ledgerAfter expired)
      (lateTick 4, .settleEntry (payment entryA "hashA"))).entries,
      e'.id = entryA ∧ e'.status = .paid := by decide
  obtain ⟨b, hb, hbid, hopen⟩ : ∃ b ∈ (commit (ledgerAfter expired)
      (lateTick 4, .settleEntry (payment entryA "hashA"))).arenas,
      b.id = arenaId ∧ b.adminClosed = false := by decide
  refine ⟨b, hb, hbid, ?_⟩
  exact ((expiry_strands_nobody h).2 _ _ _ _ hrun e he
    (by rw [hid]; rfl) hunpaid (hid ▸ hsettled) p hp
    (hpid.trans howner.symm) hstay b hb (hbid.trans hin.symm) hopen).1

end QuakeJs
