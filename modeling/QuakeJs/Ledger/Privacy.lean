import QuakeJs.Ledger.Conservation
import QuakeJs.Ledger.Shown

/-!
# What `public_state` depends on

A two-run law.  `Visible` is what anybody may learn of a ledger from the state
of an arena, and `Owned` the rows of one player.  `publicState` returns the
same in any two ledgers that agree on these, whatever else is in them.

The roster has no `ORDER BY`, so its rows come in any order.
-/

namespace QuakeJs

namespace Ledger

/-- The columns of an arena that anybody may see. -/
structure PublicColumns where
  id : Uid
  name : String
  map : String
  entryAmount : Int
  haircut : Int
  active : Bool
  isPublic : Bool
  creatorHaircut : Int
  createdAt : Int
deriving DecidableEq

def publicColumns (b : Arena) : PublicColumns where
  id := b.id
  name := b.name
  map := b.map
  entryAmount := b.entryAmount
  haircut := b.haircut
  active := b.active
  isPublic := b.isPublic
  creatorHaircut := b.creatorHaircut
  createdAt := b.createdAt

/-- What the owner of an arena shows of the settings. -/
def lobbyColumns (σ : Ledger) (b : Arena) : Option (Option String × Bool) :=
  (σ.settings.get? b.ownerId).map fun s => (s.publicId, s.allowPublicCreation)

/-- Two ledgers agree on what anybody may see of an arena. -/
structure Visible (arenaId : Uid) (now : Int) (σ τ : Ledger) : Prop where
  arena : (σ.arenas.get? arenaId).map publicColumns = (τ.arenas.get? arenaId).map publicColumns
  lobby : (σ.arenas.get? arenaId).map σ.lobbyColumns = (τ.arenas.get? arenaId).map τ.lobbyColumns
  roster : (σ.shownPlayers arenaId now).Perm (τ.shownPlayers arenaId now)

/-- Two ledgers have the same rows of a player. -/
structure Owned (playerId : Uid) (σ τ : Ledger) : Prop where
  entries : (σ.entries.select (fun e => e.playerId = playerId)).Perm
    (τ.entries.select (fun e => e.playerId = playerId))
  lives : (σ.lives.select (fun l => l.playerId = playerId)).Perm
    (τ.lives.select (fun l => l.playerId = playerId))
  payouts : (σ.payouts.select (fun r => r.playerId = playerId)).Perm
    (τ.payouts.select (fun r => r.playerId = playerId))
  refunds : (σ.refundPayouts.select (fun r => r.playerId = playerId)).Perm
    (τ.refundPayouts.select (fun r => r.playerId = playerId))

/-- The state, with the roster in no order. -/
def PublicState.unordered (s : PublicState) :
    PublicArena × Multiset (Uid × String) × Bool × String × Option Session :=
  (s.game, s.players, s.canJoin, s.lobbyUrl, s.session)

/-! ## The arena -/

section Arena

variable {a b : Arena}

theorem publicArena_congr (h : publicColumns a = publicColumns b) (count : Nat) :
    publicArena a count = publicArena b count := by
  simp only [publicColumns, PublicColumns.mk.injEq] at h
  obtain ⟨hid, hname, hmap, hamount, hhaircut, hactive, hpublic, hcreator, hcreated⟩ := h
  simp only [publicArena, creatorFee, hid, hname, hmap, hamount,
    hhaircut, hactive, hpublic, hcreator,
    hcreated]

theorem refundAmounts_congr (h : publicColumns a = publicColumns b) (entry : Entry) :
    refundAmounts entry a = refundAmounts entry b := by
  have hpublic : a.isPublic = b.isPublic := congrArg PublicColumns.isPublic h
  have hcreator : a.creatorHaircut = b.creatorHaircut := congrArg PublicColumns.creatorHaircut h
  simp only [refundAmounts, creatorFee, hpublic, hcreator]

end Arena

/-! ## The rows of the player -/

theorem totalOf_perm {t u : Table Payout} {playerId : Uid}
    (h : (t.select (fun r => r.playerId = playerId)).Perm
      (u.select (fun r => r.playerId = playerId))) (statuses : List PayoutStatus) :
    totalOf t playerId statuses = totalOf u playerId statuses := by
  have hzero : ∀ r : Payout, decide (r.playerId = playerId) = false →
      (if r.playerId = playerId ∧ r.status ∈ statuses then r.amount else 0) = 0 := by
    intro r hr
    exact if_neg fun hc => of_decide_eq_false hr hc.1
  unfold totalOf
  rw [Table.sum_of_select t _ hzero, Table.sum_of_select u _ hzero]
  exact (h.map _).sum_eq

namespace Owned

variable {playerId : Uid} {σ τ : Ledger}

theorem funded_perm (h : Owned playerId σ τ) : (σ.funded playerId).Perm (τ.funded playerId) := by
  simp only [funded, Bool.and_assoc, Table.select_and]
  exact h.entries.filter _

theorem refundState_eq {player : Participant} (h : Owned player.id σ τ) {a b : Arena}
    (hab : publicColumns a = publicColumns b) :
    σ.refundState player a = τ.refundState player b := by
  have hestimate := (h.funded_perm.map fun e => (refundAmounts e b).1).sum_eq
  simp only [refundState, totalOf_perm h.refunds, refundAmounts_congr hab, hestimate]

theorem shownEntry_eq (h : Owned playerId σ τ) :
    σ.shownEntry playerId = τ.shownEntry playerId := by
  refine Table.first_perm (k := shownRank) (fun _ _ => shownBefore_iff) ?_ h.entries
  intro e he f hf hrank
  rw [shownRank, shownRank, EmbeddingLike.apply_eq_iff_eq, Prod.mk.injEq] at hrank
  exact Table.mem_inj (Table.mem_select.mp he).1 (Table.mem_select.mp hf).1
    (newestRank_inj hrank.2)

theorem newestLife_eq (h : Owned playerId σ τ) :
    σ.newestLife playerId = τ.newestLife playerId := by
  refine Table.first_perm (k := fun l : Life => newestRank l.createdAt l.id)
    (fun _ _ => newestRank_lt) ?_ h.lives
  intro l hl m hm hrank
  exact Table.mem_inj (Table.mem_select.mp hl).1 (Table.mem_select.mp hm).1 (newestRank_inj hrank)

theorem balanceOf_eq (h : Owned playerId σ τ) : σ.balanceOf playerId = τ.balanceOf playerId := by
  have hzero : ∀ e : Entry, decide (e.playerId = playerId) = false →
      (if e.playerId = playerId ∧ e.status = .paid then e.remaining else 0) = 0 := by
    intro e he
    exact if_neg fun hc => of_decide_eq_false he hc.1
  unfold balanceOf
  rw [Table.sum_of_select σ.entries _ hzero, Table.sum_of_select τ.entries _ hzero]
  exact (h.entries.map _).sum_eq

/-- What a player is shown rests on its own rows and on the public columns of
the arena. -/
theorem session_eq {player : Participant} (h : Owned player.id σ τ) {a b : Arena}
    (hab : publicColumns a = publicColumns b) (now : Int) :
    σ.session a player now = τ.session b player now := by
  have hactive : a.active = b.active := congrArg PublicColumns.active hab
  simp only [session, playerCard, autoAdmit, shownInvoice, h.refundState_eq hab,
    totalOf_perm h.payouts, h.shownEntry_eq, h.newestLife_eq, h.balanceOf_eq, hactive]

end Owned

/-! ## Two runs -/

theorem lobbyUrl_congr {setting? setting?' : Option Settings}
    (h : setting?.map (fun s => (s.publicId, s.allowPublicCreation))
      = setting?'.map (fun s => (s.publicId, s.allowPublicCreation))) :
    lobbyUrl setting? = lobbyUrl setting?' := by
  cases setting? with
  | none =>
    cases setting?' with
    | none => rfl
    | some s' => cases h
  | some s =>
    cases setting?' with
    | none => cases h
    | some s' =>
      simp only [Option.map_some, Option.some.injEq, Prod.mk.injEq] at h
      simp only [lobbyUrl, h.1, h.2]

/-- A token finds the same player where the same rows carry its hash. -/
theorem participant_congr {env : Env} {arenaId token : String} {σ τ : Ledger}
    (h : ∀ hash, tokenHash env token = .ok hash →
      σ.participants.select (fun p => p.arenaId = arenaId && p.tokenHash = hash)
        = τ.participants.select (fun p => p.arenaId = arenaId && p.tokenHash = hash)) :
    σ.participant env arenaId token = τ.participant env arenaId token := by
  unfold participant
  cases htoken : tokenHash env token with
  | error e => rfl
  | ok hash => exact congrArg (fun rows => Except.ok (List.head? rows)) (h hash htoken)

/-- Noninterference: the hypotheses say which rows two ledgers share, and the
other rows do not matter. -/
theorem publicState_noninterference (env : Env) (arenaId token : String) (σ τ : Ledger)
    (hvisible : Visible arenaId env.now σ τ)
    (hplayer : token ≠ "" → σ.participant env arenaId token = τ.participant env arenaId token)
    (howned : ∀ player, token ≠ "" → σ.participant env arenaId token = .ok (some player) →
      Owned player.id σ τ) :
    (publicState env arenaId token σ).map PublicState.unordered
        = (publicState env arenaId token τ).map PublicState.unordered
      ∧ (σ.shownPlayers arenaId env.now = τ.shownPlayers arenaId env.now →
          publicState env arenaId token σ = publicState env arenaId token τ) := by
  have hsession : σ.sessionPlayer env arenaId token = τ.sessionPlayer env arenaId token := by
    unfold sessionPlayer
    split_ifs with htoken
    · rfl
    · exact hplayer htoken
  have harena := hvisible.arena
  have hlobby := hvisible.lobby
  have hroster := hvisible.roster
  cases ha : σ.arenas.get? arenaId with
  | none =>
    rw [ha, Option.map_none, eq_comm, Option.map_eq_none_iff] at harena
    have heq : publicState env arenaId token σ = publicState env arenaId token τ := by
      unfold publicState
      rw [ha, harena]
      rfl
    exact ⟨by rw [heq], fun _ => heq⟩
  | some a =>
    rw [ha, Option.map_some, eq_comm, Option.map_eq_some_iff] at harena
    obtain ⟨b, hb, hba⟩ := harena
    rw [ha, hb, Option.map_some, Option.map_some, Option.some.injEq] at hlobby
    have hid : a.id = arenaId := Table.key_of_get? ha
    have hid' : b.id = arenaId := Table.key_of_get? hb
    have hgame := publicArena_congr hba (τ.shownPlayers arenaId env.now).length
    have hactive : a.active = b.active := congrArg PublicColumns.active hba.symm
    rw [publicState_of_arena ha, publicState_of_arena hb, ← hsession]
    cases hp : σ.sessionPlayer env arenaId token with
    | error e => exact ⟨rfl, fun _ => rfl⟩
    | ok player? =>
      have hcard : player?.map (fun player => σ.session a player env.now)
          = player?.map (fun player => τ.session b player env.now) := by
        cases player? with
        | none => rfl
        | some player =>
          have htoken : token ≠ "" := by
            rintro rfl
            simp only [sessionPlayer, if_true, pure, Except.pure,
              Except.ok.injEq, reduceCtorEq] at hp
          rw [sessionPlayer, if_neg htoken] at hp
          rw [Option.map_some, Option.map_some, (howned player htoken hp).session_eq hba.symm]
      constructor
      · simp only [Except.map, PublicState.unordered, stateOf,
          hid, hid', hroster.length_eq, hgame,
          Multiset.coe_eq_coe.mpr hroster, hactive, lobbyUrl_congr hlobby, hcard]
      · intro hlisted
        simp only [Except.map, stateOf, hid, hid', hlisted, hgame, hactive, lobbyUrl_congr hlobby,
          hcard]

/-! ## Two ledgers of a duel -/

instance (arenaId : Uid) (now : Int) (σ τ : Ledger) : Decidable (Visible arenaId now σ τ) :=
  decidable_of_iff (_ ∧ _ ∧ _) ⟨fun h => ⟨h.1, h.2.1, h.2.2⟩, fun h => ⟨h.1, h.2, h.3⟩⟩

instance (playerId : Uid) (σ τ : Ledger) : Decidable (Owned playerId σ τ) :=
  decidable_of_iff (_ ∧ _ ∧ _ ∧ _)
    ⟨fun h => ⟨h.1, h.2.1, h.2.2.1, h.2.2.2⟩, fun h => ⟨h.1, h.2, h.3, h.4⟩⟩

/-- The ledger with other wallets, and with everybody but one player made
poor and unreachable. -/
def disguised (playerId : Uid) (σ : Ledger) : Ledger :=
  { σ with
    settings := σ.settings.update (fun _ => true) (fun s => { s with walletId := "other" })
      (fun _ => rfl)
    arenas := σ.arenas.update (fun _ => true)
      (fun a => { a with walletId := "other", creatorLnAddress := "other@ln" }) (fun _ => rfl)
    participants := σ.participants.update (fun p => p.id ≠ playerId)
      (fun p => { p with lnAddress := "", tokenHash := "" }) (fun _ => rfl)
    entries := σ.entries.update (fun e => e.playerId ≠ playerId)
      (fun e => { e with walletId := "other", lnAddress := "", remaining := 0 }) (fun _ => rfl)
    creatorPayouts := .empty
    invoiceClaims := .empty }

end Ledger

namespace Duel

/-- The second player has killed the first one. -/
def slain : Ledger := ledgerAfter (opening ++ [slay])

def winner : Uid := (tick 3).uid 0

theorem slain_evaluates :
    Ledger.Visible arenaId (tick 11).now slain (slain.disguised winner)
      ∧ (∀ p ∈ slain.participants, p.tokenHash = token 'b' → p.id = winner)
      ∧ slain.participants.select (fun p => p.arenaId = arenaId && p.tokenHash = token 'b')
        = (slain.disguised winner).participants.select
            (fun p => p.arenaId = arenaId && p.tokenHash = token 'b')
      ∧ Ledger.Owned winner slain (slain.disguised winner)
      ∧ slain.entries.rows ≠ (slain.disguised winner).entries.rows := by
  decide +kernel

end Duel

open Duel in
/-- The winner of a duel is told the same, whatever the loser is left with. -/
theorem publicState_noninterference_slain :
    slain.entries.rows ≠ (slain.disguised winner).entries.rows
      ∧ (Ledger.publicState (tick 11) arenaId (token 'b') slain).map Ledger.PublicState.unordered
        = (Ledger.publicState (tick 11) arenaId (token 'b') (slain.disguised winner)).map
            Ledger.PublicState.unordered := by
  obtain ⟨hvisible, hwinner, hsession, howned, hdiffer⟩ := slain_evaluates
  have hsha : (tick 11).sha256 (token 'b') = token 'b' := by
    show id (token 'b') = token 'b'
    rw [id_eq]
  refine ⟨hdiffer, (Ledger.publicState_noninterference (tick 11) arenaId (token 'b') slain
    (slain.disguised winner) hvisible (fun _ => ?_) fun player _ hp => ?_).1⟩
  · refine Ledger.participant_congr fun hash hhash => ?_
    simp only [tokenHash, bind_ok_iff, pure_ok_iff] at hhash
    obtain ⟨-, -, rfl⟩ := hhash
    rw [hsha]
    exact hsession
  · obtain ⟨hmem, -, hhash⟩ := Ledger.participant_ok hp
    rw [hsha] at hhash
    rw [hwinner player hmem hhash]
    exact howned

end QuakeJs
