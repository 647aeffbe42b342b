import QuakeJs.Ledger.Admissions
import QuakeJs.Ledger.Display

/-!
# The entry and the life that a player is shown

`public_state` picks one entry and one life of a player, each by its own
order, and adds up the balance apart from both.  Here is what the entry and
the balance have to do with each other.
-/

namespace QuakeJs

/-- The entry is paid, belongs to the player, and holds unused lives. -/
structure Entry.Holds (playerId : Uid) (e : Entry) : Prop where
  player : e.playerId = playerId
  paid : e.status = .paid
  pos : 0 < e.remaining

namespace Ledger

/-- `shownBefore`, as a rank. -/
def shownRank (e : Entry) : Lex (Bool × Lex (OrderDual Int × OrderDual Uid)) :=
  toLex (!(e.status = .paid && 0 < e.remaining : Bool), newestRank e.createdAt e.id)

theorem shownBefore_iff {e f : Entry} : shownBefore e f = true ↔ shownRank e < shownRank f := by
  simp only [shownRank, shownBefore, Prod.Lex.toLex_lt_toLex, ← newestRank_lt]
  rcases Bool.eq_false_or_eq_true (e.status = .paid && 0 < e.remaining) with he | he <;>
    rcases Bool.eq_false_or_eq_true (f.status = .paid && 0 < f.remaining) with hf | hf <;>
    simp only [he, hf] <;> simp

variable {σ : Ledger} {playerId : Uid}

theorem shownEntry_mem {e : Entry} (h : σ.shownEntry playerId = some e) :
    e ∈ σ.entries ∧ e.playerId = playerId := by
  have hmem := Table.mem_select.mp (Table.first_mem h)
  exact ⟨hmem.1, of_decide_eq_true hmem.2⟩

theorem balanceOf_pos : 0 < σ.balanceOf playerId ↔ ∃ e ∈ σ.entries, e.Holds playerId := by
  rw [Nat.pos_iff_ne_zero, balanceOf, Ne, Table.sum_eq_zero]
  simp only [not_forall, exists_prop]
  refine exists_congr fun e => and_congr_right fun _ => ?_
  constructor
  · intro h
    by_cases hc : e.playerId = playerId ∧ e.status = .paid
    · rw [if_pos hc] at h
      exact ⟨hc.1, hc.2, Nat.pos_of_ne_zero h⟩
    · rw [if_neg hc] at h
      exact absurd rfl h
  · intro h
    rw [if_pos ⟨h.player, h.paid⟩]
    exact h.pos.ne'

theorem fundedEntry_holds {e : Entry} (h : σ.fundedEntry playerId = some e) :
    e ∈ σ.entries ∧ e.Holds playerId := by
  obtain ⟨hmem, hplayer, hpaid, hpos⟩ := fundedEntry_mem h
  exact ⟨hmem, hplayer, hpaid, hpos⟩

theorem exists_fundedEntry (h : ∃ e ∈ σ.entries, e.Holds playerId) :
    ∃ e, σ.fundedEntry playerId = some e := by
  obtain ⟨e, he, hholds⟩ := h
  refine Option.ne_none_iff_exists'.mp fun hnone => ?_
  have hmem : e ∈ σ.entries.select
      (fun e => e.playerId = playerId && e.status = .paid && 0 < e.remaining) :=
    Table.mem_select.mpr ⟨he, by simp [hholds.player, hholds.paid, hholds.pos]⟩
  rw [Table.first_eq_none.mp hnone] at hmem
  exact absurd hmem List.not_mem_nil

/-- A player who holds lives is shown an entry that holds some of them. -/
theorem shownEntry_holds (h : ∃ e ∈ σ.entries, e.Holds playerId) :
    ∃ e, σ.shownEntry playerId = some e ∧ e ∈ σ.entries ∧ e.Holds playerId := by
  obtain ⟨f, hf, hholds⟩ := h
  have hmem : f ∈ σ.entries.select (fun e => e.playerId = playerId) :=
    Table.mem_select.mpr ⟨hf, decide_eq_true hholds.player⟩
  cases hs : σ.shownEntry playerId with
  | none =>
    rw [Table.first_eq_none.mp hs] at hmem
    exact absurd hmem List.not_mem_nil
  | some e =>
    obtain ⟨he, hplayer⟩ := shownEntry_mem hs
    -- An entry without lives ranks behind `f`.
    have hle := Table.rank_first_le (k := shownRank) (fun _ _ => shownBefore_iff) hs f hmem
    rw [shownRank, shownRank, Prod.Lex.toLex_le_toLex] at hle
    have hfirst : (e.status = .paid && 0 < e.remaining : Bool) = true := by
      by_contra hne
      rw [Bool.not_eq_true] at hne
      rw [hne, hholds.paid, decide_eq_true hholds.pos] at hle
      rcases hle with hlt | ⟨heq, -⟩
      · have hlt : true < false := hlt
        exact absurd hlt (by decide)
      · have heq : true = false := heq
        cases heq
    rw [Bool.and_eq_true, decide_eq_true_eq, decide_eq_true_eq] at hfirst
    exact ⟨e, rfl, he, hplayer, hfirst.1, hfirst.2⟩

/-! ## The answer for a player -/

/-- What `public_state` returns of an arena once it has found the player. -/
def stateOf (σ : Ledger) (arena : Arena) (player? : Option Participant) (now : Int) :
    PublicState :=
  let alive := σ.shownPlayers arena.id now
  { game := publicArena arena alive.length
    players := alive
    canJoin := arena.active && alive.length < maxPlayers
    lobbyUrl := lobbyUrl (σ.settings.get? arena.ownerId)
    session := player?.map (fun player => σ.session arena player now) }

theorem publicState_of_arena {σ : Ledger} {env : Env} {arenaId token : String} {arena : Arena}
    (h : σ.arenas.get? arenaId = some arena) :
    publicState env arenaId token σ
      = (σ.sessionPlayer env arenaId token).map (fun player? =>
        σ.stateOf arena player? env.now) := by
  have hid : arena.id = arenaId := Table.key_of_get? h
  unfold publicState
  rw [h]
  cases hp : σ.sessionPlayer env arenaId token with
  | error e => simp only [orRaise, bind, Except.bind, Except.map]
  | ok player? =>
    simp only [orRaise, bind, Except.bind, pure, Except.pure, Except.map, stateOf, hid]

theorem sessionPlayer_eq_some {env : Env} {arenaId token : String} {player : Participant}
    (h : σ.sessionPlayer env arenaId token = .ok (some player)) :
    token ≠ "" ∧ σ.participant env arenaId token = .ok (some player) := by
  unfold sessionPlayer at h
  split_ifs at h with htoken
  · cases h
  · exact ⟨htoken, h⟩

/-- The player that `public_state` reports has a paid entry to show. -/
theorem publicState_card {env : Env} {arenaId token : String}
    {s : PublicState} {session : Session}
    {card : PlayerCard} (hs : publicState env arenaId token σ = .ok s)
    (hsession : s.session = some session) (hcard : session.player = some card) :
    ∃ arena player entry, σ.arenas.get? arenaId = some arena
      ∧ σ.participant env arenaId token = .ok (some player) ∧ σ.shownEntry player.id = some entry
      ∧ entry.status = .paid ∧ card = σ.playerCard arena player entry env.now := by
  cases ha : σ.arenas.get? arenaId with
  | none =>
    unfold publicState at hs
    rw [ha] at hs
    cases hs
  | some arena =>
    rw [publicState_of_arena ha] at hs
    cases hp : σ.sessionPlayer env arenaId token with
    | error e =>
      rw [hp] at hs
      cases hs
    | ok player? =>
      rw [hp, Except.map, Except.ok.injEq] at hs
      rw [← hs] at hsession
      obtain ⟨player, rfl, rfl⟩ := Option.map_eq_some_iff.mp hsession
      obtain ⟨entry, hentry, rfl⟩ := Option.map_eq_some_iff.mp hcard
      obtain ⟨hshown, hpaid⟩ := Option.filter_eq_some_iff.mp hentry
      exact ⟨arena, player, entry, rfl, (sessionPlayer_eq_some hp).2, hshown,
        of_decide_eq_true hpaid, rfl⟩

end Ledger

end QuakeJs
