import QuakeJs.Ledger.Conservation
import QuakeJs.Ledger.Shown

/-!
# What a player is promised

`public_state` tells a player how many lives are left and whether it is
alive, and `allocate_life` grants the next life.  The two read the entries
and the lives in different orders.  They agree because an open life is the
only one of its player and has an entry that still holds lives.
-/

namespace QuakeJs.Ledger

variable {σ : Ledger} {env : Env} {arenaId token : String} {arena : Arena} {player : Participant}

/-! ## What is granted -/

theorem lockArena_of (h : σ.arenas.get? arenaId = some arena) (hactive : arena.active = true) :
    σ.lockArena arenaId true = .ok ({ arena with revision := arena.revision + 1 },
      σ.bumpArena arenaId) := by
  simp only [lockArena, bind_ok_iff, orRaise_ok_iff, require_ok_iff, pure_ok_iff]
  exact ⟨arena, h, (), fun _ => hactive, rfl⟩

/-- The only open life of a player is its current one. -/
theorem currentLife_eq {playerId : Uid} (hex : Exclusive σ.lives) {l : Life} (hl : l ∈ σ.lives)
    (hmine : l.playerId = playerId) (hopen : l.status.open = true) :
    σ.currentLife playerId = some l := by
  cases hcurrent : σ.currentLife playerId with
  | none =>
    rw [currentLife_eq_none hcurrent hl hmine] at hopen
    cases hopen
  | some m =>
    obtain ⟨hm, hmine', hopen'⟩ := currentLife_mem hcurrent
    rw [hex.one m hm l hl (hmine'.trans hmine.symm) hopen' hopen]

/-- A player who is alive in the run, or holds lives while there is room, is
admitted. -/
theorem allocateLife_of_holds (harena : σ.arenas.get? arenaId = some arena)
    (hactive : arena.active = true) (hlease : env.now < arena.leaseUntil)
    (hplayer : σ.participant env arenaId token = .ok (some player))
      (hstay : player.leaveState = .none)
    (hex : Exclusive σ.lives) (hfresh : env.Fresh σ) (hholds : ∃ e ∈ σ.entries, e.Holds player.id)
    (hroom : (∃ slot, σ.freeSlot arenaId = some slot) ∨ ∃ l ∈ σ.lives, l.playerId = player.id
      ∧ l.status = .alive ∧ l.runId = arena.runId) :
    ∃ life σ', allocateLife env arenaId token arena.runId σ = .ok (life, σ') := by
  have hlock := lockArena_of harena hactive
  have hplayer' : (σ.bumpArena arenaId).participant env arenaId token = .ok (some player) :=
    hplayer
  obtain ⟨entry, hentry⟩ := exists_fundedEntry hholds
  have hentry' : (σ.bumpArena arenaId).fundedEntry player.id = some entry := hentry
  simp only [allocateLife, bind_ok_iff, Prod.exists, require_ok_iff, orRaise_ok_iff]
  by_cases hhere : ∃ l ∈ σ.lives, l.playerId = player.id ∧
    l.status = .alive ∧ l.runId = arena.runId
  · obtain ⟨l, hl, hmine, halive, hrunId⟩ := hhere
    have hcurrent : (σ.bumpArena arenaId).currentLife player.id = some l :=
      currentLife_eq hex hl hmine (LifeStatus.open_of_alive halive)
    refine ⟨l, σ.bumpArena arenaId, _, _, hlock, (), ⟨rfl, hlease⟩, _, hplayer', player, rfl, (),
      hstay, ?_⟩
    rw [hcurrent, Option.filter_some, if_pos (by simp [halive, hrunId])]
    rfl
  · obtain ⟨slot, hslot⟩ := hroom.resolve_right hhere
    have hslot' : (σ.bumpArena arenaId).freeSlot arenaId = some slot := hslot
    have helsewhere : ((σ.bumpArena arenaId).currentLife player.id).filter
        (fun l => l.status = .alive && l.runId = arena.runId) = none := by
      rw [Option.filter_eq_none_iff]
      intro l hl hc
      obtain ⟨hmem, hmine, -⟩ := currentLife_mem hl
      simp only [Bool.and_eq_true, decide_eq_true_eq] at hc
      exact hhere ⟨l, hmem, hmine, hc⟩
    cases hcurrent : (σ.bumpArena arenaId).currentLife player.id with
    | some life =>
      refine ⟨resumed env arena.runId slot life,
        { σ.writeArena arenaId (idleFrom none) (fun _ => rfl) with
        lives := σ.lives.updateKey life.id (resumed env arena.runId slot)
          (fun _ => rfl) }, _, _, hlock,
        (), ⟨rfl, hlease⟩, _, hplayer', player, rfl, (), hstay, ?_⟩
      rw [helsewhere]
      simp only [bind_ok_iff, orRaise_ok_iff]
      refine ⟨entry, hentry', slot, hslot', ?_⟩
      rw [hcurrent]
      rfl
    | none =>
      -- The id of the new life is fresh.
      have hunused : ∀ l ∈ σ.lives, Keyed.key l ≠ env.uid 0 :=
        Table.get?_eq_none.mp (hfresh.lives 0)
      let life : Life :=
        { id := env.uid 0, arenaId, playerId := player.id,
          entryId := entry.id, runId := arena.runId
          status := .alive, slot, connectedUntil := env.now + 30, createdAt := env.timeNs
          diedAt := none, killerId := "" }
      obtain ⟨lives, hlives⟩ := Table.insert?_isSome (t := σ.lives) (r := life) hunused
      refine ⟨life, { σ.writeArena arenaId (idleFrom none) (fun _ => rfl) with lives },
        _, _, hlock, (),
        ⟨rfl, hlease⟩, _, hplayer', player, rfl, (), hstay, ?_⟩
      rw [helsewhere]
      simp only [bind_ok_iff, orRaise_ok_iff]
      refine ⟨entry, hentry', slot, hslot', ?_⟩
      rw [hcurrent]
      simp only [bind_ok_iff, orRaise_ok_iff]
      exact ⟨lives, hlives, rfl⟩

/-- Who is admitted holds lives. -/
theorem holds_of_allocateLife (hacc : Accounts σ) (hfunded : Funded σ)
    (hplayer : σ.participant env arenaId token = .ok (some player)) {runId : Uid} {life : Life}
    {σ' : Ledger} (hrun : allocateLife env arenaId token runId σ = .ok (life, σ')) :
    ∃ e ∈ σ.entries, e.Holds player.id := by
  obtain ⟨_, -, -, -, -, player', hplayer', -, hadm⟩ := allocateLife_session hrun
  rw [hplayer, Except.ok.injEq, Option.some.injEq] at hplayer'
  subst hplayer'
  cases hadm with
  | again mem mine alive _ _ =>
    obtain ⟨e, he, hid, hpaid, hpos⟩ := hfunded.funded life mem (LifeStatus.open_of_alive alive)
    exact ⟨e, he, (hacc.lifeEntry mem he hid).trans mine, hpaid, hpos⟩
  | resume _ _ _ entry funded _ _ _ _ => exact ⟨entry, fundedEntry_holds funded⟩
  | new _ entry funded _ _ _ _ _ _ => exact ⟨entry, fundedEntry_holds funded⟩

/-! ## What is told -/

/-- A player who holds lives has a card. -/
theorem exists_card {now : Int} (h : ∃ e ∈ σ.entries, e.Holds player.id) :
    ∃ entry, (σ.session arena player now).player = some
      (σ.playerCard arena player entry now) := by
  obtain ⟨e, hshown, -, hholds⟩ := shownEntry_holds h
  refine ⟨e, ?_⟩
  show ((σ.shownEntry player.id).filter (fun e => e.status = .paid)).map _ = _
  rw [hshown, Option.filter_some, if_pos (decide_eq_true hholds.paid), Option.map_some]

/-- The card of a player is about one of its entries. -/
theorem card_eq {now : Int} {card : PlayerCard}
    (h : (σ.session arena player now).player = some card) :
    ∃ entry, card = σ.playerCard arena player entry now := by
  obtain ⟨entry, -, rfl⟩ := Option.map_eq_some_iff.mp h
  exact ⟨entry, rfl⟩

/-- A player is told of lives that are left exactly when one of its entries
holds some. -/
theorem livesRemaining_iff {now : Int} :
    (∃ card, (σ.session arena player now).player = some card ∧ 0 < card.livesRemaining) ↔
      ∃ e ∈ σ.entries, e.Holds player.id := by
  constructor
  · rintro ⟨card, hcard, hpos⟩
    obtain ⟨entry, rfl⟩ := card_eq hcard
    exact balanceOf_pos.mp hpos
  · intro hholds
    obtain ⟨entry, hcard⟩ := exists_card hholds
    exact ⟨_, hcard, balanceOf_pos.mpr hholds⟩

/-- A player who stays is told that it is alive exactly while its newest life
is. -/
theorem alive_iff (hacc : Accounts σ) (hfunded : Funded σ) (hnewest : Newest σ.lives)
    (hstay : player.leaveState = .none) {now : Int} :
    (∃ card, (σ.session arena player now).player = some card ∧ card.status = .alive) ↔
      ∃ l ∈ σ.lives, l.playerId = player.id ∧ l.status = .alive ∧ now < l.connectedUntil := by
  constructor
  · rintro ⟨card, hcard, halive⟩
    obtain ⟨entry, rfl⟩ := card_eq hcard
    have halive : playerStatus player (σ.newestLife player.id)
      (σ.balanceOf player.id) now = .alive :=
      halive
    unfold playerStatus at halive
    rw [hstay] at halive
    cases hlife : σ.newestLife player.id with
    | none =>
      rw [hlife] at halive
      split_ifs at halive
    | some l =>
      rw [hlife] at halive
      obtain ⟨hl, hmine⟩ := Table.mem_select.mp (Table.first_mem hlife)
      by_cases hc : l.status = .alive ∧ now < l.connectedUntil
      · exact ⟨l, hl, of_decide_eq_true hmine, hc⟩
      · simp only [if_neg hc] at halive
        split_ifs at halive
  · rintro ⟨l, hl, hmine, halive, hconnected⟩
    have hopen := LifeStatus.open_of_alive halive
    obtain ⟨e, he, hid, hpaid, hpos⟩ := hfunded.funded l hl hopen
    have hholds : e.Holds player.id := ⟨(hacc.lifeEntry hl he hid).trans hmine, hpaid, hpos⟩
    obtain ⟨entry, hcard⟩ : ∃ entry, (σ.session arena player now).player
        = some (σ.playerCard arena player entry now) := exists_card ⟨e, he, hholds⟩
    have hlife : σ.newestLife player.id = some l := by
      rw [← hmine]
      refine newestLife_eq hl fun l' hl' hp hne => hnewest l hl hopen l' hl' hp fun heq => ?_
      exact hne (Table.mem_inj hl' hl heq)
    refine ⟨_, hcard, ?_⟩
    show playerStatus player (σ.newestLife player.id) _ now = .alive
    unfold playerStatus
    rw [hstay, hlife]
    simp only [halive, hconnected, and_self, if_true]

end QuakeJs.Ledger
