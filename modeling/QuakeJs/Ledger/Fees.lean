import Mathlib.Tactic.Ring
import QuakeJs.Ledger.Conservation

/-!
# The fees of the arenas

The fee percentages of an arena are written once, when it is created, and
every entry keeps a copy of the service fee and of the price.  This module
proves that the two percentages of an arena are never negative and never add
up to more than `maxTotalHaircut`, whatever the settings of the owner become
later, and that an entry agrees with its arena.

`share_le` is the arithmetic behind every payout: two shares of one amount,
each rounded down, are together at most the amount less the service fee.
-/

namespace QuakeJs

open Ledger

/-- What the payouts read of an arena. -/
def Arena.price (a : Arena) : Uid × Int × Int × Bool × Int :=
  (a.id, a.entryAmount, a.haircut, a.isPublic, a.creatorHaircut)

/-- The fees and the price of an arena are in their bounds. -/
structure Arena.Priced (a : Arena) : Prop where
  amount : 0 ≤ a.entryAmount
  haircut : 0 ≤ a.haircut
  creator : 0 ≤ creatorFee a
  total : a.haircut + creatorFee a ≤ maxTotalHaircut

/-- The bounds of an arena depend on its price only. -/
theorem Arena.Priced.congr {a b : Arena} (h : a.Priced) (hp : b.price = a.price) : b.Priced := by
  simp only [Arena.price, Prod.mk.injEq] at hp
  obtain ⟨-, h1, h2, h3, h4⟩ := hp
  have hfee : creatorFee b = creatorFee a := by
    unfold creatorFee
    rw [h3, h4]
  refine ⟨?_, ?_, ?_, ?_⟩
  · rw [h1]
    exact h.amount
  · rw [h2]
    exact h.haircut
  · rw [hfee]
    exact h.creator
  · rw [h2, hfee]
    exact h.total

/-- What a transaction can do to the settings and to the prices of the
arenas. -/
inductive Pricing (σ σ' : Ledger) : Prop
  | kept (settings : σ'.settings = σ.settings)
      (arenas : Table.Agree Arena.price σ.arenas σ'.arenas)
  | settings (haircut : Int) (low : 0 ≤ haircut) (high : haircut ≤ maxTotalHaircut)
      (settings : ∀ s ∈ σ'.settings, s.haircut = haircut
        ∨ ∃ s' ∈ σ.settings, s'.haircut = s.haircut)
      (arenas : σ'.arenas = σ.arenas)
  | arena (row : Arena) (settings : σ'.settings = σ.settings)
      (priced : (∀ s ∈ σ.settings, 0 ≤ s.haircut ∧ s.haircut ≤ maxTotalHaircut) → row.Priced)
      (insert : σ.arenas.insert? row = some σ'.arenas)

theorem agree_bumpArena (σ : Ledger) (arenaId : Uid) :
    Table.Agree Arena.price σ.arenas (σ.bumpArena arenaId).arenas :=
  Table.agree_updateKey fun _ _ _ => by rfl

theorem agree_writeArena (σ : Ledger) (arenaId : Uid) {f : Arena → Arena}
    (hprice : ∀ a, (f a).price = a.price)
    (hf : ∀ a, (f a).id = a.id := by first | assumption | intro; rfl) :
    Table.Agree Arena.price σ.arenas (σ.writeArena arenaId f hf).arenas :=
  (agree_bumpArena σ arenaId).trans (Table.agree_updateKey fun a _ _ => hprice a)

theorem settleEntry_arenas {env : Env} {payment : Payment} {arena? : Option Uid} {σ σ' : Ledger}
    (h : settleEntry env payment σ = .ok (arena?, σ')) :
    σ'.settings = σ.settings ∧ Table.Agree Arena.price σ.arenas σ'.arenas := by
  obtain rfl | ⟨-, -, -, entry, -, -, -, -, -, hcredit⟩ := settleEntry_ok h
  · exact ⟨rfl, .refl _ _⟩
  · have hbump := agree_bumpArena σ entry.arenaId
    cases hcredit with
    | again _ eq =>
      rw [eq]
      exact ⟨rfl, hbump⟩
    | first _ _ player _ staying leaving left =>
      cases hs : player.leaveState with
      | none =>
        rw [staying hs]
        exact ⟨rfl, hbump.trans (Table.agree_update fun _ _ _ => by rfl)⟩
      | leaving =>
        rw [leaving hs]
        exact ⟨rfl, hbump⟩
      | left =>
        obtain ⟨_, -, hrefund⟩ := left hs
        rw [refundEntry_only hrefund]
        exact ⟨rfl, hbump⟩

theorem finishLeave_arenas {env : Env} {playerId revokedRun : Uid} {σ σ' : Ledger}
    (h : finishLeave env playerId revokedRun σ = .ok σ') :
    σ'.settings = σ.settings ∧ Table.Agree Arena.price σ.arenas σ'.arenas := by
  obtain ⟨player, -, row, -, ⟨-, rfl⟩ | ⟨-, -, σ₂, hrefunds, rfl⟩⟩ := finishLeave_ok h
  · exact ⟨rfl, agree_bumpArena σ _⟩
  · rw [refundEntries_only hrefunds]
    exact ⟨rfl, agree_bumpArena σ _⟩

theorem perform_pricing {env : Env} {a : Action} {σ σ' : Ledger}
    (hrun : perform env a σ = .ok σ') : Pricing σ σ' := by
  cases a with
  | saveSettings owner walletId enabled haircut allow =>
    obtain ⟨settings, rfl, hlow, hhigh, hrows⟩ := saveSettings_ok hrun
    exact .settings haircut hlow hhigh hrows rfl
  | createArena owner data =>
    obtain ⟨arena, hrun⟩ := map_snd_ok hrun
    obtain ⟨settings, arenas, -, rfl, hlow, hhigh, hrow, hins⟩ := createArena_ok hrun
    refine .arena arena rfl (fun _ => ?_) hins
    rw [hrow]
    refine ⟨?_, hlow, le_refl 0, ?_⟩
    · show 0 ≤ data.joinAmount
      have := data.joinAmount_ge
      omega
    · show settings.haircut + 0 ≤ maxTotalHaircut
      omega
  | createGame publicId data =>
    obtain ⟨arena, hrun⟩ := map_snd_ok hrun
    obtain ⟨setting, hs, -, -, ⟨-, -, -, rfl⟩ | ⟨-, htotal, -, -, hrow, arenas, hins, rfl⟩⟩ :=
      createGame_ok hrun
    · exact .kept rfl (.refl _ _)
    · refine .arena arena rfl (fun hsettings => ?_) hins
      rw [hrow]
      refine ⟨?_, (hsettings setting hs).1, data.creatorHaircut_ge, ?_⟩
      · show 0 ≤ data.joinAmount
        have := data.joinAmount_ge
        omega
      · show setting.haircut + data.creatorHaircut ≤ maxTotalHaircut
        omega
  | reserveEntry arenaId token data =>
    obtain ⟨⟨entry, new⟩, hrun⟩ := map_snd_ok hrun
    obtain ⟨_, -, -, ⟨-, -, rfl⟩ | ⟨-, _, _, _, _, -, -, -, -, -, rfl⟩⟩ := reserveEntry_ok hrun
    · exact .kept rfl (agree_bumpArena σ arenaId)
    · exact .kept rfl (agree_bumpArena σ arenaId)
  | recordInvoice entryId payment =>
    obtain rfl | ⟨_, -, -, -, -, rfl⟩ := recordInvoice_ok hrun
    · exact .kept rfl (.refl _ _)
    · exact .kept rfl (.refl _ _)
  | settleEntry payment =>
    obtain ⟨arena?, hrun⟩ := map_snd_ok hrun
    exact .kept (settleEntry_arenas hrun).1 (settleEntry_arenas hrun).2
  | consumeDeath runId sequence victimId killerId =>
    obtain ⟨arenaId, hrun⟩ := map_snd_ok hrun
    obtain ⟨run, -, -, _, -, ⟨-, rfl⟩ | ⟨-, victim, -, -, -, σ₂, hσ₂, rfl⟩⟩ :=
      consumeDeath_ok hrun
    · exact .kept rfl (agree_bumpArena σ run.arenaId)
    · obtain ⟨-, rfl⟩ | ⟨-, entry, -, -, hpaid⟩ := hσ₂
      · exact .kept rfl (agree_bumpArena σ run.arenaId)
      · rw [hpaid.only]
        exact .kept rfl (agree_bumpArena σ run.arenaId)
  | allocateLife arenaId token runId =>
    obtain ⟨life, hrun⟩ := map_snd_ok hrun
    obtain ⟨_, -, -, -, -, player, -, -, -, -, hadm⟩ := allocateLife_ok hrun
    cases hadm with
    | again _ _ _ _ eq =>
      rw [eq]
      exact .kept rfl (agree_bumpArena σ arenaId)
    | resume _ _ _ _ _ _ _ _ ledger =>
      rw [ledger]
      exact .kept rfl (agree_writeArena σ arenaId fun _ => by rfl)
    | new _ _ _ _ _ _ _ _ ledger =>
      rw [ledger]
      exact .kept rfl (agree_writeArena σ arenaId fun _ => by rfl)
  | requestLeave arenaId token =>
    obtain ⟨player, hrun⟩ := map_snd_ok hrun
    obtain ⟨_, -, -, -, ⟨-, -, rfl⟩ | ⟨-, -, -, rfl⟩⟩ := requestLeave_ok hrun
    · exact .kept rfl (agree_bumpArena σ arenaId)
    · exact .kept rfl (agree_bumpArena σ arenaId)
  | finishLeave playerId revokedRun =>
    exact .kept (finishLeave_arenas hrun).1 (finishLeave_arenas hrun).2
  | expireGame arenaId =>
    obtain ⟨expired, hrun⟩ := map_snd_ok hrun
    obtain ⟨row, -, hexp⟩ := expireGame_ok hrun
    cases hexp with
    | kept eq =>
      rw [eq]
      exact .kept rfl (agree_bumpArena σ arenaId)
    | idle since eq =>
      rw [eq]
      exact .kept rfl (agree_writeArena σ arenaId fun _ => by rfl)
    | expired _ _ _ _ _ _ _ eq =>
      rw [eq]
      exact .kept rfl (agree_writeArena σ arenaId fun _ => by rfl)
  | closeGame arenaId owner =>
    obtain ⟨row, -, -, rfl⟩ := closeGame_ok hrun
    exact .kept rfl (agree_writeArena σ arenaId fun _ => by rfl)
  | leaseArena worker arenaId =>
    obtain ⟨⟨arena, oldRuns⟩, hrun⟩ := map_snd_ok hrun
    obtain ⟨_, -, -, -, -, -, -, rfl⟩ := leaseArena_ok hrun
    exact .kept rfl (agree_writeArena σ arenaId fun _ => by rfl)
  | insertRun runId arenaId worker =>
    obtain ⟨runs, -, rfl⟩ := insertRun_ok hrun
    exact .kept rfl (.refl _ _)
  | recoverRun runId =>
    cases hrun
    exact .kept rfl (.refl _ _)
  | recoverLeavingRun arenaId runId =>
    rw [recoverLeavingRun_ok hrun]
    exact .kept rfl (agree_bumpArena σ arenaId)
  | stopRun arenaId worker runId =>
    rw [stopRun_ok hrun]
    exact .kept rfl ((agree_bumpArena σ arenaId).trans (Table.agree_update fun _ _ _ => by rfl))
  | renewLease worker arenaId runId connected =>
    obtain ⟨_, -, -, -, -, -, rfl⟩ := renewLease_ok hrun
    exact .kept rfl (agree_writeArena σ arenaId fun _ => by rfl)
  | claimPayout =>
    cases hrun
    have hk := claimPayout_keeps env σ
    exact .kept hk.settings (.of_eq hk.arenas)
  | updatePayout k row status values =>
    obtain ⟨row', hrun⟩ := map_snd_ok hrun
    have hk := updatePayout_keeps hrun
    exact .kept hk.settings (.of_eq hk.arenas)
  | releasePayout k row =>
    cases hrun
    have hk := releasePayout_keeps env k row σ
    exact .kept hk.settings (.of_eq hk.arenas)

/-! ## The entries keep their offer -/

/-- What an entry was sold for: written once, by its `INSERT`. -/
def Entry.offer (e : Entry) : Uid × Uid × Uid × String × Int × Int :=
  (e.id, e.arenaId, e.playerId, e.walletId, e.amount, e.haircut)

theorem agree_emptied {t t' : Table Entry} (h : Table.Agree emptied t t') :
    Table.Agree Entry.offer t t' :=
  h.map Entry.offer (g := Entry.offer) fun _ => rfl

theorem settleEntry_offers {env : Env} {payment : Payment} {arena? : Option Uid} {σ σ' : Ledger}
    (h : settleEntry env payment σ = .ok (arena?, σ')) :
    Table.Agree Entry.offer σ.entries σ'.entries := by
  obtain rfl | ⟨-, -, -, entry, -, -, -, -, -, hcredit⟩ := settleEntry_ok h
  · exact .refl _ _
  · have hcredited : Table.Agree Entry.offer σ.entries (σ.creditLedger entry payment).entries :=
      Table.agree_updateKey fun _ _ _ => by rfl
    cases hcredit with
    | again _ eq =>
      rw [eq]
      exact .refl _ _
    | first _ _ player _ staying leaving left =>
      cases hs : player.leaveState with
      | none =>
        rw [staying hs]
        exact hcredited
      | leaving =>
        rw [leaving hs]
        exact hcredited
      | left =>
        obtain ⟨_, -, hrefund⟩ := left hs
        exact hcredited.trans (agree_emptied (refundEntry_agree hrefund))

/-- Every transaction keeps the offers, and `reserve_entry` may add one, at
the price of its arena. -/
theorem perform_offers {env : Env} {a : Action} {σ σ' : Ledger}
    (hrun : perform env a σ = .ok σ') :
    Table.Agree Entry.offer σ.entries σ'.entries ∨
      ∃ entry, σ.entries.insert? entry = some σ'.entries ∧ entry.status = .creating
        ∧ (∃ n, entry.id = env.uid n) ∧ ∃ arena ∈ σ.arenas, arena.id = entry.arenaId
          ∧ arena.entryAmount = entry.amount ∧ arena.haircut = entry.haircut := by
  cases perform_effect hrun with
  | other _ entries _ _ => exact Or.inl (.of_eq entries)
  | reserve _ _ _ _ _ run =>
    obtain ⟨row, hrow, -, ⟨-, -, rfl⟩ | ⟨-, _, _, _, _, rfl, -, rfl, -, hins, rfl⟩⟩ :=
      reserveEntry_ok run
    · exact Or.inl (.refl _ _)
    · exact Or.inr ⟨_, hins, rfl, ⟨1, rfl⟩, row, Table.mem_of_get? hrow, rfl, rfl, rfl⟩
  | invoice _ _ run =>
    obtain rfl | ⟨_, -, -, -, -, rfl⟩ := recordInvoice_ok run
    · exact Or.inl (.refl _ _)
    · exact Or.inl (Table.agree_updateKey fun _ _ _ => by rfl)
  | settle _ _ run => exact Or.inl (settleEntry_offers run)
  | death _ _ _ _ _ run =>
    left
    obtain ⟨_, -, -, _, -, ⟨-, rfl⟩ | ⟨-, victim, -, -, -, σ₂, hσ₂, rfl⟩⟩ := consumeDeath_ok run
    · exact .refl _ _
    · obtain ⟨-, rfl⟩ | ⟨-, entry, -, -, hpaid⟩ := hσ₂
      · exact .refl _ _
      · rw [hpaid.only]
        exact Table.agree_updateKey fun _ _ _ => by rfl
  | allocate _ _ _ _ run =>
    left
    obtain ⟨_, -, -, -, -, _, -, -, -, -, hadm⟩ := allocateLife_ok run
    cases hadm with
    | again _ _ _ _ eq =>
      rw [eq]
      exact .refl _ _
    | resume _ _ _ _ _ _ _ _ ledger =>
      rw [ledger]
      exact .refl _ _
    | new _ _ _ _ _ _ _ _ ledger =>
      rw [ledger]
      exact .refl _ _
  | request _ _ _ run =>
    obtain ⟨_, -, -, -, ⟨-, -, rfl⟩ | ⟨-, -, -, rfl⟩⟩ := requestLeave_ok run
    · exact Or.inl (.refl _ _)
    · exact Or.inl (.refl _ _)
  | finish _ _ run =>
    left
    obtain ⟨player, -, _, -, ⟨-, rfl⟩ | ⟨-, -, σ₂, hrefunds, rfl⟩⟩ := finishLeave_ok run
    · exact .refl _ _
    · have hoffers : Table.Agree Entry.offer σ.entries σ₂.entries := by
        refine refundEntries_ok (P := fun τ => Table.Agree Entry.offer σ.entries τ.entries) ?_ ?_
          hrefunds
        · exact fun _ _ _ _ _ hτ hone => hτ.trans (agree_emptied (refundEntry_agree hone))
        · exact .refl _ _
      exact hoffers
  | release _ _ entries _ _ => exact Or.inl (.of_eq entries)
  | renew _ entries _ _ => exact Or.inl (.of_eq entries)

/-! ## The invariant of the fees -/

/-- The fees are in their bounds everywhere, and an entry has the price and
the service fee of its arena. -/
structure Fees (σ : Ledger) : Prop where
  settings : ∀ s ∈ σ.settings, 0 ≤ s.haircut ∧ s.haircut ≤ maxTotalHaircut
  arenas : ∀ a ∈ σ.arenas, a.Priced
  entries : ∀ e ∈ σ.entries, ∃ a ∈ σ.arenas, a.id = e.arenaId ∧ a.entryAmount = e.amount
    ∧ a.haircut = e.haircut

namespace Fees

variable {σ σ' : Ledger}

theorem empty : Fees Ledger.empty where
  settings := fun _ hs => absurd hs (Table.not_mem_empty _)
  arenas := fun _ ha => absurd ha (Table.not_mem_empty _)
  entries := fun _ he => absurd he (Table.not_mem_empty _)

/-- Writes that keep the prices of the arenas and the offers of the entries
keep the fees. -/
theorem frame (h : Fees σ) (hsettings : σ'.settings = σ.settings)
    (harenas : Table.Agree Arena.price σ.arenas σ'.arenas)
    (hoffers : Table.Agree Entry.offer σ.entries σ'.entries) : Fees σ' where
  settings := hsettings ▸ h.settings
  arenas := by
    intro b hb
    obtain ⟨a, ha, hprice⟩ := harenas.exists_old hb
    exact (h.arenas a ha).congr hprice.symm
  entries := by
    intro e he
    obtain ⟨e₀, he₀, hoffer⟩ := hoffers.exists_old he
    simp only [Entry.offer, Prod.mk.injEq] at hoffer
    obtain ⟨-, ha, -, -, hamount, hhaircut⟩ := hoffer
    obtain ⟨arena, hmem, h1, h2, h3⟩ := h.entries e₀ he₀
    obtain ⟨arena', hmem', hprice⟩ := harenas.exists_new hmem
    simp only [Arena.price, Prod.mk.injEq] at hprice
    exact ⟨arena', hmem', by rw [hprice.1, h1, ha], by rw [hprice.2.1, h2, hamount],
      by rw [hprice.2.2.1, h3, hhaircut]⟩

/-- The arena of an entry is found again after every transaction. -/
theorem arenaStays {env : Env} {a : Action} (hrun : perform env a σ = .ok σ') {arena : Arena}
    (harena : arena ∈ σ.arenas) : ∃ arena' ∈ σ'.arenas, arena'.price = arena.price := by
  cases perform_pricing hrun with
  | kept _ arenas => exact arenas.exists_new harena
  | settings _ _ _ _ arenas => exact ⟨arena, arenas ▸ harena, rfl⟩
  | arena row _ _ insert => exact ⟨arena, (Table.mem_insert? insert).mpr (Or.inl harena), rfl⟩

theorem step (h : Fees σ) {env : Env} {a : Action} (hrun : perform env a σ = .ok σ') :
    Fees σ' := by
  have hsettings : ∀ s ∈ σ'.settings, 0 ≤ s.haircut ∧ s.haircut ≤ maxTotalHaircut := by
    intro s hs
    cases perform_pricing hrun with
    | kept settings _ => exact h.settings s (settings ▸ hs)
    | settings haircut low high settings _ =>
      rcases settings s hs with heq | ⟨s', hs', heq⟩
      · rw [heq]
        exact ⟨low, high⟩
      · rw [← heq]
        exact h.settings s' hs'
    | arena _ settings _ _ => exact h.settings s (settings ▸ hs)
  have harenas : ∀ a ∈ σ'.arenas, a.Priced := by
    intro b hb
    cases perform_pricing hrun with
    | kept _ arenas =>
      obtain ⟨a, ha, hprice⟩ := arenas.exists_old hb
      exact (h.arenas a ha).congr hprice.symm
    | settings _ _ _ _ arenas => exact h.arenas b (arenas ▸ hb)
    | arena row _ priced insert =>
      rcases (Table.mem_insert? insert).mp hb with hb | rfl
      · exact h.arenas b hb
      · exact priced h.settings
  refine ⟨hsettings, harenas, fun e he => ?_⟩
  -- An entry finds its arena through the arena it had before the step.
  have hold : ∃ arena ∈ σ.arenas, arena.id = e.arenaId ∧ arena.entryAmount = e.amount
      ∧ arena.haircut = e.haircut := by
    rcases perform_offers hrun with hagree | ⟨entry, hins, -, -, harena⟩
    · obtain ⟨e₀, he₀, hoffer⟩ := hagree.exists_old he
      simp only [Entry.offer, Prod.mk.injEq] at hoffer
      obtain ⟨-, ha, -, -, hamount, hhaircut⟩ := hoffer
      obtain ⟨arena, hmem, h1, h2, h3⟩ := h.entries e₀ he₀
      exact ⟨arena, hmem, h1.trans ha, h2.trans hamount, h3.trans hhaircut⟩
    · rcases (Table.mem_insert? hins).mp he with he | rfl
      · exact h.entries e he
      · exact harena
  obtain ⟨arena, hmem, h1, h2, h3⟩ := hold
  obtain ⟨arena', hmem', hprice⟩ := arenaStays hrun hmem
  simp only [Arena.price, Prod.mk.injEq] at hprice
  exact ⟨arena', hmem', hprice.1.trans h1, hprice.2.1.trans h2, hprice.2.2.1.trans h3⟩

theorem of_reachable {ok : Env → Ledger → Prop} (h : Reachable ok σ) : Fees σ :=
  h.invariant Fees.empty fun _ _ _ _ hσ _ hrun => hσ.step hrun

/-- The terms under which the lives of an entry are paid out. -/
theorem entry (h : Fees σ) {e : Entry} (he : e ∈ σ.entries) {arena row : Arena}
    (hrow : row ∈ σ.arenas) (hid : row.id = e.arenaId) (hprice : arena.price = row.price) :
    0 ≤ e.amount ∧ 0 ≤ e.haircut ∧ 0 ≤ creatorFee arena
      ∧ e.haircut + creatorFee arena ≤ maxTotalHaircut := by
  obtain ⟨a, ha, haid, hamount, hhaircut⟩ := h.entries e he
  obtain rfl : a = row := Table.mem_inj ha hrow (haid.trans hid.symm)
  have hp := (h.arenas a ha).congr hprice
  have hcut : arena.haircut = e.haircut := by
    simp only [Arena.price, Prod.mk.injEq] at hprice
    rw [hprice.2.2.1, hhaircut]
  refine ⟨?_, ?_, hp.creator, ?_⟩
  · rw [← hamount]
    exact (h.arenas a ha).amount
  · rw [← hcut]
    exact hp.haircut
  · rw [← hcut]
    exact hp.total

end Fees

/-! ## The shares of an amount -/

/-- A share is not negative. -/
theorem share_nonneg {value percent : Int} (hv : 0 ≤ value) (hp : 0 ≤ percent) :
    0 ≤ value * percent / 500 :=
  Int.ediv_nonneg (Int.mul_nonneg hv hp) (by omega)

/-- The shares of the winner and of the creator, each rounded down, take at
most what the service fee leaves. -/
theorem share_le (value haircut creator : Int) :
    500 * (value * (100 - haircut - creator) / 500) + 500 * (value * creator / 500)
      ≤ value * (100 - haircut) := by
  have h1 : 500 * (value * (100 - haircut - creator) / 500) ≤ value * (100 - haircut - creator) :=
    Int.mul_ediv_self_le (by omega)
  have h2 : 500 * (value * creator / 500) ≤ value * creator := Int.mul_ediv_self_le (by omega)
  calc 500 * (value * (100 - haircut - creator) / 500) + 500 * (value * creator / 500)
      ≤ value * (100 - haircut - creator) + value * creator := Int.add_le_add h1 h2
    _ = value * (100 - haircut) := by ring

end QuakeJs
