import Mathlib.Data.Prod.Lex
import Mathlib.Data.String.Basic
import QuakeJs.Ledger.Accounts

/-!
# The admissions

`allocate_life` gives a player one life at a time and a slot of its own.
This module proves what holds of the lives in every reachable ledger.

* `Exclusive` reads the lives only: one open life for each player, and the
  alive lives of an arena in distinct slots.
* `Newest` adds the order of creation.  It needs a clock that moves.
* `Funded` reads the entries and the players beside the lives: an open life
  has a paid entry and a player who has not left, and a refunded life has an
  empty entry.

The three rest on each other through the accounts.  A death empties no entry
that another open life still needs, because there is no other open life.
-/

namespace QuakeJs

open Ledger

/-- `l'` is the life `l` at a later moment, and was not admitted in between. -/
structure Life.Wanes (l l' : Life) : Prop where
  id : l'.id = l.id
  arena : l'.arenaId = l.arenaId
  player : l'.playerId = l.playerId
  entry : l'.entryId = l.entryId
  slot : l'.slot = l.slot
  created : l'.createdAt = l.createdAt
  stillOpen : l'.status.open = true → l.status.open = true
  stillAlive : l'.status = .alive → l.status = .alive

theorem Life.Wanes.refl (l : Life) : l.Wanes l := 
  ⟨rfl, rfl, rfl, rfl, rfl, rfl, fun h => h, fun h => h⟩

theorem Life.Wanes.killed (env : Env) (killerId : Uid) (l : Life) :
    l.Wanes (killed env killerId l) :=
  ⟨rfl, rfl, rfl, rfl, rfl, rfl, fun h => absurd h Bool.false_ne_true, fun h => by cases h⟩

theorem Life.Wanes.refunded (env : Env) (l : Life) : l.Wanes (refunded env l) :=
  ⟨rfl, rfl, rfl, rfl, rfl, rfl, fun h => absurd h Bool.false_ne_true, fun h => by cases h⟩

theorem LifeStatus.open_of_alive {s : LifeStatus} (h : s = .alive) : s.open = true := by
  rw [h]
  rfl

/-- The lives of the second table are lives of the first, some of them closed
since. -/
def Waned (t t' : Table Life) : Prop := ∀ l' ∈ t', ∃ l ∈ t, l.Wanes l'

theorem Waned.refl (t : Table Life) : Waned t t := fun l hl => ⟨l, hl, .refl l⟩

/-- An update under which each life it touches wanes. -/
theorem Waned.update {t : Table Life} {p : Life → Bool} {f : Life → Life}
    (h : ∀ l ∈ t, p l = true → l.Wanes (f l))
    (hf : KeepsKey f := by first | assumption | intro; rfl) : Waned t (t.update p f hf) := by
  intro l' hl'
  obtain ⟨l, hl, rfl⟩ := (Table.mem_update).mp hl'
  refine ⟨l, hl, ?_⟩
  split_ifs with hp
  · exact h l hl hp
  · exact .refl l

/-- A heartbeat closes no life and admits none. -/
theorem Waned.of_still {t t' : Table Life} (h : Table.Agree Life.still t t') : Waned t t' := by
  intro l' hl'
  obtain ⟨l, hl, hv⟩ := h.exists_old hl'
  simp only [Life.still, Life.mk.injEq] at hv
  obtain ⟨h1, h2, h3, h4, -, h6, h7, -, h9, -, -⟩ := hv
  exact ⟨l, hl, h1.symm, h2.symm, h3.symm, h4.symm, h7.symm, h9.symm, fun h => h6 ▸ h,
    fun h => h6 ▸ h⟩

theorem waned_releaseLives (σ : Ledger) (runId : Uid) :
    Waned σ.lives (σ.releaseLives runId).lives := by
  refine Waned.update fun l _ hl => ?_
  simp only [Bool.and_eq_true, decide_eq_true_eq] at hl
  exact ⟨rfl, rfl, rfl, rfl, rfl, rfl,
    fun _ => LifeStatus.open_of_alive hl.2, fun h => by cases h⟩

/-! ## One open life for each player, one slot for each alive life -/

/-- No player has two open lives, and no slot of an arena has two alive ones. -/
structure Exclusive (lives : Table Life) : Prop where
  one : ∀ l ∈ lives, ∀ l' ∈ lives, l.playerId = l'.playerId → l.status.open = true →
    l'.status.open = true → l = l'
  slot : ∀ l ∈ lives, l.status = .alive → 1 ≤ l.slot ∧ l.slot ≤ maxPlayers
  slots : ∀ l ∈ lives, ∀ l' ∈ lives, l.arenaId = l'.arenaId → l.status = .alive →
    l'.status = .alive → l.slot = l'.slot → l = l'

namespace Exclusive

variable {lives lives' : Table Life}

theorem empty : Exclusive .empty where
  one := fun _ hl => absurd hl (Table.not_mem_empty _)
  slot := fun _ hl => absurd hl (Table.not_mem_empty _)
  slots := fun _ hl => absurd hl (Table.not_mem_empty _)

/-- Lives that only close stay exclusive. -/
theorem wane (h : Exclusive lives) (hw : Waned lives lives') : Exclusive lives' where
  one := by
    intro l₁ h₁ l₂ h₂ hplayer ho₁ ho₂
    obtain ⟨o₁, m₁, w₁⟩ := hw l₁ h₁
    obtain ⟨o₂, m₂, w₂⟩ := hw l₂ h₂
    have hold : o₁ = o₂ := h.one o₁ m₁ o₂ m₂ (by rw [← w₁.player, ← w₂.player, hplayer])
      (w₁.stillOpen ho₁) (w₂.stillOpen ho₂)
    exact Table.mem_inj h₁ h₂ (w₁.id.trans (hold ▸ w₂.id.symm))
  slot := by
    intro l hl ha
    obtain ⟨o, m, w⟩ := hw l hl
    rw [w.slot]
    exact h.slot o m (w.stillAlive ha)
  slots := by
    intro l₁ h₁ l₂ h₂ harena ha₁ ha₂ hslot
    obtain ⟨o₁, m₁, w₁⟩ := hw l₁ h₁
    obtain ⟨o₂, m₂, w₂⟩ := hw l₂ h₂
    have hold : o₁ = o₂ := h.slots o₁ m₁ o₂ m₂ (by rw [← w₁.arena, ← w₂.arena, harena])
      (w₁.stillAlive ha₁) (w₂.stillAlive ha₂) (by rw [← w₁.slot, ← w₂.slot, hslot])
    exact Table.mem_inj h₁ h₂ (w₁.id.trans (hold ▸ w₂.id.symm))

/-- Lives stay exclusive when one life is written, if no other life of its
player is open and no other alive life of its arena is in its slot. -/
theorem seat (h : Exclusive lives) {life : Life}
    (hlives : ∀ l ∈ lives', l = life ∨ l ∈ lives ∧ l.id ≠ life.id)
    (hone : ∀ l ∈ lives, l.playerId = life.playerId → l.id ≠ life.id → l.status.open = false)
    (hslot : 1 ≤ life.slot ∧ life.slot ≤ maxPlayers)
    (hfree : ∀ l ∈ lives, l.arenaId = life.arenaId → l.status = .alive → l.slot ≠ life.slot) :
    Exclusive lives' where
  one := by
    intro l₁ h₁ l₂ h₂ hplayer ho₁ ho₂
    rcases hlives l₁ h₁ with rfl | ⟨m₁, n₁⟩ <;> rcases hlives l₂ h₂ with rfl | ⟨m₂, n₂⟩
    · rfl
    · exact absurd ho₂ (by simp [hone l₂ m₂ hplayer.symm n₂])
    · exact absurd ho₁ (by simp [hone l₁ m₁ hplayer n₁])
    · exact h.one l₁ m₁ l₂ m₂ hplayer ho₁ ho₂
  slot := by
    intro l hl ha
    rcases hlives l hl with rfl | ⟨m, -⟩
    · exact hslot
    · exact h.slot l m ha
  slots := by
    intro l₁ h₁ l₂ h₂ harena ha₁ ha₂ hs
    rcases hlives l₁ h₁ with rfl | ⟨m₁, n₁⟩ <;> rcases hlives l₂ h₂ with rfl | ⟨m₂, n₂⟩
    · rfl
    · exact absurd hs.symm (hfree l₂ m₂ harena.symm ha₂)
    · exact absurd hs (hfree l₁ m₁ harena ha₁)
    · exact h.slots l₁ m₁ l₂ m₂ harena ha₁ ha₂ hs

end Exclusive

/-! ## The transactions and the lives -/

/-- Every transaction but `allocate_life` only closes lives. -/
theorem perform_lives {env : Env} {a : Action} {σ σ' : Ledger}
    (hrun : perform env a σ = .ok σ') :
    Waned σ.lives σ'.lives ∨ ∃ arenaId token runId life,
      allocateLife env arenaId token runId σ = .ok (life, σ') := by
  cases perform_effect hrun with
  | other _ _ lives _ =>
    rw [lives]
    exact Or.inl (.refl _)
  | reserve _ _ _ _ _ run =>
    obtain ⟨_, -, -, ⟨-, -, rfl⟩ | ⟨-, _, _, _, _, -, -, -, -, -, rfl⟩⟩ := reserveEntry_ok run
    · exact Or.inl (.refl _)
    · exact Or.inl (.refl _)
  | invoice _ _ run =>
    obtain rfl | ⟨_, -, -, -, -, rfl⟩ := recordInvoice_ok run
    · exact Or.inl (.refl _)
    · exact Or.inl (.refl _)
  | settle _ _ run =>
    left
    rw [settleEntry_lives run]
    exact .refl _
  | death _ _ _ _ _ run =>
    left
    obtain ⟨_, -, -, _, -, ⟨-, rfl⟩ | ⟨-, victim, hvictim, -, -, σ₂, hσ₂, rfl⟩⟩ :=
      consumeDeath_ok run
    · exact .refl _
    · obtain ⟨-, rfl⟩ | ⟨-, entry, -, -, hpaid⟩ := hσ₂
      · exact .refl _
      · rw [hpaid.only]
        exact Waned.update fun l _ _ => .killed _ _ l
  | allocate arenaId token runId life run => exact Or.inr ⟨arenaId, token, runId, life, run⟩
  | request _ _ _ run =>
    obtain ⟨_, -, -, -, ⟨-, -, rfl⟩ | ⟨-, -, -, rfl⟩⟩ := requestLeave_ok run
    · exact Or.inl (.refl _)
    · exact Or.inl (.refl _)
  | finish _ _ run =>
    left
    obtain ⟨_, -, _, -, ⟨-, rfl⟩ | ⟨-, -, σ₂, hrefunds, rfl⟩⟩ := finishLeave_ok run
    · exact .refl _
    · rw [refundEntries_only hrefunds]
      exact Waned.update fun l _ _ => .refunded env l
  | release runId _ _ lives _ =>
    rw [lives]
    exact Or.inl (waned_releaseLives σ runId)
  | renew _ _ lives _ => exact Or.inl (.of_still lives)

/-- The life that an admission returns is alive in the run that asked for it,
and it is a life of the player with the token. -/
theorem allocateLife_life {env : Env} {arenaId token runId : Uid} {life : Life} {σ σ' : Ledger}
    (hacc : Accounts σ) (hrun : allocateLife env arenaId token runId σ = .ok (life, σ')) :
    life ∈ σ'.lives ∧ life.arenaId = arenaId ∧ life.runId = runId ∧ life.status = .alive
      ∧ ∃ player ∈ σ'.participants, player.id = life.playerId ∧ player.arenaId = arenaId
        ∧ player.tokenHash = env.sha256 token ∧ player.leaveState = .none := by
  obtain ⟨_, -, -, -, -, player, hplayer, harena, htoken, hstay, hadm⟩ := allocateLife_ok hrun
  -- A life of the player is in the arena of the player.
  have hof : ∀ l ∈ σ.lives, l.playerId = player.id → l.arenaId = arenaId := by
    intro l hl hp
    obtain ⟨p, hp', hid, ha⟩ := hacc.lifePlayer hl
    obtain rfl : p = player := Table.mem_inj hp' hplayer (hid.trans hp)
    rw [← ha, harena]
  cases hadm with
  | again mem hp alive run eq =>
    subst eq
    exact ⟨mem, hof life mem hp, run, alive, player, hplayer, hp.symm, harena, htoken, hstay⟩
  | resume old current _ _ _ slot _ eq ledger =>
    obtain ⟨hold, hp, -⟩ := currentLife_mem current
    subst eq ledger
    refine ⟨(Table.mem_updateKey).mpr (Or.inr ⟨old, hold, rfl, rfl⟩), hof old hold hp, rfl, rfl,
      player, hplayer, hp.symm, harena, htoken, hstay⟩
  | new _ _ _ slot _ eq lives insert ledger =>
    subst eq ledger
    exact ⟨(Table.mem_insert? insert).mpr (Or.inr rfl), rfl, rfl, rfl,
      player, hplayer, rfl, harena, htoken, hstay⟩

/-- What an admission writes: one life, which is alive now, in a slot that
was free, of a player who had no other open life. -/
theorem allocateLife_admits {env : Env} {arenaId token runId : Uid} {life : Life}
    {σ σ' : Ledger} (hex : Exclusive σ.lives)
    (hrun : allocateLife env arenaId token runId σ = .ok (life, σ')) :
    σ'.lives = σ.lives ∨
      (∀ l ∈ σ'.lives, l = life ∨ l ∈ σ.lives ∧ l.id ≠ life.id)
      ∧ (∀ l ∈ σ.lives, l.playerId = life.playerId → l.id ≠ life.id → l.status.open = false)
      ∧ (1 ≤ life.slot ∧ life.slot ≤ maxPlayers)
      ∧ (∀ l ∈ σ.lives, l.arenaId = arenaId → l.status = .alive → l.slot ≠ life.slot)
      ∧ life.status = .alive := by
  obtain ⟨_, -, -, -, -, player, -, -, -, -, hadm⟩ := allocateLife_ok hrun
  cases hadm with
  | again _ _ _ _ eq =>
    rw [eq]
    exact Or.inl rfl
  | resume old current _ _ _ slot free eq ledger =>
    obtain ⟨hold, hplayer, hopen⟩ := currentLife_mem current
    obtain ⟨hlow, hhigh, hfree⟩ := freeSlot_ok free
    subst eq ledger
    refine Or.inr ⟨?_, ?_, ⟨hlow, hhigh⟩, hfree, rfl⟩
    · intro l hl
      rcases (Table.mem_updateKey).mp hl with ⟨hl, hid⟩ | ⟨o, ho, hid, rfl⟩
      · exact Or.inr ⟨hl, hid⟩
      · rw [Table.mem_inj ho hold hid]
        exact Or.inl rfl
    · intro l hl hp hid
      by_contra ho
      rw [Bool.not_eq_false] at ho
      obtain rfl : l = old := hex.one l hl old hold hp ho hopen
      exact hid rfl
  | new noCurrent entry _ slot free eq lives insert ledger =>
    obtain ⟨hlow, hhigh, hfree⟩ := freeSlot_ok free
    subst eq ledger
    refine Or.inr ⟨?_, ?_, ⟨hlow, hhigh⟩, hfree, rfl⟩
    · intro l hl
      rcases (Table.mem_insert? insert).mp hl with hl | rfl
      · exact Or.inr ⟨hl, (Table.insert?_eq_some.mp insert).1 l hl⟩
      · exact Or.inl rfl
    · intro l hl hp _
      exact currentLife_eq_none noCurrent hl hp

/-- Every transaction keeps the lives exclusive. -/
theorem Exclusive.step {env : Env} {a : Action} {σ σ' : Ledger} (h : Exclusive σ.lives)
    (hacc : Accounts σ) (hrun : perform env a σ = .ok σ') : Exclusive σ'.lives := by
  rcases perform_lives hrun with hw | ⟨arenaId, token, runId, life, hrun⟩
  · exact h.wane hw
  · rcases allocateLife_admits h hrun with heq | ⟨hlives, hone, hslot, hfree, -⟩
    · rw [heq]
      exact h
    · rw [← (allocateLife_life hacc hrun).2.1] at hfree
      exact h.seat hlives hone hslot hfree

/-- Every transaction keeps the lives exclusive. -/
theorem Exclusive.of_reachable {ok : Env → Ledger → Prop} {σ : Ledger} (h : Reachable ok σ) :
    Exclusive σ.lives :=
  (h.invariant (P := fun σ => Accounts σ ∧ Exclusive σ.lives) ⟨.empty, .empty⟩
    fun _ _ _ _ hσ _ hrun => ⟨hσ.1.step hrun, hσ.2.step hσ.1 hrun⟩).2

/-! ## The newest life -/

/-- An open life is the newest life of its player. -/
def Newest (lives : Table Life) : Prop :=
  ∀ l ∈ lives, l.status.open = true →
    ∀ l' ∈ lives, l'.playerId = l.playerId → l'.id ≠ l.id → l'.createdAt < l.createdAt

/-- Lives that are written, none of them opened and none of them moved in
time, keep the order. -/
theorem Newest.write {lives lives' : Table Life} (h : Newest lives)
    (hw : ∀ l' ∈ lives', ∃ l ∈ lives, l'.id = l.id ∧ l'.playerId = l.playerId
      ∧ l'.createdAt = l.createdAt ∧ (l'.status.open = true → l.status.open = true)) :
    Newest lives' := by
  intro l hl ho l' hl' hplayer hid
  obtain ⟨o, m, hi, hp, hc, hopen⟩ := hw l hl
  obtain ⟨o', m', hi', hp', hc', -⟩ := hw l' hl'
  rw [hc, hc']
  exact h o m (hopen ho) o' m' (by rw [← hp, ← hp', hplayer]) (by rw [← hi, ← hi']; exact hid)

theorem Newest.wane {lives lives' : Table Life} (h : Newest lives) (hw : Waned lives lives') :
    Newest lives' := by
  refine h.write fun l' hl' => ?_
  obtain ⟨l, hl, w⟩ := hw l' hl'
  exact ⟨l, hl, w.id, w.player, w.created, w.stillOpen⟩

/-- While the clock moves, every transaction keeps the open life of a player
its newest: a life is created for a player without an open life only, and an
older life is resumed only while it is still open. -/
theorem Newest.step {env : Env} {a : Action} {σ σ' : Ledger} (h : Newest σ.lives)
    (hlater : env.Later σ) (hrun : perform env a σ = .ok σ') : Newest σ'.lives := by
  rcases perform_lives hrun with hw | ⟨arenaId, token, runId, life, hrun⟩
  · exact h.wane hw
  · obtain ⟨_, -, -, -, -, player, -, -, -, -, hadm⟩ := allocateLife_ok hrun
    cases hadm with
    | again _ _ _ _ eq =>
      subst eq
      exact h
    | resume old current _ _ _ slot _ _ ledger =>
      subst ledger
      obtain ⟨hold, -, hopen⟩ := currentLife_mem current
      refine h.write fun l' hl' => ?_
      rcases (Table.mem_updateKey).mp hl' with ⟨hl, hid⟩ | ⟨o, ho, hid, rfl⟩
      · exact ⟨l', hl, rfl, rfl, rfl, fun h => h⟩
      · rw [Table.mem_inj ho hold hid]
        exact ⟨old, hold, rfl, rfl, rfl, fun _ => hopen⟩
    | new noCurrent _ _ slot _ eq lives insert ledger =>
      subst ledger
      intro l hl ho l' hl' hplayer hid
      rcases (Table.mem_insert? insert).mp hl with hl | rfl <;>
        rcases (Table.mem_insert? insert).mp hl' with hl' | rfl
      · exact h l hl ho l' hl' hplayer hid
      · exact absurd ho (by
          rw [currentLife_eq_none noCurrent hl (by rw [← hplayer, eq])]
          exact Bool.false_ne_true)
      · rw [eq]
        exact hlater.lives l' hl'
      · exact absurd rfl hid

theorem Newest.of_reachable {σ : Ledger} (h : Reachable Env.Later σ) : Newest σ.lives :=
  h.invariant (P := fun σ => Newest σ.lives) (fun _ hl => absurd hl (Table.not_mem_empty _))
    fun _ _ _ _ hσ hlater hrun => hσ.step hlater hrun

/-- `created_at DESC,id DESC`, as a rank. -/
def newestRank (createdAt : Int) (id : Uid) : Lex (OrderDual Int × OrderDual Uid) :=
  toLex (OrderDual.toDual createdAt, OrderDual.toDual id)

theorem newestRank_lt {c d : Int} {i j : Uid} :
    (d < c || (d = c && j < i) : Bool) = true ↔ newestRank c i < newestRank d j := by
  rw [newestRank, newestRank, Prod.Lex.toLex_lt_toLex]
  simp only [OrderDual.toDual_lt_toDual, EmbeddingLike.apply_eq_iff_eq, Bool.or_eq_true,
    Bool.and_eq_true, decide_eq_true_eq, eq_comm (a := d)]

theorem newestRank_inj {c d : Int} {i j : Uid} (h : newestRank c i = newestRank d j) : i = j := by
  have hpair := toLex.injective h
  rw [Prod.mk.injEq] at hpair
  exact OrderDual.toDual_inj.mp hpair.2

/-- The life that `public_state` reports is one that is newer than the
others of its player. -/
theorem newestLife_eq {σ : Ledger} {l : Life} (hl : l ∈ σ.lives)
    (hnewest : ∀ l' ∈ σ.lives, l'.playerId = l.playerId → l' ≠ l →
      l'.createdAt < l.createdAt) : σ.newestLife l.playerId = some l := by
  have hmem : l ∈ σ.lives.select (fun l' => l'.playerId = l.playerId) :=
    Table.mem_select.mpr ⟨hl, decide_eq_true rfl⟩
  refine Table.first_eq_some (k := fun l => newestRank l.createdAt l.id)
    (fun _ _ => newestRank_lt) hmem fun l' hl' hne => ?_
  obtain ⟨hl', hplayer⟩ := Table.mem_select.mp hl'
  have hlt := hnewest l' hl' (of_decide_eq_true hplayer) hne
  exact newestRank_lt.mp (by rw [decide_eq_true hlt, Bool.true_or])

/-! ## The entries behind the lives -/

/-- An open life is funded and its player has not left, and the entry of a
refunded life is empty. -/
structure Funded (σ : Ledger) : Prop where
  funded : ∀ l ∈ σ.lives, l.status.open = true →
    ∃ e ∈ σ.entries, e.id = l.entryId ∧ e.status = .paid ∧ 0 < e.remaining
  staying : ∀ l ∈ σ.lives, l.status.open = true →
    ∃ p ∈ σ.participants, p.id = l.playerId ∧ p.leaveState ≠ .left
  refunded : ∀ l ∈ σ.lives, l.status = .refunded →
    ∃ e ∈ σ.entries, e.id = l.entryId ∧ e.status = .paid ∧ e.remaining = 0

namespace Funded

variable {σ σ' : Ledger}

theorem empty : Funded Ledger.empty where
  funded := fun _ hl => absurd hl (Table.not_mem_empty _)
  staying := fun _ hl => absurd hl (Table.not_mem_empty _)
  refunded := fun _ hl => absurd hl (Table.not_mem_empty _)

/-- A transaction that keeps the paid entries, makes no player leave, and
opens or refunds no life. -/
theorem frame (h : Funded σ)
    (hentries : ∀ e ∈ σ.entries, e.status = .paid → e ∈ σ'.entries)
    (hplayers : ∀ p ∈ σ.participants, ∃ p' ∈ σ'.participants, p'.id = p.id
      ∧ (p'.leaveState = .left → p.leaveState = .left))
    (hlives : ∀ l' ∈ σ'.lives, ∃ l ∈ σ.lives, l'.entryId = l.entryId ∧ l'.playerId = l.playerId
      ∧ (l'.status.open = true → l.status.open = true)
      ∧ (l'.status = .refunded → l.status = .refunded)) : Funded σ' where
  funded := by
    intro l' hl' ho
    obtain ⟨l, hl, he, -, hopen, -⟩ := hlives l' hl'
    obtain ⟨e, hmem, hid, hpaid, hpos⟩ := h.funded l hl (hopen ho)
    exact ⟨e, hentries e hmem hpaid, hid.trans he.symm, hpaid, hpos⟩
  staying := by
    intro l' hl' ho
    obtain ⟨l, hl, -, hp, hopen, -⟩ := hlives l' hl'
    obtain ⟨p, hmem, hid, hstay⟩ := h.staying l hl (hopen ho)
    obtain ⟨p', hmem', hid', hleft⟩ := hplayers p hmem
    exact ⟨p', hmem', by rw [hid', hid, hp], fun hl => hstay (hleft hl)⟩
  refunded := by
    intro l' hl' hr
    obtain ⟨l, hl, he, -, -, href⟩ := hlives l' hl'
    obtain ⟨e, hmem, hid, hpaid, hzero⟩ := h.refunded l hl (href hr)
    exact ⟨e, hentries e hmem hpaid, hid.trans he.symm, hpaid, hzero⟩

private theorem sameLives {t t' : Table Life} (h : t' = t) : ∀ l' ∈ t', ∃ l ∈ t,
    l'.entryId = l.entryId ∧ l'.playerId = l.playerId
      ∧ (l'.status.open = true → l.status.open = true)
      ∧ (l'.status = .refunded → l.status = .refunded) :=
  fun l hl => ⟨l, h ▸ hl, rfl, rfl, fun h => h, fun h => h⟩

private theorem samePlayers {t t' : Table Participant} (h : t' = t) : ∀ p ∈ t, ∃ p' ∈ t',
    p'.id = p.id ∧ (p'.leaveState = .left → p.leaveState = .left) :=
  fun p hp => ⟨p, h ▸ hp, rfl, fun h => h⟩

/-- A transaction that writes other tables only. -/
theorem frame_eq (h : Funded σ) (hplayers : σ'.participants = σ.participants)
    (hentries : σ'.entries = σ.entries) (hlives : σ'.lives = σ.lives) : Funded σ' :=
  h.frame (fun _ he _ => hentries ▸ he) (samePlayers hplayers) (sameLives hlives)

/-- A death charges the entry of the only open life of its player. -/
theorem spent (h : Funded σ) (hacc : Accounts σ) (hex : Exclusive σ.lives) (env : Env)
    {entry : Entry} {victim : Life} (killerId : Uid) (hentry : entry ∈ σ.entries)
    (hvictim : victim ∈ σ.lives) (hof : victim.entryId = entry.id)
    (halive : victim.status ≠ .dead) (hpos : 0 < entry.remaining) :
    Funded (σ.spent env entry victim killerId) := by
  have hvopen : victim.status.open = true := by
    cases hs : victim.status with
    | alive => rfl
    | left => rfl
    | dead => exact absurd hs halive
    | refunded =>
      -- The entry of a refunded life is empty, so it cannot be charged.
      obtain ⟨e, he, hid, -, hzero⟩ := h.refunded victim hvictim hs
      obtain rfl : e = entry := Table.mem_inj he hentry (hid.trans hof)
      omega
  -- Every life that is not the victim, but was open or refunded, has another
  -- entry than the victim.
  have hlives : ∀ l' ∈ (σ.spent env entry victim killerId).lives, l'.status ≠ .dead →
      l' ∈ σ.lives ∧ l'.id ≠ victim.id := by
    intro l' hl' hne
    rcases (Table.mem_updateKey).mp hl' with hl | ⟨v, -, -, rfl⟩
    · exact hl
    · exact absurd rfl hne
  have hkeep : ∀ e ∈ σ.entries, e.id ≠ entry.id →
    e ∈ (σ.spent env entry victim killerId).entries :=
    fun e he hid => (Table.mem_updateKey).mpr (Or.inl ⟨he, hid⟩)
  refine ⟨?_, ?_, ?_⟩
  · intro l hl ho
    obtain ⟨hl, hid⟩ := hlives l hl (fun hd => by simp [hd, LifeStatus.open] at ho)
    obtain ⟨e, he, heid, hpaid, hrest⟩ := h.funded l hl ho
    refine ⟨e, hkeep e he fun hsame => ?_, heid, hpaid, hrest⟩
    have hplayer : l.playerId = victim.playerId := by
      rw [← hacc.lifeEntry hl he heid, ← hacc.lifeEntry hvictim he (hsame.trans hof.symm)]
    exact hid (congrArg Life.id (hex.one l hl victim hvictim hplayer ho hvopen))
  · intro l hl ho
    exact h.staying l (hlives l hl (fun hd => by simp [hd, LifeStatus.open] at ho)).1 ho
  · intro l hl hr
    obtain ⟨hl, -⟩ := hlives l hl (fun hd => by simp [hd] at hr)
    obtain ⟨e, he, heid, hpaid, hzero⟩ := h.refunded l hl hr
    refine ⟨e, hkeep e he fun hsame => ?_, heid, hpaid, hzero⟩
    obtain rfl : e = entry := Table.mem_inj he hentry hsame
    omega

theorem consumeDeath (h : Funded σ) (hacc : Accounts σ) (hex : Exclusive σ.lives) {env : Env}
    {runId victimId killerId arenaId : Uid} {sequence : Int}
    (hrun : consumeDeath env runId sequence victimId killerId σ = .ok (arenaId, σ')) :
    Funded σ' := by
  obtain ⟨run, -, -, row, -, ⟨-, rfl⟩ | ⟨-, victim, hvictim, -, -, σ₂, hσ₂, rfl⟩⟩ :=
    consumeDeath_ok hrun
  · exact h.frame_eq rfl rfl rfl
  · obtain ⟨-, rfl⟩ | ⟨halive, entry, hentry, hpos, hpaid⟩ := hσ₂
    · exact h.frame_eq rfl rfl rfl
    · obtain ⟨hentry, hof⟩ := Table.get?_eq_some.mp hentry
      have h₁ : Funded (σ.bumpArena run.arenaId) := h.frame_eq rfl rfl rfl
      have hacc₁ : Accounts (σ.bumpArena run.arenaId) := hacc.frame_eq rfl rfl rfl rfl
      have h₂ := h₁.spent hacc₁ hex env killerId hentry (Table.mem_of_get? hvictim) hof.symm
        halive hpos
      rw [hpaid.only]
      exact h₂.frame_eq rfl rfl rfl

/-- A leave empties every entry of the player, and closes every open life of
the player. -/
theorem finishLeave (h : Funded σ) (hacc : Accounts σ) {env : Env} {playerId revokedRun : Uid}
    (hrun : finishLeave env playerId revokedRun σ = .ok σ') : Funded σ' := by
  obtain ⟨player, -, row, -, ⟨-, rfl⟩ | ⟨-, -, σ₂, hrefunds, rfl⟩⟩ := finishLeave_ok hrun
  · exact h.frame_eq rfl rfl rfl
  · have hσ₂ := refundEntries_entries (fun e he => ?_) hrefunds
    swap
    · have hsel := (Table.mem_select.mp he).2
      simp only [Bool.and_eq_true, decide_eq_true_eq] at hsel
      exact ⟨hsel.1.2, hsel.2⟩
    rw [hσ₂]
    set ids := (σ.entries.select
      (fun e => e.playerId = playerId && e.status = .paid && 0 < e.remaining)).map Entry.id
    have hids : ∀ e ∈ σ.entries, e.id ∈ ids → e.playerId = playerId := by
      intro e he hid
      obtain ⟨e', he', hid'⟩ := List.mem_map.mp hid
      obtain ⟨hmem, hsel⟩ := Table.mem_select.mp he'
      obtain rfl : e' = e := Table.mem_inj hmem he hid'
      simp only [Bool.and_eq_true, decide_eq_true_eq] at hsel
      exact hsel.1.1
    refine ⟨?_, ?_, ?_⟩
    · intro l' hl' ho
      obtain ⟨l, hl, rfl⟩ := (Table.mem_update).mp hl'
      split_ifs at ho ⊢ with hc
      · cases ho
      · obtain ⟨e, he, hid, hpaid, hpos⟩ := h.funded l hl ho
        refine ⟨e, (Table.mem_update).mpr ⟨e, he, ?_⟩, hid, hpaid, hpos⟩
        rw [if_neg]
        intro hmem
        have := hids e he (of_decide_eq_true hmem)
        exact hc (by simp [← hacc.lifeEntry hl he hid, this, ho])
    · intro l' hl' ho
      obtain ⟨l, hl, rfl⟩ := (Table.mem_update).mp hl'
      split_ifs at ho ⊢ with hc
      · cases ho
      · obtain ⟨p, hp, hid, hstay⟩ := h.staying l hl ho
        refine ⟨p, (Table.mem_updateKey).mpr (Or.inl ⟨hp, fun hk => hc ?_⟩), hid, hstay⟩
        have : l.playerId = playerId := hid.symm.trans hk
        simp [this, ho]
    · intro l' hl' hr
      obtain ⟨l, hl, rfl⟩ := (Table.mem_update).mp hl'
      split_ifs at hr ⊢ with hc
      · simp only [Bool.and_eq_true, decide_eq_true_eq] at hc
        obtain ⟨e, he, hid, hpaid, hpos⟩ := h.funded l hl hc.2
        have hmem : e.id ∈ ids := List.mem_map_of_mem (Table.mem_select.mpr
          ⟨he, by simp [hacc.lifeEntry hl he hid, hc.1, hpaid, hpos]⟩)
        refine ⟨emptied e, (Table.mem_update).mpr ⟨e, he, ?_⟩, hid, hpaid, rfl⟩
        rw [if_pos (decide_eq_true hmem)]
      · obtain ⟨e, he, hid, hpaid, hzero⟩ := h.refunded l hl hr
        refine ⟨_, (Table.mem_update).mpr ⟨e, he, rfl⟩, ?_⟩
        split_ifs
        · exact ⟨hid, hpaid, rfl⟩
        · exact ⟨hid, hpaid, hzero⟩

theorem allocateLife (h : Funded σ) {env : Env} {arenaId token runId : Uid} {life : Life}
    (hrun : allocateLife env arenaId token runId σ = .ok (life, σ')) : Funded σ' := by
  obtain ⟨row, -, -, -, -, player, hplayer, -, -, hstay, hadm⟩ := allocateLife_ok hrun
  cases hadm with
  | again _ _ _ _ eq =>
    subst eq
    exact h.frame_eq rfl rfl rfl
  | resume old current _ _ _ slot _ _ ledger =>
    subst ledger
    obtain ⟨hold, -, hopen⟩ := currentLife_mem current
    refine h.frame (fun _ he _ => he) (samePlayers rfl) fun l' hl' => ?_
    rcases (Table.mem_updateKey).mp hl' with ⟨hl, -⟩ | ⟨o, ho, hid, rfl⟩
    · exact ⟨l', hl, rfl, rfl, fun h => h, fun h => h⟩
    · rw [Table.mem_inj ho hold hid]
      exact ⟨old, hold, rfl, rfl, fun _ => hopen, fun h => by cases h⟩
  | new _ entry funded slot _ eq lives insert ledger =>
    obtain ⟨hentry, -, hpaid, hpos⟩ := fundedEntry_mem funded
    have hlife : life.status = .alive ∧ life.entryId = entry.id ∧ life.playerId = player.id := by
      rw [eq]
      exact ⟨rfl, rfl, rfl⟩
    subst ledger
    have hlives : ∀ l ∈ lives, l ∈ σ.lives ∨ l = life := fun l => (Table.mem_insert? insert).mp
    refine ⟨fun l hl ho => ?_, fun l hl ho => ?_, fun l hl hr => ?_⟩
    · rcases hlives l hl with hl | rfl
      · exact h.funded l hl ho
      · exact ⟨entry, hentry, hlife.2.1.symm, hpaid, hpos⟩
    · rcases hlives l hl with hl | rfl
      · exact h.staying l hl ho
      · exact ⟨player, hplayer, hlife.2.2.symm, by simp [hstay]⟩
    · rcases hlives l hl with hl | rfl
      · exact h.refunded l hl hr
      · rw [hlife.1] at hr
        cases hr

/-- Every transaction keeps the open lives funded. -/
theorem step (h : Funded σ) (hacc : Accounts σ) (hex : Exclusive σ.lives) {env : Env}
    {a : Action} (hrun : perform env a σ = .ok σ') : Funded σ' := by
  cases perform_effect hrun with
  | other participants entries lives _ => exact h.frame_eq participants entries lives
  | reserve _ _ _ _ _ run =>
    obtain ⟨_, -, -, ⟨-, -, rfl⟩ | ⟨-, _, _, _, _, -, hplayer, -, -, hins, rfl⟩⟩ :=
      reserveEntry_ok run
    · exact h.frame_eq rfl rfl rfl
    · refine h.frame (fun e he _ => (Table.mem_insert? hins).mpr (Or.inl he)) (fun p hp => ?_)
        (sameLives rfl)
      cases hplayer with
      | known _ _ _ _ _ _ _ same => exact samePlayers same p hp
      | new _ _ _ _ _ _ insert =>
        exact ⟨p, (Table.mem_insert? insert).mpr (Or.inl hp), rfl, fun h => h⟩
  | invoice _ _ run =>
    obtain rfl | ⟨entry, hget, hcreating, -, -, rfl⟩ := recordInvoice_ok run
    · exact h
    · refine h.frame (fun e he hpaid => ?_) (samePlayers rfl) (sameLives rfl)
      refine (Table.mem_updateKey).mpr (Or.inl ⟨he, fun hid => ?_⟩)
      obtain ⟨hentry, hkey⟩ := Table.get?_eq_some.mp hget
      rw [Table.mem_inj he hentry (hid.trans hkey.symm), hcreating] at hpaid
      cases hpaid
  | settle _ _ run =>
    refine h.frame (fun e he hpaid => settleEntry_paid run he hpaid) (fun p hp => ?_)
      (sameLives (settleEntry_lives run))
    obtain ⟨p', hp', hv⟩ := (settleEntry_participants run).exists_new hp
    simp only [Prod.mk.injEq] at hv
    exact ⟨p', hp', hv.1, fun hl => hv.2 ▸ hl⟩
  | death _ _ _ _ _ run => exact h.consumeDeath hacc hex run
  | allocate _ _ _ _ run => exact h.allocateLife run
  | request _ _ _ run =>
    obtain ⟨p, hp, -, -, ⟨-, -, rfl⟩ | ⟨hstay, -, -, rfl⟩⟩ := requestLeave_ok run
    · exact h.frame_eq rfl rfl rfl
    · refine h.frame (fun _ he _ => he) (fun q hq => ?_) (sameLives rfl)
      by_cases hid : q.id = p.id
      · refine ⟨_, (Table.mem_updateKey).mpr (Or.inr ⟨q, hq, hid, rfl⟩), rfl, fun hl => ?_⟩
        cases hl
      · exact ⟨q, (Table.mem_updateKey).mpr (Or.inl ⟨hq, hid⟩), rfl, fun h => h⟩
  | finish _ _ run => exact h.finishLeave hacc run
  | release runId participants entries lives _ =>
    refine h.frame (fun e he _ => entries ▸ he) (samePlayers participants) fun l' hl' => ?_
    rw [lives] at hl'
    obtain ⟨l, hl, rfl⟩ := (Table.mem_update).mp hl'
    refine ⟨l, hl, ?_⟩
    split_ifs with hc
    · simp only [Bool.and_eq_true, decide_eq_true_eq] at hc
      exact ⟨rfl, rfl, fun _ => LifeStatus.open_of_alive hc.2, fun h => by cases h⟩
    · exact ⟨rfl, rfl, fun h => h, fun h => h⟩
  | renew participants entries lives _ =>
    refine h.frame (fun e he _ => entries ▸ he) (samePlayers participants) fun l' hl' => ?_
    obtain ⟨l, hl, hv⟩ := lives.exists_old hl'
    simp only [Life.still, Life.mk.injEq] at hv
    obtain ⟨-, -, hp, he, -, hs, -⟩ := hv
    exact ⟨l, hl, he.symm, hp.symm, fun h => hs ▸ h, fun h => hs ▸ h⟩

end Funded

end QuakeJs
