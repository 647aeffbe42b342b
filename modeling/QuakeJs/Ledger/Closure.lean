import QuakeJs.Ledger.Display
import QuakeJs.Ledger.Queue

/-!
# Arenas that their owner has closed

`Shut` holds from `close_game` on, for ever.  A shut arena admits nobody,
sells nothing and keeps no lease, and it is not on the list.  Its rows stay
where they are, for the payout worker to go on with.
-/

namespace QuakeJs

open Ledger

/-- The owner has closed the arena. -/
def Shut (arenaId : Uid) (σ : Ledger) : Prop :=
  ∃ b ∈ σ.arenas, b.id = arenaId ∧ b.active = false ∧ b.lobbyHidden = true ∧ b.adminClosed = true

section

variable {env : Env} {a : Action} {σ σ' : Ledger} {arenaId : Uid}

theorem closeGame_shut {owner : Uid} (hrun : perform env (.closeGame arenaId owner) σ = .ok σ') :
    Shut arenaId σ' := by
  obtain ⟨row, hrow, -, rfl⟩ := closeGame_ok hrun
  obtain ⟨hmem, hid⟩ := Table.get?_eq_some.mp hrow
  refine ⟨_, (Table.mem_updateKey).mpr (.inr ⟨{ row with revision := row.revision + 1 }, ?_, hid,
    rfl⟩), hid, rfl, rfl, rfl⟩
  exact (Table.mem_updateKey).mpr (.inr ⟨row, hmem, hid, rfl⟩)

/-- No transaction opens the arena again: a late payment asks for
`admin_closed=0`. -/
theorem Shut.step (h : Shut arenaId σ) (hrun : perform env a σ = .ok σ') : Shut arenaId σ' := by
  obtain ⟨b, hb, hid, hactive, hhidden, hclosed⟩ := h
  obtain ⟨b', hb', hkey, hturn⟩ := (perform_arenas hrun).old b hb
  have hlisting : ∀ {r : Uid × Uid × Bool × Bool × Bool}, listing b' = r →
    r.2.2 = (false, true, true) →
      b'.active = false ∧ b'.lobbyHidden = true ∧ b'.adminClosed = true := by
    rintro r rfl heq
    simpa [listing] using heq
  refine ⟨b', hb', Eq.trans hkey hid, ?_⟩
  cases hturn with
  | kept same => exact hlisting same (by simp [listing, hactive, hhidden, hclosed])
  | relisted _ _ allowed _ =>
    rw [hclosed] at allowed
    cases allowed
  | expired _ _ _ unlisted => exact hlisting unlisted (by simp [hclosed])
  | closed _ unlisted => exact hlisting unlisted rfl

theorem Shut.get (h : Shut arenaId σ) {b : Arena} (hget : σ.arenas.get? arenaId = some b) :
    b.active = false ∧ b.lobbyHidden = true := by
  obtain ⟨b₀, hb₀, hid, hactive, hhidden, -⟩ := h
  obtain ⟨hb, hkey⟩ := Table.get?_eq_some.mp hget
  obtain rfl : b₀ = b := Table.mem_inj hb₀ hb (hid.trans hkey.symm)
  exact ⟨hactive, hhidden⟩

theorem Shut.inactive (h : Shut arenaId σ) :
    (σ.arenas.get? arenaId).map Arena.active = some false := by
  obtain ⟨b, hb, rfl, hactive, -⟩ := h
  have hget : σ.arenas.get? b.id = some b := Table.get?_key hb
  rw [hget, Option.map_some, hactive]

/-! ## What a shut arena refuses -/

/-- A transaction that needs an active arena does not succeed. -/
theorem Shut.refuses (h : Shut arenaId σ) {P : Arena → Prop}
    (hneeds : ∃ row, σ.arenas.get? arenaId = some row ∧ row.active = true ∧ P row) : False := by
  obtain ⟨row, hrow, hactive, -⟩ := hneeds
  rw [(h.get hrow).1] at hactive
  cases hactive

theorem Shut.allocateLife (h : Shut arenaId σ) {token runId : Uid} {life : Life} :
    Ledger.allocateLife env arenaId token runId σ ≠ .ok (life, σ') :=
  fun hrun => h.refuses (allocateLife_ok hrun)

theorem Shut.reserveEntry (h : Shut arenaId σ) {token : String} {data : EntryInput}
    {r : Entry × Bool} : Ledger.reserveEntry env arenaId token data σ ≠ .ok (r, σ') := by
  obtain ⟨entry, new⟩ := r
  exact fun hrun => h.refuses (reserveEntry_ok hrun)

theorem Shut.renewLease (h : Shut arenaId σ) {worker runId : Uid} {connected : List Uid} :
    Ledger.renewLease env worker arenaId runId connected σ ≠ .ok σ' :=
  fun hrun => h.refuses (renewLease_ok hrun)

theorem Shut.leaseArena (h : Shut arenaId σ) {worker : Uid} {r : Arena × List Run} :
    Ledger.leaseArena env worker arenaId σ ≠ .ok (r, σ') := by
  obtain ⟨arena, oldRuns⟩ := r
  exact fun hrun => h.refuses (leaseArena_ok hrun)

/-! ## What is shown of a shut arena -/

/-- Nothing that could bring a player in. -/
theorem Shut.publicState (h : Shut arenaId σ) {token : String} {state : PublicState}
    (hstate : Ledger.publicState env arenaId token σ = .ok state) :
    state.game.status = .closed ∧ state.canJoin = false ∧
      ∀ session, state.session = some session →
        session.invoice = none ∧ ∀ card, session.player = some card → card.autoAdmit = false := by
  simp only [Ledger.publicState, bind_ok_iff, orRaise_ok_iff, pure_ok_iff] at hstate
  obtain ⟨b, hb, player?, -, rfl⟩ := hstate
  obtain ⟨hactive, -⟩ := h.get hb
  refine ⟨?_, by simp [hactive], fun session hsession => ?_⟩
  · show (if b.active then GameStatus.active else .closed) = .closed
    rw [hactive]
    rfl
  · obtain ⟨player, -, rfl⟩ := Option.map_eq_some_iff.mp hsession
    refine ⟨?_, fun card hcard => ?_⟩
    · have hnone : ∀ e, shownInvoice b e env.now = none := by
        intro e
        unfold shownInvoice
        rw [if_neg fun hshown => ?_]
        rw [hactive] at hshown
        cases hshown.2.2
      exact Option.bind_eq_none_iff.mpr fun e _ => hnone e
    · obtain ⟨e, -, rfl⟩ := Option.map_eq_some_iff.mp hcard
      show autoAdmit _ _ _ _ _ = false
      unfold autoAdmit
      rw [hactive]
      rfl

/-- The lobby does not list the arena. -/
theorem Shut.snapshot (h : Shut arenaId σ) {publicId : String} {page : Nat} {shown : Snapshot}
    (hshown : Ledger.snapshot env publicId page σ = .ok shown) :
    ∀ game ∈ shown.games, game.id ≠ arenaId := by
  simp only [Ledger.snapshot, bind_ok_iff, orRaise_ok_iff, pure_ok_iff] at hshown
  obtain ⟨setting, -, rfl⟩ := hshown
  rintro game hgame rfl
  obtain ⟨b, hb, rfl⟩ := List.mem_map.mp hgame
  have hlisted : b ∈ σ.listed setting.id :=
    List.mem_mergeSort.mp (List.mem_of_mem_drop (List.mem_of_mem_take hb))
  obtain ⟨hmem, hactive⟩ := Table.mem_select.mp hlisted
  have hget : σ.arenas.get? (publicArena b (σ.roster b.id env.now).length).id = some b :=
    Table.get?_key hmem
  simp [(h.get hget).1] at hactive

end

/-- Nobody is admitted to the arena, nothing is sold for it, and its lease is
neither taken nor kept. -/
structure Refuses (arenaId : Uid) (σ : Ledger) : Prop where
  allocateLife : ∀ env token runId life σ',
    Ledger.allocateLife env arenaId token runId σ ≠ .ok (life, σ')
  reserveEntry : ∀ env token data r σ', Ledger.reserveEntry env arenaId token data σ ≠ .ok (r, σ')
  renewLease : ∀ env worker runId connected σ',
    Ledger.renewLease env worker arenaId runId connected σ ≠ .ok σ'
  leaseArena : ∀ env worker r σ', Ledger.leaseArena env worker arenaId σ ≠ .ok (r, σ')

/-- The page of the arena shows no invoice and admits nobody by itself, and no
lobby lists the arena. -/
structure Hidden (arenaId : Uid) (σ : Ledger) : Prop where
  publicState : ∀ env token state, Ledger.publicState env arenaId token σ = .ok state →
    state.game.status = .closed ∧ state.canJoin = false ∧
      ∀ session, state.session = some session →
        session.invoice = none ∧ ∀ card, session.player = some card → card.autoAdmit = false
  snapshot : ∀ env publicId page shown, Ledger.snapshot env publicId page σ = .ok shown →
    ∀ game ∈ shown.games, game.id ≠ arenaId

theorem Shut.refused {arenaId : Uid} {σ : Ledger} (h : Shut arenaId σ) : Refuses arenaId σ where
  allocateLife := fun _ _ _ _ _ => h.allocateLife
  reserveEntry := fun _ _ _ _ _ => h.reserveEntry
  renewLease := fun _ _ _ _ _ => h.renewLease
  leaseArena := fun _ _ _ _ => h.leaseArena

theorem Shut.hidden {arenaId : Uid} {σ : Ledger} (h : Shut arenaId σ) : Hidden arenaId σ where
  publicState := fun _ _ _ hstate => h.publicState hstate
  snapshot := fun _ _ _ _ hshown => h.snapshot hshown

/-! ## The rows that were there -/

/-- What was agreed on when the entry was sold. -/
def Entry.sold (e : Entry) : Entry :=
  { e with status := .creating, paymentHash := none, bolt11 := none, remaining := 0 }

theorem Ledger.EntryTurns.sold {env : Env} {a : Action} {σ : Ledger} {e e' : Entry}
    (h : EntryTurns env a σ e e') : e'.sold = e.sold := by
  cases h <;> rfl

/-- The entries and the rows of the outboxes are still there, with what was
agreed on. -/
structure Remains (σ τ : Ledger) : Prop where
  entries : ∀ e ∈ σ.entries, ∃ e' ∈ τ.entries, e'.sold = e.sold
  outbox : ∀ k, ∀ r ∈ σ.outbox k, ∃ r' ∈ τ.outbox k, terms r' = terms r

theorem Remains.refl (σ : Ledger) : Remains σ σ where
  entries := fun e he => ⟨e, he, rfl⟩
  outbox := fun _ r hr => ⟨r, hr, rfl⟩

theorem Remains.step {env : Env} {a : Action} {σ τ τ' : Ledger} (h : Remains σ τ)
    (hrun : perform env a τ = .ok τ') : Remains σ τ' where
  entries := by
    intro e he
    obtain ⟨e', he', hsold⟩ := h.entries e he
    obtain ⟨e'', he'', -, hturn⟩ := (perform_entries hrun).old e' he'
    exact ⟨e'', he'', hturn.sold.trans hsold⟩
  outbox := by
    intro k r hr
    obtain ⟨r', hr', hterms⟩ := h.outbox k r hr
    obtain ⟨r'', hr'', -, hterms'⟩ := (perform_outboxes hrun k).old r' hr'
    exact ⟨r'', hr'', hterms'.trans hterms⟩

/-- A row that is due waits for the worker. -/
theorem mem_ready {σ : Ledger} {k : Outbox} {r : Payout} {now : Int} (hr : r ∈ σ.outbox k)
    (hdue : r.status.due = true) (hnext : r.nextAttempt ≤ now) (hclaim : r.claimedUntil ≤ now) :
    (k, r) ∈ σ.ready now := by
  have hmem : (k, r) ∈ σ.readyIn now k := by
    refine List.mem_map.mpr ⟨r, Table.mem_select.mpr ⟨hr, ?_⟩, rfl⟩
    simp [hdue, hnext, hclaim]
  unfold ready
  cases k <;> simp [hmem]

/-- The worker claims a row while one is ready. -/
theorem claimPayout_some {env : Env} {σ : Ledger} {c : Outbox × Payout}
    (h : c ∈ σ.ready env.now) :
    ∃ c', (claimPayout env σ).1 = some c' := by
  unfold claimPayout
  cases hfirst : Table.first readyBefore (σ.ready env.now) with
  | none =>
    rw [Table.first_eq_none.mp hfirst] at h
    exact absurd h List.not_mem_nil
  | some c' => exact ⟨_, rfl⟩

/-- The worker finds every row that is due once its time has come, it claims
one of those that it finds, and nobody else writes them. -/
structure Claimable (σ : Ledger) : Prop where
  ready : ∀ k, ∀ r ∈ σ.outbox k, r.status.due = true → ∀ now, r.nextAttempt ≤ now →
    r.claimedUntil ≤ now → (k, r) ∈ σ.ready now
  claims : ∀ env c, c ∈ σ.ready env.now → ∃ c', (claimPayout env σ).1 = some c'
  kept : ∀ env a σ', Env.Fresh env σ → a.ofGame = true → perform env a σ = .ok σ' →
    ∀ k, ∀ r ∈ σ.outbox k, r ∈ σ'.outbox k

theorem claimable (σ : Ledger) : Claimable σ where
  ready := fun _ _ hr hdue _ hnext hclaim => mem_ready hr hdue hnext hclaim
  claims := fun _ _ hc => claimPayout_some hc
  kept := fun _ _ _ hfresh hgame hrun => (perform_grows hgame hfresh hrun).kept

end QuakeJs
