import QuakeJs.Ledger.Turns

/-!
# One session, one open invoice

A token has one session in an arena, a nonce has one entry in a session, and
a session has one open invoice at a time.  `Booked` says so, and the last
part gives what `reserve_entry` returns in these terms.
-/

namespace QuakeJs

open Ledger

namespace Ledger

/-! ## Players -/

/-- Only the address and the leave of a player are ever written. -/
theorem PlayerTurns.session {a : Action} {p p' : Participant} (h : PlayerTurns a p p') :
    p'.id = p.id ∧ p'.arenaId = p.arenaId ∧ p'.tokenHash = p.tokenHash := by
  cases h <;> exact ⟨rfl, rfl, rfl⟩

/-- The session behind the result of `reserve_entry`: it was there, or the
token had none in this arena. -/
inductive Seats (env : Env) (arenaId token : Uid) (σ σ' : Ledger) (playerId : Uid) : Prop
  | known (p : Participant) (mem : p ∈ σ.participants) (id : p.id = playerId)
      (arena : p.arenaId = arenaId) (token : p.tokenHash = env.sha256 token)
      (same : σ'.participants = σ.participants)
  | new (p : Participant) (id : p.id = playerId) (arena : p.arenaId = arenaId)
      (token : p.tokenHash = env.sha256 token)
      (vacant : ∀ q ∈ σ.participants, ¬(q.arenaId = p.arenaId ∧ q.tokenHash = p.tokenHash))
      (insert : σ.participants.insert? p = some σ'.participants)

theorem insertEntry_seats {σ σ' : Ledger} {env : Env} {arena : Arena} {token : String}
    {data : EntryInput} {player? : Option Participant} {entry : Entry}
    (h : insertEntry env arena token data player? σ = .ok (entry, σ'))
    (hplayer : ∀ p, player? = some p →
      p ∈ σ.participants ∧ p.arenaId = arena.id ∧ p.tokenHash = env.sha256 token) :
    Seats env arena.id token σ σ' entry.playerId := by
  simp only [insertEntry, bind_ok_iff, require_ok_iff, orRaise_ok_iff, pure_ok_iff, Prod.exists,
    Prod.mk.injEq] at h
  obtain ⟨_, _, playerId, σ₁, hins, _, _, entries, _, rfl, rfl⟩ := h
  cases player? with
  | some p =>
    simp only [insertParticipant, pure_ok_iff, Prod.mk.injEq] at hins
    obtain ⟨rfl, rfl⟩ := hins
    obtain ⟨hmem, harena, htoken⟩ := hplayer p rfl
    exact .known p hmem rfl harena htoken rfl
  | none =>
    simp only [insertParticipant, tokenHash, bind_ok_iff, require_ok_iff, orRaise_ok_iff,
      pure_ok_iff, Prod.mk.injEq, Table.any_eq_false] at hins
    obtain ⟨_, ⟨_, _, rfl⟩, _, hvacant, participants, hrows, rfl, rfl⟩ := hins
    exact .new _ rfl rfl rfl (fun q hq => by simpa using hvacant q hq) hrows

theorem reserveEntry_seats {σ σ' : Ledger} {env : Env} {arenaId token : String}
    {data : EntryInput} {entry : Entry} {new : Bool}
    (h : reserveEntry env arenaId token data σ = .ok ((entry, new), σ')) :
    Seats env arenaId token σ σ' entry.playerId := by
  simp only [reserveEntry, bind_ok_iff, require_ok_iff, orRaise_ok_iff, Prod.exists] at h
  obtain ⟨arena, σ₁, hlock, setting, _, _, _, player?, hplayer, h⟩ := h
  obtain ⟨rfl, row, hrow, rfl, -⟩ := lockArena_ok hlock
  obtain rfl : row.id = arenaId := Table.key_of_get? hrow
  cases player? with
  | none =>
    simp only [bind_ok_iff, pure_ok_iff, Prod.exists, Prod.mk.injEq] at h
    obtain ⟨entry, σ₂, hins, ⟨rfl, rfl⟩, rfl⟩ := h
    cases insertEntry_seats hins (fun _ hnone => by cases hnone) with
    | known p mem id arena token same => exact .known p mem id arena token same
    | new p id arena token vacant insert => exact .new p id arena token vacant insert
  | some player =>
    obtain ⟨hmem, harena, htoken⟩ := participant_ok hplayer
    -- An entry that exists is one of this player.
    have hexisting : ∀ {q : Entry → Bool}, (∀ e, q e = true → e.playerId = player.id) →
        ∀ {e : Entry}, ((σ.bumpArena row.id).entries.select q).head? = some e →
          Seats env row.id token σ (σ.bumpArena row.id) e.playerId := by
      intro q hq e he
      have howner := hq e (Table.mem_select.mp (List.mem_of_head? he)).2
      exact .known player hmem howner.symm harena htoken rfl
    simp only [bind_ok_iff, require_ok_iff] at h
    obtain ⟨_, -, h⟩ := h
    split at h
    · rename_i existing hex
      simp only [pure_ok_iff, Prod.mk.injEq] at h
      obtain ⟨⟨rfl, rfl⟩, rfl⟩ := h
      exact hexisting (fun e he => by simp at he; exact he.1) hex
    · simp only [bind_ok_iff, require_ok_iff] at h
      obtain ⟨_, -, h⟩ := h
      split at h
      · rename_i existing hex
        simp only [pure_ok_iff, Prod.mk.injEq] at h
        obtain ⟨⟨rfl, rfl⟩, rfl⟩ := h
        exact hexisting (fun e he => by simp at he; exact he.1.1) hex
      · simp only [bind_ok_iff, pure_ok_iff, Prod.exists, Prod.mk.injEq] at h
        obtain ⟨entry, σ₂, hins, ⟨rfl, rfl⟩, rfl⟩ := h
        have hknown : ∀ p, some player = some p → p ∈ (σ.bumpArena row.id).participants
            ∧ p.arenaId = row.id ∧ p.tokenHash = env.sha256 token := by
          rintro p ⟨rfl⟩
          exact ⟨hmem, harena, htoken⟩
        cases insertEntry_seats hins hknown with
        | known p mem id arena token same => exact .known p mem id arena token same
        | new p id arena token vacant insert => exact .new p id arena token vacant insert

/-- The session is there afterwards. -/
theorem Seats.mem {env : Env} {arenaId token playerId : Uid} {σ σ' : Ledger}
    (h : Seats env arenaId token σ σ' playerId) :
    ∃ p ∈ σ'.participants, p.id = playerId ∧ p.arenaId = arenaId
      ∧ p.tokenHash = env.sha256 token := by
  cases h with
  | known p mem id arena token same => exact ⟨p, same ▸ mem, id, arena, token⟩
  | new p id arena token _ insert =>
    exact ⟨p, (Table.mem_insert? insert).mpr (.inr rfl), id, arena, token⟩

end Ledger

/-! ## The invariant -/

/-- Nobody has paid the invoice of the entry yet, and it has not expired. -/
def Entry.OpenAt (now : Int) (e : Entry) : Prop := e.status.unsettled = true ∧ now < e.expiresAt

instance (now : Int) (e : Entry) : Decidable (e.OpenAt now) :=
  inferInstanceAs (Decidable (_ ∧ _))

theorem Entry.OpenAt.mono {now now' : Int} {e : Entry} (h : e.OpenAt now') (hle : now ≤ now') :
    e.OpenAt now :=
  ⟨h.1, lt_of_le_of_lt hle h.2⟩

/-- The owner, the nonce and the expiry of an entry stay. -/
theorem Ledger.EntryTurns.lasting {env : Env} {a : Action} {σ : Ledger} {e e' : Entry}
    (h : EntryTurns env a σ e e') :
    e'.playerId = e.playerId ∧ e'.nonce = e.nonce ∧ e'.expiresAt = e.expiresAt := by
  cases h <;> exact ⟨rfl, rfl, rfl⟩

/-- What a transaction writes of an entry does not open it again. -/
theorem Ledger.EntryTurns.open {env : Env} {a : Action} {σ : Ledger} {e e' : Entry} {now : Int}
    (h : EntryTurns env a σ e e') (hopen : e'.OpenAt now) : e.OpenAt now := by
  refine ⟨?_, h.lasting.2.2 ▸ hopen.2⟩
  cases h with
  | same => exact hopen.1
  | invoiced _ _ creating _ _ => rw [creating]; rfl
  | credited _ _ _ unsettled _ _ _ _ => exact unsettled
  | returned _ _ _ unsettled _ _ _ _ => exact unsettled
  | charged _ _ _ _ _ _ _ _ _ => exact hopen.1
  | refunded _ _ _ _ _ _ _ => exact hopen.1

/-- A token has one session in an arena, a nonce one entry in a session, and
a session one open entry. -/
structure Booked (now : Int) (σ : Ledger) : Prop where
  token : ∀ p ∈ σ.participants, ∀ q ∈ σ.participants, p.arenaId = q.arenaId →
    p.tokenHash = q.tokenHash → p = q
  nonce : ∀ e ∈ σ.entries, ∀ e' ∈ σ.entries, e.playerId = e'.playerId →
    e.nonce = e'.nonce → e = e'
  openOnce : ∀ e ∈ σ.entries, ∀ e' ∈ σ.entries, e.playerId = e'.playerId → e.OpenAt now →
    e'.OpenAt now → e = e'

namespace Booked

variable {now : Int} {env : Env} {a : Action} {σ σ' : Ledger}

theorem empty (now : Int) : Booked now Ledger.empty where
  token := fun _ hp => absurd hp (Table.not_mem_empty _)
  nonce := fun _ he => absurd he (Table.not_mem_empty _)
  openOnce := fun _ he => absurd he (Table.not_mem_empty _)

/-- Time passes. -/
theorem mono (h : Booked now σ) {now' : Int} (hle : now ≤ now') : Booked now' σ where
  token := h.token
  nonce := h.nonce
  openOnce := fun e he e' he' howner hopen hopen' =>
    h.openOnce e he e' he' howner (hopen.mono hle) (hopen'.mono hle)

/-- A token that has a session in the arena does not get another one. -/
theorem token_step (h : Booked now σ) (hrun : perform env a σ = .ok σ') :
    ∀ p ∈ σ'.participants, ∀ q ∈ σ'.participants, p.arenaId = q.arenaId →
      p.tokenHash = q.tokenHash → p = q := by
  have hturned := perform_players hrun
  -- Sessions that were there before.
  have hold : ∀ p' ∈ σ'.participants, ∀ q' ∈ σ'.participants, p'.arenaId = q'.arenaId →
      p'.tokenHash = q'.tokenHash → ∀ p ∈ σ.participants, p'.id = p.id → ∀ q ∈ σ.participants,
        q'.id = q.id → p' = q' := by
    intro p' hp' q' hq' harena htoken p hp hpid q hq hqid
    obtain ⟨-, hparena, hptoken⟩ := (hturned.at hp hp' hpid).session
    obtain ⟨-, hqarena, hqtoken⟩ := (hturned.at hq hq' hqid).session
    obtain rfl : p = q := h.token p hp q hq (hparena.symm.trans (harena.trans hqarena))
      (hptoken.symm.trans (htoken.trans hqtoken))
    exact Table.mem_inj hp' hq' (hpid.trans hqid.symm)
  by_cases hreserve : ∃ arenaId token data, a = .reserveEntry arenaId token data
  · obtain ⟨arenaId, token, data, rfl⟩ := hreserve
    obtain ⟨⟨entry, new⟩, hreserve⟩ := map_snd_ok hrun
    cases reserveEntry_seats hreserve with
    | known p mem id arena token same =>
      rw [same]
      exact h.token
    | new r id arena token vacant insert =>
      intro p hp q hq harena htoken
      rcases (Table.mem_insert? insert).mp hp with hp₀ | rfl
      · rcases (Table.mem_insert? insert).mp hq with hq₀ | rfl
        · exact h.token p hp₀ q hq₀ harena htoken
        · exact absurd ⟨harena, htoken⟩ (vacant p hp₀)
      · rcases (Table.mem_insert? insert).mp hq with hq₀ | rfl
        · exact absurd ⟨harena.symm, htoken.symm⟩ (vacant q hq₀)
        · rfl
  · -- No other transaction makes a session.
    have hwas : ∀ p' ∈ σ'.participants, ∃ p ∈ σ.participants, p'.id = p.id := by
      intro p' hp'
      rcases hturned.new p' hp' with ⟨p, hp, hid, -⟩ | hnew
      · exact ⟨p, hp, hid⟩
      · obtain ⟨token, data, hcall, -⟩ := hnew.call
        exact absurd ⟨_, token, data, hcall⟩ hreserve
    intro p' hp' q' hq' harena htoken
    obtain ⟨p, hp, hpid⟩ := hwas p' hp'
    obtain ⟨q, hq, hqid⟩ := hwas q' hq'
    exact hold p' hp' q' hq' harena htoken p hp hpid q hq hqid

theorem nonce_step (h : Booked now σ) (hrun : perform env a σ = .ok σ') :
    ∀ e ∈ σ'.entries, ∀ e' ∈ σ'.entries, e.playerId = e'.playerId → e.nonce = e'.nonce →
      e = e' := by
  have hunique := (perform_entries hrun).unique
    (P := fun e e' => e.playerId = e'.playerId ∧ e.nonce = e'.nonce)
    (fun _ _ hP => ⟨hP.1.symm, hP.2.symm⟩) (fun e he e' he' hP => h.nonce e he e' he' hP.1 hP.2)
    ?_ ?_ fun _ _ hnew hnew' => hnew.id.trans hnew'.id.symm
  · exact fun e he e' he' howner hnonce => hunique e he e' he' ⟨howner, hnonce⟩
  · rintro e e₁ e' e₁' hturn hturn' ⟨howner, hnonce⟩
    obtain ⟨hplayer, hn, -⟩ := hturn.lasting
    obtain ⟨hplayer', hn', -⟩ := hturn'.lasting
    exact ⟨by rw [← hplayer, howner, hplayer'], by rw [← hn, hnonce, hn']⟩
  · rintro e₁ hnew e he e₁' hturn ⟨howner, hnonce⟩
    obtain ⟨hplayer, hn, -⟩ := hturn.lasting
    exact hnew.nonce e he ⟨hplayer.symm.trans howner.symm, hn.symm.trans hnonce.symm⟩

end Booked

/-- A new entry goes to a session that holds no lives and has no open entry. -/
theorem Ledger.NewEntry.spent {env : Env} {a : Action} {σ : Ledger} {e : Entry}
    (h : NewEntry env a σ e) (hacc : Accounts σ) (hfresh : env.Fresh σ) :
    σ.remainingOf e.playerId = 0
    ∧ ∀ e' ∈ σ.entries, e'.playerId = e.playerId → ¬e'.OpenAt env.now := by
  rcases h.player with hplayer | ⟨p, -, hid, -, hmay⟩
  · -- A session that is new has no entries.
    have hnone : ∀ e' ∈ σ.entries, e'.playerId ≠ e.playerId := by
      intro e' he' howner
      obtain ⟨p, hp, hpid, -⟩ := hacc.player e' he'
      exact Table.get?_eq_none.mp (hfresh.participants 0) p hp
        (hpid.trans (howner.trans hplayer))
    refine ⟨?_, fun e' he' howner => absurd howner (hnone e' he')⟩
    unfold remainingOf
    rw [Table.sum_congr fun e' he' => if_neg (hnone e' he'), Table.sum_zero]
  · rw [← hid]
    exact ⟨hmay.spent, fun e' he' howner hopen => hmay.noOpen e' he' ⟨howner, hopen.1, hopen.2⟩⟩

/-- Every transaction keeps the books, while the clock does not go back. -/
theorem Booked.step {now : Int} {env : Env} {a : Action} {σ σ' : Ledger} (h : Booked now σ)
    (hacc : Accounts σ) (hfresh : env.Fresh σ) (hle : now ≤ env.now)
    (hrun : perform env a σ = .ok σ') : Booked env.now σ' := by
  refine ⟨h.token_step hrun, h.nonce_step hrun, ?_⟩
  have hunique := (perform_entries hrun).unique
    (P := fun e e' => e.playerId = e'.playerId ∧ e.OpenAt env.now ∧ e'.OpenAt env.now)
    (fun _ _ hP => ⟨hP.1.symm, hP.2.2, hP.2.1⟩)
    (fun e he e' he' hP => (h.mono hle).openOnce e he e' he' hP.1 hP.2.1 hP.2.2)
    ?_ ?_ fun _ _ hnew hnew' => hnew.id.trans hnew'.id.symm
  · exact fun e he e' he' howner hopen hopen' => hunique e he e' he' ⟨howner, hopen, hopen'⟩
  · rintro e e₁ e' e₁' hturn hturn' ⟨howner, hopen, hopen'⟩
    refine ⟨?_, hturn.open hopen, hturn'.open hopen'⟩
    rw [← hturn.lasting.1, howner, hturn'.lasting.1]
  · rintro e₁ hnew e he e₁' hturn ⟨howner, -, hopen⟩
    exact (hnew.spent hacc hfresh).2 e he
      (hturn.lasting.1.symm.trans howner.symm) (hturn.open hopen)

end QuakeJs
