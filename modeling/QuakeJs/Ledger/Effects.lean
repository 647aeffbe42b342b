import QuakeJs.Ledger.Payouts

/-!
# What each transaction does

One inversion lemma for each transaction: from the fact that it committed,
the whole list of what it may have done, guards included.  Every later proof
about the ledger reads these lemmas, and none unfolds a transaction.
-/

namespace QuakeJs.Ledger

/-! ## The shared statements -/

@[simp] theorem setOutbox_outbox (σ : Ledger) (k : Outbox) : σ.setOutbox k (σ.outbox k) = σ := by
  cases k <;> rfl

@[simp] theorem outbox_setOutbox (σ : Ledger) (k : Outbox) (t : Table Payout) :
    (σ.setOutbox k t).outbox k = t := by
  cases k <;> rfl

@[simp] theorem entries_setOutbox (σ : Ledger) (k : Outbox) (t : Table Payout) :
    (σ.setOutbox k t).entries = σ.entries := by
  cases k <;> rfl

@[simp] theorem lives_setOutbox (σ : Ledger) (k : Outbox) (t : Table Payout) :
    (σ.setOutbox k t).lives = σ.lives := by
  cases k <;> rfl

@[simp] theorem participants_setOutbox (σ : Ledger) (k : Outbox) (t : Table Payout) :
    (σ.setOutbox k t).participants = σ.participants := by
  cases k <;> rfl

@[simp] theorem arenas_setOutbox (σ : Ledger) (k : Outbox) (t : Table Payout) :
    (σ.setOutbox k t).arenas = σ.arenas := by
  cases k <;> rfl

@[simp] theorem settings_setOutbox (σ : Ledger) (k : Outbox) (t : Table Payout) :
    (σ.setOutbox k t).settings = σ.settings := by
  cases k <;> rfl

@[simp] theorem runs_setOutbox (σ : Ledger) (k : Outbox) (t : Table Payout) :
    (σ.setOutbox k t).runs = σ.runs := by
  cases k <;> rfl

theorem keepsKey_revision : KeepsKey (fun a : Arena => { a with revision := a.revision + 1 }) :=
  fun _ => rfl

/-- The effect of `lockArena` on the ledger: one revision is bumped. -/
def bumpArena (σ : Ledger) (arenaId : Uid) : Ledger :=
  { σ with
    arenas := σ.arenas.updateKey arenaId (fun a => { a with revision := a.revision + 1 })
      keepsKey_revision }

/-- The ledger after `lock_arena` and a write to the same arena. -/
def writeArena (σ : Ledger) (arenaId : Uid) (f : Arena → Arena) (hf : ∀ a, (f a).id = a.id) :
    Ledger :=
  { σ with arenas := (σ.bumpArena arenaId).arenas.updateKey arenaId f hf }

theorem lockArena_ok {σ σ' : Ledger} {id : Uid} {active : Bool} {arena : Arena}
    (h : σ.lockArena id active = .ok (arena, σ')) :
    σ' = σ.bumpArena id ∧ ∃ row, σ.arenas.get? id = some row
      ∧ arena = { row with revision := row.revision + 1 } ∧
        (active = true → row.active = true) := by
  simp only [lockArena, bind_ok_iff, orRaise_ok_iff, require_ok_iff, pure_ok_iff,
    Prod.mk.injEq] at h
  obtain ⟨row, hrow, _, hactive, rfl, rfl⟩ := h
  exact ⟨rfl, row, hrow, rfl, hactive⟩

theorem participant_ok {σ : Ledger} {env : Env} {arenaId token : String}
    {player : Participant} (h : σ.participant env arenaId token = .ok (some player)) :
    player ∈ σ.participants ∧ player.arenaId = arenaId
      ∧ player.tokenHash = env.sha256 token := by
  simp only [participant, tokenHash, bind_ok_iff, require_ok_iff, pure_ok_iff] at h
  obtain ⟨_, ⟨_, _, rfl⟩, hhead⟩ := h
  have hmem := Table.mem_select.mp (List.mem_of_head? hhead)
  simpa using hmem

/-- An outbox after `insertPayout` holds the new row, and its victim is new. -/
theorem insertPayout_ok {σ σ' : Ledger} {k : Outbox} {row : Payout}
    (h : σ.insertPayout k row = .ok σ') :
    amountOk k row.amount = true ∧ (∀ p ∈ σ.outbox k, p.victimId ≠ row.victimId)
      ∧ ∃ t, (σ.outbox k).insert? row = some t ∧ σ' = σ.setOutbox k t := by
  simp only [insertPayout, bind_ok_iff, require_ok_iff, orRaise_ok_iff, pure_ok_iff,
    Table.any_eq_false] at h
  obtain ⟨_, hamount, _, hvictim, t, ht, rfl⟩ := h
  exact ⟨hamount, by simpa using hvictim, t, ht, rfl⟩

/-- An outbox after `queuePayout`: unchanged when the victim has a row. -/
theorem queuePayout_ok {σ σ' : Ledger} {k : Outbox} {row : Payout}
    (h : σ.queuePayout k row = .ok σ') :
    amountOk k row.amount = true ∧
      ((∃ p ∈ σ.outbox k, p.victimId = row.victimId) ∧ σ' = σ ∨
        (∀ p ∈ σ.outbox k, p.victimId ≠ row.victimId)
          ∧ ∃ t, (σ.outbox k).insert? row = some t ∧ σ' = σ.setOutbox k t) := by
  simp only [queuePayout, bind_ok_iff, require_ok_iff] at h
  obtain ⟨_, hamount, h⟩ := h
  refine ⟨hamount, ?_⟩
  split_ifs at h with hvictim
  · rw [pure_ok_iff] at h
    exact Or.inl ⟨by simpa [Table.any_eq_true] using hvictim, h.symm⟩
  · simp only [bind_ok_iff, orRaise_ok_iff, pure_ok_iff] at h
    obtain ⟨t, ht, rfl⟩ := h
    rw [Bool.not_eq_true, Table.any_eq_false] at hvictim
    exact Or.inr ⟨by simpa using hvictim, t, ht, rfl⟩

/-! ## Settings and arenas -/

theorem saveSettings_ok {σ σ' : Ledger} {env : Env} {owner walletId : String} {enabled : Bool}
    {haircut : Int} {allow : Bool}
    (h : saveSettings env owner walletId enabled haircut allow σ = .ok σ') :
    ∃ settings, σ' = { σ with settings } ∧ 0 ≤ haircut ∧ haircut ≤ maxTotalHaircut
      ∧ ∀ s ∈ settings, s.haircut = haircut ∨ ∃ s' ∈ σ.settings, s'.haircut = s.haircut := by
  simp only [saveSettings, upsertSettings, bind_ok_iff, require_ok_iff, pure_ok_iff] at h
  obtain ⟨_, hfee, t, ht, _, _, rfl⟩ := h
  refine ⟨_, rfl, hfee.1, hfee.2, ?_⟩
  have hold : ∀ s ∈ t, s.haircut = haircut ∨ ∃ s' ∈ σ.settings, s'.haircut = s.haircut := by
    intro s hs
    split at ht
    · rw [pure_ok_iff] at ht
      subst ht
      rcases (Table.mem_updateKey).mp hs with ⟨hs, _⟩ | ⟨_, _, _, rfl⟩
      · exact Or.inr ⟨s, hs, rfl⟩
      · exact Or.inl rfl
    · rw [orRaise_ok_iff] at ht
      rcases (Table.mem_insert? ht).mp hs with hs | rfl
      · exact Or.inr ⟨s, hs, rfl⟩
      · exact Or.inl rfl
  intro s hs
  rcases (Table.mem_updateKey).mp hs with ⟨hs, _⟩ | ⟨s', hs', _, rfl⟩
  · exact hold s hs
  · exact hold s' hs'

theorem createArena_ok {σ σ' : Ledger} {env : Env} {owner : Uid} {data : ArenaInput}
    {arena : Arena} (h : createArena env owner data σ = .ok (arena, σ')) :
    ∃ settings arenas, σ.settings.get? owner = some settings ∧ σ' = { σ with arenas }
      ∧ 0 ≤ settings.haircut ∧ settings.haircut ≤ maxTotalHaircut
      ∧ arena = newArena (env.uid 0) owner settings.walletId data.name data.map data.joinAmount
          settings.haircut env.now
      ∧ σ.arenas.insert? arena = some arenas := by
  simp only [createArena, bind_ok_iff, require_ok_iff, orRaise_ok_iff, pure_ok_iff,
    Prod.mk.injEq] at h
  obtain ⟨settings, hs, _, _, _, hfee, arenas, hins, rfl, rfl⟩ := h
  exact ⟨settings, arenas, hs, rfl, hfee.1, hfee.2, rfl, hins⟩

/-- The row that `createGame` inserts. -/
def gameRow (env : Env) (setting : Settings) (data : PublicArenaInput) : Arena :=
  { newArena (env.uid 0) setting.id setting.walletId data.name data.map data.joinAmount
      setting.haircut env.now with
    isPublic := true
    creatorHaircut := data.creatorHaircut
    creatorLnAddress := data.lnAddress
    publicNonce := some data.nonce
    idleSince := some env.now }

theorem createGame_ok {σ σ' : Ledger} {env : Env} {publicId : String}
    {data : PublicArenaInput} {arena : Arena}
    (h : createGame env publicId data σ = .ok (arena, σ')) :
    ∃ setting ∈ σ.settings, setting.publicId = some publicId ∧ setting.enabled = true
      ∧ (arena ∈ σ.arenas ∧ arena.ownerId = setting.id
            ∧ arena.publicNonce = some data.nonce ∧ σ' = σ ∨
          (∀ a ∈ σ.arenas, ¬(a.ownerId = setting.id ∧ a.publicNonce = some data.nonce))
            ∧ data.creatorHaircut + setting.haircut ≤ maxTotalHaircut
            ∧ (data.creatorHaircut = 0 ∨ data.lnAddress ≠ "")
            ∧ σ.arenas.count (fun a => a.ownerId = setting.id && a.isPublic
                && (a.active || env.now - 3600 < a.createdAt)) < 50
            ∧ arena = gameRow env setting data
            ∧ ∃ arenas, σ.arenas.insert? arena = some arenas ∧ σ' = { σ with arenas }) := by
  simp only [createGame, bind_ok_iff, require_ok_iff, orRaise_ok_iff] at h
  obtain ⟨setting, hhead, _, henabled, h⟩ := h
  have hs := Table.mem_select.mp (List.mem_of_head? hhead)
  refine ⟨setting, hs.1, by simpa using (by simpa using hs.2 : _ ∧ _).1, henabled, ?_⟩
  split at h
  · rename_i existing hex
    rw [pure_ok_iff, Prod.mk.injEq] at h
    obtain ⟨rfl, rfl⟩ := h
    have he := Table.mem_select.mp (List.mem_of_head? hex)
    have hk : existing.ownerId = setting.id ∧ existing.publicNonce = some data.nonce := by
      simpa using he.2
    exact Or.inl ⟨he.1, hk.1, hk.2, rfl⟩
  · rename_i hnone
    simp only [bind_ok_iff, require_ok_iff, orRaise_ok_iff, pure_ok_iff, Prod.mk.injEq] at h
    obtain ⟨_, hfee, _, haddr, _, hcount, arenas, hins, rfl, rfl⟩ := h
    refine Or.inr ⟨?_, hfee, haddr, hcount, rfl, arenas, hins, rfl⟩
    intro a ha hk
    rw [List.head?_eq_none_iff] at hnone
    have : a ∈ σ.arenas.select
        (fun a => a.ownerId = setting.id && a.publicNonce = some data.nonce) :=
      Table.mem_select.mpr ⟨ha, by simpa using hk⟩
    rw [hnone] at this
    exact absurd this List.not_mem_nil

/-! ## Entries -/

/-- The session that `reserveEntry` gives a new entry to: one that exists and
may pay again, or a new one. -/
inductive EntryPlayer (env : Env) (arenaId token : Uid) (data : EntryInput) (σ : Ledger)
    (playerId : Uid) (participants : Table Participant) : Prop
  | known (player : Participant) (mem : player ∈ σ.participants) (id : player.id = playerId)
      (arena : player.arenaId = arenaId) (staying : player.leaveState = .none)
      (spent : σ.remainingOf player.id = 0)
      (noOpen : ∀ e ∈ σ.entries, ¬(e.playerId = player.id ∧ e.status.unsettled = true
        ∧ env.now < e.expiresAt))
      (same : participants = σ.participants)
  | new (row : Participant) (id : row.id = playerId) (fresh : row.id = env.uid 0)
      (arena : row.arenaId = arenaId) (token : row.tokenHash = env.sha256 token)
      (staying : row.leaveState = .none) (insert : σ.participants.insert? row = some participants)

theorem insertEntry_ok {σ σ' : Ledger} {env : Env} {arena : Arena} {token : String}
    {data : EntryInput} {player? : Option Participant} {entry : Entry}
    (h : insertEntry env arena token data player? σ = .ok (entry, σ')) :
    ∃ playerId participants entries,
      (∀ player, player? = some player →
        playerId = player.id ∧ participants = σ.participants)
      ∧ (player? = none → playerId = env.uid 0 ∧ ∃ row : Participant, row.id = env.uid 0
          ∧ row.arenaId = arena.id ∧ row.tokenHash = env.sha256 token ∧ row.leaveState = .none
          ∧ σ.participants.insert? row = some participants)
      ∧ entry = entryRow env arena playerId data
      ∧ (∀ e ∈ σ.entries, ¬(e.playerId = playerId ∧ e.nonce = data.nonce))
      ∧ σ.entries.insert? entry = some entries
      ∧ σ' = { σ with participants, entries } := by
  simp only [insertEntry, bind_ok_iff, require_ok_iff, orRaise_ok_iff, pure_ok_iff, Prod.exists,
    Prod.mk.injEq, Table.any_eq_false] at h
  obtain ⟨_, _, playerId, σ₁, hplayer, _, hnonce, entries, hins, rfl, rfl⟩ := h
  cases player? with
  | some player =>
    simp only [insertParticipant, pure_ok_iff, Prod.mk.injEq] at hplayer
    obtain ⟨rfl, rfl⟩ := hplayer
    exact ⟨player.id, σ.participants, entries, by simp, by simp, rfl, by simpa using hnonce,
      hins, rfl⟩
  | none =>
    simp only [insertParticipant, tokenHash, bind_ok_iff, require_ok_iff, orRaise_ok_iff,
      pure_ok_iff, Prod.mk.injEq] at hplayer
    obtain ⟨_, ⟨_, _, rfl⟩, _, _, participants, hp, rfl, rfl⟩ := hplayer
    exact ⟨env.uid 0, participants, entries, by simp,
      fun _ => ⟨rfl, _, rfl, rfl, rfl, rfl, hp⟩, rfl, by simpa using hnonce, hins, rfl⟩

theorem reserveEntry_ok {σ σ' : Ledger} {env : Env} {arenaId token : String}
    {data : EntryInput} {entry : Entry} {new : Bool}
    (h : reserveEntry env arenaId token data σ = .ok ((entry, new), σ')) :
    ∃ row, σ.arenas.get? arenaId = some row ∧ row.active = true ∧
      (new = false ∧ entry ∈ σ.entries ∧ σ' = σ.bumpArena arenaId ∨
        new = true ∧ ∃ arena playerId participants entries,
          arena = { row with revision := row.revision + 1 }
          ∧ EntryPlayer env arenaId token data σ playerId participants
          ∧ entry = entryRow env arena playerId data
          ∧ (∀ e ∈ σ.entries, ¬(e.playerId = playerId ∧ e.nonce = data.nonce))
          ∧ σ.entries.insert? entry = some entries
          ∧ σ' = { σ.bumpArena arenaId with participants, entries }) := by
  simp only [reserveEntry, bind_ok_iff, require_ok_iff, orRaise_ok_iff, Prod.exists] at h
  obtain ⟨arena, σ₁, hlock, setting, _, _, _, player?, hplayer, h⟩ := h
  obtain ⟨rfl, row, hrow, rfl, hactive⟩ := lockArena_ok hlock
  have hid : row.id = arenaId := Table.key_of_get? hrow
  refine ⟨row, hrow, hactive rfl, ?_⟩
  cases player? with
  | none =>
    simp only [bind_ok_iff, pure_ok_iff, Prod.exists, Prod.mk.injEq] at h
    obtain ⟨entry, σ₂, hins, ⟨rfl, rfl⟩, rfl⟩ := h
    obtain ⟨playerId, participants, entries, -, hnew, rfl, hnonce, hrows, rfl⟩ :=
      insertEntry_ok hins
    obtain ⟨rfl, p, hp, harena, htoken, hstay, hpins⟩ := hnew rfl
    exact Or.inr ⟨rfl, _, _, participants, entries, rfl,
      .new p hp hp (harena.trans hid) htoken hstay hpins, rfl, hnonce, hrows, rfl⟩
  | some player =>
    obtain ⟨hmem, hparena, -⟩ := participant_ok hplayer
    simp only [bind_ok_iff, require_ok_iff] at h
    obtain ⟨_, hstay, h⟩ := h
    split at h
    · rename_i existing hex
      simp only [pure_ok_iff, Prod.mk.injEq] at h
      obtain ⟨⟨rfl, rfl⟩, rfl⟩ := h
      exact Or.inl ⟨rfl, (Table.mem_select.mp (List.mem_of_head? hex)).1, rfl⟩
    · simp only [bind_ok_iff, require_ok_iff] at h
      obtain ⟨_, hspent, h⟩ := h
      split at h
      · rename_i existing hex
        simp only [pure_ok_iff, Prod.mk.injEq] at h
        obtain ⟨⟨rfl, rfl⟩, rfl⟩ := h
        exact Or.inl ⟨rfl, (Table.mem_select.mp (List.mem_of_head? hex)).1, rfl⟩
      · rename_i hopen
        simp only [bind_ok_iff, pure_ok_iff, Prod.exists, Prod.mk.injEq] at h
        obtain ⟨entry, σ₂, hins, ⟨rfl, rfl⟩, rfl⟩ := h
        obtain ⟨playerId, participants, entries, hknown, -, rfl, hnonce, hrows, rfl⟩ :=
          insertEntry_ok hins
        obtain ⟨rfl, rfl⟩ := hknown player rfl
        refine Or.inr ⟨rfl, _, _, _, entries, rfl,
          .known player hmem rfl hparena hstay hspent ?_ rfl, rfl, hnonce, hrows, rfl⟩
        intro e he hk
        rw [List.head?_eq_none_iff] at hopen
        have : e ∈ (σ.bumpArena arenaId).entries.select (fun e => e.playerId = player.id
            && e.status.unsettled && env.now < e.expiresAt) :=
          Table.mem_select.mpr ⟨he, by simpa [and_assoc] using hk⟩
        rw [hopen] at this
        exact absurd this List.not_mem_nil

/-- The entry that `recordInvoice` writes. -/
def invoiced (payment : Payment) (e : Entry) : Entry :=
  { e with
    paymentHash := some payment.paymentHash
    bolt11 := some payment.bolt11
    status := .pending }

theorem recordInvoice_ok {σ σ' : Ledger} {entryId : Uid} {payment : Payment}
    (h : recordInvoice entryId payment σ = .ok σ') :
    σ' = σ ∨ ∃ entry, σ.entries.get? entryId = some entry ∧ entry.status = .creating
      ∧ entry.paymentHash = none ∧ σ.hashTaken entryId payment.paymentHash = false
      ∧ σ' = { σ with
          entries := σ.entries.updateKey entryId (invoiced payment) (fun _ => rfl) } := by
  unfold recordInvoice at h
  split at h
  · rw [pure_ok_iff] at h
    exact Or.inl h.symm
  · rename_i entry hentry
    split_ifs at h with hc
    · simp only [bind_ok_iff, require_ok_iff, pure_ok_iff] at h
      obtain ⟨_, hfree, rfl⟩ := h
      exact Or.inr ⟨entry, hentry, hc.1, hc.2, hfree, rfl⟩
    · rw [pure_ok_iff] at h
      exact Or.inl h.symm

/-- The entry that `creditEntry` writes. -/
def credited (payment : Payment) (e : Entry) : Entry :=
  { e with
    status := .paid
    remaining := 5
    paymentHash := some payment.paymentHash
    bolt11 := some payment.bolt11 }

/-- The ledger after the first write of `creditEntry`. -/
def creditLedger (σ : Ledger) (entry : Entry) (payment : Payment) : Ledger :=
  { σ.bumpArena entry.arenaId with
    entries := σ.entries.updateKey entry.id (credited payment) (fun _ => rfl) }

/-- An arena that a late payment put back on the list. -/
def relisted (env : Env) (a : Arena) : Arena :=
  { a with active := true, lobbyHidden := false, idleSince := some env.now }

/-- A player with the payout address of an entry. -/
def addressed (entry : Entry) (p : Participant) : Participant :=
  { p with lnAddress := entry.lnAddress }

/-- A settled payment of an entry reopens its arena and its payout address. -/
def reopen (σ : Ledger) (env : Env) (entry : Entry) : Ledger :=
  { σ with
    arenas := σ.arenas.update (fun a => a.id = entry.arenaId && !a.adminClosed) (relisted env)
      (fun _ => rfl)
    participants := σ.participants.updateKey entry.playerId (addressed entry) (fun _ => rfl) }

/-- What a settlement does: nothing new for a paid entry, and else the credit
and one of three endings, by the leave state of the player. -/
inductive Credit (env : Env) (payment : Payment) (entry : Entry) (σ σ' : Ledger) : Prop
  | again (paid : entry.status = .paid) (eq : σ' = σ.bumpArena entry.arenaId)
  | first (unsettled : entry.status.unsettled = true)
      (unused : σ.hashTaken entry.id payment.paymentHash = false) (player : Participant)
      (get : σ.participants.get? entry.playerId = some player)
      (staying : player.leaveState = .none → σ' = (σ.creditLedger entry payment).reopen env entry)
      (leaving : player.leaveState = .leaving → σ' = σ.creditLedger entry payment)
      (left : player.leaveState = .left → ∃ row, σ.arenas.get? entry.arenaId = some row
        ∧ refundEntry env 0 { entry with status := .paid, remaining := 5 }
            { row with revision := row.revision + 1 } (σ.creditLedger entry payment) = .ok σ')

theorem creditEntry_ok {σ σ' : Ledger} {env : Env} {payment : Payment} {entry : Entry}
    (h : creditEntry env payment entry σ = .ok σ') :
    payment.walletId = entry.walletId ∧ payment.amount = entry.amount * 1000
      ∧ (truthy entry.paymentHash = true → entry.paymentHash = some payment.paymentHash)
      ∧ Credit env payment entry σ σ' := by
  simp only [creditEntry, bind_ok_iff, require_ok_iff, Prod.exists] at h
  obtain ⟨arena, σ₁, hlock, _, ⟨hwallet, hamount⟩, _, hhash, h⟩ := h
  obtain ⟨rfl, row, hrow, rfl, -⟩ := lockArena_ok hlock
  refine ⟨hwallet, hamount, hhash, ?_⟩
  split_ifs at h with hpaid
  · rw [pure_ok_iff] at h
    exact .again hpaid h.symm
  · simp only [bind_ok_iff, require_ok_iff, orRaise_ok_iff] at h
    obtain ⟨_, hun, _, hfree, player, hplayer, h⟩ := h
    refine .first hun hfree player hplayer ?_ ?_ ?_
    · intro hs
      rw [hs] at h
      exact ((pure_ok_iff _ _).mp h).symm
    · intro hs
      rw [hs] at h
      exact ((pure_ok_iff _ _).mp h).symm
    · intro hs
      rw [hs] at h
      exact ⟨row, hrow, h⟩

theorem settleEntry_ok {σ σ' : Ledger} {env : Env} {payment : Payment} {arena? : Option Uid}
    (h : settleEntry env payment σ = .ok (arena?, σ')) :
    σ' = σ ∨ payment.success = true ∧ payment.isIn = true ∧ payment.tag = some "quakejs"
      ∧ ∃ entry, payment.quakejsEntry = some entry.id ∧ entry ∈ σ.entries
        ∧ payment.walletId = entry.walletId ∧ payment.amount = entry.amount * 1000
        ∧ (truthy entry.paymentHash = true → entry.paymentHash = some payment.paymentHash)
        ∧ Credit env payment entry σ σ' := by
  unfold settleEntry at h
  split_ifs at h with hc
  · rw [pure_ok_iff, Prod.mk.injEq] at h
    exact Or.inl h.2.symm
  · rw [not_or, not_or, Bool.not_eq_false, Bool.not_eq_false, not_not] at hc
    split at h
    · rw [pure_ok_iff, Prod.mk.injEq] at h
      exact Or.inl h.2.symm
    · rename_i entry hentry
      simp only [bind_ok_iff, pure_ok_iff, Prod.mk.injEq] at h
      obtain ⟨_, hcredit, -, rfl⟩ := h
      obtain ⟨id, hid, hget⟩ := Option.bind_eq_some_iff.mp hentry
      obtain ⟨hmem, rfl⟩ := Table.get?_eq_some.mp hget
      exact Or.inr ⟨hc.1, hc.2.1, hc.2.2, entry, hid, hmem, creditEntry_ok hcredit⟩

/-! ## Leaving -/

theorem requestLeave_ok {σ σ' : Ledger} {env : Env} {arenaId token : String}
    {player : Participant} (h : requestLeave env arenaId token σ = .ok (player, σ')) :
    ∃ p ∈ σ.participants, p.arenaId = arenaId ∧ p.tokenHash = env.sha256 token ∧
      (p.leaveState ≠ .none ∧ player = p ∧ σ' = σ.bumpArena arenaId ∨
        p.leaveState = .none ∧ player = { p with leaveState := .leaving }
          ∧ (∃ e ∈ σ.entries, e.playerId = p.id ∧ e.status = .paid)
          ∧ σ' = { σ.bumpArena arenaId with
              participants := σ.participants.updateKey p.id
                (fun p => { p with leaveState := .leaving }) (fun _ => rfl) }) := by
  simp only [requestLeave, bind_ok_iff, orRaise_ok_iff, Prod.exists] at h
  obtain ⟨arena, σ₁, hlock, player?, hplayer, p, rfl, h⟩ := h
  obtain ⟨rfl, -⟩ := lockArena_ok hlock
  obtain ⟨hmem, harena, htoken⟩ := participant_ok hplayer
  refine ⟨p, hmem, harena, htoken, ?_⟩
  split_ifs at h with hs
  · simp only [bind_ok_iff, require_ok_iff, pure_ok_iff, Prod.mk.injEq, Table.any_eq_true] at h
    obtain ⟨_, ⟨e, he, hpaid⟩, rfl, rfl⟩ := h
    exact Or.inr ⟨hs, rfl, ⟨e, he, by simpa using hpaid⟩, rfl⟩
  · simp only [pure_ok_iff, Prod.mk.injEq] at h
    obtain ⟨rfl, rfl⟩ := h
    exact Or.inl ⟨hs, rfl, rfl⟩

/-- `remaining=0`. -/
def emptied (e : Entry) : Entry := { e with remaining := 0 }

/-- A refund queues one row for the entry and, if the share is positive, one
for the creator, and empties the entry. -/
theorem refundEntry_ok {σ σ' : Ledger} {env : Env} {k : Nat} {entry : Entry} {arena : Arena}
    (h : refundEntry env k entry arena σ = .ok σ') :
    (entry.status ≠ .paid ∨ entry.remaining = 0) ∧ σ' = σ ∨
      entry.status = .paid ∧ 0 < entry.remaining
        ∧ (∀ p ∈ σ.refundPayouts, p.victimId ≠ entry.id)
        ∧ 0 ≤ (refundAmounts entry arena).1
        ∧ ∃ refunds fees,
            σ.refundPayouts.insert? (refundRow env k entry arena) = some refunds
            ∧ ((refundAmounts entry arena).2 = 0 ∧ fees = σ.creatorPayouts ∨
                0 < (refundAmounts entry arena).2
                  ∧ (∀ p ∈ σ.creatorPayouts, p.victimId ≠ entry.id)
                  ∧ σ.creatorPayouts.insert? (refundFeeRow env k entry arena) = some fees)
            ∧ σ' = { σ with
                refundPayouts := refunds
                creatorPayouts := fees
                entries := σ.entries.updateKey entry.id emptied (fun _ => rfl) } := by
  unfold refundEntry at h
  split_ifs at h with hc
  · rw [pure_ok_iff] at h
    exact Or.inl ⟨hc, h.symm⟩
  · rw [not_or, not_not] at hc
    simp only [bind_ok_iff, pure_ok_iff] at h
    obtain ⟨σ₁, hrefund, σ₂, hfee, rfl⟩ := h
    obtain ⟨hamount, hvictim, refunds, hins, rfl⟩ := insertPayout_ok hrefund
    refine Or.inr ⟨hc.1, Nat.pos_of_ne_zero hc.2, hvictim, of_decide_eq_true hamount,
      refunds, ?_⟩
    unfold insertFee at hfee
    split_ifs at hfee with hz
    · rw [pure_ok_iff] at hfee
      subst hfee
      exact ⟨σ.creatorPayouts, hins, Or.inl ⟨hz, rfl⟩, rfl⟩
    · obtain ⟨hpos, hfresh, fees, hfees, rfl⟩ := insertPayout_ok hfee
      exact ⟨fees, hins, Or.inr ⟨of_decide_eq_true hpos, hfresh, hfees⟩, rfl⟩

/-- What each refund of a leave keeps, the whole loop keeps. -/
theorem refundEntries_ok {P : Ledger → Prop} {env : Env} {arena : Arena} {entries : List Entry}
    (hstep : ∀ entry ∈ entries, ∀ k σ σ', P σ → refundEntry env k entry arena σ = .ok σ' → P σ')
    {k : Nat} {σ σ' : Ledger} (hP : P σ) (h : refundEntries env arena k entries σ = .ok σ') :
    P σ' := by
  induction entries generalizing k σ with
  | nil =>
    rw [refundEntries, pure_ok_iff] at h
    exact h ▸ hP
  | cons entry rest ih =>
    rw [refundEntries, bind_ok_iff] at h
    obtain ⟨σ₁, hone, hrest⟩ := h
    refine ih (fun e he => hstep e (List.mem_cons_of_mem _ he)) ?_ hrest
    exact hstep entry List.mem_cons_self k σ σ₁ hP hone

/-- A refund keeps every entry, up to what it still holds. -/
theorem refundEntry_agree {σ σ' : Ledger} {env : Env} {k : Nat} {entry : Entry} {arena : Arena}
    (h : refundEntry env k entry arena σ = .ok σ') :
    Table.Agree emptied σ.entries σ'.entries := by
  obtain ⟨-, rfl⟩ | ⟨-, -, -, -, _, _, -, -, rfl⟩ := refundEntry_ok h
  · exact .refl _ _
  · exact Table.agree_updateKey fun _ _ _ => by rfl

/-- The loop of `finish_leave` empties the entries it is given, and writes
nothing else but the two outboxes. -/
theorem refundEntries_entries {env : Env} {arena : Arena} {entries : List Entry}
    (hentries : ∀ e ∈ entries, e.status = .paid ∧ 0 < e.remaining) {k : Nat} {σ σ' : Ledger}
    (h : refundEntries env arena k entries σ = .ok σ') :
    σ' = { σ with
      refundPayouts := σ'.refundPayouts
      creatorPayouts := σ'.creatorPayouts
      entries := σ.entries.update (fun e => e.id ∈ entries.map Entry.id) emptied
        (fun _ => rfl) } := by
  induction entries generalizing k σ with
  | nil =>
    rw [refundEntries, pure_ok_iff] at h
    subst h
    have : σ.entries.update (fun e => e.id ∈ ([] : List Entry).map Entry.id) emptied
        (fun _ => rfl) = σ.entries := Table.ext (by simp [Table.update])
    rw [this]
  | cons entry rest ih =>
    rw [refundEntries, bind_ok_iff] at h
    obtain ⟨σ₁, hone, hrest⟩ := h
    rw [ih (fun e he => hentries e (List.mem_cons_of_mem _ he)) hrest]
    obtain ⟨hpaid, hpos⟩ := hentries entry List.mem_cons_self
    obtain ⟨hno, -⟩ | ⟨-, -, -, -, _, _, -, -, rfl⟩ := refundEntry_ok hone
    · exact absurd hno (not_or.mpr ⟨not_not.mpr hpaid, hpos.ne'⟩)
    · congr 1
      refine Table.ext ?_
      simp only [Table.update, Table.updateKey, List.map_map]
      refine List.map_congr_left fun e _ => ?_
      by_cases he : e.id = entry.id <;> by_cases hr : e.id ∈ rest.map Entry.id <;>
        simp_all [Keyed.key, emptied]

/-- A refund writes the outboxes and the entries only. -/
theorem refundEntry_only {σ σ' : Ledger} {env : Env} {k : Nat} {entry : Entry} {arena : Arena}
    (h : refundEntry env k entry arena σ = .ok σ') :
    σ' = { σ with
      refundPayouts := σ'.refundPayouts, creatorPayouts := σ'.creatorPayouts
      entries := σ'.entries } := by
  obtain ⟨-, rfl⟩ | ⟨-, -, -, -, _, _, -, -, rfl⟩ := refundEntry_ok h
  · rfl
  · rfl

theorem refundEntries_only {σ σ' : Ledger} {env : Env} {arena : Arena} {k : Nat}
    {entries : List Entry} (h : refundEntries env arena k entries σ = .ok σ') :
    σ' = { σ with
      refundPayouts := σ'.refundPayouts, creatorPayouts := σ'.creatorPayouts
      entries := σ'.entries } := by
  refine refundEntries_ok (P := fun τ => τ = { σ with
    refundPayouts := τ.refundPayouts, creatorPayouts := τ.creatorPayouts
    entries := τ.entries }) (fun _ _ _ τ τ' hτ hone => ?_) rfl h
  rw [refundEntry_only hone, hτ]

theorem settleEntry_lives {σ σ' : Ledger} {env : Env} {payment : Payment} {arena? : Option Uid}
    (h : settleEntry env payment σ = .ok (arena?, σ')) : σ'.lives = σ.lives := by
  obtain rfl | ⟨-, -, -, _, -, -, -, -, -, hcredit⟩ := settleEntry_ok h
  · rfl
  · cases hcredit with
    | again _ eq => rw [eq]; rfl
    | first _ _ player _ staying leaving left =>
      cases hs : player.leaveState with
      | none => rw [staying hs]; rfl
      | leaving => rw [leaving hs]; rfl
      | left =>
        obtain ⟨_, -, hrefund⟩ := left hs
        rw [refundEntry_only hrefund]
        rfl

/-- A settlement does not touch the entries that are paid already. -/
theorem settleEntry_paid {σ σ' : Ledger} {env : Env} {payment : Payment} {arena? : Option Uid}
    (h : settleEntry env payment σ = .ok (arena?, σ')) {e : Entry} (he : e ∈ σ.entries)
    (hpaid : e.status = .paid) : e ∈ σ'.entries := by
  obtain rfl | ⟨-, -, -, entry, -, hentry, -, -, -, hcredit⟩ := settleEntry_ok h
  · exact he
  · cases hcredit with
    | again _ eq =>
      rw [eq]
      exact he
    | first unsettled _ player _ staying leaving left =>
      have hid : e.id ≠ entry.id := by
        intro hid
        rw [← Table.mem_inj he hentry hid, hpaid] at unsettled
        cases unsettled
      have hcredit : e ∈ (σ.creditLedger entry payment).entries :=
        (Table.mem_updateKey).mpr (Or.inl ⟨he, hid⟩)
      cases hs : player.leaveState with
      | none =>
        rw [staying hs]
        exact hcredit
      | leaving =>
        rw [leaving hs]
        exact hcredit
      | left =>
        obtain ⟨_, -, hrefund⟩ := left hs
        obtain ⟨-, rfl⟩ | ⟨-, -, -, -, _, _, -, -, rfl⟩ := refundEntry_ok hrefund
        · exact hcredit
        · exact (Table.mem_updateKey).mpr (Or.inl ⟨hcredit, hid⟩)

/-- What the players' side of a settlement keeps. -/
theorem settleEntry_participants {σ σ' : Ledger} {env : Env} {payment : Payment}
    {arena? : Option Uid} (h : settleEntry env payment σ = .ok (arena?, σ')) :
    Table.Agree (fun p => (p.id, p.leaveState)) σ.participants σ'.participants := by
  obtain rfl | ⟨-, -, -, _, -, -, -, -, -, hcredit⟩ := settleEntry_ok h
  · exact .refl _ _
  · cases hcredit with
    | again _ eq =>
      rw [eq]
      exact .refl _ _
    | first _ _ player _ staying leaving left =>
      cases hs : player.leaveState with
      | none =>
        rw [staying hs]
        exact Table.agree_updateKey fun _ _ _ => by rfl
      | leaving =>
        rw [leaving hs]
        exact .refl _ _
      | left =>
        obtain ⟨_, -, hrefund⟩ := left hs
        rw [refundEntry_only hrefund]
        exact .refl _ _

/-- A life that is closed by a refund. -/
def refunded (env : Env) (l : Life) : Life :=
  { l with status := .refunded, connectedUntil := 0, diedAt := some env.now }

theorem finishLeave_ok {σ σ' : Ledger} {env : Env} {playerId revokedRun : Uid}
    (h : finishLeave env playerId revokedRun σ = .ok σ') :
    ∃ player, σ.participants.get? playerId = some player ∧
      ∃ row, σ.arenas.get? player.arenaId = some row ∧
        (player.leaveState = .left ∧ σ' = σ.bumpArena player.arenaId ∨
          player.leaveState = .leaving
            ∧ (∀ l ∈ σ.lives, l.playerId = playerId → l.status = .alive → l.runId = revokedRun)
            ∧ ∃ σ₂, refundEntries env { row with revision := row.revision + 1 } 0
                  (σ.entries.select
                    (fun e => e.playerId = playerId && e.status = .paid && 0 < e.remaining))
                  (σ.bumpArena player.arenaId) = .ok σ₂
              ∧ σ' = { σ₂ with
                  lives := σ₂.lives.update (fun l => l.playerId = playerId && l.status.open)
                    (refunded env) (fun _ => rfl)
                  participants := σ₂.participants.updateKey playerId
                    (fun p => { p with leaveState := .left }) (fun _ => rfl) }) := by
  simp only [finishLeave, bind_ok_iff, orRaise_ok_iff, Prod.exists] at h
  obtain ⟨player, hplayer, arena, σ₁, hlock, player', hplayer', h⟩ := h
  obtain ⟨rfl, row, hrow, rfl, -⟩ := lockArena_ok hlock
  obtain rfl : player = player' := by
    rw [show (σ.bumpArena player.arenaId).participants = σ.participants from rfl,
      hplayer] at hplayer'
    exact Option.some.inj hplayer'
  refine ⟨player, hplayer, row, hrow, ?_⟩
  split_ifs at h with hleft
  · rw [pure_ok_iff] at h
    exact Or.inl ⟨hleft, h.symm⟩
  · simp only [bind_ok_iff, require_ok_iff, pure_ok_iff] at h
    obtain ⟨_, hleaving, _, hsafe, σ₂, hrefunds, rfl⟩ := h
    refine Or.inr ⟨hleaving, ?_, σ₂, hrefunds, rfl⟩
    intro l hl hp hs
    have := Table.any_eq_false.mp hsafe l hl
    simpa [hp, hs] using this

/-! ## Deaths -/

/-- A life that has died. -/
def killed (env : Env) (killerId : Uid) (l : Life) : Life :=
  { l with status := .dead, diedAt := some env.now, killerId, connectedUntil := 0 }

/-- One life fewer. -/
def charged (e : Entry) : Entry := { e with remaining := e.remaining - 1 }

/-- The ledger after the two updates of a death. -/
def spent (σ : Ledger) (env : Env) (entry : Entry) (victim : Life) (killerId : Uid) : Ledger :=
  { σ with
    entries := σ.entries.updateKey entry.id charged (fun _ => rfl)
    lives := σ.lives.updateKey victim.id (killed env killerId) (fun _ => rfl) }

/-- The outboxes after the payouts of a death: each of the two gains its row,
unless the victim has one there already. -/
structure Paid (env : Env) (arena : Arena) (entry : Entry) (victim : Life) (σ σ' : Ledger) :
    Prop where
  only : σ' = { σ with payouts := σ'.payouts, creatorPayouts := σ'.creatorPayouts }
  kill : σ'.payouts = σ.payouts ∨ (∀ p ∈ σ.payouts, p.victimId ≠ victim.id) ∧
    0 ≤ prizePerKill entry.amount (entry.haircut + creatorFee arena) ∧
      ∃ destination killer, σ.payouts.insert? (killRow env arena entry destination victim killer)
        = some σ'.payouts
  fee : σ'.creatorPayouts = σ.creatorPayouts ∨ (∀ p ∈ σ.creatorPayouts, p.victimId ≠ victim.id)
    ∧ 0 < entry.amount * creatorFee arena / 500 ∧
      ∃ killer, σ.creatorPayouts.insert? (killFeeRow env arena entry victim killer)
        = some σ'.creatorPayouts

theorem payKiller_ok {σ σ' : Ledger} {env : Env} {arena : Arena} {entry : Entry}
    {victim : Life} {killer? : Option Life}
    (h : payKiller env arena entry victim killer? σ = .ok σ') :
    Paid env arena entry victim σ σ' := by
  cases killer? with
  | none =>
    simp only [payKiller, pure_ok_iff] at h
    subst h
    exact ⟨rfl, Or.inl rfl, Or.inl rfl⟩
  | some killer =>
    simp only [payKiller, payKill, bind_ok_iff, orRaise_ok_iff] at h
    obtain ⟨destination, -, σ₁, hkill, hfee⟩ := h
    have hpay : σ₁ = { σ with payouts := σ₁.payouts } ∧ (σ₁.payouts = σ.payouts ∨
        (∀ p ∈ σ.payouts, p.victimId ≠ victim.id)
          ∧ 0 ≤ prizePerKill entry.amount (entry.haircut + creatorFee arena)
          ∧ ∃ destination killer, σ.payouts.insert?
              (killRow env arena entry destination victim killer) = some σ₁.payouts) := by
      obtain ⟨hamount, ⟨-, rfl⟩ | ⟨hfresh, t, ht, rfl⟩⟩ := queuePayout_ok hkill
      · exact ⟨rfl, Or.inl rfl⟩
      · exact ⟨rfl, Or.inr ⟨hfresh, of_decide_eq_true hamount, destination, killer, ht⟩⟩
    obtain ⟨hσ₁, hpay⟩ := hpay
    unfold queueFee at hfee
    split_ifs at hfee with hz
    · rw [pure_ok_iff] at hfee
      subst hfee
      refine ⟨?_, hpay, Or.inl ?_⟩ <;> rw [hσ₁]
    · obtain ⟨hamount, ⟨-, rfl⟩ | ⟨hfresh, t, ht, rfl⟩⟩ := queuePayout_ok hfee
      · refine ⟨?_, hpay, Or.inl ?_⟩ <;> rw [hσ₁]
      · rw [hσ₁] at hfresh ht ⊢
        exact ⟨rfl, hpay, Or.inr ⟨hfresh, of_decide_eq_true hamount, killer, ht⟩⟩

/-- The effect of one line of a journal on the victim, its entry and the
outboxes. -/
theorem consumeDeath_ok {σ σ' : Ledger} {env : Env} {runId victimId killerId arenaId : Uid}
    {sequence : Int} (h : consumeDeath env runId sequence victimId
      killerId σ = .ok (arenaId, σ')) :
    ∃ run, σ.runs.get? runId = some run ∧ arenaId = run.arenaId ∧
      ∃ row, σ.arenas.get? run.arenaId = some row ∧
        (sequence ≤ run.eventSequence ∧ σ' = σ.bumpArena run.arenaId ∨
          sequence = run.eventSequence + 1 ∧ ∃ victim, σ.lives.get? victimId = some victim
            ∧ victim.runId = runId ∧ victim.arenaId = run.arenaId ∧ ∃ σ₂,
              (victim.status = .dead ∧ σ₂ = σ.bumpArena run.arenaId ∨
                victim.status ≠ .dead ∧ ∃ entry, σ.entries.get? victim.entryId = some entry
                  ∧ 0 < entry.remaining
                  ∧ Paid env { row with revision := row.revision + 1 } entry victim
                      ((σ.bumpArena run.arenaId).spent env entry victim killerId) σ₂)
              ∧ σ' = { σ₂ with
                  runs := σ.runs.updateKey runId (fun r => { r with eventSequence := sequence })
                    (fun _ => rfl) }) := by
  simp only [consumeDeath, bind_ok_iff, orRaise_ok_iff, Prod.exists] at h
  obtain ⟨run, hrun, arena, σ₁, hlock, h⟩ := h
  obtain ⟨rfl, row, hrow, rfl, -⟩ := lockArena_ok hlock
  split_ifs at h with hseq
  · rw [pure_ok_iff, Prod.mk.injEq] at h
    exact ⟨run, hrun, h.1.symm, row, hrow, Or.inl ⟨hseq, h.2.symm⟩⟩
  · simp only [bind_ok_iff, require_ok_iff, orRaise_ok_iff, pure_ok_iff, Prod.mk.injEq] at h
    obtain ⟨_, hnext, victim, hvictim, _, ⟨hvrun, hvarena⟩, σ₂, hend, rfl, rfl⟩ := h
    refine ⟨run, hrun, rfl, row, hrow,
      Or.inr ⟨hnext, victim, hvictim, hvrun, hvarena, σ₂, ?_⟩⟩
    unfold endLife at hend
    split_ifs at hend with hdead
    · rw [pure_ok_iff] at hend
      subst hend
      exact ⟨Or.inl ⟨hdead, rfl⟩, rfl⟩
    · simp only [spendLife, bind_ok_iff, require_ok_iff, orRaise_ok_iff] at hend
      obtain ⟨entry, hentry, _, hpos, hpay⟩ := hend
      have hpaid := payKiller_ok hpay
      refine ⟨Or.inr ⟨hdead, entry, hentry, hpos, hpaid⟩, ?_⟩
      rw [hpaid.only]
      rfl

/-! ## Admissions -/

/-- A life that is admitted to a run again. -/
def resumed (env : Env) (runId : Uid) (slot : Nat) (l : Life) : Life :=
  { l with status := .alive, runId, slot, connectedUntil := env.now + 30 }

theorem currentLife_mem {σ : Ledger} {playerId : Uid} {l : Life}
    (h : σ.currentLife playerId = some l) :
    l ∈ σ.lives ∧ l.playerId = playerId ∧ l.status.open = true := by
  have hmem := Table.mem_select.mp (Table.first_mem h)
  simpa using hmem

theorem currentLife_eq_none {σ : Ledger} {playerId : Uid} (h : σ.currentLife playerId = none)
    {l : Life} (hl : l ∈ σ.lives) (hp : l.playerId = playerId) : l.status.open = false := by
  unfold currentLife at h
  rw [Table.first_eq_none] at h
  by_contra hopen
  have : l ∈ σ.lives.select (fun l => l.playerId = playerId && l.status.open) :=
    Table.mem_select.mpr ⟨hl, by simpa [hp] using hopen⟩
  rw [h] at this
  exact absurd this List.not_mem_nil

theorem fundedEntry_mem {σ : Ledger} {playerId : Uid} {e : Entry}
    (h : σ.fundedEntry playerId = some e) :
    e ∈ σ.entries ∧ e.playerId = playerId ∧ e.status = .paid ∧ 0 < e.remaining := by
  have hmem := Table.mem_select.mp (Table.first_mem h)
  simpa [and_assoc] using hmem

theorem freeSlot_ok {σ : Ledger} {arenaId : Uid} {slot : Nat}
    (h : σ.freeSlot arenaId = some slot) :
    1 ≤ slot ∧ slot ≤ maxPlayers ∧
      ∀ l ∈ σ.lives, l.arenaId = arenaId → l.status = .alive → l.slot ≠ slot := by
  have hmem := List.mem_of_find?_eq_some h
  have hfree := List.find?_some h
  rw [List.mem_range'] at hmem
  obtain ⟨i, hi, rfl⟩ := hmem
  refine ⟨by omega, by omega, ?_⟩
  intro l hl ha hs heq
  refine absurd ?_ (of_decide_eq_true hfree)
  exact List.mem_map.mpr ⟨l, Table.mem_select.mpr ⟨hl, by simp [ha, hs]⟩, heq⟩

/-- An admission: the life that is admitted already, the open life of the
player under the new run and slot, or a new life. -/
inductive Admission (env : Env) (arenaId runId : Uid) (player : Participant) (σ : Ledger)
    (life : Life) (σ' : Ledger) : Prop
  | again (mem : life ∈ σ.lives) (player : life.playerId = player.id)
      (alive : life.status = .alive) (run : life.runId = runId)
      (eq : σ' = σ.bumpArena arenaId)
  | resume (old : Life) (current : σ.currentLife player.id = some old)
      (notHere : ¬(old.status = .alive ∧ old.runId = runId))
      (entry : Entry) (funded : σ.fundedEntry player.id = some entry)
      (slot : Nat) (free : σ.freeSlot arenaId = some slot)
      (eq : life = resumed env runId slot old)
      (ledger : σ' = { σ.writeArena arenaId (idleFrom none) (fun _ => rfl) with
        lives := σ.lives.updateKey old.id (resumed env runId slot) (fun _ => rfl) })
  | new (noCurrent : σ.currentLife player.id = none)
      (entry : Entry) (funded : σ.fundedEntry player.id = some entry)
      (slot : Nat) (free : σ.freeSlot arenaId = some slot)
      (eq : life =
        { id := env.uid 0, arenaId, playerId := player.id, entryId := entry.id, runId
          status := .alive, slot, connectedUntil := env.now + 30, createdAt := env.timeNs
          diedAt := none, killerId := "" })
      (lives : Table Life) (insert : σ.lives.insert? life = some lives)
      (ledger : σ' = { σ.writeArena arenaId (idleFrom none) (fun _ => rfl) with lives })

/-- An admission is one of the player that the token finds. -/
theorem allocateLife_session {σ σ' : Ledger} {env : Env} {arenaId token runId : Uid} {life : Life}
    (h : allocateLife env arenaId token runId σ = .ok (life, σ')) :
    ∃ row, σ.arenas.get? arenaId = some row ∧ row.active = true ∧ row.runId = runId
      ∧ env.now < row.leaseUntil ∧
      ∃ player, σ.participant env arenaId token = .ok (some player) ∧ player.leaveState = .none
        ∧ Admission env arenaId runId player σ life σ' := by
  simp only [allocateLife, bind_ok_iff, require_ok_iff, orRaise_ok_iff, Prod.exists] at h
  obtain ⟨arena, σ₁, hlock, _, ⟨hrun, hlease⟩, player?, hplayer, player, rfl, _, hstay, h⟩ := h
  obtain ⟨rfl, row, hrow, rfl, hactive⟩ := lockArena_ok hlock
  refine ⟨row, hrow, hactive rfl, hrun, hlease, player, hplayer, hstay, ?_⟩
  split at h
  · rename_i life' hcur
    rw [pure_ok_iff, Prod.mk.injEq] at h
    obtain ⟨rfl, rfl⟩ := h
    obtain ⟨hlife, hhere⟩ := Option.filter_eq_some_iff.mp hcur
    obtain ⟨hl, hp, -⟩ := currentLife_mem hlife
    have hhere : life'.status = .alive ∧ life'.runId = runId := by simpa using hhere
    exact .again hl hp hhere.1 hhere.2 rfl
  · rename_i hnot
    simp only [bind_ok_iff, orRaise_ok_iff] at h
    obtain ⟨entry, hentry, slot, hslot, h⟩ := h
    split at h
    · rename_i old hold
      rw [pure_ok_iff, Prod.mk.injEq] at h
      obtain ⟨rfl, rfl⟩ := h
      refine .resume old hold ?_ entry hentry slot hslot rfl rfl
      intro hhere
      rw [hold] at hnot
      simp [Option.filter, hhere.1, hhere.2] at hnot
    · rename_i hnone
      simp only [bind_ok_iff, orRaise_ok_iff, pure_ok_iff, Prod.mk.injEq] at h
      obtain ⟨lives, hins, rfl, rfl⟩ := h
      exact .new hnone entry hentry slot hslot rfl lives hins rfl

theorem allocateLife_ok {σ σ' : Ledger} {env : Env} {arenaId token runId : Uid} {life : Life}
    (h : allocateLife env arenaId token runId σ = .ok (life, σ')) :
    ∃ row, σ.arenas.get? arenaId = some row ∧ row.active = true ∧ row.runId = runId
      ∧ env.now < row.leaseUntil ∧
      ∃ player ∈ σ.participants, player.arenaId = arenaId
        ∧ player.tokenHash = env.sha256 token ∧ player.leaveState = .none
        ∧ Admission env arenaId runId player σ life σ' := by
  obtain ⟨row, hrow, hactive, hrun, hlease, player, hplayer, hstay, hadmission⟩ :=
    allocateLife_session h
  obtain ⟨hmem, harena, htoken⟩ := participant_ok hplayer
  exact ⟨row, hrow, hactive, hrun, hlease, player, hmem, harena, htoken, hstay, hadmission⟩

/-! ## The lobby and the leases -/

/-- What a sweep does to a game: it moves the idle clock at most, unless
nobody plays there and nothing is outstanding. -/
inductive Expiry (env : Env) (arenaId : Uid) (row : Arena) (σ : Ledger) (σ' : Ledger) :
    Bool → Prop
  | kept (eq : σ' = σ.bumpArena arenaId) : Expiry env arenaId row σ σ' false
  | idle (since : Option Int)
      (eq : σ' = σ.writeArena arenaId (idleFrom since) (fun _ => rfl)) :
      Expiry env arenaId row σ σ' false
  | expired (since : Int) (idle : row.idleSince = some since) (long : since ≤ env.now - 600)
      (isPublic : row.isPublic = true) (active : row.active = true)
      (empty : σ.playing arenaId env.now = 0) (settled : σ.outstanding arenaId env.now = 0)
      (eq : σ' = σ.writeArena arenaId
        (fun a => { a with active := false, lobbyHidden := true }) (fun _ => rfl)) :
      Expiry env arenaId row σ σ' true

theorem expireGame_ok {σ σ' : Ledger} {env : Env} {arenaId : Uid} {expired : Bool}
    (h : expireGame env arenaId σ = .ok (expired, σ')) :
    ∃ row, σ.arenas.get? arenaId = some row ∧ Expiry env arenaId row σ σ' expired := by
  simp only [expireGame, bind_ok_iff, Prod.exists] at h
  obtain ⟨arena, σ₁, hlock, h⟩ := h
  obtain ⟨rfl, row, hrow, rfl, -⟩ := lockArena_ok hlock
  refine ⟨row, hrow, ?_⟩
  split_ifs at h with hc hplay
  · rw [pure_ok_iff, Prod.mk.injEq] at h
    obtain ⟨rfl, rfl⟩ := h
    exact .kept rfl
  · rw [pure_ok_iff, Prod.mk.injEq] at h
    obtain ⟨rfl, rfl⟩ := h
    exact .idle none rfl
  · rw [not_or, Bool.not_eq_false, Bool.not_eq_false] at hc
    split at h
    · rw [pure_ok_iff, Prod.mk.injEq] at h
      obtain ⟨rfl, rfl⟩ := h
      exact .idle (some env.now) rfl
    · rename_i since hsince
      split_ifs at h with hout <;> rw [pure_ok_iff, Prod.mk.injEq] at h <;>
        obtain ⟨rfl, rfl⟩ := h
      · exact .kept rfl
      · rw [not_or, not_not, not_lt] at hout
        exact .expired since hsince hout.1 hc.1 hc.2 (not_not.mp hplay) hout.2 rfl

theorem closeGame_ok {σ σ' : Ledger} {arenaId owner : Uid}
    (h : closeGame arenaId owner σ = .ok σ') :
    ∃ row, σ.arenas.get? arenaId = some row ∧ row.ownerId = owner
      ∧ σ' = σ.writeArena arenaId
          (fun a => { a with active := false, adminClosed := true, lobbyHidden := true })
          (fun _ => rfl) := by
  simp only [closeGame, bind_ok_iff, require_ok_iff, orRaise_ok_iff, pure_ok_iff,
    Prod.exists] at h
  obtain ⟨row, hrow, _, howner, arena, σ₁, hlock, rfl⟩ := h
  obtain ⟨rfl, -⟩ := lockArena_ok hlock
  exact ⟨row, hrow, howner, rfl⟩

theorem leaseArena_ok {σ σ' : Ledger} {env : Env} {worker arenaId : Uid} {arena : Arena}
    {oldRuns : List Run} (h : leaseArena env worker arenaId σ = .ok ((arena, oldRuns), σ')) :
    ∃ row, σ.arenas.get? arenaId = some row ∧ row.active = true ∧ row.map ∈ maps
      ∧ row.leaseUntil ≤ env.now ∧ arena = { row with revision := row.revision + 1 }
      ∧ oldRuns = σ.runs.select (fun r => r.arenaId = arenaId && r.status = .running)
      ∧ σ' = σ.writeArena arenaId
          (fun a => { a with worker, runId := env.uid 0, leaseUntil := env.now + 45 })
          (fun _ => rfl) := by
  simp only [leaseArena, bind_ok_iff, require_ok_iff, pure_ok_iff, Prod.exists,
    Prod.mk.injEq] at h
  obtain ⟨arena', σ₁, hlock, _, hmap, _, hlease, ⟨rfl, rfl⟩, rfl⟩ := h
  obtain ⟨rfl, row, hrow, rfl, hactive⟩ := lockArena_ok hlock
  exact ⟨row, hrow, hactive rfl, hmap, hlease, rfl, rfl, rfl⟩

theorem recoverLeavingRun_ok {σ σ' : Ledger} {arenaId runId : Uid}
    (h : recoverLeavingRun arenaId runId σ = .ok σ') :
    σ' = (σ.bumpArena arenaId).recoverRun runId := by
  simp only [recoverLeavingRun, bind_ok_iff, pure_ok_iff, Prod.exists] at h
  obtain ⟨arena, σ₁, hlock, rfl⟩ := h
  rw [(lockArena_ok hlock).1]

theorem insertRun_ok {σ σ' : Ledger} {env : Env} {runId arenaId worker : Uid}
    (h : insertRun env runId arenaId worker σ = .ok σ') :
    ∃ runs, σ.runs.insert?
        { id := runId, arenaId, worker, createdAt := env.now, status := .running
          eventSequence := 0 } = some runs ∧ σ' = { σ with runs } := by
  simp only [insertRun, bind_ok_iff, orRaise_ok_iff, pure_ok_iff] at h
  obtain ⟨runs, hins, rfl⟩ := h
  exact ⟨runs, hins, rfl⟩

theorem stopRun_ok {σ σ' : Ledger} {arenaId worker runId : Uid}
    (h : stopRun arenaId worker runId σ = .ok σ') :
    σ' = { ((σ.bumpArena arenaId).releaseLives runId).setRunStatus runId .stopped with
      arenas := (σ.bumpArena arenaId).arenas.update
        (fun a => a.id = arenaId && a.worker = worker && a.runId = runId)
        (fun a => { a with leaseUntil := 0 }) (fun _ => rfl) } := by
  simp only [stopRun, bind_ok_iff, pure_ok_iff, Prod.exists] at h
  obtain ⟨arena, σ₁, hlock, rfl⟩ := h
  rw [(lockArena_ok hlock).1]
  rfl

theorem renewLease_ok {σ σ' : Ledger} {env : Env} {worker arenaId runId : Uid}
    {connected : List Uid} (h : renewLease env worker arenaId runId connected σ = .ok σ') :
    ∃ row, σ.arenas.get? arenaId = some row ∧ row.active = true ∧ row.worker = worker
      ∧ row.runId = runId ∧ env.now < row.leaseUntil
      ∧ σ' = { σ.writeArena arenaId (fun a => { a with leaseUntil := env.now + 45 })
          (fun _ => rfl) with
          lives := σ.lives.update (fun l => l.id ∈ connected && l.status = .alive)
            (fun l => { l with connectedUntil := env.now + 30 }) (fun _ => rfl) } := by
  simp only [renewLease, bind_ok_iff, require_ok_iff, pure_ok_iff, Prod.exists] at h
  obtain ⟨arena, σ₁, hlock, _, ⟨hactive, hworker, hrun, hlease⟩, rfl⟩ := h
  obtain ⟨rfl, row, hrow, rfl, -⟩ := lockArena_ok hlock
  exact ⟨row, hrow, hactive, hworker, hrun, hlease, rfl⟩

/-! ## The outboxes -/

/-- The columns of a payout that are written once, by its `INSERT`. -/
structure PayoutTerms where
  id : Uid
  arenaId : Uid
  victimId : Uid
  killerId : Uid
  playerId : Uid
  walletId : String
  lnAddress : String
  amount : Int
  createdAt : Int
deriving DecidableEq

/-- The terms of a payout. -/
def terms (p : Payout) : PayoutTerms where
  id := p.id
  arenaId := p.arenaId
  victimId := p.victimId
  killerId := p.killerId
  playerId := p.playerId
  walletId := p.walletId
  lnAddress := p.lnAddress
  amount := p.amount
  createdAt := p.createdAt

/-- The lease of `claimPayout`. -/
def leased (env : Env) (p : Payout) : Payout :=
  { p with claim := env.uid 0, claimedUntil := env.now + 90 }

theorem claimPayout_eq {σ σ' : Ledger} {env : Env} {claimed? : Option (Outbox × Payout)}
    (h : claimPayout env σ = (claimed?, σ')) :
    claimed? = none ∧ σ' = σ ∨ ∃ k row, row ∈ σ.outbox k ∧ row.status.due = true
      ∧ row.nextAttempt ≤ env.now ∧ row.claimedUntil ≤ env.now
      ∧ claimed? = some (k, leased env row)
      ∧ σ' = σ.setOutbox k ((σ.outbox k).updateKey row.id (leased env) (fun _ => rfl)) := by
  unfold claimPayout at h
  split at h
  · rw [Prod.mk.injEq] at h
    exact Or.inl ⟨h.1.symm, h.2.symm⟩
  · rename_i k row hready
    rw [Prod.mk.injEq] at h
    obtain ⟨rfl, rfl⟩ := h
    have hmem := Table.first_mem hready
    have hrow : row ∈ σ.outbox k ∧ (row.status.due = true ∧ row.nextAttempt ≤ env.now)
        ∧ row.claimedUntil ≤ env.now := by
      simp only [ready, readyIn, List.mem_append, List.mem_map, Table.mem_select,
        Prod.mk.injEq] at hmem
      rcases hmem with (⟨_, hr, rfl, rfl⟩ | ⟨_, hr, rfl, rfl⟩) | ⟨_, hr, rfl, rfl⟩ <;>
        simpa using hr
    exact Or.inr ⟨k, row, hrow.1, hrow.2.1.1, hrow.2.1.2, hrow.2.2, rfl, rfl⟩

/-- The write of `updatePayout` to the stored row. -/
def written (env : Env) (fields : Payout) (p : Payout) : Payout :=
  { p with
    status := fields.status
    updatedAt := env.now
    bolt11 := fields.bolt11
    paymentHash := fields.paymentHash
    attempts := fields.attempts
    nextAttempt := fields.nextAttempt
    error := fields.error }

/-- The invoice claims after an update that prepares a row. -/
inductive Reserved (σ : Ledger) (fields : Payout) (claims : Table InvoiceClaim) : Prop
  | unneeded (h : ¬(fields.status = .prepared ∧ truthy fields.paymentHash = true))
      (eq : claims = σ.invoiceClaims)
  | own (status : fields.status = .prepared) (hash : truthy fields.paymentHash = true)
      (c : InvoiceClaim) (get : σ.invoiceClaims.get? (fields.paymentHash.getD "") = some c)
      (id : c.payoutId = fields.id) (eq : claims = σ.invoiceClaims)
  | fresh (status : fields.status = .prepared) (hash : truthy fields.paymentHash = true)
      (free : ∀ c ∈ σ.invoiceClaims, c.payoutId ≠ fields.id)
      (insert : σ.invoiceClaims.insert?
        { paymentHash := fields.paymentHash.getD "", payoutId := fields.id } = some claims)

/-- The claims of an update extend those before. -/
theorem Reserved.extends {σ : Ledger} {fields : Payout} {claims : Table InvoiceClaim}
    (h : Reserved σ fields claims) (hash : String) (claim : InvoiceClaim)
    (hclaim : σ.invoiceClaims.get? hash = some claim) : claims.get? hash = some claim := by
  cases h with
  | unneeded _ eq =>
    rw [eq]
    exact hclaim
  | own _ _ c _ _ eq =>
    rw [eq]
    exact hclaim
  | fresh _ _ _ insert => exact Table.get?_insert?_of_some insert hclaim

/-- A row that is prepared with a hash has the claim to it. -/
theorem Reserved.claimed {σ : Ledger} {fields : Payout} {claims : Table InvoiceClaim}
    (h : Reserved σ fields claims) {hash : String} (hstatus : fields.status = .prepared)
    (hhash : fields.paymentHash = some hash) (hne : hash ≠ "") :
    claims.get? hash = some ⟨hash, fields.id⟩ := by
  have htruthy : truthy fields.paymentHash = true := by simp [hhash, truthy, hne]
  cases h with
  | unneeded hnot _ => exact absurd ⟨hstatus, htruthy⟩ hnot
  | own _ _ c get id eq =>
    rw [hhash, Option.getD_some] at get
    have hkey : c.paymentHash = hash := Table.key_of_get? get
    rw [eq, get, ← hkey, ← id]
  | fresh _ _ _ insert =>
    rw [hhash, Option.getD_some] at insert
    rw [Table.get?_insert? insert]
    exact if_pos rfl

theorem reserveInvoice_ok {σ σ' : Ledger} {fields : Payout}
    (h : σ.reserveInvoice fields = .ok σ') :
    ∃ claims, σ' = { σ with invoiceClaims := claims } ∧ Reserved σ fields claims := by
  unfold reserveInvoice at h
  split_ifs at h with hc
  · unfold claimInvoice at h
    split at h
    · rename_i owner howner
      simp only [bind_ok_iff, require_ok_iff, pure_ok_iff] at h
      obtain ⟨_, hid, rfl⟩ := h
      exact ⟨_, rfl, .own hc.1 hc.2 owner howner hid rfl⟩
    · simp only [bind_ok_iff, require_ok_iff, orRaise_ok_iff, pure_ok_iff,
        Table.any_eq_false] at h
      obtain ⟨_, hfree, claims, hins, rfl⟩ := h
      exact ⟨claims, rfl, .fresh hc.1 hc.2 (by simpa using hfree) hins⟩
  · rw [pure_ok_iff] at h
    exact ⟨_, h.symm, .unneeded hc rfl⟩

@[simp] theorem outbox_invoiceClaims (σ : Ledger) (k : Outbox) (claims : Table InvoiceClaim) :
    ({ σ with invoiceClaims := claims } : Ledger).outbox k = σ.outbox k := by
  cases k <;> rfl

/-- An update that commits found its row under its claim, and wrote it. -/
theorem updatePayout_ok {σ σ' : Ledger} {env : Env} {k : Outbox} {row row' : Payout}
    {status : PayoutStatus} {values : PayoutValues}
    (h : updatePayout env k row status values σ = .ok (row', σ')) :
    row' = values.apply status row ∧ ∃ claims stored, Reserved σ row' claims
      ∧ (σ.outbox k).get? row.id = some stored ∧ stored.claim = row.claim
      ∧ (row'.paymentHash.isSome = true → ∀ p ∈ σ.outbox k, p.id ≠ row.id →
          p.paymentHash ≠ row'.paymentHash)
      ∧ σ' = ({ σ with invoiceClaims := claims } : Ledger).setOutbox k
          ((σ.outbox k).updateKey row.id (written env row') (fun _ => rfl)) := by
  simp only [updatePayout, bind_ok_iff, require_ok_iff, orRaise_ok_iff, pure_ok_iff,
    Prod.mk.injEq] at h
  obtain ⟨σ₁, hres, stored, hstored, _, hclaim, _, hunique, rfl, rfl⟩ := h
  obtain ⟨claims, rfl, hclaims⟩ := reserveInvoice_ok hres
  rw [outbox_invoiceClaims] at hstored hunique
  refine ⟨rfl, claims, stored, hclaims, hstored, hclaim, ?_, by rw [outbox_invoiceClaims]; rfl⟩
  intro hsome p hp hne heq
  have := Table.any_eq_false.mp (hunique hsome) p hp
  simp [hne, heq] at this

/-- A step of the payout workers: it writes the outboxes and the invoice
claims only, and keeps the terms of every payout. -/
structure KeepsTerms (σ σ' : Ledger) : Prop where
  settings : σ'.settings = σ.settings
  arenas : σ'.arenas = σ.arenas
  participants : σ'.participants = σ.participants
  entries : σ'.entries = σ.entries
  lives : σ'.lives = σ.lives
  runs : σ'.runs = σ.runs
  outbox : ∀ k, Table.Agree terms (σ.outbox k) (σ'.outbox k)

theorem KeepsTerms.setOutbox {σ : Ledger} {k : Outbox} {t : Table Payout}
    (h : Table.Agree terms (σ.outbox k) t) (claims : Table InvoiceClaim) :
    KeepsTerms σ (({ σ with invoiceClaims := claims } : Ledger).setOutbox k t) := by
  refine ⟨?_, ?_, ?_, ?_, ?_, ?_, ?_⟩
  · cases k <;> rfl
  · cases k <;> rfl
  · cases k <;> rfl
  · cases k <;> rfl
  · cases k <;> rfl
  · cases k <;> rfl
  · rintro (_ | _ | _) <;> cases k
    all_goals first | exact h | exact .refl _ _

theorem claimPayout_keeps (env : Env) (σ : Ledger) : KeepsTerms σ (claimPayout env σ).2 := by
  obtain ⟨-, h⟩ | ⟨k, row, -, -, -, -, -, h⟩ := claimPayout_eq (Prod.eta (claimPayout env σ)).symm
  · rw [h]
    exact ⟨rfl, rfl, rfl, rfl, rfl, rfl, fun _ => .refl _ _⟩
  · rw [h]
    exact .setOutbox (Table.agree_updateKey fun _ _ _ => by rfl) σ.invoiceClaims

theorem updatePayout_keeps {σ σ' : Ledger} {env : Env} {k : Outbox} {row row' : Payout}
    {status : PayoutStatus} {values : PayoutValues}
    (h : updatePayout env k row status values σ = .ok (row', σ')) : KeepsTerms σ σ' := by
  obtain ⟨-, claims, stored, -, -, -, -, rfl⟩ := updatePayout_ok h
  exact .setOutbox (Table.agree_updateKey fun _ _ _ => by rfl) claims

theorem releasePayout_keeps (env : Env) (k : Outbox) (row : Payout) (σ : Ledger) :
    KeepsTerms σ (releasePayout env k row σ) :=
  .setOutbox (Table.agree_update fun _ _ _ => by rfl) σ.invoiceClaims

end QuakeJs.Ledger
