import QuakeJs.Ledger.Run

/-!
# The accounts of the entries

An entry is bought with one payment and holds five lives.  This module
proves where the five lives are, in every ledger that a run can reach.

`Balanced` says it for one entry, in terms of three counts: the lives that
refer to the entry, the dead ones among them, and its refunds.  `Accounts` is
the invariant: every entry is balanced, and the references between the
tables are sound.  Each transaction that touches an entry or a life has one
lemma here; the others are covered by `Accounts.frame`.
-/

namespace QuakeJs

namespace Ledger

/-- The lives that were admitted from an entry. -/
def livesOf (σ : Ledger) (entryId : Uid) : Nat := σ.lives.count (fun l => l.entryId = entryId)

/-- The lives of an entry that have died. -/
def deaths (σ : Ledger) (entryId : Uid) : Nat :=
  σ.lives.count (fun l => l.entryId = entryId && l.status = .dead)

/-- The refunds of an entry. -/
def refundsOf (σ : Ledger) (entryId : Uid) : Nat :=
  σ.refundPayouts.count (fun r => r.victimId = entryId)

/-- What the accounts read of a life. -/
def lifeAccount (l : Life) : Uid × Uid × Uid × Uid × Bool :=
  (l.id, l.arenaId, l.playerId, l.entryId, decide (l.status = .dead))

/-- What the accounts read of a participant. -/
def seat (p : Participant) : Uid × Uid := (p.id, p.arenaId)

end Ledger

open Ledger

/-- The five lives of an entry, given how many lives refer to it, how many of
these are dead, and how many refunds it has. -/
structure Balanced (e : Entry) (lives deaths refunds : Nat) : Prop where
  unpaid : e.status ≠ .paid → e.remaining = 0 ∧ lives = 0 ∧ refunds = 0
  paid : e.status = .paid → refunds = 0 → e.remaining + deaths = 5
  once : refunds ≤ 1
  empty : refunds = 1 → e.remaining = 0

/-- Every entry is balanced and belongs to a player of its arena, and every
life and every refund belongs to an entry. -/
structure Accounts (σ : Ledger) : Prop where
  balanced : ∀ e ∈ σ.entries, Balanced e (σ.livesOf e.id) (σ.deaths e.id) (σ.refundsOf e.id)
  player : ∀ e ∈ σ.entries, ∃ p ∈ σ.participants, p.id = e.playerId ∧ p.arenaId = e.arenaId
  life : ∀ l ∈ σ.lives, ∃ e ∈ σ.entries, e.id = l.entryId ∧ e.playerId = l.playerId
    ∧ e.arenaId = l.arenaId
  refund : ∀ r ∈ σ.refundPayouts, ∃ e ∈ σ.entries, e.id = r.victimId

namespace Accounts

variable {σ σ' : Ledger}

theorem empty : Accounts Ledger.empty where
  balanced := fun _ he => absurd he (Table.not_mem_empty _)
  player := fun _ he => absurd he (Table.not_mem_empty _)
  life := fun _ hl => absurd hl (Table.not_mem_empty _)
  refund := fun _ hr => absurd hr (Table.not_mem_empty _)

theorem livesOf_congr (h : Table.Agree lifeAccount σ.lives σ'.lives) (id : Uid) :
    σ'.livesOf id = σ.livesOf id :=
  h.count (q := fun c => c.2.2.2.1 = id) fun _ => rfl

theorem deaths_congr (h : Table.Agree lifeAccount σ.lives σ'.lives) (id : Uid) :
    σ'.deaths id = σ.deaths id :=
  h.count (q := fun c => c.2.2.2.1 = id && c.2.2.2.2) fun _ => rfl

theorem refundsOf_congr (h : Table.Agree terms σ.refundPayouts σ'.refundPayouts) (id : Uid) :
    σ'.refundsOf id = σ.refundsOf id :=
  h.count (q := fun c => c.victimId = id) fun _ => rfl

/-- A transaction that keeps the entries, and of the other tables what the
accounts read, keeps the accounts. -/
theorem frame (h : Accounts σ) (hplayers : Table.Agree seat σ.participants σ'.participants)
    (hentries : σ'.entries = σ.entries) (hlives : Table.Agree lifeAccount σ.lives σ'.lives)
    (hrefunds : Table.Agree terms σ.refundPayouts σ'.refundPayouts) : Accounts σ' where
  balanced := by
    intro e he
    rw [hentries] at he
    rw [livesOf_congr hlives, deaths_congr hlives, refundsOf_congr hrefunds]
    exact h.balanced e he
  player := by
    intro e he
    rw [hentries] at he
    obtain ⟨p, hp, hid, harena⟩ := h.player e he
    obtain ⟨p', hp', hv⟩ := hplayers.exists_new hp
    simp only [seat, Prod.mk.injEq] at hv
    exact ⟨p', hp', hv.1.trans hid, hv.2.trans harena⟩
  life := by
    intro l hl
    obtain ⟨l', hl', hv⟩ := hlives.exists_old hl
    simp only [lifeAccount, Prod.mk.injEq] at hv
    obtain ⟨e, he, h1, h2, h3⟩ := h.life l' hl'
    rw [hentries]
    exact ⟨e, he, h1.trans hv.2.2.2.1, h2.trans hv.2.2.1, h3.trans hv.2.1⟩
  refund := by
    intro r hr
    obtain ⟨r', hr', hv⟩ := hrefunds.exists_old hr
    obtain ⟨e, he, hid⟩ := h.refund r' hr'
    rw [hentries]
    exact ⟨e, he, hid.trans (congrArg PayoutTerms.victimId hv)⟩

/-- A transaction that writes other tables only keeps the accounts. -/
theorem frame_eq (h : Accounts σ) (hplayers : σ'.participants = σ.participants)
    (hentries : σ'.entries = σ.entries) (hlives : σ'.lives = σ.lives)
    (hrefunds : σ'.refundPayouts = σ.refundPayouts) : Accounts σ' :=
  h.frame (.of_eq hplayers) hentries (.of_eq hlives) (.of_eq hrefunds)

/-- A write to the row of one entry, under which it stays balanced and keeps
its player and its arena. -/
theorem writeEntry (h : Accounts σ) {entry : Entry} (hentry : entry ∈ σ.entries)
    (f : Entry → Entry) (hf : ∀ e, (f e).id = e.id)
    (hentries : σ'.entries = σ.entries.updateKey entry.id f hf)
    (hkeep : (f entry).playerId = entry.playerId ∧ (f entry).arenaId = entry.arenaId)
    (hbal : Balanced (f entry) (σ'.livesOf entry.id) (σ'.deaths entry.id) (σ'.refundsOf entry.id))
    (hothers : ∀ id, id ≠ entry.id → σ'.livesOf id = σ.livesOf id ∧ σ'.deaths id = σ.deaths id
      ∧ σ'.refundsOf id = σ.refundsOf id)
    (hplayers : Table.Agree seat σ.participants σ'.participants)
    (hlives : ∀ l ∈ σ'.lives, ∃ l' ∈ σ.lives, l'.entryId = l.entryId ∧ l'.playerId = l.playerId
      ∧ l'.arenaId = l.arenaId)
    (hrefunds : ∀ r ∈ σ'.refundPayouts, (∃ r' ∈ σ.refundPayouts, r'.victimId = r.victimId)
      ∨ r.victimId = entry.id) : Accounts σ' := by
  have hnew : ∀ e ∈ σ'.entries, (e ∈ σ.entries ∧ e.id ≠ entry.id) ∨ e = f entry := by
    intro e he
    rw [hentries] at he
    rcases (Table.mem_updateKey hf).mp he with he | ⟨e', he', hid, rfl⟩
    · exact Or.inl he
    · rw [Table.mem_inj he' hentry hid]
      exact Or.inr rfl
  have hstill : ∀ e ∈ σ.entries, ∃ e' ∈ σ'.entries, e'.id = e.id ∧ e'.playerId = e.playerId
      ∧ e'.arenaId = e.arenaId := by
    intro e he
    rw [hentries]
    by_cases hid : e.id = entry.id
    · obtain rfl := Table.mem_inj he hentry hid
      exact ⟨f e, (Table.mem_updateKey hf).mpr (Or.inr ⟨e, he, rfl, rfl⟩), hf e, hkeep.1, hkeep.2⟩
    · exact ⟨e, (Table.mem_updateKey hf).mpr (Or.inl ⟨he, hid⟩), rfl, rfl, rfl⟩
  refine ⟨?_, ?_, ?_, ?_⟩
  · intro e he
    rcases hnew e he with ⟨he, hid⟩ | rfl
    · obtain ⟨h1, h2, h3⟩ := hothers e.id hid
      rw [h1, h2, h3]
      exact h.balanced e he
    · rw [hf entry]
      exact hbal
  · intro e he
    have : ∃ e₀ ∈ σ.entries, e₀.playerId = e.playerId ∧ e₀.arenaId = e.arenaId := by
      rcases hnew e he with ⟨he, -⟩ | rfl
      · exact ⟨e, he, rfl, rfl⟩
      · exact ⟨entry, hentry, hkeep.1.symm, hkeep.2.symm⟩
    obtain ⟨e₀, he₀, hp, ha⟩ := this
    obtain ⟨p, hp', hid, harena⟩ := h.player e₀ he₀
    obtain ⟨p', hmem, hv⟩ := hplayers.exists_new hp'
    simp only [seat, Prod.mk.injEq] at hv
    exact ⟨p', hmem, by rw [hv.1, hid, hp], by rw [hv.2, harena, ha]⟩
  · intro l hl
    obtain ⟨l', hl', h1, h2, h3⟩ := hlives l hl
    obtain ⟨e, he, e1, e2, e3⟩ := h.life l' hl'
    obtain ⟨e', he', f1, f2, f3⟩ := hstill e he
    exact ⟨e', he', by rw [f1, e1, h1], by rw [f2, e2, h2], by rw [f3, e3, h3]⟩
  · intro r hr
    have : ∃ e ∈ σ.entries, e.id = r.victimId := by
      rcases hrefunds r hr with ⟨r', hr', hv⟩ | hv
      · obtain ⟨e, he, hid⟩ := h.refund r' hr'
        exact ⟨e, he, hid.trans hv⟩
      · exact ⟨entry, hentry, hv.symm⟩
    obtain ⟨e, he, hid⟩ := this
    obtain ⟨e', he', f1, -, -⟩ := hstill e he
    exact ⟨e', he', f1.trans hid⟩

/-! ## The transactions that touch an entry or a life -/

/-- An id that no entry has is not the entry of a life. -/
theorem livesOf_eq_zero (h : Accounts σ) {id : Uid} (hid : ∀ e ∈ σ.entries, e.id ≠ id) :
    σ.livesOf id = 0 := by
  refine Table.count_eq_zero.mpr fun l hl => ?_
  obtain ⟨e, he, heid, -, -⟩ := h.life l hl
  simpa using fun hk => hid e he (heid.trans hk)

theorem deaths_le_livesOf (σ : Ledger) (id : Uid) : σ.deaths id ≤ σ.livesOf id := by
  refine List.countP_mono_left fun l _ hl => ?_
  simp only [Bool.and_eq_true] at hl
  exact hl.1

theorem refundsOf_eq_zero (h : Accounts σ) {id : Uid} (hid : ∀ e ∈ σ.entries, e.id ≠ id) :
    σ.refundsOf id = 0 := by
  refine Table.count_eq_zero.mpr fun r hr => ?_
  obtain ⟨e, he, heid⟩ := h.refund r hr
  simpa using fun hk => hid e he (heid.trans hk)

/-- A life and its entry belong to the same player. -/
theorem lifeEntry (h : Accounts σ) {l : Life} (hl : l ∈ σ.lives) {e : Entry}
    (he : e ∈ σ.entries) (hid : e.id = l.entryId) : e.playerId = l.playerId := by
  obtain ⟨e', he', hid', hplayer, -⟩ := h.life l hl
  obtain rfl : e' = e := Table.mem_inj he' he (hid'.trans hid.symm)
  exact hplayer

/-- A life belongs to a player of its arena. -/
theorem lifePlayer (h : Accounts σ) {l : Life} (hl : l ∈ σ.lives) :
    ∃ p ∈ σ.participants, p.id = l.playerId ∧ p.arenaId = l.arenaId := by
  obtain ⟨e, he, -, hplayer, harena⟩ := h.life l hl
  obtain ⟨p, hp, hid, ha⟩ := h.player e he
  exact ⟨p, hp, hid.trans hplayer, ha.trans harena⟩

theorem reserveEntry (h : Accounts σ) {env : Env} {arenaId token : String} {data : EntryInput}
    {entry : Entry} {new : Bool}
    (hrun : reserveEntry env arenaId token data σ = .ok ((entry, new), σ')) : Accounts σ' := by
  obtain ⟨row, hrow, -, ⟨-, -, rfl⟩ | ⟨-, arena, playerId, participants, entries, rfl, hplayer,
    rfl, -, hins, rfl⟩⟩ := reserveEntry_ok hrun
  · exact h.frame_eq rfl rfl rfl rfl
  · have harena : row.id = arenaId := Table.key_of_get? hrow
    have hfresh : ∀ e ∈ σ.entries, e.id ≠ env.uid 1 := (Table.insert?_eq_some.mp hins).1
    have hplayers : ∀ p ∈ σ.participants, p ∈ participants := by
      intro p hp
      cases hplayer with
      | known _ _ _ _ _ _ _ hsame => exact hsame ▸ hp
      | new _ _ _ _ _ _ hpins => exact (Table.mem_insert? hpins).mpr (Or.inl hp)
    refine ⟨?_, ?_, ?_, ?_⟩
    · intro e he
      rcases (Table.mem_insert? hins).mp he with he | rfl
      · exact h.balanced e he
      · -- No life and no refund can name the id of the new entry yet.
        have hl : σ.livesOf (env.uid 1) = 0 := h.livesOf_eq_zero hfresh
        have hr : σ.refundsOf (env.uid 1) = 0 := h.refundsOf_eq_zero hfresh
        refine ⟨fun _ => ⟨rfl, hl, hr⟩, fun hpaid => ?_, hr ▸ Nat.zero_le 1, fun _ => rfl⟩
        cases hpaid
    · intro e he
      rcases (Table.mem_insert? hins).mp he with he | rfl
      · obtain ⟨p, hp, hid, ha⟩ := h.player e he
        exact ⟨p, hplayers p hp, hid, ha⟩
      · cases hplayer with
        | known p hp hid ha _ _ _ hsame => exact ⟨p, hsame ▸ hp, hid, ha.trans harena.symm⟩
        | new p hid _ ha _ _ hpins =>
          exact ⟨p, (Table.mem_insert? hpins).mpr (Or.inr rfl), hid, ha.trans harena.symm⟩
    · intro l hl
      obtain ⟨e, he, hk⟩ := h.life l hl
      exact ⟨e, (Table.mem_insert? hins).mpr (Or.inl he), hk⟩
    · intro r hr
      obtain ⟨e, he, hk⟩ := h.refund r hr
      exact ⟨e, (Table.mem_insert? hins).mpr (Or.inl he), hk⟩

theorem recordInvoice (h : Accounts σ) {entryId : Uid} {payment : Payment}
    (hrun : recordInvoice entryId payment σ = .ok σ') : Accounts σ' := by
  obtain rfl | ⟨entry, hget, hcreating, -, -, rfl⟩ := recordInvoice_ok hrun
  · exact h
  · obtain ⟨hentry, rfl⟩ := Table.get?_eq_some.mp hget
    obtain ⟨h1, h2, h3⟩ := (h.balanced entry hentry).unpaid (by simp [hcreating])
    refine h.writeEntry hentry (invoiced payment) (fun _ => rfl) rfl ⟨rfl, rfl⟩ ?_
      (fun _ _ => ⟨rfl, rfl, rfl⟩) (.refl _ _) (fun l hl => ⟨l, hl, rfl, rfl, rfl⟩)
      (fun r hr => Or.inl ⟨r, hr, rfl⟩)
    refine ⟨fun _ => ⟨h1, h2, h3⟩, fun hpaid => ?_, (h.balanced entry hentry).once, fun _ => h1⟩
    cases hpaid

theorem creditLedger (h : Accounts σ) {entry : Entry} (hentry : entry ∈ σ.entries)
    (hun : entry.status.unsettled = true) (payment : Payment) :
    Accounts (σ.creditLedger entry payment) := by
  have hne : entry.status ≠ .paid := fun hp => by simp [hp, EntryStatus.unsettled] at hun
  obtain ⟨-, h2, h3⟩ := (h.balanced entry hentry).unpaid hne
  have hdead : σ.deaths entry.id = 0 := Nat.le_zero.mp (h2 ▸ deaths_le_livesOf σ entry.id)
  refine h.writeEntry hentry (credited payment) (fun _ => rfl) rfl ⟨rfl, rfl⟩ ?_
    (fun _ _ => ⟨rfl, rfl, rfl⟩) (.refl _ _) (fun l hl => ⟨l, hl, rfl, rfl, rfl⟩)
    (fun r hr => Or.inl ⟨r, hr, rfl⟩)
  have hrefunds : (σ.creditLedger entry payment).refundsOf entry.id = 0 := h3
  refine ⟨fun hn => absurd rfl hn, fun _ _ => ?_, hrefunds ▸ Nat.zero_le 1, fun h1 => ?_⟩
  · show 5 + σ.deaths entry.id = 5
    rw [hdead]
  · omega

/-- A refund is one row for the entry, and leaves it empty. -/
theorem refundEntry (h : Accounts σ) {env : Env} {k : Nat} {entry : Entry} {arena : Arena}
    (hentry : ∃ e ∈ σ.entries, e.id = entry.id ∧ e.status = .paid)
    (hrun : refundEntry env k entry arena σ = .ok σ') : Accounts σ' := by
  obtain ⟨-, rfl⟩ | ⟨-, -, hfresh, -, refunds, fees, hins, -, rfl⟩ := refundEntry_ok hrun
  · exact h
  · obtain ⟨e, he, hid, hpaid⟩ := hentry
    have hnone : σ.refundsOf e.id = 0 :=
      Table.count_eq_zero.mpr fun r hr => by simpa [hid] using hfresh r hr
    have hcount : ∀ id, refunds.count (fun r => r.victimId = id)
        = σ.refundsOf id + if entry.id = id then 1 else 0 := by
      intro id
      rw [Table.count_insert? hins]
      by_cases hk : entry.id = id <;> simp [refundRow, newPayout, refundsOf, hk]
    refine h.writeEntry he emptied (fun _ => rfl) ?_ ⟨rfl, rfl⟩ ?_ ?_ (.refl _ _)
      (fun l hl => ⟨l, hl, rfl, rfl, rfl⟩) ?_
    · simp only [hid]
    · have hone : refunds.count (fun r => r.victimId = e.id) = 1 := by
        rw [hcount, hnone, if_pos hid.symm]
      refine ⟨fun hn => absurd hpaid hn, fun _ hz => ?_, hone.le, fun _ => rfl⟩
      exact absurd (hone.symm.trans hz) one_ne_zero
    · intro id hne
      refine ⟨rfl, rfl, ?_⟩
      show refunds.count (fun r => r.victimId = id) = _
      rw [hcount, if_neg (fun hk => hne (hk.symm.trans hid.symm)), Nat.add_zero]
    · intro r hr
      rcases (Table.mem_insert? hins).mp hr with hr | rfl
      · exact Or.inl ⟨r, hr, rfl⟩
      · exact Or.inr hid.symm

/-- The loop of `finish_leave`, over entries of the ledger. -/
theorem refundEntries (h : Accounts σ) {env : Env} {k : Nat} {entries : List Entry}
    {arena : Arena} (hentries : ∀ entry ∈ entries, entry ∈ σ.entries ∧ entry.status = .paid)
    (hrun : refundEntries env arena k entries σ = .ok σ') : Accounts σ' := by
  -- The refunded entries empty one after the other, so the rows of `σ` are
  -- found again in the later ledgers up to `remaining` only.
  have hP : Accounts σ ∧ Table.Agree emptied σ.entries σ.entries := ⟨h, .refl _ _⟩
  refine (refundEntries_ok (P := fun τ => Accounts τ ∧ Table.Agree emptied σ.entries τ.entries)
    ?_ hP hrun).1
  rintro entry hmem k τ τ' ⟨hτ, hagree⟩ hone
  obtain ⟨hentry, hpaid⟩ := hentries entry hmem
  obtain ⟨e, he, hv⟩ := hagree.exists_new hentry
  refine ⟨hτ.refundEntry ⟨e, he, ?_, ?_⟩ hone, hagree.trans (refundEntry_agree hone)⟩
  · simpa [emptied] using congrArg Entry.id hv
  · rw [← hpaid]
    simpa [emptied] using congrArg Entry.status hv

theorem finishLeave (h : Accounts σ) {env : Env} {playerId revokedRun : Uid}
    (hrun : finishLeave env playerId revokedRun σ = .ok σ') : Accounts σ' := by
  obtain ⟨player, -, row, -, ⟨-, rfl⟩ | ⟨-, -, σ₂, hrefunds, rfl⟩⟩ := finishLeave_ok hrun
  · exact h.frame_eq rfl rfl rfl rfl
  · have h₁ : Accounts (σ.bumpArena player.arenaId) := h.frame_eq rfl rfl rfl rfl
    have h₂ : Accounts σ₂ := by
      refine h₁.refundEntries (fun entry hentry => ?_) hrefunds
      obtain ⟨hmem, hp⟩ := Table.mem_select.mp hentry
      simp only [Bool.and_eq_true, decide_eq_true_eq] at hp
      exact ⟨hmem, hp.1.2⟩
    refine h₂.frame (Table.agree_updateKey (fun _ _ _ => by rfl) fun _ => by rfl) rfl
      (Table.agree_update (fun l _ hl => ?_) fun _ => by rfl) (.refl _ _)
    -- An open life is not dead, and a refunded one is not either.
    simp only [Bool.and_eq_true] at hl
    have hdead : l.status ≠ .dead := fun hd => by simp [hd, LifeStatus.open] at hl
    simp [lifeAccount, refunded, hdead]

/-- A death takes one life from the entry and adds it to the dead ones. -/
theorem spent (h : Accounts σ) (env : Env) {entry : Entry} {victim : Life} (killerId : Uid)
    (hentry : entry ∈ σ.entries) (hvictim : victim ∈ σ.lives) (hof : victim.entryId = entry.id)
    (halive : victim.status ≠ .dead) (hpos : 0 < entry.remaining) :
    Accounts (σ.spent env entry victim killerId) := by
  have hget : σ.lives.get? victim.id = some victim := Table.get?_key hvictim
  have hlives : ∀ id, (σ.spent env entry victim killerId).livesOf id = σ.livesOf id := by
    intro id
    exact Table.count_update_of_eq (fun _ _ _ => by rfl) fun _ => by rfl
  have hdeaths : ∀ id, (σ.spent env entry victim killerId).deaths id
      = σ.deaths id + if entry.id = id then 1 else 0 := by
    intro id
    have : (σ.spent env entry victim killerId).deaths id + _ = σ.deaths id + _ :=
      Table.count_updateKey hget _ fun _ => by rfl
    by_cases hid : entry.id = id <;> simpa [killed, hof, halive, hid] using this
  obtain ⟨h1, h2, h3, h4⟩ := h.balanced entry hentry
  have hpaid : entry.status = .paid := by
    by_contra hn
    exact absurd (h1 hn).1 hpos.ne'
  have hnone : σ.refundsOf entry.id = 0 := by
    by_contra hr
    exact absurd (h4 (by omega)) hpos.ne'
  refine h.writeEntry hentry charged (fun _ => rfl) rfl ⟨rfl, rfl⟩ ?_ ?_ (.refl _ _) ?_
    (fun r hr => Or.inl ⟨r, hr, rfl⟩)
  · refine ⟨fun hn => absurd hpaid hn, fun _ _ => ?_, h3, fun hr => absurd hr ?_⟩
    · rw [hdeaths, if_pos rfl]
      show entry.remaining - 1 + (σ.deaths entry.id + 1) = 5
      have := h2 hpaid hnone
      omega
    · show σ.refundsOf entry.id ≠ 1
      omega
  · intro id hid
    refine ⟨hlives id, ?_, rfl⟩
    rw [hdeaths, if_neg (Ne.symm hid), Nat.add_zero]
  · intro l hl
    rcases (Table.mem_updateKey fun _ => by rfl).mp hl with ⟨hl, -⟩ | ⟨l', hl', -, rfl⟩
    · exact ⟨l, hl, rfl, rfl, rfl⟩
    · exact ⟨l', hl', rfl, rfl, rfl⟩

theorem consumeDeath (h : Accounts σ) {env : Env} {runId victimId killerId arenaId : Uid}
    {sequence : Int}
    (hrun : consumeDeath env runId sequence victimId killerId σ = .ok (arenaId, σ')) :
    Accounts σ' := by
  obtain ⟨run, -, -, row, -, ⟨-, rfl⟩ | ⟨-, victim, hvictim, -, -, σ₂, hσ₂, rfl⟩⟩ :=
    consumeDeath_ok hrun
  · exact h.frame_eq rfl rfl rfl rfl
  · obtain ⟨-, rfl⟩ | ⟨halive, entry, hentry, hpos, hpaid⟩ := hσ₂
    · exact h.frame_eq rfl rfl rfl rfl
    · obtain ⟨hentry, hof⟩ := Table.get?_eq_some.mp hentry
      have h₁ : Accounts (σ.bumpArena run.arenaId) := h.frame_eq rfl rfl rfl rfl
      have h₂ := h₁.spent env killerId hentry
        (Table.mem_of_get? hvictim) hof.symm halive hpos
      rw [hpaid.only]
      exact h₂.frame_eq rfl rfl rfl rfl

theorem allocateLife (h : Accounts σ) {env : Env} {arenaId token runId : Uid} {life : Life}
    (hrun : allocateLife env arenaId token runId σ = .ok (life, σ')) : Accounts σ' := by
  obtain ⟨row, -, -, -, -, player, hplayer, harena, -, -, hadm⟩ := allocateLife_ok hrun
  cases hadm with
  | again _ _ _ _ eq =>
    subst eq
    exact h.frame_eq rfl rfl rfl rfl
  | resume old current _ _ _ slot _ _ ledger =>
    subst ledger
    obtain ⟨hold, -, hopen⟩ := currentLife_mem current
    refine h.frame (.refl _ _) rfl (Table.agree_updateKey (fun l hl hid =>
      ?_) fun _ => by rfl) (.refl _ _)
    obtain rfl := Table.mem_inj hl hold hid
    have hdead : l.status ≠ .dead := fun hd => by simp [hd, LifeStatus.open] at hopen
    simp [lifeAccount, resumed, hdead]
  | new _ entry funded slot _ eq lives insert ledger =>
    subst ledger
    obtain ⟨hentry, hof, hpaid, -⟩ := fundedEntry_mem funded
    have hlife : life.status = .alive ∧ life.entryId = entry.id ∧ life.playerId = player.id
        ∧ life.arenaId = arenaId := by
      subst eq
      exact ⟨rfl, rfl, rfl, rfl⟩
    refine ⟨?_, h.player, ?_, h.refund⟩
    · intro e he
      obtain ⟨h1, h2, h3, h4⟩ := h.balanced e he
      have hdeaths : lives.count (fun l => l.entryId = e.id && l.status = .dead)
          = σ.deaths e.id := by
        rw [Table.count_insert? insert]
        simp [hlife.1, deaths]
      have hlives : e.status ≠ .paid → lives.count (fun l => l.entryId = e.id)
          = σ.livesOf e.id := by
        intro hn
        rw [Table.count_insert? insert, hlife.2.1]
        have hne : entry.id ≠ e.id := fun hid => hn (Table.mem_inj hentry he hid ▸ hpaid)
        simp [hne, livesOf]
      refine ⟨fun hn => ?_, fun hp hz => ?_, h3, h4⟩
      · obtain ⟨hz, hl, hr⟩ := h1 hn
        exact ⟨hz, (hlives hn).trans hl, hr⟩
      · exact (congrArg (e.remaining + ·) hdeaths).trans (h2 hp hz)
    · intro l hl
      rcases (Table.mem_insert? insert).mp hl with hl | rfl
      · exact h.life l hl
      · obtain ⟨p, hp, hid, ha⟩ := h.player entry hentry
        obtain rfl : p = player := Table.mem_inj hp hplayer (hid.trans hof)
        exact ⟨entry, hentry, hlife.2.1.symm, by rw [hof, hlife.2.2.1],
          by rw [← ha, harena, hlife.2.2.2]⟩

theorem settleEntry (h : Accounts σ) {env : Env} {payment : Payment} {arena? : Option Uid}
    (hrun : settleEntry env payment σ = .ok (arena?, σ')) : Accounts σ' := by
  obtain rfl | ⟨-, -, -, entry, -, hentry, -, -, -, hcredit⟩ := settleEntry_ok hrun
  · exact h
  · cases hcredit with
    | again _ eq =>
      subst eq
      exact h.frame_eq rfl rfl rfl rfl
    | first unsettled _ player _ staying leaving left =>
      have hcredit := h.creditLedger hentry unsettled payment
      cases hs : player.leaveState with
      | none =>
        rw [staying hs]
        exact hcredit.frame (Table.agree_updateKey (fun _ _ _ => by rfl) fun _ => by rfl) rfl
          (.refl _ _) (.refl _ _)
      | leaving =>
        rw [leaving hs]
        exact hcredit
      | left =>
        obtain ⟨row, -, hrefund⟩ := left hs
        refine hcredit.refundEntry ⟨credited payment entry, ?_, rfl, rfl⟩ hrefund
        exact (Table.mem_updateKey fun _ => by rfl).mpr (Or.inr ⟨entry, hentry, rfl, rfl⟩)

/-- The update that ends a run takes no life out of the dead ones. -/
theorem releaseLives_agree (σ : Ledger) (runId : Uid) :
    Table.Agree lifeAccount σ.lives (σ.releaseLives runId).lives := by
  refine Table.agree_update (fun l _ hl => ?_) fun _ => by rfl
  simp only [Bool.and_eq_true, decide_eq_true_eq] at hl
  simp [lifeAccount, hl.2]

/-- Every transaction keeps the accounts. -/
theorem step {env : Env} {a : Action} (h : Accounts σ) (hrun : perform env a σ = .ok σ') :
    Accounts σ' := by
  cases perform_effect hrun with
  | other participants entries lives outbox =>
    exact h.frame (.of_eq participants) entries (.of_eq lives) (outbox .refundPayouts)
  | reserve _ _ _ _ _ run => exact h.reserveEntry run
  | invoice _ _ run => exact h.recordInvoice run
  | settle _ _ run => exact h.settleEntry run
  | death _ _ _ _ _ run => exact h.consumeDeath run
  | allocate _ _ _ _ run => exact h.allocateLife run
  | request arenaId token player run =>
    obtain ⟨p, -, -, -, ⟨-, -, rfl⟩ | ⟨-, -, -, rfl⟩⟩ := requestLeave_ok run
    · exact h.frame_eq rfl rfl rfl rfl
    · exact h.frame (Table.agree_updateKey (fun _ _ _ => by rfl) fun _ => by rfl) rfl
        (.refl _ _) (.refl _ _)
  | finish _ _ run => exact h.finishLeave run
  | release runId participants entries lives outbox =>
    exact h.frame (.of_eq participants) entries (lives ▸ releaseLives_agree σ runId)
      (.of_eq (outbox .refundPayouts))
  | renew participants entries lives outbox =>
    exact h.frame (.of_eq participants) entries (lives.map lifeAccount
      (g := lifeAccount) fun _ => rfl)
      (.of_eq (outbox .refundPayouts))

/-- The accounts hold in every reachable ledger. -/
theorem of_reachable {ok : Env → Ledger → Prop} (h : Reachable ok σ) : Accounts σ :=
  h.invariant Accounts.empty fun _ _ _ _ hσ _ hrun => hσ.step hrun

end Accounts

end QuakeJs
