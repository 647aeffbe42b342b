import QuakeJs.Ledger.Admissions

/-!
# The laws of the life ledger

The two results about lives that every run of the ledger obeys: where the
five lives of an entry are, and who may hold a life.
-/

namespace QuakeJs

open Ledger

/-- The invariants of the lives and the entries. -/
structure Sound (σ : Ledger) : Prop where
  accounts : Accounts σ
  exclusive : Exclusive σ.lives
  funded : Funded σ

namespace Sound

variable {σ σ' : Ledger}

theorem empty : Sound Ledger.empty := ⟨.empty, .empty, .empty⟩

theorem step (h : Sound σ) {env : Env} {a : Action} (hrun : perform env a σ = .ok σ') :
    Sound σ' where
  accounts := h.accounts.step hrun
  exclusive := h.exclusive.step h.accounts hrun
  funded := h.funded.step h.accounts h.exclusive hrun

theorem of_reachable {ok : Env → Ledger → Prop} (h : Reachable ok σ) : Sound σ :=
  h.invariant Sound.empty fun _ _ _ _ hσ _ hrun => hσ.step hrun

end Sound

/-- No transaction moves a life out of `dead` or `refunded`. -/
theorem ended_stays {env : Env} {a : Action} {σ σ' : Ledger} (h : Sound σ)
    (hrun : perform env a σ = .ok σ') {l : Life} (hl : l ∈ σ.lives)
    (hended : l.status = .dead ∨ l.status = .refunded) :
    ∃ l' ∈ σ'.lives, l'.id = l.id ∧ l'.status = l.status := by
  have hclosed : l.status.open = false := by
    rcases hended with hs | hs <;> rw [hs] <;> rfl
  cases perform_effect hrun with
  | other _ _ lives _ => exact ⟨l, lives ▸ hl, rfl, rfl⟩
  | reserve _ _ _ _ _ run =>
    obtain ⟨_, -, -, ⟨-, -, rfl⟩ | ⟨-, _, _, _, _, -, -, -, -, -, rfl⟩⟩ := reserveEntry_ok run
    · exact ⟨l, hl, rfl, rfl⟩
    · exact ⟨l, hl, rfl, rfl⟩
  | invoice _ _ run =>
    obtain rfl | ⟨_, -, -, -, -, rfl⟩ := recordInvoice_ok run
    · exact ⟨l, hl, rfl, rfl⟩
    · exact ⟨l, hl, rfl, rfl⟩
  | settle _ _ run => exact ⟨l, (settleEntry_lives run).symm ▸ hl, rfl, rfl⟩
  | death _ _ _ _ _ run =>
    obtain ⟨run', -, -, _, -, ⟨-, rfl⟩ | ⟨-, victim, hvictim, -, -, σ₂, hσ₂, rfl⟩⟩ :=
      consumeDeath_ok run
    · exact ⟨l, hl, rfl, rfl⟩
    · obtain ⟨-, rfl⟩ | ⟨halive, entry, hentry, hpos, hpaid⟩ := hσ₂
      · exact ⟨l, hl, rfl, rfl⟩
      · rw [hpaid.only]
        refine ⟨l, Table.mem_updateKey_of_ne hl fun hid => ?_, rfl, rfl⟩
        obtain rfl : l = victim :=
          Table.mem_inj hl (Table.mem_of_get? hvictim) (hid.trans rfl)
        rcases hended with hs | hs
        · exact halive hs
        · obtain ⟨e, he, heid, -, hzero⟩ := h.funded.refunded l hl hs
          obtain ⟨hentry, hkey⟩ := Table.get?_eq_some.mp hentry
          obtain rfl : e = entry := Table.mem_inj he hentry (heid.trans hkey.symm)
          omega
  | allocate _ _ _ life run =>
    obtain ⟨_, -, -, -, -, _, -, -, -, -, hadm⟩ := allocateLife_ok run
    cases hadm with
    | again _ _ _ _ eq => exact ⟨l, eq ▸ hl, rfl, rfl⟩
    | resume old current _ _ _ slot _ _ ledger =>
      obtain ⟨hold, -, hopen⟩ := currentLife_mem current
      rw [ledger]
      refine ⟨l, Table.mem_updateKey_of_ne hl fun hid => ?_, rfl, rfl⟩
      rw [Table.mem_inj hl hold hid, hopen] at hclosed
      cases hclosed
    | new _ _ _ _ _ _ lives insert ledger =>
      rw [ledger]
      exact ⟨l, (Table.mem_insert? insert).mpr (Or.inl hl), rfl, rfl⟩
  | request _ _ _ run =>
    obtain ⟨_, -, -, -, ⟨-, -, rfl⟩ | ⟨-, -, -, rfl⟩⟩ := requestLeave_ok run
    · exact ⟨l, hl, rfl, rfl⟩
    · exact ⟨l, hl, rfl, rfl⟩
  | finish _ _ run =>
    obtain ⟨_, -, _, -, ⟨-, rfl⟩ | ⟨-, -, σ₂, hrefunds, rfl⟩⟩ := finishLeave_ok run
    · exact ⟨l, hl, rfl, rfl⟩
    · rw [refundEntries_only hrefunds]
      exact ⟨l, Table.mem_update_of_not hl (by rw [hclosed, Bool.and_false]), rfl, rfl⟩
  | release runId _ _ lives _ =>
    rw [lives]
    have halive : l.status ≠ .alive := fun ha => by simp [ha, LifeStatus.open] at hclosed
    exact ⟨l, Table.mem_update_of_not hl
      (by rw [decide_eq_false halive, Bool.and_false]), rfl, rfl⟩
  | renew _ _ lives _ =>
    obtain ⟨l', hl', hv⟩ := lives.exists_new hl
    simp only [Life.still, Life.mk.injEq] at hv
    exact ⟨l', hl', hv.1, hv.2.2.2.2.2.1⟩

/-! ## A game to check the laws on -/

namespace Duel

/-- The environment of the step `i`: a clock that moves, and ids that are
longer than those of the steps before. -/
def tick (i : Nat) : Env where
  now := 1000 + i
  timeNs := 1000 + i
  uid := fun n => String.ofList (List.replicate (2 * i + n + 1) 'f')
  sha256 := id

/-- The token of a player, from one hexadecimal digit. -/
def token (digit : Char) : String := String.ofList (List.replicate 48 digit)

/-- The payment of an entry of 100 sats. -/
def payment (entryId : Uid) (hash : String) : Payment where
  walletId := "wallet"
  amount := 100000
  paymentHash := hash
  bolt11 := "lnbc"
  success := true
  pending := false
  failed := false
  isIn := true
  isOut := false
  tag := some "quakejs"
  quakejsEntry := some entryId
  quakejsPayout := none
  quakejsVictim := none
  quakejsKind := none

theorem price_ge : (100 : Int) ≤ 100 := by decide
theorem price_le : (100 : Int) ≤ 1000000 := by decide

def arenaId : Uid := (tick 1).uid 0
def runId : Uid := (tick 6).uid 0

/-- The entries of the two players. -/
def entryA : Uid := (tick 2).uid 1
def entryB : Uid := (tick 3).uid 1

/-- The lives of the two players. -/
def lifeA : Uid := (tick 8).uid 0
def lifeB : Uid := (tick 9).uid 0

/-- Two players buy an entry each and are admitted. -/
def opening : List (Env × Action) :=
  [(tick 0, .saveSettings "owner" "wallet" true 10 true),
    (tick 1, .createArena "owner" ⟨"game", 100, "oa_dm7", by decide, by decide⟩),
    (tick 2, .reserveEntry arenaId (token 'a') ⟨"a@ln", "nonce", "A"⟩),
    (tick 3, .reserveEntry arenaId (token 'b') ⟨"b@ln", "nonce", "B"⟩),
    (tick 4, .settleEntry (payment entryA "hashA")),
    (tick 5, .settleEntry (payment entryB "hashB")),
    (tick 6, .leaseArena "worker" arenaId),
    (tick 7, .insertRun runId arenaId "worker"),
    (tick 8, .allocateLife arenaId (token 'a') runId),
    (tick 9, .allocateLife arenaId (token 'b') runId)]

/-- The second player kills the first one. -/
def slay : Env × Action := (tick 10, .consumeDeath runId 1 lifeA lifeB)

/-- The second player asks to leave. -/
def ask : Env × Action := (tick 11, .requestLeave arenaId (token 'b'))

/-- The second player kills the first one, and leaves. -/
def duel : List (Env × Action) :=
  opening ++ [(tick 10, .consumeDeath runId 1 lifeA lifeB),
    (tick 11, .requestLeave arenaId (token 'b')),
    (tick 12, .finishLeave ((tick 3).uid 0) runId)]

/-- The duel up to the request to leave. -/
def leaving : List (Env × Action) :=
  opening ++ [(tick 10, .consumeDeath runId 1 lifeA lifeB),
    (tick 11, .requestLeave arenaId (token 'b'))]

/-- The last step of the duel. -/
def leave : Env × Action := (tick 12, .finishLeave ((tick 3).uid 0) runId)

/-- Every id of a ledger has at most `m` characters. -/
def Short (σ : Ledger) (m : Nat) : Prop :=
  (∀ a ∈ σ.arenas, a.id.length ≤ m ∧ a.runId.length ≤ m)
    ∧ (∀ p ∈ σ.participants, p.id.length ≤ m) ∧ (∀ e ∈ σ.entries, e.id.length ≤ m)
    ∧ (∀ l ∈ σ.lives, l.id.length ≤ m) ∧ (∀ r ∈ σ.runs, r.id.length ≤ m)
    ∧ (∀ r ∈ σ.payouts, r.id.length ≤ m) ∧ (∀ r ∈ σ.creatorPayouts, r.id.length ≤ m)
    ∧ ∀ r ∈ σ.refundPayouts, r.id.length ≤ m

instance (σ : Ledger) (m : Nat) : Decidable (Short σ m) :=
  inferInstanceAs (Decidable (_ ∧ _ ∧ _ ∧ _ ∧ _ ∧ _ ∧ _ ∧ _))

theorem length_tick (i n : Nat) : ((tick i).uid n).length = 2 * i + n + 1 := by
  show (String.ofList (List.replicate (2 * i + n + 1) 'f')).length = _
  rw [String.length_ofList, List.length_replicate]

/-- The ids of a step are fresh in a ledger whose ids are shorter. -/
theorem tick_fresh {σ : Ledger} {env : Env} {i : Nat} (huid : env.uid = (tick i).uid)
    (h : Short σ (2 * i)) : env.Fresh σ := by
  obtain ⟨harenas, hplayers, hentries, hlives, hruns, hkills, hfees, hrefunds⟩ := h
  have hlength : ∀ n, (env.uid n).length = 2 * i + n + 1 := by
    intro n
    rw [huid]
    exact length_tick i n
  have hne : ∀ n (id : Uid), id.length ≤ 2 * i → id ≠ env.uid n := by
    intro n id hle heq
    have := hlength n
    rw [← heq] at this
    omega
  refine ⟨?_, ?_, ?_, ?_, ?_, ?_, ?_, ?_, ?_⟩
  · intro m n heq
    have h1 := hlength m
    have h2 := hlength n
    rw [heq] at h1
    omega
  · exact fun n heq => hne n "" (Nat.zero_le _) heq.symm
  · exact fun n => Table.get?_eq_none.mpr fun a ha => hne n a.id (harenas a ha).1
  · exact fun n => Table.get?_eq_none.mpr fun p hp => hne n p.id (hplayers p hp)
  · exact fun n => Table.get?_eq_none.mpr fun e he => hne n e.id (hentries e he)
  · exact fun n => Table.get?_eq_none.mpr fun l hl => hne n l.id (hlives l hl)
  · exact fun n => Table.get?_eq_none.mpr fun r hr => hne n r.id (hruns r hr)
  · exact fun n a ha => hne n a.runId (harenas a ha).2
  · intro n k
    cases k with
    | payouts => exact Table.get?_eq_none.mpr fun r hr => hne n r.id (hkills r hr)
    | creatorPayouts => exact Table.get?_eq_none.mpr fun r hr => hne n r.id (hfees r hr)
    | refundPayouts => exact Table.get?_eq_none.mpr fun r hr => hne n r.id (hrefunds r hr)

theorem follows_fresh {script : List (Env × Action)} {σ : Ledger}
    (hticks : ∀ step ∈ script, ∃ i, step.1.uid = (tick i).uid)
    (h : Follows (fun env σ => Short σ ((env.uid 0).length - 1)) σ script) :
    Follows Env.Fresh σ script := by
  induction script generalizing σ with
  | nil => trivial
  | cons step script ih =>
    obtain ⟨i, hi⟩ := hticks step List.mem_cons_self
    have hshort : Short σ ((step.1.uid 0).length - 1) := h.1
    rw [hi, length_tick, Nat.add_zero, Nat.add_sub_cancel] at hshort
    exact ⟨tick_fresh hi hshort, ih (fun s hs => hticks s (List.mem_cons_of_mem step hs)) h.2⟩

/-- The ids and the times of the duel are fresh, and its kill and its last
step commit. -/
theorem duel_evaluates :
    Follows (fun env σ => Short σ ((env.uid 0).length - 1)) Ledger.empty duel
      ∧ Follows Env.Later Ledger.empty duel
      ∧ (perform slay.1 slay.2 (ledgerAfter opening)).toOption.isSome = true
      ∧ (perform leave.1 leave.2 (ledgerAfter leaving)).toOption.isSome = true
      ∧ (ledgerAfter duel).deaths entryA = 1 ∧ (ledgerAfter duel).refundsOf entryB = 1
      ∧ ∃ l ∈ (ledgerAfter opening).lives, l.id = lifeB ∧ l.status = .alive := by
  decide +kernel

theorem follows_duel : Follows Env.Fresh Ledger.empty duel := by
  refine follows_fresh ?_ duel_evaluates.1
  simp only [duel, opening, List.cons_append, List.nil_append, List.forall_mem_cons]
  refine ⟨⟨_, rfl⟩, ⟨_, rfl⟩, ⟨_, rfl⟩, ⟨_, rfl⟩, ⟨_, rfl⟩,
    ⟨_, rfl⟩, ⟨_, rfl⟩, ⟨_, rfl⟩, ⟨_, rfl⟩,
    ⟨_, rfl⟩, ⟨_, rfl⟩, ⟨_, rfl⟩, ⟨_, rfl⟩, ?_⟩
  exact fun _ h => absurd h List.not_mem_nil

theorem follows_opening : Follows Env.Fresh Ledger.empty opening ∧
    Follows Env.Fresh (ledgerAfter opening) [slay, ask, leave] :=
  follows_append.mp follows_duel

theorem follows_leaving : Follows Env.Fresh Ledger.empty leaving ∧
    Follows Env.Fresh (ledgerAfter leaving) [leave] := by
  have hduel : duel = leaving ++ [leave] := rfl
  have hfollows := follows_duel
  rw [hduel] at hfollows
  exact follows_append.mp hfollows

theorem reachable_opening : Reachable Env.Fresh (ledgerAfter opening) :=
  .ledgerAfter follows_opening.1

theorem fresh_slay : slay.1.Fresh (ledgerAfter opening) := follows_opening.2.1

theorem perform_slay :
    perform slay.1 slay.2 (ledgerAfter opening) = .ok (commit (ledgerAfter opening) slay) :=
  perform_commit duel_evaluates.2.2.1

theorem reachable_leaving : Reachable Env.Fresh (ledgerAfter leaving) :=
  .ledgerAfter follows_leaving.1

theorem fresh_leave : leave.1.Fresh (ledgerAfter leaving) := follows_leaving.2.1

theorem perform_leave : perform leave.1 leave.2 (ledgerAfter leaving) = .ok
    (ledgerAfter duel) := by
  have hduel : duel = leaving ++ [leave] := rfl
  rw [hduel, ledgerAfter_concat]
  exact perform_commit duel_evaluates.2.2.2.1

theorem reachable_duel : Reachable Env.Fresh (ledgerAfter duel) :=
  .step leave.1 leave.2 reachable_leaving fresh_leave perform_leave

end Duel

open Duel

/-! ## The laws -/

/-- Life conservation.  An unpaid entry holds no lives and none refers to it,
the lives of a paid entry are the remaining ones and the dead ones until it
is refunded, and a refund is the only one and leaves nothing.  A life that
has ended stays ended. -/
theorem life_conservation {ok : Env → Ledger → Prop} {σ : Ledger} (h : Reachable ok σ) :
    (∀ e ∈ σ.entries,
      (e.status.unsettled = true → e.remaining = 0 ∧ ∀ l ∈ σ.lives, l.entryId ≠ e.id)
      ∧ (e.status = .paid → (∀ r ∈ σ.refundPayouts, r.victimId ≠ e.id) →
          e.remaining + σ.deaths e.id = 5)
      ∧ (∀ r ∈ σ.refundPayouts, r.victimId = e.id →
          (∀ r' ∈ σ.refundPayouts, r'.victimId = e.id → r' = r) ∧ e.remaining = 0))
    ∧ ∀ env a σ', perform env a σ = .ok σ' →
        ∀ l ∈ σ.lives, l.status = .dead ∨ l.status = .refunded →
          ∃ l' ∈ σ'.lives, l'.id = l.id ∧ l'.status = l.status := by
  have hs := Sound.of_reachable h
  refine ⟨fun e he => ?_, fun env a σ' hrun l hl hended => ended_stays hs hrun hl hended⟩
  obtain ⟨h1, h2, h3, h4⟩ := hs.accounts.balanced e he
  refine ⟨fun hun => ?_, fun hpaid hnone => ?_, fun r hr hvictim => ?_⟩
  · obtain ⟨hzero, hlives, -⟩ := h1 fun hp => by simp [hp, EntryStatus.unsettled] at hun
    exact ⟨hzero, fun l hl => by simpa using Table.count_eq_zero.mp hlives l hl⟩
  · exact h2 hpaid (Table.count_eq_zero.mpr fun r hr => by simpa using hnone r hr)
  · have hpos : σ.refundsOf e.id ≠ 0 := fun hz => by
      simpa [hvictim] using Table.count_eq_zero.mp hz r hr
    refine ⟨fun r' hr' hv' => ?_, h4 (by omega)⟩
    exact Table.eq_of_count_le_one h3 hr' hr (by simpa using hv') (by simpa using hvictim)

theorem life_conservation_duel :
    (ledgerAfter duel).deaths entryA = 1 ∧ (ledgerAfter duel).refundsOf entryB = 1
    ∧ ∀ e ∈ (ledgerAfter duel).entries, e.status = .paid →
        (∀ r ∈ (ledgerAfter duel).refundPayouts, r.victimId ≠ e.id) →
          e.remaining + (ledgerAfter duel).deaths e.id = 5 :=
  have h : Reachable Env.Later (ledgerAfter duel) := .ledgerAfter duel_evaluates.2.1
  have hends := duel_evaluates.2.2.2.2
  ⟨hends.1, hends.2.1, fun e he => ((life_conservation h).1 e he).2.1⟩

/-- Admissions are exclusive and funded.  While the clock moves, a player has
at most one open life, which is the newest one and has a paid entry that
still holds lives, the player has not left, and the alive lives of an arena
are in distinct slots from 1 to 8. -/
theorem admissions_exclusive {σ : Ledger} (h : Reachable Env.Later σ) :
    (∀ p ∈ σ.participants, σ.lives.count (fun l => l.playerId = p.id && l.status.open) ≤ 1)
    ∧ (∀ l ∈ σ.lives, l.status.open = true →
        (∀ l' ∈ σ.lives, l'.playerId = l.playerId → l' ≠ l → l'.createdAt < l.createdAt)
        ∧ σ.newestLife l.playerId = some l
        ∧ (∃ e ∈ σ.entries, e.id = l.entryId ∧ e.status = .paid ∧ 1 ≤ e.remaining)
        ∧ ∃ p ∈ σ.participants, p.id = l.playerId ∧ p.leaveState ≠ .left)
    ∧ (∀ l ∈ σ.lives, l.status = .alive → 1 ≤ l.slot ∧ l.slot ≤ 8)
    ∧ (∀ l ∈ σ.lives, ∀ l' ∈ σ.lives, l.arenaId = l'.arenaId → l.status = .alive →
        l'.status = .alive → l.slot = l'.slot → l = l')
    ∧ ∀ arenaId, σ.lives.count (fun l => l.arenaId = arenaId && l.status = .alive) ≤ 8 := by
  have hs := Sound.of_reachable h
  have hn := Newest.of_reachable h
  refine ⟨fun p _ => ?_, fun l hl ho => ?_, hs.exclusive.slot, hs.exclusive.slots,
    fun arenaId => ?_⟩
  · refine Table.count_le_one fun l hl l' hl' hp hp' => ?_
    simp only [Bool.and_eq_true, decide_eq_true_eq] at hp hp'
    exact hs.exclusive.one l hl l' hl' (hp.1.trans hp'.1.symm) hp.2 hp'.2
  · have hnewest : ∀ l' ∈ σ.lives, l'.playerId = l.playerId → l' ≠ l →
        l'.createdAt < l.createdAt := fun l' hl' hp hne =>
      hn l hl ho l' hl' hp fun hid => hne (Table.mem_inj hl' hl hid)
    exact ⟨hnewest, newestLife_eq hl hnewest, hs.funded.funded l hl ho, hs.funded.staying l hl ho⟩
  · refine Table.count_le_length Life.slot (s := List.range' 1 maxPlayers) ?_ ?_
    · intro l hl l' hl' hp hp' hslot
      simp only [Bool.and_eq_true, decide_eq_true_eq] at hp hp'
      exact hs.exclusive.slots l hl l' hl' (hp.1.trans hp'.1.symm) hp.2 hp'.2 hslot
    · intro l hl hp
      simp only [Bool.and_eq_true, decide_eq_true_eq] at hp
      obtain ⟨hlow, hhigh⟩ := hs.exclusive.slot l hl hp.2
      rw [List.mem_range'_1]
      omega

theorem admissions_exclusive_opening :
    (∃ l ∈ (ledgerAfter opening).lives, l.id = lifeB ∧ l.status = .alive)
    ∧ ∀ l ∈ (ledgerAfter opening).lives, l.status = .alive → 1 ≤ l.slot ∧ l.slot ≤ 8 :=
  have h : Reachable Env.Later (ledgerAfter opening) :=
    .ledgerAfter (follows_append.mp duel_evaluates.2.1).1
  ⟨duel_evaluates.2.2.2.2.2.2, (admissions_exclusive h).2.2.1⟩

end QuakeJs
