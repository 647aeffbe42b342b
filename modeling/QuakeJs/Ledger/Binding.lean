import Mathlib.Data.List.Induction
import QuakeJs.Ledger.Turns

/-!
# What funds an entry

An entry is paid by one payment, which names it and matches its wallet, its
amount and its invoice.  The results here are about scripts: any sequence of
transactions in which those that raise change nothing.
-/

namespace QuakeJs

open Ledger

/-- `e'` is the entry `e` at a later moment: its invoice is the same, and it
has not been credited again. -/
structure Ages (e e' : Entry) : Prop where
  id : e'.id = e.id
  wallet : e'.walletId = e.walletId
  amount : e'.amount = e.amount
  hash : truthy e.paymentHash = true → e'.paymentHash = e.paymentHash
  paid : e.status = .paid →
    e'.status = .paid ∧ e'.remaining ≤ e.remaining ∧ e'.paymentHash = e.paymentHash

namespace Ages

theorem refl (e : Entry) : Ages e e :=
  ⟨rfl, rfl, rfl, fun _ => rfl, fun h => ⟨h, le_refl _, rfl⟩⟩

theorem trans {e e' e'' : Entry} (h : Ages e e') (h' : Ages e' e'') : Ages e e'' where
  id := h'.id.trans h.id
  wallet := h'.wallet.trans h.wallet
  amount := h'.amount.trans h.amount
  hash := by
    intro hsome
    have hsame := h.hash hsome
    exact (h'.hash (hsame ▸ hsome)).trans hsame
  paid := by
    intro hpaid
    obtain ⟨hpaid', hle, hhash⟩ := h.paid hpaid
    obtain ⟨hpaid'', hle', hhash'⟩ := h'.paid hpaid'
    exact ⟨hpaid'', hle'.trans hle, hhash'.trans hhash⟩

end Ages

section

variable {env : Env} {a : Action} {σ σ' : Ledger} {e e' : Entry}

/-- A transaction lets an entry age. -/
theorem Ledger.EntryTurns.ages (h : EntryTurns env a σ e e') : Ages e e' := by
  have hid := congrArg Entry.id h.kept
  have hwallet := congrArg Entry.walletId h.kept
  have hamount := congrArg Entry.amount h.kept
  refine ⟨hid, hwallet, hamount, fun hhash => ?_, fun hpaid => ?_⟩
  · cases h with
    | invoiced _ _ _ unhashed _ =>
      rw [unhashed] at hhash
      cases hhash
    | credited payment _ funds _ _ _ _ _ => exact (funds.hash hhash).symm
    | returned payment _ funds _ _ _ _ _ => exact (funds.hash hhash).symm
    | _ => rfl
  · cases h with
    | same => exact ⟨hpaid, le_refl _, rfl⟩
    | invoiced _ _ creating _ _ =>
      rw [hpaid] at creating
      cases creating
    | credited _ _ _ unsettled _ _ _ _ =>
      rw [hpaid] at unsettled
      cases unsettled
    | returned _ _ _ unsettled _ _ _ _ =>
      rw [hpaid] at unsettled
      cases unsettled
    | charged => exact ⟨hpaid, Nat.sub_le _ _, rfl⟩
    | refunded => exact ⟨hpaid, Nat.zero_le _, rfl⟩

/-- Who pays an entry, and what the transaction has checked. -/
theorem Ledger.EntryTurns.funded (h : EntryTurns env a σ e e') (hpaid : e'.status = .paid) :
    e.status = .paid ∨ ∃ payment, a = .settleEntry payment ∧ Funds payment e
      ∧ e.status.unsettled = true ∧ e'.paymentHash = some payment.paymentHash := by
  cases h with
  | same => exact .inl hpaid
  | invoiced => cases hpaid
  | credited payment call funds unsettled => exact .inr ⟨payment, call, funds, unsettled, rfl⟩
  | returned payment call funds unsettled => exact .inr ⟨payment, call, funds, unsettled, rfl⟩
  | charged => exact .inl hpaid
  | refunded _ _ paid => exact .inl paid

/-- An entry whose hash is written is the one that the call names, and nobody
else has the hash. -/
theorem Ledger.EntryTurns.hashed (h : EntryTurns env a σ e e') :
    e'.paymentHash = e.paymentHash ∨ ∃ payment, e'.paymentHash = some payment.paymentHash
      ∧ σ.hashTaken e.id payment.paymentHash = false
      ∧ (a = .recordInvoice e.id payment
        ∨ a = .settleEntry payment ∧ payment.quakejsEntry = some e.id) := by
  cases h with
  | invoiced payment call _ _ free => exact .inr ⟨payment, rfl, free, .inl call⟩
  | credited payment call funds _ free =>
    exact .inr ⟨payment, rfl, free, .inr ⟨call, funds.names⟩⟩
  | returned payment call funds _ free =>
    exact .inr ⟨payment, rfl, free, .inr ⟨call, funds.names⟩⟩
  | _ => exact .inl rfl

/-! ## One hash, one entry -/

/-- No two entries have the same payment hash. -/
def Distinct (σ : Ledger) : Prop :=
  ∀ e ∈ σ.entries, ∀ f ∈ σ.entries, ∀ hash, e.paymentHash = some hash →
    f.paymentHash = some hash → e.id = f.id

theorem not_hashTaken {id : Uid} {hash : String} (h : σ.hashTaken id hash = false)
    (he : e ∈ σ.entries) (hhash : e.paymentHash = some hash) : e.id = id := by
  have hnot := Table.any_eq_false.mp h e he
  by_contra hne
  simp [hne, hhash] at hnot

/-- The hash that one entry gets is not the hash of another. -/
theorem Distinct.written (h : Distinct σ) (hrun : perform env a σ = .ok σ') (he : e ∈ σ.entries)
    {f f' : Entry} (hturn : EntryTurns env a σ e e') (hf : f ∈ σ.entries)
    (hturn' : EntryTurns env a σ f f') {hash : String} (hhash : e'.paymentHash = some hash)
    (hhash' : f'.paymentHash = some hash) : e.id = f.id := by
  rcases hturn.hashed with hsame | ⟨payment, hnew, hfree, hcall⟩
  · rcases hturn'.hashed with hsame' | ⟨payment', hnew', hfree', -⟩
    · exact h e he f hf hash (hsame ▸ hhash) (hsame' ▸ hhash')
    · have heq : payment'.paymentHash = hash := Option.some.inj (hnew'.symm.trans hhash')
      exact not_hashTaken (heq ▸ hfree') he (hsame ▸ hhash)
  · have heq : payment.paymentHash = hash := Option.some.inj (hnew.symm.trans hhash)
    rcases hturn'.hashed with hsame' | ⟨payment', -, -, hcall'⟩
    · exact (not_hashTaken (heq ▸ hfree) hf (hsame' ▸ hhash')).symm
    · -- One call names one entry.
      rcases hcall with rfl | ⟨rfl, hnames⟩
      · rcases hcall' with hcall' | ⟨hcall', -⟩
        · exact (Action.recordInvoice.inj hcall').1
        · cases hcall'
      · rcases hcall' with hcall' | ⟨hcall', hnames'⟩
        · cases hcall'
        · obtain rfl : payment = payment' := Action.settleEntry.inj hcall'
          exact Option.some.inj (hnames.symm.trans hnames')

theorem Distinct.step (h : Distinct σ) (hrun : perform env a σ = .ok σ') : Distinct σ' := by
  intro e' he' f' hf' hash hhash hhash'
  rcases (perform_entries hrun).new e' he' with ⟨e, he, hkey, hturn⟩ | hnew
  · rcases (perform_entries hrun).new f' hf' with ⟨f, hf, hkey', hturn'⟩ | hnew
    · exact hkey.trans ((h.written hrun he hturn hf hturn' hhash hhash').trans hkey'.symm)
    · rw [hnew.unhashed] at hhash'
      cases hhash'
  · rw [hnew.unhashed] at hhash
    cases hhash

end

/-! ## Scripts -/

/-- A committed or rolled back transaction lets every entry age. -/
theorem commit_ages {σ : Ledger} (step : Env × Action) {e : Entry} (he : e ∈ σ.entries) :
    ∃ e' ∈ (commit σ step).entries, Ages e e' := by
  obtain ⟨env, a⟩ := step
  cases hrun : perform env a σ with
  | error error =>
    rw [commit_error hrun]
    exact ⟨e, he, .refl e⟩
  | ok σ' =>
    obtain ⟨e', he', -, hturn⟩ := (perform_entries hrun).old e he
    rw [show commit σ (env, a) = σ' by simp [commit, hrun, Except.toOption]]
    exact ⟨e', he', hturn.ages⟩

theorem foldl_ages (script : List (Env × Action)) {σ : Ledger} {e : Entry} (he : e ∈ σ.entries) :
    ∃ e' ∈ (script.foldl commit σ).entries, Ages e e' := by
  induction script generalizing σ e with
  | nil => exact ⟨e, he, .refl e⟩
  | cons step script ih =>
    obtain ⟨e₁, he₁, hages₁⟩ := commit_ages step he
    obtain ⟨e', he', hages⟩ := ih he₁
    exact ⟨e', he', hages₁.trans hages⟩

/-- A paid entry was paid by a call of `settle_entry`, whose payment names it
and matches it. -/
def Paidfor (script : List (Env × Action)) (e : Entry) : Prop :=
  ∃ earlier env payment later, script = earlier ++ (env, .settleEntry payment) :: later
    ∧ e.paymentHash = some payment.paymentHash
    ∧ ∃ e₀ ∈ (ledgerAfter earlier).entries, e₀.status.unsettled = true ∧ Funds payment e₀
      ∧ Ages e₀ e

theorem ledgerAfter_paidfor (script : List (Env × Action)) :
    Distinct (ledgerAfter script) ∧
      ∀ e ∈ (ledgerAfter script).entries, e.status = .paid → Paidfor script e := by
  induction script using List.reverseRecOn with
  | nil => exact ⟨fun e he => absurd he (Table.not_mem_empty e),
      fun e he => absurd he (Table.not_mem_empty e)⟩
  | append_singleton script step ih =>
    obtain ⟨env, a⟩ := step
    rw [ledgerAfter_concat]
    have hold : ∀ e ∈ (ledgerAfter script).entries, e.status = .paid → ∀ e', Ages e e' →
        Paidfor (script ++ [(env, a)]) e' := by
      intro e he hpaid e' hages
      obtain ⟨earlier, env', payment, later, rfl, hhash, e₀, he₀, hun, hfunds, hages₀⟩ :=
        ih.2 e he hpaid
      refine ⟨earlier, env', payment, later ++ [(env, a)], by simp, ?_, e₀, he₀, hun, hfunds,
        hages₀.trans hages⟩
      rw [(hages.paid hpaid).2.2, hhash]
    cases hrun : perform env a (ledgerAfter script) with
    | error error =>
      rw [commit_error hrun]
      exact ⟨ih.1, fun e he hpaid => hold e he hpaid e (.refl e)⟩
    | ok σ' =>
      rw [show commit (ledgerAfter script) (env, a) = σ' by simp [commit, hrun, Except.toOption]]
      refine ⟨ih.1.step hrun, fun e' he' hpaid => ?_⟩
      rcases (perform_entries hrun).new e' he' with ⟨e, he, -, hturn⟩ | hnew
      · rcases hturn.funded hpaid with hwas | ⟨payment, rfl, hfunds, hun, hhash⟩
        · exact hold e he hwas e' hturn.ages
        · exact ⟨script, env, payment, [], rfl, hhash, e, he, hun, hfunds, hturn.ages⟩
      · rw [hnew.status] at hpaid
        cases hpaid

/-- Funding binds.  A paid entry was paid by a successful incoming payment that
names it and matches its wallet, its amount and the hash that was recorded on
it; a recorded hash stays, no hash funds two entries, a paid entry stays paid
and is not credited again, and a settlement that raises changes nothing. -/
theorem funding_binding (script : List (Env × Action)) :
    (∀ e ∈ (ledgerAfter script).entries, e.status = .paid →
      ∃ earlier env payment later, script = earlier ++ (env, .settleEntry payment) :: later
        ∧ payment.success = true ∧ payment.isIn = true ∧ payment.tag = some "quakejs"
        ∧ payment.quakejsEntry = some e.id ∧ payment.walletId = e.walletId
        ∧ payment.amount = 1000 * e.amount ∧ e.paymentHash = some payment.paymentHash
        ∧ ∃ e₀ ∈ (ledgerAfter earlier).entries, e₀.id = e.id ∧ e₀.status ≠ .paid
          ∧ ∀ hash, e₀.paymentHash = some hash → hash ≠ "" → payment.paymentHash = hash)
    ∧ (∀ earlier later, script = earlier ++ later → ∀ e₀ ∈ (ledgerAfter earlier).entries,
      ∃ e ∈ (ledgerAfter script).entries, e.id = e₀.id
        ∧ (∀ hash, e₀.paymentHash = some hash → hash ≠ "" → e.paymentHash = some hash)
        ∧ (e₀.status = .paid → e.status = .paid ∧ e.remaining ≤ e₀.remaining))
    ∧ (∀ e ∈ (ledgerAfter script).entries, ∀ f ∈ (ledgerAfter script).entries, ∀ hash,
      e.paymentHash = some hash → f.paymentHash = some hash → e.id = f.id)
    ∧ ∀ env payment error, settleEntry env payment (ledgerAfter script) = .error error →
      commit (ledgerAfter script) (env, .settleEntry payment) = ledgerAfter script := by
  have htruthy : ∀ (e : Entry) hash, e.paymentHash = some hash → hash ≠ "" →
      truthy e.paymentHash = true := by
    intro e hash hhash hne
    simp [hhash, truthy, hne]
  refine ⟨fun e he hpaid => ?_, fun earlier later hsplit e₀ he₀ => ?_,
    (ledgerAfter_paidfor script).1, fun env payment error hraises => ?_⟩
  · obtain ⟨earlier, env, payment, later, hsplit, hhash, e₀, he₀, hun, hfunds, hages⟩ :=
      (ledgerAfter_paidfor script).2 e he hpaid
    refine ⟨earlier, env, payment, later, hsplit, hfunds.success, hfunds.incoming, hfunds.tag,
      hages.id ▸ hfunds.names, hfunds.wallet.trans hages.wallet.symm, ?_, hhash, e₀, he₀,
      hages.id.symm, fun hp => by simp [hp, EntryStatus.unsettled] at hun, ?_⟩
    · rw [hfunds.amount, hages.amount]
      omega
    · intro hash hrecorded hne
      exact Option.some.inj ((hfunds.hash (htruthy e₀ hash hrecorded hne)).symm.trans hrecorded)
  · obtain ⟨e, he, hages⟩ := foldl_ages later he₀
    refine ⟨e, ?_, hages.id, fun hash hrecorded hne => ?_, fun hp => ?_⟩
    · rw [hsplit, ledgerAfter, List.foldl_append]
      exact he
    · exact (hages.hash (htruthy e₀ hash hrecorded hne)).trans hrecorded
    · exact ⟨(hages.paid hp).1, (hages.paid hp).2.1⟩
  · have hperform : perform env (.settleEntry payment) (ledgerAfter script) = .error error := by
      show (settleEntry env payment (ledgerAfter script)).map Prod.snd = .error error
      rw [hraises]
      rfl
    exact commit_error hperform

namespace Duel

/-- An invoice is recorded whose hash is the empty text. -/
def blank : List (Env × Action) :=
  [(tick 0, .saveSettings "owner" "wallet" true 10 true),
    (tick 1, .createArena "owner" ⟨"game", 100, "oa_dm7", price_ge, price_le⟩),
    (tick 2, .reserveEntry arenaId (token 'a') ⟨"a@ln", "nonce", "A"⟩),
    (tick 3, .recordInvoice entryA (payment entryA ""))]

end Duel

open Duel in
/-- An empty hash counts as none: the settlement replaces it. -/
theorem funding_binding_blank :
    (∃ e ∈ (ledgerAfter blank).entries, e.id = entryA ∧ e.paymentHash = some "")
    ∧ ∃ e ∈ (ledgerAfter (blank ++ [(tick 4, .settleEntry (payment entryA "hashA"))])).entries,
        e.id = entryA ∧ e.status = .paid ∧ e.paymentHash = some "hashA" := by
  decide

end QuakeJs
