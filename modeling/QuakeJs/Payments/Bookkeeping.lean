import QuakeJs.Payments.Once

/-!
# The statuses and the invoices of the outboxes

The rely-guarantee proof for what the workers write into the outboxes, over a
database that rolls back what raises.

* `followers`, `statuses`, `Path`: the order in which a row gets its statuses.
* `Reported`: the wallet has reported a payment of exactly this row as
  successful.
* `Accounted`, `Recorded`: the invariant.  What a stored row holds agrees with
  the history of the committed updates and with the log of the answers.
* `Keeps`: what a worker relies on.  Rows stay, a payment hash and a final
  status stay, and nobody else changes a row that carries its claim.
* `Copies`: what a worker knows at each of its awaits.
-/

namespace QuakeJs.Payments

open Async Ledger

/-- The answers that the workers got, the newest first. -/
abbrev Log := List (Answer Op Op.Ans Fault)

variable {decode : String → Option Invoice}

/-! ## The history of a row -/

/-- The statuses that an update may give to a row with a status. -/
def followers : PayoutStatus → List PayoutStatus
  | .queued => [.queued, .prepared, .failed]
  | .prepared => [.sending]
  | .sending | .pending => [.pending, .paid, .failed]
  | .paid | .failed | .withheld => []

/-- A status can come right after another one. -/
def Follows (s t : PayoutStatus) : Prop := t ∈ followers s

/-- The status that was committed, if it was one of this row. -/
def Happening.statusOf? (k : Outbox) (id : Uid) : Happening → Option PayoutStatus
  | .wrote k' row => if k' = k ∧ row.id = id then some row.status else none
  | .called .. => none

/-- The statuses that were committed for a row, the newest first. -/
def statuses (history : List Happening) (k : Outbox) (id : Uid) : List PayoutStatus :=
  history.filterMap (Happening.statusOf? k id)

/-- The last status of a row that was queued. -/
def lastStatus (history : List Happening) (k : Outbox) (id : Uid) : PayoutStatus :=
  (statuses history k id).headD .queued

/-- Every committed status follows the one before. -/
def Path (history : List Happening) : Prop :=
  ∀ newer older k row, history = newer ++ .wrote k row :: older →
    row.status ∈ followers (lastStatus older k row.id)

theorem statuses_wrote (history : List Happening) (k : Outbox) (row : Payout) :
    statuses (.wrote k row :: history) k row.id = row.status :: statuses history k row.id := by
  unfold statuses
  exact List.filterMap_cons_some (if_pos ⟨rfl, rfl⟩)

theorem statuses_wrote_of_ne (history : List Happening) {k k' : Outbox} {row : Payout} {id : Uid}
    (h : ¬(k' = k ∧ id = row.id)) :
    statuses (.wrote k row :: history) k' id = statuses history k' id := by
  unfold statuses
  refine List.filterMap_cons_none (if_neg ?_)
  rintro ⟨rfl, rfl⟩
  exact h ⟨rfl, rfl⟩

theorem statuses_called (history : List Happening) (k k' : Outbox) (claim id : Uid)
    (arguments : PayArguments) :
    statuses (.called k claim arguments :: history) k' id = statuses history k' id := rfl

theorem Path.wrote {history : List Happening} (h : Path history) {k : Outbox} {row : Payout}
    (hnext : row.status ∈ followers (lastStatus history k row.id)) :
    Path (.wrote k row :: history) := by
  intro newer older k' row' hsplit
  cases newer with
  | nil =>
    rw [List.nil_append, List.cons.injEq, Happening.wrote.injEq] at hsplit
    obtain ⟨⟨rfl, rfl⟩, rfl⟩ := hsplit
    exact hnext
  | cons first newer =>
    rw [List.cons_append, List.cons.injEq] at hsplit
    exact h newer older k' row' hsplit.2

theorem Path.tail {history : List Happening} {happening : Happening}
    (h : Path (happening :: history)) : Path history := by
  intro newer older k row hsplit
  exact h (happening :: newer) older k row (by rw [hsplit]; rfl)

theorem Path.called {history : List Happening} (h : Path history) (k : Outbox) (claim : Uid)
    (arguments : PayArguments) : Path (.called k claim arguments :: history) := by
  intro newer older k' row' hsplit
  cases newer with
  | nil => cases hsplit
  | cons first newer =>
    rw [List.cons_append, List.cons.injEq] at hsplit
    exact h newer older k' row' hsplit.2

/-- A row that was marked as `sending` was prepared before. -/
theorem Path.prepared {history : List Happening} (h : Path history) {k : Outbox} {row : Payout}
    (hmem : .wrote k row ∈ history) (hsending : row.status = .sending) :
    PayoutStatus.prepared ∈ statuses history k row.id := by
  obtain ⟨newer, older, hsplit⟩ := List.append_of_mem hmem
  have hnext := h newer older k row hsplit
  have hlast : lastStatus older k row.id = .prepared := by
    rw [hsending] at hnext
    cases hs : lastStatus older k row.id <;> rw [hs] at hnext <;> simp [followers] at hnext ⊢
  have hmem' : PayoutStatus.prepared ∈ statuses older k row.id := by
    unfold lastStatus at hlast
    cases hs : statuses older k row.id with
    | nil =>
      rw [hs] at hlast
      cases hlast
    | cons s rest =>
      rw [hs] at hlast
      exact hlast ▸ List.mem_cons_self
  obtain ⟨happening, hold, hstatus⟩ := List.mem_filterMap.mp hmem'
  refine List.mem_filterMap.mpr ⟨happening, ?_, hstatus⟩
  rw [hsplit]
  exact List.mem_append_right newer (List.mem_cons_of_mem _ hold)

/-- What was committed for a row that was never prepared. -/
theorem Path.unprepared {history : List Happening} (h : Path history) {k : Outbox} {id : Uid}
    (hnever : PayoutStatus.prepared ∉ statuses history k id) :
    ∀ s ∈ statuses history k id, s = .queued ∨ s = .failed := by
  induction history with
  | nil => exact fun s hs => absurd hs List.not_mem_nil
  | cons happening history ih =>
    cases happening with
    | called k' claim arguments =>
      rw [statuses_called] at hnever ⊢
      exact ih h.tail hnever
    | wrote k' row =>
      by_cases hwhich : k = k' ∧ id = row.id
      · obtain ⟨rfl, rfl⟩ := hwhich
        rw [statuses_wrote, List.mem_cons, not_or] at hnever
        have hold := ih h.tail hnever.2
        have hnext := h [] history k row rfl
        rw [statuses_wrote]
        intro s hs
        rcases List.mem_cons.mp hs with rfl | hs
        · have hlast : lastStatus history k row.id = .queued ∨
              lastStatus history k row.id = .failed := by
            unfold lastStatus
            cases hcase : statuses history k row.id with
            | nil => exact .inl rfl
            | cons s rest => exact hold s (hcase ▸ List.mem_cons_self)
          rcases hlast with hlast | hlast
          · rw [hlast] at hnext
            cases hs : row.status <;> rw [hs] at hnext hnever <;>
              simp [followers] at hnext hnever ⊢
          · rw [hlast] at hnext
            exact absurd hnext List.not_mem_nil
        · exact hold s hs
      · rw [statuses_wrote_of_ne history hwhich] at hnever ⊢
        exact ih h.tail hnever

/-! ## The invariant -/

/-- The wallet has reported a payment of this row as successful. -/
def Reported (log : Log) (k : Outbox) (row : Payout) : Prop :=
  ∃ payment, matchesPayout payment k row = true ∧
    ((∃ hash wallet, ⟨.getStandalonePayment hash wallet, .ok (some payment)⟩ ∈ log ∧
        payment.success = true) ∨
      (⟨.payInvoiceResult, .ok payment⟩ ∈ log ∧ payment.success = true) ∨
      ⟨.checkPaymentStatus payment, .ok true⟩ ∈ log)

/-- What a worker copies of a row. -/
def content (row : Payout) :
    PayoutTerms × PayoutStatus × Option String × Option String × Nat :=
  (terms row, row.status, row.bolt11, row.paymentHash, row.attempts)

/-- What a stored row holds agrees with the history and with the log. -/
structure Accounted (σ : Ledger) (history : List Happening) (log : Log) (k : Outbox)
    (row : Payout) : Prop where
  last : row.status = lastStatus history k row.id ∨
    row.status = .withheld ∧ statuses history k row.id = []
  hashed : row.paymentHash.isSome = true ↔ PayoutStatus.prepared ∈ statuses history k row.id
  reserved : ∀ hash, row.paymentHash = some hash →
    σ.invoiceClaims.get? hash = some ⟨hash, row.id⟩
  unprepared : row.status = .queued ∨ row.status = .withheld → row.paymentHash = none
  prepared : row.status = .prepared ∨ row.status = .sending ∨ row.status = .pending ∨
    row.status = .paid → row.paymentHash.isSome = true
  paid : row.status = .paid → Reported log k row
  attempts : row.paymentHash = none → row.attempts = (statuses history k row.id).length ∧
    (row.status = .failed ↔ row.attempts = 8) ∧ row.attempts ≤ 8

/-- The invariant of the outboxes. -/
structure Recorded (x : World × Log) : Prop where
  tokens : "" ∉ x.1.tokens
  rows : ∀ k, ∀ row ∈ x.1.ledger.outbox k, Accounted x.1.ledger x.1.history x.2 k row
  path : Path x.1.history
  claims : ∀ c ∈ x.1.ledger.invoiceClaims, ∀ c' ∈ x.1.ledger.invoiceClaims,
    c.payoutId = c'.payoutId → c = c'
  stored : ∀ k id, statuses x.1.history k id ≠ [] → ∃ row ∈ x.1.ledger.outbox k, row.id = id

/-- What the holder of a claim relies on. -/
structure Keeps (view : Option Uid) (x x' : World × Log) : Prop where
  tokens : ∀ c ∈ x.1.tokens, c ∈ x'.1.tokens
  log : ∀ answer ∈ x.2, answer ∈ x'.2
  rows : ∀ k, ∀ row ∈ x.1.ledger.outbox k, ∃ row' ∈ x'.1.ledger.outbox k,
    terms row' = terms row ∧
      (row.paymentHash.isSome = true →
        row'.paymentHash = row.paymentHash ∧ row'.bolt11 = row.bolt11) ∧
      Relation.ReflTransGen Follows row.status row'.status
  mine : ∀ c, view = some c → ∀ k, ∀ row' ∈ x'.1.ledger.outbox k, row'.claim = c →
    ∃ row ∈ x.1.ledger.outbox k, row.claim = c ∧ content row = content row'

/-- Nothing is written, at most an answer is logged. -/
theorem Keeps.of_ledger {view : Option Uid} {x x' : World × Log}
    (htokens : ∀ c ∈ x.1.tokens, c ∈ x'.1.tokens) (hlog : ∀ answer ∈ x.2, answer ∈ x'.2)
    (hledger : x'.1.ledger = x.1.ledger) : Keeps view x x' where
  tokens := htokens
  log := hlog
  rows := fun _ row hrow => ⟨row, hledger ▸ hrow, rfl, fun _ => ⟨rfl, rfl⟩, .refl⟩
  mine := fun _ _ _ row hrow hc => ⟨row, hledger ▸ hrow, hc, rfl⟩

theorem Keeps.trans {view : Option Uid} {x₁ x₂ x₃ : World × Log} (h : Keeps view x₁ x₂)
    (h' : Keeps view x₂ x₃) : Keeps view x₁ x₃ where
  tokens := fun c hc => h'.tokens c (h.tokens c hc)
  log := fun answer ha => h'.log answer (h.log answer ha)
  rows := by
    intro k row₁ hrow₁
    obtain ⟨row₂, hrow₂, hterms₂, hhash₂, hpath₂⟩ := h.rows k row₁ hrow₁
    obtain ⟨row₃, hrow₃, hterms₃, hhash₃, hpath₃⟩ := h'.rows k row₂ hrow₂
    refine ⟨row₃, hrow₃, hterms₃.trans hterms₂, fun hsome => ?_, hpath₂.trans hpath₃⟩
    obtain ⟨hh₂, hb₂⟩ := hhash₂ hsome
    obtain ⟨hh₃, hb₃⟩ := hhash₃ (hh₂ ▸ hsome)
    exact ⟨hh₃.trans hh₂, hb₃.trans hb₂⟩
  mine := by
    intro c hv k row₃ hrow₃ hc₃
    obtain ⟨row₂, hrow₂, hc₂, hsame₂⟩ := h'.mine c hv k row₃ hrow₃ hc₃
    obtain ⟨row₁, hrow₁, hc₁, hsame₁⟩ := h.mine c hv k row₂ hrow₂ hc₂
    exact ⟨row₁, hrow₁, hc₁, hsame₁.trans hsame₂⟩

/-- The discipline of the outboxes. -/
def bookkeeping : Discipline Op (World × Log) (Option Uid) where
  inv := Recorded
  safe := fun _ _ => True
  rely := Keeps
  apart := fun x => Apart x.1
  idle := none
  rely_refl := fun _ _ => Keeps.of_ledger (fun _ h => h) (fun _ h => h) rfl
  rely_trans := fun _ _ _ _ h h' => h.trans h'
  apart_symm := fun _ _ _ h => ⟨h.right, h.left, fun c hv hu => h.differ c hu hv⟩
  apart_idle := fun _ _ _ h => h.idle
  apart_rely := fun _ _ _ _ h hu _ =>
    ⟨fun c hc => hu.tokens c (h.left c hc), fun c hc => hu.tokens c (h.right c hc), h.differ⟩

/-! ## What a worker knows of its row -/

/-- The worker's view is the claim of its copy of the row, and the stored row,
if it still carries the claim, is like the copy. -/
structure Copies (k : Outbox) (row : Payout) (view : Option Uid) (x : World × Log) : Prop where
  view : view = some row.claim
  token : row.claim ∈ x.1.tokens
  copy : ∀ stored ∈ x.1.ledger.outbox k, stored.id = row.id → stored.claim = row.claim →
    content stored = content row

theorem id_of_content {row row' : Payout} (h : content row = content row') :
    row.id = row'.id := by
  have hterms := congrArg Prod.fst h
  exact congrArg PayoutTerms.id hterms

theorem Copies.stable (k : Outbox) (row : Payout) : bookkeeping.Stable (Copies k row) := by
  intro view x x' h hkeeps
  refine ⟨h.view, hkeeps.tokens _ h.token, fun stored' hmem' hid' hclaim' => ?_⟩
  obtain ⟨stored, hmem, hclaim, hsame⟩ := hkeeps.mine row.claim h.view k stored' hmem' hclaim'
  rw [← hsame]
  exact h.copy stored hmem ((id_of_content hsame).trans hid') hclaim

/-! ## Writing a row -/

section

variable {x x' : World × Log} {k : Outbox} {id : Uid} {f : Payout → Payout}

theorem matchesPayout_congr {row row' : Payout} (hterms : terms row' = terms row)
    (hhash : row'.paymentHash = row.paymentHash) (payment : Payment) (k : Outbox) :
    matchesPayout payment k row' = matchesPayout payment k row := by
  have hid := congrArg PayoutTerms.id hterms
  have hvictim := congrArg PayoutTerms.victimId hterms
  have hwallet := congrArg PayoutTerms.walletId hterms
  have hamount := congrArg PayoutTerms.amount hterms
  simp only [terms] at hid hvictim hwallet hamount
  unfold matchesPayout
  rw [hid, hvictim, hwallet, hamount, hhash]

theorem Reported.mono {log log' : Log} {row row' : Payout} (h : Reported log k row)
    (hlog : ∀ answer ∈ log, answer ∈ log') (hterms : terms row' = terms row)
    (hhash : row'.paymentHash = row.paymentHash) : Reported log' k row' := by
  obtain ⟨payment, hmatches, hreport⟩ := h
  refine ⟨payment, (matchesPayout_congr hterms hhash payment k).trans hmatches, ?_⟩
  rcases hreport with ⟨hash, wallet, hmem, hsuccess⟩ | ⟨hmem, hsuccess⟩ | hmem
  · exact .inl ⟨hash, wallet, hlog _ hmem, hsuccess⟩
  · exact .inr (.inl ⟨hlog _ hmem, hsuccess⟩)
  · exact .inr (.inr (hlog _ hmem))

/-- What is not written stays accounted for. -/
theorem Accounted.mono {σ σ' : Ledger} {history history' : List Happening} {log log' : Log}
    {row row' : Payout} (h : Accounted σ history log k row)
    (hclaims : ∀ hash claim, σ.invoiceClaims.get? hash = some claim →
      σ'.invoiceClaims.get? hash = some claim)
    (hlog : ∀ answer ∈ log, answer ∈ log')
    (hstatuses : statuses history' k row.id = statuses history k row.id)
    (hcontent : content row' = content row) : Accounted σ' history' log' k row' := by
  have hid : row'.id = row.id := id_of_content hcontent
  simp only [content, Prod.mk.injEq] at hcontent
  obtain ⟨hterms, hstatus, -, hhash, hattempts⟩ := hcontent
  have hlast : lastStatus history' k row'.id = lastStatus history k row.id := by
    unfold lastStatus
    rw [hid, hstatuses]
  refine ⟨?_, ?_, ?_, ?_, ?_, ?_, ?_⟩
  · rw [hstatus, hlast, hid, hstatuses]
    exact h.last
  · rw [hhash, hid, hstatuses]
    exact h.hashed
  · rw [hhash, hid]
    exact fun hash heq => hclaims _ _ (h.reserved hash heq)
  · rw [hstatus, hhash]
    exact h.unprepared
  · rw [hstatus, hhash]
    exact h.prepared
  · rw [hstatus]
    exact fun hpaid => (h.paid hpaid).mono hlog hterms hhash
  · rw [hhash, hattempts, hstatus, hid, hstatuses]
    exact h.attempts

/-- What a rewritten row must satisfy for the invariant to go on. -/
theorem Recorded.rewritten (h : Recorded x) (hr : Rewrites k id f x.1.ledger x'.1.ledger)
    (htokens : "" ∉ x'.1.tokens) (hlog : ∀ answer ∈ x.2, answer ∈ x'.2)
    (hothers : ∀ k' id', ¬(k' = k ∧ id' = id) →
      statuses x'.1.history k' id' = statuses x.1.history k' id')
    (hpath : Path x'.1.history)
    (hclaims : ∀ c ∈ x'.1.ledger.invoiceClaims, ∀ c' ∈ x'.1.ledger.invoiceClaims,
      c.payoutId = c'.payoutId → c = c')
    (hrow : ∀ row ∈ x.1.ledger.outbox k, row.id = id →
      Accounted x'.1.ledger x'.1.history x'.2 k (f row))
    (hfound : statuses x'.1.history k id ≠ [] → ∃ row ∈ x.1.ledger.outbox k, row.id = id) :
    Recorded x' := by
  refine ⟨htokens, ?_, hpath, hclaims, ?_⟩
  · intro k' row' hrow'
    rcases hr.rows k' row' hrow' with ⟨hold, hnot⟩ | ⟨rfl, row, hold, hid, rfl⟩
    · exact (h.rows k' row' hold).mono hr.claims hlog (hothers k' row'.id hnot) rfl
    · exact hrow row hold hid
  · intro k' id' hne
    by_cases hwhich : k' = k ∧ id' = id
    · obtain ⟨rfl, rfl⟩ := hwhich
      obtain ⟨row, hold, hid⟩ := hfound hne
      exact ⟨f row, hr.written row hold hid, (hr.key row).trans hid⟩
    · rw [hothers k' id' hwhich] at hne
      obtain ⟨row, hold, hid⟩ := h.stored k' id' hne
      by_cases hsame : k' = k ∧ row.id = id
      · exact absurd ⟨hsame.1, hid.symm.trans hsame.2⟩ hwhich
      · exact ⟨row, hr.kept k' row hold hsame, hid⟩

/-- A rewritten row as the others see it. -/
theorem Rewrites.keeps (hr : Rewrites k id f x.1.ledger x'.1.ledger) {u : Option Uid}
    (htokens : ∀ c ∈ x.1.tokens, c ∈ x'.1.tokens) (hlog : ∀ answer ∈ x.2, answer ∈ x'.2)
    (hrow : ∀ row ∈ x.1.ledger.outbox k, row.id = id → terms (f row) = terms row ∧
      (row.paymentHash.isSome = true →
        (f row).paymentHash = row.paymentHash ∧ (f row).bolt11 = row.bolt11) ∧
      Relation.ReflTransGen Follows row.status (f row).status)
    (hmine : ∀ c, u = some c → ∀ row ∈ x.1.ledger.outbox k, row.id = id → (f row).claim = c →
      row.claim = c ∧ content row = content (f row)) : Keeps u x x' where
  tokens := htokens
  log := hlog
  rows := by
    intro k' row hold
    by_cases hwhich : k' = k ∧ row.id = id
    · obtain ⟨rfl, hid⟩ := hwhich
      exact ⟨f row, hr.written row hold hid, hrow row hold hid⟩
    · exact ⟨row, hr.kept k' row hold hwhich, rfl, fun _ => ⟨rfl, rfl⟩, .refl⟩
  mine := by
    intro c hu k' row' hrow' hc
    rcases hr.rows k' row' hrow' with ⟨hold, -⟩ | ⟨rfl, row, hold, hid, rfl⟩
    · exact ⟨row', hold, hc, rfl⟩
    · exact ⟨row, hold, hmine c hu row hold hid hc⟩

/-- A lease leaves the content of its row. -/
theorem Recorded.leased (h : Recorded x) (hr : Rewrites k id f x.1.ledger x'.1.ledger)
    (htokens : "" ∉ x'.1.tokens) (hlog : ∀ answer ∈ x.2, answer ∈ x'.2)
    (hhistory : x'.1.history = x.1.history)
    (hclaims : x'.1.ledger.invoiceClaims = x.1.ledger.invoiceClaims)
    (hf : ∀ row, content (f row) = content row) : Recorded x' := by
  refine h.rewritten hr htokens hlog (fun _ _ _ => by rw [hhistory]) ?_ ?_ ?_ ?_
  · rw [hhistory]
    exact h.path
  · rw [hclaims]
    exact h.claims
  · intro row hold _
    exact (h.rows k row hold).mono hr.claims hlog (by rw [hhistory]) (hf row)
  · rw [hhistory]
    exact h.stored k id

end

/-! ## The operations -/

section

variable {x : World × Log} {view : Option Uid} {k : Outbox} {row : Payout}

/-- Nothing is written: at most `pay_invoice` is called. -/
structure Quiet (w w' : World) : Prop where
  ledger : w'.ledger = w.ledger
  tokens : w'.tokens = w.tokens
  history : w'.history = w.history ∨
    ∃ k claim arguments, w'.history = .called k claim arguments :: w.history

theorem Quiet.refl (w : World) : Quiet w w := ⟨rfl, rfl, .inl rfl⟩

theorem Quiet.keeps {w' : World} (h : Quiet x.1 w') (answer : Answer Op Op.Ans Fault)
    (u : Option Uid) : Keeps u x (w', answer :: x.2) :=
  .of_ledger (fun _ hc => h.tokens ▸ hc) (fun _ ha => List.mem_cons_of_mem _ ha) h.ledger

theorem Recorded.quiet (h : Recorded x) {w' : World} (hquiet : Quiet x.1 w')
    (answer : Answer Op Op.Ans Fault) : Recorded (w', answer :: x.2) := by
  obtain ⟨hledger, htokens, hhistory⟩ := hquiet
  have hstatuses : ∀ k id, statuses w'.history k id = statuses x.1.history k id := by
    intro k id
    rcases hhistory with heq | ⟨k', claim, arguments, heq⟩
    · rw [heq]
    · rw [heq]
      exact statuses_called _ k' k claim id arguments
  refine ⟨htokens ▸ h.tokens, fun k row hrow => ?_, ?_, ?_, fun k id hne => ?_⟩
  · replace hrow : row ∈ x.1.ledger.outbox k := hledger ▸ hrow
    refine (h.rows k row hrow).mono (fun _ _ hclaim => ?_) (fun _ ha => List.mem_cons_of_mem _ ha)
      (hstatuses k row.id) rfl
    rw [hledger]
    exact hclaim
  · rcases hhistory with heq | ⟨k', claim, arguments, heq⟩
    · exact heq ▸ h.path
    · rw [heq]
      exact h.path.called k' claim arguments
  · show ∀ c ∈ w'.ledger.invoiceClaims, ∀ c' ∈ w'.ledger.invoiceClaims, _
    rw [hledger]
    exact h.claims
  · rw [hstatuses] at hne
    show ∃ row ∈ w'.ledger.outbox k, row.id = id
    rw [hledger]
    exact h.stored k id hne

/-- A claim is rewritten by a fresh token, and the worker has a copy. -/
theorem claim_recorded {v : Option Uid} (h : Recorded x) {env : Env} (hne : env.uid 0 ≠ "")
    (hfresh : env.uid 0 ∉ x.1.tokens) {x' : World × Log}
    (hx' : x'.1 = { x.1 with
      ledger := (claimPayout env x.1.ledger).2
      tokens := env.uid 0 :: x.1.tokens })
    (hlog : ∀ answer ∈ x.2, answer ∈ x'.2) :
    Recorded x' ∧ (∀ u, Apart x.1 u v → Keeps u x x') ∧
      ∀ k row, (claimPayout env x.1.ledger).1 = some (k, row) →
        row.claim = env.uid 0 ∧ Copies k row (some row.claim) x' := by
  have htokens : ∀ c ∈ x.1.tokens, c ∈ x'.1.tokens := by
    intro c hc
    rw [hx']
    exact List.mem_cons_of_mem _ hc
  have hempty : "" ∉ x'.1.tokens := by
    rw [hx']
    intro hmem
    rcases List.mem_cons.mp hmem with heq | hmem
    · exact hne heq.symm
    · exact h.tokens hmem
  have hhistory : x'.1.history = x.1.history := by rw [hx']
  obtain ⟨hnone, hsame⟩ | ⟨k, row, hrow, -, -, -, hsome, hσ⟩ :=
    claimPayout_eq (Prod.eta (claimPayout env x.1.ledger)).symm
  · have hr : Rewrites .payouts "" (fun row => row) x.1.ledger x'.1.ledger := by
      rw [hx', hsame]
      exact Rewrites.refl .payouts "" x.1.ledger
    have hclaims : x'.1.ledger.invoiceClaims = x.1.ledger.invoiceClaims := by rw [hx', hsame]
    refine ⟨h.leased hr hempty hlog hhistory hclaims fun _ => rfl, fun u _ => ?_,
      fun k row hclaimed => ?_⟩
    · exact hr.keeps htokens hlog (fun _ _ _ => ⟨rfl, fun _ => ⟨rfl, rfl⟩, .refl⟩)
        fun _ _ _ _ _ hc => ⟨hc, rfl⟩
    · rw [hnone] at hclaimed
      cases hclaimed
  · have hr : Rewrites k row.id (Ledger.leased env) x.1.ledger x'.1.ledger := by
      rw [hx', hσ]
      exact Rewrites.updateKey (f := Ledger.leased env) x.1.ledger k row.id (fun _ => rfl)
        fun _ _ hclaim => hclaim
    have htoken : env.uid 0 ∈ x'.1.tokens := by
      rw [hx']
      exact List.mem_cons_self
    have hclaims : x'.1.ledger.invoiceClaims = x.1.ledger.invoiceClaims := by
      rw [hx', hσ]
      cases k <;> rfl
    refine ⟨h.leased hr hempty hlog hhistory hclaims fun _ => rfl, fun u hapart => ?_,
      fun k' row' hclaimed => ?_⟩
    · refine hr.keeps htokens hlog (fun _ _ _ => ⟨rfl, fun _ => ⟨rfl, rfl⟩, .refl⟩) ?_
      intro c hu stored _ _ hc
      exact absurd (hapart.left c hu) (hc ▸ hfresh)
    · rw [hsome, Option.some.injEq, Prod.mk.injEq] at hclaimed
      obtain ⟨rfl, rfl⟩ := hclaimed
      refine ⟨rfl, rfl, htoken, fun stored' hstored' hid _ => ?_⟩
      rcases hr.rows k stored' hstored' with ⟨_, hnot⟩ | ⟨-, stored, hstored, hid', rfl⟩
      · exact absurd ⟨rfl, hid⟩ hnot
      · rw [row_inj hstored hrow hid']

theorem content_released (env : Env) (claim : Uid) (p : Payout) :
    content (released env claim p) = content p := by
  unfold released
  split_ifs <;> rfl

/-- A claim that is given back leaves the content of its row. -/
theorem release_recorded (h : Recorded x) (env : Env) (k : Outbox) (row : Payout)
    {x' : World × Log} (hx' : x'.1 = { x.1 with
      ledger := releasePayout env k row x.1.ledger })
    (hlog : ∀ answer ∈ x.2, answer ∈ x'.2) : Recorded x' ∧ ∀ u, Keeps u x x' := by
  have hhistory : x'.1.history = x.1.history := by rw [hx']
  have htokens : x'.1.tokens = x.1.tokens := by rw [hx']
  have hr : Rewrites k row.id (released env row.claim) x.1.ledger x'.1.ledger := by
    rw [hx', releasePayout_eq]
    exact Rewrites.updateKey x.1.ledger k row.id (keepsKey_released env row.claim)
      fun _ _ hclaim => hclaim
  have hcontent := content_released env row.claim
  have hclaims : x'.1.ledger.invoiceClaims = x.1.ledger.invoiceClaims := by
    rw [hx']
    cases k <;> rfl
  refine ⟨h.leased hr (htokens ▸ h.tokens) hlog hhistory hclaims hcontent, fun u => ?_⟩
  refine hr.keeps (fun c hc => htokens ▸ hc) hlog (fun p _ _ => ?_) fun c _ p _ _ hc => ?_
  · have hp := hcontent p
    simp only [content, Prod.mk.injEq] at hp
    exact ⟨hp.1, fun _ => ⟨hp.2.2.2.1, hp.2.2.1⟩, by rw [hp.2.1]⟩
  · exact ⟨(released_keeps env row.claim p).2.1.symm.trans hc, (hcontent p).symm⟩

/-- What a worker must know to commit an update of its copy. -/
structure Entitles (k : Outbox) (row : Payout) (status : PayoutStatus) (values : PayoutValues)
    (log : Log) : Prop where
  follows : status ∈ followers row.status
  prepare : status = .prepared → ∃ hash, hash ≠ "" ∧ values.paymentHash = some (some hash)
  keep : status ≠ .prepared → values.paymentHash = none ∧ values.bolt11 = none
  paid : status = .paid → Reported log k row
  count : row.status = .queued → status ≠ .prepared →
    values.attempts = some (row.attempts + 1) ∧ (status = .failed ↔ 8 ≤ row.attempts + 1)

theorem queued_of_follows {s status : PayoutStatus} (h : status ∈ followers s)
    (hstatus : status = .queued ∨ status = .prepared) : s = .queued := by
  rcases hstatus with rfl | rfl <;> cases s <;> simp [followers] at h ⊢

theorem sent_of_follows {s status : PayoutStatus} (h : status ∈ followers s)
    (hstatus : status = .sending ∨ status = .pending ∨ status = .paid) :
    s = .prepared ∨ s = .sending ∨ s = .pending := by
  rcases hstatus with rfl | rfl | rfl <;> cases s <;> simp [followers] at h ⊢

theorem followers_queued {s status : PayoutStatus} (h : status ∈ followers s)
    (hs : ¬(s = .prepared ∨ s = .sending ∨ s = .pending)) (hstatus : status ≠ .prepared) :
    s = .queued ∧ (status = .queued ∨ status = .failed) := by
  cases s <;> simp_all [followers]

/-- The row that an entitled update leaves is accounted for. -/
theorem Accounted.updated {σ σ' : Ledger} {history : List Happening} {log log' : Log}
    {stored : Payout} {status : PayoutStatus} {values : PayoutValues} {env : Env}
    (h : Accounted σ history log k stored) (hcopy : content stored = content row)
    (hentitles : Entitles k row status values log)
    (hclaims : ∀ hash claim, σ.invoiceClaims.get? hash = some claim →
      σ'.invoiceClaims.get? hash = some claim)
    (hreserved : status = .prepared → ∀ hash, hash ≠ "" →
      (values.apply status row).paymentHash = some hash →
        σ'.invoiceClaims.get? hash = some ⟨hash, row.id⟩)
    (hlog : ∀ answer ∈ log, answer ∈ log') :
    Accounted σ' (.wrote k (written env (values.apply status row) stored) :: history) log' k
      (written env (values.apply status row) stored) := by
  have hid : stored.id = row.id := id_of_content hcopy
  simp only [content, Prod.mk.injEq] at hcopy
  obtain ⟨hterms, hstatus, hbolt11, hhash, hattempts⟩ := hcopy
  set new := written env (values.apply status row) stored with hnew
  have hnewid : new.id = stored.id := rfl
  have hnewstatus : new.status = status := rfl
  have hnewhash : new.paymentHash = values.paymentHash.getD row.paymentHash := rfl
  have hstatuses : statuses (.wrote k new :: history) k new.id
      = status :: statuses history k stored.id := statuses_wrote history k new
  -- The hash of an update that does not prepare the row is the old one.
  have hsame : status ≠ .prepared → new.paymentHash = stored.paymentHash := by
    intro hne
    rw [hnewhash, (hentitles.keep hne).1, hhash]
    rfl
  refine ⟨?_, ?_, ?_, ?_, ?_, ?_, ?_⟩
  · left
    unfold lastStatus
    rw [hstatuses]
    rfl
  · rw [hstatuses, List.mem_cons]
    by_cases hprepared : status = .prepared
    · obtain ⟨hash, -, hvalue⟩ := hentitles.prepare hprepared
      rw [hnewhash, hvalue]
      exact ⟨fun _ => .inl hprepared.symm, fun _ => rfl⟩
    · rw [hsame hprepared, h.hashed]
      exact ⟨.inr, fun hmem => hmem.resolve_left fun heq => hprepared heq.symm⟩
  · intro hash heq
    by_cases hprepared : status = .prepared
    · obtain ⟨hash', hne, hvalue⟩ := hentitles.prepare hprepared
      have hhash' : hash' = hash := by
        rw [hnewhash, hvalue] at heq
        exact Option.some.inj heq
      rw [hnewid, hid]
      exact hreserved hprepared hash (hhash' ▸ hne) heq
    · rw [hsame hprepared] at heq
      exact hclaims _ _ (h.reserved hash heq)
  · rintro (hqueued | hwithheld)
    · have hold := queued_of_follows hentitles.follows (.inl hqueued)
      rw [hsame (by rw [← hnewstatus, hqueued]; decide)]
      exact h.unprepared (.inl (hstatus.trans hold))
    · have hno := hentitles.follows
      rw [← hnewstatus, hwithheld] at hno
      cases hs : row.status <;> rw [hs] at hno <;> simp [followers] at hno
  · rintro (hprepared | hsent)
    · obtain ⟨hash, -, hvalue⟩ := hentitles.prepare hprepared
      rw [hnewhash, hvalue]
      rfl
    · have hold := sent_of_follows hentitles.follows hsent
      rw [hsame (by rcases hsent with hs | hs | hs <;> rw [← hnewstatus, hs] <;> decide)]
      refine h.prepared ?_
      rw [hstatus]
      exact hold.imp_right fun hs => hs.imp_right .inl
  · intro hpaid
    refine (hentitles.paid hpaid).mono hlog hterms ?_
    rw [hsame (by rw [← hnewstatus, hpaid]; decide), hhash]
  · intro hnone
    have hprepared : status ≠ .prepared := by
      intro hprepared
      obtain ⟨hash, -, hvalue⟩ := hentitles.prepare hprepared
      rw [hnewhash, hvalue] at hnone
      cases hnone
    have hold : stored.paymentHash = none := (hsame hprepared).symm.trans hnone
    have hunsent : ¬(row.status = .prepared ∨ row.status = .sending ∨ row.status = .pending) := by
      intro hs
      have hsome := h.prepared (by
        rw [hstatus]
        exact hs.imp_right fun hs => hs.imp_right .inl)
      rw [hold] at hsome
      cases hsome
    obtain ⟨hqueued, hnext⟩ := followers_queued hentitles.follows hunsent hprepared
    obtain ⟨hvalue, hfailed⟩ := hentitles.count hqueued hprepared
    obtain ⟨hlength, hfail, hle⟩ := h.attempts hold
    have hnewattempts : new.attempts = row.attempts + 1 := by
      show values.attempts.getD row.attempts = _
      rw [hvalue]
      rfl
    have hopen : stored.attempts ≠ 8 := fun h8 => by
      have := hfail.mpr h8
      rw [hstatus, hqueued] at this
      cases this
    rw [hstatuses, List.length_cons, hnewattempts, hnewstatus, hfailed]
    omega

/-- A row claims one hash at most. -/
theorem reserved_unique {σ : Ledger} {fields : Payout} {claims : Table InvoiceClaim}
    (h : Reserved σ fields claims)
    (hunique : ∀ c ∈ σ.invoiceClaims, ∀ c' ∈ σ.invoiceClaims, c.payoutId = c'.payoutId → c = c') :
    ∀ c ∈ claims, ∀ c' ∈ claims, c.payoutId = c'.payoutId → c = c' := by
  cases h with
  | unneeded _ eq => exact eq ▸ hunique
  | own _ _ _ _ _ eq => exact eq ▸ hunique
  | fresh _ _ free insert =>
    intro c hc c' hc' hid
    rcases (Table.mem_insert? insert).mp hc with hold | rfl
    · rcases (Table.mem_insert? insert).mp hc' with hold' | rfl
      · exact hunique c hold c' hold' hid
      · exact absurd hid (free c hold)
    · rcases (Table.mem_insert? insert).mp hc' with hold' | rfl
      · exact absurd hid.symm (free c' hold')
      · rfl

/-- A committed update, by a worker who is entitled to it. -/
theorem update_recorded (h : Recorded x) (hcopies : Copies k row view x) {status : PayoutStatus}
    {values : PayoutValues} (hentitles : Entitles k row status values x.2) {env : Env}
    {row' : Payout} {σ : Ledger}
    (hrun : Ledger.updatePayout env k row status values x.1.ledger = .ok (row', σ))
    {x' : World × Log} (hx' : x'.1 = x.1.wrote k row.id σ)
    (hlog : ∀ answer ∈ x.2, answer ∈ x'.2) :
    Recorded x' ∧ (∀ u, Apart x.1 u view → Keeps u x x') ∧ Copies k row' view x' := by
  obtain ⟨rfl, claims, stored, hreserved, hget, hclaim, -, hσ⟩ := updatePayout_ok hrun
  obtain ⟨hstored, hid⟩ := Table.get?_eq_some.mp hget
  have hcopy := hcopies.copy stored hstored hid hclaim
  have hcontent := hcopy
  simp only [content, Prod.mk.injEq] at hcontent
  obtain ⟨hterms, hstatus, hbolt11, hhash, -⟩ := hcontent
  have hledger : x'.1.ledger = σ := by rw [hx']; rfl
  have hr : Rewrites k row.id (written env (values.apply status row)) x.1.ledger x'.1.ledger := by
    rw [hledger, hσ]
    exact Rewrites.updateKey (f := written env (values.apply status row)) x.1.ledger k row.id
      (fun _ => rfl) hreserved.extends
  have hclaims : σ.invoiceClaims = claims := by
    rw [hσ]
    cases k <;> rfl
  have hone : ∀ p ∈ x.1.ledger.outbox k, p.id = row.id → p = stored :=
    fun p hp hpid => row_inj hp hstored (hpid.trans hid.symm)
  have hhistory : x'.1.history = .wrote k (written env (values.apply status row) stored) ::
      x.1.history := by
    have hnew : (x'.1.ledger.outbox k).get? row.id
        = some (written env (values.apply status row) stored) :=
      Table.get?_eq_some.mpr ⟨hr.written stored hstored hid, hid⟩
    rw [hledger] at hnew
    rw [hx']
    show (((σ.outbox k).get? row.id).map (Happening.wrote k)).toList ++ x.1.history = _
    rw [hnew]
    rfl
  have hnewid : (written env (values.apply status row) stored).id = row.id := hid
  have haccounted := h.rows k stored hstored
  have hlast : lastStatus x.1.history k row.id = row.status := by
    rcases haccounted.last with hlast | ⟨hwithheld, -⟩
    · rw [← hstatus, hlast]
      exact congrArg (lastStatus x.1.history k) hid.symm
    · have hno := hentitles.follows
      rw [← hstatus, hwithheld] at hno
      cases hno
  refine ⟨?_, fun u hapart => ?_, ?_⟩
  · refine h.rewritten hr ?_ hlog ?_ ?_ ?_ ?_ fun _ => ⟨stored, hstored, hid⟩
    · rw [hx']
      exact h.tokens
    · intro k' id' hne
      rw [hhistory]
      exact statuses_wrote_of_ne _ fun heq => hne ⟨heq.1, heq.2.trans hnewid⟩
    · rw [hhistory]
      refine h.path.wrote ?_
      rw [hnewid, hlast]
      exact hentitles.follows
    · rw [hledger, hclaims]
      exact reserved_unique hreserved h.claims
    · intro p hp hpid
      rw [hone p hp hpid, hhistory]
      refine haccounted.updated hcopy hentitles hr.claims (fun hprepared hash hne heq => ?_) hlog
      rw [hledger, hclaims]
      exact hreserved.claimed hprepared heq hne
  · refine hr.keeps (fun c hc => by rw [hx']; exact hc) hlog (fun p hp hpid => ?_)
      fun c hu p hp hpid hc => ?_
    · rw [hone p hp hpid]
      refine ⟨rfl, fun hsome => ?_, ?_⟩
      · have hne : status ≠ .prepared := by
          intro hprepared
          have hqueued := queued_of_follows hentitles.follows (.inr hprepared)
          rw [haccounted.unprepared (.inl (hstatus.trans hqueued))] at hsome
          cases hsome
        obtain ⟨hvalue, hvalue'⟩ := hentitles.keep hne
        rw [hhash, hbolt11]
        show values.paymentHash.getD row.paymentHash = _ ∧ values.bolt11.getD row.bolt11 = _
        rw [hvalue, hvalue']
        exact ⟨rfl, rfl⟩
      · rw [hstatus]
        exact .single hentitles.follows
    · have hmine : c = row.claim := by
        rw [← hc, hone p hp hpid]
        exact hclaim
      exact absurd (hcopies.view.trans (congrArg some hmine.symm)) (hapart.differ c hu)
  · refine ⟨hcopies.view, by rw [hx']; exact hcopies.token, fun p hp hpid _ => ?_⟩
    rcases hr.rows k p hp with ⟨-, hnot⟩ | ⟨-, old, hold, hoid, rfl⟩
    · exact absurd ⟨rfl, hpid⟩ hnot
    · rw [hone old hold hoid]
      show (terms stored, _) = (terms row, _)
      rw [hterms]
      rfl

end

end QuakeJs.Payments
