import QuakeJs.Payments.Worker

/-!
# A payout is sent at most once

The rely-guarantee proof for any number of payout workers.  A worker's view is
its claim token, which no other worker holds.

* `Respects`: what a worker relies on.  Nobody else changes a row that carries
  its claim, calls `pay_invoice` under it, or takes an entry of the history
  back.
* `Orderly`: the invariant of the world.  A row that was ever `sending` is
  never `queued` or `prepared` again, so it is marked once; a prepared row
  holds a decoded invoice whose hash is reserved for it; each call was marked
  under its claim, and there is one call for a claim.
* `Held`, `Unsent`, `Marked`: what a worker knows of its row at the awaits of
  `process_payout`.
-/

namespace QuakeJs.Payments

open Async Ledger

/-! ## The history -/

/-- A call of `pay_invoice`. -/
structure Call where
  k : Outbox
  claim : Uid
  arguments : PayArguments
deriving DecidableEq, Repr

def Happening.call? : Happening → Option Call
  | .wrote _ _ => none
  | .called k claim arguments => some ⟨k, claim, arguments⟩

/-- The row that was committed as `sending`. -/
def Happening.sent? : Happening → Option (Outbox × Payout)
  | .wrote k row => if row.status = .sending then some (k, row) else none
  | .called _ _ _ => none

def calls (history : List Happening) : List Call := history.filterMap Happening.call?

def sends (history : List Happening) : List (Outbox × Payout) :=
  history.filterMap Happening.sent?

variable (decode : String → Option Invoice)

/-- The payment hash of a payment request. -/
def hashOf (request : Option String) : Option String :=
  (request.bind decode).map Invoice.paymentHash

/-- Each call comes after a committed `sending` status of its row, which holds
the request that is paid and its hash. -/
def Preceded (history : List Happening) : Prop :=
  ∀ newer older k claim arguments, history = newer ++ .called k claim arguments :: older →
    ∃ row, .wrote k row ∈ older ∧ row.status = .sending ∧ row.claim = claim ∧
      row.id = arguments.externalId ∧ row.bolt11 = arguments.paymentRequest ∧
        row.paymentHash.isSome = true ∧ row.paymentHash = hashOf decode arguments.paymentRequest

theorem mem_sends {history : List Happening} {k : Outbox} {row : Payout} :
    (k, row) ∈ sends history ↔ .wrote k row ∈ history ∧ row.status = .sending := by
  unfold sends
  rw [List.mem_filterMap]
  constructor
  · rintro ⟨happening, hmem, hsent⟩
    cases happening with
    | wrote k' row' =>
      simp only [Happening.sent?, Option.ite_none_right_eq_some, Option.some.injEq,
        Prod.mk.injEq] at hsent
      obtain ⟨hstatus, rfl, rfl⟩ := hsent
      exact ⟨hmem, hstatus⟩
    | called k' claim arguments => cases hsent
  · rintro ⟨hmem, hstatus⟩
    exact ⟨_, hmem, by simp [Happening.sent?, hstatus]⟩

variable {decode}

/-- What is committed does not call anybody. -/
theorem Preceded.wrote {history : List Happening} (h : Preceded decode history) (k : Outbox)
    (row : Payout) : Preceded decode (.wrote k row :: history) := by
  intro newer older k' claim arguments hsplit
  cases newer with
  | nil => cases hsplit
  | cons first newer =>
    rw [List.cons_append, List.cons.injEq] at hsplit
    exact h newer older k' claim arguments hsplit.2

/-- A call is in order after the row was marked for it. -/
theorem Preceded.called {history : List Happening} (h : Preceded decode history) {k : Outbox}
    {claim : Uid} {arguments : PayArguments} {row : Payout} (hsent : (k, row) ∈ sends history)
    (hclaim : row.claim = claim) (hid : row.id = arguments.externalId)
    (hbolt11 : row.bolt11 = arguments.paymentRequest) (hsome : row.paymentHash.isSome = true)
    (hhash : row.paymentHash = hashOf decode arguments.paymentRequest) :
    Preceded decode (.called k claim arguments :: history) := by
  intro newer older k' claim' arguments' hsplit
  cases newer with
  | nil =>
    rw [List.nil_append, List.cons.injEq, Happening.called.injEq] at hsplit
    obtain ⟨⟨rfl, rfl, rfl⟩, rfl⟩ := hsplit
    obtain ⟨hmem, hstatus⟩ := mem_sends.mp hsent
    exact ⟨row, hmem, hstatus, hclaim, hid, hbolt11, hsome, hhash⟩
  | cons first newer =>
    rw [List.cons_append, List.cons.injEq] at hsplit
    exact h newer older k' claim' arguments' hsplit.2

/-- The marked row of a call. -/
theorem Preceded.of_mem {history : List Happening} (h : Preceded decode history) {call : Call}
    (hcall : call ∈ calls history) :
    ∃ row, (call.k, row) ∈ sends history ∧ row.claim = call.claim ∧
      row.id = call.arguments.externalId ∧ row.bolt11 = call.arguments.paymentRequest ∧
        row.paymentHash.isSome = true ∧
          row.paymentHash = hashOf decode call.arguments.paymentRequest := by
  unfold calls at hcall
  obtain ⟨happening, hmem, hwhich⟩ := List.mem_filterMap.mp hcall
  cases happening with
  | wrote k row => cases hwhich
  | called k claim arguments =>
    cases hwhich
    obtain ⟨newer, older, hsplit⟩ := List.append_of_mem hmem
    obtain ⟨row, hrow, hstatus, hrest⟩ := h newer older k claim arguments hsplit
    refine ⟨row, mem_sends.mpr ⟨?_, hstatus⟩, hrest⟩
    rw [hsplit]
    exact List.mem_append_right newer (List.mem_cons_of_mem _ hrow)

/-! ## The invariant -/

/-- The row holds a decoded invoice, whose hash is reserved for it. -/
def Invoiced (decode : String → Option Invoice) (σ : Ledger) (row : Payout) : Prop :=
  ∃ request invoice, row.bolt11 = some request ∧ decode request = some invoice ∧
    row.paymentHash = some invoice.paymentHash ∧
      σ.invoiceClaims.get? invoice.paymentHash = some ⟨invoice.paymentHash, row.id⟩

/-- A row with this status may still be sent. -/
def Sendable (status : PayoutStatus) : Prop := status = .queued ∨ status = .prepared

structure Orderly (decode : String → Option Invoice) (w : World) : Prop where
  tokens : "" ∉ w.tokens
  claims : ∀ k, ∀ row ∈ w.ledger.outbox k, row.claim = "" ∨ row.claim ∈ w.tokens
  ids : ∀ k k', ∀ row ∈ w.ledger.outbox k, ∀ row' ∈ w.ledger.outbox k', row.id = row'.id → k = k'
  prepared : ∀ k, ∀ row ∈ w.ledger.outbox k, row.status = .prepared →
    Invoiced decode w.ledger row
  sent : ∀ k row, (k, row) ∈ sends w.history →
    row.claim ∈ w.tokens ∧ Invoiced decode w.ledger row ∧
      ∃ stored ∈ w.ledger.outbox k, stored.id = row.id ∧ ¬Sendable stored.status
  sentOnce : ((sends w.history).map fun s => (s.1, s.2.id)).Nodup
  calledOnce : ((calls w.history).map Call.claim).Nodup
  preceded : Preceded decode w.history

/-- What the holder of a claim relies on. -/
structure Respects (view : Option Uid) (w w' : World) : Prop where
  tokens : ∀ c ∈ w.tokens, c ∈ w'.tokens
  rows : ∀ c, view = some c → ∀ k, ∀ row' ∈ w'.ledger.outbox k, row'.claim = c →
    ∃ row ∈ w.ledger.outbox k, row.id = row'.id ∧ row.claim = c ∧ row.status = row'.status ∧
      row.bolt11 = row'.bolt11 ∧ row.paymentHash = row'.paymentHash
  calls : ∀ c, view = some c → ∀ call ∈ calls w'.history, call.claim = c → call ∈ calls w.history
  sends : ∀ s ∈ sends w.history, s ∈ sends w'.history

/-- Two workers hold different claims. -/
structure Apart (w : World) (u v : Option Uid) : Prop where
  left : ∀ c, u = some c → c ∈ w.tokens
  right : ∀ c, v = some c → c ∈ w.tokens
  differ : ∀ c, u = some c → v ≠ some c

/-- Who holds no claim is apart from everybody. -/
theorem Apart.idle {w : World} {u v : Option Uid} (h : Apart w u v) : Apart w u none where
  left := h.left
  right := by
    intro c hc
    cases hc
  differ := by
    intro c _ hc
    cases hc

/-- The discipline of the payout workers. -/
def discipline (decode : String → Option Invoice) : Discipline Op World (Option Uid) where
  inv := Orderly decode
  safe := fun _ _ => True
  rely := Respects
  apart := Apart
  idle := none
  rely_refl := fun _ _ =>
    { tokens := fun _ h => h
      rows := fun _ _ _ row hrow hc => ⟨row, hrow, rfl, hc, rfl, rfl, rfl⟩
      calls := fun _ _ _ h _ => h
      sends := fun _ h => h }
  rely_trans := by
    intro v w₁ w₂ w₃ h h'
    refine ⟨fun c hc => h'.tokens c (h.tokens c hc), ?_, ?_,
      fun s hs => h'.sends s (h.sends s hs)⟩
    · intro c hv k row₃ hrow₃ hc₃
      obtain ⟨row₂, hrow₂, hid₂, hc₂, hs₂, hb₂, hh₂⟩ := h'.rows c hv k row₃ hrow₃ hc₃
      obtain ⟨row₁, hrow₁, hid₁, hc₁, hs₁, hb₁, hh₁⟩ := h.rows c hv k row₂ hrow₂ hc₂
      exact ⟨row₁, hrow₁, hid₁.trans hid₂, hc₁, hs₁.trans hs₂, hb₁.trans hb₂, hh₁.trans hh₂⟩
    · exact fun c hv call hcall hc => h.calls c hv call (h'.calls c hv call hcall hc) hc
  apart_symm := fun _ _ _ h => ⟨h.right, h.left, fun c hv hu => h.differ c hu hv⟩
  apart_idle := fun _ _ _ h => h.idle
  apart_rely := fun _ _ _ _ h hu _ =>
    ⟨fun c hc => hu.tokens c (h.left c hc), fun c hc => hu.tokens c (h.right c hc), h.differ⟩

/-! ## What a worker knows of its row -/

/-- The worker's view is the claim of its copy of the row. -/
structure Mine (row : Payout) (view : Option Uid) (w : World) : Prop where
  view : view = some row.claim
  token : row.claim ∈ w.tokens

/-- The worker has not called `pay_invoice` yet. -/
structure Uncalled (row : Payout) (view : Option Uid) (w : World) : Prop
    extends Mine row view w where
  uncalled : ∀ call ∈ calls w.history, call.claim ≠ row.claim

/-- The stored row, if it still carries the claim, is the worker's copy. -/
structure Held (k : Outbox) (row : Payout) (view : Option Uid) (w : World) : Prop
    extends Uncalled row view w where
  copy : ∀ stored ∈ w.ledger.outbox k, stored.id = row.id → stored.claim = row.claim →
    stored.status = row.status ∧ stored.bolt11 = row.bolt11 ∧
      stored.paymentHash = row.paymentHash

/-- The stored row, if it still carries the claim, may still be sent. -/
structure Unsent (k : Outbox) (row : Payout) (view : Option Uid) (w : World) : Prop
    extends Uncalled row view w where
  sendable : ∀ stored ∈ w.ledger.outbox k, stored.id = row.id → stored.claim = row.claim →
    Sendable stored.status

/-- The row was committed as `sending`, with the request of the copy. -/
structure Marked (k : Outbox) (row : Payout) (view : Option Uid) (w : World) : Prop
    extends Uncalled row view w where
  sent : ∃ marked, (k, marked) ∈ sends w.history ∧ marked.claim = row.claim ∧
    marked.id = row.id ∧ marked.bolt11 = row.bolt11

theorem Mine.stable (row : Payout) : (discipline decode).Stable (Mine row) :=
  fun _ _ _ h hrely => ⟨h.view, hrely.tokens _ h.token⟩

theorem Uncalled.stable (row : Payout) : (discipline decode).Stable (Uncalled row) := by
  intro view w w' h hrely
  refine ⟨Mine.stable row view w w' h.toMine hrely, ?_⟩
  intro call hcall hclaim
  exact h.uncalled call (hrely.calls row.claim h.view call hcall hclaim) hclaim

theorem Held.stable (k : Outbox) (row : Payout) : (discipline decode).Stable (Held k row) := by
  intro view w w' h hrely
  refine ⟨Uncalled.stable row view w w' h.toUncalled hrely, ?_⟩
  intro stored' hmem' hid' hclaim'
  obtain ⟨stored, hmem, hid, hclaim, hs, hb, hh⟩ :=
    hrely.rows row.claim h.view k stored' hmem' hclaim'
  obtain ⟨hs₀, hb₀, hh₀⟩ := h.copy stored hmem (hid.trans hid') hclaim
  exact ⟨hs.symm.trans hs₀, hb.symm.trans hb₀, hh.symm.trans hh₀⟩

theorem Unsent.stable (k : Outbox) (row : Payout) :
    (discipline decode).Stable (Unsent k row) := by
  intro view w w' h hrely
  refine ⟨Uncalled.stable row view w w' h.toUncalled hrely, ?_⟩
  intro stored' hmem' hid' hclaim'
  obtain ⟨stored, hmem, hid, hclaim, hs, -⟩ :=
    hrely.rows row.claim h.view k stored' hmem' hclaim'
  rw [← hs]
  exact h.sendable stored hmem (hid.trans hid') hclaim

theorem Marked.stable (k : Outbox) (row : Payout) :
    (discipline decode).Stable (Marked k row) := by
  intro view w w' h hrely
  refine ⟨Uncalled.stable row view w w' h.toUncalled hrely, ?_⟩
  obtain ⟨marked, hsent, hrest⟩ := h.sent
  exact ⟨marked, hrely.sends _ hsent, hrest⟩

/-- A row that may be sent, and is held, is unsent. -/
theorem Held.unsent {k : Outbox} {row : Payout} {view : Option Uid} {w : World}
    (h : Held k row view w) (hstatus : Sendable row.status) : Unsent k row view w := by
  refine ⟨h.toUncalled, ?_⟩
  intro stored hmem hid hclaim
  rw [(h.copy stored hmem hid hclaim).1]
  exact hstatus

/-! ## Writing a row -/

/-- The ledger `σ'` is `σ` with the row `id` of one outbox rewritten by `f`, and
perhaps more invoice claims. -/
structure Rewrites (k : Outbox) (id : Uid) (f : Payout → Payout) (σ σ' : Ledger) : Prop where
  rows : ∀ k', ∀ row' ∈ σ'.outbox k', (row' ∈ σ.outbox k' ∧ ¬(k' = k ∧ row'.id = id)) ∨
    k' = k ∧ ∃ row ∈ σ.outbox k, row.id = id ∧ row' = f row
  kept : ∀ k', ∀ row ∈ σ.outbox k', ¬(k' = k ∧ row.id = id) → row ∈ σ'.outbox k'
  written : ∀ row ∈ σ.outbox k, row.id = id → f row ∈ σ'.outbox k
  key : ∀ row, (f row).id = row.id
  claims : ∀ hash claim, σ.invoiceClaims.get? hash = some claim →
    σ'.invoiceClaims.get? hash = some claim

theorem Rewrites.updateKey (σ : Ledger) (k : Outbox) (id : Uid) {f : Payout → Payout}
    (hf : KeepsKey f) {claims : Table InvoiceClaim}
    (hclaims : ∀ hash claim, σ.invoiceClaims.get? hash = some claim →
      claims.get? hash = some claim) :
    Rewrites k id f σ (({ σ with invoiceClaims := claims } : Ledger).setOutbox k
      ((σ.outbox k).updateKey id f hf)) where
  rows := by
    intro k' row' hrow'
    by_cases hk : k' = k
    · subst hk
      rw [outbox_setOutbox, Table.mem_updateKey] at hrow'
      rcases hrow' with ⟨hold, hid⟩ | ⟨row, hrow, hid, rfl⟩
      · exact .inl ⟨hold, fun h => hid h.2⟩
      · exact .inr ⟨rfl, row, hrow, hid, rfl⟩
    · rw [outbox_setOutbox_of_ne _ _ hk, outbox_invoiceClaims] at hrow'
      exact .inl ⟨hrow', fun h => hk h.1⟩
  kept := by
    intro k' row hrow hne
    by_cases hk : k' = k
    · subst hk
      rw [outbox_setOutbox]
      exact Table.mem_updateKey_of_ne hrow fun hid => hne ⟨rfl, hid⟩
    · rw [outbox_setOutbox_of_ne _ _ hk, outbox_invoiceClaims]
      exact hrow
  written := by
    intro row hrow hid
    rw [outbox_setOutbox]
    exact (Table.mem_updateKey hf).mpr (.inr ⟨row, hrow, hid, rfl⟩)
  key := hf
  claims := by
    intro hash claim hclaim
    have hsame : (({ σ with invoiceClaims := claims } : Ledger).setOutbox k
        ((σ.outbox k).updateKey id f hf)).invoiceClaims = claims := by
      cases k <;> rfl
    rw [hsame]
    exact hclaims hash claim hclaim

theorem Invoiced.mono {σ σ' : Ledger} {row : Payout} (h : Invoiced decode σ row)
    (hclaims : ∀ hash claim, σ.invoiceClaims.get? hash = some claim →
      σ'.invoiceClaims.get? hash = some claim) : Invoiced decode σ' row := by
  obtain ⟨request, invoice, hrequest, hdecode, hhash, hclaim⟩ := h
  exact ⟨request, invoice, hrequest, hdecode, hhash, hclaims _ _ hclaim⟩

section

variable {w w' : World} {k : Outbox} {id : Uid} {f : Payout → Payout}

/-- The rows of one outbox have distinct ids. -/
theorem row_inj {σ : Ledger} {row row' : Payout} (h : row ∈ σ.outbox k) (h' : row' ∈ σ.outbox k)
    (hid : row.id = row'.id) : row = row' :=
  Table.mem_inj h h' hid

/-- The row as it is written was committed as `sending`, from a status in which
it could still be sent. -/
structure Marks (decode : String → Option Invoice) (k : Outbox) (id : Uid) (w w' : World)
    (marked : Payout) : Prop where
  sends : sends w'.history = (k, marked) :: sends w.history
  mem : marked ∈ w'.ledger.outbox k
  which : marked.id = id
  claim : marked.claim ∈ w'.tokens
  invoiced : Invoiced decode w'.ledger marked
  status : ¬Sendable marked.status
  before : ∃ row ∈ w.ledger.outbox k, row.id = id ∧ Sendable row.status

/-- What a rewritten row must satisfy for the invariant to go on. -/
theorem Orderly.rewritten (h : Orderly decode w) (hr : Rewrites k id f w.ledger w'.ledger)
    (htokens : ∀ c ∈ w.tokens, c ∈ w'.tokens) (hempty : "" ∉ w'.tokens)
    (hclaim : ∀ row ∈ w.ledger.outbox k, row.id = id →
      (f row).claim = "" ∨ (f row).claim ∈ w'.tokens)
    (hprepared : ∀ row ∈ w.ledger.outbox k, row.id = id → (f row).status = .prepared →
      Invoiced decode w'.ledger (f row))
    (hsendable : ∀ row ∈ w.ledger.outbox k, row.id = id → Sendable (f row).status →
      Sendable row.status)
    (hcalls : calls w'.history = calls w.history) (hpreceded : Preceded decode w'.history)
    (hsends : sends w'.history = sends w.history ∨ ∃ marked, Marks decode k id w w' marked) :
    Orderly decode w' := by
  -- The stored row of an old mark is still there, and still not sendable.
  have hstored : ∀ k' row, (k', row) ∈ sends w.history →
      ∃ stored ∈ w'.ledger.outbox k', stored.id = row.id ∧ ¬Sendable stored.status := by
    intro k' row hsent
    obtain ⟨stored, hmem, hid, hnot⟩ := (h.sent k' row hsent).2.2
    by_cases hwhich : k' = k ∧ stored.id = id
    · obtain ⟨rfl, hid'⟩ := hwhich
      exact ⟨f stored, hr.written stored hmem hid', (hr.key stored).trans hid,
        fun hs => hnot (hsendable stored hmem hid' hs)⟩
    · exact ⟨stored, hr.kept k' stored hmem hwhich, hid, hnot⟩
  have hold : ∀ k' row, (k', row) ∈ sends w.history →
      row.claim ∈ w'.tokens ∧ Invoiced decode w'.ledger row ∧
        ∃ stored ∈ w'.ledger.outbox k', stored.id = row.id ∧ ¬Sendable stored.status := by
    intro k' row hsent
    obtain ⟨htoken, hinvoiced, -⟩ := h.sent k' row hsent
    exact ⟨htokens _ htoken, hinvoiced.mono hr.claims, hstored k' row hsent⟩
  refine ⟨hempty, ?_, ?_, ?_, ?_, ?_, ?_, hpreceded⟩
  · intro k' row' hrow'
    rcases hr.rows k' row' hrow' with ⟨hrow, -⟩ | ⟨rfl, row, hrow, hid, rfl⟩
    · exact (h.claims k' row' hrow).imp_right (htokens _)
    · exact hclaim row hrow hid
  · intro k₁ k₂ row₁ hrow₁ row₂ hrow₂ hid
    have horigin : ∀ k' row', row' ∈ w'.ledger.outbox k' →
        ∃ row ∈ w.ledger.outbox k', row.id = row'.id := by
      intro k' row' hrow'
      rcases hr.rows k' row' hrow' with ⟨hrow, -⟩ | ⟨rfl, row, hrow, -, rfl⟩
      · exact ⟨row', hrow, rfl⟩
      · exact ⟨row, hrow, (hr.key row).symm⟩
    obtain ⟨r₁, hr₁, hid₁⟩ := horigin k₁ row₁ hrow₁
    obtain ⟨r₂, hr₂, hid₂⟩ := horigin k₂ row₂ hrow₂
    exact h.ids k₁ k₂ r₁ hr₁ r₂ hr₂ ((hid₁.trans hid).trans hid₂.symm)
  · intro k' row' hrow' hstatus
    rcases hr.rows k' row' hrow' with ⟨hrow, -⟩ | ⟨rfl, row, hrow, hid, rfl⟩
    · exact (h.prepared k' row' hrow hstatus).mono hr.claims
    · exact hprepared row hrow hid hstatus
  · intro k' row' hsent
    rcases hsends with hsame | ⟨marked, hmarks⟩
    · rw [hsame] at hsent
      exact hold k' row' hsent
    · rw [hmarks.sends, List.mem_cons] at hsent
      rcases hsent with heq | hsent
      · obtain ⟨rfl, rfl⟩ := Prod.mk.inj heq
        exact ⟨hmarks.claim, hmarks.invoiced, row', hmarks.mem, rfl, hmarks.status⟩
      · exact hold k' row' hsent
  · rcases hsends with hsame | ⟨marked, hmarks⟩
    · rw [hsame]
      exact h.sentOnce
    · rw [hmarks.sends, List.map_cons, List.nodup_cons]
      refine ⟨?_, h.sentOnce⟩
      intro hmem
      obtain ⟨⟨k', row⟩, hsent, heq⟩ := List.mem_map.mp hmem
      obtain ⟨rfl, hid⟩ := Prod.mk.inj heq
      obtain ⟨stored, hstored, hid', hnot⟩ := (h.sent k' row hsent).2.2
      obtain ⟨before, hbefore, hid'', hyes⟩ := hmarks.before
      have hsame : stored = before :=
        row_inj hstored hbefore (((hid'.trans hid).trans hmarks.which).trans hid''.symm)
      exact hnot (hsame ▸ hyes)
  · rw [hcalls]
    exact h.calledOnce

/-- The others are respected when the row that is rewritten does not carry
their claims afterwards, unless nothing of it changes. -/
theorem Rewrites.respects (hr : Rewrites k id f w.ledger w'.ledger) {u : Option Uid}
    (htokens : ∀ c ∈ w.tokens, c ∈ w'.tokens)
    (hkeep : ∀ c, u = some c → ∀ row ∈ w.ledger.outbox k, row.id = id → (f row).claim = c →
      row.claim = c ∧ row.status = (f row).status ∧ row.bolt11 = (f row).bolt11 ∧
        row.paymentHash = (f row).paymentHash)
    (hcalls : calls w'.history = calls w.history)
    (hsends : ∀ s ∈ sends w.history, s ∈ sends w'.history) : Respects u w w' where
  tokens := htokens
  rows := by
    intro c hu k' row' hrow' hc
    rcases hr.rows k' row' hrow' with ⟨hrow, -⟩ | ⟨rfl, row, hrow, hid, rfl⟩
    · exact ⟨row', hrow, rfl, hc, rfl, rfl, rfl⟩
    · exact ⟨row, hrow, (hr.key row).symm, hkeep c hu row hrow hid hc⟩
  calls := by
    intro c _ call hcall _
    rw [← hcalls]
    exact hcall
  sends := hsends

/-- A lease leaves everything that the invariant asks of a row, but the claim. -/
theorem Orderly.leased (h : Orderly decode w) (hr : Rewrites k id f w.ledger w'.ledger)
    (hhistory : w'.history = w.history) (htokens : ∀ c ∈ w.tokens, c ∈ w'.tokens)
    (hempty : "" ∉ w'.tokens)
    (hclaim : ∀ row ∈ w.ledger.outbox k, (f row).claim = "" ∨ (f row).claim ∈ w'.tokens)
    (hsame : ∀ row, (f row).status = row.status ∧ (f row).bolt11 = row.bolt11 ∧
      (f row).paymentHash = row.paymentHash) : Orderly decode w' := by
  refine h.rewritten hr htokens hempty (fun row hrow _ => hclaim row hrow) ?_ ?_ ?_ ?_ (.inl ?_)
  · intro row hrow _ hstatus
    rw [(hsame row).1] at hstatus
    obtain ⟨request, invoice, hbolt11, hdecode, hhash, hreserved⟩ :=
      (h.prepared k row hrow hstatus).mono hr.claims
    refine ⟨request, invoice, (hsame row).2.1.trans hbolt11, hdecode,
      (hsame row).2.2.trans hhash, ?_⟩
    rw [hr.key]
    exact hreserved
  · intro row _ _ hstatus
    rw [(hsame row).1] at hstatus
    exact hstatus
  · rw [hhistory]
  · rw [hhistory]
    exact h.preceded
  · rw [hhistory]

end

/-! ## The operations -/

section

variable {w : World} {view : Option Uid} {k : Outbox} {row : Payout}

theorem Rewrites.refl (k : Outbox) (id : Uid) (σ : Ledger) :
    Rewrites k id (fun row => row) σ σ where
  rows := by
    intro k' row' hrow'
    by_cases hwhich : k' = k ∧ row'.id = id
    · exact .inr ⟨hwhich.1, row', hwhich.1 ▸ hrow', hwhich.2, rfl⟩
    · exact .inl ⟨hrow', hwhich⟩
  kept := fun _ _ hrow _ => hrow
  written := fun _ hrow _ => hrow
  key := fun _ => rfl
  claims := fun _ _ hclaim => hclaim

/-- A claim is rewritten by a fresh token, which nobody holds. -/
theorem claim_spec {v : Option Uid} (h : Orderly decode w) {env : Env} (hne : env.uid 0 ≠ "")
    (hfresh : env.uid 0 ∉ w.tokens) {w' : World}
    (hw' : w' = { w with
      ledger := (claimPayout env w.ledger).2
      tokens := env.uid 0 :: w.tokens }) :
    Orderly decode w' ∧ (∀ u, Apart w u v → Respects u w w') ∧
      ∀ k row, (claimPayout env w.ledger).1 = some (k, row) →
        row.claim = env.uid 0 ∧ Held k row (some row.claim) w' := by
  have htokens : ∀ c ∈ w.tokens, c ∈ w'.tokens := by
    intro c hc
    rw [hw']
    exact List.mem_cons_of_mem _ hc
  have hempty : "" ∉ w'.tokens := by
    rw [hw']
    intro hmem
    rcases List.mem_cons.mp hmem with heq | hmem
    · exact hne heq.symm
    · exact h.tokens hmem
  have hhistory : w'.history = w.history := by rw [hw']
  -- Nobody has called under the new token yet.
  have huncalled : ∀ call ∈ calls w'.history, call.claim ≠ env.uid 0 := by
    intro call hcall hclaim
    rw [hhistory] at hcall
    obtain ⟨marked, hsent, hmine, -⟩ := h.preceded.of_mem hcall
    have htoken := (h.sent call.k marked hsent).1
    rw [hmine, hclaim] at htoken
    exact hfresh htoken
  obtain ⟨hnone, hsame⟩ | ⟨k, row, hrow, -, -, -, hsome, hσ⟩ :=
    claimPayout_eq (Prod.eta (claimPayout env w.ledger)).symm
  · have hr : Rewrites .payouts "" (fun row => row) w.ledger w'.ledger := by
      rw [hw', hsame]
      exact Rewrites.refl .payouts "" w.ledger
    refine ⟨h.leased hr hhistory htokens hempty ?_ fun _ => ⟨rfl, rfl, rfl⟩, ?_, ?_⟩
    · exact fun row hrow => (h.claims .payouts row hrow).imp_right (htokens _)
    · exact fun u _ => hr.respects htokens (fun c _ row _ _ hc => ⟨hc, rfl, rfl, rfl⟩)
        (congrArg calls hhistory) fun s hs => hhistory ▸ hs
    · intro k row hclaimed
      rw [hnone] at hclaimed
      cases hclaimed
  · have hr : Rewrites k row.id (Ledger.leased env) w.ledger w'.ledger := by
      rw [hw', hσ]
      exact Rewrites.updateKey (f := Ledger.leased env) w.ledger k row.id (fun _ => rfl)
        fun _ _ hclaim => hclaim
    have htoken : env.uid 0 ∈ w'.tokens := by
      rw [hw']
      exact List.mem_cons_self
    refine ⟨h.leased hr hhistory htokens hempty ?_ fun _ => ⟨rfl, rfl, rfl⟩, ?_, ?_⟩
    · exact fun _ _ => .inr htoken
    · intro u hapart
      refine hr.respects htokens ?_ (congrArg calls hhistory) fun s hs => hhistory ▸ hs
      intro c hu stored _ _ hc
      exact absurd (hapart.left c hu) (hc ▸ hfresh)
    · intro k' row' hclaimed
      rw [hsome, Option.some.injEq, Prod.mk.injEq] at hclaimed
      obtain ⟨rfl, rfl⟩ := hclaimed
      refine ⟨rfl, ⟨⟨⟨rfl, htoken⟩, huncalled⟩, ?_⟩⟩
      intro stored' hstored' hid _
      rcases hr.rows k stored' hstored' with ⟨_, hnot⟩ | ⟨-, stored, hstored, hid', rfl⟩
      · exact absurd ⟨rfl, hid⟩ hnot
      · rw [row_inj hstored hrow hid']
        exact ⟨rfl, rfl, rfl⟩

/-- The write of `releasePayout`, for a row that carries the claim. -/
def released (env : Env) (claim : Uid) (p : Payout) : Payout :=
  if p.claim = claim then
    { p with
      claimedUntil := 0
      nextAttempt := if p.status.due && p.nextAttempt ≤ env.now then env.now + 30
        else p.nextAttempt }
  else p

theorem released_keeps (env : Env) (claim : Uid) (p : Payout) :
    (released env claim p).id = p.id ∧ (released env claim p).claim = p.claim ∧
      (released env claim p).status = p.status ∧ (released env claim p).bolt11 = p.bolt11 ∧
        (released env claim p).paymentHash = p.paymentHash := by
  unfold released
  by_cases hclaim : p.claim = claim
  · rw [if_pos hclaim]
    exact ⟨rfl, rfl, rfl, rfl, rfl⟩
  · rw [if_neg hclaim]
    exact ⟨rfl, rfl, rfl, rfl, rfl⟩

theorem keepsKey_released (env : Env) (claim : Uid) : KeepsKey (released env claim) :=
  fun p => (released_keeps env claim p).1

theorem releasePayout_eq (env : Env) (k : Outbox) (row : Payout) (σ : Ledger) :
    releasePayout env k row σ = σ.setOutbox k
      ((σ.outbox k).updateKey row.id (released env row.claim)
        (keepsKey_released env row.claim)) := by
  unfold releasePayout
  congr 1
  refine Table.ext ?_
  refine List.map_congr_left fun p _ => ?_
  by_cases hid : p.id = row.id <;> by_cases hclaim : p.claim = row.claim
  · simp [Keyed.key, released, hid, hclaim]
  · simp [Keyed.key, released, hid, hclaim]
  · simp [Keyed.key, hid]
  · simp [Keyed.key, hid]

/-- A claim that is given back changes nothing that anybody relies on. -/
theorem release_spec (h : Orderly decode w) (env : Env) (k : Outbox) (row : Payout) {w' : World}
    (hw' : w' = { w with
      ledger := releasePayout env k row w.ledger }) :
    Orderly decode w' ∧ ∀ u, Respects u w w' := by
  have hhistory : w'.history = w.history := by rw [hw']
  have htokens : w'.tokens = w.tokens := by rw [hw']
  have hr : Rewrites k row.id (released env row.claim) w.ledger w'.ledger := by
    rw [hw', releasePayout_eq]
    exact Rewrites.updateKey w.ledger k row.id (keepsKey_released env row.claim)
      fun _ _ hclaim => hclaim
  refine ⟨h.leased hr hhistory (fun c hc => htokens ▸ hc) (htokens ▸ h.tokens) ?_
    fun p => (released_keeps env row.claim p).2.2, ?_⟩
  · intro p hp
    rw [(released_keeps env row.claim p).2.1, htokens]
    exact h.claims k p hp
  · intro u
    refine hr.respects (fun c hc => htokens ▸ hc) ?_ (congrArg calls hhistory)
      fun s hs => hhistory ▸ hs
    intro c _ p _ _ hc
    obtain ⟨-, hclaim, hstatus, hbolt11, hhash⟩ := released_keeps env row.claim p
    exact ⟨hclaim.symm.trans hc, hstatus.symm, hbolt11.symm, hhash.symm⟩

/-- A worker calls `pay_invoice` once, after its row is marked. -/
theorem call_spec (h : Orderly decode w) (hmarked : Marked k row view w) {w' : World}
    (hw' : w' = { w with
      history := .called k row.claim (payArguments k row) :: w.history }) :
    Orderly decode w' ∧ ∀ u, Apart w u view → Respects u w w' := by
  subst hw'
  have hcalls : calls (.called k row.claim (payArguments k row) :: w.history) =
      ⟨k, row.claim, payArguments k row⟩ :: calls w.history := rfl
  have hsends : sends (.called k row.claim (payArguments k row) :: w.history) =
      sends w.history := rfl
  obtain ⟨marked, hsent, hclaim, hid, hbolt11⟩ := hmarked.sent
  refine ⟨⟨h.tokens, h.claims, h.ids, h.prepared, h.sent, h.sentOnce, ?_, ?_⟩, ?_⟩
  · show ((calls (.called k row.claim (payArguments k row) :: w.history)).map Call.claim).Nodup
    rw [hcalls, List.map_cons, List.nodup_cons]
    refine ⟨?_, h.calledOnce⟩
    intro hmem
    obtain ⟨call, hcall, heq⟩ := List.mem_map.mp hmem
    exact hmarked.uncalled call hcall heq
  · obtain ⟨request, invoice, hrequest, hdecode, hhash, -⟩ := (h.sent k marked hsent).2.1
    have hrow : row.bolt11 = some request := hbolt11.symm.trans hrequest
    refine h.preceded.called hsent hclaim hid hbolt11 (by rw [hhash]; rfl) ?_
    show marked.paymentHash = hashOf decode row.bolt11
    rw [hhash, hrow]
    simp [hashOf, hdecode]
  · intro u hapart
    refine ⟨fun c hc => hc, fun c _ k' row' hrow' hc => ⟨row', hrow', rfl, hc, rfl, rfl, rfl⟩, ?_,
      fun s hs => hs⟩
    intro c hu call hcall hc
    rw [hcalls, List.mem_cons] at hcall
    rcases hcall with rfl | hold
    · exact absurd (hmarked.view.trans (congrArg some hc)) (hapart.differ c hu)
    · exact hold

/-! ## Updates -/

/-- What a worker must know of its row to commit an update. -/
structure Entitled (decode : String → Option Invoice) (k : Outbox) (row : Payout)
    (status : PayoutStatus) (values : PayoutValues) (w : World) : Prop where
  again : status = .queued ∨ status = .prepared → ∀ stored ∈ w.ledger.outbox k,
    stored.id = row.id → stored.claim = row.claim → Sendable stored.status
  invoiced : status = .prepared → ∃ request invoice, values.bolt11 = some (some request) ∧
    decode request = some invoice ∧ values.paymentHash = some (some invoice.paymentHash)
  marked : status = .sending → values = {} ∧ ∀ stored ∈ w.ledger.outbox k,
    stored.id = row.id → stored.claim = row.claim → stored.status = .prepared ∧
      stored.bolt11 = row.bolt11 ∧ stored.paymentHash = row.paymentHash

/-- A committed update, by a worker who is entitled to it. -/
theorem update_spec (h : Orderly decode w) (hmine : Mine row view w) {status : PayoutStatus}
    {values : PayoutValues} (hentitled : Entitled decode k row status values w) {env : Env}
    {row' : Payout} {σ : Ledger}
    (hrun : Ledger.updatePayout env k row status values w.ledger = .ok (row', σ)) :
    Orderly decode (w.wrote k row.id σ) ∧
      (∀ u, Apart w u view → Respects u w (w.wrote k row.id σ)) ∧
      row' = values.apply status row ∧
      ∃ stored ∈ w.ledger.outbox k, stored.id = row.id ∧ stored.claim = row.claim ∧
        Rewrites k row.id (written env row') w.ledger σ ∧
        (w.wrote k row.id σ).history = .wrote k (written env row' stored) :: w.history := by
  obtain ⟨hrow', claims, stored, hreserved, hget, hclaim, -, hσ⟩ := updatePayout_ok hrun
  obtain ⟨hstored, hid⟩ := Table.get?_eq_some.mp hget
  have hr : Rewrites k row.id (written env row') w.ledger σ := by
    rw [hσ]
    exact Rewrites.updateKey (f := written env row') w.ledger k row.id (fun _ => rfl)
      hreserved.extends
  have hstatus : row'.status = status := by rw [hrow']; rfl
  have hid' : row'.id = row.id := by rw [hrow']; rfl
  -- The rows that the update rewrites are the one it found.
  have hone : ∀ p ∈ w.ledger.outbox k, p.id = row.id → p = stored :=
    fun p hp hpid => row_inj hp hstored (hpid.trans hid.symm)
  have hhistory : (w.wrote k row.id σ).history =
      .wrote k (written env row' stored) :: w.history := by
    have hnew : (σ.outbox k).get? row.id = some (written env row' stored) :=
      Table.get?_eq_some.mpr ⟨hr.written stored hstored hid, hid⟩
    show (((σ.outbox k).get? row.id).map (Happening.wrote k)).toList ++ w.history = _
    rw [hnew]
    rfl
  have hclaims : σ.invoiceClaims = claims := by
    rw [hσ]
    cases k <;> rfl
  have hcalls : calls (w.wrote k row.id σ).history = calls w.history := by
    rw [hhistory]
    rfl
  have hsends : sends (w.wrote k row.id σ).history = sends w.history ∨
      status = .sending ∧ sends (w.wrote k row.id σ).history =
        (k, written env row' stored) :: sends w.history := by
    rw [hhistory]
    by_cases hsending : status = .sending
    · refine .inr ⟨hsending, ?_⟩
      show List.filterMap _ _ = _
      rw [List.filterMap_cons_some]
      · rfl
      · show (if row'.status = .sending then some (k, written env row' stored) else none) = _
        rw [if_pos (hstatus.trans hsending)]
    · refine .inl ?_
      show List.filterMap _ _ = _
      rw [List.filterMap_cons_none]
      · rfl
      · show (if row'.status = .sending then some (k, written env row' stored) else none) = _
        rw [if_neg (fun hs => hsending (hstatus.symm.trans hs))]
  refine ⟨?_, ?_, hrow', stored, hstored, hid, hclaim, hr, hhistory⟩
  · refine h.rewritten hr (fun c hc => hc) h.tokens ?_ ?_ ?_ hcalls ?_ ?_
    · intro p hp hpid
      rw [hone p hp hpid]
      exact h.claims k stored hstored
    · intro p hp hpid hs
      have hprepared : status = .prepared := hstatus.symm.trans hs
      obtain ⟨request, invoice, hbolt11, hdecode, hhash⟩ := hentitled.invoiced hprepared
      have hhash' : row'.paymentHash = some invoice.paymentHash := by
        rw [hrow']
        simp [PayoutValues.apply, hhash]
      refine ⟨request, invoice, ?_, hdecode, hhash', ?_⟩
      · show row'.bolt11 = some request
        rw [hrow']
        simp [PayoutValues.apply, hbolt11]
      · have hreserve := hreserved.claimed (hstatus.trans hprepared) hhash' invoice.paymentHash_ne
        rw [hid'] at hreserve
        show σ.invoiceClaims.get? invoice.paymentHash = some ⟨invoice.paymentHash, p.id⟩
        rw [hclaims, hreserve, hpid]
    · intro p hp hpid hs
      have hagain : status = .queued ∨ status = .prepared := by
        rw [← hstatus]
        exact hs
      rw [hone p hp hpid]
      exact hentitled.again hagain stored hstored hid hclaim
    · rw [hhistory]
      exact h.preceded.wrote k _
    · rcases hsends with hsame | ⟨hsending, hsent⟩
      · exact .inl hsame
      · obtain ⟨hvalues, hall⟩ := hentitled.marked hsending
        obtain ⟨hprepared, hbolt11, hhash⟩ := hall stored hstored hid hclaim
        refine .inr ⟨written env row' stored, hsent,
          hr.written stored hstored hid, hid, ?_, ?_, ?_,
          stored, hstored, hid, .inr hprepared⟩
        · show stored.claim ∈ w.tokens
          rw [hclaim]
          exact hmine.token
        · obtain ⟨request, invoice, hrequest, hdecode, hinvoice, hreserve⟩ :=
            (h.prepared k stored hstored hprepared).mono hr.claims
          refine ⟨request, invoice, ?_, hdecode, ?_, hreserve⟩
          · show row'.bolt11 = some request
            rw [hrow', hvalues]
            exact hbolt11.symm.trans hrequest
          · show row'.paymentHash = some invoice.paymentHash
            rw [hrow', hvalues]
            exact hhash.symm.trans hinvoice
        · show ¬Sendable row'.status
          rw [hstatus, hsending]
          simp [Sendable]
  · intro u hapart
    refine hr.respects (fun c hc => hc) ?_ hcalls ?_
    · intro c hu p hp hpid hc
      have hmine' : c = row.claim := by
        rw [← hc, hone p hp hpid]
        exact hclaim
      exact absurd (hmine.view.trans (congrArg some hmine'.symm)) (hapart.differ c hu)
    · intro s hs
      rcases hsends with hsame | ⟨-, hsent⟩
      · rw [hsame]
        exact hs
      · rw [hsent]
        exact List.mem_cons_of_mem _ hs

end

/-! ## One await -/

section

variable {k : Outbox} {row : Payout} {P : Option Uid → World → Prop}

/-- The triple of a worker's coroutine. -/
abbrev Works (decode : String → Option Invoice) {α : Type} (P : Option Uid → World → Prop)
    (task : Coroutine α) (R : α → Option Uid → World → Prop)
    (S : Raised Fault → Option Uid → World → Prop) : Prop :=
  Triple (discipline decode) Performs P task R S

theorem stable_true : (discipline decode).Stable fun _ _ => True := fun _ _ _ _ _ => trivial

/-- An operation is in order when its effect is.  Whatever it raises, it may
have done its work or nothing. -/
theorem works_await {op : Op} {R : op.Ans → Option Uid → World → Prop}
    {S : Raised Fault → Option Uid → World → Prop} (hP : (discipline decode).Stable P)
    (hR : ∀ a, (discipline decode).Stable (R a)) (hS : ∀ raised,
      (discipline decode).Stable (S raised))
    (hraised : ∀ v w raised, P v w → S raised v w)
    (heffect : ∀ v w result w', Orderly decode w → P v w → Effect op w result w' →
      Orderly decode w' ∧ ∃ v', (∀ u, Apart w u v → Respects u w w' ∧ Apart w' u v') ∧
        (∀ a, result = .ok a → R a v' w') ∧ ∀ raised, S raised v' w') :
    Works decode P (await op) R S := by
  refine Triple.perform hP ?_ (fun _ _ _ _ => trivial) ?_
  · intro outcome
    cases outcome with
    | ok a => exact hR a
    | error raised => exact hS raised
  · intro v w outcome w' hinv hpre hdoes
    rcases hdoes with ⟨result, heff, hout⟩ | ⟨rfl, raised, rfl⟩
    · obtain ⟨hinv', v', hgrants, hok, hbad⟩ := heffect v w result w' hinv hpre heff
      refine ⟨hinv', v', hgrants, ?_⟩
      rcases hout with rfl | ⟨raised, rfl⟩
      · cases result with
        | ok a => exact hok a rfl
        | error e => exact hbad _
      · exact hbad raised
    · exact ⟨hinv, v, Discipline.Grants.refl _ v w', hraised v w' raised hpre⟩

/-- An operation that only reads. -/
theorem works_read {op : Op} (hP : (discipline decode).Stable P)
    (hread : ∀ w result w', Effect op w result w' → w' = w) :
    Works decode P (await op) (fun _ => P) fun _ => P := by
  refine works_await hP (fun _ => hP) (fun _ => hP) (fun _ _ _ h => h) ?_
  intro v w result w' hinv hpre heff
  rw [hread w result w' heff]
  exact ⟨hinv, v, Discipline.Grants.refl (discipline decode) v w, fun _ _ => hpre, fun _ => hpre⟩

theorem works_now (hP : (discipline decode).Stable P) :
    Works decode P now (fun _ => P) fun _ => P :=
  works_read hP fun _ _ _ h => h

theorem works_getStandalonePayment (hP : (discipline decode).Stable P)
    (hash wallet : Option String) :
    Works decode P (getStandalonePayment hash wallet) (fun _ => P) fun _ => P :=
  works_read hP fun _ _ _ h => h

/-- An update, with what its effect comes to. -/
theorem works_update {status : PayoutStatus} {values : PayoutValues}
    {R : Payout → Option Uid → World → Prop} {S : Option Uid → World → Prop}
    (hP : (discipline decode).Stable P) (hR : ∀ a, (discipline decode).Stable (R a))
    (hS : (discipline decode).Stable S) (hmine : ∀ v w, P v w → Mine row v w)
    (hentitled : ∀ v w, P v w → Entitled decode k row status values w)
    (hraised : ∀ v w, P v w → S v w)
    (hwritten : ∀ v w w' env row' stored, P v w → row' = values.apply status row →
      stored ∈ w.ledger.outbox k → stored.id = row.id → stored.claim = row.claim →
      Rewrites k row.id (written env row') w.ledger w'.ledger → w'.tokens = w.tokens →
      w'.history = .wrote k (written env row' stored) :: w.history → R row' v w' ∧ S v w') :
    Works decode P (updatePayout k row status values) R fun _ => S := by
  refine works_await hP hR (fun _ => hS) (fun v w _ h => hraised v w h) ?_
  intro v w result w' hinv hpre heff
  obtain ⟨env, ⟨row', σ, hrun, rfl, rfl⟩ | ⟨e, -, rfl, rfl⟩⟩ := heff
  · obtain ⟨hinv', hothers, hrow', stored, hstored, hid, hclaim, hr, hhistory⟩ :=
      update_spec hinv (hmine v w hpre) (hentitled v w hpre) hrun
    obtain ⟨hok, hbad⟩ := hwritten v w (w.wrote k row.id σ) env row' stored hpre hrow' hstored hid
      hclaim hr rfl hhistory
    refine ⟨hinv', v, fun u hapart => ⟨hothers u hapart, ?_⟩, ?_, fun _ => hbad⟩
    · exact ⟨hapart.left, hapart.right, hapart.differ⟩
    · intro a ha
      cases ha
      exact hok
  · refine ⟨hinv, v, Discipline.Grants.refl (discipline decode) v w', ?_,
      fun _ => hraised v w' hpre⟩
    intro a ha
    cases ha

/-- Every worker may settle its row: as paid, failed or pending. -/
theorem works_settle {status : PayoutStatus} (values : PayoutValues)
    (hstatus : status = .paid ∨ status = .failed ∨ status = .pending) :
    Works decode (Mine row) (updatePayout k row status values) (fun _ => Mine row)
      fun _ => Mine row := by
  have hother : status ≠ .queued ∧ status ≠ .prepared ∧ status ≠ .sending := by
    rcases hstatus with rfl | rfl | rfl <;> exact ⟨by decide, by decide, by decide⟩
  refine works_update (Mine.stable row) (fun _ => Mine.stable row) (Mine.stable row)
    (fun _ _ h => h) ?_ (fun _ _ h => h) ?_
  · intro v w _
    refine ⟨?_, fun h => absurd h hother.2.1, fun h => absurd h hother.2.2⟩
    rintro (h | h)
    · exact absurd h hother.1
    · exact absurd h hother.2.1
  · intro v w w' _ _ _ hpre _ _ _ _ _ htokens _
    have hmine : Mine row v w' := ⟨hpre.view, htokens ▸ hpre.token⟩
    exact ⟨hmine, hmine⟩

/-- A row that may still be sent may be put off. -/
theorem works_defer {status : PayoutStatus} (values : PayoutValues)
    (hstatus : status = .queued ∨ status = .failed) :
    Works decode (Unsent k row) (updatePayout k row status values) (fun _ => Mine row)
      fun _ => Mine row := by
  refine works_update (Unsent.stable k row) (fun _ => Mine.stable row) (Mine.stable row)
    (fun _ _ h => h.toMine) ?_ (fun _ _ h => h.toMine) ?_
  · intro v w hunsent
    refine ⟨fun _ => hunsent.sendable, ?_, ?_⟩
    · rcases hstatus with rfl | rfl <;> exact fun h => absurd h (by decide)
    · rcases hstatus with rfl | rfl <;> exact fun h => absurd h (by decide)
  · intro v w w' _ _ _ hpre _ _ _ _ _ htokens _
    have hmine : Mine row v w' := ⟨hpre.view, htokens ▸ hpre.token⟩
    exact ⟨hmine, hmine⟩

/-- What a worker knows of its row once it is prepared. -/
def Prepared (k : Outbox) (row : Payout) (view : Option Uid) (w : World) : Prop :=
  Held k row view w ∧ row.status = .prepared

theorem Prepared.stable (k : Outbox) (row : Payout) :
    (discipline decode).Stable (Prepared k row) :=
  fun v w w' h hrely => ⟨Held.stable k row v w w' h.1 hrely, h.2⟩

/-- The update that stores an invoice. -/
theorem works_prepare {pr : String} {invoice : Invoice} (hdecode : decode pr = some invoice)
    (error : Option String) :
    Works decode (Unsent k row)
      (updatePayout k row .prepared
        ⟨some (some pr), some (some invoice.paymentHash), none, none, error⟩)
      (Prepared k) fun _ => Unsent k row := by
  refine works_update (Unsent.stable k row) (Prepared.stable k) (Unsent.stable k row)
    (fun _ _ h => h.toMine) ?_ (fun _ _ h => h) ?_
  · intro v w hunsent
    exact ⟨fun _ => hunsent.sendable, fun _ => ⟨pr, invoice, rfl, hdecode, rfl⟩,
      fun h => absurd h (by decide)⟩
  · intro v w w' env row' stored hunsent hrow' hstored hid hclaim hr htokens hhistory
    have hmine : Mine row v w' := ⟨hunsent.view, htokens ▸ hunsent.token⟩
    have huncalled : ∀ call ∈ calls w'.history, call.claim ≠ row.claim := by
      intro call hcall
      rw [hhistory] at hcall
      exact hunsent.uncalled call hcall
    -- The rows that carry the claim are the one that was written.
    have hall : ∀ p ∈ w'.ledger.outbox k, p.id = row.id → p = written env row' stored := by
      intro p hp hpid
      rcases hr.rows k p hp with ⟨-, hnot⟩ | ⟨-, old, hold, hoid, rfl⟩
      · exact absurd ⟨rfl, hpid⟩ hnot
      · rw [row_inj hold hstored (hoid.trans hid.symm)]
    subst hrow'
    refine ⟨⟨⟨⟨⟨hmine.view, hmine.token⟩, huncalled⟩, ?_⟩, rfl⟩, ⟨hmine, huncalled⟩, ?_⟩
    · intro p hp hpid _
      rw [hall p hp hpid]
      exact ⟨rfl, rfl, rfl⟩
    · intro p hp hpid _
      rw [hall p hp hpid]
      exact .inr rfl

/-- The update that marks the row. -/
theorem works_mark :
    Works decode (Prepared k row) (updatePayout k row .sending {})
      (Marked k) fun _ => Mine row := by
  refine works_update (Prepared.stable k row) (Marked.stable k) (Mine.stable row)
    (fun _ _ h => h.1.toMine) ?_ (fun _ _ h => h.1.toMine) ?_
  · intro v w hprepared
    refine ⟨?_, fun h => absurd h (by decide), ?_⟩
    · rintro (h | h)
      · exact absurd h (by decide)
      · exact absurd h (by decide)
    · intro _
      refine ⟨rfl, fun stored hstored hid hclaim => ?_⟩
      obtain ⟨hstatus, hbolt11, hhash⟩ := hprepared.1.copy stored hstored hid hclaim
      exact ⟨hstatus.trans hprepared.2, hbolt11, hhash⟩
  · intro v w w' env row' stored hprepared hrow' hstored hid hclaim hr htokens hhistory
    have hmine : Mine row v w' := ⟨hprepared.1.view, htokens ▸ hprepared.1.token⟩
    subst hrow'
    refine ⟨⟨⟨⟨hmine.view, hmine.token⟩, ?_⟩, ?_⟩, hmine⟩
    · intro call hcall
      rw [hhistory] at hcall
      exact hprepared.1.uncalled call hcall
    · refine ⟨written env (PayoutValues.apply {} .sending row) stored, ?_, hclaim, hid, rfl⟩
      rw [mem_sends, hhistory]
      exact ⟨List.mem_cons_self, rfl⟩

/-- The call. -/
theorem works_call :
    Works decode (Marked k row) (await (.payInvoice k row.claim (payArguments k row)))
      (fun _ => Mine row) fun _ => Mine row := by
  refine works_await (Marked.stable k row) (fun _ => Mine.stable row) (fun _ => Mine.stable row)
    (fun _ _ _ h => h.toMine) ?_
  intro v w result w' hinv hmarked heff
  obtain ⟨hinv', hothers⟩ := call_spec hinv hmarked heff.2
  have hmine : Mine row v w' := by
    rw [heff.2]
    exact ⟨hmarked.view, hmarked.token⟩
  refine ⟨hinv', v, fun u hapart => ⟨hothers u hapart, ?_⟩, fun _ _ => hmine, fun _ => hmine⟩
  rw [heff.2]
  exact ⟨hapart.left, hapart.right, hapart.differ⟩

/-- The claim of a row. -/
theorem works_claim :
    Works decode (fun v _ => v = none) (await .claimPayout)
      (fun claimed v w => ∀ k row, claimed = some (k, row) → Held k row v w)
      fun _ _ _ => True := by
  refine works_await (fun _ _ _ h _ => h) ?_ (fun _ => stable_true) (fun _ _ _ _ => trivial) ?_
  · intro claimed v w w' h hrely k row hclaimed
    exact Held.stable k row v w w' (h k row hclaimed) hrely
  · rintro v w result w' hinv rfl ⟨env, hne, hfresh, rfl, rfl⟩
    obtain ⟨hinv', hothers, hheld⟩ := claim_spec (v := none) hinv hne hfresh rfl
    refine ⟨hinv', some (env.uid 0), ?_, ?_, fun _ => trivial⟩
    · intro u hapart
      refine ⟨hothers u hapart, ⟨?_, ?_, ?_⟩⟩
      · exact fun c hc => List.mem_cons_of_mem _ (hapart.left c hc)
      · intro c hc
        rw [← Option.some.inj hc]
        exact List.mem_cons_self
      · intro c hc heq
        rw [Option.some.inj heq] at hfresh
        exact hfresh (hapart.left c hc)
    · intro claimed hresult k row hclaimed
      rw [← Except.ok.inj hresult] at hclaimed
      obtain ⟨hclaim, hrow⟩ := hheld k row hclaimed
      exact hclaim ▸ hrow

theorem works_release (k : Outbox) (row : Payout) :
    Works decode (fun _ _ => True) (await (.releasePayout k row)) (fun _ _ _ => True)
      fun _ _ _ => True := by
  refine works_await stable_true (fun _ => stable_true) (fun _ => stable_true)
    (fun _ _ _ _ => trivial) ?_
  rintro v w result w' hinv - ⟨env, rfl, rfl⟩
  obtain ⟨hinv', hothers⟩ := release_spec hinv env k row rfl
  refine ⟨hinv', v, fun u hapart => ⟨hothers u, ?_⟩, fun _ _ => trivial, fun _ => trivial⟩
  exact ⟨hapart.left, hapart.right, hapart.differ⟩

end

end QuakeJs.Payments
