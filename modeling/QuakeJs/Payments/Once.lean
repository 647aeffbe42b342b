import QuakeJs.Payments.Sending
import QuakeJs.Ledger.Conservation

/-!
# The coroutines of the payout worker

A triple for each coroutine of `Payments.Worker`, up to a whole round of the
worker, and from it the law for any pool of workers: `pay_invoice` is called at
most once for a row, after the row was committed as `sending`, and never twice
for one payment hash.
-/

namespace QuakeJs.Payments

open Async Ledger

variable {decode : String → Option Invoice}

/-! ## The coroutines -/

section

variable {k : Outbox} {row : Payout}

/-- What a worker need not know of a result. -/
theorem Works.weakenResult {α : Type} {P : Option Uid → World → Prop} {task : Coroutine α}
    {R : α → Option Uid → World → Prop} {S : Raised Fault → Option Uid → World → Prop}
    (h : Works decode P task R S) : Works decode P task (fun _ _ _ => True) S := by
  refine h.consequence (fun _ _ _ hP => hP) ?_
  intro outcome v w _ hpost
  cases outcome with
  | ok a => trivial
  | error raised => exact hpost

/-- What a worker need not know any more. -/
theorem Works.weaken {α : Type} {P : Option Uid → World → Prop} {task : Coroutine α}
    {R : α → Option Uid → World → Prop} {S : Raised Fault → Option Uid → World → Prop}
    (h : Works decode P task R S) :
    Works decode P task (fun _ _ _ => True) fun _ _ _ => True :=
  h.weakenResult.forget

/-- The result of a coroutine is ignored. -/
theorem Works.ignore {α : Type} {P : Option Uid → World → Prop} {task : Coroutine α}
    {R : α → Option Uid → World → Prop} {S : Raised Fault → Option Uid → World → Prop}
    (h : Works decode P task R S) :
    Works decode P (do let _ ← task; return ()) (fun _ _ _ => True) fun _ _ _ => True :=
  h.weaken.bind fun _ => Triple.pure stable_true fun _ _ _ => trivial

theorem works_reservePr {pr : String} {invoice : Invoice} (hdecode : decode pr = some invoice) :
    Works decode (Unsent k row) (reservePr k row pr invoice) (Prepared k)
      fun _ => Unsent k row := by
  have hstable : (discipline decode).Stable (Unsent k row) := Unsent.stable k row
  unfold reservePr
  refine Triple.bind (R := fun _ => Unsent k row) (works_read hstable fun _ _ _ h => h) ?_
  intro time
  split_ifs
  · exact Triple.raise hstable fun _ _ h => h
  · refine Triple.bind (R := fun _ => Unsent k row) ?_ ?_
    · exact works_getStandalonePayment hstable _ _
    · intro existing
      split_ifs
      · exact Triple.raise hstable fun _ _ h => h
      · exact works_prepare hdecode _

theorem works_fetchInvoice (k : Outbox) (row : Payout) :
    Works decode (Unsent k row) (fetchInvoice decode k row) (Prepared k)
      fun _ => Unsent k row := by
  have hstable : (discipline decode).Stable (Unsent k row) := Unsent.stable k row
  unfold fetchInvoice
  refine Triple.bind (R := fun _ => Unsent k row) (works_read hstable fun _ _ _ h => h) ?_
  intro pr
  cases hdecode : decode pr with
  | none => exact Triple.raise hstable fun _ _ h => h
  | some invoice => exact works_reservePr hdecode

theorem works_deferPayout (k : Outbox) (row : Payout) (fault : Fault) :
    Works decode (Unsent k row) (deferPayout k row fault) (fun _ _ _ => True)
      fun _ _ _ => True := by
  unfold deferPayout
  refine Triple.bind (R := fun _ => Unsent k row) (works_now (Unsent.stable k row)).forget ?_
  intro t
  refine (works_defer _ ?_).weaken
  by_cases hattempts : 8 ≤ row.attempts + 1
  · rw [if_pos hattempts]
    exact .inr rfl
  · rw [if_neg hattempts]
    exact .inl rfl

/-- A queued row is prepared, or there is nothing more to do. -/
theorem works_preparePayout (k : Outbox) (row : Payout) :
    Works decode (Unsent k row) (preparePayout decode k row)
      (fun prepared v w => ∀ row', prepared = some row' → Prepared k row' v w)
      fun _ _ _ => True := by
  unfold preparePayout
  refine Triple.handle (T := fun _ => Unsent k row) ?_ ?_ fun _ _ _ => trivial
  · refine Triple.bind (works_fetchInvoice k row) ?_
    intro row'
    refine Triple.pure (Prepared.stable k row') ?_
    intro v w hprepared row'' heq
    rw [← Option.some.inj heq]
    exact hprepared
  · intro fault
    refine Triple.bind (works_deferPayout k row fault) ?_
    intro _
    refine Triple.pure stable_true ?_
    intro v w _ row' hnone
    cases hnone

theorem works_payRow (k : Outbox) (row : Payout) :
    Works decode (Marked k row) (payRow k row) (fun _ => Mine row) fun _ => Mine row := by
  have hstable : (discipline decode).Stable (Mine row) := Mine.stable row
  unfold payRow payInvoice
  refine Triple.bind (R := fun _ => Mine row) ?_ ?_
  · exact Triple.bind works_call fun _ => works_read hstable fun _ _ _ h => h
  · intro payment
    have hnow := works_now hstable
    split_ifs
    · exact Triple.bind hnow fun t => works_settle _ (.inl rfl)
    · exact Triple.bind hnow fun t => works_settle _ (.inr (.inr rfl))
    · exact works_settle _ (.inr (.inl rfl))

/-- A prepared row is marked before it is paid. -/
theorem works_sendPayout (k : Outbox) (row : Payout) :
    Works decode (Prepared k row) (sendPayout k row) (fun _ _ _ => True) fun _ _ _ => True := by
  unfold sendPayout
  refine Triple.bind works_mark.forget ?_
  intro sending
  have hstable : (discipline decode).Stable (Mine sending) := Mine.stable sending
  refine Triple.handle (works_payRow k sending).weakenResult ?_ fun _ _ _ => trivial
  intro fault
  refine Triple.bind (R := fun _ => Mine sending) (works_now hstable).forget ?_
  intro t
  exact (works_settle _ (.inr (.inr rfl))).weaken

theorem works_concludePayout (k : Outbox) (row : Payout) (payment : Option Payment) :
    Works decode (Mine row) (concludePayout k row payment) (fun _ => Mine row)
      fun _ => Mine row := by
  have hagain : Works decode (Mine row) (lookAgain k row) (fun _ => Mine row) fun _ => Mine row :=
    Triple.bind (works_now (Mine.stable row)) fun _ => works_settle _ (.inr (.inr rfl))
  cases payment with
  | none => exact hagain
  | some payment =>
    simp only [concludePayout]
    split_ifs
    · exact works_settle _ (.inl rfl)
    · exact works_settle _ (.inr (.inl rfl))
    · exact hagain

theorem works_checkPayout (k : Outbox) (row : Payout) (payment : Payment) :
    Works decode (Mine row) (checkPayout k row payment) (fun _ => Mine row)
      fun _ => Mine row := by
  have hstable : (discipline decode).Stable (Mine row) := Mine.stable row
  have hpure : ∀ known : Option (Option Payment),
      Works decode (Mine row) (pure known) (fun _ => Mine row) fun _ => Mine row :=
    fun known => Triple.pure hstable fun _ _ h => h
  unfold checkPayout
  refine Triple.handle (T := fun _ => Mine row) ?_ (fun _ => hpure _) fun _ _ h => h
  refine Triple.bind (R := fun _ => Mine row) (works_read hstable fun _ _ _ h => h) ?_
  intro success
  split_ifs
  · exact Triple.bind (works_settle _ (.inl rfl)) fun _ => hpure none
  · exact Triple.bind (works_getStandalonePayment hstable _ _) fun again => hpure (some again)

theorem works_reconcileKnown (k : Outbox) (row : Payout) (payment : Payment) :
    Works decode (Mine row) (reconcileKnown k row payment) (fun _ _ _ => True)
      fun _ _ _ => True := by
  have hstable : (discipline decode).Stable (Mine row) := Mine.stable row
  unfold reconcileKnown recheckPayout
  refine Triple.bind (R := fun _ => Mine row) ?_ ?_
  · split_ifs
    · exact (works_checkPayout k row payment).forget
    · exact Triple.pure hstable fun _ _ h => h
  · intro known
    cases known with
    | none => exact Triple.pure hstable fun _ _ _ => trivial
    | some known => exact (works_concludePayout k row known).ignore

/-- Reconciliation only settles. -/
theorem works_reconcilePayout (k : Outbox) (row : Payout) :
    Works decode (Mine row) (reconcilePayout k row) (fun _ _ _ => True) fun _ _ _ => True := by
  unfold reconcilePayout
  refine Triple.bind (works_getStandalonePayment (Mine.stable row) _ _).forget ?_
  intro payment
  cases payment with
  | none => exact (works_concludePayout k row none).ignore
  | some payment =>
    simp only [reconcileFound]
    split_ifs
    · exact works_reconcileKnown k row payment
    · exact (works_settle _ (.inr (.inl rfl))).ignore

theorem works_processPrepared (k : Outbox) (row : Payout) :
    Works decode (Held k row) (processPrepared k row) (fun _ _ _ => True) fun _ _ _ => True := by
  unfold processPrepared
  split_ifs with hprepared hsent
  · refine Works.ignore ((works_sendPayout k row).consequence ?_ fun _ _ _ _ h => h)
    exact fun _ _ _ hheld => ⟨hheld, hprepared⟩
  · refine (works_reconcilePayout k row).consequence ?_ fun _ _ _ _ h => h
    exact fun _ _ _ hheld => hheld.toMine
  · exact Triple.pure (Held.stable k row) fun _ _ _ => trivial

theorem works_processPayout (k : Outbox) (row : Payout) :
    Works decode (Held k row) (processPayout decode k row) (fun _ _ _ => True)
      fun _ _ _ => True := by
  unfold processPayout
  split_ifs with hqueued
  · refine Triple.bind (R := fun prepared v w =>
      ∀ row', prepared = some row' → Prepared k row' v w) ?_ ?_
    · refine (works_preparePayout k row).consequence ?_ fun _ _ _ _ h => h
      exact fun _ _ _ hheld => hheld.unsent (.inl hqueued)
    · intro prepared
      cases prepared with
      | none => exact fun v w hinv _ => Triple.pure stable_true (fun _ _ h => h) v w hinv trivial
      | some row' =>
        refine (works_processPrepared k row').consequence ?_ fun _ _ _ _ h => h
        exact fun _ _ _ hprepared => (hprepared row' rfl).1
  · exact works_processPrepared k row

/-- A round of the worker is in order from any state of the world. -/
theorem works_payoutRound :
    Works decode (fun v _ => v = none) (payoutRound decode) (fun _ _ _ => True)
      fun _ _ _ => True := by
  have hignore : ∀ {P : Option Uid → World → Prop} {task : Coroutine Unit},
      Works decode P task (fun _ _ _ => True) (fun _ _ _ => True) →
      Works decode P (task.handle fun _ => return ()) (fun _ _ _ => True) fun _ _ _ => True :=
    fun h => Triple.handle h (fun _ => Triple.pure stable_true fun _ _ _ => trivial)
      fun _ _ _ => trivial
  unfold payoutRound
  refine Triple.bind works_claim ?_
  intro claimed
  cases claimed with
  | none => exact fun v w hinv _ => Triple.pure stable_true (fun _ _ h => h) v w hinv trivial
  | some claimed =>
    obtain ⟨k, row⟩ := claimed
    refine Triple.anyway (M := fun _ _ => True) stable_true (hignore ?_)
      (hignore (works_release k row))
    refine Triple.bind (R := fun _ _ _ => True) ?_ fun _ =>
      works_read stable_true fun _ _ _ h => h
    refine (works_processPayout k row).consequence ?_ fun _ _ _ _ h => h
    exact fun _ _ _ hheld => hheld k row rfl

end

/-! ## The law -/

/-- The rest of the extension only queues rows, which nobody holds. -/
theorem Orderly.outside {w w' : World} (h : Orderly decode w) (hout : Outside w w') :
    Orderly decode w' ∧ ∀ u v, Apart w u v → Respects u w w' := by
  obtain ⟨env, a, σ, hgame, hfresh, hrun, rfl⟩ := hout
  have hgrows := perform_grows hgame hfresh hrun
  have hinvoiced : ∀ row, Invoiced decode w.ledger row → Invoiced decode σ row :=
    fun row hrow => hrow.mono fun hash claim hclaim => by rw [hgrows.claims]; exact hclaim
  refine ⟨⟨h.tokens, ?_, ?_, ?_, ?_, h.sentOnce, h.calledOnce, h.preceded⟩, ?_⟩
  · intro k row hrow
    rcases hgrows.added k row hrow with hold | ⟨hqueued, -⟩
    · exact h.claims k row hold
    · exact .inl hqueued.claim
  · intro k k' row hrow row' hrow' hid
    rcases hgrows.added k row hrow with hold | ⟨-, hunique⟩
    · rcases hgrows.added k' row' hrow' with hold' | ⟨-, hunique'⟩
      · exact h.ids k k' row hold row' hold' hid
      · exact hunique' k row hrow hid
    · exact (hunique k' row' hrow' hid.symm).symm
  · intro k row hrow hstatus
    rcases hgrows.added k row hrow with hold | ⟨hqueued, -⟩
    · exact hinvoiced row (h.prepared k row hold hstatus)
    · rcases hqueued.status with hs | hs
      · rw [hs] at hstatus
        cases hstatus
      · rw [hs.1] at hstatus
        cases hstatus
  · intro k row hsent
    obtain ⟨htoken, hrow, stored, hstored, hrest⟩ := h.sent k row hsent
    exact ⟨htoken, hinvoiced row hrow, stored, hgrows.kept k stored hstored, hrest⟩
  · intro u v hapart
    refine ⟨fun c hc => hc, ?_, fun _ _ call hcall _ => hcall, fun s hs => hs⟩
    intro c hu k row hrow hc
    rcases hgrows.added k row hrow with hold | ⟨hqueued, -⟩
    · exact ⟨row, hold, rfl, hc, rfl, rfl, rfl⟩
    · have htoken := hapart.left c hu
      rw [← hc, hqueued.claim] at htoken
      exact absurd htoken h.tokens

theorem Orderly.initial : Orderly decode World.initial where
  tokens := List.not_mem_nil
  claims := fun k row hrow => by cases k <;> exact absurd hrow (Table.not_mem_empty row)
  ids := fun k k' row hrow => by cases k <;> exact absurd hrow (Table.not_mem_empty row)
  prepared := fun k row hrow => by cases k <;> exact absurd hrow (Table.not_mem_empty row)
  sent := fun _ _ hsent => absurd hsent List.not_mem_nil
  sentOnce := List.nodup_nil
  calledOnce := List.nodup_nil
  preceded := by
    intro newer older k claim arguments hsplit
    have hnil := congrArg List.length hsplit
    simp [World.initial] at hnil

theorem Orderly.of_reachable {pool : Pool Op Op.Ans Fault World} (h : Reachable decode pool) :
    Orderly decode pool.world := by
  have hidle : ∀ w, Apart w none none := by
    refine fun w => ⟨?_, ?_, ?_⟩
    · intro c hc
      cases hc
    · intro c hc
      cases hc
    · intro c hc
      cases hc
  refine (Pool.Reachable.sound (D := discipline decode) Orderly.initial (hidle _) ?_ ?_ ?_ h).1
  · rintro task rfl w hinv
    refine (works_payoutRound none w hinv rfl).mono ?_
    exact fun _ _ _ _ _ => trivial
  · exact fun w w' hinv hout => hinv.outside hout
  · rintro w w' hinv rfl
    exact ⟨hinv, hidle _⟩

/-- Calls for one row are one call. -/
theorem Orderly.call_inj {w : World} (h : Orderly decode w) {call call' : Call}
    (hcall : call ∈ calls w.history) (hcall' : call' ∈ calls w.history)
    (hk : call.k = call'.k) (hid : call.arguments.externalId = call'.arguments.externalId) :
    call = call' := by
  obtain ⟨marked, hsent, hclaim, hrow, -⟩ := h.preceded.of_mem hcall
  obtain ⟨marked', hsent', hclaim', hrow', -⟩ := h.preceded.of_mem hcall'
  have hkeys : (call.k, marked.id) = (call'.k, marked'.id) := by
    rw [hk, hrow, hrow', hid]
  have hmarked : (call.k, marked) = (call'.k, marked') :=
    List.inj_on_of_nodup_map h.sentOnce hsent hsent' hkeys
  have hclaims : call.claim = call'.claim := by
    rw [← hclaim, ← hclaim', (Prod.mk.inj hmarked).2]
  exact List.inj_on_of_nodup_map h.calledOnce hcall hcall' hclaims

/-- Calls with one payment hash are for one row. -/
theorem Orderly.call_hash {w : World} (h : Orderly decode w) {call call' : Call}
    (hcall : call ∈ calls w.history) (hcall' : call' ∈ calls w.history)
    (hhash : hashOf decode call.arguments.paymentRequest =
      hashOf decode call'.arguments.paymentRequest) : call = call' := by
  obtain ⟨marked, hsent, -, hrow, -, -, hpaid⟩ := h.preceded.of_mem hcall
  obtain ⟨marked', hsent', -, hrow', -, -, hpaid'⟩ := h.preceded.of_mem hcall'
  obtain ⟨-, ⟨_, invoice, -, -, hinvoice, hreserve⟩, stored, hstored, hid, -⟩ :=
    h.sent call.k marked hsent
  obtain ⟨-, ⟨_, invoice', -, -, hinvoice', hreserve'⟩, stored', hstored', hid', -⟩ :=
    h.sent call'.k marked' hsent'
  have hsame : invoice.paymentHash = invoice'.paymentHash := by
    refine Option.some.inj ?_
    rw [← hinvoice, ← hinvoice', hpaid, hpaid', hhash]
  rw [hsame, hreserve', Option.some.injEq, InvoiceClaim.mk.injEq] at hreserve
  have hids : stored.id = stored'.id := by
    rw [hid, hid']
    exact hreserve.2.symm
  refine h.call_inj hcall hcall' (h.ids _ _ stored hstored stored' hstored' hids) ?_
  rw [← hrow, ← hrow']
  exact hreserve.2.symm

/-- A payout is sent at most once.  Whatever the workers, the wallet and the
providers do, no row is paid twice, each call comes after a committed
`sending` status that holds the request and its hash, and no two calls use
one payment hash. -/
theorem payout_sent_once (decode : String → Option Invoice) {pool : Pool Op Op.Ans Fault World}
    (h : Reachable decode pool) :
    ((calls pool.world.history).map fun call => (call.k, call.arguments.externalId)).Nodup ∧
    Preceded decode pool.world.history ∧
    ((calls pool.world.history).map
      fun call => hashOf decode call.arguments.paymentRequest).Nodup := by
  have hinv := Orderly.of_reachable h
  have hnodup : (calls pool.world.history).Nodup := List.Nodup.of_map _ hinv.calledOnce
  refine ⟨List.Nodup.map_on ?_ hnodup, hinv.preceded, List.Nodup.map_on ?_ hnodup⟩
  · intro call hcall call' hcall' heq
    obtain ⟨hk, hid⟩ := Prod.mk.inj heq
    exact hinv.call_inj hcall hcall' hk hid
  · exact fun call hcall call' hcall' hhash => hinv.call_hash hcall hcall' hhash

/-! ## A payout that is sent -/

namespace Kill

open Duel

/-- A provider that knows one invoice. -/
def provider (request : String) : Option Invoice :=
  if request = "lnbc18" then
    some
      { amountMsat := some 18000, date := 1000, expiry := 3600, paymentHash := "hash"
        paymentHash_ne := by decide }
  else none

/-- The payout of the duel, under the claim of a worker. -/
def claimed : Payout :=
  { newPayout (tick 10) ((tick 10).uid 0) arenaId lifeA lifeB ((tick 3).uid 0) "wallet" "b@ln" 18
      .queued with
    claim := (tick 20).uid 0
    claimedUntil := 1110 }

/-- The world once the worker has committed an update. -/
def update (row : Payout) (status : PayoutStatus) (values : PayoutValues) (w : World) : World :=
  match Ledger.updatePayout (tick 21) .payouts row status values w.ledger with
  | .ok (_, σ) => w.wrote .payouts row.id σ
  | .error _ => w

/-- The world after the duel, the claim, the two updates and the call. -/
def world : World := ⟨ledgerAfter duel, [], []⟩

def leased : World :=
  { world with
    ledger := (claimPayout (tick 20) world.ledger).2
    tokens := [(tick 20).uid 0] }

def invoice : PayoutValues :=
  { bolt11 := some (some "lnbc18"), paymentHash := some (some "hash"), error := some "" }

def prepared : Payout := invoice.apply .prepared claimed

def marked : Payout := PayoutValues.apply {} .sending prepared

def sending : World := update prepared .sending {} (update claimed .prepared invoice leased)

def paid : World :=
  { sending with
    history := .called .payouts claimed.claim (payArguments .payouts marked) :: sending.history }

/-- An operation that returns is an operation over any database. -/
theorem returns {op : Op} {w w' : World} {a : op.Ans} (h : Performs op w (.ok a) w') :
    PerformsAtomically op w (.ok a) w' := by
  refine ⟨h, fun k row status values fault _ hraised => ?_⟩
  cases hraised

/-- An operation that is cancelled before it starts. -/
theorem cancelled (op : Op) (w : World) : PerformsAtomically op w (.error .cancelled) w := by
  refine ⟨.inr ⟨rfl, .cancelled, rfl⟩, fun k row status values fault _ hraised => ?_⟩
  cases hraised

theorem update_performs {row : Payout} {status : PayoutStatus} {values : PayoutValues} {w : World}
    (h : (Ledger.updatePayout (tick 21) .payouts row status values w.ledger).toOption.isSome =
      true) :
    PerformsAtomically (.updatePayout .payouts row status values)
      w (.ok (values.apply status row))
      (update row status values w) := by
  unfold update
  cases hrun : Ledger.updatePayout (tick 21) .payouts row status values w.ledger with
  | error e =>
    rw [hrun] at h
    cases h
  | ok result =>
    obtain ⟨row', σ⟩ := result
    obtain ⟨rfl, -⟩ := updatePayout_ok hrun
    exact returns (.inl ⟨.ok _, ⟨tick 21, .inl ⟨_, σ, hrun, rfl, rfl⟩⟩, .inl rfl⟩)

/-- An operation that leaves the world alone may answer anything. -/
theorem answers (op : Op) (hread : ∀ result w, Effect op w result w = (w = w)) (a : op.Ans)
    (w : World) : PerformsAtomically op w (.ok a) w :=
  returns (.inl ⟨.ok a, (hread (.ok a) w).mpr rfl, .inl rfl⟩)

theorem call_performs :
    PerformsAtomically (.payInvoice .payouts claimed.claim (payArguments .payouts marked)) sending
      (.ok ()) paid :=
  returns (.inl ⟨.ok (), ⟨rfl, rfl⟩, .inl rfl⟩)

/-- The steps of a script, with no worker at work. -/
theorem reachable_script {script : List (Env × Action)} {σ : Ledger}
    (hgame : ∀ step ∈ script, step.2.ofGame = true) (hfresh : Follows Env.Fresh σ script)
    (h : Commits provider ⟨⟨σ, [], []⟩, fun _ => .done (.ok ())⟩) :
    Commits provider ⟨⟨script.foldl commit σ, [], []⟩, fun _ => .done (.ok ())⟩ := by
  induction script generalizing σ with
  | nil => exact h
  | cons step script ih =>
    apply ih (fun s hs => hgame s (List.mem_cons_of_mem step hs)) hfresh.2
    unfold commit
    cases hrun : perform step.1 step.2 σ with
    | error e => exact h
    | ok σ' =>
      exact h.step (.world _ ⟨step.1, step.2, σ',
        hgame step List.mem_cons_self, hfresh.1, hrun, rfl⟩)

theorem reachable_world : Commits provider ⟨world, fun _ => .done (.ok ())⟩ :=
  reachable_script (by decide) follows_duel .initial

/-- The row is claimed, prepared, sent and paid. -/
theorem kill_evaluates :
    (∀ request ∈ provider "lnbc18", request.fits claimed 1000)
      ∧ (claimPayout (tick 20) world.ledger).1 = some (.payouts, claimed)
      ∧ (Ledger.updatePayout (tick 21) .payouts claimed .prepared invoice
          leased.ledger).toOption.isSome = true
      ∧ (Ledger.updatePayout (tick 21) .payouts prepared .sending {}
          (update claimed .prepared invoice leased).ledger).toOption.isSome = true
      ∧ (calls paid.history).length = 1
      ∧ (Ledger.updatePayout (tick 21) .payouts marked .paid { nextAttempt := some 1115 }
          paid.ledger).toOption.isSome = true
      ∧ ∃ row ∈ (update marked .paid { nextAttempt := some 1115 } paid).ledger.payouts,
          row.status = .paid ∧ row.paymentHash = some "hash" ∧ row.id = claimed.id := by
  decide +kernel

theorem claim_performs :
    PerformsAtomically .claimPayout world (.ok (some (.payouts, claimed))) leased :=
  returns (.inl ⟨.ok (some (.payouts, claimed)),
    ⟨tick 20, by decide, List.not_mem_nil, congrArg _ kill_evaluates.2.1.symm, rfl⟩, .inl rfl⟩)

/-- The row is prepared. -/
theorem solo_prepare :
    Solo PerformsAtomically (preparePayout provider .payouts claimed) leased (.ok (some prepared))
      (update claimed .prepared invoice leased) := by
  have hreserve : ∀ request, provider "lnbc18" = some request →
      Solo PerformsAtomically (reservePr .payouts claimed "lnbc18" request) leased (.ok prepared)
        (update claimed .prepared invoice leased) := by
    intro request hrequest
    have hfits : request.fits claimed 1000 := kill_evaluates.1 request hrequest
    obtain rfl := Option.some.inj hrequest
    refine .call (answers .time (fun _ _ => rfl) (1000 : Rat) leased) ?_
    refine Solo.bind (.done (.ok (1000 : Rat)) leased) ?_
    rw [if_neg (by simp [hfits])]
    refine .call (answers (.getStandalonePayment _ _) (fun _ _ => rfl) none leased) ?_
    refine .call (update_performs kill_evaluates.2.2.1) ?_
    exact .done _ _
  refine Solo.handle (Solo.bind (a := prepared) ?_ (.done _ _)) (fun _ => by simp)
  refine .call (answers (.getPrFromLnurl _ _) (fun _ _ => rfl) "lnbc18" leased) ?_
  exact hreserve _ rfl

/-- The worker is cancelled while the payment is on its way. -/
theorem solo_send :
    Solo PerformsAtomically (sendPayout .payouts prepared)
      (update claimed .prepared invoice leased)
      (.error .cancelled) paid := by
  refine .call (update_performs kill_evaluates.2.2.2.1) ?_
  refine .call call_performs ?_
  refine .call (cancelled _ _) ?_
  exact .done _ _

theorem solo_round : Solo PerformsAtomically (payoutRound provider) world
    (.error .cancelled) paid := by
  refine .call claim_performs ?_
  have hprocess : Solo PerformsAtomically (processPayout provider .payouts claimed) leased
      (.error .cancelled) paid := Solo.bind (a := some prepared) solo_prepare
        (.bind_raised solo_send)
  refine Solo.anyway (Solo.handle (Solo.bind_raised hprocess) fun _ => by simp) ?_
  refine .call (cancelled _ _) ?_
  exact .done _ _

theorem reachable_paid : ∃ tasks, Commits provider ⟨paid, tasks⟩ :=
  have hround := solo_round
  have hstart := reachable_world.step (.start 0 (payoutRound provider) _ rfl rfl)
  ⟨_, hstart.solo (i := 0) (by rw [Function.update_self]; exact hround)⟩

end Kill

open Kill in
theorem payout_sent_once_kill :
    (calls paid.history).length = 1 ∧ Preceded provider paid.history :=
  have ⟨_, h⟩ := reachable_paid
  have hreach : Reachable provider ⟨paid, _⟩ := h.mono fun _ _ _ _ hdoes => hdoes.1
  ⟨kill_evaluates.2.2.2.2.1, (payout_sent_once provider hreach).2.1⟩

end QuakeJs.Payments
