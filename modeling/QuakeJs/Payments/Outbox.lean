import QuakeJs.Payments.Attempts
import QuakeJs.Payments.Bookkeeping

/-!
# The laws of the outboxes

A triple for each coroutine of `Payments.Worker` under the discipline
`bookkeeping`, up to a whole round of the worker, and from it the laws for any
pool of workers: the statuses of a row follow the edges of `followers`, a row
is paid only after a payment of it was reported, a row that cannot be prepared
fails at the eighth attempt, and no two rows ever share a payment hash.
-/

namespace QuakeJs.Payments

open Async Ledger

variable {decode : String → Option Invoice}

/-! ## One await -/

section

variable {k : Outbox} {row : Payout} {P P' : Option Uid → World × Log → Prop}

/-- The triple of a worker's coroutine. -/
abbrev Tracks {α : Type} (P : Option Uid → World × Log → Prop) (task : Coroutine α)
    (R : α → Option Uid → World × Log → Prop)
    (S : Raised Fault → Option Uid → World × Log → Prop) : Prop :=
  Triple bookkeeping (Logged PerformsAtomically) P task R S

/-- What holds when an exception is raised.  A cancellation tells nothing. -/
def Quits (P : Option Uid → World × Log → Prop) :
    Raised Fault → Option Uid → World × Log → Prop
  | .error _ => P
  | .cancelled => fun _ _ => True

theorem Quits.stable (hP : bookkeeping.Stable P) (raised : Raised Fault) :
    bookkeeping.Stable (Quits P raised) := by
  cases raised with
  | error e => exact hP
  | cancelled => exact fun _ _ _ _ _ => trivial

theorem Quits.intro {raised : Raised Fault} {v : Option Uid} {x : World × Log} (h : P v x) :
    Quits P raised v x := by
  cases raised with
  | error e => exact h
  | cancelled => trivial

theorem Tracks.weaken {α : Type} {task : Coroutine α} {R R' : α → Option Uid → World × Log → Prop}
    (h : Tracks P task R (Quits P)) (hR : ∀ a v x, R a v x → R' a v x)
    (hP : ∀ v x, P v x → P' v x) : Tracks P task R' (Quits P') := by
  refine h.consequence (fun _ _ _ hpre => hpre) ?_
  intro outcome v x _ hpost
  rcases outcome with (e | _) | a
  · exact hP v x hpost
  · trivial
  · exact hR a v x hpost

theorem stable_and (hP : bookkeeping.Stable P) (hP' : bookkeeping.Stable P') :
    bookkeeping.Stable fun v x => P v x ∧ P' v x :=
  fun v x x' h hkeeps => ⟨hP v x x' h.1 hkeeps, hP' v x x' h.2 hkeeps⟩

/-- What was answered once was answered. -/
theorem stable_logged (answer : Answer Op Op.Ans Fault) :
    bookkeeping.Stable fun _ x => answer ∈ x.2 :=
  fun _ _ _ h hkeeps => hkeeps.log answer h

theorem stable_trivial : bookkeeping.Stable fun _ _ => True := fun _ _ _ _ _ => trivial

/-- An operation that writes nothing.  Its answer is on the log. -/
theorem tracks_quiet {op : Op} (hP : bookkeeping.Stable P)
    (hquiet : ∀ w result w', Effect op w result w' → Quiet w w') :
    Tracks P (await op) (fun a v x => P v x ∧ ⟨op, .ok a⟩ ∈ x.2) (Quits P) := by
  refine Triple.perform hP ?_ (fun _ _ _ _ => trivial) ?_
  · intro outcome
    cases outcome with
    | ok a => exact stable_and hP (stable_logged _)
    | error raised => exact Quits.stable hP raised
  · rintro v x outcome ⟨w', log'⟩ hinv hpre ⟨⟨hdoes, -⟩, rfl⟩
    have hw : Quiet x.1 w' := by
      rcases hdoes with ⟨result, heff, -⟩ | ⟨rfl, -⟩
      · exact hquiet _ _ _ heff
      · exact .refl _
    have hpre' := hP v x _ hpre (hw.keeps ⟨op, outcome⟩ v)
    refine ⟨hinv.quiet hw _, v, fun u hapart => ⟨hw.keeps _ u, ?_⟩, ?_⟩
    · exact ⟨fun c hc => hw.tokens ▸ hapart.left c hc, fun c hc => hw.tokens ▸ hapart.right c hc,
        hapart.differ⟩
    · cases outcome with
      | ok a => exact ⟨hpre', List.mem_cons_self⟩
      | error raised => exact Quits.intro hpre'

/-- An operation that only reads. -/
theorem tracks_read (op : Op) (hP : bookkeeping.Stable P)
    (hread : ∀ w result w', Effect op w result w' → w' = w) :
    Tracks P (await op) (fun a v x => P v x ∧ ⟨op, .ok a⟩ ∈ x.2) (Quits P) := by
  refine tracks_quiet hP fun w result w' heff => ?_
  rw [hread w result w' heff]
  exact .refl w

theorem tracks_now (hP : bookkeeping.Stable P) : Tracks P now (fun _ => P) (Quits P) :=
  (tracks_read .now hP fun _ _ _ h => h).weaken (fun _ _ _ h => h.1) fun _ _ h => h

/-- An update to which the worker is entitled.  One that raises an exception
has changed nothing. -/
theorem tracks_update {status : PayoutStatus} {values : PayoutValues} (hP : bookkeeping.Stable P)
    (hcopies : ∀ v x, P v x → Copies k row v x)
    (hentitles : ∀ v x, P v x → Entitles k row status values x.2) :
    Tracks P (updatePayout k row status values)
      (fun row' v x => Copies k row' v x ∧ row' = values.apply status row) (Quits P) := by
  refine Triple.perform hP ?_ (fun _ _ _ _ => trivial) ?_
  · intro outcome
    cases outcome with
    | ok row' =>
      exact stable_and (Copies.stable k row') fun _ _ _ h _ => h
    | error raised => exact Quits.stable hP raised
  · rintro v x outcome ⟨w', log'⟩ hinv hpre ⟨⟨hdoes, hatomic⟩, rfl⟩
    have hquiet : w' = x.1 → Recorded (w', ⟨_, outcome⟩ :: x.2) ∧ ∃ v',
        bookkeeping.Grants v v' x (w', ⟨.updatePayout k row status values, outcome⟩ :: x.2) ∧
          ∀ raised, Quits P raised v' (w', ⟨_, outcome⟩ :: x.2) := by
      rintro rfl
      have hkeeps := fun u => (Quiet.refl x.1).keeps
        (⟨.updatePayout k row status values, outcome⟩ : Answer Op Op.Ans Fault) u
      exact ⟨hinv.quiet (.refl _) _, v, fun u hapart => ⟨hkeeps u, hapart⟩,
        fun raised => Quits.intro (hP v x _ hpre (hkeeps v))⟩
    have hcommit : ∀ env row' σ,
        Ledger.updatePayout env k row status values x.1.ledger = .ok (row', σ) →
        w' = x.1.wrote k row.id σ → Recorded (w', ⟨_, outcome⟩ :: x.2) ∧ ∃ v',
          bookkeeping.Grants v v' x (w', ⟨.updatePayout k row status values, outcome⟩ :: x.2) ∧
            Copies k row' v' (w', ⟨.updatePayout k row status values, outcome⟩ :: x.2) := by
      rintro env row' σ hrun rfl
      have hworld : ((x.1.wrote k row.id σ,
          ⟨.updatePayout k row status values, outcome⟩ :: x.2) : World × Log).1
          = x.1.wrote k row.id σ := rfl
      obtain ⟨hinv', hothers, hcopy⟩ := update_recorded hinv (hcopies v x hpre)
        (hentitles v x hpre) hrun hworld fun _ ha => List.mem_cons_of_mem _ ha
      refine ⟨hinv', v, fun u hapart => ⟨hothers u hapart, ?_⟩, hcopy⟩
      exact ⟨hapart.left, hapart.right, hapart.differ⟩
    rcases outcome with (e | _) | row'
    · obtain ⟨hinv', v', hgrants, hquits⟩ := hquiet (hatomic k row status values e rfl rfl)
      exact ⟨hinv', v', hgrants, hquits (.error e)⟩
    · rcases hdoes with ⟨result, ⟨env, ⟨row', σ, hrun, rfl, hw⟩ | ⟨e, -, -, hw⟩⟩, -⟩ | ⟨hw, -⟩
      · obtain ⟨hinv', v', hgrants, -⟩ := hcommit env row' σ hrun hw
        exact ⟨hinv', v', hgrants, trivial⟩
      · obtain ⟨hinv', v', hgrants, -⟩ := hquiet hw
        exact ⟨hinv', v', hgrants, trivial⟩
      · obtain ⟨hinv', v', hgrants, -⟩ := hquiet hw
        exact ⟨hinv', v', hgrants, trivial⟩
    · rcases hdoes with ⟨result, ⟨env, ⟨row₁, σ, hrun, rfl, hw⟩ | ⟨e, -, rfl, -⟩⟩, hout⟩ |
        ⟨-, raised, hraised⟩
      · rcases hout with hout | ⟨raised, hraised⟩
        · cases hout
          obtain ⟨hinv', v', hgrants, hcopy⟩ := hcommit env row' σ hrun hw
          exact ⟨hinv', v', hgrants, hcopy, (updatePayout_ok hrun).1⟩
        · cases hraised
      · rcases hout with hout | ⟨raised, hraised⟩
        · cases hout
        · cases hraised
      · cases hraised

/-- The claim of a row. -/
theorem tracks_claim :
    Tracks (fun v _ => v = none) (await .claimPayout)
      (fun claimed v x => ∀ k row, claimed = some (k, row) → Copies k row v x)
      fun _ _ _ => True := by
  refine Triple.perform (fun _ _ _ h _ => h) ?_ (fun _ _ _ _ => trivial) ?_
  · intro outcome
    cases outcome with
    | ok claimed =>
      exact fun v x x' h hkeeps k row hclaimed =>
        Copies.stable k row v x x' (h k row hclaimed) hkeeps
    | error raised => exact fun _ _ _ _ _ => trivial
  · rintro v x outcome ⟨w', log'⟩ hinv rfl ⟨⟨hdoes, -⟩, rfl⟩
    rcases hdoes with ⟨result, ⟨env, hne, hfresh, rfl, rfl⟩, hout⟩ | ⟨rfl, raised, rfl⟩
    · have hworld : (({ x.1 with
          ledger := (claimPayout env x.1.ledger).2
          tokens := env.uid 0 :: x.1.tokens }, ⟨.claimPayout, outcome⟩ :: x.2) : World × Log).1 =
          { x.1 with
            ledger := (claimPayout env x.1.ledger).2
            tokens := env.uid 0 :: x.1.tokens } := rfl
      obtain ⟨hinv', hothers, hcopies⟩ := claim_recorded (v := none) hinv hne hfresh hworld
        fun _ ha => List.mem_cons_of_mem _ ha
      refine ⟨hinv', some (env.uid 0), fun u hapart => ⟨hothers u hapart, ?_, ?_, ?_⟩, ?_⟩
      · exact fun c hc => List.mem_cons_of_mem _ (hapart.left c hc)
      · intro c hc
        rw [← Option.some.inj hc]
        exact List.mem_cons_self
      · intro c hc heq
        rw [Option.some.inj heq] at hfresh
        exact hfresh (hapart.left c hc)
      · rcases hout with rfl | ⟨raised, rfl⟩
        · intro k row hclaimed
          obtain ⟨hclaim, hcopy⟩ := hcopies k row hclaimed
          exact hclaim ▸ hcopy
        · trivial
    · exact ⟨hinv.quiet (.refl _) _, none,
        fun u hapart => ⟨(Quiet.refl x.1).keeps _ u, hapart⟩, trivial⟩

theorem tracks_release (k : Outbox) (row : Payout) :
    Tracks (fun _ _ => True) (await (.releasePayout k row)) (fun _ _ _ => True)
      fun _ _ _ => True := by
  refine Triple.perform stable_trivial ?_ (fun _ _ _ _ => trivial) ?_
  · intro outcome
    cases outcome <;> exact stable_trivial
  · rintro v x outcome ⟨w', log'⟩ hinv - ⟨⟨hdoes, -⟩, rfl⟩
    rcases hdoes with ⟨result, ⟨env, -, rfl⟩, -⟩ | ⟨rfl, -⟩
    · have hworld : (({ x.1 with
          ledger := releasePayout env k row x.1.ledger },
          ⟨.releasePayout k row, outcome⟩ :: x.2) : World × Log).1 =
          { x.1 with
            ledger := releasePayout env k row x.1.ledger } := rfl
      obtain ⟨hinv', hothers⟩ := release_recorded hinv env k row hworld
        fun _ ha => List.mem_cons_of_mem _ ha
      refine ⟨hinv', v, fun u hapart => ⟨hothers u, ?_⟩, by cases outcome <;> trivial⟩
      exact ⟨hapart.left, hapart.right, hapart.differ⟩
    · exact ⟨hinv.quiet (.refl _) _, v, fun u hapart => ⟨(Quiet.refl x.1).keeps _ u, hapart⟩,
        by cases outcome <;> trivial⟩

/-! ## The preparation of a row -/

theorem tracks_reservePr (hqueued : row.status = .queued) (pr : String) (invoice : Invoice) :
    Tracks (Copies k row) (reservePr k row pr invoice)
      (fun row' v x => Copies k row' v x ∧ row'.status = .prepared) (Quits (Copies k row)) := by
  have hstable := Copies.stable k row
  unfold reservePr
  refine Triple.bind (tracks_read .time hstable fun _ _ _ h => h) fun time => ?_
  have hstable' := stable_and hstable (stable_logged ⟨.time, .ok time⟩)
  split_ifs
  · exact Triple.raise hstable' fun _ _ h => h.1
  · refine Triple.bind (R := fun _ => Copies k row) ?_ fun existing => ?_
    · exact (tracks_read (.getStandalonePayment _ _) hstable' fun _ _ _ h => h).weaken
        (fun _ _ _ h => h.1.1) fun _ _ h => h.1
    · split_ifs
      · exact Triple.raise hstable fun _ _ h => h
      · refine Tracks.weaken (tracks_update hstable (fun _ _ h => h) fun v x _ => ?_)
          (fun row' v x h => ⟨h.1, by rw [h.2]; rfl⟩) fun _ _ h => h
        exact ⟨by rw [hqueued]; decide, fun _ => ⟨_, invoice.paymentHash_ne, rfl⟩,
          fun h => absurd rfl h, fun h => (by cases h), fun _ h => absurd rfl h⟩

theorem tracks_fetchInvoice (hqueued : row.status = .queued) :
    Tracks (Copies k row) (fetchInvoice decode k row)
      (fun row' v x => Copies k row' v x ∧ row'.status = .prepared) (Quits (Copies k row)) := by
  have hstable := Copies.stable k row
  unfold fetchInvoice
  refine Triple.bind (R := fun _ => Copies k row) ?_ fun pr => ?_
  · exact (tracks_read (.getPrFromLnurl _ _) hstable fun _ _ _ h => h).weaken
      (fun _ _ _ h => h.1) fun _ _ h => h
  · cases decode pr with
    | none => exact Triple.raise hstable fun _ _ h => h
    | some invoice => exact tracks_reservePr hqueued pr invoice

/-- A row that could not be prepared has one attempt more. -/
theorem tracks_deferPayout (hqueued : row.status = .queued) (fault : Fault) :
    Tracks (Copies k row) (deferPayout k row fault) (fun _ _ _ => True)
      fun _ _ _ => True := by
  have hstable := Copies.stable k row
  unfold deferPayout
  refine Triple.bind (tracks_now hstable).forget fun t => ?_
  refine Triple.forget (Tracks.weaken (tracks_update hstable (fun _ _ h => h) fun v x _ => ?_)
    (fun _ _ _ _ => trivial) fun _ _ h => h)
  by_cases h8 : 8 ≤ row.attempts + 1
  · rw [if_pos h8]
    exact ⟨by rw [hqueued]; decide, fun h => (by cases h), fun _ =>
      ⟨rfl, rfl⟩, fun h => (by cases h),
      fun _ _ => ⟨rfl, fun _ => h8, fun _ => rfl⟩⟩
  · rw [if_neg h8]
    exact ⟨by rw [hqueued]; decide, fun h => (by cases h), fun _ =>
      ⟨rfl, rfl⟩, fun h => (by cases h),
      fun _ _ => ⟨rfl, fun h => (by cases h), fun h => absurd h h8⟩⟩

theorem tracks_preparePayout (hqueued : row.status = .queued) :
    Tracks (Copies k row) (preparePayout decode k row)
      (fun prepared v x => ∀ row', prepared = some row' →
        Copies k row' v x ∧ row'.status = .prepared) fun _ _ _ => True := by
  unfold preparePayout
  refine Triple.handle (T := Quits (Copies k row)) ?_ (fun fault => ?_) fun _ _ _ => trivial
  · refine Triple.bind ((tracks_fetchInvoice hqueued).consequence (fun _ _ _ h => h) ?_)
      fun row' => Triple.pure (P := fun v x => Copies k row' v x ∧ row'.status = .prepared) ?_ ?_
    · intro outcome v x _ hpost
      rcases outcome with (e | _) | row'
      · exact hpost
      · trivial
      · exact hpost
    · exact stable_and (Copies.stable k row') fun _ _ _ h _ => h
    · intro v x h row'' heq
      cases heq
      exact h
  · refine Triple.bind (tracks_deferPayout hqueued fault) fun _ =>
      Triple.pure stable_trivial fun _ _ _ row' heq => ?_
    cases heq

/-! ## The payment -/

/-- A row that is on its way may be settled in any way, as paid only after a
report. -/
theorem entitles_settle {status : PayoutStatus} {values : PayoutValues} {log : Log}
    (hsent : row.status = .sending ∨ row.status = .pending)
    (hstatus : status = .pending ∨ status = .failed ∨ status = .paid ∧ Reported log k row)
    (hhash : values.paymentHash = none) (hbolt11 : values.bolt11 = none) :
    Entitles k row status values log := by
  have hnever : status ≠ .prepared := by
    rcases hstatus with rfl | rfl | ⟨rfl, -⟩ <;> decide
  refine ⟨?_, fun h => absurd h hnever, fun _ => ⟨hhash, hbolt11⟩, fun hpaid => ?_,
    fun hqueued => ?_⟩
  · rcases hsent with hs | hs <;> rw [hs] <;> rcases hstatus with rfl | rfl | ⟨rfl, -⟩ <;> decide
  · rcases hstatus with rfl | rfl | ⟨-, hreported⟩
    · cases hpaid
    · cases hpaid
    · exact hreported
  · rcases hsent with hs | hs <;> rw [hs] at hqueued <;> cases hqueued

/-- The row is settled, and the worker is done with it. -/
theorem tracks_settle {status : PayoutStatus} {values : PayoutValues} (hP : bookkeeping.Stable P)
    (hcopies : ∀ v x, P v x → Copies k row v x)
    (hsent : row.status = .sending ∨ row.status = .pending)
    (hstatus : ∀ v x, P v x →
      status = .pending ∨ status = .failed ∨ status = .paid ∧ Reported x.2 k row)
    (hvalues : values.paymentHash = none ∧ values.bolt11 = none) :
    Tracks P (updatePayout k row status values) (fun _ _ _ => True) (Quits P) :=
  (tracks_update hP hcopies fun v x h => entitles_settle hsent (hstatus v x h) hvalues.1
    hvalues.2).weaken (fun _ _ _ _ => trivial) fun _ _ h => h

theorem tracks_payRow (hsent : row.status = .sending) :
    Tracks (Copies k row) (payRow k row) (fun _ _ _ => True) (Quits (Copies k row)) := by
  have hstable := Copies.stable k row
  unfold payRow payInvoice
  refine Triple.bind (R := fun payment v x => Copies k row v x ∧
    ⟨.payInvoiceResult, .ok payment⟩ ∈ x.2) ?_ fun payment => ?_
  · refine Triple.bind (R := fun _ => Copies k row) ?_ fun _ =>
      tracks_read .payInvoiceResult hstable fun _ _ _ h => h
    refine (tracks_quiet hstable fun w result w' heff => ?_).weaken (fun _ _ _ h => h.1)
      fun _ _ h => h
    rw [heff.2]
    exact ⟨rfl, rfl, .inr ⟨_, _, _, rfl⟩⟩
  · have hstable' := stable_and hstable (stable_logged ⟨.payInvoiceResult, .ok payment⟩)
    by_cases hmatches : matchesPayout payment k row = true
    · rw [if_pos hmatches]
      refine Triple.bind ((tracks_now hstable').weaken (fun _ _ _ h => h) fun _ _ h => h.1)
        fun t => ?_
      refine Tracks.weaken (tracks_settle hstable' (fun _ _ h => h.1) (.inl hsent)
        (fun v x h => ?_) ⟨rfl, rfl⟩) (fun _ _ _ h => h) fun _ _ h => h.1
      split_ifs with hsuccess
      · exact .inr (.inr ⟨rfl, payment, hmatches, .inr (.inl ⟨h.2, hsuccess⟩)⟩)
      · exact .inl rfl
    · rw [if_neg hmatches]
      exact Tracks.weaken (tracks_settle hstable' (fun _ _ h => h.1) (.inl hsent)
        (fun _ _ _ => .inr (.inl rfl)) ⟨rfl, rfl⟩) (fun _ _ _ h => h) fun _ _ h => h.1

theorem tracks_sendPayout (hprepared : row.status = .prepared) :
    Tracks (Copies k row) (sendPayout k row) (fun _ _ _ => True) fun _ _ _ => True := by
  unfold sendPayout
  refine Triple.bind (R := fun sending v x => Copies k sending v x ∧ sending.status = .sending) ?_
    fun sending => ?_
  · refine Triple.forget (Tracks.weaken (tracks_update (Copies.stable k row) (fun _ _ h => h)
      fun v x _ => ?_) (fun row' v x h => ⟨h.1, by rw [h.2]; rfl⟩) fun _ _ h => h)
    exact ⟨by rw [hprepared]; decide, fun h => (by cases h), fun _ => ⟨rfl, rfl⟩,
      fun h => (by cases h), fun h => by rw [hprepared] at h; cases h⟩
  · intro v x hinv hpre
    have hsent := hpre.2
    have hstable := Copies.stable k sending
    refine Triple.handle (tracks_payRow hsent) (fun fault => ?_) (fun _ _ _ => trivial) v x hinv
      hpre.1
    refine Triple.bind (tracks_now hstable).forget fun t => ?_
    exact Triple.forget (tracks_settle hstable (fun _ _ h => h) (.inl hsent)
      (fun _ _ _ => .inl rfl) ⟨rfl, rfl⟩)

/-! ## The reconciliation -/

/-- The wallet has answered with this record. -/
def Known (payment : Payment) (x : World × Log) : Prop :=
  ∃ hash wallet, ⟨.getStandalonePayment hash wallet, .ok (some payment)⟩ ∈ x.2

theorem stable_known (payment : Payment) : bookkeeping.Stable fun _ x => Known payment x := by
  rintro v x x' ⟨hash, wallet, hmem⟩ hkeeps
  exact ⟨hash, wallet, hkeeps.log _ hmem⟩

theorem tracks_lookAgain (hP : bookkeeping.Stable P) (hcopies : ∀ v x, P v x → Copies k row v x)
    (hsent : row.status = .sending ∨ row.status = .pending) :
    Tracks P (lookAgain k row) (fun _ _ _ => True) (Quits P) := by
  unfold lookAgain
  refine Triple.bind (tracks_now hP) fun t => ?_
  exact tracks_settle hP hcopies hsent (fun _ _ _ => .inl rfl) ⟨rfl, rfl⟩

theorem tracks_concludePayout (hsent : row.status = .sending ∨ row.status = .pending)
    (payment? : Option Payment) :
    Tracks (fun v x => Copies k row v x ∧ ∀ payment, payment? = some payment → Known payment x)
      (concludePayout k row payment?) (fun _ _ _ => True) fun _ _ _ => True := by
  cases payment? with
  | none =>
    have hstable := Copies.stable k row
    refine (tracks_lookAgain hstable (fun _ _ h => h) hsent).forget.consequence ?_
      fun _ _ _ _ h => h
    exact fun _ _ _ h => h.1
  | some payment =>
    have hstable := stable_and (Copies.stable k row) (stable_known payment)
    refine Triple.consequence (P := fun v x => Copies k row v x ∧ Known payment x) ?_
      (fun _ _ _ h => ⟨h.1, h.2 payment rfl⟩) fun _ _ _ _ h => h
    simp only [concludePayout]
    split_ifs with hpaid hfailed
    · rw [Bool.and_eq_true] at hpaid
      refine Triple.forget (tracks_settle hstable (fun _ _ h => h.1) hsent (fun v x h => ?_)
        ⟨rfl, rfl⟩)
      obtain ⟨-, hash, wallet, hmem⟩ := h
      exact .inr (.inr ⟨rfl, payment, hpaid.1, .inl ⟨hash, wallet, hmem, hpaid.2⟩⟩)
    · exact Triple.forget (tracks_settle hstable (fun _ _ h => h.1) hsent
        (fun _ _ _ => .inr (.inl rfl)) ⟨rfl, rfl⟩)
    · exact (tracks_lookAgain hstable (fun _ _ h => h.1) hsent).forget

/-- What is known after a status check. -/
def Rechecked (k : Outbox) (row : Payout) (known : Option (Option Payment)) (v : Option Uid)
    (x : World × Log) : Prop :=
  ∀ payment?, known = some payment? →
    Copies k row v x ∧ ∀ payment, payment? = some payment → Known payment x

theorem tracks_checkPayout (hsent : row.status = .sending ∨ row.status = .pending)
    {payment : Payment} (hmatches : matchesPayout payment k row = true) :
    Tracks (fun v x => Copies k row v x ∧ Known payment x) (checkPayout k row payment)
      (Rechecked k row) fun _ _ _ => True := by
  have hstable := stable_and (Copies.stable k row) (stable_known payment)
  unfold checkPayout
  refine Triple.handle (T := Quits fun v x => Copies k row v x ∧ Known payment x) ?_
    (fun fault => ?_) fun _ _ _ => trivial
  · refine Triple.bind (tracks_read (.checkPaymentStatus payment) hstable fun _ _ _ h => h)
      fun success => ?_
    have hstable' := stable_and hstable (stable_logged ⟨.checkPaymentStatus payment, .ok success⟩)
    split_ifs with hsuccess
    · refine Triple.bind (R := fun _ _ _ => True) ?_ fun _ =>
        Triple.pure stable_trivial fun _ _ _ payment? heq => by cases heq
      refine Tracks.weaken (tracks_settle hstable' (fun _ _ h => h.1.1) hsent (fun v x h => ?_)
        ⟨rfl, rfl⟩) (fun _ _ _ h => h) fun _ _ h => h.1
      subst hsuccess
      exact .inr (.inr ⟨rfl, payment, hmatches, .inr (.inr h.2)⟩)
    · refine Triple.bind (R := fun again v x => Copies k row v x ∧
        ⟨.getStandalonePayment row.paymentHash (some row.walletId), .ok again⟩ ∈ x.2) ?_
        fun again => Triple.pure (stable_and (Copies.stable k row) (stable_logged _)) ?_
      · exact (tracks_read (.getStandalonePayment _ _) hstable' fun _ _ _ h => h).weaken
          (fun _ _ _ h => ⟨h.1.1.1, h.2⟩) fun _ _ h => h.1
      · rintro v x ⟨hcopies, hmem⟩ payment? heq
        cases heq
        refine ⟨hcopies, fun payment heq => ?_⟩
        subst heq
        exact ⟨_, _, hmem⟩
  · refine Triple.pure hstable ?_
    rintro v x ⟨hcopies, hknown⟩ payment? heq
    cases heq
    refine ⟨hcopies, fun payment' heq => ?_⟩
    cases heq
    exact hknown

theorem tracks_reconcileKnown (hsent : row.status = .sending ∨ row.status = .pending)
    {payment : Payment} (hmatches : matchesPayout payment k row = true) :
    Tracks (fun v x => Copies k row v x ∧ Known payment x) (reconcileKnown k row payment)
      (fun _ _ _ => True) fun _ _ _ => True := by
  have hstable := stable_and (Copies.stable k row) (stable_known payment)
  unfold reconcileKnown
  refine Triple.bind (R := Rechecked k row) ?_ fun known => ?_
  · unfold recheckPayout
    split_ifs
    · exact tracks_checkPayout hsent hmatches
    · refine Triple.pure hstable ?_
      rintro v x ⟨hcopies, hknown⟩ payment? heq
      cases heq
      refine ⟨hcopies, fun payment' heq => ?_⟩
      cases heq
      exact hknown
  · cases known with
    | none =>
      exact fun v x hinv _ => Triple.pure stable_trivial (fun _ _ h => h) v x hinv trivial
    | some payment? =>
      refine Triple.bind ((tracks_concludePayout hsent
        payment?).consequence ?_ fun _ _ _ _ h => h)
        fun _ => Triple.pure stable_trivial fun _ _ _ => trivial
      exact fun _ _ _ h => h payment? rfl

theorem tracks_reconcilePayout (hsent : row.status = .sending ∨ row.status = .pending) :
    Tracks (Copies k row) (reconcilePayout k row) (fun _ _ _ => True) fun _ _ _ => True := by
  have hstable := Copies.stable k row
  unfold reconcilePayout
  refine Triple.bind (R := fun payment? v x => Copies k row v x ∧
    ⟨.getStandalonePayment row.paymentHash (some row.walletId), .ok payment?⟩ ∈ x.2) ?_
    fun payment? => ?_
  · exact (tracks_read (.getStandalonePayment _ _) hstable fun _ _ _ h => h).forget
  · have hstable' := stable_and hstable (stable_logged
      ⟨.getStandalonePayment row.paymentHash (some row.walletId), .ok payment?⟩)
    cases payment? with
    | none =>
      refine Triple.bind ((tracks_concludePayout hsent none).consequence ?_ fun _ _ _ _ h => h)
        fun _ => Triple.pure stable_trivial fun _ _ _ => trivial
      exact fun _ _ _ h => ⟨h.1, fun _ heq => by cases heq⟩
    | some payment =>
      show Tracks _ (reconcileFound k row payment) _ _
      unfold reconcileFound
      split_ifs with hmatches
      · refine (tracks_reconcileKnown hsent hmatches).consequence ?_ fun _ _ _ _ h => h
        exact fun _ _ _ h => ⟨h.1, _, _, h.2⟩
      · refine Triple.bind (R := fun _ _ _ => True) ?_
          fun _ => Triple.pure stable_trivial fun _ _ _ => trivial
        exact Triple.forget (tracks_settle hstable' (fun _ _ h => h.1) hsent
          (fun _ _ _ => .inr (.inl rfl)) ⟨rfl, rfl⟩)

/-! ## A round -/

theorem tracks_processPrepared (k : Outbox) (row : Payout) :
    Tracks (Copies k row) (processPrepared k row) (fun _ _ _ => True) fun _ _ _ => True := by
  unfold processPrepared
  split_ifs with hprepared hsent
  · exact Triple.bind (tracks_sendPayout hprepared)
      fun _ => Triple.pure stable_trivial fun _ _ _ => trivial
  · exact tracks_reconcilePayout hsent
  · exact Triple.pure (Copies.stable k row) fun _ _ _ => trivial

theorem tracks_processPayout (k : Outbox) (row : Payout) :
    Tracks (Copies k row) (processPayout decode k row) (fun _ _ _ => True)
      fun _ _ _ => True := by
  unfold processPayout
  split_ifs with hqueued
  · refine Triple.bind (tracks_preparePayout hqueued) fun prepared => ?_
    cases prepared with
    | none =>
      exact fun v x hinv _ => Triple.pure stable_trivial (fun _ _ h => h) v x hinv trivial
    | some row' =>
      refine (tracks_processPrepared k row').consequence ?_ fun _ _ _ _ h => h
      exact fun _ _ _ h => (h row' rfl).1
  · exact tracks_processPrepared k row

/-- A round of the worker is in order from any state of the world. -/
theorem tracks_payoutRound :
    Tracks (fun v _ => v = none) (payoutRound decode) (fun _ _ _ => True)
      fun _ _ _ => True := by
  have hignore : ∀ {P : Option Uid → World × Log → Prop} {task : Coroutine Unit},
      Tracks P task (fun _ _ _ => True) (fun _ _ _ => True) →
      Tracks P (task.handle fun _ => return ()) (fun _ _ _ => True) fun _ _ _ => True :=
    fun h => Triple.handle h (fun _ => Triple.pure stable_trivial fun _ _ _ => trivial)
      fun _ _ _ => trivial
  unfold payoutRound
  refine Triple.bind tracks_claim fun claimed => ?_
  cases claimed with
  | none =>
    exact fun v x hinv _ => Triple.pure stable_trivial (fun _ _ h => h) v x hinv trivial
  | some claimed =>
    obtain ⟨k, row⟩ := claimed
    refine Triple.anyway (M := fun _ _ => True) stable_trivial (hignore ?_)
      (hignore (tracks_release k row))
    refine Triple.bind (R := fun _ _ _ => True) ?_ fun _ => ?_
    · refine (tracks_processPayout k row).consequence ?_ fun _ _ _ _ h => h
      exact fun _ _ _ h => h k row rfl
    · exact ((tracks_read (.notify _) stable_trivial fun _ _ _ h => h).weaken
        (fun _ _ _ _ => trivial) fun _ _ h => h).forget

end

/-! ## The laws -/

/-- The rest of the extension only queues rows, of which nothing is known. -/
theorem Recorded.outside {x x' : World × Log} (h : Recorded x) (hout : Unlogged Outside x x') :
    Recorded x' ∧ ∀ u v, Apart x.1 u v → Keeps u x x' := by
  obtain ⟨w', log'⟩ := x'
  obtain ⟨⟨env, a, σ, hgame, hfresh, hrun, rfl⟩, rfl⟩ := hout
  have hgrows := perform_grows hgame hfresh hrun
  refine ⟨⟨h.tokens, fun k row hrow => ?_, h.path, ?_, fun k id hne => ?_⟩, fun u v hapart =>
    ⟨fun _ hc => hc, fun _ ha => ha, fun k row hrow => ?_, fun c hu k row hrow hc => ?_⟩⟩
  · by_cases hold : row ∈ x.1.ledger.outbox k
    · refine (h.rows k row hold).mono (fun hash claim hclaim => ?_) (fun _ ha => ha) rfl rfl
      rw [hgrows.claims]
      exact hclaim
    -- No update has written the id of a new row.
    have hnone : statuses x.1.history k row.id = [] := by
      by_contra hne
      obtain ⟨stored, hstored, hid⟩ := h.stored k row.id hne
      exact hold (row_inj (hgrows.kept k stored hstored) hrow hid ▸ hstored)
    obtain ⟨-, hstatus, hhash, hattempts⟩ := ((hgrows.added k row hrow).resolve_left hold).1
    refine ⟨?_, ?_, ?_, fun _ => hhash, ?_, ?_, fun _ => ?_⟩
    · unfold lastStatus
      rw [hnone]
      exact hstatus.imp_right fun hs => ⟨hs.1, rfl⟩
    · rw [hhash, hnone]
      simp
    · rw [hhash]
      exact fun _ heq => by cases heq
    · rcases hstatus with hs | hs <;> simp [hs]
    · rcases hstatus with hs | hs <;> simp [hs]
    · rw [hnone, hattempts]
      rcases hstatus with hs | hs <;> simp [hs]
  · show ∀ c ∈ σ.invoiceClaims, ∀ c' ∈ σ.invoiceClaims, _
    rw [hgrows.claims]
    exact h.claims
  · obtain ⟨row, hrow, hid⟩ := h.stored k id hne
    exact ⟨row, hgrows.kept k row hrow, hid⟩
  · exact ⟨row, hgrows.kept k row hrow, rfl, fun _ => ⟨rfl, rfl⟩, .refl⟩
  · rcases hgrows.added k row hrow with hold | ⟨hqueued, -⟩
    · exact ⟨row, hold, hc, rfl⟩
    · have htoken := hapart.left c hu
      rw [← hc, hqueued.claim] at htoken
      exact absurd htoken h.tokens

theorem Recorded.initial : Recorded (World.initial, []) where
  tokens := List.not_mem_nil
  rows := fun k row hrow => by cases k <;> exact absurd hrow (Table.not_mem_empty row)
  path := by
    intro newer older k row hsplit
    have hnil := congrArg List.length hsplit
    simp [World.initial] at hnil
  claims := fun c hc => absurd hc (Table.not_mem_empty c)
  stored := fun _ _ hne => absurd rfl hne

theorem apart_none (x : World × Log) : Apart x.1 none none := by
  refine ⟨?_, ?_, ?_⟩ <;> exact fun c hc => by cases hc

theorem starts_in_order (task : Coroutine Unit) (h : task = payoutRound decode) (x : World × Log)
    (hinv : Recorded x) : wp bookkeeping (Logged PerformsAtomically) (fun _ _ _ => True) task
      none x := by
  subst h
  exact (tracks_payoutRound none x hinv rfl).mono fun _ _ _ _ _ => trivial

theorem crashes_in_order (x x' : World × Log) (hinv : Recorded x) (h : Unlogged Crashes x x') :
    Recorded x' ∧ Keeps none x x' := by
  obtain ⟨w', log'⟩ := x'
  obtain ⟨hworld, rfl⟩ := h
  cases hworld
  exact ⟨hinv, bookkeeping.rely_refl none x⟩

theorem sound_of_logs {pool : Pool Op Op.Ans Fault (World × Log)} (h : Logs decode pool) :
    pool.Sound bookkeeping (Logged PerformsAtomically) :=
  Pool.Reachable.sound (D := bookkeeping) Recorded.initial (apart_none _) starts_in_order
    (fun _ _ hinv hout => hinv.outside hout)
    (fun x x' hinv hcrash => ⟨(crashes_in_order x x' hinv hcrash).1, apart_none x'⟩) h

/-- What a pool of workers keeps from any of its states on. -/
theorem keeps_of_goes {pool pool' : Pool Op Op.Ans Fault (World × Log)} (h : Logs decode pool)
    (hgoes : Goes decode pool pool') : Keeps none pool.world pool'.world :=
  ((sound_of_logs h).steps (D := bookkeeping) starts_in_order
    (fun _ _ hinv hout => hinv.outside hout)
    (fun x x' hinv hcrash => ⟨(crashes_in_order x x' hinv hcrash).1, apart_none x'⟩)
    (fun x x' hinv hcrash => (crashes_in_order x x' hinv hcrash).2) hgoes).2

/-- The same pool without its log, over any database. -/
theorem reachable_of_logs {pool : Pool Op Op.Ans Fault (World × Log)} (h : Logs decode pool) :
    Reachable decode ⟨pool.world.1, pool.tasks⟩ :=
  (Pool.Reachable.unlogged h).mono fun _ _ _ _ hdoes => hdoes.1

/-- A final status is kept. -/
theorem eq_of_final {s t : PayoutStatus} (h : Relation.ReflTransGen Follows s t)
    (hfinal : s = .paid ∨ s = .failed ∨ s = .withheld) : t = s := by
  induction h with
  | refl => rfl
  | tail _ hstep ih =>
    rw [ih] at hstep
    rcases hfinal with rfl | rfl | rfl <;> cases hstep

/-- Nobody called `pay_invoice` for a row that was never prepared. -/
theorem uncalled_of_logs {pool : Pool Op Op.Ans Fault (World × Log)} (h : Logs decode pool)
    {k : Outbox} {id : Uid} (hnever : PayoutStatus.prepared ∉
      statuses pool.world.1.history k id) :
    ∀ call ∈ calls pool.world.1.history, ¬(call.k = k ∧ call.arguments.externalId = id) := by
  rintro call hcall ⟨rfl, rfl⟩
  have horderly := Orderly.of_reachable (reachable_of_logs h)
  obtain ⟨marked, hsent, -, hid, -⟩ := horderly.preceded.of_mem hcall
  obtain ⟨hmem, hsending⟩ := mem_sends.mp hsent
  rw [← hid] at hnever
  exact hnever ((sound_of_logs h).1.path.prepared hmem hsending)

/-- A queued row may be tried again. -/
theorem Recorded.tried {x : World × Log} (h : Recorded x) {k : Outbox} {row : Payout}
    (hrow : row ∈ x.1.ledger.outbox k) (hqueued : row.status = .queued) :
    Tried k row.id row.attempts x.1 := by
  have haccounted := h.rows k row hrow
  obtain ⟨-, hfailed, hle⟩ := haccounted.attempts (haccounted.unprepared (.inl hqueued))
  have hlt : row.attempts < 8 := by
    rcases Nat.lt_or_eq_of_le hle with hlt | heq
    · exact hlt
    · rw [hfailed.mpr heq] at hqueued
      cases hqueued
  refine ⟨row, hrow, rfl, rfl, ?_⟩
  rw [hqueued, statusAfter, if_neg (Nat.not_le.mpr hlt)]

/-- Outbox soundness.  Every committed status follows the one before it and
the final ones stay, a row is `paid` only when the wallet has reported a
payment of exactly this row as successful, and a row that is never prepared
fails at its eighth attempt, while `pay_invoice` is not called for it.

A round in which a queued row gets no invoice calls `pay_invoice` for no row,
and commits one attempt more, unless what would record it raises.  So a queued
row that gets no invoice again and again has failed once eight attempts are
counted, and not before. -/
theorem outbox_sound (decode : String → Option Invoice)
    {pool : Pool Op Op.Ans Fault (World × Log)} (h : Logs decode pool) :
    Path pool.world.1.history ∧
    (∀ k, ∀ row ∈ pool.world.1.ledger.outbox k,
      (row.status = lastStatus pool.world.1.history k row.id ∨
        row.status = .withheld ∧ statuses pool.world.1.history k row.id = []) ∧
      (row.status = .paid → Reported pool.world.2 k row) ∧
      (PayoutStatus.prepared ∉ statuses pool.world.1.history k row.id →
        row.attempts = (statuses pool.world.1.history k row.id).length ∧
        (∀ s ∈ statuses pool.world.1.history k row.id, s = .queued ∨ s = .failed) ∧
        (row.status = .failed ↔ row.attempts = 8) ∧ row.attempts ≤ 8 ∧
        ∀ call ∈ calls pool.world.1.history,
          ¬(call.k = k ∧ call.arguments.externalId = row.id))) ∧
    (∀ pool', Goes decode pool pool' → ∀ k, ∀ row ∈ pool.world.1.ledger.outbox k,
      ∃ row' ∈ pool'.world.1.ledger.outbox k, row'.id = row.id ∧
        Relation.ReflTransGen Follows row.status row'.status ∧
        (row.status = .paid ∨ row.status = .failed ∨ row.status = .withheld →
          row'.status = row.status)) ∧
    (∀ k row first after attempt rest, FailedRound decode k row first after attempt rest →
      (∀ a ∈ attempt ++ rest, ∀ k' claim arguments, a.op ≠ .payInvoice k' claim arguments) ∧
      ((∃ a ∈ rest, Recording k row a.op ∧ ∃ raised, a.outcome = .error raised) ∨
        ∃ a ∈ rest, Counted k row a)) ∧
    ∀ k, ∀ row ∈ pool.world.1.ledger.outbox k, row.status = .queued →
      ∀ m w', Failing decode k row.id pool.world.1 m w' →
        row.attempts + m ≤ 8 ∧ ∃ row' ∈ w'.ledger.outbox k, row'.id = row.id ∧
          row'.attempts = row.attempts + m ∧
          row'.status = if row.attempts + m = 8 then .failed else .queued := by
  have hinv : Recorded pool.world := (sound_of_logs h).1
  refine ⟨hinv.path, fun k row hrow => ?_, fun pool' hgoes k row hrow => ?_,
    fun k row first after attempt rest hround => ⟨hround.unpaid, ?_⟩,
    fun k row hrow hqueued m w' hfails => ?_⟩
  · have haccounted := hinv.rows k row hrow
    refine ⟨haccounted.last, haccounted.paid, fun hnever => ?_⟩
    have hnone : row.paymentHash = none := by
      rw [← haccounted.hashed] at hnever
      simpa using hnever
    obtain ⟨hlength, hfailed, hle⟩ := haccounted.attempts hnone
    exact ⟨hlength, hinv.path.unprepared hnever, hfailed, hle, uncalled_of_logs h hnever⟩
  · obtain ⟨row', hrow', hterms, -, hpath⟩ := (keeps_of_goes h hgoes).rows k row hrow
    exact ⟨row', hrow', congrArg PayoutTerms.id hterms, hpath, eq_of_final hpath⟩
  · cases hround.cases with
    | inl hraises => exact .inl hraises
    | inr hcounts =>
      obtain ⟨clock, update, tail, rfl, -, hcounted, -⟩ := hcounts
      exact .inr ⟨update, by simp, hcounted⟩
  · obtain ⟨htried, hmost⟩ := (hinv.tried hrow hqueued).failing hfails
    obtain ⟨row', hrow', hid, hattempts, hstatus⟩ := htried
    have hle : row.attempts + m ≤ 8 := by
      rcases Nat.eq_zero_or_pos m with rfl | hm
      · have haccounted := hinv.rows k row hrow
        exact (haccounted.attempts (haccounted.unprepared (.inl hqueued))).2.2
      · exact hmost hm
    refine ⟨hle, row', hrow', hid, hattempts, ?_⟩
    rw [hstatus, statusAfter]
    exact if_congr (by omega) rfl rfl

namespace Kill

open Duel

/-- What the wallet reports of the payment. -/
def record : Payment where
  walletId := "wallet"
  amount := -18000
  paymentHash := "hash"
  bolt11 := "lnbc18"
  success := true
  pending := false
  failed := false
  isIn := false
  isOut := true
  tag := some "quakejs"
  quakejsEntry := none
  quakejsPayout := some claimed.id
  quakejsVictim := some lifeA
  quakejsKind := some "kill"

/-- The world once the payment is committed. -/
def settled : World := update marked .paid { nextAttempt := some 1115 } paid

theorem settled_row : ∃ row ∈ settled.ledger.payouts,
    row.status = .paid ∧ row.paymentHash = some "hash" ∧ row.id = claimed.id := by
  unfold settled
  exact kill_evaluates.2.2.2.2.2.2

/-- The payment arrives. -/
theorem solo_pay :
    Solo PerformsAtomically (payRow .payouts marked) sending
      (.ok (PayoutValues.apply { nextAttempt := some 1115 } .paid marked)) settled := by
  have hcall : Solo PerformsAtomically
      (payInvoice .payouts marked.claim (payArguments .payouts marked))
        sending (.ok record) paid :=
    .call call_performs (.call (answers .payInvoiceResult
      (fun _ _ => rfl) record paid) (.done _ _))
  refine Solo.bind hcall ?_
  rw [if_pos (by decide)]
  refine .call (answers .now (fun _ _ => rfl) (1100 : Int) paid) ?_
  exact .call (update_performs kill_evaluates.2.2.2.2.2.1) (.done _ _)

theorem solo_settle :
    Solo PerformsAtomically (sendPayout .payouts prepared)
      (update claimed .prepared invoice leased)
      (.ok (PayoutValues.apply { nextAttempt := some 1115 } .paid marked)) settled := by
  refine .call (update_performs kill_evaluates.2.2.2.1) ?_
  exact Solo.handle solo_pay fun _ => by simp

theorem solo_paid_round :
    Solo PerformsAtomically (payoutRound provider) world (.error .cancelled) settled := by
  refine .call claim_performs ?_
  have hprocess : Solo PerformsAtomically (processPayout provider .payouts claimed) leased
      (.ok ()) settled :=
    Solo.bind (a := some prepared) solo_prepare (Solo.bind solo_settle (.done _ _))
  refine Solo.anyway (Solo.handle (Solo.bind hprocess (.call (cancelled _ _) (.done _ _)))
    fun _ => by simp) ?_
  exact .call (cancelled _ _) (.done _ _)

/-- Every pool of workers can keep a log. -/
theorem logs_of_commits {w : World} {tasks : Nat → Coroutine Unit}
    (h : Commits provider ⟨w, tasks⟩) : ∃ log, Logs provider ⟨(w, log), tasks⟩ :=
  h.logged

theorem logs_settled : ∃ log tasks, Logs provider ⟨(settled, log), tasks⟩ := by
  have hround := solo_paid_round
  have hstart := reachable_world.step (.start 0 (payoutRound provider) _ rfl rfl)
  have hend := hstart.solo (i := 0) (by rw [Function.update_self]; exact hround)
  obtain ⟨log, hlogs⟩ := logs_of_commits hend
  exact ⟨log, _, hlogs⟩

theorem logs_unsent : ∃ log, Logs provider ⟨(unsent, log), fun _ => .done (.ok ())⟩ := by
  have hfresh : QuakeJs.Follows Env.Fresh Ledger.empty (opening ++ [slay]) :=
    follows_append.mpr ⟨follows_opening.1, fresh_slay, trivial⟩
  exact logs_of_commits (reachable_script (by decide) hfresh .initial)

theorem unsent_row : ∃ row ∈ unsent.ledger.outbox .payouts,
    row.id = claimed.id ∧ row.status = .queued ∧ row.attempts = 0 := by
  decide +kernel

end Kill

open Kill in
/-- A payout that is paid, and one that the provider fails eight times. -/
theorem outbox_sound_kill :
    (∃ log, ∃ row ∈ settled.ledger.payouts, row.status = .paid ∧ Reported log .payouts row) ∧
    ∃ row ∈ (timedOut 8).ledger.outbox .payouts,
      row.id = claimed.id ∧ row.attempts = 8 ∧ row.status = .failed := by
  constructor
  · obtain ⟨log, tasks, h⟩ := logs_settled
    obtain ⟨row, hrow, hpaid, -, -⟩ := settled_row
    generalize settled = w at h hrow ⊢
    exact ⟨log, row, hrow, hpaid, ((outbox_sound provider h).2.1 .payouts row hrow).2.1 hpaid⟩
  · obtain ⟨log, h⟩ := logs_unsent
    obtain ⟨row, hrow, hid, hqueued, hnone⟩ := unsent_row
    have hfails : Failing provider .payouts row.id unsent 8 (timedOut 8) := by
      rw [hid]
      exact failing_timedOut 8 (Nat.le_refl 8)
    generalize timedOut 8 = w at hfails ⊢
    obtain ⟨-, row', hrow', hid', hattempts, hstatus⟩ :=
      (outbox_sound provider h).2.2.2.2 .payouts row hrow hqueued 8 w hfails
    rw [hnone, Nat.zero_add] at hattempts
    rw [hnone, if_pos (Nat.zero_add 8)] at hstatus
    exact ⟨row', hrow', hid'.trans hid, hattempts, hstatus⟩

/-! ## The invoices -/

/-- An invoice with this hash cannot be given to the row: another row carries
the hash or has claimed it, or the row already has another invoice. -/
def Conflicts (σ : Ledger) (k : Outbox) (row : Payout) (hash : String) : Prop :=
  (∃ k', ∃ other ∈ σ.outbox k', other.paymentHash = some hash ∧ other.id ≠ row.id) ∨
  (∃ claim, σ.invoiceClaims.get? hash = some claim ∧ claim.payoutId ≠ row.id) ∨
  ∃ stored ∈ σ.outbox k, stored.id = row.id ∧ stored.paymentHash.isSome = true ∧
    stored.paymentHash ≠ some hash

theorem Recorded.refuses {x : World × Log} (h : Recorded x)
    {env : Env} {k : Outbox} {row : Payout}
    {values : PayoutValues} {hash : String}
    (hhash : (values.apply .prepared row).paymentHash = some hash) (hne : hash ≠ "")
    (hconflicts : Conflicts x.1.ledger k row hash) :
    ∃ error, Ledger.updatePayout env k row .prepared values x.1.ledger = .error error := by
  cases hrun : Ledger.updatePayout env k row .prepared values x.1.ledger with
  | error error => exact ⟨error, rfl⟩
  | ok result =>
    exfalso
    obtain ⟨row', σ⟩ := result
    obtain ⟨rfl, claims, stored, hreserved, hget, -, -, -⟩ := updatePayout_ok hrun
    have hclaimed : claims.get? hash = some ⟨hash, row.id⟩ := hreserved.claimed rfl hhash hne
    rcases hconflicts with ⟨k', other, hother, hsame, hid⟩ | ⟨claim, hclaim, hid⟩ |
      ⟨other, hother, hid, hsome, hdiffers⟩
    · have hheld := hreserved.extends _ _ ((h.rows k' other hother).reserved hash hsame)
      rw [hclaimed, Option.some.injEq, InvoiceClaim.mk.injEq] at hheld
      exact hid hheld.2.symm
    · rw [hreserved.extends _ _ hclaim, Option.some.injEq] at hclaimed
      rw [hclaimed] at hid
      exact hid rfl
    · obtain ⟨old, hold⟩ := Option.isSome_iff_exists.mp hsome
      have hheld := hreserved.extends _ _ ((h.rows k other hother).reserved old hold)
      have hone := reserved_unique hreserved h.claims _ (Table.mem_of_get? hheld) _
        (Table.mem_of_get? hclaimed) hid
      rw [InvoiceClaim.mk.injEq] at hone
      exact hdiffers (hold.trans (congrArg some hone.1))

/-- Invoice exclusivity.  A row carries a payment hash exactly when it was
once prepared, the hash is claimed for it, it keeps the hash and the invoice
for ever, and no other row of any outbox carries the hash.  An update that
would change this raises, and one that raises changes nothing. -/
theorem invoice_exclusive (decode : String → Option Invoice)
    {pool : Pool Op Op.Ans Fault (World × Log)} (h : Logs decode pool) :
    (∀ k, ∀ row ∈ pool.world.1.ledger.outbox k,
      (row.paymentHash.isSome = true ↔
        PayoutStatus.prepared ∈ statuses pool.world.1.history k row.id) ∧
      ∀ hash, row.paymentHash = some hash →
        pool.world.1.ledger.invoiceClaims.get? hash = some ⟨hash, row.id⟩ ∧
        ∀ k', ∀ row' ∈ pool.world.1.ledger.outbox k', row'.paymentHash = some hash →
          k' = k ∧ row' = row) ∧
    (∀ pool', Goes decode pool pool' → ∀ k, ∀ row ∈ pool.world.1.ledger.outbox k,
      row.paymentHash.isSome = true → ∃ row' ∈ pool'.world.1.ledger.outbox k,
        row'.id = row.id ∧ row'.paymentHash = row.paymentHash ∧ row'.bolt11 = row.bolt11) ∧
    (∀ env k row values hash, (values.apply .prepared row).paymentHash = some hash → hash ≠ "" →
      Conflicts pool.world.1.ledger k row hash →
        ∃ error, Ledger.updatePayout env k row .prepared values pool.world.1.ledger =
          .error error) ∧
    ∀ env k row values error,
      Ledger.updatePayout env k row .prepared values pool.world.1.ledger = .error error →
        commit pool.world.1.ledger (env, .updatePayout k row .prepared values) =
          pool.world.1.ledger := by
  have hinv : Recorded pool.world := (sound_of_logs h).1
  refine ⟨fun k row hrow => ⟨(hinv.rows k row hrow).hashed, fun hash hhash => ?_⟩,
    fun pool' hgoes k row hrow hsome => ?_, fun env k row values hash hhash hne hconflicts => ?_,
    fun env k row values error hraises => ?_⟩
  · have hclaim := (hinv.rows k row hrow).reserved hash hhash
    refine ⟨hclaim, fun k' row' hrow' hhash' => ?_⟩
    have hclaim' := (hinv.rows k' row' hrow').reserved hash hhash'
    rw [hclaim, Option.some.injEq, InvoiceClaim.mk.injEq] at hclaim'
    obtain rfl : k' = k := (Orderly.of_reachable (reachable_of_logs h)).ids
      k' k row' hrow' row hrow
      hclaim'.2.symm
    exact ⟨rfl, row_inj hrow' hrow hclaim'.2.symm⟩
  · obtain ⟨row', hrow', hterms, hkept, -⟩ := (keeps_of_goes h hgoes).rows k row hrow
    exact ⟨row', hrow', congrArg PayoutTerms.id hterms, hkept hsome⟩
  · exact hinv.refuses hhash hne hconflicts
  · have hrun : perform env (.updatePayout k row .prepared values) pool.world.1.ledger =
        .error error := by
      show (Ledger.updatePayout _ _ _ _ _ _).map Prod.snd = _
      rw [hraises]
      rfl
    exact commit_error hrun

open Kill in
theorem invoice_exclusive_kill :
    settled.ledger.invoiceClaims.get? "hash" = some ⟨"hash", claimed.id⟩ := by
  obtain ⟨log, tasks, h⟩ := logs_settled
  obtain ⟨row, hrow, -, hhash, hid⟩ := settled_row
  rw [← hid]
  generalize settled = w at h hrow ⊢
  exact (((invoice_exclusive provider h).1 .payouts row hrow).2 "hash" hhash).1

end QuakeJs.Payments
