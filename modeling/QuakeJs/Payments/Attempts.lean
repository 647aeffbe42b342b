import QuakeJs.Payments.Turns

/-!
# Preparations that fail

A queued row that gets no invoice is counted, and the eighth attempt that is
counted fails the row.

* `FailedRound`: a round of `payout_loop` in which the row gets no invoice.
* `Counted`: the update that counts the attempt.
* `Failing`: rounds that fail, of any workers, one after the other.
-/

namespace QuakeJs.Payments

open Async Ledger

/-! ## What a preparation awaits -/

/-- The operations of a preparation: it asks for an invoice, and writes its own
row. -/
def Asks (k : Outbox) (row : Payout) : Op → Prop
  | .getPrFromLnurl .. | .time | .getStandalonePayment .. => True
  | .updatePayout k' row' _ _ => k' = k ∧ row' = row
  | _ => False

/-- The operations that record a failed preparation. -/
def Recording (k : Outbox) (row : Payout) : Op → Prop
  | .now => True
  | .updatePayout k' row' _ _ => k' = k ∧ row' = row
  | _ => False

/-- The last operations of a round. -/
def Closing : Op → Prop
  | .notify _ | .releasePayout .. => True
  | _ => False

variable {decode : String → Option Invoice} {k : Outbox} {row : Payout}

theorem asks_then {α : Type} {op : Op} {f : op.Ans → Coroutine α} (hop : Asks k row op)
    (hf : ∀ a, (f a).Within (Asks k row) (fun _ => True) fun _ => True) :
    (await op >>= f).Within (Asks k row) (fun _ => True) fun _ => True :=
  Task.Within.bind (Task.Within.perform (Q := fun _ => True) hop fun _ _ =>
    trivial) fun a _ => hf a

theorem asks_fetchInvoice :
    (fetchInvoice decode k row).Within (Asks k row) (fun _ => True) fun _ => True := by
  unfold fetchInvoice
  refine asks_then trivial fun pr => ?_
  cases decode pr with
  | none => exact .raise _
  | some invoice =>
    simp only [reservePr]
    refine asks_then trivial fun time => ?_
    split_ifs
    · exact .raise _
    · refine asks_then trivial fun existing => ?_
      split_ifs
      · exact .raise _
      · have hupdate : ∀ values, Asks k row (.updatePayout k row .prepared values) :=
          fun _ => ⟨rfl, rfl⟩
        exact Task.Within.perform (hupdate _) fun _ _ => trivial

/-! ## A round that fails -/

/-- The stored row after one attempt more: it waits for the next one, or has
failed at the eighth. -/
def statusAfter (attempts : Nat) : PayoutStatus := if 8 ≤ attempts then .failed else .queued

/-- A round claims the row, which is queued, and gets no invoice for it.  It
awaits `rest` then. -/
structure FailedRound (decode : String → Option Invoice) (k : Outbox) (row : Payout)
    (first after : World) (attempt rest : List Awaited) : Prop where
  round : ∃ result, Traced PerformsAtomically (payoutRound decode)
    (⟨first, .claimPayout, .ok (some (k, row)), after⟩ :: (attempt ++ rest)) result
  queued : row.status = .queued
  fails : ∃ fault, Traced PerformsAtomically (fetchInvoice decode k row) attempt
    (.error (.error fault))

/-- The update that counts the attempt was committed. -/
structure Counted (k : Outbox) (row : Payout) (await : Awaited) : Prop where
  op : ∃ values, await.op = .updatePayout k row (statusAfter (row.attempts + 1)) values
  stored : ∃ stored ∈ await.after.ledger.outbox k, stored.id = row.id ∧
    stored.attempts = row.attempts + 1 ∧ stored.status = statusAfter (row.attempts + 1)

/-- The handler of a preparation. -/
def deferring (k : Outbox) (row : Payout) (fault : Fault) : Coroutine (Option Payout) := do
  let _ ← deferPayout k row fault
  return none

variable {attempt rest more trace : List Awaited} {fault : Fault}

/-- A preparation that fails is followed by its handler. -/
theorem of_preparePayout {result : Except (Raised Fault) (Option Payout)}
    (h : Traced PerformsAtomically (preparePayout decode k row) trace result)
    (hfails : Traced PerformsAtomically (fetchInvoice decode k row) attempt
      (.error (.error fault))) (happend : trace ++ more = attempt ++ rest) :
    ∃ second, Traced PerformsAtomically (deferring k row fault) second result ∧
      rest = second ++ more := by
  unfold preparePayout at h
  cases h.of_handle with
  | inl hquiet =>
    exfalso
    obtain ⟨hwhole, hnot⟩ := hquiet
    cases hwhole.of_bind with
    | inl hreturns =>
      obtain ⟨row', first, second, hfetch, -, rfl⟩ := hreturns
      rw [List.append_assoc] at happend
      cases (hfetch.unique hfails happend).2.1
    | inr hraises =>
      obtain ⟨raised, hfetch, rfl⟩ := hraises
      obtain ⟨-, hraised, -⟩ := hfetch.unique hfails happend
      cases hraised
      exact hnot fault rfl
  | inr hhandled =>
    obtain ⟨fault', first, second, hfirst, hsecond, rfl⟩ := hhandled
    cases hfirst.of_bind with
    | inl hreturns =>
      obtain ⟨row', _, _, -, hpure, -⟩ := hreturns
      cases hpure.of_pure.2
    | inr hraises =>
      obtain ⟨raised, hfetch, hraised⟩ := hraises
      cases hraised
      rw [List.append_assoc] at happend
      obtain ⟨rfl, hsame, hrest⟩ := hfetch.unique hfails happend
      cases hsame
      exact ⟨second, hsecond, hrest.symm⟩

theorem records_deferring :
    (deferring k row fault).Within (Recording k row) (fun _ => True) fun _ => True := by
  have hupdate : ∀ values, Recording k row
      (.updatePayout k row (statusAfter (row.attempts + 1)) values) := fun _ => ⟨rfl, rfl⟩
  refine Task.Within.bind (Q := fun _ => True) ?_ fun _ _ => .pure trivial
  refine Task.Within.bind (Q := fun _ => True) ?_ fun t _ => ?_
  · have hnow : Recording k row .now := trivial
    exact Task.Within.perform hnow fun _ _ => trivial
  · exact Task.Within.perform (hupdate _) fun _ _ => trivial

/-- The handler returns from `process_payout`. -/
theorem of_deferring {prepared : Option Payout}
    (h : Traced PerformsAtomically (deferring k row fault) trace (.ok prepared)) :
    prepared = none := by
  obtain ⟨_, _, second, -, hpure, -⟩ := h.of_bind_ok
  cases hpure.of_pure.2
  rfl

theorem of_processPayout {result : Except (Raised Fault) Unit}
    (h : Traced PerformsAtomically (processPayout decode k row) trace result)
    (hqueued : row.status = .queued)
    (hfails : Traced PerformsAtomically (fetchInvoice decode k row) attempt
      (.error (.error fault))) (happend : trace ++ more = attempt ++ rest) :
    ∃ second result, Traced PerformsAtomically (deferring k row fault) second result ∧
      rest = second ++ more := by
  unfold processPayout at h
  rw [if_pos hqueued] at h
  cases h.of_bind with
  | inl hreturns =>
    obtain ⟨prepared, first, last, hprepare, hlast, rfl⟩ := hreturns
    rw [List.append_assoc] at happend
    obtain ⟨second, hsecond, hrest⟩ := of_preparePayout hprepare hfails happend
    cases of_deferring hsecond
    rw [hlast.of_pure.1] at hrest
    exact ⟨second, _, hsecond, hrest⟩
  | inr hraises =>
    obtain ⟨raised, hprepare, -⟩ := hraises
    obtain ⟨second, hsecond, hrest⟩ := of_preparePayout hprepare hfails happend
    exact ⟨second, _, hsecond, hrest⟩

/-- A round processes its row, and closes. -/
theorem of_payoutRound {first after : World} {result : Except (Raised Fault) Unit}
    (h : Traced PerformsAtomically (payoutRound decode)
      (⟨first, .claimPayout, .ok (some (k, row)), after⟩ :: trace) result) :
    ∃ work tail ended, Traced PerformsAtomically (processPayout decode k row) work ended ∧
      trace = work ++ tail ∧ ∀ a ∈ tail, Closing a.op := by
  have hclean : ∀ {tail : List Awaited} {result : Except (Raised Fault) Unit} {ended},
      Traced PerformsAtomically
        (Task.handle (await (.releasePayout k row)) (fun _ => return ()) >>= fun _ =>
          (.done ended : Coroutine Unit)) tail result → ∀ a ∈ tail, Closing a.op := by
    intro tail result ended htail
    have hwithin : (Task.handle (await (.releasePayout k row)) (fun _ => return ()) >>= fun _ =>
        (.done ended : Coroutine Unit)).Within Closing (fun _ => True) fun _ => True := by
      refine Task.Within.bind (Q := fun _ => True) (Task.Within.handle ?_ fun _ => .pure trivial)
        fun _ _ _ _ => trivial
      exact Task.Within.perform trivial fun _ _ => trivial
    exact htail.within hwithin fun _ _ _ _ _ => trivial
  unfold payoutRound at h
  cases h with
  | call does hrest =>
    obtain ⟨ended, work, tail, hwork, htail, rfl⟩ := Traced.of_anyway hrest
    have hbody : ∃ ended, Traced PerformsAtomically
        (do
          processPayout decode k row
          await (.notify row.arenaId)) work ended := by
      cases hwork.of_handle with
      | inl hquiet => exact ⟨_, hquiet.1⟩
      | inr hhandled =>
        obtain ⟨fault, begun, second, hbegun, hpure, rfl⟩ := hhandled
        rw [hpure.of_pure.1, List.append_nil]
        exact ⟨_, hbegun⟩
    obtain ⟨ended, hbody⟩ := hbody
    cases hbody.of_bind with
    | inl hreturns =>
      obtain ⟨_, begun, second, hprocess, hnotify, rfl⟩ := hreturns
      refine ⟨begun, second ++ tail, _, hprocess, List.append_assoc _ _ _, fun a ha => ?_⟩
      rcases List.mem_append.mp ha with hsecond | hlast
      · obtain ⟨_, _, -, rfl⟩ := hnotify.of_perform
        rw [List.mem_singleton.mp hsecond]
        trivial
      · exact hclean htail a hlast
    | inr hraises =>
      obtain ⟨raised, hprocess, -⟩ := hraises
      exact ⟨work, tail, _, hprocess, rfl, hclean htail⟩

/-- What follows a failed preparation: its handler, and the end of the round. -/
theorem FailedRound.rest_eq {first after : World}
    (h : FailedRound decode k row first after attempt rest) :
    ∃ fault second result tail, Traced PerformsAtomically (deferring k row fault) second result ∧
      rest = second ++ tail ∧ ∀ a ∈ tail, Closing a.op := by
  obtain ⟨⟨result, hround⟩, hqueued, fault, hfails⟩ := h
  obtain ⟨work, tail, ended, hwork, happend, htail⟩ := of_payoutRound hround
  obtain ⟨second, _, hsecond, hrest⟩ := of_processPayout hwork hqueued hfails happend.symm
  exact ⟨fault, second, _, tail, hsecond, hrest, htail⟩

/-- An update that returns has written the row. -/
theorem counted_of_update {values : PayoutValues} {row' : Payout} {w w' : World}
    (hvalues : values.attempts = some (row.attempts + 1))
    (hdoes : PerformsAtomically (.updatePayout k row (statusAfter (row.attempts + 1)) values) w
      (.ok row') w') :
    Counted k row
      ⟨w, .updatePayout k row (statusAfter (row.attempts + 1)) values, .ok row', w'⟩ := by
  refine ⟨⟨values, rfl⟩, ?_⟩
  obtain ⟨result, ⟨env, ⟨row₁, σ, hrun, rfl, rfl⟩ | ⟨e, -, rfl, -⟩⟩, hout⟩ | ⟨-, raised, hout⟩ :=
    hdoes.1
  · obtain ⟨rfl, claims, stored, hreserved, hget, -, -, rfl⟩ := updatePayout_ok hrun
    let f := written env (values.apply (statusAfter (row.attempts + 1)) row)
    have hr := Rewrites.updateKey (f := f) w.ledger k row.id (fun _ => rfl) hreserved.extends
    obtain ⟨hstored, hid⟩ := Table.get?_eq_some.mp hget
    refine ⟨_, hr.written stored hstored hid, hid, ?_, rfl⟩
    show values.attempts.getD row.attempts = row.attempts + 1
    rw [hvalues]
    rfl
  · rcases hout with hout | ⟨raised, hout⟩ <;> cases hout
  · cases hout

/-- A round that fails counts the attempt, unless the clock or the update that
counts it raises. -/
theorem FailedRound.cases {first after : World}
    (h : FailedRound decode k row first after attempt rest) :
    (∃ a ∈ rest, Recording k row a.op ∧ ∃ raised, a.outcome = .error raised) ∨
    ∃ clock update tail, rest = clock :: update :: tail ∧ clock.op = .now ∧
      Counted k row update ∧ ∀ a ∈ tail, Closing a.op := by
  obtain ⟨fault, second, result, tail, hsecond, rfl, htail⟩ := h.rest_eq
  have hupdate : ∀ {t : Int} {trace : List Awaited} {result : Except (Raised Fault) Payout},
      Traced PerformsAtomically (updatePayout k row (statusAfter (row.attempts + 1))
        { attempts := some (row.attempts + 1)
          nextAttempt := some (t + min 3600 (15 * 2 ^ min (row.attempts + 1) 8))
          error := some fault.detail }) trace result →
        ∃ update, trace = [update] ∧ ((∃ row', result = .ok row') → Counted k row update) ∧
          ∀ raised, result = .error raised →
            Recording k row update.op ∧ update.outcome = .error raised := by
    intro t trace result htrace
    obtain ⟨w, w', hdoes, rfl⟩ := htrace.of_perform
    refine ⟨_, rfl, ?_, ?_⟩
    · rintro ⟨row', rfl⟩
      exact counted_of_update rfl hdoes
    · rintro raised rfl
      exact ⟨⟨rfl, rfl⟩, rfl⟩
  cases hsecond.of_bind with
  | inl hreturns =>
    obtain ⟨row', begun, last, hdefer, hpure, rfl⟩ := hreturns
    rw [hpure.of_pure.1, List.append_nil]
    obtain ⟨t, clock, write, hclock, hwrite, rfl⟩ := hdefer.of_bind_ok
    obtain ⟨w, w', -, rfl⟩ := hclock.of_perform
    obtain ⟨update, rfl, hcounted, -⟩ := hupdate hwrite
    exact .inr ⟨_, update, tail, rfl, rfl, hcounted ⟨row', rfl⟩, htail⟩
  | inr hraises =>
    left
    obtain ⟨raised, hdefer, -⟩ := hraises
    cases hdefer.of_bind with
    | inl hreturns =>
      obtain ⟨t, clock, write, hclock, hwrite, rfl⟩ := hreturns
      obtain ⟨update, rfl, -, hraised⟩ := hupdate hwrite
      obtain ⟨hop, hout⟩ := hraised raised rfl
      exact ⟨update, by simp, hop, raised, hout⟩
    | inr hclock =>
      obtain ⟨raised', hclock, -⟩ := hclock
      obtain ⟨w, w', -, rfl⟩ := hclock.of_perform
      exact ⟨_, List.mem_append_left _ List.mem_cons_self, trivial, raised', rfl⟩

/-- No round that fails pays. -/
theorem FailedRound.unpaid {first after : World}
    (h : FailedRound decode k row first after attempt rest) :
    ∀ a ∈ attempt ++ rest, ∀ k' claim arguments, a.op ≠ .payInvoice k' claim arguments := by
  obtain ⟨fault, second, result, tail, hsecond, hrest, htail⟩ := h.rest_eq
  obtain ⟨-, -, _, hattempt⟩ := h
  have hasks : ∀ a ∈ attempt, Asks k row a.op :=
    hattempt.within asks_fetchInvoice fun _ _ _ _ _ => trivial
  have hrecords : ∀ a ∈ second, Recording k row a.op :=
    hsecond.within records_deferring fun _ _ _ _ _ => trivial
  rw [hrest]
  intro a ha k' claim arguments hop
  rcases List.mem_append.mp ha with ha | ha
  · have hask := hasks a ha
    rw [hop] at hask
    exact hask
  · rcases List.mem_append.mp ha with ha | ha
    · have hrecord := hrecords a ha
      rw [hop] at hrecord
      exact hrecord
    · have hclose := htail a ha
      rw [hop] at hclose
      exact hclose

/-! ## Rounds that fail -/

/-- What happens meanwhile: anything but an update of the row. -/
def Elsewhere (k : Outbox) (id : Uid) (w w' : World) : Prop :=
  Outside w w' ∨ ∃ op outcome, PerformsAtomically op w outcome w' ∧
    ∀ row status values, op = .updatePayout k row status values → row.id ≠ id

/-- Rounds of any workers, in each of which the row gets no invoice and neither
the clock nor the update that counts the attempt raises. -/
inductive Failing (decode : String → Option Invoice) (k : Outbox) (id : Uid) :
    World → Nat → World → Prop
  | nil (w : World) : Failing decode k id w 0 w
  | cons {w first after w' w'' : World} {row : Payout} {attempt rest : List Awaited} {n : Nat}
      (round : FailedRound decode k row first after attempt rest) (which : row.id = id)
      (records : ∀ a ∈ rest, Recording k row a.op → ∀ raised, a.outcome ≠ .error raised)
      (trail : Trail (Elsewhere k id) w
        (⟨first, .claimPayout, .ok (some (k, row)), after⟩ :: (attempt ++ rest)) w')
      (more : Failing decode k id w' n w'') : Failing decode k id w (n + 1) w''

/-- The row has failed to be prepared so often. -/
def Tried (k : Outbox) (id : Uid) (n : Nat) (w : World) : Prop :=
  ∃ row ∈ w.ledger.outbox k, row.id = id ∧ row.attempts = n ∧ row.status = statusAfter n

section

variable {id : Uid} {n : Nat} {w w' : World}

theorem Tried.outside (h : Tried k id n w) (hout : Outside w w') : Tried k id n w' := by
  obtain ⟨row, hrow, hrest⟩ := h
  exact ⟨row, outside_kept hout hrow, hrest⟩

/-- A write that keeps the status and the attempts. -/
theorem Tried.rewrites (h : Tried k id n w) {k' : Outbox} {id' : Uid} {f : Payout → Payout}
    (hr : Rewrites k' id' f w.ledger w'.ledger)
    (hf : k' = k ∧ id' = id → ∀ p, (f p).attempts = p.attempts ∧ (f p).status = p.status) :
    Tried k id n w' := by
  obtain ⟨row, hrow, hid, hattempts, hstatus⟩ := h
  by_cases hwhich : k = k' ∧ row.id = id'
  · obtain ⟨rfl, rfl⟩ := hwhich
    obtain ⟨hkeeps, hkeeps'⟩ := hf ⟨rfl, hid⟩ row
    exact ⟨f row, hr.written row hrow rfl, (hr.key row).trans hid, hkeeps.trans hattempts,
      hkeeps'.trans hstatus⟩
  · exact ⟨row, hr.kept k row hrow hwhich, hid, hattempts, hstatus⟩

/-- Only an update of the row that is made writes its status. -/
theorem Tried.performs (h : Tried k id n w) {op : Op}
    {outcome : Except (Raised Fault) op.Ans} (hdoes : Performs op w outcome w')
    (hop : ∀ row status values, op = .updatePayout k row status values → row.id ≠ id) :
    Tried k id n w' := by
  obtain ⟨result, heffect, -⟩ | ⟨rfl, -⟩ := hdoes
  · cases op with
    | claimPayout =>
      obtain ⟨env, -, -, -, rfl⟩ := heffect
      obtain ⟨-, hσ⟩ | ⟨k', row, hrow, -, -, -, -, hσ⟩ :=
        claimPayout_eq (Prod.eta (claimPayout env w.ledger)).symm
      · obtain ⟨stored, hstored, hrest⟩ := h
        refine ⟨stored, ?_, hrest⟩
        show stored ∈ (claimPayout env w.ledger).2.outbox k
        rw [hσ]
        exact hstored
      · have hr : Rewrites k' row.id (Ledger.leased env) w.ledger
          (claimPayout env w.ledger).2 := by
          rw [hσ]
          exact Rewrites.updateKey (f := Ledger.leased env) w.ledger k' row.id (fun _ => rfl)
            fun _ _ hclaim => hclaim
        exact h.rewrites hr fun _ _ => ⟨rfl, rfl⟩
    | releasePayout k' row =>
      obtain ⟨env, -, rfl⟩ := heffect
      refine h.rewrites (rewrites_release env k' row w.ledger) fun _ p => ?_
      unfold released
      by_cases hclaim : p.claim = row.claim
      · rw [if_pos hclaim]
        exact ⟨rfl, rfl⟩
      · rw [if_neg hclaim]
        exact ⟨rfl, rfl⟩
    | updatePayout k' row status values =>
      obtain ⟨env, ⟨row', σ, hrun, -, rfl⟩ | ⟨e, -, -, rfl⟩⟩ := heffect
      · obtain ⟨-, claims, stored, hreserved, -, -, -, rfl⟩ := updatePayout_ok hrun
        refine h.rewrites (Rewrites.updateKey (f := written env row') w.ledger k' row.id
          (fun _ => rfl) hreserved.extends) ?_
        rintro ⟨rfl, hid⟩
        exact absurd hid (hop row status values rfl)
      · exact h
    | payInvoice k' claim arguments =>
      obtain ⟨-, rfl⟩ := heffect
      exact h
    | _ =>
      have heq : w' = w := heffect
      rw [heq]
      exact h
  · exact h

theorem Tried.elsewhere (h : Tried k id n w) (hstep : Elsewhere k id w w') : Tried k id n w' := by
  obtain hout | ⟨op, outcome, hdoes, hother⟩ := hstep
  · exact h.outside hout
  · exact h.performs hdoes.1 hother

/-- The row that a claim returns is the stored one. -/
theorem Tried.claimed (h : Tried k id n w)
    (hdoes : PerformsAtomically .claimPayout w (.ok (some (k, row))) w') (hid : row.id = id) :
    row.attempts = n ∧ row.status = statusAfter n := by
  obtain ⟨stored, hstored, hid', hattempts, hstatus⟩ := h
  obtain ⟨result, ⟨env, -, -, rfl, -⟩, hout | ⟨raised, hout⟩⟩ | ⟨-, raised, hout⟩ := hdoes.1
  · have hclaimed : (claimPayout env w.ledger).1 = some (k, row) := (Except.ok.inj hout).symm
    obtain ⟨hnone, -⟩ | ⟨k', row', hrow', -, -, -, hsome, -⟩ :=
      claimPayout_eq (Prod.eta (claimPayout env w.ledger)).symm
    · rw [hclaimed] at hnone
      cases hnone
    · rw [hclaimed, Option.some.injEq, Prod.mk.injEq] at hsome
      obtain ⟨rfl, rfl⟩ := hsome
      have hsame : row' = stored := row_inj hrow' hstored (hid.trans hid'.symm)
      rw [← hsame] at hattempts hstatus
      exact ⟨hattempts, hstatus⟩
  · cases hout
  · cases hout

/-- A round that fails adds one attempt. -/
theorem Tried.round {first after : World} (h : Tried k id n w)
    (hround : FailedRound decode k row first after attempt rest) (hid : row.id = id)
    (hrecords : ∀ a ∈ rest, Recording k row a.op → ∀ raised, a.outcome ≠ .error raised)
    (htrail : Trail (Elsewhere k id) w
      (⟨first, .claimPayout, .ok (some (k, row)), after⟩ :: (attempt ++ rest)) w') :
    n < 8 ∧ Tried k id (n + 1) w' := by
  have hkeeps : ∀ {n : Nat} (w₁ w₂ : World), Tried k id n w₁ → Elsewhere k id w₁ w₂ →
      Tried k id n w₂ := fun _ _ hI hstep => hI.elsewhere hstep
  obtain ⟨result, htrace⟩ := hround.round
  have hdoes := htrace.does
  have hclaim : PerformsAtomically .claimPayout first (.ok (some (k, row))) after :=
    hdoes _ List.mem_cons_self
  have hfirst : Tried k id n first := keeps_of_steps hkeeps htrail.1 h
  obtain ⟨hattempts, hstatus⟩ := hfirst.claimed hclaim hid
  have hlt : n < 8 := by
    by_contra hge
    rw [hround.queued, statusAfter, if_pos (Nat.not_lt.mp hge)] at hstatus
    cases hstatus
  refine ⟨hlt, ?_⟩
  obtain ⟨middle, -, hlast⟩ := Trail.of_append htrail.2
  obtain hraised | ⟨clock, update, tail, rfl, -, hcounted, htail⟩ := hround.cases
  · obtain ⟨a, ha, hrecord, raised, hout⟩ := hraised
    exact absurd hout (hrecords a ha hrecord raised)
  · -- What was found before the update does not matter: it writes the worker's copy.
    obtain ⟨stored, hstored, hid', hattempts', hstatus'⟩ := hcounted.stored
    have hupdated : Tried k id (n + 1) update.after :=
      ⟨stored, hstored, hid'.trans hid, hattempts ▸ hattempts', hattempts ▸ hstatus'⟩
    refine Trail.keeps (I := Tried k id (n + 1)) hlast.2.2 hkeeps ?_ hupdated
    intro a ha hI
    have hmem : a ∈ attempt ++ clock :: update :: tail := by simp [ha]
    refine hI.performs (hdoes a (List.mem_cons_of_mem _ hmem)).1 fun row' status values hop => ?_
    have hclosing := htail a ha
    rw [hop] at hclosing
    exact absurd hclosing not_false

/-- Every round that fails adds one attempt, and the eighth fails the row. -/
theorem Tried.failing {m : Nat} (h : Tried k id n w) (hfails : Failing decode k id w m w') :
    Tried k id (n + m) w' ∧ (0 < m → n + m ≤ 8) := by
  induction hfails generalizing n with
  | nil w => exact ⟨h, fun hm => absurd hm (Nat.lt_irrefl 0)⟩
  | @cons w first after w' w'' row attempt rest m round which records trail more ih =>
    obtain ⟨hlt, hround⟩ := h.round round which records trail
    obtain ⟨htried, hle⟩ := ih hround
    rw [show n + (m + 1) = n + 1 + m by omega]
    refine ⟨htried, fun _ => ?_⟩
    rcases Nat.eq_zero_or_pos m with rfl | hm
    · omega
    · exact hle hm

end

namespace Kill

open Duel

/-- What a worker draws for its round `n`. -/
def clock (n : Nat) : Env :=
  { tick (20 + n) with
    now := 1020 + 4000 * n }

def leasedAt (n : Nat) (w : World) : World :=
  { w with
    ledger := (claimPayout (clock n) w.ledger).2
    tokens := (clock n).uid 0 :: w.tokens }

/-- The write of the handler. -/
def counting (n : Nat) (row : Payout) : PayoutValues :=
  { attempts := some (row.attempts + 1)
    nextAttempt := some ((clock n).now + min 3600 (15 * 2 ^ min (row.attempts + 1) 8))
    error := some "Lightning address provider timed out." }

def countedAt (n : Nat) (row : Payout) (w : World) : World :=
  update row (statusAfter (row.attempts + 1)) (counting n row) (leasedAt n w)

def givenBack (n : Nat) (row : Payout) (w : World) : World :=
  { countedAt n row w with
    ledger := releasePayout (clock n) .payouts row (countedAt n row w).ledger }

/-- The world after the kill. -/
def unsent : World := ⟨ledgerAfter (opening ++ [slay]), [], []⟩

/-- The world after `n` rounds in which the provider times out. -/
def timedOut : Nat → World
  | 0 => unsent
  | n + 1 =>
    match (claimPayout (clock n) (timedOut n).ledger).1 with
    | some (.payouts, row) => givenBack n row (timedOut n)
    | _ => timedOut n

/-- The round `n` claims the row, and its update commits. -/
def Fails (n : Nat) (w : World) (row : Payout) : Prop :=
  (claimPayout (clock n) w.ledger).1 = some (.payouts, row) ∧ row.status = .queued ∧
    row.id = claimed.id ∧ (clock n).uid 0 ∉ w.tokens ∧ (clock n).uid 0 ≠ "" ∧
    (Ledger.updatePayout (tick 21) .payouts row (statusAfter (row.attempts + 1)) (counting n row)
      (leasedAt n w).ledger).toOption.isSome = true

instance (n : Nat) (w : World) (row : Payout) : Decidable (Fails n w row) :=
  inferInstanceAs (Decidable (_ ∧ _ ∧ _ ∧ _ ∧ _ ∧ _))

theorem timedOut_fails : ∀ n < 8, ∃ row ∈ (timedOut n).ledger.payouts,
    Fails n (timedOut n) (Ledger.leased (clock n) row) := by
  decide +kernel

/-- What the worker finds in the row's `error` afterwards. -/
def lateProvider : Fault := ⟨"Lightning address provider timed out."⟩

/-- The provider does not answer in time. -/
theorem asks_in_vain (address : String) (amount : Int) (w : World) :
    PerformsAtomically (.getPrFromLnurl address amount) w (.error (.error lateProvider)) w :=
  ⟨.inr ⟨rfl, _, rfl⟩, fun _ _ _ _ _ heq _ => by cases heq⟩

/-- The request that the provider does not answer. -/
def asking (n : Nat) (w : World) (row : Payout) : List Awaited :=
  [⟨leasedAt n w, .getPrFromLnurl row.lnAddress (row.amount * 1000),
    .error (.error lateProvider), leasedAt n w⟩]

/-- The rest of the round. -/
def deferral (n : Nat) (w : World) (row : Payout) : List Awaited :=
  [⟨leasedAt n w, .now, .ok (clock n).now, leasedAt n w⟩,
    ⟨leasedAt n w, .updatePayout .payouts row (statusAfter (row.attempts + 1)) (counting n row),
      .ok ((counting n row).apply (statusAfter (row.attempts + 1)) row), countedAt n row w⟩,
    ⟨countedAt n row w, .notify row.arenaId, .ok (), countedAt n row w⟩,
    ⟨countedAt n row w, .releasePayout .payouts row, .ok (), givenBack n row w⟩]

theorem claims_at {n : Nat} {w : World} {row : Payout} (h : Fails n w row) :
    PerformsAtomically .claimPayout w (.ok (some (.payouts, row))) (leasedAt n w) :=
  returns (.inl ⟨.ok (some (.payouts, row)),
    ⟨clock n, h.2.2.2.2.1, h.2.2.2.1, congrArg _ h.1.symm, rfl⟩, .inl rfl⟩)

theorem failed_round {n : Nat} {w : World} {row : Payout} (h : Fails n w row) :
    FailedRound provider .payouts row w (leasedAt n w) (asking n w row) (deferral n w row) where
  round := by
    refine ⟨.ok (), ?_⟩
    have hclaim := claims_at h
    obtain ⟨-, hqueued, -, -, -, hupdate⟩ := h
    refine .call hclaim ?_
    show Traced PerformsAtomically (Task.anyway (Task.handle (do
        processPayout provider .payouts row
        await (.notify row.arenaId)) fun _ => return ())
      (Task.handle (await (.releasePayout .payouts row)) fun _ => return ())) _ _
    unfold processPayout
    rw [if_pos hqueued]
    refine .call (asks_in_vain _ _ _) (.call (answers .now (fun _ _ => rfl) (clock n).now _) ?_)
    refine .call (update_performs hupdate) ?_
    refine .call (answers (.notify _) (fun _ _ => rfl) () _) (.call ?_ (.done _))
    exact returns (.inl ⟨.ok (), ⟨clock n, rfl, rfl⟩, .inl rfl⟩)
  queued := h.2.1
  fails := ⟨lateProvider, .call (asks_in_vain _ _ _) (.done _)⟩

theorem failing_step {n m : Nat} {w w' : World} {row : Payout} (h : Fails n w row)
    (hmore : Failing provider .payouts claimed.id (givenBack n row w) m w') :
    Failing provider .payouts claimed.id w (m + 1) w' := by
  refine .cons (failed_round h) h.2.2.1 ?_ ⟨.refl, .refl, .refl, .refl, .refl, .refl, .refl⟩ hmore
  intro a ha _ raised hraised
  simp only [deferral, List.mem_cons, List.not_mem_nil, or_false] at ha
  rcases ha with rfl | rfl | rfl | rfl <;> cases hraised

theorem timedOut_step {n : Nat} (hn : n < 8) :
    ∃ row, Fails n (timedOut n) row ∧ timedOut (n + 1) = givenBack n row (timedOut n) := by
  obtain ⟨row, -, hfails⟩ := timedOut_fails n hn
  refine ⟨_, hfails, ?_⟩
  show (match (claimPayout (clock n) (timedOut n).ledger).1 with
    | some (.payouts, row) => givenBack n row (timedOut n)
    | _ => timedOut n) = _
  rw [hfails.1]

/-- The provider times out eight times. -/
theorem failing_timedOut : ∀ m ≤ 8, Failing provider .payouts claimed.id (timedOut (8 - m)) m
    (timedOut 8) := by
  intro m
  induction m with
  | zero => exact fun _ => .nil _
  | succ m ih =>
    intro hm
    obtain ⟨row, hfails, hnext⟩ := timedOut_step (n := 8 - (m + 1)) (by omega)
    have hmore := ih (by omega)
    rw [show 8 - m = 8 - (m + 1) + 1 by omega, hnext] at hmore
    exact failing_step hfails hmore

end Kill

end QuakeJs.Payments
