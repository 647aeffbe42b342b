import QuakeJs.Async.Trace
import QuakeJs.Payments.Once

/-!
# The turns of the payout queue

`payout_loop` claims the first row that is due, works on it, and gives the
claim back however the work ended.  A row that was worked on is not due any
more, so one that is stuck does not hold up the others.

* `Owns`: what a worker does between its claim and the end of the round.
* `PerformsAt`: rounds whose claim returns and whose last update commits.
* `Rounds`: rounds of one worker, amid the rest of the extension.
-/

namespace QuakeJs.Payments

open Async Ledger

variable {decode : String → Option Invoice}

/-! ## The operations between the claim and the release -/

/-- A worker writes its own row only, under its claim. -/
def Owns (k : Outbox) (id claim : Uid) : Op → Prop
  | .updatePayout k' row _ _ => k' = k ∧ row.id = id ∧ row.claim = claim
  | .claimPayout | .releasePayout .. => False
  | _ => True

/-- An update returns the copy of the worker as it was written. -/
def May : Answer Op Op.Ans Fault → Prop
  | ⟨.updatePayout _ row status values, .ok row'⟩ => row' = values.apply status row
  | _ => True

/-- A copy of the claimed row. -/
def CopyOf (id claim : Uid) (row : Payout) : Prop := row.id = id ∧ row.claim = claim

section

variable {k : Outbox} {id claim : Uid} {row : Payout}

/-- The task owns its row, and returns what `Q` says. -/
abbrev Keeping {α : Type} (k : Outbox) (id claim : Uid) (task : Coroutine α) (Q : α → Prop) :
    Prop :=
  task.Within (Owns k id claim) May Q

theorem CopyOf.apply (h : CopyOf id claim row) (values : PayoutValues) (status : PayoutStatus) :
    CopyOf id claim (values.apply status row) := h

theorem keeping_update (h : CopyOf id claim row) (status : PayoutStatus) (values : PayoutValues) :
    Keeping k id claim (updatePayout k row status values) (CopyOf id claim) := by
  refine Task.Within.perform ⟨rfl, h⟩ ?_
  intro row' hmay
  have heq : row' = values.apply status row := hmay
  rw [heq]
  exact h.apply values status

/-- The other operations write nothing. -/
theorem keeping_await {op : Op} (hop : Owns k id claim op) :
    Keeping k id claim (await op) fun _ => True :=
  Task.Within.perform hop fun _ _ => trivial

theorem keeping_then {α : Type} {op : Op} {f : op.Ans → Coroutine α} {Q : α → Prop}
    (hop : Owns k id claim op) (hf : ∀ a, Keeping k id claim (f a) Q) :
    Keeping k id claim (await op >>= f) Q :=
  Task.Within.bind (keeping_await hop) fun a _ => hf a

theorem keeping_ignore {α : Type} {task : Coroutine α} {Q : α → Prop}
    (h : Keeping k id claim task Q) :
    Keeping k id claim (do let _ ← task; return ()) fun _ => True :=
  Task.Within.bind h fun _ _ => .pure trivial

theorem keeping_reservePr (h : CopyOf id claim row) (pr : String) (invoice : Invoice) :
    Keeping k id claim (reservePr k row pr invoice) (CopyOf id claim) := by
  unfold reservePr
  refine keeping_then trivial fun time => ?_
  split_ifs
  · exact .raise _
  · refine keeping_then trivial fun existing => ?_
    split_ifs
    · exact .raise _
    · exact keeping_update h _ _

theorem keeping_fetchInvoice (h : CopyOf id claim row) :
    Keeping k id claim (fetchInvoice decode k row) (CopyOf id claim) := by
  unfold fetchInvoice
  refine keeping_then trivial fun pr => ?_
  cases decode pr with
  | none => exact .raise _
  | some invoice => exact keeping_reservePr h pr invoice

theorem keeping_deferPayout (h : CopyOf id claim row) (fault : Fault) :
    Keeping k id claim (deferPayout k row fault) fun _ => True := by
  unfold deferPayout
  refine keeping_then trivial fun t => ?_
  exact (keeping_update h _ _).mono fun _ _ => trivial

theorem keeping_preparePayout (h : CopyOf id claim row) :
    Keeping k id claim (preparePayout decode k row)
      fun prepared => ∀ row', prepared = some row' → CopyOf id claim row' := by
  unfold preparePayout
  apply Task.Within.handle
  · apply Task.Within.bind (keeping_fetchInvoice h)
    intro row' hcopy
    apply Task.Within.pure
    intro row'' heq
    rw [← Option.some.inj heq]
    exact hcopy
  · intro fault
    apply Task.Within.bind (keeping_deferPayout h fault)
    intro _ _
    apply Task.Within.pure
    intro row' hnone
    cases hnone

theorem keeping_payRow (h : CopyOf id claim row) :
    Keeping k id claim (payRow k row) fun _ => True := by
  have hupdate : ∀ status values,
      Keeping k id claim (updatePayout k row status values) fun _ => True :=
    fun status values => (keeping_update h status values).mono fun _ _ => trivial
  unfold payRow payInvoice
  apply Task.Within.bind
  · exact keeping_then trivial fun _ => keeping_await trivial
  · intro payment _
    split_ifs
    · exact keeping_then trivial fun _ => hupdate _ _
    · exact keeping_then trivial fun _ => hupdate _ _
    · exact hupdate _ _

theorem keeping_sendPayout (h : CopyOf id claim row) :
    Keeping k id claim (sendPayout k row) fun _ => True := by
  unfold sendPayout
  apply Task.Within.bind (keeping_update h _ _)
  intro sending hsending
  apply Task.Within.handle (keeping_payRow hsending)
  intro fault
  refine keeping_then trivial fun t => ?_
  exact (keeping_update hsending _ _).mono fun _ _ => trivial

theorem keeping_concludePayout (h : CopyOf id claim row) (payment : Option Payment) :
    Keeping k id claim (concludePayout k row payment) (CopyOf id claim) := by
  have hagain : Keeping k id claim (lookAgain k row) (CopyOf id claim) :=
    keeping_then trivial fun t => keeping_update h _ _
  cases payment with
  | none => exact hagain
  | some payment =>
    simp only [concludePayout]
    split_ifs
    · exact keeping_update h _ _
    · exact keeping_update h _ _
    · exact hagain

theorem keeping_recheckPayout (h : CopyOf id claim row) (payment : Payment) :
    Keeping k id claim (recheckPayout k row payment) fun _ => True := by
  unfold recheckPayout checkPayout
  split_ifs
  · apply Task.Within.handle
    · refine keeping_then trivial fun success => ?_
      split_ifs
      · exact Task.Within.bind (keeping_update h _ _) fun _ _ => .pure trivial
      · exact keeping_then trivial fun _ => .pure trivial
    · exact fun _ => .pure trivial
  · exact .pure trivial

theorem keeping_reconcilePayout (h : CopyOf id claim row) :
    Keeping k id claim (reconcilePayout k row) fun _ => True := by
  unfold reconcilePayout
  refine keeping_then trivial fun payment => ?_
  cases payment with
  | none => exact keeping_ignore (keeping_concludePayout h none)
  | some payment =>
    simp only [reconcileFound]
    split_ifs
    · unfold reconcileKnown
      apply Task.Within.bind (keeping_recheckPayout h payment)
      intro known _
      cases known with
      | none => exact .pure trivial
      | some known => exact keeping_ignore (keeping_concludePayout h known)
    · exact keeping_ignore (keeping_update h _ _)

theorem keeping_processPrepared (h : CopyOf id claim row) :
    Keeping k id claim (processPrepared k row) fun _ => True := by
  unfold processPrepared
  split_ifs
  · exact keeping_ignore (keeping_sendPayout h)
  · exact keeping_reconcilePayout h
  · exact .pure trivial

/-- Whatever the answers are, `process_payout` writes its own row only. -/
theorem keeping_processPayout (h : CopyOf id claim row) :
    Keeping k id claim (processPayout decode k row) fun _ => True := by
  unfold processPayout
  split_ifs
  · apply Task.Within.bind (keeping_preparePayout h)
    intro prepared hcopy
    cases prepared with
    | none => exact .pure trivial
    | some row' => exact keeping_processPrepared (hcopy row' rfl)
  · exact keeping_processPrepared h

end

/-! ## Rounds -/

/-- As `Performs`, where the claim returns at the clock `s`, and the last
update of the round commits at the clock `t`. -/
def PerformsAt (s t : Int) :
    (op : Op) → World → Except (Raised Fault) op.Ans → World → Prop
  | .claimPayout, w, outcome, w' => ∃ env : Env, env.now = s ∧ env.uid 0 ≠ "" ∧
      env.uid 0 ∉ w.tokens ∧ outcome = .ok (claimPayout env w.ledger).1 ∧
      w' = { w with
        ledger := (claimPayout env w.ledger).2
        tokens := env.uid 0 :: w.tokens }
  | .releasePayout k row, w, outcome, w' => ∃ env : Env, env.now = t ∧ outcome = .ok () ∧
      w' = { w with
        ledger := releasePayout env k row w.ledger }
  | op, w, outcome, w' => Performs op w outcome w'

theorem PerformsAt.performs {s t : Int} {op : Op} {w w' : World}
    {outcome : Except (Raised Fault) op.Ans} (h : PerformsAt s t op w outcome w') :
    Performs op w outcome w' := by
  cases op with
  | claimPayout =>
    obtain ⟨env, -, hne, hfresh, rfl, rfl⟩ := h
    exact .inl ⟨.ok _, ⟨env, hne, hfresh, rfl, rfl⟩, .inl rfl⟩
  | releasePayout k row =>
    obtain ⟨env, -, rfl, rfl⟩ := h
    exact .inl ⟨.ok (), ⟨env, rfl, rfl⟩, .inl rfl⟩
  | _ => exact h

/-- An update that returns was made. -/
theorem Performs.may {op : Op} {w w' : World} {outcome : Except (Raised Fault) op.Ans}
    (h : Performs op w outcome w') : May ⟨op, outcome⟩ := by
  cases op with
  | updatePayout k row status values =>
    cases outcome with
    | error raised => trivial
    | ok row' =>
      show row' = values.apply status row
      obtain ⟨result, heffect, hout | ⟨raised, hout⟩⟩ | ⟨-, raised, hout⟩ := h
      · obtain ⟨env, ⟨row₁, σ, hrun, rfl, -⟩ | ⟨e, -, rfl, -⟩⟩ := heffect
        · cases hout
          exact (updatePayout_ok hrun).1
        · cases hout
      · cases hout
      · cases hout
  | _ => cases outcome <;> trivial

abbrev Awaited := Await Op Op.Ans Fault World

section

variable {s t : Int} {trace : List Awaited} {result : Except (Raised Fault) Unit}

/-- A round claims, and when it has a row, works on this row and gives the
claim back at its end. -/
theorem Traced.of_payoutRound (h : Traced (PerformsAt s t) (payoutRound decode) trace result) :
    ∃ w w' claimed rest, trace = ⟨w, .claimPayout, .ok claimed, w'⟩ :: rest ∧
      PerformsAt s t .claimPayout w (.ok claimed) w' ∧
      (claimed = none → rest = []) ∧
      ∀ k row, claimed = some (k, row) → ∃ middle w₁ w₂,
        rest = middle ++ [⟨w₁, .releasePayout k row, .ok (), w₂⟩] ∧
        (∀ await ∈ middle, Owns k row.id row.claim await.op ∧
          Performs await.op await.before await.outcome await.after) ∧
        ∃ env : Env, env.now = t ∧ w₂ = { w₁ with
          ledger := releasePayout env k row w₁.ledger } := by
  unfold payoutRound at h
  cases h with
  | @call op next w w' outcome trace result does rest =>
    have hclaim := does
    obtain ⟨env, -, -, -, rfl, -⟩ := does
    refine ⟨w, w', _, trace, rfl, hclaim, fun hnone => ?_, fun k row hsome => ?_⟩
    · rw [hnone] at rest
      exact (Traced.of_pure rest).1
    · rw [hsome] at rest
      obtain ⟨ended, middle, last, hwork, hclean, rfl⟩ := Traced.of_anyway rest
      have hwithin : Keeping k row.id row.claim
          (Task.handle (do
            processPayout decode k row
            await (.notify row.arenaId)) fun _ => return ()) fun _ => True := by
        apply Task.Within.handle
        · exact Task.Within.bind (keeping_processPayout ⟨rfl, rfl⟩)
            fun _ _ => keeping_await trivial
        · exact fun _ => .pure trivial
      have howns := hwork.within hwithin fun _ _ _ _ hdoes => hdoes.performs.may
      have hdoes := hwork.does
      cases hclean with
      | @call _ _ w₁ w₂ _ last _ does rest =>
        obtain ⟨env', hnow, rfl, hw₂⟩ := does
        cases rest
        exact ⟨middle, w₁, w₂, rfl,
          fun a ha => ⟨howns a ha, (hdoes a ha).performs⟩, env', hnow, hw₂⟩

end

/-! ## The queue -/

theorem mem_ready {σ : Ledger} {t : Int} {k : Outbox} {row : Payout} :
    (k, row) ∈ σ.ready t ↔ row ∈ σ.outbox k ∧ row.status.due = true ∧ row.nextAttempt ≤ t ∧
      row.claimedUntil ≤ t := by
  have hin : ∀ k', (k, row) ∈ σ.readyIn t k' ↔ k' = k ∧ row ∈ σ.outbox k ∧ row.status.due = true ∧
      row.nextAttempt ≤ t ∧ row.claimedUntil ≤ t := by
    intro k'
    simp only [readyIn, List.mem_map, Table.mem_select, Bool.and_eq_true, decide_eq_true_eq,
      Prod.mk.injEq]
    constructor
    · rintro ⟨p, ⟨hp, ⟨hdue, hnext⟩, huntil⟩, rfl, rfl⟩
      exact ⟨rfl, hp, hdue, hnext, huntil⟩
    · rintro ⟨rfl, hp, hdue, hnext, huntil⟩
      exact ⟨row, ⟨hp, ⟨hdue, hnext⟩, huntil⟩, rfl, rfl⟩
  simp only [ready, List.mem_append, hin]
  cases k <;> simp

/-- The row with this key is there, and not due at the clock `t`. -/
def Passed (t : Int) (σ : Ledger) (key : Outbox × Uid) : Prop :=
  ∃ row ∈ σ.outbox key.1, row.id = key.2 ∧ (row.status.due = false ∨ t < row.nextAttempt)

theorem Passed.not_ready {t : Int} {σ : Ledger} {key : Outbox × Uid} (h : Passed t σ key)
    {row : Payout} (hready : (key.1, row) ∈ σ.ready t) : row.id ≠ key.2 := by
  intro hid
  obtain ⟨row', hrow', hid', hpassed⟩ := h
  obtain ⟨hrow, hdue, hnext, -⟩ := mem_ready.mp hready
  obtain rfl := row_inj hrow hrow' (hid.trans hid'.symm)
  rcases hpassed with hover | hlater
  · rw [hdue] at hover
    cases hover
  · omega

section

variable (env : Env) (k : Outbox) (row : Payout) (σ : Ledger)

theorem rewrites_release :
    Rewrites k row.id (released env row.claim) σ (releasePayout env k row σ) := by
  rw [releasePayout_eq]
  exact Rewrites.updateKey σ k row.id (keepsKey_released env row.claim) fun _ _ hclaim => hclaim

/-- A row that is given back is unclaimed, and over or not due any more. -/
theorem release_passes {stored : Payout} (hstored : stored ∈ σ.outbox k)
    (hid : stored.id = row.id)
    (hclaim : stored.claim = row.claim) :
    ∃ stored' ∈ (releasePayout env k row σ).outbox k, stored'.id = row.id ∧
      stored'.claimedUntil = 0 ∧ (stored'.status.due = false ∨
        env.now < stored'.nextAttempt) := by
  refine ⟨_, (rewrites_release env k row σ).written stored hstored hid, ?_⟩
  unfold released
  rw [if_pos hclaim]
  refine ⟨hid, rfl, ?_⟩
  by_cases hdue : stored.status.due = true
  · right
    simp only [hdue, Bool.true_and, decide_eq_true_eq]
    split_ifs <;> omega
  · left
    simpa using hdue

/-- The last update of a round writes no status and no invoice, and no row
that carries another claim. -/
theorem release_keeps {k' : Outbox} {r : Payout} (hr : r ∈ σ.outbox k') :
    ∃ r' ∈ (releasePayout env k row σ).outbox k', r'.id = r.id ∧ r'.status = r.status ∧
      r'.bolt11 = r.bolt11 ∧ r'.paymentHash = r.paymentHash ∧
      (¬(k' = k ∧ r.id = row.id ∧ r.claim = row.claim) → r' = r) := by
  by_cases hmine : k' = k ∧ r.id = row.id
  · obtain ⟨rfl, hid⟩ := hmine
    obtain ⟨hid', -, hstatus, hbolt11, hhash⟩ := released_keeps env row.claim r
    refine ⟨_, (rewrites_release env k' row σ).written r hr hid,
      hid', hstatus, hbolt11, hhash, ?_⟩
    intro hother
    unfold released
    rw [if_neg fun hclaim => hother ⟨rfl, hid, hclaim⟩]
  · exact ⟨r, (rewrites_release env k row σ).kept k' r hr hmine, rfl, rfl, rfl, rfl, fun _ => rfl⟩

end

/-! ## What a round leaves -/

/-- The claimed row still carries the claim, and the other rows are what they
were. -/
structure Framed (k : Outbox) (id claim : Uid) (σ σ' : Ledger) : Prop where
  mine : ∃ stored ∈ σ'.outbox k, stored.id = id ∧ stored.claim = claim
  others : ∀ k', ∀ r ∈ σ.outbox k', ¬(k' = k ∧ r.id = id) → r ∈ σ'.outbox k'

theorem Framed.rewrites {k : Outbox} {id claim : Uid} {f : Payout → Payout} {σ σ' σ'' : Ledger}
    (h : Framed k id claim σ σ') (hr : Rewrites k id f σ' σ'')
    (hf : ∀ row, (f row).claim = row.claim) : Framed k id claim σ σ'' where
  mine := by
    obtain ⟨stored, hstored, hid, hclaim⟩ := h.mine
    exact ⟨f stored, hr.written stored hstored hid, (hr.key stored).trans hid,
      (hf stored).trans hclaim⟩
  others := fun k' r hr' hne => hr.kept k' r (h.others k' r hr' hne) hne

theorem outside_kept {w w' : World} (h : Outside w w') {k : Outbox} {r : Payout}
    (hr : r ∈ w.ledger.outbox k) : r ∈ w'.ledger.outbox k := by
  obtain ⟨env, a, σ, hgame, hfresh, hrun, rfl⟩ := h
  exact (perform_grows hgame hfresh hrun).kept k r hr

theorem Framed.outside {k : Outbox} {id claim : Uid} {σ : Ledger} {w w' : World}
    (h : Framed k id claim σ w.ledger) (hout : Outside w w') : Framed k id claim σ w'.ledger where
  mine := by
    obtain ⟨stored, hstored, hrest⟩ := h.mine
    exact ⟨stored, outside_kept hout hstored, hrest⟩
  others := fun k' r hr hne => outside_kept hout (h.others k' r hr hne)

theorem Framed.performs {k : Outbox} {id claim : Uid} {σ : Ledger} {op : Op} {w w' : World}
    {outcome : Except (Raised Fault) op.Ans} (h : Framed k id claim σ w.ledger)
    (howns : Owns k id claim op) (hdoes : Performs op w outcome w') :
    Framed k id claim σ w'.ledger := by
  obtain ⟨result, heffect, -⟩ | ⟨rfl, -⟩ := hdoes
  · cases op with
    | claimPayout => exact absurd howns not_false
    | releasePayout k row => exact absurd howns not_false
    | updatePayout k' row status values =>
      obtain ⟨rfl, rfl, -⟩ := howns
      obtain ⟨env, ⟨row', σ', hrun, -, rfl⟩ | ⟨e, -, -, rfl⟩⟩ := heffect
      · obtain ⟨-, claims, stored, hreserved, -, -, -, hσ'⟩ := updatePayout_ok hrun
        have hr : Rewrites k' row.id (written env row') w.ledger σ' := by
          rw [hσ']
          exact Rewrites.updateKey (f := written env row') w.ledger k' row.id (fun _ => rfl)
            hreserved.extends
        exact h.rewrites hr fun _ => rfl
      · exact h
    | payInvoice k' claim' arguments =>
      obtain ⟨-, rfl⟩ := heffect
      exact h
    | _ =>
      have heq : w' = w := heffect
      rw [heq]
      exact h
  · exact h

/-! ## The order of the queue -/

/-- `readyBefore`, as a rank. -/
def readyRank (c : Outbox × Payout) : Lex (Int × Lex (Int × Uid)) :=
  toLex (c.2.nextAttempt, toLex (c.2.createdAt, c.2.id))

theorem readyBefore_iff (c d : Outbox × Payout) :
    readyBefore c d = true ↔ readyRank c < readyRank d := by
  simp only [readyRank, readyBefore, Prod.Lex.toLex_lt_toLex, Bool.or_eq_true, Bool.and_eq_true,
    decide_eq_true_eq]

/-- The row is due, and no other row that is due goes before it. -/
def Chosen (t : Int) (σ : Ledger) (c : Outbox × Payout) : Prop :=
  ∃ stored, (c.1, stored) ∈ σ.ready t ∧ stored.id = c.2.id ∧
    ∀ d ∈ σ.ready t, readyBefore d (c.1, stored) = false

/-- A claim takes the first row that is due. -/
theorem claim_first (env : Env) (σ : Ledger) :
    ((claimPayout env σ).1 = none → σ.ready env.now = []) ∧
    ∀ k row, (claimPayout env σ).1 = some (k, row) → Chosen env.now σ (k, row) ∧
      row.claim = env.uid 0 ∧
      Rewrites k row.id (Ledger.leased env) σ (claimPayout env σ).2 := by
  cases hfirst : Table.first readyBefore (σ.ready env.now) with
  | none =>
    have hclaim : claimPayout env σ = (none, σ) := by
      unfold claimPayout
      rw [hfirst]
    rw [hclaim]
    exact ⟨fun _ => Table.first_eq_none.mp hfirst, fun k row hsome => by cases hsome⟩
  | some c =>
    obtain ⟨k, stored⟩ := c
    have hclaim : claimPayout env σ = (some (k, Ledger.leased env stored),
        σ.setOutbox k ((σ.outbox k).updateKey stored.id (Ledger.leased env) (fun _ => rfl))) := by
      unfold claimPayout
      rw [hfirst]
      rfl
    rw [hclaim]
    refine ⟨fun hnone => absurd hnone (by simp), fun k' row hsome => ?_⟩
    rw [Option.some.injEq, Prod.mk.injEq] at hsome
    obtain ⟨rfl, rfl⟩ := hsome
    have hle := Table.rank_first_le readyBefore_iff hfirst
    refine ⟨⟨stored, Table.first_mem hfirst, rfl, fun d hd => ?_⟩, rfl, ?_⟩
    · rw [← Bool.not_eq_true, readyBefore_iff, not_lt]
      exact hle d hd
    · exact Rewrites.updateKey (f := Ledger.leased env) σ k stored.id (fun _ => rfl)
        fun _ _ hclaim => hclaim

theorem nodup_ready (σ : Ledger) (t : Int) :
    ((σ.ready t).map fun c => (c.1, c.2.id)).Nodup := by
  have hin : ∀ k, ((σ.readyIn t k).map fun c => (c.1, c.2.id)).Nodup := by
    intro k
    have hids : (((σ.outbox k).select fun p => p.status.due && p.nextAttempt ≤ t
        && p.claimedUntil ≤ t).map Payout.id).Nodup :=
      ((σ.outbox k).nodup).sublist (List.filter_sublist.map _)
    rw [readyIn, List.map_map]
    have hpair := hids.map (f := fun id => (k, id)) fun _ _ heq => (Prod.mk.inj heq).2
    rw [List.map_map] at hpair
    exact hpair
  have hfst : ∀ k, ∀ key ∈ (σ.readyIn t k).map (fun c => (c.1, c.2.id)), key.1 = k := by
    intro k key hkey
    obtain ⟨c, hc, rfl⟩ := List.mem_map.mp hkey
    obtain ⟨p, -, rfl⟩ := List.mem_map.mp hc
    rfl
  have hapart : ∀ k k', k ≠ k' → ∀ key ∈ (σ.readyIn t k).map (fun c => (c.1, c.2.id)),
      ∀ key' ∈ (σ.readyIn t k').map (fun c => (c.1, c.2.id)), key ≠ key' := by
    intro k k' hne key hkey key' hkey' heq
    rw [← hfst k key hkey, ← hfst k' key' hkey', heq] at hne
    exact hne rfl
  unfold ready
  rw [List.map_append, List.map_append, List.nodup_append, List.nodup_append]
  refine ⟨⟨hin _, hin _, hapart _ _ (by decide)⟩, hin _, ?_⟩
  intro key hkey key' hkey'
  rcases List.mem_append.mp hkey with hkey | hkey
  · exact hapart _ _ (by decide) key hkey key' hkey'
  · exact hapart _ _ (by decide) key hkey key' hkey'

/-! ## Rounds of one worker -/

/-- A round, by the ledger that its claim finds and what it claims. -/
structure Turn where
  ledger : Ledger
  claimed : Option (Outbox × Payout)

def Turn.key (turn : Turn) : Option (Outbox × Uid) := turn.claimed.map fun c => (c.1, c.2.id)

/-- One worker goes through these rounds at the clock `t`, while the rest of
the extension goes on. -/
inductive Rounds (decode : String → Option Invoice) (t : Int) : World → List Turn → World → Prop
  | nil (w : World) : Rounds decode t w [] w
  | cons {w before after w' w'' : World} {claimed : Option (Outbox × Payout)}
      {rest : List Awaited} {result : Except (Raised Fault) Unit} {turns : List Turn}
      (round : Traced (PerformsAt t t) (payoutRound decode)
        (⟨before, .claimPayout, .ok claimed, after⟩ :: rest) result)
      (trail : Trail Outside w (⟨before, .claimPayout, .ok claimed, after⟩ :: rest) w')
      (more : Rounds decode t w' turns w'') :
      Rounds decode t w (⟨before.ledger, claimed⟩ :: turns) w''

/-- A round claims the first row that is due, if there is one, and leaves it
passed and the other rows as they were. -/
theorem round_spec {t : Int} {w before after w' : World} {claimed : Option (Outbox × Payout)}
    {rest : List Awaited} {result : Except (Raised Fault) Unit}
    (round : Traced (PerformsAt t t) (payoutRound decode)
      (⟨before, .claimPayout, .ok claimed, after⟩ :: rest) result)
    (trail : Trail Outside w (⟨before, .claimPayout, .ok claimed, after⟩ :: rest) w') :
    (∀ k, ∀ r ∈ w.ledger.outbox k, r ∈ before.ledger.outbox k) ∧
    (claimed = none → before.ledger.ready t = []) ∧
    ∀ k row, claimed = some (k, row) → Chosen t before.ledger (k, row) ∧
      Passed t w'.ledger (k, row.id) ∧
      ∀ k', ∀ r ∈ w.ledger.outbox k', ¬(k' = k ∧ r.id = row.id) → r ∈ w'.ledger.outbox k' := by
  obtain ⟨w₁, w₁', claimed', rest', heq, ⟨env, hnow, -, -, hclaimed, hafter⟩, -, hsome⟩ :=
    Traced.of_payoutRound round
  obtain ⟨hfirst, rfl⟩ := List.cons.inj heq
  cases hfirst
  cases hclaimed
  subst hnow
  have hbefore : ∀ k, ∀ r ∈ w.ledger.outbox k, r ∈ before.ledger.outbox k := fun k r hr =>
    keeps_of_steps (I := fun w => r ∈ w.ledger.outbox k) (fun _ _ hr hout => outside_kept hout hr)
      trail.1 hr
  have hqueue := claim_first env before.ledger
  refine ⟨hbefore, hqueue.1, fun k row hclaimed => ?_⟩
  obtain ⟨hchosen, hclaim, hleased⟩ := hqueue.2 k row hclaimed
  obtain ⟨middle, w₁, w₂, rfl, howns, env', hnow', hw₂⟩ := hsome k row hclaimed
  refine ⟨hchosen, ?_⟩
  obtain ⟨stored, hstored, hid, -⟩ := hchosen
  -- The claim, the work and the rest of the extension leave the row to the worker.
  have hstart : Framed k row.id row.claim before.ledger after.ledger := by
    rw [hafter]
    exact ⟨⟨_, hleased.written stored (mem_ready.mp hstored).1 hid, hid, hclaim.symm⟩,
      fun k' r hr hne => hleased.kept k' r hr hne⟩
  obtain ⟨between, hmiddle, hlast⟩ := Trail.of_append trail.2
  have hframed : Framed k row.id row.claim before.ledger between.ledger :=
    hmiddle.keeps (I := fun w => Framed k row.id row.claim before.ledger w.ledger)
      (fun _ _ hI hout => hI.outside hout)
      (fun a ha hI => hI.performs (howns a ha).1 (howns a ha).2) hstart
  have hframed₁ : Framed k row.id row.claim before.ledger w₁.ledger :=
    keeps_of_steps (I := fun w => Framed k row.id row.claim before.ledger w.ledger)
      (fun _ _ hI hout => hI.outside hout) hlast.1 hframed
  have hend : ∀ k', ∀ r ∈ w₂.ledger.outbox k', r ∈ w'.ledger.outbox k' := fun k' r hr =>
    keeps_of_steps (I := fun w => r ∈ w.ledger.outbox k')
      (fun _ _ hr hout => outside_kept hout hr)
      hlast.2 hr
  obtain ⟨held, hheld, hheldId, hheldClaim⟩ := hframed₁.mine
  obtain ⟨given, hgiven, hgivenId, -, hpassed⟩ :=
    release_passes env' k row w₁.ledger hheld hheldId hheldClaim
  constructor
  · rw [hnow'] at hpassed
    refine ⟨given, hend k given ?_, hgivenId, hpassed⟩
    rw [hw₂]
    exact hgiven
  · intro k' r hr hne
    apply hend
    rw [hw₂]
    exact (rewrites_release env' k row w₁.ledger).kept k' r
      (hframed₁.others k' r (hbefore k' r hr) hne) hne

/-- While enough rows are due, every round claims one, and never the same
twice. -/
theorem Rounds.distinct {t : Int} {w w' : World} {turns : List Turn}
    (h : Rounds decode t w turns w') {due : List (Outbox × Uid)} (hnodup : due.Nodup)
    (hdue : ∀ key ∈ due, ∃ row, (key.1, row) ∈ w.ledger.ready t ∧ row.id = key.2)
    (hle : turns.length ≤ due.length) :
    ∃ keys : List (Outbox × Uid), turns.map Turn.key = keys.map some ∧ keys.Nodup ∧
      (∀ key, Passed t w.ledger key → key ∉ keys) ∧
      ∀ turn ∈ turns, ∃ c, turn.claimed = some c ∧ Chosen t turn.ledger c := by
  induction h generalizing due with
  | nil w =>
    exact ⟨[], rfl, List.nodup_nil, fun _ _ => List.not_mem_nil,
      fun _ h => absurd h List.not_mem_nil⟩
  | @cons w before after w' w'' claimed rest result turns round trail more ih =>
    obtain ⟨hbefore, hnone, hsome⟩ := round_spec round trail
    -- A row that waits still waits when the round claims.
    have hready : ∀ k r, (k, r) ∈ w.ledger.ready t → (k, r) ∈ before.ledger.ready t :=
      fun k r hr => mem_ready.mpr ⟨hbefore k r (mem_ready.mp hr).1, (mem_ready.mp hr).2⟩
    cases claimed with
    | none =>
      exfalso
      cases due with
      | nil => exact absurd hle (by simp)
      | cons key due =>
        obtain ⟨r, hr, -⟩ := hdue key List.mem_cons_self
        have hmem := hready key.1 r hr
        rw [hnone rfl] at hmem
        exact absurd hmem List.not_mem_nil
    | some c =>
      obtain ⟨k, row⟩ := c
      obtain ⟨hchosen, hpassed, hothers⟩ := hsome k row rfl
      have hne : ∀ key : Outbox × Uid, key ≠ (k, row.id) → ∀ r, r.id = key.2 →
          r ∈ w.ledger.outbox key.1 → r ∈ w'.ledger.outbox key.1 := by
        intro key hkey r hid hr
        apply hothers key.1 r hr
        rintro ⟨hk, hid'⟩
        exact hkey (Prod.ext hk (hid.symm.trans hid'))
      obtain ⟨keys, hkeys, hdistinct, hfree, hall⟩ := ih (hnodup.erase (k, row.id))
        (by
          intro key hkey
          have hkey' : key ≠ (k, row.id) := fun heq => hnodup.not_mem_erase (heq ▸ hkey)
          obtain ⟨r, hr, hid⟩ := hdue key (List.mem_of_mem_erase hkey)
          obtain ⟨hmem, hrest⟩ := mem_ready.mp hr
          exact ⟨r, mem_ready.mpr ⟨hne key hkey' r hid hmem, hrest⟩, hid⟩)
        (by
          have hlength : due.length - 1 ≤ (due.erase (k, row.id)).length := List.le_length_erase
          rw [List.length_cons] at hle
          omega)
      refine ⟨(k, row.id) :: keys, ?_, List.nodup_cons.mpr ⟨hfree _ hpassed, hdistinct⟩, ?_, ?_⟩
      · rw [List.map_cons, List.map_cons, hkeys]
        rfl
      · intro key hkey hmem
        obtain ⟨r, hr, hid, hover⟩ := hkey
        by_cases heq : key = (k, row.id)
        · obtain ⟨stored, hstored, hid', -⟩ := hchosen
          have hbefore' : Passed t before.ledger key := ⟨r, hbefore key.1 r hr, hid, hover⟩
          rw [heq] at hbefore'
          exact hbefore'.not_ready hstored hid'
        · rcases List.mem_cons.mp hmem with hmem | hmem
          · exact heq hmem
          · exact hfree key ⟨r, hne key heq r hid hr, hid, hover⟩ hmem
      · intro turn hturn
        rcases List.mem_cons.mp hturn with rfl | hturn
        · exact ⟨(k, row), rfl, hchosen⟩
        · exact hall turn hturn

/-! ## The law -/

/-- A stuck payout does not block the others.  At one clock, as many rounds of
a worker as rows are due claim as many distinct rows, each the first of those
that are due.  However the work on a row ends, the last update of its round
leaves the row unclaimed, and over or not due any more, if it still carries
the claim, and writes no status, no invoice and no row with another claim. -/
theorem payouts_take_turns (decode : String → Option Invoice) {t : Int} {w w' : World}
    {turns : List Turn} (h : Rounds decode t w turns w')
    (hle : turns.length ≤ (w.ledger.ready t).length) :
    (∃ keys : List (Outbox × Uid), turns.map Turn.key = keys.map some ∧ keys.Nodup) ∧
    (∀ turn ∈ turns, ∃ c, turn.claimed = some c ∧ Chosen t turn.ledger c) ∧
    ∀ (s u : Int) (trace : List Awaited) (result : Except (Raised Fault) Unit),
      Traced (PerformsAt s u) (payoutRound decode) trace result →
      ∀ first after k row rest,
        trace = ⟨first, .claimPayout, .ok (some (k, row)), after⟩ :: rest →
        ∃ middle before last, rest = middle ++ [⟨before, .releasePayout k row, .ok (), last⟩] ∧
          (∀ stored ∈ before.ledger.outbox k, stored.id = row.id → stored.claim = row.claim →
            ∃ stored' ∈ last.ledger.outbox k, stored'.id = row.id ∧ stored'.claimedUntil = 0 ∧
              (stored'.status.due = false ∨ u < stored'.nextAttempt)) ∧
          ∀ k', ∀ r ∈ before.ledger.outbox k', ∃ r' ∈ last.ledger.outbox k', r'.id = r.id ∧
            r'.status = r.status ∧ r'.bolt11 = r.bolt11 ∧ r'.paymentHash = r.paymentHash ∧
            (¬(k' = k ∧ r.id = row.id ∧ r.claim = row.claim) → r' = r) := by
  have hlength : turns.length ≤ ((w.ledger.ready t).map fun c => (c.1, c.2.id)).length := by
    rw [List.length_map]
    exact hle
  have hdue : ∀ key ∈ (w.ledger.ready t).map (fun c => (c.1, c.2.id)),
      ∃ row, (key.1, row) ∈ w.ledger.ready t ∧ row.id = key.2 := by
    intro key hkey
    obtain ⟨c, hc, rfl⟩ := List.mem_map.mp hkey
    exact ⟨c.2, hc, rfl⟩
  obtain ⟨keys, hkeys, hnodup, -, hall⟩ := h.distinct (nodup_ready w.ledger t) hdue hlength
  refine ⟨⟨keys, hkeys, hnodup⟩, hall, ?_⟩
  intro s u trace result hround first after k row rest htrace
  obtain ⟨_, _, _, _, heq, -, -, hsome⟩ := Traced.of_payoutRound hround
  rw [htrace] at heq
  obtain ⟨hfirst, rfl⟩ := List.cons.inj heq
  cases hfirst
  obtain ⟨middle, before, last, hrest, -, env, rfl, hlast⟩ := hsome k row rfl
  refine ⟨middle, before, last, hrest, ?_, ?_⟩
  · intro stored hstored hid hclaim
    rw [hlast]
    exact release_passes env k row before.ledger hstored hid hclaim
  · intro k' r hr
    rw [hlast]
    exact release_keeps env k row before.ledger hr

namespace Kill

open Duel

/-- What the worker draws for its second round, at the clock of the first. -/
def second : Env :=
  { tick 21 with
    now := 1020 }

/-- The world after a round that claims this row and gives it back. -/
def stuckAt (env : Env) (k : Outbox) (row : Payout) (w : World) : World :=
  { w with
    ledger := releasePayout env k row (claimPayout env w.ledger).2
    tokens := env.uid 0 :: w.tokens }

/-- The worker has been stuck on the row of the kill. -/
def returned : World := stuckAt (tick 20) .payouts claimed world

/-- The row of the refund, as the second round claims it. -/
def refunded : Payout :=
  ((claimPayout second returned.ledger).1.map Prod.snd).getD claimed

/-- The worker has been stuck on both rows. -/
def exhausted : World := stuckAt second .refundPayouts refunded returned

theorem stuck_evaluates : (world.ledger.ready 1020).length = 2
    ∧ (claimPayout second returned.ledger).1 = some (.refundPayouts, refunded)
    ∧ refunded.status = .queued ∧ second.uid 0 ∉ returned.tokens ∧ second.uid 0 ≠ ""
    ∧ (∃ row ∈ (claimPayout (tick 20) world.ledger).2.outbox .payouts,
        row.id = claimed.id ∧ row.claim = claimed.claim) := by
  decide +kernel

/-- The awaits of a round that is cancelled while it asks for an invoice. -/
def stuck (env : Env) (k : Outbox) (row : Payout) (w : World) : List Awaited :=
  let leased : World :=
    { w with
      ledger := (claimPayout env w.ledger).2
      tokens := env.uid 0 :: w.tokens }
  [⟨w, .claimPayout, .ok (some (k, row)), leased⟩,
    ⟨leased, .getPrFromLnurl row.lnAddress (row.amount * 1000), .error .cancelled, leased⟩,
    ⟨leased, .releasePayout k row, .ok (), stuckAt env k row w⟩]

theorem traced_stuck {env : Env} {k : Outbox} {row : Payout} {w : World} (hnow : env.now = 1020)
    (hne : env.uid 0 ≠ "") (hfresh : env.uid 0 ∉ w.tokens)
    (hclaim : (claimPayout env w.ledger).1 = some (k, row)) (hqueued : row.status = .queued) :
    Traced (PerformsAt 1020 1020) (payoutRound provider) (stuck env k row w)
      (.error .cancelled) := by
  refine .call ⟨env, hnow, hne, hfresh, congrArg _ hclaim.symm, rfl⟩ ?_
  show Traced (PerformsAt 1020 1020) (Task.anyway (Task.handle (do
      processPayout provider k row
      await (.notify row.arenaId)) fun _ => return ())
    (Task.handle (await (.releasePayout k row)) fun _ => return ())) _ _
  unfold processPayout
  rw [if_pos hqueued]
  exact .call (cancelled _ _).1 (.call ⟨env, hnow, rfl, rfl⟩ (.done _))

theorem traced_kill : Traced (PerformsAt 1020 1020) (payoutRound provider)
    (stuck (tick 20) .payouts claimed world) (.error .cancelled) :=
  traced_stuck rfl (by decide) List.not_mem_nil kill_evaluates.2.1 rfl

/-- The worker is cancelled in both rounds. -/
theorem rounds_stuck : Rounds provider 1020 world
    [⟨world.ledger, some (.payouts, claimed)⟩, ⟨returned.ledger, some (.refundPayouts, refunded)⟩]
    exhausted := by
  obtain ⟨-, hclaim, hqueued, hfresh, hne, -⟩ := stuck_evaluates
  have hrefund : Traced (PerformsAt 1020 1020) (payoutRound provider)
      (stuck second .refundPayouts refunded returned) (.error .cancelled) :=
    traced_stuck rfl hne hfresh hclaim hqueued
  have htrail : ∀ env k row w, Trail Outside w (stuck env k row w) (stuckAt env k row w) :=
    fun _ _ _ _ => ⟨.refl, .refl, .refl, .refl⟩
  exact .cons traced_kill (htrail _ _ _ _) (.cons hrefund (htrail _ _ _ _) (.nil exhausted))

end Kill

open Kill in
/-- The worker turns from the kill to the refund, though it has not paid the
kill, and has given the row of the kill back. -/
theorem payouts_take_turns_kill :
    Chosen 1020 world.ledger (.payouts, claimed) ∧
    Chosen 1020 returned.ledger (.refundPayouts, refunded) ∧
    (∃ keys : List (Outbox × Uid),
      keys.map some = [some (.payouts, claimed.id), some (.refundPayouts, refunded.id)] ∧
        keys.Nodup) ∧
    ∃ row ∈ returned.ledger.outbox .payouts, row.id = claimed.id ∧ row.claimedUntil = 0 ∧
      (row.status.due = false ∨ 1020 < row.nextAttempt) := by
  obtain ⟨hready, -, -, -, -, stored, hstored, hid, hclaim⟩ := stuck_evaluates
  obtain ⟨⟨keys, hkeys, hnodup⟩, hchosen, hlast⟩ :=
    payouts_take_turns provider rounds_stuck (Nat.le_of_eq hready.symm)
  have hall : ∀ σ c, ⟨σ, some c⟩ ∈ [(⟨world.ledger, some (.payouts, claimed)⟩ : Turn),
      ⟨returned.ledger, some (.refundPayouts, refunded)⟩] → Chosen 1020 σ c := by
    intro σ c hturn
    obtain ⟨c', hc, hthis⟩ := hchosen ⟨σ, some c⟩ hturn
    rw [show c = c' from Option.some.inj hc]
    exact hthis
  refine ⟨hall _ _ List.mem_cons_self, hall _ _ (List.mem_cons_of_mem _ List.mem_cons_self),
    ⟨keys, hkeys.symm, hnodup⟩, ?_⟩
  have hback : ∀ env k row w, Traced (PerformsAt 1020 1020) (payoutRound provider)
      (stuck env k row w) (.error .cancelled) →
      ∀ stored ∈ (claimPayout env w.ledger).2.outbox k, stored.id = row.id →
        stored.claim = row.claim → ∃ stored' ∈ (stuckAt env k row w).ledger.outbox k,
          stored'.id = row.id ∧ stored'.claimedUntil = 0 ∧
            (stored'.status.due = false ∨ 1020 < stored'.nextAttempt) := by
    intro env k row w hround
    obtain ⟨middle, before, last, hmiddle, hgiven, -⟩ :=
      hlast 1020 1020 _ _ hround w _ k row _ rfl
    obtain ⟨rfl, hend⟩ := @List.append_inj' _ [_] _ _ _ hmiddle rfl
    cases hend
    exact hgiven
  exact hback (Duel.tick 20) .payouts claimed world traced_kill stored hstored hid hclaim

end QuakeJs.Payments
