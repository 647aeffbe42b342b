import QuakeJs.Entries.Reservations
import QuakeJs.Ledger.Closure

/-!
# The closure of an arena

`create_entry` reads the arena last of all, so a call that was suspended while
the owner closed the arena finds it shut.  `Standing` says where a request is:
it has ended, it has not read the arena yet, or it has read that the arena is
active.
-/

namespace QuakeJs.Entries

open Async

/-- What `create_entry` does once it has read that the arena is active. -/
def Op.afterRead : Op → Bool
  | .readLeaveState _ | .respond .. => true
  | _ => false

/-- The operations that lead to a result for this arena. -/
def Behind (arenaId : Uid) (op : Op) : Prop :=
  (∃ playerId, op = .readLeaveState playerId) ∨ ∃ shown, op = .respond arenaId shown

/-- The arena was read, and it was active. -/
def Passes (arenaId : Uid) (answer : Answer Op Op.Ans Fault) : Prop :=
  answer = ⟨.readActive arenaId, .ok (some true)⟩

/-- The task has yet to read the arena. -/
abbrev Unread (arenaId : Uid) {α : Type} (task : Coroutine α) : Prop :=
  task.Gated (fun op => op.afterRead = false) (Behind arenaId) (Passes arenaId)

/-! ## `create_entry` -/

/-- The task does not read the arena. -/
abbrev Before {α : Type} (task : Coroutine α) : Prop := task.Only fun op => op.afterRead = false

theorem before_await {op : Op} (h : op.afterRead = false) : Before (await op) :=
  ⟨h, fun _ => trivial⟩

theorem behind_await {arenaId : Uid} {op : Op} (h : Behind arenaId op) :
    (await op).Only (Behind arenaId) :=
  ⟨h, fun _ => trivial⟩

theorem fetchInvoice_before (entry : Entry) : Before (fetchInvoice entry) := by
  refine .bind (before_await rfl) fun _ => ?_
  refine .bind (before_await rfl) fun payment => ?_
  exact .bind (before_await rfl) fun _ => before_await rfl

theorem prepareEntry_before (entry : Entry) (new : Bool) : Before (prepareEntry entry new) := by
  cases new with
  | false => trivial
  | true =>
    refine .bind (.handle (fetchInvoice_before entry) fun _ => trivial) fun _ => ?_
    refine .bind (before_await rfl) fun again => ?_
    cases again <;> trivial

theorem showInvoice_unread (arenaId token : String) (entry : Entry) :
    Unread arenaId (showInvoice arenaId token entry) := by
  refine Task.Only.gated (before_await rfl) fun time => ?_
  split
  · exact ⟨_, rfl⟩
  split
  · exact ⟨_, rfl⟩
  refine Task.gated_perform rfl fun active => ?_
  split
  · exact .inr ⟨_, rfl⟩
  · rename_i hactive
    obtain rfl : active = some true := not_not.mp hactive
    refine .inl ⟨rfl, .bind (behind_await (.inl ⟨_, rfl⟩)) fun state => ?_⟩
    cases state with
    | none => trivial
    | some state =>
      dsimp only
      split <;> trivial

theorem request_unread (arenaId token : String) (data : EntryInput) :
    Unread arenaId (request arenaId token data) := by
  have hcreate : Unread arenaId (createEntry arenaId token data) := by
    refine Task.Only.gated (before_await rfl) fun r => ?_
    exact Task.Only.gated (prepareEntry_before r.1 r.2) fun entry =>
      showInvoice_unread arenaId token entry
  exact hcreate.bind fun shown => behind_await (.inr ⟨shown, rfl⟩)

/-! ## Requests at work -/

/-- A request has ended, has yet to read its arena, or has read an arena that
is one of `passed`. -/
inductive Standing (passed : Uid → Prop) (task : Coroutine Unit) : Prop
  | ended (result : Except (Raised Fault) Unit) (eq : task = .done result)
  | unread (arenaId : Uid) (gated : Unread arenaId task)
  | behind (arenaId : Uid) (was : passed arenaId) (only : task.Only (Behind arenaId))

section

variable {sha256 : String → String} {moves : Int → Int → Prop} {passed : Uid → Prop}

/-- The arena that a request reads as active is active then. -/
theorem readActive_active {arenaId : Uid} {w w' : World}
    (h : Performs sha256 moves (.readActive arenaId) w (.ok (some true)) w') :
    (w.ledger.arenas.get? arenaId).map Arena.active = some true := by
  obtain ⟨result, ⟨rfl, -⟩, houtcome | ⟨_, hraised⟩⟩ | ⟨-, _, hraised⟩ := h
  · cases hmap : (w.ledger.arenas.get? arenaId).map Arena.active with
    | none =>
      rw [hmap] at houtcome
      cases houtcome
    | some active =>
      rw [hmap] at houtcome
      cases houtcome
      rfl
  · cases hraised
  · cases hraised

theorem Standing.step {op : Op} {next : Except (Raised Fault) op.Ans → Coroutine Unit}
    {outcome : Except (Raised Fault) op.Ans} {w w' : World}
    (h : Standing passed (.call op next)) (hdoes : Performs sha256 moves op w outcome w')
    (hactive : ∀ arenaId, (w.ledger.arenas.get? arenaId).map Arena.active = some true →
      passed arenaId) : Standing passed (next outcome) := by
  cases h with
  | ended result eq => cases eq
  | unread arenaId gated =>
    rcases gated.2 outcome with ⟨hpasses, honly⟩ | hgated
    · cases hpasses
      exact .behind arenaId (hactive arenaId (readActive_active hdoes)) honly
    · exact .unread arenaId hgated
  | behind arenaId was only => exact .behind arenaId was (only.2 outcome)

/-- A step of a pool leaves the requests at work standing. -/
theorem standing_step {pool pool' : Pool Op Op.Ans Fault (World × Log)} {i : Nat}
    (hstep : Steps sha256 moves pool pool') (h : Standing passed (pool.tasks i))
    (hactive : ∀ arenaId, (pool.world.1.ledger.arenas.get? arenaId).map Arena.active = some true →
      passed arenaId) : Standing passed (pool'.tasks i) := by
  cases hstep with
  | start j task result idle allowed =>
    obtain ⟨arenaId, token, data, rfl⟩ := allowed
    show Standing passed (Function.update pool.tasks j _ i)
    by_cases hj : i = j
    · rw [hj, Function.update_self]
      exact .unread arenaId (request_unread arenaId token data)
    · rw [Function.update_of_ne hj]
      exact h
  | run j op next outcome x awaits does =>
    show Standing passed (Function.update pool.tasks j _ i)
    by_cases hj : i = j
    · rw [hj, Function.update_self]
      rw [hj, awaits] at h
      exact h.step does.1 hactive
    · rw [Function.update_of_ne hj]
      exact h
  | lose j =>
    show Standing passed (Function.update pool.tasks j _ i)
    by_cases hj : i = j
    · rw [hj, Function.update_self]
      exact .ended _ rfl
    · rw [Function.update_of_ne hj]
      exact h
  | world x does => exact h
  | crash x does => exact .ended _ rfl

theorem standing_of_logs {start : Int} {pool : Pool Op Op.Ans Fault (World × Log)}
    (h : Logs sha256 moves start pool) (i : Nat) : Standing (fun _ => True) (pool.tasks i) := by
  induction h with
  | initial => exact .ended _ rfl
  | step _ hstep ih => exact standing_step hstep ih fun _ _ => trivial

/-- A request that awaits nothing that comes after the read has yet to read. -/
theorem Standing.narrow {task : Coroutine Unit} (h : Standing (fun _ => True) task)
    (hbefore : ∀ op next, task = .call op next → op.afterRead = false) :
      Standing passed task := by
  cases h with
  | ended result eq => exact .ended result eq
  | unread arenaId gated => exact .unread arenaId gated
  | behind arenaId _ only =>
    cases task with
    | done result => exact .ended result rfl
    | call op next =>
      have hnot := hbefore op next rfl
      obtain ⟨_, rfl⟩ | ⟨_, rfl⟩ := only.1
      · cases hnot
      · cases hnot

/-- A request for an arena that was not passed does not respond. -/
theorem Standing.silent {task : Coroutine Unit} (h : Standing passed task) {arenaId : Uid}
    (hnot : ¬passed arenaId) (shown : ShownInvoice)
    (next : Except (Raised Fault) Unit → Coroutine Unit) :
    task ≠ .call (.respond arenaId shown) next := by
  rintro rfl
  cases h with
  | ended result eq => cases eq
  | unread arenaId gated => cases gated.1
  | behind arenaId' was only =>
    obtain ⟨_, heq⟩ | ⟨_, heq⟩ := only.1
    · cases heq
    · cases heq
      exact hnot was

/-- Closure is final.  From `close_game` on the arena is inactive and hidden,
it refuses players, entries and leases, neither its page nor the lobby offers
it, the rows that were there stay for the worker, and a request that has not
yet read the arena returns no invoice.  The clock may move as it likes. -/
theorem closure_final {start : Int} {pool pool' : Pool Op Op.Ans Fault (World × Log)}
    (h : Logs sha256 moves start pool) {arenaId owner : Uid} {env : Env} {σ : Ledger}
    (hclose : perform env (.closeGame arenaId owner) pool.world.1.ledger = .ok σ)
    (hlater : Relation.ReflTransGen (Steps sha256 moves)
      ⟨(pool.world.1.commits env σ, pool.world.2), pool.tasks⟩ pool') :
    (∃ b ∈ pool'.world.1.ledger.arenas, b.id = arenaId ∧
      b.active = false ∧ b.lobbyHidden = true) ∧
    Refuses arenaId pool'.world.1.ledger ∧ Hidden arenaId pool'.world.1.ledger ∧
    (Remains pool.world.1.ledger pool'.world.1.ledger ∧ Claimable pool'.world.1.ledger) ∧
    ∀ i, (∀ op next, pool.tasks i = .call op next → op.afterRead = false) →
      ∀ shown next, pool'.tasks i ≠ .call (.respond arenaId shown) next := by
  have hafter : Shut arenaId pool'.world.1.ledger ∧
      Remains pool.world.1.ledger pool'.world.1.ledger ∧
      ∀ i, (∀ op next, pool.tasks i = .call op next → op.afterRead = false) →
        Standing (· ≠ arenaId) (pool'.tasks i) := by
    induction hlater with
    | refl =>
      exact ⟨closeGame_shut hclose, (Remains.refl _).step hclose,
        fun i hbefore => (standing_of_logs h i).narrow hbefore⟩
    | tail _ hstep ih =>
      obtain ⟨hshut, hrows, hstanding⟩ := ih
      refine ⟨?_, ?_, fun i hbefore => standing_step hstep (hstanding i hbefore) ?_⟩
      · rcases ledger_of_step hstep with hsame | ⟨env, a, -, -, hrun⟩
        · rw [hsame]
          exact hshut
        · exact hshut.step hrun
      · rcases ledger_of_step hstep with hsame | ⟨env, a, -, -, hrun⟩
        · rw [hsame]
          exact hrows
        · exact hrows.step hrun
      · rintro arenaId' hactive rfl
        rw [hshut.inactive] at hactive
        cases hactive
  obtain ⟨hshut, hrows, hstanding⟩ := hafter
  obtain ⟨b, hb, hid, hactive, hhidden, -⟩ := id hshut
  exact ⟨⟨b, hb, hid, hactive, hhidden⟩, hshut.refused, hshut.hidden, ⟨hrows, claimable _⟩,
    fun i hbefore => (hstanding i hbefore).silent fun hne => hne rfl⟩

end

/-! ## A late payment -/

namespace Clicks

open Duel

/-- The owner closes the arena while the wallet makes the invoice, which is
paid all the same. -/
def closed : World := after called (tick 4) (.closeGame arenaId "owner")
def paid : World := after closed (tick 5) (.settleEntry (payment row.id "hash"))

end Clicks

open Clicks Duel in
theorem closure_final_paid : (∃ e ∈ paid.ledger.entries, e.status = .paid) ∧
    ∃ b ∈ paid.ledger.arenas, b.id = arenaId ∧ b.active = false ∧ b.lobbyHidden = true := by
  obtain ⟨log, tasks, h, -⟩ := logs_called
  have hpays : Outside id (· ≤ ·) closed paid :=
    outside_after (runs_of_short (by decide) (by decide)) (by decide)
  have hclose : perform (tick 4) (.closeGame arenaId "owner") called.ledger =
      .ok closed.ledger := perform_commit (by decide)
  have hlater : Relation.ReflTransGen (Steps id (· ≤ ·))
    ⟨(closed, log), tasks⟩ ⟨(paid, log), tasks⟩ :=
    .single (.world (paid, log) ⟨hpays, rfl⟩)
  exact ⟨by decide, (closure_final h hclose hlater).1⟩

end QuakeJs.Entries
