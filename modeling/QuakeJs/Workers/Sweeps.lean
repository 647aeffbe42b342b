import QuakeJs.Async.Trace
import QuakeJs.Data.Keyset
import QuakeJs.Ledger.Lobby
import Mathlib.Data.String.Basic

/-!
# The background sweeps

`reconcile_entries` of `payments.py`, `maintenance` of `lobby.py`, and
`recover_leaves` with `leave_loop` of `server.py` each walk through a table in
pages.  `Sweep.turn` is one round of such a loop, from a cursor to the next
one, and `Loops` any number of them, with anything in between.
-/

namespace QuakeJs.Workers

open Async

inductive Sweep
  /-- `reconcile_entries`. -/
  | entries
  /-- `maintenance`. -/
  | games
  /-- `recover_leaves`. -/
  | leaves
deriving DecidableEq, Repr

namespace Sweep

/-- The columns that a sweep selects. -/
abbrev Row : Sweep → Type
  | entries => Entry
  | games => Uid
  | leaves => Participant

def key (s : Sweep) : s.Row → Uid :=
  match s with
  | entries => Entry.id
  | games => fun id => id
  | leaves => Participant.id

/-- The `LIMIT`. -/
def limit : Sweep → Nat
  | entries => 100
  | games => 100
  | leaves => 10

/-- The rows that meet the conditions on the status. -/
def eligible (s : Sweep) (σ : Ledger) : List s.Row :=
  match s with
  | entries => σ.entries.select fun e => e.status.unsettled
  | games => (σ.arenas.select fun a => a.isPublic && a.active).map Arena.id
  | leaves => σ.participants.select fun p => p.leaveState = .leaving

/-- The query. -/
def select (s : Sweep) (σ : Ledger) (cursor : Uid) : List s.Row :=
  Keyset.page s.key s.limit (s.eligible σ) cursor

/-- `rows[-1]["id"] if rows else ""`. -/
def advance (s : Sweep) (rows : List s.Row) : Uid := Keyset.advance s.key "" rows

end Sweep

/-- What the loops await. -/
inductive Op
  | select (s : Sweep) (cursor : Uid)
  /-- `get_standalone_payment` of the payment hash and the wallet of the row. -/
  | getStandalonePayment (row : Entry)
  /-- The payment of the core that has the id of the row as its external id. -/
  | fetchPayment (row : Entry)
  | recordInvoice (entryId : Uid) (payment : Payment)
  | settleEntry (payment : Payment)
  | notify (arenaId : Uid)
  | expireGame (arenaId : Uid)
  | finishLeave (player : Participant)
  /-- `self.running`. -/
  | running
  | sleep (seconds : Nat)

abbrev Op.Ans : Op → Type
  | select s _ => List s.Row
  | getStandalonePayment _ => Option Payment
  | fetchPayment _ => Option Payment
  | settleEntry _ => Option Uid
  | expireGame _ => Bool
  | running => Bool
  | _ => Unit

/-- The loops look at no exception. -/
abbrev Coroutine := Task Op Op.Ans Unit

def await (op : Op) : Coroutine op.Ans := Task.perform op

/-! ## The loops -/

/-- `payment` of the row. -/
def findPayment (row : Entry) : Coroutine (Option Payment) :=
  if truthy row.paymentHash then await (.getStandalonePayment row)
  else do
    let found ← (await (.fetchPayment row) : Coroutine (Option Payment))
    match found with
    | none => return none
    | some payment => do
      let _ ← await (.recordInvoice row.id payment)
      return some payment

/-- `if payment and payment.success`. -/
def settleFound (payment? : Option Payment) : Coroutine Unit :=
  match payment? with
  | none => return ()
  | some payment =>
    if payment.success then do
      let arena? ← (await (.settleEntry payment) : Coroutine (Option Uid))
      match arena? with
      | none => return ()
      | some arena => await (.notify arena)
    else return ()

/-- The `try` of `reconcile_entries` for one row. -/
def reconcileEntry (row : Entry) : Coroutine Unit := do
  let payment? ← findPayment row
  settleFound payment?

/-- `try: ... except Exception`, in a loop over rows. -/
def deferring {α : Type} (f : α → Coroutine Unit) (row : α) : Coroutine Unit :=
  Task.handle (f row) fun _ => return ()

/-- A round of `reconcile_entries`. -/
def reconcileEntries (cursor : Uid) : Coroutine Uid := do
  match ← Task.attempt (await (.select .entries cursor)) with
  | none =>
    let _ ← await (.sleep 15)
    return cursor
  | some rows =>
    let _ ← Task.forEach (deferring reconcileEntry) rows
    let _ ← await (.sleep 15)
    return Sweep.entries.advance rows

/-- A round of `maintenance`.  The cursor has moved on before the first game. -/
def maintenance (cursor : Uid) : Coroutine Uid := do
  match ← Task.attempt (await (.select .games cursor)) with
  | none =>
    let _ ← await (.sleep 5)
    return cursor
  | some rows =>
    let _ ← Task.handle
      (Task.forEach (deferring fun id => do
        let _ ← await (.expireGame id)
        return ()) rows) fun _ => return ()
    let _ ← await (.sleep 5)
    return Sweep.games.advance rows

/-- `Manager.recover_leaves`, from one `leave_cursor` to the next. -/
def recoverLeaves (cursor : Uid) : Coroutine Uid := do
  let players ← (await (.select .leaves cursor) : Coroutine (List Participant))
  let _ ← Task.forEach (deferring fun player => await (.finishLeave player)) players
  return Sweep.leaves.advance players

/-- The `try` in a round of `leave_loop`. -/
def sweepLeaves (cursor : Uid) : Coroutine Uid := do
  let running ← (await .running : Coroutine Bool)
  if running then recoverLeaves cursor else return cursor

/-- A round of `leave_loop`.  An exception comes from the query alone, before
the cursor moves on. -/
def leaveLoop (cursor : Uid) : Coroutine Uid := do
  let next ← Task.handle (sweepLeaves cursor) fun _ => return cursor
  let _ ← await (.sleep 5)
  return next

def Sweep.turn : Sweep → Uid → Coroutine Uid
  | entries => reconcileEntries
  | games => maintenance
  | leaves => leaveLoop

/-! ## What can happen -/

/-- A query returns the rows of the ledger, and the transactions that return
were committed.  Everything can raise, and can have any effect if it does. -/
def Performs (op : Op) (σ : Ledger)
    (outcome : Except (Raised Unit) op.Ans) (σ' : Ledger) : Prop :=
  match op, outcome with
  | .select s cursor, .ok rows => rows = s.select σ cursor ∧ σ' = σ
  | .recordInvoice entryId payment, .ok () => Ledger.recordInvoice entryId payment σ = .ok σ'
  | .settleEntry payment, .ok arena? =>
    ∃ env, Ledger.settleEntry env payment σ = .ok (arena?, σ')
  | .expireGame arenaId, .ok expired =>
    ∃ env, Ledger.expireGame env arenaId σ = .ok (expired, σ')
  | _, _ => True

abbrev Trace := List (Await Op Op.Ans Unit Ledger)

/-- The rounds of a sweep, each with its trace.  The ledger can become any
other between two awaits. -/
inductive Loops (s : Sweep) : Uid → List Trace → Uid → Prop
  | nil (cursor : Uid) : Loops s cursor [] cursor
  | cons {cursor next last : Uid} {trace : Trace} {traces : List Trace}
      (turn : Traced Performs (s.turn cursor) trace (.ok next))
        (rest : Loops s next traces last) :
      Loops s cursor (trace :: traces) last

/-- The cursor and the ledger of a query that returned. -/
def queried (await : Await Op Op.Ans Unit Ledger) : Option (Uid × Ledger) :=
  match await with
  | ⟨σ, .select _ cursor, .ok _, _⟩ => some (cursor, σ)
  | _ => none

/-- The row that a round turns to. -/
def begun (await : Await Op Op.Ans Unit Ledger) : Option Uid :=
  match await.op with
  | .getStandalonePayment row => some row.id
  | .fetchPayment row => some row.id
  | .expireGame id => some id
  | .finishLeave player => some player.id
  | _ => none

/-- The rows that a trace turns to. -/
def processed (trace : Trace) : List Uid := trace.filterMap begun

/-- The query of the round returned no rows. -/
def Resets (s : Sweep) (trace : Trace) : Prop :=
  ∃ query ∈ trace.filterMap queried, s.select query.2 query.1 = []

/-! ## What a round does -/

/-- Neither a query nor the start of a row. -/
def Op.Quiet : Op → Prop
  | .select .. | .getStandalonePayment _ | .fetchPayment _ | .expireGame _
      | .finishLeave _ => False
  | _ => True

theorem quiet_trace {trace : Trace} (h : ∀ await ∈ trace, await.op.Quiet) :
    processed trace = [] ∧ trace.filterMap queried = [] := by
  unfold processed
  rw [List.filterMap_eq_nil_iff, List.filterMap_eq_nil_iff]
  refine ⟨fun await hmem => ?_, fun await hmem => ?_⟩
  all_goals
    have hquiet := h await hmem
    obtain ⟨σ, op, outcome, σ'⟩ := await
    cases op <;> first | rfl | exact hquiet.elim

/-- The task starts with this row, and is quiet from there on. -/
def Opens {α : Type} (id : Uid) : Coroutine α → Prop
  | .done _ => False
  | .call op next => (∀ σ outcome σ', begun ⟨σ, op, outcome, σ'⟩ = some id ∧
      queried ⟨σ, op, outcome, σ'⟩ = none) ∧ ∀ outcome, (next outcome).Only Op.Quiet

theorem Opens.bind {α β : Type} {id : Uid} {task : Coroutine α} {f : α → Coroutine β}
    (h : Opens id task) (hf : ∀ a, (f a).Only Op.Quiet) : Opens id (task >>= f) := by
  cases task with
  | done result => exact h.elim
  | call op next => exact ⟨h.1, fun outcome => (h.2 outcome).bind hf⟩

theorem Opens.handle {α : Type} {id : Uid} {task : Coroutine α} {f : Unit → Coroutine α}
    (h : Opens id task) (hf : ∀ e, (f e).Only Op.Quiet) : Opens id (task.handle f) := by
  cases task with
  | done result => exact h.elim
  | call op next => exact ⟨h.1, fun outcome => (h.2 outcome).handle hf⟩

theorem Opens.trace {α : Type} {id : Uid} {task : Coroutine α} (h : Opens id task) {trace : Trace}
    {result : Except (Raised Unit) α} (ht : Traced Performs task trace result) :
    processed trace = [id] ∧ trace.filterMap queried = [] := by
  cases ht with
  | done => exact h.elim
  | @call op next σ σ' outcome trace result does rest =>
    have hquiet := quiet_trace (rest.only (h.2 outcome))
    have hfirst := h.1 σ outcome σ'
    unfold processed at hquiet ⊢
    rw [List.filterMap_cons_some hfirst.1, List.filterMap_cons_none hfirst.2, hquiet.1, hquiet.2]
    exact ⟨rfl, rfl⟩

theorem quiet_await {op : Op} (h : op.Quiet) : (await op).Only Op.Quiet := ⟨h, fun _ => trivial⟩

theorem quiet_settleFound (payment? : Option Payment) : (settleFound payment?).Only Op.Quiet := by
  unfold settleFound
  cases payment? with
  | none => trivial
  | some payment =>
    dsimp only
    split
    case isFalse => trivial
    case isTrue =>
      refine Task.Only.bind (quiet_await trivial) fun arena? => ?_
      cases arena? with
      | none => trivial
      | some arena => exact quiet_await trivial

theorem opens_findPayment (row : Entry) : Opens row.id (findPayment row) := by
  unfold findPayment
  split
  case isTrue => exact ⟨fun _ _ _ => ⟨rfl, rfl⟩, fun _ => trivial⟩
  case isFalse =>
    have hfetch : Opens row.id (await (.fetchPayment row)) :=
      ⟨fun _ _ _ => ⟨rfl, rfl⟩, fun _ => trivial⟩
    refine hfetch.bind fun payment? => ?_
    cases payment? with
    | none => trivial
    | some payment => exact Task.Only.bind (quiet_await trivial) fun _ => trivial

theorem opens_reconcileEntry (row : Entry) : Opens row.id (reconcileEntry row) :=
  (opens_findPayment row).bind quiet_settleFound

/-- A loop turns to each of its rows, in their order, whatever becomes of them. -/
theorem deferring_trace {α : Type} {f : α → Coroutine Unit} {key : α → Uid}
    (hopens : ∀ row, Opens (key row) (f row)) {rows : List α} {trace : Trace}
    (h : Traced Performs (Task.forEach (deferring f) rows) trace (.ok ())) :
    processed trace = rows.map key ∧ trace.filterMap queried = [] := by
  have hrow : ∀ row, Opens (key row) (deferring f row) :=
    fun row => (hopens row).handle fun _ => trivial
  refine ⟨h.of_forEach fun row _ ht => ((hrow row).trace ht).1, ?_⟩
  induction rows generalizing trace with
  | nil =>
    rw [h.of_pure.1]
    rfl
  | cons row rows ih =>
    obtain ⟨⟨⟩, first, second, hfirst, hsecond, rfl⟩ := h.of_bind_ok
    rw [List.filterMap_append, ((hrow row).trace hfirst).2, ih hsecond]
    rfl

/-- What a round does, as a turn through the rows of the table. -/
structure Round (s : Sweep) (cursor : Uid) (trace : Trace) (next : Uid)
    (turn : Keyset.Turn s.Row Uid) : Prop where
  cursor_eq : turn.cursor = cursor
  next_eq : next = turn.next s.key s.limit ""
  processed_eq : processed trace = (turn.taken s.key s.limit).map s.key
  queried_eq : (turn.rows? = none ∧ trace.filterMap queried = []) ∨
    ∃ σ, turn.rows? = some (s.eligible σ) ∧ trace.filterMap queried = [(cursor, σ)]

/-- A query that fails leaves the cursor where it is. -/
theorem round_failed {s : Sweep} {cursor : Uid} {trace : Trace}
    (hprocessed : processed trace = [])
    (hqueried : trace.filterMap queried = []) : Round s cursor trace cursor ⟨cursor, none⟩ where
  cursor_eq := rfl
  next_eq := rfl
  processed_eq := hprocessed
  queried_eq := .inl ⟨rfl, hqueried⟩

theorem round_page {s : Sweep} {cursor : Uid} {σ : Ledger} {trace : Trace}
    (hprocessed : processed trace = (s.select σ cursor).map s.key)
    (hqueried : trace.filterMap queried = [(cursor, σ)]) :
    Round s cursor trace (s.advance (s.select σ cursor)) ⟨cursor, some (s.eligible σ)⟩ where
  cursor_eq := rfl
  next_eq := rfl
  processed_eq := hprocessed
  queried_eq := .inr ⟨σ, rfl, hqueried⟩

/-- The query, when it returns and when it does not. -/
theorem select_trace {s : Sweep} {cursor : Uid} {trace : Trace}
    {result : Except (Raised Unit) (List s.Row)}
    (h : Traced Performs (await (.select s cursor)) trace result) :
    processed trace = [] ∧
      ((∃ σ, result = .ok (s.select σ cursor) ∧ trace.filterMap queried = [(cursor, σ)]) ∨
        (∃ raised, result = .error raised) ∧ trace.filterMap queried = []) := by
  obtain ⟨σ, σ', hdoes, rfl⟩ := h.of_perform
  refine ⟨rfl, ?_⟩
  cases result with
  | ok rows =>
    left
    exact ⟨σ, congrArg _ hdoes.1, rfl⟩
  | error raised =>
    right
    exact ⟨⟨raised, rfl⟩, rfl⟩

theorem processed_append (first second : Trace) :
    processed (first ++ second) = processed first ++ processed second := List.filterMap_append ..

theorem sleep_trace {seconds : Nat} {trace : Trace} {result : Except (Raised Unit) Unit}
    (h : Traced Performs (await (.sleep seconds)) trace result) :
    processed trace = [] ∧ trace.filterMap queried = [] :=
  quiet_trace (h.only (quiet_await trivial))

/-- A round that sleeps and then keeps its cursor, after a query that failed. -/
theorem round_of_failed {s : Sweep} {cursor next : Uid} {seconds : Nat} {first second : Trace}
    {e : Raised Unit} (hquery : Traced Performs (await (.select s cursor)) first (.error e))
    (hrest : Traced Performs (do
      let _ ← await (.sleep seconds)
      return cursor) second (.ok next)) :
    ∃ turn, Round s cursor (first ++ second) next turn := by
  obtain ⟨⟨⟩, third, fourth, hsleep, hpure, rfl⟩ := hrest.of_bind_ok
  obtain ⟨rfl, hnext⟩ := hpure.of_pure
  cases hnext
  have hslept := sleep_trace hsleep
  have hselect := select_trace hquery
  refine ⟨_, round_failed ?_ ?_⟩
  · rw [processed_append, hselect.1, List.append_nil, hslept.1]
    rfl
  · rcases hselect.2 with ⟨σ, hok, -⟩ | ⟨-, hnone⟩
    · cases hok
    · rw [List.filterMap_append, hnone, List.append_nil, hslept.2]
      rfl

/-- A round that turns to the rows of its query, and then sleeps. -/
theorem round_of_rows {s : Sweep} {cursor next : Uid} {seconds : Nat} {rows : List s.Row}
    {first second third : Trace}
    (hquery : Traced Performs (await (.select s cursor)) first (.ok rows))
    (hrows : processed second = rows.map s.key ∧ second.filterMap queried = [])
    (hrest : Traced Performs (do
      let _ ← await (.sleep seconds)
      return s.advance rows) third (.ok next)) :
    ∃ turn, Round s cursor (first ++ (second ++ third)) next turn := by
  obtain ⟨⟨⟩, fourth, fifth, hsleep, hpure, rfl⟩ := hrest.of_bind_ok
  obtain ⟨rfl, hnext⟩ := hpure.of_pure
  cases hnext
  have hslept := sleep_trace hsleep
  have hselect := select_trace hquery
  rcases hselect.2 with ⟨σ, hok, hone⟩ | ⟨⟨raised, herror⟩, -⟩
  · cases hok
    refine ⟨_, @round_page s cursor σ _ ?_ ?_⟩
    · rw [processed_append, processed_append, hselect.1, hrows.1, List.append_nil, hslept.1,
        List.append_nil]
      rfl
    · rw [List.filterMap_append, List.filterMap_append, hone, hrows.2, List.append_nil, hslept.2]
      rfl
  · cases herror

theorem round_entries {cursor next : Uid} {trace : Trace}
    (h : Traced Performs (reconcileEntries cursor) trace (.ok next)) :
    ∃ turn, Round .entries cursor trace next turn := by
  obtain ⟨rows?, first, second, hattempt, hrest, rfl⟩ := h.of_bind_ok
  rcases hattempt.of_attempt with ⟨rows, rfl, hquery⟩ | ⟨rfl, e, hquery⟩
  · obtain ⟨⟨⟩, third, fourth, hrows, hsleep, rfl⟩ := hrest.of_bind_ok
    exact round_of_rows hquery (deferring_trace opens_reconcileEntry hrows) hsleep
  · exact round_of_failed hquery hrest

theorem opens_expireGame (id : Uid) : Opens id (do
    let _ ← await (.expireGame id)
    return () : Coroutine Unit) :=
  Opens.bind ⟨fun _ _ _ => ⟨rfl, rfl⟩, fun _ => trivial⟩ fun _ => trivial

/-- No exception comes out of a loop that defers its rows. -/
theorem deferring_quiet {α : Type} {f : α → Coroutine Unit} {rows : List α} {trace : Trace}
    {result : Except (Raised Unit) Unit}
    (h : Traced Performs (Task.forEach (deferring f) rows) trace result) :
    result = .ok () ∨ result = .error .cancelled := by
  induction rows generalizing trace with
  | nil => exact .inl h.of_pure.2
  | cons row rows ih =>
    rcases h.of_bind with ⟨⟨⟩, first, second, hfirst, hsecond, -⟩ | ⟨raised, hrow, rfl⟩
    · exact ih hsecond
    · right
      rcases hrow.of_handle with ⟨-, hquiet⟩ | ⟨e, first, second, -, hpure, -⟩
      · cases raised with
        | error e => exact absurd rfl (hquiet e)
        | cancelled => rfl
      · cases hpure.of_pure.2

theorem round_games {cursor next : Uid} {trace : Trace}
    (h : Traced Performs (maintenance cursor) trace (.ok next)) :
    ∃ turn, Round .games cursor trace next turn := by
  obtain ⟨rows?, first, second, hattempt, hrest, rfl⟩ := h.of_bind_ok
  rcases hattempt.of_attempt with ⟨rows, rfl, hquery⟩ | ⟨rfl, e, hquery⟩
  · obtain ⟨⟨⟩, third, fourth, hloop, hsleep, rfl⟩ := hrest.of_bind_ok
    rcases hloop.of_handle with ⟨hrows, -⟩ | ⟨e, fifth, sixth, hrows, -, -⟩
    · have htrace := deferring_trace opens_expireGame hrows
      exact round_of_rows hquery htrace hsleep
    · cases deferring_quiet hrows with
      | inl hok => cases hok
      | inr hcancelled => cases hcancelled
  · exact round_of_failed hquery hrest

theorem opens_finishLeave (player : Participant) :
    Opens player.id (await (.finishLeave player)) :=
  ⟨fun _ _ _ => ⟨rfl, rfl⟩, fun _ => trivial⟩

theorem running_trace {trace : Trace} {result : Except (Raised Unit) Bool}
    (h : Traced Performs (await .running) trace result) :
    processed trace = [] ∧ trace.filterMap queried = [] :=
  quiet_trace (h.only (quiet_await trivial))

/-- A sweep of `recover_leaves` that returns. -/
theorem recoverLeaves_trace {cursor next : Uid} {trace : Trace}
    (h : Traced Performs (recoverLeaves cursor) trace (.ok next)) :
    ∃ σ, next = Sweep.leaves.advance (Sweep.leaves.select σ cursor) ∧
      processed trace = (Sweep.leaves.select σ cursor).map Sweep.leaves.key ∧
      trace.filterMap queried = [(cursor, σ)] := by
  obtain ⟨players, first, second, hquery, hrest, rfl⟩ := h.of_bind_ok
  obtain ⟨⟨⟩, third, fourth, hrows, hpure, rfl⟩ := hrest.of_bind_ok
  obtain ⟨rfl, hnext⟩ := hpure.of_pure
  cases hnext
  have hselect := select_trace hquery
  have hloop := deferring_trace opens_finishLeave hrows
  rcases hselect.2 with ⟨σ, hok, hone⟩ | ⟨⟨raised, herror⟩, -⟩
  · cases hok
    refine ⟨σ, rfl, ?_, ?_⟩
    · rw [List.append_nil, processed_append, hselect.1, hloop.1]
      rfl
    · rw [List.append_nil, List.filterMap_append, hone, hloop.2]
      rfl
  · cases herror

/-- One that raises an exception has not got beyond its query. -/
theorem recoverLeaves_raised {cursor : Uid} {trace : Trace} {e : Unit}
    (h : Traced Performs (recoverLeaves cursor) trace (.error (.error e))) :
    processed trace = [] ∧ trace.filterMap queried = [] := by
  rcases h.of_bind with ⟨players, first, second, -, hrest, -⟩ | ⟨raised, hquery, -⟩
  · rcases hrest.of_bind with ⟨_, third, fourth, -, hpure, -⟩ | ⟨raised, hrows, hraised⟩
    · cases hpure.of_pure.2
    · cases hraised
      cases deferring_quiet hrows with
      | inl hok => cases hok
      | inr hcancelled => cases hcancelled
  · have hselect := select_trace hquery
    rcases hselect.2 with ⟨σ, hok, -⟩ | ⟨-, hnone⟩
    · cases hok
    · exact ⟨hselect.1, hnone⟩

/-- The `try` of `leave_loop`, when it returns. -/
theorem sweepLeaves_trace {cursor next : Uid} {trace : Trace}
    (h : Traced Performs (sweepLeaves cursor) trace (.ok next)) :
    ∃ turn, Round .leaves cursor trace next turn := by
  obtain ⟨running, first, second, hrunning, hrest, rfl⟩ := h.of_bind_ok
  have hfirst := running_trace hrunning
  cases running with
  | false =>
    obtain ⟨rfl, hnext⟩ := hrest.of_pure
    cases hnext
    rw [List.append_nil]
    exact ⟨_, round_failed hfirst.1 hfirst.2⟩
  | true =>
    obtain ⟨σ, rfl, hprocessed, hqueried⟩ := recoverLeaves_trace hrest
    refine ⟨_, round_page ?_ ?_⟩
    · rw [processed_append, hfirst.1, hprocessed]
      rfl
    · rw [List.filterMap_append, hfirst.2, hqueried]
      rfl

/-- The `try` of `leave_loop`, when it raises an exception. -/
theorem sweepLeaves_raised {cursor : Uid} {trace : Trace} {e : Unit}
    (h : Traced Performs (sweepLeaves cursor) trace (.error (.error e))) :
    processed trace = [] ∧ trace.filterMap queried = [] := by
  rcases h.of_bind with ⟨running, first, second, hrunning, hrest, rfl⟩ | ⟨raised, hrunning, -⟩
  · have hfirst := running_trace hrunning
    cases running with
    | false => cases hrest.of_pure.2
    | true =>
      have hsecond := recoverLeaves_raised hrest
      rw [processed_append, List.filterMap_append, hfirst.1, hfirst.2, hsecond.1, hsecond.2]
      exact ⟨rfl, rfl⟩
  · exact running_trace hrunning

/-- What follows on a round, without a query or a row, belongs to it. -/
theorem Round.append {s : Sweep} {cursor next : Uid} {trace trace' : Trace}
    {turn : Keyset.Turn s.Row Uid} (h : Round s cursor trace next turn)
    (hquiet : processed trace' = [] ∧ trace'.filterMap queried = []) :
    Round s cursor (trace ++ trace') next turn :=
  { h with
    processed_eq := by rw [processed_append, hquiet.1, List.append_nil, h.processed_eq]
    queried_eq := by
      rw [List.filterMap_append, hquiet.2, List.append_nil]
      exact h.queried_eq }

theorem round_leaves {cursor next : Uid} {trace : Trace}
    (h : Traced Performs (leaveLoop cursor) trace (.ok next)) :
    ∃ turn, Round .leaves cursor trace next turn := by
  obtain ⟨found, first, second, htry, hrest, rfl⟩ := h.of_bind_ok
  obtain ⟨⟨⟩, third, fourth, hsleep, hpure, rfl⟩ := hrest.of_bind_ok
  obtain ⟨rfl, hnext⟩ := hpure.of_pure
  cases hnext
  rw [List.append_nil]
  rcases htry.of_handle with ⟨hswept, -⟩ | ⟨e, fifth, sixth, hraised, hpure, rfl⟩
  · obtain ⟨turn, hturn⟩ := sweepLeaves_trace hswept
    exact ⟨turn, hturn.append (sleep_trace hsleep)⟩
  · obtain ⟨rfl, hnext⟩ := hpure.of_pure
    cases hnext
    have hfirst := sweepLeaves_raised hraised
    rw [List.append_nil]
    exact ⟨_, (round_failed hfirst.1 hfirst.2).append (sleep_trace hsleep)⟩

theorem round_turn (s : Sweep) {cursor next : Uid} {trace : Trace}
    (h : Traced Performs (s.turn cursor) trace (.ok next)) :
    ∃ turn, Round s cursor trace next turn := by
  cases s with
  | entries => exact round_entries h
  | games => exact round_games h
  | leaves => exact round_leaves h

/-! ## Rounds that raise -/

/-- No exception comes out of the task. -/
def Calm {α : Type} (task : Coroutine α) : Prop :=
  ∀ trace e, ¬Traced Performs task trace (.error (.error e))

theorem Calm.handle {α : Type} (task : Coroutine α) (a : α) :
    Calm (task.handle fun _ => return a) := by
  intro trace e h
  rcases h.of_handle with ⟨-, hquiet⟩ | ⟨e', first, second, -, hpure, -⟩
  · exact hquiet e rfl
  · cases hpure.of_pure.2

theorem Calm.forEach {α : Type} (f : α → Coroutine Unit) (rows : List α) :
    Calm (Task.forEach (deferring f) rows) := by
  intro trace e h
  cases deferring_quiet h with
  | inl hok => cases hok
  | inr hcancelled => cases hcancelled

/-- The exception was raised by the sleep at the end, and the task returns when
it is not. -/
def Woken (task : Coroutine Uid) (trace : Trace) : Prop :=
  ∃ first σ σ' seconds e next, trace = first ++ [⟨σ, .sleep seconds, .error (.error e), σ'⟩] ∧
    Traced Performs task (first ++ [⟨σ, .sleep seconds, .ok (), σ'⟩]) (.ok next)

theorem Woken.sleep {seconds : Nat} {next : Uid} {trace : Trace} {e : Unit}
    (h : Traced Performs (do
      let _ ← await (.sleep seconds)
      return next : Coroutine Uid) trace (.error (.error e))) :
    Woken (do
      let _ ← await (.sleep seconds)
      return next) trace := by
  rcases h.of_bind with ⟨_, first, second, -, hpure, -⟩ | ⟨raised, hsleep, hraised⟩
  · cases hpure.of_pure.2
  · cases hraised
    obtain ⟨σ, σ', -, rfl⟩ := hsleep.of_perform
    exact ⟨[], σ, σ', seconds, e, next, rfl, .call trivial (.done _)⟩

theorem Woken.bind {α : Type} {task : Coroutine α} {f : α → Coroutine Uid} (hcalm : Calm task)
    (hf : ∀ a trace e, Traced Performs (f a) trace (.error (.error e)) → Woken (f a) trace)
    {trace : Trace} {e : Unit} (h : Traced Performs (task >>= f) trace (.error (.error e))) :
    Woken (task >>= f) trace := by
  rcases h.of_bind with ⟨a, first, second, hfirst, hsecond, rfl⟩ | ⟨raised, hraises, hraised⟩
  · obtain ⟨begun, σ, σ', seconds, e', next, rfl, hreturns⟩ := hf a second e hsecond
    refine ⟨first ++ begun, σ, σ', seconds, e', next, (List.append_assoc _ _ _).symm, ?_⟩
    rw [List.append_assoc]
    exact hfirst.bind hreturns
  · cases hraised
    exact absurd hraises (hcalm trace e)

/-- Only the sleep can raise an exception out of a round. -/
theorem turn_raised (s : Sweep) {cursor : Uid} {trace : Trace} {e : Unit}
    (h : Traced Performs (s.turn cursor) trace (.error (.error e))) :
    Woken (s.turn cursor) trace := by
  have hsleep : ∀ seconds next trace e, Traced Performs (do
      let _ ← await (.sleep seconds)
      return next : Coroutine Uid) trace (.error (.error e)) → Woken (do
        let _ ← await (.sleep seconds)
        return next) trace := fun _ _ _ _ hwoken => Woken.sleep hwoken
  cases s with
  | entries =>
    refine Woken.bind (Calm.handle _ _) ?_ h
    rintro (_ | rows) trace e hrest
    · exact hsleep _ _ _ _ hrest
    · exact Woken.bind (Calm.forEach _ _) (fun _ => hsleep _ _) hrest
  | games =>
    refine Woken.bind (Calm.handle _ _) ?_ h
    rintro (_ | rows) trace e hrest
    · exact hsleep _ _ _ _ hrest
    · exact Woken.bind (Calm.handle _ _) (fun _ => hsleep _ _) hrest
  | leaves => exact Woken.bind (Calm.handle _ _) (fun _ => hsleep _ _) h

/-! ## Whole sweeps -/

/-- The queries of some rounds that returned. -/
def queries (traces : List Trace) : List (Uid × Ledger) := traces.flatMap (List.filterMap queried)

/-- There is a row with this id that the sweep is for. -/
def Sweep.Eligible (s : Sweep) (σ : Ledger) (id : Uid) : Prop := id ∈ (s.eligible σ).map s.key

theorem nodup_eligible (s : Sweep) (σ : Ledger) : ((s.eligible σ).map s.key).Nodup := by
  cases s with
  | entries => exact Table.nodup_select _ _
  | games =>
    show (((σ.arenas.select _).map Arena.id).map fun id => id).Nodup
    rw [List.map_id']
    exact Table.nodup_select _ _
  | leaves => exact Table.nodup_select _ _

/-- A round resets the cursor exactly when its turn does. -/
theorem Round.resets_iff {s : Sweep} {cursor next : Uid} {trace : Trace}
    {turn : Keyset.Turn s.Row Uid} (h : Round s cursor trace next turn) :
    Resets s trace ↔ turn.Resets s.key s.limit := by
  obtain ⟨rfl, -, -, hqueried⟩ := h
  unfold Resets Keyset.Turn.Resets Sweep.select
  rcases hqueried with ⟨hnone, hempty⟩ | ⟨σ, hsome, hone⟩
  · simp [hnone, hempty]
  · simp [hsome, hone]

theorem Round.query {s : Sweep} {cursor next : Uid} {trace : Trace}
    {turn : Keyset.Turn s.Row Uid} (h : Round s cursor trace next turn) {rows : List s.Row}
    (hrows : turn.rows? = some rows) :
    ∃ σ, rows = s.eligible σ ∧ trace.filterMap queried = [(turn.cursor, σ)] := by
  obtain ⟨rfl, -, -, hqueried⟩ := h
  rcases hqueried with ⟨hnone, -⟩ | ⟨σ, hsome, hone⟩
  · rw [hnone] at hrows
    cases hrows
  · exact ⟨σ, Option.some.inj (hrows.symm.trans hsome), hone⟩

/-- The rounds of a loop with their turns. -/
theorem Loops.rounds {s : Sweep} {cursor last : Uid} {traces : List Trace}
    (h : Loops s cursor traces last) :
    ∃ rounds : List (Trace × Keyset.Turn s.Row Uid), traces = rounds.map Prod.fst ∧
      Keyset.Run s.key s.limit "" cursor (rounds.map Prod.snd) last ∧
      ∀ round ∈ rounds, ∃ cursor next, Round s cursor round.1 next round.2 := by
  induction h with
  | nil cursor => exact ⟨[], rfl, .nil cursor, fun _ h => absurd h List.not_mem_nil⟩
  | @cons cursor next last trace traces hturn _ ih =>
    obtain ⟨rounds, rfl, hrun, hrounds⟩ := ih
    obtain ⟨turn, hround⟩ := round_turn s hturn
    refine ⟨(trace, turn) :: rounds, rfl, ?_, ?_⟩
    · rw [hround.next_eq] at hrun
      rw [← hround.cursor_eq]
      exact .cons hrun
    · intro round hmem
      cases List.mem_cons.mp hmem with
      | inl heq => exact heq ▸ ⟨cursor, next, hround⟩
      | inr hin => exact hrounds round hin

section

variable {s : Sweep} {rounds : List (Trace × Keyset.Turn s.Row Uid)}

theorem processed_rounds
    (h : ∀ round ∈ rounds, ∃ cursor next, Round s cursor round.1 next round.2) :
    (rounds.map Prod.fst).flatMap processed =
      ((rounds.map Prod.snd).flatMap (Keyset.Turn.taken s.key s.limit)).map s.key := by
  rw [List.map_flatMap, List.flatMap_map, List.flatMap_map]
  refine List.flatMap_congr fun round hround => ?_
  obtain ⟨cursor, next, hone⟩ := h round hround
  exact hone.processed_eq

theorem queries_rounds
    (h : ∀ round ∈ rounds, ∃ cursor next, Round s cursor round.1 next round.2) :
    (queries (rounds.map Prod.fst)).length =
      (rounds.map Prod.snd).countP fun turn => turn.rows?.isSome := by
  induction rounds with
  | nil => rfl
  | cons round rounds ih =>
    obtain ⟨cursor, next, hone⟩ := h round List.mem_cons_self
    have hrest := ih fun other hother => h other (List.mem_cons_of_mem _ hother)
    unfold queries at hrest ⊢
    rw [List.map_cons, List.map_cons, List.flatMap_cons, List.length_append, hrest]
    rcases hone.queried_eq with ⟨hnone, hempty⟩ | ⟨σ, hsome, hsingle⟩
    · rw [hempty, List.countP_cons_of_neg (by simp [hnone])]
      exact Nat.zero_add _
    · rw [hsingle, List.countP_cons_of_pos (by simp [hsome])]
      exact Nat.add_comm 1 _

end

theorem empty_lt {id : Uid} (h : id ≠ "") : "" < id := by
  rw [String.lt_iff_toList_lt]
  cases htext : id.toList with
  | nil => exact absurd (String.toList_eq_nil_iff.mp htext) h
  | cons c text => exact List.nil_lt_cons c text

/-- Without a reset, there are no more pages than ids ahead of the cursor. -/
theorem Loops.queries_le {s : Sweep} {cursor last : Uid} {traces : List Trace}
    (h : Loops s cursor traces last) (hnever : ∀ trace ∈ traces, ¬Resets s trace)
    {ids : Finset Uid} (hids : ∀ query ∈ queries traces, ∀ id, s.Eligible query.2 id →
      query.1 < id → id ∈ ids) : (queries traces).length ≤ ids.card := by
  obtain ⟨rounds, rfl, hrun, hrounds⟩ := h.rounds
  have hahead : ∀ turn ∈ rounds.map Prod.snd, ∀ rows, turn.rows? = some rows →
      ∀ row ∈ rows, turn.cursor < s.key row → s.key row ∈ ids := by
    intro turn hturn rows hrows row hrow hlt
    obtain ⟨round, hmem, rfl⟩ := List.mem_map.mp hturn
    obtain ⟨cursor, next, hround⟩ := hrounds round hmem
    obtain ⟨σ, rfl, hone⟩ := hround.query hrows
    refine hids (round.2.cursor, σ) ?_ _ (List.mem_map_of_mem hrow) hlt
    exact List.mem_flatMap.mpr ⟨round.1, List.mem_map_of_mem hmem, by rw [hone]; simp⟩
  have hresets : ∀ turn ∈ rounds.map Prod.snd, ¬turn.Resets s.key s.limit := by
    intro turn hturn
    obtain ⟨round, hmem, rfl⟩ := List.mem_map.mp hturn
    obtain ⟨cursor, next, hround⟩ := hrounds round hmem
    exact fun hreset => hnever round.1 (List.mem_map_of_mem hmem) (hround.resets_iff.mpr hreset)
  have hle := hrun.turns_le hresets ids hahead
  rw [queries_rounds hrounds]
  exact hle.trans (Finset.card_filter_le _ _)

section

variable {s : Sweep} {cursors : Nat → Uid} {traces : Nat → Trace}

theorem loops_range (h : ∀ i, Traced Performs (s.turn (cursors i))
    (traces i) (.ok (cursors (i + 1))))
    (i n : Nat) : Loops s (cursors i) ((List.range' i n).map traces) (cursors (i + n)) := by
  induction n generalizing i with
  | zero => exact .nil _
  | succ n ih =>
    have hrest := ih (i + 1)
    rw [Nat.add_right_comm, Nat.add_assoc] at hrest
    exact .cons (h i) hrest

/-- When the query returns again and again, it returns as often as one likes. -/
theorem exists_queries (h : ∀ i, ∃ j ≥ i, (traces j).filterMap queried ≠ []) (n i : Nat) :
    ∃ m, n ≤ (queries ((List.range' i m).map traces)).length := by
  induction n generalizing i with
  | zero => exact ⟨0, Nat.zero_le _⟩
  | succ n ih =>
    obtain ⟨j, hj, hsome⟩ := h i
    obtain ⟨m, hm⟩ := ih (j + 1)
    refine ⟨(j - i) + (1 + m), ?_⟩
    have hone := List.length_pos_iff.mpr hsome
    have hsplit : List.range' i ((j - i) + (1 + m)) =
        List.range' i (j - i) ++ (j :: List.range' (j + 1) m) := by
      have hstart : i + (j - i) = j := by omega
      rw [← List.range'_append_1, hstart, Nat.add_comm 1 m, List.range'_succ]
    have hlength : (queries ((List.range' i ((j - i) + (1 + m))).map traces)).length =
        (queries ((List.range' i (j - i)).map traces)).length +
          (((traces j).filterMap queried).length +
            (queries ((List.range' (j + 1) m).map traces)).length) := by
      rw [hsplit, List.map_append, List.map_cons]
      simp [queries]
    omega

end

/-- A row that is eligible from one reset to the next is turned to once in
between. -/
theorem Loops.processed_once {s : Sweep} {last next id : Uid}
    {traces : List Trace} {reset : Trace}
    (h : Loops s "" traces last) (hreset : Traced Performs (s.turn last) reset (.ok next))
    (hnever : ∀ trace ∈ traces, ¬Resets s trace) (hresets : Resets s reset) (hid : id ≠ "")
    (hstays : ∀ query ∈ queries (traces ++ [reset]), s.Eligible query.2 id) :
    (traces.flatMap processed).count id = 1 := by
  obtain ⟨rounds, rfl, hrun, hrounds⟩ := h.rounds
  obtain ⟨turn, hturn⟩ := round_turn s hreset
  have hall : ∀ round ∈ rounds ++ [(reset, turn)],
      ∃ cursor next, Round s cursor round.1 next round.2 := by
    intro round hmem
    cases List.mem_append.mp hmem with
    | inl hin => exact hrounds round hin
    | inr heq =>
      rw [List.mem_singleton.mp heq]
      exact ⟨last, next, hturn⟩
  have hthere : ∀ t ∈ rounds.map Prod.snd ++ [turn], ∀ rows, t.rows? = some rows →
      id ∈ rows.map s.key := by
    intro t ht rows hrows
    have hmap : t ∈ (rounds ++ [(reset, turn)]).map Prod.snd := by simpa using ht
    obtain ⟨round, hmem, rfl⟩ := List.mem_map.mp hmap
    obtain ⟨cursor', next', hround⟩ := hall round hmem
    obtain ⟨σ, rfl, hone⟩ := hround.query hrows
    refine hstays (round.2.cursor, σ) (List.mem_flatMap.mpr ⟨round.1, ?_, by rw [hone]; simp⟩)
    simpa using List.mem_map_of_mem (f := Prod.fst) hmem
  have hkeys : ∀ t ∈ rounds.map Prod.snd, ∀ rows, t.rows? = some rows →
    (rows.map s.key).Nodup := by
    intro t ht rows hrows
    obtain ⟨round, hmem, rfl⟩ := List.mem_map.mp ht
    obtain ⟨cursor', next', hround⟩ := hrounds round hmem
    obtain ⟨σ, rfl, -⟩ := hround.query hrows
    exact nodup_eligible s σ
  have hturns : ∀ t ∈ rounds.map Prod.snd, ¬t.Resets s.key s.limit := by
    intro t ht
    obtain ⟨round, hmem, rfl⟩ := List.mem_map.mp ht
    obtain ⟨cursor', next', hround⟩ := hrounds round hmem
    exact fun hreset => hnever round.1 (List.mem_map_of_mem hmem) (hround.resets_iff.mpr hreset)
  rw [processed_rounds hrounds]
  rw [← hturn.cursor_eq] at hrun
  have hlimit : 0 < s.limit := by cases s <;> decide
  exact hrun.taken_once hlimit hkeys hthere hturns (hturn.resets_iff.mp hresets) (empty_lt hid)

/-- A round that goes on has turned to all rows of its page, in their order,
whatever became of them. -/
theorem processed_page {s : Sweep} {cursor next : Uid} {trace : Trace}
    (h : Traced Performs (s.turn cursor) trace (.ok next)) :
    ∀ query ∈ trace.filterMap queried, processed trace =
      (s.select query.2 query.1).map s.key := by
  intro query hquery
  obtain ⟨turn, hround⟩ := round_turn s h
  have hprocessed := hround.processed_eq
  have hcursor := hround.cursor_eq
  rcases hround.queried_eq with ⟨-, hempty⟩ | ⟨σ, hsome, hone⟩
  · rw [hempty] at hquery
    cases hquery
  · rw [hone, List.mem_singleton] at hquery
    rw [hquery, hprocessed]
    unfold Keyset.Turn.taken
    rw [hsome, hcursor]
    rfl

/-- No row ends a round: one that is not cancelled has turned to its page, and
goes on unless its sleep raises. -/
theorem turn_ends {s : Sweep} {cursor : Uid} {trace : Trace} {result : Except (Raised Unit) Uid}
    (h : Traced Performs (s.turn cursor) trace result) (hend : result ≠ .error .cancelled) :
    (∀ query ∈ trace.filterMap queried, processed trace = (s.select query.2 query.1).map s.key) ∧
    ((∃ next, result = .ok next) ∨ ∃ first σ σ' seconds e,
      trace = first ++ [⟨σ, .sleep seconds, .error (.error e), σ'⟩]) := by
  rcases result with (e | _) | next
  · obtain ⟨first, σ, σ', seconds, e', next, rfl, hreturns⟩ := turn_raised s h
    refine ⟨?_, .inr ⟨first, σ, σ', seconds, e', rfl⟩⟩
    -- A sleep is seen neither as a query nor as a row.
    have hpage := processed_page hreturns
    simp only [processed, List.filterMap_append] at hpage ⊢
    exact hpage
  · exact absurd rfl hend
  · exact ⟨processed_page h, .inl ⟨next, rfl⟩⟩

/-- The three sweeps miss nothing.  A row that is eligible from one reset to
the next is turned to once in between; `uid` never returns the empty id.  A
sweep whose query returns again and again resets, when finitely many ids turn
up ahead of the cursor.  And no row ends a round: whatever its rows raise, a
round that is not cancelled turns to all of its page, and then goes on unless
its sleep raises. -/
theorem sweeps_miss_nothing (s : Sweep) :
    (∀ traces last reset next, Loops s "" traces last →
      Traced Performs (s.turn last) reset (.ok next) →
      (∀ trace ∈ traces, ¬Resets s trace) → Resets s reset →
      ∀ id ≠ "", (∀ query ∈ queries (traces ++ [reset]), s.Eligible query.2 id) →
        (traces.flatMap processed).count id = 1) ∧
    (∀ (cursors : Nat → Uid) (traces : Nat → Trace),
      (∀ i, Traced Performs (s.turn (cursors i)) (traces i) (.ok (cursors (i + 1)))) →
      (∀ i, ∃ j ≥ i, (traces j).filterMap queried ≠ []) →
      ∀ ids : Finset Uid, (∀ i, ∀ query ∈ (traces i).filterMap queried, ∀ id,
        s.Eligible query.2 id → query.1 < id → id ∈ ids) → ∃ i, Resets s (traces i)) ∧
    ∀ cursor trace result, Traced Performs (s.turn cursor) trace result →
      result ≠ .error .cancelled →
      (∀ query ∈ trace.filterMap queried,
        processed trace = (s.select query.2 query.1).map s.key) ∧
      ((∃ next, result = .ok next) ∨ ∃ first σ σ' seconds e,
        trace = first ++ [⟨σ, .sleep seconds, .error (.error e), σ'⟩]) := by
  refine ⟨?_, ?_, ?_⟩
  · intro traces last reset next hloops hreset hnever hresets id hid hstays
    exact hloops.processed_once hreset hnever hresets hid hstays
  · intro cursors traces hturns hagain ids hids
    by_contra hnone
    obtain ⟨n, hn⟩ := exists_queries hagain (ids.card + 1) 0
    have hnever : ∀ trace ∈ (List.range' 0 n).map traces, ¬Resets s trace := by
      intro trace htrace hreset
      obtain ⟨i, -, rfl⟩ := List.mem_map.mp htrace
      exact hnone ⟨i, hreset⟩
    have hahead : ∀ query ∈ queries ((List.range' 0 n).map traces), ∀ id, s.Eligible query.2 id →
        query.1 < id → id ∈ ids := by
      intro query hquery
      obtain ⟨trace, htrace, hin⟩ := List.mem_flatMap.mp hquery
      obtain ⟨i, -, rfl⟩ := List.mem_map.mp htrace
      exact hids i query hin
    have hle := (loops_range hturns 0 n).queries_le hnever hahead
    omega
  · intro cursor trace result hturn hend
    exact turn_ends hturn hend

/-- A player who leaves. -/
def leaver (id : Uid) : Participant where
  id
  arenaId := "a"
  tokenHash := id
  name := "Player"
  lnAddress := "p@example.com"
  createdAt := 0
  leaveState := .leaving

/-- The ledger of three players who leave. -/
def leaving : Ledger := { Ledger.empty with
  participants := ⟨[leaver "p", leaver "q", leaver "r"], by decide⟩ }

theorem eligible_leaving :
    Sweep.leaves.eligible leaving = [leaver "p", leaver "q", leaver "r"] := rfl

theorem select_leavers :
    Sweep.leaves.select leaving "" = [leaver "p", leaver "q", leaver "r"] := by
  have hsorted : [leaver "p", leaver "q", leaver "r"].Pairwise fun a b =>
      decide (Sweep.leaves.key a ≤ Sweep.leaves.key b) = true := by decide
  unfold Sweep.select Keyset.page
  rw [eligible_leaving, List.filter_eq_self.mpr (by decide), List.mergeSort_of_pairwise hsorted]
  rfl

theorem select_behind : Sweep.leaves.select leaving "r" = [] := by
  unfold Sweep.select Keyset.page
  rw [eligible_leaving, List.filter_eq_nil_iff.mpr (by decide), List.mergeSort_nil]
  rfl

/-- A round that fails on its first row, and one that resets. -/
def failing : Trace :=
  [⟨leaving, .running, .ok true, leaving⟩,
    ⟨leaving, .select .leaves "", .ok [leaver "p", leaver "q", leaver "r"], leaving⟩,
    ⟨leaving, .finishLeave (leaver "p"), .error (.error ()), leaving⟩,
    ⟨leaving, .finishLeave (leaver "q"), .ok (), leaving⟩,
    ⟨leaving, .finishLeave (leaver "r"), .error (.error ()), leaving⟩,
    ⟨leaving, .sleep 5, .ok (), leaving⟩]

def resetting : Trace :=
  [⟨leaving, .running, .ok true, leaving⟩,
    ⟨leaving, .select .leaves "r", .ok [], leaving⟩,
    ⟨leaving, .sleep 5, .ok (), leaving⟩]

theorem traced_failing : Traced Performs (Sweep.leaves.turn "") failing (.ok "r") :=
  .call trivial (.call ⟨select_leavers.symm, rfl⟩ (.call trivial (.call trivial (.call trivial
    (.call trivial (.done _))))))

theorem traced_resetting : Traced Performs (Sweep.leaves.turn "r") resetting (.ok "") :=
  .call trivial (.call ⟨select_behind.symm, rfl⟩ (.call trivial (.done _)))

/-- The players behind the one whose refund has failed are not missed, and
neither is that one. -/
theorem sweeps_miss_nothing_leaver :
    (∀ id ∈ ["p", "q", "r"], ([failing].flatMap processed).count id = 1) ∧
    processed failing = ["p", "q", "r"] := by
  constructor
  · intro id hid
    refine (sweeps_miss_nothing .leaves).1 [failing] "r" resetting ""
      (.cons traced_failing (.nil _)) traced_resetting ?_ ?_ id ?_ ?_
    · intro trace htrace hreset
      rw [List.mem_singleton.mp htrace] at hreset
      obtain ⟨query, hquery, hempty⟩ := hreset
      rw [show failing.filterMap queried = [("", leaving)] from rfl, List.mem_singleton] at hquery
      rw [hquery, select_leavers] at hempty
      cases hempty
    · exact ⟨("r", leaving), List.mem_singleton_self _, select_behind⟩
    · rintro rfl
      simp at hid
    · intro query hquery
      rw [show queries ([failing] ++ [resetting]) = [("", leaving), ("r", leaving)] from rfl]
        at hquery
      have hthere : Sweep.leaves.Eligible leaving id := hid
      cases List.mem_cons.mp hquery with
      | inl heq => exact heq ▸ hthere
      | inr hin => exact List.mem_singleton.mp hin ▸ hthere
  · have hpage := ((sweeps_miss_nothing .leaves).2.2 "" failing (.ok "r") traced_failing
      (by simp)).1 ("", leaving) (List.mem_singleton_self _)
    rw [hpage, select_leavers]
    rfl

end QuakeJs.Workers
