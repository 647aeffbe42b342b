import QuakeJs.Async.Task
import QuakeJs.Ledger.Run

/-!
# The sale of an entry: `create_entry` of `payments.py`

`create_entry` as a coroutine.  It reserves a row in one transaction, asks the
wallet for an invoice without holding a lock, stores the invoice, and reads
the row, the arena and the player again before it shows the invoice.

`World` is what the calls share: the ledger, the wall clock, and the entries
for which `create_invoice` was called, which is not in the source.
-/

namespace QuakeJs.Entries

open Async

/-- What is raised in `create_entry`. -/
inductive Fault
  | ledger (e : LedgerError)
  /-- Whatever the wallet raises, or the `TimeoutError` of `fail_after`. -/
  | provider
deriving DecidableEq, Repr

/-- `PublicError`. -/
def Fault.publicError (message : String) : Fault := .ledger (.publicError message)

/-- The keyword arguments of `create_invoice`. -/
structure InvoiceArguments where
  walletId : String
  amount : Int
  memo : String
  expiry : Int
  extension : String
  tag : String
  quakejsEntry : Uid
  externalId : Uid
deriving DecidableEq, Repr

/-- The result of `create_entry`. -/
structure ShownInvoice where
  playerToken : String
  paymentHash : Option String
  paymentRequest : Option String
  expiresAt : Int
  nonce : String
deriving DecidableEq, Repr

/-- What `create_entry` awaits.  `create_invoice` is two operations: the call
is made, and later it returns.  `respond` hands the result to the caller. -/
inductive Op
  | reserveEntry (arenaId token : String) (data : EntryInput)
  | createInvoice (arguments : InvoiceArguments)
  | createInvoiceResult
  | recordInvoice (entryId : Uid) (payment : Payment)
  | settleEntry (payment : Payment)
  | readEntry (entryId : Uid)
  | readActive (arenaId : Uid)
  | readLeaveState (playerId : Uid)
  | now
  | respond (arenaId : Uid) (shown : ShownInvoice)

/-- What an operation returns. -/
abbrev Op.Ans : Op → Type
  | reserveEntry .. => Entry × Bool
  | createInvoice _ => Unit
  | createInvoiceResult => Payment
  | recordInvoice .. => Unit
  | settleEntry _ => Unit
  | readEntry _ => Option Entry
  | readActive _ => Option Bool
  | readLeaveState _ => Option LeaveState
  | now => Int
  | respond .. => Unit

abbrev Coroutine := Task Op Op.Ans Fault

def await (op : Op) : Coroutine op.Ans := Task.perform op

/-! ## `create_entry` -/

/-- What `create_entry` passes to `create_invoice`. -/
def invoiceArguments (entry : Entry) : InvoiceArguments where
  walletId := entry.walletId
  amount := entry.amount
  memo := "QuakeJS: five lives"
  expiry := 300
  extension := "quakejs"
  tag := "quakejs"
  quakejsEntry := entry.id
  externalId := entry.id

/-- The `try` of a new entry. -/
def fetchInvoice (entry : Entry) : Coroutine Unit := do
  let _ ← await (.createInvoice (invoiceArguments entry))
  let payment ← (await .createInvoiceResult : Coroutine Payment)
  let _ ← await (.recordInvoice entry.id payment)
  await (.settleEntry payment)

/-- `if entry.get("_new")`. -/
def prepareEntry (entry : Entry) (new : Bool) : Coroutine Entry :=
  if new then do
    let _ ← (fetchInvoice entry).handle fun _ => Task.raise (.publicError
      "Invoice creation is pending. Retry shortly; do not create another entry.")
    let again ← (await (.readEntry entry.id) : Coroutine (Option Entry))
    match again with
    | none => Task.raise (.ledger .typeError)
    | some entry => return entry
  else pure entry

/-- The last reads of `create_entry`, and its result. -/
def showInvoice (arenaId token : String) (entry : Entry) : Coroutine ShownInvoice := do
  let time ← (await .now : Coroutine Int)
  if entry.expiresAt ≤ time ∧ entry.status ≠ .paid then
    Task.raise (.publicError "Invoice expired. Create a new invoice for five lives.") else
  if truthy entry.bolt11 = false then
    Task.raise (.publicError "Your invoice is being prepared. Please retry shortly.") else
  let active ← (await (.readActive arenaId) : Coroutine (Option Bool))
  if active ≠ some true then
    Task.raise (.publicError "This arena has been closed. Do not pay its invoice.") else
  let state ← (await (.readLeaveState entry.playerId) : Coroutine (Option LeaveState))
  match state with
  | none => Task.raise (.ledger .typeError)
  | some state =>
    if state ≠ .none then
      Task.raise (.publicError "You have left this game. Do not pay its invoice.") else
    return {
      playerToken := token
      paymentHash := entry.paymentHash
      paymentRequest := entry.bolt11
      expiresAt := entry.expiresAt
      nonce := entry.nonce }

/-- `create_entry`. -/
def createEntry (arenaId token : String) (data : EntryInput) : Coroutine ShownInvoice := do
  let (entry, new) ← (await (.reserveEntry arenaId token data) : Coroutine (Entry × Bool))
  let entry ← prepareEntry entry new
  showInvoice arenaId token entry

/-- A request for an entry. -/
def request (arenaId token : String) (data : EntryInput) : Coroutine Unit := do
  let shown ← createEntry arenaId token data
  await (.respond arenaId shown)

/-! ## The world of the calls -/

/-- `called` has the ids that `create_invoice` was called for, the newest
first. -/
structure World where
  ledger : Ledger
  clock : Int
  called : List Uid

section

variable (sha256 : String → String) (moves : Int → Int → Prop)

/-- A transaction runs in an environment with fresh ids, once the clock has
moved on, as far as `moves` lets it. -/
structure Runs (env : Env) (w : World) : Prop where
  fresh : Env.Fresh env w.ledger
  later : moves w.clock env.now
  hash : env.sha256 = sha256

/-- The world after a transaction. -/
def World.commits (w : World) (env : Env) (σ : Ledger) : World :=
  { w with
    ledger := σ
    clock := env.now }

/-- What an operation does when it runs to its end. -/
def Effect (op : Op) (w : World) (result : Except LedgerError op.Ans) (w' : World) : Prop :=
  match op with
  | .reserveEntry arenaId token data => ∃ env, Runs sha256 moves env w ∧
      ((∃ r σ, Ledger.reserveEntry env arenaId token data w.ledger = .ok (r, σ) ∧
        result = .ok r ∧ w' = w.commits env σ) ∨
      (∃ e, Ledger.reserveEntry env arenaId token data w.ledger = .error e ∧
        result = .error e ∧ w' = w))
  | .recordInvoice entryId payment => ∃ env, Runs sha256 moves env w ∧
      ((∃ σ, Ledger.recordInvoice entryId payment w.ledger = .ok σ ∧
        result = .ok () ∧ w' = w.commits env σ) ∨
      (∃ e, Ledger.recordInvoice entryId payment w.ledger = .error e ∧
        result = .error e ∧ w' = w))
  | .settleEntry payment => ∃ env, Runs sha256 moves env w ∧
      ((∃ arena? σ, Ledger.settleEntry env payment w.ledger = .ok (arena?, σ) ∧
        result = .ok () ∧ w' = w.commits env σ) ∨
      (∃ e, Ledger.settleEntry env payment w.ledger = .error e ∧
        result = .error e ∧ w' = w))
  | .createInvoice arguments => result = .ok () ∧
      w' = { w with
        called := arguments.externalId :: w.called }
  | .readEntry entryId => result = .ok (w.ledger.entries.get? entryId) ∧ w' = w
  | .readActive arenaId => result = .ok ((w.ledger.arenas.get? arenaId).map Arena.active) ∧ w' = w
  | .readLeaveState playerId =>
      result = .ok ((w.ledger.participants.get? playerId).map Participant.leaveState) ∧ w' = w
  | .now => ∃ time, moves w.clock time ∧ result = .ok time ∧
      w' = { w with
        clock := time }
  | .createInvoiceResult => w' = w
  | .respond .. => w' = w

/-- An operation runs to its end, or raises without having done anything, or
has done what it does and still raises. -/
def Performs (op : Op) (w : World) (outcome : Except (Raised Fault) op.Ans) (w' : World) : Prop :=
  (∃ result, Effect sha256 moves op w result w' ∧
    (outcome = result.mapError (fun e => .error (.ledger e)) ∨
      ∃ raised, outcome = .error raised)) ∨
  (w' = w ∧ ∃ raised, outcome = .error raised)

/-- The rest of the extension commits one of its transactions, or time passes. -/
def Outside (w w' : World) : Prop :=
  (∃ env a σ, Runs sha256 moves env w ∧ perform env a w.ledger = .ok σ ∧ w' = w.commits env σ) ∨
  ∃ time, moves w.clock time ∧ w' = { w with
    clock := time }

/-- A crash of the process leaves the world as it is. -/
def Crashes (w w' : World) : Prop := w' = w

/-- The requests. -/
def Starts (task : Coroutine Unit) : Prop :=
  ∃ arenaId token data, task = request arenaId token data

/-- Any number of requests, from the empty ledger on, with a log of the
answers that they got. -/
abbrev Logs (start : Int)
    (pool : Pool Op Op.Ans Fault (World × List (Answer Op Op.Ans Fault))) : Prop :=
  Pool.Reachable (Logged (Performs sha256 moves)) Starts
    (Unlogged (Outside sha256 moves)) (Unlogged Crashes)
    (⟨Ledger.empty, start, []⟩, []) pool

/-- A step of such a pool. -/
abbrev Steps (pool pool' : Pool Op Op.Ans Fault (World × List (Answer Op Op.Ans Fault))) : Prop :=
  Pool.Step (Logged (Performs sha256 moves)) Starts
    (Unlogged (Outside sha256 moves)) (Unlogged Crashes) pool
    pool'

end

end QuakeJs.Entries
