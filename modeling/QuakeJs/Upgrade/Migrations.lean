import QuakeJs.Upgrade.Sql

/-!
# `migrations.py`

The migrations from `m007` to `m012` as coroutines over a database.  They
read the columns of a table, the settings without a public id, and fresh
tokens; everything else that they do is a statement.

The tables of the extension before `m007` have names of their own, which no
statement here mentions, so a new installation and an old one start alike.
-/

namespace QuakeJs.Upgrade

open Sql Async

/-! ## The tables -/

/-- `NOT NULL` without a default.  A primary key is one, too. -/
def required (type : ColumnType) (name : String) : Column := { name, type }

def nullable (type : ColumnType) (name : String) : Column := { name, type, notNull := false }

/-- `NOT NULL DEFAULT ''`. -/
def emptyText (name : String) : Column := { name, type := .text, initial := .text "" }

/-- `NOT NULL DEFAULT n`. -/
def counter (type : ColumnType) (name : String) (n : Int) : Column :=
  { name, type, initial := .integer n }

def settingsNative : TableDef where
  name := "settings_native"
  columns := [required .text "id", required .text "wallet_id", counter .integer "enabled" 0,
    required .integer "haircut", required .bigint "updated_at"]
  unique := [["id"]]

def arenas : TableDef where
  name := "arenas"
  columns := [required .text "id", required .text "owner_id", required .text "wallet_id",
    required .text "name", required .text "map", required .integer "entry_amount",
    required .integer "haircut", counter .integer "active" 1, counter .integer "revision" 0,
    required .bigint "created_at", emptyText "run_id", emptyText "worker",
    counter .bigint "lease_until" 0]
  unique := [["id"]]

def participants : TableDef where
  name := "participants"
  columns := [required .text "id", required .text "arena_id", required .text "token_hash",
    required .text "name", required .text "ln_address", required .bigint "created_at"]
  unique := [["id"], ["arena_id", "token_hash"]]

def entries : TableDef where
  name := "entries"
  columns := [required .text "id", required .text "arena_id", required .text "player_id",
    required .text "nonce", required .text "wallet_id", required .integer "amount",
    required .integer "haircut", required .text "ln_address", required .text "status",
    nullable .text "payment_hash", nullable .text "bolt11",
    { counter .integer "remaining" 0 with least := some 0, most := some 5 },
    required .bigint "created_at", required .bigint "expires_at"]
  unique := [["id"], ["payment_hash"], ["player_id", "nonce"]]

def lives : TableDef where
  name := "lives"
  columns := [required .text "id", required .text "arena_id", required .text "player_id",
    required .text "entry_id", required .text "run_id", required .text "status",
    required .integer "slot", counter .bigint "connected_until" 0, required .bigint "created_at",
    nullable .bigint "died_at", emptyText "killer_id"]
  unique := [["id"]]

def runs : TableDef where
  name := "runs"
  columns := [required .text "id", required .text "arena_id", required .text "worker",
    required .bigint "created_at", { required .text "status" with initial := .text "running" },
    counter .bigint "event_sequence" 0]
  unique := [["id"]]

/-- The columns that the three outboxes have in common after their amount. -/
def outboxColumns : List Column :=
  [required .text "status", nullable .text "bolt11", nullable .text "payment_hash",
    counter .integer "attempts" 0, counter .bigint "next_attempt" 0,
    counter .bigint "claimed_until" 0, emptyText "claim", emptyText "error",
    required .bigint "created_at", required .bigint "updated_at"]

def payouts : TableDef where
  name := "payouts"
  columns := [required .text "id", required .text "arena_id", required .text "victim_id",
    required .text "killer_id", required .text "player_id", required .text "wallet_id",
    required .text "ln_address", { required .integer "amount" with least := some 0 }]
    ++ outboxColumns
  unique := [["id"], ["victim_id"], ["payment_hash"]]

def creatorPayouts : TableDef where
  name := "creator_payouts"
  columns := [required .text "id", required .text "arena_id", required .text "victim_id",
    required .text "killer_id", emptyText "player_id", required .text "wallet_id",
    required .text "ln_address", { required .integer "amount" with least := some 1 }]
    ++ outboxColumns
  unique := [["id"], ["victim_id"], ["payment_hash"]]

def payoutInvoiceClaims : TableDef where
  name := "payout_invoice_claims"
  columns := [required .text "payment_hash", required .text "payout_id"]
  unique := [["payment_hash"], ["payout_id"]]

def serverSettings : TableDef where
  name := "server_settings"
  columns := [{ required .integer "id" with least := some 1, most := some 1 },
    { required .integer "max_matches" with least := some 1, most := some 32 }]
  unique := [["id"]]

def refundPayouts : TableDef where
  name := "refund_payouts"
  columns := [required .text "id", required .text "arena_id", required .text "victim_id",
    emptyText "killer_id", required .text "player_id", required .text "wallet_id",
    required .text "ln_address", { required .integer "amount" with least := some 0 }]
    ++ outboxColumns
  unique := [["id"], ["victim_id"], ["payment_hash"]]

/-! ## Coroutines over a database -/

/-- What a migration awaits. -/
inductive Op
  | execute (s : Statement)
  /-- `PRAGMA table_info`, or the same from `information_schema.columns`. -/
  | columnNames (table : String)
  /-- `SELECT id FROM settings_native WHERE public_id IS NULL`. -/
  | unassigned
  /-- `secrets.token_hex`. -/
  | tokenHex

/-- What an operation returns. -/
abbrev Op.Ans : Op → Type
  | execute _ => Unit
  | columnNames _ => List String
  | unassigned => List Value
  | tokenHex => String

abbrev Coroutine := Task Op Op.Ans Error

def await (op : Op) : Coroutine op.Ans := Task.perform op

/-- A sequence of statements. -/
def statements : List Statement → Coroutine Unit
  | [] => pure ()
  | s :: rest => await (.execute s) >>= fun _ => statements rest

/-- `CREATE INDEX`, as the dialect wants it. -/
def index (dialect : Dialect) (name table : String) (columns : List String) (unique : Bool) :
    Statement :=
  match dialect with
  | .sqlite => .createIndex ⟨some "quakejs", name⟩ ⟨none, table⟩ columns unique
  | .postgres => .createIndex ⟨none, name⟩ ⟨some "quakejs", table⟩ columns unique

/-- The columns that a table with these names still lacks. -/
def missing (table : String) (names : List String) (columns : List Column) : List Statement :=
  (columns.filter (fun c => c.name ∉ names)).map (Statement.addColumn table)

/-! ## The migrations -/

/-- The statements of `m007_native_arena_ledger`. -/
def arenaLedger (dialect : Dialect) : List Statement :=
  [.createTable settingsNative, .createTable arenas, .createTable participants,
    .createTable entries, .createTable lives, .createTable runs, .createTable payouts,
    index dialect "arena_owner_idx" "arenas" ["owner_id"] false,
    index dialect "entry_status_idx" "entries" ["status", "expires_at"] false,
    index dialect "entry_player_idx" "entries" ["player_id", "remaining"] false,
    index dialect "life_arena_idx" "lives" ["arena_id", "status"] false,
    index dialect "life_player_idx" "lives" ["player_id", "status"] false,
    index dialect "payout_work_idx" "payouts" ["status", "next_attempt"] false]

/-- `m007_native_arena_ledger`. -/
def m007NativeArenaLedger (dialect : Dialect) : Coroutine Unit := statements (arenaLedger dialect)

/-- The rows that the old expiry comparison has spoiled. -/
def unprepared (r : Row) : Bool :=
  (r "status" = .text "queued" || r "status" = .text "failed") && r "payment_hash" = .null &&
    r "bolt11" = .null && r "error" = .text "Unable to obtain a valid payout invoice."

/-- What these rows are set to. -/
def unpreparedAgain : List (String × Value) :=
  [("status", .text "queued"), ("attempts", .integer 0), ("next_attempt", .integer 0),
    ("error", .text "")]

/-- `m008_retry_unprepared_payouts`. -/
def m008RetryUnpreparedPayouts : Coroutine Unit :=
  statements [.update "payouts" unpreparedAgain unprepared]

/-- The columns that `m009` adds to `settings_native` and to `arenas`. -/
def settingsColumns : List Column :=
  [counter .integer "allow_public_creation" 0, nullable .text "public_id"]
def arenaColumns : List Column :=
  [counter .integer "is_public" 0, counter .integer "creator_haircut" 0,
    emptyText "creator_ln_address", nullable .text "public_nonce", nullable .bigint "idle_since",
    counter .integer "lobby_hidden" 0]

/-- The loop over the settings without a public id. -/
def assignPublicIds : List Value → Coroutine Unit
  | [] => pure ()
  | id :: rest => do
    let token ← (await .tokenHex : Coroutine String)
    let _ ← await (.execute (.update "settings_native" [("public_id", .text token)]
      (fun r => r "id" = id)))
    assignPublicIds rest

/-- The invoices of the payouts, as rows of `payout_invoice_claims`. -/
def claimRows (db : Db) : List Row :=
  ((db.rows "payouts").filter (fun r => r "payment_hash" ≠ .null)).map fun r =>
    payoutInvoiceClaims.row [("payment_hash", r "payment_hash"), ("payout_id", r "id")]

/-- The statements of `m009_public_lobbies` after its loop. -/
def lobbies (dialect : Dialect) : List Statement :=
  [index dialect "lobby_public_id_idx" "settings_native" ["public_id"] true,
    index dialect "public_arena_nonce_idx" "arenas" ["owner_id", "public_nonce"] true,
    index dialect "lobby_arena_idx" "arenas" ["owner_id", "active", "lobby_hidden"] false,
    index dialect "lobby_score_idx" "payouts" ["arena_id", "status", "ln_address"] false,
    .createTable creatorPayouts,
    index dialect "creator_work_idx" "creator_payouts" ["status", "next_attempt"] false,
    index dialect "creator_arena_idx" "creator_payouts" ["arena_id", "created_at"] false,
    .createTable payoutInvoiceClaims,
    .insert "payout_invoice_claims" claimRows "payment_hash"]

/-- `m009_public_lobbies`. -/
def m009PublicLobbies (dialect : Dialect) : Coroutine Unit := do
  let settingsNames ← (await (.columnNames "settings_native") : Coroutine (List String))
  let arenaNames ← (await (.columnNames "arenas") : Coroutine (List String))
  statements (missing "settings_native" settingsNames settingsColumns ++
    missing "arenas" arenaNames arenaColumns)
  let ids ← (await .unassigned : Coroutine (List Value))
  assignPublicIds ids
  statements (lobbies dialect)

/-- The statements of `m010_server_capacity`. -/
def serverCapacity : List Statement :=
  [.createTable serverSettings, .insert "server_settings"
    (fun _ => [serverSettings.row [("id", .integer 1), ("max_matches", .integer 4)]]) "id"]

/-- `m010_server_capacity`. -/
def m010ServerCapacity : Coroutine Unit := statements serverCapacity

/-- `m011_admin_arena_closure`.  It does not look at the columns first. -/
def m011AdminArenaClosure : Coroutine Unit :=
  statements [.addColumn "arenas" (counter .integer "admin_closed" 0)]

/-- The statements of `m012_leave_refunds` after the new column. -/
def leaveRefunds (dialect : Dialect) : List Statement :=
  [.createTable refundPayouts,
    index dialect "refund_work_idx" "refund_payouts" ["status", "next_attempt"] false,
    index dialect "refund_player_idx" "refund_payouts" ["player_id"] false,
    index dialect "leave_work_idx" "participants" ["leave_state", "id"] false]

/-- `m012_leave_refunds`. -/
def m012LeaveRefunds (dialect : Dialect) : Coroutine Unit := do
  let names ← (await (.columnNames "participants") : Coroutine (List String))
  statements (missing "participants" names [emptyText "leave_state"])
  statements (leaveRefunds dialect)

inductive Migration
  | nativeArenaLedger | retryUnpreparedPayouts | publicLobbies | serverCapacity
  | adminArenaClosure | leaveRefunds
deriving DecidableEq, Repr

def Migration.task (dialect : Dialect) : Migration → Coroutine Unit
  | nativeArenaLedger => m007NativeArenaLedger dialect
  | retryUnpreparedPayouts => m008RetryUnpreparedPayouts
  | publicLobbies => m009PublicLobbies dialect
  | serverCapacity => m010ServerCapacity
  | adminArenaClosure => m011AdminArenaClosure
  | leaveRefunds => m012LeaveRefunds dialect

/-- The migration that comes after this one. -/
def Migration.next : Migration → Option Migration
  | nativeArenaLedger => some retryUnpreparedPayouts
  | retryUnpreparedPayouts => some publicLobbies
  | publicLobbies => some serverCapacity
  | serverCapacity => some adminArenaClosure
  | adminArenaClosure => some leaveRefunds
  | leaveRefunds => none

/-! ## Runs and interruptions -/

/-- The database, and the number of tokens that were drawn. -/
structure World where
  db : Db
  drawn : Nat

/-- The ids of the settings without a public id. -/
def unassignedIds (rows : List Row) : List Value :=
  (rows.filter (fun r => r "public_id" = .null)).map fun r => r "id"

section

variable (dialect : Dialect) (tokens : Nat → String)

def perform (w : World) : (op : Op) → Except Error (op.Ans × World)
  | .execute s => (execute dialect s w.db).map fun db => ((), { w with db })
  | .columnNames table => pure (w.db.columnNames table, w)
  | .unassigned => do
    require ("public_id" ∈ w.db.columnNames "settings_native") (.noSuchColumn "public_id")
    pure (unassignedIds (w.db.rows "settings_native"), w)
  | .tokenHex => pure (tokens w.drawn, { w with drawn := w.drawn + 1 })

/-- A migration that runs to its end. -/
def run {α : Type} : Coroutine α → World → Except (Raised Error) (α × World)
  | .done result, w => result.map fun a => (a, w)
  | .call op next, w =>
    match perform dialect tokens w op with
    | .ok (a, w') => run (next (.ok a)) w'
    | .error e => run (next (.error (.error e))) w

/-- A migration that started in the first world is interrupted in the second:
what it had executed is committed. -/
inductive Interrupted {α : Type} : Coroutine α → World → World → Prop
  | here (task : Coroutine α) (w : World) : Interrupted task w w
  | later {op : Op} {next : Except (Raised Error) op.Ans → Coroutine α} {a : op.Ans}
      {w w₁ w₂ : World} (does : perform dialect tokens w op = .ok (a, w₁))
      (rest : Interrupted (next (.ok a)) w₁ w₂) : Interrupted (.call op next) w w₂

end

section

variable {dialect : Dialect} {tokens : Nat → String} {α β : Type}

theorem perform_execute_ok {w w' : World} {s : Statement} {u : Unit}
    (h : perform dialect tokens w (.execute s) = .ok (u, w')) :
    execute dialect s w.db = .ok w'.db ∧ w'.drawn = w.drawn := by
  simp only [perform] at h
  cases hone : execute dialect s w.db with
  | error e =>
    rw [hone] at h
    cases h
  | ok db =>
    rw [hone] at h
    obtain ⟨-, rfl⟩ := Prod.mk.inj (Except.ok.inj h)
    exact ⟨rfl, rfl⟩

theorem perform_drawn {w w' : World} {op : Op} {a : op.Ans}
    (h : perform dialect tokens w op = .ok (a, w')) : w.drawn ≤ w'.drawn := by
  cases op with
  | execute s => exact Nat.le_of_eq (perform_execute_ok h).2.symm
  | columnNames table =>
    obtain ⟨-, rfl⟩ := Prod.mk.inj (Except.ok.inj h)
    exact Nat.le_refl _
  | unassigned =>
    simp only [perform, bind_ok_iff, pure_ok_iff, Prod.mk.injEq] at h
    obtain ⟨_, -, -, rfl⟩ := h
    exact Nat.le_refl _
  | tokenHex =>
    obtain ⟨-, rfl⟩ := Prod.mk.inj (Except.ok.inj h)
    exact Nat.le_succ _

/-- Tokens are drawn, and not put back. -/
theorem interrupted_drawn {task : Coroutine α} {w w' : World}
    (h : Interrupted dialect tokens task w w') : w.drawn ≤ w'.drawn := by
  induction h with
  | here => exact Nat.le_refl _
  | later does rest ih => exact Nat.le_trans (perform_drawn does) ih

theorem run_call {op : Op} {next : Except (Raised Error) op.Ans → Coroutine α} {w w' : World}
    {a : op.Ans} (h : perform dialect tokens w op = .ok (a, w')) :
    run dialect tokens (.call op next) w = run dialect tokens (next (.ok a)) w' := by
  rw [run, h]

theorem run_call_error {op : Op} {next : Except (Raised Error) op.Ans → Coroutine α} {w : World}
    {e : Error} (h : perform dialect tokens w op = .error e) :
    run dialect tokens (.call op next) w = run dialect tokens (next (.error (.error e))) w := by
  rw [run, h]

theorem run_bind {task : Coroutine α} {f : α → Coroutine β} {w w' : World} {a : α}
    (h : run dialect tokens task w = .ok (a, w')) :
    run dialect tokens (task >>= f) w = run dialect tokens (f a) w' := by
  induction task generalizing w with
  | done result =>
    cases result with
    | error raised => cases h
    | ok b =>
      obtain ⟨rfl, rfl⟩ := Prod.mk.inj (Except.ok.inj h)
      rfl
  | call op next ih =>
    show run dialect tokens (.call op fun outcome => next outcome >>= f) w = _
    cases hop : perform dialect tokens w op with
    | error e =>
      rw [run_call_error hop] at h ⊢
      exact ih _ h
    | ok answer =>
      obtain ⟨b, w₁⟩ := answer
      rw [run_call hop] at h ⊢
      exact ih _ h

/-- A sequence that runs to its end has run its first part. -/
theorem run_bind_ok {task : Coroutine α} {f : α → Coroutine β} {w w' : World} {b : β}
    (h : run dialect tokens (task >>= f) w = .ok (b, w')) :
    ∃ a w₁, run dialect tokens task w = .ok (a, w₁) ∧
      run dialect tokens (f a) w₁ = .ok (b, w') := by
  induction task generalizing w with
  | done result =>
    cases result with
    | error raised => cases h
    | ok a => exact ⟨a, w, rfl, h⟩
  | call op next ih =>
    have h : run dialect tokens (.call op fun outcome => next outcome >>= f) w = .ok (b, w') := h
    cases hop : perform dialect tokens w op with
    | error e =>
      rw [run_call_error hop] at h ⊢
      exact ih _ h
    | ok answer =>
      obtain ⟨a, w₁⟩ := answer
      rw [run_call hop] at h ⊢
      exact ih _ h

/-- A sequence is interrupted in its first part, or after it. -/
theorem interrupted_bind {task : Coroutine α} {f : α → Coroutine β} {w w' : World}
    (h : Interrupted dialect tokens (task >>= f) w w') :
    Interrupted dialect tokens task w w' ∨ ∃ a w₁, run dialect tokens task w = .ok (a, w₁) ∧
      Interrupted dialect tokens (f a) w₁ w' := by
  induction task generalizing w with
  | done result =>
    cases result with
    | error raised =>
      cases h
      exact .inl (.here _ _)
    | ok a => exact .inr ⟨a, w, rfl, h⟩
  | call op next ih =>
    cases h with
    | here => exact .inl (.here _ _)
    | later does rest =>
      rcases ih _ rest with hfirst | ⟨a, w₁, hrun, hsecond⟩
      · exact .inl (.later does hfirst)
      · exact .inr ⟨a, w₁, (run_call does).trans hrun, hsecond⟩

theorem run_await {op : Op} {f : op.Ans → Coroutine β} {w w' : World} {a : op.Ans}
    (h : perform dialect tokens w op = .ok (a, w')) :
    run dialect tokens (await op >>= f) w = run dialect tokens (f a) w' :=
  run_bind (run_call h)

theorem run_await_ok {op : Op} {f : op.Ans → Coroutine β} {w w' : World} {b : β}
    (h : run dialect tokens (await op >>= f) w = .ok (b, w')) :
    ∃ a w₁, perform dialect tokens w op = .ok (a, w₁) ∧
      run dialect tokens (f a) w₁ = .ok (b, w') := by
  cases hop : perform dialect tokens w op with
  | error e =>
    rw [show run dialect tokens (await op >>= f) w = .error
      (.error e) from run_call_error hop] at h
    cases h
  | ok answer =>
    obtain ⟨a, w₁⟩ := answer
    exact ⟨a, w₁, rfl, (run_await hop).symm.trans h⟩

theorem interrupted_await {op : Op} {f : op.Ans → Coroutine β} {w w' : World}
    (h : Interrupted dialect tokens (await op >>= f) w w') :
    w' = w ∨ ∃ a w₁, perform dialect tokens w op = .ok (a, w₁) ∧
      Interrupted dialect tokens (f a) w₁ w' := by
  cases h with
  | here => exact .inl rfl
  | later does rest => exact .inr ⟨_, _, does, rest⟩

theorem run_statements {l : List Statement} {w : World} {db : Db}
    (h : runAll (execute dialect) l w.db = .ok db) :
    run dialect tokens (statements l) w = .ok ((), { w with db }) := by
  induction l generalizing w with
  | nil =>
    obtain rfl : w.db = db := Except.ok.inj h
    rfl
  | cons s l ih =>
    obtain ⟨db₁, hone, hrest⟩ := runAll_cons_ok.mp h
    have hperform : perform dialect tokens w (.execute s) = .ok ((), { w with db := db₁ }) := by
      simp only [perform, hone]
      rfl
    exact (run_await hperform).trans (ih hrest)

theorem run_statements_error {s : Statement} {l : List Statement} {w : World} {e : Error}
    (h : execute dialect s w.db = .error e) :
    run dialect tokens (statements (s :: l)) w = .error (.error e) := by
  have hperform : perform dialect tokens w (.execute s) = .error e := by
    simp only [perform, h]
    rfl
  exact run_call_error hperform

/-- Statements that run to their end have all been executed. -/
theorem run_statements_ok {l : List Statement} {w w' : World}
    (h : run dialect tokens (statements l) w = .ok ((), w')) :
    runAll (execute dialect) l w.db = .ok w'.db := by
  induction l generalizing w with
  | nil =>
    obtain ⟨-, rfl⟩ := Prod.mk.inj (Except.ok.inj h)
    rfl
  | cons s l ih =>
    obtain ⟨_, w₁, hperform, hrest⟩ := run_await_ok h
    exact runAll_cons_ok.mpr ⟨w₁.db, (perform_execute_ok hperform).1, ih hrest⟩

/-- Of a list of statements, a part was committed. -/
theorem interrupted_statements {l : List Statement} {w w' : World}
    (h : Interrupted dialect tokens (statements l) w w') :
    ∃ k, runAll (execute dialect) (l.take k) w.db = .ok w'.db ∧ w'.drawn = w.drawn := by
  induction l generalizing w with
  | nil =>
    cases h
    exact ⟨0, rfl, rfl⟩
  | cons s l ih =>
    rcases interrupted_await h with rfl | ⟨_, w₁, hperform, hrest⟩
    · exact ⟨0, rfl, rfl⟩
    · obtain ⟨hone, hdrawn⟩ := perform_execute_ok hperform
      obtain ⟨k, hpart, hdrawn'⟩ := ih hrest
      exact ⟨k + 1, runAll_cons_ok.mpr ⟨w₁.db, hone, hpart⟩, hdrawn'.trans hdrawn⟩

end

end QuakeJs.Upgrade
