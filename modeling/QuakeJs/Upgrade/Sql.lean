import QuakeJs.Async.Task
import QuakeJs.Data.Fallible
import Mathlib.Data.List.Nodup

/-!
# A database under upgrade

The statements that change a database: tables, columns and indexes are added,
and rows are updated or inserted.  Each statement commits on its own, or
raises and changes nothing.

* `Db` and `execute`: a database, and what a statement makes of it.
* `Settled`, `Keeps` and `resume`: a list of statements can be run again from
  its start after any part of it has been run.
* `ensure` and `addMissing`: columns that are added unless they are there.
-/

namespace QuakeJs.Sql

inductive Dialect | sqlite | postgres
deriving DecidableEq, Repr

inductive Value
  | null
  | integer (n : Int)
  | text (s : String)
deriving DecidableEq, Repr

inductive ColumnType | text | integer | bigint
deriving DecidableEq, Repr

/-- A column; `least` and `most` are those of a `CHECK`, and `initial` is the
`DEFAULT`. -/
structure Column where
  name : String
  type : ColumnType
  notNull : Bool := true
  initial : Value := .null
  least : Option Int := none
  most : Option Int := none
deriving DecidableEq, Repr

/-- A table; `unique` has the primary key too. -/
structure TableDef where
  name : String
  columns : List Column
  unique : List (List String)
deriving DecidableEq, Repr

structure Index where
  name : String
  table : String
  columns : List String
  unique : Bool
deriving DecidableEq, Repr

/-- A row, by column name. -/
abbrev Row := String → Value

structure Db where
  tables : List TableDef
  indexes : List Index
  rows : String → List Row

/-- A name that may say its schema. -/
structure Ident where
  schema : Option String
  name : String
deriving DecidableEq, Repr

inductive Statement
  /-- `CREATE TABLE IF NOT EXISTS` -/
  | createTable (table : TableDef)
  /-- `CREATE INDEX IF NOT EXISTS` -/
  | createIndex (index target : Ident) (columns : List String) (unique : Bool)
  /-- `ALTER TABLE ... ADD COLUMN` -/
  | addColumn (table : String) (column : Column)
  /-- `UPDATE ... SET ... WHERE` -/
  | update (table : String) (values : List (String × Value)) (where' : Row → Bool)
  /-- `INSERT INTO ... SELECT ... ON CONFLICT(conflict) DO NOTHING` -/
  | insert (table : String) (select : Db → List Row) (conflict : String)

inductive Error
  | duplicateColumn (name : String)
  | noSuchTable (name : String)
  | noSuchColumn (name : String)
  | syntaxError (name : String)
  | integrityError (table : String)
deriving DecidableEq, Repr

/-! ## What a statement does -/

/-- The row after `SET`. -/
def Row.set (values : List (String × Value)) (r : Row) : Row := fun name =>
  (values.lookup name).getD (r name)

def TableDef.withColumns (t : TableDef) (columns : List Column) : TableDef :=
  { t with columns := t.columns ++ columns }

namespace Db

/-- A database without tables. -/
def empty : Db := ⟨[], [], fun _ => []⟩

def table? (db : Db) (name : String) : Option TableDef := db.tables.find? (fun t => t.name = name)

/-- The names of the columns of a table, none if it does not exist. -/
def columnNames (db : Db) (table : String) : List String :=
  (db.table? table).elim [] (fun t => t.columns.map Column.name)

/-- The constraints of a table that no two of its rows may break. -/
def uniques (db : Db) (table : String) : List (List String) :=
  (db.table? table).elim [] TableDef.unique ++
    (db.indexes.filter (fun i => i.unique && i.table = table)).map Index.columns

def withRows (db : Db) (table : String) (rows : List Row) : Db :=
  { db with rows := fun t => if t = table then rows else db.rows t }

def addTable (db : Db) (table : TableDef) : Db :=
  { db.withRows table.name [] with tables := db.tables ++ [table] }

def addIndex (db : Db) (index : Index) : Db := { db with indexes := db.indexes ++ [index] }

/-- The column is added with its default in every row. -/
def addColumn (db : Db) (table : String) (column : Column) : Db :=
  { db.withRows table ((db.rows table).map (Row.set [(column.name, column.initial)])) with
    tables := db.tables.map fun t => if t.name = table then t.withColumns [column] else t }

end Db

/-- Two rows have the same values there, and none of them is `NULL`. -/
def Row.clashes (columns : List String) (r s : Row) : Bool :=
  columns.all (fun c => r c = s c && r c ≠ .null)

/-- No two of the rows clash. -/
def distinctOn (columns : List String) (rows : List Row) : Bool :=
  decide (rows.Pairwise fun r s => Row.clashes columns r s = false)

/-- The value meets `NOT NULL` and the `CHECK`, which `NULL` passes. -/
def Column.accepts (c : Column) (value : Value) : Bool :=
  match value with
  | .null => !c.notNull
  | .integer n => c.least.all (· ≤ n) && c.most.all (n ≤ ·)
  | .text _ => true

def TableDef.accepts (t : TableDef) (r : Row) : Bool :=
  t.columns.all (fun c => c.accepts (r c.name))

/-- The row with these values, and the defaults elsewhere. -/
def TableDef.row (t : TableDef) (values : List (String × Value)) : Row := fun name =>
  (values.lookup name).getD ((t.columns.find? (fun c => c.name = name)).elim .null Column.initial)

/-- The names that `CREATE INDEX` gives to the index and to its table: SQLite
qualifies the one, PostgreSQL the other. -/
def resolve (dialect : Dialect) (index target : Ident) : Except Error (String × String) :=
  match dialect with
  | .sqlite => do
    require (target.schema = none) (.syntaxError target.name)
    pure (index.name, target.name)
  | .postgres => do
    require (index.schema = none) (.syntaxError index.name)
    pure (index.name, target.name)

/-- One row of an `INSERT ... ON CONFLICT(conflict) DO NOTHING`. -/
def insertRow (table : TableDef) (conflict : String) (db : Db) (r : Row) : Except Error Db :=
  if (db.rows table.name).any (Row.clashes [conflict] r) then pure db
  else do
    require (table.accepts r = true) (.integrityError table.name)
    require (((db.uniques table.name).all fun u => (db.rows table.name).all fun s =>
      !Row.clashes u s r) = true) (.integrityError table.name)
    pure (db.withRows table.name (db.rows table.name ++ [r]))

/-- A statement, which raises or is committed.  An `UPDATE` checks the
constraints of the columns that it writes. -/
def execute (dialect : Dialect) (s : Statement) (db : Db) : Except Error Db :=
  match s with
  | .createTable table =>
    if (db.table? table.name).isSome then pure db
    else pure (db.addTable table)
  | .createIndex index target columns unique => do
    let (name, table) ← resolve dialect index target
    if db.indexes.any (fun i => i.name = name) then pure db
    else do
      require ((db.table? table).isSome = true) (.noSuchTable table)
      require ((columns.all fun c => c ∈ db.columnNames table) = true) (.noSuchColumn table)
      require (unique = true → distinctOn columns (db.rows table) = true) (.integrityError table)
      pure (db.addIndex ⟨name, table, columns, unique⟩)
  | .addColumn table column => do
    require ((db.table? table).isSome = true) (.noSuchTable table)
    require (column.name ∉ db.columnNames table) (.duplicateColumn column.name)
    require (column.notNull = true → column.initial ≠ .null) (.integrityError table)
    pure (db.addColumn table column)
  | .update table values where' => do
    let t ← orRaise (db.table? table) (.noSuchTable table)
    let rows := (db.rows table).map fun r => if where' r then r.set values else r
    let written := values.map Prod.fst
    require ((written.all fun c => c ∈ db.columnNames table) = true) (.noSuchColumn table)
    require ((t.columns.all fun c => c.name ∉ written || rows.all fun r =>
      c.accepts (r c.name)) = true)
      (.integrityError table)
    require (((db.uniques table).all fun u => u.all
      (fun c => c ∉ written) || distinctOn u rows) = true)
      (.integrityError table)
    pure (db.withRows table rows)
  | .insert table select conflict => do
    let t ← orRaise (db.table? table) (.noSuchTable table)
    (select db).foldlM (insertRow t conflict) db

/-- Every row keeps the constraints of its table. -/
def Db.Valid (db : Db) : Prop :=
  ∀ t ∈ db.tables, (∀ r ∈ db.rows t.name, t.accepts r = true) ∧
    ∀ u ∈ db.uniques t.name, distinctOn u (db.rows t.name) = true

/-! ## Lists of steps that can be run again -/

section

variable {ι σ ε : Type} {step : ι → σ → Except ε σ}

/-- The steps, one after the other. -/
def runAll (step : ι → σ → Except ε σ) (l : List ι) (s : σ) : Except ε σ :=
  l.foldlM (fun s i => step i s) s

/-- The step has nothing to do. -/
def Settled (step : ι → σ → Except ε σ) (i : ι) (s : σ) : Prop := step i s = .ok s

/-- What is settled for `i` stays settled after `j`. -/
def Keeps (step : ι → σ → Except ε σ) (i j : ι) : Prop :=
  ∀ s s', Settled step i s → step j s = .ok s' → Settled step i s'

@[simp] theorem runAll_nil (s : σ) : runAll step [] s = .ok s := rfl

theorem runAll_cons_ok {i : ι} {l : List ι} {s s' : σ} :
    runAll step (i :: l) s = .ok s' ↔ ∃ s₁, step i s = .ok s₁ ∧ runAll step l s₁ = .ok s' := by
  unfold runAll
  rw [List.foldlM_cons, bind_ok_iff]

theorem runAll_append_ok {l l' : List ι} {s s' : σ} :
    runAll step (l ++ l') s = .ok s' ↔
      ∃ s₁, runAll step l s = .ok s₁ ∧ runAll step l' s₁ = .ok s' := by
  unfold runAll
  rw [List.foldlM_append, bind_ok_iff]

/-- Steps that are all settled do nothing. -/
theorem runAll_settled {l : List ι} {s : σ} (h : ∀ i ∈ l, Settled step i s) :
    runAll step l s = .ok s := by
  induction l with
  | nil => rfl
  | cons i l ih =>
    rw [runAll_cons_ok]
    exact ⟨s, h i List.mem_cons_self, ih fun j hj => h j (List.mem_cons_of_mem i hj)⟩

/-- A property that every step keeps. -/
theorem runAll_invariant {P : σ → Prop} {l : List ι} {s s' : σ}
    (hstep : ∀ i ∈ l, ∀ s s', P s → step i s = .ok s' → P s') (hP : P s)
    (h : runAll step l s = .ok s') : P s' := by
  induction l generalizing s with
  | nil =>
    cases h
    exact hP
  | cons i l ih =>
    obtain ⟨s₁, hone, hrest⟩ := runAll_cons_ok.mp h
    exact ih (fun j hj => hstep j (List.mem_cons_of_mem i hj))
      (hstep i List.mem_cons_self s s₁ hP hone) hrest

/-- After a run of the steps each of them is settled. -/
theorem settled_of_runAll {l : List ι} {s s' : σ}
    (hsettle : ∀ i ∈ l, ∀ s s', step i s = .ok s' → Settled step i s')
    (hkeeps : l.Pairwise (Keeps step)) (h : runAll step l s = .ok s') :
    ∀ i ∈ l, Settled step i s' := by
  induction l generalizing s with
  | nil => exact fun i hi => absurd hi List.not_mem_nil
  | cons j l ih =>
    obtain ⟨s₁, hone, hrest⟩ := runAll_cons_ok.mp h
    obtain ⟨hfirst, hothers⟩ := List.pairwise_cons.mp hkeeps
    intro i hi
    rcases List.mem_cons.mp hi with rfl | hi
    · have hstart : Settled step i s₁ := hsettle i List.mem_cons_self s s₁ hone
      exact runAll_invariant (fun k hk s s' => hfirst k hk s s') hstart hrest
    · exact ih (fun k hk => hsettle k (List.mem_cons_of_mem j hk)) hothers hrest i hi

/-- After any part of the steps has been run, a run from the start ends as it
would have ended without the interruption. -/
theorem resume {l : List ι} {k : Nat} {s s₁ s₂ : σ}
    (hsettle : ∀ i ∈ l, ∀ s s', step i s = .ok s' → Settled step i s')
    (hkeeps : l.Pairwise (Keeps step)) (hpart : runAll step (l.take k) s = .ok s₁)
    (hwhole : runAll step l s = .ok s₂) : runAll step l s₁ = .ok s₂ := by
  have hsettled : ∀ i ∈ l.take k, Settled step i s₁ :=
    settled_of_runAll (fun i hi => hsettle i (List.mem_of_mem_take hi))
      (hkeeps.sublist (List.take_sublist k l)) hpart
  rw [← List.take_append_drop k l, runAll_append_ok] at hwhole ⊢
  obtain ⟨s₃, hpart', hrest⟩ := hwhole
  rw [hpart] at hpart'
  cases hpart'
  exact ⟨s₁, runAll_settled hsettled, hrest⟩

end

/-! ## Tables and indexes -/

section

variable {dialect : Dialect} {s : Statement} {db db' : Db}

@[simp] theorem tables_withRows (db : Db) (t : String) (rows : List Row) :
    (db.withRows t rows).tables = db.tables := rfl

@[simp] theorem indexes_withRows (db : Db) (t : String) (rows : List Row) :
    (db.withRows t rows).indexes = db.indexes := rfl

@[simp] theorem table?_withRows (db : Db) (t : String) (rows : List Row) (name : String) :
    (db.withRows t rows).table? name = db.table? name := rfl

@[simp] theorem columnNames_withRows (db : Db) (t : String) (rows : List Row) (name : String) :
    (db.withRows t rows).columnNames name = db.columnNames name := rfl

@[simp] theorem uniques_withRows (db : Db) (t : String) (rows : List Row) (name : String) :
    (db.withRows t rows).uniques name = db.uniques name := rfl

@[simp] theorem rows_withRows (db : Db) (t : String) (rows : List Row) :
    (db.withRows t rows).rows t = rows := if_pos rfl

theorem rows_withRows_of_ne (db : Db) {t t' : String} (rows : List Row) (h : t' ≠ t) :
    (db.withRows t rows).rows t' = db.rows t' := if_neg h

theorem table?_name {name : String} {t : TableDef} (h : db.table? name = some t) :
    t.name = name := by
  unfold Db.table? at h
  simpa using List.find?_some h

theorem table?_addTable (db : Db) (table : TableDef) (t : String) :
    (db.addTable table).table? t = (db.table? t).or (if table.name = t
      then some table else none) := by
  show List.find? _ (db.tables ++ [table]) = _
  rw [List.find?_append]
  by_cases ht : table.name = t
  · simp [Db.table?, ht]
  · simp [Db.table?, ht]

theorem table?_addColumn (db : Db) (table : String) (column : Column) (t : String) :
    (db.addColumn table column).table? t =
      (db.table? t).map fun found => if t = table then found.withColumns [column] else found := by
  show List.find? _ (db.tables.map _) = _
  rw [List.find?_map]
  have hname : ((fun t' : TableDef => decide (t'.name = t)) ∘ fun t' : TableDef =>
      if t'.name = table then t'.withColumns [column] else t') = fun t' =>
        decide (t'.name = t) := by
    funext t'
    show decide ((if t'.name = table then t'.withColumns [column] else t').name = t) = _
    split_ifs <;> rfl
  rw [hname]
  show (db.table? t).map _ = (db.table? t).map _
  cases hfound : db.table? t with
  | none => rfl
  | some found =>
    obtain rfl := table?_name hfound
    rfl

theorem withRows_self (db : Db) (t : String) : db.withRows t (db.rows t) = db := by
  unfold Db.withRows
  congr 1
  funext t'
  by_cases ht : t' = t
  · rw [if_pos ht, ht]
  · rw [if_neg ht]

theorem withRows_withRows (db : Db) (t : String) (rows rows' : List Row) :
    (db.withRows t rows).withRows t rows' = db.withRows t rows' := by
  unfold Db.withRows
  congr 1
  funext t'
  dsimp only
  split_ifs <;> rfl

theorem foldlM_insertRow_withRows {table : TableDef} {conflict : String} {l : List Row}
    (h : l.foldlM (insertRow table conflict) db = .ok db') :
    ∃ rows, db' = db.withRows table.name rows := by
  induction l generalizing db with
  | nil =>
    obtain rfl : db = db' := Except.ok.inj h
    exact ⟨db.rows table.name, (withRows_self db table.name).symm⟩
  | cons r l ih =>
    rw [List.foldlM_cons, bind_ok_iff] at h
    obtain ⟨db₁, hone, hrest⟩ := h
    obtain ⟨rows, rfl⟩ := ih hrest
    unfold insertRow at hone
    split at hone
    · obtain rfl : db = db₁ := Except.ok.inj hone
      exact ⟨rows, rfl⟩
    · simp only [bind_ok_iff, require_ok_iff, pure_ok_iff] at hone
      obtain ⟨_, -, _, -, rfl⟩ := hone
      exact ⟨rows, withRows_withRows db table.name _ rows⟩

/-- A statement as a change of the schema and the rows. -/
inductive Executed (dialect : Dialect) (db : Db) : Statement → Db → Prop
  | tableThere (table : TableDef) (there : (db.table? table.name).isSome = true) :
      Executed dialect db (.createTable table) db
  | table (table : TableDef) (new : db.table? table.name = none) :
      Executed dialect db (.createTable table) (db.addTable table)
  | indexThere (index target : Ident) (columns : List String)
      (unique : Bool) (name table : String)
      (names : resolve dialect index target = .ok (name, table))
      (there : db.indexes.any (fun i => i.name = name) = true) :
      Executed dialect db (.createIndex index target columns unique) db
  | index (index target : Ident) (columns : List String) (unique : Bool) (name table : String)
      (names : resolve dialect index target = .ok (name, table))
      (new : db.indexes.any (fun i => i.name = name) = false)
      (there : (db.table? table).isSome = true)
      (has : ∀ c ∈ columns, c ∈ db.columnNames table)
      (distinct : unique = true → distinctOn columns (db.rows table) = true) :
      Executed dialect db (.createIndex index target columns unique)
        (db.addIndex ⟨name, table, columns, unique⟩)
  | column (table : String) (column : Column) (there : (db.table? table).isSome = true)
      (new : column.name ∉ db.columnNames table)
      (initial : column.notNull = true → column.initial ≠ .null) :
      Executed dialect db (.addColumn table column) (db.addColumn table column)
  | updated (table : String) (values : List (String × Value)) (where' : Row → Bool) :
      Executed dialect db (.update table values where')
        (db.withRows table ((db.rows table).map fun r => if where' r then r.set values else r))
  | inserted (t : TableDef) (table : String) (select : Db → List Row) (conflict : String)
      (rows : List Row) (there : db.table? table = some t)
      (run : (select db).foldlM (insertRow t conflict) db = .ok (db.withRows t.name rows)) :
      Executed dialect db (.insert table select conflict) (db.withRows t.name rows)

theorem executed (h : execute dialect s db = .ok db') : Executed dialect db s db' := by
  cases s with
  | createTable table =>
    simp only [execute] at h
    by_cases hthere : (db.table? table.name).isSome = true
    · rw [if_pos hthere] at h
      obtain rfl : db = db' := Except.ok.inj h
      exact .tableThere table hthere
    · rw [if_neg hthere] at h
      obtain rfl := Except.ok.inj h
      exact .table table (by simpa using hthere)
  | createIndex index target columns unique =>
    simp only [execute, bind_ok_iff, Prod.exists] at h
    obtain ⟨name, table, hnames, h⟩ := h
    split at h
    · rename_i hthere
      obtain rfl : db = db' := Except.ok.inj h
      exact .indexThere index target columns unique name table hnames hthere
    · rename_i hnew
      simp only [bind_ok_iff, require_ok_iff, pure_ok_iff] at h
      obtain ⟨_, hthere, _, hhas, _, hdistinct, rfl⟩ := h
      exact .index index target columns unique name table hnames (by simpa using hnew) hthere
        (by simpa using hhas) hdistinct
  | addColumn table column =>
    simp only [execute, bind_ok_iff, require_ok_iff, pure_ok_iff] at h
    obtain ⟨_, hthere, _, hnew, _, hinitial, rfl⟩ := h
    exact .column table column hthere hnew hinitial
  | update table values where' =>
    simp only [execute, bind_ok_iff, orRaise_ok_iff, require_ok_iff, pure_ok_iff] at h
    obtain ⟨t, -, _, -, _, -, _, -, rfl⟩ := h
    exact .updated table values where'
  | insert table select conflict =>
    simp only [execute, bind_ok_iff, orRaise_ok_iff] at h
    obtain ⟨t, hthere, hrun⟩ := h
    obtain ⟨rows, rfl⟩ := foldlM_insertRow_withRows hrun
    exact .inserted t table select conflict rows hthere hrun

/-- `CREATE TABLE` and `CREATE INDEX`. -/
def Statement.creates : Statement → Bool
  | .createTable _ | .createIndex .. => true
  | _ => false

/-- No statement drops a table, and only `ADD COLUMN` changes one. -/
theorem Executed.table? (h : Executed dialect db s db') {t : String} {table : TableDef}
    (hthere : db.table? t = some table) : ∃ table', db'.table? t = some table' ∧
      ((∀ t' column, s ≠ .addColumn t' column) → table' = table) := by
  cases h with
  | column t' column =>
    rw [table?_addColumn, hthere]
    exact ⟨_, rfl, fun hne => absurd rfl (hne t' column)⟩
  | table new hnew =>
    rw [table?_addTable, hthere]
    exact ⟨table, rfl, fun _ => rfl⟩
  | tableThere | indexThere | index | updated | inserted => exact ⟨table, hthere, fun _ => rfl⟩

theorem Executed.indexes (h : Executed dialect db s db') : ∀ i ∈ db.indexes, i ∈ db'.indexes := by
  intro i hi
  cases h with
  | index => exact List.mem_append_left _ hi
  | tableThere | table | indexThere | column | updated | inserted => exact hi

/-- What a table or an index is created for is there. -/
def Statement.There (dialect : Dialect) (db : Db) : Statement → Prop
  | .createTable table => (db.table? table.name).isSome = true
  | .createIndex index target _ _ => ∃ name table,
      resolve dialect index target = .ok (name, table) ∧
      ∃ i ∈ db.indexes, i.name = name
  | _ => False

theorem Statement.There.settled (h : s.There dialect db) : Settled (execute dialect) s db := by
  unfold Settled
  cases s with
  | createTable table =>
    have hthere : (db.table? table.name).isSome = true := h
    simp only [execute, if_pos hthere]
    rfl
  | createIndex index target columns unique =>
    obtain ⟨name, table, hnames, i, hi, rfl⟩ := h
    have hthere : db.indexes.any (fun j => j.name = i.name) = true :=
      List.any_eq_true.mpr ⟨i, hi, by simp⟩
    simp only [execute, hnames, bind, Except.bind, if_pos hthere]
    rfl
  | addColumn | update | insert => exact h.elim

theorem Executed.there (h : Executed dialect db s db') (hcreates : s.creates = true) :
    s.There dialect db' := by
  cases h with
  | tableThere table there => exact there
  | table table new =>
    show ((db.addTable table).table? table.name).isSome = true
    rw [table?_addTable]
    simp
  | indexThere index target columns unique name table names there =>
    obtain ⟨i, hi, hname⟩ := List.any_eq_true.mp there
    exact ⟨name, table, names, i, hi, by simpa using hname⟩
  | index index target columns unique name table names =>
    exact ⟨name, table, names, _, List.mem_append_right _ (List.mem_singleton.mpr rfl), rfl⟩
  | column | updated | inserted => cases hcreates

theorem Statement.There.executed {s' : Statement} (h : s.There dialect db)
    (hexecuted : Executed dialect db s' db') : s.There dialect db' := by
  cases s with
  | createTable table =>
    obtain ⟨table', htable⟩ := Option.isSome_iff_exists.mp h
    obtain ⟨table'', htable', -⟩ := hexecuted.table? htable
    exact Option.isSome_iff_exists.mpr ⟨table'', htable'⟩
  | createIndex index target columns unique =>
    obtain ⟨name, table, hnames, i, hi, hname⟩ := h
    exact ⟨name, table, hnames, i, hexecuted.indexes i hi, hname⟩
  | addColumn | update | insert => exact h.elim

/-- Tables and indexes are created once, and no statement undoes that. -/
theorem creates_keeps {s' : Statement} (hcreates : s.creates = true) :
    Keeps (execute dialect) s s' := by
  intro db db' hsettled hrun
  exact ((executed hsettled).there hcreates |>.executed (executed hrun)).settled

theorem creates_settle (hcreates : s.creates = true) (h : execute dialect s db = .ok db') :
    Settled (execute dialect) s db' :=
  ((executed h).there hcreates).settled

/-- A list that creates tables and indexes, and then may do one more thing
that it does not do again. -/
theorem resume_creates {l last : List Statement} {k : Nat} {db₁ db₂ : Db}
    (hcreates : ∀ s ∈ l, s.creates = true) (hlast : last.length ≤ 1)
    (hsettle : ∀ s ∈ last, ∀ db db', execute dialect s db = .ok db' →
      Settled (execute dialect) s db')
    (hpart : runAll (execute dialect) ((l ++ last).take k) db = .ok db₁)
    (hwhole : runAll (execute dialect) (l ++ last) db = .ok db₂) :
    runAll (execute dialect) (l ++ last) db₁ = .ok db₂ := by
  refine resume ?_ ?_ hpart hwhole
  · intro s hs db db' hrun
    rcases List.mem_append.mp hs with hs | hs
    · exact creates_settle (hcreates s hs) hrun
    · exact hsettle s hs db db' hrun
  · refine List.pairwise_append.mpr ⟨?_, ?_, fun s hs s' _ => creates_keeps (hcreates s hs)⟩
    · exact List.pairwise_of_forall_mem_list fun s hs s' _ => creates_keeps (hcreates s hs)
    · cases last with
      | nil => exact List.Pairwise.nil
      | cons s rest =>
        have hnone : rest = [] := List.length_eq_zero_iff.mp (by simpa using hlast)
        rw [hnone]
        exact List.pairwise_singleton _ s

/-! ## Rows -/

/-- Rows that clash with one of the table are not inserted. -/
theorem insertRow_settled {t : TableDef} {conflict : String} {r : Row}
    (h : (db.rows t.name).any (Row.clashes [conflict] r) = true) :
    Settled (fun r db => insertRow t conflict db r) r db := by
  show insertRow t conflict db r = .ok db
  unfold insertRow
  rw [if_pos h]
  rfl

theorem insertRow_clashes {t : TableDef} {conflict : String} {r : Row} (hkey : r conflict ≠ .null)
    (h : insertRow t conflict db r = .ok db') :
    (db'.rows t.name).any (Row.clashes [conflict] r) = true ∧
      ∀ s ∈ db.rows t.name, s ∈ db'.rows t.name := by
  unfold insertRow at h
  by_cases hclash : (db.rows t.name).any (Row.clashes [conflict] r) = true
  · rw [if_pos hclash] at h
    obtain rfl : db = db' := Except.ok.inj h
    exact ⟨hclash, fun _ hs => hs⟩
  · rw [if_neg hclash] at h
    simp only [bind_ok_iff, require_ok_iff, pure_ok_iff] at h
    obtain ⟨_, -, _, -, rfl⟩ := h
    rw [rows_withRows]
    refine ⟨List.any_eq_true.mpr ⟨r, by simp, ?_⟩, fun s hs => List.mem_append_left _ hs⟩
    simp [Row.clashes, hkey]

/-- What was inserted is not inserted again, when the rows come from
elsewhere and have a key. -/
theorem insert_settles {table conflict : String} {select : Db → List Row}
    (hselect : ∀ db rows, select (db.withRows table rows) = select db)
    (hkeys : ∀ db, ∀ r ∈ select db, r conflict ≠ .null)
    (h : execute dialect (.insert table select conflict) db = .ok db') :
    Settled (execute dialect) (.insert table select conflict) db' := by
  cases executed h with
  | inserted t table select conflict rows hthere hrun =>
    obtain rfl := table?_name hthere
    have hsettled : ∀ r ∈ select db,
        Settled (fun r db => insertRow t conflict db r) r (db.withRows t.name rows) := by
      refine settled_of_runAll (s := db) ?_ ?_ hrun
      · exact fun r hr db db' hone => insertRow_settled (insertRow_clashes (hkeys _ r hr) hone).1
      · refine List.pairwise_of_forall_mem_list fun r hr r' hr' db db' hone hnext => ?_
        obtain ⟨s, hs, hclash⟩ := List.any_eq_true.mp (insertRow_clashes (hkeys _ r hr) hone).1
        exact insertRow_settled (List.any_eq_true.mpr
          ⟨s, (insertRow_clashes (hkeys _ r' hr') hnext).2 s hs, hclash⟩)
    unfold Settled
    simp only [execute, table?_withRows, hthere, hselect]
    exact runAll_settled hsettled

theorem withRows_comm (db : Db) {t t' : String} (rows rows' : List Row) (h : t ≠ t') :
    (db.withRows t rows).withRows t' rows' = (db.withRows t' rows').withRows t rows := by
  unfold Db.withRows
  congr 1
  funext name
  dsimp only
  by_cases ht : name = t
  · rw [if_neg (ht ▸ h), if_pos ht, if_pos ht]
  · rw [if_neg ht, if_neg ht]

theorem addTable_withRows (db : Db) {t : String} (rows : List Row) {table : TableDef}
    (h : t ≠ table.name) : (db.withRows t rows).addTable table =
      (db.addTable table).withRows t rows := by
  unfold Db.addTable
  rw [withRows_comm db rows [] h]
  rfl

theorem insertRow_withRows {t : TableDef} {conflict name : String} (rows : List Row)
    (hne : t.name ≠ name) (db : Db) (r : Row) :
    insertRow t conflict (db.withRows name rows) r =
      (insertRow t conflict db r).map fun db' => db'.withRows name rows := by
  unfold insertRow
  rw [rows_withRows_of_ne db rows hne, uniques_withRows, withRows_comm db rows _ hne.symm]
  by_cases hclash : (db.rows t.name).any (Row.clashes [conflict] r) = true
  · rw [if_pos hclash, if_pos hclash]
    rfl
  · rw [if_neg hclash, if_neg hclash]
    unfold require
    split_ifs <;> rfl

/-- The statement has nothing to do with the rows of this table. -/
def Statement.Apart (name : String) : Statement → Prop
  | .createTable _ | .createIndex .. => True
  | .insert table select _ => table ≠ name ∧ ∀ db rows, select (db.withRows name rows) = select db
  | _ => False

/-- A statement that succeeds with other rows in a table that it has nothing
to do with has the same result up to these rows. -/
theorem execute_withRows {name : String} {rows : List Row} {db'' : Db}
    (hthere : (db.table? name).isSome = true) (hapart : s.Apart name)
    (h : execute dialect s db = .ok db')
    (h' : execute dialect s (db.withRows name rows) = .ok db'') :
    db'' = db'.withRows name rows := by
  cases s with
  | createTable table =>
    simp only [execute] at h h'
    by_cases htable : (db.table? table.name).isSome = true
    · have htable' : ((db.withRows name rows).table? table.name).isSome = true := htable
      rw [if_pos htable] at h
      rw [if_pos htable'] at h'
      obtain rfl : db = db' := Except.ok.inj h
      exact (Except.ok.inj h').symm
    · have htable' : ¬((db.withRows name rows).table? table.name).isSome = true := htable
      have hne : name ≠ table.name := fun heq => htable (heq ▸ hthere)
      rw [if_neg htable] at h
      rw [if_neg htable'] at h'
      obtain rfl := Except.ok.inj h
      obtain rfl := Except.ok.inj h'
      exact addTable_withRows db rows hne
  | createIndex index target columns unique =>
    simp only [execute, bind_ok_iff, Prod.exists] at h h'
    obtain ⟨index, table, hnames, h⟩ := h
    obtain ⟨_, _, hnames', h'⟩ := h'
    rw [hnames] at hnames'
    obtain ⟨rfl, rfl⟩ := Prod.mk.inj (Except.ok.inj hnames')
    by_cases hindex : db.indexes.any (fun i => i.name = index) = true
    · have hindex' : (db.withRows name rows).indexes.any (fun i => i.name = index) = true :=
        hindex
      rw [if_pos hindex] at h
      rw [if_pos hindex'] at h'
      obtain rfl : db = db' := Except.ok.inj h
      exact (Except.ok.inj h').symm
    · have hindex' : ¬(db.withRows name rows).indexes.any (fun i => i.name = index) = true :=
        hindex
      rw [if_neg hindex] at h
      rw [if_neg hindex'] at h'
      simp only [bind_ok_iff, require_ok_iff, pure_ok_iff] at h h'
      obtain ⟨_, -, _, -, _, -, rfl⟩ := h
      obtain ⟨_, -, _, -, _, -, rfl⟩ := h'
      rfl
  | insert table select conflict =>
    obtain ⟨hne, hselect⟩ := hapart
    simp only [execute, bind_ok_iff, orRaise_ok_iff, table?_withRows, hselect] at h h'
    obtain ⟨t, htable, hrun⟩ := h
    obtain ⟨t', htable', hrun'⟩ := h'
    rw [htable] at htable'
    obtain rfl := Option.some.inj htable'
    obtain rfl := table?_name htable
    have hfold : ∀ (l : List Row) (db : Db),
      l.foldlM (insertRow t conflict) (db.withRows name rows)
        = (l.foldlM (insertRow t conflict) db).map fun db' => db'.withRows name rows := by
      intro l
      induction l with
      | nil => exact fun _ => rfl
      | cons r l ih =>
        intro db
        rw [List.foldlM_cons, List.foldlM_cons, insertRow_withRows rows hne]
        cases insertRow t conflict db r with
        | error e => rfl
        | ok db₁ => exact ih db₁
    rw [hfold, hrun] at hrun'
    exact (Except.ok.inj hrun').symm
  | addColumn | update => exact hapart.elim

theorem runAll_withRows {l : List Statement} {name : String} {rows : List Row} {db'' : Db}
    (hthere : (db.table? name).isSome = true) (hapart : ∀ s ∈ l, s.Apart name)
    (h : runAll (execute dialect) l db = .ok db')
    (h' : runAll (execute dialect) l (db.withRows name rows) = .ok db'') :
    db'' = db'.withRows name rows := by
  induction l generalizing db with
  | nil =>
    obtain rfl : db = db' := Except.ok.inj h
    exact (Except.ok.inj h').symm
  | cons s l ih =>
    obtain ⟨db₁, hone, hrest⟩ := runAll_cons_ok.mp h
    obtain ⟨db₁', hone', hrest'⟩ := runAll_cons_ok.mp h'
    obtain rfl := execute_withRows hthere (hapart s List.mem_cons_self) hone hone'
    obtain ⟨t, ht⟩ := Option.isSome_iff_exists.mp hthere
    obtain ⟨t', ht', -⟩ := (executed hone).table? ht
    exact ih (Option.isSome_iff_exists.mpr ⟨t', ht'⟩)
      (fun s' hs' => hapart s' (List.mem_cons_of_mem s hs')) hrest hrest'

end

end QuakeJs.Sql
