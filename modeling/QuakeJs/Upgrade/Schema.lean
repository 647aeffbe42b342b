import QuakeJs.Upgrade.Sql

/-!
# Schemas

Whether a table, an index or a column can be added depends on the tables and
indexes that are there, and hardly on the rows.

* `SameSchema` and `runAll_of_bare`: what runs on an empty database runs on
  every other one with its schema.
* `lacking` and `resume_lacking`: columns are added unless they are there.
* `runAll_fill`: a new table takes its first rows.
* `update_ok`: when an update commits.
-/

namespace QuakeJs.Sql

section

variable {dialect : Dialect} {s : Statement} {db db' db₁ b b' : Db}

/-- The databases have the same tables and indexes. -/
def SameSchema (a b : Db) : Prop := a.tables = b.tables ∧ a.indexes = b.indexes

namespace SameSchema

theorem refl (db : Db) : SameSchema db db := ⟨rfl, rfl⟩

theorem trans {db'' : Db} (h : SameSchema db db') (h' : SameSchema db' db'') :
    SameSchema db db'' :=
  ⟨h.1.trans h'.1, h.2.trans h'.2⟩

theorem table? (h : SameSchema db b) (t : String) : db.table? t = b.table? t := by
  unfold Db.table?
  rw [h.1]

theorem columnNames (h : SameSchema db b) (t : String) : db.columnNames t = b.columnNames t := by
  unfold Db.columnNames
  rw [h.table?]

theorem uniques (h : SameSchema db b) (t : String) : db.uniques t = b.uniques t := by
  unfold Db.uniques
  rw [h.table?, h.2]

end SameSchema

/-- The statement changes tables or indexes. -/
def Statement.structural : Statement → Bool
  | .createTable _ | .createIndex .. | .addColumn .. => true
  | _ => false

/-- A unique index finds no clash in these rows. -/
def Statement.Fits (rows : String → List Row) : Statement → Prop
  | .createIndex _ target columns unique =>
    unique = true → distinctOn columns (rows target.name) = true
  | _ => True

theorem resolve_table {index target : Ident} {name table : String}
    (h : resolve dialect index target = .ok (name, table)) : table = target.name := by
  cases dialect with
  | sqlite | postgres =>
    simp only [resolve, bind_ok_iff, pure_ok_iff] at h
    obtain ⟨_, -, h⟩ := h
    exact (Prod.mk.inj h).2.symm

/-- What a statement does to an empty database it does to every other one with
the same schema, if the rows fit. -/
theorem execute_of_bare (hsame : SameSchema db b) (hstructural : s.structural = true)
    (hfits : s.Fits db.rows) (h : execute dialect s b = .ok b') :
    ∃ db', execute dialect s db = .ok db' ∧ SameSchema db' b' := by
  cases executed h with
  | tableThere table there =>
    rw [← hsame.table?] at there
    exact ⟨db, by simp only [execute, if_pos there, pure_ok_iff], hsame⟩
  | table table new =>
    rw [← hsame.table?] at new
    have hnew : ¬(db.table? table.name).isSome = true := by simp [new]
    refine ⟨db.addTable table, by simp only [execute, if_neg hnew]; rfl, ?_, hsame.2⟩
    show db.tables ++ [table] = b.tables ++ [table]
    rw [hsame.1]
  | indexThere index target columns unique name table names there =>
    rw [← hsame.2] at there
    refine ⟨db, ?_, hsame⟩
    simp only [execute, names, bind, Except.bind, if_pos there, pure_ok_iff]
  | index index target columns unique name table names new there has =>
    obtain rfl := resolve_table names
    have hnew : ¬db.indexes.any (fun i => i.name = name) = true := by
      rw [hsame.2]
      simpa using new
    have hhas : (columns.all fun c => decide (c ∈ db.columnNames target.name)) = true := by
      rw [hsame.columnNames]
      simpa using has
    rw [← hsame.table?] at there
    refine ⟨db.addIndex ⟨name, target.name, columns, unique⟩, ?_, hsame.1, ?_⟩
    · simp only [execute, names, bind, Except.bind, if_neg hnew]
      have hdistinct : unique = true → distinctOn columns (db.rows target.name) = true := hfits
      simp only [require, if_pos there, if_pos hhas, if_pos hdistinct]
      rfl
    · show db.indexes ++ _ = b.indexes ++ _
      rw [hsame.2]
  | column table column there new initial =>
    rw [← hsame.table?] at there
    rw [← hsame.columnNames] at new
    refine ⟨db.addColumn table column, ?_, ?_, hsame.2⟩
    · simp only [execute, bind, Except.bind, require, if_pos there, if_pos new, if_pos initial]
      rfl
    · show db.tables.map _ = b.tables.map _
      rw [hsame.1]
  | updated | inserted => cases hstructural

/-- The same for a list, with an invariant of the rows that makes them fit. -/
theorem runAll_of_bare {P : (String → List Row) → Prop} {l : List Statement}
    (hstructural : ∀ s ∈ l, s.structural = true) (hfits : ∀ s ∈ l, ∀ rows, P rows → s.Fits rows)
    (hkeeps : ∀ s ∈ l, ∀ db db', execute dialect s db = .ok db' → P db.rows → P db'.rows)
    (hsame : SameSchema db b) (hP : P db.rows) (h : runAll (execute dialect) l b = .ok b') :
    ∃ db', runAll (execute dialect) l db = .ok db' ∧ SameSchema db' b' ∧ P db'.rows := by
  induction l generalizing db b with
  | nil =>
    obtain rfl : b = b' := Except.ok.inj h
    exact ⟨db, rfl, hsame, hP⟩
  | cons s l ih =>
    obtain ⟨b₁, hone, hrest⟩ := runAll_cons_ok.mp h
    have hhead : s ∈ s :: l := List.mem_cons_self
    obtain ⟨db₁, hone', hsame'⟩ :=
      execute_of_bare hsame (hstructural s hhead) (hfits s hhead _ hP) hone
    obtain ⟨db', hrest', hend⟩ := ih (fun s' hs' => hstructural s' (List.mem_cons_of_mem s hs'))
      (fun s' hs' => hfits s' (List.mem_cons_of_mem s hs'))
      (fun s' hs' => hkeeps s' (List.mem_cons_of_mem s hs')) hsame'
      (hkeeps s hhead _ _ hone' hP) hrest
    exact ⟨db', runAll_cons_ok.mpr ⟨db₁, hone', hrest'⟩, hend⟩

theorem update_schema {table : String} {values : List (String × Value)} {where' : Row → Bool}
    (h : execute dialect (.update table values where') db = .ok db') : SameSchema db' db := by
  cases executed h with
  | updated => exact SameSchema.refl db

/-- Where a statement commits, the schema after it does not depend on the
rows. -/
theorem SameSchema.execute (hsame : SameSchema db b) (h : execute dialect s db = .ok db')
    (h' : Sql.execute dialect s b = .ok b') : SameSchema db' b' := by
  cases s with
  | createTable table =>
    cases executed h with
    | tableThere _ there =>
      rw [hsame.table?] at there
      cases executed h' with
      | tableThere => exact hsame
      | table _ new => simp [new] at there
    | table _ new =>
      rw [hsame.table?] at new
      cases executed h' with
      | tableThere _ there => simp [new] at there
      | table => exact ⟨congrArg (· ++ [table]) hsame.1, hsame.2⟩
  | createIndex index target columns unique =>
    cases executed h with
    | indexThere _ _ _ _ name table names there =>
      rw [hsame.2] at there
      cases executed h' with
      | indexThere => exact hsame
      | index _ _ _ _ _ _ names' new =>
        obtain ⟨rfl, rfl⟩ := Prod.mk.inj (Except.ok.inj (names.symm.trans names'))
        simp [new] at there
    | index _ _ _ _ name table names new =>
      rw [hsame.2] at new
      cases executed h' with
      | indexThere _ _ _ _ _ _ names' there =>
        obtain ⟨rfl, rfl⟩ := Prod.mk.inj (Except.ok.inj (names.symm.trans names'))
        simp [new] at there
      | index _ _ _ _ _ _ names' =>
        obtain ⟨rfl, rfl⟩ := Prod.mk.inj (Except.ok.inj (names.symm.trans names'))
        exact ⟨hsame.1, congrArg (· ++ _) hsame.2⟩
  | addColumn table column =>
    cases executed h with
    | column =>
      cases executed h' with
      | column => exact ⟨congrArg (List.map _) hsame.1, hsame.2⟩
  | update table values where' =>
    cases executed h with
    | updated =>
      cases executed h' with
      | updated => exact hsame
  | insert table select conflict =>
    cases executed h with
    | inserted =>
      cases executed h' with
      | inserted => exact hsame

theorem SameSchema.runAll {l : List Statement} (hsame : SameSchema db b)
    (h : runAll (Sql.execute dialect) l db = .ok db')
    (h' : Sql.runAll (Sql.execute dialect) l b = .ok b') : SameSchema db' b' := by
  induction l generalizing db b with
  | nil =>
    obtain rfl : db = db' := Except.ok.inj h
    obtain rfl : b = b' := Except.ok.inj h'
    exact hsame
  | cons s l ih =>
    obtain ⟨db₁, hone, hrest⟩ := runAll_cons_ok.mp h
    obtain ⟨b₁, hone', hrest'⟩ := runAll_cons_ok.mp h'
    exact ih (hsame.execute hone hone') hrest hrest'

/-! ## Rows under new tables and indexes -/

/-- A new table has no rows, and those of the others stay. -/
theorem Executed.rows (h : Executed dialect db s db') (hcreates : s.creates = true) (t : String) :
    ((db.table? t).isSome = true → db'.rows t = db.rows t) ∧
      (db'.rows t = db.rows t ∨ db'.rows t = []) := by
  cases h with
  | table table new =>
    by_cases ht : t = table.name
    · subst ht
      exact ⟨fun hthere => by simp [new] at hthere, .inr (rows_withRows db table.name [])⟩
    · exact ⟨fun _ => rows_withRows_of_ne db [] ht, .inl (rows_withRows_of_ne db [] ht)⟩
  | tableThere | indexThere | index => exact ⟨fun _ => rfl, .inl rfl⟩
  | column | updated | inserted => cases hcreates

/-- The table whose rows the statement may change. -/
def Statement.target : Statement → Option String
  | .createTable table => some table.name
  | .createIndex .. => none
  | .addColumn table _ | .update table _ _ | .insert table _ _ => some table

theorem Executed.rows_of_ne (h : Executed dialect db s db')
    {t : String} (hne : s.target ≠ some t) :
    db'.rows t = db.rows t := by
  have hother : ∀ {table : String}, s.target = some table → t ≠ table := by
    rintro table htarget rfl
    exact hne htarget
  cases h with
  | tableThere | indexThere | index => rfl
  | table table => exact rows_withRows_of_ne db _ (hother rfl)
  | column table => exact rows_withRows_of_ne db _ (hother rfl)
  | updated table => exact rows_withRows_of_ne db _ (hother rfl)
  | inserted found table select conflict rows there =>
    rw [table?_name there]
    exact rows_withRows_of_ne db _ (hother rfl)

/-- Statements change the rows of their own tables only. -/
theorem runAll_rows_of_ne {l : List Statement} {t : String} (hne : ∀ s ∈ l, s.target ≠ some t)
    (h : runAll (execute dialect) l db = .ok db') : db'.rows t = db.rows t := by
  refine runAll_invariant (P := fun d => d.rows t = db.rows t) ?_ rfl h
  intro s hs d d' hrows hone
  rw [(executed hone).rows_of_ne (hne s hs), hrows]

/-- What fits still fits when tables are created. -/
theorem Executed.fits {s' : Statement} (h : Executed dialect db s db')
    (hcreates : s.creates = true) (hfits : s'.Fits db.rows) : s'.Fits db'.rows := by
  cases s' with
  | createIndex index target columns unique =>
    intro hunique
    rcases (h.rows hcreates target.name).2 with hrows | hrows
    · rw [hrows]
      exact hfits hunique
    · rw [hrows]
      simp [distinctOn]
  | createTable | addColumn | update | insert => trivial

/-- The rows of a table stay while others are created. -/
theorem runAll_rows {l : List Statement} (hcreates : ∀ s ∈ l, s.creates = true)
    (h : runAll (execute dialect) l db = .ok db') {t : String}
    (hthere : (db.table? t).isSome = true) : db'.rows t = db.rows t := by
  refine (runAll_invariant (P := fun d => (d.table? t).isSome = true ∧ d.rows t = db.rows t) ?_
    ⟨hthere, rfl⟩ h).2
  intro s hs d d' ⟨hthere, hrows⟩ hone
  obtain ⟨table, htable⟩ := Option.isSome_iff_exists.mp hthere
  obtain ⟨table', htable', -⟩ := (executed hone).table? htable
  refine ⟨Option.isSome_iff_exists.mpr ⟨table', htable'⟩, ?_⟩
  rw [((executed hone).rows (hcreates s hs) t).1 hthere, hrows]

/-- The statement needs nothing of the rows. -/
def Statement.plain : Statement → Bool
  | .createTable _ | .addColumn .. => true
  | .createIndex _ _ _ unique => !unique
  | _ => false

/-- Plain statements depend on the schema only. -/
theorem runAll_plain {l : List Statement} (hplain : l.all Statement.plain = true)
    (hsame : SameSchema db b) (h : runAll (execute dialect) l b = .ok b') :
    ∃ db', runAll (execute dialect) l db = .ok db' ∧ SameSchema db' b' := by
  rw [List.all_eq_true] at hplain
  have hstructural : ∀ s ∈ l, s.structural = true := by
    intro s hs
    cases s with
    | createTable | createIndex | addColumn => rfl
    | update | insert => cases hplain _ hs
  have hfits : ∀ s ∈ l, ∀ rows : String → List Row, True → s.Fits rows := by
    intro s hs rows _
    cases s with
    | createIndex index target columns unique =>
      intro hunique
      have hplain := hplain _ hs
      simp [Statement.plain, hunique] at hplain
    | createTable | addColumn | update | insert => trivial
  obtain ⟨db', hrun, hend, -⟩ :=
    runAll_of_bare hstructural hfits (fun _ _ _ _ _ h => h) hsame trivial h
  exact ⟨db', hrun, hend⟩

/-- Tables and indexes can be created as on an empty database, if the rows fit
the unique indexes. -/
theorem runAll_creates {l : List Statement} (hcreates : ∀ s ∈ l, s.creates = true)
    (hfits : ∀ s ∈ l, s.Fits db.rows) (hsame : SameSchema db b)
    (h : runAll (execute dialect) l b = .ok b') :
    ∃ db', runAll (execute dialect) l db = .ok db' ∧ SameSchema db' b' := by
  have hstructural : ∀ s ∈ l, s.structural = true := by
    intro s hs
    cases s with
    | createTable | createIndex => rfl
    | addColumn | update | insert => cases hcreates _ hs
  obtain ⟨db', hrun, hend, -⟩ :=
    runAll_of_bare (P := fun rows => ∀ s ∈ l, s.Fits rows) hstructural
    (fun s hs rows hrows => hrows s hs)
    (fun s hs d d' hone hrows s' hs' => (executed hone).fits (hcreates s hs) (hrows s' hs'))
    hsame hfits h
  exact ⟨db', hrun, hend⟩

/-! ## Columns that a table lacks -/

/-- A column of a table. -/
abbrev Place := String × Column

/-- The statements that add the columns which are not there. -/
def lacking (db : Db) (l : List Place) : List Statement :=
  (l.filter (fun c => c.2.name ∉ db.columnNames c.1)).map fun c => .addColumn c.1 c.2

/-- Add the column unless it is there. -/
def ensure (dialect : Dialect) (c : Place) (db : Db) : Except Error Db :=
  if c.2.name ∈ db.columnNames c.1 then pure db else execute dialect (.addColumn c.1 c.2) db

theorem columnNames_addColumn {table : String} (hthere : (db.table? table).isSome = true)
    (column : Column) (t : String) : (db.addColumn table column).columnNames t =
      db.columnNames t ++ if t = table then [column.name] else [] := by
  unfold Db.columnNames
  rw [table?_addColumn]
  by_cases ht : t = table
  · subst ht
    obtain ⟨found, hfound⟩ := Option.isSome_iff_exists.mp hthere
    simp [hfound, TableDef.withColumns]
  · simp [ht]

/-- What the new columns do to a row of a table. -/
def defaults (l : List Place) (t : String) (r : Row) : Row :=
  l.foldl (fun r c => if t = c.1 then r.set [(c.2.name, c.2.initial)] else r) r

theorem runAll_addColumns {l : List Place}
    (h : runAll (execute dialect) (l.map fun c => .addColumn c.1 c.2) db = .ok db') (t : String) :
    db'.rows t = (db.rows t).map (defaults l t) := by
  induction l generalizing db with
  | nil =>
    obtain rfl : db = db' := Except.ok.inj h
    exact (List.map_id _).symm
  | cons c l ih =>
    obtain ⟨db₁, hone, hrest⟩ := runAll_cons_ok.mp h
    rw [ih hrest]
    cases executed hone with
    | column table column =>
      by_cases ht : t = c.1
      · subst ht
        show ((db.withRows c.1 ((db.rows c.1).map _)).rows c.1).map _ = _
        rw [rows_withRows, List.map_map]
        simp [defaults, Function.comp_def]
      · show ((db.withRows c.1 ((db.rows c.1).map _)).rows t).map _ = _
        rw [rows_withRows_of_ne db _ ht]
        simp [defaults, ht]

theorem table?_of_mem {t name : String} (h : name ∈ db.columnNames t) :
    ∃ table, db.table? t = some table := by
  unfold Db.columnNames at h
  cases htable : db.table? t with
  | none =>
    rw [htable] at h
    cases h
  | some table => exact ⟨table, rfl⟩

/-- A column is not added twice. -/
theorem addColumn_there {table : String} {column : Column}
    (h : column.name ∈ db.columnNames table) :
    execute dialect (.addColumn table column) db = .error (.duplicateColumn column.name) := by
  obtain ⟨t, ht⟩ := table?_of_mem h
  have hthere : (db.table? table).isSome = true := by
    rw [ht]
    rfl
  have hnew : ¬column.name ∉ db.columnNames table := not_not_intro h
  simp only [execute, require, if_pos hthere, if_neg hnew]
  rfl

/-- No column is dropped. -/
theorem Executed.mem_columnNames (h : Executed dialect db s db') {t name : String}
    (hname : name ∈ db.columnNames t) : name ∈ db'.columnNames t := by
  obtain ⟨table, htable⟩ := table?_of_mem hname
  cases s with
  | addColumn table' column =>
    cases h with
    | column _ _ there =>
      rw [columnNames_addColumn there]
      exact List.mem_append_left _ hname
  | createTable | createIndex | update | insert =>
    obtain ⟨table', htable', hsame⟩ := h.table? htable
    obtain rfl := hsame fun _ _ => nofun
    unfold Db.columnNames at hname ⊢
    rw [htable']
    rwa [htable] at hname

theorem runAll_columnNames {l : List Statement} (h : runAll (execute dialect) l db = .ok db')
    (t name : String) (hname : name ∈ db.columnNames t) : name ∈ db'.columnNames t :=
  runAll_invariant (P := fun d => name ∈ d.columnNames t)
    (fun _ _ _ _ hmem hone => (executed hone).mem_columnNames hmem) hname h

theorem defaults_other {l : List Place} {t column : String}
    (h : ∀ c ∈ l, t = c.1 → c.2.name ≠ column) (r : Row) : defaults l t r column = r column := by
  induction l generalizing r with
  | nil => rfl
  | cons c l ih =>
    show defaults l t (if t = c.1 then r.set [(c.2.name, c.2.initial)] else r) column = r column
    rw [ih fun d hd => h d (List.mem_cons_of_mem c hd)]
    by_cases ht : t = c.1
    · have hne : column ≠ c.2.name := (h c List.mem_cons_self ht).symm
      simp [ht, Row.set, List.lookup_cons, beq_eq_false_iff_ne.mpr hne]
    · rw [if_neg ht]

theorem ensure_columnNames {c : Place} (h : ensure dialect c db = .ok db') (t name : String) :
    name ∈ db'.columnNames t ↔ name ∈ db.columnNames t ∨ (t = c.1 ∧ name = c.2.name) := by
  unfold ensure at h
  by_cases hthere : c.2.name ∈ db.columnNames c.1
  · rw [if_pos hthere] at h
    obtain rfl : db = db' := Except.ok.inj h
    constructor
    · exact Or.inl
    · rintro (hname | ⟨rfl, rfl⟩)
      · exact hname
      · exact hthere
  · rw [if_neg hthere] at h
    cases executed h with
    | column table column there =>
      rw [columnNames_addColumn there]
      by_cases ht : t = c.1
      · simp [ht]
      · simp [ht]

theorem ensure_settled {c : Place} :
    Settled (ensure dialect) c db ↔ c.2.name ∈ db.columnNames c.1 := by
  constructor
  · intro h
    exact (ensure_columnNames h c.1 c.2.name).mpr (.inr ⟨rfl, rfl⟩)
  · intro h
    show ensure dialect c db = .ok db
    unfold ensure
    rw [if_pos h]
    rfl

theorem ensure_settles {c : Place} (h : ensure dialect c db = .ok db') :
    Settled (ensure dialect) c db' :=
  ensure_settled.mpr ((ensure_columnNames h c.1 c.2.name).mpr (.inr ⟨rfl, rfl⟩))

theorem ensure_keeps (c d : Place) : Keeps (ensure dialect) c d := by
  intro db db' hsettled hrun
  exact ensure_settled.mpr ((ensure_columnNames hrun _ _).mpr (.inl (ensure_settled.mp hsettled)))

/-- The places are of different columns. -/
def Places (l : List Place) : Prop := l.Pairwise fun c d => (c.1, c.2.name) ≠ (d.1, d.2.name)

/-- To add what was lacking at the start is to ensure each column in turn. -/
theorem runAll_lacking {l : List Place} (hplaces : Places l) (db : Db) :
    runAll (execute dialect) (lacking db l) db = runAll (ensure dialect) l db := by
  induction l generalizing db with
  | nil => rfl
  | cons c l ih =>
    obtain ⟨hother, hplaces⟩ := List.pairwise_cons.mp hplaces
    have hcons : ∀ db, runAll (ensure dialect) (c :: l) db =
        ensure dialect c db >>= fun db => runAll (ensure dialect) l db :=
          fun db => List.foldlM_cons
    rw [hcons]
    by_cases hthere : c.2.name ∈ db.columnNames c.1
    · rw [show lacking db (c :: l) = lacking db l by simp [lacking, hthere], ih hplaces,
        show ensure dialect c db = .ok db from if_pos hthere]
      rfl
    · have hensure : ensure dialect c db = execute dialect (.addColumn c.1 c.2) db :=
        if_neg hthere
      have hlacking : lacking db (c :: l) = .addColumn c.1 c.2 :: lacking db l := by
        simp [lacking, hthere]
      rw [hlacking, hensure]
      show (execute dialect (.addColumn c.1 c.2) db >>= fun db₁ =>
        runAll (execute dialect) (lacking db l) db₁) = _
      cases hone : execute dialect (.addColumn c.1 c.2) db with
      | error e => rfl
      | ok db₁ =>
        have hsame : lacking db l = lacking db₁ l := by
          unfold lacking
          rw [List.filter_congr]
          intro d hd
          have hnames := ensure_columnNames (hensure.trans hone) d.1 d.2.name
          have hne : ¬(d.1 = c.1 ∧ d.2.name = c.2.name) := fun ⟨h₁, h₂⟩ =>
            hother d hd (by rw [h₁, h₂])
          simp [hnames, hne]
        show runAll (execute dialect) (lacking db l) db₁ = runAll (ensure dialect) l db₁
        rw [hsame, ih hplaces]

/-- After any part of the missing columns has been added, the rest can be. -/
theorem resume_lacking {l : List Place} {k : Nat} {db₁ db₂ : Db} (hplaces : Places l)
    (hpart : runAll (execute dialect) ((lacking db l).take k) db = .ok db₁)
    (hwhole : runAll (execute dialect) (lacking db l) db = .ok db₂) :
    runAll (execute dialect) (lacking db₁ l) db₁ = .ok db₂ := by
  obtain ⟨j, hj⟩ : ∃ j, (lacking db l).take k = lacking db (l.take j) := by
    unfold lacking
    rw [← List.map_take]
    obtain ⟨l', hl', heq⟩ := List.prefix_filter_iff.mp (List.take_prefix k (l.filter _))
    exact ⟨l'.length, by rw [heq, ← List.prefix_iff_eq_take.mp hl']⟩
  have hpart' : runAll (ensure dialect) (l.take j) db = .ok db₁ := by
    rw [← runAll_lacking (hplaces.sublist (List.take_sublist j l)), ← hj, hpart]
  rw [runAll_lacking hplaces] at hwhole ⊢
  exact resume (fun c _ _ _ => ensure_settles)
    (List.pairwise_of_forall_mem_list fun c _ d _ => ensure_keeps c d) hpart' hwhole

/-- Afterwards no column is lacking. -/
theorem lacking_nil {l : List Place} (hplaces : Places l)
    (h : runAll (execute dialect) (lacking db l) db = .ok db')
    (hnames : ∀ t name, name ∈ db'.columnNames t → name ∈ db₁.columnNames t) :
    lacking db₁ l = [] := by
  rw [runAll_lacking hplaces] at h
  have hsettled := settled_of_runAll (fun c _ _ _ => ensure_settles)
    (List.pairwise_of_forall_mem_list fun c _ d _ => ensure_keeps c d) h
  unfold lacking
  rw [List.map_eq_nil_iff, List.filter_eq_nil_iff]
  intro c hc
  simp [hnames _ _ (ensure_settled.mp (hsettled c hc))]

/-! ## Rows that are written -/

theorem Row.clashes_comm (columns : List String) (r s : Row) :
    Row.clashes columns r s = Row.clashes columns s r := by
  unfold Row.clashes
  congr 1
  funext c
  by_cases hsame : r c = s c
  · rw [hsame]
  · simp [hsame, Ne.symm hsame]

/-- Rows that the table accepts are inserted if they clash, apart from the
conflict, neither with each other nor with a row of the table. -/
theorem foldlM_insertRow_ok {t : TableDef} {conflict : String} {l : List Row}
    (haccepts : ∀ r ∈ l, t.accepts r = true)
    (hthere : ∀ u ∈ db.uniques t.name, u ≠ [conflict] → ∀ s ∈ db.rows t.name, ∀ r ∈ l,
      Row.clashes u s r = false)
    (hrows : ∀ u ∈ db.uniques t.name, u ≠ [conflict] →
      l.Pairwise fun r s => Row.clashes u r s = false) :
    ∃ rows, l.foldlM (insertRow t conflict) db = .ok (db.withRows t.name rows) := by
  induction l generalizing db with
  | nil => exact ⟨db.rows t.name, by rw [withRows_self]; rfl⟩
  | cons r l ih =>
    have hrest : ∀ r ∈ l, t.accepts r = true := fun s hs => haccepts s (List.mem_cons_of_mem r hs)
    have htail : ∀ u ∈ db.uniques t.name, u ≠ [conflict] →
        l.Pairwise fun r s => Row.clashes u r s = false := fun u hu hne =>
      (List.pairwise_cons.mp (hrows u hu hne)).2
    rw [List.foldlM_cons]
    by_cases hclash : (db.rows t.name).any (Row.clashes [conflict] r) = true
    · rw [show insertRow t conflict db r = .ok db from if_pos hclash]
      exact ih hrest (fun u hu hne s hs r' hr' => hthere u hu hne s hs
        r' (List.mem_cons_of_mem r hr'))
        htail
    · have hunique : ((db.uniques t.name).all fun u => (db.rows t.name).all fun s =>
          !Row.clashes u s r) = true := by
        simp only [List.all_eq_true, Bool.not_eq_true']
        intro u hu s hs
        by_cases hconflict : u = [conflict]
        · rw [hconflict, Row.clashes_comm]
          simp only [List.any_eq_true, not_exists, not_and, Bool.not_eq_true] at hclash
          exact hclash s hs
        · exact hthere u hu hconflict s hs r List.mem_cons_self
      have hone : insertRow t conflict db r = .ok
        (db.withRows t.name (db.rows t.name ++ [r])) := by
        unfold insertRow
        rw [if_neg hclash]
        simp only [bind_ok_iff, require_ok_iff]
        exact ⟨(), haccepts r List.mem_cons_self, (), hunique, rfl⟩
      rw [hone]
      obtain ⟨rows, hrun⟩ := @ih (db.withRows t.name (db.rows t.name ++ [r])) hrest (by
        intro u hu hne s hs r' hr'
        rw [rows_withRows] at hs
        rcases List.mem_append.mp hs with hs | hs
        · exact hthere u hu hne s hs r' (List.mem_cons_of_mem r hr')
        · rw [List.mem_singleton.mp hs]
          exact (List.pairwise_cons.mp (hrows u hu hne)).1 r' hr') htail
      rw [withRows_withRows] at hrun
      exact ⟨rows, hrun⟩

/-- A new table without other indexes takes rows that clash in the conflict
only. -/
theorem runAll_fill {t : TableDef} {select : Db → List Row} {conflict : String}
    (hnew : db.table? t.name = none) (hindexes : ∀ i ∈ db.indexes, i.table ≠ t.name)
    (haccepts : ∀ r ∈ select (db.addTable t), t.accepts r = true)
    (hrows : ∀ u ∈ t.unique, u ≠ [conflict] →
      (select (db.addTable t)).Pairwise fun r s => Row.clashes u r s = false) :
    ∃ rows, runAll (execute dialect) [.createTable t, .insert t.name select conflict] db =
      .ok ((db.addTable t).withRows t.name rows) := by
  have hthere : (db.addTable t).table? t.name = some t := by
    rw [table?_addTable, hnew, if_pos rfl]
    rfl
  have huniques : (db.addTable t).uniques t.name = t.unique := by
    unfold Db.uniques
    rw [hthere]
    have hnone : (db.addTable t).indexes.filter (fun i => i.unique && i.table = t.name) = [] := by
      rw [List.filter_eq_nil_iff]
      intro i hi
      simp [hindexes i hi]
    rw [hnone]
    simp
  obtain ⟨rows, hrun⟩ := @foldlM_insertRow_ok (db.addTable t) _ conflict _ haccepts
    (by simp [Db.addTable])
    (by rw [huniques]; exact hrows)
  refine ⟨rows, runAll_cons_ok.mpr ⟨db.addTable t, ?_, runAll_cons_ok.mpr ⟨_, ?_, rfl⟩⟩⟩
  · simp only [execute, hnew]
    rfl
  · simp only [execute, hthere]
    exact hrun

/-- An update commits when the columns accept what it writes, and the rows
clash in none of them. -/
theorem update_ok {table : String} {t : TableDef} {values : List (String × Value)}
    {where' : Row → Bool} {rows : List Row} (hthere : db.table? table = some t)
    (hrows : (db.rows table).map (fun r => if where' r then r.set values else r) = rows)
    (hcolumns : ∀ v ∈ values, v.1 ∈ db.columnNames table)
    (haccepts : ∀ c ∈ t.columns, c.name ∈ values.map Prod.fst →
      ∀ r ∈ rows, c.accepts (r c.name) = true)
    (huniques : ∀ u ∈ db.uniques table, ∀ c ∈ u, c ∈ values.map Prod.fst →
      distinctOn u rows = true) :
    execute dialect (.update table values where') db = .ok (db.withRows table rows) := by
  subst hrows
  simp only [execute, bind_ok_iff, orRaise_ok_iff, require_ok_iff]
  refine ⟨t, hthere, (), ?_, (), ?_, (), ?_, rfl⟩
  · simpa using hcolumns
  · simp only [List.all_eq_true, Bool.or_eq_true, decide_eq_true_eq]
    intro c hc
    by_cases hwritten : c.name ∈ values.map Prod.fst
    · exact .inr (haccepts c hc hwritten)
    · exact .inl hwritten
  · simp only [List.all_eq_true, Bool.or_eq_true, decide_eq_true_eq]
    intro u hu
    by_cases hwritten : ∃ c ∈ u, c ∈ values.map Prod.fst
    · obtain ⟨c, hc, hmem⟩ := hwritten
      exact .inr (huniques u hu c hc hmem)
    · exact .inl fun c hc hmem => hwritten ⟨c, hc, hmem⟩

/-- A row stays accepted when the columns accept what is written. -/
theorem accepts_set {t : TableDef} {values : List (String × Value)}
    (haccepts : ∀ c ∈ t.columns, ∀ v ∈ values, v.1 = c.name → c.accepts v.2 = true) {r : Row}
    (h : t.accepts r = true) : t.accepts (r.set values) = true := by
  unfold TableDef.accepts at h ⊢
  rw [List.all_eq_true] at h ⊢
  intro c hc
  unfold Row.set
  cases hvalue : values.lookup c.name with
  | none => exact h c hc
  | some v =>
    obtain ⟨l₁, l₂, rfl, -⟩ := List.lookup_eq_some_iff.mp hvalue
    exact haccepts c hc (c.name, v) (by simp) rfl

/-- An update to fixed values commits when the columns accept them and no
constraint is on a column that is written. -/
theorem update_fixed_ok {table : String} {t : TableDef} {values : List (String × Value)}
    {where' : Row → Bool} (hthere : db.table? table = some t)
    (hrows : ∀ r ∈ db.rows table, t.accepts r = true)
    (hcolumns : ∀ v ∈ values, v.1 ∈ db.columnNames table)
    (haccepts : ∀ c ∈ t.columns, ∀ v ∈ values, v.1 = c.name → c.accepts v.2 = true)
    (huniques : ∀ u ∈ db.uniques table, ∀ c ∈ u, c ∉ values.map Prod.fst) :
    execute dialect (.update table values where') db =
      .ok (db.withRows table ((db.rows table).map fun r => if where' r
        then r.set values else r)) := by
  refine update_ok hthere rfl hcolumns ?_ fun u hu c hc hmem => absurd hmem (huniques u hu c hc)
  intro c hc _ s hs
  obtain ⟨r, hr, rfl⟩ := List.mem_map.mp hs
  have haccepted : t.accepts (if where' r then r.set values else r) = true := by
    split_ifs
    · exact accepts_set haccepts (hrows r hr)
    · exact hrows r hr
  exact List.all_eq_true.mp haccepted c hc

theorem lacking_congr (hsame : SameSchema db b) (l : List Place) :
    lacking db l = lacking b l := by
  unfold lacking
  congr 1
  refine List.filter_congr fun c _ => ?_
  rw [hsame.columnNames]

end

end QuakeJs.Sql
