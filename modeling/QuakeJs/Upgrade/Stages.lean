import QuakeJs.Upgrade.Migrations
import QuakeJs.Upgrade.Schema

/-!
# The stages of an upgrade

The tables and indexes that each migration finds, and that it runs to its end
from any database that has them and keeps their constraints.
-/

namespace QuakeJs.Upgrade

open Sql Async

/-! ## The schema before each migration -/

def ledgerTables : List TableDef :=
  [settingsNative, arenas, participants, entries, lives, runs, payouts]

/-- The tables after `m009`, where those of `arenas` may have grown since. -/
def lobbyTables (columns : List Column) : List TableDef :=
  [settingsNative.withColumns settingsColumns, arenas.withColumns (arenaColumns ++ columns),
    participants, entries, lives, runs, payouts, creatorPayouts, payoutInvoiceClaims]

def ledgerIndexes : List Index :=
  [⟨"arena_owner_idx", "arenas", ["owner_id"], false⟩,
    ⟨"entry_status_idx", "entries", ["status", "expires_at"], false⟩,
    ⟨"entry_player_idx", "entries", ["player_id", "remaining"], false⟩,
    ⟨"life_arena_idx", "lives", ["arena_id", "status"], false⟩,
    ⟨"life_player_idx", "lives", ["player_id", "status"], false⟩,
    ⟨"payout_work_idx", "payouts", ["status", "next_attempt"], false⟩]

def lobbyIndexes : List Index :=
  [⟨"lobby_public_id_idx", "settings_native", ["public_id"], true⟩,
    ⟨"public_arena_nonce_idx", "arenas", ["owner_id", "public_nonce"], true⟩,
    ⟨"lobby_arena_idx", "arenas", ["owner_id", "active", "lobby_hidden"], false⟩,
    ⟨"lobby_score_idx", "payouts", ["arena_id", "status", "ln_address"], false⟩,
    ⟨"creator_work_idx", "creator_payouts", ["status", "next_attempt"], false⟩,
    ⟨"creator_arena_idx", "creator_payouts", ["arena_id", "created_at"], false⟩]

/-- The empty database that a migration finds. -/
def Migration.schema : Migration → Db
  | nativeArenaLedger => Db.empty
  | retryUnpreparedPayouts | publicLobbies => ⟨ledgerTables, ledgerIndexes, fun _ => []⟩
  | serverCapacity => ⟨lobbyTables [], ledgerIndexes ++ lobbyIndexes, fun _ => []⟩
  | adminArenaClosure =>
    ⟨lobbyTables [] ++ [serverSettings], ledgerIndexes ++ lobbyIndexes, fun _ => []⟩
  | leaveRefunds =>
    ⟨lobbyTables [counter .integer "admin_closed" 0] ++ [serverSettings],
      ledgerIndexes ++ lobbyIndexes, fun _ => []⟩

/-- The result is a database with these tables and indexes. -/
def HasSchema (schema : Db) (x : Except Error Db) : Prop :=
  x.toOption.map (fun db => (db.tables, db.indexes)) = some (schema.tables, schema.indexes)

instance (schema : Db) (x : Except Error Db) : Decidable (HasSchema schema x) :=
  inferInstanceAs (Decidable (_ = _))


theorem HasSchema.ok {schema : Db} {x : Except Error Db} (h : HasSchema schema x) :
    ∃ db, x = .ok db ∧ SameSchema db schema := by
  cases x with
  | error e => cases h
  | ok db =>
    obtain ⟨htables, hindexes⟩ := Prod.mk.inj (Option.some.inj h)
    exact ⟨db, rfl, htables, hindexes⟩

section

variable {dialect : Dialect} {db : Db}

/-! ## The statements of each migration -/

theorem arenaLedger_ok (hsame : SameSchema db Migration.nativeArenaLedger.schema) :
    ∃ db', runAll (execute dialect) (arenaLedger dialect) db = .ok db' ∧
      SameSchema db' Migration.retryUnpreparedPayouts.schema := by
  have hbare : HasSchema Migration.retryUnpreparedPayouts.schema
      (runAll (execute dialect) (arenaLedger dialect) Migration.nativeArenaLedger.schema) := by
    cases dialect <;> decide
  obtain ⟨b, hrun, hschema⟩ := hbare.ok
  obtain ⟨db', hrun', hsame'⟩ := runAll_plain (by cases dialect <;> rfl) hsame hrun
  exact ⟨db', hrun', hsame'.trans hschema⟩

theorem arenaLedger_creates : ∀ s ∈ arenaLedger dialect, s.creates = true := by
  rw [← List.all_eq_true]
  cases dialect <;> rfl

/-- A payout after `m008`. -/
def retried (r : Row) : Row := if unprepared r then r.set unpreparedAgain else r

/-- A row that was reset is not reset again. -/
theorem retried_retried (r : Row) : retried (retried r) = retried r := by
  by_cases hunprepared : unprepared r = true
  · have hreset : retried r = r.set unpreparedAgain := if_pos hunprepared
    have herror : r.set unpreparedAgain "error" = .text "" := rfl
    rw [hreset]
    exact if_neg (by simp [unprepared, herror])
  · have hkept : retried r = r := if_neg hunprepared
    rw [hkept, hkept]

theorem retry_ok (hsame : SameSchema db Migration.retryUnpreparedPayouts.schema)
    (haccepts : ∀ r ∈ db.rows "payouts", payouts.accepts r = true) :
    execute dialect (.update "payouts" unpreparedAgain unprepared) db =
      .ok (db.withRows "payouts" ((db.rows "payouts").map retried)) := by
  refine update_fixed_ok (t := payouts) ?_ haccepts ?_ ?_ ?_
  · rw [hsame.table?]
    decide
  · rw [hsame.columnNames]
    decide
  · decide
  · rw [hsame.uniques]
    decide

theorem retried_accepts {r : Row} (h : payouts.accepts r = true) :
    payouts.accepts (retried r) = true := by
  unfold retried
  split_ifs
  · exact accepts_set (by decide) h
  · exact h

theorem serverCapacity_ok (hsame : SameSchema db Migration.serverCapacity.schema) :
    ∃ db', runAll (execute dialect) serverCapacity db = .ok db' ∧
      SameSchema db' Migration.adminArenaClosure.schema := by
  obtain ⟨rows, hrun⟩ := @runAll_fill dialect db serverSettings
    (fun _ => [serverSettings.row [("id", .integer 1), ("max_matches", .integer 4)]])
      "id" (by rw [hsame.table?]; decide)
    (by rw [hsame.2]; decide) (by decide)
    (fun u _ _ => List.pairwise_singleton _ _)
  refine ⟨_, hrun, ?_, hsame.2⟩
  show db.tables ++ [serverSettings] = _
  rw [hsame.1]
  rfl

/-- The column that `m011` adds. -/
theorem adminClosed_ok (hsame : SameSchema db Migration.adminArenaClosure.schema) :
    ∃ db', execute dialect (.addColumn "arenas"
      (counter .integer "admin_closed" 0)) db = .ok db' ∧
      SameSchema db' Migration.leaveRefunds.schema := by
  have hbare : HasSchema Migration.leaveRefunds.schema
      (execute dialect (.addColumn "arenas" (counter .integer "admin_closed" 0))
        Migration.adminArenaClosure.schema) := by
    cases dialect <;> decide
  obtain ⟨b, hrun, hschema⟩ := hbare.ok
  have hfits : Statement.Fits db.rows
      (.addColumn "arenas" (counter .integer "admin_closed" 0)) := trivial
  obtain ⟨db', hrun', hsame'⟩ := execute_of_bare hsame rfl hfits hrun
  exact ⟨db', hrun', hsame'.trans hschema⟩

/-- `missing` is given the columns that are there. -/
theorem missing_eq (db : Db) (t : String) (columns : List Column) :
    missing t (db.columnNames t) columns = lacking db (columns.map (Prod.mk t)) := by
  simp [missing, lacking, List.filter_map, Function.comp_def]

/-- The columns that `m012` adds. -/
def leavePlaces : List Place := [emptyText "leave_state"].map (Prod.mk "participants")

theorem missing_leavePlaces (db : Db) : missing "participants" (db.columnNames "participants")
    [emptyText "leave_state"] = lacking db leavePlaces :=
  missing_eq db _ _

theorem leaveRefunds_creates : ∀ s ∈ leaveRefunds dialect, s.creates = true := by
  rw [← List.all_eq_true]
  cases dialect <;> rfl

theorem leaveRefunds_ok (hsame : SameSchema db Migration.leaveRefunds.schema) :
    ∃ db₁ db', runAll (execute dialect) (lacking db leavePlaces) db = .ok db₁ ∧
      runAll (execute dialect) (leaveRefunds dialect) db₁ = .ok db' := by
  let l := lacking Migration.leaveRefunds.schema leavePlaces ++ leaveRefunds dialect
  have hbare : (runAll (execute dialect) l Migration.leaveRefunds.schema).isOk = true := by
    cases dialect <;> decide
  cases hrun : runAll (execute dialect) l Migration.leaveRefunds.schema with
  | error e =>
    rw [hrun] at hbare
    cases hbare
  | ok b =>
    have hplain : l.all Statement.plain = true := by cases dialect <;> decide
    obtain ⟨db', hrun', -⟩ := runAll_plain hplain hsame hrun
    rw [runAll_append_ok, ← lacking_congr hsame] at hrun'
    obtain ⟨db₁, hcolumns, hcreates⟩ := hrun'
    exact ⟨db₁, db', hcolumns, hcreates⟩

end

/-! ## Public ids -/

/-- Rows with ids, all different. -/
structure Keyed (rows : List Row) : Prop where
  ids : ∀ r ∈ rows, r "id" ≠ .null
  distinct : (rows.map fun r => r "id").Nodup

theorem clashes_single {c : String} {r s : Row} :
    Row.clashes [c] r s = false ↔ r c = s c → r c = .null := by
  simp [Row.clashes]

theorem Keyed.of_valid {db : Db} (hvalid : db.Valid) {t : TableDef} (ht : t ∈ db.tables)
    (hid : required .text "id" ∈ t.columns) (hunique : ["id"] ∈ db.uniques t.name) :
    Keyed (db.rows t.name) := by
  obtain ⟨haccepts, hdistinct⟩ := hvalid t ht
  have hids : ∀ r ∈ db.rows t.name, r "id" ≠ .null := by
    intro r hr hnull
    have hcolumn := List.all_eq_true.mp (haccepts r hr) _ hid
    simp [required, Column.accepts, hnull] at hcolumn
  refine ⟨hids, ?_⟩
  rw [List.Nodup, List.pairwise_map]
  have hpairs : (db.rows t.name).Pairwise fun r s => Row.clashes ["id"] r s = false :=
    of_decide_eq_true (hdistinct _ hunique)
  refine hpairs.imp_of_mem fun {r s} hr _ hclash heq => hids r hr (clashes_single.mp hclash heq)

/-- A row has one id. -/
theorem Keyed.eq {rows : List Row} (h : Keyed rows) {r s : Row} (hr : r ∈ rows) (hs : s ∈ rows)
    (hid : r "id" = s "id") : r = s :=
  List.inj_on_of_nodup_map h.distinct hr hs hid

/-- The row after one turn of the loop over the settings. -/
def withPublicId (id : Value) (token : String) (r : Row) : Row :=
  if r "id" = id then r.set [("public_id", .text token)] else r

theorem withPublicId_other {id : Value} {token column : String}
    (h : column ≠ "public_id") (r : Row) :
    withPublicId id token r column = r column := by
  unfold withPublicId Row.set
  split_ifs
  · simp [List.lookup_cons, beq_eq_false_iff_ne.mpr h]
  · rfl

theorem withPublicId_publicId (id : Value) (token : String) (r : Row) :
    withPublicId id token r "public_id" = if r "id" = id then .text token else r "public_id" := by
  unfold withPublicId
  split_ifs <;> rfl

/-- The first `n` tokens are different, as those of `secrets` are. -/
def Fresh (tokens : Nat → String) (n : Nat) : Prop := ∀ i j, i < j → j < n → tokens i ≠ tokens j

theorem Fresh.mono {tokens : Nat → String} {n n' : Nat} (h : Fresh tokens n') (hle : n ≤ n') :
    Fresh tokens n :=
  fun i j hij hj => h i j hij (Nat.lt_of_lt_of_le hj hle)

/-- The settings while public ids are assigned. -/
structure Draft (tokens : Nat → String) (k : Nat)
    (rows : List Row) : Prop extends Keyed rows where
  old : ∀ r ∈ rows, r "public_id" = .null ∨ ∃ i < k, r "public_id" = .text (tokens i)
  publicIds : rows.Pairwise fun r s => r "public_id" = s "public_id" → r "public_id" = .null

section

variable {tokens : Nat → String} {k : Nat} {rows : List Row}

theorem Draft.mono (h : Draft tokens k rows) {k' : Nat} (hle : k ≤ k') :
    Draft tokens k' rows where
  toKeyed := h.toKeyed
  publicIds := h.publicIds
  old := by
    intro r hr
    rcases h.old r hr with hnull | ⟨i, hi, heq⟩
    · exact .inl hnull
    · exact .inr ⟨i, by omega, heq⟩

/-- One turn of the loop assigns a token that no row has. -/
theorem Draft.step (h : Draft tokens k rows) (hfresh : Fresh tokens (k + 1)) (id : Value) :
    Draft tokens (k + 1) (rows.map (withPublicId id (tokens k))) where
  ids := by
    intro s hs
    obtain ⟨r, hr, rfl⟩ := List.mem_map.mp hs
    rw [withPublicId_other (by decide)]
    exact h.ids r hr
  distinct := by
    rw [List.map_map]
    have hid : (fun r => r "id") ∘ withPublicId id (tokens k) = fun r : Row => r "id" := by
      funext r
      exact withPublicId_other (by decide) r
    rw [hid]
    exact h.distinct
  old := by
    intro s hs
    obtain ⟨r, hr, rfl⟩ := List.mem_map.mp hs
    rw [withPublicId_publicId]
    by_cases hrow : r "id" = id
    · rw [if_pos hrow]
      exact .inr ⟨k, by omega, rfl⟩
    · rw [if_neg hrow]
      exact (h.mono (Nat.le_succ k)).old r hr
  publicIds := by
    have hpairs : rows.Pairwise fun r s => r "id" ≠ s "id" ∧
        (r "public_id" = s "public_id" → r "public_id" = .null) :=
      (List.pairwise_map.mp h.distinct).and h.publicIds
    have hnew : ∀ r ∈ rows, r "public_id" ≠ .text (tokens k) := by
      intro r hr heq
      rcases h.old r hr with hnull | ⟨i, hi, hold⟩
      · simp [hnull] at heq
      · rw [hold] at heq
        exact hfresh i k hi (Nat.lt_succ_self k) (Value.text.inj heq)
    rw [List.pairwise_map]
    refine hpairs.imp_of_mem fun {r s} hr hs hpair => ?_
    rw [withPublicId_publicId, withPublicId_publicId]
    by_cases hfirst : r "id" = id
    · have hsecond : s "id" ≠ id := fun heq => hpair.1 (hfirst.trans heq.symm)
      rw [if_pos hfirst, if_neg hsecond]
      exact fun heq => absurd heq.symm (hnew s hs)
    · rw [if_neg hfirst]
      by_cases hsecond : s "id" = id
      · rw [if_pos hsecond]
        exact fun heq => absurd heq (hnew r hr)
      · rw [if_neg hsecond]
        exact hpair.2

/-- The row after the loop over these ids, from token `k` on. -/
def assign (tokens : Nat → String) : List Value → Nat → Row → Row
  | [], _, r => r
  | id :: rest, k, r => assign tokens rest (k + 1) (withPublicId id (tokens k) r)

theorem assign_other {column : String} (h : column ≠ "public_id") (ids : List Value) (k : Nat)
    (r : Row) : assign tokens ids k r column = r column := by
  induction ids generalizing k r with
  | nil => rfl
  | cons id ids ih =>
    show assign tokens ids (k + 1) (withPublicId id (tokens k) r) column = r column
    rw [ih, withPublicId_other h]

/-- A row that is not named is kept. -/
theorem assign_kept {ids : List Value} {r : Row} (h : r "id" ∉ ids) (k : Nat) :
    assign tokens ids k r = r := by
  induction ids generalizing k with
  | nil => rfl
  | cons id ids ih =>
    obtain ⟨hid, hrest⟩ := not_or.mp (fun hmem => h (List.mem_cons.mpr hmem))
    show assign tokens ids (k + 1) (withPublicId id (tokens k) r) = r
    rw [show withPublicId id (tokens k) r = r from if_neg hid]
    exact ih hrest (k + 1)

/-- A row that is named has a public id afterwards, as has one that had one. -/
theorem assign_given {ids : List Value} {r : Row} (h : r "id" ∈ ids ∨ r "public_id" ≠ .null)
    (k : Nat) : assign tokens ids k r "public_id" ≠ .null := by
  induction ids generalizing k r with
  | nil => exact h.resolve_left List.not_mem_nil
  | cons id ids ih =>
    refine ih (r := withPublicId id (tokens k) r) ?_ (k + 1)
    rw [withPublicId_other (by decide), withPublicId_publicId]
    by_cases hid : r "id" = id
    · rw [if_pos hid]
      exact .inr (by simp)
    · rw [if_neg hid]
      rcases h with hmem | hgiven
      · exact .inl ((List.mem_cons.mp hmem).resolve_left hid)
      · exact .inr hgiven

theorem Draft.assigned (h : Draft tokens k rows) {ids : List Value}
    (hfresh : Fresh tokens (k + ids.length)) :
    Draft tokens (k + ids.length) (rows.map (assign tokens ids k)) := by
  induction ids generalizing k rows with
  | nil =>
    rw [show assign tokens [] k = id from rfl, List.map_id]
    exact h
  | cons id ids ih =>
    have hlength : k + (id :: ids).length = k + 1 + ids.length := by
      rw [List.length_cons]
      omega
    rw [hlength] at hfresh ⊢
    have hrest := ih (h.step (hfresh.mono (Nat.le_add_right _ _)) id) hfresh
    rw [List.map_map] at hrest
    exact hrest

/-- The settings that have no public id are found by their ids. -/
theorem Draft.mem_unassigned (h : Draft tokens k rows) {r : Row} (hr : r ∈ rows) :
    r "id" ∈ unassignedIds rows ↔ r "public_id" = .null := by
  unfold unassignedIds
  simp only [List.mem_map, List.mem_filter, decide_eq_true_eq]
  constructor
  · rintro ⟨s, ⟨hs, hnull⟩, hid⟩
    rw [← h.eq hs hr hid]
    exact hnull
  · exact fun hnull => ⟨r, ⟨hr, hnull⟩, rfl⟩

end

/-! ## The columns, the loop and the lobbies of `m009` -/

/-- The columns that `m009` adds. -/
def lobbyPlaces : List Place :=
  settingsColumns.map (Prod.mk "settings_native") ++ arenaColumns.map (Prod.mk "arenas")

/-- The schema after these columns. -/
def widened : Db :=
  ⟨[settingsNative.withColumns settingsColumns, arenas.withColumns arenaColumns, participants,
    entries, lives, runs, payouts], ledgerIndexes, fun _ => []⟩

/-- The database after these columns, while public ids are assigned. -/
structure Widened (tokens : Nat → String) (k : Nat) (db : Db) : Prop where
  schema : SameSchema db widened
  settings : Draft tokens k (db.rows "settings_native")
  nonces : ∀ r ∈ db.rows "arenas", r "public_nonce" = .null
  payouts : Keyed (db.rows "payouts")

section

variable {dialect : Dialect} {tokens : Nat → String} {k : Nat} {db : Db}

theorem missing_lobbyPlaces (db : Db) :
    missing "settings_native" (db.columnNames "settings_native") settingsColumns ++
      missing "arenas" (db.columnNames "arenas") arenaColumns = lacking db lobbyPlaces := by
  rw [missing_eq, missing_eq]
  simp [lacking, lobbyPlaces]

theorem lobbyPlaces_places : Places lobbyPlaces := by
  unfold Places
  decide

theorem lobbyColumns_ok (dialect : Dialect) (k : Nat)
    (hsame : SameSchema db Migration.publicLobbies.schema) (hvalid : db.Valid) :
    ∃ db', runAll (execute dialect) (lacking db lobbyPlaces) db = .ok db' ∧ Widened tokens k db' ∧
      (∀ r ∈ db'.rows "settings_native", r "public_id" = .null) ∧
      (db'.rows "settings_native").length = (db.rows "settings_native").length := by
  have hall : lacking db lobbyPlaces = lobbyPlaces.map fun c => .addColumn c.1 c.2 := by
    rw [lacking_congr hsame]
    unfold lacking
    rw [List.filter_eq_self.mpr]
    decide
  have hbare : HasSchema widened (runAll (execute dialect)
      (lobbyPlaces.map fun c => .addColumn c.1 c.2) Migration.publicLobbies.schema) := by
    cases dialect <;> decide
  obtain ⟨b, hrun, hschema⟩ := hbare.ok
  obtain ⟨db', hrun', hsame'⟩ := runAll_plain rfl hsame hrun
  have hrows := runAll_addColumns hrun'
  have hsettings : Keyed (db.rows "settings_native") :=
    Keyed.of_valid hvalid (t := settingsNative) (by rw [hsame.1]; decide) (by decide)
      (by rw [hsame.uniques]; decide)
  have hpayouts : Keyed (db.rows "payouts") :=
    Keyed.of_valid hvalid (t := payouts) (by rw [hsame.1]; decide) (by decide)
      (by rw [hsame.uniques]; decide)
  have hnull : ∀ r ∈ db'.rows "settings_native", r "public_id" = .null := by
    intro s hs
    rw [hrows] at hs
    obtain ⟨r, -, rfl⟩ := List.mem_map.mp hs
    rfl
  refine ⟨db', by rw [hall, hrun'], ⟨hsame'.trans hschema,
    ?_, ?_, ?_⟩, hnull, by rw [hrows, List.length_map]⟩
  · refine ⟨⟨?_, ?_⟩, fun r hr => .inl (hnull r hr), ?_⟩
    · intro s hs
      rw [hrows] at hs
      obtain ⟨r, hr, rfl⟩ := List.mem_map.mp hs
      exact hsettings.ids r hr
    · rw [hrows, List.map_map]
      exact hsettings.distinct
    · exact List.pairwise_of_forall_mem_list fun r hr s _ _ => hnull r hr
  · intro s hs
    rw [hrows] at hs
    obtain ⟨r, -, rfl⟩ := List.mem_map.mp hs
    rfl
  · rw [hrows]
    exact (List.map_id _).symm ▸ hpayouts

namespace Widened

/-- Only the settings have changed. -/
theorem withRows (h : Widened tokens k db) {k' : Nat} {rows : List Row}
    (hrows : Draft tokens k' rows) : Widened tokens k' (db.withRows "settings_native" rows) where
  schema := h.schema
  settings := by
    rw [rows_withRows]
    exact hrows
  nonces := by
    rw [rows_withRows_of_ne db rows (by decide)]
    exact h.nonces
  payouts := by
    rw [rows_withRows_of_ne db rows (by decide)]
    exact h.payouts

theorem turn (h : Widened tokens k db) (hfresh : Fresh tokens (k + 1)) (id : Value) :
    execute dialect (.update "settings_native" [("public_id", .text (tokens k))]
      (fun r => r "id" = id)) db =
      .ok (db.withRows "settings_native"
        ((db.rows "settings_native").map (withPublicId id (tokens k)))) := by
  refine update_ok (t := settingsNative.withColumns settingsColumns) ?_ ?_ ?_ ?_ ?_
  · rw [h.schema.table?]
    decide
  · simp only [decide_eq_true_eq]
    rfl
  · rw [h.schema.columnNames]
    simp only [List.mem_singleton, forall_eq]
    decide
  · intro c hc hname r hr
    have hcolumn : c = nullable .text "public_id" := by
      have hcolumns : ∀ c ∈ (settingsNative.withColumns settingsColumns).columns,
          c.name ∈ ["public_id"] → c = nullable .text "public_id" := by decide
      exact hcolumns c hc hname
    subst hcolumn
    show (nullable .text "public_id").accepts (r "public_id") = true
    rcases (h.settings.step hfresh id).old r hr with hnull | ⟨i, -, htext⟩
    · rw [hnull]
      rfl
    · rw [htext]
      rfl
  · rw [h.schema.uniques]
    have hnone : ∀ u ∈ widened.uniques "settings_native", "public_id" ∉ u := by decide
    intro u hu c hc hmem
    obtain rfl : c = "public_id" := by simpa using hmem
    exact absurd hc (hnone u hu)

end Widened

/-- Before its first turn the loop has done nothing. -/
theorem withRows_assign_nil (db : Db) (k : Nat) : db.withRows "settings_native"
    ((db.rows "settings_native").map (assign tokens [] k)) = db := by
  rw [show assign tokens [] k = id from rfl, List.map_id, withRows_self]

/-- The loop assigns public ids, and does nothing else. -/
theorem run_assignPublicIds {w : World} (h : Widened tokens w.drawn w.db) {ids : List Value}
    (hfresh : Fresh tokens (w.drawn + ids.length)) :
    run dialect tokens (assignPublicIds ids) w = .ok ((),
      ⟨w.db.withRows "settings_native"
        ((w.db.rows "settings_native").map (assign tokens ids w.drawn)),
          w.drawn + ids.length⟩) := by
  induction ids generalizing w with
  | nil =>
    rw [withRows_assign_nil]
    rfl
  | cons id ids ih =>
    have hlength : w.drawn + (id :: ids).length = w.drawn + 1 + ids.length := by
      rw [List.length_cons]
      omega
    rw [hlength] at hfresh ⊢
    have hone : Fresh tokens (w.drawn + 1) := hfresh.mono (Nat.le_add_right _ _)
    have hturn : perform dialect tokens { w with drawn := w.drawn + 1 } (.execute
        (.update "settings_native" [("public_id", .text (tokens w.drawn))]
          (fun r => r "id" = id))) =
        .ok ((), ⟨w.db.withRows "settings_native"
          ((w.db.rows "settings_native").map (withPublicId id (tokens w.drawn))),
            w.drawn + 1⟩) := by
      simp only [perform, h.turn hone id]
      rfl
    have hrest := ih (w := ⟨w.db.withRows "settings_native"
      ((w.db.rows "settings_native").map (withPublicId id (tokens w.drawn))), w.drawn + 1⟩)
      (h.withRows (h.settings.step hone id)) hfresh
    refine (run_await rfl).trans ((run_await hturn).trans (hrest.trans ?_))
    rw [rows_withRows, withRows_withRows, List.map_map]
    rfl

/-- When the loop is interrupted, it has had a part of its turns, and may have
drawn a token for the next one. -/
theorem interrupted_assignPublicIds {w w' : World} (h : Widened tokens w.drawn w.db)
    {ids : List Value} (hfresh : Fresh tokens (w.drawn + ids.length))
    (hcut : Interrupted dialect tokens (assignPublicIds ids) w w') :
    ∃ j ≤ ids.length, w.drawn + j ≤ w'.drawn ∧ w'.db = w.db.withRows "settings_native"
      ((w.db.rows "settings_native").map (assign tokens (ids.take j) w.drawn)) := by
  induction ids generalizing w with
  | nil =>
    cases hcut
    exact ⟨0, Nat.zero_le _, Nat.le_refl _, (withRows_assign_nil _ _).symm⟩
  | cons id ids ih =>
    rcases interrupted_await hcut with rfl | ⟨token, w₁, htoken, hcut⟩
    · exact ⟨0, Nat.zero_le _, Nat.le_refl _, (withRows_assign_nil _ _).symm⟩
    obtain ⟨rfl, rfl⟩ := Prod.mk.inj (Except.ok.inj htoken)
    rcases interrupted_await hcut with rfl | ⟨_, w₂, hturn, hcut⟩
    · exact ⟨0, Nat.zero_le _, Nat.le_succ _, (withRows_assign_nil _ _).symm⟩
    have hlength : w.drawn + (id :: ids).length = w.drawn + 1 + ids.length := by
      rw [List.length_cons]
      omega
    rw [hlength] at hfresh
    have hone : Fresh tokens (w.drawn + 1) := hfresh.mono (Nat.le_add_right _ _)
    simp only [perform, h.turn hone id] at hturn
    obtain ⟨-, rfl⟩ := Prod.mk.inj (Except.ok.inj hturn)
    obtain ⟨j, hj, hdrawn, hdb⟩ := ih (h.withRows (h.settings.step hone id)) hfresh hcut
    have hdrawn : w.drawn + 1 + j ≤ w'.drawn := hdrawn
    refine ⟨j + 1, Nat.succ_le_succ hj, by omega, ?_⟩
    rw [hdb, rows_withRows, withRows_withRows, List.map_map]
    rfl

/-- The schema when all but the claims of the invoices has been created. -/
def unclaimed : Db :=
  ⟨widened.tables ++ [creatorPayouts], ledgerIndexes ++ lobbyIndexes, fun _ => []⟩

theorem accepts_required {type : ColumnType} {name : String} {value : Value} (h : value ≠ .null) :
    (required type name).accepts value = true := by
  cases value with
  | null => exact absurd rfl h
  | integer n | text s => rfl

theorem claimRows_accepts (h : Keyed (db.rows "payouts")) :
    ∀ r ∈ claimRows db, payoutInvoiceClaims.accepts r = true := by
  intro s hs
  obtain ⟨r, hr, rfl⟩ := List.mem_map.mp hs
  obtain ⟨hr, hpaid⟩ := List.mem_filter.mp hr
  have hhash : (required .text "payment_hash").accepts (r "payment_hash") = true :=
    accepts_required (by simpa using hpaid)
  have hid : (required .text "payout_id").accepts (r "id") = true := accepts_required (h.ids r hr)
  show ((required .text "payment_hash").accepts (r "payment_hash") &&
    ((required .text "payout_id").accepts (r "id") && true)) = true
  rw [hhash, hid]
  rfl

theorem claimRows_distinct (h : Keyed (db.rows "payouts")) :
    (claimRows db).Pairwise fun r s => Row.clashes ["payout_id"] r s = false := by
  unfold claimRows
  rw [List.pairwise_map]
  have hdistinct := (List.pairwise_map.mp h.distinct).filter (fun r => r "payment_hash" ≠ .null)
  refine hdistinct.imp fun {r s} hne => clashes_single.mpr fun heq => ?_
  exact absurd heq hne

/-- The lobbies need that no two public ids and no two nonces clash. -/
theorem lobbies_ok (h : Widened tokens k db) :
    ∃ db', runAll (execute dialect) (lobbies dialect) db = .ok db' := by
  have hsplit : lobbies dialect = (lobbies dialect).take 7 ++
      [.createTable payoutInvoiceClaims,
        .insert "payout_invoice_claims" claimRows "payment_hash"] := by
    cases dialect <;> rfl
  have hcreates : ∀ s ∈ (lobbies dialect).take 7, s.creates = true := by
    rw [← List.all_eq_true]
    cases dialect <;> rfl
  have hbare : HasSchema unclaimed (runAll (execute dialect)
    ((lobbies dialect).take 7) widened) := by
    cases dialect <;> decide
  have hfits : ∀ s ∈ (lobbies dialect).take 7, s.Fits db.rows := by
    have hsettings : distinctOn ["public_id"] (db.rows "settings_native") = true :=
      decide_eq_true (h.settings.publicIds.imp fun hpair => clashes_single.mpr hpair)
    have hnonces : distinctOn ["owner_id", "public_nonce"] (db.rows "arenas") = true := by
      refine decide_eq_true (List.pairwise_of_forall_mem_list fun r hr s _ => ?_)
      simp [Row.clashes, h.nonces r hr]
    cases dialect <;> simp [lobbies, index, Statement.Fits, hsettings, hnonces]
  obtain ⟨b, hrun, hschema⟩ := hbare.ok
  obtain ⟨db₁, hrun₁, hsame₁⟩ := runAll_creates hcreates hfits h.schema hrun
  have hsame₁ : SameSchema db₁ unclaimed := hsame₁.trans hschema
  have hpayouts : Keyed ((db₁.addTable payoutInvoiceClaims).rows "payouts") := by
    have hthere : (db.table? "payouts").isSome = true := by
      rw [h.schema.table?]
      decide
    show Keyed ((db₁.withRows "payout_invoice_claims" []).rows "payouts")
    rw [rows_withRows_of_ne db₁ [] (by decide), runAll_rows hcreates hrun₁ hthere]
    exact h.payouts
  obtain ⟨rows, hfill⟩ := @runAll_fill dialect db₁ payoutInvoiceClaims claimRows
    "payment_hash" (by rw [hsame₁.table?]; decide)
    (by rw [hsame₁.2]; decide) (claimRows_accepts hpayouts) (by
      intro u hu hne
      obtain rfl : u = ["payout_id"] := by simpa [payoutInvoiceClaims, hne] using hu
      exact claimRows_distinct hpayouts)
  rw [hsplit]
  exact ⟨_, runAll_append_ok.mpr ⟨db₁, hrun₁, hfill⟩⟩

end

end QuakeJs.Upgrade
