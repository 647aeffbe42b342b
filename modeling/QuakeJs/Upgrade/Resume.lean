import QuakeJs.Upgrade.Stages
import Mathlib.Data.List.Forall2

/-!
# An interrupted upgrade

Each statement commits on its own, and a migration that was interrupted is run
again from its start.  All migrations but `m011` end as they would have ended
without the interruption.  `m011` adds its column without looking whether it
is there, so it cannot be run again once the column has been committed.
-/

namespace QuakeJs.Upgrade

open Sql Async

section

variable (dialect : Dialect) (tokens : Nat → String)

/-- What a migration finds.  Between two migrations the extension may write
any rows that keep the constraints. -/
inductive Produced : Migration → World → Prop
  | first (drawn : Nat) : Produced .nativeArenaLedger ⟨Db.empty, drawn⟩
  | next {m m' : Migration} {w w' : World} (before : Produced m w) (follows : m.next = some m')
      (ran : run dialect tokens (m.task dialect) w = .ok ((), w')) (rows : String → List Row)
      (drawn : Nat) (valid : Db.Valid { w'.db with rows }) :
      Produced m' ⟨{ w'.db with rows }, drawn⟩

/-- The rows are the same, up to a public id that the migration itself has
assigned. -/
def SameRow (start : Db) (table : String) (r s : Row) : Prop :=
  ∀ column, r column = s column ∨ (table = "settings_native" ∧ column = "public_id" ∧
    column ∉ start.columnNames table ∧ r column ≠ .null ∧ s column ≠ .null)

/-- The same schema and the same rows. -/
def Alike (start db db' : Db) : Prop :=
  SameSchema db db' ∧ ∀ table, List.Forall₂ (SameRow start table) (db.rows table) (db'.rows table)

/-- Public ids that are assigned stay. -/
def Kept (db db' : Db) : Prop :=
  "public_id" ∈ db.columnNames "settings_native" →
    List.Forall₂ (fun r s => r "public_id" ≠ .null → s "public_id" = r "public_id")
      (db.rows "settings_native") (db'.rows "settings_native")

/-- Interrupted in the second world, the migration can be run again, and ends
as an uninterrupted run from the first. -/
def Resumes (m : Migration) (w w' : World) : Prop :=
  ∃ whole again, run dialect tokens (m.task dialect) w = .ok ((), whole) ∧
    run dialect tokens (m.task dialect) w' = .ok ((), again) ∧
    Alike w.db whole.db again.db ∧ Kept w'.db again.db

end

section

variable {dialect : Dialect} {tokens : Nat → String} {m : Migration} {w w' : World}

theorem Alike.refl (start db : Db) : Alike start db db :=
  ⟨SameSchema.refl db, fun _ => List.forall₂_same.mpr fun _ _ _ => .inl rfl⟩

theorem Kept.of_rows {db db' : Db} (h : db'.rows "settings_native" = db.rows "settings_native") :
    Kept db db' := by
  intro _
  rw [h]
  exact List.forall₂_same.mpr fun _ _ _ => rfl

/-- A run that ends in the same database. -/
theorem Resumes.of_eq {db : Db} {drawn drawn' : Nat}
    (hwhole : run dialect tokens (m.task dialect) w = .ok ((), ⟨db, drawn⟩))
    (hagain : run dialect tokens (m.task dialect) w' = .ok ((), ⟨db, drawn'⟩))
    (hkept : Kept w'.db db) : Resumes dialect tokens m w w' :=
  ⟨_, _, hwhole, hagain, Alike.refl w.db db, hkept⟩

/-- A migration that is a list of statements. -/
theorem resumes_statements {l : List Statement} {db : Db} (htask : m.task dialect = statements l)
    (hwhole : runAll (execute dialect) l w.db = .ok db)
    (hagain : runAll (execute dialect) l w'.db = .ok db) (hkept : Kept w'.db db) :
    Resumes dialect tokens m w w' := by
  refine @Resumes.of_eq _ _ _ _ _ db w.drawn w'.drawn ?_ ?_ hkept
  · rw [htask]
    exact run_statements hwhole
  · rw [htask]
    exact run_statements hagain

/-! ## The migrations that are lists of statements -/

theorem resumes_nativeArenaLedger (hsame : SameSchema w.db Migration.nativeArenaLedger.schema)
    (hcut : Interrupted dialect tokens (m007NativeArenaLedger dialect) w w') :
    Resumes dialect tokens .nativeArenaLedger w w' := by
  obtain ⟨k, hpart, -⟩ := interrupted_statements hcut
  obtain ⟨db, hwhole, -⟩ := @arenaLedger_ok dialect _ hsame
  have hagain : runAll (execute dialect) (arenaLedger dialect) w'.db = .ok db := by
    have hresume := @resume_creates _ _ _ [] _ _ _ arenaLedger_creates (Nat.zero_le 1) (by simp)
      (by rw [List.append_nil]; exact hpart) (by rw [List.append_nil]; exact hwhole)
    rwa [List.append_nil] at hresume
  refine resumes_statements rfl hwhole hagain fun hcolumn => ?_
  obtain ⟨t, ht⟩ := table?_of_mem hcolumn
  have hthere : (w'.db.table? "settings_native").isSome = true := by
    rw [ht]
    rfl
  exact Kept.of_rows (runAll_rows arenaLedger_creates hagain hthere) hcolumn

theorem resumes_retryUnpreparedPayouts
    (hsame : SameSchema w.db Migration.retryUnpreparedPayouts.schema) (hvalid : w.db.Valid)
    (hcut : Interrupted dialect tokens m008RetryUnpreparedPayouts w w') :
    Resumes dialect tokens .retryUnpreparedPayouts w w' := by
  obtain ⟨k, hpart, -⟩ := interrupted_statements hcut
  have haccepts : ∀ r ∈ w.db.rows "payouts", payouts.accepts r = true := by
    refine (hvalid payouts ?_).1
    rw [hsame.1]
    decide
  have hone := @retry_ok dialect _ hsame haccepts
  have hwhole := runAll_cons_ok.mpr ⟨_, hone, runAll_nil _⟩
  have hsettings : ∀ rows, (w.db.withRows "payouts" rows).rows "settings_native" =
      w.db.rows "settings_native" := fun rows => rows_withRows_of_ne w.db rows (by decide)
  cases k with
  | zero =>
    obtain heq : w.db = w'.db := Except.ok.inj hpart
    exact resumes_statements rfl hwhole (heq ▸ hwhole) (Kept.of_rows (by rw [hsettings, heq]))
  | succ k =>
    have heq := Except.ok.inj (hwhole.symm.trans (by simpa using hpart))
    have hrows : w'.db.rows "payouts" = (w.db.rows "payouts").map retried := by
      rw [← heq, rows_withRows]
    have hagain := @retry_ok dialect w'.db (by rw [← heq]; exact hsame) (by
      intro s hs
      rw [hrows] at hs
      obtain ⟨r, hr, rfl⟩ := List.mem_map.mp hs
      exact retried_accepts (haccepts r hr))
    have hsame' : w'.db.withRows "payouts" ((w'.db.rows "payouts").map retried) =
        w.db.withRows "payouts" ((w.db.rows "payouts").map retried) := by
      rw [hrows, List.map_map, show retried ∘ retried = retried
        from funext retried_retried, ← heq,
        withRows_withRows]
    rw [hsame'] at hagain
    refine resumes_statements rfl hwhole (runAll_cons_ok.mpr ⟨_, hagain, runAll_nil _⟩) ?_
    rw [heq]
    exact Kept.of_rows rfl

theorem resumes_serverCapacity (hsame : SameSchema w.db Migration.serverCapacity.schema)
    (hcut : Interrupted dialect tokens m010ServerCapacity w w') :
    Resumes dialect tokens .serverCapacity w w' := by
  obtain ⟨k, hpart, -⟩ := interrupted_statements hcut
  obtain ⟨db, hwhole, -⟩ := @serverCapacity_ok dialect _ hsame
  have hagain : runAll (execute dialect) serverCapacity w'.db = .ok db := by
    refine @resume_creates _ _ [_] [_] _ _ _ ?_ (Nat.le_refl 1) ?_ hpart hwhole
    · simp [Statement.creates]
    · intro s hs d d' hone
      rw [List.mem_singleton.mp hs] at hone ⊢
      exact insert_settles (fun _ _ => rfl) (fun _ => by decide) hone
  refine resumes_statements rfl hwhole hagain (Kept.of_rows (runAll_rows_of_ne ?_ hagain))
  decide

/-- Once its column is there, `m011` raises. -/
theorem run_adminArenaClosure_error (hthere : "admin_closed" ∈ w.db.columnNames "arenas") :
    run dialect tokens m011AdminArenaClosure w =
      .error (.error (.duplicateColumn "admin_closed")) := by
  apply run_statements_error
  exact @addColumn_there _ _ _ (counter .integer "admin_closed" 0) hthere

/-- Before its only statement `m011` has done nothing. -/
theorem resumes_adminArenaClosure (hsame : SameSchema w.db Migration.adminArenaClosure.schema)
    (hcut : Interrupted dialect tokens m011AdminArenaClosure w w') :
    Resumes dialect tokens .adminArenaClosure w w' ↔
      "admin_closed" ∉ w'.db.columnNames "arenas" := by
  constructor
  · rintro ⟨_, again, -, hagain, -⟩ hthere
    rw [show Migration.adminArenaClosure.task dialect = m011AdminArenaClosure from rfl,
      run_adminArenaClosure_error hthere] at hagain
    cases hagain
  · intro hnew
    obtain ⟨k, hpart, -⟩ := interrupted_statements hcut
    obtain ⟨db, hone, -⟩ := @adminClosed_ok dialect _ hsame
    have hwhole := runAll_cons_ok.mpr ⟨db, hone, runAll_nil db⟩
    cases k with
    | zero =>
      obtain heq : w.db = w'.db := Except.ok.inj hpart
      refine resumes_statements rfl hwhole (heq ▸ hwhole) (Kept.of_rows ?_)
      rw [(executed hone).rows_of_ne (by decide), heq]
    | succ k =>
      have heq := Except.ok.inj (hwhole.symm.trans (by simpa using hpart))
      have hthere : "admin_closed" ∈ db.columnNames "arenas" := by
        cases executed hone with
        | column table column there =>
          rw [columnNames_addColumn there]
          simp [counter]
      exact absurd (heq ▸ hthere) hnew

/-! ## `m012` -/

theorem run_leaveRefunds {db₁ db₂ : Db}
    (hcolumns : runAll (execute dialect) (lacking w.db leavePlaces) w.db = .ok db₁)
    (hcreates : runAll (execute dialect) (leaveRefunds dialect) db₁ = .ok db₂) :
    run dialect tokens (m012LeaveRefunds dialect) w = .ok ((), { w with db := db₂ }) := by
  refine (run_await rfl).trans ((run_bind (@run_statements _ _ _ _ db₁ ?_)).trans ?_)
  · rw [missing_leavePlaces]
    exact hcolumns
  · exact run_statements hcreates

/-- `m012` is interrupted while it adds its column, or after that. -/
theorem interrupted_leaveRefunds {db₁ : Db}
    (hcolumns : runAll (execute dialect) (lacking w.db leavePlaces) w.db = .ok db₁)
    (hcut : Interrupted dialect tokens (m012LeaveRefunds dialect) w w') :
    (∃ k, runAll (execute dialect) ((lacking w.db leavePlaces).take k) w.db = .ok w'.db) ∨
      ∃ k, runAll (execute dialect) ((leaveRefunds dialect).take k) db₁ = .ok w'.db := by
  rcases interrupted_await hcut with rfl | ⟨names, w₁, hnames, hcut⟩
  · exact .inl ⟨0, rfl⟩
  obtain ⟨rfl, rfl⟩ := Prod.mk.inj (Except.ok.inj hnames)
  rw [missing_leavePlaces] at hcut
  rcases interrupted_bind hcut with hcut | ⟨_, w₁, hrun, hcut⟩
  · obtain ⟨k, hpart, -⟩ := interrupted_statements hcut
    exact .inl ⟨k, hpart⟩
  · rw [run_statements hcolumns] at hrun
    obtain ⟨-, rfl⟩ := Prod.mk.inj (Except.ok.inj hrun)
    obtain ⟨k, hpart, -⟩ := interrupted_statements hcut
    exact .inr ⟨k, hpart⟩

theorem leavePlaces_places : Places leavePlaces := List.pairwise_singleton _ _

theorem resumes_leaveRefunds (hsame : SameSchema w.db Migration.leaveRefunds.schema)
    (hcut : Interrupted dialect tokens (m012LeaveRefunds dialect) w w') :
    Resumes dialect tokens .leaveRefunds w w' := by
  obtain ⟨db₁, db₂, hcolumns, hcreates⟩ := @leaveRefunds_ok dialect _ hsame
  have hwhole := @run_leaveRefunds _ tokens _ _ _ hcolumns hcreates
  have hsettings : ∀ {db : Db} {l : List Statement}, (∀ s ∈ l, s ∈ leaveRefunds dialect) →
      runAll (execute dialect) l db₁ = .ok db → db.rows "settings_native" =
        db₁.rows "settings_native" := by
    intro db l hl hrun
    refine runAll_rows_of_ne (fun s hs => ?_) hrun
    have htarget : ∀ s ∈ leaveRefunds dialect, s.target ≠ some "settings_native" := by
      cases dialect <;> decide
    exact htarget s (hl s hs)
  rcases interrupted_leaveRefunds hcolumns hcut with ⟨k, hpart⟩ | ⟨k, hpart⟩
  · have hcolumns' := resume_lacking leavePlaces_places hpart hcolumns
    refine Resumes.of_eq hwhole (run_leaveRefunds hcolumns' hcreates) (Kept.of_rows ?_)
    rw [hsettings (fun s hs => hs) hcreates]
    refine runAll_rows_of_ne (fun s hs => ?_) hcolumns'
    obtain ⟨c, hc, rfl⟩ := List.mem_map.mp hs
    obtain rfl := List.mem_singleton.mp (List.mem_filter.mp hc).1
    decide
  · have hnone : lacking w'.db leavePlaces = [] :=
      lacking_nil leavePlaces_places hcolumns (runAll_columnNames hpart)
    have hcreates' : runAll (execute dialect) (leaveRefunds dialect) w'.db = .ok db₂ := by
      have hresume := @resume_creates _ _ _ [] _ _ _ leaveRefunds_creates
        (Nat.zero_le 1) (by simp)
        (by rw [List.append_nil]; exact hpart) (by rw [List.append_nil]; exact hcreates)
      rwa [List.append_nil] at hresume
    refine Resumes.of_eq hwhole (run_leaveRefunds (by rw [hnone]; rfl) hcreates')
      (Kept.of_rows ?_)
    rw [hsettings (fun s hs => hs) hcreates,
      hsettings (fun s hs => List.mem_of_mem_take hs) hpart]

/-! ## `m009` -/

theorem run_publicLobbies {w₂ : World} {db₁ db₃ : Db}
    (hcolumns : runAll (execute dialect) (lacking w.db lobbyPlaces) w.db = .ok db₁)
    (hthere : "public_id" ∈ db₁.columnNames "settings_native")
    (hloop : run dialect tokens (assignPublicIds (unassignedIds (db₁.rows "settings_native")))
      ⟨db₁, w.drawn⟩ = .ok ((), w₂))
    (hlobbies : runAll (execute dialect) (lobbies dialect) w₂.db = .ok db₃) :
    run dialect tokens (m009PublicLobbies dialect) w = .ok ((), { w₂ with db := db₃ }) := by
  have hread : perform dialect tokens ⟨db₁, w.drawn⟩ .unassigned =
      .ok (unassignedIds (db₁.rows "settings_native"), ⟨db₁, w.drawn⟩) := by
    simp only [perform, require, if_pos hthere]
    rfl
  refine (run_await rfl).trans ((run_await rfl).trans
    ((run_bind (@run_statements _ _ _ _ db₁ ?_)).trans
    ((run_await hread).trans ((run_bind hloop).trans (run_statements hlobbies)))))
  rw [missing_lobbyPlaces]
  exact hcolumns

/-- `m009` is interrupted while it adds its columns, in its loop, or after it. -/
theorem interrupted_publicLobbies {w₂ : World} {db₁ : Db}
    (hcolumns : runAll (execute dialect) (lacking w.db lobbyPlaces) w.db = .ok db₁)
    (hloop : run dialect tokens (assignPublicIds (unassignedIds (db₁.rows "settings_native")))
      ⟨db₁, w.drawn⟩ = .ok ((), w₂))
    (hcut : Interrupted dialect tokens (m009PublicLobbies dialect) w w') :
    (w'.drawn = w.drawn ∧ ∃ k, runAll (execute dialect) ((lacking w.db lobbyPlaces).take k) w.db =
      .ok w'.db) ∨
    Interrupted dialect tokens (assignPublicIds (unassignedIds (db₁.rows "settings_native")))
      ⟨db₁, w.drawn⟩ w' ∨
    ∃ k, runAll (execute dialect) ((lobbies dialect).take k) w₂.db = .ok w'.db := by
  rcases interrupted_await hcut with rfl | ⟨settingsNames, w₁, hnames, hcut⟩
  · exact .inl ⟨rfl, 0, rfl⟩
  obtain ⟨rfl, rfl⟩ := Prod.mk.inj (Except.ok.inj hnames)
  rcases interrupted_await hcut with rfl | ⟨arenaNames, w₁, hnames, hcut⟩
  · exact .inl ⟨rfl, 0, rfl⟩
  obtain ⟨rfl, rfl⟩ := Prod.mk.inj (Except.ok.inj hnames)
  rw [missing_lobbyPlaces] at hcut
  rcases interrupted_bind hcut with hcut | ⟨_, w₁, hrun, hcut⟩
  · obtain ⟨k, hpart, hdrawn⟩ := interrupted_statements hcut
    exact .inl ⟨hdrawn, k, hpart⟩
  rw [run_statements hcolumns] at hrun
  obtain ⟨-, rfl⟩ := Prod.mk.inj (Except.ok.inj hrun)
  rcases interrupted_await hcut with rfl | ⟨ids, w₁, hread, hcut⟩
  · exact .inr (.inl (.here _ _))
  simp only [perform, bind_ok_iff, pure_ok_iff, Prod.mk.injEq] at hread
  obtain ⟨_, -, rfl, rfl⟩ := hread
  rcases interrupted_bind hcut with hcut | ⟨_, w₁, hrun, hcut⟩
  · exact .inr (.inl hcut)
  rw [hloop] at hrun
  obtain ⟨-, rfl⟩ := Prod.mk.inj (Except.ok.inj hrun)
  obtain ⟨k, hpart, -⟩ := interrupted_statements hcut
  exact .inr (.inr ⟨k, hpart⟩)

theorem lobbies_apart : ∀ s ∈ lobbies dialect, s.Apart "settings_native" := by
  have hselect : ∀ db rows, claimRows (db.withRows "settings_native" rows) = claimRows db := by
    intro db rows
    unfold claimRows
    rw [rows_withRows_of_ne db rows (by decide)]
  cases dialect <;> simp [lobbies, index, Statement.Apart, hselect]

theorem lobbies_target : ∀ s ∈ lobbies dialect, s.target ≠ some "settings_native" := by
  cases dialect <;> decide

/-- The lobbies after any part of them. -/
theorem resume_lobbies {k : Nat} {db db₁ db₂ : Db}
    (hpart : runAll (execute dialect) ((lobbies dialect).take k) db = .ok db₁)
    (hwhole : runAll (execute dialect) (lobbies dialect) db = .ok db₂) :
    runAll (execute dialect) (lobbies dialect) db₁ = .ok db₂ := by
  have hsplit : lobbies dialect = (lobbies dialect).take 8 ++
      [.insert "payout_invoice_claims" claimRows "payment_hash"] := by cases dialect <;> rfl
  rw [hsplit] at hpart hwhole ⊢
  refine resume_creates ?_ (Nat.le_refl 1) ?_ hpart hwhole
  · rw [← List.all_eq_true]
    cases dialect <;> rfl
  · intro s hs d d' hone
    rw [List.mem_singleton.mp hs] at hone ⊢
    refine insert_settles (fun db rows => ?_) (fun db r hr => ?_) hone
    · unfold claimRows
      rw [rows_withRows_of_ne db rows (by decide)]
    · obtain ⟨s, hs, rfl⟩ := List.mem_map.mp hr
      have hpaid : s "payment_hash" ≠ .null := by simpa using (List.mem_filter.mp hs).2
      exact hpaid

section

variable {k : Nat} {db : Db}

/-- After the loop every setting has a public id. -/
theorem Widened.given (h : Widened tokens k db) (k' : Nat) {r : Row}
    (hr : r ∈ db.rows "settings_native") :
    assign tokens (unassignedIds (db.rows "settings_native")) k' r "public_id" ≠ .null := by
  apply assign_given
  rw [h.settings.mem_unassigned hr]
  exact em _

/-- A setting that has a public id keeps it in the loop. -/
theorem Widened.keeps (h : Widened tokens k db) (k' : Nat) {r : Row}
    (hr : r ∈ db.rows "settings_native") (hgiven : r "public_id" ≠ .null) :
    assign tokens (unassignedIds (db.rows "settings_native")) k' r = r :=
  assign_kept (fun hmem => hgiven ((h.settings.mem_unassigned hr).mp hmem)) k'

theorem unassignedIds_length (rows : List Row) : (unassignedIds rows).length ≤ rows.length := by
  unfold unassignedIds
  rw [List.length_map]
  exact List.length_filter_le _ _

/-- `m009` from a database that has its columns, and some of its public ids. -/
theorem Widened.run (h : Widened tokens w.drawn db)
    (hfresh : Fresh tokens (w.drawn + (db.rows "settings_native").length))
    (hcolumns : runAll (execute dialect) (lacking w.db lobbyPlaces) w.db = .ok db) :
    ∃ db', run dialect tokens (m009PublicLobbies dialect) w = .ok ((), ⟨db', w.drawn +
        (unassignedIds (db.rows "settings_native")).length⟩) ∧
      runAll (execute dialect) (lobbies dialect) (db.withRows "settings_native"
        ((db.rows "settings_native").map
          (assign tokens (unassignedIds (db.rows "settings_native")) w.drawn))) = .ok db' := by
  have hthere : "public_id" ∈ db.columnNames "settings_native" := by
    rw [h.schema.columnNames]
    decide
  have hfresh := hfresh.mono (Nat.add_le_add_left (unassignedIds_length _) _)
  have hloop := @run_assignPublicIds dialect _ ⟨db, w.drawn⟩ h _ hfresh
  obtain ⟨db', hlobbies⟩ := @lobbies_ok dialect _ _ _
    (h.withRows (h.settings.assigned hfresh))
  exact ⟨db', run_publicLobbies hcolumns hthere hloop hlobbies, hlobbies⟩

end

theorem resumes_publicLobbies
    (hfresh : Fresh tokens (w'.drawn + (w.db.rows "settings_native").length))
    (hsame : SameSchema w.db Migration.publicLobbies.schema) (hvalid : w.db.Valid)
    (hcut : Interrupted dialect tokens (m009PublicLobbies dialect) w w') :
    Resumes dialect tokens .publicLobbies w w' := by
  obtain ⟨db₁, hcolumns, hwidened, hnull, hlength⟩ :=
    @lobbyColumns_ok tokens _ dialect w.drawn hsame hvalid
  rw [← hlength] at hfresh
  have hdrawn₁ : w.drawn ≤ w'.drawn := interrupted_drawn hcut
  have hfresh₁ := hfresh.mono (Nat.add_le_add_right hdrawn₁ _)
  obtain ⟨db₃, hwhole, hlobbies⟩ := hwidened.run hfresh₁ hcolumns
  have hrows : db₃.rows "settings_native" = (db₁.rows "settings_native").map
      (assign tokens (unassignedIds (db₁.rows "settings_native")) w.drawn) := by
    rw [runAll_rows_of_ne lobbies_target hlobbies, rows_withRows]
  have hloop₁ := hfresh₁.mono (Nat.add_le_add_left (unassignedIds_length _) _)
  have hloop := @run_assignPublicIds dialect _ ⟨db₁, w.drawn⟩ hwidened _ hloop₁
  rcases interrupted_publicLobbies hcolumns hloop hcut with ⟨hdrawn, k, hpart⟩ | hcut | ⟨k, hpart⟩
  · -- the columns: none of the settings has a public id yet
    have hcolumns' := resume_lacking lobbyPlaces_places hpart hcolumns
    rw [← hdrawn] at hwidened hlobbies
    obtain ⟨db₄, hagain, hlobbies'⟩ := hwidened.run hfresh hcolumns'
    obtain rfl : db₃ = db₄ := Except.ok.inj (hlobbies.symm.trans hlobbies')
    refine Resumes.of_eq hwhole hagain fun hcolumn => ?_
    have hadded := runAll_addColumns (l := lobbyPlaces.filter
      (fun c => c.2.name ∉ w'.db.columnNames c.1)) hcolumns' "settings_native"
    rw [hrows, hadded, List.map_map, List.forall₂_map_right_iff, List.forall₂_same]
    intro r hr hgiven
    refine absurd ?_ hgiven
    rw [← hnull _ (hadded ▸ List.mem_map_of_mem hr)]
    refine (defaults_other (fun c hc htable hname => ?_) r).symm
    have habsent := (List.mem_filter.mp hc).2
    rw [← htable, hname] at habsent
    exact absurd hcolumn (by simpa using habsent)
  · -- the loop: the public ids that are there stay, and the others are assigned
    obtain ⟨j, -, hdrawn, hdb⟩ := interrupted_assignPublicIds (w := ⟨db₁, w.drawn⟩)
      hwidened hloop₁ hcut
    have hwidened' : Widened tokens w'.drawn w'.db := by
      rw [hdb]
      have htaken : w.drawn + ((unassignedIds (db₁.rows "settings_native")).take j).length ≤
          w'.drawn :=
        Nat.le_trans (Nat.add_le_add_left (List.length_take_le j _) w.drawn) hdrawn
      refine hwidened.withRows ((hwidened.settings.assigned ?_).mono htaken)
      exact hfresh.mono (Nat.le_trans htaken (Nat.le_add_right _ _))
    have hnone : lacking w'.db lobbyPlaces = [] :=
      lacking_nil lobbyPlaces_places hcolumns (by rw [hdb]; exact fun _ _ h => h)
    have hlength' : (w'.db.rows "settings_native").length =
        (db₁.rows "settings_native").length := by
      rw [hdb, rows_withRows, List.length_map]
    obtain ⟨db₄, hagain, hlobbies'⟩ := hwidened'.run (w := w') (by rw [hlength']; exact hfresh)
      (by rw [hnone]; rfl)
    have hrows' : w'.db.rows "settings_native" = (db₁.rows "settings_native").map
        (assign tokens ((unassignedIds (db₁.rows "settings_native")).take j) w.drawn) := by
      rw [hdb, rows_withRows]
    have hthere : (db₁.table? "settings_native").isSome = true := by
      rw [hwidened.schema.table?]
      decide
    have hsame' : db₄ = db₃.withRows "settings_native" ((w'.db.rows "settings_native").map
        (assign tokens (unassignedIds (w'.db.rows "settings_native")) w'.drawn)) := by
      refine runAll_withRows ?_ lobbies_apart hlobbies ?_
      · exact hthere
      rw [withRows_withRows, ← hlobbies', ← withRows_withRows db₁ "settings_native", ← hdb]
    refine ⟨_, _, hwhole, hagain, ?_, ?_⟩
    · refine ⟨by rw [hsame']; exact SameSchema.refl _, fun table => ?_⟩
      show List.Forall₂ _ (db₃.rows table) (db₄.rows table)
      by_cases htable : table = "settings_native"
      · have hnew : "public_id" ∉ w.db.columnNames "settings_native" := by
          rw [hsame.columnNames]
          decide
        have hgiven := fun r hr => hwidened'.given w'.drawn (r := r) hr
        rw [htable, hsame', rows_withRows, hrows]
        generalize unassignedIds (w'.db.rows "settings_native") = ids at hgiven ⊢
        rw [hrows'] at hgiven ⊢
        rw [List.map_map, List.forall₂_map_left_iff,
          List.forall₂_map_right_iff, List.forall₂_same]
        intro r hr column
        by_cases hcolumn : column = "public_id"
        · subst hcolumn
          exact .inr ⟨rfl, rfl, hnew, hwidened.given w.drawn hr,
            hgiven _ (List.mem_map_of_mem hr)⟩
        · left
          show _ = assign tokens ids w'.drawn _ column
          rw [assign_other hcolumn, assign_other hcolumn, assign_other hcolumn]
      · rw [hsame', rows_withRows_of_ne db₃ _ htable]
        exact List.forall₂_same.mpr fun _ _ _ => .inl rfl
    · intro _
      show List.Forall₂ _ _ (db₄.rows "settings_native")
      rw [hsame', rows_withRows, List.forall₂_map_right_iff, List.forall₂_same]
      intro r hr hgiven
      rw [hwidened'.keeps w'.drawn hr hgiven]
  · -- the lobbies: every setting has a public id
    have hcolumns' : lacking w'.db lobbyPlaces = [] :=
      lacking_nil lobbyPlaces_places hcolumns fun t name => runAll_columnNames hpart t name
    have hsettings : w'.db.rows "settings_native" = db₃.rows "settings_native" := by
      rw [runAll_rows_of_ne (fun s hs => lobbies_target s (List.mem_of_mem_take hs)) hpart,
        rows_withRows, hrows]
    have hassigned : unassignedIds (w'.db.rows "settings_native") = [] := by
      unfold unassignedIds
      rw [List.map_eq_nil_iff, List.filter_eq_nil_iff, hsettings, hrows]
      intro s hs
      obtain ⟨r, hr, rfl⟩ := List.mem_map.mp hs
      simpa using hwidened.given w.drawn hr
    have hthere : "public_id" ∈ w'.db.columnNames "settings_native" := by
      refine runAll_columnNames hpart _ _ ?_
      show "public_id" ∈ db₁.columnNames "settings_native"
      rw [hwidened.schema.columnNames]
      decide
    have hagain := @run_publicLobbies _ tokens w' w' _ _ (by rw [hcolumns']; rfl)
      hthere (by rw [hassigned]; rfl) (resume_lobbies hpart hlobbies)
    exact Resumes.of_eq hwhole hagain (Kept.of_rows hsettings.symm)

/-! ## Every migration -/

theorem assignPublicIds_schema {ids : List Value}
    (h : run dialect tokens (assignPublicIds ids) w = .ok ((), w')) : SameSchema w'.db w.db := by
  induction ids generalizing w with
  | nil =>
    obtain ⟨-, rfl⟩ := Prod.mk.inj (Except.ok.inj h)
    exact SameSchema.refl w.db
  | cons id ids ih =>
    obtain ⟨token, w₁, htoken, h⟩ := run_await_ok h
    obtain ⟨-, rfl⟩ := Prod.mk.inj (Except.ok.inj htoken)
    obtain ⟨_, w₂, hturn, h⟩ := run_await_ok h
    exact (ih h).trans (update_schema (perform_execute_ok hturn).1)

theorem publicLobbies_schema (hsame : SameSchema w.db Migration.publicLobbies.schema)
    (h : run dialect tokens (m009PublicLobbies dialect) w = .ok ((), w')) :
    SameSchema w'.db Migration.serverCapacity.schema := by
  have hcolumns : HasSchema widened (runAll (execute dialect)
      (lacking Migration.publicLobbies.schema lobbyPlaces) Migration.publicLobbies.schema) := by
    cases dialect <;> decide
  have hlobbies : HasSchema Migration.serverCapacity.schema
      (runAll (execute dialect) (lobbies dialect) widened) := by
    cases dialect <;> decide
  obtain ⟨settingsNames, w₁, hnames, h⟩ := run_await_ok h
  obtain ⟨rfl, rfl⟩ := Prod.mk.inj (Except.ok.inj hnames)
  obtain ⟨arenaNames, w₁, hnames, h⟩ := run_await_ok h
  obtain ⟨rfl, rfl⟩ := Prod.mk.inj (Except.ok.inj hnames)
  rw [missing_lobbyPlaces, lacking_congr hsame] at h
  obtain ⟨_, w₁, hrun, h⟩ := run_bind_ok h
  obtain ⟨b₁, hbare, hschema⟩ := hcolumns.ok
  have hsame₁ : SameSchema w₁.db widened :=
    (hsame.runAll (run_statements_ok hrun) hbare).trans hschema
  obtain ⟨ids, w₂, hread, h⟩ := run_await_ok h
  simp only [perform, bind_ok_iff, pure_ok_iff, Prod.mk.injEq] at hread
  obtain ⟨_, -, rfl, rfl⟩ := hread
  obtain ⟨_, w₂, hloop, h⟩ := run_bind_ok h
  have hsame₂ : SameSchema w₂.db widened := (assignPublicIds_schema hloop).trans hsame₁
  obtain ⟨b₂, hbare, hschema⟩ := hlobbies.ok
  exact (hsame₂.runAll (run_statements_ok h) hbare).trans hschema

/-- What a migration leaves is what the next one finds. -/
theorem schema_after (hsame : SameSchema w.db m.schema) {m' : Migration}
    (hran : run dialect tokens (m.task dialect) w = .ok ((), w')) (hnext : m.next = some m') :
    SameSchema w'.db m'.schema := by
  cases m with
  | nativeArenaLedger =>
    obtain rfl := Option.some.inj hnext
    obtain ⟨db, hwhole, hschema⟩ := @arenaLedger_ok dialect _ hsame
    obtain rfl := Except.ok.inj (hwhole.symm.trans (run_statements_ok hran))
    exact hschema
  | retryUnpreparedPayouts =>
    obtain rfl := Option.some.inj hnext
    obtain ⟨db, hone, hend⟩ := runAll_cons_ok.mp (run_statements_ok hran)
    obtain rfl : db = w'.db := Except.ok.inj hend
    exact (update_schema hone).trans hsame
  | publicLobbies =>
    obtain rfl := Option.some.inj hnext
    exact publicLobbies_schema hsame hran
  | serverCapacity =>
    obtain rfl := Option.some.inj hnext
    obtain ⟨db, hwhole, hschema⟩ := @serverCapacity_ok dialect _ hsame
    obtain rfl := Except.ok.inj (hwhole.symm.trans (run_statements_ok hran))
    exact hschema
  | adminArenaClosure =>
    obtain rfl := Option.some.inj hnext
    obtain ⟨db, hone, hschema⟩ := @adminClosed_ok dialect _ hsame
    have hwhole := runAll_cons_ok.mpr ⟨db, hone, runAll_nil db⟩
    obtain rfl := Except.ok.inj (hwhole.symm.trans (run_statements_ok hran))
    exact hschema
  | leaveRefunds => cases hnext

theorem Produced.ready (h : Produced dialect tokens m w) :
    SameSchema w.db m.schema ∧ w.db.Valid := by
  induction h with
  | first drawn => exact ⟨SameSchema.refl _, fun t ht => absurd ht List.not_mem_nil⟩
  | next before follows ran rows drawn valid ih =>
    obtain ⟨htables, hindexes⟩ := schema_after ih.1 ran follows
    exact ⟨⟨htables, hindexes⟩, valid⟩

/-- A migration that is not interrupted comes to its end. -/
theorem completes (hsame : SameSchema w.db m.schema) (hvalid : w.db.Valid)
    (hfresh : Fresh tokens (w.drawn + (w.db.rows "settings_native").length)) :
    ∃ w', run dialect tokens (m.task dialect) w = .ok ((), w') := by
  have hresumes : Resumes dialect tokens m w w := by
    cases m with
    | nativeArenaLedger => exact resumes_nativeArenaLedger hsame (.here _ w)
    | retryUnpreparedPayouts => exact resumes_retryUnpreparedPayouts hsame hvalid (.here _ w)
    | publicLobbies => exact resumes_publicLobbies hfresh hsame hvalid (.here _ w)
    | serverCapacity => exact resumes_serverCapacity hsame (.here _ w)
    | adminArenaClosure =>
      refine (resumes_adminArenaClosure hsame (.here _ w)).mpr ?_
      rw [hsame.columnNames]
      decide
    | leaveRefunds => exact resumes_leaveRefunds hsame (.here _ w)
  obtain ⟨whole, -, hwhole, -⟩ := hresumes
  exact ⟨whole, hwhole⟩

/-- Every database that has the schema and keeps the constraints is found by
some upgrade. -/
theorem produced_of_valid (hm : m ≠ .nativeArenaLedger) (rows : String → List Row) (drawn : Nat)
    (hvalid : Db.Valid { m.schema with rows }) :
    Produced dialect tokens m ⟨{ m.schema with rows }, drawn⟩ := by
  have hempty : ∀ m : Migration, m.schema.Valid := by
    intro m t _
    have hrows : ∀ t, m.schema.rows t = [] := by cases m <;> exact fun _ => rfl
    rw [hrows]
    exact ⟨fun r hr => absurd hr List.not_mem_nil, fun _ _ => rfl⟩
  have hstep : ∀ {m m' : Migration}, m.next = some m' → Produced dialect tokens m ⟨m.schema, 0⟩ →
      ∀ rows drawn, Db.Valid { m'.schema with rows } →
      Produced dialect tokens m' ⟨{ m'.schema with rows }, drawn⟩ := by
    intro m m' hnext hproduced rows drawn hvalid
    obtain ⟨w', hrun⟩ := @completes dialect tokens m
      ⟨m.schema, 0⟩ (SameSchema.refl _) (hempty m) (by
        have hrows : m.schema.rows "settings_native" = [] := by cases m <;> rfl
        rw [hrows]
        exact fun _ j _ hj => absurd hj (Nat.not_lt_zero j))
    obtain ⟨htables, hindexes⟩ := schema_after (SameSchema.refl _) hrun hnext
    have hnew : { w'.db with rows } = ({ m'.schema with rows } : Db) := by
      show (⟨w'.db.tables, w'.db.indexes, rows⟩ : Db) =
        ⟨m'.schema.tables, m'.schema.indexes, rows⟩
      rw [htables, hindexes]
    have hvalid' : Db.Valid { w'.db with rows } := hnew ▸ hvalid
    exact hnew ▸ Produced.next hproduced hnext hrun rows drawn hvalid'
  have hretry := hstep (m := .nativeArenaLedger) rfl (.first 0)
  have hlobbies := hstep (m := .retryUnpreparedPayouts) rfl (hretry _ 0 (hempty _))
  have hcapacity := hstep (m := .publicLobbies) rfl (hlobbies _ 0 (hempty _))
  have hclosure := hstep (m := .serverCapacity) rfl (hcapacity _ 0 (hempty _))
  have hleave := hstep (m := .adminArenaClosure) rfl (hclosure _ 0 (hempty _))
  cases m with
  | nativeArenaLedger => exact absurd rfl hm
  | retryUnpreparedPayouts => exact hretry rows drawn hvalid
  | publicLobbies => exact hlobbies rows drawn hvalid
  | serverCapacity => exact hcapacity rows drawn hvalid
  | adminArenaClosure => exact hclosure rows drawn hvalid
  | leaveRefunds => exact hleave rows drawn hvalid

/-- Every migration can be resumed from every interruption, except `m011` once
its column has been committed. -/
theorem resumes_iff (hproduced : Produced dialect tokens m w)
    (hcut : Interrupted dialect tokens (m.task dialect) w w')
    (hfresh : Fresh tokens (w'.drawn + (w.db.rows "settings_native").length)) :
    Resumes dialect tokens m w w' ↔
      ¬(m = .adminArenaClosure ∧ "admin_closed" ∈ w'.db.columnNames "arenas") := by
  obtain ⟨hsame, hvalid⟩ := hproduced.ready
  cases m with
  | adminArenaClosure =>
    rw [resumes_adminArenaClosure hsame hcut]
    simp
  | nativeArenaLedger => exact iff_of_true (resumes_nativeArenaLedger hsame hcut) (by simp)
  | retryUnpreparedPayouts =>
    exact iff_of_true (resumes_retryUnpreparedPayouts hsame hvalid hcut) (by simp)
  | publicLobbies => exact iff_of_true (resumes_publicLobbies hfresh hsame hvalid hcut) (by simp)
  | serverCapacity => exact iff_of_true (resumes_serverCapacity hsame hcut) (by simp)
  | leaveRefunds => exact iff_of_true (resumes_leaveRefunds hsame hcut) (by simp)

end

/-! ## Two interruptions -/

/-- 24 bytes in hexadecimal. -/
def hexToken (n : Nat) : String := String.ofList (List.replicate 47 '0' ++ [n.digitChar])

/-- A paying installation before `m009`. -/
def paying : World where
  db := { Migration.publicLobbies.schema with
    rows := fun t =>
      if t = "settings_native" then
        [settingsNative.row [("id", .text "owner"), ("wallet_id", .text "wallet"),
          ("enabled", .integer 1), ("haircut", .integer 5), ("updated_at", .integer 123)]]
      else if t = "payouts" then
        [payouts.row [("id", .text "payout"), ("arena_id", .text "arena"),
          ("victim_id", .text "victim"), ("killer_id", .text "killer"),
          ("player_id", .text "player"), ("wallet_id", .text "wallet"),
          ("ln_address", .text "winner@example.com"), ("amount", .integer 9),
          ("status", .text "pending"), ("bolt11", .text "invoice"),
            ("payment_hash", .text "hash"),
          ("created_at", .integer 123), ("updated_at", .integer 123)]]
      else [] }
  drawn := 0

/-- The first column of `m009` has been committed. -/
def allowing : World :=
  { paying with
    db := paying.db.addColumn "settings_native" (counter .integer "allow_public_creation" 0) }

theorem resumes_allowing : Resumes .sqlite hexToken .publicLobbies paying allowing := by
  have hvalid : paying.db.Valid := by
    unfold Db.Valid
    decide
  have hcut : Interrupted .sqlite hexToken (m009PublicLobbies .sqlite) paying allowing := by
    exact .later rfl (.later rfl (.later (a := ()) rfl (.here _ _)))
  refine (resumes_iff (produced_of_valid (by decide) _ 0 hvalid) hcut ?_).mpr (by simp)
  intro i j hij hj
  have hj : j < 1 := hj
  omega

/-- An open arena before `m011`. -/
def opened : World where
  db := { Migration.adminArenaClosure.schema with
    rows := fun t =>
      if t = "arenas" then
        [(arenas.withColumns arenaColumns).row [("id", .text "arena"),
          ("owner_id", .text "owner"), ("wallet_id", .text "wallet"), ("name", .text "Arena"),
          ("map", .text "oa_dm1"), ("entry_amount", .integer 100), ("haircut", .integer 5),
          ("created_at", .integer 123)]]
      else [] }
  drawn := 0

/-- The column of `m011` has been committed, and its version has not. -/
def reopened : World :=
  { opened with db := opened.db.addColumn "arenas" (counter .integer "admin_closed" 0) }

/-- After an interruption `m011` raises on every further start. -/
theorem reopened_not_resumed : Produced .sqlite hexToken .adminArenaClosure opened ∧
    Interrupted .sqlite hexToken m011AdminArenaClosure opened reopened ∧
    run .sqlite hexToken m011AdminArenaClosure reopened =
      .error (.error (.duplicateColumn "admin_closed")) ∧
    ¬Resumes .sqlite hexToken .adminArenaClosure opened reopened := by
  have hvalid : opened.db.Valid := by
    unfold Db.Valid
    decide
  have hcut : Interrupted .sqlite hexToken m011AdminArenaClosure opened reopened :=
    .later (a := ()) rfl (.here _ _)
  have hthere : "admin_closed" ∈ reopened.db.columnNames "arenas" := by decide
  refine ⟨produced_of_valid (by decide) _ 0 hvalid, hcut, run_adminArenaClosure_error hthere, ?_⟩
  rw [resumes_adminArenaClosure (SameSchema.refl _) hcut]
  exact not_not_intro hthere

end QuakeJs.Upgrade
