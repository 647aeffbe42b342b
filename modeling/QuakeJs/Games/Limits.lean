import QuakeJs.Games.Creation

/-!
# The games of an owner

Any number of requests run at once.  What keeps two of them from creating
games of one owner side by side is the lock of the owner's settings: from the
statement that reads them on, no other transaction changes them or inserts a
public game of that owner.

The view of a task is the transaction that it runs.
-/

namespace QuakeJs.Games

open Async

/-! ## The invariant -/

/-- An arena has fees in their bounds, an address for the creator's, and the
wallet and the fee of its owner's settings as they were at one moment. -/
structure Terms (versions : List Settings) (a : Arena) : Prop where
  haircut : 0 ≤ a.haircut
  creator : 0 ≤ a.creatorHaircut
  total : a.haircut + a.creatorHaircut ≤ maxTotalHaircut
  address : 0 < a.creatorHaircut → a.creatorLnAddress ≠ ""
  source : ∃ s ∈ versions, s.id = a.ownerId ∧ s.walletId = a.walletId ∧ s.haircut = a.haircut

theorem Terms.mono {versions versions' : List Settings} {a : Arena} (h : Terms versions a)
    (hle : ∀ s ∈ versions, s ∈ versions') : Terms versions' a := by
  obtain ⟨s, hs, hsame⟩ := h.source
  exact ⟨h.haircut, h.creator, h.total, h.address, s, hle s hs, hsame⟩

/-- What holds of the database at any time. -/
structure Orderly (w : World) : Prop where
  fees : ∀ s ∈ w.versions, 0 ≤ s.haircut ∧ s.haircut ≤ maxTotalHaircut
  current : ∀ s ∈ w.settings, s ∈ w.versions
  /-- A public id is never given to another owner. -/
  lobbies : ∀ s ∈ w.versions, ∀ p, s.publicId = some p →
    ∃ s' ∈ w.settings, s'.id = s.id ∧ s'.publicId = some p
  distinct : ∀ s ∈ w.settings, ∀ s' ∈ w.settings, ∀ p, s.publicId = some p →
    s'.publicId = some p → s.id = s'.id
  nonces : ∀ a ∈ w.arenas, ∀ b ∈ w.arenas, ∀ n, a.ownerId = b.ownerId →
    a.publicNonce = some n → b.publicNonce = some n → a = b
  terms : ∀ a ∈ w.arenas, Terms w.versions a
  limit : ∀ owner, w.games owner (w.clock - 3600) ≤ 50
  locks : ∀ id tx, w.locks id = some tx → tx < w.begun

/-- Fewer games were created after a later moment. -/
theorem games_anti (w : World) (owner : Uid) {recent recent' : Int} (h : recent ≤ recent') :
    w.games owner recent' ≤ w.games owner recent := by
  unfold World.games Table.count
  refine List.countP_mono_left ?_
  intro a _ ha
  simp only [Bool.and_eq_true, Bool.or_eq_true, decide_eq_true_eq] at ha ⊢
  refine ⟨ha.1, ha.2.imp_right ?_⟩
  intro hlater
  omega

theorem games_deactivate (w : World) (arenaId : Uid) (adminClosed : Bool) (owner : Uid)
    (recent : Int) : (w.deactivate arenaId adminClosed).games owner
      recent ≤ w.games owner recent := by
  unfold World.games World.deactivate Table.count Table.updateKey Table.update
  rw [List.countP_map]
  refine List.countP_mono_left ?_
  intro a _ ha
  simp only [Function.comp_apply] at ha
  split at ha
  · simp only [Bool.and_eq_true, Bool.or_eq_true, decide_eq_true_eq] at ha ⊢
    refine ⟨ha.1, .inr ?_⟩
    simpa [ended] using ha.2
  · exact ha

/-! ## What the writes do -/

/-- The settings once a row is put: the row, and those of the other owners. -/
structure PutSettings (row : Settings) (w w' : World) : Prop where
  unique : ∀ s ∈ w.settings, s.id ≠ row.id → ∀ p, s.publicId = some p → row.publicId ≠ some p
  settings : ∀ s, s ∈ w'.settings ↔ s = row ∨ (s ∈ w.settings ∧ s.id ≠ row.id)
  rest : w' = { w with
    settings := w'.settings
    versions := row :: w.versions }

theorem upsert_ok {w : World} {row : Settings} {settings : Table Settings}
    (h : w.upsert row = .ok settings) (s : Settings) :
    s ∈ settings ↔ s = row ∨ (s ∈ w.settings ∧ s.id ≠ row.id) := by
  unfold World.upsert at h
  cases hget : w.settings.get? row.id with
  | some old =>
    rw [hget] at h
    cases h
    rw [Table.mem_updateKey]
    have hold : old ∈ w.settings ∧ old.id = row.id :=
      ⟨Table.mem_of_get? hget, Table.key_of_get? hget⟩
    constructor
    · rintro (⟨hs, hne⟩ | ⟨r, -, hr, rfl⟩)
      · exact .inr ⟨hs, hne⟩
      · have hid : r.id = row.id := hr
        rw [hid]
        exact .inl rfl
    · rintro (rfl | ⟨hs, hne⟩)
      · refine .inr ⟨old, hold.1, hold.2, ?_⟩
        rw [hold.2]
      · exact .inl ⟨hs, hne⟩
  | none =>
    rw [hget] at h
    have hinsert := (orRaise_ok_iff _ _ _).mp h
    rw [Table.mem_insert? hinsert]
    have hfresh := Table.get?_eq_none.mp hget
    constructor
    · rintro (hs | rfl)
      · exact .inr ⟨hs, hfresh s hs⟩
      · exact .inl rfl
    · rintro (rfl | ⟨hs, -⟩)
      · exact .inr rfl
      · exact .inl hs

theorem putSettings_ok {w w' : World} {row : Settings} (h : w.putSettings row = .ok w') :
    PutSettings row w w' := by
  unfold World.putSettings at h
  obtain ⟨⟨⟩, hunique, h⟩ := (bind_ok_iff _ _ _).mp h
  rw [require_ok_iff, Table.any_eq_false] at hunique
  obtain ⟨settings, hput, h⟩ := (bind_ok_iff _ _ _).mp h
  cases h
  refine ⟨?_, upsert_ok hput, rfl⟩
  intro s hs hne p hp hsame
  have hclash := hunique s hs
  simp [hne, hp, hsame] at hclash

theorem PutSettings.get? {row : Settings} {w w' : World} (h : PutSettings row w w') {id : Uid}
    (hne : id ≠ row.id) : w'.settings.get? id = w.settings.get? id := by
  cases hget : w.settings.get? id with
  | none =>
    rw [Table.get?_eq_none] at hget ⊢
    intro s hs
    rcases (h.settings s).mp hs with rfl | ⟨hold, -⟩
    · exact Ne.symm hne
    · exact hget s hold
  | some s =>
    have hid : s.id = id := Table.key_of_get? hget
    have hmem : s ∈ w'.settings :=
      (h.settings s).mpr (.inr ⟨Table.mem_of_get? hget, hid ▸ hne⟩)
    rw [← hid]
    exact Table.get?_key hmem

/-- The arenas once a row is inserted. -/
structure PutArena (row : Arena) (w w' : World) : Prop where
  unique : ∀ a ∈ w.arenas, ∀ n, a.ownerId = row.ownerId → a.publicNonce = some n →
    row.publicNonce ≠ some n
  insert : w.arenas.insert? row = some w'.arenas
  rest : w' = { w with
    arenas := w'.arenas }

theorem putArena_ok {w w' : World} {row : Arena} (h : w.putArena row = .ok w') :
    PutArena row w w' := by
  unfold World.putArena at h
  obtain ⟨⟨⟩, hunique, h⟩ := (bind_ok_iff _ _ _).mp h
  rw [require_ok_iff, Table.any_eq_false] at hunique
  obtain ⟨arenas, hput, h⟩ := (bind_ok_iff _ _ _).mp h
  cases h
  refine ⟨?_, (orRaise_ok_iff _ _ _).mp hput, rfl⟩
  intro a ha n howner hn hsame
  have hclash := hunique a ha
  simp [howner, hn, hsame] at hclash

theorem PutArena.games {row : Arena} {w w' : World} (h : PutArena row w w') (owner : Uid)
    (recent : Int) : w'.games owner recent ≤ w.games owner recent + 1 ∧
      (row.isPublic = false ∨ row.ownerId ≠ owner →
        w'.games owner recent = w.games owner recent) := by
  unfold World.games
  rw [Table.count_insert? h.insert]
  split_ifs with hrow
  · simp only [Bool.and_eq_true, decide_eq_true_eq] at hrow
    refine ⟨le_refl _, ?_⟩
    rintro (hprivate | hother)
    · simp [hrow.1.2] at hprivate
    · exact absurd hrow.1.1 hother
  · exact ⟨Nat.le_succ _, fun _ => Nat.add_zero _⟩

/-! ## The others -/

/-- What every step leaves in place. -/
structure Lasts (w w' : World) : Prop where
  clock : w.clock ≤ w'.clock
  begun : w.begun ≤ w'.begun
  versions : ∀ s ∈ w.versions, s ∈ w'.versions
  arenas : ∀ a ∈ w.arenas, ∃ a' ∈ w'.arenas,
    a'.id = a.id ∧ a'.ownerId = a.ownerId ∧ a'.publicNonce = a.publicNonce

/-- What a transaction can rely on for the rows that it has locked. -/
def Guards (tx : Nat) (w w' : World) : Prop :=
  ∀ id, w.locks id = some tx → w'.locks id = some tx ∧
    w'.settings.get? id = w.settings.get? id ∧ ∀ recent, w'.games id recent ≤ w.games id recent

theorem Lasts.refl (w : World) : Lasts w w :=
  ⟨le_refl _, le_refl _, fun _ h => h, fun a ha => ⟨a, ha, rfl, rfl, rfl⟩⟩

theorem Lasts.trans {w₁ w₂ w₃ : World} (h : Lasts w₁ w₂) (h' : Lasts w₂ w₃) : Lasts w₁ w₃ where
  clock := h.clock.trans h'.clock
  begun := h.begun.trans h'.begun
  versions := fun s hs => h'.versions s (h.versions s hs)
  arenas := by
    intro a ha
    obtain ⟨a', ha', hid, howner, hnonce⟩ := h.arenas a ha
    obtain ⟨a'', ha'', hid', howner', hnonce'⟩ := h'.arenas a' ha'
    exact ⟨a'', ha'', hid'.trans hid, howner'.trans howner, hnonce'.trans hnonce⟩

theorem games_of_arenas {w w' : World} (h : w'.arenas = w.arenas) (owner : Uid) (recent : Int) :
    w'.games owner recent = w.games owner recent := by
  unfold World.games
  rw [h]

/-- The tables are as they were. -/
theorem Guards.of_tables {tx : Nat} {w w' : World} (hsettings : w'.settings = w.settings)
    (harenas : w'.arenas = w.arenas)
    (hlocks : ∀ id, w.locks id = some tx → w'.locks id = some tx) : Guards tx w w' := by
  intro id hlock
  refine ⟨hlocks id hlock, by rw [hsettings], fun recent => ?_⟩
  exact (games_of_arenas harenas id recent).le

theorem Lasts.of_tables {w w' : World} (hclock : w.clock ≤ w'.clock) (hbegun : w.begun ≤ w'.begun)
    (hversions : w'.versions = w.versions) (harenas : w'.arenas = w.arenas) : Lasts w w' := by
  refine ⟨hclock, hbegun, ?_, ?_⟩
  · rw [hversions]
    exact fun _ hs => hs
  · rw [harenas]
    exact fun a ha => ⟨a, ha, rfl, rfl, rfl⟩

theorem Guards.refl (tx : Nat) (w : World) : Guards tx w w :=
  fun _ hlock => ⟨hlock, rfl, fun _ => le_refl _⟩

theorem Guards.trans {tx : Nat} {w₁ w₂ w₃ : World} (h : Guards tx w₁ w₂) (h' : Guards tx w₂ w₃) :
    Guards tx w₁ w₃ := by
  intro id hlock
  obtain ⟨hlock', hget, hgames⟩ := h id hlock
  obtain ⟨hlock'', hget', hgames'⟩ := h' id hlock'
  exact ⟨hlock'', hget'.trans hget, fun recent => (hgames' recent).trans (hgames recent)⟩

/-- The database is orderly, and the rows that a transaction has locked stay
as they are for it. -/
def ordered : Discipline Op World (Option Nat) where
  inv := Orderly
  safe op w := ∀ publicId nonce arena, op = .respond publicId nonce arena →
    ∃ a ∈ w.arenas, a.id = arena.id ∧ a.publicNonce = some nonce ∧
      ∃ s ∈ w.versions, s.id = a.ownerId ∧ s.publicId = some publicId
  rely view w w' := Lasts w w' ∧ ∀ tx ∈ view, Guards tx w w'
  apart w u v := (∀ tx ∈ u, tx < w.begun) ∧ (∀ tx ∈ v, tx < w.begun) ∧ ∀ tx ∈ u, tx ∉ v
  idle := none
  rely_refl := fun _ w => ⟨.refl w, fun tx _ => .refl tx w⟩
  rely_trans := fun _ _ _ _ h h' => ⟨h.1.trans h'.1, fun tx htx =>
    (h.2 tx htx).trans (h'.2 tx htx)⟩
  apart_symm := fun _ _ _ h => ⟨h.2.1, h.1, fun tx hv hu => h.2.2 tx hu hv⟩
  apart_idle := fun _ _ _ h => ⟨h.1, nofun, nofun⟩
  apart_rely := fun _ _ _ _ h hu hv => ⟨fun tx htx => (h.1 tx htx).trans_le hu.1.begun,
    fun tx htx => (h.2.1 tx htx).trans_le hv.1.begun, h.2.2⟩

/-- A step of the transaction `tx` that does no harm to the others. -/
structure Harmless (tx : Option Nat) (w w' : World) : Prop where
  lasts : Lasts w w'
  guards : ∀ tx', tx ≠ some tx' → Guards tx' w w'

theorem Harmless.refl (tx : Option Nat) (w : World) : Harmless tx w w :=
  ⟨.refl w, fun tx' _ => .refl tx' w⟩

theorem Harmless.grants {tx : Option Nat} {w w' : World} (h : Harmless tx w w') :
    ordered.Grants tx tx w w' := by
  intro u hapart
  have hguards : ∀ tx' ∈ u, Guards tx' w w' := by
    intro tx' hu
    apply h.guards
    rintro rfl
    exact hapart.2.2 tx' hu rfl
  refine ⟨⟨h.lasts, hguards⟩, ?_, ?_, hapart.2.2⟩
  · exact fun tx' hu => (hapart.1 tx' hu).trans_le h.lasts.begun
  · exact fun tx' hv => (hapart.2.1 tx' hv).trans_le h.lasts.begun

/-! ## What keeps the invariant -/

theorem Orderly.initial (start : Int) : Orderly (World.initial start) where
  fees := fun _ h => absurd h List.not_mem_nil
  current := fun _ h => absurd h (Table.not_mem_empty _)
  lobbies := fun _ h => absurd h List.not_mem_nil
  distinct := fun _ h => absurd h (Table.not_mem_empty _)
  nonces := fun _ h => absurd h (Table.not_mem_empty _)
  terms := fun _ h => absurd h (Table.not_mem_empty _)
  limit := fun owner => by
    have hnone : (World.initial start).games owner (start - 3600) = 0 := Table.count_empty _
    exact hnone.trans_le (Nat.zero_le _)
  locks := nofun

namespace Orderly

variable {w w' : World} {tx : Nat}

/-- Only the locks change, and the number of transactions grows. -/
theorem of_locks (h : Orderly w) {locks : Uid → Option Nat} {begun : Nat}
    (hlocks : ∀ id tx, locks id = some tx → tx < begun) :
    Orderly { w with
      locks
      begun } where
  fees := h.fees
  current := h.current
  lobbies := h.lobbies
  distinct := h.distinct
  nonces := h.nonces
  terms := h.terms
  limit := h.limit
  locks := hlocks

theorem lock (h : Orderly w) (htx : tx < w.begun) (id : Uid) : Orderly (w.lock tx id) := by
  refine h.of_locks ?_
  intro id' tx' hlock
  by_cases hid : id' = id
  · rw [hid, Function.update_self, Option.some.injEq] at hlock
    exact hlock ▸ htx
  · rw [Function.update_of_ne hid] at hlock
    exact h.locks id' tx' hlock

theorem release (h : Orderly w) (tx : Nat) : Orderly (w.release tx) := by
  refine h.of_locks ?_
  intro id tx' hlock
  split_ifs at hlock
  exact h.locks id tx' hlock

theorem outside (h : Orderly w) (hout : Outside w w') :
    Orderly w' ∧ Lasts w w' ∧ ∀ tx, Guards tx w w' := by
  rcases hout with ⟨time, hle, rfl⟩ | ⟨arenaId, adminClosed, rfl⟩
  · refine ⟨{ h with limit := ?_ }, ⟨hle, le_refl _, fun _ hs => hs, ?_⟩, ?_⟩
    · intro owner
      have hanti := games_anti w owner (show w.clock - 3600 ≤ time - 3600 by omega)
      exact hanti.trans (h.limit owner)
    · exact fun a ha => ⟨a, ha, rfl, rfl, rfl⟩
    · exact fun tx id hlock => ⟨hlock, rfl, fun _ => le_refl _⟩
  · have hold : ∀ a' ∈ (w.deactivate arenaId adminClosed).arenas, ∃ a ∈ w.arenas,
        a'.id = a.id ∧ a'.ownerId = a.ownerId ∧ a'.publicNonce = a.publicNonce ∧
        (Terms w.versions a → Terms w.versions a') := by
      intro a' ha'
      rcases (Table.mem_updateKey (f := ended adminClosed)).mp ha' with
        ⟨hmem, -⟩ | ⟨a, ha, -, rfl⟩
      · exact ⟨a', hmem, rfl, rfl, rfl, fun h => h⟩
      · exact ⟨a, ha, rfl, rfl, rfl, fun h =>
          ⟨h.haircut, h.creator, h.total, h.address, h.source⟩⟩
    refine ⟨⟨h.fees, h.current, h.lobbies, h.distinct, ?_, ?_, ?_, h.locks⟩,
      ⟨le_refl _, le_refl _, fun _ hs => hs, ?_⟩, ?_⟩
    · intro a' ha' b' hb' n howner hna hnb
      obtain ⟨a, ha, hida, howna, hnoncea, -⟩ := hold a' ha'
      obtain ⟨b, hb, hidb, hownb, hnonceb, -⟩ := hold b' hb'
      have hsame : a = b := h.nonces a ha b hb n (by rw [← howna, howner, hownb])
        (hnoncea.symm.trans hna) (hnonceb.symm.trans hnb)
      have hids : a'.id = b'.id := by rw [hida, hidb, hsame]
      exact Table.mem_inj ha' hb' hids
    · intro a' ha'
      obtain ⟨a, ha, -, -, -, hterms⟩ := hold a' ha'
      exact hterms (h.terms a ha)
    · intro owner
      exact (games_deactivate w arenaId adminClosed owner _).trans (h.limit owner)
    · intro a ha
      by_cases hid : a.id = arenaId
      · exact ⟨_, (Table.mem_updateKey (f := ended adminClosed)).mpr
          (.inr ⟨a, ha, hid, rfl⟩), rfl, rfl, rfl⟩
      · exact ⟨a, Table.mem_updateKey_of_ne (f := ended adminClosed) ha hid, rfl, rfl, rfl⟩
    · exact fun tx id hlock => ⟨hlock, rfl, games_deactivate w arenaId adminClosed id⟩

end Orderly

/-! ## Commits -/

/-- The write of a transaction is in order: it has locked the owner, and what
it read before still holds. -/
def Ready (tx : Nat) (write : Option Write) (w : World) : Prop :=
  match write with
  | none => True
  | some (.settings row) => w.locks row.id = some tx ∧
      (0 ≤ row.haircut ∧ row.haircut ≤ maxTotalHaircut) ∧
      ∀ s, w.settings.get? row.id = some s → ∀ p, s.publicId = some p → row.publicId = some p
  | some (.arena row) => Terms w.versions row ∧ (row.isPublic = true →
      w.locks row.ownerId = some tx ∧ w.games row.ownerId (w.clock - 3600) < 50)

theorem Harmless.trans {tx : Option Nat} {w₁ w₂ w₃ : World} (h : Harmless tx w₁ w₂)
    (h' : Harmless tx w₂ w₃) : Harmless tx w₁ w₃ :=
  ⟨h.lasts.trans h'.lasts, fun tx' hne => (h.guards tx' hne).trans (h'.guards tx' hne)⟩

theorem harmless_lock {w : World} {tx : Nat} {id : Uid} (hfree : w.free tx id) :
    Harmless (some tx) w (w.lock tx id) := by
  refine ⟨.of_tables (le_refl _) (le_refl _) rfl rfl, fun tx' hne => .of_tables rfl rfl ?_⟩
  intro id' hlock
  have hid : id' ≠ id := by
    rintro rfl
    rcases hfree with hnone | hsame
    · simp [hnone] at hlock
    · exact hne (hsame.symm.trans hlock)
  exact (Function.update_of_ne hid _ _).trans hlock

theorem harmless_release (w : World) (tx : Nat) : Harmless (some tx) w (w.release tx) := by
  refine ⟨.of_tables (le_refl _) (le_refl _) rfl rfl, fun tx' hne => .of_tables rfl rfl ?_⟩
  intro id hlock
  show (if w.locks id = some tx then none else w.locks id) = some tx'
  rw [if_neg, hlock]
  rw [hlock]
  exact Ne.symm hne

section

variable {w w' : World} {tx : Nat}

theorem Orderly.putSettings (h : Orderly w) {row : Settings} (hput : PutSettings row w w')
    (hready : Ready tx (some (.settings row)) w) : Orderly w' ∧ Harmless (some tx) w w' := by
  obtain ⟨hlock, hfee, hpublic⟩ := hready
  have hmem := hput.settings
  have hget := @hput.get?
  rw [hput.rest] at hmem hget ⊢
  refine ⟨?_, ⟨le_refl _, le_refl _, fun s hs => List.mem_cons_of_mem _ hs,
    fun a ha => ⟨a, ha, rfl, rfl, rfl⟩⟩, ?_⟩
  · refine ⟨?_, ?_, ?_, ?_, h.nonces, ?_, h.limit, h.locks⟩
    · intro s hs
      rcases List.mem_cons.mp hs with rfl | hold
      · exact hfee
      · exact h.fees s hold
    · intro s hs
      rcases (hmem s).mp hs with rfl | ⟨hold, -⟩
      · exact List.mem_cons_self
      · exact List.mem_cons_of_mem _ (h.current s hold)
    · intro s hs p hp
      rcases List.mem_cons.mp hs with rfl | hold
      · exact ⟨s, (hmem s).mpr (.inl rfl), rfl, hp⟩
      · obtain ⟨s', hs', hid, hp'⟩ := h.lobbies s hold p hp
        by_cases hrow : s'.id = row.id
        · have hs'' : w.settings.get? row.id = some s' := hrow ▸ Table.get?_key hs'
          exact ⟨row, (hmem row).mpr (.inl rfl), hrow.symm.trans hid, hpublic s' hs'' p hp'⟩
        · exact ⟨s', (hmem s').mpr (.inr ⟨hs', hrow⟩), hid, hp'⟩
    · intro s hs s' hs' p hp hp'
      rcases (hmem s).mp hs with rfl | ⟨hold, hne⟩
      · rcases (hmem s').mp hs' with rfl | ⟨hold', hne'⟩
        · rfl
        · exact absurd hp (hput.unique s' hold' hne' p hp')
      · rcases (hmem s').mp hs' with rfl | ⟨hold', -⟩
        · exact absurd hp' (hput.unique s hold hne p hp)
        · exact h.distinct s hold s' hold' p hp hp'
    · exact fun a ha => (h.terms a ha).mono fun s hs => List.mem_cons_of_mem _ hs
  · intro tx' hne id hlock'
    have hid : id ≠ row.id := by
      rintro rfl
      exact hne (hlock.symm.trans hlock')
    exact ⟨hlock', hget hid, fun _ => le_refl _⟩

theorem Orderly.putArena (h : Orderly w) {row : Arena} (hput : PutArena row w w')
    (hready : Ready tx (some (.arena row)) w) : Orderly w' ∧ Harmless (some tx) w w' := by
  obtain ⟨hterms, hpublic⟩ := hready
  have hgames := hput.games
  have hmem : ∀ a, a ∈ w'.arenas ↔ a ∈ w.arenas ∨ a = row :=
    fun a => Table.mem_insert? hput.insert
  rw [hput.rest] at hgames hmem ⊢
  refine ⟨?_, ⟨le_refl _, le_refl _, fun _ hs => hs,
    fun a ha => ⟨a, (hmem a).mpr (.inl ha), rfl, rfl, rfl⟩⟩, ?_⟩
  · refine ⟨h.fees, h.current, h.lobbies, h.distinct, ?_, ?_, ?_, h.locks⟩
    · intro a ha b hb n howner hna hnb
      rcases (hmem a).mp ha with hold | rfl
      · rcases (hmem b).mp hb with hold' | rfl
        · exact h.nonces a hold b hold' n howner hna hnb
        · exact absurd hnb (hput.unique a hold n howner hna)
      · rcases (hmem b).mp hb with hold' | rfl
        · exact absurd hna (hput.unique b hold' n howner.symm hnb)
        · rfl
    · intro a ha
      rcases (hmem a).mp ha with hold | rfl
      · exact h.terms a hold
      · exact hterms
    · intro owner
      by_cases hrow : row.isPublic = true ∧ row.ownerId = owner
      · have hfew := (hpublic hrow.1).2
        rw [hrow.2] at hfew
        have hmore := (hgames owner (w.clock - 3600)).1
        show World.games _ owner (w.clock - 3600) ≤ 50
        omega
      · have hother : row.isPublic = false ∨ row.ownerId ≠ owner := by
          by_cases hprivate : row.isPublic = true
          · exact .inr fun howner => hrow ⟨hprivate, howner⟩
          · exact .inl (by simpa using hprivate)
        exact ((hgames owner _).2 hother).trans_le (h.limit owner)
  · intro tx' hne id hlock'
    refine ⟨hlock', rfl, fun recent => ?_⟩
    have hother : row.isPublic = false ∨ row.ownerId ≠ id := by
      by_cases hprivate : row.isPublic = true
      · refine .inr ?_
        rintro rfl
        exact hne ((hpublic hprivate).1.symm.trans hlock')
      · exact .inl (by simpa using hprivate)
    exact ((hgames id recent).2 hother).le

theorem Orderly.put (h : Orderly w) {write : Option Write} (hput : w.put write = .ok w')
    (hready : Ready tx write w) : Orderly w' ∧ Harmless (some tx) w w' := by
  rcases write with _ | (row | row)
  · cases hput
    exact ⟨h, .refl _ w⟩
  · exact h.putSettings (putSettings_ok hput) hready
  · exact h.putArena (putArena_ok hput) hready

/-- What is committed is there, also when its locks are released. -/
theorem Orderly.commit (h : Orderly w) {write : Option Write} {w₁ : World}
    (hput : w.put write = .ok w₁) (hready : Ready tx write w) :
    Orderly (w₁.release tx) ∧ Harmless (some tx) w (w₁.release tx) := by
  obtain ⟨hinv, hharmless⟩ := h.put hput hready
  exact ⟨hinv.release tx, hharmless.trans (harmless_release w₁ tx)⟩

end

/-! ## What an operation does -/

/-- An operation that returns has done what it does. -/
theorem Performs.effect {op : Op} {w w' : World} {a : op.Ans} (h : Performs op w (.ok a) w') :
    Effect op w (.ok a) w' := by
  rcases h with ⟨result, heffect, hsame | ⟨raised, hraised⟩⟩ | ⟨-, raised, hraised⟩
  · cases result with
    | ok b =>
      cases hsame
      exact heffect
    | error e => cases hsame
  · cases hraised
  · cases hraised

/-- The operations that change nothing. -/
def Op.reads : Op → Prop
  | readSettings _ | findGame .. | countGames .. | now | uid | respond .. => True
  | _ => False

theorem Performs.same {op : Op} (hop : op.reads) {w w' : World}
    {outcome : Except (Raised Fault) op.Ans} (h : Performs op w outcome w') : w' = w := by
  rcases h with ⟨result, heffect, -⟩ | ⟨hsame, -⟩
  · cases op with
    | readSettings owner => exact heffect.2
    | findGame owner nonce => exact heffect.2
    | countGames owner recent => exact heffect.2
    | now => exact heffect.2
    | uid => exact heffect
    | respond publicId nonce arena => exact heffect.2
    | _ => exact hop.elim
  · exact hsame

/-- The rule of an operation that changes nothing. -/
theorem await_read (op : Op) {P : Option Nat → World → Prop}
    {R : op.Ans → Option Nat → World → Prop}
    (hop : op.reads) (hP : ordered.Stable P) (hR : ∀ a, ordered.Stable (R a))
    (hsafe : ∀ v w, Orderly w → P v w → ordered.safe op w)
    (h : ∀ v w a, Orderly w → P v w → Effect op w (.ok a) w → R a v w) :
    Triple ordered Performs P (await op) R fun _ => P := by
  refine .perform hP (fun outcome => ?_) hsafe ?_
  · cases outcome with
    | ok a => exact hR a
    | error _ => exact hP
  · intro v w outcome w' hinv hpre hdoes
    have hsame := hdoes.same hop
    subst hsame
    refine ⟨hinv, v, (Harmless.refl v w').grants, ?_⟩
    cases outcome with
    | ok a => exact h v w' a hinv hpre hdoes.effect
    | error _ => exact hpre

theorem safe_other {op : Op} (h : ∀ publicId nonce arena, op ≠ .respond publicId nonce arena)
    (w : World) : ordered.safe op w :=
  fun publicId nonce arena heq => absurd heq (h publicId nonce arena)

/-- A task that runs the transaction `tx`. -/
def Runs (tx : Nat) (view : Option Nat) (w : World) : Prop := view = some tx ∧ tx < w.begun

theorem runs_stable (tx : Nat) : ordered.Stable (Runs tx) := by
  rintro view w w' ⟨hview, hlt⟩ ⟨hlasts, -⟩
  exact ⟨hview, hlt.trans_le hlasts.begun⟩

theorem Ready.stable {tx : Nat} {write : Option Write} {w w' : World} (h : Ready tx write w)
    (hlasts : Lasts w w') (hguards : Guards tx w w') : Ready tx write w' := by
  rcases write with _ | (row | row)
  · trivial
  · obtain ⟨hlock, hfee, hpublic⟩ := h
    obtain ⟨hlock', hget, -⟩ := hguards row.id hlock
    refine ⟨hlock', hfee, ?_⟩
    rw [hget]
    exact hpublic
  · obtain ⟨hterms, hpublic⟩ := h
    refine ⟨hterms.mono hlasts.versions, fun hrow => ?_⟩
    obtain ⟨hlock, hfew⟩ := hpublic hrow
    obtain ⟨hlock', -, hgames⟩ := hguards row.ownerId hlock
    refine ⟨hlock', ?_⟩
    have hlater := games_anti w row.ownerId
      (show w.clock - 3600 ≤ w'.clock - 3600 from Int.sub_le_sub_right hlasts.clock 3600)
    have hfewer := hgames (w'.clock - 3600)
    omega

/-! ## A transaction -/

/-- What a transaction has to show before it commits. -/
abbrev Body {α : Type} (tx : Nat) (Out : α × Option Write → World → Prop) (r : α × Option Write)
    (view : Option Nat) (w : World) : Prop := Runs tx view w ∧ Ready tx r.2 w ∧ Out r w

theorem await_begin : Triple ordered Performs (fun view _ => view = none)
    (await .begin : Coroutine Nat) Runs fun _ _ _ => True := by
  refine .perform (fun _ _ _ h _ => h) (fun outcome => ?_) (fun _ w _ _ => safe_other
    (fun _ _ _ heq => by cases heq) w) ?_
  · cases outcome with
    | ok tx => exact runs_stable tx
    | error _ => exact fun _ _ _ _ _ => trivial
  · rintro view w outcome w' hinv rfl hdoes
    have hcases : w' = w ∨ w' = { w with
        begun := w.begun + 1 } := by
      rcases hdoes with ⟨result, heffect, -⟩ | ⟨hsame, -⟩
      · exact .inr heffect.2
      · exact .inl hsame
    have hinv' : Orderly w' := by
      rcases hcases with rfl | rfl
      · exact hinv
      · exact hinv.of_locks fun id tx hlock => Nat.lt_succ_of_lt (hinv.locks id tx hlock)
    have hharmless : Harmless none w w' := by
      rcases hcases with rfl | rfl
      · exact .refl _ _
      · exact ⟨.of_tables (le_refl _) (Nat.le_succ _) rfl rfl,
          fun tx _ => .of_tables rfl rfl fun _ hlock => hlock⟩
    cases outcome with
    | error _ => exact ⟨hinv', none, hharmless.grants, trivial⟩
    | ok tx =>
      obtain ⟨htx, hw'⟩ := hdoes.effect
      rw [Except.ok.injEq] at htx
      subst htx
      refine ⟨hinv', some w.begun, ?_, rfl, by rw [hw']; exact Nat.lt_succ_self _⟩
      intro u hapart
      obtain ⟨hrely, hbelow, -, -⟩ := hharmless.grants u hapart
      refine ⟨hrely, hbelow, ?_, ?_⟩
      · intro tx htx
        cases htx
        rw [hw']
        exact Nat.lt_succ_self _
      · intro tx htx hnew
        cases hnew
        exact absurd (hapart.1 _ htx) (Nat.lt_irrefl _)

/-- A commit fails and leaves nothing, or puts its row. -/
theorem commit_cases {tx : Nat} {write : Option Write} {w w' : World}
    {outcome : Except (Raised Fault) Unit} (h : Performs (.commit tx write) w outcome w') :
    (w' = w ∧ outcome ≠ .ok ()) ∨ ∃ w₁, w.put write = .ok w₁ ∧ w' = w₁.release tx := by
  rcases h with ⟨result, hputs | ⟨e, -, hresult, hsame⟩, houtcome⟩ | ⟨hsame, raised, houtcome⟩
  · obtain ⟨w₁, hput, -, hw'⟩ := hputs
    exact .inr ⟨w₁, hput, hw'⟩
  · refine .inl ⟨hsame, ?_⟩
    rw [hresult] at houtcome
    rcases houtcome with rfl | ⟨raised, rfl⟩
    · exact nofun
    · exact nofun
  · rw [houtcome]
    exact .inl ⟨hsame, nofun⟩

theorem await_commit {tx : Nat} {write : Option Write} {Out Done : World → Prop}
    (hOut : ∀ w w', Out w → Lasts w w' → Out w') (hDone : ∀ w w', Done w → Lasts w w' → Done w')
    (h : ∀ w w₁, Orderly w → Out w → w.put write = .ok w₁ → Done (w₁.release tx)) :
    Triple ordered Performs (fun view w => Runs tx view w ∧ Ready tx write w ∧ Out w)
      (await (.commit tx write)) (fun _ view w => Runs tx view w ∧ Done w) fun _ => Runs tx := by
  have hstable : ordered.Stable fun view w => Runs tx view w ∧ Ready tx write w ∧ Out w := by
    rintro view w w' ⟨hruns, hready, hout⟩ hrely
    exact ⟨runs_stable tx view w w' hruns hrely,
      hready.stable hrely.1 (hrely.2 tx hruns.1), hOut w w' hout hrely.1⟩
  refine .perform hstable (fun outcome => ?_) (fun _ w _ _ => safe_other
    (fun _ _ _ heq => by cases heq) w) ?_
  · cases outcome with
    | error _ => exact runs_stable tx
    | ok a =>
      rintro view w w' ⟨hruns, hdone⟩ hrely
      exact ⟨runs_stable tx view w w' hruns hrely, hDone w w' hdone hrely.1⟩
  · rintro view w outcome w' hinv ⟨⟨rfl, hlt⟩, hready, hout⟩ hdoes
    have hboth : Orderly w' ∧ Harmless (some tx) w w' := by
      rcases commit_cases hdoes with ⟨rfl, -⟩ | ⟨w₁, hput, rfl⟩
      · exact ⟨hinv, .refl _ _⟩
      · exact hinv.commit hput hready
    have hruns : Runs tx (some tx) w' := ⟨rfl, hlt.trans_le hboth.2.lasts.begun⟩
    refine ⟨hboth.1, some tx, hboth.2.grants, ?_⟩
    cases outcome with
    | error _ => exact hruns
    | ok a =>
      refine ⟨hruns, ?_⟩
      rcases commit_cases hdoes with ⟨-, hraised⟩ | ⟨w₁, hput, rfl⟩
      · exact absurd rfl hraised
      · exact h w w₁ hinv hout hput

theorem await_rollback {tx : Nat} {Done : World → Prop}
    (hDone : ∀ w w', Done w → Lasts w w' → Done w') :
    Triple ordered Performs (fun view w => Runs tx view w ∧ Done w) (await (.rollback tx))
      (fun _ _ w => Done w) fun _ _ _ => True := by
  refine .perform ?_ (fun outcome => ?_) (fun _ w _ _ => safe_other
    (fun _ _ _ heq => by cases heq) w) ?_
  · rintro view w w' ⟨hruns, hdone⟩ hrely
    exact ⟨runs_stable tx view w w' hruns hrely, hDone w w' hdone hrely.1⟩
  · cases outcome with
    | error _ => exact fun _ _ _ _ _ => trivial
    | ok a => exact fun view w w' hdone hrely => hDone w w' hdone hrely.1
  · rintro view w outcome w' hinv ⟨⟨rfl, hlt⟩, hdone⟩ hdoes
    have hcases : w' = w ∨ w' = w.release tx := by
      rcases hdoes with ⟨result, heffect, -⟩ | ⟨hsame, -⟩
      · exact .inr heffect.2
      · exact .inl hsame
    have hboth : Orderly w' ∧ Harmless (some tx) w w' := by
      rcases hcases with rfl | rfl
      · exact ⟨hinv, .refl _ _⟩
      · exact ⟨hinv.release tx, harmless_release w tx⟩
    refine ⟨hboth.1, some tx, hboth.2.grants, ?_⟩
    cases outcome with
    | error _ => trivial
    | ok a => exact hDone w w' hdone hboth.2.lasts

/-- A transaction whose body shows what it has to. -/
theorem transaction_order {α : Type} {body : Nat → Coroutine (α × Option Write)}
    {Out : α × Option Write → World → Prop} {Done : α → World → Prop}
    (hOut : ∀ r w w', Out r w → Lasts w w' → Out r w')
    (hDone : ∀ a w w', Done a w → Lasts w w' → Done a w')
    (hcommit : ∀ tx r w w₁, Orderly w → Out r w → w.put r.2 = .ok w₁ → Done r.1 (w₁.release tx))
    (hbody : ∀ tx, Triple ordered Performs (Runs tx) (body tx) (Body tx Out) fun _ => Runs tx) :
    Triple ordered Performs (fun view _ => view = none) (transaction body) (fun a _ w => Done a w)
      fun _ _ _ => True := by
  refine .bind await_begin fun tx => ?_
  refine Triple.clean (R := fun a view w => Runs tx view w ∧ Done a w) (T := fun _ => Runs tx)
    ?_ (fun _ _ _ _ _ _ => trivial) ?_ (fun a => await_rollback (hDone a)) ?_
  · exact fun a view w w' hdone hrely => hDone a w w' hdone hrely.1
  · refine .bind (hbody tx) fun r => ?_
    refine .bind (await_commit (hOut r) (hDone r.1) (hcommit tx r)) fun _ => ?_
    refine .pure ?_ fun _ _ h => h
    rintro view w w' ⟨hruns, hdone⟩ hrely
    exact ⟨runs_stable tx view w w' hruns hrely, hDone r.1 w w' hdone hrely.1⟩
  · intro raised
    refine (@await_rollback tx (fun _ => True) fun _ _ _ _ => trivial).consequence
      (fun _ _ _ hruns => ⟨hruns, trivial⟩) ?_
    intro outcome v w _ _
    cases outcome <;> trivial

/-! ## The bodies -/

/-- A condition of the transaction `tx` that the steps of the others do not break. -/
def Kept (tx : Nat) (P : World → Prop) : Prop :=
  ∀ w w', P w → Lasts w w' → Guards tx w w' → P w'

section

variable {tx : Nat}

theorem Kept.and {P Q : World → Prop} (hP : Kept tx P) (hQ : Kept tx Q) :
    Kept tx fun w => P w ∧ Q w :=
  fun w w' h hlasts hguards => ⟨hP w w' h.1 hlasts hguards, hQ w w' h.2 hlasts hguards⟩

theorem Kept.of_imp {p : Prop} {P : World → Prop} (hP : Kept tx P) : Kept tx fun w => p → P w :=
  fun w w' h hlasts hguards hp => hP w w' (h hp) hlasts hguards

theorem Kept.forall {α : Type} {P : α → World → Prop} (hP : ∀ a, Kept tx (P a)) :
    Kept tx fun w => ∀ a, P a w :=
  fun w w' h hlasts hguards a => hP a w w' (h a) hlasts hguards

theorem kept_const (p : Prop) : Kept tx fun _ => p := fun _ _ h _ _ => h

theorem kept_version (s : Settings) : Kept tx fun w => s ∈ w.versions :=
  fun _ _ h hlasts _ => hlasts.versions s h

theorem kept_clock (time : Int) : Kept tx fun w => time ≤ w.clock :=
  fun _ _ h hlasts _ => h.trans hlasts.clock

theorem Kept.stable {P : World → Prop} (hP : Kept tx P) :
    ordered.Stable fun view w => Runs tx view w ∧ P w := by
  rintro view w w' ⟨hruns, hpre⟩ hrely
  exact ⟨runs_stable tx view w w' hruns hrely, hP w w' hpre hrely.1 (hrely.2 tx hruns.1)⟩

/-- The rule of an operation that changes nothing, inside a transaction. -/
theorem await_seen (op : Op) (hop : op.reads)
    (hother : ∀ publicId nonce arena, op ≠ .respond publicId nonce arena) {P : World → Prop}
    {R : op.Ans → World → Prop} (hP : Kept tx P) (hR : ∀ a, Kept tx (R a))
    (h : ∀ w a, Orderly w → P w → Effect op w (.ok a) w → R a w) :
    Triple ordered Performs (fun view w => Runs tx view w ∧ P w) (await op)
      (fun a view w => Runs tx view w ∧ R a w) fun _ => Runs tx := by
  have hread := await_read op hop hP.stable (fun a => (hR a).stable)
    (fun _ w _ _ => safe_other hother w)
    fun v w a hinv hpre heffect => ⟨hpre.1, h w a hinv hpre.2 heffect⟩
  refine hread.consequence (fun _ _ _ hpre => hpre) ?_
  intro outcome v w _ hpost
  cases outcome with
  | ok a => exact hpost
  | error raised => exact hpost.1

/-- The rule of an operation that locks a row or nothing. -/
theorem await_lock (op : Op) {R : op.Ans → World → Prop}
    (hother : ∀ publicId nonce arena, op ≠ .respond publicId nonce arena)
    (hlocks : ∀ w outcome w', Performs op w outcome w' →
      w' = w ∨ ∃ id, w.free tx id ∧ w' = w.lock tx id)
    (hR : ∀ a, Kept tx (R a)) (h : ∀ w a w', Orderly w → Effect op w (.ok a) w' → R a w') :
    Triple ordered Performs (Runs tx) (await op) (fun a view w => Runs tx view w ∧ R a w)
      fun _ => Runs tx := by
  refine .perform (runs_stable tx) (fun outcome => ?_) (fun _ w _ _ => safe_other hother w) ?_
  · cases outcome with
    | ok a => exact (hR a).stable
    | error _ => exact runs_stable tx
  · rintro view w outcome w' hinv ⟨rfl, hlt⟩ hdoes
    have hboth : Orderly w' ∧ Harmless (some tx) w w' := by
      rcases hlocks w outcome w' hdoes with rfl | ⟨id, hfree, rfl⟩
      · exact ⟨hinv, .refl _ _⟩
      · exact ⟨hinv.lock hlt id, harmless_lock hfree⟩
    have hruns : Runs tx (some tx) w' := ⟨rfl, hlt.trans_le hboth.2.lasts.begun⟩
    refine ⟨hboth.1, some tx, hboth.2.grants, ?_⟩
    cases outcome with
    | error _ => exact hruns
    | ok a => exact ⟨hruns, h w a w' hinv hdoes.effect⟩

/-- The settings that `create_game` has locked. -/
structure Locked (tx : Nat) (publicId : String) (setting : Settings) (w : World) : Prop where
  lock : w.locks setting.id = some tx
  version : setting ∈ w.versions
  lobby : setting.publicId = some publicId
  fee : 0 ≤ setting.haircut

theorem kept_locked (publicId : String) (setting : Settings) :
    Kept tx (Locked tx publicId setting) :=
  fun _ _ h hlasts hguards => ⟨(hguards _ h.lock).1, hlasts.versions _ h.version, h.lobby, h.fee⟩

/-- The arena of a nonce in a lobby is committed. -/
def Shown (publicId nonce : String) (arena : Arena) (w : World) : Prop :=
  ∃ a ∈ w.arenas, a.id = arena.id ∧ a.publicNonce = some nonce ∧
    ∃ s ∈ w.versions, s.id = a.ownerId ∧ s.publicId = some publicId

theorem Shown.lasts {publicId nonce : String} {arena : Arena} {w w' : World}
    (h : Shown publicId nonce arena w) (hlasts : Lasts w w') : Shown publicId nonce arena w' := by
  obtain ⟨a, ha, hid, hnonce, s, hs, howner, hpublic⟩ := h
  obtain ⟨a', ha', hid', howner', hnonce'⟩ := hlasts.arenas a ha
  exact ⟨a', ha', hid'.trans hid, hnonce'.trans hnonce, s, hlasts.versions s hs,
    howner.trans howner'.symm, hpublic⟩

/-- What `create_game` commits for a nonce: nothing, when the game is there, or
the game. -/
def Found (publicId nonce : String) (r : Arena × Option Write) (w : World) : Prop :=
  (r.2 = none ∧ Shown publicId nonce r.1 w) ∨
  (r.2 = some (.arena r.1) ∧ r.1.publicNonce = some nonce ∧
    ∃ s ∈ w.versions, s.id = r.1.ownerId ∧ s.publicId = some publicId)

theorem Found.lasts {publicId nonce : String} {r : Arena × Option Write} {w w' : World}
    (h : Found publicId nonce r w) (hlasts : Lasts w w') : Found publicId nonce r w' := by
  rcases h with ⟨hwrite, hshown⟩ | ⟨hwrite, hnonce, s, hs, howner, hpublic⟩
  · exact .inl ⟨hwrite, hshown.lasts hlasts⟩
  · exact .inr ⟨hwrite, hnonce, s, hlasts.versions s hs, howner, hpublic⟩

theorem Found.committed {publicId nonce : String} {r : Arena × Option Write} {w w₁ : World}
    (h : Found publicId nonce r w) (hput : w.put r.2 = .ok w₁) :
    Shown publicId nonce r.1 (w₁.release tx) := by
  rcases h with ⟨hwrite, hshown⟩ | ⟨hwrite, hnonce, s, hs, howner, hpublic⟩
  · rw [hwrite] at hput
    cases hput
    exact hshown
  · rw [hwrite] at hput
    have hrow := putArena_ok hput
    refine ⟨r.1, (Table.mem_insert? hrow.insert).mpr (.inr rfl), rfl,
      hnonce, s, ?_, howner, hpublic⟩
    have hversions : w₁.versions = w.versions := by rw [hrow.rest]
    show s ∈ w₁.versions
    rw [hversions]
    exact hs

/-- The owner has at most `count` games since the hour before `time`. -/
theorem kept_count (publicId : String) (setting : Settings) (time : Int) (count : Nat) :
    Kept tx fun w => Locked tx publicId setting w ∧ time ≤ w.clock ∧
      w.games setting.id (time - 3600) ≤ count := by
  rintro w w' ⟨hlocked, htime, hcount⟩ hlasts hguards
  obtain ⟨-, -, hgames⟩ := hguards setting.id hlocked.lock
  exact ⟨kept_locked publicId setting w w' hlocked hlasts hguards, htime.trans hlasts.clock,
    (hgames _).trans hcount⟩

theorem gameRow_terms {publicId : String} {setting : Settings}
    {w : World} {data : PublicArenaInput}
    (h : Locked tx publicId setting w) (htotal : data.creatorHaircut +
      setting.haircut ≤ maxTotalHaircut)
    (haddress : ¬(data.creatorHaircut ≠ 0 ∧ data.lnAddress = "")) (id : Uid) (time : Int) :
    Terms w.versions (gameRow id time setting data) := by
  refine ⟨h.fee, data.creatorHaircut_ge, ?_, ?_, setting, h.version, rfl, rfl, rfl⟩
  · show setting.haircut + data.creatorHaircut ≤ maxTotalHaircut
    omega
  · intro hpositive hempty
    have hpositive : 0 < data.creatorHaircut := hpositive
    exact haddress ⟨by omega, hempty⟩

theorem insertGame_order {publicId : String} {setting : Settings} (data : PublicArenaInput) :
    Triple ordered Performs (fun view w => Runs tx view w ∧ Locked tx publicId setting w)
      (insertGame setting data) (Body tx (Found publicId data.nonce)) fun _ => Runs tx := by
  have hlocked : Kept tx (Locked tx publicId setting) := kept_locked publicId setting
  have hclock : ∀ time, Kept tx fun w => Locked tx publicId setting w ∧ time ≤ w.clock :=
    fun time => hlocked.and (kept_clock time)
  have hraise : ∀ {P : World → Prop} (message : String), Kept tx P → Triple ordered Performs
      (fun view w => Runs tx view w ∧ P w) (lobbyError message : Coroutine (Arena × Option Write))
      (Body tx (Found publicId data.nonce)) fun _ => Runs tx :=
    fun _ hP => .raise hP.stable fun _ _ h => h.1
  unfold insertGame
  split_ifs with htotal haddress
  · exact hraise _ hlocked
  · exact hraise _ hlocked
  refine .bind (await_seen .now trivial (fun _ _ _ heq => by cases heq) hlocked hclock ?_)
    fun time => ?_
  · rintro w time - hpre ⟨htime, -⟩
    cases htime
    exact ⟨hpre, le_refl _⟩
  refine .bind (await_seen (.countGames setting.id (time - 3600)) trivial
    (fun _ _ _ heq => by cases heq) (hclock time) (kept_count publicId setting time) ?_)
    fun count => ?_
  · rintro w count - hpre ⟨hcount, -⟩
    cases hcount
    exact ⟨hpre.1, hpre.2, le_refl _⟩
  have hcounted := @kept_count tx publicId setting time count
  split_ifs with hfull
  · exact hraise _ hcounted
  refine .bind (await_seen .uid trivial (fun _ _ _ heq => by cases heq) hcounted
    (fun _ => hcounted) fun _ _ _ hpre _ => hpre) fun id => ?_
  refine .bind (await_seen .now trivial (fun _ _ _ heq => by cases heq) hcounted
    (fun _ => hcounted) fun _ _ _ hpre _ => hpre) fun created => ?_
  refine .pure hcounted.stable ?_
  rintro view w ⟨hruns, hpre, htime, hcount⟩
  refine ⟨hruns, ⟨gameRow_terms hpre (not_lt.mp htotal) haddress id created,
    fun _ => ⟨hpre.lock, ?_⟩⟩, ?_⟩
  · have hlater := games_anti w setting.id (Int.sub_le_sub_right htime 3600)
    exact (hlater.trans hcount).trans_lt (not_le.mp hfull)
  · exact .inr ⟨rfl, rfl, setting, hpre.version, rfl, hpre.lobby⟩

theorem World.game_some {w : World} {owner : Uid} {nonce : String} {a : Arena}
    (h : w.game owner nonce = some a) :
    a ∈ w.arenas ∧ a.ownerId = owner ∧ a.publicNonce = some nonce := by
  obtain ⟨ha, hwhere⟩ := Table.mem_select.mp (List.mem_of_head? h)
  simp only [Bool.and_eq_true, decide_eq_true_eq] at hwhere
  exact ⟨ha, hwhere⟩

theorem findOrInsert_order {publicId : String} {setting : Settings} (data : PublicArenaInput) :
    Triple ordered Performs (fun view w => Runs tx view w ∧ Locked tx publicId setting w)
      (findOrInsert setting data) (Body tx (Found publicId data.nonce)) fun _ => Runs tx := by
  have hlocked : Kept tx (Locked tx publicId setting) := kept_locked publicId setting
  have hfound : ∀ existing : Option Arena, Kept tx fun w => Locked tx publicId setting w ∧
      ∀ arena, existing = some arena → Shown publicId data.nonce arena w :=
    fun existing => hlocked.and (.forall fun arena =>
      .of_imp fun _ _ h hlasts _ => h.lasts hlasts)
  refine .bind (await_seen (.findGame setting.id data.nonce) trivial
    (fun _ _ _ heq => by cases heq) hlocked hfound ?_) fun existing => ?_
  · rintro w existing - hpre ⟨hexisting, -⟩
    refine ⟨hpre, ?_⟩
    rintro arena rfl
    rw [Except.ok.injEq] at hexisting
    obtain ⟨harena, howner, hnonce⟩ := World.game_some hexisting.symm
    exact ⟨arena, harena, rfl, hnonce, setting, hpre.version, howner.symm, hpre.lobby⟩
  · cases existing with
    | some arena =>
      refine .pure (hfound (some arena)).stable ?_
      rintro view w ⟨hruns, -, hshown⟩
      exact ⟨hruns, trivial, .inl ⟨rfl, hshown arena rfl⟩⟩
    | none =>
      refine (insertGame_order data).consequence ?_ fun _ _ _ _ hpost => hpost
      exact fun view w _ hpre => ⟨hpre.1, hpre.2.1⟩

theorem World.lobby_some {w : World} {publicId : String} {s : Settings}
    (h : w.lobby publicId = some s) : s ∈ w.settings ∧ s.publicId = some publicId := by
  obtain ⟨hs, hwhere⟩ := Table.mem_select.mp (List.mem_of_head? h)
  simp only [Bool.and_eq_true, decide_eq_true_eq] at hwhere
  exact ⟨hs, hwhere.1⟩

theorem lockLobby_cases {publicId : String} (w : World)
    (outcome : Except (Raised Fault) (Option Settings)) (w' : World)
    (h : Performs (.lockLobby tx publicId) w outcome w') :
    w' = w ∨ ∃ id, w.free tx id ∧ w' = w.lock tx id := by
  rcases h with ⟨result, ⟨-, -, hsame⟩ | ⟨s, -, hfree, -, hlock⟩, -⟩ | ⟨hsame, -⟩
  · exact .inl hsame
  · exact .inr ⟨s.id, hfree, hlock⟩
  · exact .inl hsame

theorem createGameIn_order (publicId : String) (data : PublicArenaInput) :
    Triple ordered Performs (Runs tx) (createGameIn publicId data tx)
      (Body tx (Found publicId data.nonce)) fun _ => Runs tx := by
  have hlocked : ∀ lobby : Option Settings, Kept tx fun w => ∀ setting, lobby = some setting →
      Locked tx publicId setting w :=
    fun lobby => .forall fun setting => .of_imp (kept_locked publicId setting)
  refine .bind (await_lock (.lockLobby tx publicId) (fun _ _ _ heq => by cases heq)
    lockLobby_cases hlocked ?_) fun lobby => ?_
  · rintro w lobby w' hinv (⟨-, hnone, -⟩ | ⟨s, hlobby, -, hsome, rfl⟩) setting rfl
    · cases hnone
    · cases hsome
      obtain ⟨hs, hpublic⟩ := World.lobby_some hlobby
      have hversion := hinv.current _ hs
      exact ⟨Function.update_self _ _ _, hversion, hpublic, (hinv.fees _ hversion).1⟩
  · cases lobby with
    | none => exact .raise (hlocked none).stable fun _ _ h => h.1
    | some setting =>
      show Triple _ _ _ (if setting.enabled = false then _ else _) _ _
      split_ifs
      · exact .raise (hlocked (some setting)).stable fun _ _ h => h.1
      · refine (findOrInsert_order data).consequence ?_ fun _ _ _ _ hpost => hpost
        exact fun view w _ hpre => ⟨hpre.1, hpre.2 setting rfl⟩

theorem createArenaIn_order (owner : Uid) (data : ArenaInput) :
    Triple ordered Performs (Runs tx) (createArenaIn owner data tx)
      (Body tx fun _ _ => True) fun _ => Runs tx := by
  have hread : ∀ found : Option Settings, Kept tx fun w => ∀ setting, found = some setting →
      setting ∈ w.versions :=
    fun found => .forall fun setting => .of_imp (kept_version setting)
  refine .bind (R := fun found view w => Runs tx view w ∧ ∀ setting, found = some setting →
    setting ∈ w.versions) ?_ fun found => ?_
  · refine (await_seen (.readSettings owner) (P := fun _ => True) trivial
      (fun _ _ _ heq => by cases heq) (kept_const True) hread ?_).consequence
      (fun _ _ _ hruns => ⟨hruns, trivial⟩) fun _ _ _ _ hpost => hpost
    rintro w found hinv - ⟨hfound, -⟩ setting rfl
    rw [Except.ok.injEq] at hfound
    exact hinv.current _ (Table.mem_of_get? hfound.symm)
  · have hkept := hread found
    cases found with
    | none => exact .raise hkept.stable fun _ _ h => h.1
    | some setting =>
      show Triple _ _ _ (if setting.enabled = false then _ else _) _ _
      split_ifs with _ hfee
      · exact .raise hkept.stable fun _ _ h => h.1
      · refine .bind (await_seen .uid trivial (fun _ _ _ heq => by cases heq) hkept
          (fun _ => hkept) fun _ _ _ hpre _ => hpre) fun id => ?_
        refine .bind (await_seen .now trivial (fun _ _ _ heq => by cases heq) hkept
          (fun _ => hkept) fun _ _ _ hpre _ => hpre) fun time => ?_
        refine .pure hkept.stable ?_
        rintro view w ⟨hruns, hpre⟩
        refine ⟨hruns, ⟨⟨hfee.1, le_refl _, ?_, ?_, setting,
          hpre setting rfl, rfl, rfl, rfl⟩, ?_⟩,
          trivial⟩
        · show setting.haircut + 0 ≤ maxTotalHaircut
          omega
        · exact fun h => absurd h (Int.lt_irrefl 0)
        · exact fun hpublic => by cases hpublic
      · exact .raise hkept.stable fun _ _ h => h.1

theorem saveSettingsIn_order (arguments : SettingsArguments)
    (hfee : 0 ≤ arguments.haircut ∧ arguments.haircut ≤ maxTotalHaircut) :
    Triple ordered Performs (Runs tx) (saveSettingsIn arguments tx)
      (Body tx fun _ _ => True) fun _ => Runs tx := by
  have hrow : ∀ old : Option Settings, Kept tx fun w =>
      w.locks arguments.owner = some tx ∧ w.settings.get? arguments.owner = old := by
    rintro old w w' ⟨hlock, hget⟩ - hguards
    obtain ⟨hlock', hget', -⟩ := hguards arguments.owner hlock
    exact ⟨hlock', hget'.trans hget⟩
  refine .bind (R := fun _ => Runs tx) ?_ fun time => ?_
  · refine (await_seen .now (P := fun _ => True) (R := fun _ _ => True) trivial
      (fun _ _ _ heq => by cases heq) (kept_const True) (fun _ => kept_const True)
      fun _ _ _ _ _ => trivial).consequence (fun _ _ _ hruns => ⟨hruns, trivial⟩) ?_
    intro outcome view w _ hpost
    cases outcome with
    | ok time => exact hpost.1
    | error raised => exact hpost
  refine .bind (await_lock (.lockOwner tx arguments.owner) (fun _ _ _ heq => by cases heq)
    ?_ hrow ?_) fun old => ?_
  · rintro w outcome w' (⟨result, ⟨hfree, -, hlock⟩, -⟩ | ⟨hsame, -⟩)
    · exact .inr ⟨_, hfree, hlock⟩
    · exact .inl hsame
  · rintro w old w' - ⟨-, hold, rfl⟩
    rw [Except.ok.injEq] at hold
    exact ⟨Function.update_self _ _ _, hold.symm⟩
  refine .bind (await_seen .uid trivial (fun _ _ _ heq => by cases heq) (hrow old)
    (fun _ => hrow old) fun _ _ _ hpre _ => hpre) fun fresh => ?_
  refine .pure (hrow old).stable ?_
  rintro view w ⟨hruns, hlock, hget⟩
  refine ⟨hruns, ⟨hlock, hfee, ?_⟩, trivial⟩
  rintro s hs p hp
  have hold : old = some s := hget.symm.trans hs
  show some ((old.bind Settings.publicId).getD fresh) = some p
  rw [hold, Option.bind_some, hp, Option.getD_some]

end

/-! ## Every request -/

theorem createGame_order (publicId : String) (data : PublicArenaInput) :
    Triple ordered Performs (fun view _ => view = none) (createGame publicId data)
      (fun arena _ w => Shown publicId data.nonce arena w) fun _ _ _ => True :=
  transaction_order (fun _ _ _ h hlasts => h.lasts hlasts) (fun _ _ _ h hlasts => h.lasts hlasts)
    (fun _ _ _ _ _ h hput => h.committed hput) fun _ => createGameIn_order publicId data

theorem transaction_quiet {α : Type} {body : Nat → Coroutine (α × Option Write)}
    (h : ∀ tx, Triple ordered Performs (Runs tx) (body tx) (Body tx fun _ _ => True)
      fun _ => Runs tx) :
    Triple ordered Performs (fun view _ => view = none) (transaction body) (fun _ _ _ => True)
      fun _ _ _ => True :=
  @transaction_order α body (fun _ _ => True) (fun _ _ => True) (fun _ _ _ _ _ => trivial)
    (fun _ _ _ _ _ => trivial) (fun _ _ _ _ _ _ _ => trivial) h

theorem stable_true : ordered.Stable fun _ _ => True := fun _ _ _ _ _ => trivial

theorem request_order (request : Request) :
    Triple ordered Performs (fun view _ => view = none) request.task (fun _ _ _ => True)
      fun _ _ _ => True := by
  cases request with
  | createGame publicId data =>
    refine .bind (createGame_order publicId data) fun arena => ?_
    refine (await_read (.respond publicId data.nonce arena) (R := fun _ _ _ => True) trivial ?_
      (fun _ => stable_true) ?_
      fun _ _ _ _ _ _ => trivial).forget
    · exact fun _ w w' h hrely => h.lasts hrely.1
    · rintro view w - hshown publicId' nonce' arena' heq
      cases heq
      exact hshown
  | createArena owner data =>
    refine .bind (transaction_quiet fun _ => createArenaIn_order owner data) fun _ => ?_
    exact .pure stable_true fun _ _ h => h
  | saveSettings arguments =>
    have hsave : Triple ordered Performs (fun view _ => view = none) (saveSettings arguments)
        (fun _ _ _ => True) fun _ _ _ => True := by
      unfold saveSettings
      split_ifs with hfee
      · refine .bind (transaction_quiet fun _ => saveSettingsIn_order arguments hfee) fun _ => ?_
        exact (await_read (.readSettings arguments.owner) (R := fun _ _ _ => True) trivial
          stable_true (fun _ => stable_true)
          (fun _ w _ _ => safe_other (fun _ _ _ heq => by cases heq) w)
          fun _ _ _ _ _ _ => trivial).forget
      · exact .raise (fun _ _ _ h _ => h) fun _ _ _ => trivial
    exact .bind hsave fun _ => .pure stable_true fun _ _ h => h

theorem Reachable.sound {start : Int} {pool : Pool Op Op.Ans Fault World}
    (h : Reachable start pool) : pool.Sound ordered Performs := by
  have hidle : ∀ w, ordered.apart w none none := fun _ => ⟨nofun, nofun, nofun⟩
  refine Pool.Reachable.sound (Orderly.initial start) (hidle _) ?_ ?_ ?_ h
  · rintro task ⟨request, rfl⟩ w hinv
    refine (request_order request none w hinv rfl).mono ?_
    exact fun _ _ _ _ _ => trivial
  · intro w w' hinv hout
    obtain ⟨hinv', hlasts, hguards⟩ := hinv.outside hout
    exact ⟨hinv', fun u _ _ => ⟨hlasts, fun tx _ => hguards tx⟩⟩
  · rintro w w' hinv rfl
    exact ⟨hinv.of_locks nofun, hidle _⟩

/-- Public games are created once for each nonce, at most fifty an owner, and
with fees in their bounds. -/
theorem creation_bounded {start : Int} {pool : Pool Op Op.Ans Fault World}
    (h : Reachable start pool) :
    (∀ a ∈ pool.world.arenas, ∀ b ∈ pool.world.arenas, ∀ nonce, a.ownerId = b.ownerId →
      a.publicNonce = some nonce → b.publicNonce = some nonce → a = b) ∧
    (∀ i publicId nonce arena next, pool.tasks i = .call (.respond publicId nonce arena) next →
      ∃ a ∈ pool.world.arenas, a.id = arena.id ∧ a.publicNonce = some nonce ∧
        ∃ s ∈ pool.world.versions, s.id = a.ownerId ∧ s.publicId = some publicId) ∧
    (∀ owner, pool.world.games owner (pool.world.clock - 3600) ≤ 50) ∧
    ∀ a ∈ pool.world.arenas, Terms pool.world.versions a := by
  obtain ⟨hinv, views, htasks, -⟩ := h.sound
  refine ⟨hinv.nonces, ?_, hinv.limit, hinv.terms⟩
  intro i publicId nonce arena next htask
  have hnext := htasks i
  rw [htask] at hnext
  exact (hnext pool.world (ordered.rely_refl _ _) hinv).1 publicId nonce arena rfl

/-! An owner opens a lobby, and a game is created there. -/

namespace First

def arguments : SettingsArguments := ⟨"admin", "wallet", true, 10, true⟩

def data : PublicArenaInput where
  name := "Arena"
  map := "q3dm17"
  joinAmount := 250
  joinAmount_ge := by decide
  joinAmount_le := by decide
  creatorHaircut := 7
  lnAddress := "creator@ln"
  nonce := "nonce"
  creatorHaircut_ge := by decide
  creatorHaircut_le := by decide

def row : Settings := settingsRow arguments 1000 "lobby" none

def arena : Arena := gameRow "arena" 1000 row data

/-- The world of a transaction that has locked the owner. -/
def locked (w : World) : World := { w with begun := w.begun + 1 }.lock w.begun "admin"

def written (w : World) (write : Option Write) : World :=
  match (locked w).put write with
  | .ok w' => (w'.release w.begun).release w.begun
  | .error _ => w

def opened : World := written (World.initial 1000) (some (.settings row))

def created : World := written opened (some (.arena arena))

theorem performs_ok {op : Op} {w w' : World} {a : op.Ans} (h : Effect op w (.ok a) w') :
    Performs op w (.ok a) w' := .inl ⟨.ok a, h, .inl rfl⟩

theorem solo_open : Solo Performs (Request.saveSettings arguments).task (World.initial 1000)
    (.ok ()) opened := by
  refine .call (performs_ok (a := (0 : Nat)) ⟨rfl, rfl⟩) ?_
  refine .call (performs_ok (a := (1000 : Int)) ⟨rfl, rfl⟩) ?_
  refine .call (performs_ok (a := (none : Option Settings)) ⟨.inl rfl, rfl, rfl⟩) ?_
  refine .call (performs_ok (a := ("lobby" : Uid)) rfl) ?_
  refine .call (performs_ok (a := ()) (.inl ⟨_, rfl, rfl, rfl⟩)) ?_
  refine .call (performs_ok (a := ()) ⟨rfl, rfl⟩) ?_
  exact .call (performs_ok (a := some row) ⟨rfl, rfl⟩) (.done _ _)

theorem solo_create : Solo Performs (Request.createGame "lobby" data).task opened
    (.ok ()) created := by
  refine .call (performs_ok (a := (1 : Nat)) ⟨rfl, rfl⟩) ?_
  refine .call (performs_ok (a := some row) (.inr ⟨row, rfl, .inl rfl, rfl, rfl⟩)) ?_
  refine .call (performs_ok (a := (none : Option Arena)) ⟨rfl, rfl⟩) ?_
  refine .call (performs_ok (a := (1000 : Int)) ⟨rfl, rfl⟩) ?_
  refine .call (performs_ok (a := (0 : Nat)) ⟨rfl, rfl⟩) ?_
  refine .call (performs_ok (a := ("arena" : Uid)) rfl) ?_
  refine .call (performs_ok (a := (1000 : Int)) ⟨rfl, rfl⟩) ?_
  refine .call (performs_ok (a := ()) (.inl ⟨_, rfl, rfl, rfl⟩)) ?_
  refine .call (performs_ok (a := ()) ⟨rfl, rfl⟩) ?_
  exact .call (performs_ok (a := ()) ⟨rfl, rfl⟩) (.done _ _)

theorem reachable_created : ∃ tasks, Reachable 1000 ⟨created, tasks⟩ ∧
    tasks 1 = .done (.ok ()) := by
  have hstart : Reachable 1000 ⟨World.initial 1000, fun _ => .done (.ok ())⟩ := .initial
  have hsave := hstart.step (.start 0 (Request.saveSettings arguments).task _ rfl ⟨_, rfl⟩)
  have hopened := hsave.solo (i := 0) (by rw [Function.update_self]; exact solo_open)
  have hcreate := hopened.step (.start 0 (Request.createGame "lobby" data).task (.ok ()) rfl
    ⟨_, rfl⟩)
  exact ⟨_, hcreate.solo (i := 0) (by rw [Function.update_self]; exact solo_create), rfl⟩

/-- The same request with another name for the game. -/
def again : PublicArenaInput :=
  { data with
    name := "Another" }

/-- The second request writes nothing. -/
def answered : World := written created none

theorem solo_again : Solo Performs (createGame "lobby" again) created (.ok arena) answered := by
  refine .call (performs_ok (a := (2 : Nat)) ⟨rfl, rfl⟩) ?_
  refine .call (performs_ok (a := some row) (.inr ⟨row, rfl, .inl rfl, rfl, rfl⟩)) ?_
  refine .call (performs_ok (a := some arena) ⟨rfl, rfl⟩) ?_
  refine .call (performs_ok (a := ()) (.inl ⟨_, rfl, rfl, rfl⟩)) ?_
  exact .call (performs_ok (a := ()) ⟨rfl, rfl⟩) (.done _ _)

/-- The second request is about to answer. -/
theorem reachable_answered : ∃ tasks next, Reachable 1000 ⟨answered, tasks⟩ ∧
    tasks 1 = .call (.respond "lobby" "nonce" arena) next := by
  obtain ⟨tasks, hcreated, hidle⟩ := reachable_created
  have hstart := hcreated.step (.start 1 (Request.createGame "lobby" again).task _ hidle ⟨_, rfl⟩)
  have hanswered := hstart.solo_first (i := 1) (Function.update_self _ _ _) solo_again
  exact ⟨_, _, hanswered, Function.update_self _ _ _⟩

theorem arena_mem : arena ∈ answered.arenas := List.mem_cons_self

end First

open First in
/-- Two requests with one nonce: there is one game, and the second request
answers with it. -/
theorem creation_bounded_first : Terms answered.versions arena ∧
    (∀ b ∈ answered.arenas, b.ownerId = "admin" → b.publicNonce = some "nonce" → b = arena) ∧
    ∃ tasks next, Reachable 1000 ⟨answered, tasks⟩ ∧
      tasks 1 = .call (.respond "lobby" "nonce" arena) next ∧
      ∃ a ∈ answered.arenas, a.id = arena.id ∧ a.publicNonce = some "nonce" ∧
        ∃ s ∈ answered.versions, s.id = a.ownerId ∧ s.publicId = some "lobby" := by
  obtain ⟨tasks, next, h, htask⟩ := reachable_answered
  obtain ⟨hunique, hanswer, -, hterms⟩ := creation_bounded h
  refine ⟨hterms arena arena_mem, ?_, tasks, next, h, htask, hanswer 1 _ _ _ _ htask⟩
  intro b hb howner hnonce
  exact hunique b hb arena arena_mem "nonce" howner hnonce rfl

end QuakeJs.Games
