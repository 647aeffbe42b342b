import Mathlib.Data.Finset.Card
import Mathlib.Data.List.Sort

/-!
# Keyset pagination

A reader walks through a changing set of rows in pages.  It keeps a cursor,
the key of the last row it has taken, and asks for the next rows in the order
of their keys.  An empty page puts the cursor back to the start.

* `page` and `advance`: a query, and the cursor after it.
* `Turn` and `Run`: any number of queries, of which some fail.  The rows may
  be others at every query.
* `Run.taken_once`: between two resets, a row that is always there is taken
  once.
* `Run.turns_le`: how many pages there are without a reset.
-/

namespace QuakeJs.Keyset

variable {ρ ι : Type} [LinearOrder ι] {key : ρ → ι} {n : Nat} {rows : List ρ} {cursor start : ι}

/-- `SELECT ... WHERE key > cursor ORDER BY key LIMIT n`. -/
def page (key : ρ → ι) (n : Nat) (rows : List ρ) (cursor : ι) : List ρ :=
  ((rows.filter fun row => decide (cursor < key row)).mergeSort
    fun row row' => decide (key row ≤ key row')).take n

/-- The cursor after a page. -/
def advance (key : ρ → ι) (start : ι) (page : List ρ) : ι := (page.getLast?.map key).getD start

/-! ## One page -/

theorem mem_page {row : ρ} (h : row ∈ page key n rows cursor) :
    row ∈ rows ∧ cursor < key row := by
  have hmem := List.mem_of_mem_take h
  rw [List.mem_mergeSort] at hmem
  simpa using hmem

theorem sorted_page (key : ρ → ι) (n : Nat) (rows : List ρ) (cursor : ι) :
    (page key n rows cursor).Pairwise fun row row' => key row ≤ key row' := by
  have hsorted : ((rows.filter fun row => decide (cursor < key row)).mergeSort
      fun row row' => decide (key row ≤ key row')).Pairwise
        fun row row' => decide (key row ≤ key row') = true :=
    List.pairwise_mergeSort (fun a b c => by simpa using le_trans)
      (fun a b => by simpa using le_total (key a) (key b)) _
  refine (hsorted.sublist (List.take_sublist n _)).imp ?_
  simp

theorem nodup_page (h : (rows.map key).Nodup) : ((page key n rows cursor).map key).Nodup := by
  have hperm := List.mergeSort_perm (rows.filter fun row => decide (cursor < key row))
    fun row row' => decide (key row ≤ key row')
  have hfilter : ((rows.filter fun row => decide (cursor < key row)).map key).Nodup :=
    h.sublist (List.filter_sublist.map key)
  exact ((hperm.map key).nodup_iff.mpr hfilter).sublist ((List.take_sublist n _).map key)

/-- A row that is not on the page is behind it, and the page is full. -/
theorem page_of_not_mem {row : ρ} (hrow : row ∈ rows) (hcursor : cursor < key row)
    (h : row ∉ page key n rows cursor) :
    (page key n rows cursor).length = n ∧ ∀ taken ∈ page key n rows cursor,
      key taken ≤ key row := by
  unfold page at h ⊢
  generalize hl : (rows.filter fun row => decide (cursor < key row)).mergeSort
    (fun row row' => decide (key row ≤ key row')) = l at h ⊢
  have hmem : row ∈ l := by
    rw [← hl, List.mem_mergeSort]
    simpa using ⟨hrow, hcursor⟩
  have hdrop : row ∈ l.drop n := by
    rw [← List.take_append_drop n l, List.mem_append] at hmem
    exact hmem.resolve_left h
  have hlength := List.length_pos_of_mem hdrop
  rw [List.length_drop] at hlength
  have hsorted := sorted_page key l.length rows cursor
  unfold page at hsorted
  rw [hl, List.take_length, ← List.take_append_drop n l, List.pairwise_append] at hsorted
  refine ⟨by rw [List.length_take]; omega, fun taken htaken => hsorted.2.2 taken htaken row hdrop⟩

/-- No row of a page is behind the cursor that follows it. -/
theorem le_advance {l : List ρ} (h : l.Pairwise fun row row' => key row ≤ key row') {row : ρ}
    (hrow : row ∈ l) : key row ≤ advance key start l := by
  induction l using List.reverseRecOn with
  | nil => cases hrow
  | append_singleton l last _ =>
    rw [List.pairwise_append] at h
    have hlast : advance key start (l ++ [last]) = key last := by simp [advance]
    rw [hlast]
    cases List.mem_append.mp hrow with
    | inl hmem => exact h.2.2 row hmem last List.mem_cons_self
    | inr heq => rw [List.mem_singleton.mp heq]

omit [LinearOrder ι] in
theorem advance_mem {l : List ρ} (h : l ≠ []) : ∃ row ∈ l, advance key start l = key row := by
  refine ⟨l.getLast h, List.getLast_mem h, ?_⟩
  simp [advance, List.getLast?_eq_some_getLast h]

/-! ## Turns -/

/-- One query: the cursor it was made with, and the rows that it looked
through, or `none` when it failed. -/
structure Turn (ρ ι : Type) where
  cursor : ι
  rows? : Option (List ρ)

/-- What a turn takes. -/
def Turn.taken (key : ρ → ι) (n : Nat) (turn : Turn ρ ι) : List ρ :=
  match turn.rows? with
  | none => []
  | some rows => page key n rows turn.cursor

/-- The cursor after a turn. -/
def Turn.next (key : ρ → ι) (n : Nat) (start : ι) (turn : Turn ρ ι) : ι :=
  match turn.rows? with
  | none => turn.cursor
  | some rows => advance key start (page key n rows turn.cursor)

/-- The page is empty. -/
def Turn.Resets (key : ρ → ι) (n : Nat) (turn : Turn ρ ι) : Prop :=
  ∃ rows, turn.rows? = some rows ∧ page key n rows turn.cursor = []

/-- The turns that lead from one cursor to another. -/
inductive Run (key : ρ → ι) (n : Nat) (start : ι) : ι → List (Turn ρ ι) → ι → Prop
  | nil (cursor : ι) : Run key n start cursor [] cursor
  | cons {turn : Turn ρ ι} {turns : List (Turn ρ ι)} {last : ι}
      (rest : Run key n start (turn.next key n start) turns last) :
      Run key n start turn.cursor (turn :: turns) last

section

variable {turn : Turn ρ ι}

/-- A full page moves the cursor to one of its rows. -/
theorem Turn.next_mem (start : ι) (hrows : turn.rows? = some rows) (hnever : ¬turn.Resets key n) :
    ∃ row ∈ page key n rows turn.cursor, turn.next key n start = key row := by
  have hpage : page key n rows turn.cursor ≠ [] := fun h => hnever ⟨rows, hrows, h⟩
  unfold Turn.next
  rw [hrows]
  exact advance_mem hpage

theorem Turn.le_next (hnever : ¬turn.Resets key n) : turn.cursor ≤ turn.next key n start := by
  cases hrows : turn.rows? with
  | none =>
    unfold Turn.next
    rw [hrows]
  | some rows =>
    obtain ⟨row, hrow, hnext⟩ := Turn.next_mem start hrows hnever
    rw [hnext]
    exact (mem_page hrow).2.le

/-- A turn takes the row of a key exactly when it moves the cursor over it. -/
theorem Turn.count_taken (start : ι) {k : ι}
    (hkeys : ∀ rows, turn.rows? = some rows → (rows.map key).Nodup)
    (hstays : ∀ rows, turn.rows? = some rows → k ∈ rows.map key)
    (hnever : ¬turn.Resets key n) :
    ((turn.taken key n).map key).count k =
      if turn.cursor < k ∧ k ≤ turn.next key n start then 1 else 0 := by
  cases hrows : turn.rows? with
  | none =>
    unfold Turn.taken Turn.next
    rw [hrows, if_neg fun h => absurd (h.1.trans_le h.2) (lt_irrefl _)]
    rfl
  | some rows =>
    obtain ⟨last, hlast, hnext⟩ := Turn.next_mem start hrows hnever
    have htaken : turn.taken key n = page key n rows turn.cursor := by
      unfold Turn.taken
      rw [hrows]
    have hadvance : turn.next key n start = advance key start (page key n rows turn.cursor) := by
      unfold Turn.next
      rw [hrows]
    rw [htaken]
    by_cases hin : k ∈ (page key n rows turn.cursor).map key
    · obtain ⟨row, hrow, rfl⟩ := List.mem_map.mp hin
      have hle : key row ≤ turn.next key n start := by
        rw [hadvance]
        exact le_advance (sorted_page key n rows turn.cursor) hrow
      rw [if_pos ⟨(mem_page hrow).2, hle⟩]
      exact List.count_eq_one_of_mem (nodup_page (hkeys rows hrows)) hin
    · rw [if_neg, List.count_eq_zero_of_not_mem hin]
      rintro ⟨hcursor, hle⟩
      obtain ⟨row, hrow, rfl⟩ := List.mem_map.mp (hstays rows hrows)
      have hbehind := page_of_not_mem hrow hcursor fun h => hin (List.mem_map_of_mem h)
      rw [hnext] at hle
      have heq : key last = key row := le_antisymm (hbehind.2 last hlast) hle
      exact hin (heq ▸ List.mem_map_of_mem hlast)

end

/-! ## Any number of turns -/

section

variable {turns : List (Turn ρ ι)} {last : ι}

theorem Run.le (h : Run key n start cursor turns last)
    (hnever : ∀ turn ∈ turns, ¬turn.Resets key n) : cursor ≤ last := by
  induction h with
  | nil => exact le_rfl
  | cons _ ih =>
    exact (Turn.le_next (hnever _ List.mem_cons_self)).trans
      (ih fun turn hturn => hnever turn (List.mem_cons_of_mem _ hturn))

/-- Without a reset, the rows that are always there and that the cursor has
moved over are taken, and no others of them. -/
theorem Run.count_taken {k : ι} (h : Run key n start cursor turns last)
    (hkeys : ∀ turn ∈ turns, ∀ rows, turn.rows? = some rows → (rows.map key).Nodup)
    (hstays : ∀ turn ∈ turns, ∀ rows, turn.rows? = some rows → k ∈ rows.map key)
    (hnever : ∀ turn ∈ turns, ¬turn.Resets key n) :
    ((turns.flatMap (Turn.taken key n)).map key).count k =
      if cursor < k ∧ k ≤ last then 1 else 0 := by
  induction h with
  | nil cursor =>
    rw [if_neg fun h => absurd (h.1.trans_le h.2) (lt_irrefl _)]
    rfl
  | @cons turn turns last hrest ih =>
    have hlater : ∀ turn' ∈ turns, turn' ∈ turn :: turns := fun _ => List.mem_cons_of_mem turn
    have hfirst := Turn.count_taken start (hkeys turn List.mem_cons_self)
      (hstays turn List.mem_cons_self) (hnever turn List.mem_cons_self)
    have hothers := ih (fun t ht => hkeys t (hlater t ht)) (fun t ht => hstays t (hlater t ht))
      fun t ht => hnever t (hlater t ht)
    have hnext : turn.cursor ≤ turn.next key n start :=
      Turn.le_next (hnever turn List.mem_cons_self)
    have hlast : turn.next key n start ≤ last := hrest.le fun t ht => hnever t (hlater t ht)
    rw [List.flatMap_cons, List.map_append, List.count_append, hfirst, hothers]
    by_cases hk : k ≤ turn.next key n start
    · have hover : ¬(turn.next key n start < k ∧ k ≤ last) := fun h => absurd h.1 (not_lt.mpr hk)
      rw [if_neg hover, Nat.add_zero]
      exact if_congr (and_congr_right fun _ => ⟨fun _ => hk.trans hlast, fun _ => hk⟩) rfl rfl
    · have hlt := not_le.mp hk
      have hahead : ¬(turn.cursor < k ∧ k ≤ turn.next key n start) := fun h => hk h.2
      rw [if_neg hahead, Nat.zero_add]
      exact if_congr (and_congr_left fun _ => ⟨fun _ => hnext.trans_lt hlt, fun _ => hlt⟩) rfl rfl

/-- A row that is there from one reset to the next is taken once in between. -/
theorem Run.taken_once {k : ι} {reset : Turn ρ ι} (h : Run key n start start turns reset.cursor)
    (hn : 0 < n)
    (hkeys : ∀ turn ∈ turns, ∀ rows, turn.rows? = some rows → (rows.map key).Nodup)
    (hstays : ∀ turn ∈ turns ++ [reset], ∀ rows, turn.rows? = some rows → k ∈ rows.map key)
    (hnever : ∀ turn ∈ turns, ¬turn.Resets key n) (hreset : reset.Resets key n)
    (hk : start < k) : ((turns.flatMap (Turn.taken key n)).map key).count k = 1 := by
  rw [h.count_taken hkeys (fun turn hturn => hstays turn (List.mem_append_left _ hturn)) hnever,
    if_pos]
  refine ⟨hk, le_of_not_gt fun hlt => ?_⟩
  obtain ⟨rows, hrows, hempty⟩ := hreset
  obtain ⟨row, hrow, rfl⟩ := List.mem_map.mp (hstays reset (by simp) rows hrows)
  have hfull := (page_of_not_mem hrow hlt (by rw [hempty]; exact List.not_mem_nil)).1
  rw [hempty, List.length_nil] at hfull
  omega

/-- When finitely many keys turn up ahead of the cursor, there are no more
pages than keys before the next reset. -/
theorem Run.turns_le (h : Run key n start cursor turns last)
    (hnever : ∀ turn ∈ turns, ¬turn.Resets key n) (S : Finset ι)
    (hS : ∀ turn ∈ turns, ∀ rows, turn.rows? = some rows →
      ∀ row ∈ rows, turn.cursor < key row → key row ∈ S) :
    turns.countP (fun turn => turn.rows?.isSome) ≤ (S.filter (cursor < ·)).card := by
  induction h with
  | nil => exact Nat.zero_le _
  | @cons turn turns last hrest ih =>
    have hle := ih (fun t ht => hnever t (List.mem_cons_of_mem turn ht))
      fun t ht => hS t (List.mem_cons_of_mem turn ht)
    cases hrows : turn.rows? with
    | none =>
      have hnext : turn.next key n start = turn.cursor := by
        unfold Turn.next
        rw [hrows]
      rw [hnext] at hle
      rw [List.countP_cons_of_neg (by simp [hrows])]
      exact hle
    | some rows =>
      obtain ⟨row, hrow, hnext⟩ := Turn.next_mem start hrows
        (hnever turn List.mem_cons_self)
      have hmem := mem_page hrow
      have hin := hS turn List.mem_cons_self rows hrows row hmem.1 hmem.2
      have hsmaller : S.filter (turn.next key n start < ·) ⊂ S.filter (turn.cursor < ·) := by
        rw [Finset.ssubset_iff_of_subset]
        · exact ⟨key row, by simpa using ⟨hin, hmem.2⟩, by simp [hnext]⟩
        · intro k hk
          simp only [Finset.mem_filter] at hk ⊢
          rw [hnext] at hk
          exact ⟨hk.1, hmem.2.trans hk.2⟩
      have hcard := Finset.card_lt_card hsmaller
      rw [List.countP_cons_of_pos (by simp [hrows])]
      omega

end

end QuakeJs.Keyset
