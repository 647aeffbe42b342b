import QuakeJs.Ledger.Admissions
import QuakeJs.Ledger.Fencing
import QuakeJs.Ledger.Runs
import QuakeJs.Server.Journal

/-!
# The ledger and the journals

`Books` is what the ledger and the journals of the engines have to do with each
other: the sequence of a run counts the lines that were applied, and the lives
of the run that are dead are the victims of these lines.  It is kept by every
transaction whose arguments come from where they should (`Fits`), and by
whatever the engines append.
-/

namespace QuakeJs.Server

open Engine Ledger

/-! ## Numbered lines -/

/-- The lines of every journal are numbered from 1 on. -/
def Numbered (lines : List Line) : Prop :=
  lines.map Line.sequence = List.range' 1 lines.length

theorem Numbered.at {lines : List Line} (h : Numbered lines) {k : Nat} (hk : k < lines.length) :
    lines[k].sequence = k + 1 := by
  have hget : (lines.map Line.sequence)[k]? = (List.range' 1 lines.length)[k]? := by rw [h]
  simp [hk] at hget
  omega

/-- A line stands where its number says. -/
theorem Numbered.mem_take {lines : List Line} (h : Numbered lines) {line : Line} {n : Nat} :
    line ∈ lines.take n ↔ line ∈ lines ∧ line.sequence ≤ n := by
  rw [List.mem_take_iff_getElem, List.mem_iff_getElem]
  constructor
  · rintro ⟨k, hk, rfl⟩
    have hlength : k < lines.length := by omega
    have hat := h.at hlength
    exact ⟨⟨k, hlength, rfl⟩, by omega⟩
  · rintro ⟨⟨k, hk, rfl⟩, hle⟩
    have hat := h.at hk
    exact ⟨k, by omega, rfl⟩

theorem Numbered.le_length {lines : List Line} (h : Numbered lines) {line : Line}
    (hmem : line ∈ lines) : 1 ≤ line.sequence ∧ line.sequence ≤ lines.length := by
  obtain ⟨k, hk, rfl⟩ := List.mem_iff_getElem.mp hmem
  have hat := h.at hk
  omega

theorem Numbered.inj {lines : List Line} (h : Numbered lines) {line line' : Line}
    (hmem : line ∈ lines) (hmem' : line' ∈ lines) (hsame : line.sequence = line'.sequence) :
    line = line' := by
  obtain ⟨k, hk, rfl⟩ := List.mem_iff_getElem.mp hmem
  obtain ⟨k', hk', rfl⟩ := List.mem_iff_getElem.mp hmem'
  have hat := h.at hk
  have hat' := h.at hk'
  have heq : k = k' := by omega
  subst heq
  rfl

/-! ## What has been applied -/

/-- The lines of a journal that the ledger has applied. -/
def applied (journal : Uid → List Line) (σ : Ledger) (run : Uid) : List Line :=
  match σ.runs.get? run with
  | none => []
  | some r => (journal run).take r.eventSequence.toNat

variable {journal journal' : Uid → List Line} {env : Env} {a : Action} {σ σ' : Ledger} {run : Uid}

theorem applied_of_mem {r : Run} (h : r ∈ σ.runs) :
    applied journal σ r.id = (journal r.id).take r.eventSequence.toNat := by
  have hget : σ.runs.get? r.id = some r := Table.get?_key h
  simp only [applied, hget]

/-- Runs that have got further, or not, in a ledger. -/
def Further (σ σ' : Ledger) : Prop :=
  ∀ r ∈ σ.runs, ∃ r' ∈ σ'.runs, r'.id = r.id ∧ r'.arenaId = r.arenaId ∧
    r.eventSequence ≤ r'.eventSequence

theorem Further.refl (σ : Ledger) : Further σ σ := fun r hr => ⟨r, hr, rfl, rfl, Int.le_refl _⟩

theorem Further.trans {σ₁ σ₂ σ₃ : Ledger} (h : Further σ₁ σ₂) (h' : Further σ₂ σ₃) :
    Further σ₁ σ₃ := by
  intro r hr
  obtain ⟨r', hr', hid, harena, hle⟩ := h r hr
  obtain ⟨r'', hr'', hid', harena', hle'⟩ := h' r' hr'
  exact ⟨r'', hr'', hid'.trans hid, harena'.trans harena, hle.trans hle'⟩

theorem Further.of_perform (hrun : perform env a σ = .ok σ') : Further σ σ' := by
  intro r hr
  obtain ⟨r', hr', hid, hturn⟩ := (perform_runs hrun).old r hr
  exact ⟨r', hr', hid, hturn.kept.1, hturn.kept.2.1⟩

/-- What has been applied stays applied. -/
theorem Further.applied (h : Further σ σ') (journal : Uid → List Line) (run : Uid) :
    applied journal σ run <+: applied journal σ' run := by
  cases hget : σ.runs.get? run with
  | none =>
    simp only [Server.applied, hget]
    exact List.nil_prefix
  | some r =>
    obtain ⟨hr, rfl⟩ := Table.get?_eq_some.mp hget
    obtain ⟨r', hr', hid, -, hle⟩ := h r hr
    have hid : r'.id = r.id := hid
    show Server.applied journal σ r.id <+: Server.applied journal σ' r.id
    rw [applied_of_mem hr, ← hid, applied_of_mem hr']
    exact List.take_prefix_take_left (by omega)

/-! ## The invariant -/

/-- The ledger against the journals. -/
structure Books (journal : Uid → List Line) (σ : Ledger) : Prop where
  named : ∀ r ∈ σ.runs, r.id ≠ ""
  counted : ∀ r ∈ σ.runs, 0 ≤ r.eventSequence ∧ r.eventSequence ≤ (journal r.id).length
  /-- Who is dead was killed in a line that was applied. -/
  died : ∀ l ∈ σ.lives, l.status = .dead →
    ∃ line ∈ applied journal σ l.runId, line.victim = l.id ∧ line.killer = l.killerId
  /-- The victim of a line that was applied is dead. -/
  ended : ∀ r ∈ σ.runs, ∀ line ∈ applied journal σ r.id,
    ∃ l ∈ σ.lives, l.id = line.victim ∧ l.runId = r.id ∧ l.status = .dead
  paid : ∀ p ∈ σ.payouts, ∃ l ∈ σ.lives, l.status = .dead ∧
    l.id = p.victimId ∧ l.killerId = p.killerId
  home : ∀ l ∈ σ.lives, ∃ r ∈ σ.runs, r.id = l.runId ∧ r.arenaId = l.arenaId
  leased : ∀ r ∈ σ.runs, ∀ b ∈ σ.arenas, b.runId = r.id → r.arenaId = b.id
  /-- The run that an arena names is the only one of the arena that goes on. -/
  lone : ∀ b ∈ σ.arenas, ∀ r ∈ σ.runs, b.runId = r.id →
    ∀ s ∈ σ.runs, s.arenaId = b.id → s.status = .running → s = r

theorem Books.empty (journal : Uid → List Line) : Books journal Ledger.empty where
  named := fun _ h => absurd h (Table.not_mem_empty _)
  counted := fun _ h => absurd h (Table.not_mem_empty _)
  died := fun _ h => absurd h (Table.not_mem_empty _)
  ended := fun _ h => absurd h (Table.not_mem_empty _)
  paid := fun _ h => absurd h (Table.not_mem_empty _)
  home := fun _ h => absurd h (Table.not_mem_empty _)
  leased := fun _ h => absurd h (Table.not_mem_empty _)
  lone := fun _ h => absurd h (Table.not_mem_empty _)

/-- The arguments of a transaction come from a line of the journal, from a run,
or from a lease. -/
def Fits (journal : Uid → List Line) (σ : Ledger) : Action → Prop
  | .consumeDeath runId sequence victimId killerId => ∃ line ∈ journal runId,
      (line.sequence : Int) = sequence ∧ line.victim = victimId ∧ line.killer = killerId
  | .allocateLife _ _ runId => ∃ r ∈ σ.runs, r.id = runId
  | .insertRun runId arenaId _ => runId ≠ "" ∧
      (∃ b ∈ σ.arenas, b.id = arenaId ∧ b.runId = runId) ∧
      ∀ r ∈ σ.runs, r.arenaId = arenaId → r.status ≠ .running
  | _ => True

/-- What the engines append was not applied yet. -/
theorem Books.appended (h : Books journal σ)
    (hmore : ∀ run, journal run <+: journal' run) : Books journal' σ := by
  have hsame : ∀ r ∈ σ.runs, applied journal' σ r.id = applied journal σ r.id := by
    intro r hr
    have hcounted := (h.counted r hr).2
    obtain ⟨lines, hlines⟩ := hmore r.id
    rw [applied_of_mem hr, applied_of_mem hr, ← hlines]
    exact List.take_append_of_le_length (by omega)
  have hlife : ∀ l ∈ σ.lives, applied journal' σ l.runId = applied journal σ l.runId := by
    intro l hl
    obtain ⟨r, hr, hid, -⟩ := h.home l hl
    rw [← hid]
    exact hsame r hr
  refine ⟨h.named, ?_, ?_, ?_, h.paid, h.home, h.leased, h.lone⟩
  · intro r hr
    have hlength := (hmore r.id).length_le
    have hcounted := h.counted r hr
    omega
  · intro l hl hdead
    rw [hlife l hl]
    exact h.died l hl hdead
  · intro r hr
    rw [hsame r hr]
    exact h.ended r hr

namespace Books

theorem counted_step (h : Books journal σ) (hnumbered : ∀ run, Numbered (journal run))
    (hfits : Fits journal σ a) (hrun : perform env a σ = .ok σ') :
    ∀ r ∈ σ'.runs, 0 ≤ r.eventSequence ∧ r.eventSequence ≤ (journal r.id).length := by
  intro r' hr'
  rcases (perform_runs hrun).new r' hr' with ⟨r, hr, -, hturn⟩ | hnew
  · have hcounted := h.counted r hr
    cases hturn with
    | same => exact hcounted
    | advanced victim killerId call mem here =>
      subst call
      obtain ⟨line, hline, hsequence, -⟩ := hfits
      have hle := ((hnumbered r.id).le_length hline).2
      show 0 ≤ r.eventSequence + 1 ∧ r.eventSequence + 1 ≤ (journal r.id).length
      omega
    | ended status halted call => exact hcounted
  · rw [hnew.sequence]
    omega

theorem died_step (h : Books journal σ) (hnumbered : ∀ run, Numbered (journal run))
    (hfits : Fits journal σ a) (hrun : perform env a σ = .ok σ') :
    ∀ l ∈ σ'.lives, l.status = .dead →
      ∃ line ∈ applied journal σ' l.runId, line.victim = l.id ∧ line.killer = l.killerId := by
  intro l' hl' hdead
  rcases (perform_lifeTurns hrun).new l' hl' with ⟨l, hl, -, hturn⟩ | hnew
  · cases hturn with
    | same =>
      obtain ⟨line, hline, hnames⟩ := h.died l' hl hdead
      exact ⟨line, ((Further.of_perform hrun).applied journal l'.runId).subset hline, hnames⟩
    | killed sequence killerId call undead =>
      subst call
      obtain ⟨line, hline, hsequence, hvictim, hkiller⟩ := hfits
      obtain ⟨arenaId, hrun⟩ := map_snd_ok hrun
      obtain ⟨r, hr, hid, hreaches⟩ := consumeDeath_reaches hrun
      refine ⟨line, ?_, hvictim, hkiller⟩
      show line ∈ applied journal σ' l.runId
      rw [← hid, applied_of_mem hr, (hnumbered r.id).mem_take, hid]
      exact ⟨hline, by omega⟩
    | refunded _ _ _ _ => cases hdead
    | resumed _ _ _ _ _ _ _ => cases hdead
    | orphaned _ _ => cases hdead
    | heard _ _ _ _ _ _ alive =>
      have halive : l.status = .dead := hdead
      simp [halive] at alive
  · simp [hnew.alive] at hdead

theorem ended_step (h : Books journal σ) (hnumbered : ∀ run, Numbered (journal run))
    (hfits : Fits journal σ a) (hrun : perform env a σ = .ok σ') :
    ∀ r ∈ σ'.runs, ∀ line ∈ applied journal σ' r.id,
      ∃ l ∈ σ'.lives, l.id = line.victim ∧ l.runId = r.id ∧ l.status = .dead := by
  intro r' hr' line hline
  have hold : ∀ r ∈ σ.runs, line ∈ applied journal σ r.id →
      ∃ l ∈ σ'.lives, l.id = line.victim ∧ l.runId = r.id ∧ l.status = .dead := by
    intro r hr hline
    obtain ⟨l, hl, hvictim, hhere, hdead⟩ := h.ended r hr line hline
    exact ⟨l, dead_stays hrun hl hdead, hvictim, hhere, hdead⟩
  rw [applied_of_mem hr'] at hline
  rcases (perform_runs hrun).new r' hr' with ⟨r, hr, hid, hturn⟩ | hnew
  · cases hturn with
    | same => exact hold r' hr (by rwa [applied_of_mem hr])
    | advanced victim killerId call mem here =>
      subst call
      have hcounted := h.counted r hr
      obtain ⟨hmem, hle⟩ := ((hnumbered r.id).mem_take).mp hline
      have hle : line.sequence ≤ (r.eventSequence + 1).toNat := hle
      by_cases hnext : line.sequence ≤ r.eventSequence.toNat
      · exact hold r hr (by rw [applied_of_mem hr,
          (hnumbered r.id).mem_take]; exact ⟨hmem, hnext⟩)
      · obtain ⟨line', hline', hsequence, hvictim, -⟩ := hfits
        have hsame : line = line' := (hnumbered r.id).inj hmem hline' (by omega)
        obtain ⟨arenaId, hrun⟩ := map_snd_ok hrun
        have hlast : ∀ s ∈ σ.runs, s.id = r.id → s.eventSequence < r.eventSequence + 1 := by
          intro s hs hsid
          rw [Table.mem_inj hs hr hsid]
          omega
        rw [hsame, hvictim]
        exact consumeDeath_ends hrun hlast
    | ended status halted call => exact hold r hr (by rw [applied_of_mem hr]; exact hline)
  · rw [hnew.sequence] at hline
    simp at hline

theorem paid_step (h : Books journal σ) (hrun : perform env a σ = .ok σ') :
    ∀ p ∈ σ'.payouts, ∃ l ∈ σ'.lives, l.status = .dead ∧ l.id = p.victimId ∧
      l.killerId = p.killerId := by
  intro p' hp'
  rcases (perform_outboxes hrun .payouts).new p' hp' with ⟨p, hp, -, hterms⟩ | hnew
  · obtain ⟨l, hl, hdead, hvictim, hkiller⟩ := h.paid p hp
    have hnames : p'.victimId = p.victimId ∧ p'.killerId = p.killerId :=
      ⟨congrArg PayoutTerms.victimId hterms, congrArg PayoutTerms.killerId hterms⟩
    exact ⟨l, dead_stays hrun hl hdead, hdead, hvictim.trans hnames.1.symm,
      hkiller.trans hnames.2.symm⟩
  · by_cases hold : p' ∈ σ.payouts
    · obtain ⟨l, hl, hdead, hnames⟩ := h.paid p' hold
      exact ⟨l, dead_stays hrun hl hdead, hdead, hnames⟩
    · cases hnew with
      | refund outbox _ _ _ _ _ => exact absurd rfl outbox
      | death _ victim mem names alive dead =>
        obtain ⟨l, hl, hid, hturn⟩ := (perform_lifeTurns hrun).old victim mem
        have hdead := dead l hl hid
        cases hturn with
        | same => exact absurd hdead alive
        | killed sequence killerId call undead =>
          subst call
          obtain ⟨arenaId, hrun⟩ := map_snd_ok hrun
          obtain ⟨hvictim, hkiller, l, hl, hlid, hldead, hlkiller⟩ :=
            consumeDeath_names hrun hp' hold
          exact ⟨l, hl, hldead, hlid.trans hvictim.symm, hlkiller.trans hkiller.symm⟩
        | refunded _ _ _ _ => cases hdead
        | resumed _ _ _ _ _ _ _ => cases hdead
        | orphaned _ _ => cases hdead
        | heard _ _ _ _ _ _ _ => exact absurd hdead alive

theorem home_step (h : Books journal σ) (hacc : Accounts σ) (hex : Exclusive σ.lives)
    (hfits : Fits journal σ a) (hrun : perform env a σ = .ok σ') :
    ∀ l ∈ σ'.lives, ∃ r ∈ σ'.runs, r.id = l.runId ∧ r.arenaId = l.arenaId := by
  have hstays : ∀ l : Life, (∃ r ∈ σ.runs, r.id = l.runId ∧ r.arenaId = l.arenaId) →
      ∃ r ∈ σ'.runs, r.id = l.runId ∧ r.arenaId = l.arenaId := by
    rintro l ⟨r, hr, hid, harena⟩
    obtain ⟨r', hr', hid', harena', -⟩ := Further.of_perform hrun r hr
    exact ⟨r', hr', hid'.trans hid, harena'.trans harena⟩
  have hadmitted : ∀ arenaId token runId, a = .allocateLife arenaId token runId →
      ∀ l ∈ σ'.lives, ∃ r ∈ σ.runs, r.id = l.runId ∧ r.arenaId = l.arenaId := by
    rintro arenaId token runId rfl l' hl'
    obtain ⟨r, hr, hid⟩ := hfits
    obtain ⟨life, hrun⟩ := map_snd_ok hrun
    obtain ⟨-, harena, hhere, -⟩ := allocateLife_life hacc hrun
    rcases allocateLife_admits hex hrun with hsame | ⟨hlives, -⟩
    · exact h.home l' (hsame ▸ hl')
    · rcases hlives l' hl' with rfl | ⟨hold, -⟩
      · obtain ⟨row, hrow, -, hrowRun, -⟩ := allocateLife_ok hrun
        obtain ⟨hmem, hrowId⟩ := Table.get?_eq_some.mp hrow
        have hleased := h.leased r hr row hmem (hrowRun.trans hid.symm)
        exact ⟨r, hr, hid.trans hhere.symm, (hleased.trans hrowId).trans harena.symm⟩
      · exact h.home l' hold
  intro l' hl'
  rcases (perform_lifeTurns hrun).new l' hl' with ⟨l, hl, -, hturn⟩ | hnew
  · cases hturn with
    | same => exact hstays l' (h.home l' hl)
    | killed _ killerId _ _ => exact hstays (killed env killerId l) (h.home l hl)
    | refunded _ _ _ _ => exact hstays (refunded env l) (h.home l hl)
    | resumed arenaId token runId slot call _ _ =>
      exact hstays (resumed env runId slot l) (hadmitted arenaId token runId call _ hl')
    | orphaned _ _ => exact hstays (orphaned l) (h.home l hl)
    | heard _ _ _ _ _ _ _ => exact hstays (heard env l) (h.home l hl)
  · obtain ⟨token, hcall⟩ := hnew.call
    exact hstays l' (hadmitted _ _ _ hcall l' hl')

theorem leased_step (h : Books journal σ) (hone : OneArena σ) (hfresh : env.Fresh σ)
    (hfits : Fits journal σ a) (hrun : perform env a σ = .ok σ') :
    (∀ r ∈ σ'.runs, r.id ≠ "") ∧
      ∀ r ∈ σ'.runs, ∀ b ∈ σ'.arenas, b.runId = r.id → r.arenaId = b.id := by
  have hnew : ∀ r, NewRun a r → r.id ≠ "" ∧ ∃ b ∈ σ.arenas,
    b.id = r.arenaId ∧ b.runId = r.id := by
    rintro r ⟨rfl, -⟩
    exact ⟨hfits.1, hfits.2.1⟩
  have hnamed : ∀ r ∈ σ'.runs, r.id ≠ "" := by
    intro r' hr'
    rcases (perform_runs hrun).new r' hr' with ⟨r, hr, hid, -⟩ | hinserted
    · exact fun hempty => h.named r hr (hid.symm.trans hempty)
    · exact (hnew r' hinserted).1
  refine ⟨hnamed, ?_⟩
  intro r' hr' b' hb' hnames
  rcases (perform_moves hrun).new b' hb' with ⟨b, hb, hbid, hmove⟩ | hinserted
  · have hbid : b'.id = b.id := hbid
    rcases (perform_runs hrun).new r' hr' with ⟨r, hr, hid, hturn⟩ | hrow
    · have hid : r'.id = r.id := hid
      rcases hmove.run with hsame | ⟨hleased, -⟩
      · rw [hturn.kept.1, hbid]
        exact h.leased r hr b hb (by rw [← hsame, hnames, hid])
      · have hgone : r.id ≠ env.uid 0 := Table.get?_eq_none.mp (hfresh.runs 0) r hr
        exact absurd (by rw [← hleased, hnames, hid]) hgone
    · obtain ⟨hne, b₀, hb₀, hid₀, hrun₀⟩ := hnew r' hrow
      rcases hmove.run with hsame | ⟨-, -, worker, hcall⟩
      · have heq : b = b₀ := by
          refine hone b hb b₀ hb₀ ?_ ?_
          · rw [← hsame, hnames]
            exact hne
          · rw [← hsame, hnames, hrun₀]
        rw [hbid, heq, hid₀]
      · have hinsert := hrow.call
        rw [hcall] at hinsert
        cases hinsert
  · rw [hinserted.run] at hnames
    exact absurd hnames.symm (hnamed r' hr')

theorem lone_step (h : Books journal σ) (hone : OneArena σ) (hfresh : env.Fresh σ)
    (hfits : Fits journal σ a) (hrun : perform env a σ = .ok σ') :
    ∀ b ∈ σ'.arenas, ∀ r ∈ σ'.runs, b.runId = r.id →
      ∀ s ∈ σ'.runs, s.arenaId = b.id → s.status = .running → s = r := by
  intro b' hb' r' hr' hnames s' hs' harena hgoes
  have hnamed := (h.leased_step hone hfresh hfits hrun).1 r' hr'
  have hinsert : ∀ q, NewRun a q → (∃ b ∈ σ.arenas, b.id = q.arenaId ∧ b.runId = q.id) ∧
      ∀ r ∈ σ.runs, r.arenaId = q.arenaId → r.status ≠ .running := by
    rintro q ⟨rfl, -⟩
    exact hfits.2
  rcases (perform_moves hrun).new b' hb' with ⟨b, hb, hbid, hmove⟩ | hnew
  · have hbid : b'.id = b.id := hbid
    rcases hmove.run with hsame | ⟨hleased, -, worker, hcall⟩
    · rcases (perform_runs hrun).new r' hr' with ⟨r, hr, hid, hturn⟩ | hrow
      · rcases (perform_runs hrun).new s' hs' with ⟨s, hs, hsid, hsturn⟩ | hsrow
        · have hold : s = r := h.lone b hb r hr (by rw [← hsame, hnames]; exact hid) s hs
            (by rw [← hsturn.kept.1, harena, hbid]) (hsturn.kept.2.2 hgoes)
          exact Table.mem_inj hs' hr' (hsid.trans ((congrArg Run.id hold).trans hid.symm))
        · obtain ⟨b₀, hb₀, hid₀, hrun₀⟩ := (hinsert s' hsrow).1
          have heq : b₀ = b := Table.mem_inj hb₀ hb (hid₀.trans (harena.trans hbid))
          refine Table.mem_inj hs' hr' ?_
          show s'.id = r'.id
          rw [← hrun₀, heq, ← hsame, hnames]
      · obtain ⟨⟨b₀, hb₀, hid₀, hrun₀⟩, halone⟩ := hinsert r' hrow
        have heq : b = b₀ := by
          refine hone b hb b₀ hb₀ ?_ ?_
          · rw [← hsame, hnames]
            exact hnamed
          · rw [← hsame, hnames, hrun₀]
        rcases (perform_runs hrun).new s' hs' with ⟨s, hs, -, hsturn⟩ | hsrow
        · have hhere : s.arenaId = r'.arenaId := by
            rw [← hsturn.kept.1, harena, hbid, heq, hid₀]
          exact absurd (hsturn.kept.2.2 hgoes) (halone s hs hhere)
        · have hcalls := hrow.call.symm.trans hsrow.call
          simp only [Action.insertRun.injEq] at hcalls
          exact Table.mem_inj hs' hr' hcalls.1.symm
    · rcases (perform_runs hrun).new r' hr' with ⟨r, hr, hid, -⟩ | hrow
      · have hgone : r.id ≠ env.uid 0 := Table.get?_eq_none.mp (hfresh.runs 0) r hr
        have hid : r'.id = r.id := hid
        exact absurd (by rw [← hleased, hnames, hid]) hgone
      · have hinsert := hrow.call
        rw [hcall] at hinsert
        cases hinsert
  · rw [hnew.run] at hnames
    exact absurd hnames.symm hnamed

/-- Every transaction that fits keeps the books. -/
theorem step (h : Books journal σ) (hnumbered : ∀ run, Numbered (journal run))
    (hreach : QuakeJs.Reachable Env.Fresh σ) (hfresh : env.Fresh σ) (hfits : Fits journal σ a)
    (hrun : perform env a σ = .ok σ') : Books journal σ' := by
  have hone := OneArena.of_reachable hreach
  obtain ⟨hnamed, hleased⟩ := h.leased_step hone hfresh hfits hrun
  exact ⟨hnamed, h.counted_step hnumbered hfits hrun, h.died_step hnumbered hfits hrun,
    h.ended_step hnumbered hfits hrun, h.paid_step hrun,
    h.home_step (Accounts.of_reachable hreach)
      (Exclusive.of_reachable hreach) hfits hrun, hleased,
    h.lone_step hone hfresh hfits hrun⟩

end Books

end QuakeJs.Server
