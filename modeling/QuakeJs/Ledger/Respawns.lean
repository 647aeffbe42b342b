import QuakeJs.Ledger.Listing
import QuakeJs.Ledger.Lives
import QuakeJs.Ledger.Shown

/-!
# Admissions that nobody asked for

The page sends an admission by itself while `public_state` sets `autoAdmit`.
The flag compares the newest life with the newest entry that holds lives, and
`allocate_life` takes the oldest one.  The two agree on a player who holds
the lives of one entry only.  `reserve_entry` sees to that at the time of the
reservation, and nothing does when two invoices are paid late.
-/

namespace QuakeJs

open Ledger

/-- The flag `autoAdmit` of `public_state`; it is not set in an answer without
a player. -/
def autoAdmitted (env : Env) (arenaId token : String) (σ : Ledger) : Bool :=
  match publicState env arenaId token σ with
  | .ok s => s.session.any fun session => session.player.any PlayerCard.autoAdmit
  | .error _ => false

/-- The step settles an entry of the player. -/
def Credits (playerId : Uid) (a : Action) (σ σ' : Ledger) : Prop :=
  (∃ payment, a = .settleEntry payment) ∧ ∃ e ∈ σ.entries, e.playerId = playerId
    ∧ e.status ≠ .paid ∧ ∃ e' ∈ σ'.entries, e'.id = e.id ∧ e'.status = .paid

/-- What has become of the last payment of a player. -/
inductive Stage | waiting | paid | admitted

/-- The runs, and what has become of the last payment of a player.  Every
environment meets `ok`, and `spare` holds whenever an entry of the player is
settled. -/
inductive Course (ok : Env → Ledger → Prop) (spare : Ledger → Prop) (playerId : Uid) :
    Stage → Ledger → Prop
  | start : Course ok spare playerId .waiting Ledger.empty
  | step {stage : Stage} {σ σ' : Ledger} (env : Env) (a : Action)
      (course : Course ok spare playerId stage σ) (meets : ok env σ)
      (run : perform env a σ = .ok σ') (quiet : ¬Credits playerId a σ σ') :
      Course ok spare playerId stage σ'
  | settle {stage : Stage} {σ σ' : Ledger} (env : Env) (a : Action)
      (course : Course ok spare playerId stage σ) (meets : ok env σ)
      (run : perform env a σ = .ok σ') (credits : Credits playerId a σ σ') (allowed : spare σ) :
      Course ok spare playerId .paid σ'
  | seat {σ σ' : Ledger} (env : Env) (arenaId token runId : Uid) (life : Life)
      (course : Course ok spare playerId .paid σ) (meets : ok env σ)
      (run : allocateLife env arenaId token runId σ = .ok (life, σ'))
      (mine : life.playerId = playerId) : Course ok spare playerId .admitted σ'

theorem perform_allocateLife {env : Env} {σ σ' : Ledger} {arenaId token runId : Uid} {life : Life}
    (h : allocateLife env arenaId token runId σ = .ok (life, σ')) :
    perform env (.allocateLife arenaId token runId) σ = .ok σ' := by
  show (allocateLife env arenaId token runId σ).map Prod.snd = .ok σ'
  rw [h]
  rfl

theorem Course.reachable {ok : Env → Ledger → Prop} {spare : Ledger → Prop} {playerId : Uid}
    {stage : Stage} {σ : Ledger} (h : Course ok spare playerId stage σ) : Reachable ok σ := by
  induction h with
  | start => exact .empty
  | step env a _ meets run _ ih => exact .step env a ih meets run
  | settle env a _ meets run _ _ ih => exact .step env a ih meets run
  | seat env arenaId token runId life _ meets run _ ih =>
    exact .step env (.allocateLife arenaId token runId) ih meets (perform_allocateLife run)

section

variable {env : Env} {a : Action} {σ σ' : Ledger} {playerId : Uid}

/-! ## One entry with lives -/

/-- The player holds the lives of one entry at most. -/
def OneFunded (playerId : Uid) (σ : Ledger) : Prop :=
  ∀ e ∈ σ.entries, ∀ f ∈ σ.entries, e.Holds playerId → f.Holds playerId → e = f

/-- Lives come from a settlement only. -/
theorem Ledger.EntryTurns.holds {e e' : Entry} (h : EntryTurns env a σ e e')
    (hh : e'.Holds playerId) :
    e.Holds playerId ∨ e.status ≠ .paid ∧ e.playerId = playerId
      ∧ ∃ payment, a = .settleEntry payment ∧ payment.quakejsEntry = some e.id := by
  cases h with
  | same => exact Or.inl hh
  | invoiced _ _ _ _ _ => cases hh.paid
  | credited payment call funds unsettled _ _ _ _ =>
    refine Or.inr ⟨fun hpaid => ?_, hh.player, payment, call, funds.names⟩
    rw [hpaid] at unsettled
    cases unsettled
  | returned _ _ _ _ _ _ _ _ => exact absurd hh.pos (Nat.lt_irrefl 0)
  | charged _ _ _ _ _ _ _ _ pos => exact Or.inl ⟨hh.player, hh.paid, pos⟩
  | refunded _ _ _ _ _ _ _ => exact absurd hh.pos (Nat.lt_irrefl 0)

/-- A row that holds lives after a step held them before, unless the step
settled it. -/
theorem holds_before (hrun : perform env a σ = .ok σ') {e' : Entry} (he' : e' ∈ σ'.entries)
    (hh : e'.Holds playerId) :
    ∃ e ∈ σ.entries, e'.id = e.id ∧ (e.Holds playerId ∨ Credits playerId a σ σ'
      ∧ ∃ payment, a = .settleEntry payment ∧ payment.quakejsEntry = some e.id) := by
  rcases (perform_entries hrun).new e' he' with ⟨e, he, hid, hturns⟩ | hnew
  · refine ⟨e, he, hid, (hturns.holds hh).imp_right fun hsettled => ?_⟩
    obtain ⟨hunpaid, hplayer, payment, hcall, hnames⟩ := hsettled
    exact ⟨⟨⟨payment, hcall⟩, e, he, hplayer, hunpaid, e', he', hid,
      hh.paid⟩, payment, hcall, hnames⟩
  · have hpaid := hh.paid
    rw [hnew.status] at hpaid
    cases hpaid

theorem OneFunded.step (h : OneFunded playerId σ) (hrun : perform env a σ = .ok σ')
    (hspare : Credits playerId a σ σ' → σ.remainingOf playerId = 0) : OneFunded playerId σ' := by
  intro e' he' f' hf' hh hh'
  obtain ⟨e, he, hid, hbefore⟩ := holds_before hrun he' hh
  obtain ⟨f, hf, hid', hbefore'⟩ := holds_before hrun hf' hh'
  -- A player who is credited holds nothing, so both entries are the settled one.
  have hnone : Credits playerId a σ σ' → ∀ g ∈ σ.entries, ¬g.Holds playerId := by
    intro hcredits g hg hholds
    have hzero := Table.sum_eq_zero.mp (hspare hcredits) g hg
    rw [if_pos hholds.player] at hzero
    exact absurd hholds.pos (hzero ▸ Nat.lt_irrefl 0)
  have hsame : e.id = f.id := by
    rcases hbefore with hholds | ⟨hcredits, payment, hcall, hnames⟩
    · rcases hbefore' with hholds' | ⟨hcredits, -⟩
      · rw [h e he f hf hholds hholds']
      · exact absurd hholds (hnone hcredits e he)
    · rcases hbefore' with hholds' | ⟨-, payment', hcall', hnames'⟩
      · exact absurd hholds' (hnone hcredits f hf)
      · rw [hcall, Action.settleEntry.injEq] at hcall'
        rw [hcall', hnames', Option.some.injEq] at hnames
        exact hnames.symm
  exact Table.mem_inj he' hf' (hid.trans (hsame.trans hid'.symm))

/-! ## The newest life is on it -/

/-- The newest life of the player is on every entry with lives. -/
def Played (playerId : Uid) (σ : Ledger) : Prop :=
  ∃ l ∈ σ.lives, l.playerId = playerId
    ∧ (∀ l' ∈ σ.lives, l'.playerId = playerId → l'.id ≠ l.id → l'.createdAt < l.createdAt)
    ∧ ∀ e ∈ σ.entries, e.Holds playerId → e.id = l.entryId

theorem Played.of_open (hacc : Accounts σ) (hfunded : Funded σ) (hnewest : Newest σ.lives)
    (hone : OneFunded playerId σ) {l : Life} (hl : l ∈ σ.lives) (hplayer : l.playerId = playerId)
    (hopen : l.status.open = true) : Played playerId σ := by
  obtain ⟨f, hf, hid, hpaid, hpos⟩ := hfunded.funded l hl hopen
  have hholds : f.Holds playerId := ⟨(hacc.lifeEntry hl hf hid).trans hplayer, hpaid, hpos⟩
  refine ⟨l, hl, hplayer, fun l' hl' hp hne => ?_, fun e he hh => ?_⟩
  · exact hnewest l hl hopen l' hl' (hp.trans hplayer.symm) hne
  · rw [hone e he f hf hh hholds, hid]

/-- A life that is inserted is the newest one, and is on the only entry. -/
theorem Played.of_new (hone : OneFunded playerId σ) (hlater : env.Later σ)
    (hrun : perform env a σ = .ok σ') {l : Life} (hl : l ∈ σ'.lives)
      (hplayer : l.playerId = playerId)
    (hnew : NewLife env a σ l) : Played playerId σ' := by
  obtain ⟨f, hget, hentry⟩ := hnew.funded
  rw [hplayer] at hget
  obtain ⟨hf, hholds⟩ := fundedEntry_holds hget
  refine ⟨l, hl, hplayer, fun l' hl' _ hne => ?_, fun e' he' hh => ?_⟩
  · rcases (perform_lifeTurns hrun).new l' hl' with ⟨o, ho, -, hturns⟩ | hnew'
    · rw [hturns.kept.2.2.2, hnew.created]
      exact hlater.lives o ho
    · exact absurd (hnew'.id.trans hnew.id.symm) hne
  · obtain ⟨token, hcall⟩ := hnew.call
    obtain ⟨e, he, hid, hbefore⟩ := holds_before hrun he' hh
    rcases hbefore with hholds' | ⟨-, payment, hcall', -⟩
    · rw [hid, hentry, hone e he f hf hholds' hholds]
    · rw [hcall] at hcall'
      cases hcall'

theorem Played.step (h : Played playerId σ) (hone : OneFunded playerId σ) (hlater : env.Later σ)
    (hrun : perform env a σ = .ok σ') (hquiet : ¬Credits playerId a σ σ') :
      Played playerId σ' := by
  by_cases hnew : ∃ n ∈ σ'.lives, n.playerId = playerId ∧ NewLife env a σ n
  · obtain ⟨n, hn, hplayer, hnew⟩ := hnew
    exact .of_new hone hlater hrun hn hplayer hnew
  · obtain ⟨l, hl, hplayer, hnewest, hentry⟩ := h
    obtain ⟨l', hl', hid, hturns⟩ := (perform_lifeTurns hrun).old l hl
    obtain ⟨hp, he, -, hc⟩ := hturns.kept
    refine ⟨l', hl', hp.trans hplayer, fun m' hm' hmine hne => ?_, fun e' he' hh => ?_⟩
    · rcases (perform_lifeTurns hrun).new m' hm' with ⟨m, hm, hmid, hmturns⟩ | hmnew
      · obtain ⟨hmp, -, -, hmc⟩ := hmturns.kept
        rw [hmc, hc]
        exact hnewest m hm (hmp.symm.trans hmine) fun heq => hne (hmid.trans (heq.trans hid.symm))
      · exact absurd ⟨m', hm', hmine, hmnew⟩ hnew
    · obtain ⟨e, hmem, heid, hbefore⟩ := holds_before hrun he' hh
      rcases hbefore with hholds | ⟨hcredits, -⟩
      · rw [heid, he, hentry e hmem hholds]
      · exact absurd hcredits hquiet

/-- The page of such a player waits for a request. -/
theorem Played.not_autoAdmitted (h : Played playerId σ)
    {arenaId token : String} {player : Participant}
    (hplayer : σ.participant env arenaId token = .ok (some player)) (hid : player.id = playerId) :
    autoAdmitted env arenaId token σ = false := by
  obtain ⟨l, hl, hmine, hnewest, hentry⟩ := h
  have hlife : σ.newestLife playerId = some l := by
    rw [← hmine]
    refine newestLife_eq hl fun l' hl' hp hne => hnewest l' hl' (hp.trans hmine) fun heq => ?_
    exact hne (Table.mem_inj hl' hl heq)
  unfold autoAdmitted
  cases hs : publicState env arenaId token σ with
  | error e => rfl
  | ok s =>
    by_contra hset
    simp only [Bool.not_eq_false, Option.any_eq_true] at hset
    obtain ⟨session, hsession, card, hcard, hset⟩ := hset
    obtain ⟨arena, player', entry, -, hplayer', hshown, -, rfl⟩ :=
      publicState_card hs hsession hcard
    rw [hplayer, Except.ok.injEq, Option.some.injEq] at hplayer'
    subst hplayer'
    simp only [playerCard, autoAdmit, Bool.and_eq_true, decide_eq_true_eq, hid, hlife,
      Option.all_some] at hset
    obtain ⟨⟨-, hbalance⟩, hother⟩ := hset
    obtain ⟨e, he, hmem, hholds⟩ := shownEntry_holds (balanceOf_pos.mp hbalance)
    rw [hid, he, Option.some.injEq] at hshown
    subst hshown
    exact hother (hentry e hmem hholds).symm

/-! ## Every run -/

/-- The runs in which an entry of the player is settled only while the player
holds no unused lives. -/
abbrev SpareCourse (playerId : Uid) : Stage → Ledger → Prop :=
  Course Env.Later (fun σ => σ.remainingOf playerId = 0) playerId

theorem not_credits_allocateLife {arenaId token runId : Uid} :
    ¬Credits playerId (.allocateLife arenaId token runId) σ σ' := by
  rintro ⟨⟨payment, hcall⟩, -⟩
  cases hcall

theorem OneFunded.of_course {stage : Stage} (h : SpareCourse playerId stage σ) :
    OneFunded playerId σ := by
  induction h with
  | start => exact fun e he => absurd he (Table.not_mem_empty e)
  | step env a _ _ run quiet ih => exact ih.step run fun hcredits => absurd hcredits quiet
  | settle env a _ _ run _ allowed ih => exact ih.step run fun _ => allowed
  | seat env arenaId token runId life _ _ run _ ih =>
    exact ih.step (perform_allocateLife run) fun hcredits =>
      absurd hcredits not_credits_allocateLife

/-- The admission after a payment puts the newest life on the paid entry. -/
theorem Played.of_seat (h : Reachable Env.Later σ)
    (hone : OneFunded playerId σ) (hlater : env.Later σ)
    {arenaId token runId : Uid} {life : Life}
    (hrun : allocateLife env arenaId token runId σ = .ok (life, σ'))
      (hmine : life.playerId = playerId) :
    Played playerId σ' := by
  have hs := Sound.of_reachable h
  have hperform := perform_allocateLife hrun
  -- A player with an open life is on its entry already.
  have hopen : ∀ l ∈ σ.lives, l.playerId = playerId → l.status.open = true → Played playerId σ' :=
    fun l hl hplayer ho => (Played.of_open hs.accounts hs.funded (.of_reachable h) hone hl hplayer
      ho).step hone hlater hperform not_credits_allocateLife
  obtain ⟨_, -, -, -, -, player, -, -, -, -, hadm⟩ := allocateLife_ok hrun
  cases hadm with
  | again mem _ alive _ _ => exact hopen life mem hmine (LifeStatus.open_of_alive alive)
  | resume old current _ _ _ slot _ eq _ =>
    obtain ⟨hold, -, ho⟩ := currentLife_mem current
    exact hopen old hold (by rw [eq] at hmine; exact hmine) ho
  | new noCurrent entry funded slot _ eq lives insert ledger =>
    have hmem : life ∈ σ'.lives := by
      rw [ledger]
      exact (Table.mem_insert? insert).mpr (Or.inr rfl)
    refine .of_new hone hlater hperform hmem hmine ?_
    rw [eq]
    exact ⟨⟨token, rfl⟩, rfl, rfl, rfl, noCurrent, entry, funded, rfl⟩

theorem Played.of_course {stage : Stage} (h : SpareCourse playerId stage σ)
    (hstage : stage = .admitted) : Played playerId σ := by
  induction h with
  | start => cases hstage
  | step env a course meets run quiet ih =>
    exact (ih hstage).step (.of_course course) meets run quiet
  | settle => cases hstage
  | seat env arenaId token runId life course meets run mine _ =>
    exact .of_seat course.reachable (.of_course course) meets run mine

/-- Automatic admission happens once for a payment: a player who was credited
and admitted is not admitted again by itself, until another entry is settled. -/
theorem autoAdmit_once (h : SpareCourse playerId .admitted σ) {arenaId token : String}
    {player : Participant} (hplayer : σ.participant env arenaId token = .ok (some player))
    (hid : player.id = playerId) : autoAdmitted env arenaId token σ = false :=
  (Played.of_course h rfl).not_autoAdmitted hplayer hid

end

/-! ## One late payment, and two -/

/-- Transactions that settle nothing keep the stage. -/
theorem Course.quiet {ok : Env → Ledger → Prop} {spare : Ledger → Prop} {playerId : Uid}
    {stage : Stage} {σ : Ledger} {script : List (Env × Action)}
      (h : Course ok spare playerId stage σ)
    (hfollows : Follows ok σ script) (hquiet : ∀ step ∈ script, ∀ payment,
      step.2 ≠ .settleEntry payment) :
    Course ok spare playerId stage (script.foldl commit σ) := by
  induction script generalizing σ with
  | nil => exact h
  | cons step script ih =>
    refine ih ?_ hfollows.2 fun s hs => hquiet s (List.mem_cons_of_mem step hs)
    unfold commit
    cases hrun : perform step.1 step.2 σ with
    | error e => exact h
    | ok σ' =>
      refine .step step.1 step.2 h hfollows.1 hrun ?_
      rintro ⟨⟨payment, hcall⟩, -⟩
      exact hquiet step List.mem_cons_self payment hcall

namespace Duel

def playerA : Uid := (tick 2).uid 0

/-- The second entry of the first player, whose first invoice has expired. -/
def entryA' : Uid := (tick 3).uid 1

/-- A player reserves an entry. -/
def reserving : List (Env × Action) :=
  [(tick 0, .saveSettings "owner" "wallet" true 10 true),
    (tick 1, .createArena "owner" ⟨"game", 100, "oa_dm7", price_ge, price_le⟩),
    (tick 2, .reserveEntry arenaId (token 'a') ⟨"a@ln", "first", "A"⟩)]

/-- A player reserves another one when the invoice of the first has expired. -/
def reservingTwice : List (Env × Action) :=
  reserving ++ [(lateTick 3, .reserveEntry arenaId (token 'a') ⟨"a@ln", "second", "A"⟩)]

def payFirst : Env × Action := (lateTick 4, .settleEntry (payment entryA "hashA"))
def paySecond : Env × Action := (lateTick 5, .settleEntry (payment entryA' "hashB"))

/-- A worker takes the arena. -/
def readying : List (Env × Action) :=
  [(lateTick 6, .leaseArena "worker" arenaId), (lateTick 7, .insertRun runId arenaId "worker")]

def respawn : Env × Action := (lateTick 8, .allocateLife arenaId (token 'a') runId)

/-- The player falls into the lava. -/
def fall : Env × Action := (lateTick 9, .consumeDeath runId 1 lifeA lifeA)

/-- One payment, and two. -/
def payingOnce : List (Env × Action) := reserving ++ [payFirst]

def payingTwice : List (Env × Action) := reservingTwice ++ [payFirst] ++ [paySecond]

/-- A worker takes the arena, and the player comes in and dies. -/
def visiting : List (Env × Action) := readying ++ [respawn] ++ [fall]

/-- The step settles this entry of the player. -/
def Settles (entryId : Uid) (σ : Ledger) (step : Env × Action) : Prop :=
  (perform step.1 step.2 σ).toOption.isSome = true
    ∧ (∃ e ∈ σ.entries, e.id = entryId ∧ e.playerId = playerA ∧ e.status ≠ .paid)
    ∧ ∃ e ∈ (commit σ step).entries, e.id = entryId ∧ e.status = .paid

instance (entryId : Uid) (σ : Ledger) (step : Env × Action) :
    Decidable (Settles entryId σ step) :=
  inferInstanceAs (Decidable (_ ∧ _ ∧ _))

/-- The player is admitted. -/
def Seats (σ : Ledger) : Prop :=
  ((allocateLife respawn.1 arenaId (token 'a') runId σ).toOption.any
    fun r => r.1.playerId = playerA) = true

instance (σ : Ledger) : Decidable (Seats σ) := inferInstanceAs (Decidable (_ = true))

/-- The token of the player is found, as of a late clock. -/
def Finds (σ : Ledger) : Prop :=
  (σ.participant (lateTick 10) arenaId (token 'a')).toOption.join.any
    (fun player => player.id = playerA) = true

instance (σ : Ledger) : Decidable (Finds σ) := inferInstanceAs (Decidable (_ = true))

theorem Finds.player {σ : Ledger} (h : Finds σ) : ∃ player,
    σ.participant (lateTick 10) arenaId (token 'a') = .ok (some player) ∧
      player.id = playerA := by
  unfold Finds at h
  cases hp : σ.participant (lateTick 10) arenaId (token 'a') with
  | error e =>
    rw [hp] at h
    cases h
  | ok player? =>
    rw [hp] at h
    cases player? with
    | none => cases h
    | some player => exact ⟨player, rfl, of_decide_eq_true h⟩

theorem late_evaluates :
    (Follows (fun env σ => Short σ ((env.uid 0).length - 1)) Ledger.empty
      (payingTwice ++ visiting)
      ∧ Follows Env.Later Ledger.empty (payingTwice ++ visiting)
      ∧ Settles entryA (ledgerAfter reservingTwice) payFirst
      ∧ Settles entryA' (ledgerAfter (reservingTwice ++ [payFirst])) paySecond
      ∧ Seats (ledgerAfter (payingTwice ++ readying))
      ∧ autoAdmitted (lateTick 10) arenaId (token 'a')
        (ledgerAfter (payingTwice ++ visiting)) = true
      ∧ Finds (ledgerAfter (payingTwice ++ visiting)))
    ∧ Follows Env.Later Ledger.empty (payingOnce ++ visiting)
      ∧ Settles entryA (ledgerAfter reserving) payFirst
      ∧ (ledgerAfter reserving).remainingOf playerA = 0
      ∧ Seats (ledgerAfter (payingOnce ++ readying))
      ∧ Finds (ledgerAfter (payingOnce ++ visiting)) := by
  decide +kernel

section

variable {ok : Env → Ledger → Prop} {spare : Ledger → Prop} {stage : Stage}
  {before : List (Env × Action)}

theorem course_settles {entryId : Uid} {step : Env × Action} {p : Payment}
    (h : Course ok spare playerA stage (ledgerAfter before))
      (meets : ok step.1 (ledgerAfter before))
    (hcall : step.2 = .settleEntry p) (hsettles : Settles entryId (ledgerAfter before) step)
    (allowed : spare (ledgerAfter before)) :
    Course ok spare playerA .paid (ledgerAfter (before ++ [step])) := by
  obtain ⟨hcommits, ⟨e, he, hid, hplayer, hunpaid⟩, e', he', hid', hpaid⟩ := hsettles
  rw [ledgerAfter_concat]
  refine .settle step.1 step.2 h meets (perform_commit hcommits) ⟨⟨p, hcall⟩, ?_⟩ allowed
  exact ⟨e, he, hplayer, hunpaid, e', he', hid'.trans hid.symm, hpaid⟩

theorem course_quiet {script : List (Env × Action)}
    (h : Course ok spare playerA stage (ledgerAfter before))
    (hfollows : Follows ok (ledgerAfter before) script)
    (hquiet : ∀ step ∈ script, ∀ payment, step.2 ≠ .settleEntry payment) :
    Course ok spare playerA stage (ledgerAfter (before ++ script)) := by
  unfold ledgerAfter
  rw [List.foldl_append]
  exact h.quiet hfollows hquiet

theorem course_seats (h : Course ok spare playerA .paid (ledgerAfter before))
    (meets : ok respawn.1 (ledgerAfter before)) (hseats : Seats (ledgerAfter before)) :
    Course ok spare playerA .admitted (ledgerAfter (before ++ [respawn])) := by
  rw [ledgerAfter_concat]
  unfold Seats at hseats
  cases hrun : allocateLife respawn.1 arenaId (token 'a') runId (ledgerAfter before) with
  | error e =>
    rw [hrun] at hseats
    cases hseats
  | ok r =>
    rw [hrun] at hseats
    have hcommits : (perform respawn.1 respawn.2
      (ledgerAfter before)).toOption.isSome = true := by
      rw [show perform respawn.1 respawn.2 (ledgerAfter before) = .ok
        r.2 from perform_allocateLife hrun]
      rfl
    have hcommit := perform_commit hcommits
    rw [show perform respawn.1 respawn.2 (ledgerAfter before) = .ok
      r.2 from perform_allocateLife hrun,
      Except.ok.injEq] at hcommit
    rw [show commit (ledgerAfter before) respawn = r.2 from hcommit.symm]
    exact .seat respawn.1 arenaId (token 'a') runId r.1 h meets hrun (of_decide_eq_true hseats)

theorem course_visiting (h : Course ok spare playerA .paid (ledgerAfter before))
    (hfollows : Follows ok Ledger.empty (before ++ visiting))
    (hseats : Seats (ledgerAfter (before ++ readying))) :
    Course ok spare playerA .admitted (ledgerAfter (before ++ visiting)) := by
  unfold visiting at hfollows ⊢
  rw [← List.append_assoc, ← List.append_assoc] at hfollows ⊢
  obtain ⟨hrest, hfall⟩ := follows_ledgerAfter.mp hfollows
  obtain ⟨hready, hrespawn, -⟩ := follows_ledgerAfter.mp hrest
  have hpaid := course_quiet h (follows_ledgerAfter.mp hready).2 (by simp [readying])
  exact course_quiet (course_seats hpaid hrespawn hseats) hfall (by simp [fall])

end

theorem follows_twice :
    Follows (fun env σ => env.Later σ ∧ env.Fresh σ) Ledger.empty (payingTwice ++ visiting) := by
  refine late_evaluates.1.2.1.and (follows_fresh ?_ late_evaluates.1.1)
  simp only [payingTwice, visiting, reservingTwice, reserving,
    payFirst, paySecond, readying, respawn,
    fall, List.cons_append, List.nil_append, List.forall_mem_cons]
  refine ⟨⟨0, rfl⟩, ⟨1, rfl⟩, ⟨2, rfl⟩, ⟨3, rfl⟩, ⟨4, rfl⟩,
    ⟨5, rfl⟩, ⟨6, rfl⟩, ⟨7, rfl⟩, ⟨8, rfl⟩,
    ⟨9, rfl⟩, ?_⟩
  exact fun _ h => absurd h List.not_mem_nil

end Duel

open Duel

/-- After one payment, a player who has died is not admitted by itself. -/
theorem autoAdmit_once_dead : ∃ player,
    (ledgerAfter (payingOnce ++ visiting)).participant (lateTick 10) arenaId (token 'a') =
        .ok (some player) ∧
      player.id = playerA ∧
      autoAdmitted (lateTick 10) arenaId (token 'a') (ledgerAfter (payingOnce ++ visiting)) =
        false := by
  obtain ⟨hlater, hsettles, hspent, hseats, hfinds⟩ := late_evaluates.2
  obtain ⟨player, hplayer, hid⟩ := hfinds.player
  obtain ⟨hreserving, hmeets, -⟩ := follows_ledgerAfter.mp (follows_ledgerAfter.mp hlater).1
  have hwaiting : SpareCourse playerA .waiting (ledgerAfter reserving) :=
    .quiet .start hreserving (by simp [reserving])
  have hpaid : SpareCourse playerA .paid (ledgerAfter payingOnce) :=
    course_settles hwaiting hmeets rfl hsettles hspent
  exact ⟨player, hplayer, hid, autoAdmit_once (course_visiting hpaid hlater hseats) hplayer hid⟩

/-- After two late payments, a player who has been admitted and has died is
admitted again by itself. -/
theorem autoAdmit_twice :
    Course (fun env σ => env.Later σ ∧ env.Fresh σ) (fun _ => True) playerA .admitted
        (ledgerAfter (payingTwice ++ visiting))
      ∧ (∃ player,
          (ledgerAfter (payingTwice ++ visiting)).participant (lateTick 10) arenaId (token 'a') =
              .ok (some player)
            ∧ player.id = playerA)
      ∧ autoAdmitted (lateTick 10) arenaId (token 'a') (ledgerAfter (payingTwice ++ visiting)) =
          true := by
  obtain ⟨-, -, hfirst, hsecond, hseats, hset, hfinds⟩ := late_evaluates.1
  refine ⟨?_, hfinds.player, hset⟩
  obtain ⟨hpaying, hmeets', -⟩ := follows_ledgerAfter.mp (follows_ledgerAfter.mp follows_twice).1
  obtain ⟨hreserving, hmeets, -⟩ := follows_ledgerAfter.mp hpaying
  have hwaiting : Course (fun env σ => env.Later σ ∧ env.Fresh σ) (fun _ => True) playerA .waiting
      (ledgerAfter reservingTwice) :=
        .quiet .start hreserving (by simp [reservingTwice, reserving])
  have hpaid := course_settles hwaiting hmeets rfl hfirst trivial
  have htwice := course_settles hpaid hmeets' rfl hsecond trivial
  exact course_visiting htwice follows_twice hseats

end QuakeJs
