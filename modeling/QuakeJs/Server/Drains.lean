import QuakeJs.Server.Calls

/-!
# Reading a journal

`replay` applies a batch of lines, and `drain_journal` all of them.  Whoever
reads starts behind lines that are applied, so a death is the next one at the
latest; and when there is nothing left to read, the ledger has every line that
was written by then.
-/

namespace QuakeJs.Server

open Async Engine Ledger

section

variable {maxClients : Nat} {digest : String → String} {exposed : Bool}
  {v : View} {w w' : World} {m : MatchId}

/-! ## Transactions -/

theorem transact_cases {t : Transaction} {outcome : Outcome (.transact t)}
    (h : Performs digest exposed (.transact t) w outcome w') : ∃ env, Draws digest env w ∧
      (w' = w ∧ (∃ raised, outcome = .error raised) ∨
        ∃ result σ', t.run env w.ledger = .ok (result, σ') ∧ w' = { w with
          ledger := σ' } ∧ ∀ a, outcome = .ok a → a = result) := by
  have hcommit : ∀ env, ∀ o : Outcome (.transact t), (o, w') ∈ Op.effects env (.transact t) w →
      w' = w ∧ (∃ raised, o = .error raised) ∨ ∃ result σ',
        t.run env w.ledger = .ok (result, σ') ∧
        w' = { w with
          ledger := σ' } ∧ o = .ok result := by
    intro env o hmem
    rw [Op.effects, List.mem_singleton, World.commit] at hmem
    cases hrun : t.run env w.ledger with
    | ok committed =>
      obtain ⟨result, σ'⟩ := committed
      simp only [hrun, Prod.mk.injEq] at hmem
      exact .inr ⟨result, σ', rfl, hmem.2, hmem.1⟩
    | error e =>
      simp only [hrun, Prod.mk.injEq] at hmem
      exact .inl ⟨hmem.2, _, hmem.1⟩
  obtain ⟨env, hdraws, heffect | ⟨raised, rfl, -, rfl | ⟨-, o, heffect⟩⟩⟩ := h.cases
  · refine ⟨env, hdraws, (hcommit env outcome heffect).imp_right ?_⟩
    rintro ⟨result, σ', hrun, hw', rfl⟩
    exact ⟨result, σ', hrun, hw', fun a ha => (Except.ok.inj ha).symm⟩
  · exact ⟨env, hdraws, .inl ⟨rfl, _, rfl⟩⟩
  · refine ⟨env, hdraws, (hcommit env o heffect).imp (fun hsame => ⟨hsame.1, _, rfl⟩) ?_⟩
    rintro ⟨result, σ', hrun, hw', -⟩
    exact ⟨result, σ', hrun, hw', fun a ha => by cases ha⟩

/-- A transaction that has what it needs. -/
theorem Orderly.transact {t : Transaction} {outcome : Outcome (.transact t)} {manager : Bool}
    {game : Option MatchId} (h : Orderly maxClients w)
    (hdoes : Performs digest exposed (.transact t) w outcome w') (hdue : Due t.action w)
    (hleases : OfLeases t.action → manager = true)
    (hreleases : ∀ run, t.action.releases = some run → manager = true ∨
      ∃ m < w.memory.created, (w.memory.objects m).run = run ∧ (w.memory.objects m).closed = true)
    (hleaves : ∀ playerId run, t.action = .finishLeave playerId run →
      run = "" ∨ ∃ m, game = some m ∧ Live m w ∧ run = (w.memory.objects m).run) :
    Passes maxClients manager game w w' := by
  obtain ⟨env, hdraws, ⟨rfl, -⟩ | ⟨result, σ', hrun, rfl, -⟩⟩ := transact_cases hdoes
  · exact .refl manager game h
  · exact h.commit hdue (Transaction.performs hrun) hdraws.fresh hdraws.valid hleases hreleases
      hleaves

/-! ## Events -/

/-- These events come next in the journal of a match. -/
def Ahead (m : MatchId) (events : List (Nat × Line)) (w : World) : Prop :=
  ∃ front lines, events = numbered (size front) lines ∧
    front ++ lines <+: w.journal (w.memory.objects m).run ∧
      front.length ≤ (w.applied (w.memory.objects m).run).length

theorem Ahead.mono {events : List (Nat × Line)} (h : Ahead m events w) (honward : Onward w w')
    (hm : m < w.memory.created) : Ahead m events w' := by
  obtain ⟨front, lines, hevents, hbelow, hle⟩ := h
  have hrun := (honward.objects m hm).run
  refine ⟨front, lines, hevents, ?_, ?_⟩
  all_goals rw [hrun]
  · exact hbelow.trans (honward.journal _)
  · exact hle.trans (honward.applied _)

/-- The lines of a journal can be read. -/
theorem Sane.legible (h : Sane maxClients w) (run : Uid) :
    ∀ line ∈ w.journal run, Legible line := by
  cases he : w.engines run with
  | none =>
    rw [journal_of_none he]
    exact fun _ hline => absurd hline List.not_mem_nil
  | some e =>
    rw [journal_of_some he]
    exact (h.engines run e he).readable.journal

theorem Sane.torn (h : Sane maxClients w) (run : Uid) : '\n' ∉ w.torn run := by
  unfold World.torn
  cases he : w.engines run with
  | none => exact List.not_mem_nil
  | some e =>
    cases htorn : e.tables.torn with
    | none =>
      simp only [Option.bind_some, htorn]
      exact List.not_mem_nil
    | some p =>
      obtain ⟨hlegible, hbytes⟩ := (h.engines run e he).readable.torn p.1 p.2 htorn
      simp only [Option.bind_some, htorn]
      exact not_mem_take hlegible hbytes

/-- What a batch has. -/
theorem readEvents_cases {outcome : Outcome (.readEvents m)} (horderly : Orderly maxClients w)
    (h : Performs digest exposed (.readEvents m) w outcome w') : w' = w ∧
      ∀ events, outcome = .ok events →
      Ahead m events w ∧ (events = [] → w.unapplied (w.memory.objects m).run = []) := by
  obtain ⟨env, heffect⟩ | ⟨⟨raised, rfl⟩, rfl⟩ := h.plain rfl
  · rw [Op.effects, List.mem_singleton, Prod.mk.injEq] at heffect
    refine ⟨heffect.2, fun events hok => ?_⟩
    have hread := heffect.1.symm.trans hok
    obtain ⟨k, hoffset, hk⟩ := horderly.sane.offsets m
    unfold World.file at hread
    split_ifs at hread
    · rw [hoffset, readEvents_content (horderly.sane.legible _) (horderly.sane.torn _)] at hread
      split_ifs at hread
      case neg => cases hread
      simp only [Except.mapError, Except.ok.injEq] at hread
      refine ⟨⟨_, _, hread.symm, ?_, (List.length_take_le _ _).trans hk⟩, ?_⟩
      · rw [← List.take_add]
        exact List.take_prefix _ _
      · intro hempty
        have hnone : ((w.journal (w.memory.objects m).run).drop k).take batch = [] := by
          rw [hempty] at hread
          cases hlines : ((w.journal (w.memory.objects m).run).drop k).take batch with
          | nil => rfl
          | cons line lines =>
            rw [hlines] at hread
            cases hread
        have hlength := congrArg List.length hnone
        simp only [List.length_take, List.length_drop, List.length_nil, batch] at hlength
        unfold World.unapplied
        rw [List.drop_eq_nil_iff]
        omega
    · simp [Server.readEvents, Except.mapError] at hread
  · exact ⟨rfl, fun events hok => by cases hok⟩

/-- Where a line stands. -/
theorem Numbered.next {lines front rest : List Line} {line : Line} (h : Numbered lines)
    (hbelow : front ++ line :: rest <+: lines) : line.sequence = front.length + 1 := by
  obtain ⟨more, rfl⟩ := hbelow
  have hlt : front.length < (front ++ line :: rest ++ more).length := by
    simp only [List.length_append, List.length_cons]
    omega
  have hat := h.at hlt
  simpa using hat

/-- After a death the ledger has got as far as its line. -/
theorem consumed {env : Env} {result : Uid} {σ' : Ledger} {run : Uid} {line : Line} {n : Nat}
    (hcommits : Commits w σ') (hcount : n < (w.journal run).length)
    (hline : line.sequence = n + 1)
    (hrun : Ledger.consumeDeath env run line.sequence line.victim line.killer w.ledger =
      .ok (result, σ')) : n + 1 ≤ (({ w with
        ledger := σ' } : World).applied run).length := by
  obtain ⟨r, hr, rfl, hreached⟩ := consumeDeath_reaches hrun
  have hle := (hcommits.books.counted r hr).2
  show n + 1 ≤ (Server.applied w.journal σ' r.id).length
  rw [applied_of_mem hr, List.length_take]
  omega

/-- The next line can be applied. -/
theorem Ahead.due {event : Nat × Line} {events : List (Nat × Line)}
    (h : Ahead m (event :: events) w) (horderly : Orderly maxClients w) :
    Due (.consumeDeath (w.memory.objects m).run event.2.sequence
      event.2.victim event.2.killer) w := by
  obtain ⟨front, lines, hevents, hbelow, hle⟩ := h
  cases lines with
  | nil => cases hevents
  | cons line lines =>
    rw [numbered, List.cons.injEq] at hevents
    obtain ⟨rfl, -⟩ := hevents
    have hnumber := (horderly.sane.numbered _).next hbelow
    refine ⟨⟨line, ?_, rfl, rfl, rfl⟩, ?_, (fun run hcall => by cases hcall),
      (fun playerId run hcall => by cases hcall), fun _ _ _ hcall => by cases hcall⟩
    · exact hbelow.subset (List.mem_append_right _ List.mem_cons_self)
    · rintro _ _ _ _ ⟨⟩
      show (line.sequence : Int) ≤ _
      omega

/-- When it is applied, the offset may pass it. -/
theorem Ahead.applied {event : Nat × Line} {events : List (Nat × Line)}
    (h : Ahead m (event :: events) w) (horderly : Orderly maxClients w) {a : Uid}
    (hdoes : Performs digest exposed (.transact (.consumeDeath (w.memory.objects m).run
      event.2.sequence event.2.victim event.2.killer)) w (.ok a) w') :
    Ahead m events w' ∧ (Write.setOffset m event.1).Quiet w' := by
  have hdue := h.due horderly
  obtain ⟨front, lines, hevents, hbelow, hle⟩ := h
  cases lines with
  | nil => cases hevents
  | cons line lines =>
    rw [numbered, List.cons.injEq] at hevents
    obtain ⟨rfl, rfl⟩ := hevents
    have hnumber := (horderly.sane.numbered _).next hbelow
    have hlength := hbelow.length_le
    rw [List.length_append, List.length_cons] at hlength
    obtain ⟨env, hdraws, ⟨-, _, hraised⟩ | ⟨result, σ', hrun, rfl, -⟩⟩ := transact_cases hdoes
    · cases hraised
    have hcommits := horderly.commits hdue (Transaction.performs hrun) hdraws.fresh
    have hreached := consumed hcommits (n := front.length) (by omega) hnumber hrun
    have htaken : (front ++ [line]).length = front.length + 1 := by simp
    have hsize : size front + (chars line).length = size (front ++ [line]) := by
      rw [size_append, size_cons, size_nil, Nat.add_zero]
    refine ⟨⟨front ++ [line], lines, ?_, ?_, ?_⟩, front.length + 1, ?_, hreached⟩
    · rw [hsize]
    · rw [List.append_assoc]
      exact hbelow
    · rw [htaken]
      exact hreached
    · obtain ⟨rest, hrest⟩ := hbelow
      have hjournal : w.journal (w.memory.objects m).run = (front ++
        [line]) ++ (lines ++ rest) := by
        rw [← hrest]
        simp
      show size front + (chars line).length =
        size ((w.journal (w.memory.objects m).run).take (front.length + 1))
      rw [hsize, hjournal, ← htaken, List.take_left]

/-- An offset that may be set still may. -/
theorem Write.Quiet.mono {offset : Nat} (h : (Write.setOffset m offset).Quiet w)
    (honward : Onward w w') (hm : m < w.memory.created) :
      (Write.setOffset m offset).Quiet w' := by
  obtain ⟨k, hoffset, hk⟩ := h
  obtain ⟨hk', hsame⟩ := take_kept honward.toLasting hk
  refine ⟨k, ?_, ?_⟩
  all_goals rw [(honward.objects m hm).run]
  · rw [hsame]
    exact hoffset
  · exact hk'

end

/-- A task that reads the journal of a match.  If the match has an engine, the
task holds the lock. -/
structure Reads (maxClients : Nat) (v : View) (m : MatchId) (F : World → Prop) : Prop where
  keeps : Keeps maxClients v F
  made : ∀ w, F w → m < w.memory.created
  held : ∀ w, F w → (w.memory.objects m).spawned = true → v.game = some m

namespace Spec

variable {maxClients : Nat} {digest : String → String} {exposed : Bool} {v : View}
  {m : MatchId} {F G S : World → Prop}
  {α : Type} {R : α → World → Prop} {task : Coroutine α}

/-- A weaker condition is enough. -/
theorem pre (h : Spec maxClients digest exposed v G task R S)
    (hF : ∀ w, Orderly maxClients w → F w → G w) : Spec maxClients digest exposed v F task R S :=
  h.mono hF (fun _ _ _ h => h) fun _ _ h => h

theorem use (hF : Keeps maxClients v F) :
    Spec maxClients digest exposed v F (Server.use m) (fun _ => F) F :=
  .now hF hF (fun _ h => h) fun _ => .write hF hF hF (fun _ _ _ => trivial) fun _ _ h => h

theorem unlessClosed {body : Coroutine Unit} (hF : Keeps maxClients v F)
    (hbody : Spec maxClients digest exposed v F body (fun _ => F) F) :
    Spec maxClients digest exposed v F (Server.unlessClosed m body) (fun _ => F) F := by
  refine .memory hF hF (fun _ h => h) fun w _ _ => ?_
  by_cases hclosed : (w.memory.objects m).closed = true
  · rw [if_pos hclosed]
    exact .pure (hF.and (.along w)) fun _ _ h => h.1
  · rw [if_neg hclosed]
    exact hbody.pre fun _ _ h => h.1

/-- A revocation or a forfeiture: afterwards the engine cannot end a life in
the slot any more. -/
theorem fence {kind peer : Nat} {purpose : Purpose} (hgame : v.game = some m)
    (hF : Keeps maxClients v F) (hG : Keeps maxClients v G) (hlive : ∀ w, F w → Live m w)
    (hkind : kind = 3 ∨ kind = 7)
    (hbanned : ∀ w, Orderly maxClients w → F w →
      (∀ id, (∀ l ∈ w.ledger.lives, l.id = id → l.slot = peer) →
        Banned (w.memory.objects m).run id w) → G w) :
    Spec maxClients digest exposed v F (control m kind peer [] purpose)
      (fun _ w => F w ∧ G w) F := by
  have hanswered : ∀ cmd : Command, cmd.kind ≠ 1 → cmd.peer = UInt8.ofNat peer →
      ∀ w, Orderly maxClients w → F w → peer < 256 →
        Link maxClients m (.answered cmd) w → G w := by
    intro cmd hcmd hpeer w horderly hholds hsmall hlink
    refine hbanned w horderly hholds fun id hslot => ?_
    refine horderly.banned (hlive w hholds) hlink hcmd fun l hl hid => ?_
    rw [hpeer, UInt8.toNat_ofNat_of_lt' (by simpa using hsmall)]
    exact hslot l hl hid
  rcases hkind with rfl | rfl
  · refine @control_spec maxClients digest exposed v m
      (.revoke (UInt8.ofNat peer)) 3 peer [] purpose F G
      hgame hF hG hlive (by simp [Command.kind]) (by decide) ?_
      (hanswered _ (by simp [Command.kind]) rfl)
    intro hsmall
    exact ⟨by simp [Command.key, Command.kind, Command.peer, Nat.mod_eq_of_lt hsmall], rfl⟩
  · refine @control_spec maxClients digest exposed v m
      (.forfeit (UInt8.ofNat peer)) 7 peer [] purpose F G
      hgame hF hG hlive (by simp [Command.kind]) (by decide) ?_
      (hanswered _ (by simp [Command.kind]) rfl)
    intro hsmall
    exact ⟨by simp [Command.key, Command.kind, Command.peer, Nat.mod_eq_of_lt hsmall], rfl⟩

/-- The death of a life that a connection still holds. -/
theorem settle (hgame : v.game = some m) (hF : Keeps maxClients v F) (hlive : ∀ w, F w → Live m w)
    (attaching : Bool) (peer : Nat) (c : ConnectionId) :
    Spec maxClients digest exposed v F (Server.settle m attaching peer c) (fun _ => F) F := by
  have hcontrol : Spec maxClients digest exposed v F (control m 3 peer [] (.settled attaching))
      (fun _ => F) F :=
    (fence hgame hF (.const True) hlive (.inl rfl) fun _ _ _ _ => trivial).mono (fun _ _ h => h)
      (fun _ _ _ h => h.1) fun _ _ h => h
  refine .bind (.unlessClosed hF hcontrol) fun _ => ?_
  refine .bind (.write hF hF hF (fun _ _ _ => trivial) fun _ _ h => h) fun _ => ?_
  exact .bind (.write hF hF hF (fun _ _ _ => trivial) fun _ _ h => h) fun _ => .use hF

theorem settlePeer (hgame : v.game = some m) (hF : Keeps maxClients v F)
    (hlive : ∀ w, F w → Live m w) (attaching : Bool) (victim : Uid)
    (entry : Sigma fun _ : Nat => ConnectionId) :
    Spec maxClients digest exposed v F (Server.settlePeer m attaching
      victim entry) (fun _ => F) F := by
  refine .memory hF hF (fun _ h => h) fun w _ _ => ?_
  split
  · exact (settle hgame hF hlive attaching entry.1 entry.2).pre fun _ _ h => h.1
  · exact .pure (hF.and (.along w)) fun _ _ h => h.1

/-- The connections of a match, one after the other.  A match without an
engine has none. -/
theorem settlePeers (h : Reads maxClients v m F) (attaching : Bool) (victim : Uid) :
    Spec maxClients digest exposed v F
      (do
        let s ← Server.memory
        Server.forEach (Server.settlePeer m attaching victim) (s.objects m).peers.entries)
      (fun _ => F) F := by
  refine .memory h.keeps h.keeps (fun _ hF => hF) fun w horderly hholds => ?_
  have hF := h.keeps.and (.along w)
  by_cases hspawned : (w.memory.objects m).spawned = true
  · have hlive : ∀ w', F w' ∧ Along maxClients v w w' → Live m w' := fun w' hw' =>
      Live.mono ⟨h.made w hholds, hspawned⟩ hw'.2.onward
    have hloop := Spec.forEach (fun _ => hF) (fun entry _ =>
      @settlePeer maxClients digest exposed v m _ (h.held w hholds hspawned)
        hF hlive attaching victim entry)
      (w.memory.objects m).peers.entries
    exact hloop.mono (fun _ _ h => h) (fun _ _ _ h => h.1) fun _ _ h => h.1
  · have hnone := horderly.sane.peers m (by simpa using hspawned)
    rw [hnone]
    exact .pure hF fun _ _ h => h.1

/-- The life of a line is over, and the connections of the match are told. -/
theorem applyEvent (h : Reads maxClients v m F) (attaching : Bool) (event : Nat × Line)
    (events : List (Nat × Line)) :
    Spec maxClients digest exposed v (fun w => F w ∧ Ahead m (event :: events) w)
      (Server.applyEvent m attaching event) (fun _ w => F w ∧ Ahead m events w) F := by
  have hahead : ∀ events, Keeps maxClients v fun w => F w ∧ Ahead m events w := by
    rintro events w w' halong ⟨hholds, hnext⟩
    exact ⟨h.keeps w w' halong hholds, hnext.mono halong.onward (h.made w hholds)⟩
  refine .memory (hahead _) h.keeps (fun _ hw => hw.1) fun w₀ horderly₀ hholds₀ => ?_
  have hfirst := (hahead (event :: events)).and (@Keeps.along maxClients v w₀)
  have hdue : ∀ w, Orderly maxClients w →
      (F w ∧ Ahead m (event :: events) w) ∧ Along maxClients v w₀ w →
        Due (.consumeDeath (w₀.memory.objects m).run event.2.sequence event.2.victim
          event.2.killer) w := by
    rintro w horderly ⟨⟨hholds, hnext⟩, halong⟩
    have hrun := (halong.onward.objects m (h.made w₀ hholds₀.1)).run
    rw [← hrun]
    exact hnext.due horderly
  refine .quiet hfirst h.keeps (fun _ hw => hw.1.1) hdue ?_ ?_
  · intro w outcome w' horderly _ hholds hdoes
    refine horderly.transact hdoes (hdue w horderly hholds) ?_ ?_ ?_
    · rintro (⟨_, _, hcall⟩ | ⟨_, _, _, hcall⟩) <;> cases hcall
    · rintro run hcall
      cases hcall
    · rintro playerId run hcall
      cases hcall
  · intro a w w' horderly hholds hdoes halong
    have hrun := (hholds.2.onward.objects m (h.made w₀ hholds₀.1)).run
    have hread : Ahead m events w' ∧ (Write.setOffset m event.1).Quiet w' := by
      rw [← hrun] at hdoes
      exact hholds.1.2.applied horderly hdoes
    have hquiet : Keeps maxClients v fun w => (F w ∧ Ahead m events w) ∧
        (Write.setOffset m event.1).Quiet w := by
      rintro w₁ w₂ hsteps ⟨⟨hF, hnext⟩, hpast⟩
      exact ⟨hahead events w₁ w₂ hsteps ⟨hF, hnext⟩, hpast.mono hsteps.onward (h.made w₁ hF)⟩
    have hwrite : Spec maxClients digest exposed v
        (fun w => (F w ∧ Ahead m events w) ∧ (Write.setOffset m event.1).Quiet w)
        (Server.write (.setOffset m event.1)) (fun _ w => F w ∧ Ahead m events w) F :=
      .write hquiet (hahead events) h.keeps (fun _ _ hw => hw.2) fun _ _ hw => hw.1
    have hreads : Reads maxClients v m fun w => F w ∧ Ahead m events w :=
      ⟨hahead events, fun w hw => h.made w hw.1, fun w hw => h.held w hw.1⟩
    have hrest : Spec maxClients digest exposed v
        (fun w => (F w ∧ Ahead m events w) ∧ (Write.setOffset m event.1).Quiet w)
        (do
          let _ ← Server.write (.setOffset m event.1)
          let s ← Server.memory
          Server.forEach (Server.settlePeer m attaching event.2.victim)
            (s.objects m).peers.entries)
        (fun _ w => F w ∧ Ahead m events w) F :=
      .bind hwrite fun _ => (settlePeers hreads attaching event.2.victim).mono (fun _ _ hw => hw)
        (fun _ _ _ hw => hw) fun _ _ hw => hw.1
    refine hrest.pre fun w'' _ hw => ⟨⟨hw.1.1.1, ?_⟩, ?_⟩
    · exact hread.1.mono hw.2.onward
        ((h.made w hholds.1.1).trans_le halong.onward.created)
    · exact hread.2.mono hw.2.onward
        ((h.made w hholds.1.1).trans_le halong.onward.created)

/-- `replay`.  When it has not found anything, there is nothing left to read. -/
theorem replay (h : Reads maxClients v m F) (hG : Keeps maxClients v G)
    (hread : ∀ w, Orderly maxClients w → F w → w.unapplied (w.memory.objects m).run = [] → G w)
    (attaching : Bool) :
    Spec maxClients digest exposed v F (Server.replay m attaching)
      (fun changed w => F w ∧ (changed = false → G w)) F := by
  refine .quiet h.keeps h.keeps (fun _ hw => hw) (fun _ _ _ => trivial) ?_ ?_
  · intro w outcome w' horderly _ _ hdoes
    rw [(readEvents_cases horderly hdoes).1]
    exact .refl _ _ horderly
  · intro events w w' horderly hholds hdoes halong
    obtain ⟨rfl, hfound⟩ := readEvents_cases horderly hdoes
    obtain ⟨hahead, hnone⟩ := hfound events rfl
    have hG' : Keeps maxClients v fun w => events = [] → G w :=
      fun w₁ w₂ hsteps hw hempty => hG w₁ w₂ hsteps (hw hempty)
    have hreads : Reads maxClients v m fun w => F w ∧ (events = [] → G w) :=
      ⟨h.keeps.and hG', fun w hw => h.made w hw.1, fun w hw => h.held w hw.1⟩
    have hloop := @Spec.forEach maxClients digest exposed v (fun w => F w ∧ (events = [] → G w)) _
      (Server.applyEvent m attaching)
      (fun events' w => (F w ∧ (events = [] → G w)) ∧ Ahead m events' w)
      (fun events' w₁ w₂ hsteps hw => ⟨hreads.keeps w₁ w₂ hsteps hw.1,
        hw.2.mono hsteps.onward (h.made w₁ hw.1.1)⟩)
      (fun event events' => applyEvent hreads attaching event events') events
    have hend : ∀ u : Unit, Spec maxClients digest exposed v
        (fun w => (F w ∧ (events = [] → G w)) ∧ Ahead m [] w) (Pure.pure (!events.isEmpty))
        (fun changed w => F w ∧ (changed = false → G w)) F := by
      intro _
      refine .pure (fun w₁ w₂ hsteps hw => ⟨hreads.keeps w₁ w₂ hsteps hw.1,
        hw.2.mono hsteps.onward (h.made w₁ hw.1.1)⟩) fun w₁ _ hw => ⟨hw.1.1, fun hchanged => ?_⟩
      refine hw.1.2 ?_
      simpa using hchanged
    refine .bind ((hloop.mono ?_ (fun _ _ _ hw => hw) fun _ _ hw => hw.1)) hend
    rintro w'' - ⟨hF, hsteps⟩
    refine ⟨⟨hF, fun hempty => ?_⟩, hahead.mono hsteps.onward (h.made w' hholds)⟩
    exact hG w' w'' hsteps (hread w' horderly hholds (hnone hempty))

/-- `drain_journal`. -/
theorem drainJournal (h : Reads maxClients v m F) (hG : Keeps maxClients v G)
    (hread : ∀ w, Orderly maxClients w → F w → w.unapplied (w.memory.objects m).run = [] → G w)
    (fuel : Nat) :
    Spec maxClients digest exposed v F (Server.drainJournal m fuel) (fun _ w => F w ∧ G w) F := by
  induction fuel with
  | zero => exact .raise h.keeps fun _ _ hw => hw
  | succ fuel ih =>
    refine .bind (replay h hG hread false) fun changed => ?_
    cases changed with
    | true => exact ih.pre fun _ _ hw => hw.1
    | false =>
      refine .pure (h.keeps.and fun w₁ w₂ hsteps hw hchanged => hG w₁ w₂ hsteps (hw hchanged)) ?_
      exact fun _ _ hw => ⟨hw.1, hw.2 rfl⟩

end Spec

end QuakeJs.Server
