import QuakeJs.Server.Engines
import QuakeJs.Server.Seats

/-!
# What holds of the world of the server

The manager's lock is what keeps two engines of one arena apart: only the task
that holds it leases an arena, makes a `Match`, starts an engine, or changes
which matches are served.

* `Sane` holds of the world between any two steps.
* `Onward` is what every step leaves in place, and `Held` what the holder of
  the manager's lock can rely on besides.
* `Safe` is what an operation needs.  `Sane.performs` says that a safe
  operation keeps the world sane, and `Sane.outside` that what happens besides
  the tasks does.

The view of a task says whether it holds the manager's lock.
-/

namespace QuakeJs.Server

open Async Engine Ledger

/-! ## Matches and engines -/

/-- The lines of the journal of a run that the ledger has applied. -/
def World.applied (w : World) (run : Uid) : List Line := Server.applied w.journal w.ledger run

/-- The engine of a run has exited. -/
def Exited (run : Uid) (w : World) : Prop := ∃ e, w.engines run = some e ∧ e.running = false

/-- Every match with a socket for the run is closed. -/
def Cut (run : Uid) (w : World) : Prop :=
  ∀ m, (w.memory.objects m).socket = true → (w.memory.objects m).run = run →
    (w.memory.objects m).closed = true

/-- The engine of a run has never been sent anything, and never will be. -/
structure Shut (run : Uid) (w : World) : Prop where
  untouched : ∃ e, w.engines run = some e ∧ e.Untouched
  cut : Cut run w

/-- No other match has a socket for the run of `m`, and none but `m` starts
its engine. -/
structure Own (m : MatchId) (w : World) : Prop where
  made : m < w.memory.created
  named : (w.memory.objects m).run ≠ ""
  sole : ∀ m', (w.memory.objects m').socket = true →
    (w.memory.objects m').run = (w.memory.objects m).run → m' = m
  pending : (w.memory.objects m).spawned = false → w.engines (w.memory.objects m).run = none

/-- The match was closed before anybody was sent to its engine. -/
structure Barren (m : MatchId) (w : World) : Prop where
  made : m < w.memory.created
  closed : (w.memory.objects m).closed = true
  sole : ∀ m', (w.memory.objects m').socket = true →
    (w.memory.objects m').run = (w.memory.objects m).run → m' = m
  untouched : ∀ e, w.engines (w.memory.objects m).run = some e → e.Untouched

/-- A match that is closed, and whose engine writes no more. -/
structure Ended (m : MatchId) (w : World) : Prop where
  own : Own m w
  closed : (w.memory.objects m).closed = true
  still : Exited (w.memory.objects m).run w ∨ Barren m w

/-- The worker serves, or its loop has come to its end. -/
def Begun (w : World) : Prop := w.memory.running = true ∨ w.memory.ended ≠ none

/-- The match was made after the end of `loop`. -/
def Late (m : MatchId) (w : World) : Prop := ∃ k, w.memory.ended = some k ∧ k ≤ m

/-- The end of `loop` drops the matches that it has stopped, and those that
were made too late for it to stop them. -/
def Dropped (m : MatchId) (w : World) : Prop := w.memory.ended ≠ none ∧ (Late m w ∨ Ended m w)

/-- The manager's books are in order, but for the match `e` that it is just
starting or stopping: a match that is served has an engine or is closed, and
a match whose engine runs is served, unless it was dropped. -/
structure Tidy (e : Option MatchId) (w : World) : Prop where
  ready : ∀ a m, w.memory.serving.lookup a = some m → m < w.memory.created ∧
    (e = some m ∨ (w.memory.objects m).spawned = true ∨ (w.memory.objects m).closed = true)
  covered : ∀ m, (w.memory.objects m).spawned = true → w.alive (w.memory.objects m).run = true →
    e = some m ∨ w.memory.serving.lookup (w.memory.objects m).arenaId = some m ∨ Dropped m w

/-- The match is the only one of its run. -/
def Alone (m : MatchId) (w : World) : Prop :=
  ∀ m' < w.memory.created, (w.memory.objects m').run = (w.memory.objects m).run → m' = m

/-- The run of the match goes on, or the match is closed. -/
def Going (m : MatchId) (w : World) : Prop :=
  (∃ r ∈ w.ledger.runs, r.id = (w.memory.objects m).run ∧ r.status = .running) ∨
    (w.memory.objects m).closed = true

/-- The run goes on, or it has a match that is closed. -/
def Goes (run : Uid) (w : World) : Prop :=
  (∃ r ∈ w.ledger.runs, r.id = run ∧ r.status = .running) ∨
    ∃ m < w.memory.created, (w.memory.objects m).run = run ∧ (w.memory.objects m).closed = true

/-- Two runs are of one arena. -/
def Neighbours (w : World) (run run' : Uid) : Prop :=
  ∃ r ∈ w.ledger.runs, ∃ r' ∈ w.ledger.runs, r.id = run ∧ r'.id = run' ∧ r.arenaId = r'.arenaId

/-- What holds of the world at any time. -/
structure Sane (maxClients : Nat) (w : World) : Prop where
  reach : QuakeJs.Reachable Env.Fresh w.ledger
  books : Books w.journal w.ledger
  engines : ∀ run e, w.engines run = some e → e.Sound maxClients
  known : ∀ run, w.engines run ≠ none → ∃ r ∈ w.ledger.runs, r.id = run
  single : ∀ run run', w.alive run = true → w.alive run' = true →
    Neighbours w run run' → run = run'
  offsets : ∀ m, ∃ k, (w.memory.objects m).offset =
    size ((w.journal (w.memory.objects m).run).take k) ∧
      k ≤ (w.applied (w.memory.objects m).run).length
  rows : ∀ m, (w.memory.objects m).run ≠ "" → ∃ r ∈ w.ledger.runs,
    r.id = (w.memory.objects m).run ∧ r.arenaId = (w.memory.objects m).arenaId
  blank : ∀ m, w.memory.created ≤ m → (w.memory.objects m).run = "" ∧
    (w.memory.objects m).socket = false ∧ (w.memory.objects m).spawned = false
  started : ∀ m, (w.memory.objects m).spawned = true →
    (w.memory.objects m).socket = true ∧ w.engines (w.memory.objects m).run ≠ none
  peers : ∀ m, (w.memory.objects m).spawned = false → (w.memory.objects m).peers = ∅
  sockets : ∀ m m', (w.memory.objects m).socket = true → (w.memory.objects m').socket = true →
    (w.memory.objects m).run = (w.memory.objects m').run → m = m'
  serving : ∀ a m, w.memory.serving.lookup a = some m → Own m w ∧ (w.memory.objects m).arenaId = a
  hosts : ∀ c m, (w.memory.connections c).host = some m →
    Own m w ∧ (w.memory.objects m).spawned = true
  launched : ∀ l ∈ w.ledger.lives, w.engines l.runId ≠ none
  spawners : Begun w → ∀ run, w.alive run = true →
    ∃ m, (w.memory.objects m).spawned = true ∧ (w.memory.objects m).run = run
  halted : w.memory.ended ≠ none → w.memory.running = false
  counted : ∀ k, w.memory.ended = some k → k ≤ w.memory.created
  listed : ∀ k, w.memory.ended = some k → ∀ a m, w.memory.serving.lookup a = some m →
    m ∈ w.memory.stopping ∨ k ≤ m
  stopping : ∀ m ∈ w.memory.stopping, Own m w
  stopped : ∀ m ∈ w.memory.stopped, Ended m w
  tidy : w.memory.locked = false → Tidy none w

/-! ## Steps -/

/-- What every step leaves in place, also a crash. -/
structure Lasting (w w' : World) : Prop where
  progress : Progress w.ledger w'.ledger
  journal : ∀ run, w.journal run <+: w'.journal run
  exited : ∀ run, Exited run w → Exited run w' ∧ w'.journal run = w.journal run
  shut : ∀ run, Shut run w → Shut run w'

/-- What becomes of a `Match`. -/
structure Match.Keeps (M M' : Match) : Prop where
  run : M'.run = M.run
  arenaId : M'.arenaId = M.arenaId
  closed : M.closed = true → M'.closed = true
  spawned : M.spawned = true → M'.spawned = true

/-- What every step of a worker leaves in place. -/
structure Onward (w w' : World) : Prop extends Lasting w w' where
  created : w.memory.created ≤ w'.memory.created
  ended : ∀ k, w.memory.ended = some k → w'.memory.ended = some k
  late : ∀ m, m < w.memory.created → Late m w' → Late m w
  objects : ∀ m, m < w.memory.created → (w.memory.objects m).Keeps (w'.memory.objects m)
  own : ∀ m, Own m w → Own m w'
  barren : ∀ m, Barren m w → Barren m w'

/-- What the holder of the manager's lock can rely on. -/
structure Held (w w' : World) : Prop where
  locked : w.memory.locked = true → w'.memory.locked = true
  shrinks : ∀ a m, w'.memory.serving.lookup a = some m → w.memory.serving.lookup a = some m
  drops : ∀ a m, w.memory.serving.lookup a = some m →
    w'.memory.serving.lookup a = some m ∨ Dropped m w'
  created : w'.memory.created = w.memory.created
  started : ∀ m, (w'.memory.objects m).spawned = (w.memory.objects m).spawned ∧
    (w'.memory.objects m).socket = (w.memory.objects m).socket
  engines : ∀ run, w.engines run = none → w'.engines run = none
  alive : ∀ run, w'.alive run = true → w.alive run = true
  leases : ∀ b ∈ w.ledger.arenas, ∃ b' ∈ w'.ledger.arenas, b'.id = b.id ∧ b'.runId = b.runId
  runs : ∀ r' ∈ w'.ledger.runs, ∃ r ∈ w.ledger.runs, r.id = r'.id ∧ r.arenaId = r'.arenaId ∧
    (r'.status = .running → r.status = .running)
  goes : ∀ run, Goes run w → Goes run w'

theorem Lasting.refl (w : World) : Lasting w w where
  progress := .refl w.ledger
  journal := fun _ => List.prefix_rfl
  exited := fun _ h => ⟨h, rfl⟩
  shut := fun _ h => h

theorem Lasting.trans {w₁ w₂ w₃ : World} (h : Lasting w₁ w₂) (h' : Lasting w₂ w₃) :
    Lasting w₁ w₃ where
  progress := h.progress.trans h'.progress
  journal := fun run => (h.journal run).trans (h'.journal run)
  exited := by
    intro run hexited
    obtain ⟨hexited', hsame⟩ := h.exited run hexited
    obtain ⟨hexited'', hsame'⟩ := h'.exited run hexited'
    exact ⟨hexited'', hsame'.trans hsame⟩
  shut := fun run hshut => h'.shut run (h.shut run hshut)

theorem Match.Keeps.refl (M : Match) : M.Keeps M := ⟨rfl, rfl, fun h => h, fun h => h⟩

theorem Match.Keeps.trans {M₁ M₂ M₃ : Match} (h : M₁.Keeps M₂) (h' : M₂.Keeps M₃) :
    M₁.Keeps M₃ where
  run := h'.run.trans h.run
  arenaId := h'.arenaId.trans h.arenaId
  closed := fun hc => h'.closed (h.closed hc)
  spawned := fun hs => h'.spawned (h.spawned hs)

theorem Onward.refl (w : World) : Onward w w where
  toLasting := .refl w
  created := Nat.le_refl _
  ended := fun _ h => h
  late := fun _ _ h => h
  objects := fun _ _ => .refl _
  own := fun _ h => h
  barren := fun _ h => h

theorem Onward.trans {w₁ w₂ w₃ : World} (h : Onward w₁ w₂) (h' : Onward w₂ w₃) :
    Onward w₁ w₃ where
  toLasting := h.toLasting.trans h'.toLasting
  created := h.created.trans h'.created
  ended := fun k hk => h'.ended k (h.ended k hk)
  late := fun m hm hlate => h.late m hm (h'.late m (hm.trans_le h.created) hlate)
  objects := fun m hm => (h.objects m hm).trans (h'.objects m (hm.trans_le h.created))
  own := fun m hm => h'.own m (h.own m hm)
  barren := fun m hm => h'.barren m (h.barren m hm)

theorem Ended.onward {m : MatchId} {w w' : World} (h : Ended m w) (honward : Onward w w') :
    Ended m w' := by
  have hkeeps := honward.objects m h.own.made
  refine ⟨honward.own m h.own, hkeeps.closed h.closed, ?_⟩
  rw [hkeeps.run]
  exact h.still.imp (fun hexited => (honward.exited _ hexited).1) (honward.barren m)

theorem Late.onward {m : MatchId} {w w' : World} (h : Late m w) (honward : Onward w w') :
    Late m w' := by
  obtain ⟨k, hk, hle⟩ := h
  exact ⟨k, honward.ended k hk, hle⟩

theorem Dropped.onward {m : MatchId} {w w' : World} (h : Dropped m w) (honward : Onward w w') :
    Dropped m w' := by
  obtain ⟨k, hk⟩ := Option.ne_none_iff_exists'.mp h.1
  refine ⟨by simp [honward.ended k hk], h.2.imp ?_ ?_⟩
  · exact fun hlate => hlate.onward honward
  · exact fun hended => hended.onward honward

theorem Held.refl (w : World) : Held w w where
  locked := fun h => h
  shrinks := fun _ _ h => h
  drops := fun _ _ h => .inl h
  created := rfl
  started := fun _ => ⟨rfl, rfl⟩
  engines := fun _ h => h
  alive := fun _ h => h
  leases := fun b hb => ⟨b, hb, rfl, rfl⟩
  runs := fun r hr => ⟨r, hr, rfl, rfl, fun h => h⟩
  goes := fun _ h => h

theorem Held.trans {w₁ w₂ w₃ : World} (h : Held w₁ w₂) (h' : Held w₂ w₃)
    (honward : Onward w₂ w₃) : Held w₁ w₃ where
  locked := fun hl => h'.locked (h.locked hl)
  shrinks := fun a m hm => h.shrinks a m (h'.shrinks a m hm)
  drops := by
    intro a m hm
    rcases h.drops a m hm with hserved | hdropped
    · exact h'.drops a m hserved
    · exact .inr (hdropped.onward honward)
  created := h'.created.trans h.created
  started := fun m => ⟨(h'.started m).1.trans (h.started m).1,
    (h'.started m).2.trans (h.started m).2⟩
  engines := fun run hnone => h'.engines run (h.engines run hnone)
  alive := fun run halive => h.alive run (h'.alive run halive)
  leases := by
    intro b hb
    obtain ⟨b', hb', hid, hrun⟩ := h.leases b hb
    obtain ⟨b'', hb'', hid', hrun'⟩ := h'.leases b' hb'
    exact ⟨b'', hb'', hid'.trans hid, hrun'.trans hrun⟩
  runs := by
    intro r'' hr''
    obtain ⟨r', hr', hid', harena', hgoes'⟩ := h'.runs r'' hr''
    obtain ⟨r, hr, hid, harena, hgoes⟩ := h.runs r' hr'
    exact ⟨r, hr, hid.trans hid', harena.trans harena', fun hrunning => hgoes (hgoes' hrunning)⟩
  goes := fun run hgoes => h'.goes run (h.goes run hgoes)

theorem Lasting.applied {w w' : World} (h : Lasting w w') (run : Uid) :
    (w.applied run).length ≤ (w'.applied run).length := by
  have hledger := (h.progress.further.applied w.journal run).length_le
  refine hledger.trans ?_
  have hjournal := (h.journal run).length_le
  unfold World.applied Server.applied
  cases w'.ledger.runs.get? run with
  | none => exact Nat.le_refl _
  | some r =>
    simp only [List.length_take]
    omega

theorem alive_iff {w : World} {run : Uid} :
    w.alive run = true ↔ ∃ e, w.engines run = some e ∧ e.running = true := by
  unfold World.alive
  cases w.engines run with
  | none => simp
  | some e => simp

theorem journal_of_some {w : World} {run : Uid} {e : EngineProcess} (h : w.engines run = some e) :
    w.journal run = e.tables.journal := by
  unfold World.journal
  rw [h]

theorem journal_of_none {w : World} {run : Uid} (h : w.engines run = none) :
    w.journal run = [] := by
  unfold World.journal
  rw [h]

/-! ## Most steps -/

/-- The engines go on by themselves. -/
structure EnginesGo (maxClients : Nat) (w w' : World) : Prop where
  absent : ∀ run, w.engines run = none → w'.engines run = none
  present : ∀ run e, w.engines run = some e → ∃ e',
    w'.engines run = some e' ∧ e'.Sound maxClients ∧
    e.tables.journal <+: e'.tables.journal ∧
    (e.running = false → e'.running = false ∧ e'.tables.journal = e.tables.journal) ∧
    (e.Untouched → Cut run w → e'.Untouched)

/-- The memory keeps what the manager's books are about. -/
structure Calm (s s' : Memory) : Prop where
  created : s'.created = s.created
  serving : s'.serving = s.serving
  locked : s'.locked = s.locked
  running : s'.running = s.running
  ended : s'.ended = s.ended
  stopping : s'.stopping = s.stopping
  stopped : s'.stopped = s.stopped
  objects : ∀ m, (s.objects m).Keeps (s'.objects m)
  kept : ∀ m, (s'.objects m).socket = (s.objects m).socket ∧
    (s'.objects m).spawned = (s.objects m).spawned
  peers : ∀ m, (s.objects m).spawned = false → (s.objects m).peers = ∅ → (s'.objects m).peers = ∅

theorem Calm.refl (s : Memory) : Calm s s where
  created := rfl
  serving := rfl
  locked := rfl
  running := rfl
  ended := rfl
  stopping := rfl
  stopped := rfl
  objects := fun _ => .refl _
  kept := fun _ => ⟨rfl, rfl⟩
  peers := fun _ _ h => h

/-- One `Match` changes in what the books are not about. -/
theorem Calm.setMatch {s : Memory} {m : MatchId} {f : Match → Match}
    (h : (s.objects m).Keeps (f (s.objects m)))
    (hkept : (f (s.objects m)).socket = (s.objects m).socket ∧
      (f (s.objects m)).spawned = (s.objects m).spawned)
    (hpeers : (s.objects m).spawned = false → (s.objects m).peers = ∅ →
      (f (s.objects m)).peers = ∅) : Calm s (s.setMatch m f) where
  created := rfl
  serving := rfl
  locked := rfl
  running := rfl
  ended := rfl
  stopping := rfl
  stopped := rfl
  objects := by
    intro m'
    by_cases hm : m' = m
    · subst hm
      simpa [Memory.setMatch] using h
    · simp only [Memory.setMatch, Function.update_of_ne hm]
      exact .refl _
  kept := by
    intro m'
    by_cases hm : m' = m
    · subst hm
      simpa [Memory.setMatch] using hkept
    · simp only [Memory.setMatch, Function.update_of_ne hm]
      exact ⟨trivial, trivial⟩
  peers := by
    intro m'
    by_cases hm : m' = m
    · subst hm
      simpa [Memory.setMatch] using hpeers
    · simp only [Memory.setMatch, Function.update_of_ne hm]
      exact fun _ h => h

theorem Calm.setConnection (s : Memory) (c : ConnectionId) (f : Connection → Connection) :
    Calm s (s.setConnection c f) where
  created := rfl
  serving := rfl
  locked := rfl
  running := rfl
  ended := rfl
  stopping := rfl
  stopped := rfl
  objects := fun _ => .refl _
  kept := fun _ => ⟨rfl, rfl⟩
  peers := fun _ _ h => h

section

variable {maxClients : Nat} {w w' : World}

theorem EnginesGo.of_eq (h : ∀ run e, w.engines run = some e → e.Sound maxClients)
    (heq : w'.engines = w.engines) : EnginesGo maxClients w w' where
  absent := by
    rw [heq]
    exact fun _ h => h
  present := by
    rw [heq]
    exact fun run e he =>
      ⟨e, he, h run e he, List.prefix_rfl, fun hr => ⟨hr, rfl⟩, fun hu _ => hu⟩

namespace EnginesGo

theorem journal (h : EnginesGo maxClients w w') (run : Uid) :
    w.journal run <+: w'.journal run := by
  cases he : w.engines run with
  | none =>
    rw [journal_of_none he]
    exact List.nil_prefix
  | some e =>
    obtain ⟨e', he', -, hbelow, -⟩ := h.present run e he
    rw [journal_of_some he, journal_of_some he']
    exact hbelow

theorem exited (h : EnginesGo maxClients w w') {run : Uid} (hexited : Exited run w) :
    Exited run w' ∧ w'.journal run = w.journal run := by
  obtain ⟨e, he, hrunning⟩ := hexited
  obtain ⟨e', he', -, -, hends, -⟩ := h.present run e he
  rw [journal_of_some he, journal_of_some he']
  exact ⟨⟨e', he', (hends hrunning).1⟩, (hends hrunning).2⟩

theorem alive (h : EnginesGo maxClients w w') {run : Uid} (halive : w'.alive run = true) :
    w.alive run = true := by
  obtain ⟨e', he', hrunning⟩ := alive_iff.mp halive
  cases he : w.engines run with
  | none =>
    rw [h.absent run he] at he'
    cases he'
  | some e =>
    refine alive_iff.mpr ⟨e, he, ?_⟩
    by_contra hstopped
    rw [Bool.not_eq_true] at hstopped
    obtain ⟨e'', he'', -, -, hends, -⟩ := h.present run e he
    rw [he'', Option.some.injEq] at he'
    rw [← he', (hends hstopped).1] at hrunning
    cases hrunning

theorem started (h : EnginesGo maxClients w w') {run : Uid} (hsome : w'.engines run ≠ none) :
    w.engines run ≠ none :=
  fun hnone => hsome (h.absent run hnone)

theorem stays (h : EnginesGo maxClients w w') {run : Uid} (hsome : w.engines run ≠ none) :
    w'.engines run ≠ none := by
  obtain ⟨e, he⟩ := Option.ne_none_iff_exists'.mp hsome
  obtain ⟨e', he', -⟩ := h.present run e he
  simp [he']

end EnginesGo

/-- What a transaction makes of the ledger. -/
structure Commits (w : World) (σ : Ledger) : Prop where
  reach : QuakeJs.Reachable Env.Fresh σ
  progress : Progress w.ledger σ
  books : Books w.journal σ
  launched : ∀ l ∈ σ.lives, w.engines l.runId ≠ none

theorem Sane.commits (h : Sane maxClients w) : Commits w w.ledger :=
  ⟨h.reach, .refl _, h.books, h.launched⟩

theorem Barren.cut {m : MatchId} (h : Barren m w) : Cut (w.memory.objects m).run w := by
  intro m' hsocket hrun
  rw [h.sole m' hsocket hrun]
  exact h.closed

section

variable (hcalm : Calm w.memory w'.memory) (hengines : EnginesGo maxClients w w')

include hcalm hengines

theorem Own.calm {m : MatchId} (h : Own m w) : Own m w' where
  made := hcalm.created ▸ h.made
  named := by
    rw [(hcalm.objects m).run]
    exact h.named
  sole := by
    intro m' hsocket hrun
    rw [(hcalm.kept m').1] at hsocket
    rw [(hcalm.objects m').run, (hcalm.objects m).run] at hrun
    exact h.sole m' hsocket hrun
  pending := by
    rw [(hcalm.kept m).2, (hcalm.objects m).run]
    exact fun hspawned => hengines.absent _ (h.pending hspawned)

omit hengines in
theorem Cut.calm {run : Uid} (h : Cut run w) : Cut run w' := by
  intro m hsocket hrun
  rw [(hcalm.kept m).1] at hsocket
  rw [(hcalm.objects m).run] at hrun
  exact (hcalm.objects m).closed (h m hsocket hrun)

omit hcalm in
theorem untouched_stays {run : Uid} (hcut : Cut run w)
    (h : ∀ e, w.engines run = some e → e.Untouched) :
    ∀ e, w'.engines run = some e → e.Untouched := by
  intro e' he'
  cases he : w.engines run with
  | none =>
    rw [hengines.absent run he] at he'
    cases he'
  | some e =>
    obtain ⟨e'', he'', -, -, -, huntouched⟩ := hengines.present run e he
    rw [he', Option.some.injEq] at he''
    exact he'' ▸ huntouched (h e he) hcut

theorem Barren.calm {m : MatchId} (h : Barren m w) : Barren m w' where
  made := hcalm.created ▸ h.made
  closed := (hcalm.objects m).closed h.closed
  sole := by
    intro m' hsocket hrun
    rw [(hcalm.kept m').1] at hsocket
    rw [(hcalm.objects m').run, (hcalm.objects m).run] at hrun
    exact h.sole m' hsocket hrun
  untouched := by
    rw [(hcalm.objects m).run]
    exact untouched_stays hengines h.cut h.untouched

theorem Shut.calm {run : Uid} (h : Shut run w) : Shut run w' := by
  obtain ⟨⟨e, he, huntouched⟩, hcut⟩ := h
  obtain ⟨e', he', -, -, -, hstays⟩ := hengines.present run e he
  exact ⟨⟨e', he', hstays huntouched hcut⟩, hcut.calm hcalm⟩

theorem Onward.calm (hprogress : Progress w.ledger w'.ledger) : Onward w w' where
  progress := hprogress
  journal := hengines.journal
  exited := fun _ h => hengines.exited h
  shut := fun _ h => h.calm hcalm hengines
  created := hcalm.created.ge
  ended := fun k hk => hcalm.ended.trans hk
  late := by
    rintro m - ⟨k, hk, hle⟩
    exact ⟨k, hcalm.ended.symm.trans hk, hle⟩
  objects := fun m _ => hcalm.objects m
  own := fun _ h => h.calm hcalm hengines
  barren := fun _ h => h.calm hcalm hengines

theorem Tidy.calm {e : Option MatchId} (h : Tidy e w) (honward : Onward w w') : Tidy e w' where
  ready := by
    intro a m hlookup
    rw [hcalm.serving] at hlookup
    obtain ⟨hmade, hready⟩ := h.ready a m hlookup
    rw [(hcalm.kept m).2]
    exact ⟨hcalm.created ▸ hmade,
      hready.imp_right fun hrest => hrest.imp_right (hcalm.objects m).closed⟩
  covered := by
    intro m hspawned halive
    rw [(hcalm.kept m).2] at hspawned
    rw [(hcalm.objects m).run] at halive
    rw [hcalm.serving, (hcalm.objects m).arenaId]
    exact (h.covered m hspawned (hengines.alive halive)).imp_right fun hrest =>
      hrest.imp_right fun hdropped => hdropped.onward honward

theorem Held.calm (hleases : ∀ b ∈ w.ledger.arenas, ∃ b' ∈ w'.ledger.arenas,
    b'.id = b.id ∧ b'.runId = b.runId)
    (hruns : ∀ r' ∈ w'.ledger.runs, ∃ r ∈ w.ledger.runs, r.id = r'.id ∧ r.arenaId = r'.arenaId ∧
      (r'.status = .running → r.status = .running))
    (hgoes : ∀ run, (∃ r ∈ w.ledger.runs, r.id = run ∧ r.status = .running) → Goes run w') :
    Held w w' where
  locked := fun h => hcalm.locked ▸ h
  shrinks := fun a m hm => hcalm.serving ▸ hm
  drops := fun a m hm => .inl (hcalm.serving ▸ hm)
  created := hcalm.created
  started := fun m => ⟨(hcalm.kept m).2, (hcalm.kept m).1⟩
  engines := hengines.absent
  alive := fun _ h => hengines.alive h
  leases := hleases
  runs := hruns
  goes := by
    rintro run (hrunning | ⟨m, hm, hrun, hclosed⟩)
    · exact hgoes run hrunning
    · exact .inr ⟨m, hcalm.created ▸ hm, (hcalm.objects m).run.trans hrun,
        (hcalm.objects m).closed hclosed⟩

end

/-- Two runs that have rows are neighbours only if they were before. -/
theorem Sane.neighbours (h : Sane maxClients w) (hfurther : Further w.ledger w'.ledger)
    {run run' : Uid} (hrun : w.engines run ≠ none)
    (hrun' : w.engines run' ≠ none) (hnear : Neighbours w' run run') : Neighbours w run run' := by
  obtain ⟨r', hr', s', hs', hid', hsid', harena⟩ := hnear
  obtain ⟨r, hr, hid⟩ := h.known run hrun
  obtain ⟨s, hs, hsid⟩ := h.known run' hrun'
  have harenaOf : ∀ q ∈ w.ledger.runs, ∀ q' ∈ w'.ledger.runs, q.id = q'.id →
      q.arenaId = q'.arenaId := by
    intro q hq q' hq' hsame
    obtain ⟨q'', hq'', hqid, hqarena, -⟩ := hfurther q hq
    have heq : q'' = q' := Table.mem_inj hq'' hq' (hqid.trans hsame)
    rw [← heq, hqarena]
  refine ⟨r, hr, s, hs, hid, hsid, ?_⟩
  rw [harenaOf r hr r' hr' (hid.trans hid'.symm), harenaOf s hs s' hs' (hsid.trans hsid'.symm)]
  exact harena

/-- What has been read is still there to be read. -/
theorem take_kept {run : Uid} {k : Nat} (hlasting : Lasting w w')
    (hk : k ≤ (w.applied run).length) : k ≤ (w'.applied run).length ∧
      (w'.journal run).take k = (w.journal run).take k := by
  refine ⟨hk.trans (hlasting.applied run), ?_⟩
  have hlength : (w.applied run).length ≤ (w.journal run).length := by
    unfold World.applied Server.applied
    cases w.ledger.runs.get? run with
    | none => exact Nat.zero_le _
    | some r => exact (List.take_prefix _ _).length_le
  obtain ⟨lines, hlines⟩ := hlasting.journal run
  rw [← hlines]
  exact List.take_append_of_le_length (by omega)

/-- Whatever goes on in the engines and in the ledger keeps the world sane, as
long as the memory is calm. -/
theorem Sane.calm (h : Sane maxClients w) (hcalm : Calm w.memory w'.memory)
    (hengines : EnginesGo maxClients w w') (hcommits : Commits w w'.ledger)
    (hoffsets : ∀ m, (w'.memory.objects m).offset = (w.memory.objects m).offset ∨
      ∃ k, (w'.memory.objects m).offset = size ((w.journal (w.memory.objects m).run).take k) ∧
        k ≤ (w.applied (w.memory.objects m).run).length)
    (hhosts : ∀ c m, (w'.memory.connections c).host = some m →
      (w.memory.connections c).host = some m ∨ Own m w ∧ (w.memory.objects m).spawned = true) :
    Sane maxClients w' := by
  have honward : Onward w w' := .calm hcalm hengines hcommits.progress
  refine
    { reach := hcommits.reach
      books := hcommits.books.appended hengines.journal
      engines := ?_, known := ?_, single := ?_, offsets := ?_, rows := ?_, blank := ?_
      started := ?_, peers := ?_, sockets := ?_, serving := ?_, hosts := ?_
      launched := fun l hl => hengines.stays (hcommits.launched l hl)
      spawners := ?_
      halted := by rw [hcalm.ended, hcalm.running]; exact h.halted
      counted := by rw [hcalm.ended, hcalm.created]; exact h.counted
      listed := by rw [hcalm.ended, hcalm.serving, hcalm.stopping]; exact h.listed
      stopping := ?_, stopped := ?_, tidy := ?_ }
  · intro run e' he'
    have hsome : w'.engines run ≠ none := by simp [he']
    obtain ⟨e, he⟩ := Option.ne_none_iff_exists'.mp (hengines.started hsome)
    obtain ⟨e'', he'', hsound, -⟩ := hengines.present run e he
    rw [he', Option.some.injEq] at he''
    exact he'' ▸ hsound
  · intro run hsome
    obtain ⟨r, hr, hid⟩ := h.known run (hengines.started hsome)
    obtain ⟨r', hr', hid', -⟩ := hcommits.progress.further r hr
    exact ⟨r', hr', hid'.trans hid⟩
  · intro run run' halive halive' hnear
    have hstarted : ∀ run, w.alive run = true → w.engines run ≠ none := by
      intro run halive hnone
      obtain ⟨e, he, -⟩ := alive_iff.mp halive
      rw [hnone] at he
      cases he
    have hbefore := hengines.alive halive
    have hbefore' := hengines.alive halive'
    exact h.single run run' hbefore hbefore'
      (h.neighbours hcommits.progress.further (hstarted _ hbefore) (hstarted _ hbefore') hnear)
  · intro m
    have hbehind : ∃ k, (w'.memory.objects m).offset =
        size ((w.journal (w.memory.objects m).run).take k) ∧
          k ≤ (w.applied (w.memory.objects m).run).length := by
      rcases hoffsets m with hsame | hset
      · rw [hsame]
        exact h.offsets m
      · exact hset
    obtain ⟨k, hoffset, hk⟩ := hbehind
    obtain ⟨hk', htake⟩ := take_kept honward.toLasting hk
    rw [(hcalm.objects m).run]
    exact ⟨k, htake ▸ hoffset, hk'⟩
  · intro m hnamed
    rw [(hcalm.objects m).run] at hnamed ⊢
    rw [(hcalm.objects m).arenaId]
    obtain ⟨r, hr, hid, harena⟩ := h.rows m hnamed
    obtain ⟨r', hr', hid', harena', -⟩ := hcommits.progress.further r hr
    exact ⟨r', hr', hid'.trans hid, harena'.trans harena⟩
  · intro m hm
    rw [(hcalm.objects m).run, (hcalm.kept m).1, (hcalm.kept m).2]
    exact h.blank m (hcalm.created ▸ hm)
  · intro m hspawned
    rw [(hcalm.kept m).2] at hspawned
    rw [(hcalm.kept m).1, (hcalm.objects m).run]
    exact ⟨(h.started m hspawned).1, hengines.stays (h.started m hspawned).2⟩
  · intro m hspawned
    rw [(hcalm.kept m).2] at hspawned
    exact hcalm.peers m hspawned (h.peers m hspawned)
  · intro m m' hsocket hsocket' hrun
    rw [(hcalm.kept m).1] at hsocket
    rw [(hcalm.kept m').1] at hsocket'
    rw [(hcalm.objects m).run, (hcalm.objects m').run] at hrun
    exact h.sockets m m' hsocket hsocket' hrun
  · intro a m hlookup
    rw [hcalm.serving] at hlookup
    obtain ⟨hown, harena⟩ := h.serving a m hlookup
    exact ⟨hown.calm hcalm hengines, (hcalm.objects m).arenaId.trans harena⟩
  · intro c m hhost
    obtain ⟨hown, hspawned⟩ := (hhosts c m hhost).elim (h.hosts c m) fun hseated => hseated
    exact ⟨hown.calm hcalm hengines, (hcalm.kept m).2.trans hspawned⟩
  · intro hbegun run halive
    unfold Begun at hbegun
    rw [hcalm.running, hcalm.ended] at hbegun
    obtain ⟨m, hspawned, hrun⟩ := h.spawners hbegun run (hengines.alive halive)
    exact ⟨m, (hcalm.kept m).2.trans hspawned, (hcalm.objects m).run.trans hrun⟩
  · rw [hcalm.stopping]
    exact fun m hm => honward.own m (h.stopping m hm)
  · rw [hcalm.stopped]
    exact fun m hm => (h.stopped m hm).onward honward
  · intro hfree
    exact (h.tidy (hcalm.locked ▸ hfree)).calm hcalm hengines honward

/-! ## The other steps -/

/-- The manager changes its own part of the memory. -/
structure Manages (w : World) (s : Memory) : Prop where
  objects : s.objects = w.memory.objects
  created : s.created = w.memory.created
  connections : s.connections = w.memory.connections
  serving : ∀ a m, s.serving.lookup a = some m → Own m w ∧ (w.memory.objects m).arenaId = a
  ended : ∀ k, w.memory.ended = some k → s.ended = some k
  ends : ∀ k, s.ended = some k → w.memory.ended = some k ∨ k = w.memory.created
  begun : s.running = true ∨ s.ended ≠ none → Begun w ∨ ∀ run, w.alive run = false
  halted : s.ended ≠ none → s.running = false
  listed : ∀ k, s.ended = some k → ∀ a m, s.serving.lookup a = some m → m ∈ s.stopping ∨ k ≤ m
  stopping : ∀ m ∈ s.stopping, Own m w
  stopped : ∀ m ∈ s.stopped, Ended m w

/-- Only the lock is taken or released, and some matches are not served any
more. -/
theorem Manages.shrinks (h : Sane maxClients w) {serving : AList fun _ : Uid => MatchId}
    {locked : Bool}
    (hserving : ∀ a m, serving.lookup a = some m → w.memory.serving.lookup a = some m) :
    Manages w { w.memory with
      serving
      locked } where
  objects := rfl
  created := rfl
  connections := rfl
  serving := fun a m hm => h.serving a m (hserving a m hm)
  ended := fun _ hk => hk
  ends := fun _ hk => .inl hk
  begun := fun hbegun => .inl hbegun
  halted := h.halted
  listed := fun k hk a m hm => h.listed k hk a m (hserving a m hm)
  stopping := h.stopping
  stopped := h.stopped

section

variable {s : Memory} (hmanages : Manages w s)

include hmanages

theorem Own.manages {m : MatchId} (h : Own m w) : Own m (w.setMemory s) where
  made := hmanages.created ▸ h.made
  named := by
    show (s.objects m).run ≠ ""
    rw [hmanages.objects]
    exact h.named
  sole := by
    show ∀ m', (s.objects m').socket = true → (s.objects m').run = (s.objects m).run → m' = m
    rw [hmanages.objects]
    exact h.sole
  pending := by
    show (s.objects m).spawned = false → w.engines (s.objects m).run = none
    rw [hmanages.objects]
    exact h.pending

theorem Onward.manages : Onward w (w.setMemory s) where
  progress := .refl _
  journal := fun _ => List.prefix_rfl
  exited := fun _ hexited => ⟨hexited, rfl⟩
  shut := by
    intro run hshut
    refine ⟨hshut.untouched, ?_⟩
    show ∀ m, (s.objects m).socket = true → (s.objects m).run = run → (s.objects m).closed = true
    rw [hmanages.objects]
    exact hshut.cut
  created := hmanages.created.ge
  ended := hmanages.ended
  late := by
    rintro m hm ⟨k, hk, hle⟩
    rcases hmanages.ends k hk with hbefore | rfl
    · exact ⟨k, hbefore, hle⟩
    · exact absurd (hm.trans_le hle) (Nat.lt_irrefl m)
  objects := by
    intro m _
    show (w.memory.objects m).Keeps (s.objects m)
    rw [hmanages.objects]
    exact .refl _
  own := fun m hm => hm.manages hmanages
  barren := by
    rintro m ⟨hmade, hclosed, hsole, huntouched⟩
    rw [← hmanages.objects] at hclosed hsole huntouched
    exact ⟨hmanages.created ▸ hmade, hclosed, hsole, huntouched⟩

/-- Nothing else changes. -/
theorem Sane.manages (h : Sane maxClients w) (htidy : s.locked = false →
    Tidy none (w.setMemory s)) : Sane maxClients (w.setMemory s) ∧ Onward w (w.setMemory s) := by
  have honward : Onward w (w.setMemory s) := .manages hmanages
  refine ⟨?_, honward⟩
  obtain ⟨hreach, hbooks, hengines, hknown, hsingle, hoffsets, hrows, hblank, hstarted, hpeers,
    hsockets, -, hhosts, hlaunched, hspawners, -, hcounted, -, -, -, -⟩ := h
  rw [← hmanages.objects] at hoffsets hrows hblank hstarted hpeers hsockets hspawners
  rw [← hmanages.created] at hblank
  refine ⟨hreach, hbooks, hengines, hknown, hsingle, hoffsets, hrows, hblank, hstarted, hpeers,
    hsockets, ?_, ?_, hlaunched, ?_, hmanages.halted, ?_, hmanages.listed,
    fun m hm => honward.own m (hmanages.stopping m hm),
    fun m hm => (hmanages.stopped m hm).onward honward, htidy⟩
  · intro a m hlookup
    obtain ⟨hm, harena⟩ := hmanages.serving a m hlookup
    rw [← hmanages.objects] at harena
    exact ⟨honward.own m hm, harena⟩
  · intro c m hhost
    rw [← hmanages.connections, ← hmanages.objects] at hhosts
    obtain ⟨hm, hspawned⟩ := hhosts c m hhost
    exact ⟨honward.own m hm, hspawned⟩
  · intro hbegun run halive
    rcases hmanages.begun hbegun with hbefore | hnone
    · exact hspawners hbefore run halive
    · have hrunning : w.alive run = true := halive
      rw [hnone run] at hrunning
      cases hrunning
  · intro k hk
    show k ≤ s.created
    rw [hmanages.created]
    exact (hmanages.ends k hk).elim (hcounted k) Nat.le_of_eq

end

/-- A crash. -/
theorem Sane.crashes (h : Sane maxClients w) {visitors : ConnectionId → String × Uid}
    (hcrash : Crashes visitors w w') : Sane maxClients w' ∧ Lasting w w' := by
  subst hcrash
  exact
    ⟨{ reach := h.reach
       books := h.books
       engines := h.engines
       known := h.known
       single := h.single
       offsets := fun _ => ⟨0, rfl, Nat.zero_le _⟩
       rows := fun _ hnamed => absurd rfl hnamed
       blank := fun _ _ => ⟨rfl, rfl, rfl⟩
       started := fun _ hspawned => by cases hspawned
       peers := fun _ _ => rfl
       sockets := fun _ _ hsocket => by cases hsocket
       serving := fun _ _ hlookup => by simp [Memory.initial] at hlookup
       hosts := fun _ _ hhost => by cases hhost
       launched := h.launched
       spawners := fun hbegun => by simp [Begun, Memory.initial] at hbegun
       halted := fun _ => rfl
       counted := fun _ hk => by cases hk
       listed := fun _ hk => by cases hk
       stopping := fun _ hm => absurd hm List.not_mem_nil
       stopped := fun _ hm => absurd hm List.not_mem_nil
       tidy := fun _ =>
         ⟨fun _ _ hlookup => by simp [Memory.initial] at hlookup,
           fun _ hspawned => by cases hspawned⟩ },
     { progress := .refl _
       journal := fun _ => List.prefix_rfl
       exited := fun _ hexited => ⟨hexited, rfl⟩
       shut := fun _ hshut => ⟨hshut.untouched, fun _ hsocket => by cases hsocket⟩ }⟩

/-- A `Match` is made. -/
theorem Sane.create (h : Sane maxClients w) {arenaId run : Uid} {now : Int} {listed : Bool}
    (hlocked : w.memory.locked = true)
    (hrow : ∃ r ∈ w.ledger.runs, r.id = run ∧ r.arenaId = arenaId)
    (hw' : w' = w.setMemory (w.memory.create arenaId run now listed))
    (hlisted : listed = true → Own w.memory.created w') : Sane maxClients w' ∧ Onward w w' := by
  have hnew : w'.memory.objects w.memory.created = Match.new arenaId run now := by
    rw [hw']
    exact Function.update_self _ _ _
  have hold : ∀ m, m ≠ w.memory.created → w'.memory.objects m = w.memory.objects m := by
    rw [hw']
    exact fun m hm => Function.update_of_ne hm _ _
  have hmade : ∀ m, m < w.memory.created → w'.memory.objects m = w.memory.objects m :=
    fun m hm => hold m (by omega)
  have hcreated : w'.memory.created = w.memory.created + 1 := by rw [hw']; rfl
  have hengines : w'.engines = w.engines := by rw [hw']; rfl
  have hledger : w'.ledger = w.ledger := by rw [hw']; rfl
  have hjournal : w'.journal = w.journal := by rw [hw']; rfl
  have hended : w'.memory.ended = w.memory.ended := by rw [hw']; rfl
  have hserving : ∀ a m, w'.memory.serving.lookup a = some m →
      w.memory.serving.lookup a = some m ∨
        listed = true ∧ a = arenaId ∧ m = w.memory.created := by
    intro a m hlookup
    rw [hw'] at hlookup
    cases listed with
    | false => exact .inl hlookup
    | true =>
      have hlookup : (w.memory.serving.insert arenaId w.memory.created).lookup a = some m :=
        hlookup
      by_cases ha : a = arenaId
      · rw [ha, AList.lookup_insert, Option.some.injEq] at hlookup
        exact .inr ⟨rfl, ha, hlookup.symm⟩
      · exact .inl ((AList.lookup_insert_ne ha).symm.trans hlookup)
  have hsocket : ∀ m, (w'.memory.objects m).socket = true →
    w'.memory.objects m = w.memory.objects m := by
    intro m hs
    refine hold m fun heq => ?_
    rw [heq, hnew] at hs
    cases hs
  have hown : ∀ m, Own m w → Own m w' := by
    intro m hm
    refine ⟨hcreated ▸ Nat.lt_succ_of_lt hm.made, ?_, ?_, ?_⟩
    all_goals rw [hmade m hm.made]
    · exact hm.named
    · intro m' hs hrun
      have hsame := hsocket m' hs
      rw [hsame] at hs hrun
      exact hm.sole m' hs hrun
    · rw [hengines]
      exact hm.pending
  have honward : Onward w w' := by
    refine
      { progress := by rw [hledger]; exact .refl _
        journal := by rw [hjournal]; exact fun _ => List.prefix_rfl
        exited := ?_, shut := ?_
        created := by omega
        ended := by rw [hended]; exact fun _ hk => hk
        late := by
          rintro m - ⟨k, hk, hle⟩
          exact ⟨k, hended ▸ hk, hle⟩
        objects := ?_
        own := hown
        barren := ?_ }
    · intro run hexited
      unfold Exited at hexited ⊢
      rw [hengines, hjournal]
      exact ⟨hexited, rfl⟩
    · intro run hshut
      refine ⟨hengines ▸ hshut.untouched, ?_⟩
      intro m hs hrun
      have hsame := hsocket m hs
      rw [hsame] at hs hrun ⊢
      exact hshut.cut m hs hrun
    · intro m hm
      rw [hmade m hm]
      exact .refl _
    · intro m hm
      refine ⟨hcreated ▸ Nat.lt_succ_of_lt hm.made, ?_, ?_, ?_⟩
      all_goals rw [hmade m hm.made]
      · exact hm.closed
      · intro m' hs hrun
        have hsame := hsocket m' hs
        rw [hsame] at hs hrun
        exact hm.sole m' hs hrun
      · rw [hengines]
        exact hm.untouched
  refine
    ⟨{ reach := hledger ▸ h.reach
       books := by rw [hledger, hjournal]; exact h.books
       engines := by rw [hengines]; exact h.engines
       known := by rw [hengines, hledger]; exact h.known
       single := ?_, offsets := ?_, rows := ?_, blank := ?_, started := ?_, peers := ?_
       sockets := ?_, serving := ?_, hosts := ?_
       launched := by rw [hengines, hledger]; exact h.launched
       spawners := ?_, halted := ?_, counted := ?_, listed := ?_, stopping := ?_, stopped :=
         ?_, tidy := ?_ },
     honward⟩
  · subst hw'
    exact h.single
  · intro m
    by_cases hm : m = w.memory.created
    · rw [hm, hnew]
      exact ⟨0, rfl, Nat.zero_le _⟩
    · rw [hold m hm, hjournal]
      obtain ⟨k, hoffset, hk⟩ := h.offsets m
      refine ⟨k, hoffset, ?_⟩
      unfold World.applied
      rw [hjournal, hledger]
      exact hk
  · intro m hnamed
    rw [hledger]
    by_cases hm : m = w.memory.created
    · rw [hm, hnew]
      exact hrow
    · rw [hold m hm] at hnamed ⊢
      exact h.rows m hnamed
  · intro m hm
    rw [hold m (by omega)]
    exact h.blank m (by omega)
  · intro m hspawned
    have hm : m ≠ w.memory.created := by
      intro heq
      rw [heq, hnew] at hspawned
      cases hspawned
    rw [hold m hm] at hspawned ⊢
    rw [hengines]
    exact h.started m hspawned
  · intro m hspawned
    by_cases hm : m = w.memory.created
    · rw [hm, hnew]
      rfl
    · rw [hold m hm] at hspawned ⊢
      exact h.peers m hspawned
  · intro m m' hs hs' hrun
    have hsame := hsocket m hs
    have hsame' := hsocket m' hs'
    rw [hsame] at hs hrun
    rw [hsame'] at hs' hrun
    exact h.sockets m m' hs hs' hrun
  · intro a m hlookup
    rcases hserving a m hlookup with hbefore | ⟨hlist, rfl, rfl⟩
    · obtain ⟨hm, harena⟩ := h.serving a m hbefore
      rw [hmade m hm.made]
      exact ⟨hown m hm, harena⟩
    · rw [hnew]
      exact ⟨hlisted hlist, rfl⟩
  · intro c m hhost
    have hbefore : (w.memory.connections c).host = some m := by
      rw [hw'] at hhost
      exact hhost
    obtain ⟨hm, hspawned⟩ := h.hosts c m hbefore
    rw [hmade m hm.made]
    exact ⟨hown m hm, hspawned⟩
  · intro hbegun run halive
    have hbefore : Begun w := by
      rw [hw'] at hbegun
      exact hbegun
    have hrunning : w.alive run = true := by
      rw [hw'] at halive
      exact halive
    obtain ⟨m, hspawned, hrun⟩ := h.spawners hbefore run hrunning
    have hm : m ≠ w.memory.created := by
      rintro rfl
      simp [(h.blank _ (Nat.le_refl _)).2.2] at hspawned
    exact ⟨m, by rw [hold m hm]; exact hspawned, by rw [hold m hm]; exact hrun⟩
  · rw [hended, hw']
    exact h.halted
  · intro k hk
    rw [hcreated]
    exact (h.counted k (hended ▸ hk)).trans (Nat.le_succ _)
  · intro k hk a m hlookup
    rw [hended] at hk
    have hstopping : w'.memory.stopping = w.memory.stopping := by rw [hw']; rfl
    rw [hstopping]
    rcases hserving a m hlookup with hbefore | ⟨-, -, rfl⟩
    · exact h.listed k hk a m hbefore
    · exact .inr (h.counted k hk)
  · rw [hw']
    exact fun m hm => hw' ▸ hown m (h.stopping m hm)
  · rw [hw']
    exact fun m hm => hw' ▸ (h.stopped m hm).onward honward
  · intro hfree
    rw [hw'] at hfree
    simp [World.setMemory, Memory.create, hlocked] at hfree
/-- What `start` does to its match: a field is set that the books of the
others are not about. -/
structure Prepares (m : MatchId) (s s' : Memory) : Prop where
  created : s'.created = s.created
  serving : s'.serving = s.serving
  locked : s'.locked = s.locked
  running : s'.running = s.running
  ended : s'.ended = s.ended
  stopping : s'.stopping = s.stopping
  stopped : s'.stopped = s.stopped
  connections : s'.connections = s.connections
  same : ∀ m', (s'.objects m').run = (s.objects m').run ∧
    (s'.objects m').arenaId = (s.objects m').arenaId ∧
    (s'.objects m').closed = (s.objects m').closed ∧
    (s'.objects m').offset = (s.objects m').offset ∧
    (s'.objects m').peers = (s.objects m').peers
  others : ∀ m', m' ≠ m → s'.objects m' = s.objects m'

theorem Prepares.setMatch {s : Memory} {m : MatchId} {f : Match → Match}
    (h : ∀ M, (f M).run = M.run ∧ (f M).arenaId = M.arenaId ∧ (f M).closed = M.closed ∧
      (f M).offset = M.offset ∧ (f M).peers = M.peers) : Prepares m s (s.setMatch m f) where
  created := rfl
  serving := rfl
  locked := rfl
  running := rfl
  ended := rfl
  stopping := rfl
  stopped := rfl
  connections := rfl
  same := by
    intro m'
    by_cases hm : m' = m
    · subst hm
      simpa [Memory.setMatch] using h _
    · simp [Memory.setMatch, Function.update_of_ne hm]
  others := fun m' hm => Function.update_of_ne hm _ _

theorem Prepares.keeps {m : MatchId} {s s' : Memory} (h : Prepares m s s')
    (hspawned : (s.objects m).spawned = true → (s'.objects m).spawned = true) (m' : MatchId) :
    (s.objects m').Keeps (s'.objects m') := by
  obtain ⟨hrun, harena, hclosed, -⟩ := h.same m'
  refine ⟨hrun, harena, fun hc => hclosed.trans hc, ?_⟩
  by_cases hm : m' = m
  · rw [hm]
    exact hspawned
  · rw [h.others m' hm]
    exact fun hs => hs

/-- The socket of a match is made. -/
theorem Sane.socketpair (h : Sane maxClients w) {m : MatchId} (hlocked : w.memory.locked = true)
    (hmade : m < w.memory.created)
    (honly : ∀ m', (w.memory.objects m').run = (w.memory.objects m).run → m' = m)
    (hnone : w.engines (w.memory.objects m).run = none) (hw' : w' = w.setMemory
      (w.memory.setMatch m fun M => { M with
        socket := true })) : Sane maxClients w' ∧ Onward w w' := by
  have hprepares : Prepares m w.memory w'.memory := by
    have hset := Prepares.setMatch (s := w.memory) (m := m) (f := fun M => { M with
      socket := true }) fun M => ⟨rfl, rfl, rfl, rfl, rfl⟩
    rw [hw']
    exact hset
  have hspawned : ∀ m', (w'.memory.objects m').spawned = (w.memory.objects m').spawned := by
    intro m'
    by_cases hm : m' = m
    · rw [hw', hm]
      simp [World.setMemory, Memory.setMatch]
    · rw [hprepares.others m' hm]
  have hsocket : ∀ m', (w'.memory.objects m').socket = true →
      (w.memory.objects m').socket = true ∨ m' = m := by
    intro m' hs
    by_cases hm : m' = m
    · exact .inr hm
    · rw [hprepares.others m' hm] at hs
      exact .inl hs
  have hengines : w'.engines = w.engines := by rw [hw']; rfl
  have hledger : w'.ledger = w.ledger := by rw [hw']; rfl
  have hjournal : w'.journal = w.journal := by rw [hw']; rfl
  -- no other match has the run of the new socket
  have hsole : ∀ m₁ m', (w'.memory.objects m').socket = true →
      (w'.memory.objects m').run = (w'.memory.objects m₁).run →
      (∀ m', (w.memory.objects m').socket = true →
        (w.memory.objects m').run = (w.memory.objects m₁).run → m' = m₁) → m' = m₁ := by
    intro m₁ m' hs hrun hbefore
    rw [(hprepares.same m').1, (hprepares.same m₁).1] at hrun
    rcases hsocket m' hs with hold | heq
    · exact hbefore m' hold hrun
    · rw [heq] at hrun ⊢
      exact (honly m₁ hrun.symm).symm
  have hown : ∀ m', Own m' w → Own m' w' := by
    intro m' hm
    refine ⟨hprepares.created ▸ hm.made, ?_, fun m'' hs hrun => hsole m' m'' hs hrun hm.sole, ?_⟩
    · rw [(hprepares.same m').1]
      exact hm.named
    · rw [hspawned, (hprepares.same m').1, hengines]
      exact hm.pending
  have honward : Onward w w' :=
    { progress := by rw [hledger]; exact .refl _
      journal := by rw [hjournal]; exact fun _ => List.prefix_rfl
      exited := by
        intro run hexited
        unfold Exited at hexited ⊢
        rw [hengines, hjournal]
        exact ⟨hexited, rfl⟩
      shut := by
        intro run hshut
        refine ⟨hengines ▸ hshut.untouched, ?_⟩
        intro m' hs hrun
        rw [(hprepares.same m').1] at hrun
        rw [(hprepares.same m').2.2.1]
        rcases hsocket m' hs with hold | heq
        · exact hshut.cut m' hold hrun
        · obtain ⟨e, he, -⟩ := hshut.untouched
          rw [← hrun, heq, hnone] at he
          cases he
      created := hprepares.created.ge
      ended := fun k hk => hprepares.ended.trans hk
      late := by
        rintro m' - ⟨k, hk, hle⟩
        exact ⟨k, hprepares.ended.symm.trans hk, hle⟩
      objects := fun m' _ => hprepares.keeps (fun hs => (hspawned m).trans hs) m'
      own := hown
      barren := by
        intro m' hm
        refine ⟨hprepares.created ▸ hm.made, (hprepares.same m').2.2.1.trans hm.closed,
          fun m'' hs hrun => hsole m' m'' hs hrun hm.sole, ?_⟩
        rw [(hprepares.same m').1, hengines]
        exact hm.untouched }
  refine
    ⟨{ reach := hledger ▸ h.reach
       books := by rw [hledger, hjournal]; exact h.books
       engines := by rw [hengines]; exact h.engines
       known := by rw [hengines, hledger]; exact h.known
       single := ?_, offsets := ?_, rows := ?_, blank := ?_, started := ?_, peers := ?_
       sockets := ?_, serving := ?_, hosts := ?_
       launched := by rw [hengines, hledger]; exact h.launched
       spawners := ?_
       halted := by rw [hprepares.ended, hprepares.running]; exact h.halted
       counted := by rw [hprepares.ended, hprepares.created]; exact h.counted
       listed := by
        rw [hprepares.ended, hprepares.serving, hprepares.stopping]
        exact h.listed
       stopping := ?_, stopped := ?_, tidy := ?_ }, honward⟩
  · subst hw'
    exact h.single
  · intro m'
    obtain ⟨k, hoffset, hk⟩ := h.offsets m'
    rw [(hprepares.same m').2.2.2.1, (hprepares.same m').1, hjournal]
    unfold World.applied
    rw [hjournal, hledger]
    exact ⟨k, hoffset, hk⟩
  · intro m' hnamed
    rw [(hprepares.same m').1] at hnamed ⊢
    rw [(hprepares.same m').2.1, hledger]
    exact h.rows m' hnamed
  · intro m' hm'
    rw [hprepares.created] at hm'
    rw [hprepares.others m' (Nat.ne_of_gt (hmade.trans_le hm'))]
    exact h.blank m' hm'
  · intro m' hs
    rw [hspawned] at hs
    rw [(hprepares.same m').1, hengines]
    refine ⟨?_, (h.started m' hs).2⟩
    by_cases hm : m' = m
    · rw [hm, hw']
      simp [World.setMemory, Memory.setMatch]
    · rw [hprepares.others m' hm]
      exact (h.started m' hs).1
  · intro m' hs
    rw [hspawned] at hs
    rw [(hprepares.same m').2.2.2.2]
    exact h.peers m' hs
  · intro m₁ m₂ hs₁ hs₂ hrun
    rcases hsocket m₂ hs₂ with hold | rfl
    · exact hsole m₂ m₁ hs₁ hrun fun m' hs hrun' => h.sockets m' m₂ hs hold hrun'
    · rw [(hprepares.same m₁).1, (hprepares.same m₂).1] at hrun
      exact honly m₁ hrun
  · intro a m' hlookup
    rw [hprepares.serving] at hlookup
    obtain ⟨hm, harena⟩ := h.serving a m' hlookup
    exact ⟨hown m' hm, (hprepares.same m').2.1.trans harena⟩
  · intro c m' hhost
    rw [hprepares.connections] at hhost
    obtain ⟨hm, hs⟩ := h.hosts c m' hhost
    exact ⟨hown m' hm, (hspawned m').trans hs⟩
  · intro hbegun run hrunning
    unfold Begun at hbegun
    rw [hprepares.running, hprepares.ended] at hbegun
    have hbefore : w.alive run = true := by
      rw [hw'] at hrunning
      exact hrunning
    obtain ⟨m', hs, hrun⟩ := h.spawners hbegun run hbefore
    exact ⟨m', (hspawned m').trans hs, (hprepares.same m').1.trans hrun⟩
  · rw [hprepares.stopping]
    exact fun m' hm' => honward.own m' (h.stopping m' hm')
  · rw [hprepares.stopped]
    exact fun m' hm' => (h.stopped m' hm').onward honward
  · intro hfree
    rw [hprepares.locked, hlocked] at hfree
    cases hfree

/-- The engine of a match is started. -/
theorem Sane.spawn (h : Sane maxClients w) {m : MatchId} (hlocked : w.memory.locked = true)
    (hm : Own m w) (hsocket : (w.memory.objects m).socket = true)
    (hunspawned : (w.memory.objects m).spawned = false)
    (halone : ∀ run, w.alive run = true → ¬Neighbours w run (w.memory.objects m).run)
    (hw' : w' = (w.setEngine (w.memory.objects m).run .new).setMemory
      (w.memory.setMatch m fun M => { M with
        spawned := true })) : Sane maxClients w' ∧ Onward w w' := by
  have hnone := hm.pending hunspawned
  have hprepares : Prepares m w.memory w'.memory := by
    have hset := Prepares.setMatch (s := w.memory) (m := m) (f := fun M => { M with
      spawned := true }) fun M => ⟨rfl, rfl, rfl, rfl, rfl⟩
    rw [hw']
    exact hset
  have hspawned : ∀ m', (w'.memory.objects m').spawned = true →
      (w.memory.objects m').spawned = true ∨ m' = m := by
    intro m' hs
    by_cases hm : m' = m
    · exact .inr hm
    · rw [hprepares.others m' hm] at hs
      exact .inl hs
  have hstarted : (w'.memory.objects m).spawned = true := by
    rw [hw']
    simp [World.setMemory, Memory.setMatch]
  have hstays : ∀ m', (w.memory.objects m').spawned = true →
      (w'.memory.objects m').spawned = true := by
    intro m' hs
    by_cases hm : m' = m
    · exact hm ▸ hstarted
    · rw [hprepares.others m' hm]
      exact hs
  have hsockets : ∀ m', (w'.memory.objects m').socket = (w.memory.objects m').socket := by
    intro m'
    by_cases hm : m' = m
    · rw [hw', hm]
      simp [World.setMemory, Memory.setMatch]
    · rw [hprepares.others m' hm]
  have hengine : w'.engines (w.memory.objects m).run = some .new := by
    rw [hw']
    exact Function.update_self _ _ _
  have hengines : ∀ run, run ≠ (w.memory.objects m).run → w'.engines run = w.engines run := by
    rw [hw']
    exact fun run hrun => Function.update_of_ne hrun _ _
  have hledger : w'.ledger = w.ledger := by rw [hw']; rfl
  have hjournal : w'.journal = w.journal := by
    funext run
    by_cases hrun : run = (w.memory.objects m).run
    · rw [hrun, journal_of_some hengine, journal_of_none hnone]
      rfl
    · unfold World.journal
      rw [hengines run hrun]
  have halive : ∀ run, w'.alive run = true → w.alive run = true ∨
    run = (w.memory.objects m).run := by
    intro run hrun
    by_cases heq : run = (w.memory.objects m).run
    · exact .inr heq
    · unfold World.alive at hrun ⊢
      rw [hengines run heq] at hrun
      exact .inl hrun
  have hother : ∀ m', Own m' w → m' ≠ m →
      (w.memory.objects m').run ≠ (w.memory.objects m).run := by
    intro m' hown hne hrun
    exact hne (hown.sole m hsocket hrun.symm).symm
  have hown : ∀ m', Own m' w → Own m' w' := by
    intro m' hown
    refine ⟨hprepares.created ▸ hown.made, ?_, ?_, ?_⟩
    · rw [(hprepares.same m').1]
      exact hown.named
    · intro m'' hs hrun
      rw [hsockets] at hs
      rw [(hprepares.same m'').1, (hprepares.same m').1] at hrun
      exact hown.sole m'' hs hrun
    · intro hunspawned'
      have hne : m' ≠ m := by
        rintro rfl
        rw [hstarted] at hunspawned'
        cases hunspawned'
      rw [hprepares.others m' hne] at hunspawned' ⊢
      rw [hengines _ (hother m' hown hne)]
      exact hown.pending hunspawned'
  have honward : Onward w w' :=
    { progress := by rw [hledger]; exact .refl _
      journal := by rw [hjournal]; exact fun _ => List.prefix_rfl
      exited := by
        intro run hexited
        have hne : run ≠ (w.memory.objects m).run := by
          rintro rfl
          obtain ⟨e, he, -⟩ := hexited
          rw [hnone] at he
          cases he
        unfold Exited at hexited ⊢
        rw [hengines run hne, hjournal]
        exact ⟨hexited, rfl⟩
      shut := by
        intro run hshut
        obtain ⟨e, he, huntouched⟩ := hshut.untouched
        have hne : run ≠ (w.memory.objects m).run := by
          rintro rfl
          rw [hnone] at he
          cases he
        refine ⟨⟨e, (hengines run hne).trans he, huntouched⟩, ?_⟩
        intro m' hs hrun
        rw [hsockets] at hs
        rw [(hprepares.same m').1] at hrun
        rw [(hprepares.same m').2.2.1]
        exact hshut.cut m' hs hrun
      created := hprepares.created.ge
      ended := fun k hk => hprepares.ended.trans hk
      late := by
        rintro m' - ⟨k, hk, hle⟩
        exact ⟨k, hprepares.ended.symm.trans hk, hle⟩
      objects := fun m' _ => hprepares.keeps (fun _ => hstarted) m'
      own := hown
      barren := by
        intro m' hbarren
        refine ⟨hprepares.created ▸ hbarren.made, (hprepares.same m').2.2.1.trans hbarren.closed,
          ?_, ?_⟩
        · intro m'' hs hrun
          rw [hsockets] at hs
          rw [(hprepares.same m'').1, (hprepares.same m').1] at hrun
          exact hbarren.sole m'' hs hrun
        · rw [(hprepares.same m').1]
          intro e he
          by_cases hrun : (w.memory.objects m').run = (w.memory.objects m).run
          · rw [hrun, hengine, Option.some.injEq] at he
            exact he ▸ .new
          · rw [hengines _ hrun] at he
            exact hbarren.untouched e he }
  have hlives : ∀ run, w.alive run = true → w.engines run ≠ none := by
    intro run hrun hempty
    obtain ⟨e, he, -⟩ := alive_iff.mp hrun
    rw [hempty] at he
    cases he
  have hnear : ∀ run run', Neighbours w run run' → Neighbours w run' run := by
    rintro run run' ⟨r, hr, r', hr', hid, hid', harena⟩
    exact ⟨r', hr', r, hr, hid', hid, harena.symm⟩
  refine
    ⟨{ reach := hledger ▸ h.reach
       books := by rw [hledger, hjournal]; exact h.books
       engines := ?_, known := ?_, single := ?_, offsets := ?_, rows := ?_, blank := ?_
       started := ?_, peers := ?_, sockets := ?_, serving := ?_, hosts := ?_
       launched := ?_, spawners := ?_
       halted := by rw [hprepares.ended, hprepares.running]; exact h.halted
       counted := by rw [hprepares.ended, hprepares.created]; exact h.counted
       listed := by
        rw [hprepares.ended, hprepares.serving, hprepares.stopping]
        exact h.listed
       stopping := ?_, stopped := ?_, tidy := ?_ }, honward⟩
  · intro run e he
    by_cases hrun : run = (w.memory.objects m).run
    · rw [hrun, hengine, Option.some.injEq] at he
      exact he ▸ .new maxClients
    · rw [hengines run hrun] at he
      exact h.engines run e he
  · intro run hsome
    rw [hledger]
    by_cases hrun : run = (w.memory.objects m).run
    · obtain ⟨r, hr, hid, -⟩ := h.rows m hm.named
      exact ⟨r, hr, hid.trans hrun.symm⟩
    · rw [hengines run hrun] at hsome
      exact h.known run hsome
  · intro run run' hrun hrun' hneighbours
    have hbefore : Neighbours w run run' := by
      unfold Neighbours at hneighbours
      rw [hledger] at hneighbours
      exact hneighbours
    rcases halive run hrun with hold | heq
    · rcases halive run' hrun' with hold' | heq'
      · exact h.single run run' hold hold' hbefore
      · exact absurd (heq' ▸ hbefore) (halone run hold)
    · rcases halive run' hrun' with hold' | heq'
      · exact absurd (hnear _ _ (heq ▸ hbefore)) (halone run' hold')
      · exact heq.trans heq'.symm
  · intro m'
    obtain ⟨k, hoffset, hk⟩ := h.offsets m'
    rw [(hprepares.same m').2.2.2.1, (hprepares.same m').1, hjournal]
    unfold World.applied
    rw [hjournal, hledger]
    exact ⟨k, hoffset, hk⟩
  · intro m' hnamed
    rw [(hprepares.same m').1] at hnamed ⊢
    rw [(hprepares.same m').2.1, hledger]
    exact h.rows m' hnamed
  · intro m' hm'
    rw [hprepares.created] at hm'
    rw [hprepares.others m' (Nat.ne_of_gt (hm.made.trans_le hm'))]
    exact h.blank m' hm'
  · intro m' hs
    rw [hsockets, (hprepares.same m').1]
    rcases hspawned m' hs with hold | rfl
    · refine ⟨(h.started m' hold).1, ?_⟩
      by_cases hrun : (w.memory.objects m').run = (w.memory.objects m).run
      · rw [hrun, hengine]
        simp
      · rw [hengines _ hrun]
        exact (h.started m' hold).2
    · rw [hengine]
      exact ⟨hsocket, by simp⟩
  · intro m' hs
    rw [(hprepares.same m').2.2.2.2]
    refine h.peers m' ?_
    by_contra hspawned
    rw [Bool.not_eq_false] at hspawned
    simp [hstays m' hspawned] at hs
  · intro m₁ m₂ hs₁ hs₂ hrun
    rw [hsockets] at hs₁ hs₂
    rw [(hprepares.same m₁).1, (hprepares.same m₂).1] at hrun
    exact h.sockets m₁ m₂ hs₁ hs₂ hrun
  · intro a m' hlookup
    rw [hprepares.serving] at hlookup
    obtain ⟨hown', harena⟩ := h.serving a m' hlookup
    exact ⟨hown m' hown', (hprepares.same m').2.1.trans harena⟩
  · intro c m' hhost
    rw [hprepares.connections] at hhost
    obtain ⟨hown', hs⟩ := h.hosts c m' hhost
    exact ⟨hown m' hown', hstays m' hs⟩
  · intro l hl hnone
    rw [hledger] at hl
    by_cases hrun : l.runId = (w.memory.objects m).run
    · rw [hrun, hengine] at hnone
      cases hnone
    · exact h.launched l hl ((hengines _ hrun).symm.trans hnone)
  · intro hbegun run hrunning
    unfold Begun at hbegun
    rw [hprepares.running, hprepares.ended] at hbegun
    rcases halive run hrunning with hold | rfl
    · obtain ⟨m', hs, hrun⟩ := h.spawners hbegun run hold
      exact ⟨m', hstays m' hs, (hprepares.same m').1.trans hrun⟩
    · exact ⟨m, hstarted, (hprepares.same m).1⟩
  · rw [hprepares.stopping]
    exact fun m' hm' => honward.own m' (h.stopping m' hm')
  · rw [hprepares.stopped]
    exact fun m' hm' => (h.stopped m' hm').onward honward
  · intro hfree
    rw [hprepares.locked, hlocked] at hfree
    cases hfree

end

end QuakeJs.Server
