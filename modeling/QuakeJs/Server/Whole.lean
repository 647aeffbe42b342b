import QuakeJs.Server.Requests
import QuakeJs.Server.Schedules

/-!
# Every state that the system can reach

The tasks keep to their locks, so the world is `Orderly` in every state that
can be reached, through cancellations, shutdowns, crashes and restarts, and
every task finds what its next transaction needs. What the ledger, the journals and the engines
promise each other
follows from that.
-/

namespace QuakeJs.Async

/-- What holds of the operation that a task awaits. -/
def Task.Awaits {Op : Type} {Ans : Op → Type} {E α : Type} (P : Op → Prop) :
    Task Op Ans E α → Prop
  | .done _ => True
  | .call op _ => P op

end QuakeJs.Async

namespace QuakeJs.Server

open Async Engine Ledger

section

variable {digest : String → String} {maxClients : Nat} {visitors : ConnectionId → String × Uid}
  {pool : Tasks}

/-- A task that holds no lock can start in an orderly world. -/
theorem idle_apart {w : World} (h : Orderly maxClients w) :
    (custody maxClients).apart w (custody maxClients).idle (custody maxClients).idle := by
  have howns : View.Owns ⟨false, none⟩ w := ⟨fun h => (by cases h), fun _ h => (by cases h)⟩
  exact ⟨h, howns, howns, fun h => (by cases h.1), fun _ h => by cases h.1⟩

/-- The tasks keep to their locks. -/
theorem Reachable.sound (h : Reachable digest maxClients visitors pool) :
    pool.Sound ((custody maxClients).marked Bool) (Proceeds digest) := by
  refine Pool.Reachable.sound (Orderly.initial maxClients visitors)
    (idle_apart (Orderly.initial maxClients visitors)) ?_ ?_ ?_ h
  · intro task hstarts w horderly
    refine (Spec.starts hstarts ⟨false, none⟩ w horderly ⟨rfl, horderly, ?_, ?_, trivial⟩).mono
      fun _ _ _ _ _ => trivial
    · exact ⟨fun h => (by cases h), fun _ h => (by cases h)⟩
    · exact fun _ h => by cases h
  · intro w w' horderly houtside
    have hpass := horderly.outside houtside
    exact ⟨hpass.orderly, fun u _ _ _ => hpass.relies horderly
      (fun _ => rfl) fun _ _ h => by cases h⟩
  · intro w w' horderly hcrash
    have hafter := (horderly.crashes hcrash).1
    exact ⟨hafter, idle_apart hafter⟩

theorem Reachable.orderly (h : Reachable digest maxClients visitors pool) :
    Orderly maxClients pool.world := h.sound.1

/-- Every transaction has what it needs. -/
theorem Reachable.safe (h : Reachable digest maxClients visitors pool) (i : Nat) :
    (pool.tasks i).Awaits fun o => Safe o.1 pool.world := by
  cases htask : pool.tasks i with
  | done result => trivial
  | call o next => exact h.sound.safe htask

/-- What every step leaves in place. -/
theorem Reachable.lasting {pool' : Tasks} (h : Reachable digest maxClients visitors pool)
    (hstep : Steps digest maxClients visitors pool pool') : Lasting pool.world pool'.world := by
  cases hstep with
  | start => exact .refl _
  | run i op next outcome world hawaits hdoes =>
    -- The step of a task, as one of a pool in which nothing else happens.
    have hrun : Pool.Step (Proceeds digest) (fun _ => False) (fun _ _ => False) (fun _ _ => False)
        pool ⟨world, Function.update pool.tasks i (next outcome)⟩ :=
      @Pool.Step.run (Op × Bool) (fun o => o.1.Ans) Fault World _ _ _ _ _ i op next outcome world
        hawaits hdoes
    have hrely : Relies maxClients ⟨false, none⟩ pool.world world :=
      hrun.rely (D := (custody maxClients).marked Bool) (fun _ _ _ h => h.elim)
        (fun _ _ _ h => h.elim) h.sound h.orderly
    exact hrely.onward.toLasting
  | lose => exact .refl _
  | world world hdoes => exact (h.orderly.outside hdoes).onward.toLasting
  | crash world hdoes => exact (h.orderly.crashes hdoes).2

/-! ## What is promised -/

/-- A run has applied its first lines, and a life is dead when one of them
names it, and only then. -/
structure DeathsBooked (w : World) : Prop where
  applied : ∀ r ∈ w.ledger.runs, w.applied r.id = (w.journal r.id).take r.eventSequence.toNat ∧
    r.eventSequence ≤ (w.journal r.id).length
  dead_iff : ∀ l ∈ w.ledger.lives, l.status = .dead ↔
    ∃ line ∈ w.applied l.runId, line.victim = l.id

/-- Every line of a run that has ended is applied. -/
def EndedApplied (w : World) : Prop :=
  ∀ r ∈ w.ledger.runs, r.status ≠ .running → w.applied r.id = w.journal r.id

/-- A death that was charged stays charged. -/
structure ChargesLast (w w' : World) : Prop where
  applied : ∀ run, w.applied run <+: w'.applied run
  dead : ∀ l ∈ w.ledger.lives, l.status = .dead →
    ∃ l' ∈ w'.ledger.lives, l'.id = l.id ∧ l'.runId = l.runId ∧ l'.status = .dead

/-- A kill is paid only for a line that names its victim and its killer. -/
def KillsReported (w : World) : Prop :=
  ∀ p ∈ w.ledger.payouts, ∃ l ∈ w.ledger.lives, l.id = p.victimId ∧ l.status = .dead ∧
    ∃ line ∈ w.applied l.runId, line.victim = p.victimId ∧ line.killer = p.killerId

/-- Two engines that run are of two arenas. -/
def OneEngine (w : World) : Prop :=
  ∀ r ∈ w.ledger.runs, ∀ r' ∈ w.ledger.runs, r.arenaId = r'.arenaId →
    w.alive r.id = true → w.alive r'.id = true → r = r'

/-- What an engine that runs holds is a life in play, in its run and its slot. -/
def HeldInPlay (w : World) : Prop :=
  ∀ run e, w.engines run = some e → e.running = true → ∀ peer id, e.tables.Holds peer id →
    Seated w.ledger run peer id

/-- No engine that runs holds an admission of the life or will get one, and no
line that waits to be applied names it. -/
structure OutOfReach (id : Uid) (w : World) : Prop where
  held : ∀ run e, w.engines run = some e → e.running = true → ∀ peer, ¬e.tables.Holds peer id
  sent : ∀ run e, w.engines run = some e → e.running = true → ∀ (p : UInt8) rest,
    1 :: p :: rest ∈ e.inbox → text rest ≠ id
  lines : ∀ run, ∀ line ∈ w.unapplied run, line.victim ≠ id

/-- A life that was given back, or that waits for its next run, is out of
reach. -/
def SpareOutOfReach (w : World) : Prop :=
  ∀ l ∈ w.ledger.lives, l.status = .left ∨ l.status = .refunded → OutOfReach l.id w

/-- The next line of a journal is in order: it leaves no gap, its victim is a
life of the run, and a life that dies of it is paid for. -/
def JournalsApply (w : World) : Prop :=
  ∀ run line lines, w.unapplied run = line :: lines → ∀ env message,
    consumeDeath env run line.sequence line.victim line.killer w.ledger ≠
      .error (.valueError message)

/-- An operation releases only runs that are settled. -/
def ReleasesSettled (w : World) (op : Op) : Prop :=
  ∀ t run, op = .transact t → t.action.releases = some run → Settled run w

/-- The barrier of a leave: when the refunds of a player are queued, the lives
that are given back are out of reach. -/
def LeavesBarred (w : World) (op : Op) : Prop :=
  ∀ playerId run, op = .transact (.finishLeave playerId run) →
    ∀ env σ', Ledger.finishLeave env playerId run w.ledger = .ok σ' →
      ∀ l ∈ w.ledger.lives, l.playerId = playerId → l.status ≠ .dead → OutOfReach l.id w

/-! ## A game to check the results on -/

namespace Skirmish

variable {pool pool' : Tasks}

abbrev Turns := List (Turn Starter Choice Besides)

def arena : Uid := (draw 1000 2).uid 0

/-- Two browsers, of two players. -/
def browsers (c : ConnectionId) : String × Uid :=
  (if c = 0 then Duel.token 'a' else Duel.token 'b', arena)

/-- The entry, the player and the first life of each of them. -/
def entryA : Uid := (draw 1000 3).uid 1
def entryB : Uid := (draw 1000 4).uid 1
def playerB : Uid := (draw 1000 4).uid 0
def lifeA : Uid := (draw 1000 8).uid 0
def lifeB : Uid := (draw 1000 9).uid 0

/-- The runs of the arena. -/
def first : Uid := (draw 1000 6).uid 0
def second : Uid := (draw 1000 14).uid 0

/-- The task `i` performs `n` operations, which return. -/
def go (i draw n : Nat) : Turns := List.replicate n (.run i ⟨1000, draw, 0⟩)

def game (draw : Nat) (a : Action) : Turn Starter Choice Besides := .world (.game 1000 draw a)

def happens (h : Happening) : Turn Starter Choice Besides := .world (.happens h)

/-- An engine handles a packet of its match, and acknowledges it. -/
def answer (m : MatchId) (run : Uid) (kind peer : UInt8) (payload : String) : Turns :=
  [happens (.engine run (.packet (kind :: peer :: encode payload)
    (fun _ => false) .whole .whole)),
    happens (.receive m)]

/-- Two players buy an entry each. -/
def sales : Turns :=
  [game 1 (.saveSettings "owner" "wallet" true 10 true),
    game 2 (.createArena "owner" ⟨"game", 100, "oa_dm7", Duel.price_ge, Duel.price_le⟩),
    game 3 (.reserveEntry arena (Duel.token 'a') ⟨"a@ln", "nonce", "A"⟩),
    game 4 (.reserveEntry arena (Duel.token 'b') ⟨"b@ln", "nonce", "B"⟩),
    game 5 (.settleEntry (Duel.payment entryA "hashA")),
    game 5 (.settleEntry (Duel.payment entryB "hashB"))]

/-- The first player starts the server of the arena and is admitted. -/
def opening : Turns :=
  .start 0 (.admission 0) :: go 0 6 6 ++ go 0 7 7 ++ happens (.ready 0) :: go 0 8 10 ++
    go 0 9 2 ++ answer 0 first 1 1 lifeA ++ go 0 9 8

/-- The second player is admitted. -/
def joining : Turns :=
  .start 1 (.admission 1) :: go 1 9 11 ++ go 1 10 2 ++ answer 0 first 1 2 lifeB ++ go 1 10 8

/-- The second player kills the first one. -/
def frag : Turns :=
  [happens (.engine first (.connect ⟨true, 127, 0, 0, 1⟩ lifeA [] (some 0))),
    happens (.engine first (.connect ⟨true, 127, 0, 0, 2⟩ lifeB [] (some 1))),
    happens (.engine first (.frag (some (1, 0)) .whole))]

/-- A round of the loop. -/
def replaying : Turns :=
  .start 0 (.round arena 0) :: go 0 11 6 ++ go 0 12 7 ++ happens (.receive 0) ::
    answer 0 first 3 1 "" ++ go 0 12 16

/-- The second player asks to leave, up to the transaction of the leave. -/
def asking : Turns :=
  .start 1 (.leaveGame arena (Duel.token 'b')) :: go 1 12 10 ++ answer 0 first 3 2 "" ++ go 1 12 6

/-- The leave. -/
def leaving : Turns := go 1 12 1 ++ go 1 13 4

/-- A round of the loop is cancelled while it reads the journal. -/
def interrupting : Turns :=
  .start 0 (.round arena 0) :: go 0 13 3 ++ .run 0 ⟨1000, 13, 2⟩ :: go 0 13 2

/-- The loop comes to its end, up to the transaction of a stop. -/
def stopping : Turns :=
  .start 0 .shutDown :: go 0 13 1 ++ .start 1 (.shutStop 0) :: go 1 13 2 ++
    happens (.exit first) :: go 1 13 4

/-- The end of the stop, and that of the loop. -/
def closing : Turns := go 1 13 4 ++ go 0 13 1

/-- The first player starts the server again. -/
def returning : Turns := .start 0 (.admission 0) :: go 0 14 6 ++ go 0 15 7

def play (turns : Turns) (pool : Tasks) : Option Tasks := (scheduler 5 8).play turns pool

/-- A new worker serves what an old one left. -/
def renewed (w : World) : World :=
  ({ w with
    memory := .initial browsers w.memory.created }).restarted "worker" 4

/-- Nobody has come to a worker yet. -/
def quiet (w : World) : Tasks := ⟨w, fun _ => .done (.ok ())⟩

/-- The death is in the journal. -/
def struck : Option Tasks :=
  play (sales ++ opening ++ joining ++ frag) (quiet (renewed (World.initial browsers)))

/-- The death is in the ledger. -/
def fought : Option Tasks := struck.bind (play replaying)

/-- The leave is about to be committed. -/
def asked : Option Tasks := fought.bind (play asking)

/-- The second player has left. -/
def left : Option Tasks := asked.bind (play leaving)

/-- A round was cancelled, the loop is at its end, and its stop is about to be
committed. -/
def ending : Option Tasks := left.bind (play (interrupting ++ stopping))

/-- The worker serves nobody any more. -/
def closed : Option Tasks := ending.bind (play closing)

/-- The worker has crashed, and under a new one the arena has a second run. -/
def returned : Option Tasks := closed.bind fun pool => play returning (quiet (renewed pool.world))

/-- The line of the death. -/
def death : Line where
  sequence := 1
  killer := lifeB
  victim := lifeA

/-- The task awaits this transaction, with this mark. -/
def waitsFor (t : Transaction) (b : Bool) (task : Marked Unit) : Bool :=
  match task with
  | .call (.transact t', b') _ => t' = t && b' = b
  | _ => false

theorem of_waitsFor {t : Transaction} {b : Bool} {task : Marked Unit}
    (h : waitsFor t b task = true) : ∃ next, task = .call (.transact t, b) next := by
  unfold waitsFor at h
  split at h
  · rename_i t' b' next
    rw [Bool.and_eq_true, decide_eq_true_eq, decide_eq_true_eq] at h
    obtain ⟨rfl, rfl⟩ := h
    exact ⟨next, rfl⟩
  · cases h

/-- What is played. -/
@[mk_iff]
structure Played : Prop where
  struck : struck.any (fun pool => pool.world.unapplied first = [death]) = true
  fought : fought.any (fun pool =>
    (∃ l ∈ pool.world.ledger.lives, l.id = lifeA ∧ l.status = .dead) ∧
    (∃ p ∈ pool.world.ledger.payouts, p.victimId = lifeA ∧ p.killerId = lifeB) ∧
    (pool.world.engines first).any fun e => e.running ∧ e.tables.consumed 2 = false ∧
      e.tables.admissions 2 = lifeB) = true
  asked : asked.any (fun pool =>
    waitsFor (.finishLeave playerB first) false (pool.tasks 1) ∧
    (Ledger.finishLeave (draw 1000 12) playerB first pool.world.ledger).toOption.isSome ∧
    ∃ l ∈ pool.world.ledger.lives, l.id = lifeB ∧ l.playerId = playerB ∧ l.status = .alive) = true
  left : left.any (fun pool =>
    ∃ l ∈ pool.world.ledger.lives, l.id = lifeB ∧ l.status = .refunded) = true
  ending : ending.any (fun pool =>
    waitsFor (.stopRun arena "worker" first) false (pool.tasks 1)) = true
  closed : closed.any (fun pool =>
    (∀ r ∈ pool.world.ledger.runs, pool.world.alive r.id = false) ∧
    pool.world.memory.serving.keys = []) = true
  returned : returned.any (fun pool =>
    (∃ r ∈ pool.world.ledger.runs, r.id = first ∧ r.arenaId = arena ∧ r.status = .stopped) ∧
    (∃ r ∈ pool.world.ledger.runs, r.id = second ∧ r.arenaId = arena) ∧
    pool.world.journal first = [death] ∧ pool.world.alive second = true) = true

theorem played : Played := played_iff.mpr (by decide +kernel)

theorem steps_play {turns : Turns} (h : play turns pool = some pool') :
    Relation.ReflTransGen (Steps id 8 browsers) pool pool' :=
  Scheduler.plays (scheduler_keeps 5 8) h

/-- A new worker takes over when no engine is left. -/
theorem steps_renewed (hdead : ∀ run, pool.world.alive run = false) :
    Relation.ReflTransGen (Steps id 8 browsers) pool (quiet (renewed pool.world)) := by
  have hcrash : Steps id 8 browsers pool (quiet { pool.world with
      memory := .initial browsers pool.world.memory.created }) := .crash _ rfl
  exact .tail (.single hcrash) (.world _ (.restarts "worker" 4 rfl rfl hdead))

/-- What is played from a state that can be reached. -/
theorem reachable_bind {before : Option Tasks} {turns : Turns}
    (hreach : ∀ pool, before = some pool → Reachable id 8 browsers pool)
    (h : before.bind (play turns) = some pool) : Reachable id 8 browsers pool := by
  obtain ⟨pool₀, hbefore, hplay⟩ := Option.bind_eq_some_iff.mp h
  exact (hreach pool₀ hbefore).steps (steps_play hplay)

theorem reachable_struck (h : struck = some pool) : Reachable id 8 browsers pool := by
  have hserves : Reachable id 8 browsers (quiet (renewed (World.initial browsers))) :=
    Pool.Reachable.initial.steps (steps_renewed fun _ => rfl)
  exact hserves.steps (steps_play h)

theorem reachable_fought (h : fought = some pool) : Reachable id 8 browsers pool :=
  reachable_bind (fun _ => reachable_struck) h

theorem reachable_asked (h : asked = some pool) : Reachable id 8 browsers pool :=
  reachable_bind (fun _ => reachable_fought) h

theorem reachable_left (h : left = some pool) : Reachable id 8 browsers pool :=
  reachable_bind (fun _ => reachable_asked) h

theorem reachable_ending (h : ending = some pool) : Reachable id 8 browsers pool :=
  reachable_bind (fun _ => reachable_left) h

theorem reachable_closed (h : closed = some pool) : Reachable id 8 browsers pool :=
  reachable_bind (fun _ => reachable_ending) h

/-- The engines of the old worker have exited. -/
theorem dead_closed (h : closed = some pool) (run : Uid) : pool.world.alive run = false := by
  obtain ⟨pool₀, hpool₀, hfacts⟩ := (Option.any_eq_true _ _).mp (played).closed
  obtain rfl : pool₀ = pool := Option.some.inj (hpool₀.symm.trans h)
  by_contra halive
  rw [Bool.not_eq_false] at halive
  obtain ⟨e, he, -⟩ := alive_iff.mp halive
  obtain ⟨r, hr, hid⟩ :=
    (reachable_closed h).orderly.sane.known run (by rw [he]; exact Option.some_ne_none e)
  rw [← hid, (of_decide_eq_true hfacts).1 r hr] at halive
  cases halive

theorem steps_returned_closed (h : closed = some pool) (hreturned : returned = some pool') :
    Relation.ReflTransGen (Steps id 8 browsers) pool pool' := by
  obtain ⟨pool₀, hpool₀, hplay⟩ := Option.bind_eq_some_iff.mp hreturned
  obtain rfl : pool₀ = pool := Option.some.inj (hpool₀.symm.trans h)
  exact (steps_renewed (dead_closed h)).trans (steps_play hplay)

theorem reachable_returned (h : returned = some pool) : Reachable id 8 browsers pool := by
  obtain ⟨pool₀, hclosed, -⟩ := Option.bind_eq_some_iff.mp h
  exact (reachable_closed hclosed).steps (steps_returned_closed hclosed h)

/-- What comes after the fight. -/
theorem steps_returned (h : fought = some pool) (hreturned : returned = some pool') :
    Relation.ReflTransGen (Steps id 8 browsers) pool pool' := by
  obtain ⟨pool₄, hclosed, -⟩ := Option.bind_eq_some_iff.mp hreturned
  obtain ⟨pool₃, hending, hclose⟩ := Option.bind_eq_some_iff.mp hclosed
  obtain ⟨pool₂, hleft, hstop⟩ := Option.bind_eq_some_iff.mp hending
  obtain ⟨pool₁, hasked, hleave⟩ := Option.bind_eq_some_iff.mp hleft
  obtain ⟨pool₀, hfought, hask⟩ := Option.bind_eq_some_iff.mp hasked
  obtain rfl : pool₀ = pool := Option.some.inj (hfought.symm.trans h)
  have hfirst := (steps_play hask).trans (steps_play hleave)
  have hsecond := (steps_play hstop).trans (steps_play hclose)
  exact (hfirst.trans hsecond).trans (steps_returned_closed hclosed hreturned)

end Skirmish

/-! ## The ledger and the journals -/

theorem deaths_are_booked (h : Reachable digest maxClients visitors pool) :
    DeathsBooked pool.world := by
  have hbooks := h.orderly.sane.books
  refine ⟨fun r hr => ⟨applied_of_mem hr, (hbooks.counted r hr).2⟩, fun l hl => ⟨?_, ?_⟩⟩
  · intro hdead
    obtain ⟨line, hline, hvictim, -⟩ := hbooks.died l hl hdead
    exact ⟨line, hline, hvictim⟩
  · rintro ⟨line, hline, hvictim⟩
    obtain ⟨r, hr, hid, -⟩ := hbooks.home l hl
    rw [← hid] at hline
    obtain ⟨l', hl', hid', -, hdead⟩ := hbooks.ended r hr line hline
    have hsame : l' = l := Table.mem_inj hl' hl (hid'.trans hvictim)
    exact hsame ▸ hdead

theorem deaths_are_booked_skirmish : ∃ pool, Skirmish.fought = some pool ∧
    ∃ l ∈ pool.world.ledger.lives, l.id = Skirmish.lifeA ∧ l.status = .dead ∧
      ∃ line ∈ pool.world.applied l.runId, line.victim = Skirmish.lifeA := by
  obtain ⟨pool, hpool, hfacts⟩ := (Option.any_eq_true _ _).mp (Skirmish.played).fought
  obtain ⟨⟨l, hl, hid, hdead⟩, -⟩ := of_decide_eq_true hfacts
  have hbooked := deaths_are_booked (Skirmish.reachable_fought hpool)
  exact ⟨pool, hpool, l, hl, hid, hdead, hid ▸ (hbooked.dead_iff l hl).mp hdead⟩

theorem kills_are_reported (h : Reachable digest maxClients visitors pool) :
    KillsReported pool.world := by
  intro p hp
  have hbooks := h.orderly.sane.books
  obtain ⟨l, hl, hdead, hvictim, hkiller⟩ := hbooks.paid p hp
  obtain ⟨line, hline, hvictim', hkiller'⟩ := hbooks.died l hl hdead
  exact ⟨l, hl, hvictim, hdead, line, hline, hvictim'.trans hvictim, hkiller'.trans hkiller⟩

theorem kills_are_reported_skirmish : ∃ pool, Skirmish.fought = some pool ∧
    ∃ l ∈ pool.world.ledger.lives, l.id = Skirmish.lifeA ∧ l.status = .dead ∧
      ∃ line ∈ pool.world.applied l.runId,
        line.victim = Skirmish.lifeA ∧ line.killer = Skirmish.lifeB := by
  obtain ⟨pool, hpool, hfacts⟩ := (Option.any_eq_true _ _).mp (Skirmish.played).fought
  obtain ⟨-, ⟨p, hp, hvictim, hkiller⟩, -⟩ := of_decide_eq_true hfacts
  have hreported := kills_are_reported (Skirmish.reachable_fought hpool) p hp
  rw [hvictim, hkiller] at hreported
  exact ⟨pool, hpool, hreported⟩

theorem Lasting.charges {w w' : World} (h : Lasting w w') (horderly : Orderly maxClients w)
    (horderly' : Orderly maxClients w') : ChargesLast w w' := by
  have happlied : ∀ run, w.applied run <+: w'.applied run := by
    intro run
    have hbefore : w.applied run <+: w'.journal run := (applied_below w run).trans (h.journal run)
    exact List.prefix_of_prefix_length_le hbefore (applied_below w' run) (h.applied run)
  refine ⟨happlied, fun l hl hdead => ?_⟩
  obtain ⟨line, hline, hvictim, -⟩ := horderly.sane.books.died l hl hdead
  have hline' : line ∈ w'.applied l.runId := (happlied l.runId).subset hline
  obtain ⟨r, hr, hid, -⟩ := horderly.sane.books.home l hl
  obtain ⟨r', hr', hid', -, -⟩ := h.progress.further r hr
  rw [← hid, ← hid'] at hline'
  obtain ⟨l', hl', hname, hrun, hdead'⟩ := horderly'.sane.books.ended r' hr' line hline'
  exact ⟨l', hl', hname.trans hvictim, hrun.trans (hid'.trans hid), hdead'⟩

theorem charges_last {later : Tasks} (h : Reachable digest maxClients visitors pool)
    (hsteps : Relation.ReflTransGen (Steps digest maxClients visitors) pool later) :
    ChargesLast pool.world later.world := by
  have hboth : Reachable digest maxClients visitors later ∧ Lasting pool.world later.world := by
    induction hsteps with
    | refl => exact ⟨h, .refl _⟩
    | tail _ hstep ih =>
      obtain ⟨hreach, hlasting⟩ := ih
      exact ⟨.step hreach hstep, hlasting.trans (hreach.lasting hstep)⟩
  obtain ⟨hreach, hlasting⟩ := hboth
  exact hlasting.charges h.orderly hreach.orderly

theorem charges_last_skirmish : ∃ pool later, Skirmish.fought = some pool ∧
    Skirmish.returned = some later ∧ (∀ run, pool.world.applied run <+: later.world.applied run) ∧
    ∃ l ∈ later.world.ledger.lives, l.id = Skirmish.lifeA ∧ l.status = .dead := by
  obtain ⟨pool, hpool, hfacts⟩ := (Option.any_eq_true _ _).mp (Skirmish.played).fought
  obtain ⟨later, hlater, -⟩ := (Option.any_eq_true _ _).mp (Skirmish.played).returned
  obtain ⟨⟨l, hl, hid, hdead⟩, -⟩ := of_decide_eq_true hfacts
  obtain ⟨happlied, hstays⟩ :=
    charges_last (Skirmish.reachable_fought hpool) (Skirmish.steps_returned hpool hlater)
  obtain ⟨l', hl', hid', -, hdead'⟩ := hstays l hl hdead
  exact ⟨pool, later, hpool, hlater, happlied, l', hl', hid'.trans hid, hdead'⟩

theorem ended_runs_are_applied (h : Reachable digest maxClients visitors pool) :
    EndedApplied pool.world := by
  intro r hr hended
  refine applied_of_unapplied ?_
  by_contra hne
  obtain ⟨line, hline⟩ := List.exists_mem_of_ne_nil _ hne
  obtain ⟨slot, ⟨r', hr', hid, hgoes⟩, -⟩ := h.orderly.owed.lines r.id line hline
  have hsame : r' = r := Table.mem_inj hr' hr hid
  exact hended (hsame ▸ hgoes)

theorem ended_runs_are_applied_skirmish : ∃ pool, Skirmish.returned = some pool ∧
    pool.world.applied Skirmish.first = [Skirmish.death] := by
  obtain ⟨pool, hpool, hfacts⟩ := (Option.any_eq_true _ _).mp (Skirmish.played).returned
  obtain ⟨⟨r, hr, hid, -, hstopped⟩, -, hjournal, -⟩ := of_decide_eq_true hfacts
  have happlied := ended_runs_are_applied (Skirmish.reachable_returned hpool) r hr
    (by rw [hstopped]; decide)
  rw [hid, hjournal] at happlied
  exact ⟨pool, hpool, happlied⟩

theorem one_engine_each_arena (h : Reachable digest maxClients visitors pool) :
    OneEngine pool.world := by
  intro r hr r' hr' harena halive halive'
  have hid := h.orderly.sane.single r.id r'.id halive halive'
    ⟨r, hr, r', hr', rfl, rfl, harena⟩
  exact Table.mem_inj hr hr' hid

theorem one_engine_each_arena_skirmish : ∃ pool, Skirmish.returned = some pool ∧
    pool.world.alive Skirmish.second = true ∧ pool.world.alive Skirmish.first = false := by
  obtain ⟨pool, hpool, hfacts⟩ := (Option.any_eq_true _ _).mp (Skirmish.played).returned
  obtain ⟨⟨r, hr, hid, harena, -⟩, ⟨r', hr', hid', harena'⟩, -, halive⟩ :=
    of_decide_eq_true hfacts
  refine ⟨pool, hpool, halive, Bool.eq_false_iff.mpr fun hfirst => ?_⟩
  have hsame : r = r' := one_engine_each_arena (Skirmish.reachable_returned hpool) r hr r' hr'
    (harena.trans harena'.symm) (hid.symm ▸ hfirst) (hid'.symm ▸ halive)
  have hruns : Skirmish.first = Skirmish.second := hid.symm.trans (hsame ▸ hid')
  exact absurd hruns (by decide)

theorem releases_are_settled (h : Reachable digest maxClients visitors pool) (i : Nat) :
    (pool.tasks i).Awaits fun o => ReleasesSettled pool.world o.1 := by
  have hsafe := h.safe i
  cases htask : pool.tasks i with
  | done result => trivial
  | call o next =>
    obtain ⟨op, b⟩ := o
    rw [htask] at hsafe
    rintro t run rfl hreleases
    exact Due.settled hsafe run hreleases

theorem releases_are_settled_skirmish : ∃ pool, Skirmish.ending = some pool ∧
    (∃ next, pool.tasks 1 =
      .call (.transact (.stopRun Skirmish.arena "worker" Skirmish.first), false) next) ∧
    Settled Skirmish.first pool.world := by
  obtain ⟨pool, hpool, hfacts⟩ := (Option.any_eq_true _ _).mp (Skirmish.played).ending
  obtain ⟨next, htask⟩ := Skirmish.of_waitsFor hfacts
  have hsettled := releases_are_settled (Skirmish.reachable_ending hpool) 1
  rw [htask] at hsettled
  exact ⟨pool, hpool, ⟨next, htask⟩, hsettled _ _ rfl rfl⟩

/-! ## Lives in play -/

/-- A life that is in play in no run is out of reach. -/
theorem Owed.outOfReach {w : World} {id : Uid} (h : Owed w)
    (hid : ∀ run, (∀ slot, ¬Seated w.ledger run slot id) ∨
      Barred run id w) : OutOfReach id w := by
  refine ⟨fun run e he hrunning peer hholds => ?_, fun run e he hrunning p rest hmem htext => ?_,
    fun run line hline hvictim => ?_⟩
  · rcases hid run with hnone | hbarred
    · exact hnone peer ((h.engines run e he).holds hrunning peer id hholds)
    · exact (hbarred.banned e he).holds hrunning peer id hholds rfl
  · rcases hid run with hnone | hbarred
    · exact hnone _ (htext ▸ (h.engines run e he).sent hrunning p rest hmem)
    · exact (hbarred.banned e he).sent hrunning p rest hmem htext
  · rcases hid run with hnone | hbarred
    · obtain ⟨slot, hseated⟩ := h.lines run line hline
      exact hnone slot (hvictim ▸ hseated)
    · exact hbarred.lines line hline hvictim

theorem engines_hold_lives_in_play (h : Reachable digest maxClients visitors pool) :
    HeldInPlay pool.world :=
  fun run e he hrunning peer id hholds =>
    (h.orderly.owed.engines run e he).holds hrunning peer id hholds

theorem engines_hold_lives_in_play_skirmish : ∃ pool, Skirmish.fought = some pool ∧
    Seated pool.world.ledger Skirmish.first 2 Skirmish.lifeB := by
  obtain ⟨pool, hpool, hfacts⟩ := (Option.any_eq_true _ _).mp (Skirmish.played).fought
  obtain ⟨-, -, hengine⟩ := of_decide_eq_true hfacts
  obtain ⟨e, he, hstate⟩ := (Option.any_eq_true _ _).mp hengine
  obtain ⟨hrunning, hconsumed, hadmitted⟩ := of_decide_eq_true hstate
  exact ⟨pool, hpool, engines_hold_lives_in_play (Skirmish.reachable_fought hpool) _ e he hrunning
    2 _ ⟨by decide, hconsumed, hadmitted⟩⟩

theorem Owed.spare {w : World} (h : Owed w) : SpareOutOfReach w := by
  intro l hl hspare
  refine h.outOfReach fun run => .inl ?_
  rintro slot ⟨-, l', hl', hid, -, -, hplays⟩
  have hsame : l' = l := Table.mem_inj hl' hl hid
  rw [hsame] at hplays
  rcases hspare with hs | hs <;> rcases hplays with hp | hp <;> rw [hs] at hp <;> cases hp

theorem spare_lives_are_out_of_reach (h : Reachable digest maxClients visitors pool) :
    SpareOutOfReach pool.world := h.orderly.owed.spare

theorem spare_lives_are_out_of_reach_skirmish : ∃ pool, Skirmish.left = some pool ∧
    OutOfReach Skirmish.lifeB pool.world := by
  obtain ⟨pool, hpool, hfacts⟩ := (Option.any_eq_true _ _).mp (Skirmish.played).left
  obtain ⟨l, hl, hid, hrefunded⟩ := of_decide_eq_true hfacts
  have hspare :=
    spare_lives_are_out_of_reach (Skirmish.reachable_left hpool) l hl (.inr hrefunded)
  exact ⟨pool, hpool, hid ▸ hspare⟩

theorem leaves_are_barred (h : Reachable digest maxClients visitors pool) (i : Nat) :
    (pool.tasks i).Awaits fun o => LeavesBarred pool.world o.1 := by
  have hsafe := h.safe i
  cases htask : pool.tasks i with
  | done result => trivial
  | call o next =>
    obtain ⟨op, b⟩ := o
    rw [htask] at hsafe
    rintro playerId run rfl env σ' hrun l hl hplayer hundead
    have horderly := h.orderly
    cases hstatus : l.status with
    | dead => exact absurd hstatus hundead
    | left => exact horderly.owed.spare l hl (.inl hstatus)
    | refunded => exact horderly.owed.spare l hl (.inr hstatus)
    | alive =>
      have hhere : l.runId = run := by
        obtain ⟨player, hget, _, -, ⟨hleft, -⟩ | ⟨-, hlives, -⟩⟩ := finishLeave_ok hrun
        · -- Who has left has no life that can be played.
          obtain ⟨hmem, hid⟩ := Table.get?_eq_some.mp hget
          obtain ⟨p, hp, hpid, hstays⟩ :=
            (Sound.of_reachable horderly.sane.reach).funded.staying l hl
            (LifeStatus.open_of_alive hstatus)
          have hsame : p = player := Table.mem_inj hp hmem (hpid.trans (hplayer.trans hid.symm))
          exact absurd (hsame ▸ hleft) hstays
        · exact hlives l hl hplayer hstatus
      refine horderly.owed.outOfReach fun run' => ?_
      by_cases hsame : run' = run
      · rw [hsame]
        exact .inr (Due.barred hsafe playerId run rfl l hl hplayer hhere hstatus)
      · refine .inl ?_
        rintro slot ⟨-, l', hl', hid, hhere', -⟩
        have hself : l' = l := Table.mem_inj hl' hl hid
        rw [hself, hhere] at hhere'
        exact hsame hhere'.symm

theorem leaves_are_barred_skirmish : ∃ pool, Skirmish.asked = some pool ∧
    (∃ next, pool.tasks 1 =
      .call (.transact (.finishLeave Skirmish.playerB Skirmish.first), false) next) ∧
    (∃ l ∈ pool.world.ledger.lives, l.id = Skirmish.lifeB ∧ l.status = .alive) ∧
    OutOfReach Skirmish.lifeB pool.world := by
  obtain ⟨pool, hpool, hfacts⟩ := (Option.any_eq_true _ _).mp (Skirmish.played).asked
  obtain ⟨hwaits, hcommits, l, hl, hid, hplayer, halive⟩ := of_decide_eq_true hfacts
  obtain ⟨next, htask⟩ := Skirmish.of_waitsFor hwaits
  obtain ⟨σ', hσ'⟩ := Option.isSome_iff_exists.mp hcommits
  have hbarred := leaves_are_barred (Skirmish.reachable_asked hpool) 1
  rw [htask] at hbarred
  have hout := hbarred _ _ rfl _ σ' (of_toOption hσ') l hl hplayer (by rw [halive]; decide)
  exact ⟨pool, hpool, ⟨next, htask⟩, ⟨l, hl, hid, halive⟩, hid ▸ hout⟩

/-! ## No journal is stuck -/

/-- What is raised after the checks of a death. -/
theorem payKiller_error {env : Env} {arena : Arena} {entry : Entry} {victim : Life}
    {killer? : Option Life} {σ : Ledger} {message : String} :
    payKiller env arena entry victim killer? σ ≠ .error (.valueError message) := by
  have hqueue : ∀ (σ : Ledger) (k : Outbox) (row : Payout),
      σ.queuePayout k row ≠ .error (.valueError message) := by
    intro σ k row herror
    unfold queuePayout at herror
    by_cases hamount : amountOk k row.amount = true
    · simp only [require, if_pos hamount, bind, Except.bind] at herror
      split_ifs at herror
      · cases herror
      · cases hrow : (σ.outbox k).insert? row with
        | none => simp [hrow, orRaise] at herror
        | some t => simp [hrow, orRaise, pure, Except.pure] at herror
    · simp [require, hamount, bind, Except.bind] at herror
  cases killer? with
  | none =>
    intro herror
    cases herror
  | some killer =>
    show payKill env arena entry victim killer σ ≠ _
    unfold payKill orRaise
    cases σ.entries.get? killer.entryId with
    | none =>
      intro herror
      cases herror
    | some destination =>
      simp only [bind, Except.bind]
      cases hpaid : σ.queuePayout .payouts
        (killRow env arena entry destination victim killer) with
      | error e =>
        intro herror
        exact hqueue _ _ _ (hpaid.trans (by simpa using herror))
      | ok σ₁ =>
        show σ₁.queueFee _ ≠ _
        unfold queueFee
        split_ifs
        · intro herror
          cases herror
        · exact hqueue _ _ _

theorem lockArena_error {σ : Ledger} {arenaId : Uid} {active : Bool} {message : String} :
    σ.lockArena arenaId active ≠ .error (.valueError message) := by
  intro herror
  unfold lockArena at herror
  cases hrow : σ.arenas.get? arenaId with
  | none => simp [hrow, orRaise, bind, Except.bind] at herror
  | some row =>
    simp only [hrow, orRaise, require, bind, Except.bind] at herror
    split_ifs at herror
    · cases herror
    · simp at herror

theorem journals_apply (h : Reachable digest maxClients visitors pool) :
    JournalsApply pool.world := by
  intro run line lines hlines env message
  have horderly := h.orderly
  have hbooks := horderly.sane.books
  obtain ⟨slot, ⟨r, hr, rfl, -⟩, l, hl, hvictim, hhere, -, hplays⟩ :=
    horderly.owed.lines run line (by rw [hlines]; exact List.mem_cons_self)
  have hget : pool.world.ledger.runs.get? r.id = some r := Table.get?_key hr
  have hlife : pool.world.ledger.lives.get? line.victim = some l :=
    Table.get?_eq_some.mpr ⟨hl, hvictim⟩
  obtain ⟨hpos, hle⟩ := hbooks.counted r hr
  have hsequence : (line.sequence : Int) = r.eventSequence + 1 := by
    have happlied : (pool.world.applied r.id).length = r.eventSequence.toNat := by
      have hsame : pool.world.applied r.id =
          (pool.world.journal r.id).take r.eventSequence.toNat := applied_of_mem hr
      rw [hsame, List.length_take]
      omega
    have hbelow : (pool.world.journal r.id).take (pool.world.applied r.id).length ++
      line :: lines <+:
        pool.world.journal r.id := by
      rw [← hlines]
      exact (List.take_append_drop _ _).symm ▸ List.prefix_rfl
    have hnext := (horderly.sane.numbered r.id).next hbelow
    rw [List.length_take, happlied] at hnext
    omega
  have harena : l.arenaId = r.arenaId := by
    obtain ⟨q, hq, hqid, hqarena⟩ := hbooks.home l hl
    have hsame : q = r := Table.mem_inj hq hr (hqid.trans hhere)
    rw [← hqarena, hsame]
  have hend : ∀ arena, endLife env arena r l line.killer
    (pool.world.ledger.bumpArena r.arenaId) ≠
      .error (.valueError message) := by
    intro arena
    unfold endLife
    split_ifs with hdead
    · intro herror
      cases herror
    · have hopen : l.status.open = true := LifeStatus.open_of_alive (hplays.resolve_right hdead)
      obtain ⟨e, he, hid, -, hremaining⟩ :=
        (Sound.of_reachable horderly.sane.reach).funded.funded l hl hopen
      have hentry : (pool.world.ledger.bumpArena r.arenaId).entries.get? l.entryId = some e :=
        Table.get?_eq_some.mpr ⟨he, hid⟩
      unfold spendLife orRaise require
      rw [hentry]
      simp only [bind, Except.bind, if_pos hremaining]
      exact payKiller_error
  intro herror
  unfold consumeDeath at herror
  simp only [hget, orRaise, bind, Except.bind] at herror
  cases hlock : pool.world.ledger.lockArena r.arenaId false with
  | error e =>
    rw [hlock] at herror
    exact lockArena_error (hlock.trans (by simpa using herror))
  | ok locked =>
    obtain ⟨arena, σ₁⟩ := locked
    obtain ⟨rfl, -⟩ := lockArena_ok hlock
    have hbefore : ¬(line.sequence : Int) ≤ r.eventSequence := by omega
    have hlife' : (pool.world.ledger.bumpArena r.arenaId).lives.get? line.victim = some l :=
      hlife
    simp only [hlock, if_neg hbefore, require, if_pos hsequence, hlife', hhere, harena, and_self,
      if_true] at herror
    cases hended : endLife env arena r l line.killer
      (pool.world.ledger.bumpArena r.arenaId) with
    | error e =>
      rw [hended] at herror
      exact hend arena (hended.trans (by simpa using herror))
    | ok σ₂ =>
      rw [hended] at herror
      cases herror

theorem journals_apply_skirmish : ∃ pool, Skirmish.struck = some pool ∧ ∀ env message,
    consumeDeath env Skirmish.first 1 Skirmish.lifeA Skirmish.lifeB pool.world.ledger ≠
      .error (.valueError message) := by
  obtain ⟨pool, hpool, hfacts⟩ := (Option.any_eq_true _ _).mp (Skirmish.played).struck
  exact ⟨pool, hpool, journals_apply (Skirmish.reachable_struck hpool) _ _ []
    (of_decide_eq_true hfacts)⟩

end

end QuakeJs.Server
