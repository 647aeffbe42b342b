import QuakeJs.Server.Links
import QuakeJs.Server.Owed

/-!
# What the locks guard

`Orderly` is what holds of the world between any two steps, and `Passes` what a
step of a task does to the others: it leaves `Onward` to all of them, `Held` to
the one that holds the manager's lock, and `Watched` to the one that holds the
lock of a match.  A step that needs one of these locks need not keep what it
guards.
-/

namespace QuakeJs.Server

open Async Engine Ledger

/-- The match has an engine. -/
structure Live (m : MatchId) (w : World) : Prop where
  made : m < w.memory.created
  spawned : (w.memory.objects m).spawned = true

/-- The lock of the match is taken. -/
structure Taken (m : MatchId) (w : World) : Prop where
  made : m < w.memory.created
  locked : (w.memory.objects m).locked = true

/-- The life may be sent to the engine of the match. -/
def Seatable (m : MatchId) (peer : Nat) (id : Uid) (w : World) : Prop :=
  Seated w.ledger (w.memory.objects m).run peer id ∨ (w.memory.objects m).closed = true ∨
    Exited (w.memory.objects m).run w

/-- What the holder of the lock of a match can rely on, wherever it is. -/
structure Attended (m : MatchId) (w w' : World) : Prop where
  taken : Taken m w → Taken m w'
  seatable : Live m w → ∀ peer id, Seatable m peer id w → Seatable m peer id w'
  banned : Live m w → ∀ id, Banned (w.memory.objects m).run id w →
    Banned (w.memory.objects m).run id w'
  barred : Live m w → ∀ id, Barred (w.memory.objects m).run id w →
    Barred (w.memory.objects m).run id w'

section

variable (maxClients : Nat)

/-- What holds of the world at any time. -/
structure Orderly (w : World) : Prop where
  sane : Sane maxClients w
  links : ∀ m, (w.memory.objects m).locked = false → Link maxClients m .idle w
  owed : Owed w
  ids : ∀ l ∈ w.ledger.lives, validId l.id = true
  going : ∀ m, Live m w → Going m w ∨ Exited (w.memory.objects m).run w

/-- What the holder of the lock of a match can rely on. -/
structure Watched (m : MatchId) (w w' : World) : Prop extends Attended m w w' where
  link : ∀ stage, Link maxClients m stage w → Link maxClients m stage w'

/-- What the step of a task that holds these locks, at least, does. -/
structure Passes (manager : Bool) (game : Option MatchId) (w w' : World) : Prop where
  orderly : Orderly maxClients w'
  onward : Onward w w'
  held : manager = false → Held w w'
  watched : ∀ m, game ≠ some m → Watched maxClients m w w'

end

section

variable {maxClients : Nat} {w w' : World}

theorem Live.mono {m : MatchId} (h : Live m w) (honward : Onward w w') : Live m w' :=
  ⟨h.made.trans_le honward.created, (honward.objects m h.made).spawned h.spawned⟩

/-- A match with an engine has been made. -/
theorem Sane.live (h : Sane maxClients w) {m : MatchId}
    (hspawned : (w.memory.objects m).spawned = true) : Live m w := by
  refine ⟨?_, hspawned⟩
  by_contra hm
  have hblank := (h.blank m (not_lt.mp hm)).2.2
  simp [hspawned] at hblank

theorem Sane.live_socket (h : Sane maxClients w) {m : MatchId} (hm : Live m w) :
    (w.memory.objects m).socket = true := (h.started m hm.spawned).1

/-- Two matches with engines have two runs. -/
theorem Sane.live_run (h : Sane maxClients w) {m m' : MatchId} (hm : Live m w)
    (hsocket : (w.memory.objects m').socket = true) (hne : m' ≠ m) :
    (w.memory.objects m').run ≠ (w.memory.objects m).run :=
  fun heq => hne (h.sockets m' m hsocket (h.live_socket hm) heq)

theorem Sane.live_named (h : Sane maxClients w) {m : MatchId} (hm : Live m w) :
    (w.memory.objects m).run ≠ "" := by
  intro hempty
  obtain ⟨r, hr, hid⟩ := h.known _ (h.started m hm.spawned).2
  exact h.books.named r hr (hid.trans hempty)

theorem Attended.refl (m : MatchId) (w : World) : Attended m w w :=
  ⟨fun h => h, fun _ _ _ h => h, fun _ _ h => h, fun _ _ h => h⟩

theorem Attended.trans {m : MatchId} {w₁ w₂ w₃ : World} (honward : Onward w₁ w₂)
    (h : Attended m w₁ w₂) (h' : Attended m w₂ w₃) : Attended m w₁ w₃ where
  taken := fun ht => h'.taken (h.taken ht)
  seatable := fun hm peer id hs =>
    h'.seatable (hm.mono honward) peer id (h.seatable hm peer id hs)
  banned := by
    intro hm id hb
    have hrun := (honward.objects m hm.made).run
    have hnext := h.banned hm id hb
    rw [← hrun] at hnext ⊢
    exact h'.banned (hm.mono honward) id hnext
  barred := by
    intro hm id hb
    have hrun := (honward.objects m hm.made).run
    have hnext := h.barred hm id hb
    rw [← hrun] at hnext ⊢
    exact h'.barred (hm.mono honward) id hnext

theorem Watched.refl (m : MatchId) (w : World) : Watched maxClients m w w :=
  ⟨.refl m w, fun _ h => h⟩

theorem Passes.refl (manager : Bool) (game : Option MatchId) (h : Orderly maxClients w) :
    Passes maxClients manager game w w :=
  ⟨h, .refl w, fun _ => .refl w, fun m _ => .refl m w⟩

/-! ## Steps that leave the ledger alone -/

/-- The engine of the match is as it was, and so is the ledger. -/
theorem Attended.of_engine {m : MatchId} (hledger : w'.ledger = w.ledger) (honward : Onward w w')
    (htaken : Taken m w → Taken m w')
    (hengine : Live m w → w'.engines (w.memory.objects m).run = w.engines
      (w.memory.objects m).run) :
    Attended m w w' := by
  have hunapplied : Live m w → w'.unapplied (w.memory.objects m).run =
      w.unapplied (w.memory.objects m).run := by
    intro hm
    unfold World.unapplied World.applied Server.applied World.journal
    rw [hengine hm, hledger]
  refine ⟨htaken, ?_, ?_, ?_⟩
  · intro hm peer id hseatable
    have hkeeps := honward.objects m hm.made
    unfold Seatable
    rw [hledger, hkeeps.run]
    exact hseatable.imp_right fun hrest =>
      hrest.imp hkeeps.closed fun hexited => (honward.exited _ hexited).1
  · intro hm id hbanned
    unfold Banned
    rw [hengine hm]
    exact hbanned
  · intro hm id hbarred
    refine ⟨?_, hunapplied hm ▸ hbarred.lines⟩
    unfold Banned
    rw [hengine hm]
    exact hbarred.banned

/-- The memory is calm, and the engines get no packets but these. -/
structure Calms (maxClients : Nat) (sent : Uid → List UInt8 → Prop) (w w' : World) : Prop where
  ledger : w'.ledger = w.ledger
  calm : Calm w.memory w'.memory
  evolve : Evolve maxClients sent w w'
  /-- Only a match that is open sends anything. -/
  sender : ∀ run bytes, sent run bytes → ¬Cut run w
  /-- Only a life that is in play is sent to an engine that goes on. -/
  seats : ∀ run e, w.engines run = some e → e.running = true → ∀ (p : UInt8) rest,
    sent run (1 :: p :: rest) → Seated w.ledger run p.toNat (text rest)

namespace Calms

variable {sent : Uid → List UInt8 → Prop} (h : Calms maxClients sent w w')
  (horderly : Orderly maxClients w)

include h horderly

theorem goes : EnginesGo maxClients w w' := h.evolve.goes horderly.sane.engines h.sender

theorem onward : Onward w w' := by
  refine .calm h.calm (h.goes horderly) ?_
  rw [h.ledger]
  exact .refl _

omit horderly in
theorem going {m : MatchId} (hm : Going m w) : Going m w' := by
  unfold Going
  rw [h.ledger, (h.calm.objects m).run]
  exact hm.imp_right (h.calm.objects m).closed

theorem held : Held w w' := by
  refine .calm h.calm (h.goes horderly) ?_ ?_ fun run hrunning => .inl ?_
  all_goals rw [h.ledger]
  · exact fun b hb => ⟨b, hb, rfl, rfl⟩
  · exact fun r hr => ⟨r, hr, rfl, rfl, fun hgoes => hgoes⟩
  · exact hrunning

/-- What the holder of the lock of a match attends to. -/
theorem attended {m : MatchId} (hlocked : (w.memory.objects m).locked = true →
      (w'.memory.objects m).locked = true)
    (hsent : Live m w → ∀ (p : UInt8) rest, ¬sent (w.memory.objects m).run (1 :: p :: rest)) :
    Attended m w w' := by
  have honward := h.onward horderly
  refine ⟨fun ht => ⟨h.calm.created ▸ ht.made, hlocked ht.locked⟩, ?_, ?_, ?_⟩
  · intro hm peer id hseatable
    unfold Seatable
    rw [h.ledger, (h.calm.objects m).run]
    exact hseatable.imp_right fun hrest =>
      hrest.imp (h.calm.objects m).closed fun hexited => (honward.exited _ hexited).1
  · intro hm id hbanned
    exact hbanned.evolve h.evolve (fun _ _ _ p rest hpacket => absurd hpacket (hsent hm p rest))
      (honward.applied _)
  · intro hm id hbarred
    exact hbarred.evolve h.evolve (fun _ _ _ p rest hpacket => absurd hpacket (hsent hm p rest))
      (honward.applied _)

/-- The world stays orderly. -/
theorem keeps
    (hoffsets : ∀ m, (w'.memory.objects m).offset = (w.memory.objects m).offset ∨
      ∃ k, (w'.memory.objects m).offset = size ((w.journal (w.memory.objects m).run).take k) ∧
        k ≤ (w.applied (w.memory.objects m).run).length)
    (hhosts : ∀ c m, (w'.memory.connections c).host = some m →
      (w.memory.connections c).host = some m ∨ Own m w ∧ (w.memory.objects m).spawned = true)
    (hlinks : ∀ m, (w'.memory.objects m).locked = false → Link maxClients m .idle w') :
    Orderly maxClients w' where
  sane := by
    refine horderly.sane.calm h.calm (h.goes horderly) ?_ hoffsets hhosts
    rw [h.ledger]
    exact horderly.sane.commits
  links := hlinks
  owed := horderly.owed.evolve h.evolve h.ledger h.seats fun run =>
    (h.onward horderly).applied run
  ids := by
    rw [h.ledger]
    exact horderly.ids
  going := by
    intro m hm
    have hbefore : Live m w := ⟨h.calm.created ▸ hm.made, (h.calm.kept m).2 ▸ hm.spawned⟩
    rw [(h.calm.objects m).run]
    exact (horderly.going m hbefore).imp h.going fun hexited =>
      ((h.onward horderly).exited _ hexited).1

end Calms

/-- The engines and the ledger are as they were. -/
theorem Calms.of_memory (hledger : w'.ledger = w.ledger) (hengines : w'.engines = w.engines)
    (h : Calm w.memory w'.memory) : Calms maxClients (fun _ _ => False) w w' where
  ledger := hledger
  calm := h
  evolve := .of_eq hengines
  sender := fun _ _ hsent => hsent.elim
  seats := fun _ _ _ _ _ _ hsent => hsent.elim

/-- A statement that leaves the engines and the ledger alone. -/
theorem Passes.of_memory {game : Option MatchId} (horderly : Orderly maxClients w)
    (hledger : w'.ledger = w.ledger) (hengines : w'.engines = w.engines)
    (hcalm : Calm w.memory w'.memory)
    (hoffsets : ∀ m, (w'.memory.objects m).offset = (w.memory.objects m).offset ∨
      ∃ k, (w'.memory.objects m).offset = size ((w.journal (w.memory.objects m).run).take k) ∧
        k ≤ (w.applied (w.memory.objects m).run).length)
    (hhosts : ∀ c m, (w'.memory.connections c).host = some m →
      (w.memory.connections c).host = some m ∨ Own m w ∧ (w.memory.objects m).spawned = true)
    (hothers : ∀ m, game ≠ some m → (w'.memory.objects m).acks = (w.memory.objects m).acks ∧
      ((w.memory.objects m).locked = true → (w'.memory.objects m).locked = true))
    (hlinks : ∀ m, (w'.memory.objects m).locked = false →
      (w.memory.objects m).locked = false ∧ game ≠ some m ∨ Link maxClients m .idle w') :
    Passes maxClients false game w w' := by
  have hcalms : Calms maxClients (fun _ _ => False) w w' := .of_memory hledger hengines hcalm
  have hdrifting : ∀ m, game ≠ some m → Drifting maxClients m w w' := fun m hm =>
    .of_engine (hcalm.objects m) (hcalm.kept m).2 (hothers m hm).1 (congrFun hengines _)
  refine ⟨hcalms.keeps horderly hoffsets hhosts ?_, hcalms.onward horderly,
    fun _ => hcalms.held horderly, fun m hm =>
      ⟨?_, fun stage hlink => hlink.drifts (hdrifting m hm)⟩⟩
  · intro m hlocked
    rcases hlinks m hlocked with ⟨hfree, hm⟩ | hlink
    · exact (horderly.links m hfree).drifts (hdrifting m hm)
    · exact hlink
  · exact hcalms.attended horderly (hothers m hm).2 fun _ _ _ hsent => hsent

end

end QuakeJs.Server
