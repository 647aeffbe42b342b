import QuakeJs.Server.Guards

/-!
# The steps of the tasks

What each operation does to the tasks that hold a lock.  A statement about a
`Match` or a `Connection` needs at most the lock of that match, and only the
manager's lock lets a task change which matches there are, which are served and
which engines run.
-/

namespace QuakeJs.Server

open Async Engine Ledger

section

variable {maxClients : Nat} {w w' : World}

/-! ## The memory -/

/-- A statement about one `Match`. -/
theorem Passes.setMatch {game : Option MatchId} (horderly : Orderly maxClients w) (m : MatchId)
    (f : Match → Match) (hkeeps : (w.memory.objects m).Keeps (f (w.memory.objects m)))
    (hkept : (f (w.memory.objects m)).socket = (w.memory.objects m).socket ∧
      (f (w.memory.objects m)).spawned = (w.memory.objects m).spawned)
    (hpeers : (w.memory.objects m).spawned = false → (w.memory.objects m).peers = ∅ →
      (f (w.memory.objects m)).peers = ∅)
    (hoffset : (f (w.memory.objects m)).offset = (w.memory.objects m).offset ∨
      ∃ k, (f (w.memory.objects m)).offset =
        size ((w.journal (w.memory.objects m).run).take k) ∧
        k ≤ (w.applied (w.memory.objects m).run).length)
    (hacks : game = some m ∨ (f (w.memory.objects m)).acks = (w.memory.objects m).acks ∧
      ((w.memory.objects m).locked = true → (f (w.memory.objects m)).locked = true))
    (hlink : (f (w.memory.objects m)).locked = false →
      (w.memory.objects m).locked = false ∧ game ≠ some m ∨
        Link maxClients m .idle (w.setMemory (w.memory.setMatch m f)))
    (hgame : ∀ m', game = some m' → m' = m) :
    Passes maxClients false game w (w.setMemory (w.memory.setMatch m f)) := by
  have hsame : (w.memory.setMatch m f).objects m = f (w.memory.objects m) :=
    Function.update_self _ _ _
  have hother : ∀ m', m' ≠ m → (w.memory.setMatch m f).objects m' = w.memory.objects m' :=
    fun m' hm => Function.update_of_ne hm _ _
  refine .of_memory horderly rfl rfl (.setMatch hkeeps hkept hpeers) ?_
    (fun _ _ h => .inl h) ?_ ?_
  · intro m'
    by_cases hm : m' = m
    · subst hm
      simp only [World.setMemory, hsame]
      exact hoffset
    · simp [World.setMemory, hother m' hm]
  · intro m' hgame'
    by_cases hm : m' = m
    · subst hm
      simp only [World.setMemory, hsame]
      exact hacks.resolve_left hgame'
    · simp [World.setMemory, hother m' hm]
  · intro m' hlocked
    by_cases hm : m' = m
    · subst hm
      refine hlink ?_
      rw [← hsame]
      exact hlocked
    · refine .inl ⟨?_, fun hgame' => hm (hgame m' hgame')⟩
      rw [← hother m' hm]
      exact hlocked

/-- A statement about a `Match` that is neither about its futures nor about
its lock. -/
theorem Passes.setField (horderly : Orderly maxClients w) (m : MatchId) (f : Match → Match)
    (hkeeps : (w.memory.objects m).Keeps (f (w.memory.objects m)))
    (hkept : (f (w.memory.objects m)).socket = (w.memory.objects m).socket ∧
      (f (w.memory.objects m)).spawned = (w.memory.objects m).spawned)
    (hpeers : (w.memory.objects m).spawned = false → (w.memory.objects m).peers = ∅ →
      (f (w.memory.objects m)).peers = ∅)
    (hoffset : (f (w.memory.objects m)).offset = (w.memory.objects m).offset ∨
      ∃ k, (f (w.memory.objects m)).offset =
        size ((w.journal (w.memory.objects m).run).take k) ∧
        k ≤ (w.applied (w.memory.objects m).run).length)
    (hacks : (f (w.memory.objects m)).acks = (w.memory.objects m).acks)
    (hlocked : (f (w.memory.objects m)).locked = (w.memory.objects m).locked) :
    Passes maxClients false none w (w.setMemory (w.memory.setMatch m f)) :=
  .setMatch horderly m f hkeeps hkept hpeers hoffset (.inr ⟨hacks, fun h => hlocked.trans h⟩)
    (fun h => .inl ⟨hlocked.symm.trans h, by simp⟩) fun _ h => by cases h

/-- A statement about a `Connection`. -/
theorem Passes.setConnection (horderly : Orderly maxClients w) (c : ConnectionId)
    (f : Connection → Connection) (hhost : ∀ m, (f (w.memory.connections c)).host = some m →
      (w.memory.connections c).host = some m ∨ Own m w ∧ (w.memory.objects m).spawned = true) :
    Passes maxClients false none w (w.setMemory (w.memory.setConnection c f)) := by
  refine .of_memory horderly rfl rfl (.setConnection _ c f) (fun _ => .inl rfl) ?_
    (fun _ _ => ⟨rfl, fun h => h⟩) fun _ h => .inl ⟨h, by simp⟩
  intro c' m
  by_cases hc : c' = c
  · subst hc
    simpa [World.setMemory, Memory.setConnection] using hhost m
  · simp only [World.setMemory, Memory.setConnection, Function.update_of_ne hc]
    exact .inl

/-- What a statement needs that needs no lock. -/
def Write.Quiet (w : World) : Write → Prop
  | .setOffset m offset => ∃ k, offset = size ((w.journal (w.memory.objects m).run).take k) ∧
      k ≤ (w.applied (w.memory.objects m).run).length
  | .setPeer m _ _ => (w.memory.objects m).spawned = true
  | .seat _ _ m => Own m w ∧ (w.memory.objects m).spawned = true
  | .register .. | .dropAck .. | .retire .. | .halt | .stopped .. => False
  | _ => True

/-- Such a statement disturbs nobody. -/
theorem Orderly.write (h : Orderly maxClients w) {x : Write} (hx : x.Quiet w) :
    Passes maxClients false none w (w.setMemory (x.apply w.memory)) := by
  cases x with
  | close m =>
    exact .setField h m (fun M => { M with
      closed := true }) ⟨rfl, rfl, fun _ => rfl, fun hs => hs⟩ ⟨rfl, rfl⟩
        (fun _ hp => hp) (.inl rfl) rfl rfl
  | setOffset m offset =>
    exact .setField h m (fun M => { M with
      offset }) ⟨rfl, rfl, fun hc => hc, fun hs => hs⟩ ⟨rfl, rfl⟩
        (fun _ hp => hp) (.inr hx) rfl rfl
  | used m now =>
    exact .setField h m (fun M => { M with
      lastUsed := now }) ⟨rfl, rfl, fun hc => hc, fun hs => hs⟩ ⟨rfl, rfl⟩
        (fun _ hp => hp) (.inl rfl) rfl rfl
  | leased m now =>
    exact .setField h m (fun M => { M with
      lastLease := now }) ⟨rfl, rfl, fun hc => hc, fun hs => hs⟩ ⟨rfl, rfl⟩
        (fun _ hp => hp) (.inl rfl) rfl rfl
  | popPeer m peer =>
    refine .setField h m (fun M => { M with
      peers := M.peers.erase peer }) ⟨rfl, rfl, fun hc => hc, fun hs => hs⟩
        ⟨rfl, rfl⟩ ?_ (.inl rfl) rfl rfl
    intro _ hpeers
    show (w.memory.objects m).peers.erase peer = ∅
    rw [hpeers]
    rfl
  | setPeer m peer c =>
    have hspawned : (w.memory.objects m).spawned = true := hx
    refine .setField h m (fun M => { M with
      peers := M.peers.insert peer c }) ⟨rfl, rfl, fun hc => hc, fun hs => hs⟩
        ⟨rfl, rfl⟩ ?_ (.inl rfl) rfl rfl
    intro hunspawned
    simp [hspawned] at hunspawned
  | clearPeers m =>
    exact .setField h m (fun M => { M with
      peers := ∅ }) ⟨rfl, rfl, fun hc => hc, fun hs => hs⟩ ⟨rfl, rfl⟩
        (fun _ _ => rfl) (.inl rfl) rfl rfl
  | clearLife c =>
    exact .setConnection h c (fun C => { C with
      life := none }) fun m hm => .inl hm
  | seat c life m =>
    refine .setConnection h c (fun C => { C with
      life := some life
      host := some m }) fun m' hm => .inr ?_
    have heq : m = m' := Option.some.inj hm
    exact heq ▸ hx
  | block arenaId =>
    exact .of_memory h rfl rfl ⟨rfl, rfl, rfl, rfl, rfl, rfl, rfl, fun _ => .refl _,
      fun _ => ⟨rfl, rfl⟩, fun _ _ hp => hp⟩ (fun _ => .inl rfl) (fun _ _ hm => .inl hm)
        (fun _ _ => ⟨rfl, fun hl => hl⟩)
      fun _ hl => .inl ⟨hl, by simp⟩
  | register m key => exact hx.elim
  | dropAck m key => exact hx.elim
  | retire arenaId => exact hx.elim
  | halt => exact hx.elim
  | stopped m => exact hx.elim

/-! ## The lock of a match -/

/-- The futures of a match belong to the holder of its lock. -/
theorem Orderly.futures (h : Orderly maxClients w) {m : MatchId} (htaken : Taken m w)
    (acks : Nat × Nat → Option Bool) :
    Passes maxClients false (some m) w (w.setMemory (w.memory.setMatch m fun M => { M with
      acks })) ∧ Attended m w (w.setMemory (w.memory.setMatch m fun M => { M with
      acks })) := by
  have hcalm : Calm w.memory (w.memory.setMatch m fun M => { M with
      acks }) := by
    have hset := Calm.setMatch (s := w.memory) (m := m) (f := fun M => { M with
      acks }) ⟨rfl, rfl, fun hc => hc, fun hs => hs⟩ ⟨rfl, rfl⟩ fun _ hp => hp
    exact hset
  have hcalms : Calms maxClients (fun _ _ => False) w (w.setMemory (w.memory.setMatch m
      fun M => { M with
        acks })) := .of_memory rfl rfl hcalm
  constructor
  · refine .setMatch h m (fun M => { M with
      acks }) ⟨rfl, rfl, fun hc => hc, fun hs => hs⟩ ⟨rfl, rfl⟩ (fun _ hp => hp) (.inl rfl)
      (.inl rfl) ?_ fun _ heq => (Option.some.inj heq).symm
    intro hfree
    simp [htaken.locked] at hfree
  · refine hcalms.attended h ?_ fun _ _ _ hsent => hsent
    simp [World.setMemory, Memory.setMatch]

theorem Orderly.lockGame (h : Orderly maxClients w) {m : MatchId} (hm : m < w.memory.created) :
    Passes maxClients false none w (w.setMemory (w.memory.setLock (.game m) true)) ∧
      Taken m (w.setMemory (w.memory.setLock (.game m) true)) := by
  constructor
  · exact .setMatch h m (fun M => { M with
      locked := true }) ⟨rfl, rfl, fun hc => hc, fun hs => hs⟩
        ⟨rfl, rfl⟩ (fun _ hp => hp) (.inl rfl)
      (.inr ⟨rfl, fun _ => rfl⟩) (fun hfree => by cases hfree) fun _ heq => by cases heq
  · exact ⟨hm, by simp [World.setMemory, Memory.setLock, Memory.setMatch]⟩

theorem Orderly.unlockGame (h : Orderly maxClients w) {m : MatchId}
    (hlink : Link maxClients m .idle w) :
    Passes maxClients false (some m) w (w.setMemory (w.memory.setLock (.game m) false)) := by
  have hdrifting : Drifting maxClients m w (w.setMemory (w.memory.setLock (.game m) false)) := by
    refine .of_engine ?_ ?_ ?_ rfl
    all_goals simp only [World.setMemory, Memory.setLock, Memory.setMatch, Function.update_self]
    exact ⟨rfl, rfl, fun hc => hc, fun hs => hs⟩
  exact .setMatch h m (fun M => { M with
    locked := false }) ⟨rfl, rfl, fun hc => hc, fun hs => hs⟩
      ⟨rfl, rfl⟩ (fun _ hp => hp) (.inl rfl)
    (.inl rfl) (fun _ => .inr (hlink.drifts hdrifting)) fun _ heq => (Option.some.inj heq).symm

theorem Orderly.setBusy (h : Orderly maxClients w) (c : ConnectionId) (busy : Bool) :
    Passes maxClients false none w (w.setMemory (w.memory.setLock (.reader c) busy)) :=
  .setConnection h c (fun C => { C with
    busy }) fun _ hm => .inl hm

/-! ## The manager's lock -/

/-- A step of the holder of the manager's lock, or one that leaves what is
`Held` alone.  The ledger stays as it is. -/
theorem Passes.of_sane {manager : Bool} (horderly : Orderly maxClients w)
    (hsane : Sane maxClients w' ∧ Onward w w') (hledger : w'.ledger = w.ledger)
    (hheld : manager = false → Held w w')
    (htaken : ∀ m, Taken m w → Taken m w')
    (hfree : ∀ m, (w'.memory.objects m).locked = false →
      (w.memory.objects m).locked = false ∨ Link maxClients m .idle w')
    (hlink : ∀ m stage, Link maxClients m stage w → Link maxClients m stage w')
    (hengine : ∀ m, Live m w →
      w'.engines (w.memory.objects m).run = w.engines (w.memory.objects m).run)
    (howed : Owed w') (hlive : ∀ m, Live m w' → Live m w ∨ Going m w') :
    Passes maxClients manager none w w' := by
  obtain ⟨hsane, honward⟩ := hsane
  refine ⟨⟨hsane, ?_, howed, hledger ▸ horderly.ids, ?_⟩, honward, hheld, ?_⟩
  · intro m hlocked
    exact (hfree m hlocked).elim (fun hbefore => hlink m .idle
      (horderly.links m hbefore)) fun h => h
  · intro m hm
    rcases hlive m hm with hbefore | hgoing
    · have hkeeps := honward.objects m hbefore.made
      rw [hkeeps.run]
      refine (horderly.going m hbefore).imp ?_ fun hexited => (honward.exited _ hexited).1
      unfold Going
      rw [hledger, hkeeps.run]
      exact fun hgoing => hgoing.imp_right hkeeps.closed
    · exact .inl hgoing
  · exact fun m _ => ⟨.of_engine hledger honward (htaken m) (hengine m), hlink m⟩

/-- The engines and the ledger are as they were. -/
theorem Owed.of_same (h : Owed w) (hledger : w'.ledger = w.ledger)
    (hengines : w'.engines = w.engines) : Owed w' := by
  have hunapplied : w'.unapplied = w.unapplied := by
    funext run
    unfold World.unapplied World.applied Server.applied World.journal
    rw [hledger, hengines]
  refine ⟨?_, ?_⟩
  · rw [hunapplied, hledger]
    exact h.lines
  · rw [hengines, hledger]
    exact h.engines

/-- The manager changes its own part of the memory. -/
theorem Orderly.manages (h : Orderly maxClients w) {manager : Bool} {s : Memory}
    (hmanages : Manages w s) (htidy : s.locked = false → Tidy none (w.setMemory s))
    (hheld : manager = false → Held w (w.setMemory s)) :
    Passes maxClients manager none w (w.setMemory s) := by
  have hobjects : (w.setMemory s).memory.objects = w.memory.objects := hmanages.objects
  have hcreated : (w.setMemory s).memory.created = w.memory.created := hmanages.created
  refine .of_sane h (h.sane.manages hmanages htidy) rfl hheld ?_ ?_ ?_ ?_
    (h.owed.of_same rfl rfl) ?_
  · intro m ht
    refine ⟨hcreated ▸ ht.made, ?_⟩
    rw [hobjects]
    exact ht.locked
  · intro m hlocked
    rw [hobjects] at hlocked
    exact .inl hlocked
  · intro m stage hlink
    refine ⟨?_, ?_⟩
    all_goals rw [hobjects]
    · exact hlink.spawned
    · exact hlink.unspawned
  · exact fun m _ => rfl
  · intro m hm
    refine .inl ⟨hcreated ▸ hm.made, ?_⟩
    rw [← hobjects]
    exact hm.spawned

/-- What the holder of the lock relies on is not about the rest of the
manager's memory. -/
theorem Manages.held {s : Memory} (h : Manages w s)
    (hlocked : w.memory.locked = true → s.locked = true)
    (hshrinks : ∀ a m, s.serving.lookup a = some m → w.memory.serving.lookup a = some m)
    (hdrops : ∀ a m, w.memory.serving.lookup a = some m →
      s.serving.lookup a = some m ∨ Dropped m (w.setMemory s)) : Held w (w.setMemory s) where
  locked := hlocked
  shrinks := hshrinks
  drops := hdrops
  created := h.created
  started := by
    intro m
    show (s.objects m).spawned = _ ∧ (s.objects m).socket = _
    rw [h.objects]
    exact ⟨rfl, rfl⟩
  engines := fun _ hnone => hnone
  alive := fun _ halive => halive
  leases := fun b hb => ⟨b, hb, rfl, rfl⟩
  runs := fun r hr => ⟨r, hr, rfl, rfl, fun hgoes => hgoes⟩
  goes := by
    intro run hgoes
    refine hgoes.imp_right ?_
    rintro ⟨m, hm, hrun, hclosed⟩
    rw [← h.objects] at hrun hclosed
    exact ⟨m, h.created ▸ hm, hrun, hclosed⟩

/-- The books stay in order when no match is served that was not, and those
that are not served any more are dropped. -/
theorem Tidy.manages {s : Memory} {e : Option MatchId} (h : Tidy e w) (hmanages : Manages w s)
    (hshrinks : ∀ a m, s.serving.lookup a = some m → w.memory.serving.lookup a = some m)
    (hdrops : ∀ a m, w.memory.serving.lookup a = some m →
      s.serving.lookup a = some m ∨ Dropped m (w.setMemory s)) : Tidy e (w.setMemory s) := by
  have honward : Onward w (w.setMemory s) := .manages hmanages
  refine ⟨fun a m hlookup => ?_, ?_⟩
  · obtain ⟨hmade, hready⟩ := h.ready a m (hshrinks a m hlookup)
    rw [← hmanages.objects] at hready
    exact ⟨hmanages.created ▸ hmade, hready⟩
  · show ∀ m, (s.objects m).spawned = true → w.alive (s.objects m).run = true → e = some m ∨
      s.serving.lookup (s.objects m).arenaId = some m ∨ Dropped m (w.setMemory s)
    rw [hmanages.objects]
    intro m hspawned halive
    rcases h.covered m hspawned halive with hexcept | hserved | hdropped
    · exact .inl hexcept
    · exact .inr (hdrops _ m hserved)
    · exact .inr (.inr (hdropped.onward honward))

theorem Orderly.lockManager (h : Orderly maxClients w) :
    Passes maxClients false none w (w.setMemory (w.memory.setLock .manager true)) := by
  have hmanages : Manages w (w.memory.setLock .manager true) := .shrinks h.sane fun _ _ hm => hm
  exact h.manages hmanages (fun hfree => by cases hfree) fun _ =>
    hmanages.held (fun _ => rfl) (fun _ _ hm => hm) fun _ _ hm => .inl hm

theorem Orderly.unlockManager (h : Orderly maxClients w) (htidy : Tidy none w) :
    Passes maxClients true none w (w.setMemory (w.memory.setLock .manager false)) := by
  have hmanages : Manages w (w.memory.setLock .manager false) := .shrinks h.sane fun _ _ hm => hm
  exact h.manages hmanages (fun _ => htidy.manages hmanages (fun _ _ hm => hm)
    fun _ _ hm => .inl hm) fun hfalse => by cases hfalse

theorem lookup_of_erase {serving : AList fun _ : Uid => MatchId} {arenaId a : Uid} {m : MatchId}
    (h : (serving.erase arenaId).lookup a = some m) : serving.lookup a = some m := by
  by_cases ha : a = arenaId
  · rw [ha, AList.lookup_erase] at h
    cases h
  · rwa [AList.lookup_erase_ne ha] at h

theorem Sane.retires (h : Sane maxClients w) (arenaId : Uid) :
    Manages w ((Write.retire arenaId).apply w.memory) := .shrinks h fun _ _ => lookup_of_erase

/-- `self.matches.pop(arena_id, None)`. -/
theorem Orderly.retire (h : Orderly maxClients w) {arenaId : Uid}
    (hlocked : w.memory.locked = true) :
    Passes maxClients true none w (w.setMemory ((Write.retire arenaId).apply w.memory)) := by
  refine h.manages (h.sane.retires arenaId) (fun hfree => ?_) fun hfalse => by cases hfalse
  rw [show w.memory.locked = false from hfree] at hlocked
  cases hlocked

/-- A new worker. -/
theorem Orderly.restarted (h : Orderly maxClients w) {worker : Uid} {maxMatches : Nat}
    (hfresh : w.memory.ended = none) (hexited : ∀ run, w.alive run = false) :
    Passes maxClients false none w (w.restarted worker maxMatches) := by
  have hnever : ∀ {k : MatchId}, w.memory.ended ≠ some k := by simp [hfresh]
  have hmanages : Manages w (w.restarted worker maxMatches).memory :=
    { objects := rfl
      created := rfl
      connections := rfl
      serving := h.sane.serving
      ended := fun _ hk => hk
      ends := fun _ hk => .inl hk
      begun := fun _ => .inr hexited
      halted := fun hended => absurd hfresh hended
      listed := fun _ hk => absurd hk hnever
      stopping := h.sane.stopping
      stopped := h.sane.stopped }
  exact h.manages hmanages (fun hfree => (h.sane.tidy hfree).manages hmanages (fun _ _ hm => hm)
    fun _ _ hm => .inl hm) fun _ => hmanages.held (fun hl => hl) (fun _ _ hm => hm)
      fun _ _ hm => .inl hm

/-! ## The end of the loop -/

/-- The worker does not run any more. -/
theorem Orderly.halt (h : Orderly maxClients w) :
    Passes maxClients false none w (w.setMemory w.memory.halt) := by
  unfold Memory.halt
  split
  · rename_i hrunning
    have hnone : w.memory.ended = none := by
      by_contra hended
      rw [h.sane.halted hended] at hrunning
      cases hrunning
    have hmanages : Manages w { w.memory with
        running := false
        ended := some w.memory.created
        stopping := w.memory.serving.entries.map Sigma.snd } :=
      { objects := rfl
        created := rfl
        connections := rfl
        serving := h.sane.serving
        ended := fun _ hk => by simp [hnone] at hk
        ends := fun _ hk => .inr (Option.some.inj hk).symm
        begun := fun _ => .inl (.inl hrunning)
        halted := fun _ => rfl
        listed := fun _ _ a m hm => .inl (List.mem_map.mpr ⟨⟨a, m⟩,
          AList.mem_lookup_iff.mp hm, rfl⟩)
        stopping := by
          intro m hm
          obtain ⟨⟨a, m'⟩, hmem, rfl⟩ := List.mem_map.mp hm
          exact (h.sane.serving a m' (AList.mem_lookup_iff.mpr hmem)).1
        stopped := h.sane.stopped }
    exact h.manages hmanages (fun hfree => (h.sane.tidy hfree).manages hmanages
      (fun _ _ hm => hm) fun _ _ hm => .inl hm) fun _ => hmanages.held (fun hl => hl)
        (fun _ _ hm => hm) fun _ _ hm => .inl hm
  · exact .refl _ _ h

/-- One of the stops is over. -/
theorem Orderly.stopped (h : Orderly maxClients w) {m : MatchId} (hended : Ended m w) :
    Passes maxClients false none w (w.setMemory ((Write.stopped m).apply w.memory)) := by
  have hmanages : Manages w ((Write.stopped m).apply w.memory) :=
    { objects := rfl
      created := rfl
      connections := rfl
      serving := h.sane.serving
      ended := fun _ hk => hk
      ends := fun _ hk => .inl hk
      begun := fun hbegun => .inl hbegun
      halted := h.sane.halted
      listed := h.sane.listed
      stopping := h.sane.stopping
      stopped := fun m' hm' => (List.mem_cons.mp hm').elim (fun heq => heq ▸ hended)
        (h.sane.stopped m') }
  exact h.manages hmanages (fun hfree => (h.sane.tidy hfree).manages hmanages (fun _ _ hm => hm)
    fun _ _ hm => .inl hm) fun _ => hmanages.held (fun hl => hl) (fun _ _ hm => hm)
      fun _ _ hm => .inl hm

/-- `self.matches.clear()`.  The matches have been stopped, or they were made
too late for that. -/
theorem Orderly.clear (h : Orderly maxClients w) (hended : w.memory.ended ≠ none)
    (hstopped : ∀ m ∈ w.memory.stopping, m ∈ w.memory.stopped) :
    Passes maxClients false none w (w.setMemory { w.memory with
      serving := ∅ }) := by
  have hshrinks : ∀ a m, (∅ : AList fun _ : Uid => MatchId).lookup a = some m →
      w.memory.serving.lookup a = some m := fun _ _ hm => by simp at hm
  have hmanages : Manages w { w.memory with
      serving := ∅ } := .shrinks h.sane hshrinks
  have hdrops : ∀ a m, w.memory.serving.lookup a = some m →
      (∅ : AList fun _ : Uid => MatchId).lookup a = some m ∨
        Dropped m (w.setMemory { w.memory with
        serving := ∅ }) := by
    intro a m hm
    refine .inr (Dropped.onward ⟨hended, ?_⟩ (.manages hmanages))
    obtain ⟨k, hk⟩ := Option.ne_none_iff_exists'.mp hended
    rcases h.sane.listed k hk a m hm with hlisted | hle
    · exact .inr (h.sane.stopped m (hstopped m hlisted))
    · exact .inl ⟨k, hk, hle⟩
  exact h.manages hmanages (fun hfree => (h.sane.tidy hfree).manages hmanages hshrinks hdrops)
    fun _ => hmanages.held (fun hl => hl) hshrinks hdrops

/-! ## A match is made and started -/

theorem Link.of_new {m : MatchId} (hspawned : (w.memory.objects m).spawned = false)
    (hacks : ∀ key, (w.memory.objects m).acks key = none) : Link maxClients m .idle w :=
  ⟨fun h => by simp [hspawned] at h, fun _ => ⟨rfl, hacks⟩⟩

/-- `Match(...)`. -/
theorem Orderly.create (h : Orderly maxClients w) {arenaId run : Uid} {now : Int}
    {listed : Bool} (hlocked : w.memory.locked = true)
    (hrow : ∃ r ∈ w.ledger.runs, r.id = run ∧ r.arenaId = arenaId)
    (hw' : w' = w.setMemory (w.memory.create arenaId run now listed))
    (hlisted : listed = true → Own w.memory.created w') : Passes maxClients true none w w' := by
  have hnew : w'.memory.objects w.memory.created = Match.new arenaId run now := by
    rw [hw']
    exact Function.update_self _ _ _
  have hold : ∀ m, m ≠ w.memory.created → w'.memory.objects m = w.memory.objects m := by
    rw [hw']
    exact fun m hm => Function.update_of_ne hm _ _
  have hcreated : w'.memory.created = w.memory.created + 1 := by rw [hw']; rfl
  have hengines : w'.engines = w.engines := by rw [hw']; rfl
  have hledger : w'.ledger = w.ledger := by rw [hw']; rfl
  have hidle : Link maxClients w.memory.created .idle w' := by
    refine .of_new ?_ ?_
    all_goals rw [hnew]
    · rfl
    · exact fun _ => rfl
  refine .of_sane h (h.sane.create hlocked hrow hw' hlisted) hledger
    (fun hfalse => by cases hfalse) ?_ ?_ ?_
    ?_ (h.owed.of_same hledger hengines) ?_
  · intro m ht
    have hm := ht.made
    refine ⟨hcreated ▸ Nat.lt_succ_of_lt hm, ?_⟩
    rw [hold m (Nat.ne_of_lt hm)]
    exact ht.locked
  · intro m hfree
    by_cases hm : m = w.memory.created
    · exact .inr (hm ▸ hidle)
    · rw [hold m hm] at hfree
      exact .inl hfree
  · intro m stage hlink
    by_cases hm : m = w.memory.created
    · subst hm
      rw [(hlink.unspawned (h.sane.blank _ (Nat.le_refl _)).2.2).1]
      exact hidle
    · refine ⟨?_, ?_⟩
      all_goals rw [hold m hm]
      · rw [hengines]
        exact hlink.spawned
      · exact hlink.unspawned
  · exact fun m _ => congrFun hengines _
  · intro m hm
    have hspawned := hm.spawned
    by_cases hm' : m = w.memory.created
    · rw [hm', hnew] at hspawned
      cases hspawned
    · rw [hold m hm'] at hspawned
      exact .inl (h.sane.live hspawned)

/-- The socket of a match is made. -/
theorem Orderly.socketpair (h : Orderly maxClients w) {m : MatchId}
    (hlocked : w.memory.locked = true) (hmade : m < w.memory.created)
    (hnamed : (w.memory.objects m).run ≠ "") (halone : Alone m w)
    (hnone : w.engines (w.memory.objects m).run = none) :
    Passes maxClients true none w (w.setMemory (w.memory.setMatch m fun M => { M with
      socket := true })) := by
  have honly : ∀ m', (w.memory.objects m').run = (w.memory.objects m).run → m' = m := by
    intro m' hrun
    by_cases hm' : m' < w.memory.created
    · exact halone m' hm' hrun
    · exact absurd (hrun.symm.trans (h.sane.blank m' (not_lt.mp hm')).1) hnamed
  have hother : ∀ m', m' ≠ m →
      (w.memory.setMatch m fun M => { M with
        socket := true }).objects m' = w.memory.objects m' :=
    fun m' hm' => Function.update_of_ne hm' _ _
  have hdrifting : ∀ m', Drifting maxClients m' w (w.setMemory (w.memory.setMatch m
      fun M => { M with
        socket := true })) ∧ ((w.memory.setMatch m fun M => { M with
      socket := true }).objects m').locked = (w.memory.objects m').locked := by
    intro m'
    by_cases hm' : m' = m
    · subst hm'
      refine ⟨.of_engine ?_ ?_ ?_ rfl, ?_⟩
      all_goals simp only [World.setMemory, Memory.setMatch, Function.update_self]
      exact ⟨rfl, rfl, fun hc => hc, fun hs => hs⟩
    · refine ⟨.of_engine ?_ ?_ ?_ rfl, by rw [hother m' hm']⟩
      all_goals simp only [World.setMemory, hother m' hm']
      exact .refl _
  refine .of_sane h (h.sane.socketpair hlocked hmade honly hnone rfl) rfl
    (fun hfalse => by cases hfalse) (fun m' ht => ⟨ht.made, (hdrifting m').2.trans ht.locked⟩)
    (fun m' hfree => .inl ((hdrifting m').2.symm.trans hfree))
    (fun m' stage hlink => hlink.drifts (hdrifting m').1) (fun _ _ => rfl)
    (h.owed.of_same rfl rfl) fun m' hm' => .inl ⟨hm'.made, ?_⟩
  rw [← (hdrifting m').1.spawned]
  exact hm'.spawned

/-- The engine of a match is started. -/
theorem Orderly.spawn (h : Orderly maxClients w) {m : MatchId} (hlocked : w.memory.locked = true)
    (hm : Own m w) (hsocket : (w.memory.objects m).socket = true)
    (hunspawned : (w.memory.objects m).spawned = false) (hgoing : Going m w)
    (halone : ∀ run, w.alive run = true → ¬Neighbours w run (w.memory.objects m).run)
    (hw' : w' = (w.setEngine (w.memory.objects m).run .new).setMemory
      (w.memory.setMatch m fun M => { M with
        spawned := true })) : Passes maxClients true none w w' := by
  have hnone := hm.pending hunspawned
  have hself : w'.memory.objects m = { w.memory.objects m with
      spawned := true } := by
    rw [hw']
    exact Function.update_self _ _ _
  have hother : ∀ m', m' ≠ m → w'.memory.objects m' = w.memory.objects m' := by
    rw [hw']
    exact fun m' hm' => Function.update_of_ne hm' _ _
  have hengine : w'.engines (w.memory.objects m).run = some .new := by
    rw [hw']
    exact Function.update_self _ _ _
  have hengines : ∀ run, run ≠ (w.memory.objects m).run → w'.engines run = w.engines run := by
    rw [hw']
    exact fun run hrun => Function.update_of_ne hrun _ _
  have hledger : w'.ledger = w.ledger := by rw [hw']; rfl
  have hcreated : w'.memory.created = w.memory.created := by rw [hw']; rfl
  have hjournal : w'.journal = w.journal := by
    funext run
    by_cases hrun : run = (w.memory.objects m).run
    · rw [hrun, journal_of_some hengine, journal_of_none hnone]
      rfl
    · unfold World.journal
      rw [hengines run hrun]
  have hne : ∀ m', (w.memory.objects m').spawned = true → m' ≠ m ∧
      (w.memory.objects m').run ≠ (w.memory.objects m).run := by
    intro m' hspawned
    have hm' : m' ≠ m := by
      intro heq
      rw [heq, hunspawned] at hspawned
      cases hspawned
    exact ⟨hm', (h.sane.live_run (h.sane.live hspawned) hsocket (Ne.symm hm')).symm⟩
  refine .of_sane h (h.sane.spawn hlocked hm hsocket hunspawned halone hw') hledger
    (fun hfalse => by cases hfalse) ?_ ?_ ?_ ?_ ?_ ?_
  · intro m' ht
    refine ⟨hcreated ▸ ht.made, ?_⟩
    by_cases hm' : m' = m
    · subst hm'
      rw [hself]
      exact ht.locked
    · rw [hother m' hm']
      exact ht.locked
  · intro m' hfree
    by_cases hm' : m' = m
    · subst hm'
      rw [hself] at hfree
      exact .inl hfree
    · rw [hother m' hm'] at hfree
      exact .inl hfree
  · intro m' stage hlink
    by_cases hm' : m' = m
    · subst hm'
      obtain ⟨rfl, hacks⟩ := hlink.unspawned hunspawned
      refine ⟨?_, ?_⟩
      all_goals rw [hself]
      · intro _ e he
        rw [hengine, Option.some.injEq] at he
        subst he
        refine (Channel.Inv.initial maxClients "" "" 0).congr ?_ fun hclosed => by cases hclosed
        exact funext hacks
      · exact fun hfalse => by cases hfalse
    · refine ⟨?_, ?_⟩
      all_goals rw [hother m' hm']
      · intro hspawned
        rw [hengines _ (hne m' hspawned).2]
        exact hlink.spawned hspawned
      · exact hlink.unspawned
  · exact fun m' hlive => hengines _ (hne m' hlive.spawned).2
  · have hunapplied : w'.unapplied = w.unapplied := by
      funext run
      unfold World.unapplied World.applied
      rw [hjournal, hledger]
    refine ⟨?_, ?_⟩
    · rw [hunapplied, hledger]
      exact h.owed.lines
    · intro run e he
      rw [hledger]
      by_cases hrun : run = (w.memory.objects m).run
      · rw [hrun, hengine, Option.some.injEq] at he
        exact he ▸ EngineProcess.Untouched.new.promised _
      · rw [hengines run hrun] at he
        exact h.owed.engines run e he
  · intro m' hlive
    by_cases hm' : m' = m
    · subst hm'
      refine .inr ?_
      unfold Going
      rw [hledger, hself]
      exact hgoing
    · have hspawned := hlive.spawned
      rw [hother m' hm'] at hspawned
      exact .inl (h.sane.live hspawned)

/-! ## Packets -/

section

variable {m : MatchId} {bytes : List UInt8} (h : Orderly maxClients w)
  (hopen : (w.memory.objects m).closed = false) (hsocket : (w.memory.objects m).socket = true)
  (hseat : ∀ (p : UInt8) rest, bytes = 1 :: p :: rest →
    ∀ e, w.engines (w.memory.objects m).run = some e → e.running = true →
      Seated w.ledger (w.memory.objects m).run p.toNat (text rest))

include hopen hsocket hseat

theorem Calms.push : Calms maxClients (fun run packet => run = (w.memory.objects m).run ∧
    packet = bytes) w (w.push (w.memory.objects m).run bytes) := by
  unfold World.push
  cases he : w.engines (w.memory.objects m).run with
  | none =>
    refine ⟨rfl, .refl _, .of_eq rfl, ?_, ?_⟩
    · rintro run packet ⟨rfl, rfl⟩ hcut
      simp [hcut m hsocket rfl] at hopen
    · rintro run e hengine - p rest ⟨rfl, -⟩
      rw [he] at hengine
      cases hengine
  | some e =>
    refine ⟨rfl, .refl _, ⟨?_, ?_⟩, ?_, ?_⟩
    · intro run hnone
      have hne : run ≠ (w.memory.objects m).run := by
        intro heq
        rw [heq, he] at hnone
        cases hnone
      simpa [World.setEngine, Function.update_of_ne hne] using hnone
    · intro run e' he'
      by_cases hrun : run = (w.memory.objects m).run
      · subst hrun
        rw [he, Option.some.injEq] at he'
        subst he'
        exact ⟨_, Function.update_self _ _ _, .pushed bytes ⟨rfl, rfl⟩⟩
      · exact ⟨e', by simpa [World.setEngine, Function.update_of_ne hrun] using he', .same⟩
    · rintro run packet ⟨rfl, rfl⟩ hcut
      simp [hcut m hsocket rfl] at hopen
    · rintro run e' hengine hrunning p rest ⟨rfl, hbytes⟩
      exact hseat p rest hbytes.symm e' hengine hrunning

omit hseat hopen in
/-- The other matches with engines are not disturbed. -/
theorem Drifting.push_other (h : Orderly maxClients w) {m' : MatchId} (hm' : m' ≠ m) :
    Drifting maxClients m' w (w.push (w.memory.objects m).run bytes) := by
  unfold World.push
  cases he : w.engines (w.memory.objects m).run with
  | none => exact .of_engine (.refl _) rfl rfl rfl
  | some e =>
    refine ⟨rfl, rfl, ?_, fun _ _ hnone => hnone⟩
    intro hspawned e' he'
    have hrun := (h.sane.live_run (h.sane.live hspawned) hsocket (Ne.symm hm')).symm
    refine ⟨e', ?_, .kept _ rfl fun hc => hc⟩
    simpa [World.setEngine, Function.update_of_ne hrun] using he'

include h

/-- A packet goes into the socket of the engine of a match that is open.  Only
gameplay needs no lock. -/
theorem Orderly.push {game : Option MatchId}
    (hgame : (game = some m ∧ Taken m w) ∨ ∃ peer payload, bytes = 2 :: peer :: payload) :
    Passes maxClients false game w (w.push (w.memory.objects m).run bytes) := by
  have hcalms : Calms maxClients (fun run packet => run = (w.memory.objects m).run ∧
      packet = bytes) w (w.push (w.memory.objects m).run bytes) := .push hopen hsocket hseat
  have hmemory : (w.push (w.memory.objects m).run bytes).memory = w.memory := by
    unfold World.push
    cases w.engines (w.memory.objects m).run <;> rfl
  have hdrifting : ∀ m', m' ≠ m ∨ (∃ peer payload, bytes = 2 :: peer :: payload) →
      Drifting maxClients m' w (w.push (w.memory.objects m).run bytes) := by
    intro m' hm'
    by_cases heq : m' = m
    · subst heq
      obtain ⟨peer, payload, rfl⟩ := hm'.resolve_left fun hne => hne rfl
      unfold World.push
      cases he : w.engines (w.memory.objects m').run with
      | none => exact .of_engine (.refl _) rfl rfl rfl
      | some e =>
        refine ⟨rfl, rfl, ?_, fun _ _ hnone => hnone⟩
        intro _ e' he'
        simp only [World.setEngine, Function.update_self, Option.some.injEq] at he'
        exact ⟨e, he, he' ▸ .forward peer payload hopen⟩
    · exact Drifting.push_other hsocket h heq
  have hdrifts : ∀ m', game ≠ some m' →
      Drifting maxClients m' w (w.push (w.memory.objects m).run bytes) := by
    intro m' hm'
    refine hdrifting m' (hgame.imp_left ?_)
    rintro ⟨hheld, -⟩ heq
    exact hm' (heq ▸ hheld)
  refine ⟨hcalms.keeps h ?_ ?_ ?_, hcalms.onward h,
    fun _ => hcalms.held h, fun m' hm' => ⟨?_, ?_⟩⟩
  · rw [hmemory]
    exact fun _ => .inl rfl
  · rw [hmemory]
    exact fun _ _ hhost => .inl hhost
  · intro m' hfree
    rw [hmemory] at hfree
    refine (h.links m' hfree).drifts (hdrifting m' (hgame.imp_left ?_))
    rintro ⟨-, htaken⟩ heq
    have hlocked := htaken.locked
    rw [← heq, hfree] at hlocked
    cases hlocked
  · refine hcalms.attended h (by rw [hmemory]; exact fun hl => hl) ?_
    rintro hlive p rest ⟨hrun, hbytes⟩
    have heq : m = m' := h.sane.sockets m m' hsocket (h.sane.live_socket hlive) hrun.symm
    obtain ⟨peer, payload, rfl⟩ := hgame.resolve_left fun hheld => hm' (heq ▸ hheld.1)
    simp at hbytes
  · exact fun stage hlink => hlink.drifts (hdrifts m' hm')

end

end

end QuakeJs.Server
