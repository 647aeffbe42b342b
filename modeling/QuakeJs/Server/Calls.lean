import QuakeJs.Server.Rules

/-!
# A call of `control`

A call registers its future, sends its packet, awaits the acknowledgement and
forgets the future.  After a revocation or a forfeiture that is acknowledged,
the engine cannot end a life of that slot any more.
-/

namespace QuakeJs.Server

open Async Engine Ledger

section

variable {maxClients : Nat} {digest : String → String} {exposed : Bool}
  {v : View} {w w' : World} {m : MatchId}
  {cmd : Command}

/-- When a revocation or a forfeiture is answered, the engine cannot end a
life in the slot any more. -/
theorem Orderly.banned (h : Orderly maxClients w) (hm : Live m w)
    (hlink : Link maxClients m (.answered cmd) w) (hkind : cmd.kind ≠ 1) {id : Uid}
    (hslot : ∀ l ∈ w.ledger.lives, l.id = id → l.slot = cmd.peer.toNat) :
    Banned (w.memory.objects m).run id w := by
  intro e he
  obtain ⟨hsettled, hrevoked⟩ := Stage.revoked (hlink.spawned hm.spawned e he) hkind
  have hpromised := h.owed.engines _ e he
  refine ⟨fun hrunning peer id' hholds => ?_, fun _ p rest hmem => ?_⟩
  · rintro rfl
    obtain ⟨-, l, hl, hid, -, hpeer, -⟩ := hpromised.holds hrunning peer id' hholds
    have hsame : peer = cmd.peer.toNat := hpeer.symm.trans (hslot l hl hid)
    subst hsame
    have hlatest := ((h.sane.engines _ e he).live hrunning).admitted cmd.peer.toNat hholds.fresh
      (by rw [hholds.admitted]; exact hholds.named)
    unfold Revoked at hrevoked
    rw [hrevoked] at hlatest
    cases hlatest
  · exact absurd rfl (hsettled.inbox _ hmem)

theorem send_cases {kind peer : Nat} {payload : List UInt8} {purpose : Purpose}
    {outcome : Outcome (.send m kind peer payload purpose)}
    (h : Performs digest exposed (.send m kind peer payload purpose) w outcome w') :
    w' = w ∧ (∃ raised, outcome = .error raised) ∨
      outcome = .ok () ∧ (w.memory.objects m).closed = false ∧
        (w.memory.objects m).socket = true ∧ peer < 256 ∧
        w' = w.push (w.memory.objects m).run
          (UInt8.ofNat kind :: UInt8.ofNat peer :: payload) := by
  obtain ⟨env, heffect⟩ | ⟨hraised, rfl⟩ := h.plain rfl
  · simp only [Op.effects, List.mem_singleton, World.send] at heffect
    split_ifs at heffect with hshut hpeer
    · rw [Prod.mk.injEq] at heffect
      exact .inl ⟨heffect.2, _, heffect.1⟩
    · rw [Prod.mk.injEq] at heffect
      exact .inl ⟨heffect.2, _, heffect.1⟩
    · rw [Prod.mk.injEq] at heffect
      rw [not_or, Bool.not_eq_true, Bool.not_eq_false] at hshut
      exact .inr ⟨heffect.1, hshut.1, hshut.2, by omega, heffect.2⟩
  · exact .inl ⟨rfl, hraised⟩

theorem ack_cases {key : Nat × Nat} {purpose : Purpose} {outcome : Outcome (.ack m key purpose)}
    (h : Performs digest exposed (.ack m key purpose) w outcome w') :
    w' = w ∧ (∀ a, outcome = .ok a → (w.memory.objects m).acks key = some true) := by
  obtain ⟨env, heffect⟩ | ⟨⟨raised, rfl⟩, rfl⟩ := h.plain rfl
  · simp only [Op.effects] at heffect
    split_ifs at heffect with hdone
    · rw [List.mem_singleton, Prod.mk.injEq] at heffect
      exact ⟨heffect.2, fun _ _ => hdone⟩
    · simp at heffect
  · exact ⟨rfl, fun a ha => by cases ha⟩

theorem write_cases {x : Write} {outcome : Outcome (.write x)}
    (h : Performs digest exposed (.write x) w outcome w') :
    outcome = .ok () ∧ w' = w.setMemory (x.apply w.memory) := by
  obtain ⟨env, heffect⟩ := h.sure rfl rfl
  rwa [Op.effects, List.mem_singleton, Prod.mk.injEq] at heffect

section

variable {kind peer : Nat} {payload : List UInt8} {purpose : Purpose} {F G S : World → Prop}
  (hgame : v.game = some m)

include hgame

/-- The futures of a match are changed by the holder of its lock. -/
theorem futures_spec {x : Write} (stage stage' lost : Stage)
    (acks : World → Nat × Nat → Option Bool)
    (hF : Keeps maxClients v F) (hS : Keeps maxClients v S)
    (hlive : ∀ w, F w → Live m w)
    (hx : ∀ w : World, w.setMemory (x.apply w.memory) = w.setMemory
      (w.memory.setMatch m fun M => { M with
      acks := acks w }))
    (hstage : ∀ (w : World) e, stage.Holds maxClients (w.memory.objects m) e →
      stage'.Holds maxClients { w.memory.objects m with
        acks := acks w } e) :
    Triple (custody maxClients) (Performs digest exposed) (On maxClients v stage F) (write x)
      (fun _ => On maxClients v stage' F) (Fails maxClients exposed v lost S) := by
  refine on_perform hF (fun _ => hF) hS (fun _ _ _ => trivial) ?_
  intro w outcome w' hon hdoes
  obtain ⟨rfl, rfl⟩ := write_cases hdoes
  rw [hx]
  obtain ⟨hpass, hattended⟩ := hon.orderly.futures (hon.owns.game m hgame) (acks w)
  have halong : Along maxClients v w (w.setMemory (w.memory.setMatch m fun M => { M with
      acks := acks w })) := by
    refine ⟨hon.orderly, hpass.orderly, hpass.onward, fun _ => hpass.held rfl, ?_⟩
    intro m' hm'
    have heq : m = m' := Option.some.inj (hgame.symm.trans hm')
    exact heq ▸ hattended
  refine ⟨false, some m, hpass, fun h => (by cases h), ?_, hon.owns.mono halong,
    fun _ _ => ⟨?_, hF _ _ halong hon.holds⟩, fun _ h => by cases h⟩
  · rintro m' hm'
    rw [← Option.some.inj hm']
    exact hgame
  · intro m' hm'
    have heq : m = m' := Option.some.inj (hgame.symm.trans hm')
    subst heq
    exact (hon.link m hgame).futures (hlive w hon.holds).spawned (hstage w)

/-- The packet and its acknowledgement. -/
theorem exchange_spec (hF : Keeps maxClients v F) (hG : Keeps maxClients v G)
    (hlive : ∀ w, F w → Live m w) (hlive' : ∀ w, G w → Live m w)
    (hcmd : peer < 256 → cmd.key = (kind, peer) ∧
      UInt8.ofNat kind :: UInt8.ofNat peer :: payload = cmd.bytes)
    (hseat : ∀ w, Orderly maxClients w → F w → (w.memory.objects m).closed = false → peer < 256 →
      ∀ (p : UInt8) rest, cmd.bytes = 1 :: p :: rest →
        ∀ e, w.engines (w.memory.objects m).run = some e → e.running = true →
          Seated w.ledger (w.memory.objects m).run p.toNat (text rest))
    (hkeeps : ∀ w, Orderly maxClients w → F w → G w)
    (hsent : ∀ w w', Orderly maxClients w → F w → Passes maxClients false (some m) w w' →
      (cmd.kind ≠ 1 → Attended m w w') → G w') :
    Triple (custody maxClients) (Performs digest exposed)
      (On maxClients v (.registered (kind, peer)) F)
      (do
        let _ ← await (.send m kind peer payload purpose)
        await (.ack m (kind, peer) purpose))
      (fun _ => On maxClients v (.answered cmd) fun w => G w ∧ peer < 256)
      (Fails maxClients exposed v (.unanswered (kind, peer)) G) := by
  have hother : ∀ {m' : MatchId}, v.game = some m' → m = m' :=
    fun hm' => Option.some.inj (hgame.symm.trans hm')
  refine Triple.bind (R := fun _ => On maxClients v (.calling cmd) fun w => G w ∧ peer < 256) ?_
    fun _ => ?_
  · refine on_perform hF (fun _ => hG.and (.const _)) hG (fun _ _ _ => trivial) ?_
    intro w outcome w' hon hdoes
    have hspawned := (hlive w hon.holds).spawned
    rcases send_cases hdoes with ⟨rfl, raised, rfl⟩ | ⟨rfl, hopen, hsocket, hpeer, rfl⟩
    · refine ⟨false, none, .refl _ _ hon.orderly, fun h => (by cases h), fun _ h => (by cases h),
        hon.owns, fun _ h => (by cases h), fun _ _ => ⟨?_, hkeeps _ hon.orderly hon.holds⟩⟩
      rintro m' hm'
      obtain rfl := hother hm'
      exact .unanswered (.inl (hon.link m hgame)) hspawned
    · obtain ⟨hkey, hbytes⟩ := hcmd hpeer
      rw [hbytes]
      have hpass := hon.orderly.push hopen hsocket
        (hseat w hon.orderly hon.holds hopen hpeer) (.inl ⟨rfl, hon.owns.game m hgame⟩)
      have hattended : cmd.kind ≠ 1 →
        Attended m w (w.push (w.memory.objects m).run cmd.bytes) := by
        intro hkind
        have hcalms : Calms maxClients (fun run packet => run = (w.memory.objects m).run ∧
            packet = cmd.bytes) w (w.push (w.memory.objects m).run cmd.bytes) :=
          .push hopen hsocket (hseat w hon.orderly hon.holds hopen hpeer)
        refine hcalms.attended hon.orderly ?_ ?_
        · have hmemory : (w.push (w.memory.objects m).run cmd.bytes).memory = w.memory := by
            unfold World.push
            cases w.engines (w.memory.objects m).run <;> rfl
          rw [hmemory]
          exact fun hl => hl
        · rintro - p rest ⟨-, hpacket⟩
          cases cmd with
          | seat _ _ => exact hkind rfl
          | revoke _ => simp [Command.bytes] at hpacket
          | forfeit _ => simp [Command.bytes] at hpacket
      have hmemory : (w.push (w.memory.objects m).run cmd.bytes).memory = w.memory := by
        unfold World.push
        cases w.engines (w.memory.objects m).run <;> rfl
      refine ⟨false, some m, hpass, fun h => (by cases h), ?_, ?_, fun _ _ => ⟨?_, ?_, hpeer⟩,
        fun _ h => by cases h⟩
      · rintro m' hm'
        rw [← Option.some.inj hm']
        exact hgame
      · refine ⟨fun hm => ?_, fun m' hm' => ?_⟩
        · rw [hmemory]
          exact hon.owns.manager hm
        · have htaken := hon.owns.game m' hm'
          refine ⟨?_, ?_⟩
          all_goals rw [hmemory]
          · exact htaken.made
          · exact htaken.locked
      · rintro m' hm'
        obtain rfl := hother hm'
        exact Link.push (hkey ▸ hon.link m hgame) hspawned hopen
      · exact hsent w _ hon.orderly hon.holds hpass hattended
  · refine on_perform (hG.and (.const _)) (fun _ => hG.and (.const _)) hG
      (fun _ _ _ => trivial) ?_
    intro w outcome w' hon hdoes
    obtain ⟨hholds, hpeer⟩ := hon.holds
    have hspawned := (hlive' w hholds).spawned
    obtain ⟨rfl, hdone⟩ := ack_cases hdoes
    refine ⟨false, none, .refl _ _ hon.orderly, fun h => (by cases h), fun _ h => (by cases h),
      hon.owns, fun a ha => ⟨?_, hholds, hpeer⟩, fun _ _ => ⟨?_, hholds⟩⟩
    · rintro m' hm'
      obtain rfl := hother hm'
      refine ⟨fun _ e he => ⟨(hon.link m hgame).spawned hspawned e he, ?_⟩, fun hunspawned => by
        simp [hspawned] at hunspawned⟩
      rw [(hcmd hpeer).1]
      exact hdone a ha
    · rintro m' hm'
      obtain rfl := hother hm'
      exact .unanswered (.inr ⟨cmd, (hcmd hpeer).1, hon.link m hgame⟩) hspawned

/-- A revocation or a forfeiture. -/
theorem control_spec (hF : Keeps maxClients v F) (hG : Keeps maxClients v G)
    (hlive : ∀ w, F w → Live m w) (hkind : cmd.kind ≠ 1) (hone : kind ≠ 1)
    (hcmd : peer < 256 → cmd.key = (kind, peer) ∧
      UInt8.ofNat kind :: UInt8.ofNat peer :: payload = cmd.bytes)
    (hanswered : ∀ w, Orderly maxClients w → F w → peer < 256 →
      Link maxClients m (.answered cmd) w → G w) :
    Spec maxClients digest exposed v F (control m kind peer payload purpose)
      (fun _ w => F w ∧ G w) F := by
  have hexchange := @exchange_spec maxClients digest exposed v m cmd kind
    peer payload purpose F F hgame hF hF
    hlive hlive hcmd ?_ (fun _ _ h => h) ?_
  · refine Triple.bind (futures_spec hgame .idle (.registered (kind, peer)) .idle
      (fun w => Function.update (w.memory.objects m).acks (kind, peer) (some false))
      hF hF hlive (fun _ => rfl) fun w e hidle => Stage.register hidle _) fun _ => ?_
    refine Triple.clean (fun _ => On.stable (hF.and hG)) (fun raised => Fails.stable hF raised)
      hexchange ?_ ?_
    · intro _ view w horderly hon
      obtain ⟨hholds, hpeer⟩ := hon.holds
      have hG' := hanswered w horderly hholds hpeer (hon.link m hgame)
      refine futures_spec hgame (.answered cmd) .idle .idle
        (fun w => Function.update (w.memory.objects m).acks (kind, peer) none)
        (hF.and hG) hF (fun w h => hlive w h.1) (fun _ => rfl) ?_ view w horderly
        ⟨hon.view, hon.orderly, hon.owns, hon.link, hholds, hG'⟩
      intro w e hans
      rw [← (hcmd hpeer).1]
      exact Stage.drop hans.1 hkind
    · intro raised view w horderly hfails
      refine (futures_spec hgame (.unanswered (kind, peer)) .idle .idle
        (fun w => Function.update (w.memory.objects m).acks (kind, peer) none)
        hF hF hlive (fun _ => rfl) (fun w e hlost => Stage.lost hlost hone) view w horderly
        hfails.2).mono ?_
      intro outcome view w _ hpost
      cases outcome with
      | ok _ => exact ⟨hfails.1, hpost⟩
      | error raised => exact hpost
  · intro w _ _ _ _ p rest hbytes
    cases cmd with
    | seat _ _ => exact absurd rfl hkind
    | revoke _ => simp [Command.bytes] at hbytes
    | forfeit _ => simp [Command.bytes] at hbytes
  · intro w w' horderly hholds hpass hattended
    refine hF w w' ⟨horderly, hpass.orderly, hpass.onward, fun _ => hpass.held rfl, ?_⟩ hholds
    intro m' hm'
    have heq : m = m' := Option.some.inj (hgame.symm.trans hm')
    exact heq ▸ hattended hkind

/-- An admission of a life that may be sent to the engine.  When it fails, the
match has to be closed. -/
theorem admit_spec {id : Uid} (hF : Keeps maxClients ⟨v.manager, none⟩ F)
    (hlive : ∀ w, F w → Live m w) (hid : text (encode id) = id) :
    Triple (custody maxClients) (Performs digest exposed)
      (On maxClients v .idle fun w => F w ∧ Seatable m peer id w)
      (control m 1 peer (encode id) purpose) (fun _ => On maxClients v .idle F)
      (Fails maxClients exposed v .failed F) := by
  have hF' : Keeps maxClients v F := Keeps.forget hF
  have hseatable : Keeps maxClients v fun w => F w ∧ Seatable m peer id w := by
    rintro w w' halong ⟨hholds, hseat⟩
    exact ⟨hF' w w' halong hholds,
      (halong.attended m hgame).seatable (hlive w hholds) peer id hseat⟩
  have hexchange := @exchange_spec maxClients digest exposed v m
    (.seat (UInt8.ofNat peer) (encode id)) 1 peer
    (encode id) purpose _ F hgame hseatable hF' (fun w h => hlive w h.1) hlive ?_ ?_
    (fun _ _ h => h.1) ?_
  · refine Triple.bind (futures_spec hgame .idle (.registered (1, peer)) .failed
      (fun w => Function.update (w.memory.objects m).acks (1, peer) (some false))
      hseatable hF' (fun w h => hlive w h.1) (fun _ => rfl)
        fun w e hidle => Stage.register hidle _)
      fun _ => ?_
    refine Triple.clean (fun _ => On.stable hF') (fun raised => Fails.stable hF' raised)
      hexchange ?_ ?_
    · intro _ view w horderly hon
      obtain ⟨hholds, hpeer⟩ := hon.holds
      refine futures_spec hgame (.answered (.seat (UInt8.ofNat peer) (encode id))) .idle .failed
        (fun w => Function.update (w.memory.objects m).acks (1, peer) none)
        hF' hF' hlive (fun _ => rfl) ?_ view w horderly
        ⟨hon.view, hon.orderly, hon.owns, hon.link, hholds⟩
      intro w e hans
      have hkey : (Command.seat (UInt8.ofNat peer) (encode id)).key = (1, peer) := by
        simp [Command.key, Command.kind, Command.peer, Nat.mod_eq_of_lt hpeer]
      rw [← hkey]
      exact Stage.seated hans
    · intro raised view w horderly hfails
      refine (futures_spec hgame (.unanswered (1, peer)) .failed .failed
        (fun w => Function.update (w.memory.objects m).acks (1, peer) none)
        hF' hF' hlive (fun _ => rfl) (fun w e hlost => Stage.fails hlost) view w horderly
        hfails.2).mono ?_
      intro outcome view w _ hpost
      cases outcome with
      | ok _ => exact ⟨hfails.1, hpost⟩
      | error raised => exact hpost
  · intro hpeer
    refine ⟨?_, rfl⟩
    simp [Command.key, Command.kind, Command.peer, Nat.mod_eq_of_lt hpeer]
  · rintro w - ⟨hholds, hseat⟩ hopen hpeer p rest hbytes e he hrunning
    simp only [Command.bytes, List.cons.injEq, true_and] at hbytes
    obtain ⟨rfl, rfl⟩ := hbytes
    rw [hid, UInt8.toNat_ofNat_of_lt' (by simpa using hpeer)]
    rcases hseat with hseated | hclosed | ⟨e', he', hstopped⟩
    · exact hseated
    · simp [hopen] at hclosed
    · rw [he, Option.some.injEq] at he'
      simp [← he', hrunning] at hstopped
  · rintro w w' horderly ⟨hholds, -⟩ hpass -
    exact hF w w' ⟨horderly, hpass.orderly, hpass.onward, fun _ => hpass.held rfl,
      fun m' hm' => by cases hm'⟩ hholds

end

end

end QuakeJs.Server
