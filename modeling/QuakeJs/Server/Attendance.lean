import QuakeJs.Server.Stops

/-!
# Players of a match

`attach` and `detach`.  A life is sent to the engine only while it is in play,
and an admission that fails closes the match before its lock is given back.
-/

namespace QuakeJs.Server

open Async Engine Ledger

/-- An id that the engine accepts is read as it was sent. -/
theorem text_encode {id : String} (h : validId id = true) : text (encode id) = id := by
  rw [validId, Bool.and_eq_true, List.all_eq_true] at h
  have hsame : (id.toList.map fun c => UInt8.ofNat c.toNat).map
    (fun byte => Char.ofNat byte.toNat) =
      id.toList := by
    rw [List.map_map]
    refine (List.map_congr_left fun c hc => ?_).trans (List.map_id _)
    have hsmall : c.toNat < 256 := by
      have hrange := h.2 c hc
      simp only [Bool.or_eq_true, Bool.and_eq_true, decide_eq_true_eq, Char.le_def,
        UInt32.le_iff_toNat_le] at hrange
      have hnine : ('9' : Char).val.toNat = 57 := rfl
      have hf : ('f' : Char).val.toNat = 102 := rfl
      show c.val.toNat < 256
      omega
    simp only [Function.comp_apply, id_eq]
    rw [UInt8.toNat_ofNat_of_lt' (by simpa using hsmall), Char.ofNat_toNat]
  unfold text encode
  rw [hsame, String.ofList_toList]

/-- A match with an engine of its own. -/
structure Hosted (m : MatchId) (w : World) : Prop where
  live : Live m w
  own : Own m w

section

variable {maxClients : Nat} {digest : String → String} {exposed : Bool}
  {v : View} {w w' : World} {m : MatchId}

theorem Hosted.keeps : Keeps maxClients v (Hosted m) :=
  fun _ _ halong h => ⟨h.live.mono halong.onward, halong.onward.own m h.own⟩

/-- A match that a connection is attached to. -/
theorem Orderly.hosted (h : Orderly maxClients w) {c : ConnectionId}
    (hhost : (w.memory.connections c).host = some m) : Hosted m w := by
  obtain ⟨hown, hspawned⟩ := h.sane.hosts c m hhost
  exact ⟨⟨hown.made, hspawned⟩, hown⟩

theorem Hosted.reads (hgame : v.game = some m) : Reads maxClients v m (Hosted m) :=
  ⟨Hosted.keeps, fun _ hw => hw.live.made, fun _ _ _ => hgame⟩

/-- A life that has been allocated may be sent to the engine. -/
theorem Orderly.allocated (h : Orderly maxClients w) {arenaId token : Uid} {life : Life}
    (hm : Live m w) (hpass : Passes maxClients false none w w')
    (hdoes : Performs digest exposed
      (.transact (.allocateLife arenaId token (w.memory.objects m).run)) w
      (.ok life) w') : Seatable m life.slot life.id w' ∧ validId life.id = true := by
  obtain ⟨env, hdraws, ⟨-, _, hraised⟩ | ⟨result, σ', hrun, hw', hok⟩⟩ := transact_cases hdoes
  · cases hraised
  obtain rfl : life = result := hok life rfl
  obtain ⟨hmem, -, hhere, halive, -⟩ := allocateLife_life (.of_reachable h.sane.reach) hrun
  have hlife : life ∈ w'.ledger.lives := by
    rw [hw']
    exact hmem
  have hm' := hm.mono hpass.onward
  have hkeeps := hpass.onward.objects m hm.made
  refine ⟨?_, hpass.orderly.ids life hlife⟩
  rcases hpass.orderly.going m hm' with (⟨r, hr, hid, hgoes⟩ | hclosed) | hexited
  · refine .inl ⟨⟨r, hr, hid, hgoes⟩, life, hlife, rfl, ?_, rfl, .inl halive⟩
    rw [hkeeps.run]
    exact hhere
  · exact .inr (.inl hclosed)
  · exact .inr (.inr hexited)

end

namespace Spec

variable {maxClients : Nat} {digest : String → String} {exposed : Bool} {v : View} {m : MatchId}

/-- The admission packet.  When it fails, the match is closed. -/
theorem seatLife (hgame : v.game = some m) (c : ConnectionId) (life : Life)
    (hid : text (encode life.id) = life.id) :
    Spec maxClients digest false v (fun w => Hosted m w ∧ Seatable m life.slot life.id w)
      (Server.seatLife m c life) (fun _ => Hosted m) (Hosted m) := by
  refine Triple.handle (admit_spec hgame Hosted.keeps (fun _ hw => hw.live) hid) (fun e => ?_)
    fun _ _ hfails => by cases hfails.1 rfl
  have hclose : Triple (custody maxClients) (Performs digest false)
      (On maxClients v .failed (Hosted m)) (Server.write (.close m))
      (fun _ => On maxClients v .idle (Hosted m))
        (Fails maxClients false v .idle (Hosted m)) := by
    refine on_perform Hosted.keeps (fun _ => Hosted.keeps) Hosted.keeps (fun _ _ _ => trivial) ?_
    intro w outcome w' hon hdoes
    obtain ⟨rfl, rfl⟩ := write_cases hdoes
    have hpass := hon.orderly.write (x := .close m) trivial
    have halong := hpass.along (v := v) hon.orderly
    refine ⟨false, none, hpass, fun h => (by cases h), fun _ h => (by cases h),
      hon.owns.mono halong, fun _ _ => ⟨?_, Hosted.keeps _ _ halong hon.holds⟩,
      fun _ h => by cases h⟩
    intro m' hm'
    obtain rfl : m = m' := Option.some.inj (hgame.symm.trans hm')
    exact (hon.link m hgame).close hon.holds.live.spawned
  have hrefuse : Spec maxClients digest false v (Hosted m)
      (Server.refuse "Game server is restarting. Please retry." : Coroutine Unit)
      (fun _ => Hosted m) (Hosted m) := .refuse Hosted.keeps fun _ _ hw => hw
  exact (Triple.bind hclose fun _ => hrefuse).consequence (fun _ _ _ hfails => hfails.2)
    fun _ _ _ _ hpost => hpost

/-- A connection that has no life gets one. -/
theorem admitLife (hgame : v.game = some m) (c : ConnectionId) :
    Spec maxClients digest false v (Hosted m) (Server.admitLife m c)
      (fun _ => Hosted m) (Hosted m) := by
  have hK : Keeps maxClients v (Hosted m) := Hosted.keeps
  refine .memory hK hK (fun _ hw => hw) fun w₀ horderly₀ hhosted₀ => ?_
  have hdue : ∀ w, Orderly maxClients w → Hosted m w ∧ Along maxClients v w₀ w →
      Due (.allocateLife (w₀.memory.objects m).arenaId (w₀.memory.connections c).token
        (w₀.memory.objects m).run) w := by
    rintro w horderly ⟨hhosted, halong⟩
    have hrun := (halong.onward.objects m hhosted₀.live.made).run
    obtain ⟨r, hr, hid, -⟩ := horderly.sane.rows m (horderly.sane.live_named hhosted.live)
    refine ⟨⟨r, hr, hid.trans hrun⟩, (fun _ _ _ _ hcall => by cases hcall),
      (fun _ hcall => by cases hcall), (fun _ _ hcall => by cases hcall), ?_⟩
    rintro _ _ _ ⟨⟩
    rw [← hrun]
    exact (horderly.sane.started m hhosted.live.spawned).2
  have hpasses : ∀ w outcome w', Orderly maxClients w → Hosted m w ∧ Along maxClients v w₀ w →
      Performs digest false (.transact (.allocateLife (w₀.memory.objects m).arenaId
        (w₀.memory.connections c).token (w₀.memory.objects m).run)) w outcome w' →
      Passes maxClients false none w w' := by
    intro w outcome w' horderly hholds hdoes
    refine horderly.transact hdoes (hdue w horderly hholds) ?_ ?_ ?_
    · rintro (⟨_, _, hcall⟩ | ⟨_, _, _, hcall⟩) <;> cases hcall
    · rintro run hcall
      cases hcall
    · rintro playerId run hcall
      cases hcall
  refine .quiet (hK.and (.along w₀)) hK (fun _ hw => hw.1) hdue
    (fun w outcome w' horderly _ hholds hdoes => hpasses w outcome w' horderly hholds hdoes) ?_
  intro life w w' horderly hholds hdoes halong
  have hrun := (hholds.2.onward.objects m hhosted₀.live.made).run
  have hpass := hpasses w _ w' horderly hholds hdoes
  rw [← hrun] at hdoes
  obtain ⟨hseatable, hvalid⟩ := horderly.allocated hholds.1.live hpass hdoes
  have hlive' := hholds.1.live.mono halong.onward
  have hseat : Spec maxClients digest false v (Hosted m) (Server.write (.seat c life m))
      (fun _ => Hosted m) (Hosted m) :=
    .write hK hK hK (fun _ _ hw => ⟨hw.own, hw.live.spawned⟩) fun _ _ hw => hw
  have hpeer : Spec maxClients digest false v (Hosted m) (Server.write (.setPeer m life.slot c))
      (fun _ => Hosted m) (Hosted m) :=
    .write hK hK hK (fun _ _ hw => hw.live.spawned) fun _ _ hw => hw
  refine .bind ((seatLife hgame c life (text_encode hvalid)).pre ?_) fun _ => .bind hseat fun _ =>
    .bind hpeer fun _ => .bind (.use hK) fun _ => .pure hK fun _ _ hw => hw
  rintro w'' - ⟨⟨hhosted, -⟩, hsteps⟩
  exact ⟨hhosted, (hsteps.attended m hgame).seatable hlive' _ _ hseatable⟩

/-- The life of a player, unless the connection still holds one. -/
theorem attachAlone (hgame : v.game = some m) (c : ConnectionId) :
    Spec maxClients digest false v (Hosted m) (Server.attachAlone m c)
      (fun _ => Hosted m) (Hosted m) := by
  have hK : Keeps maxClients v (Hosted m) := Hosted.keeps
  have hrevoke : Spec maxClients digest false v (Hosted m)
    (revokeRecorded m c) (fun _ => Hosted m)
      (Hosted m) := by
    refine .memory hK hK (fun _ hw => hw) fun w _ _ => ?_
    cases (w.memory.connections c).life with
    | none => exact .raise (hK.and (.along w)) fun _ _ hw => hw.1
    | some life =>
      have hcontrol : Spec maxClients digest false v (Hosted m)
        (control m 3 life.slot [] (.revoked c))
          (fun _ => Hosted m) (Hosted m) :=
        (fence hgame hK (.const True) (fun _ hw => hw.live) (.inl rfl)
          fun _ _ _ _ => trivial).mono (fun _ _ h => h) (fun _ _ _ h => h.1) fun _ _ h => h
      have hreplay : Spec maxClients digest false v (Hosted m) (Server.replay m true)
          (fun _ => Hosted m) (Hosted m) :=
        (replay (Hosted.reads hgame) (.const True) (fun _ _ _ _ => trivial) true).mono
          (fun _ _ h => h) (fun _ _ _ h => h.1) fun _ _ h => h
      refine Spec.pre (G := Hosted m) ?_ fun _ _ hw => hw.1
      refine .bind hcontrol fun _ => .bind hreplay fun _ => ?_
      refine .memory hK hK (fun _ hw => hw) fun w' _ _ => ?_
      cases (w'.memory.connections c).life with
      | none => exact .raise (hK.and (.along w')) fun _ _ hw => hw.1
      | some life' =>
        refine Spec.pre (G := Hosted m) ?_ fun _ _ hw => hw.1
        exact .bind (.write hK hK hK (fun _ _ _ => trivial) fun _ _ hw => hw) fun _ =>
          .pure hK fun _ _ hw => hw
  have hrecorded : Spec maxClients digest false v (Hosted m) (recordedLife c) (fun _ => Hosted m)
      (Hosted m) := by
    refine .memory hK hK (fun _ hw => hw) fun w _ _ => ?_
    cases (w.memory.connections c).life with
    | none => exact .raise (hK.and (.along w)) fun _ _ hw => hw.1
    | some life => exact .pure (hK.and (.along w)) fun _ _ hw => hw.1
  have hcheck : Spec maxClients digest false v (Hosted m) (checkRecorded m c) (fun _ => Hosted m)
      (Hosted m) := by
    refine .memory hK hK (fun _ hw => hw) fun w _ _ => ?_
    cases (w.memory.connections c).life with
    | none => exact .pure (hK.and (.along w)) fun _ _ hw => hw.1
    | some life =>
      refine Spec.pre (G := Hosted m) ?_ fun _ _ hw => hw.1
      refine .ledger hK hK (fun _ hw => hw) fun w' _ _ => ?_
      split
      · exact hrecorded.pre fun _ _ hw => hw.1
      · exact hrevoke.pre fun _ _ hw => hw.1
  refine .bind hcheck fun found => ?_
  cases found with
  | none => exact admitLife hgame c
  | some life => exact .pure hK fun _ _ hw => hw

/-- `attach`. -/
theorem attach {manager : Bool} (c : ConnectionId) :
    Spec maxClients digest false ⟨manager, none⟩ (Hosted m)
      (Server.attach m c) (fun _ => Hosted m)
      (Hosted m) := by
  have hK : Keeps maxClients ⟨manager, some m⟩ (Hosted m) := Hosted.keeps
  refine withGame Hosted.keeps (fun _ => Hosted.keeps) Hosted.keeps (fun _ hw => hw)
    (fun _ hw => hw.live.made) ?_
  have hreplay : Spec maxClients digest false ⟨manager, some m⟩ (Hosted m) (Server.replay m true)
      (fun _ => Hosted m) (Hosted m) :=
    (replay (Hosted.reads rfl) (.const True) (fun _ _ _ _ => trivial) true).mono
      (fun _ _ h => h) (fun _ _ _ h => h.1) fun _ _ h => h
  refine .bind hreplay fun _ => .memory hK hK (fun _ hw => hw) fun w _ _ => ?_
  split
  · exact .refuse (hK.and (.along w)) fun _ _ hw => hw.1
  · exact (attachAlone rfl c).pre fun _ _ hw => hw.1

/-- The statements of `detach`, under the lock. -/
theorem detachLocked (hgame : v.game = some m) (c : ConnectionId) :
    Spec maxClients digest exposed v (Hosted m) (Server.detachLocked m c)
      (fun _ => Hosted m) (Hosted m) := by
  have hK : Keeps maxClients v (Hosted m) := Hosted.keeps
  refine .memory hK hK (fun _ hw => hw) fun w _ _ => ?_
  refine Spec.pre (G := Hosted m) ?_ fun _ _ hw => hw.1
  cases (w.memory.connections c).life with
  | none => exact .pure hK fun _ _ hw => hw
  | some life =>
    have hforfeit : Spec maxClients digest exposed v (Hosted m)
      (forfeit m c life) (fun _ => Hosted m)
        (Hosted m) := by
      refine .ledger hK hK (fun _ hw => hw) fun w' _ _ => ?_
      refine Spec.pre (G := Hosted m) ?_ fun _ _ hw => hw.1
      cases w'.ledger.participants.get? life.playerId with
      | none => exact .raise hK fun _ _ hw => hw
      | some player =>
        refine (fence hgame hK (.const True) (fun _ hw => hw.live) ?_
          fun _ _ _ _ => trivial).mono (fun _ _ h => h) (fun _ _ _ h => h.1) fun _ _ h => h
        split
        · exact .inr rfl
        · exact .inl rfl
    have hreplay : Spec maxClients digest exposed v (Hosted m) (Server.replay m false)
        (fun _ => Hosted m) (Hosted m) :=
      (replay (Hosted.reads hgame) (.const True) (fun _ _ _ _ => trivial) false).mono
        (fun _ _ h => h) (fun _ _ _ h => h.1) fun _ _ h => h
    have hwrite : ∀ x : Write, (∀ w, x.Quiet w) → Spec maxClients digest exposed v (Hosted m)
        (Server.write x) (fun _ => Hosted m) (Hosted m) :=
      fun x hx => .write hK hK hK (fun w _ _ => hx w) fun _ _ hw => hw
    dsimp only
    split
    · exact .bind (.unlessClosed hK hforfeit) fun _ => .bind hreplay fun _ =>
        .bind (hwrite (.popPeer m life.slot) fun _ => trivial) fun _ =>
          .bind (hwrite (.clearLife c) fun _ => trivial) fun _ => .use hK
    · exact .pure hK fun _ _ hw => hw

/-- `detach`. -/
theorem detach {manager : Bool} (fuel : Nat) (c : ConnectionId) :
    Spec maxClients digest exposed ⟨manager, none⟩ (Hosted m)
      (Server.detach fuel m c) (fun _ => Hosted m)
      (Hosted m) := by
  have hK : Keeps maxClients ⟨manager, none⟩ (Hosted m) := Hosted.keeps
  refine .handle (withGame hK (fun _ => hK) hK (fun _ hw => hw) (fun _ hw => hw.live.made)
    (detachLocked rfl c)) (fun fault => ?_) fun _ _ _ hw => hw
  have hstop := @stop maxClients digest exposed _ _ _ _ hK (.const True) (fun _ hw => hw.own)
    (fun _ _ _ _ _ => trivial) fuel
  exact .bind (hstop.mono (fun _ _ h => h) (fun _ _ _ h => h.1) fun _ _ h => h.1) fun _ =>
    .raise hK fun _ _ hw => hw

end Spec

end QuakeJs.Server
