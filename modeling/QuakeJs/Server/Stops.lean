import QuakeJs.Server.Drains

/-!
# The end of a match

`stop` closes a match, waits for its engine, reads the rest of its journal and
releases its run.  Nobody gets into a match that is closed, so either its
engine has exited by then, or it will never have been sent anything: then the
run is settled.
-/

namespace QuakeJs.Server

open Async Engine Ledger

section

variable {maxClients : Nat} {v : View} {w w' : World} {m : MatchId}

/-- The match is closed.  When it has no engine yet, it will never have sent
anything to one. -/
structure Ending (m : MatchId) (w : World) : Prop where
  own : Own m w
  closed : (w.memory.objects m).closed = true
  barren : (w.memory.objects m).spawned = true ∨ Barren m w

theorem Ended.keeps : Keeps maxClients v (Ended m) := fun _ _ halong h => h.onward halong.onward

theorem Ending.keeps : Keeps maxClients v (Ending m) := by
  intro w w' halong h
  have hkeeps := halong.onward.objects m h.own.made
  exact ⟨halong.onward.own m h.own, hkeeps.closed h.closed,
    h.barren.imp hkeeps.spawned (halong.onward.barren m)⟩

theorem Own.keeps : Keeps maxClients v (Own m) := fun _ _ halong h => halong.onward.own m h

/-- A match without an engine that is closed is barren. -/
theorem Own.ending (h : Own m w) (hclosed : (w.memory.objects m).closed = true) : Ending m w := by
  refine ⟨h, hclosed, ?_⟩
  by_cases hspawned : (w.memory.objects m).spawned = true
  · exact .inl hspawned
  · refine .inr ⟨h.made, hclosed, h.sole, fun e he => ?_⟩
    rw [h.pending (by simpa using hspawned)] at he
    cases he

/-- When the process has been waited for, it writes no more. -/
theorem Ending.ended (h : Ending m w) (hsane : Sane maxClients w)
    (hexited : ¬((w.memory.objects m).spawned = true ∧ w.alive (w.memory.objects m).run = true)) :
    Ended m w := by
  refine ⟨h.own, h.closed, ?_⟩
  rcases h.barren with hspawned | hbarren
  · cases he : w.engines (w.memory.objects m).run with
    | none => exact absurd he (hsane.started m hspawned).2
    | some e =>
      refine .inl ⟨e, he, ?_⟩
      by_contra hrunning
      exact hexited ⟨hspawned, alive_iff.mpr ⟨e, he, by simpa using hrunning⟩⟩
  · exact .inr hbarren

/-- What is applied is the beginning of the journal. -/
theorem applied_below (w : World) (run : Uid) : w.applied run <+: w.journal run := by
  unfold World.applied Server.applied
  cases w.ledger.runs.get? run with
  | none => exact List.nil_prefix
  | some r => exact List.take_prefix _ _

theorem applied_of_unapplied {run : Uid} (h : w.unapplied run = []) :
    w.applied run = w.journal run := by
  refine (applied_below w run).eq_of_length ?_
  have hle := (applied_below w run).length_le
  have hge := List.drop_eq_nil_iff.mp h
  omega

/-- A journal that goes no further stays applied. -/
theorem applied_stays {run : Uid} (honward : Onward w w') (h : w.applied run = w.journal run)
    (hsame : w'.journal run = w.journal run) : w'.applied run = w'.journal run := by
  refine (applied_below w' run).eq_of_length_le ?_
  rw [hsame, ← h]
  exact honward.applied run

/-- The engine of a match that has ended writes no more. -/
theorem Ended.stilled (h : Ended m w) : Stilled (w.memory.objects m).run w := by
  rcases h.still with hexited | hbarren
  · exact .inr (.inl hexited)
  · cases he : w.engines (w.memory.objects m).run with
    | none => exact .inl he
    | some e => exact .inr (.inr ⟨⟨e, he, hbarren.untouched e he⟩, hbarren.cut⟩)

/-- The journal of a match that has ended goes no further. -/
theorem Ended.journal (h : Ended m w) (halong : Along maxClients v w w') :
    w'.journal (w.memory.objects m).run = w.journal (w.memory.objects m).run := by
  rcases h.still with hexited | hbarren
  · exact (halong.onward.exited _ hexited).2
  · have hempty : ∀ {u : World},
      (∀ e, u.engines (w.memory.objects m).run = some e → e.Untouched) →
        u.journal (w.memory.objects m).run = [] := by
      intro u huntouched
      cases he : u.engines (w.memory.objects m).run with
      | none => exact journal_of_none he
      | some e =>
        rw [journal_of_some he]
        exact (huntouched e he).journal
    have hrun := (halong.onward.objects m h.own.made).run
    have hafter := (halong.onward.barren m hbarren).untouched
    rw [hrun] at hafter
    rw [hempty hafter, hempty hbarren.untouched]

/-- A match that has ended, and whose journal is applied. -/
theorem Ended.keeps_settled : Keeps maxClients v fun w =>
    Ended m w ∧ w.applied (w.memory.objects m).run = w.journal (w.memory.objects m).run := by
  rintro w w' halong ⟨hended, happlied⟩
  refine ⟨Ended.keeps w w' halong hended, ?_⟩
  rw [(halong.onward.objects m hended.own.made).run]
  exact applied_stays halong.onward happlied (hended.journal halong)

end

theorem exited_cases {digest : String → String} {exposed : Bool} {m : MatchId}
    {w w' : World} {outcome : Outcome (.exited m)}
    (h : Performs digest exposed (.exited m) w outcome w') :
    (outcome = .ok () ∧ w' = w ∧
      ¬((w.memory.objects m).spawned = true ∧ w.alive (w.memory.objects m).run = true)) ∨
    (exposed = true ∧ outcome = .error .cancelled ∧ w' = w) := by
  refine (h.patient rfl rfl).imp_left ?_
  rintro ⟨env, heffect⟩
  simp only [Op.effects] at heffect
  split_ifs at heffect with hwaits
  · simp at heffect
  · rw [List.mem_singleton, Prod.mk.injEq] at heffect
    exact ⟨heffect.1, heffect.2, hwaits⟩

namespace Spec

variable {maxClients : Nat} {digest : String → String} {exposed : Bool}
  {manager : Bool} {m : MatchId}
  {F G S : World → Prop}

/-- The process of a match that is being closed has been waited for. -/
theorem exited {v : View} (hF : Keeps maxClients v F) (hG : Keeps maxClients v G)
    (hS : Keeps maxClients v S) (hending : ∀ w, F w → Ending m w)
    (hraised : exposed = true → ∀ w, F w → S w)
    (hdone : ∀ w, Orderly maxClients w → F w → Ended m w →
      ¬((w.memory.objects m).spawned = true ∧ w.alive (w.memory.objects m).run = true) → G w) :
    Spec maxClients digest exposed v F (await (.exited m)) (fun _ w => F w ∧
      Ended m w ∧ G w) S := by
  refine on_perform hF (fun _ => hF.and (Ended.keeps.and hG)) hS (fun _ _ _ => trivial) ?_
  intro w outcome w' hon hdoes
  rcases exited_cases hdoes with ⟨rfl, rfl, hwaited⟩ | ⟨hexposed, rfl, rfl⟩
  · have hended := (hending _ hon.holds).ended hon.orderly.sane hwaited
    exact ⟨false, none, .refl _ _ hon.orderly, fun h => (by cases h), fun _ h => (by cases h),
      hon.owns, fun _ _ => ⟨hon.link, hon.holds, hended,
        hdone _ hon.orderly hon.holds hended hwaited⟩,
      fun _ h => by cases h⟩
  · exact ⟨false, none, .refl _ _ hon.orderly, fun h => (by cases h), fun _ h => (by cases h),
      hon.owns, (fun _ h => by cases h), fun _ _ => ⟨hon.link, hraised hexposed _ hon.holds⟩⟩

/-- The transaction of `stop`. -/
theorem stopRun {v : View} (hF : Keeps maxClients v F) (hended : ∀ w, F w → Ended m w ∧
      w.applied (w.memory.objects m).run = w.journal (w.memory.objects m).run) :
    Spec maxClients digest exposed v F (Server.stopRun m) (fun _ => F) F := by
  refine .memory hF hF (fun _ hw => hw) fun w₀ horderly₀ hholds₀ => ?_
  have hmade := (hended w₀ hholds₀).1.own.made
  refine Spec.mono (.act (hF.and (.along w₀)) ?_ ?_) (fun _ _ hw => hw) (fun _ _ _ hw => hw.1)
    fun _ _ hw => hw.1
  · rintro w horderly ⟨hholds, halong⟩
    obtain ⟨hend, happlied⟩ := hended w hholds
    refine .of_ordinary rfl trivial ?_
    rintro run ⟨⟩
    rw [← (halong.onward.objects m hmade).run]
    exact ⟨happlied, hend.stilled⟩
  · rintro w outcome w' horderly - ⟨hholds, halong⟩ hdoes
    obtain ⟨hend, happlied⟩ := hended w hholds
    have hrun := (halong.onward.objects m hmade).run
    refine horderly.transact hdoes ?_ ?_ ?_ ?_
    · refine .of_ordinary rfl trivial ?_
      rintro run ⟨⟩
      rw [← hrun]
      exact ⟨happlied, hend.stilled⟩
    · rintro (⟨_, _, hcall⟩ | ⟨_, _, _, hcall⟩) <;> cases hcall
    · rintro run ⟨⟩
      exact .inr ⟨m, hend.own.made, hrun, hend.closed⟩
    · rintro playerId run hcall
      cases hcall

/-- `stop`.  `G` is what the process leaves behind when it has been waited
for.  A task that is cancelled may not have waited. -/
theorem stop (hF : Keeps maxClients ⟨manager, none⟩ F) (hG : Keeps maxClients ⟨manager, none⟩ G)
    (hown : ∀ w, F w → Own m w)
    (hdone : ∀ w, Orderly maxClients w → F w → Ended m w →
      ¬((w.memory.objects m).spawned = true ∧ w.alive (w.memory.objects m).run = true) → G w)
    (fuel : Nat) :
    Spec maxClients digest exposed ⟨manager, none⟩ F (Server.stop fuel m) (fun _ w => F w ∧ G w)
      fun w => F w ∧ (exposed = false → G w) := by
  have hFG := hF.and hG
  have hS : Keeps maxClients ⟨manager, none⟩ fun w => F w ∧ (exposed = false → G w) :=
    hF.and fun w w' halong hw hshielded => hG w w' halong (hw hshielded)
  have hclose : Spec maxClients digest exposed ⟨manager, none⟩ F (Server.write (.close m))
      (fun _ w => F w ∧ Ending m w) fun w => F w ∧ (exposed = false → G w) := by
    refine .write hF (hF.and Ending.keeps) hS (fun _ _ _ => trivial) fun w _ hw => ⟨hw, ?_⟩
    refine (hown _ hw).ending ?_
    simp [World.setMemory, Write.apply, Memory.setMatch]
  have hexited := @exited maxClients digest exposed m _ _ _ ⟨manager, none⟩
    (hF.and Ending.keeps) hG hS (fun _ hw => hw.2)
    (fun hexposed _ hw => ⟨hw.1, fun hshielded => by simp [hexposed] at hshielded⟩)
    fun w horderly hw => hdone w horderly hw.1
  let K : World → Prop := fun w => (F w ∧ G w) ∧ Ended m w
  have hK : Keeps maxClients ⟨manager, none⟩ K := hFG.and Ended.keeps
  have hreads : Reads maxClients ⟨manager, some m⟩ m K :=
    ⟨Keeps.forget (v := ⟨manager, some m⟩) hK, fun w hw => hw.2.own.made, fun _ _ _ => rfl⟩
  have hbody : Spec maxClients digest exposed ⟨manager, some m⟩ K
      (do
        let _ ← Server.drainJournal m fuel
        Server.stopRun m) (fun _ => K) K := by
    have hdrain := @drainJournal maxClients digest exposed _ _ _ _ hreads Ended.keeps_settled
      (fun w _ hw hnone => ⟨hw.2, applied_of_unapplied hnone⟩) fuel
    refine .bind hdrain fun _ => ?_
    exact (stopRun (hreads.keeps.and Ended.keeps_settled) fun _ hw =>
      hw.2).mono (fun _ _ hw => hw)
      (fun _ _ _ hw => hw.1) fun _ _ hw => hw.1
  have hlocked : Spec maxClients digest exposed ⟨manager, none⟩ K
      (withLock (.game m) (do
        let _ ← Server.drainJournal m fuel
        Server.stopRun m)) (fun _ => K) K :=
    withGame hK (fun _ => hK) hK (fun _ hw => hw) (fun w hw => hw.2.own.made) hbody
  have hclear : Spec maxClients digest exposed ⟨manager, none⟩ K (Server.write (.clearPeers m))
      (fun _ w => F w ∧ G w) fun w => F w ∧ (exposed = false → G w) :=
    .write hK hFG hS (fun _ _ _ => trivial) fun _ _ hw => hw.1
  refine .bind hclose fun _ => .bind hexited fun _ => ?_
  refine .bind (R := fun _ => K) (hlocked.mono ?_ (fun _ _ _ hw => hw)
    fun _ _ hw => ⟨hw.1.1, fun _ => hw.1.2⟩) fun _ => hclear
  exact fun _ _ hw => ⟨⟨hw.1.1, hw.2.2⟩, hw.2.1⟩

end Spec

end QuakeJs.Server
