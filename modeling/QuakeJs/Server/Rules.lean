import QuakeJs.Server.Commits

/-!
# The rules of the locks

The view of a task says whether it holds the manager's lock, and the lock of
which match.  `Along` is what it then finds of the world that it saw before,
and `Spec` is a triple whose conditions are about the world alone, and hold
wherever the task can be.  The rules are one for each kind of operation:
`quiet` for one that disturbs nobody, `guarded` for one that needs the
manager's lock, `call` for one that belongs to a call of `control`.
-/

namespace QuakeJs.Server

open Async Engine Ledger

/-! ## Views -/

/-- The locks of a task. -/
structure View where
  manager : Bool
  game : Option MatchId

/-- The locks are taken. -/
structure View.Owns (v : View) (w : World) : Prop where
  manager : v.manager = true → w.memory.locked = true
  game : ∀ m, v.game = some m → Taken m w

/-- The world as a task finds it again. -/
structure Along (maxClients : Nat) (v : View) (w w' : World) : Prop where
  before : Orderly maxClients w
  after : Orderly maxClients w'
  onward : Onward w w'
  held : v.manager = true → Held w w'
  attended : ∀ m, v.game = some m → Attended m w w'

/-- What a task relies on while the others take their steps. -/
structure Relies (maxClients : Nat) (v : View) (w w' : World) : Prop
    extends Along maxClients v w w' where
  link : ∀ m, v.game = some m → ∀ stage, Link maxClients m stage w → Link maxClients m stage w'

/-- Two tasks hold no lock both. -/
structure Apart (maxClients : Nat) (w : World) (u v : View) : Prop where
  orderly : Orderly maxClients w
  left : u.Owns w
  right : v.Owns w
  manager : ¬(u.manager = true ∧ v.manager = true)
  game : ∀ m, ¬(u.game = some m ∧ v.game = some m)

/-- A transaction has what it needs. -/
def Safe (op : Op) (w : World) : Prop :=
  match op with
  | .transact t => Due t.action w
  | _ => True

section

variable {maxClients : Nat} {v : View} {w w' w'' : World}

theorem Along.refl (h : Orderly maxClients w) : Along maxClients v w w :=
  ⟨h, h, .refl w, fun _ => .refl w, fun m _ => .refl m w⟩

theorem Along.trans (h : Along maxClients v w w') (h' : Along maxClients v w' w'') :
    Along maxClients v w w'' where
  before := h.before
  after := h'.after
  onward := h.onward.trans h'.onward
  held := fun hm => (h.held hm).trans (h'.held hm) h'.onward
  attended := fun m hm => (h.attended m hm).trans h.onward (h'.attended m hm)

/-- With fewer locks. -/
theorem Along.forget (h : Along maxClients v w w') {game : Option MatchId}
    (hgame : game = v.game ∨ game = none) : Along maxClients ⟨v.manager, game⟩ w w' := by
  refine ⟨h.before, h.after, h.onward, h.held, fun m hm => h.attended m ?_⟩
  rcases hgame with rfl | rfl
  · exact hm
  · cases hm

theorem Relies.trans (h : Relies maxClients v w w') (h' : Relies maxClients v w' w'') :
    Relies maxClients v w w'' :=
  ⟨h.toAlong.trans h'.toAlong, fun m hm stage hlink =>
    h'.link m hm stage (h.link m hm stage hlink)⟩

theorem View.Owns.mono (h : v.Owns w) (halong : Along maxClients v w w') : v.Owns w' :=
  ⟨fun hm => (halong.held hm).locked (h.manager hm),
    fun m hm => (halong.attended m hm).taken (h.game m hm)⟩

/-- A step that needs none of the locks of a task. -/
theorem Passes.relies {manager : Bool} {game : Option MatchId}
    (h : Passes maxClients manager game w w') (horderly : Orderly maxClients w)
    (hmanager : v.manager = true → manager = false) (hgame : ∀ m,
      v.game = some m → game ≠ some m) :
    Relies maxClients v w w' :=
  ⟨⟨horderly, h.orderly, h.onward, fun hm => h.held (hmanager hm),
    fun m hm => (h.watched m (hgame m hm)).toAttended⟩, fun m hm =>
      (h.watched m (hgame m hm)).link⟩

theorem Passes.along (h : Passes maxClients false none w w') (horderly : Orderly maxClients w) :
    Along maxClients v w w' :=
  (h.relies (v := v) horderly (fun _ => rfl) fun _ _ hm => by cases hm).toAlong

end

/-- The locks as a discipline. -/
def custody (maxClients : Nat) : Discipline Op World View where
  inv := Orderly maxClients
  safe := Safe
  rely v w w' := Orderly maxClients w → Relies maxClients v w w'
  apart := Apart maxClients
  idle := ⟨false, none⟩
  rely_refl := fun _ _ h => ⟨.refl h, fun _ _ _ hlink => hlink⟩
  rely_trans := fun _ _ _ _ h h' horderly => (h horderly).trans (h' (h horderly).after)
  apart_symm := fun _ _ _ h =>
    ⟨h.orderly, h.right, h.left, fun hm => h.manager hm.symm, fun m hm => h.game m hm.symm⟩
  apart_idle := fun _ _ _ h => ⟨h.orderly, h.left,
    ⟨fun hm => (by cases hm), fun _ hm => (by cases hm)⟩, fun hm => (by cases hm.2),
    fun _ hm => by cases hm.2⟩
  apart_rely := fun _ _ _ _ h hu hv => ⟨(hu h.orderly).after,
    h.left.mono (hu h.orderly).toAlong, h.right.mono (hv h.orderly).toAlong, h.manager, h.game⟩

/-! ## Conditions -/

section

variable (maxClients : Nat) (digest : String → String) (exposed : Bool)

/-- A condition on the world that lasts wherever a task with the view can be. -/
def Keeps (v : View) (F : World → Prop) : Prop := ∀ w w', Along maxClients v w w' → F w → F w'

/-- A task has the view, its calls of `control` have come so far, and the
condition holds. -/
structure On (v : View) (stage : Stage) (F : World → Prop) (view : View) (w : World) : Prop where
  view : view = v
  orderly : Orderly maxClients w
  owns : v.Owns w
  link : ∀ m, v.game = some m → Link maxClients m stage w
  holds : F w

/-- A task that is shielded is not cancelled. -/
def Fails (v : View) (stage : Stage) (S : World → Prop) (raised : Raised Fault) (view : View)
    (w : World) : Prop := (raised = .cancelled → exposed = true) ∧ On maxClients v stage S view w

/-- A task of the server with a view, between its calls of `control`. -/
def Spec {α : Type} (v : View) (F : World → Prop) (task : Coroutine α) (R : α → World → Prop)
    (S : World → Prop) : Prop :=
  Triple (custody maxClients) (Performs digest exposed) (On maxClients v .idle F) task
    (fun a => On maxClients v .idle (R a)) (Fails maxClients exposed v .idle S)

/-- A task of which some operations are shielded. -/
def MarkedSpec {α : Type} (v : View) (F : World → Prop) (task : Marked α)
    (R : α → World → Prop) (S : World → Prop) : Prop :=
  Triple ((custody maxClients).marked Bool) (Proceeds digest) (On maxClients v .idle F) task
    (fun a => On maxClients v .idle (R a)) fun _ => On maxClients v .idle S

end

section

variable {maxClients : Nat} {digest : String → String} {exposed : Bool} {v : View}
  {F F' S S' : World → Prop}

theorem Keeps.const (p : Prop) : Keeps maxClients v fun _ => p := fun _ _ _ h => h

theorem Keeps.and (h : Keeps maxClients v F) (h' : Keeps maxClients v F') :
    Keeps maxClients v fun w => F w ∧ F' w :=
      fun w w' halong hF => ⟨h w w' halong hF.1, h' w w' halong hF.2⟩

/-- The world is one that a task finds again after another one. -/
theorem Keeps.along (w : World) : Keeps maxClients v (Along maxClients v w) :=
  fun _ _ halong h => h.trans halong

/-- A condition that lasts with fewer locks. -/
theorem Keeps.forget {game : Option MatchId} (h : Keeps maxClients ⟨v.manager, none⟩ F) :
    Keeps maxClients ⟨v.manager, game⟩ F :=
  fun w w' halong hF => h w w' (halong.forget (.inr rfl)) hF

theorem Keeps.weaken (h : Keeps maxClients ⟨false, none⟩ F) : Keeps maxClients v F :=
  fun w w' halong hF => h w w' ⟨halong.before, halong.after,
    halong.onward, fun hm => (by cases hm),
    fun _ hm => by cases hm⟩ hF

/-- The manager's books stay in order while a task holds the lock. -/
theorem Tidy.keeps (e : Option MatchId) : Keeps maxClients ⟨true, none⟩ (Tidy e) := by
  intro w w' halong h
  have hheld := halong.held rfl
  refine ⟨?_, ?_⟩
  · intro a m hlookup
    obtain ⟨hmade, hready⟩ := h.ready a m (hheld.shrinks a m hlookup)
    rw [hheld.created, (hheld.started m).1]
    exact ⟨hmade, hready.imp_right fun hrest =>
      hrest.imp_right (halong.onward.objects m hmade).closed⟩
  · intro m hspawned halive
    rw [(hheld.started m).1] at hspawned
    have hkeeps := halong.onward.objects m (halong.before.sane.live hspawned).made
    rw [hkeeps.run] at halive
    rw [hkeeps.arenaId]
    rcases h.covered m hspawned (hheld.alive _ halive) with hexcept | hserved | hdropped
    · exact .inl hexcept
    · exact .inr (hheld.drops _ m hserved)
    · exact .inr (.inr (hdropped.onward halong.onward))

theorem On.stable {stage : Stage} (h : Keeps maxClients v F) :
    (custody maxClients).Stable (On maxClients v stage F) := by
  rintro view w w' hon hrely
  obtain ⟨rfl, horderly, howns, hlink, hF⟩ := hon
  have hrelies := hrely horderly
  exact ⟨rfl, hrelies.after, howns.mono hrelies.toAlong,
    fun m hm => hrelies.link m hm stage (hlink m hm), h w w' hrelies.toAlong hF⟩

theorem Fails.stable {stage : Stage} (h : Keeps maxClients v S) (raised : Raised Fault) :
    (custody maxClients).Stable (Fails maxClients exposed v stage S raised) :=
  fun view w w' hfails hrely => ⟨hfails.1, On.stable h view w w' hfails.2 hrely⟩

theorem On.mono {stage : Stage} {view : View} {w : World} (h : On maxClients v stage F view w)
    (hF : Orderly maxClients w → F w → F' w) : On maxClients v stage F' view w :=
  ⟨h.view, h.orderly, h.owns, h.link, hF h.orderly h.holds⟩

/-- No operation cancels its own task. -/
theorem Op.not_cancelled {op : Op} {env : Env} {w w' : World} :
    (.error .cancelled, w') ∉ op.effects env w := by
  intro heffect
  cases op with
  | transact t =>
    simp only [Op.effects, List.mem_singleton, World.commit] at heffect
    split at heffect <;> simp at heffect
  | readEvents m =>
    simp only [Op.effects, List.mem_singleton, Prod.mk.injEq] at heffect
    have hread := heffect.1
    cases hevents : Server.readEvents (w.file (w.memory.objects m).run)
      (w.memory.objects m).offset with
    | ok events => simp [hevents, Except.mapError] at hread
    | error e => simp [hevents, Except.mapError] at hread
  | send m kind peer payload purpose =>
    simp only [Op.effects, List.mem_singleton, World.send] at heffect
    split_ifs at heffect <;> simp at heffect
  | forward c payload =>
    simp only [Op.effects, List.mem_cons, World.forward, World.send] at heffect
    rcases heffect with heffect | heffect
    · split at heffect
      · split_ifs at heffect <;> simp at heffect
      · simp at heffect
    · simp at heffect
  | lock l =>
    simp only [Op.effects] at heffect
    split_ifs at heffect <;> simp at heffect
  | clear =>
    simp only [Op.effects] at heffect
    split_ifs at heffect <;> simp at heffect
  | ack m key purpose =>
    simp only [Op.effects] at heffect
    split_ifs at heffect <;> simp at heffect
  | touch m =>
    simp only [Op.effects] at heffect
    split_ifs at heffect <;> simp at heffect
  | awaitReady m =>
    simp only [Op.effects] at heffect
    split_ifs at heffect <;> simp at heffect
  | exited m =>
    simp only [Op.effects] at heffect
    split_ifs at heffect <;> simp at heffect
  | _ => simp [Op.effects] at heffect

theorem Op.mem_raises {op : Op} {raised : Raised Fault} (h : raised ∈ op.raises exposed) :
    op.fallible = true ∧ raised = .error .failure ∨
      op.waits = true ∧ exposed = true ∧ raised = .cancelled := by
  unfold Op.raises at h
  rw [List.mem_append] at h
  rcases h with h | h
  · split_ifs at h with hfallible
    · exact .inl ⟨hfallible, List.mem_singleton.mp h⟩
    · cases h
  · split_ifs at h with hwaits
    · rw [Bool.and_eq_true] at hwaits
      exact .inr ⟨hwaits.1, hwaits.2, List.mem_singleton.mp h⟩
    · cases h

/-- What an operation comes to. -/
theorem Performs.cases {op : Op} {w w' : World} {outcome : Outcome op}
    (h : Performs digest exposed op w outcome w') : ∃ env, Draws digest env w ∧
      ((outcome, w') ∈ op.effects env w ∨
        ∃ raised, outcome = .error raised ∧ raised ∈ op.raises exposed ∧ (w' = w ∨
          op.uncertain = true ∧ ∃ result, (result, w') ∈ op.effects env w)) := by
  obtain ⟨env, hdraws, hmem⟩ := h
  refine ⟨env, hdraws, ?_⟩
  unfold Op.outcomes at hmem
  rw [List.mem_append] at hmem
  rcases hmem with heffect | hraises
  · exact .inl heffect
  · obtain ⟨raised, hraised, hone⟩ := List.mem_flatMap.mp hraises
    rcases List.mem_cons.mp hone with hsame | huncertain
    · rw [Prod.mk.injEq] at hsame
      exact .inr ⟨raised, hsame.1, hraised, .inl hsame.2⟩
    · split_ifs at huncertain with hcan
      · obtain ⟨effect, heffect, heq⟩ := List.mem_map.mp huncertain
        rw [Prod.mk.injEq] at heq
        exact .inr ⟨raised, heq.1.symm, hraised, .inr ⟨hcan, effect.1, heq.2 ▸ heffect⟩⟩
      · cases huncertain

/-- A shielded task is not cancelled. -/
theorem Performs.cancelled {op : Op} {w w' : World}
    (h : Performs digest exposed op w (.error .cancelled) w') : exposed = true := by
  obtain ⟨env, -, heffect | ⟨raised, heq, hraised, -⟩⟩ := h.cases
  · exact absurd heffect Op.not_cancelled
  · cases heq
    rcases Op.mem_raises hraised with ⟨-, hfalse⟩ | ⟨-, hexposed, -⟩
    · cases hfalse
    · exact hexposed

/-- An operation that neither waits nor raises is done. -/
theorem Performs.sure {op : Op} {w w' : World} {outcome : Outcome op}
    (h : Performs digest exposed op w outcome w') (hfallible : op.fallible = false)
    (hwaits : op.waits = false) : ∃ env, (outcome, w') ∈ op.effects env w := by
  obtain ⟨env, -, heffect | ⟨raised, -, hraised, -⟩⟩ := h.cases
  · exact ⟨env, heffect⟩
  · rcases Op.mem_raises hraised with ⟨htrue, -⟩ | ⟨htrue, -⟩
    · rw [hfallible] at htrue
      cases htrue
    · rw [hwaits] at htrue
      cases htrue

/-- An operation that a task waits for is done, or the task is cancelled. -/
theorem Performs.patient {op : Op} {w w' : World} {outcome : Outcome op}
    (h : Performs digest exposed op w outcome w') (hfallible : op.fallible = false)
    (huncertain : op.uncertain = false) : (∃ env, (outcome, w') ∈ op.effects env w) ∨
      exposed = true ∧ outcome = .error .cancelled ∧ w' = w := by
  obtain ⟨env, -, heffect | ⟨raised, rfl, hraised, hsame | ⟨htrue, -⟩⟩⟩ := h.cases
  · exact .inl ⟨env, heffect⟩
  · rcases Op.mem_raises hraised with ⟨htrue, -⟩ | ⟨-, hexposed, rfl⟩
    · rw [hfallible] at htrue
      cases htrue
    · exact .inr ⟨hexposed, rfl, hsame⟩
  · rw [huncertain] at htrue
    cases htrue

/-- An operation that is not done though it raises. -/
theorem Performs.plain {op : Op} {w w' : World} {outcome : Outcome op}
    (h : Performs digest exposed op w outcome w') (huncertain : op.uncertain = false) :
    (∃ env, (outcome, w') ∈ op.effects env w) ∨
      (∃ raised, outcome = .error raised) ∧ w' = w := by
  obtain ⟨env, -, heffect | ⟨raised, rfl, -, hsame | ⟨htrue, -⟩⟩⟩ := h.cases
  · exact .inl ⟨env, heffect⟩
  · exact .inr ⟨⟨raised, rfl⟩, hsame⟩
  · rw [huncertain] at htrue
    cases htrue

/-- An operation that leaves the world alone. -/
theorem Performs.still {op : Op} {w w' : World} {outcome : Outcome op}
    (h : Performs digest exposed op w outcome w')
    (hstill : ∀ env, ∀ effect ∈ op.effects env w, effect.2 = w) : w' = w := by
  obtain ⟨env, -, heffect | ⟨-, -, -, hsame | ⟨-, _, heffect⟩⟩⟩ := h.cases
  · exact hstill env _ heffect
  · exact hsame
  · exact hstill env _ heffect

/-! ## Rules -/

/-- A step of a task that keeps its locks is in order for the others. -/
theorem Passes.grants {manager : Bool} {game : Option MatchId} {w w' : World}
    (h : Passes maxClients manager game w w') (hmanager : manager = true → v.manager = true)
    (hgame : ∀ m, game = some m → v.game = some m) (howns : v.Owns w') :
    (custody maxClients).Grants v v w w' := by
  intro u hapart
  have hrelies : Relies maxClients u w w' := by
    refine h.relies hapart.orderly ?_ ?_
    · intro hu
      by_contra hm
      rw [Bool.not_eq_false] at hm
      exact hapart.manager ⟨hu, hmanager hm⟩
    · exact fun m hu hm => hapart.game m ⟨hu, hgame m hm⟩
  exact ⟨fun _ => hrelies, h.orderly, hapart.left.mono hrelies.toAlong, howns, hapart.manager,
    hapart.game⟩

/-- The rule of one operation of a task that keeps its locks. -/
theorem on_perform {op : Op} {stage done lost : Stage} {R : op.Ans → World → Prop}
    (hF : Keeps maxClients v F) (hR : ∀ a, Keeps maxClients v (R a)) (hS : Keeps maxClients v S)
    (hsafe : ∀ w, Orderly maxClients w → F w → Safe op w)
    (hstep : ∀ w outcome w', On maxClients v stage F v w →
      Performs digest exposed op w outcome w' →
      ∃ manager game, Passes maxClients manager game w w' ∧ (manager = true → v.manager = true) ∧
        (∀ m, game = some m → v.game = some m) ∧ v.Owns w' ∧
        (∀ a, outcome = .ok a → (∀ m, v.game = some m → Link maxClients m done w') ∧ R a w') ∧
        ∀ raised, outcome = .error raised →
          (∀ m, v.game = some m → Link maxClients m lost w') ∧ S w') :
    Triple (custody maxClients) (Performs digest exposed) (On maxClients v stage F) (await op)
      (fun a => On maxClients v done (R a)) (Fails maxClients exposed v lost S) := by
  refine Triple.perform (On.stable hF) ?_ (fun _ w horderly hon => hsafe w horderly hon.holds) ?_
  · intro outcome
    cases outcome with
    | ok a => exact On.stable (hR a)
    | error raised => exact Fails.stable hS raised
  · intro view w outcome w' _ hon hdoes
    have hview := hon.view
    subst hview
    obtain ⟨manager, game, hpasses, hmanager, hgame, howns, hok, herror⟩ :=
      hstep w outcome w' hon hdoes
    refine ⟨hpasses.orderly, view, hpasses.grants hmanager hgame howns, ?_⟩
    cases houtcome : outcome with
    | ok a =>
      obtain ⟨hlink, hholds⟩ := hok a houtcome
      exact ⟨rfl, hpasses.orderly, howns, hlink, hholds⟩
    | error raised =>
      obtain ⟨hlink, hholds⟩ := herror raised houtcome
      refine ⟨?_, rfl, hpasses.orderly, howns, hlink, hholds⟩
      rintro rfl
      rw [houtcome] at hdoes
      exact hdoes.cancelled

namespace Spec

variable {α β : Type} {R R' : α → World → Prop} {task : Coroutine α}

theorem mono (h : Spec maxClients digest exposed v F task R S)
    (hF : ∀ w, Orderly maxClients w → F' w → F w)
    (hR : ∀ a w, Orderly maxClients w → R a w → R' a w)
    (hS : ∀ w, Orderly maxClients w → S w → S' w) :
      Spec maxClients digest exposed v F' task R' S' := by
  refine h.consequence (fun _ w _ hon => hon.mono fun horderly => hF w horderly) ?_
  intro outcome view w _ hpost
  cases outcome with
  | ok a => exact On.mono hpost fun horderly => hR a w horderly
  | error raised => exact ⟨hpost.1, On.mono hpost.2 fun horderly => hS w horderly⟩

/-- All of the task has one mark. -/
theorem marked (h : Spec maxClients digest exposed v F task R S) :
    MarkedSpec maxClients digest v F (task.mark exposed) R S := by
  refine (Triple.mark h).consequence (fun _ _ _ hon => hon) ?_
  intro outcome view w _ hpost
  cases outcome with
  | ok a => exact hpost
  | error raised => exact hpost.2

theorem bind {f : α → Coroutine β} {R' : β → World → Prop}
    (h : Spec maxClients digest exposed v F task R S)
    (hnext : ∀ a, Spec maxClients digest exposed v (R a) (f a) R' S) :
    Spec maxClients digest exposed v F (task >>= f) R' S :=
  Triple.bind h hnext

theorem pure {a : α} (hF : Keeps maxClients v F) (h : ∀ w, Orderly maxClients w → F w → R a w) :
    Spec maxClients digest exposed v F (Pure.pure a) R S :=
  Triple.pure (On.stable hF) fun _ w hon => hon.mono fun horderly => h w horderly

theorem raise {e : Fault} (hF : Keeps maxClients v F)
    (h : ∀ w, Orderly maxClients w → F w → S w) :
    Spec maxClients digest exposed v F (Task.raise e : Coroutine α) R S :=
  Triple.raise (On.stable hF) fun _ w hon =>
    ⟨fun hcancelled => (by cases hcancelled), hon.mono fun horderly => h w horderly⟩

theorem refuse {message : String} (hF : Keeps maxClients v F)
    (h : ∀ w, Orderly maxClients w → F w → S w) :
    Spec maxClients digest exposed v F (Server.refuse message : Coroutine α) R S :=
  raise hF h

theorem handle {f : Fault → Coroutine α} {T : World → Prop}
    (h : Spec maxClients digest exposed v F task R T)
    (herror : ∀ e, Spec maxClients digest exposed v T (f e) R S)
    (hcancelled : exposed = true → ∀ w, Orderly maxClients w → T w → S w) :
    Spec maxClients digest exposed v F (task.handle f) R S := by
  refine Triple.handle h (fun e => ?_) fun _ _ hfails => ?_
  · intro view w horderly hfails
    exact herror e view w horderly hfails.2
  · exact ⟨hfails.1, hfails.2.mono fun horderly => hcancelled (hfails.1 rfl) _ horderly⟩

/-- A clean-up that runs in any case. -/
theorem anyway {f : Coroutine Unit} (hR : ∀ a, Keeps maxClients v (R' a))
    (hS : Keeps maxClients v S')
    (h : Spec maxClients digest exposed v F task R S)
    (hok : ∀ a, Spec maxClients digest exposed v (R a) f (fun _ => R' a) S')
    (herror : Spec maxClients digest exposed v S f (fun _ => S') S') :
    Spec maxClients digest exposed v F (task.anyway f) R' S' := by
  refine Triple.clean (fun a => On.stable (hR a)) (fun raised => Fails.stable hS raised) h hok ?_
  intro raised view w horderly hfails
  refine (herror view w horderly hfails.2).mono ?_
  intro outcome view w _ hpost
  cases outcome with
  | ok _ => exact ⟨hfails.1, hpost⟩
  | error raised => exact hpost

/-- A condition that says that there is something. -/
theorem ofExists {ι : Type} {G : ι → World → Prop}
    (h : ∀ i, Spec maxClients digest exposed v (G i) task R S) :
    Spec maxClients digest exposed v (fun w => ∃ i, G i w) task R S := by
  intro view w horderly hon
  obtain ⟨i, hi⟩ := hon.holds
  exact h i view w horderly ⟨hon.view, hon.orderly, hon.owns, hon.link, hi⟩

/-- The frame rule: what lasts without any lock lasts to the end of a task. -/
theorem frame {H : World → Prop} (h : Spec maxClients digest exposed v F task R S)
    (hH : Keeps maxClients ⟨false, none⟩ H) :
    Spec maxClients digest exposed v (fun w => F w ∧ H w) task (fun a w => R a w ∧ H w)
      fun w => S w ∧ H w := by
  intro view w horderly hon
  have hview := hon.view
  subst hview
  have hidle : ∀ (u : View) (w w' : World), (custody maxClients).rely u w w' →
      (custody maxClients).rely (custody maxClients).idle w w' := by
    intro u w w' hrely horderly
    have hrelies := hrely horderly
    exact ⟨⟨hrelies.before, hrelies.after, hrelies.onward, fun hm => (by cases hm),
      fun _ hm => by cases hm⟩, fun _ hm => by cases hm⟩
  have hapart : (custody maxClients).apart w (custody maxClients).idle view :=
    ⟨horderly, ⟨fun hm => (by cases hm), fun _ hm => (by cases hm)⟩, hon.owns,
      fun hm => (by cases hm.1), fun _ hm => by cases hm.1⟩
  have hwp := (h view w horderly ⟨rfl, hon.orderly, hon.owns, hon.link, hon.holds.1⟩).frame hidle
    hapart ((custody maxClients).rely_refl _ w)
  refine hwp.mono ?_
  rintro outcome view' w' _ ⟨hpost, hsince⟩
  have hlasts := hH w w' (hsince horderly).toAlong hon.holds.2
  cases outcome with
  | ok a => exact On.mono hpost fun _ hholds => ⟨hholds, hlasts⟩
  | error raised => exact ⟨hpost.1, On.mono hpost.2 fun _ hholds => ⟨hholds, hlasts⟩⟩

/-- An operation that disturbs nobody, and what follows on its answer. -/
theorem quiet {op : Op} {f : op.Ans → Coroutine α} (hF : Keeps maxClients v F)
    (hS : Keeps maxClients v S) (hraised : ∀ w, F w → S w)
    (hsafe : ∀ w, Orderly maxClients w → F w → Safe op w)
    (hpasses : ∀ w outcome w', Orderly maxClients w → v.Owns w → F w →
      Performs digest exposed op w outcome w' → Passes maxClients false none w w')
    (hnext : ∀ a w w', Orderly maxClients w → F w → Performs digest exposed op w (.ok a) w' →
      Along maxClients v w w' →
        Spec maxClients digest exposed v (fun w'' => F w'' ∧
          Along maxClients v w' w'') (f a) R S) :
    Spec maxClients digest exposed v F (await op >>= f) R S := by
  have hfirst : Triple (custody maxClients) (Performs digest exposed)
    (On maxClients v .idle F) (await op)
      (fun a => On maxClients v .idle fun w'' => ∃ worlds : World × World,
        (Orderly maxClients worlds.1 ∧ F worlds.1 ∧
          Performs digest exposed op worlds.1 (.ok a) worlds.2 ∧
          Along maxClients v worlds.1 worlds.2) ∧ F w'' ∧ Along maxClients v worlds.2 w'')
      (Fails maxClients exposed v .idle S) := by
    refine on_perform hF (fun a => ?_) hS hsafe ?_
    · rintro w w' halong ⟨worlds, hknown, hholds, hsince⟩
      exact ⟨worlds, hknown, hF w w' halong hholds, hsince.trans halong⟩
    · intro w outcome w' hon hdoes
      have hpass := hpasses w outcome w' hon.orderly hon.owns hon.holds hdoes
      have halong := hpass.along (v := v) hon.orderly
      have hlink : ∀ m, v.game = some m → Link maxClients m .idle w' :=
        fun m hm => (hpass.watched m (by simp)).link _ (hon.link m hm)
      have hholds := hF w w' halong hon.holds
      refine ⟨false, none, hpass, fun h => (by cases h), fun m h => (by cases h),
        hon.owns.mono halong, ?_, fun _ _ => ⟨hlink, hraised w' hholds⟩⟩
      rintro a rfl
      exact ⟨hlink, ⟨w, w'⟩, ⟨hon.orderly, hon.holds, hdoes, halong⟩, hholds, .refl hpass.orderly⟩
  refine Triple.bind hfirst fun a => ofExists fun worlds => ?_
  intro view w horderly hon
  obtain ⟨horderly₁, hF₁, hdoes, halong⟩ := hon.holds.1
  exact hnext a worlds.1 worlds.2 horderly₁ hF₁ hdoes halong view w horderly
    ⟨hon.view, hon.orderly, hon.owns, hon.link, hon.holds.2⟩

/-- The same, when only the condition matters. -/
theorem act {op : Op} (hF : Keeps maxClients v F)
    (hsafe : ∀ w, Orderly maxClients w → F w → Safe op w)
    (hpasses : ∀ w outcome w', Orderly maxClients w → v.Owns w → F w →
      Performs digest exposed op w outcome w' → Passes maxClients false none w w') :
    Spec maxClients digest exposed v F (await op) (fun _ => F) F := by
  refine on_perform hF (fun _ => hF) hF hsafe ?_
  intro w outcome w' hon hdoes
  have hpass := hpasses w outcome w' hon.orderly hon.owns hon.holds hdoes
  have halong := hpass.along (v := v) hon.orderly
  have hlink : ∀ m, v.game = some m → Link maxClients m .idle w' :=
    fun m hm => (hpass.watched m (by simp)).link _ (hon.link m hm)
  have hholds := hF w w' halong hon.holds
  exact ⟨false, none, hpass, fun h => (by cases h), fun m h => (by cases h), hon.owns.mono halong,
    fun _ _ => ⟨hlink, hholds⟩, fun _ _ => ⟨hlink, hholds⟩⟩

/-- The same, of an operation that does not raise. -/
theorem certain {op : Op} (hF : Keeps maxClients v F) (hS : Keeps maxClients v S)
    (hsafe : ∀ w, Orderly maxClients w → F w → Safe op w)
    (hok : ∀ w outcome w', Performs digest exposed op w outcome w' → ∃ a, outcome = .ok a)
    (hpasses : ∀ w outcome w', Orderly maxClients w → v.Owns w → F w →
      Performs digest exposed op w outcome w' → Passes maxClients false none w w') :
    Spec maxClients digest exposed v F (await op) (fun _ => F) S := by
  refine on_perform hF (fun _ => hF) hS hsafe ?_
  intro w outcome w' hon hdoes
  have hpass := hpasses w outcome w' hon.orderly hon.owns hon.holds hdoes
  have halong := hpass.along (v := v) hon.orderly
  refine ⟨false, none, hpass, fun h => (by cases h), fun m h =>
    (by cases h), hon.owns.mono halong,
    fun _ _ => ⟨?_, hF w w' halong hon.holds⟩, ?_⟩
  · exact fun m hm => (hpass.watched m (by simp)).link _ (hon.link m hm)
  · intro raised hraised
    obtain ⟨a, ha⟩ := hok w outcome w' hdoes
    rw [ha] at hraised
    cases hraised

/-! ### Reading and writing -/

/-- An operation that only reads. -/
theorem read {op : Op} {answer : World → op.Ans} {f : op.Ans → Coroutine α}
    (hF : Keeps maxClients v F) (hS : Keeps maxClients v S) (hraised : ∀ w, F w → S w)
    (hsafe : ∀ w, Safe op w) (hreads : ∀ env w, op.effects env w = [(.ok (answer w), w)])
    (hnext : ∀ w, Orderly maxClients w → F w →
      Spec maxClients digest exposed v (fun w' => F w' ∧
        Along maxClients v w w') (f (answer w)) R S) :
    Spec maxClients digest exposed v F (await op >>= f) R S := by
  refine quiet hF hS hraised (fun w _ _ => hsafe w) ?_ ?_
  · intro w outcome w' horderly _ _ hdoes
    rw [hdoes.still (by simp [hreads])]
    exact .refl _ _ horderly
  · intro a w w' horderly hholds hdoes _
    obtain ⟨env, -, heffect | ⟨_, hfalse, -⟩⟩ := hdoes.cases
    · rw [hreads, List.mem_singleton, Prod.mk.injEq] at heffect
      obtain ⟨hanswer, rfl⟩ := heffect
      obtain rfl := Except.ok.inj hanswer
      exact hnext w' horderly hholds
    · cases hfalse

theorem memory {f : Memory → Coroutine α} (hF : Keeps maxClients v F) (hS : Keeps maxClients v S)
    (hraised : ∀ w, F w → S w)
    (hnext : ∀ w, Orderly maxClients w → F w →
      Spec maxClients digest exposed v (fun w' => F w' ∧
        Along maxClients v w w') (f w.memory) R S) :
    Spec maxClients digest exposed v F (Server.memory >>= f) R S :=
  read hF hS hraised (fun _ => trivial) (fun _ _ => rfl) hnext

theorem ledger {f : Ledger → Coroutine α} (hF : Keeps maxClients v F) (hS : Keeps maxClients v S)
    (hraised : ∀ w, F w → S w)
    (hnext : ∀ w, Orderly maxClients w → F w →
      Spec maxClients digest exposed v (fun w' => F w' ∧
        Along maxClients v w w') (f w.ledger) R S) :
    Spec maxClients digest exposed v F (Server.ledger >>= f) R S :=
  read hF hS hraised (fun _ => trivial) (fun _ _ => rfl) hnext

theorem now {f : Int → Coroutine α} (hF : Keeps maxClients v F) (hS : Keeps maxClients v S)
    (hraised : ∀ w, F w → S w) (hnext : ∀ t, Spec maxClients digest exposed v F (f t) R S) :
    Spec maxClients digest exposed v F (Server.now >>= f) R S := by
  refine quiet hF hS hraised (fun _ _ _ => trivial) ?_ ?_
  · intro w outcome w' horderly _ _ hdoes
    rw [hdoes.still (by simp [Op.effects])]
    exact .refl _ _ horderly
  · intro t w w' _ _ _ _
    exact (hnext t).mono (fun _ _ h => h.1) (fun _ _ _ h => h) fun _ _ h => h

/-- A statement that needs no lock. -/
theorem write {x : Write} {G : World → Prop} (hF : Keeps maxClients v F)
    (hG : Keeps maxClients v G)
    (hS : Keeps maxClients v S) (hx : ∀ w, Orderly maxClients w → F w → x.Quiet w)
    (hdone : ∀ w, F w → F (w.setMemory (x.apply w.memory)) → G (w.setMemory (x.apply w.memory))) :
    Spec maxClients digest exposed v F (Server.write x) (fun _ => G) S := by
  refine on_perform hF (fun _ => hG) hS (fun _ _ _ => trivial) ?_
  intro w outcome w' hon hdoes
  obtain ⟨env, heffect⟩ := hdoes.sure rfl rfl
  simp only [Op.effects, List.mem_singleton, Prod.mk.injEq] at heffect
  obtain ⟨rfl, rfl⟩ := heffect
  have hpass := hon.orderly.write (hx w hon.orderly hon.holds)
  have halong := hpass.along (v := v) hon.orderly
  refine ⟨false, none, hpass, fun h => (by cases h), fun m h => (by cases h),
    hon.owns.mono halong, fun _ _ => ⟨?_, hdone w hon.holds (hF _ _ halong hon.holds)⟩,
    fun _ h => by cases h⟩
  exact fun m hm => (hpass.watched m (by simp)).link _ (hon.link m hm)

/-- The loop: the condition is about the rest of the list. -/
theorem forEach {f : β → Coroutine Unit} {I : List β → World → Prop}
    (hI : ∀ xs, Keeps maxClients v (I xs))
    (hnext : ∀ x xs, Spec maxClients digest exposed v (I (x :: xs)) (f x)
      (fun _ => I xs) S) (xs : List β) :
    Spec maxClients digest exposed v (I xs) (Server.forEach f xs) (fun _ => I []) S := by
  induction xs with
  | nil => exact .pure (hI []) fun _ _ h => h
  | cons x xs ih => exact .bind (hnext x xs) fun _ => ih

/-! ### Locks -/

/-- Taking a lock and giving it back. -/
theorem locked {l : Lock} {u : View} {G : World → Prop} {H : α → World → Prop} {T : World → Prop}
    {body : Coroutine α} (hR : ∀ a, Keeps maxClients v (R a)) (hS : Keeps maxClients v S)
    (hraised : ∀ w, F w → S w)
    (hlock : Triple (custody maxClients) (Performs digest exposed) (On maxClients v .idle F)
      (await (.lock l)) (fun _ => On maxClients u .idle G) (Fails maxClients exposed v .idle F))
    (hbody : Spec maxClients digest exposed u G body H T)
    (hok : ∀ a, Triple (custody maxClients) (Performs digest exposed)
      (On maxClients u .idle (H a))
      (await (.unlock l)) (fun _ => On maxClients v .idle (R a)) fun _ _ _ => False)
    (herror : Triple (custody maxClients) (Performs digest exposed) (On maxClients u .idle T)
      (await (.unlock l)) (fun _ => On maxClients v .idle S) fun _ _ _ => False) :
    Spec maxClients digest exposed v F (withLock l body) R S := by
  have hfirst : Triple (custody maxClients) (Performs digest exposed) (On maxClients v .idle F)
      (await (.lock l)) (fun _ => On maxClients u .idle G)
        (Fails maxClients exposed v .idle S) := by
    refine hlock.consequence (fun _ _ _ hon => hon) ?_
    intro outcome view w _ hpost
    cases outcome with
    | ok _ => exact hpost
    | error raised => exact ⟨hpost.1, hpost.2.mono fun _ => hraised w⟩
  refine Triple.bind hfirst fun _ => ?_
  refine Triple.clean (fun a => On.stable (hR a)) (fun raised =>
    Fails.stable hS raised) hbody ?_ ?_
  · intro a
    refine (hok a).consequence (fun _ _ _ hon => hon) ?_
    intro outcome view w _ hpost
    cases outcome with
    | ok _ => exact hpost
    | error raised => exact hpost.elim
  · intro raised view w horderly hfails
    refine (herror view w horderly hfails.2).mono ?_
    intro outcome view w _ hpost
    cases outcome with
    | ok _ => exact ⟨hfails.1, hpost⟩
    | error raised => exact hpost.elim

theorem lock_cases {l : Lock} {w w' : World} {outcome : Outcome (.lock l)}
    (h : Performs digest exposed (.lock l) w outcome w') :
    (outcome = .ok () ∧ w.memory.taken l = false ∧
      w' = w.setMemory (w.memory.setLock l true)) ∨
    (exposed = true ∧ outcome = .error .cancelled ∧ w' = w) := by
  refine (h.patient rfl rfl).imp_left ?_
  rintro ⟨env, heffect⟩
  simp only [Op.effects] at heffect
  split_ifs at heffect with htaken
  · simp at heffect
  · rw [List.mem_singleton, Prod.mk.injEq] at heffect
    exact ⟨heffect.1, by simpa using htaken, heffect.2⟩

theorem unlock_cases {l : Lock} {w w' : World} {outcome : Outcome (.unlock l)}
    (h : Performs digest exposed (.unlock l) w outcome w') :
    outcome = .ok () ∧ w' = w.setMemory (w.memory.setLock l false) := by
  obtain ⟨env, heffect⟩ := h.sure rfl rfl
  rwa [Op.effects, List.mem_singleton, Prod.mk.injEq] at heffect

/-- Taking a lock.  A task that is cancelled meanwhile does not get it. -/
theorem on_lock {l : Lock} {u : View} {G : World → Prop} (hF : Keeps maxClients v F)
    (hG : Keeps maxClients u G)
    (htaken : ∀ w, Orderly maxClients w → v.Owns w → F w → w.memory.taken l = false →
      (custody maxClients).Grants v u w (w.setMemory (w.memory.setLock l true)) ∧
        On maxClients u .idle G u (w.setMemory (w.memory.setLock l true))) :
    Triple (custody maxClients) (Performs digest exposed) (On maxClients v .idle F)
      (await (.lock l)) (fun _ => On maxClients u .idle G)
      (Fails maxClients exposed v .idle F) := by
  refine Triple.perform (On.stable hF) ?_ (fun _ _ _ _ => trivial) ?_
  · intro outcome
    cases outcome with
    | ok _ => exact On.stable hG
    | error raised => exact Fails.stable hF raised
  · rintro view w outcome w' - hon hdoes
    rcases lock_cases hdoes with ⟨rfl, hfree, rfl⟩ | ⟨hexposed, rfl, rfl⟩
    · have hview := hon.view
      subst hview
      obtain ⟨hgrants, hon'⟩ := htaken w hon.orderly hon.owns hon.holds hfree
      exact ⟨hon'.orderly, u, hgrants, hon'⟩
    · exact ⟨hon.orderly, view, Discipline.Grants.refl _ _ _, fun _ => hexposed, hon⟩

/-- The manager's lock is taken. -/
theorem lockManager (hF : Keeps maxClients ⟨false, none⟩ F) :
    Triple (custody maxClients) (Performs digest exposed) (On maxClients ⟨false, none⟩ .idle F)
      (await (.lock .manager))
      (fun _ => On maxClients ⟨true, none⟩ .idle fun w => F w ∧ Tidy none w)
      (Fails maxClients exposed ⟨false, none⟩ .idle F) := by
  refine on_lock hF (hF.weaken.and (Tidy.keeps none)) ?_
  intro w horderly howns hholds hfree
  have hpass := horderly.lockManager
  have htidy := horderly.sane.tidy hfree
  constructor
  · intro u hapart
    have hrelies : Relies maxClients u w _ := hpass.relies horderly (fun _ => rfl)
      fun _ _ hm => by cases hm
    refine ⟨fun _ => hrelies, hpass.orderly, hapart.left.mono hrelies.toAlong,
      ⟨fun _ => rfl, fun _ h => (by cases h)⟩, ?_, fun _ h => by cases h.2⟩
    rintro ⟨hu, -⟩
    have htaken := hapart.left.manager hu
    rw [show w.memory.locked = false from hfree] at htaken
    cases htaken
  · have halong : Along maxClients ⟨false, none⟩ w _ := hpass.along horderly
    exact ⟨rfl, hpass.orderly, ⟨fun _ => rfl, fun _ h => (by cases h)⟩, fun _ h => (by cases h),
      hF _ _ halong hholds, htidy.manages (Manages.shrinks horderly.sane fun _ _ hm => hm)
        (fun _ _ hm => hm) fun _ _ hm => .inl hm⟩

/-- The manager's lock is given back. -/
theorem unlockManager (hF : Keeps maxClients ⟨false, none⟩ F) :
    Triple (custody maxClients) (Performs digest exposed)
      (On maxClients ⟨true, none⟩ .idle fun w => F w ∧ Tidy none w) (await (.unlock .manager))
      (fun _ => On maxClients ⟨false, none⟩ .idle F) fun _ _ _ => False := by
  refine Triple.perform (On.stable (hF.weaken.and (Tidy.keeps none))) ?_
    (fun _ _ _ _ => trivial) ?_
  · intro outcome
    cases outcome with
    | ok _ => exact On.stable hF
    | error raised => exact fun _ _ _ h => h.elim
  · rintro view w outcome w' - hon hdoes
    obtain ⟨rfl, rfl⟩ := unlock_cases hdoes
    obtain ⟨rfl, horderly, howns, -, hholds, htidy⟩ := hon
    have hpass := horderly.unlockManager htidy
    refine ⟨hpass.orderly, ⟨false, none⟩, ?_, ?_⟩
    · intro u hapart
      have hrelies : Relies maxClients u w _ := hpass.relies horderly
        (fun hu => absurd ⟨hu, rfl⟩ hapart.manager) fun _ _ hm => by cases hm
      exact ⟨fun _ => hrelies, hpass.orderly, hapart.left.mono hrelies.toAlong,
        ⟨fun h => (by cases h), fun _ h => (by cases h)⟩, fun h => (by cases h.2),
        fun _ h => by cases h.2⟩
    · have halong : Along maxClients ⟨false, none⟩ w _ := (hpass.relies horderly
        (fun hu => (by cases hu)) fun _ _ hm => by cases hm).toAlong
      exact ⟨rfl, hpass.orderly, ⟨fun h => (by cases h), fun _ h => (by cases h)⟩,
        fun _ h => (by cases h), hF _ _ halong hholds⟩

/-- `async with manager.lock`. -/
theorem withManager {body : Coroutine α} (hF : Keeps maxClients ⟨false, none⟩ F)
    (hR : ∀ a, Keeps maxClients ⟨false, none⟩ (R a)) (hS : Keeps maxClients ⟨false, none⟩ S)
    (hraised : ∀ w, F w → S w)
    (hbody : Spec maxClients digest exposed ⟨true, none⟩ (fun w => F w ∧ Tidy none w) body
      (fun a w => R a w ∧ Tidy none w) fun w => S w ∧ Tidy none w) :
    Spec maxClients digest exposed ⟨false, none⟩ F (withLock .manager body) R S :=
  locked hR hS hraised (lockManager hF) hbody (fun a => unlockManager (hR a)) (unlockManager hS)

/-- `async with match.lock`. -/
theorem withGame {manager : Bool} {m : MatchId} {body : Coroutine α}
    (hF : Keeps maxClients ⟨manager, none⟩ F) (hR : ∀ a, Keeps maxClients ⟨manager, none⟩ (R a))
    (hS : Keeps maxClients ⟨manager, none⟩ S) (hraised : ∀ w, F w → S w)
    (hmade : ∀ w, F w → m < w.memory.created)
    (hbody : Spec maxClients digest exposed ⟨manager, some m⟩ F body R S) :
    Spec maxClients digest exposed ⟨manager, none⟩ F (withLock (.game m) body) R S := by
  have hunlock : ∀ {G : World → Prop}, Keeps maxClients ⟨manager, none⟩ G →
      Triple (custody maxClients) (Performs digest exposed)
        (On maxClients ⟨manager, some m⟩ .idle G)
        (await (.unlock (.game m))) (fun _ => On maxClients ⟨manager, none⟩ .idle G)
        fun _ _ _ => False := by
    intro G hG
    refine Triple.perform (On.stable (v := ⟨manager, some m⟩)
      (Keeps.forget (v := ⟨manager, some m⟩) hG))
      ?_ (fun _ _ _ _ => trivial) ?_
    · intro outcome
      cases outcome with
      | ok _ => exact On.stable hG
      | error raised => exact fun _ _ _ h => h.elim
    · rintro view w outcome w' - hon hdoes
      obtain ⟨rfl, rfl⟩ := unlock_cases hdoes
      obtain ⟨rfl, horderly, howns, hlink, hholds⟩ := hon
      have hpass := horderly.unlockGame (hlink m rfl)
      have halong : Along maxClients ⟨manager, none⟩ w _ := (hpass.relies horderly
        (fun _ => rfl) fun _ hm => by cases hm).toAlong
      have howns' : View.Owns ⟨manager, none⟩ _ :=
        View.Owns.mono ⟨howns.manager, fun _ h => (by cases h)⟩ halong
      refine ⟨hpass.orderly, ⟨manager, none⟩, ?_, ?_⟩
      · intro u hapart
        have hrelies : Relies maxClients u w _ := hpass.relies horderly (fun _ => rfl)
          fun m' hm' heq => hapart.game m' ⟨hm', heq⟩
        exact ⟨fun _ => hrelies, hpass.orderly, hapart.left.mono hrelies.toAlong, howns',
          hapart.manager, fun _ h => by cases h.2⟩
      · exact ⟨rfl, hpass.orderly, howns', fun _ h => (by cases h), hG _ _ halong hholds⟩
  refine locked hR hS hraised ?_ hbody (fun a => hunlock (hR a)) (hunlock hS)
  refine on_lock hF (Keeps.forget (v := ⟨manager, some m⟩) hF) ?_
  intro w horderly howns hholds hfree
  obtain ⟨hpass, htaken⟩ := horderly.lockGame (hmade w hholds)
  have halong : Along maxClients ⟨manager, none⟩ w _ := hpass.along horderly
  have howns' : View.Owns ⟨manager, some m⟩ _ :=
    ⟨(howns.mono halong).manager, fun m' hm' => Option.some.inj hm' ▸ htaken⟩
  constructor
  · intro u hapart
    have hrelies : Relies maxClients u w _ := hpass.relies horderly (fun _ => rfl)
      fun _ _ hm => by cases hm
    refine ⟨fun _ => hrelies, hpass.orderly, hapart.left.mono hrelies.toAlong, howns',
      hapart.manager, ?_⟩
    rintro m' ⟨hu, hm'⟩
    obtain rfl : m = m' := Option.some.inj hm'
    have htaken := (hapart.left.game m hu).locked
    rw [show (w.memory.objects m).locked = false from hfree] at htaken
    cases htaken
  · refine ⟨rfl, hpass.orderly, howns', ?_, hF _ _ halong hholds⟩
    intro m' hm'
    obtain rfl : m = m' := Option.some.inj hm'
    exact (hpass.watched m (by simp)).link _ (horderly.links m hfree)

/-- The message loop of a connection is entered. -/
theorem lockReader {c : ConnectionId} (hF : Keeps maxClients v F)
    (hraised : ∀ w, F w → S w) :
    Spec maxClients digest exposed v F (await (.lock (.reader c))) (fun _ => F) S := by
  refine Spec.mono (.act hF (fun _ _ _ => trivial) ?_) (fun _ _ h => h) (fun _ _ _ h => h)
    fun w _ h => hraised w h
  intro w outcome w' horderly _ _ hdoes
  rcases lock_cases hdoes with ⟨-, -, rfl⟩ | ⟨-, -, rfl⟩
  · exact horderly.setBusy c true
  · exact .refl _ _ horderly

/-- The task of a connection takes one message after the other. -/
theorem withReader {c : ConnectionId} {body : Coroutine α} (hF : Keeps maxClients v F)
    (hR : ∀ a, Keeps maxClients v (R a)) (hS : Keeps maxClients v S)
    (hraised : ∀ w, F w → S w) (hbody : Spec maxClients digest exposed v F body R S) :
    Spec maxClients digest exposed v F (withLock (.reader c) body) R S := by
  have hunlock : ∀ {G T : World → Prop}, Keeps maxClients v G → Keeps maxClients v T →
      Spec maxClients digest exposed v G (await (.unlock (.reader c))) (fun _ => G) T := by
    intro G T hG hT
    refine certain hG hT (fun _ _ _ => trivial) (fun _ _ _ hdoes =>
      ⟨_, (unlock_cases hdoes).1⟩) ?_
    intro w outcome w' horderly _ _ hdoes
    obtain ⟨-, rfl⟩ := unlock_cases hdoes
    exact horderly.setBusy c false
  exact .bind (lockReader hF hraised) fun _ =>
    .anyway hR hS hbody (fun a => hunlock (hR a) hS) (hunlock hS hS)

/-- An operation that needs the manager's lock. -/
theorem manage {op : Op} {R : op.Ans → World → Prop} (hF : Keeps maxClients ⟨true, none⟩ F)
    (hR : ∀ a, Keeps maxClients ⟨true, none⟩ (R a)) (hS : Keeps maxClients ⟨true, none⟩ S)
    (hsafe : ∀ w, Orderly maxClients w → F w → Safe op w)
    (hstep : ∀ w outcome w', Orderly maxClients w → w.memory.locked = true → F w →
      Performs digest exposed op w outcome w' → Passes maxClients true none w w' ∧
        w'.memory.locked = true ∧ (∀ a, outcome = .ok a → R a w') ∧
        ∀ raised, outcome = .error raised → S w') :
    Spec maxClients digest exposed ⟨true, none⟩ F (await op) R S := by
  refine on_perform hF hR hS hsafe ?_
  intro w outcome w' hon hdoes
  obtain ⟨hpass, hlocked, hok, herror⟩ :=
    hstep w outcome w' hon.orderly (hon.owns.manager rfl) hon.holds hdoes
  exact ⟨true, none, hpass, fun _ => rfl, fun _ h => (by cases h),
    ⟨fun _ => hlocked, fun _ h => (by cases h)⟩,
    fun a ha => ⟨fun _ h => (by cases h), hok a ha⟩,
    fun raised hraised => ⟨fun _ h => (by cases h), herror raised hraised⟩⟩

end Spec

end

end QuakeJs.Server
