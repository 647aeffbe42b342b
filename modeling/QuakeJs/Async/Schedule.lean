import QuakeJs.Async.Task

/-!
# Schedules

A pool that runs by a list of turns.  A turn says which task goes on and what
comes of its operation, or what happens besides the tasks, so a schedule can be
evaluated: it ends in a pool, or one of its turns is not possible.

* `Scheduler`: what a turn does, as functions.
* `Scheduler.Keeps`: these functions do only what the pool allows.
* `Scheduler.plays`: then a schedule is a run of the pool.
-/

namespace QuakeJs.Async

/-- Whose turn it is. -/
inductive Turn (S C H : Type)
  | start (i : Nat) (starter : S)
  | run (i : Nat) (choice : C)
  | world (happening : H)

/-- What a turn does.  `none` tells that it is not possible. -/
structure Scheduler (Op : Type) (Ans : Op → Type) (E W S C H : Type) where
  task : S → Task Op Ans E Unit
  does : C → (op : Op) → W → Option (Except (Raised E) (Ans op) × W)
  happens : H → W → Option W

namespace Scheduler

variable {Op : Type} {Ans : Op → Type} {E W S C H : Type} (s : Scheduler Op Ans E W S C H)

/-- One turn. -/
def turn (turn : Turn S C H) (pool : Pool Op Ans E W) : Option (Pool Op Ans E W) :=
  match turn with
  | .start i starter =>
    match pool.tasks i with
    | .done _ => some { pool with tasks := Function.update pool.tasks i (s.task starter) }
    | .call .. => none
  | .run i choice =>
    match pool.tasks i with
    | .done _ => none
    | .call op next =>
      (s.does choice op pool.world).map fun r => ⟨r.2, Function.update pool.tasks i (next r.1)⟩
  | .world happening => (s.happens happening pool.world).map fun world => { pool with world }

/-- A whole schedule. -/
def play (turns : List (Turn S C H)) (pool : Pool Op Ans E W) : Option (Pool Op Ans E W) :=
  turns.foldlM (fun pool turn => s.turn turn pool) pool

/-- A scheduler does only what the pool allows. -/
structure Keeps (performs : (op : Op) → W → Except (Raised E) (Ans op) → W → Prop)
    (starts : Task Op Ans E Unit → Prop) (outside : W → W → Prop) : Prop where
  task : ∀ starter, starts (s.task starter)
  does : ∀ choice op w r, s.does choice op w = some r → performs op w r.1 r.2
  happens : ∀ happening w w', s.happens happening w = some w' → outside w w'

variable {s} {performs : (op : Op) → W → Except (Raised E) (Ans op) → W → Prop}
  {starts : Task Op Ans E Unit → Prop} {outside crashes : W → W → Prop}
  {pool pool' : Pool Op Ans E W}

theorem turn_step (hs : s.Keeps performs starts outside) {t : Turn S C H}
    (h : s.turn t pool = some pool') :
    Pool.Step performs starts outside crashes pool pool' := by
  cases t with
  | start i starter =>
    simp only [turn] at h
    cases htask : pool.tasks i with
    | done result =>
      simp only [htask, Option.some.injEq] at h
      exact h ▸ .start i _ result htask (hs.task starter)
    | call op next =>
      rw [htask] at h
      cases h
  | run i choice =>
    simp only [turn] at h
    cases htask : pool.tasks i with
    | done result =>
      rw [htask] at h
      cases h
    | call op next =>
      simp only [htask, Option.map_eq_some_iff] at h
      obtain ⟨r, hr, rfl⟩ := h
      exact .run i op next r.1 r.2 htask (hs.does choice op _ r hr)
  | world happening =>
    simp only [turn, Option.map_eq_some_iff] at h
    obtain ⟨world, hworld, rfl⟩ := h
    exact .world world (hs.happens happening _ world hworld)

/-- A schedule that is possible is a run. -/
theorem plays (hs : s.Keeps performs starts outside) {turns : List (Turn S C H)}
    (h : s.play turns pool = some pool') :
    Relation.ReflTransGen (Pool.Step performs starts outside crashes) pool pool' := by
  induction turns generalizing pool with
  | nil =>
    cases h
    exact .refl
  | cons t turns ih =>
    obtain ⟨next, hnext, hrest⟩ := Option.bind_eq_some_iff.mp h
    exact .head (turn_step hs hnext) (ih hrest)

end Scheduler

/-- What a run comes to from a pool that can be reached can be reached. -/
theorem Pool.Reachable.steps {Op : Type} {Ans : Op → Type} {E W : Type}
    {performs : (op : Op) → W → Except (Raised E) (Ans op) → W → Prop}
    {starts : Task Op Ans E Unit → Prop} {outside crashes : W → W → Prop} {initial : W}
    {pool pool' : Pool Op Ans E W}
    (h : Pool.Reachable performs starts outside crashes initial pool)
    (hsteps : Relation.ReflTransGen (Pool.Step performs starts outside crashes) pool pool') :
    Pool.Reachable performs starts outside crashes initial pool' := by
  induction hsteps with
  | refl => exact h
  | tail _ hstep ih => exact ih.step hstep

end QuakeJs.Async
