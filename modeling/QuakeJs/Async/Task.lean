import Mathlib.Logic.Basic
import Mathlib.Logic.Function.Basic
import Mathlib.Logic.Relation

/-!
# Cooperative tasks

A coroutine is a tree: it has ended, or it awaits an operation and goes on
with the outcome.  Between two awaits a task runs alone, so a pool of tasks
takes one step for each operation, and any other task may step in between.

* `Task`, with the sequencing, exception handling and clean-up of the source
  language (`bind`, `handle`, `anyway`), and with marks on its operations, so
  that parts of a task can be treated in different ways.
* `Pool` and its steps: a task starts, runs its next operation or is lost, the
  world changes by itself, and a crash ends every task at once.
* `Logged`: a history variable, with the outcome of every operation so far.
* `Discipline`, `wp`, `Triple` and `Pool.Reachable.sound`: rely-guarantee
  reasoning.  Each task has a view of the world that the steps of the others
  respect, and finds the world safe for each operation that it performs.
* `Task.Only` and `Task.Gated`: which operations a task performs, and what it
  performs only after one of them has returned a certain answer.

Nothing here knows what the operations do.
-/

namespace QuakeJs.Async

/-- Why an await did not return: an exception, or the cancellation of the task. -/
inductive Raised (E : Type)
  | error (e : E)
  | cancelled
deriving DecidableEq, Repr

section

variable (Op : Type) (Ans : Op → Type) (E : Type)

/-- A coroutine over the operations `Op`. -/
inductive Task (α : Type)
  | done (result : Except (Raised E) α)
  | call (op : Op) (next : Except (Raised E) (Ans op) → Task α)

end

namespace Task

variable {Op : Type} {Ans : Op → Type} {E α β : Type}

/-- Await one operation. -/
def perform (op : Op) : Task Op Ans E (Ans op) := call op done

/-- `raise`. -/
def raise (e : E) : Task Op Ans E α := done (.error (.error e))

def bind (task : Task Op Ans E α) (f : α → Task Op Ans E β) : Task Op Ans E β :=
  match task with
  | done (.ok a) => f a
  | done (.error raised) => done (.error raised)
  | call op next => call op fun outcome => bind (next outcome) f

instance : Monad (Task Op Ans E) where
  pure a := done (.ok a)
  bind := bind

/-- `try: ... except Exception`.  A cancellation is not an exception. -/
def handle (task : Task Op Ans E α) (f : E → Task Op Ans E α) : Task Op Ans E α :=
  match task with
  | done (.error (.error e)) => f e
  | done result => done result
  | call op next => call op fun outcome => handle (next outcome) f

/-- `try: ... finally`. -/
def anyway (task : Task Op Ans E α) (f : Task Op Ans E Unit) : Task Op Ans E α :=
  match task with
  | done result => bind f fun _ => done result
  | call op next => call op fun outcome => anyway (next outcome) f

/-- The task, with a mark on each of its operations. -/
def mark {B : Type} (b : B) : Task Op Ans E α → Task (Op × B) (fun o => Ans o.1) E α
  | done result => done result
  | call op next => call (op, b) fun outcome => mark b (next outcome)

end Task

/-! ## Pools -/

section

variable {Op : Type} {Ans : Op → Type} {E : Type} {W V : Type}

/-- The world, and the tasks at work on it.  A place without a task holds one
that has ended. -/
structure Pool (Op : Type) (Ans : Op → Type) (E W : Type) where
  world : W
  tasks : Nat → Task Op Ans E Unit

variable (performs : (op : Op) → W → Except (Raised E) (Ans op) → W → Prop)
  (starts : Task Op Ans E Unit → Prop) (outside crashes : W → W → Prop)

/-- One step of a pool. -/
inductive Pool.Step : Pool Op Ans E W → Pool Op Ans E W → Prop
  | start {pool : Pool Op Ans E W} (i : Nat) (task : Task Op Ans E Unit)
      (result : Except (Raised E) Unit) (idle : pool.tasks i = .done result)
      (allowed : starts task) :
      Step pool { pool with tasks := Function.update pool.tasks i task }
  | run {pool : Pool Op Ans E W} (i : Nat) (op : Op)
      (next : Except (Raised E) (Ans op) → Task Op Ans E Unit)
      (outcome : Except (Raised E) (Ans op)) (world : W) (awaits : pool.tasks i = .call op next)
      (does : performs op pool.world outcome world) :
      Step pool ⟨world, Function.update pool.tasks i (next outcome)⟩
  /-- The task is lost. -/
  | lose {pool : Pool Op Ans E W} (i : Nat) :
      Step pool { pool with tasks := Function.update pool.tasks i (.done (.ok ())) }
  | world {pool : Pool Op Ans E W} (world : W) (does : outside pool.world world) :
      Step pool { pool with world }
  /-- The process that runs the tasks has died. -/
  | crash {pool : Pool Op Ans E W} (world : W) (does : crashes pool.world world) :
      Step pool ⟨world, fun _ => .done (.ok ())⟩

/-- What a pool can come to from a world with no task. -/
inductive Pool.Reachable (initial : W) : Pool Op Ans E W → Prop
  | initial : Reachable initial ⟨initial, fun _ => .done (.ok ())⟩
  | step {pool pool' : Pool Op Ans E W} (reach : Reachable initial pool)
      (step : Pool.Step performs starts outside crashes pool pool') : Reachable initial pool'

end

/-! ## A log of the answers -/

section

variable {Op : Type} {Ans : Op → Type} {E W : Type}

/-- An operation with its outcome. -/
abbrev Answer (Op : Type) (Ans : Op → Type) (E : Type) := (op : Op) × Except (Raised E) (Ans op)

/-- The operation, which also puts its outcome on a log that nothing reads.
The log has the newest first. -/
def Logged (performs : (op : Op) → W → Except (Raised E) (Ans op) → W → Prop) (op : Op)
    (w : W × List (Answer Op Ans E)) (outcome : Except (Raised E) (Ans op))
    (w' : W × List (Answer Op Ans E)) : Prop :=
  performs op w.1 outcome w'.1 ∧ w'.2 = ⟨op, outcome⟩ :: w.2

/-- A change of the world that leaves the log alone. -/
def Unlogged (change : W → W → Prop) (w w' : W × List (Answer Op Ans E)) : Prop :=
  change w.1 w'.1 ∧ w'.2 = w.2

variable {performs performs' : (op : Op) → W → Except (Raised E) (Ans op) → W → Prop}
  {starts : Task Op Ans E Unit → Prop} {outside crashes : W → W → Prop} {initial : W}

/-- A pool can do more when its operations can. -/
theorem Pool.Reachable.mono {pool : Pool Op Ans E W}
    (h : Pool.Reachable performs starts outside crashes initial pool)
    (hperforms : ∀ op w outcome w', performs op w outcome w' → performs' op w outcome w') :
    Pool.Reachable performs' starts outside crashes initial pool := by
  induction h with
  | initial => exact .initial
  | step _ hstep ih =>
    refine ih.step ?_
    cases hstep with
    | start i task result idle allowed => exact .start i task result idle allowed
    | run i op next outcome world awaits does =>
      exact .run i op next outcome world awaits (hperforms op _ outcome world does)
    | lose i => exact .lose i
    | world world does => exact .world world does
    | crash world does => exact .crash world does

/-- A pool can do more when the rest of the system can. -/
theorem Pool.Step.weaken {outside' : W → W → Prop} {pool pool' : Pool Op Ans E W}
    (h : Pool.Step performs starts outside crashes pool pool')
    (houtside : ∀ w w', outside w w' → outside' w w') :
    Pool.Step performs starts outside' crashes pool pool' := by
  cases h with
  | start i task result idle allowed => exact .start i task result idle allowed
  | run i op next outcome world awaits does => exact .run i op next outcome world awaits does
  | lose i => exact .lose i
  | world world does => exact .world world (houtside _ _ does)
  | crash world does => exact .crash world does

theorem Pool.Reachable.weaken {outside' : W → W → Prop} {pool : Pool Op Ans E W}
    (h : Pool.Reachable performs starts outside crashes initial pool)
    (houtside : ∀ w w', outside w w' → outside' w w') :
    Pool.Reachable performs starts outside' crashes initial pool := by
  induction h with
  | initial => exact .initial
  | step _ hstep ih => exact ih.step (hstep.weaken houtside)

/-- What every change of the world keeps holds of the world of any pool. -/
theorem Pool.Reachable.invariant {P : W → Prop} {pool : Pool Op Ans E W}
    (h : Pool.Reachable performs starts outside crashes initial pool) (hinitial : P initial)
    (hperforms : ∀ op w outcome w', P w → performs op w outcome w' → P w')
    (houtside : ∀ w w', P w → outside w w' → P w')
    (hcrashes : ∀ w w', P w → crashes w w' → P w') : P pool.world := by
  induction h with
  | initial => exact hinitial
  | step _ hstep ih =>
    cases hstep with
    | start i task result idle allowed => exact ih
    | run i op next outcome world awaits does => exact hperforms op _ outcome world ih does
    | lose i => exact ih
    | world world does => exact houtside _ world ih does
    | crash world does => exact hcrashes _ world ih does

/-- Without its log, a pool is one that keeps none. -/
theorem Pool.Reachable.unlogged {pool : Pool Op Ans E (W × List (Answer Op Ans E))}
    (h : Pool.Reachable (Logged performs) starts (Unlogged outside) (Unlogged crashes)
      (initial, []) pool) :
    Pool.Reachable performs starts outside crashes initial ⟨pool.world.1, pool.tasks⟩ := by
  induction h with
  | initial => exact .initial
  | step _ hstep ih =>
    refine ih.step ?_
    cases hstep with
    | start i task result idle allowed => exact .start i task result idle allowed
    | run i op next outcome world awaits does =>
      exact .run i op next outcome world.1 awaits does.1
    | lose i => exact .lose i
    | world world does => exact .world world.1 does.1
    | crash world does => exact .crash world.1 does.1

/-- Every pool can keep a log. -/
theorem Pool.Reachable.logged {pool : Pool Op Ans E W}
    (h : Pool.Reachable performs starts outside crashes initial pool) :
    ∃ log, Pool.Reachable (Logged performs) starts (Unlogged outside) (Unlogged crashes)
      (initial, []) ⟨(pool.world, log), pool.tasks⟩ := by
  induction h with
  | initial => exact ⟨[], .initial⟩
  | step _ hstep ih =>
    obtain ⟨log, hlogged⟩ := ih
    cases hstep with
    | start i task result idle allowed =>
      exact ⟨log, hlogged.step (.start i task result idle allowed)⟩
    | run i op next outcome world awaits does =>
      exact ⟨_, hlogged.step (.run i op next outcome (world, ⟨op, outcome⟩ :: log) awaits
        ⟨does, rfl⟩)⟩
    | lose i => exact ⟨log, hlogged.step (.lose i)⟩
    | world world does => exact ⟨log, hlogged.step (.world (world, log) ⟨does, rfl⟩)⟩
    | crash world does => exact ⟨log, hlogged.step (.crash (world, log) ⟨does, rfl⟩)⟩

end

/-! ## A task by itself -/

/-- A task that runs by itself takes the world from `w` to `w'`. -/
inductive Solo {Op : Type} {Ans : Op → Type} {E α W : Type}
    (performs : (op : Op) → W → Except (Raised E) (Ans op) → W → Prop) :
    Task Op Ans E α → W → Except (Raised E) α → W → Prop
  | done (result : Except (Raised E) α) (w : W) : Solo performs (.done result) w result w
  | call {op : Op} {next : Except (Raised E) (Ans op) → Task Op Ans E α}
      {outcome : Except (Raised E) (Ans op)} {result : Except (Raised E) α} {w w' w'' : W}
      (does : performs op w outcome w') (rest : Solo performs (next outcome) w' result w'') :
      Solo performs (.call op next) w result w''

section

variable {Op : Type} {Ans : Op → Type} {E W : Type}
  {performs : (op : Op) → W → Except (Raised E) (Ans op) → W → Prop}
  {starts : Task Op Ans E Unit → Prop} {outside crashes : W → W → Prop}

theorem Solo.bind {α β : Type} {task : Task Op Ans E α} {f : α → Task Op Ans E β} {a : α}
    {w w' w'' : W} {result : Except (Raised E) β} (h : Solo performs task w (.ok a) w')
    (hnext : Solo performs (f a) w' result w'') : Solo performs (task >>= f) w result w'' := by
  generalize hresult : Except.ok a = first at h
  induction h with
  | done first w =>
    cases hresult
    exact hnext
  | call does rest ih => exact .call does (ih hnext hresult)

/-- What the first part raises, the second one does not see. -/
theorem Solo.bind_raised {α β : Type} {task : Task Op Ans E α} {f : α → Task Op Ans E β}
    {raised : Raised E} {w w' : W} (h : Solo performs task w (.error raised) w') :
    Solo performs (task >>= f) w (.error raised) w' := by
  generalize hresult : Except.error raised = first at h
  induction h with
  | done first w =>
    cases hresult
    exact .done _ w
  | call does rest ih => exact .call does (ih hresult)

/-- A task that does not raise an exception has none to handle. -/
theorem Solo.handle {α : Type} {task : Task Op Ans E α} {f : E → Task Op Ans E α}
    {result : Except (Raised E) α} {w w' : W} (h : Solo performs task w result w')
    (hquiet : ∀ e, result ≠ .error (.error e)) : Solo performs (task.handle f) w result w' := by
  induction h with
  | done result w =>
    rcases result with (e | _) | a
    · exact absurd rfl (hquiet e)
    · exact .done _ w
    · exact .done _ w
  | call does rest ih => exact .call does (ih hquiet)

theorem Solo.anyway {α : Type} {task : Task Op Ans E α} {f : Task Op Ans E Unit}
    {result result' : Except (Raised E) α} {w w' w'' : W} (h : Solo performs task w result w')
    (hclean : Solo performs (f >>= fun _ => .done result) w' result' w'') :
    Solo performs (task.anyway f) w result' w'' := by
  induction h with
  | done result w => exact hclean
  | call does rest ih => exact .call does (ih hclean)

/-- A pool can leave one of its tasks to run by itself. -/
theorem Pool.Reachable.solo {initial w w' : W} {tasks : Nat → Task Op Ans E Unit} {i : Nat}
    {result : Except (Raised E) Unit}
    (h : Pool.Reachable performs starts outside crashes initial ⟨w, tasks⟩)
    (hsolo : Solo performs (tasks i) w result w') :
    Pool.Reachable performs starts outside crashes initial
      ⟨w', Function.update tasks i (.done result)⟩ := by
  generalize htask : tasks i = task at hsolo
  induction hsolo generalizing tasks with
  | done result w =>
    rw [← htask, Function.update_eq_self]
    exact h
  | call does rest ih =>
    have hstep := h.step (.run i _ _ _ _ htask does)
    have hrest := ih hstep (Function.update_self i _ tasks)
    rw [Function.update_idem] at hrest
    exact hrest

/-- A pool can leave one of its tasks to run the first part of it. -/
theorem Pool.Reachable.solo_first {α : Type} {initial w w' : W} {tasks : Nat → Task Op Ans E Unit}
    {i : Nat} {first : Task Op Ans E α} {f : α → Task Op Ans E Unit} {a : α}
    (h : Pool.Reachable performs starts outside crashes initial ⟨w, tasks⟩)
    (htask : tasks i = first >>= f) (hsolo : Solo performs first w (.ok a) w') :
    Pool.Reachable performs starts outside crashes initial ⟨w',
      Function.update tasks i (f a)⟩ := by
  generalize hresult : Except.ok a = result at hsolo
  induction hsolo generalizing tasks with
  | done result w =>
    cases hresult
    rw [show f a = tasks i from htask.symm, Function.update_eq_self]
    exact h
  | call does rest ih =>
    have hstep := h.step (.run i _ _ _ _ htask does)
    have hrest := ih hstep (Function.update_self i _ tasks) hresult
    rw [Function.update_idem] at hrest
    exact hrest

end

/-! ## Rely and guarantee -/

/-- What the tasks of a pool agree on.  `inv` holds of the world between any
two steps, and `safe op` whenever `op` is performed.  A task with the view `v`
relies on every step of the others to respect `rely v`, and `apart` tells
which views two tasks may have at once. -/
structure Discipline (Op W V : Type) where
  inv : W → Prop
  safe : Op → W → Prop
  rely : V → W → W → Prop
  apart : W → V → V → Prop
  /-- The view of a task that relies on nothing in particular. -/
  idle : V
  rely_refl : ∀ v w, rely v w w
  rely_trans : ∀ v w₁ w₂ w₃, rely v w₁ w₂ → rely v w₂ w₃ → rely v w₁ w₃
  apart_symm : ∀ w u v, apart w u v → apart w v u
  apart_idle : ∀ w u v, apart w u v → apart w u idle
  apart_rely : ∀ w w' u v, apart w u v → rely u w w' → rely v w w' → apart w' u v

section

variable {Op : Type} {Ans : Op → Type} {E α β : Type} {W V : Type}
  (D : Discipline Op W V) (performs : (op : Op) → W → Except (Raised E) (Ans op) → W → Prop)

/-- A step from `w` to `w'` by a task whose view goes from `v` to `v'` is in
order for every other task. -/
def Discipline.Grants (v v' : V) (w w' : W) : Prop :=
  ∀ u, D.apart w u v → D.rely u w w' ∧ D.apart w' u v'

theorem Discipline.Grants.refl (v : V) (w : W) : D.Grants v v w w :=
  fun u hapart => ⟨D.rely_refl u w, hapart⟩

/-- Whenever the task gets to run from the view `v` of the world `w`, its next
operation is safe, keeps the invariant and is in order for the others, and if
it ends, `Q` holds. -/
def wp (Q : Except (Raised E) α → V → W → Prop) : Task Op Ans E α → V → W → Prop
  | .done result, v, w => ∀ w₁, D.rely v w w₁ → D.inv w₁ → Q result v w₁
  | .call op next, v, w => ∀ w₁, D.rely v w w₁ → D.inv w₁ →
      D.safe op w₁ ∧ ∀ outcome w₂, performs op w₁ outcome w₂ →
        D.inv w₂ ∧ ∃ v', D.Grants v v' w₁ w₂ ∧ wp Q (next outcome) v' w₂

variable {D performs} {Q Q' : Except (Raised E) α → V → W → Prop} {v : V} {w : W}

/-- The steps of the others do no harm. -/
theorem wp.rely {task : Task Op Ans E α} (h : wp D performs Q task v w) {w' : W}
    (hrely : D.rely v w w') : wp D performs Q task v w' := by
  cases task with
  | done result => exact fun w₁ hstep => h w₁ (D.rely_trans v w w' w₁ hrely hstep)
  | call op next => exact fun w₁ hstep => h w₁ (D.rely_trans v w w' w₁ hrely hstep)

theorem wp.mono {task : Task Op Ans E α} (h : wp D performs Q task v w)
    (hpost : ∀ result v w, D.inv w → Q result v w → Q' result v w) :
    wp D performs Q' task v w := by
  induction task generalizing v w with
  | done result => exact fun w₁ hrely hinv => hpost result v w₁ hinv (h w₁ hrely hinv)
  | call op next ih =>
    intro w₁ hrely hinv
    obtain ⟨hsafe, hstep⟩ := h w₁ hrely hinv
    refine ⟨hsafe, fun outcome w₂ hdoes => ?_⟩
    obtain ⟨hinv₂, v', hgrants, hnext⟩ := hstep outcome w₂ hdoes
    exact ⟨hinv₂, v', hgrants, ih outcome hnext⟩

/-- The rule of sequencing: the second part starts from any world in which the
first one can end. -/
theorem wp.bind {R : Except (Raised E) β → V → W → Prop} {task : Task Op Ans E α}
    {f : α → Task Op Ans E β} (h : wp D performs Q task v w)
    (hnext : ∀ a v w, D.inv w → Q (.ok a) v w → wp D performs R (f a) v w)
    (hraised : ∀ raised v w, D.inv w → Q (.error raised) v w → R (.error raised) v w) :
    wp D performs R (task >>= f) v w := by
  show wp D performs R (task.bind f) v w
  induction task generalizing v w with
  | done result =>
    cases result with
    | ok a =>
      show wp D performs R (f a) v w
      have hstart : ∀ w₁, D.rely v w w₁ → D.inv w₁ → wp D performs R (f a) v w₁ :=
        fun w₁ hrely hinv => hnext a v w₁ hinv (h w₁ hrely hinv)
      cases hf : f a with
      | done result =>
        intro w₁ hrely hinv
        have hone := hstart w₁ hrely hinv
        rw [hf] at hone
        exact hone w₁ (D.rely_refl v w₁) hinv
      | call op next =>
        intro w₁ hrely hinv
        have hone := hstart w₁ hrely hinv
        rw [hf] at hone
        exact hone w₁ (D.rely_refl v w₁) hinv
    | error raised => exact fun w₁ hrely hinv => hraised raised v w₁ hinv (h w₁ hrely hinv)
  | call op next ih =>
    intro w₁ hrely hinv
    obtain ⟨hsafe, hstep⟩ := h w₁ hrely hinv
    refine ⟨hsafe, fun outcome w₂ hdoes => ?_⟩
    obtain ⟨hinv₂, v', hgrants, hrest⟩ := hstep outcome w₂ hdoes
    exact ⟨hinv₂, v', hgrants, ih outcome hrest⟩

/-- The frame rule: what a task that relies on nothing in particular still
relies on lasts to the end of the task. -/
theorem wp.frame (hidle : ∀ v w w', D.rely v w w' → D.rely D.idle w w')
    {task : Task Op Ans E α} {w₀ : W} (h : wp D performs Q task v w)
    (hapart : D.apart w D.idle v) (hsince : D.rely D.idle w₀ w) :
    wp D performs (fun result v' w' => Q result v' w' ∧ D.rely D.idle w₀ w') task v w := by
  induction task generalizing v w with
  | done result =>
    intro w₁ hrely hinv
    exact ⟨h w₁ hrely hinv, D.rely_trans _ _ _ _ hsince (hidle v w w₁ hrely)⟩
  | call op next ih =>
    intro w₁ hrely hinv
    obtain ⟨hsafe, hstep⟩ := h w₁ hrely hinv
    have hothers := hidle v w w₁ hrely
    have hapart₁ : D.apart w₁ D.idle v := D.apart_rely _ _ _ _ hapart hothers hrely
    refine ⟨hsafe, fun outcome w₂ hdoes => ?_⟩
    obtain ⟨hinv₂, v', hgrants, hnext⟩ := hstep outcome w₂ hdoes
    obtain ⟨hself, hapart₂⟩ := hgrants D.idle hapart₁
    exact ⟨hinv₂, v', hgrants, ih outcome hnext hapart₂
      (D.rely_trans _ _ _ _ (D.rely_trans _ _ _ _ hsince hothers) hself)⟩

/-- What is shown in every world that the task can find is shown. -/
theorem wp.intro {task : Task Op Ans E α}
    (h : ∀ w₁, D.rely v w w₁ → D.inv w₁ → wp D performs Q task v w₁) :
    wp D performs Q task v w := by
  cases task with
  | done result =>
    exact fun w₁ hrely hinv => h w₁ hrely hinv w₁ (D.rely_refl v w₁) hinv
  | call op next =>
    exact fun w₁ hrely hinv => h w₁ hrely hinv w₁ (D.rely_refl v w₁) hinv

/-- The rule of `except Exception`. -/
theorem wp.handle {task : Task Op Ans E α} {f : E → Task Op Ans E α}
    (h : wp D performs Q task v w)
    (hok : ∀ a v w, D.inv w → Q (.ok a) v w → Q' (.ok a) v w)
    (herror : ∀ e v w, D.inv w → Q (.error (.error e)) v w → wp D performs Q' (f e) v w)
    (hcancelled : ∀ v w, D.inv w → Q (.error .cancelled) v w → Q' (.error .cancelled) v w) :
    wp D performs Q' (task.handle f) v w := by
  induction task generalizing v w with
  | done result =>
    rcases result with (e | _) | a
    · exact wp.intro fun w₁ hrely hinv => herror e v w₁ hinv (h w₁ hrely hinv)
    · exact fun w₁ hrely hinv => hcancelled v w₁ hinv (h w₁ hrely hinv)
    · exact fun w₁ hrely hinv => hok a v w₁ hinv (h w₁ hrely hinv)
  | call op next ih =>
    intro w₁ hrely hinv
    obtain ⟨hsafe, hstep⟩ := h w₁ hrely hinv
    refine ⟨hsafe, fun outcome w₂ hdoes => ?_⟩
    obtain ⟨hinv₂, v', hgrants, hrest⟩ := hstep outcome w₂ hdoes
    exact ⟨hinv₂, v', hgrants, ih outcome hrest⟩

/-- The rule of `finally`. -/
theorem wp.anyway {task : Task Op Ans E α} {f : Task Op Ans E Unit}
    (h : wp D performs Q task v w)
    (hclean : ∀ result v w, D.inv w → Q result v w →
      wp D performs Q' (f.bind fun _ => .done result) v w) :
    wp D performs Q' (task.anyway f) v w := by
  induction task generalizing v w with
  | done result => exact wp.intro fun w₁ hrely hinv => hclean result v w₁ hinv (h w₁ hrely hinv)
  | call op next ih =>
    intro w₁ hrely hinv
    obtain ⟨hsafe, hstep⟩ := h w₁ hrely hinv
    refine ⟨hsafe, fun outcome w₂ hdoes => ?_⟩
    obtain ⟨hinv₂, v', hgrants, hrest⟩ := hstep outcome w₂ hdoes
    exact ⟨hinv₂, v', hgrants, ih outcome hrest⟩

/-! ## Triples -/

/-- A postcondition in two parts: for a result, and for what is raised. -/
def Post (R : α → V → W → Prop) (S : Raised E → V → W → Prop)
    (outcome : Except (Raised E) α) : V → W → Prop :=
  match outcome with
  | .ok a => R a
  | .error raised => S raised

/-- A condition that the steps of the others do not break. -/
def Discipline.Stable (D : Discipline Op W V) (P : V → W → Prop) : Prop :=
  ∀ v w w', P v w → D.rely v w w' → P v w'

variable (D performs)

/-- From `P` the task is in order.  If it returns `R` holds of its result, and
if it raises `S` holds of what it raises. -/
def Triple (P : V → W → Prop) (task : Task Op Ans E α) (R : α → V → W → Prop)
    (S : Raised E → V → W → Prop) : Prop :=
  ∀ v w, D.inv w → P v w → wp D performs (Post R S) task v w

variable {D performs}

namespace Triple

variable {P P' : V → W → Prop} {R R' : α → V → W → Prop} {S S' : Raised E → V → W → Prop}
  {R'' : β → V → W → Prop}

theorem consequence {task : Task Op Ans E α} (h : Triple D performs P task R S)
    (hpre : ∀ v w, D.inv w → P' v w → P v w)
    (hpost : ∀ outcome v w, D.inv w → Post R S outcome v w → Post R' S' outcome v w) :
    Triple D performs P' task R' S' :=
  fun v w hinv hP => (h v w hinv (hpre v w hinv hP)).mono hpost

/-- What is raised is not looked at. -/
theorem forget {task : Task Op Ans E α} (h : Triple D performs P task R S) :
    Triple D performs P task R fun _ _ _ => True := by
  refine h.consequence (fun _ _ _ hP => hP) ?_
  intro outcome v w _ hpost
  cases outcome with
  | ok a => exact hpost
  | error raised => trivial

theorem pure {a : α} (hP : D.Stable P) (h : ∀ v w, P v w → R a v w) :
    Triple D performs P (Pure.pure a : Task Op Ans E α) R S :=
  fun v w _ hpre w₁ hrely _ => h v w₁ (hP v w w₁ hpre hrely)

theorem raise {e : E} (hP : D.Stable P) (h : ∀ v w, P v w → S (.error e) v w) :
    Triple D performs P (Task.raise e : Task Op Ans E α) R S :=
  fun v w _ hpre w₁ hrely _ => h v w₁ (hP v w w₁ hpre hrely)

/-- The rule of one await. -/
theorem perform {op : Op} {R : Ans op → V → W → Prop} (hP : D.Stable P)
    (hpost : ∀ outcome, D.Stable (Post R S outcome))
    (hsafe : ∀ v w, D.inv w → P v w → D.safe op w)
    (h : ∀ v w outcome w', D.inv w → P v w → performs op w outcome w' →
      D.inv w' ∧ ∃ v', D.Grants v v' w w' ∧ Post R S outcome v' w') :
    Triple D performs P (Task.perform op) R S := by
  intro v w _ hpre w₁ hrely hinv₁
  have hpre₁ : P v w₁ := hP v w w₁ hpre hrely
  refine ⟨hsafe v w₁ hinv₁ hpre₁, fun outcome w₂ hdoes => ?_⟩
  obtain ⟨hinv₂, v', hgrants, hnext⟩ := h v w₁ outcome w₂ hinv₁ hpre₁ hdoes
  exact ⟨hinv₂, v', hgrants, fun w₃ hrely₃ _ => hpost outcome v' w₂ w₃ hnext hrely₃⟩

theorem bind {task : Task Op Ans E α} {f : α → Task Op Ans E β}
    (h : Triple D performs P task R S) (hnext : ∀ a, Triple D performs (R a) (f a) R'' S) :
    Triple D performs P (task >>= f) R'' S :=
  fun v w hinv hP => (h v w hinv hP).bind (fun a v w hinv hR => hnext a v w hinv hR)
    fun _ _ _ _ hS => hS

theorem handle {T : Raised E → V → W → Prop} {task : Task Op Ans E α} {f : E → Task Op Ans E α}
    (h : Triple D performs P task R T) (herror : ∀ e, Triple D performs (T (.error e)) (f e) R S)
    (hcancelled : ∀ v w, T .cancelled v w → S .cancelled v w) :
    Triple D performs P (task.handle f) R S :=
  fun v w hinv hP => (h v w hinv hP).handle (fun _ _ _ _ hR => hR)
    (fun e v w hinv hS => herror e v w hinv hS) fun v w _ hS => hcancelled v w hS

/-- A clean-up that runs however the task ends. -/
theorem anyway {M N : V → W → Prop} {task : Task Op Ans E α} {f : Task Op Ans E Unit}
    (hN : D.Stable N) (h : Triple D performs P task (fun _ => M) fun _ => M)
    (hclean : Triple D performs M f (fun _ => N) fun _ => N) :
    Triple D performs P (task.anyway f) (fun _ => N) fun _ => N := by
  intro v w hinv hP
  refine (h v w hinv hP).anyway ?_
  intro result v w hinv hM
  have hpost : Triple D performs M (f >>= fun _ => .done result) (fun _ => N) fun _ => N := by
    refine bind hclean ?_
    intro _ v w _ hdone w₁ hrely _
    cases result with
    | ok a => exact hN v w w₁ hdone hrely
    | error raised => exact hN v w w₁ hdone hrely
  refine hpost v w hinv ?_
  cases result with
  | ok a => exact hM
  | error raised => exact hM

/-- A clean-up that keeps the result of the task. -/
theorem clean {T : Raised E → V → W → Prop} {task : Task Op Ans E α} {f : Task Op Ans E Unit}
    (hR : ∀ a, D.Stable (R' a)) (hS : ∀ raised, D.Stable (S raised))
    (h : Triple D performs P task R T)
    (hok : ∀ a, Triple D performs (R a) f (fun _ => R' a) S)
    (hraised : ∀ raised, Triple D performs (T raised) f (fun _ => S raised) S) :
    Triple D performs P (task.anyway f) R' S := by
  intro v w hinv hP
  refine (h v w hinv hP).anyway ?_
  intro result v w hinv hpost
  cases result with
  | ok a =>
    refine bind (hok a) (fun _ => ?_) v w hinv hpost
    exact fun v w _ hdone w₁ hrely _ => hR a v w w₁ hdone hrely
  | error raised =>
    refine bind (hraised raised) (fun _ => ?_) v w hinv hpost
    exact fun v w _ hdone w₁ hrely _ => hS raised v w w₁ hdone hrely

end Triple

/-! ## Marks -/

/-- The discipline, which does not look at the marks. -/
def Discipline.marked (D : Discipline Op W V) (B : Type) : Discipline (Op × B) W V where
  inv := D.inv
  safe o := D.safe o.1
  rely := D.rely
  apart := D.apart
  idle := D.idle
  rely_refl := D.rely_refl
  rely_trans := D.rely_trans
  apart_symm := D.apart_symm
  apart_idle := D.apart_idle
  apart_rely := D.apart_rely

variable {B : Type} {P : V → W → Prop} {R : α → V → W → Prop} {S : Raised E → V → W → Prop}
  {does : B → (op : Op) → W → Except (Raised E) (Ans op) → W → Prop}

/-- A task is in order with the mark that it is in order for. -/
theorem wp.mark {b : B} {task : Task Op Ans E α} (h : wp D (does b) Q task v w) :
    wp (D.marked B) (fun o => does o.2 o.1) Q (task.mark b) v w := by
  induction task generalizing v w with
  | done result => exact h
  | call op next ih =>
    intro w₁ hrely hinv
    obtain ⟨hsafe, hstep⟩ := h w₁ hrely hinv
    refine ⟨hsafe, fun outcome w₂ hdoes => ?_⟩
    obtain ⟨hinv₂, v', hgrants, hnext⟩ := hstep outcome w₂ hdoes
    exact ⟨hinv₂, v', hgrants, ih outcome hnext⟩

theorem Triple.mark {b : B} {task : Task Op Ans E α} (h : Triple D (does b) P task R S) :
    Triple (D.marked B) (fun o => does o.2 o.1) P (task.mark b) R S :=
  fun v w hinv hP => (h v w hinv hP).mark

/-! ## Soundness -/

/-- The invariant holds of the world, and each task is in order for some view
that is apart from those of the others. -/
def Pool.Sound (D : Discipline Op W V)
    (performs : (op : Op) → W → Except (Raised E) (Ans op) → W → Prop)
    (pool : Pool Op Ans E W) : Prop :=
  D.inv pool.world ∧ ∃ views : Nat → V,
    (∀ i, wp D performs (fun _ _ _ => True) (pool.tasks i) (views i) pool.world) ∧
      ∀ i j, i ≠ j → D.apart pool.world (views i) (views j)

variable {starts : Task Op Ans E Unit → Prop} {outside crashes : W → W → Prop}

/-- A task and its view are replaced. -/
theorem wp.update {tasks : Nat → Task Op Ans E α} {views : Nat → V} {i : Nat}
    {task : Task Op Ans E α} (hone : wp D performs Q task v w)
    (hothers : ∀ j, j ≠ i → wp D performs Q (tasks j) (views j) w) (j : Nat) :
    wp D performs Q (Function.update tasks i task j) (Function.update views i v j) w := by
  by_cases hj : j = i
  · rw [hj, Function.update_self, Function.update_self]
    exact hone
  · rw [Function.update_of_ne hj, Function.update_of_ne hj]
    exact hothers j hj

theorem Discipline.apart_update {views : Nat → V} {i : Nat}
    (hone : ∀ j, j ≠ i → D.apart w (views j) v)
    (hothers : ∀ j k, j ≠ i → k ≠ i → j ≠ k → D.apart w (views j) (views k)) (j k : Nat)
    (hjk : j ≠ k) :
    D.apart w (Function.update views i v j) (Function.update views i v k) := by
  by_cases hj : j = i
  · have hk : k ≠ i := fun heq => hjk (hj.trans heq.symm)
    rw [hj, Function.update_self, Function.update_of_ne hk]
    exact D.apart_symm _ _ _ (hone k hk)
  · rw [Function.update_of_ne hj]
    by_cases hk : k = i
    · rw [hk, Function.update_self]
      exact hone j hj
    · rw [Function.update_of_ne hk]
      exact hothers j k hj hk hjk

/-- One step of a pool whose tasks are in order leaves them in order. -/
theorem Pool.Step.sound {pool pool' : Pool Op Ans E W}
    (hstart : ∀ task, starts task → ∀ w, D.inv w →
      wp D performs (fun _ _ _ => True) task D.idle w)
    (houtside : ∀ w w', D.inv w → outside w w' →
      D.inv w' ∧ ∀ u v, D.apart w u v → D.rely u w w')
    (hcrash : ∀ w w', D.inv w → crashes w w' → D.inv w' ∧ D.apart w' D.idle D.idle)
    (hstep : Pool.Step performs starts outside crashes pool pool') (h : pool.Sound D performs) :
    pool'.Sound D performs := by
  obtain ⟨hinv, views, htasks, hapart⟩ := h
  cases hstep with
  | start i task result hidle hallowed =>
    have htask := hstart task hallowed pool.world hinv
    have hidle : ∀ j, j ≠ i → D.apart pool.world (views j) D.idle :=
      fun j hj => D.apart_idle _ _ _ (hapart j i hj)
    exact ⟨hinv, _, wp.update htask fun j _ => htasks j,
      Discipline.apart_update hidle fun j k _ _ => hapart j k⟩
  | run i op next outcome world hawaits hdoes =>
    have htask := htasks i
    rw [hawaits] at htask
    obtain ⟨hinv', v', hgrants, hnext⟩ :=
      (htask pool.world (D.rely_refl _ _) hinv).2 outcome world hdoes
    have hothers : ∀ j, j ≠ i → D.rely (views j) pool.world world ∧ D.apart world (views j) v' :=
      fun j hj => hgrants (views j) (hapart j i hj)
    have hapart' : ∀ j k, j ≠ i → k ≠ i → j ≠ k → D.apart world (views j) (views k) :=
      fun j k hj hk hjk => D.apart_rely _ _ _ _ (hapart j k hjk) (hothers j hj).1 (hothers k hk).1
    exact ⟨hinv', _, wp.update hnext fun j hj => (htasks j).rely (hothers j hj).1,
      Discipline.apart_update (fun j hj => (hothers j hj).2) hapart'⟩
  | lose i =>
    have hended : wp D performs (fun _ _ _ => True) (.done (.ok ()) : Task Op Ans E Unit)
        (views i) pool.world := fun _ _ _ => trivial
    have htasks' := wp.update (i := i) hended fun j _ => htasks j
    rw [Function.update_eq_self] at htasks'
    exact ⟨hinv, views, htasks', hapart⟩
  | world world hdoes =>
    obtain ⟨hinv', hrely⟩ := houtside pool.world world hinv hdoes
    have hne : ∀ i : Nat, i ≠ i + 1 := fun i => by omega
    refine ⟨hinv', views, ?_, ?_⟩
    · exact fun i => (htasks i).rely (hrely _ _ (hapart i (i + 1) (hne i)))
    · exact fun i j hij => D.apart_rely _ _ _ _ (hapart i j hij) (hrely _ _ (hapart i j hij))
        (hrely _ _ (hapart j i hij.symm))
  | crash world hdoes =>
    obtain ⟨hinv', hidle⟩ := hcrash pool.world world hinv hdoes
    exact ⟨hinv', fun _ => D.idle, fun _ _ _ _ => trivial, fun _ _ _ => hidle⟩

/-- The invariant holds in every state that a pool can reach. -/
theorem Pool.Reachable.sound {initial : W} {pool : Pool Op Ans E W} (hinit : D.inv initial)
    (hidle : D.apart initial D.idle D.idle)
    (hstart : ∀ task, starts task → ∀ w, D.inv w →
      wp D performs (fun _ _ _ => True) task D.idle w)
    (houtside : ∀ w w', D.inv w → outside w w' →
      D.inv w' ∧ ∀ u v, D.apart w u v → D.rely u w w')
    (hcrash : ∀ w w', D.inv w → crashes w w' → D.inv w' ∧ D.apart w' D.idle D.idle)
    (h : Pool.Reachable performs starts outside crashes initial pool) :
    pool.Sound D performs := by
  induction h with
  | initial =>
    refine ⟨hinit, fun _ => D.idle, ?_, fun _ _ _ => hidle⟩
    exact fun _ _ _ _ => trivial
  | step _ hstep ih => exact hstep.sound hstart houtside hcrash ih

/-- What a task that relies on nothing in particular still relies on holds of
every step of the pool. -/
theorem Pool.Step.rely {pool pool' : Pool Op Ans E W}
    (houtside : ∀ w w', D.inv w → outside w w' →
      D.inv w' ∧ ∀ u v, D.apart w u v → D.rely u w w')
    (hcrash : ∀ w w', D.inv w → crashes w w' → D.rely D.idle w w')
    (hstep : Pool.Step performs starts outside crashes pool pool') (h : pool.Sound D performs) :
    D.rely D.idle pool.world pool'.world := by
  obtain ⟨hinv, views, htasks, hapart⟩ := h
  have hidle : ∀ i : Nat, D.apart pool.world D.idle (views i) := fun i =>
    D.apart_symm _ _ _ (D.apart_idle _ _ _ (hapart i (i + 1) (by omega)))
  cases hstep with
  | start i task result _ _ => exact D.rely_refl _ _
  | run i op next outcome world hawaits hdoes =>
    have htask := htasks i
    rw [hawaits] at htask
    obtain ⟨-, v', hgrants, -⟩ := (htask pool.world (D.rely_refl _ _) hinv).2 outcome world hdoes
    exact (hgrants D.idle (hidle i)).1
  | lose i => exact D.rely_refl _ _
  | world world hdoes => exact (houtside pool.world world hinv hdoes).2 _ _ (hidle 0)
  | crash world hdoes => exact hcrash pool.world world hinv hdoes

/-- What a pool comes to from a pool whose tasks are in order. -/
theorem Pool.Sound.steps {pool pool' : Pool Op Ans E W}
    (hstart : ∀ task, starts task → ∀ w, D.inv w →
      wp D performs (fun _ _ _ => True) task D.idle w)
    (houtside : ∀ w w', D.inv w → outside w w' →
      D.inv w' ∧ ∀ u v, D.apart w u v → D.rely u w w')
    (hcrash : ∀ w w', D.inv w → crashes w w' → D.inv w' ∧ D.apart w' D.idle D.idle)
    (hcrash' : ∀ w w', D.inv w → crashes w w' → D.rely D.idle w w')
    (h : pool.Sound D performs)
    (hsteps : Relation.ReflTransGen (Pool.Step performs starts outside crashes) pool pool') :
    pool'.Sound D performs ∧ D.rely D.idle pool.world pool'.world := by
  induction hsteps with
  | refl => exact ⟨h, D.rely_refl _ _⟩
  | tail _ hstep ih =>
    obtain ⟨hsound, hrely⟩ := ih
    exact ⟨hstep.sound hstart houtside hcrash hsound,
      D.rely_trans _ _ _ _ hrely (hstep.rely houtside hcrash' hsound)⟩

/-- A task of the pool performs an operation only where it is safe. -/
theorem Pool.Sound.safe {pool : Pool Op Ans E W} (h : pool.Sound D performs) {i : Nat} {op : Op}
    {next : Except (Raised E) (Ans op) → Task Op Ans E Unit}
    (hcall : pool.tasks i = .call op next) : D.safe op pool.world := by
  obtain ⟨hinv, views, htasks, -⟩ := h
  have htask := htasks i
  rw [hcall] at htask
  exact (htask pool.world (D.rely_refl _ _) hinv).1

end

/-! ## Gates -/

section

variable {Op : Type} {Ans : Op → Type} {E α β : Type}

/-- The task performs no other operations than these. -/
def Task.Only (kind : Op → Prop) : Task Op Ans E α → Prop
  | .done _ => True
  | .call op next => kind op ∧ ∀ outcome, Only kind (next outcome)

variable (before behind : Op → Prop) (passes : Answer Op Ans E → Prop)

/-- The task gets behind the gate, and returns, only after an operation in
front of the gate had an answer that passes. -/
def Task.Gated : Task Op Ans E α → Prop
  | .done result => ∃ raised, result = .error raised
  | .call op next => before op ∧
      ∀ outcome, passes ⟨op, outcome⟩ ∧ Only behind (next outcome) ∨ Gated (next outcome)

variable {before behind passes} {kind : Op → Prop}

theorem Task.Only.handle {task : Task Op Ans E α} {f : E → Task Op Ans E α}
    (h : task.Only kind) (hf : ∀ e, (f e).Only kind) : (task.handle f).Only kind := by
  induction task with
  | done result =>
    rcases result with (e | _) | a
    · exact hf e
    · trivial
    · trivial
  | call op next ih => exact ⟨h.1, fun outcome => ih outcome (h.2 outcome)⟩

theorem Task.Only.bind {task : Task Op Ans E α} {f : α → Task Op Ans E β}
    (h : task.Only kind) (hf : ∀ a, (f a).Only kind) : (task >>= f).Only kind := by
  show (task.bind f).Only kind
  induction task with
  | done result =>
    cases result with
    | ok a => exact hf a
    | error raised => trivial
  | call op next ih => exact ⟨h.1, fun outcome => ih outcome (h.2 outcome)⟩

/-- What stays in front of the gate may come first. -/
theorem Task.Only.gated {task : Task Op Ans E α} {f : α → Task Op Ans E β}
    (h : task.Only before) (hf : ∀ a, (f a).Gated before behind passes) :
    (task >>= f).Gated before behind passes := by
  show (task.bind f).Gated before behind passes
  induction task with
  | done result =>
    cases result with
    | ok a => exact hf a
    | error raised => exact ⟨raised, rfl⟩
  | call op next ih => exact ⟨h.1, fun outcome => .inr (ih outcome (h.2 outcome))⟩

/-- The gate itself. -/
theorem Task.gated_perform {op : Op} {f : Ans op → Task Op Ans E β} (hop : before op)
    (h : ∀ a, passes ⟨op, .ok a⟩ ∧ (f a).Only behind ∨ (f a).Gated before behind passes) :
    (Task.perform op >>= f).Gated before behind passes := by
  refine ⟨hop, fun outcome => ?_⟩
  cases outcome with
  | ok a => exact h a
  | error raised => exact .inr ⟨raised, rfl⟩

/-- What follows on the result of a gated task is behind the gate. -/
theorem Task.Gated.bind {task : Task Op Ans E α} {f : α → Task Op Ans E β}
    (h : task.Gated before behind passes) (hf : ∀ a, (f a).Only behind) :
    (task >>= f).Gated before behind passes := by
  show (task.bind f).Gated before behind passes
  induction task with
  | done result =>
    obtain ⟨raised, rfl⟩ := h
    exact ⟨raised, rfl⟩
  | call op next ih =>
    refine ⟨h.1, fun outcome => ?_⟩
    rcases h.2 outcome with ⟨hpasses, honly⟩ | hgated
    · exact .inl ⟨hpasses, honly.bind hf⟩
    · exact .inr (ih outcome hgated)

end

end QuakeJs.Async
