import QuakeJs.Async.Task

/-!
# Traces of one task

What one task of a pool awaits, from its start to its end, with the world that
it finds at each await and the one that it leaves.  Between two awaits the
world can become any other.

* `Traced`: the traces of a task, and what they are for the parts of it.
* `Task.forEach` and `Task.attempt`: a loop over a list, and a task whose
  exception is an answer.
* `Task.Within`: the operations of a task and its result, as far as they
  depend on what the answers may be.
* `Trail`: a trace whose worlds follow one another.
-/

namespace QuakeJs.Async

/-- One await. -/
structure Await (Op : Type) (Ans : Op → Type) (E W : Type) where
  before : W
  op : Op
  outcome : Except (Raised E) (Ans op)
  after : W

section

variable {Op : Type} {Ans : Op → Type} {E W α β : Type}

/-- The task runs to this end by these awaits. -/
inductive Traced (performs : (op : Op) → W → Except (Raised E) (Ans op) → W → Prop) :
    Task Op Ans E α → List (Await Op Ans E W) → Except (Raised E) α → Prop
  | done (result : Except (Raised E) α) : Traced performs (.done result) [] result
  | call {op : Op} {next : Except (Raised E) (Ans op) → Task Op Ans E α} {w w' : W}
      {outcome : Except (Raised E) (Ans op)} {trace : List (Await Op Ans E W)}
      {result : Except (Raised E) α} (does : performs op w outcome w')
      (rest : Traced performs (next outcome) trace result) :
      Traced performs (.call op next) (⟨w, op, outcome, w'⟩ :: trace) result

variable {performs : (op : Op) → W → Except (Raised E) (Ans op) → W → Prop}

namespace Traced

/-- A sequence is the trace of its first part, and then that of the second. -/
theorem of_bind {task : Task Op Ans E α} {f : α → Task Op Ans E β}
    {trace : List (Await Op Ans E W)} {result : Except (Raised E) β}
    (h : Traced performs (task >>= f) trace result) :
    (∃ a first second, Traced performs task first (.ok a) ∧ Traced performs (f a) second result ∧
      trace = first ++ second) ∨
    (∃ raised, Traced performs task trace (.error raised) ∧ result = .error raised) := by
  change Traced performs (task.bind f) trace result at h
  induction task generalizing trace with
  | done first =>
    cases first with
    | ok a => exact .inl ⟨a, [], trace, .done _, h, rfl⟩
    | error raised =>
      cases h
      exact .inr ⟨raised, .done _, rfl⟩
  | call op next ih =>
    cases h with
    | call does rest =>
      cases ih _ rest with
      | inl hreturns =>
        obtain ⟨a, first, second, htask, hf, rfl⟩ := hreturns
        exact .inl ⟨a, _, second, .call does htask, hf, rfl⟩
      | inr hraises =>
        obtain ⟨raised, htask, rfl⟩ := hraises
        exact .inr ⟨raised, .call does htask, rfl⟩

/-- A sequence that returns is the trace of both of its parts. -/
theorem of_bind_ok {task : Task Op Ans E α} {f : α → Task Op Ans E β}
    {trace : List (Await Op Ans E W)} {b : β}
    (h : Traced performs (task >>= f) trace (.ok b)) :
    ∃ a first second, Traced performs task first (.ok a) ∧ Traced performs (f a) second (.ok b) ∧
      trace = first ++ second := by
  cases h.of_bind with
  | inl hreturns => exact hreturns
  | inr hraises =>
    obtain ⟨raised, -, hresult⟩ := hraises
    cases hresult

theorem bind {task : Task Op Ans E α} {f : α → Task Op Ans E β} {a : α}
    {first second : List (Await Op Ans E W)} {result : Except (Raised E) β}
    (h : Traced performs task first (.ok a)) (hf : Traced performs (f a) second result) :
    Traced performs (task >>= f) (first ++ second) result := by
  generalize hresult : Except.ok a = ended at h
  induction h with
  | done ended =>
    cases hresult
    exact hf
  | call does rest ih => exact .call does (ih hresult)

/-- A handler has its trace after that of the task. -/
theorem of_handle {task : Task Op Ans E α} {f : E → Task Op Ans E α}
    {trace : List (Await Op Ans E W)} {result : Except (Raised E) α}
    (h : Traced performs (task.handle f) trace result) :
    (Traced performs task trace result ∧ ∀ e, result ≠ .error (.error e)) ∨
    (∃ e first second, Traced performs task first (.error (.error e)) ∧
      Traced performs (f e) second result ∧ trace = first ++ second) := by
  induction task generalizing trace with
  | done first =>
    rcases first with (e | _) | a
    · exact .inr ⟨e, [], trace, .done _, h, rfl⟩
    · cases h
      exact .inl ⟨.done _, fun e he => by cases he⟩
    · cases h
      exact .inl ⟨.done _, fun e he => by cases he⟩
  | call op next ih =>
    cases h with
    | call does rest =>
      cases ih _ rest with
      | inl hquiet => exact .inl ⟨.call does hquiet.1, hquiet.2⟩
      | inr hhandled =>
        obtain ⟨e, first, second, htask, hf, rfl⟩ := hhandled
        exact .inr ⟨e, _, second, .call does htask, hf, rfl⟩

/-- A clean-up has its trace after that of the task, however the task ends. -/
theorem of_anyway {task : Task Op Ans E α} {f : Task Op Ans E Unit}
    {trace : List (Await Op Ans E W)} {result : Except (Raised E) α}
    (h : Traced performs (task.anyway f) trace result) :
    ∃ ended first second, Traced performs task first ended ∧
      Traced performs (f >>= fun _ => .done ended) second result ∧ trace = first ++ second := by
  induction task generalizing trace with
  | done ended => exact ⟨ended, [], trace, .done _, h, rfl⟩
  | call op next ih =>
    cases h with
    | call does rest =>
      obtain ⟨ended, first, second, htask, hf, rfl⟩ := ih _ rest
      exact ⟨ended, _, second, .call does htask, hf, rfl⟩

theorem of_perform {op : Op} {trace : List (Await Op Ans E W)}
    {result : Except (Raised E) (Ans op)} (h : Traced performs (Task.perform op) trace result) :
    ∃ w w', performs op w result w' ∧ trace = [⟨w, op, result, w'⟩] := by
  cases h with
  | call does rest =>
    cases rest
    exact ⟨_, _, does, rfl⟩

theorem of_pure {a : α} {trace : List (Await Op Ans E W)} {result : Except (Raised E) α}
    (h : Traced performs (Pure.pure a : Task Op Ans E α) trace result) :
    trace = [] ∧ result = .ok a := by
  cases h
  exact ⟨rfl, rfl⟩

/-- A task performs in its trace what it performs at all. -/
theorem only {kind : Op → Prop} {task : Task Op Ans E α} {trace : List (Await Op Ans E W)}
    {result : Except (Raised E) α} (h : Traced performs task trace result)
    (honly : task.Only kind) : ∀ await ∈ trace, kind await.op := by
  induction h with
  | done => exact fun _ hmem => absurd hmem List.not_mem_nil
  | call does rest ih =>
    intro await hmem
    cases List.mem_cons.mp hmem with
    | inl heq =>
      rw [heq]
      exact honly.1
    | inr hrest => exact ih (honly.2 _) await hrest

/-- How far the trace of a task goes, and how it ends, can be told from any
trace that it begins. -/
theorem unique {task : Task Op Ans E α} {first second more more' : List (Await Op Ans E W)}
    {result result' : Except (Raised E) α} (h : Traced performs task first result)
    (h' : Traced performs task second result') (happend : first ++ more = second ++ more') :
    first = second ∧ result = result' ∧ more = more' := by
  induction h generalizing second with
  | done result =>
    cases h'
    exact ⟨rfl, rfl, happend⟩
  | call does rest ih =>
    cases h' with
    | call does' rest' =>
      rw [List.cons_append, List.cons_append, List.cons.injEq] at happend
      obtain ⟨hawait, hmore⟩ := happend
      cases hawait
      obtain ⟨rfl, rfl, rfl⟩ := ih rest' hmore
      exact ⟨rfl, rfl, rfl⟩

end Traced

/-! ## Loops and attempts -/

namespace Task

/-- `for x in xs`. -/
def forEach (f : α → Task Op Ans E Unit) : List α → Task Op Ans E Unit
  | [] => return ()
  | x :: xs => do
    let _ ← f x
    forEach f xs

/-- The exception of a task is an answer. -/
def attempt (task : Task Op Ans E α) : Task Op Ans E (Option α) :=
  handle (task >>= fun a => return some a) fun _ => return none

end Task

/-- What is seen of each turn of a loop is seen of the loop, in its order. -/
theorem Traced.of_forEach {γ : Type} {f : α → Task Op Ans E Unit}
    {see : Await Op Ans E W → Option γ}
    {key : α → γ}
    (hturn : ∀ x trace, Traced performs (f x) trace (.ok ()) → trace.filterMap see = [key x])
    {xs : List α} {trace : List (Await Op Ans E W)}
    (h : Traced performs (Task.forEach f xs) trace (.ok ())) :
    trace.filterMap see = xs.map key := by
  induction xs generalizing trace with
  | nil =>
    rw [h.of_pure.1]
    rfl
  | cons x xs ih =>
    obtain ⟨⟨⟩, first, second, hfirst, hsecond, rfl⟩ := h.of_bind_ok
    rw [List.filterMap_append, hturn x first hfirst, ih hsecond]
    rfl

theorem Traced.of_attempt {task : Task Op Ans E α} {trace : List (Await Op Ans E W)}
    {a? : Option α} (h : Traced performs task.attempt trace (.ok a?)) :
    (∃ a, a? = some a ∧ Traced performs task trace (.ok a)) ∨
    (a? = none ∧ ∃ e, Traced performs task trace (.error (.error e))) := by
  cases h.of_handle with
  | inl hquiet =>
    obtain ⟨a, first, second, htask, hpure, rfl⟩ := hquiet.1.of_bind_ok
    have hdone := hpure.of_pure
    cases hdone.2
    rw [hdone.1, List.append_nil]
    exact .inl ⟨a, rfl, htask⟩
  | inr hhandled =>
    obtain ⟨e, first, second, htask, hpure, rfl⟩ := hhandled
    have hdone := hpure.of_pure
    cases hdone.2
    rw [hdone.1, List.append_nil]
    cases htask.of_bind with
    | inl hreturns =>
      obtain ⟨a, t, t', -, hpure', -⟩ := hreturns
      cases hpure'.of_pure.2
    | inr hraises =>
      obtain ⟨raised, htask', hresult⟩ := hraises
      cases hresult
      exact .inr ⟨rfl, e, htask'⟩

/-! ## Tasks that keep to their operations -/

/-- As long as the answers are what they may be, the task performs no other
operations than these, and what it returns is as `Q` says. -/
def Task.Within (kind : Op → Prop) (may : Answer Op Ans E → Prop) (Q : α → Prop) :
    Task Op Ans E α → Prop
  | .done result => ∀ a, result = .ok a → Q a
  | .call op next => kind op ∧
      ∀ outcome, may ⟨op, outcome⟩ → Within kind may Q (next outcome)

namespace Task.Within

variable {kind : Op → Prop} {may : Answer Op Ans E → Prop} {Q Q' : α → Prop} {R : β → Prop}

theorem mono {task : Task Op Ans E α} (h : task.Within kind may Q) (hQ : ∀ a, Q a → Q' a) :
    task.Within kind may Q' := by
  induction task with
  | done result => exact fun a ha => hQ a (h a ha)
  | call op next ih => exact ⟨h.1, fun outcome hmay => ih outcome (h.2 outcome hmay)⟩

theorem pure {a : α} (h : Q a) : (Pure.pure a : Task Op Ans E α).Within kind may Q := by
  intro b hb
  cases hb
  exact h

theorem raise (e : E) : (Task.raise e : Task Op Ans E α).Within kind may Q := by
  intro a ha
  cases ha

theorem perform {op : Op} {Q : Ans op → Prop} (hop : kind op)
    (h : ∀ a, may ⟨op, .ok a⟩ → Q a) :
    (Task.perform op : Task Op Ans E (Ans op)).Within kind may Q := by
  refine ⟨hop, fun outcome hmay a ha => ?_⟩
  rw [ha] at hmay
  exact h a hmay

theorem bind {task : Task Op Ans E α} {f : α → Task Op Ans E β} (h : task.Within kind may Q)
    (hf : ∀ a, Q a → (f a).Within kind may R) : (task >>= f).Within kind may R := by
  show (task.bind f).Within kind may R
  induction task with
  | done result =>
    cases result with
    | ok a => exact hf a (h a rfl)
    | error raised =>
      intro b hb
      cases hb
  | call op next ih => exact ⟨h.1, fun outcome hmay => ih outcome (h.2 outcome hmay)⟩

theorem handle {task : Task Op Ans E α} {f : E → Task Op Ans E α} (h : task.Within kind may Q)
    (hf : ∀ e, (f e).Within kind may Q) : (task.handle f).Within kind may Q := by
  induction task with
  | done result =>
    rcases result with (e | _) | a
    · exact hf e
    · exact h
    · exact h
  | call op next ih => exact ⟨h.1, fun outcome hmay => ih outcome (h.2 outcome hmay)⟩

end Task.Within

/-- Every await of a trace is one that can happen. -/
theorem Traced.does {task : Task Op Ans E α} {trace : List (Await Op Ans E W)}
    {result : Except (Raised E) α} (h : Traced performs task trace result) :
    ∀ await ∈ trace, performs await.op await.before await.outcome await.after := by
  induction h with
  | done => exact fun _ hmem => absurd hmem List.not_mem_nil
  | call does rest ih =>
    intro await hmem
    cases List.mem_cons.mp hmem with
    | inl heq =>
      rw [heq]
      exact does
    | inr hrest => exact ih await hrest

/-- The operations in a trace of such a task are of the kind. -/
theorem Traced.within {kind : Op → Prop} {may : Answer Op Ans E → Prop} {Q : α → Prop}
    {task : Task Op Ans E α} {trace : List (Await Op Ans E W)} {result : Except (Raised E) α}
    (h : Traced performs task trace result) (hwithin : task.Within kind may Q)
    (hmay : ∀ op w outcome w', performs op w outcome w' → may ⟨op, outcome⟩) :
    ∀ await ∈ trace, kind await.op := by
  induction h with
  | done => exact fun _ hmem => absurd hmem List.not_mem_nil
  | call does rest ih =>
    intro await hmem
    cases List.mem_cons.mp hmem with
    | inl heq =>
      rw [heq]
      exact hwithin.1
    | inr hrest => exact ih (hwithin.2 _ (hmay _ _ _ _ does)) await hrest

/-! ## Trails -/

/-- The awaits happen one after the other, from the world `w` to `w'`.  Between
them the rest of the system takes any number of steps. -/
def Trail (between : W → W → Prop) : W → List (Await Op Ans E W) → W → Prop
  | w, [], w' => Relation.ReflTransGen between w w'
  | w, await :: trace, w' => Relation.ReflTransGen between w await.before ∧
      Trail between await.after trace w'

theorem Trail.of_append {between : W → W → Prop} {first second : List (Await Op Ans E W)}
    {w w' : W} (h : Trail between w (first ++ second) w') :
    ∃ middle, Trail between w first middle ∧ Trail between middle second w' := by
  induction first generalizing w with
  | nil => exact ⟨w, .refl, h⟩
  | cons await first ih =>
    obtain ⟨middle, hfirst, hsecond⟩ := ih h.2
    exact ⟨middle, ⟨h.1, hfirst⟩, hsecond⟩

theorem keeps_of_steps {between : W → W → Prop} {I : W → Prop}
    (hbetween : ∀ w w', I w → between w w' → I w') {w w' : W}
    (h : Relation.ReflTransGen between w w') (hI : I w) : I w' := by
  induction h with
  | refl => exact hI
  | tail _ hstep ih => exact hbetween _ _ ih hstep

/-- What the awaits and the rest of the system keep is kept along a trail. -/
theorem Trail.keeps {between : W → W → Prop} {I : W → Prop} {trace : List (Await Op Ans E W)}
    {w w' : W} (h : Trail between w trace w') (hbetween : ∀ w w', I w → between w w' → I w')
    (hawaits : ∀ await ∈ trace, I await.before → I await.after) (hI : I w) : I w' := by
  induction trace generalizing w with
  | nil => exact keeps_of_steps hbetween h hI
  | cons await trace ih =>
    have hbefore : I await.before := keeps_of_steps hbetween h.1 hI
    apply ih h.2 fun a ha => hawaits a (List.mem_cons_of_mem _ ha)
    exact hawaits await List.mem_cons_self hbefore

end

end QuakeJs.Async
