import Mathlib.Logic.Basic
import Mathlib.Tactic.SplitIfs

/-!
# Fallible computations

A transaction either commits with a result or raises, and a raise rolls it
back.  `Except` is that choice.  This module holds the two guards that the
transactions are written with, and the inversion lemmas that take a
committed transaction apart without unfolding `bind`.  `Avoids` says which
error is not raised, and `Ends` is the rule of two postconditions, for code
whose errors carry a state.
-/

namespace QuakeJs

variable {ε α β : Type}

/-- Raise `e` unless `p`. -/
def require (p : Prop) [Decidable p] (e : ε) : Except ε Unit :=
  if p then .ok () else .error e

/-- Raise `e` when there is no value. -/
def orRaise (o : Option α) (e : ε) : Except ε α :=
  match o with
  | some a => .ok a
  | none => .error e

/-- A sequence commits exactly when both of its parts commit. -/
theorem bind_ok_iff (x : Except ε α) (f : α → Except ε β) (b : β) :
    x >>= f = .ok b ↔ ∃ a, x = .ok a ∧ f a = .ok b := by
  rcases x with e | a <;> simp [bind, Except.bind]

theorem require_ok_iff (p : Prop) [Decidable p] (e : ε) (u : Unit) :
    require p e = .ok u ↔ p := by
  by_cases hp : p <;> simp [require, hp]

theorem orRaise_ok_iff (o : Option α) (e : ε) (a : α) : orRaise o e = .ok a ↔ o = some a := by
  rcases o with _ | a' <;> simp [orRaise]

theorem pure_ok_iff (a b : α) : (pure a : Except ε α) = .ok b ↔ a = b := by
  rw [show (pure a : Except ε α) = .ok a from rfl, Except.ok.injEq]

theorem of_toOption {x : Except ε α} {a : α} (h : x.toOption = some a) : x = .ok a := by
  cases x with
  | error e => cases h
  | ok b => rw [Option.some.inj h]

/-! ## Errors that are not raised -/

/-- The computation does not raise `e`. -/
def Avoids (e : ε) (x : Except ε α) : Prop := x ≠ .error e

namespace Avoids

variable {e e' : ε}

theorem pure (a : α) : Avoids e (pure a : Except ε α) := nofun

/-- A sequence avoids what its parts avoid, and the second part may rely on
the result of the first. -/
theorem bind {x : Except ε α} {f : α → Except ε β} (hx : Avoids e x)
    (hf : ∀ a, x = .ok a → Avoids e (f a)) : Avoids e (x >>= f) := by
  rcases x with e' | a
  · intro h
    exact hx (by simpa [Bind.bind, Except.bind] using h)
  · exact hf a rfl

/-- A guard avoids its own error when it holds. -/
theorem require {p : Prop} [Decidable p] (h : e' = e → p) : Avoids e (require p e') := by
  unfold QuakeJs.require
  split_ifs with hp
  · exact nofun
  · intro heq
    exact hp (h (Except.error.inj heq))

/-- A guard with another error avoids this one. -/
theorem require_of_ne {p : Prop} [Decidable p] (h : e' ≠ e) : Avoids e (QuakeJs.require p e') :=
  require fun heq => absurd heq h

theorem orRaise {o : Option α} (h : e' ≠ e) : Avoids e (orRaise o e') := by
  cases o with
  | none => exact fun heq => h (Except.error.inj heq)
  | some a => exact nofun

end Avoids

/-! ## Two postconditions -/

/-- A result satisfies `P`, and an error satisfies `Q`. -/
def Ends (P : α → Prop) (Q : ε → Prop) (x : Except ε α) : Prop :=
  match x with
  | .ok a => P a
  | .error e => Q e

namespace Ends

variable {P P' : α → Prop} {Q : ε → Prop} {R : β → Prop}

theorem mono {x : Except ε α} (hx : Ends P Q x) (h : ∀ a, P a → P' a) : Ends P' Q x := by
  cases x with
  | error e => exact hx
  | ok a => exact h a hx

theorem both {Q' : ε → Prop} {x : Except ε α} (hx : Ends P Q x) (h : ∀ a, P a → P' a)
    (h' : ∀ e, Q e → Q' e) : Ends P' Q' x := by
  cases x with
  | error e => exact h' e hx
  | ok a => exact h a hx

/-- The second part of a sequence starts from what the first one ends with. -/
theorem bind {x : Except ε α} {f : α → Except ε β} (hx : Ends P Q x)
    (hf : ∀ a, P a → Ends R Q (f a)) : Ends R Q (x >>= f) := by
  cases x with
  | error e => exact hx
  | ok a => exact hf a hx

/-- A loop keeps the invariant that one turn keeps. -/
theorem foldlM {f : α → β → Except ε α} (h : ∀ a b, P a → Ends P Q (f a b)) (l : List β) (a : α)
    (ha : P a) : Ends P Q (l.foldlM f a) := by
  induction l generalizing a with
  | nil => exact ha
  | cons b l ih =>
    rw [List.foldlM_cons]
    exact (h a b ha).bind ih

end Ends

end QuakeJs
