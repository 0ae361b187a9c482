/-
  How a C++ call can fail to return.

  A modelled call either returns or stops the program.  `Except Fault` keeps the
  two apart: a run "in which no assertion aborts" is a run of calls that return
  `ok`.
-/
import Mathlib.Algebra.Order.Ring.Int

namespace Ns3

/-- Why a call does not return. -/
inductive Fault where
  /-- `NS_ASSERT` or `NS_ASSERT_MSG` failed -/
  | assertFailed
  /-- `NS_ABORT_MSG_IF` or `NS_ABORT_MSG_UNLESS` fired -/
  | aborted
  /-- `NS_FATAL_ERROR` was reached -/
  | fatalError
  | nullDereference
  /-- `end()`, or an iterator to an erased element, was dereferenced -/
  | badIterator
  | divideByZero
  /-- a loop went round without changing anything it depends on -/
  | noProgress
  deriving DecidableEq, Repr, Inhabited

abbrev Time : Type := Int

def Time.max : Time := 2 ^ 63 - 1

def nsAssert (condition : Bool) : Except Fault Unit :=
  if condition then .ok () else .error .assertFailed

theorem nsAssert_eq_ok {condition : Bool} {u : Unit} :
    nsAssert condition = .ok u ↔ condition = true := by
  cases condition <;> simp [nsAssert]

variable {α : Type}

variable {x : Except Fault α} {β : Type} {f : α → Except Fault β}

theorem bind_eq_ok {r : β} : (x >>= f) = .ok r ↔ ∃ a, x = .ok a ∧ f a = .ok r := by
  cases x with
  | error e => simp [bind, Except.bind]
  | ok a => simp [bind, Except.bind]

theorem pair_of_ok {ε : Type} {a c : α} {b d : β}
    (h : (Except.ok (a, b) : Except ε (α × β)) = .ok (c, d)) : a = c ∧ b = d :=
  Prod.mk.inj (Except.ok.inj h)

theorem nsAssert_of {p : Prop} [Decidable p] (h : p) : nsAssert (decide p) = .ok () := by
  rw [decide_eq_true h]
  rfl

theorem ok_bind (a : α) (f : α → Except Fault β) :
    ((Except.ok a : Except Fault α) >>= f) = f a := rfl

/-- The call does not run for ever. -/
def Ends {α : Type} (x : Except Fault α) : Prop := x ≠ .error .noProgress

theorem Ends.ok (a : α) : Ends (.ok a) := nofun

theorem Ends.bind (hx : Ends x) (hf : ∀ a, x = .ok a → Ends (f a)) : Ends (x >>= f) := by
  cases x with
  | error e =>
    intro h
    exact hx (congrArg Except.error (Except.error.inj h))
  | ok a => exact hf a rfl

theorem Ends.nsAssert (condition : Bool) : Ends (nsAssert condition) := by
  cases condition with
  | true => exact nofun
  | false => exact nofun

def Returns {α : Type} (x : Except Fault α) : Prop := ∃ a, x = .ok a

theorem Returns.ok (a : α) : Returns (.ok a) := ⟨a, rfl⟩

theorem not_returns_error (e : Fault) : ¬Returns (.error e : Except Fault α) := nofun

theorem returns_bind : Returns (x >>= f) ↔ ∃ a, x = .ok a ∧ Returns (f a) := by
  constructor
  · rintro ⟨r, hr⟩
    obtain ⟨a, hx, hf⟩ := bind_eq_ok.mp hr
    exact ⟨a, hx, r, hf⟩
  · rintro ⟨a, hx, r, hf⟩
    exact ⟨r, bind_eq_ok.mpr ⟨a, hx, hf⟩⟩

theorem pure_eq_ok {a r : α} : (pure a : Except Fault α) = .ok r ↔ a = r := by
  simp [pure, Except.pure]

theorem bind_pure_eq_ok {f : α → β} {r : β} :
    (x >>= fun a => pure (f a)) = .ok r ↔ ∃ a, x = .ok a ∧ f a = r := by
  simp only [bind_eq_ok, pure_eq_ok]

theorem toOption_eq_some {r : α} : x.toOption = some r ↔ x = .ok r := by
  cases x <;> simp [Except.toOption]

end Ns3
