/-
  Decoders that say what they have not read, also when they give up.

  A decoder takes bytes from the front of a string.  How far it has read is known whether it
  returns or not, so that "it never reads past here" can be said of malformed input too.
-/
import Mathlib.Data.Nat.Notation
import Mathlib.Data.List.Basic

namespace Ns3.Lib

/-- What a decoder makes of a byte string: what it returns, or why it gives up, and the bytes it
has not read. -/
def Decoder (ε α : Type) : Type := List UInt8 → Except ε α × List UInt8

namespace Decoder

variable {ε α β : Type} {x : Decoder ε α} {f : α → Decoder ε β} {s rest : List UInt8} {a : α}
  {e : ε} {k c : ℕ}

instance : Monad (Decoder ε) where
  pure a := fun s => (.ok a, s)
  bind x f := fun s =>
    match x s with
    | (.ok a, rest) => f a rest
    | (.error e, rest) => (.error e, rest)

def fail (e : ε) : Decoder ε α := fun s => (.error e, s)

/-- Goes on if the condition holds. -/
def check (condition : Bool) (e : ε) : Decoder ε Unit :=
  if condition then pure () else fail e

/-- `n` times the same. -/
def replicate : ℕ → Decoder ε α → Decoder ε (List α)
  | 0, _ => pure []
  | n + 1, x => do
      let a ← x
      let as ← replicate n x
      pure (a :: as)

theorem bind_ok (h : x s = (.ok a, rest)) : (x >>= f) s = f a rest := by
  show (match x s with
    | (.ok a, rest) => f a rest
    | (.error e, rest) => (.error e, rest)) = _
  rw [h]

theorem bind_error (h : x s = (.error e, rest)) : (x >>= f) s = (.error e, rest) := by
  show (match x s with
    | (.ok a, rest) => f a rest
    | (.error e, rest) => (.error e, rest)) = _
  rw [h]

variable {condition : Bool} {g : Unit → Decoder ε β}

/-- The decoder does not give bytes back. -/
def Forward (x : Decoder ε α) : Prop := ∀ s, (x s).2.length ≤ s.length

theorem Forward.pure (a : α) : Forward (Pure.pure a : Decoder ε α) := fun _ => Nat.le_refl _

theorem Forward.fail (e : ε) : Forward (fail e : Decoder ε α) := fun _ => Nat.le_refl _

theorem Forward.bind (hx : Forward x) (hf : ∀ a, Forward (f a)) : Forward (x >>= f) := by
  intro s
  have hfirst := hx s
  cases hrun : x s with
  | mk result rest =>
    rw [hrun] at hfirst
    cases result with
    | ok a =>
      rw [bind_ok hrun]
      exact Nat.le_trans (hf a rest) hfirst
    | error e =>
      rw [bind_error hrun]
      exact hfirst

theorem Forward.check (condition : Bool) (e : ε) : Forward (check condition e) := by
  cases condition with
  | true => exact Forward.pure ()
  | false => exact Forward.fail e

theorem Forward.replicate (hx : Forward x) (n : ℕ) : Forward (replicate n x) := by
  induction n with
  | zero => exact .pure []
  | succ n ih => exact hx.bind fun a => ih.bind fun as => .pure (a :: as)

/-! ## Items of a fixed width -/

end Decoder

end Ns3.Lib
