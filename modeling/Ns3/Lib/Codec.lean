/-
  Readers, and what they make of bytes that were written for them.

  A reader takes a value off the front of a byte string and returns the rest.  What it makes of
  the bytes of a value is stated whatever follows them, so that it composes; the value that is
  read need not be the one that was written, and there may be none.
-/
import Mathlib.Data.Nat.Notation
import Mathlib.Data.List.Basic

namespace Ns3.Lib

/-- A reader takes a value off the front of a byte string. -/
abbrev Reader (ε α : Type) : Type := List UInt8 → Except ε (α × List UInt8)

variable {ε α β γ : Type}

/-- The reading ended with the value, if there is one, and with `rest` left over. -/
def Outcome (result : Except ε (α × List UInt8)) (rest : List UInt8) : Option α → Prop
  | some a => result = .ok (a, rest)
  | none => ∃ e, result = .error e

/-- The reader makes `o` of the bytes, whatever follows them. -/
def ReadsAs (read : Reader ε α) (bytes : List UInt8) (o : Option α) : Prop :=
  ∀ rest, Outcome (read (bytes ++ rest)) rest o

variable {x : Except ε (α × List UInt8)}

theorem Outcome.bind {f : α × List UInt8 → Except ε (β × List UInt8)} {r₁ r₂ : List UInt8}
    {o₁ : Option α} {o₂ : α → Option β} (hx : Outcome x r₁ o₁)
    (hf : ∀ a, o₁ = some a → Outcome (f (a, r₁)) r₂ (o₂ a)) :
    Outcome (x >>= f) r₂ (o₁.bind o₂) := by
  cases o₁ with
  | none =>
    obtain ⟨e, he⟩ := hx
    exact ⟨e, by rw [he]; rfl⟩
  | some a =>
    have hok : x = .ok (a, r₁) := hx
    rw [hok]
    exact hf a rfl

theorem Outcome.map {r : List UInt8} {o : Option α} {g : α → β} (hx : Outcome x r o) :
    Outcome (x >>= fun read => pure (g read.1, read.2)) r (o.map g) := by
  rw [Option.map_eq_bind]
  exact hx.bind fun a _ => rfl

/-! ## Parts that may be absent -/

def readIf (present : Bool) (read : Reader ε α) : Reader ε (Option α) := fun start =>
  if present then do
    let (a, start) ← read start
    pure (some a, start)
  else pure (none, start)

/-- The bytes of a part that may be absent. -/
def writeOption (write : α → List UInt8) : Option α → List UInt8
  | none => []
  | some a => write a

variable {write : α → List UInt8}

theorem readIf_write {read : Reader ε α} {present : Bool} {o : Option α}
    (hread : ∀ a, o = some a → ReadsAs read (write a) (some a)) (h : present = o.isSome)
    (rest : List UInt8) : readIf present read (writeOption write o ++ rest) = .ok (o, rest) := by
  subst h
  cases o with
  | none => rfl
  | some a =>
    have ha : read (write a ++ rest) = .ok (a, rest) := hread a rfl rest
    rw [readIf, writeOption, ha]
    rfl

/-! ## Items one after the other -/

/-- Reads items while the condition holds of what is left.  `fuel` bounds the rounds. -/
def readWhile (read : Reader ε α) (stuck : ε) (more : List UInt8 → Bool) : ℕ → Reader ε (List α)
  | 0, start => if more start then .error stuck else .ok ([], start)
  | fuel + 1, start =>
    if more start then do
      let (a, start) ← read start
      let (as, start) ← readWhile read stuck more fuel start
      pure (a :: as, start)
    else .ok ([], start)

theorem readWhile_write {read : Reader ε β} {view : α → Option β} {stuck : ε}
    {more : List UInt8 → Bool} {rest : List UInt8} (as : List α) {fuel : ℕ}
    (hfuel : as.length ≤ fuel) (hread : ∀ a ∈ as, ReadsAs read (write a) (view a))
    (hmore : ∀ post, post <:+ as → more (post.flatMap write ++ rest) = !post.isEmpty) :
    Outcome (readWhile read stuck more fuel (as.flatMap write ++ rest)) rest (as.mapM view) := by
  induction as generalizing fuel with
  | nil =>
    have hstop : more rest = false := hmore [] (List.suffix_refl [])
    cases fuel with
    | zero =>
      show (if more rest then _ else _) = _
      rw [hstop]
      rfl
    | succ fuel =>
      show (if more rest then _ else _) = _
      rw [hstop]
      rfl
  | cons a as ih =>
    obtain ⟨fuel, rfl⟩ := Nat.exists_eq_add_one_of_ne_zero (Nat.ne_zero_of_lt hfuel)
    have hgo : more ((a :: as).flatMap write ++ rest) = true := hmore _ (List.suffix_refl _)
    have hfirst := hread a (.head _) (as.flatMap write ++ rest)
    have hothers := ih (Nat.le_of_succ_le_succ hfuel)
      (fun b hb => hread b (.tail _ hb))
      (fun post hpost => hmore post (hpost.trans (List.suffix_cons a as)))
    rw [readWhile, hgo, if_pos rfl, List.flatMap_cons, List.append_assoc, List.mapM_cons]
    refine hfirst.bind fun b hb => ?_
    exact hothers.bind fun bs hbs => rfl

theorem mapM_eq_self {view : α → Option α} (as : List α) :
    as.mapM view = some as ↔ ∀ a ∈ as, view a = some a := by
  induction as with
  | nil => exact iff_of_true rfl nofun
  | cons a as ih =>
    rw [List.mapM_cons, List.forall_mem_cons, ← ih]
    cases hview : view a with
    | none => simp
    | some b =>
      cases hviews : as.mapM view with
      | none => simp
      | some bs => simp

theorem mapM_some (g : α → β) (as : List α) :
    as.mapM (fun a => some (g a)) = some (as.map g) := by
  induction as with
  | nil => rfl
  | cons a as ih =>
    rw [List.mapM_cons, ih]
    rfl

end Ns3.Lib
