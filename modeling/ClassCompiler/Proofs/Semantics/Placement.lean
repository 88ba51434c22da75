import Mathlib.Data.List.Infix

/-!
# Parts of code and their places

Code is a list, and a part of it is known by the place at which it starts. A part
that consists of two parts places both of them.
-/

namespace ClassCompiler.Semantics

variable {α : Type}

/-- A part of code starts at a place. -/
def PlacedAt (part : List α) (place : Nat) (body : List α) : Prop := part <+: body.drop place

namespace PlacedAt

variable {body first second : List α} {place : Nat} {item : α}

theorem whole (body : List α) : PlacedAt body 0 body := List.prefix_rfl

theorem cast {other : Nat} (placed : PlacedAt first place body) (placeEq : place = other) :
    PlacedAt first other body :=
  placeEq ▸ placed

theorem left (placed : PlacedAt (first ++ second) place body) : PlacedAt first place body :=
  (List.prefix_append first second).trans placed

theorem right (placed : PlacedAt (first ++ second) place body) :
    PlacedAt second (place + first.length) body := by
  rcases placed with ⟨rest, bodyEq⟩
  refine ⟨rest, ?_⟩
  rw [← List.drop_drop, ← bodyEq, List.append_assoc, List.drop_left]

theorem head (placed : PlacedAt (item :: second) place body) : body[place]? = some item := by
  rcases placed with ⟨rest, bodyEq⟩
  have first := congrArg (fun items => items[0]?) bodyEq
  simpa using first.symm

theorem tail (placed : PlacedAt (item :: second) place body) :
    PlacedAt second (place + 1) body :=
  @right _ body [item] second place placed

end PlacedAt

end ClassCompiler.Semantics
