import Mathlib.Logic.Relation

/-! Containment graphs that grow one node at a time. -/

namespace Mam.Library

universe u

variable {α : Type u} {part grown : α → α → Prop} {a : α}

/-- A containment stays well founded when a node that nothing contains is given
parts other than itself. -/
theorem wellFounded_extend (wellFounded : WellFounded part) (top : ∀ y, ¬ part a y)
    (edges : ∀ x y, grown x y → part x y ∨ y = a ∧ x ≠ a) : WellFounded grown := by
  have below (y : α) : y ≠ a → Acc grown y := by
    induction y using wellFounded.induction with
    | _ y ih =>
      intro other
      refine ⟨y, fun x smaller => ?_⟩
      rcases edges x y smaller with old | ⟨here, _⟩
      · refine ih x old ?_
        rintro rfl
        exact top y old
      · exact absurd here other
  have whole : Acc grown a := by
    refine ⟨a, fun x smaller => below x ?_⟩
    rcases edges x a smaller with old | ⟨_, other⟩
    · rintro rfl
      exact top x old
    · exact other
  refine ⟨fun y => ?_⟩
  by_cases same : y = a
  · rw [same]
    exact whole
  · exact below y same

end Mam.Library
