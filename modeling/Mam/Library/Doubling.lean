import Mam.Library.Arena
import Mathlib.Algebra.BigOperators.Group.List.Basic
import Mathlib.Algebra.GroupWithZero.Nat
import Mathlib.Order.Interval.Finset.Nat

/-! Sizes each of which covers all before it, and the room that disjoint spans take. -/

namespace Mam.Library

/-- Every size is at least `unit`, and at least all earlier sizes together. -/
inductive Doubling (unit : Nat) : List Nat → Prop where
  | nil : Doubling unit []
  | snoc {sizes : List Nat} {size : Nat} (before : Doubling unit sizes) (least : unit ≤ size)
      (covers : sizes.sum ≤ size) : Doubling unit (sizes ++ [size])

namespace Doubling

variable {unit : Nat} {sizes : List Nat}

/-- Each size doubles the sum, the first apart. -/
theorem le_sum (doubling : Doubling unit sizes) (nonempty : sizes ≠ []) :
    unit * 2 ^ (sizes.length - 1) ≤ sizes.sum := by
  induction doubling with
  | nil => exact absurd rfl nonempty
  | @snoc sizes size before least covers ih =>
    rw [List.sum_append, List.sum_singleton, List.length_append, List.length_singleton,
      Nat.add_sub_cancel]
    by_cases empty : sizes = []
    · subst empty
      simpa using least
    · have earlier := ih empty
      obtain ⟨count, length⟩ := Nat.exists_eq_succ_of_ne_zero
        (fun zero => empty (List.eq_nil_of_length_eq_zero zero))
      rw [length, Nat.succ_sub_one] at earlier
      calc unit * 2 ^ sizes.length
          = unit * 2 ^ count + unit * 2 ^ count := by rw [length, Nat.pow_succ, Nat.mul_two, Nat.mul_add]
        _ ≤ sizes.sum + size := Nat.add_le_add earlier (Nat.le_trans earlier covers)

/-- A bound on the sum bounds the number of sizes. -/
theorem length_le (doubling : Doubling unit sizes) {doublings : Nat}
    (bound : sizes.sum < unit * 2 ^ doublings) : sizes.length ≤ doublings := by
  by_contra more
  have nonempty : sizes ≠ [] := by
    rintro rfl
    exact more (Nat.zero_le _)
  have grown := doubling.le_sum nonempty
  have steps : doublings ≤ sizes.length - 1 := by omega
  have powers : unit * 2 ^ doublings ≤ unit * 2 ^ (sizes.length - 1) :=
    Nat.mul_le_mul_left unit (Nat.pow_le_pow_right (by decide) steps)
  omega

end Doubling

/-- The numbers that pairwise disjoint spans cover. -/
private theorem exists_cover {spans : List (Nat × Nat)}
    (apart : spans.Pairwise fun s t => Disjoint (span s.1 s.2) (span t.1 t.2)) :
    ∃ covered : Finset Nat, covered.card = (spans.map (·.2)).sum ∧
      ∀ x ∈ covered, ∃ s ∈ spans, x ∈ span s.1 s.2 := by
  induction apart with
  | nil => exact ⟨∅, rfl, fun _ member => absurd member (Finset.notMem_empty _)⟩
  | @cons s spans first apart ih =>
    obtain ⟨covered, card, within⟩ := ih
    have fresh : Disjoint (Finset.Ico s.1 (s.1 + s.2)) covered := by
      rw [Finset.disjoint_left]
      intro x here there
      obtain ⟨t, member, inside⟩ := within x there
      exact Set.disjoint_left.mp (first t member) (Finset.mem_Ico.mp here) inside
    refine ⟨Finset.Ico s.1 (s.1 + s.2) ∪ covered, ?_, ?_⟩
    · rw [Finset.card_union_of_disjoint fresh, Nat.card_Ico, card, Nat.add_sub_cancel_left]
      rfl
    · intro x member
      rcases Finset.mem_union.mp member with here | there
      · exact ⟨s, List.mem_cons_self, Finset.mem_Ico.mp here⟩
      · obtain ⟨t, later, inside⟩ := within x there
        exact ⟨t, List.mem_cons_of_mem _ later, inside⟩

/-- Disjoint spans are together no larger than the interval they lie in. -/
theorem sum_le_of_disjoint {spans : List (Nat × Nat)} {low high : Nat}
    (apart : spans.Pairwise fun s t => Disjoint (span s.1 s.2) (span t.1 t.2))
    (inside : ∀ s ∈ spans, low ≤ s.1 ∧ s.1 + s.2 ≤ high) : (spans.map (·.2)).sum ≤ high - low := by
  obtain ⟨covered, card, within⟩ := exists_cover apart
  have contained : covered ⊆ Finset.Ico low high := by
    intro x member
    obtain ⟨s, listed, above, below⟩ := within x member
    obtain ⟨left, right⟩ := inside s listed
    exact Finset.mem_Ico.mpr ⟨Nat.le_trans left above, Nat.lt_of_lt_of_le below right⟩
  rw [← card, ← Nat.card_Ico]
  exact Finset.card_le_card contained

end Mam.Library
