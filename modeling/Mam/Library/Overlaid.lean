import Mam.Library.Sequential

/-! Parts laid over each other, in one place that is large enough for each. -/

namespace Mam.Library.Overlaid

open Mam.Library.Sequential

/-- The size of the largest part. -/
def widest (parts : List Part) : Nat := parts.foldl (fun least part => max least part.size) 0

/-- The size of the largest part, padded for the alignment of the whole. -/
def total (parts : List Part) : Nat := roundUp (widest parts) (alignment parts)

theorem widest_snoc (parts : List Part) (part : Part) :
    widest (parts ++ [part]) = max (widest parts) part.size := by
  simp [widest]

section Steps

variable {parts : List Part} {part : Part}

/-- The alignment of the parts so far divides the alignment of more parts. -/
theorem alignment_dvd_snoc (powers : ∀ other ∈ parts ++ [part], other.align.isPowerOfTwo) :
    alignment parts ∣ alignment (parts ++ [part]) := by
  have earlier := alignment_power fun other member =>
    powers other (List.mem_append_left [part] member)
  refine power_dvd_of_le earlier (alignment_power powers) ?_
  rw [alignment_snoc]
  exact Nat.le_max_left _ _

/-- One more part never makes the whole smaller. -/
theorem total_le_snoc (powers : ∀ other ∈ parts ++ [part], other.align.isPowerOfTwo) :
    total parts ≤ total (parts ++ [part]) := by
  have earlier := alignment_power fun other member =>
    powers other (List.mem_append_left [part] member)
  have positive := Nat.pos_of_isPowerOfTwo (alignment_power powers)
  refine roundUp_le (Nat.pos_of_isPowerOfTwo earlier) (Nat.le_trans ?_ (le_roundUp _ _)) ?_
  · rw [widest_snoc]
    exact Nat.le_max_left _ _
  · exact Nat.dvd_trans (alignment_dvd_snoc powers) (dvd_roundUp _ positive)

/-- It makes no difference that the total so far was padded for the smaller alignment of the
parts so far: what was padded is padded again. -/
theorem total_snoc (powers : ∀ other ∈ parts ++ [part], other.align.isPowerOfTwo) :
    total (parts ++ [part]) = roundUp (max (total parts) part.size) (alignment (parts ++ [part])) := by
  have positive := Nat.pos_of_isPowerOfTwo (alignment_power powers)
  have padded : alignment (parts ++ [part]) ∣ total (parts ++ [part]) := dvd_roundUp _ positive
  apply Nat.le_antisymm
  · refine roundUp_le positive (Nat.le_trans ?_ (le_roundUp _ _)) (dvd_roundUp _ positive)
    rw [widest_snoc]
    exact Nat.max_le.mpr ⟨Nat.le_trans (le_roundUp _ _) (Nat.le_max_left _ _), Nat.le_max_right _ _⟩
  · refine roundUp_le positive (Nat.max_le.mpr ⟨total_le_snoc powers, ?_⟩) padded
    refine Nat.le_trans ?_ (le_roundUp _ _)
    rw [widest_snoc]
    exact Nat.le_max_right _ _

end Steps

section Order

variable {parts others : List Part}

theorem widest_perm (same : parts.Perm others) : widest parts = widest others := by
  refine same.foldl_eq' ?_ 0
  intro first _ second _ least
  exact Nat.max_right_comm _ _ _

theorem alignment_perm (same : parts.Perm others) : alignment parts = alignment others := by
  refine same.foldl_eq' ?_ 1
  intro first _ second _ least
  exact Nat.max_right_comm _ _ _

/-- The order of the parts makes no difference. -/
theorem total_perm (same : parts.Perm others) : total parts = total others := by
  rw [total, widest_perm same, alignment_perm same, total]

end Order

end Mam.Library.Overlaid
