import Mathlib.Data.List.Nodup
import Mathlib.Data.List.Perm.Basic

/-! Blocks listed owner by owner: what becomes of all of them when one owner takes a block or
leaves. -/

namespace Mam.Library

variable {α β : Type} {own before after : α → List β} {owners : List α} {k : α}

/-- Owners who each hold themselves, and who share no block, are listed once. -/
theorem nodup_of_flatMap {own : α → List α} (itself : ∀ k ∈ owners, k ∈ own k)
    (once : (owners.flatMap own).Nodup) : owners.Nodup := by
  induction owners with
  | nil => exact List.nodup_nil
  | cons k rest ih =>
    rw [List.flatMap_cons] at once
    obtain ⟨_, later, apart⟩ := List.nodup_append.mp once
    refine List.nodup_cons.mpr ⟨fun again => ?_, ih (fun other listed => ?_) later⟩
    · have here := itself k List.mem_cons_self
      exact apart k here k (List.mem_flatMap.mpr ⟨k, again, here⟩) rfl
    · exact itself other (List.mem_cons_of_mem k listed)

variable [DecidableEq α]

/-- The blocks of one owner, before those of the others. -/
theorem flatMap_perm_erase (member : k ∈ owners) :
    (owners.flatMap own).Perm (own k ++ (owners.erase k).flatMap own) :=
  (List.perm_cons_erase member).flatMap_right own

/-- Where one owner comes to hold one block more, and the others what they held, so do all
together. -/
theorem flatMap_perm_of_grown (once : owners.Nodup) (member : k ∈ owners) {b : β}
    (grown : (after k).Perm (b :: before k))
    (others : ∀ other ∈ owners, other ≠ k → after other = before other) :
    (owners.flatMap after).Perm (b :: owners.flatMap before) := by
  have same : (owners.erase k).flatMap after = (owners.erase k).flatMap before := by
    refine List.flatMap_congr fun other rest => ?_
    obtain ⟨apart, listed⟩ := once.mem_erase_iff.mp rest
    exact others other listed apart
  calc (owners.flatMap after).Perm (after k ++ (owners.erase k).flatMap after) :=
        flatMap_perm_erase member
    _ |>.Perm (b :: (before k ++ (owners.erase k).flatMap before)) := by
        rw [same]
        exact grown.append_right _
    _ |>.Perm (b :: owners.flatMap before) := (flatMap_perm_erase member).symm.cons b

/-- What one owner holds, no other does. -/
theorem not_mem_of_flatMap (once : (owners.flatMap own).Nodup) (member : k ∈ owners) {other : α}
    (listed : other ∈ owners) (different : other ≠ k) {b : β} (holds : b ∈ own k) :
    b ∉ own other := by
  intro shares
  have split := (flatMap_perm_erase member).nodup_iff.mp once
  refine (List.nodup_append.mp split).2.2 b holds b ?_ rfl
  exact List.mem_flatMap.mpr ⟨other, (List.mem_erase_of_ne different).mpr listed, shares⟩

end Mam.Library
