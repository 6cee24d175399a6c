import Mam.MirroredAllocators.Model

/-! The loop that chooses the size of a new buffer. -/

namespace Mam.MirroredAllocators

open Mam.Library

/-- `size` is reached from `start` by `doublings` doublings, and by no fewer. -/
structure GrownBy (start size doublings : Nat) : Prop where
  reached : size ≤ start * 2 ^ doublings
  least : ∀ fewer < doublings, start * 2 ^ fewer < size

theorem GrownBy.unique {start size first second : Nat} (one : GrownBy start size first)
    (two : GrownBy start size second) : first = second := by
  rcases Nat.lt_trichotomy first second with below | same | above
  · have short := two.least first below
    have reached := one.reached
    omega
  · exact same
  · have short := one.least second above
    have reached := two.reached
    omega

theorem toNat_shifted (sz : SizeT) : (shifted sz).toNat = sz.toNat * 2 % 2 ^ 64 := by
  simp [shifted, BitVec.toNat_shiftLeft, Nat.shiftLeft_eq]

/-- Bits that are shifted out are lost. -/
theorem toNat_iterate_shifted (start : SizeT) (steps : Nat) :
    (shifted^[steps] start).toNat = start.toNat * 2 ^ steps % 2 ^ 64 := by
  induction steps with
  | zero =>
    rw [Function.iterate_zero_apply, Nat.pow_zero, Nat.mul_one, Nat.mod_eq_of_lt start.isLt]
  | succ steps ih =>
    have doubled : start.toNat * 2 ^ (steps + 1) = start.toNat * 2 ^ steps * 2 := by
      rw [Nat.pow_succ, Nat.mul_assoc]
    rw [Function.iterate_succ_apply', toNat_shifted, ih, Nat.mod_mul_mod, doubled]

/-- Shifting left doubles as long as nothing is shifted out. -/
private theorem toNat_iterate_shift {start size : SizeT} (small : size.toNat ≤ 2 ^ 63) {steps : Nat}
    (before : ∀ earlier < steps, shifted^[earlier] start < size) :
    (shifted^[steps] start).toNat = start.toNat * 2 ^ steps := by
  induction steps with
  | zero => simp
  | succ steps ih =>
    have previous := ih (fun earlier below => before earlier (by omega))
    have below : (shifted^[steps] start).toNat < size.toNat := before steps (by omega)
    rw [previous] at below
    have doubled : start.toNat * 2 ^ (steps + 1) = start.toNat * 2 ^ steps * 2 := by
      rw [Nat.pow_succ, Nat.mul_assoc]
    rw [toNat_iterate_shifted, Nat.mod_eq_of_lt (by omega)]

/-- Whatever the request, a loop that ends leaves a size that covers it. -/
theorem le_of_growLoop {start size grown : SizeT} (ended : growLoop start size = some grown) :
    size.toNat ≤ grown.toNat := by
  obtain ⟨_, stopped⟩ := whileLoop_invariant (fun _ => True) trivial
    (fun _ _ _ => trivial) ended
  exact BitVec.not_lt.mp (by simpa using stopped)

/-- Up to `2 ^ 63` the size asked for is the starting size doubled the least number
of times that covers the request. -/
theorem buffAllocSize_spec {totalSize size asked : SizeT} (small : size.toNat ≤ 2 ^ 63)
    (grown : buffAllocSize totalSize size = some asked) :
    ∃ doublings, GrownBy (startSize totalSize).toNat size.toNat doublings ∧
      asked.toNat = (startSize totalSize).toNat * 2 ^ doublings := by
  obtain ⟨steps, _, before, stops, same⟩ := whileLoop_eq_some_iff.mp grown
  have below : ∀ earlier < steps, shifted^[earlier] (startSize totalSize) < size := by
    intro earlier less
    simpa using before earlier less
  have value := toNat_iterate_shift small below
  refine ⟨steps, ⟨?_, ?_⟩, ?_⟩
  · rw [← value, same]
    exact le_of_growLoop grown
  · intro fewer less
    rw [← toNat_iterate_shift small fun earlier under => below earlier (by omega)]
    exact below fewer less
  · rw [← same, value]

/-- After 64 shifts no bit is left, so that the fuel of the growth loop loses no
result. -/
theorem growLoop_complete {fuel : Nat} {start size asked : SizeT}
    (ended : whileLoop (fun sz => sz < size) shifted fuel start = some asked) :
    growLoop start size = some asked := by
  have emptied (steps : Nat) : shifted^[64 + steps] start = 0 := by
    apply BitVec.eq_of_toNat_eq
    rw [toNat_iterate_shifted, Nat.pow_add, ← Nat.mul_assoc, Nat.mul_right_comm, Nat.mul_mod_left]
    rfl
  have periodic : shifted^[64 + 1] start = shifted^[64] start := by rw [emptied 1, emptied 0]
  exact whileLoop_of_periodic Nat.one_pos periodic ended

/-- The growth loop ends exactly when one of the left shifts of its start reaches
the request. -/
theorem growLoop_ends_iff {start size : SizeT} :
    (∃ asked, growLoop start size = some asked) ↔
      ∃ shifts < 65, size.toNat ≤ start.toNat * 2 ^ shifts % 2 ^ 64 := by
  have reaches (shifts : Nat) : decide (shifted^[shifts] start < size) = false ↔
      size.toNat ≤ start.toNat * 2 ^ shifts % 2 ^ 64 := by
    rw [decide_eq_false_iff_not, BitVec.not_lt, BitVec.le_def, toNat_iterate_shifted]
  simp only [growLoop, whileLoop_stops_iff, reaches]
  rfl

/-- A start that is not zero reaches `2 ^ 63` when its top bit arrives there. -/
theorem shifts_to_top {start : Nat} (positive : 0 < start) (word : start < 2 ^ 64) :
    ∃ shifts < 64, 2 ^ 63 ≤ start * 2 ^ shifts % 2 ^ 64 := by
  have top : start.log2 < 64 := (Nat.log2_lt (by omega)).mpr word
  have least := Nat.log2_self_le (Nat.ne_of_gt positive)
  have most : start < 2 ^ (start.log2 + 1) := Nat.lt_log2_self
  refine ⟨63 - start.log2, by omega, ?_⟩
  have lower : 2 ^ start.log2 * 2 ^ (63 - start.log2) = 2 ^ 63 := by
    rw [← Nat.pow_add]
    congr 1
    omega
  have upper : 2 ^ (start.log2 + 1) * 2 ^ (63 - start.log2) = 2 ^ 64 := by
    rw [← Nat.pow_add]
    congr 1
    omega
  have above := Nat.mul_le_mul_right (2 ^ (63 - start.log2)) least
  have below := Nat.mul_lt_mul_of_pos_right most (Nat.two_pow_pos (63 - start.log2))
  rw [Nat.mod_eq_of_lt (by omega)]
  omega

theorem startSize_pos (totalSize : SizeT) : 0 < (startSize totalSize).toNat := by
  unfold startSize
  split
  · decide
  · rename_i nonzero
    exact Nat.pos_of_ne_zero fun zero => nonzero (BitVec.eq_of_toNat_eq zero)

end Mam.MirroredAllocators
