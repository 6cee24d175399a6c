import Mam.MirroredAllocators.Model
import Mam.Library.Alignment

/-! `_mam_find_in_buffer` in exact arithmetic. -/

namespace Mam.MirroredAllocators

open Mam.Library

/-- The bytes before the free tail: the offset the next search starts at. -/
def BuffDesc.used (b : BuffDesc) : Nat := b.size.toNat - b.free.toNat

/-- The bytes skipped so that the mirror address of a region becomes aligned. -/
def BuffDesc.pad (b : BuffDesc) (alignment : SizeT) : Nat :=
  padding (b.mAddr.toNat + b.used) (maskModulus alignment)

/-- `alignment & (alignment - 1)` is zero, as `mam_allocator_alloc_aligned` requires. -/
def Accepted (alignment : SizeT) : Prop := alignment &&& (alignment - 1#64) = 0#64

instance (alignment : SizeT) : Decidable (Accepted alignment) := inferInstanceAs (Decidable (_ = _))

theorem accepted_one : Accepted 1 := by decide

theorem accepted_of_isPowerOfTwo {alignment : SizeT} (power : alignment.toNat.isPowerOfTwo) :
    Accepted alignment :=
  (and_pred_eq_zero_iff alignment).mpr (.inr power)

/-- The word added to the offset and to the size. -/
private def padWord (b : BuffDesc) (alignment : SizeT) : SizeT :=
  gap (b.mAddr + (b.size - b.free)) alignment

private theorem findInBuffer_eq (b : BuffDesc) (size alignment : SizeT) :
    findInBuffer b size alignment =
      if size + padWord b alignment < b.free then
        { found := true
          buffer := { b with free := b.free - (size + padWord b alignment), count := b.count + 1 }
          stored := some (b.addr + (b.size - b.free + padWord b alignment),
            b.mAddr + (b.size - b.free + padWord b alignment)) }
      else { found := false, buffer := b, stored := none } := rfl

private theorem toNat_offset {b : BuffDesc} (bounded : b.free.toNat ≤ b.size.toNat) :
    (b.size - b.free).toNat = b.used :=
  BitVec.toNat_sub_of_le bounded

private theorem toNat_padWord {b : BuffDesc} {alignment : SizeT}
    (bounded : b.free.toNat ≤ b.size.toNat) (accepted : Accepted alignment) :
    (padWord b alignment).toNat = b.pad alignment := by
  rw [padWord, toNat_gap accepted, BitVec.toNat_add, toNat_offset bounded,
    padding_mod _ (maskModulus_dvd accepted)]
  rfl

private theorem toNat_padded {b : BuffDesc} {alignment : SizeT} (size : SizeT)
    (bounded : b.free.toNat ≤ b.size.toNat) (accepted : Accepted alignment) :
    (size + padWord b alignment).toNat = (size.toNat + b.pad alignment) % 2 ^ 64 := by
  rw [BitVec.toNat_add, toNat_padWord bounded accepted]

theorem BuffDesc.pad_lt (b : BuffDesc) (alignment : SizeT) : b.pad alignment < maskModulus alignment :=
  padding_lt _ (maskModulus_pos alignment)

/-- The test succeeds exactly when the padded size, reduced to 64 bits, is
strictly below the free bytes. -/
theorem found_iff {b : BuffDesc} {size alignment : SizeT}
    (bounded : b.free.toNat ≤ b.size.toNat) (accepted : Accepted alignment) :
    (findInBuffer b size alignment).found = true ↔
      (size.toNat + b.pad alignment) % 2 ^ 64 < b.free.toNat := by
  rw [← toNat_padded size bounded accepted, ← BitVec.lt_def, findInBuffer_eq]
  split <;> simp [*]

/-- What a successful search did: the free tail shrank by the padded size, the
count went up, and both addresses lie at the padded offset. -/
theorem found_spec {b : BuffDesc} {size alignment : SizeT}
    (bounded : b.free.toNat ≤ b.size.toNat) (accepted : Accepted alignment)
    (found : (findInBuffer b size alignment).found = true) :
    ∃ free : SizeT,
      findInBuffer b size alignment =
        { found := true
          buffer := { b with free := free, count := b.count + 1 }
          stored := some (b.addr + BitVec.ofNat 64 (b.used + b.pad alignment),
            b.mAddr + BitVec.ofNat 64 (b.used + b.pad alignment)) } ∧
      free.toNat + (size.toNat + b.pad alignment) % 2 ^ 64 = b.free.toNat := by
  have fits := (found_iff bounded accepted).mp found
  have sum := toNat_padded size bounded accepted
  have offset : b.size - b.free + padWord b alignment =
      BitVec.ofNat 64 (b.used + b.pad alignment) := by
    apply BitVec.eq_of_toNat_eq
    rw [BitVec.toNat_add, toNat_offset bounded, toNat_padWord bounded accepted, BitVec.toNat_ofNat]
  have below : size + padWord b alignment < b.free := by
    rw [BitVec.lt_def, sum]
    exact fits
  refine ⟨b.free - (size + padWord b alignment), ?_, ?_⟩
  · rw [findInBuffer_eq, if_pos below, offset]
  · rw [BitVec.toNat_sub_of_le (by rw [BitVec.le_def, sum]; omega), sum]
    omega

/-- A search that fails stores nothing and leaves the buffer alone. -/
theorem not_found_spec {b : BuffDesc} {size alignment : SizeT}
    (missed : (findInBuffer b size alignment).found = false) :
    findInBuffer b size alignment = { found := false, buffer := b, stored := none } := by
  rw [findInBuffer_eq] at missed ⊢
  split
  · rename_i below
    simp [below] at missed
  · rfl

/-- A power-of-two alignment up to `2 ^ 63` and a size up to `2 ^ 63` never wrap. -/
theorem padded_lt {b : BuffDesc} {size alignment : SizeT} (power : alignment.toNat.isPowerOfTwo)
    (small : size.toNat ≤ 2 ^ 63) : size.toNat + b.pad alignment < 2 ^ 64 := by
  have short := b.pad_lt alignment
  rw [maskModulus_of_isPowerOfTwo power] at short
  obtain ⟨exponent, same⟩ := power
  have bound := alignment.isLt
  rw [same] at bound short
  have narrow : exponent ≤ 63 := by
    have := (Nat.pow_lt_pow_iff_right (a := 2) (by decide)).mp bound
    omega
  have half := Nat.pow_le_pow_right (n := 2) (by decide) narrow
  omega

/-- For such requests the test compares the exact padded size. -/
theorem found_iff_of_power {b : BuffDesc} {size alignment : SizeT}
    (bounded : b.free.toNat ≤ b.size.toNat) (power : alignment.toNat.isPowerOfTwo)
    (small : size.toNat ≤ 2 ^ 63) :
    (findInBuffer b size alignment).found = true ↔ size.toNat + b.pad alignment < b.free.toNat := by
  rw [found_iff bounded (accepted_of_isPowerOfTwo power), Nat.mod_eq_of_lt (padded_lt power small)]

/-- A search leaves the blocks of the buffer alone. -/
theorem findInBuffer_blocks (b : BuffDesc) (size alignment : SizeT) :
    (findInBuffer b size alignment).buffer.addr = b.addr ∧
      (findInBuffer b size alignment).buffer.mAddr = b.mAddr ∧
      (findInBuffer b size alignment).buffer.size = b.size := by
  unfold findInBuffer
  dsimp only
  split <;> split <;> exact ⟨rfl, rfl, rfl⟩

end Mam.MirroredAllocators
