import Mam.MirroredAllocators.WellFormed

/-! Whether a search hands out a region that its buffer holds. -/

namespace Mam.MirroredAllocators

open Mam.Library

/-- What a successful search gave out, in exact integers: a region at the padded offset
that ends inside the buffer, whose free bytes shrank by what it took. -/
structure FitsExactly (b : BuffDesc) (size alignment : SizeT) (result : FindResult) : Prop where
  placed : result.stored = some (b.addr + BitVec.ofNat 64 (b.used + b.pad alignment),
    b.mAddr + BitVec.ofNat 64 (b.used + b.pad alignment))
  inside : b.used + b.pad alignment + size.toNat ≤ b.size.toNat
  pad : b.pad alignment < alignment.toNat
  spent : result.buffer.free.toNat + (b.pad alignment + size.toNat) = b.free.toNat
  above : ∀ addrs, result.stored = some addrs → b.mAddr.toNat ≤ addrs.2.toNat

/-- A region that was found fits, and a search that failed left everything alone. -/
structure RegionFits (b : BuffDesc) (size alignment : SizeT) (result : FindResult) : Prop where
  found : result.found = true → FitsExactly b size alignment result
  missed : result.found = false → result.buffer = b ∧ result.stored = none

/-- Neither the size with its padding nor the mirror address of the region wraps, and
the alignment is not the zero that the test for powers of two lets through. -/
structure NeverWraps (b : BuffDesc) (size alignment : SizeT) : Prop where
  nonzero : alignment ≠ 0
  padded : size.toNat + b.pad alignment < 2 ^ 64
  address : b.mAddr.toNat + b.used + b.pad alignment < 2 ^ 64

theorem maskModulus_of_ne_zero {alignment : SizeT} (nonzero : alignment ≠ 0) :
    maskModulus alignment = alignment.toNat := by
  unfold maskModulus
  exact if_neg nonzero

/-- A sum of words below the word size is not below its first term exactly when it does
not wrap. -/
private theorem le_toNat_add_iff {base : SizeT} {offset : Nat} (word : offset < 2 ^ 64) :
    base.toNat ≤ (base + BitVec.ofNat 64 offset).toNat ↔ base.toNat + offset < 2 ^ 64 := by
  have bound := base.isLt
  rw [BitVec.toNat_add, BitVec.toNat_ofNat, Nat.mod_eq_of_lt word]
  by_cases wraps : base.toNat + offset < 2 ^ 64
  · rw [Nat.mod_eq_of_lt wraps]
    omega
  · rw [Nat.mod_eq_sub_mod (by omega), Nat.mod_eq_of_lt (by omega)]
    omega

private theorem fitsExactly_iff {b : BuffDesc} {size alignment : SizeT}
    (bounded : b.free.toNat ≤ b.size.toNat) (accepted : Accepted alignment)
    (found : (findInBuffer b size alignment).found = true) :
    FitsExactly b size alignment (findInBuffer b size alignment) ↔ NeverWraps b size alignment := by
  obtain ⟨free, same, spent⟩ := found_spec bounded accepted found
  have used : b.used + b.free.toNat = b.size.toNat := Nat.sub_add_cancel bounded
  have limit := b.size.isLt
  rw [same]
  constructor
  · intro fits
    have unwrapped : b.pad alignment + size.toNat ≤ b.free.toNat := by
      have exact := fits.spent
      omega
    have start : b.used + b.pad alignment < 2 ^ 64 := by omega
    refine ⟨?_, by omega, ?_⟩
    · intro zero
      have short := fits.pad
      rw [zero] at short
      exact Nat.not_lt_zero _ short
    · have above := (le_toNat_add_iff start).mp (fits.above _ rfl)
      omega
  · intro unwrapped
    have exact := spent
    rw [Nat.mod_eq_of_lt unwrapped.padded] at exact
    have short := b.pad_lt alignment
    rw [maskModulus_of_ne_zero unwrapped.nonzero] at short
    have address := unwrapped.address
    refine ⟨rfl, by omega, short, by show free.toNat + _ = _; omega, ?_⟩
    intro addrs stored
    cases stored
    exact (le_toNat_add_iff (by omega)).mpr (by omega)

/-- For every buffer, size and accepted alignment, the search keeps its promise exactly
when a size that the test lets through does not wrap. -/
theorem regionFits_iff_neverWraps (b : BuffDesc) (size alignment : SizeT)
    (bounded : b.free.toNat ≤ b.size.toNat) (accepted : Accepted alignment) :
    RegionFits b size alignment (findInBuffer b size alignment) ↔
      ((size.toNat + b.pad alignment) % 2 ^ 64 < b.free.toNat → NeverWraps b size alignment) := by
  rw [← found_iff bounded accepted]
  constructor
  · intro fits found
    exact (fitsExactly_iff bounded accepted found).mp (fits.found found)
  · intro unwrapped
    refine ⟨fun found => (fitsExactly_iff bounded accepted found).mpr (unwrapped found), ?_⟩
    intro missed
    rw [not_found_spec missed]
    exact ⟨rfl, rfl⟩

/-- A page that has served one region of 100 bytes. -/
def servedPage : BuffDesc :=
  { self := 0, addr := 0x10000, mAddr := 0x20004, size := 4096, free := 3996, ready := false, count := 1 }

theorem regionFits_servedPage : RegionFits servedPage 64 64 (findInBuffer servedPage 64 64) :=
  (regionFits_iff_neverWraps servedPage 64 64 (by decide) (by decide)).mpr
    fun _ => ⟨by decide, by decide, by decide⟩

/-- Padding brings the largest size around to 23 bytes, which the page has. -/
theorem huge_region_found : ¬ ∀ (b : BuffDesc) (size alignment : SizeT),
    b.free.toNat ≤ b.size.toNat → size ≠ 0 → Accepted alignment →
    RegionFits b size alignment (findInBuffer b size alignment) := by
  intro promised
  have fits := promised servedPage 0xFFFFFFFFFFFFFFFF 64 (by decide) (by decide) (by decide)
  have inside := (fits.found (by decide)).inside
  revert inside
  decide

end Mam.MirroredAllocators
