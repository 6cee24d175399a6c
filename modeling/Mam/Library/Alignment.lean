import Mathlib.Data.Nat.ModEq
import Mathlib.Tactic.Ring

/-! Rounding up to an alignment, over the naturals and over machine words that
mask with `align - 1`. -/

namespace Mam.Library

/-- The least amount to add to `n` to reach a multiple of `align`. -/
def padding (n align : Nat) : Nat := (align - n % align) % align

/-- The least multiple of `align` that is not below `n`. -/
def roundUp (n align : Nat) : Nat := n + padding n align

theorem padding_lt (n : Nat) {align : Nat} (positive : 0 < align) : padding n align < align :=
  Nat.mod_lt _ positive

theorem le_roundUp (n align : Nat) : n ≤ roundUp n align := Nat.le_add_right _ _

theorem padding_of_mod_eq_zero {n align : Nat} (aligned : n % align = 0) : padding n align = 0 := by
  simp [padding, aligned]

theorem padding_of_mod_ne_zero {n align : Nat} (positive : 0 < align) (misaligned : n % align ≠ 0) :
    padding n align = align - n % align := by
  have below := Nat.mod_lt n positive
  exact Nat.mod_eq_of_lt (by omega)

theorem dvd_roundUp (n : Nat) {align : Nat} (positive : 0 < align) : align ∣ roundUp n align := by
  apply Nat.dvd_of_mod_eq_zero
  unfold roundUp
  by_cases aligned : n % align = 0
  · simp [padding_of_mod_eq_zero aligned, aligned]
  · rw [padding_of_mod_ne_zero positive aligned]
    have below := Nat.mod_lt n positive
    have split := Nat.div_add_mod n align
    have rounded : n + (align - n % align) = align * (n / align + 1) := by
      rw [Nat.mul_add, Nat.mul_one]
      omega
    rw [rounded, Nat.mul_mod_right]

theorem roundUp_of_dvd {n align : Nat} (aligned : align ∣ n) : roundUp n align = n := by
  simp [roundUp, padding_of_mod_eq_zero (Nat.mod_eq_zero_of_dvd aligned)]

/-- No multiple of the alignment lies between a number and its rounding. -/
theorem roundUp_le {n bound align : Nat} (positive : 0 < align) (above : n ≤ bound)
    (aligned : align ∣ bound) : roundUp n align ≤ bound := by
  by_cases whole : n % align = 0
  · rw [roundUp_of_dvd (Nat.dvd_of_mod_eq_zero whole)]
    exact above
  · obtain ⟨quotient, rfl⟩ := aligned
    have below := Nat.mod_lt n positive
    have split := Nat.div_add_mod n align
    have fewer : n / align < quotient := by
      by_contra enough
      have := Nat.mul_le_mul_left align (Nat.not_lt.mp enough)
      omega
    have next := Nat.mul_le_mul_left align (Nat.succ_le_of_lt fewer)
    rw [Nat.succ_eq_add_one, Nat.mul_add, Nat.mul_one] at next
    simp only [roundUp, padding_of_mod_ne_zero positive whole]
    omega

@[simp] theorem roundUp_one (n : Nat) : roundUp n 1 = n := roundUp_of_dvd (Nat.one_dvd n)

theorem power_max {a b : Nat} (first : a.isPowerOfTwo) (second : b.isPowerOfTwo) :
    (max a b).isPowerOfTwo := by
  rcases Nat.le_total a b with le | le
  · rwa [Nat.max_eq_right le]
  · rwa [Nat.max_eq_left le]

theorem power_dvd_of_le {a b : Nat} (first : a.isPowerOfTwo) (second : b.isPowerOfTwo)
    (le : a ≤ b) : a ∣ b := by
  obtain ⟨i, rfl⟩ := first
  obtain ⟨j, rfl⟩ := second
  exact Nat.pow_dvd_pow 2 ((Nat.pow_le_pow_iff_right (by decide)).mp le)

/-- Reducing by a multiple of the alignment does not change the padding. -/
theorem padding_mod (n : Nat) {align modulus : Nat} (divides : align ∣ modulus) :
    padding (n % modulus) align = padding n align := by
  simp [padding, Nat.mod_mod_of_dvd n divides]

section Words

variable {w : Nat}

/-- What `& (align - 1)` reduces by: `align` itself, and `2 ^ w` for a zero `align`,
whose mask has every bit set. -/
def maskModulus (align : BitVec w) : Nat := if align = 0#w then 2 ^ w else align.toNat

/-- The test `align & (align - 1)` lets through the powers of two, and zero. -/
theorem and_pred_eq_zero_iff (align : BitVec w) :
    align &&& (align - 1#w) = 0#w ↔ align = 0#w ∨ align.toNat.isPowerOfTwo := by
  by_cases zero : align = 0#w
  · simp [zero]
  · have positive : align.toNat ≠ 0 := by
      intro same
      exact zero (BitVec.eq_of_toNat_eq (by simpa using same))
    have wide : 0 < w := by
      rcases Nat.eq_zero_or_pos w with none | some
      · subst none
        exact absurd (BitVec.eq_nil align) (by simpa using zero)
      · exact some
    have one : (1#w).toNat = 1 := by simp; omega
    have pred : (align - 1#w).toNat = align.toNat - 1 := by
      rw [BitVec.toNat_sub_of_le (by simp only [BitVec.le_def, one]; omega), one]
    simp only [zero, false_or, ← Nat.and_sub_one_eq_zero_iff_isPowerOfTwo positive, ← pred,
      ← BitVec.toNat_and]
    exact ⟨fun same => by simp [same], fun same => BitVec.eq_of_toNat_eq (by simpa using same)⟩

theorem maskModulus_pos (align : BitVec w) : 0 < maskModulus align := by
  unfold maskModulus
  split
  · exact Nat.two_pow_pos w
  · rename_i nonzero
    rcases Nat.eq_zero_or_pos align.toNat with same | positive
    · exact absurd (BitVec.eq_of_toNat_eq (by simpa using same)) nonzero
    · exact positive

theorem maskModulus_le (align : BitVec w) : maskModulus align ≤ 2 ^ w := by
  unfold maskModulus
  split
  · exact Nat.le_refl _
  · exact Nat.le_of_lt align.isLt

theorem maskModulus_of_isPowerOfTwo {align : BitVec w} (power : align.toNat.isPowerOfTwo) :
    maskModulus align = align.toNat := by
  have positive := Nat.pos_of_isPowerOfTwo power
  have nonzero : align ≠ 0#w := by
    rintro rfl
    simp at positive
  simp [maskModulus, nonzero]

theorem maskModulus_dvd {align : BitVec w} (accepted : align &&& (align - 1#w) = 0#w) :
    maskModulus align ∣ 2 ^ w := by
  rcases (and_pred_eq_zero_iff align).mp accepted with zero | power
  · simp [maskModulus, zero]
  · rw [maskModulus_of_isPowerOfTwo power]
    obtain ⟨exponent, same⟩ := power
    have bound := align.isLt
    rw [same] at bound ⊢
    exact Nat.pow_dvd_pow 2 (Nat.le_of_lt ((Nat.pow_lt_pow_iff_right (by decide)).mp bound))

/-- Masking with `align - 1` is reduction modulo what `align` stands for. -/
theorem toNat_and_pred {align : BitVec w} (accepted : align &&& (align - 1#w) = 0#w)
    (x : BitVec w) : (x &&& (align - 1#w)).toNat = x.toNat % maskModulus align := by
  rcases (and_pred_eq_zero_iff align).mp accepted with zero | power
  · subst zero
    rw [BitVec.zero_sub, BitVec.neg_one_eq_allOnes, BitVec.and_allOnes]
    simp [maskModulus, Nat.mod_eq_of_lt x.isLt]
  · rw [maskModulus_of_isPowerOfTwo power]
    have positive := Nat.pos_of_isPowerOfTwo power
    have bound := align.isLt
    have one : (1#w).toNat = 1 := by
      simp
      exact Nat.pos_of_ne_zero (by rintro rfl; simp at bound; omega)
    have pred : (align - 1#w).toNat = align.toNat - 1 := by
      rw [BitVec.toNat_sub_of_le (by simp only [BitVec.le_def, one]; omega), one]
    obtain ⟨exponent, same⟩ := power
    rw [BitVec.toNat_and, pred, same, Nat.and_two_pow_sub_one_eq_mod]

/-- The amount a word-level rounding adds to `x`. -/
def gap (x align : BitVec w) : BitVec w :=
  if x &&& (align - 1#w) = 0#w then 0#w else align - (x &&& (align - 1#w))

/-- The word-level amount is the padding of the exact rounding. -/
theorem toNat_gap {align : BitVec w} (accepted : align &&& (align - 1#w) = 0#w) (x : BitVec w) :
    (gap x align).toNat = padding x.toNat (maskModulus align) := by
  have masked := toNat_and_pred accepted x
  have positive := maskModulus_pos align
  have below := Nat.mod_lt x.toNat positive
  unfold gap
  split
  · rename_i zero
    rw [zero] at masked
    rw [padding_of_mod_eq_zero masked.symm]
    rfl
  · rename_i nonzero
    have misaligned : x.toNat % maskModulus align ≠ 0 := by
      rw [← masked]
      intro same
      exact nonzero (BitVec.eq_of_toNat_eq (by simpa using same))
    rw [padding_of_mod_ne_zero positive misaligned, BitVec.toNat_sub, masked]
    have limit := maskModulus_le align
    by_cases zero : align = 0#w
    · have whole : maskModulus align = 2 ^ w := by simp [maskModulus, zero]
      rw [whole] at below misaligned ⊢
      simp only [zero, BitVec.toNat_zero, Nat.add_zero]
      exact Nat.mod_eq_of_lt (by omega)
    · have same : maskModulus align = align.toNat := by simp [maskModulus, zero]
      rw [same] at below misaligned limit ⊢
      have bound := align.isLt
      have sum : 2 ^ w - x.toNat % align.toNat + align.toNat =
          2 ^ w + (align.toNat - x.toNat % align.toNat) := by omega
      rw [sum, Nat.add_mod_left]
      exact Nat.mod_eq_of_lt (by omega)

end Words

end Mam.Library
