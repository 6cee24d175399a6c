import Mam.CopyEngine.Records

/-! The extents of dimensions, and what one more dimension makes of the size of an array. -/

namespace Mam.CopyEngine

open Mam.Library

section Kinds

/-- The extent that counts is of `MAM_DIMENSION_TYPE_FIXED`. -/
def Dimension.Fixed (d : Dimension) : Prop := ∃ count, d.effective = .fixed count

/-- The extent that counts is of `MAM_DIMENSION_TYPE_VARIABLE`. -/
def Dimension.Varies (d : Dimension) : Prop := ∃ path, d.effective = .variable path

/-- All dimensions of the array are fixed. -/
def ArrayType.Fixed (a : ArrayType List) : Prop := ∀ block ∈ a.dimensions, block.dimension.Fixed

/-- A dimension of the array varies. -/
def ArrayType.Varies (a : ArrayType List) : Prop := ∃ block ∈ a.dimensions, block.dimension.Varies

variable {a : ArrayType List} {d : Dimension}

instance : DecidablePred Dimension.Fixed := fun d =>
  match same : d.effective with
  | .fixed count => .isTrue ⟨count, same⟩
  | .variable _ => .isFalse (by simp [Dimension.Fixed, same])
  | .other _ _ _ => .isFalse (by simp [Dimension.Fixed, same])

instance : DecidablePred Dimension.Varies := fun d =>
  match same : d.effective with
  | .fixed _ => .isFalse (by simp [Dimension.Varies, same])
  | .variable path => .isTrue ⟨path, same⟩
  | .other _ _ _ => .isFalse (by simp [Dimension.Varies, same])

instance : DecidablePred ArrayType.Fixed := fun a =>
  inferInstanceAs (Decidable (∀ block ∈ a.dimensions, block.dimension.Fixed))

instance : DecidablePred ArrayType.Varies := fun a =>
  inferInstanceAs (Decidable (∃ block ∈ a.dimensions, block.dimension.Varies))

theorem Dimension.Fixed.not_varies (fixed : d.Fixed) : ¬ d.Varies := by
  rintro ⟨path, varies⟩
  obtain ⟨count, same⟩ := fixed
  cases same.symm.trans varies

theorem withDimension_fixed_iff {h : Handle} : (a.withDimension h d).Fixed ↔ a.Fixed ∧ d.Fixed := by
  simp only [ArrayType.Fixed, ArrayType.withDimension, List.mem_append, List.mem_singleton]
  constructor
  · intro fixed
    exact ⟨fun block member => fixed block (.inl member), fixed _ (.inr rfl)⟩
  · rintro ⟨earlier, last⟩ block (old | rfl)
    · exact earlier block old
    · exact last

theorem withDimension_varies (a : ArrayType List) (h : Handle) (d : Dimension) :
    (a.withDimension h d).Varies ↔ a.Varies ∨ d.Varies := by
  simp only [ArrayType.Varies, ArrayType.withDimension, List.mem_append, List.mem_singleton]
  constructor
  · rintro ⟨block, old | rfl, varies⟩
    · exact .inl ⟨block, old, varies⟩
    · exact .inr varies
  · rintro (⟨block, old, varies⟩ | varies)
    · exact ⟨block, .inl old, varies⟩
    · exact ⟨_, .inr rfl, varies⟩

end Kinds

section Totals

variable {a : ArrayType List} {d : Dimension}

/-- What a dimension multiplies. -/
def ArrayType.factor (a : ArrayType List) : SizeT := if a.totalSize = 0 then a.elemSize else a.totalSize

theorem extend_of_fixed {count : SizeT} (fixed : d.effective = .fixed count) :
    a.extend d = if 0 ≤ a.factor.toInt then a.factor * count else a.totalSize := by
  simp only [ArrayType.extend, fixed]
  by_cases zero : a.totalSize = 0
  · have factor : a.factor = a.elemSize := if_pos zero
    have still : ¬ 0 < a.totalSize.toInt := by
      rw [zero]
      decide
    rw [factor]
    by_cases sized : 0 ≤ a.elemSize.toInt
    · rw [if_pos ⟨zero, sized⟩, if_pos sized]
    · rw [if_neg fun both => sized both.2, if_neg still, if_neg sized]
  · have factor : a.factor = a.totalSize := if_neg zero
    have nonzero : a.totalSize.toInt ≠ 0 := fun same => zero (BitVec.eq_of_toInt_eq same)
    rw [factor, if_neg fun both => zero both.1]
    by_cases positive : 0 < a.totalSize.toInt
    · rw [if_pos positive, if_pos (Int.le_of_lt positive)]
    · rw [if_neg positive, if_neg (by omega)]

/-- An extent that is not fixed makes the total `-1`. -/
theorem extend_of_not_fixed (unfixed : ¬ d.Fixed) : a.extend d = -1 := by
  cases same : d.effective with
  | fixed count => exact absurd ⟨count, same⟩ unfixed
  | «variable» path => simp only [ArrayType.extend, same]
  | other type word beyond => simp only [ArrayType.extend, same]

/-- The product that a fixed dimension makes stays below `2 ^ 63`. -/
def ArrayType.ProductFits (a : ArrayType List) (d : Dimension) : Prop :=
  ∀ count, d.effective = .fixed count → 0 ≤ a.factor.toInt →
    a.factor.toNat * count.toNat < 2 ^ 63

theorem toInt_nonneg_of_lt {x : SizeT} (small : x.toNat < 2 ^ 63) : 0 ≤ x.toInt := by
  rw [BitVec.toInt_eq_toNat_of_lt (by omega)]
  exact Int.natCast_nonneg _

theorem toNat_mul_of_lt {x y : SizeT} (small : x.toNat * y.toNat < 2 ^ 63) :
    (x * y).toNat = x.toNat * y.toNat := by
  rw [BitVec.toNat_mul]
  exact Nat.mod_eq_of_lt (by omega)

instance (a : ArrayType List) (d : Dimension) : Decidable (a.ProductFits d) :=
  match same : d.effective with
  | .fixed count =>
    decidable_of_iff (0 ≤ a.factor.toInt → a.factor.toNat * count.toNat < 2 ^ 63)
      (by simp [ArrayType.ProductFits, same])
  | .variable _ => .isTrue (by simp [ArrayType.ProductFits, same])
  | .other _ _ _ => .isTrue (by simp [ArrayType.ProductFits, same])

/-- A product in range is no negative number. -/
theorem extend_nonneg (fits : a.ProductFits d) {count : SizeT} (fixed : d.effective = .fixed count)
    (counts : 0 ≤ a.factor.toInt) : 0 ≤ (a.extend d).toInt := by
  have small := fits count fixed counts
  rw [extend_of_fixed fixed, if_pos counts]
  exact toInt_nonneg_of_lt (by rwa [toNat_mul_of_lt small])

end Totals

section Steps

variable {s next : Seen} {call : Call}

theorem SameObject.sizeAlign {s t : Store List} {n : Node} (same : SameObject s t n) :
    t.sizeAlign n = s.sizeAlign n := by
  cases n with
  | construct h => exact congrArg (Option.map _) same
  | array h => exact congrArg (Option.map _) same

/-- A call changes the size of no object but the one it extends. -/
theorem Change.sizeAlign_of_other (change : Change s call next) {n : Node}
    (other : ∀ plan, Ready s.types call.op plan → plan.target s.next ≠ some n) :
    next.types.sizeAlign n = s.types.sizeAlign n := by
  cases change with
  | idle failed same later => rw [same]
  | frozen ready failed same later => rw [same, freezeFieldType_sizeAlign]
  | committed ready code same taken =>
    rw [same]
    exact commit_sizeAlign ready (other _ ready)

end Steps

end Mam.CopyEngine
