import Mam.CopyEngine.Dimensions
import Mam.Library.Alignment
import Mam.Library.ByteRange
import Mathlib.Algebra.BigOperators.Group.List.Basic

/-! The numbers that adding a field or a dimension computes, as exact numbers. -/

namespace Mam.CopyEngine

open Mam.Library

theorem alignUp_eq (n align : SizeT) : alignUp n align = n + gap n align := by
  unfold alignUp gap
  by_cases aligned : n &&& (align - 1#64) = 0#64
  · exact (if_pos aligned).trans (by rw [if_pos aligned]; exact (BitVec.add_zero n).symm)
  · exact (if_neg aligned).trans (by rw [if_neg aligned]; rfl)

/-- In range, the mask rounds up. -/
theorem toNat_alignUp {n align : SizeT} (power : align.toNat.isPowerOfTwo)
    (small : roundUp n.toNat align.toNat < 2 ^ 63) :
    (alignUp n align).toNat = roundUp n.toNat align.toNat := by
  have accepted := (and_pred_eq_zero_iff align).mpr (.inr power)
  rw [alignUp_eq, BitVec.toNat_add, toNat_gap accepted, maskModulus_of_isPowerOfTwo power]
  exact Nat.mod_eq_of_lt (by unfold roundUp at small; omega)

/-- What `Layout` holds, in exact numbers. -/
structure ExactLayout where
  offset : Nat
  lastOffset : Nat
  totalSize : Nat
  alignment : Nat

/-- `Construct.place` over exact numbers. -/
def Construct.placeExact (c : Construct List) (userOffset : Option SizeT) (size align : Nat) :
    ExactLayout :=
  let offset :=
    match userOffset, c.type with
    | some offset, _ => offset.toNat
    | none, .struct => if c.packed then c.lastOffset.toNat else roundUp c.lastOffset.toNat align
    | none, .union => 0
  let alignment := if c.packed then c.alignment.toNat else max c.alignment.toNat align
  let lastOffset :=
    match c.type with
    | .struct => offset + size
    | .union => c.lastOffset.toNat
  let totalSize :=
    match c.type with
    | .struct => lastOffset
    | .union => max c.totalSize.toNat size
  { offset := offset
    lastOffset := lastOffset
    totalSize := if c.packed then totalSize else roundUp totalSize alignment
    alignment := alignment }

/-- No number that adding the field computes reaches `2 ^ 63`. -/
structure Construct.Fits (c : Construct List) (userOffset : Option SizeT) (size align : Nat) : Prop where
  lastOffset : (c.placeExact userOffset size align).lastOffset < 2 ^ 63
  totalSize : (c.placeExact userOffset size align).totalSize < 2 ^ 63

/-- The code computes the exact layout. -/
structure Layout.Exactly (layout : Layout) (exact : ExactLayout) : Prop where
  offset : layout.offset.toNat = exact.offset
  lastOffset : layout.lastOffset.toNat = exact.lastOffset
  totalSize : layout.totalSize.toNat = exact.totalSize
  alignment : layout.alignment.toNat = exact.alignment

section Place

variable {c : Construct List} {userOffset : Option SizeT} {size align : SizeT}

theorem place_alignment (c : Construct List) (userOffset : Option SizeT) (size align : SizeT) :
    (c.place userOffset size align).alignment.toNat =
      (c.placeExact userOffset size.toNat align.toNat).alignment := by
  unfold Construct.place Construct.placeExact
  dsimp only
  by_cases packed : c.packed = true
  · simp [packed]
  · by_cases larger : align > c.alignment
    · have less : c.alignment.toNat < align.toNat := larger
      simp [packed, larger, Nat.max_eq_right (Nat.le_of_lt less)]
    · have le : align.toNat ≤ c.alignment.toNat := Nat.not_lt.mp larger
      simp [packed, larger, Nat.max_eq_left le]

theorem placeExact_power (own : c.alignment.toNat.isPowerOfTwo) (power : align.toNat.isPowerOfTwo) :
    (c.placeExact userOffset size.toNat align.toNat).alignment.isPowerOfTwo := by
  unfold Construct.placeExact
  dsimp only
  split
  · exact own
  · exact power_max own power

theorem place_offset (power : align.toNat.isPowerOfTwo)
    (fits : c.Fits userOffset size.toNat align.toNat) :
    (c.place userOffset size align).offset.toNat =
      (c.placeExact userOffset size.toNat align.toNat).offset := by
  have last := fits.lastOffset
  unfold Construct.placeExact at last ⊢
  unfold Construct.place
  dsimp only at last ⊢
  cases userOffset with
  | some offset => rfl
  | none =>
    cases type : c.type with
    | union => rfl
    | struct =>
      simp only [type] at last ⊢
      by_cases packed : c.packed = true
      · simp [packed]
      · simp only [packed] at last ⊢
        exact toNat_alignUp power (Nat.lt_of_le_of_lt (Nat.le_add_right _ _) last)

theorem place_lastOffset (power : align.toNat.isPowerOfTwo)
    (fits : c.Fits userOffset size.toNat align.toNat) :
    (c.place userOffset size align).lastOffset.toNat =
      (c.placeExact userOffset size.toNat align.toNat).lastOffset := by
  have offset := place_offset power fits
  have last := fits.lastOffset
  unfold Construct.placeExact at last offset ⊢
  unfold Construct.place at offset ⊢
  dsimp only at last offset ⊢
  cases type : c.type with
  | union => rfl
  | struct =>
    simp only [type] at last offset ⊢
    rw [BitVec.toNat_add, offset]
    exact Nat.mod_eq_of_lt (by omega)

/-- The total before it is padded. -/
private def unpadded (c : Construct List) (lastOffset size : SizeT) : SizeT :=
  match c.type with
  | .struct => lastOffset
  | .union => if size > c.totalSize then size else c.totalSize

private def unpaddedExact (c : Construct List) (lastOffset size : Nat) : Nat :=
  match c.type with
  | .struct => lastOffset
  | .union => max c.totalSize.toNat size

private theorem toNat_unpadded (c : Construct List) (lastOffset size : SizeT) :
    (unpadded c lastOffset size).toNat = unpaddedExact c lastOffset.toNat size.toNat := by
  unfold unpadded unpaddedExact
  cases c.type with
  | struct => rfl
  | union =>
    by_cases larger : size > c.totalSize
    · have less : c.totalSize.toNat < size.toNat := larger
      simp [larger, Nat.max_eq_right (Nat.le_of_lt less)]
    · have le : size.toNat ≤ c.totalSize.toNat := Nat.not_lt.mp larger
      simp [larger, Nat.max_eq_left le]

theorem place_totalSize (own : c.alignment.toNat.isPowerOfTwo) (power : align.toNat.isPowerOfTwo)
    (fits : c.Fits userOffset size.toNat align.toNat) :
    (c.place userOffset size align).totalSize.toNat =
      (c.placeExact userOffset size.toNat align.toNat).totalSize := by
  have raw : (unpadded c (c.place userOffset size align).lastOffset size).toNat =
      unpaddedExact c (c.placeExact userOffset size.toNat align.toNat).lastOffset size.toNat := by
    rw [toNat_unpadded, place_lastOffset power fits]
  have alignment := place_alignment c userOffset size align
  have powers : (c.place userOffset size align).alignment.toNat.isPowerOfTwo := by
    rw [alignment]
    exact placeExact_power own power
  have word : (c.place userOffset size align).totalSize =
      if c.packed then unpadded c (c.place userOffset size align).lastOffset size
      else alignUp (unpadded c (c.place userOffset size align).lastOffset size)
        (c.place userOffset size align).alignment := by
    unfold unpadded Construct.place
    cases c.type <;> rfl
  have exact : (c.placeExact userOffset size.toNat align.toNat).totalSize =
      if c.packed then
        unpaddedExact c (c.placeExact userOffset size.toNat align.toNat).lastOffset size.toNat
      else roundUp
        (unpaddedExact c (c.placeExact userOffset size.toNat align.toNat).lastOffset size.toNat)
        (c.placeExact userOffset size.toNat align.toNat).alignment := by
    unfold unpaddedExact Construct.placeExact
    cases c.type <;> rfl
  have small := fits.totalSize
  rw [exact] at small ⊢
  rw [word]
  by_cases packed : c.packed = true
  · rw [if_pos packed, if_pos packed, raw]
  · rw [if_neg packed] at small
    rw [if_neg packed, if_neg packed]
    rw [← raw, ← alignment] at small ⊢
    exact toNat_alignUp powers small

/-- Where the numbers fit, the code computes the exact layout. -/
theorem place_exactly (own : c.alignment.toNat.isPowerOfTwo) (power : align.toNat.isPowerOfTwo)
    (fits : c.Fits userOffset size.toNat align.toNat) :
    (c.place userOffset size align).Exactly (c.placeExact userOffset size.toNat align.toNat) :=
  ⟨place_offset power fits, place_lastOffset power fits, place_totalSize own power fits,
    place_alignment c userOffset size align⟩

end Place

/-- The bytes of a field in its construct. -/
def Field.range (f : Field) : ByteRange := ⟨f.offset.toNat, f.size.toNat⟩

/-- Fields lie in their construct: those of a struct one after the other. -/
structure Construct.LaidOut (c : Construct List) : Prop where
  power : c.alignment.toNat.isPowerOfTwo
  small : c.totalSize.toNat < 2 ^ 63
  struct : c.type = .struct → (∀ f ∈ c.fields, f.range.Within c.lastOffset.toNat) ∧
    c.fields.Pairwise (fun f g => f.range.stop ≤ g.range.start) ∧
    c.lastOffset.toNat ≤ c.totalSize.toNat
  union : c.type = .union → ∀ f ∈ c.fields, f.range.Within c.totalSize.toNat

/-- The extent that a dimension multiplies by. -/
def Dimension.count (d : Dimension) : Nat :=
  match d.effective with
  | .fixed count => count.toNat
  | .variable _ | .other _ _ _ => 0

/-- The product of the effective extents. -/
def ArrayType.count (a : ArrayType List) : Nat := (a.dimensions.map (·.dimension.count)).prod

/-- The size of an array is its element size, as often as its extents say. -/
structure ArrayType.LaidOut (a : ArrayType List) : Prop where
  power : a.alignment.toNat.isPowerOfTwo
  elem : a.elemSize.toNat < 2 ^ 63
  small : a.totalSize.toNat < 2 ^ 63
  bare : a.dimensions = [] → a.totalSize = 0
  total : a.dimensions ≠ [] → a.count ≠ 0 → a.totalSize.toNat = a.elemSize.toNat * a.count

section Extending

/-- The offset that the options leave is not below the last one, and 0 in a union. -/
theorem readOptions_spec {type : ConstructType} {lastOffset : SizeT} {options : List FieldOption}
    {before after : Option SizeT} (read : readOptions type lastOffset before options = .ok after)
    (good : ∀ offset ∈ before, lastOffset.toNat ≤ offset.toNat ∧ (type = .union → offset = 0)) :
    ∀ offset ∈ after, lastOffset.toNat ≤ offset.toNat ∧ (type = .union → offset = 0) := by
  induction options generalizing before with
  | nil =>
    cases read
    exact good
  | cons option rest ih =>
    cases option with
    | other option => cases read
    | offset value =>
      simp only [readOptions, bind_eq_ok, refute_eq_ok] at read
      obtain ⟨_, ahead, _, first, read⟩ := read
      refine ih read ?_
      rintro offset ⟨⟩
      refine ⟨Nat.not_lt.mp (of_decide_eq_false ahead), ?_⟩
      rintro rfl
      simpa using first

theorem Construct.fresh_laidOut (owner : Handle) (type : ConstructType) (name : CString)
    (packed : Bool) : (Construct.fresh owner type name packed).LaidOut := by
  refine ⟨Nat.isPowerOfTwo_one, ?_, fun _ => ⟨?_, .nil, Nat.le_refl _⟩, ?_⟩
  · show 0 < 2 ^ 63
    decide
  · exact fun _ member => nomatch member
  · exact fun _ _ member => nomatch member

variable {c : Construct List} {userOffset : Option SizeT}

private theorem le_padded (n : Nat) (packed : Bool) (align : Nat) :
    n ≤ if packed = true then n else roundUp n align := by
  split
  · exact Nat.le_refl _
  · exact le_roundUp _ _

theorem placeExact_struct (size align : Nat) (struct : c.type = .struct)
    (ahead : ∀ offset ∈ userOffset, c.lastOffset.toNat ≤ offset.toNat) :
    c.lastOffset.toNat ≤ (c.placeExact userOffset size align).offset ∧
      (c.placeExact userOffset size align).lastOffset =
        (c.placeExact userOffset size align).offset + size ∧
      (c.placeExact userOffset size align).lastOffset ≤
        (c.placeExact userOffset size align).totalSize := by
  unfold Construct.placeExact
  simp only [struct]
  refine ⟨?_, trivial, ?_⟩
  · cases userOffset with
    | some offset => exact ahead offset rfl
    | none =>
      dsimp only
      split
      · exact Nat.le_refl _
      · exact le_roundUp _ _
  · exact le_padded _ _ _

theorem placeExact_union (size align : Nat) (union : c.type = .union)
    (first : ∀ offset ∈ userOffset, offset = 0) :
    (c.placeExact userOffset size align).offset = 0 ∧
      c.totalSize.toNat ≤ (c.placeExact userOffset size align).totalSize ∧
      size ≤ (c.placeExact userOffset size align).totalSize := by
  unfold Construct.placeExact
  simp only [union]
  have above := le_padded (max c.totalSize.toNat size) c.packed
    (if c.packed = true then c.alignment.toNat else max c.alignment.toNat align)
  refine ⟨?_, Nat.le_trans (Nat.le_max_left _ _) above, Nat.le_trans (Nat.le_max_right _ _) above⟩
  cases userOffset with
  | none => rfl
  | some offset =>
    rw [first offset rfl]
    rfl

/-- One more field keeps a construct laid out. -/
theorem Construct.LaidOut.withField (laidOut : c.LaidOut) (h : Handle) {plan : FieldPlan}
    (power : plan.align.toNat.isPowerOfTwo)
    (fits : c.Fits plan.userOffset plan.size.toNat plan.align.toNat)
    (offsets : ∀ offset ∈ plan.userOffset,
      c.lastOffset.toNat ≤ offset.toNat ∧ (c.type = .union → offset = 0)) :
    (c.withField h plan).LaidOut := by
  have exactly := place_exactly laidOut.power power fits
  refine ⟨?_, ?_, ?_, ?_⟩
  · show (c.place plan.userOffset plan.size plan.align).alignment.toNat.isPowerOfTwo
    rw [exactly.alignment]
    exact placeExact_power laidOut.power power
  · show (c.place plan.userOffset plan.size plan.align).totalSize.toNat < 2 ^ 63
    rw [exactly.totalSize]
    exact fits.totalSize
  · intro struct
    have struct : c.type = .struct := struct
    obtain ⟨within, ordered, _⟩ := laidOut.struct struct
    obtain ⟨ahead, last, covered⟩ := placeExact_struct plan.size.toNat plan.align.toNat struct
      fun offset member => (offsets offset member).1
    rw [← exactly.offset] at ahead last
    rw [← exactly.lastOffset] at last covered
    rw [← exactly.totalSize] at covered
    refine ⟨?_, ?_, covered⟩
    · intro f member
      rcases List.mem_append.mp member with old | new
      · exact (within f old).mono (Nat.le_trans ahead (last ▸ Nat.le_add_right _ _))
      · obtain rfl := List.mem_singleton.mp new
        exact Nat.le_of_eq last.symm
    · refine List.pairwise_append.mpr ⟨ordered, List.pairwise_singleton _ _, ?_⟩
      intro f old g new
      obtain rfl := List.mem_singleton.mp new
      exact Nat.le_trans (within f old) ahead
  · intro union f member
    have union : c.type = .union := union
    obtain ⟨first, kept, covered⟩ := placeExact_union plan.size.toNat plan.align.toNat union
      fun offset member => (offsets offset member).2 union
    rw [← exactly.offset] at first
    rw [← exactly.totalSize] at kept covered
    rcases List.mem_append.mp member with old | new
    · exact (laidOut.union union f old).mono kept
    · obtain rfl := List.mem_singleton.mp new
      show (c.place plan.userOffset plan.size plan.align).offset.toNat + plan.size.toNat ≤ _
      rw [first, Nat.zero_add]
      exact covered

theorem withDimension_count (a : ArrayType List) (h : Handle) (d : Dimension) :
    (a.withDimension h d).count = a.count * d.count := by
  simp [ArrayType.count, ArrayType.withDimension]

/-- A fixed dimension multiplies what the array has so far. -/
theorem ArrayType.LaidOut.toNat_extend {a : ArrayType List} {d : Dimension} (laidOut : a.LaidOut)
    (fixed : d.Fixed) (fits : a.ProductFits d) :
    (a.extend d).toNat = a.factor.toNat * d.count ∧ (a.extend d).toNat < 2 ^ 63 := by
  obtain ⟨count, effective⟩ := fixed
  have times : d.count = count.toNat := by simp [Dimension.count, effective]
  have counted : a.factor.toNat < 2 ^ 63 := by
    unfold ArrayType.factor
    split
    · exact laidOut.elem
    · exact laidOut.small
  have nonneg := toInt_nonneg_of_lt counted
  have small := fits count effective nonneg
  rw [extend_of_fixed effective, if_pos nonneg, toNat_mul_of_lt small, times]
  exact ⟨rfl, small⟩

/-- One more fixed dimension keeps an array laid out. -/
theorem ArrayType.LaidOut.withDimension {a : ArrayType List} {d : Dimension}
    (laidOut : a.LaidOut) (h : Handle) (fixed : d.Fixed) (fits : a.ProductFits d) :
    (a.withDimension h d).LaidOut := by
  obtain ⟨product, small⟩ := laidOut.toNat_extend fixed fits
  refine ⟨laidOut.power, laidOut.elem, small, fun empty => by simp [ArrayType.withDimension] at empty, ?_⟩
  intro _ nonzero
  rw [withDimension_count] at nonzero
  show (a.extend d).toNat = a.elemSize.toNat * (a.withDimension h d).count
  rw [product, withDimension_count, ← Nat.mul_assoc]
  congr 1
  -- The factor is the size that the dimensions so far make.
  by_cases empty : a.dimensions = []
  · simp [ArrayType.factor, laidOut.bare empty, ArrayType.count, empty]
  · have total := laidOut.total empty fun zero => nonzero (by rw [zero, Nat.zero_mul])
    unfold ArrayType.factor
    split
    · rename_i zero
      rw [zero] at total
      have none : a.elemSize.toNat * a.count = 0 := total.symm
      rcases Nat.mul_eq_zero.mp none with elem | counts
      · rw [elem, Nat.zero_mul]
      · exact absurd (by rw [counts, Nat.zero_mul]) nonzero
    · exact total

end Extending

end Mam.CopyEngine
