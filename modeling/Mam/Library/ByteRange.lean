import Mathlib.Order.Basic

/-! Runs of bytes, and how parts of parts lie in them. -/

namespace Mam.Library

/-- `size` bytes from `start` on. -/
structure ByteRange where
  start : Nat
  size : Nat
deriving DecidableEq, Repr

namespace ByteRange

variable {a b r t : ByteRange} {limit inner offset stride count j k : Nat}

def stop (r : ByteRange) : Nat := r.start + r.size

/-- The range ends at or before `limit`. -/
def Within (r : ByteRange) (limit : Nat) : Prop := r.stop ≤ limit

/-- One range ends before the other begins. -/
def Apart (a b : ByteRange) : Prop := a.stop ≤ b.start ∨ b.stop ≤ a.start

/-- The same range inside a part that begins at `offset`. -/
def shift (r : ByteRange) (offset : Nat) : ByteRange := ⟨offset + r.start, r.size⟩

@[simp] theorem shift_start (r : ByteRange) (offset : Nat) :
    (r.shift offset).start = offset + r.start := rfl

@[simp] theorem shift_stop (r : ByteRange) (offset : Nat) :
    (r.shift offset).stop = offset + r.stop := Nat.add_assoc _ _ _

theorem Apart.symm (apart : a.Apart b) : b.Apart a := Or.symm apart

theorem Within.mono (within : r.Within inner) (room : inner ≤ limit) : r.Within limit :=
  Nat.le_trans within room

/-- What lies within a part lies within the whole, as far as the part does. -/
theorem Within.shift (within : r.Within inner) (room : (ByteRange.mk offset inner).Within limit) :
    (r.shift offset).Within limit := by
  show (r.shift offset).stop ≤ limit
  rw [shift_stop]
  exact Nat.le_trans (Nat.add_le_add_left within offset) room

theorem Apart.shift (apart : a.Apart b) (offset : Nat) : (a.shift offset).Apart (b.shift offset) := by
  rcases apart with first | second
  · exact .inl (by simpa using first)
  · exact .inr (by simpa using second)

private theorem stop_le_start_of_parts (first : r.Within a.size) (before : a.stop ≤ b.start) :
    (r.shift a.start).stop ≤ (t.shift b.start).start := by
  calc (r.shift a.start).stop = a.start + r.stop := shift_stop r a.start
    _ ≤ a.start + a.size := Nat.add_le_add_left first _
    _ ≤ b.start := before
    _ ≤ b.start + t.start := Nat.le_add_right _ _

/-- What lies within parts that are apart is apart. -/
theorem apart_of_parts (first : r.Within a.size) (second : t.Within b.size) (apart : a.Apart b) :
    (r.shift a.start).Apart (t.shift b.start) := by
  rcases apart with before | after
  · exact .inl (stop_le_start_of_parts first before)
  · exact .inr (stop_le_start_of_parts second after)

/-- The cells of a stride are apart. -/
theorem cells_apart (stride : Nat) (distinct : j ≠ k) :
    (ByteRange.mk (j * stride) stride).Apart ⟨k * stride, stride⟩ := by
  have before {j k : Nat} (less : j < k) : j * stride + stride ≤ k * stride := by
    rw [← Nat.succ_mul]
    exact Nat.mul_le_mul_right stride less
  rcases Nat.lt_or_gt_of_ne distinct with less | greater
  · exact .inl (before less)
  · exact .inr (before greater)

/-- Each cell of a stride lies within all of them. -/
theorem cell_within (stride : Nat) (below : k < count) :
    (ByteRange.mk (k * stride) stride).Within (stride * count) := by
  show k * stride + stride ≤ stride * count
  rw [← Nat.succ_mul, Nat.mul_comm stride]
  exact Nat.mul_le_mul_right stride below

end ByteRange

end Mam.Library
