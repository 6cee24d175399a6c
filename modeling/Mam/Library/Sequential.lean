import Mam.Library.Alignment
import Mathlib.Algebra.GroupWithZero.Nat
import Mathlib.Data.List.Forall2
import Mathlib.Data.List.Induction
import Mathlib.Order.Basic

/-! Parts laid out one after the other, each at the first multiple of its alignment that is
free. No layout that keeps their order puts any of them earlier. -/

namespace Mam.Library

/-- Something to lay out. -/
structure Part where
  size : Nat
  align : Nat
deriving DecidableEq, Repr

namespace Sequential

/-- Where the parts go, from `start` on. -/
def offsetsFrom (start : Nat) : List Part → List Nat
  | [] => []
  | part :: rest =>
    roundUp start part.align :: offsetsFrom (roundUp start part.align + part.size) rest

/-- Where the last of them ends. -/
def stopFrom (start : Nat) : List Part → Nat
  | [] => start
  | part :: rest => stopFrom (roundUp start part.align + part.size) rest

/-- The largest alignment, and at least 1. -/
def alignment (parts : List Part) : Nat := parts.foldl (fun least part => max least part.align) 1

/-- The end of the last part, padded for the alignment of the whole. -/
def total (parts : List Part) : Nat := roundUp (stopFrom 0 parts) (alignment parts)

section Growth

variable (start : Nat) (parts : List Part) (part : Part)

theorem offsetsFrom_snoc : offsetsFrom start (parts ++ [part]) =
    offsetsFrom start parts ++ [roundUp (stopFrom start parts) part.align] := by
  induction parts generalizing start with
  | nil => rfl
  | cons first rest ih => exact congrArg (List.cons _) (ih _)

theorem stopFrom_snoc : stopFrom start (parts ++ [part]) =
    roundUp (stopFrom start parts) part.align + part.size := by
  induction parts generalizing start with
  | nil => rfl
  | cons first rest ih => exact ih _

theorem alignment_snoc : alignment (parts ++ [part]) = max (alignment parts) part.align := by
  simp [alignment]

theorem stopFrom_le_snoc : stopFrom start parts ≤ stopFrom start (parts ++ [part]) := by
  rw [stopFrom_snoc]
  exact Nat.le_trans (le_roundUp _ _) (Nat.le_add_right _ _)

end Growth

section Powers

variable {parts : List Part}

theorem alignment_power (powers : ∀ part ∈ parts, part.align.isPowerOfTwo) :
    (alignment parts).isPowerOfTwo := by
  induction parts using List.reverseRecOn with
  | nil => exact Nat.isPowerOfTwo_one
  | append_singleton parts part ih =>
    rw [alignment_snoc]
    exact power_max (ih fun other member => powers other (List.mem_append_left _ member))
      (powers part (List.mem_append_right _ List.mem_cons_self))

/-- One more part never makes the whole smaller: the padding left behind the earlier parts is
padding that the larger alignment asks for as well. -/
theorem total_le_snoc {part : Part} (powers : ∀ other ∈ parts ++ [part], other.align.isPowerOfTwo) :
    total parts ≤ total (parts ++ [part]) := by
  have earlier := alignment_power fun other member =>
    powers other (List.mem_append_left [part] member)
  have later := alignment_power powers
  have larger : alignment parts ≤ alignment (parts ++ [part]) := by
    rw [alignment_snoc]
    exact Nat.le_max_left _ _
  refine roundUp_le (Nat.pos_of_isPowerOfTwo earlier) ?_ ?_
  · exact Nat.le_trans (stopFrom_le_snoc 0 parts part) (le_roundUp _ _)
  · exact Nat.dvd_trans (power_dvd_of_le earlier later larger)
      (dvd_roundUp _ (Nat.pos_of_isPowerOfTwo later))

end Powers

section Least

/-- A layout that keeps the order of the parts, from `start` to `stop`: each begins where the
one before has ended, at a multiple of its alignment. -/
inductive Placed : Nat → List Part → List Nat → Nat → Prop where
  | nil {start : Nat} : Placed start [] [] start
  | cons {start offset stop : Nat} {part : Part} {rest : List Part} {offsets : List Nat}
      (after : start ≤ offset) (aligned : part.align ∣ offset)
      (later : Placed (offset + part.size) rest offsets stop) :
      Placed start (part :: rest) (offset :: offsets) stop

theorem placed_offsetsFrom {parts : List Part} (positive : ∀ part ∈ parts, 0 < part.align)
    (start : Nat) : Placed start parts (offsetsFrom start parts) (stopFrom start parts) := by
  induction parts generalizing start with
  | nil => exact .nil
  | cons part rest ih =>
    refine .cons (le_roundUp _ _) (dvd_roundUp _ (positive part List.mem_cons_self)) ?_
    exact ih (fun other member => positive other (List.mem_cons_of_mem part member)) _

/-- Every other layout puts every part as late or later, and ends as late or later. -/
theorem Placed.least {begin stop : Nat} {parts : List Part} {offsets : List Nat}
    (placed : Placed begin parts offsets stop) (positive : ∀ part ∈ parts, 0 < part.align)
    {start : Nat} (earlier : start ≤ begin) :
    List.Forall₂ (· ≤ ·) (offsetsFrom start parts) offsets ∧ stopFrom start parts ≤ stop := by
  induction placed generalizing start with
  | nil => exact ⟨.nil, earlier⟩
  | @cons begin offset stop part rest offsets after aligned later ih =>
    have first : roundUp start part.align ≤ offset :=
      roundUp_le (positive part List.mem_cons_self) (Nat.le_trans earlier after) aligned
    obtain ⟨others, ends⟩ :=
      ih (fun other member => positive other (List.mem_cons_of_mem part member))
        (Nat.add_le_add_right first part.size)
    exact ⟨.cons first others, ends⟩

/-- A common multiple of the alignments is a multiple of the alignment of the whole. -/
theorem alignment_dvd {parts : List Part} {common : Nat}
    (divides : ∀ part ∈ parts, part.align ∣ common) : alignment parts ∣ common := by
  induction parts using List.reverseRecOn with
  | nil => exact Nat.one_dvd common
  | append_singleton parts part ih =>
    rw [alignment_snoc]
    have earlier := ih fun other member => divides other (List.mem_append_left _ member)
    have last := divides part (List.mem_append_right _ List.mem_cons_self)
    rcases Nat.le_total (alignment parts) part.align with le | le
    · rwa [Nat.max_eq_right le]
    · rwa [Nat.max_eq_left le]

/-- Nothing that holds a layout of the parts, and is a multiple of all alignments, is smaller
than the total. -/
theorem Placed.total_le {stop common size : Nat} {parts : List Part} {offsets : List Nat}
    (placed : Placed 0 parts offsets stop) (powers : ∀ part ∈ parts, part.align.isPowerOfTwo)
    (holds : stop ≤ size) (divides : ∀ part ∈ parts, part.align ∣ common)
    (padded : common ∣ size) : total parts ≤ size := by
  have positive (part : Part) (member : part ∈ parts) := Nat.pos_of_isPowerOfTwo (powers part member)
  exact roundUp_le (Nat.pos_of_isPowerOfTwo (alignment_power powers))
    (Nat.le_trans (placed.least positive (Nat.le_refl 0)).2 holds)
    (Nat.dvd_trans (alignment_dvd divides) padded)

end Least

section Unaligned

variable {parts : List Part}

/-- Parts that need no alignment are laid out without gaps. -/
theorem getElem_offsetsFrom_of_unaligned (unaligned : ∀ part ∈ parts, part.align = 1) (start : Nat)
    {i offset : Nat} (there : (offsetsFrom start parts)[i]? = some offset) :
    offset = start + ((parts.take i).map (·.size)).sum := by
  induction parts generalizing start i with
  | nil => cases there
  | cons part rest ih =>
    have one := unaligned part List.mem_cons_self
    cases i with
    | zero =>
      simp only [offsetsFrom, one, roundUp_one, List.getElem?_cons_zero, Option.some.injEq] at there
      simp [there]
    | succ i =>
      simp only [offsetsFrom, one, roundUp_one, List.getElem?_cons_succ] at there
      rw [ih (fun other member => unaligned other (List.mem_cons_of_mem part member)) _ there]
      simp only [List.take_succ_cons, List.map_cons, List.sum_cons]
      omega

theorem stopFrom_of_unaligned (unaligned : ∀ part ∈ parts, part.align = 1) (start : Nat) :
    stopFrom start parts = start + (parts.map (·.size)).sum := by
  induction parts generalizing start with
  | nil => rfl
  | cons part rest ih =>
    rw [stopFrom, unaligned part List.mem_cons_self, roundUp_one,
      ih fun other member => unaligned other (List.mem_cons_of_mem part member)]
    simp only [List.map_cons, List.sum_cons]
    omega

theorem alignment_of_unaligned (unaligned : ∀ part ∈ parts, part.align = 1) :
    alignment parts = 1 := by
  induction parts using List.reverseRecOn with
  | nil => rfl
  | append_singleton parts part ih =>
    rw [alignment_snoc, ih fun other member => unaligned other (List.mem_append_left _ member),
      unaligned part (List.mem_append_right _ List.mem_cons_self), Nat.max_self]

end Unaligned

end Sequential

end Mam.Library
