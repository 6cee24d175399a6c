import Mathlib.Order.Interval.Set.Disjoint
import Mathlib.Order.CompletePartialOrder
import Mathlib.Data.List.Basic
import Mathlib.Logic.Relation

/-! Bump allocation inside blocks that exist in two address spaces, over exact
numbers. -/

namespace Mam.Library

/-- The addresses from `start` on, `size` of them. -/
def span (start size : Nat) : Set Nat := Set.Ico start (start + size)

theorem span_subset {start size base limit : Nat} (above : base ≤ start)
    (below : start + size ≤ base + limit) : span start size ⊆ span base limit :=
  Set.Ico_subset_Ico above below

instance (first size second other : Nat) : Decidable (Disjoint (span first size) (span second other)) :=
  decidable_of_iff _ Set.Ico_disjoint_Ico.symm

theorem span_disjoint {first size second other : Nat} (before : first + size ≤ second) :
    Disjoint (span first size) (span second other) := by
  rw [span, span, Set.Ico_disjoint_Ico]
  omega

namespace Arena

/-- A block with a host and a mirror address, of which the first `used` bytes are
taken. -/
structure Block where
  host : Nat
  mirror : Nat
  size : Nat
  used : Nat

/-- Two blocks share no address on either side. -/
def Block.Apart (first second : Block) : Prop :=
  Disjoint (span first.host first.size) (span second.host second.size) ∧
    Disjoint (span first.mirror first.size) (span second.mirror second.size)

/-- A region of the block at index `block`. -/
structure Region where
  block : Nat
  host : Nat
  mirror : Nat
  size : Nat
  align : Nat

/-- A region lies in the taken part of a block, at one offset on both sides. -/
structure Region.In (r : Region) (b : Block) : Prop where
  above : b.host ≤ r.host
  sameOffset : r.host + b.mirror = r.mirror + b.host
  taken : r.host + r.size ≤ b.host + b.used

end Arena

/-- Blocks in order of acquisition, and the regions carved out of them in order. -/
structure Arena where
  blocks : List Arena.Block
  regions : List Arena.Region

namespace Arena

def empty : Arena := { blocks := [], regions := [] }

/-- The arena obtains a block, or carves a region out of the last one. -/
inductive Step : Arena → Arena → Prop where
  | obtain {a : Arena} (b : Block) (unused : b.used = 0) (positive : 0 < b.size)
      (apart : ∀ other ∈ a.blocks, other.Apart b) :
      Step a { a with blocks := a.blocks ++ [b] }
  | carve {front : List Block} {last : Block} {regions : List Region} (offset size align : Nat)
      (behind : last.used ≤ offset) (room : offset + size < last.size)
      (aligned : align ∣ last.mirror + offset) :
      Step { blocks := front ++ [last], regions := regions }
        { blocks := front ++ [{ last with used := offset + size }]
          regions := regions ++
            [⟨front.length, last.host + offset, last.mirror + offset, size, align⟩] }

/-- An arena that some number of steps lead to. -/
def Reachable (a : Arena) : Prop := Relation.ReflTransGen Step empty a

/-- Where the last region of the block at an index ends, relative to the block. -/
def lastEnd (regions : List Region) (index : Nat) (b : Block) : Nat :=
  ((regions.filter (·.block = index)).getLast?).elim 0 fun r => r.host + r.size - b.host

/-- What bump allocation keeps. -/
structure Tidy (a : Arena) : Prop where
  fit : ∀ b ∈ a.blocks, b.used < b.size
  apart : a.blocks.Pairwise Block.Apart
  inside : ∀ r ∈ a.regions, ∃ b, a.blocks[r.block]? = some b ∧ r.In b
  aligned : ∀ r ∈ a.regions, r.align ∣ r.mirror
  increasing : a.regions.Pairwise fun r later => r.block = later.block → r.host + r.size ≤ later.host
  ends : ∀ index b, a.blocks[index]? = some b → b.used = lastEnd a.regions index b

theorem empty_tidy : empty.Tidy := by
  constructor <;> simp [empty]

private theorem lastEnd_of_absent {regions : List Region} {index : Nat} {b : Block}
    (absent : ∀ r ∈ regions, r.block ≠ index) : lastEnd regions index b = 0 := by
  have none : regions.filter (·.block = index) = [] := by
    apply List.filter_eq_nil_iff.mpr
    intro r member
    simpa using absent r member
  simp [lastEnd, none]

private theorem lastEnd_append_same (regions : List Region) (r : Region) (b : Block) :
    lastEnd (regions ++ [r]) r.block b = r.host + r.size - b.host := by
  simp [lastEnd, List.filter_append]

private theorem lastEnd_append_other {regions : List Region} {r : Region} {index : Nat}
    (other : r.block ≠ index) (b : Block) :
    lastEnd (regions ++ [r]) index b = lastEnd regions index b := by
  simp [lastEnd, List.filter_append, other]

/-- Every region's block was there when the region was carved. -/
theorem Tidy.block_lt {a : Arena} (tidy : a.Tidy) {r : Region} (member : r ∈ a.regions) :
    r.block < a.blocks.length := by
  obtain ⟨b, present, _⟩ := tidy.inside r member
  exact (List.getElem?_eq_some_iff.mp present).1

theorem Block.Apart.symm {first second : Block} (apart : first.Apart second) : second.Apart first :=
  ⟨apart.1.symm, apart.2.symm⟩

/-- Blocks at different indices are apart, whichever comes first. -/
theorem Tidy.apart_of_ne {a : Arena} (tidy : a.Tidy) {i j : Nat} {first second : Block}
    (one : a.blocks[i]? = some first) (two : a.blocks[j]? = some second) (different : i ≠ j) :
    first.Apart second := by
  obtain ⟨iBound, rfl⟩ := List.getElem?_eq_some_iff.mp one
  obtain ⟨jBound, rfl⟩ := List.getElem?_eq_some_iff.mp two
  have ordered := List.pairwise_iff_getElem.mp tidy.apart
  rcases Nat.lt_or_gt_of_ne different with before | after
  · exact ordered i j iBound jBound before
  · exact (ordered j i jBound iBound after).symm

private theorem Tidy.obtain {a : Arena} (tidy : a.Tidy) {b : Block} (unused : b.used = 0)
    (positive : 0 < b.size) (apart : ∀ other ∈ a.blocks, other.Apart b) :
    Tidy { a with blocks := a.blocks ++ [b] } := by
  refine ⟨?_, ?_, ?_, tidy.aligned, tidy.increasing, ?_⟩
  · intro other member
    rcases List.mem_append.mp member with old | new
    · exact tidy.fit other old
    · obtain rfl := List.mem_singleton.mp new
      omega
  · rw [List.pairwise_append]
    refine ⟨tidy.apart, List.pairwise_singleton _ _, ?_⟩
    intro other old last new
    obtain rfl := List.mem_singleton.mp new
    exact apart other old
  · intro r member
    obtain ⟨other, present, within⟩ := tidy.inside r member
    refine ⟨other, ?_, within⟩
    rw [List.getElem?_append_left (tidy.block_lt member)]
    exact present
  · intro index other present
    rcases Nat.lt_trichotomy index a.blocks.length with below | here | above
    · rw [List.getElem?_append_left below] at present
      exact tidy.ends index other present
    · subst here
      rw [List.getElem?_concat_length] at present
      obtain rfl := Option.some.inj present
      rw [unused, lastEnd_of_absent fun r member => Nat.ne_of_lt (tidy.block_lt member)]
    · rw [List.getElem?_eq_none (by simp; omega)] at present
      cases present

private theorem Tidy.carve {front : List Block} {last : Block} {regions : List Region}
    {offset size align : Nat} (tidy : Tidy { blocks := front ++ [last], regions := regions })
    (behind : last.used ≤ offset) (room : offset + size < last.size)
    (aligned : align ∣ last.mirror + offset) :
    Tidy { blocks := front ++ [{ last with used := offset + size }]
           regions := regions ++
             [⟨front.length, last.host + offset, last.mirror + offset, size, align⟩] } := by
  -- Only the last block changes, and only in how much of it is taken.
  have split (index : Nat) (b : Block)
      (present : (front ++ [{ last with used := offset + size }])[index]? = some b) :
      (index < front.length ∧ (front ++ [last])[index]? = some b) ∨
        (index = front.length ∧ b = { last with used := offset + size }) := by
    rcases Nat.lt_trichotomy index front.length with below | here | above
    · rw [List.getElem?_append_left below] at present
      exact .inl ⟨below, by rw [List.getElem?_append_left below]; exact present⟩
    · subst here
      rw [List.getElem?_concat_length] at present
      exact .inr ⟨rfl, (Option.some.inj present).symm⟩
    · rw [List.getElem?_eq_none (by simp; omega)] at present
      cases present
  have behindLast (r : Region) (member : r ∈ regions) (same : r.block = front.length) :
      r.host + r.size ≤ last.host + offset := by
    obtain ⟨b, present, within⟩ := tidy.inside r member
    simp only [same, List.getElem?_concat_length, Option.some.injEq] at present
    subst present
    exact Nat.le_trans within.taken (by omega)
  refine ⟨?_, ?_, ?_, ?_, ?_, ?_⟩
  · intro b member
    rcases List.mem_append.mp member with old | new
    · exact tidy.fit b (by simp [old])
    · obtain rfl := List.mem_singleton.mp new
      exact room
  · have apart := tidy.apart
    simp only [List.pairwise_append, List.pairwise_singleton, List.mem_singleton] at apart ⊢
    refine ⟨apart.1, trivial, ?_⟩
    rintro b old _ rfl
    exact apart.2.2 b old last rfl
  · intro r member
    rcases List.mem_append.mp member with old | new
    · obtain ⟨b, present, within⟩ := tidy.inside r old
      rcases Nat.lt_or_ge r.block front.length with below | above
      · refine ⟨b, ?_, within⟩
        rw [List.getElem?_append_left below] at present ⊢
        exact present
      · have bound := tidy.block_lt old
        have here : r.block = front.length := by
          simp only [List.length_append, List.length_singleton] at bound
          omega
        refine ⟨{ last with used := offset + size }, ?_, ?_⟩
        · rw [here, List.getElem?_concat_length]
        · simp only [here, List.getElem?_concat_length, Option.some.injEq] at present
          subst present
          obtain ⟨base, sameOffset, taken⟩ := within
          exact ⟨base, sameOffset, by show r.host + r.size ≤ last.host + (offset + size); omega⟩
    · obtain rfl := List.mem_singleton.mp new
      refine ⟨{ last with used := offset + size }, List.getElem?_concat_length, ?_⟩
      constructor
      · exact Nat.le_add_right _ _
      · show last.host + offset + last.mirror = last.mirror + offset + last.host
        omega
      · show last.host + offset + size ≤ last.host + (offset + size)
        omega
  · intro r member
    rcases List.mem_append.mp member with old | new
    · exact tidy.aligned r old
    · obtain rfl := List.mem_singleton.mp new
      exact aligned
  · rw [List.pairwise_append]
    refine ⟨tidy.increasing, List.pairwise_singleton _ _, ?_⟩
    intro r old later new same
    obtain rfl := List.mem_singleton.mp new
    exact behindLast r old same
  · intro index b present
    rcases split index b present with ⟨below, before⟩ | ⟨here, rfl⟩
    · rw [lastEnd_append_other (Nat.ne_of_gt below)]
      exact tidy.ends index b before
    · subst here
      rw [lastEnd_append_same]
      show offset + size = last.host + offset + size - last.host
      omega

theorem Step.tidy {a next : Arena} (step : Step a next) (tidy : a.Tidy) : next.Tidy := by
  cases step with
  | obtain b unused positive apart => exact tidy.obtain unused positive apart
  | carve offset size align behind room aligned => exact tidy.carve behind room aligned

theorem Reachable.tidy {a : Arena} (reachable : Reachable a) : a.Tidy := by
  induction reachable with
  | refl => exact empty_tidy
  | tail before last ih => exact last.tidy ih

/-- Any two regions of a tidy arena are disjoint on both sides. -/
theorem Tidy.disjoint {a : Arena} (tidy : a.Tidy) :
    a.regions.Pairwise fun r later =>
      Disjoint (span r.host r.size) (span later.host later.size) ∧
        Disjoint (span r.mirror r.size) (span later.mirror later.size) := by
  refine tidy.increasing.imp_of_mem ?_
  intro r later member after ordered
  obtain ⟨b, present, within⟩ := tidy.inside r member
  obtain ⟨other, otherPresent, otherWithin⟩ := tidy.inside later after
  obtain ⟨above, sameOffset, taken⟩ := within
  obtain ⟨otherAbove, otherOffset, otherTaken⟩ := otherWithin
  by_cases same : r.block = later.block
  · rw [same, otherPresent] at present
    obtain rfl := Option.some.inj present
    have before := ordered same
    exact ⟨span_disjoint before, span_disjoint (by omega)⟩
  · have fit := tidy.fit b (List.mem_of_getElem? present)
    have otherFit := tidy.fit other (List.mem_of_getElem? otherPresent)
    have separate : b.Apart other := tidy.apart_of_ne present otherPresent same
    refine ⟨separate.1.mono ?_ ?_, separate.2.mono ?_ ?_⟩ <;> apply span_subset <;> omega

end Arena

end Mam.Library
