import Mam.CopyEngine.Built
import Mam.CopyEngine.Getters
import Mathlib.Algebra.BigOperators.Ring.List
import Mathlib.Data.List.Induction

/-! The size of an array whose extents are fixed. -/

namespace Mam.CopyEngine

open Mam.Library Mam.Vendor

section Totals

/-- What one more fixed extent makes of a total, where the element size is not negative. -/
def scale (elem total : SizeT) (count : Nat) : SizeT :=
  if total = 0 then elem * BitVec.ofNat 64 count
  else if 0 < total.toInt then total * BitVec.ofNat 64 count
  else total

def scaleAll (elem : SizeT) (counts : List Nat) : SizeT := counts.foldl (scale elem) 0

/-- The number is positive as an `ssize_t`. -/
def Positive (n : Nat) : Prop := 0 < n % 2 ^ 64 ∧ n % 2 ^ 64 < 2 ^ 63

/-- Extents of which every beginning, times the element size, is positive. -/
inductive Open (elem : Nat) : List Nat → Prop where
  | nil : Open elem []
  | snoc {group : List Nat} {count : Nat} (before : Open elem group)
      (inside : Positive (elem * (group ++ [count]).prod)) : Open elem (group ++ [count])

/-- Extents in groups, each of which, times the element size, is a multiple of `2 ^ 64`, as
no shorter beginning of it is. -/
inductive Closes (elem : Nat) : List Nat → Prop where
  | nil : Closes elem []
  | group {earlier group : List Nat} {count : Nat} (before : Closes elem earlier)
      (opened : Open elem group) (wraps : 2 ^ 64 ∣ elem * (group ++ [count]).prod) :
      Closes elem (earlier ++ (group ++ [count]))

theorem toNat_mul_ofNat (x : SizeT) (n : Nat) :
    (x * BitVec.ofNat 64 n).toNat = x.toNat * n % 2 ^ 64 := by
  rw [BitVec.toNat_mul, BitVec.toNat_ofNat, Nat.mul_mod_mod]

theorem toInt_pos_iff {x : SizeT} : 0 < x.toInt ↔ 0 < x.toNat ∧ x.toNat < 2 ^ 63 := by
  have wide := x.isLt
  rw [BitVec.toInt_eq_toNat_cond]
  split <;> omega

theorem scaleAll_snoc (elem : SizeT) (counts : List Nat) (count : Nat) :
    scaleAll elem (counts ++ [count]) = scale elem (scaleAll elem counts) count := by
  simp [scaleAll]

/-- An extent of 0 makes the total 0, unless it was negative and stays so. -/
theorem scale_zero {elem total : SizeT} (small : (scale elem total 0).toNat < 2 ^ 63) :
    scale elem total 0 = 0 := by
  unfold scale at small ⊢
  split at small
  · rename_i first
    rw [if_pos first]
    exact BitVec.mul_zero
  · rename_i nonzero
    rw [if_neg nonzero]
    split at small
    · rename_i positive
      rw [if_pos positive]
      exact BitVec.mul_zero
    · rename_i negative
      have positive := Nat.pos_of_ne_zero fun zero => nonzero (BitVec.eq_of_toNat_eq zero)
      exact absurd (toInt_pos_iff.mpr ⟨positive, small⟩) negative

theorem scale_of_positive {elem total : SizeT} {n : Nat} (same : total.toNat = n % 2 ^ 64)
    (positive : Positive n) (count : Nat) : (scale elem total count).toNat = n * count % 2 ^ 64 := by
  obtain ⟨nonzero, small⟩ := positive
  rw [← same] at nonzero small
  have apart : total ≠ 0 := by
    rintro rfl
    exact Nat.lt_irrefl 0 nonzero
  rw [scale, if_neg apart, if_pos (toInt_pos_iff.mpr ⟨nonzero, small⟩), toNat_mul_ofNat, same,
    Nat.mod_mul_mod]

/-- The next extent after an open group makes the residue of the exact product. -/
theorem scale_open {elem : SizeT} {group : List Nat} (opened : Open elem.toNat group) (count : Nat) :
    (scale elem (scaleAll elem group) count).toNat =
      elem.toNat * (group ++ [count]).prod % 2 ^ 64 := by
  induction opened generalizing count with
  | nil => simp [scaleAll, scale]
  | @snoc group last before inside ih =>
    rw [scaleAll_snoc, scale_of_positive (ih last) inside]
    simp [Nat.mul_assoc]

/-- After groups that close the total is 0, so that the product begins anew. -/
theorem scaleAll_of_closes {elem : SizeT} {counts : List Nat} (closes : Closes elem.toNat counts) :
    scaleAll elem counts = 0 := by
  induction closes with
  | nil => rfl
  | @group earlier group count before opened wraps ih =>
    have last := scale_open opened count
    rw [Nat.mod_eq_zero_of_dvd wraps] at last
    rw [← List.append_assoc, scaleAll_snoc]
    have restarted : scaleAll elem (earlier ++ group) = scaleAll elem group := by
      unfold scaleAll at ih ⊢
      rw [List.foldl_append, ih]
    rw [restarted]
    exact BitVec.eq_of_toNat_eq last

/-- Extents are groups that close and one that is open, or made the total negative. -/
theorem groups_or_negative (elem : SizeT) (counts : List Nat) :
    (∃ earlier group, counts = earlier ++ group ∧ Closes elem.toNat earlier ∧
        Open elem.toNat group ∧ scaleAll elem counts = scaleAll elem group) ∨
      (scaleAll elem counts).toInt < 0 := by
  induction counts using List.reverseRecOn with
  | nil => exact .inl ⟨[], [], rfl, .nil, .nil, rfl⟩
  | append_singleton counts count ih =>
    rw [scaleAll_snoc]
    rcases ih with ⟨earlier, group, rfl, closes, opened, same⟩ | negative
    · have value := scale_open opened count
      rw [← same] at value
      by_cases zero : elem.toNat * (group ++ [count]).prod % 2 ^ 64 = 0
      · have wraps := Nat.dvd_of_mod_eq_zero zero
        refine .inl ⟨earlier ++ (group ++ [count]), [], by simp, .group closes opened wraps, .nil, ?_⟩
        rw [zero] at value
        exact BitVec.eq_of_toNat_eq value
      · by_cases small : elem.toNat * (group ++ [count]).prod % 2 ^ 64 < 2 ^ 63
        · refine .inl ⟨earlier, group ++ [count], by simp, closes,
            .snoc opened ⟨Nat.pos_of_ne_zero zero, small⟩, ?_⟩
          rw [scaleAll_snoc, same]
        · right
          rw [← value] at zero small
          have wide := (scale elem (scaleAll elem (earlier ++ group)) count).isLt
          rw [BitVec.toInt_eq_toNat_cond]
          split <;> omega
    · right
      have apart : scaleAll elem counts ≠ 0 := by
        intro zero
        rw [zero] at negative
        exact absurd negative (by decide)
      rw [scale, if_neg apart, if_neg (by omega)]
      exact negative

/-- The total is 0 exactly after groups that close. -/
theorem scaleAll_eq_zero_iff {elem : SizeT} {counts : List Nat} :
    scaleAll elem counts = 0 ↔ Closes elem.toNat counts := by
  refine ⟨fun zero => ?_, scaleAll_of_closes⟩
  rcases groups_or_negative elem counts with ⟨earlier, group, rfl, closes, opened, same⟩ | negative
  · cases opened with
    | nil => simpa using closes
    | @snoc group last before inside =>
      rw [same, scaleAll_snoc] at zero
      have value := scale_open before last
      rw [zero] at value
      exact absurd inside.1 (by rw [← value]; exact Nat.lt_irrefl 0)
  · rw [zero] at negative
    exact absurd negative (by decide)

theorem scaleAll_of_open {elem : SizeT} {counts : List Nat} (opened : Open elem.toNat counts)
    (listed : counts ≠ []) : (scaleAll elem counts).toNat = elem.toNat * counts.prod % 2 ^ 64 := by
  cases opened with
  | nil => exact absurd rfl listed
  | snoc before inside =>
    rw [scaleAll_snoc]
    exact scale_open before _

/-- Extents that are not 0 stay in range if their exact product does. -/
theorem open_of_small {elem : Nat} {counts : List Nat} (positive : 0 < elem) (nonzero : 0 ∉ counts)
    (small : elem * counts.prod < 2 ^ 63) : Open elem counts := by
  induction counts using List.reverseRecOn with
  | nil => exact .nil
  | append_singleton counts count ih =>
    have last : count ≠ 0 := fun same => nonzero (by simp [same])
    have less : elem * counts.prod ≤ elem * (counts ++ [count]).prod := by
      rw [List.prod_append, List.prod_singleton]
      exact Nat.mul_le_mul_left _ (Nat.le_mul_of_pos_right _ (Nat.pos_of_ne_zero last))
    have exact : elem * (counts ++ [count]).prod % 2 ^ 64 = elem * (counts ++ [count]).prod :=
      Nat.mod_eq_of_lt (by omega)
    refine .snoc (ih (fun member => nonzero (List.mem_append_left _ member))
      (Nat.lt_of_le_of_lt less small)) ⟨?_, ?_⟩
    · rw [exact]
      exact Nat.mul_pos positive (Nat.pos_of_ne_zero (List.prod_ne_zero nonzero))
    · rw [exact]
      exact small

/-- Where no product of consecutive extents leaves the range, extents are groups that close and
one that is open. -/
theorem groups_of_small {elem : Nat} {counts : List Nat}
    (small : ∀ segment, segment <:+: counts → elem * segment.prod < 2 ^ 63) :
    ∃ earlier group, counts = earlier ++ group ∧ Closes elem earlier ∧ Open elem group := by
  induction counts using List.reverseRecOn with
  | nil => exact ⟨[], [], rfl, .nil, .nil⟩
  | append_singleton counts count ih =>
    obtain ⟨earlier, group, rfl, closes, opened⟩ := ih fun segment inside =>
      small segment (inside.trans (List.prefix_append _ _).isInfix)
    have inside := small (group ++ [count]) (by
      rw [List.append_assoc]
      exact (List.suffix_append _ _).isInfix)
    by_cases zero : elem * (group ++ [count]).prod = 0
    · have wraps := zero ▸ Nat.dvd_zero (2 ^ 64)
      exact ⟨earlier ++ (group ++ [count]), [], by simp, .group closes opened wraps, .nil⟩
    · refine ⟨earlier, group ++ [count], by simp, closes, .snoc opened ⟨?_, ?_⟩⟩
      · rw [Nat.mod_eq_of_lt (by omega)]
        exact Nat.pos_of_ne_zero zero
      · rw [Nat.mod_eq_of_lt (by omega)]
        exact inside

/-- Elements of size 0 make every group close at once. -/
theorem closes_of_empty (counts : List Nat) : Closes 0 counts := by
  induction counts using List.reverseRecOn with
  | nil => exact .nil
  | append_singleton counts count ih => exact .group ih .nil (by simp)

/-- While no extent is 0 and the exact product is in range, the total is the exact product. -/
theorem scaleAll_exact {elem : SizeT} {counts : List Nat} (listed : counts ≠ [])
    (nonzero : 0 ∉ counts) (small : elem.toNat * counts.prod < 2 ^ 63) :
    (scaleAll elem counts).toNat = elem.toNat * counts.prod := by
  rcases Nat.eq_zero_or_pos elem.toNat with zero | positive
  · rw [scaleAll_of_closes (zero ▸ closes_of_empty counts), zero, Nat.zero_mul]
    rfl
  · rw [scaleAll_of_open (open_of_small positive nonzero small) listed]
    exact Nat.mod_eq_of_lt (by omega)

end Totals

section Arrays

/-- The effective extents, in the order in which they were added. -/
def ArrayType.counts (a : ArrayType List) : List Nat := a.dimensions.map (·.dimension.count)

theorem withDimension_counts (a : ArrayType List) (h : Handle) (d : Dimension) :
    (a.withDimension h d).counts = a.counts ++ [d.count] := by
  simp [ArrayType.counts, ArrayType.withDimension]

theorem extend_eq_scale {a : ArrayType List} {d : Dimension} (fixed : d.Fixed)
    (nonneg : 0 ≤ a.elemSize.toInt) : a.extend d = scale a.elemSize a.totalSize d.count := by
  obtain ⟨count, effective⟩ := fixed
  have times : BitVec.ofNat 64 d.count = count := by
    simp [Dimension.count, effective]
  simp only [ArrayType.extend, effective, scale, nonneg, and_true, times]

/-- Where all extents are fixed, the total is what scaling by one after the other makes. -/
def ArrayType.Scaled (a : ArrayType List) : Prop :=
  a.Fixed → 0 ≤ a.elemSize.toInt → a.totalSize = scaleAll a.elemSize a.counts

theorem ArrayType.Scaled.withDimension {a : ArrayType List} (scaled : a.Scaled) (h : Handle)
    (d : Dimension) : (a.withDimension h d).Scaled := by
  intro fixed nonneg
  obtain ⟨earlier, last⟩ := withDimension_fixed_iff.mp fixed
  have nonneg : 0 ≤ a.elemSize.toInt := nonneg
  rw [withDimension_counts]
  show a.extend d = scaleAll a.elemSize (a.counts ++ [d.count])
  rw [scaleAll_snoc, ← scaled earlier nonneg, extend_eq_scale last nonneg]

theorem Change.scaled {s next : Seen} {call : Call} (change : Change s call next)
    (scaled : ∀ h a, s.types.arrays h = some a → a.Scaled) {h : Handle} {a : ArrayType List}
    (present : next.types.arrays h = some a) : a.Scaled := by
  cases change.array present with
  | @kept old was same =>
    rw [same]
    exact scaled h old was
  | created ready code here same =>
    rw [same]
    exact fun _ _ => rfl
  | @extended d old ready code was same =>
    rw [same]
    exact (scaled h old was).withDimension s.next d

variable {trace : List (Transition Machine Event)} {final : Machine}

theorem scaled_of_run (run : Run trace final) {h : Handle} {a : ArrayType List}
    (present : final.store.view.arrays h = some a) : a.Scaled := by
  have all := run.invariant (fun m => ∀ h a, m.store.view.arrays h = some a → a.Scaled)
    nofun ?_
  · exact all h a present
  · intro m event next scaled step h a present
    exact step.change.scaled scaled present

theorem arrayGetSize_of_present {m : Machine} {h : Handle} {a : ArrayType List}
    (present : m.store.view.arrays h = some a) :
    arrayGetSize m.store (some h) true = .ok a.totalSize := by
  obtain ⟨record, there, rfl⟩ := Option.map_eq_some_iff.mp present
  simp only [arrayGetSize, checkPtr, refute, deref, there, bind, Except.bind]
  rfl

end Arrays

section Orders

/-- If an extent is 0, the last total is. -/
def KeepsZero (elem : Nat) (counts : List Nat) : Prop := 0 ∈ counts → Closes elem counts

/-- The exact size is in range, and it is the total exactly if a zero extent is kept. -/
theorem scaleAll_eq_prod_iff {elem : SizeT} {counts : List Nat} (listed : counts ≠ [])
    (small : elem.toNat * counts.prod < 2 ^ 63) :
    (scaleAll elem counts).toInt = (elem.toNat * counts.prod : Nat) ↔ KeepsZero elem.toNat counts := by
  by_cases zero : 0 ∈ counts
  · have product : counts.prod = 0 := List.prod_eq_zero zero
    rw [product, Nat.mul_zero, KeepsZero, ← scaleAll_eq_zero_iff]
    constructor
    · intro none _
      exact BitVec.eq_of_toInt_eq none
    · intro keeps
      rw [keeps zero]
      rfl
  · have exact := scaleAll_exact listed zero small
    refine iff_of_true ?_ fun member => absurd member zero
    rw [BitVec.toInt_eq_toNat_of_lt (by omega), exact]

/-- Where no product of consecutive extents leaves the range, a zero extent is kept exactly if it
is the last one, or the elements have size 0. -/
theorem keepsZero_iff_of_small {elem : Nat} {counts : List Nat}
    (small : ∀ segment, segment <:+: counts → elem * segment.prod < 2 ^ 63) :
    KeepsZero elem counts ↔ 0 ∉ counts ∨ elem = 0 ∨ counts.getLast? = some 0 := by
  constructor
  · intro keeps
    by_cases zero : 0 ∈ counts
    · right
      cases keeps zero with
      | nil => cases zero
      | @group earlier group count before opened wraps =>
        have segment := small (group ++ [count]) (List.suffix_append _ _).isInfix
        have none := Nat.eq_zero_of_dvd_of_lt wraps (by omega)
        by_cases empty : elem = 0
        · exact .inl empty
        have product := (Nat.mul_eq_zero.mp none).resolve_left empty
        rw [List.prod_append, List.prod_singleton] at product
        have last : count = 0 := by
          refine (Nat.mul_eq_zero.mp product).resolve_left ?_
          cases opened with
          | nil => exact Nat.one_ne_zero
          | snoc _ inside =>
            intro vanishes
            rw [vanishes, Nat.mul_zero] at inside
            exact absurd inside.1 (by decide)
        right
        rw [last, ← List.append_assoc, List.getLast?_concat]
    · exact .inl zero
  · rintro (nonzero | rfl | last) zero
    · exact absurd zero nonzero
    · exact closes_of_empty counts
    · obtain ⟨front, rfl⟩ := List.getLast?_eq_some_iff.mp last
      obtain ⟨earlier, group, rfl, closes, opened⟩ := groups_of_small fun segment inside =>
        small segment (inside.trans (List.prefix_append front [0]).isInfix)
      rw [List.append_assoc]
      exact .group closes opened (by simp)

/-- `mam_array_get_size` reports this number. -/
def Reports (m : Machine) (h : Handle) (size : Nat) : Prop :=
  ∃ word, arrayGetSize m.store (some h) true = .ok word ∧ word.toInt = size

variable {trace : List (Transition Machine Event)} {final : Machine} {h : Handle}
  {a : ArrayType List}

theorem reports_iff_keepsZero (run : Run trace final) (present : final.store.view.arrays h = some a)
    (listed : a.dimensions ≠ []) (fixed : a.Fixed) (nonneg : 0 ≤ a.elemSize.toInt)
    (small : a.elemSize.toNat * a.count < 2 ^ 63) :
    Reports final h (a.elemSize.toNat * a.count) ↔ KeepsZero a.elemSize.toNat a.counts := by
  have extents : a.counts ≠ [] := fun empty => listed (List.map_eq_nil_iff.mp empty)
  unfold Reports
  rw [arrayGetSize_of_present present, scaled_of_run run present fixed nonneg,
    ← scaleAll_eq_prod_iff extents small]
  constructor
  · rintro ⟨word, ⟨⟩, told⟩
    exact told
  · intro told
    exact ⟨_, rfl, told⟩

/-- Where nothing overflows on the way, the size reported is the exact product unless an extent
follows one that is 0. -/
theorem reports_iff_zero_last (run : Run trace final) (present : final.store.view.arrays h = some a)
    (listed : a.dimensions ≠ []) (fixed : a.Fixed) (nonneg : 0 ≤ a.elemSize.toInt)
    (small : ∀ segment, segment <:+: a.counts → a.elemSize.toNat * segment.prod < 2 ^ 63) :
    Reports final h (a.elemSize.toNat * a.count) ↔
      0 ∉ a.counts ∨ a.elemSize.toNat = 0 ∨ a.counts.getLast? = some 0 :=
  (reports_iff_keepsZero run present listed fixed nonneg (small a.counts List.infix_rfl)).trans
    (keepsZero_iff_of_small small)

/-- The dimensions of two arrays are the same up to order. -/
def Reordered (a b : ArrayType List) : Prop :=
  (a.dimensions.map (·.dimension)).Perm (b.dimensions.map (·.dimension))

theorem Reordered.fixed {b : ArrayType List} (perm : Reordered a b) (fixed : a.Fixed) : b.Fixed := by
  intro block member
  have other := perm.mem_iff.mpr (List.mem_map_of_mem (f := (·.dimension)) member)
  obtain ⟨own, there, same⟩ := List.mem_map.mp other
  rw [← same]
  exact fixed own there

theorem Reordered.count {b : ArrayType List} (perm : Reordered a b) : b.count = a.count := by
  have counts := (perm.map Dimension.count).prod_eq
  simp only [List.map_map] at counts
  exact counts.symm

/-- The size reported is the exact product exactly if a zero extent is kept; and with that
it does not depend on the order of the dimensions. -/
theorem exactSize_iff_keepsZero (run : Run trace final)
    (present : final.store.view.arrays h = some a) (listed : a.dimensions ≠ []) (fixed : a.Fixed)
    (nonneg : 0 ≤ a.elemSize.toInt) (small : a.elemSize.toNat * a.count < 2 ^ 63) :
    (Reports final h (a.elemSize.toNat * a.count) ↔ KeepsZero a.elemSize.toNat a.counts) ∧
      ∀ (others : List (Transition Machine Event)) (last : Machine) (k : Handle)
        (b : ArrayType List), Run others last → last.store.view.arrays k = some b →
        b.elemSize = a.elemSize → Reordered a b → KeepsZero b.elemSize.toNat b.counts →
        Reports last k (a.elemSize.toNat * a.count) := by
  refine ⟨reports_iff_keepsZero run present listed fixed nonneg small, ?_⟩
  intro others last k b again there same perm keeps
  rw [← perm.count, ← same] at small ⊢
  refine (reports_iff_keepsZero again there ?_ (perm.fixed fixed) (same ▸ nonneg) small).mpr keeps
  intro empty
  have none := perm.length_eq
  simp only [List.length_map, empty, List.length_nil, List.length_eq_zero_iff] at none
  exact listed none

/-- Two arrays with the same extents in either order. -/
def turnedCalls : List (Op × Memory) :=
  [(.contextCreate (some []) (some lp64) true, plenty),
   (.contextCreateArray (some 0) (some ⟨4, 0⟩) true, plenty),
   (.arrayAddDimension (some 1) (some ⟨.fixed 2, none⟩), plenty),
   (.arrayAddDimension (some 1) (some ⟨.fixed 3, some (.fixed 4)⟩), plenty),
   (.contextCreateArray (some 0) (some ⟨4, 0⟩) true, plenty),
   (.arrayAddDimension (some 4) (some ⟨.fixed 3, some (.fixed 4)⟩), plenty),
   (.arrayAddDimension (some 4) (some ⟨.fixed 2, none⟩), plenty)]

theorem turnedCalls_report :
    Reports (replay respond Machine.initial turnedCalls).2 1 32 ∧
      Reports (replay respond Machine.initial turnedCalls).2 4 32 := by
  have exact := exactSize_iff_keepsZero (h := 1) (replay_run turnedCalls) rfl nofun
    (by decide +kernel) (by decide +kernel) (by decide +kernel)
  refine ⟨exact.1.mpr fun zero => absurd zero (by decide +kernel), ?_⟩
  exact exact.2 _ _ 4 _ (replay_run turnedCalls) rfl rfl (.swap _ _ _)
    fun zero => absurd zero (by decide +kernel)

/-- An array with an extent of 0, and then one of 3. -/
def restartedCalls : List (Op × Memory) :=
  [(.contextCreate (some []) (some lp64) true, plenty),
   (.contextCreateArray (some 0) (some ⟨4, 0⟩) true, plenty),
   (.arrayAddDimension (some 1) (some ⟨.fixed 0, none⟩), plenty),
   (.arrayAddDimension (some 1) (some ⟨.fixed 3, none⟩), plenty)]

/-- The second extent begins a new product. -/
theorem product_restarted : ¬ ∀ (trace : List (Transition Machine Event)) (final : Machine)
    (h : Handle) (a : ArrayType List), Run trace final → final.store.view.arrays h = some a →
    a.dimensions ≠ [] → a.Fixed → 0 ≤ a.elemSize.toInt → a.elemSize.toNat * a.count < 2 ^ 63 →
    Reports final h (a.elemSize.toNat * a.count) := by
  intro all
  obtain ⟨word, reported, told⟩ := all _ _ 1 _ (replay_run restartedCalls) rfl nofun
    (by decide +kernel) (by decide +kernel) (by decide +kernel)
  cases reported
  exact absurd told (by decide +kernel)

end Orders

end Mam.CopyEngine
