import Mam.CopyEngine.StructLayout
import Mam.Library.Overlaid

/-! The layout of a union is the same in whatever order its members are added. -/

namespace Mam.CopyEngine

open Mam.Library

section Members

/-- The numbers stored are those of all members laid over each other. -/
structure Overlays (c : Construct List) (parts : List Library.Part) : Prop where
  lastOffset : c.lastOffset = 0
  totalSize : c.totalSize.toNat = Overlaid.total parts
  alignment : c.alignment.toNat = Sequential.alignment parts

variable {c : Construct List} {plans : List FieldPlan}

theorem total_unaligned (plans : List FieldPlan) :
    Overlaid.total (parts true plans) = Overlaid.widest (parts true plans) := by
  rw [Overlaid.total, Sequential.alignment_of_unaligned (parts_unaligned plans), roundUp_one]

/-- One more member makes the numbers those of the longer list. -/
theorem placeExact_overlays (plan : FieldPlan) (union : c.type = .union)
    (first : ∀ offset ∈ plan.userOffset, offset = 0) (overlays : Overlays c (parts c.packed plans))
    (powers : ∀ other ∈ plans ++ [plan], other.align.toNat.isPowerOfTwo) :
    c.placeExact plan.userOffset plan.size.toNat plan.align.toNat =
      { offset := 0
        lastOffset := 0
        totalSize := Overlaid.total (parts c.packed (plans ++ [plan]))
        alignment := Sequential.alignment (parts c.packed (plans ++ [plan])) } := by
  have total := overlays.totalSize
  have aligned := overlays.alignment
  have offset : (c.placeExact plan.userOffset plan.size.toNat plan.align.toNat).offset = 0 :=
    (placeExact_union plan.size.toNat plan.align.toNat union first).1
  have lastOffset : (c.placeExact plan.userOffset plan.size.toNat plan.align.toNat).lastOffset = 0 := by
    simp [Construct.placeExact, union, overlays.lastOffset]
  have alignment : (c.placeExact plan.userOffset plan.size.toNat plan.align.toNat).alignment =
      Sequential.alignment (parts c.packed (plans ++ [plan])) := by
    cases packed : c.packed with
    | true =>
      rw [packed, Sequential.alignment_of_unaligned (parts_unaligned plans)] at aligned
      rw [Sequential.alignment_of_unaligned (parts_unaligned _)]
      simp [Construct.placeExact, packed, aligned]
    | false =>
      rw [packed] at aligned
      rw [parts_snoc, Sequential.alignment_snoc]
      simp [Construct.placeExact, packed, aligned, FieldPlan.part]
  have size : (c.placeExact plan.userOffset plan.size.toNat plan.align.toNat).totalSize =
      Overlaid.total (parts c.packed (plans ++ [plan])) := by
    cases packed : c.packed with
    | true =>
      rw [packed, total_unaligned] at total
      rw [total_unaligned, parts_snoc, Overlaid.widest_snoc]
      simp [Construct.placeExact, union, packed, total, FieldPlan.part]
    | false =>
      have powers := parts_power powers false
      rw [packed] at total aligned
      rw [parts_snoc] at powers ⊢
      rw [Overlaid.total_snoc powers, Sequential.alignment_snoc]
      simp [Construct.placeExact, union, packed, total, aligned, FieldPlan.part]
  cases exact : c.placeExact plan.userOffset plan.size.toNat plan.align.toNat with
  | mk a b d e =>
    rw [exact] at offset lastOffset alignment size
    simp only at offset lastOffset alignment size
    rw [offset, lastOffset, alignment, size]

/-- The members of a union are all at its start, and its numbers are theirs if they fit. -/
private structure Overlapping (plans : List FieldPlan) (c : Construct List) : Prop where
  powers : ∀ plan ∈ plans, plan.align.toNat.isPowerOfTwo
  own : c.alignment.toNat.isPowerOfTwo
  told : c.fields.map (·.told) = plans.map (·.told)
  first : c.type = .union → ∀ f ∈ c.fields, f.offset = 0
  overlays : c.type = .union → Overlaid.total (parts c.packed plans) < 2 ^ 63 →
    Overlays c (parts c.packed plans)

private theorem overlapping_fresh (owner : Handle) (type : ConstructType) (name : CString)
    (packed : Bool) : Overlapping [] (.fresh owner type name packed) := by
  refine ⟨fun _ member => absurd member List.not_mem_nil, Nat.isPowerOfTwo_one, rfl, ?_, ?_⟩
  · exact fun _ _ member => absurd member List.not_mem_nil
  · exact fun _ _ => ⟨rfl, (roundUp_one 0).symm, rfl⟩

private theorem Overlapping.withField {plan : FieldPlan} (overlapping : Overlapping plans c)
    (h : Handle) (power : plan.align.toNat.isPowerOfTwo)
    (first : c.type = .union → ∀ offset ∈ plan.userOffset, offset = 0) :
    Overlapping (plans ++ [plan]) (c.withField h plan) := by
  have powers : ∀ other ∈ plans ++ [plan], other.align.toNat.isPowerOfTwo := by
    intro other member
    rcases List.mem_append.mp member with old | new
    · exact overlapping.powers other old
    · obtain rfl := List.mem_singleton.mp new
      exact power
  refine ⟨powers, place_power plan.userOffset plan.size overlapping.own power, ?_, ?_, ?_⟩
  · simp only [Construct.withField, List.map_append, overlapping.told]
    rfl
  · intro union f member
    have union : c.type = .union := union
    rcases List.mem_append.mp member with old | new
    · exact overlapping.first union f old
    · obtain rfl := List.mem_singleton.mp new
      have first := first union
      show (c.place plan.userOffset plan.size plan.align).offset = 0
      cases given : plan.userOffset with
      | none => simp [Construct.place, union]
      | some offset =>
        rw [given] at first
        exact first offset rfl
  · intro union small
    have union : c.type = .union := union
    have small : Overlaid.total (parts c.packed (plans ++ [plan])) < 2 ^ 63 := small
    have less : Overlaid.total (parts c.packed plans) ≤
        Overlaid.total (parts c.packed (plans ++ [plan])) := by
      have all := parts_power powers c.packed
      rw [parts_snoc] at all ⊢
      exact Overlaid.total_le_snoc all
    have before := overlapping.overlays union (Nat.lt_of_le_of_lt less small)
    have exact := placeExact_overlays plan union (first union) before powers
    have fits : c.Fits plan.userOffset plan.size.toNat plan.align.toNat := by
      refine ⟨?_, ?_⟩
      · rw [exact]
        exact Nat.two_pow_pos 63
      · rw [exact]
        exact small
    have placed := place_exactly overlapping.own power fits
    rw [exact] at placed
    refine ⟨?_, placed.totalSize, placed.alignment⟩
    exact BitVec.eq_of_toNat_eq placed.lastOffset

end Members

section Runs

variable {trace : List (Transition Machine Event)} {final : Machine}

private theorem overlapping_of_run (run : Run trace final) {h : Handle} {c : Construct List}
    (present : final.store.view.constructs h = some c) : Overlapping (members h trace) c := by
  refine members_rule run overlapping_fresh ?_ ?_ present
  · intro plans c flag overlapping
    exact ⟨overlapping.powers, overlapping.own, overlapping.told, overlapping.first,
      fun union small =>
        have before := overlapping.overlays union small
        ⟨before.lastOffset, before.totalSize, before.alignment⟩⟩
  · intro s op plan c plans powered ready there overlapping
    exact overlapping.withField s.next (powered.field ready) fun union offset given =>
      (ready.offsets there offset given).2 union

/-- In every run, and for every union whose members fit: every member is at offset 0, and the
size and the alignment are those of the largest members (for a packed union, the size alone);
so a union that any run makes of the same members in another order has the same. -/
theorem union_layout (run : Run trace final) {h : Handle} {c : Construct List}
    (present : final.store.view.constructs h = some c) (union : c.type = .union)
    (small : Overlaid.total (parts c.packed (members h trace)) < 2 ^ 63) :
    c.fields.map (·.told) = (members h trace).map (·.told) ∧
      (∀ f ∈ c.fields, f.offset = 0) ∧
      c.totalSize.toNat = Overlaid.total (parts c.packed (members h trace)) ∧
      c.alignment.toNat = Sequential.alignment (parts c.packed (members h trace)) ∧
      (c.packed = true → c.totalSize.toNat = Overlaid.widest (parts true (members h trace)) ∧
        c.alignment.toNat = 1) ∧
      ∀ {other : List (Transition Machine Event)} {last : Machine}, Run other last →
        ∀ k d, last.store.view.constructs k = some d → d.type = .union → d.packed = c.packed →
          (parts d.packed (members k other)).Perm (parts c.packed (members h trace)) →
          d.totalSize = c.totalSize ∧ d.alignment = c.alignment := by
  have overlapping := overlapping_of_run run present
  have overlays := overlapping.overlays union small
  refine ⟨overlapping.told, overlapping.first union, overlays.totalSize, overlays.alignment, ?_, ?_⟩
  · intro packed
    rw [packed] at overlays
    refine ⟨overlays.totalSize.trans (total_unaligned _), ?_⟩
    exact overlays.alignment.trans (Sequential.alignment_of_unaligned (parts_unaligned _))
  · intro other last again k d there also same permuted
    have total := Overlaid.total_perm permuted
    have others := (overlapping_of_run again there).overlays also (total ▸ small)
    refine ⟨BitVec.eq_of_toNat_eq ?_, BitVec.eq_of_toNat_eq ?_⟩
    · rw [others.totalSize, overlays.totalSize, total]
    · rw [others.alignment, overlays.alignment, Overlaid.alignment_perm permuted]

/-- Two unions of the same members, in different orders. -/
def reorderedCalls : List (Op × Memory) :=
  [(.contextCreate (some []) (some lp64) true, plenty),
   (.contextCreateConstruct .union (some 0) (some [97]) false true, plenty),
   (.constructAddField (some 1) (some [97]) (some ⟨2, 0⟩) [], plenty),
   (.constructAddField (some 1) (some [98]) (some ⟨6, 0⟩) [.offset 0], plenty),
   (.constructAddField (some 1) (some [99]) (some ⟨10, 0⟩) [], plenty),
   (.contextCreateConstruct .union (some 0) (some [98]) false true, plenty),
   (.constructAddField (some 5) (some [97]) (some ⟨10, 0⟩) [], plenty),
   (.constructAddField (some 5) (some [98]) (some ⟨6, 0⟩) [], plenty),
   (.constructAddField (some 5) (some [99]) (some ⟨2, 0⟩) [], plenty)]

theorem reorderedCalls_layout :
    ∃ c d, (replay respond Machine.initial reorderedCalls).2.store.view.constructs 1 = some c ∧
      (replay respond Machine.initial reorderedCalls).2.store.view.constructs 5 = some d ∧
      (∀ f ∈ c.fields, f.offset = 0) ∧ d.totalSize = c.totalSize ∧ d.alignment = c.alignment := by
  have permuted : (parts false (members 5 (replay respond Machine.initial reorderedCalls).1)).Perm
      (parts false (members 1 (replay respond Machine.initial reorderedCalls).1)) := by
    decide +kernel
  have layout := union_layout (h := 1) (replay_run reorderedCalls) rfl rfl (by decide +kernel)
  exact ⟨_, _, rfl, rfl, layout.2.1,
    layout.2.2.2.2.2 (replay_run reorderedCalls) 5 _ rfl rfl rfl permuted⟩

end Runs

end Mam.CopyEngine
