import Mam.CopyEngine.Members
import Mam.Library.Sequential

/-! The layout of a struct whose fields are added without OFFSET is the layout of the whole
list of its fields. -/

namespace Mam.CopyEngine

open Mam.Library Mam.Library.Sequential

section Parts

/-- A field as a part to lay out; a packed struct needs no alignment. -/
def FieldPlan.part (packed : Bool) (plan : FieldPlan) : Library.Part :=
  { size := plan.size.toNat, align := if packed then 1 else plan.align.toNat }

def parts (packed : Bool) (plans : List FieldPlan) : List Library.Part := plans.map (·.part packed)

theorem parts_snoc (packed : Bool) (plans : List FieldPlan) (plan : FieldPlan) :
    parts packed (plans ++ [plan]) = parts packed plans ++ [plan.part packed] := by
  simp [parts]

theorem parts_unaligned (plans : List FieldPlan) : ∀ part ∈ parts true plans, part.align = 1 := by
  intro part member
  obtain ⟨plan, _, rfl⟩ := List.mem_map.mp member
  rfl

theorem parts_power {plans : List FieldPlan} (powers : ∀ plan ∈ plans, plan.align.toNat.isPowerOfTwo)
    (packed : Bool) : ∀ part ∈ parts packed plans, part.align.isPowerOfTwo := by
  intro part member
  obtain ⟨plan, listed, rfl⟩ := List.mem_map.mp member
  cases packed with
  | true => exact Nat.isPowerOfTwo_one
  | false => exact powers plan listed

/-- The numbers stored are those of the layout of the whole list. -/
structure InSequence (c : Construct List) (parts : List Library.Part) : Prop where
  offsets : c.fields.map (·.offset.toNat) = offsetsFrom 0 parts
  lastOffset : c.lastOffset.toNat = stopFrom 0 parts
  totalSize : c.totalSize.toNat = total parts
  alignment : c.alignment.toNat = alignment parts

variable {c : Construct List} {plans : List FieldPlan}

/-- One more field is placed as the last part of the longer list. -/
theorem placeExact_sequence (plan : FieldPlan) (struct : c.type = .struct)
    (sequence : InSequence c (parts c.packed plans)) :
    c.placeExact none plan.size.toNat plan.align.toNat =
      { offset := roundUp (stopFrom 0 (parts c.packed plans)) (plan.part c.packed).align
        lastOffset := stopFrom 0 (parts c.packed (plans ++ [plan]))
        totalSize := total (parts c.packed (plans ++ [plan]))
        alignment := alignment (parts c.packed (plans ++ [plan])) } := by
  have last := sequence.lastOffset
  have aligned := sequence.alignment
  cases packed : c.packed with
  | true =>
    rw [packed] at last aligned
    rw [alignment_of_unaligned (parts_unaligned plans)] at aligned
    unfold total
    rw [alignment_of_unaligned (parts_unaligned _), roundUp_one, parts_snoc, stopFrom_snoc]
    simp [Construct.placeExact, struct, packed, last, aligned, FieldPlan.part]
  | false =>
    rw [packed] at last aligned
    unfold total
    rw [parts_snoc, stopFrom_snoc, alignment_snoc]
    simp [Construct.placeExact, struct, packed, last, aligned, FieldPlan.part]

/-- Adding a field without OFFSET keeps a struct in sequence. -/
theorem InSequence.withField {plan : FieldPlan} (sequence : InSequence c (parts c.packed plans))
    (h : Handle) (struct : c.type = .struct) (own : c.alignment.toNat.isPowerOfTwo)
    (power : plan.align.toNat.isPowerOfTwo) (free : plan.userOffset = none)
    (small : total (parts c.packed (plans ++ [plan])) < 2 ^ 63) :
    InSequence (c.withField h plan) (parts c.packed (plans ++ [plan])) := by
  have exact := placeExact_sequence plan struct sequence
  have fits : c.Fits plan.userOffset plan.size.toNat plan.align.toNat := by
    rw [free]
    refine ⟨?_, ?_⟩
    · rw [exact]
      exact Nat.lt_of_le_of_lt (le_roundUp _ _) small
    · rw [exact]
      exact small
  have placed := place_exactly own power fits
  rw [free, exact] at placed
  have offset := placed.offset
  refine ⟨?_, ?_, ?_, ?_⟩
  · simp only [Construct.withField, List.map_append, List.map_cons, List.map_nil, FieldPlan.entry,
      free, offset, sequence.offsets, parts_snoc, offsetsFrom_snoc]
  · simp only [Construct.withField, free]
    exact placed.lastOffset
  · simp only [Construct.withField, free]
    exact placed.totalSize
  · simp only [Construct.withField, free]
    exact placed.alignment

/-- What a run says of a field when it adds it, and what the construct says of it later. -/
def FieldPlan.told (plan : FieldPlan) : CString × FieldType × SizeT :=
  (plan.name, plan.fieldType, plan.size)

def Field.told (f : Field) : CString × FieldType × SizeT := (f.name, f.fieldType, f.size)

/-- The construct has the fields that were added, and is in sequence if it is a struct to
which they were added without OFFSET, in range. -/
private structure Sequenced (plans : List FieldPlan) (c : Construct List) : Prop where
  powers : ∀ plan ∈ plans, plan.align.toNat.isPowerOfTwo
  own : c.alignment.toNat.isPowerOfTwo
  told : c.fields.map (·.told) = plans.map (·.told)
  sequence : c.type = .struct → (∀ plan ∈ plans, plan.userOffset = none) →
    total (parts c.packed plans) < 2 ^ 63 → InSequence c (parts c.packed plans)

private theorem sequenced_fresh (owner : Handle) (type : ConstructType) (name : CString)
    (packed : Bool) : Sequenced [] (.fresh owner type name packed) := by
  refine ⟨fun _ member => absurd member List.not_mem_nil, Nat.isPowerOfTwo_one, rfl, ?_⟩
  intro _ _ _
  exact ⟨rfl, rfl, (roundUp_one 0).symm, rfl⟩

private theorem Sequenced.withField {plan : FieldPlan} (sequenced : Sequenced plans c) (h : Handle)
    (power : plan.align.toNat.isPowerOfTwo) : Sequenced (plans ++ [plan]) (c.withField h plan) := by
  have powers : ∀ other ∈ plans ++ [plan], other.align.toNat.isPowerOfTwo := by
    intro other member
    rcases List.mem_append.mp member with old | new
    · exact sequenced.powers other old
    · obtain rfl := List.mem_singleton.mp new
      exact power
  refine ⟨powers, place_power plan.userOffset plan.size sequenced.own power, ?_, ?_⟩
  · simp only [Construct.withField, List.map_append, sequenced.told]
    rfl
  · intro struct free small
    have less : total (parts c.packed plans) ≤ total (parts c.packed (plans ++ [plan])) := by
      have all := parts_power powers c.packed
      rw [parts_snoc] at all ⊢
      exact total_le_snoc all
    have before := sequenced.sequence struct
      (fun other member => free other (List.mem_append_left _ member)) (Nat.lt_of_le_of_lt less small)
    exact before.withField h struct sequenced.own power
      (free plan (List.mem_append_right _ List.mem_cons_self)) small

end Parts

section Runs

/-- The stored numbers are a layout of the parts in their order, and no other has a smaller
offset, alignment or total anywhere. -/
structure Earliest (c : Construct List) (parts : List Library.Part) : Prop where
  placed : Placed 0 parts (c.fields.map (·.offset.toNat)) c.lastOffset.toNat
  offsets : ∀ offsets stop, Placed 0 parts offsets stop →
    List.Forall₂ (· ≤ ·) (c.fields.map (·.offset.toNat)) offsets
  alignment : ∀ common, 0 < common → (∀ part ∈ parts, part.align ∣ common) →
    c.alignment.toNat ≤ common
  totalSize : ∀ offsets stop common size, Placed 0 parts offsets stop → stop ≤ size →
    (∀ part ∈ parts, part.align ∣ common) → common ∣ size → c.totalSize.toNat ≤ size

theorem InSequence.earliest {c : Construct List} {parts : List Library.Part} (sequence : InSequence c parts)
    (powers : ∀ part ∈ parts, part.align.isPowerOfTwo) : Earliest c parts := by
  have positive (part : Library.Part) (member : part ∈ parts) := Nat.pos_of_isPowerOfTwo (powers part member)
  refine ⟨?_, ?_, ?_, ?_⟩
  · rw [sequence.offsets, sequence.lastOffset]
    exact placed_offsetsFrom positive 0
  · intro offsets stop placed
    rw [sequence.offsets]
    exact (placed.least positive (Nat.le_refl 0)).1
  · intro common large divides
    rw [sequence.alignment]
    exact Nat.le_of_dvd large (alignment_dvd divides)
  · intro offsets stop common size placed holds divides padded
    rw [sequence.totalSize]
    exact placed.total_le powers holds divides padded

/-- Every offset is the sum of the sizes before it, and the total is the sum of all. -/
structure Dense (c : Construct List) : Prop where
  offsets : ∀ i f, c.fields[i]? = some f →
    f.offset.toNat = ((c.fields.take i).map (·.size.toNat)).sum
  totalSize : c.totalSize.toNat = (c.fields.map (·.size.toNat)).sum
  alignment : c.alignment.toNat = 1

theorem InSequence.dense {c : Construct List} {plans : List FieldPlan}
    (sequence : InSequence c (parts true plans)) (told : c.fields.map (·.told) = plans.map (·.told)) :
    Dense c := by
  have unaligned := parts_unaligned plans
  have sizes : (parts true plans).map (·.size) = c.fields.map (·.size.toNat) := by
    have same := congrArg (List.map fun entry : CString × FieldType × SizeT => entry.2.2.toNat) told
    simp only [List.map_map] at same
    rw [parts, List.map_map]
    exact same.symm
  refine ⟨?_, ?_, ?_⟩
  · intro i f there
    have offset : (offsetsFrom 0 (parts true plans))[i]? = some f.offset.toNat := by
      rw [← sequence.offsets, List.getElem?_map, there]
      rfl
    rw [getElem_offsetsFrom_of_unaligned unaligned 0 offset, Nat.zero_add, List.map_take, sizes,
      List.map_take]
  · rw [sequence.totalSize, total, alignment_of_unaligned unaligned, roundUp_one,
      stopFrom_of_unaligned unaligned, Nat.zero_add, sizes]
  · rw [sequence.alignment, alignment_of_unaligned unaligned]

variable {trace : List (Transition Machine Event)} {final : Machine}

/-- In every run, and for every struct whose fields were all added without OFFSET and fit: an
unpacked one has the layout of the whole list of its fields, than which no layout in their
order is smaller anywhere; a packed one has no gaps. -/
theorem struct_layout (run : Run trace final) {h : Handle} {c : Construct List}
    (present : final.store.view.constructs h = some c) (struct : c.type = .struct)
    (free : ∀ plan ∈ members h trace, plan.userOffset = none)
    (small : total (parts c.packed (members h trace)) < 2 ^ 63) :
    c.fields.map (·.told) = (members h trace).map (·.told) ∧
      (c.packed = false → InSequence c (parts false (members h trace)) ∧
        Earliest c (parts false (members h trace))) ∧
      (c.packed = true → Dense c) := by
  have sequenced : Sequenced (members h trace) c := by
    refine members_rule run sequenced_fresh ?_ ?_ present
    · intro plans c flag sequenced
      exact ⟨sequenced.powers, sequenced.own, sequenced.told, fun struct free small =>
        have before := sequenced.sequence struct free small
        ⟨before.offsets, before.lastOffset, before.totalSize, before.alignment⟩⟩
    · intro s op plan c plans powered ready there sequenced
      exact sequenced.withField s.next (powered.field ready)
  have sequence := sequenced.sequence struct free small
  refine ⟨sequenced.told, ?_, ?_⟩
  · intro unpacked
    rw [unpacked] at sequence
    exact ⟨sequence, sequence.earliest (parts_power sequenced.powers false)⟩
  · intro packed
    rw [packed] at sequence
    exact sequence.dense sequenced.told

/-- A struct that is padded after its first and after its last field, and a packed one with
the same fields. -/
def paddedCalls : List (Op × Memory) :=
  [(.contextCreate (some []) (some lp64) true, plenty),
   (.contextCreateConstruct .struct (some 0) (some [97]) false true, plenty),
   (.constructAddField (some 1) (some [97]) (some ⟨0, 0⟩) [], plenty),
   (.constructAddField (some 1) (some [98]) (some ⟨6, 0⟩) [], plenty),
   (.constructAddField (some 1) (some [99]) (some ⟨2, 0⟩) [], plenty),
   (.contextCreateConstruct .struct (some 0) (some [98]) true true, plenty),
   (.constructAddField (some 5) (some [97]) (some ⟨0, 0⟩) [], plenty),
   (.constructAddField (some 5) (some [98]) (some ⟨6, 0⟩) [], plenty),
   (.constructAddField (some 5) (some [99]) (some ⟨2, 0⟩) [], plenty)]

theorem paddedCalls_layout :
    (∃ c, (replay respond Machine.initial paddedCalls).2.store.view.constructs 1 = some c ∧
      c.fields.map (·.offset.toNat) = [0, 8, 16] ∧ c.totalSize = 24 ∧
      Earliest c (parts false (members 1 (replay respond Machine.initial paddedCalls).1))) ∧
    ∃ c, (replay respond Machine.initial paddedCalls).2.store.view.constructs 5 = some c ∧
      c.fields.map (·.offset.toNat) = [0, 1, 9] ∧ Dense c := by
  refine ⟨⟨_, rfl, rfl, rfl, ?_⟩, ⟨_, rfl, rfl, ?_⟩⟩
  · exact ((struct_layout (h := 1) (replay_run paddedCalls) rfl rfl (by decide +kernel)
      (by decide +kernel)).2.1 rfl).2
  · exact (struct_layout (h := 5) (replay_run paddedCalls) rfl rfl (by decide +kernel)
      (by decide +kernel)).2.2 rfl

end Runs

end Mam.CopyEngine
