import Mam.CopyEngine.Built

/-! A type flattened into scalar leaves, and where these lie. -/

namespace Mam.CopyEngine

open Mam.Library

/-- A step from a type into one of its parts. -/
inductive PathStep where
  | member (type : ConstructType) (index : Nat)
  | element (index : Nat)
deriving DecidableEq, Repr

/-- A scalar at its place in a type. -/
structure Scalar where
  range : ByteRange
  align : Nat
deriving DecidableEq, Repr

/-- A scalar of a part that begins at `offset`. -/
def Scalar.shift (leaf : Scalar) (offset : Nat) : Scalar := ⟨leaf.range.shift offset, leaf.align⟩

/-- The leaves of a field type on a platform. Types inside a construct or array are read
on the platform of its own context. -/
inductive Leaf (s : Store List) : Platform → FieldType → List PathStep → Scalar → Prop where
  | scalar {platform : Platform} {fieldType : FieldType} {size align : SizeT}
      (resolved : fieldType.resolved platform = none)
      (sized : dataTypeSizeAlign (platform.mapTag fieldType.type) = .ok (size, align)) :
      Leaf s platform fieldType [] ⟨⟨0, size.toNat⟩, align.toNat⟩
  | member {platform inner : Platform} {fieldType : FieldType} {h : Handle} {c : Construct List}
      {i : Nat} {f : Field} {path : List PathStep} {leaf : Scalar}
      (resolved : fieldType.resolved platform = some (.construct h))
      (present : s.constructs h = some c) (field : c.fields[i]? = some f)
      (owner : s.platform c.context = some inner) (below : Leaf s inner f.fieldType path leaf) :
      Leaf s platform fieldType (.member c.type i :: path) (leaf.shift f.offset.toNat)
  | element {platform inner : Platform} {fieldType : FieldType} {h : Handle} {a : ArrayType List}
      {k : Nat} {path : List PathStep} {leaf : Scalar}
      (resolved : fieldType.resolved platform = some (.array h))
      (present : s.arrays h = some a) (listed : a.dimensions ≠ []) (counted : k < a.count)
      (owner : s.platform a.context = some inner) (below : Leaf s inner a.fieldType path leaf) :
      Leaf s platform fieldType (.element k :: path) (leaf.shift (k * a.elemSize.toNat))

/-- The paths agree up to a union, and go on into different members of it. -/
inductive PartAtUnion : List PathStep → List PathStep → Prop where
  | here {i j : Nat} {rest other : List PathStep} (distinct : i ≠ j) :
      PartAtUnion (.member .union i :: rest) (.member .union j :: other)
  | later {step : PathStep} {rest other : List PathStep} (below : PartAtUnion rest other) :
      PartAtUnion (step :: rest) (step :: other)

section Store

variable {s : Store List}

/-- The size that a field records is the one its type has on the construct's platform. -/
theorem Cached.field (cached : Cached s) {h : Handle} {c : Construct List} {i : Nat} {f : Field}
    {platform : Platform} (present : s.constructs h = some c) (field : c.fields[i]? = some f)
    (owner : s.platform c.context = some platform) :
    ∃ align, getFieldTypeSizeAlign s platform f.fieldType = .ok (f.size, align) := by
  obtain ⟨other, align, there, sized, _⟩ :=
    cached _ (.field present ⟨f, List.mem_of_getElem? field, rfl⟩)
  have same : other = platform := Option.some.inj (there.symm.trans owner)
  rw [← same]
  exact ⟨align, sized⟩

/-- The size and alignment that an array records are those of its element type. -/
theorem Cached.element (cached : Cached s) {h : Handle} {a : ArrayType List} {platform : Platform}
    (present : s.arrays h = some a) (owner : s.platform a.context = some platform) :
    getFieldTypeSizeAlign s platform a.fieldType = .ok (a.elemSize, a.alignment) := by
  obtain ⟨other, align, there, sized, recorded⟩ := cached _ (.element present rfl)
  have same : other = platform := Option.some.inj (there.symm.trans owner)
  rw [← same, recorded _ rfl]
  exact sized

theorem size_of_construct {platform : Platform} {fieldType : FieldType} {h : Handle}
    {c : Construct List} {sizeAlign : SizeT × SizeT}
    (resolved : fieldType.resolved platform = some (.construct h))
    (present : s.constructs h = some c)
    (sized : getFieldTypeSizeAlign s platform fieldType = .ok sizeAlign) :
    sizeAlign = (c.totalSize, c.alignment) := by
  rw [getFieldTypeSizeAlign_of_resolved resolved] at sized
  simpa [Store.sizeAlign, present] using sized.symm

theorem size_of_array {platform : Platform} {fieldType : FieldType} {h : Handle}
    {a : ArrayType List} {sizeAlign : SizeT × SizeT}
    (resolved : fieldType.resolved platform = some (.array h)) (present : s.arrays h = some a)
    (sized : getFieldTypeSizeAlign s platform fieldType = .ok sizeAlign) :
    sizeAlign = (a.totalSize, a.alignment) := by
  rw [getFieldTypeSizeAlign_of_resolved resolved] at sized
  simpa [Store.sizeAlign, present] using sized.symm

/-- Every field lies in its construct. -/
theorem Construct.LaidOut.field_within {c : Construct List} (laidOut : c.LaidOut) {i : Nat} {f : Field}
    (field : c.fields[i]? = some f) : f.range.Within c.totalSize.toNat := by
  have member := List.mem_of_getElem? field
  cases type : c.type with
  | struct =>
    obtain ⟨within, _, covered⟩ := laidOut.struct type
    exact (within f member).mono covered
  | union => exact laidOut.union type f member

/-- Different fields of a struct are apart. -/
theorem Construct.LaidOut.fields_apart {c : Construct List} (laidOut : c.LaidOut)
    (struct : c.type = .struct) {i j : Nat} {f g : Field} (first : c.fields[i]? = some f)
    (second : c.fields[j]? = some g) (distinct : i ≠ j) : f.range.Apart g.range := by
  obtain ⟨_, ordered, _⟩ := laidOut.struct struct
  have before {i j : Nat} {f g : Field} (first : c.fields[i]? = some f)
      (second : c.fields[j]? = some g) (less : i < j) : f.range.stop ≤ g.range.start := by
    obtain ⟨low, rfl⟩ := List.getElem?_eq_some_iff.mp first
    obtain ⟨high, rfl⟩ := List.getElem?_eq_some_iff.mp second
    exact List.pairwise_iff_getElem.mp ordered i j low high less
  rcases Nat.lt_or_gt_of_ne distinct with less | greater
  · exact .inl (before first second less)
  · exact .inr (before second first greater)

/-- The elements of an array fill its size. -/
theorem ArrayType.LaidOut.element_within {a : ArrayType List} (laidOut : a.LaidOut)
    (listed : a.dimensions ≠ []) {k : Nat} (counted : k < a.count) :
    (ByteRange.mk (k * a.elemSize.toNat) a.elemSize.toNat).Within a.totalSize.toNat := by
  rw [laidOut.total listed (Nat.ne_of_gt (Nat.zero_lt_of_lt counted))]
  exact ByteRange.cell_within _ counted

/-- Every leaf lies inside its type. -/
theorem Leaf.within (cached : Cached s) (laidOut : LaidOut s) {platform : Platform}
    {fieldType : FieldType} {path : List PathStep} {leaf : Scalar}
    (reached : Leaf s platform fieldType path leaf) :
    ∀ size align, getFieldTypeSizeAlign s platform fieldType = .ok (size, align) →
      leaf.range.Within size.toNat := by
  induction reached with
  | scalar resolved found =>
    intro size align sized
    rw [getFieldTypeSizeAlign_of_data s resolved, found] at sized
    cases sized
    exact Nat.le_of_eq (Nat.zero_add _)
  | member resolved present field owner below ih =>
    intro size align sized
    cases size_of_construct resolved present sized
    obtain ⟨_, inner⟩ := cached.field present field owner
    exact (ih _ _ inner).shift ((laidOut.construct _ _ present).field_within field)
  | element resolved present listed counted owner below ih =>
    intro size align sized
    cases size_of_array resolved present sized
    have inner := cached.element present owner
    exact (ih _ _ inner).shift ((laidOut.array _ _ present).element_within listed counted)

/-- Distinct leaves whose paths do not part at a union are apart. -/
theorem Leaf.apart (cached : Cached s) (laidOut : LaidOut s) {platform : Platform}
    {fieldType : FieldType} {path : List PathStep} {leaf : Scalar}
    (reached : Leaf s platform fieldType path leaf) :
    ∀ other twin, Leaf s platform fieldType other twin → path ≠ other →
      ¬ PartAtUnion path other → leaf.range.Apart twin.range := by
  induction reached with
  | scalar resolved found =>
    intro other twin second distinct _
    cases second with
    | scalar again found => exact absurd rfl distinct
    | member again => rw [resolved] at again; cases again
    | element again => rw [resolved] at again; cases again
  | @member platform inner fieldType h c i f path leaf resolved present field owner below ih =>
    intro other twin second distinct joint
    cases second with
    | scalar again found => rw [resolved] at again; cases again
    | element again => rw [resolved] at again; cases again
    | @member _ inner' _ h' c' j g rest twin again there other owner' below' =>
      rw [resolved] at again
      cases again
      rw [present] at there
      cases there
      rw [owner] at owner'
      cases owner'
      by_cases same : i = j
      · subst same
        rw [field] at other
        cases other
        refine ByteRange.Apart.shift (ih rest twin below' ?_ ?_) _
        · rintro rfl
          exact distinct rfl
        · exact fun part => joint (.later part)
      · -- Different members: of a struct, for the paths do not part at a union.
        have struct : c.type = .struct := by
          cases type : c.type with
          | struct => rfl
          | union =>
            rw [type] at joint
            exact absurd (.here same) joint
        obtain ⟨_, first⟩ := cached.field present field owner
        obtain ⟨_, second⟩ := cached.field present other owner
        exact ByteRange.apart_of_parts (below.within cached laidOut _ _ first)
          (below'.within cached laidOut _ _ second)
          ((laidOut.construct h c present).fields_apart struct field other same)
  | @element platform inner fieldType h a k path leaf resolved present listed counted owner below ih =>
    intro other twin second distinct joint
    cases second with
    | scalar again found => rw [resolved] at again; cases again
    | member again => rw [resolved] at again; cases again
    | @element _ inner' _ h' a' j rest twin again there listed' counted' owner' below' =>
      rw [resolved] at again
      cases again
      rw [present] at there
      cases there
      rw [owner] at owner'
      cases owner'
      by_cases same : k = j
      · subst same
        refine ByteRange.Apart.shift (ih rest twin below' ?_ ?_) _
        · rintro rfl
          exact distinct rfl
        · exact fun part => joint (.later part)
      · have inner := cached.element present owner
        exact ByteRange.apart_of_parts (below.within cached laidOut _ _ inner)
          (below'.within cached laidOut _ _ inner) (ByteRange.cells_apart _ same)

end Store

section Runs

variable {trace : List (Transition Machine Event)} {final : Machine}

/-- For every type that a run in range builds, its leaves lie inside it, and distinct
leaves whose paths do not part at a union share no byte. -/
theorem leaves_within_and_apart (run : Run trace final)
    (regular : ∀ entry ∈ trace,
      Regular entry.pre.store.view entry.label.op entry.label.result.code)
    {platform : Platform} {fieldType : FieldType} {size align : SizeT}
    (sized : getFieldTypeSizeAlign final.store.view platform fieldType = .ok (size, align)) :
    (∀ path leaf, Leaf final.store.view platform fieldType path leaf →
        leaf.range.Within size.toNat) ∧
      ∀ path leaf other twin, Leaf final.store.view platform fieldType path leaf →
        Leaf final.store.view platform fieldType other twin → path ≠ other →
        ¬ PartAtUnion path other → leaf.range.Apart twin.range := by
  obtain ⟨⟨_, _, _, cached⟩, _, laidOut⟩ := built_of_run run regular
  constructor
  · intro path leaf reached
    exact reached.within cached laidOut size align sized
  · intro path leaf other twin first second distinct joint
    exact first.apart cached laidOut other twin second distinct joint

theorem leaves_nestedCalls :
    (∀ path leaf, Leaf (replay respond Machine.initial nestedCalls).2.store.view lp64
        ⟨complexTypeUnion, 8⟩ path leaf → leaf.range.Within (32 : SizeT).toNat) ∧
      ∀ path leaf other twin, Leaf (replay respond Machine.initial nestedCalls).2.store.view lp64
        ⟨complexTypeUnion, 8⟩ path leaf →
        Leaf (replay respond Machine.initial nestedCalls).2.store.view lp64
          ⟨complexTypeUnion, 8⟩ other twin → path ≠ other → ¬ PartAtUnion path other →
        leaf.range.Apart twin.range := by
  have sized : getFieldTypeSizeAlign (replay respond Machine.initial nestedCalls).2.store.view lp64
      ⟨complexTypeUnion, 8⟩ = .ok ((32 : SizeT), (8 : SizeT)) := rfl
  exact leaves_within_and_apart (replay_run nestedCalls) (by decide +kernel) sized

end Runs

end Mam.CopyEngine
