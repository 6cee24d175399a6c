import Mam.CopyEngine.Layout

/-! The types that calls build when every size stays in range: their layouts, step by
step and over runs. -/

namespace Mam.CopyEngine

open Mam.Library

section Tables

/-- A small multiple of an alignment that is a power of two, as the mask test sees it. -/
private def Entry (pair : SizeT × SizeT) : Prop :=
  pair.1.toNat < 2 ^ 63 ∧ (pair.2.toNat ≠ 0 ∧ pair.2.toNat &&& (pair.2.toNat - 1) = 0) ∧
    pair.2.toNat ∣ pair.1.toNat

private instance : DecidablePred Entry := fun _ => inferInstanceAs (Decidable (_ ∧ _))

private theorem tables_good {pair : SizeT × SizeT} (member : pair ∈ dataTypeSize.zip dataTypeAlign) :
    Entry pair := by
  have all : (dataTypeSize.zip dataTypeAlign).all (fun pair => decide (Entry pair)) = true := by
    decide
  exact of_decide_eq_true (List.all_eq_true.mp all pair member)

/-- The sizes of the data types are small multiples of their alignments, which are powers
of two. -/
theorem dataTypeSizeAlign_spec {type : Int} {size align : SizeT}
    (found : dataTypeSizeAlign type = .ok (size, align)) :
    size.toNat < 2 ^ 63 ∧ align.toNat.isPowerOfTwo ∧ align.toNat ∣ size.toNat := by
  unfold dataTypeSizeAlign at found
  split at found
  · cases found
  · split at found
    · rename_i sized aligned
      cases found
      have member : (size, align) ∈ dataTypeSize.zip dataTypeAlign :=
        List.mem_of_getElem? (List.getElem?_zip_eq_some.mpr ⟨sized, aligned⟩)
      obtain ⟨small, power, divides⟩ := tables_good member
      exact ⟨small, Nat.ne_zero_and_sub_one_eq_zero_iff_isPowerOfTwo.mp power, divides⟩
    · cases found

/-- Every entry of the type map is a data type. -/
def Platform.MapsToData (platform : Platform) : Prop :=
  ∀ i, 0 ≤ platform.typeMap i ∧ platform.typeMap i < dataTypeSize.length

instance : DecidablePred Platform.MapsToData := fun _ => inferInstanceAs (Decidable (∀ _, _))

theorem designated_of_data {type : Int} (below : type < dataTypeSize.length) (ref : Handle) :
    designated type ref = none := by
  have other : type ≠ complexTypeStruct ∧ type ≠ complexTypeUnion ∧ type ≠ complexTypeArray := by
    simp only [dataTypeSize, List.length_cons, List.length_nil, complexTypeStruct, complexTypeUnion,
      complexTypeArray] at below ⊢
    omega
  obtain ⟨struct, union, array⟩ := other
  unfold designated
  rw [if_neg fun either => either.elim struct union, if_neg array]

theorem Platform.MapsToData.plain {platform : Platform} (maps : platform.MapsToData)
    (fieldType : FieldType) : ¬ fieldType.Disguised platform := by
  rintro ⟨designates, resolved⟩
  unfold FieldType.resolved Platform.mapTag at resolved
  split at resolved
  · exact resolved (designated_of_data (maps _).2 _)
  · exact resolved designates

/-- The platforms of all contexts map to data types. -/
def DataMaps (s : Store List) : Prop :=
  ∀ k platform, s.platform k = some platform → platform.MapsToData

end Tables

section Built

/-- All constructs and arrays are laid out. -/
structure LaidOut (s : Store List) : Prop where
  construct : ∀ h c, s.constructs h = some c → c.LaidOut
  array : ∀ h a, s.arrays h = some a → a.LaidOut

/-- Sizes are in range and alignments are powers of two. -/
theorem LaidOut.sizeAlign {s : Store List} (laidOut : LaidOut s) {platform : Platform}
    {fieldType : FieldType} {size align : SizeT}
    (sized : getFieldTypeSizeAlign s platform fieldType = .ok (size, align)) :
    size.toNat < 2 ^ 63 ∧ align.toNat.isPowerOfTwo := by
  cases sizeSource_of_sized sized with
  | data found =>
    obtain ⟨small, power, _⟩ := dataTypeSizeAlign_spec found
    exact ⟨small, power⟩
  | construct present =>
    have placed := laidOut.construct _ _ present
    exact ⟨placed.small, placed.power⟩
  | array present =>
    have placed := laidOut.array _ _ present
    exact ⟨placed.small, placed.power⟩

/-- The plan keeps to the range: a platform maps to data types, the layout of a field
fits, and a dimension is fixed (any other makes the size `-1`) and its product fits. -/
def Plan.Regular (s : Store List) : Plan → Prop
  | .context _ platform => platform.MapsToData
  | .field plan => ∀ record ∈ s.constructs plan.construct,
      record.Fits plan.userOffset plan.size.toNat plan.align.toNat
  | .dimension h d => d.Fixed ∧ ∀ a ∈ s.arrays h, a.ProductFits d
  | _ => True

/-- A call that succeeds keeps to the range, and does not nest a construct in itself. -/
def Regular (s : Store List) (op : Op) (code : MamError) : Prop :=
  code = .success → ¬ op.SelfField ∧ ∀ plan, checks s op = .ok plan → plan.Regular s

instance (c : Construct List) (userOffset : Option SizeT) (size align : Nat) :
    Decidable (c.Fits userOffset size align) :=
  decidable_of_iff ((c.placeExact userOffset size align).lastOffset < 2 ^ 63 ∧
      (c.placeExact userOffset size align).totalSize < 2 ^ 63)
    ⟨fun ⟨lastOffset, totalSize⟩ => ⟨lastOffset, totalSize⟩,
      fun fits => ⟨fits.lastOffset, fits.totalSize⟩⟩

instance (s : Store List) : DecidablePred (Plan.Regular s)
  | .context _ platform => inferInstanceAs (Decidable platform.MapsToData)
  | .construct _ _ _ _ => .isTrue trivial
  | .field plan => inferInstanceAs (Decidable (∀ record ∈ s.constructs plan.construct,
      record.Fits plan.userOffset plan.size.toNat plan.align.toNat))
  | .pointer _ _ => .isTrue trivial
  | .array _ => .isTrue trivial
  | .dimension h d =>
    inferInstanceAs (Decidable (d.Fixed ∧ ∀ a ∈ s.arrays h, a.ProductFits d))
  | .var _ => .isTrue trivial

instance (s : Store List) (op : Op) (code : MamError) : Decidable (Regular s op code) :=
  inferInstanceAs (Decidable (_ → _ ∧ ∀ _, _ → _))

theorem Regular.plan {s : Store List} {op : Op} {code : MamError} {plan : Plan}
    (regular : Regular s op code) (ready : Ready s op plan) (succeeded : code = .success) :
    plan.Regular s := (regular succeeded).2 plan ready.checked

/-- What holds of the types that regular calls build. -/
structure Built (s : Seen) : Prop where
  sizes : Sizes s
  maps : DataMaps s.types
  laidOut : LaidOut s.types

variable {s next : Seen} {call : Call}

theorem Regular.keepsSizes {op : Op} {code : MamError} (regular : Regular s.types op code)
    (maps : DataMaps s.types) : KeepsSizes s.types op code := by
  intro succeeded
  refine ⟨(regular succeeded).1, ?_⟩
  rintro ⟨use, _, platform, owner, disguised⟩
  exact (maps use.1 platform owner).plain _ disguised

/-- The contexts that are created are of platforms that map to data types. -/
theorem Change.dataMaps (change : Change s call next) (maps : DataMaps s.types)
    (created : ∀ name platform, Ready s.types call.op (.context name platform) →
      call.code = .success → platform.MapsToData) : DataMaps next.types := by
  intro k platform found
  cases change with
  | idle failed same later =>
    rw [same] at found
    exact maps k platform found
  | frozen ready failed same later =>
    rw [same, platform_freezeFieldType] at found
    exact maps k platform found
  | @committed plan ready code same taken =>
    rw [same, commit_platform_eq ready] at found
    cases plan with
    | context name other =>
      simp only [Function.update_apply] at found
      split at found
      · cases found
        exact created name platform ready code
      · exact maps k platform found
    | _ => exact maps k platform found

theorem Ready.field_sized_in {s : Store List} {op : Op} {plan : FieldPlan} {record : Construct List}
    (ready : Ready s op (.field plan)) (present : s.constructs plan.construct = some record) :
    ∃ platform, s.platform record.context = some platform ∧
      getFieldTypeSizeAlign s platform plan.fieldType = .ok (plan.size, plan.align) := by
  cases ready with
  | field there unfrozen named unused offsets owner sized nonneg =>
    rw [there] at present
    cases present
    exact ⟨_, by simp [Store.platform, owner], sized⟩

theorem Ready.element_sized {s : Store List} {op : Op} {plan : ArrayPlan}
    (ready : Ready s op (.array plan)) :
    ∃ platform, getFieldTypeSizeAlign s platform plan.fieldType = .ok (plan.size, plan.align) := by
  cases ready with
  | array present sized => exact ⟨_, sized⟩

theorem Ready.offsets {s : Store List} {op : Op} {plan : FieldPlan} {record : Construct List}
    (ready : Ready s op (.field plan)) (present : s.constructs plan.construct = some record) :
    ∀ offset ∈ plan.userOffset,
      record.lastOffset.toNat ≤ offset.toNat ∧ (record.type = .union → offset = 0) := by
  cases ready with
  | field there unfrozen named unused offsets owner sized nonneg =>
    rw [there] at present
    cases present
    exact readOptions_spec offsets nofun

theorem Change.laidOut (change : Change s call next) (laidOut : LaidOut s.types)
    (regular : Regular s.types call.op call.code) : LaidOut next.types := by
  constructor
  · intro h c present
    cases change.construct present with
    | @kept old was same =>
      have before := laidOut.construct h old was
      rw [same]
      exact ⟨before.power, before.small, before.struct, before.union⟩
    | created ready code here same =>
      rw [same]
      exact Construct.fresh_laidOut _ _ _ _
    | @extended plan old ready code here was same =>
      subst here
      obtain ⟨platform, _, sized⟩ := ready.field_sized_in was
      have after := (laidOut.construct _ old was).withField s.next (laidOut.sizeAlign sized).2
        (regular.plan ready code old was) (ready.offsets was)
      rw [same]
      exact ⟨after.power, after.small, after.struct, after.union⟩
  · intro h a present
    cases change.array present with
    | @kept old was same =>
      have before := laidOut.array h old was
      rw [same]
      exact ⟨before.power, before.elem, before.small, before.bare, before.total⟩
    | @created plan ready code here same =>
      obtain ⟨platform, sized⟩ := ready.element_sized
      obtain ⟨small, power⟩ := laidOut.sizeAlign sized
      rw [same]
      refine ⟨power, small, ?_, fun _ => rfl, fun listed => absurd rfl listed⟩
      have empty : plan.array.totalSize.toNat = 0 := rfl
      exact lt_of_eq_of_lt empty (by decide)
    | @extended d old ready code was same =>
      obtain ⟨fixed, fits⟩ := regular.plan ready code
      rw [same]
      exact (laidOut.array h old was).withDimension s.next fixed (fits old was)

/-- A regular call keeps what holds of the types built. -/
theorem Change.built (change : Change s call next) (built : Built s)
    (regular : Regular s.types call.op call.code) : Built next :=
  ⟨change.sizes built.sizes (regular.keepsSizes built.maps),
    change.dataMaps built.maps fun _ _ ready code => regular.plan ready code,
    change.laidOut built.laidOut regular⟩

theorem initial_built : Built Machine.initial.seen := by
  refine ⟨initial_sizes, ?_, ?_, ?_⟩
  · exact fun _ _ found => nomatch found
  · exact fun _ _ present => nomatch present
  · exact fun _ _ present => nomatch present

theorem built_of_run {trace : List (Transition Machine Event)} {final : Machine}
    (run : Run trace final)
    (regular : ∀ entry ∈ trace,
      Regular entry.pre.store.view entry.label.op entry.label.result.code) : Built final.seen :=
  run.invariant_within (fun m => Built m.seen)
    (fun entry => Regular entry.pre.store.view entry.label.op entry.label.result.code)
    initial_built (fun _ _ _ built step regular => step.change.built built regular) regular

end Built

end Mam.CopyEngine
