import Mam.CopyEngine.Members

/-! The size `-1` of arrays of variable size. -/

namespace Mam.CopyEngine

open Mam.Library

section Reading

/-- The object that a field type takes its size from, as a context reads it: by the tag
that its platform maps to. -/
def Store.resolve (s : Store List) (owner : Handle) (fieldType : FieldType) : Option Node :=
  (s.platform owner).bind fieldType.resolved

/-- The field type is the array, or contains it through nested arrays. -/
inductive Reaches (s : Store List) (h : Handle) : Handle → FieldType → Prop where
  | here {owner : Handle} {fieldType : FieldType}
      (resolved : s.resolve owner fieldType = some (.array h)) : Reaches s h owner fieldType
  | element {owner : Handle} {fieldType : FieldType} {k : Handle} {a : ArrayType List}
      (resolved : s.resolve owner fieldType = some (.array k)) (present : s.arrays k = some a)
      (inner : Reaches s h a.context a.fieldType) : Reaches s h owner fieldType

/-- The field type contains a variable extent, through nested arrays. -/
def Varies (s : Store List) (owner : Handle) (fieldType : FieldType) : Prop :=
  ∃ h a, Reaches s h owner fieldType ∧ s.arrays h = some a ∧ a.Varies

/-- The field type contains a variable extent only under an array without dimensions,
with no variable extent around it. -/
inductive Hides (s : Store List) : Handle → FieldType → Prop where
  | bare {owner : Handle} {fieldType : FieldType} {h : Handle} {a : ArrayType List}
      (resolved : s.resolve owner fieldType = some (.array h)) (present : s.arrays h = some a)
      (empty : a.dimensions = []) (inner : Varies s a.context a.fieldType) : Hides s owner fieldType
  | around {owner : Handle} {fieldType : FieldType} {h : Handle} {a : ArrayType List}
      (resolved : s.resolve owner fieldType = some (.array h)) (present : s.arrays h = some a)
      (fixed : ¬ a.Varies) (inner : Hides s a.context a.fieldType) : Hides s owner fieldType

/-- The field type has the size `-1`. -/
def Unsized (s : Store List) (owner : Handle) (fieldType : FieldType) : Prop :=
  ∃ platform align, s.platform owner = some platform ∧
    getFieldTypeSizeAlign s platform fieldType = .ok (-1, align)

/-- What the sizes of a state tell about variable extents: an array with a dimension has
size `-1` exactly when one of them varies or its element type has size `-1`, and no field
contains a variable extent. -/
structure SizesTell (s : Store List) : Prop where
  array : ∀ h a, s.arrays h = some a → a.dimensions ≠ [] →
    (a.totalSize = -1 ↔ a.Varies ∨ Unsized s a.context a.fieldType)
  field : ∀ h c f, s.constructs h = some c → f ∈ c.fields → ¬ Varies s c.context f.fieldType

variable {s : Store List} {owner : Handle} {fieldType : FieldType}

instance : Decidable (Unsized s owner fieldType) :=
  match there : s.platform owner with
  | none => .isFalse (by simp [Unsized, there])
  | some platform =>
    match sized : getFieldTypeSizeAlign s platform fieldType with
    | .ok (size, align) => decidable_of_iff (size = -1) (by simp [Unsized, there, sized])
    | .error _ => .isFalse (by simp [Unsized, there, sized])

theorem Varies.element {h : Handle} {a : ArrayType List}
    (resolved : s.resolve owner fieldType = some (.array h)) (present : s.arrays h = some a)
    (inner : Varies s a.context a.fieldType) : Varies s owner fieldType := by
  obtain ⟨k, b, reaches, there, varies⟩ := inner
  exact ⟨k, b, .element resolved present reaches, there, varies⟩

theorem Hides.varies (hides : Hides s owner fieldType) : Varies s owner fieldType := by
  induction hides with
  | bare resolved present empty inner => exact inner.element resolved present
  | around resolved present fixed inner ih => exact ih.element resolved present

/-- Only an object has the size `-1`. -/
theorem unsized_iff : Unsized s owner fieldType ↔
    ∃ n align, s.resolve owner fieldType = some n ∧ s.sizeAlign n = some (-1, align) := by
  unfold Unsized Store.resolve
  constructor
  · rintro ⟨platform, align, there, sized⟩
    cases resolved : fieldType.resolved platform with
    | none =>
      rw [getFieldTypeSizeAlign_of_data s resolved] at sized
      exact absurd (dataTypeSizeAlign_spec sized).1 (by decide)
    | some n =>
      exact ⟨n, align, by rw [there, Option.bind_some, resolved],
        (getFieldTypeSizeAlign_of_resolved resolved).mp sized⟩
  · rintro ⟨n, align, resolved, sized⟩
    obtain ⟨platform, there, resolved⟩ := Option.bind_eq_some_iff.mp resolved
    exact ⟨platform, align, there, (getFieldTypeSizeAlign_of_resolved resolved).mpr sized⟩

/-- An array as a field type has the size of the array. -/
theorem unsized_array_iff {h : Handle} {a : ArrayType List}
    (resolved : s.resolve owner fieldType = some (.array h)) (present : s.arrays h = some a) :
    Unsized s owner fieldType ↔ a.totalSize = -1 := by
  rw [unsized_iff]
  constructor
  · rintro ⟨n, align, again, sized⟩
    cases resolved.symm.trans again
    simp only [Store.sizeAlign, present, Option.map_some, Option.some.injEq, Prod.mk.injEq] at sized
    exact sized.1
  · intro told
    exact ⟨_, a.alignment, resolved, by simp [Store.sizeAlign, present, told]⟩

/-- Where sizes tell, a type with a variable extent hides it or has size `-1`. -/
theorem Varies.hides_or_unsized (varies : Varies s owner fieldType) (tell : SizesTell s) :
    Hides s owner fieldType ∨ Unsized s owner fieldType := by
  obtain ⟨k, b, reaches, there, varies⟩ := varies
  induction reaches with
  | here resolved =>
    have listed : b.dimensions ≠ [] := by
      obtain ⟨block, member, _⟩ := varies
      exact List.ne_nil_of_mem member
    exact .inr ((unsized_array_iff resolved there).mpr ((tell.array k b there listed).mpr (.inl varies)))
  | @element owner fieldType h a resolved present inner ih =>
    by_cases empty : a.dimensions = []
    · exact .inl (.bare resolved present empty ⟨k, b, inner, there, varies⟩)
    have told := tell.array h a present empty
    by_cases own : a.Varies
    · exact .inr ((unsized_array_iff resolved present).mpr (told.mpr (.inl own)))
    rcases ih with hides | unsized
    · exact .inl (.around resolved present own hides)
    · exact .inr ((unsized_array_iff resolved present).mpr (told.mpr (.inr unsized)))

end Reading

section Totals

variable {a : ArrayType List} {d : Dimension}

/-- No negative total but `-1`, and no total before the first dimension. -/
def Plainly (a : ArrayType List) : Prop :=
  (a.totalSize.toInt < 0 → a.totalSize = -1) ∧ (a.dimensions = [] → a.totalSize = 0)

/-- In range, the total becomes `-1` exactly by an extent that is not fixed, and stays it. -/
theorem extend_eq_minus_iff (fits : a.ProductFits d) :
    a.extend d = -1 ↔ a.totalSize = -1 ∨ ¬ d.Fixed := by
  have minus : ¬ (0 : Int) ≤ (-1 : SizeT).toInt := by decide
  by_cases fixed : d.Fixed
  · obtain ⟨count, effective⟩ := fixed
    have keeps : ¬ ¬ d.Fixed := fun unfixed => unfixed ⟨count, effective⟩
    simp only [keeps, or_false]
    by_cases counts : 0 ≤ a.factor.toInt
    · have nonneg := extend_nonneg fits effective counts
      refine iff_of_false (fun same => minus (same ▸ nonneg)) fun same => ?_
      have zero : a.totalSize ≠ 0 := by
        rw [same]
        decide
      rw [ArrayType.factor, if_neg zero, same] at counts
      exact minus counts
    · rw [extend_of_fixed effective, if_neg counts]
  · exact iff_of_true (extend_of_not_fixed fixed) (.inr fixed)

/-- One more dimension keeps the total plain. -/
theorem withDimension_plainly (h : Handle) (plain : Plainly a) (fits : a.ProductFits d) :
    Plainly (a.withDimension h d) := by
  refine ⟨?_, fun empty => by simp [ArrayType.withDimension] at empty⟩
  show (a.extend d).toInt < 0 → a.extend d = -1
  intro negative
  by_cases fixed : d.Fixed
  · obtain ⟨count, effective⟩ := fixed
    by_cases counts : 0 ≤ a.factor.toInt
    · exact absurd (extend_nonneg fits effective counts) (by omega)
    · rw [extend_of_fixed effective, if_neg counts] at negative ⊢
      exact plain.1 negative
  · exact extend_of_not_fixed fixed

theorem Plainly.not_varies (plain : Plainly a) (first : a.dimensions = []) :
    a.totalSize ≠ -1 ∧ ¬ a.Varies := by
  refine ⟨?_, ?_⟩
  · rw [plain.2 first]
    decide
  · rintro ⟨block, member, _⟩
    rw [first] at member
    cases member

end Totals

section Ground

/-- The field type is of a context that exists, and has a size. -/
def Known (s : Store List) (owner : Handle) (fieldType : FieldType) : Prop :=
  ∃ platform sizeAlign, s.platform owner = some platform ∧
    getFieldTypeSizeAlign s platform fieldType = .ok sizeAlign

/-- What holds of the types of every run: those in use have a size, and no array is its own
element. -/
structure Grounded (s : Seen) : Prop where
  bounded : Bounded s
  powered : Powered s.types
  known : ∀ u, Uses s.types u → Known s.types u.owner u.fieldType
  apart : ∀ h a, s.types.arrays h = some a →
    s.types.resolve a.context a.fieldType ≠ some (.array h)

/-- What was there is there still, and arrays have the context and the element type that they
had. -/
structure Extends (s t : Store List) : Prop where
  platform : ∀ k platform, s.platform k = some platform → t.platform k = some platform
  object : ∀ n, (s.sizeAlign n).isSome = true → (t.sizeAlign n).isSome = true
  array : ∀ h a b, s.arrays h = some a → t.arrays h = some b →
    b.context = a.context ∧ b.fieldType = a.fieldType

theorem exists_array {s : Store List} {h : Handle} (there : (s.sizeAlign (.array h)).isSome = true) :
    ∃ a, s.arrays h = some a := by
  rw [Store.sizeAlign, Option.isSome_map] at there
  exact Option.isSome_iff_exists.mp there

section Reads

variable {s t : Store List} {owner : Handle} {fieldType : FieldType}

theorem Known.exists (known : Known s owner fieldType) {n : Node}
    (resolved : s.resolve owner fieldType = some n) : (s.sizeAlign n).isSome = true := by
  obtain ⟨platform, sizeAlign, there, sized⟩ := known
  rw [Store.resolve, there, Option.bind_some] at resolved
  rw [(getFieldTypeSizeAlign_of_resolved resolved).mp sized]
  rfl

theorem Known.resolve_eq (known : Known s owner fieldType) (grown : Extends s t) :
    t.resolve owner fieldType = s.resolve owner fieldType := by
  obtain ⟨platform, _, there, _⟩ := known
  rw [Store.resolve, Store.resolve, there, grown.platform owner platform there]

theorem Known.extends (known : Known s owner fieldType) (grown : Extends s t) :
    Known t owner fieldType := by
  obtain ⟨platform, sizeAlign, there, sized⟩ := known
  have later := grown.platform owner platform there
  cases resolved : fieldType.resolved platform with
  | none =>
    rw [getFieldTypeSizeAlign_of_data s resolved] at sized
    exact ⟨platform, sizeAlign, later, (getFieldTypeSizeAlign_of_data t resolved).trans sized⟩
  | some n =>
    have before := (getFieldTypeSizeAlign_of_resolved resolved).mp sized
    obtain ⟨other, after⟩ := Option.isSome_iff_exists.mp (grown.object n (by rw [before]; rfl))
    exact ⟨platform, other, later, (getFieldTypeSizeAlign_of_resolved resolved).mpr after⟩

end Reads

variable {s next : Seen} {call : Call} {t : Store List} {owner : Handle} {fieldType : FieldType}

theorem Grounded.element (ground : Grounded s) {h : Handle} {a : ArrayType List}
    (present : s.types.arrays h = some a) : Known s.types a.context a.fieldType :=
  ground.known _ (.element present rfl)

theorem Grounded.field (ground : Grounded s) {h : Handle} {c : Construct List} {f : Field}
    (present : s.types.constructs h = some c) (member : f ∈ c.fields) :
    Known s.types c.context f.fieldType :=
  ground.known (f.use c.context) (.field present ⟨f, member, rfl⟩)

/-- What a known type contains stays. -/
theorem Extends.reaches_iff (grown : Extends s.types t) (ground : Grounded s)
    (known : Known s.types owner fieldType) {h : Handle} :
    Reaches t h owner fieldType ↔ Reaches s.types h owner fieldType := by
  constructor
  · intro reaches
    induction reaches with
    | here resolved => exact .here (known.resolve_eq grown ▸ resolved)
    | element resolved present inner ih =>
      rw [known.resolve_eq grown] at resolved
      obtain ⟨old, was⟩ := exists_array (known.exists resolved)
      obtain ⟨context, element⟩ := grown.array _ _ _ was present
      rw [context, element] at ih
      exact .element resolved was (ih (ground.element was))
  · intro reaches
    induction reaches with
    | here resolved => exact .here ((known.resolve_eq grown).trans resolved)
    | element resolved present inner ih =>
      obtain ⟨b, later⟩ := exists_array (grown.object _ (known.exists resolved))
      obtain ⟨context, element⟩ := grown.array _ _ _ present later
      have deeper := ih (ground.element present)
      rw [← context, ← element] at deeper
      exact .element ((known.resolve_eq grown).trans resolved) later deeper

/-- Every object stays. -/
theorem commit_object {op : Op} {plan : Plan} (ready : Ready s.types op plan) (n : Node)
    (there : (s.types.sizeAlign n).isSome = true) :
    ((commit s.types s.next plan).sizeAlign n).isSome = true := by
  by_cases target : plan.target s.next = some n
  · cases ready with
    | context => cases target
    | construct present unused =>
      cases target
      simp [commit, present, sizeAlign_setConstruct]
    | field present unfrozen named unused offsets owner sized nonneg =>
      cases target
      simp [commit, present, sizeAlign_setConstruct]
    | pointer => cases target
    | array present sized =>
      cases target
      simp [commit, present, sizeAlign_setArray]
    | dimension present unfrozen =>
      cases target
      simp [commit, present, sizeAlign_setArray]
    | var present named unused sized => cases target
  · rwa [commit_sizeAlign ready target]

theorem Change.extends (change : Change s call next) (bounded : Bounded s) :
    Extends s.types next.types := by
  refine ⟨fun k platform => change.platform_kept bounded, ?_, ?_⟩
  · intro n there
    cases change with
    | idle failed same later => rwa [same]
    | frozen ready failed same later => rwa [same, freezeFieldType_sizeAlign]
    | committed ready code same taken =>
      rw [same]
      exact commit_object ready n there
  · intro h a b was present
    cases change.array present with
    | kept there same =>
      cases was.symm.trans there
      rw [same]
      exact ⟨rfl, rfl⟩
    | created ready code here same =>
      rw [here, bounded.arrays s.next (Nat.le_refl _)] at was
      cases was
    | extended ready code there same =>
      cases was.symm.trans there
      rw [same]
      exact ⟨rfl, rfl⟩

/-- The type of a field that is added is known. -/
theorem Ready.known {op : Op} {plan : FieldPlan} {record : Construct List}
    (ready : Ready s.types op (.field plan)) (present : s.types.constructs plan.construct = some record) :
    Known s.types record.context plan.fieldType := by
  obtain ⟨platform, there, sized⟩ := ready.field_sized_in present
  exact ⟨platform, _, there, sized⟩

theorem Change.grounded (change : Change s call next) (ground : Grounded s) : Grounded next := by
  have grown := change.extends ground.bounded
  have known (u : Use) (uses : Uses next.types u) : Known next.types u.owner u.fieldType := by
    cases change with
    | idle failed same later =>
      rw [same] at uses ⊢
      exact ground.known u uses
    | frozen ready failed same later =>
      rw [same, uses_freezeFieldType] at uses
      exact (ground.known u uses).extends grown
    | committed ready code same taken =>
      rw [same, commit_uses ground.bounded ready] at uses
      rcases uses with old | new
      · exact (ground.known u old).extends grown
      · obtain ⟨platform, align, there, sized, _⟩ := (ready.use new).2
        exact Known.extends ⟨platform, _, there, sized⟩ grown
  refine ⟨change.bounded ground.bounded, change.powered ground.powered, known, ?_⟩
  intro h a present resolved
  cases change.array present with
  | @kept old was same =>
    rw [same] at resolved
    rw [Known.resolve_eq (ground.element was) grown] at resolved
    exact ground.apart h old was resolved
  | @created plan ready code here same =>
    -- What the new array is made of was there before it.
    obtain ⟨platform, align, there, sized, _⟩ := (ready.use rfl).2
    have before : Known s.types plan.context plan.fieldType := ⟨platform, _, there, sized⟩
    rw [same] at resolved
    have earlier := before.exists ((before.resolve_eq grown).symm.trans resolved)
    obtain ⟨old, was⟩ := exists_array earlier
    rw [here, ground.bounded.arrays s.next (Nat.le_refl _)] at was
    cases was
  | @extended d old ready code was same =>
    rw [same] at resolved
    exact ground.apart h old was ((Known.resolve_eq (ground.element was) grown).symm.trans resolved)

theorem initial_grounded : Grounded Machine.initial.seen := by
  refine ⟨initial_bounded, ⟨nofun, nofun⟩, ?_, nofun⟩
  intro u uses
  cases uses <;> contradiction

end Ground

section Ranges

/-- No product or sum that the plan makes of sizes reaches `2 ^ 63`. -/
def Plan.InRange (s : Store List) : Plan → Prop
  | .field plan => ∀ record ∈ s.constructs plan.construct,
      record.Fits plan.userOffset plan.size.toNat plan.align.toNat
  | .dimension h d => ∀ a ∈ s.arrays h, a.ProductFits d
  | _ => True

/-- A call that succeeds keeps its products and sums below `2 ^ 63`. -/
def InRange (s : Store List) (op : Op) (code : MamError) : Prop :=
  code = .success → ∀ plan, checks s op = .ok plan → plan.InRange s

instance (s : Store List) : DecidablePred (Plan.InRange s)
  | .context _ _ => .isTrue trivial
  | .construct _ _ _ _ => .isTrue trivial
  | .field plan => inferInstanceAs (Decidable (∀ record ∈ s.constructs plan.construct,
      record.Fits plan.userOffset plan.size.toNat plan.align.toNat))
  | .pointer _ _ => .isTrue trivial
  | .array _ => .isTrue trivial
  | .dimension h d => inferInstanceAs (Decidable (∀ a ∈ s.arrays h, a.ProductFits d))
  | .var _ => .isTrue trivial

instance (s : Store List) (op : Op) (code : MamError) : Decidable (InRange s op code) :=
  inferInstanceAs (Decidable (_ → ∀ _, _ → _))

theorem InRange.plan {s : Store List} {op : Op} {code : MamError} {plan : Plan}
    (inRange : InRange s op code) (ready : Ready s op plan) (succeeded : code = .success) :
    plan.InRange s := inRange succeeded plan ready.checked

/-- The sizes in the store are in range. -/
structure Ranged (s : Store List) : Prop where
  construct : ∀ h c, s.constructs h = some c → c.totalSize.toNat < 2 ^ 63
  array : ∀ h a, s.arrays h = some a → Plainly a

variable {s next : Seen} {call : Call}

theorem Change.ranged (change : Change s call next) (ground : Grounded s) (ranged : Ranged s.types)
    (inRange : InRange s.types call.op call.code) : Ranged next.types := by
  constructor
  · intro h c present
    cases change.construct present with
    | @kept old was same =>
      rw [same]
      exact ranged.construct h old was
    | created ready code here same =>
      rw [same]
      show (0 : SizeT).toNat < 2 ^ 63
      decide
    | @extended plan old ready code here was same =>
      subst here
      have fits := inRange.plan ready code old was
      rw [same]
      show (old.place plan.userOffset plan.size plan.align).totalSize.toNat < 2 ^ 63
      rw [place_totalSize (ground.powered.construct _ old was) (ground.powered.field ready) fits]
      exact fits.totalSize
  · intro h a present
    cases change.array present with
    | @kept old was same =>
      rw [same]
      exact ranged.array h old was
    | @created plan ready code here same =>
      rw [same]
      have zero : ¬ (0 : SizeT).toInt < 0 := by decide
      exact ⟨fun negative => absurd negative zero, fun _ => rfl⟩
    | extended ready code was same =>
      rw [same]
      exact withDimension_plainly _ (ranged.array h _ was) (inRange.plan ready code _ was)

/-- No construct has the size `-1`. -/
theorem Ranged.not_minus {s : Store List} (ranged : Ranged s) (h : Handle) (align : SizeT) :
    s.sizeAlign (.construct h) ≠ some (-1, align) := by
  intro sized
  obtain ⟨c, present, same⟩ := Option.map_eq_some_iff.mp sized
  have small := ranged.construct h c present
  have minus : c.totalSize = -1 := congrArg Prod.fst same
  rw [minus] at small
  exact absurd small (by decide)

end Ranges

section Fields

variable {s next : Seen} {call : Call} {owner : Handle} {fieldType : FieldType}

theorem Ready.field_nonneg {s : Store List} {op : Op} {plan : FieldPlan}
    (ready : Ready s op (.field plan)) : 0 ≤ plan.size.toInt := by
  cases ready with
  | field present unfrozen named unused offsets owner sized nonneg => exact nonneg

/-- The call does not succeed in adding a dimension. -/
def Call.Flat (s : Seen) (call : Call) : Prop :=
  ∀ h d, Ready s.types call.op (.dimension h d) → call.code ≠ .success

theorem Change.array_of_flat (change : Change s call next) (bounded : Bounded s) (flat : call.Flat s)
    {h : Handle} {a b : ArrayType List} (was : s.types.arrays h = some a)
    (present : next.types.arrays h = some b) : b = { a with frozen := b.frozen } := by
  cases change.array present with
  | kept there same =>
    cases was.symm.trans there
    exact same
  | created ready code here same =>
    rw [here, bounded.arrays s.next (Nat.le_refl _)] at was
    cases was
  | extended ready code there same => exact absurd code (flat _ _ ready)

/-- Without a new dimension, the variable extents under a type stay. -/
theorem Change.varies_iff (change : Change s call next) (ground : Grounded s) (flat : call.Flat s)
    (known : Known s.types owner fieldType) :
    Varies next.types owner fieldType ↔ Varies s.types owner fieldType := by
  have grown := change.extends ground.bounded
  have reached {h : Handle} (reaches : Reaches s.types h owner fieldType) :
      ∃ a, s.types.arrays h = some a := by
    clear flat
    induction reaches with
    | here resolved => exact exists_array (known.exists resolved)
    | element resolved present inner ih => exact ih (ground.element present)
  constructor
  · rintro ⟨h, b, reaches, present, varies⟩
    rw [grown.reaches_iff ground known] at reaches
    obtain ⟨a, was⟩ := reached reaches
    rw [change.array_of_flat ground.bounded flat was present] at varies
    exact ⟨h, a, reaches, was, varies⟩
  · rintro ⟨h, a, reaches, was, varies⟩
    obtain ⟨b, present⟩ := exists_array (grown.object (.array h) (by simp [Store.sizeAlign, was]))
    refine ⟨h, b, (grown.reaches_iff ground known).mpr reaches, present, ?_⟩
    rw [change.array_of_flat ground.bounded flat was present]
    exact varies

/-- Without a new dimension, the size of a type does not become `-1`, or cease to be. -/
theorem Change.unsized_iff (change : Change s call next) (ground : Grounded s) (flat : call.Flat s)
    (ranged : Ranged s.types) (after : Ranged next.types) (known : Known s.types owner fieldType) :
    Unsized next.types owner fieldType ↔ Unsized s.types owner fieldType := by
  have grown := change.extends ground.bounded
  rw [CopyEngine.unsized_iff, CopyEngine.unsized_iff, known.resolve_eq grown]
  refine exists_congr fun n => exists_congr fun align => and_congr_right fun resolved => ?_
  cases n with
  | construct h => exact iff_of_false (after.not_minus h align) (ranged.not_minus h align)
  | array h =>
    obtain ⟨a, was⟩ := exists_array (known.exists resolved)
    obtain ⟨b, present⟩ := exists_array (grown.object _ (known.exists resolved))
    rw [Store.sizeAlign, Store.sizeAlign, was, present,
      change.array_of_flat ground.bounded flat was present]
    rfl

/-- A call that adds neither a dimension nor a field that hides a variable extent keeps sizes
telling. -/
theorem Change.tell_of_flat (change : Change s call next) (ground : Grounded s) (flat : call.Flat s)
    (ranged : Ranged s.types) (after : Ranged next.types) (tell : SizesTell s.types)
    (keeps : ∀ plan record, Ready s.types call.op (.field plan) → call.code = .success →
      s.types.constructs plan.construct = some record →
      ¬ Hides s.types record.context plan.fieldType) : SizesTell next.types := by
  constructor
  · intro h a present listed
    cases change.array present with
    | @kept old was same =>
      have known := ground.element was
      rw [same] at listed ⊢
      exact (tell.array h old was listed).trans (or_congr_right
        (change.unsized_iff ground flat ranged after known).symm)
    | created ready code here same =>
      rw [same] at listed
      exact absurd rfl listed
    | extended ready code was same => exact absurd code (flat _ _ ready)
  · intro h c f present member varies
    have carried (old : Construct List) (was : s.types.constructs h = some old)
        (context : c.context = old.context) (member : f ∈ old.fields) : False := by
      rw [context, change.varies_iff ground flat (ground.field was member)] at varies
      exact tell.field h old f was member varies
    cases change.construct present with
    | kept was same =>
      rw [same] at member
      exact carried _ was (by rw [same]) member
    | created ready code here same =>
      rw [same] at member
      cases member
    | @extended plan old ready code here was same =>
      subst here
      rw [same] at member
      rcases List.mem_append.mp member with earlier | added
      · exact carried old was (by rw [same]; rfl) earlier
      · obtain rfl := List.mem_singleton.mp added
        have context : c.context = old.context := by rw [same]; rfl
        rw [context] at varies
        have before := (change.varies_iff ground flat (ready.known was)).mp varies
        rcases before.hides_or_unsized tell with hides | ⟨platform, align, there, minus⟩
        · exact keeps plan old ready code was hides
        · -- A type of size `-1` is refused.
          obtain ⟨own, again, sized⟩ := ready.field_sized_in was
          cases there.symm.trans again
          have size : plan.size = -1 := congrArg Prod.fst (Except.ok.inj (sized.symm.trans minus))
          have nonneg := ready.field_nonneg
          rw [size] at nonneg
          exact absurd nonneg (by decide)

end Fields

section Dimensions

variable {s : Store List} {h : Handle} {a : ArrayType List} {d : Dimension} {owner : Handle}
  {fieldType : FieldType}

/-- With one more dimension the array has a size that does not tell of it: a fixed one is lost over
elements of size `-1`, or an extent of no known type makes it `-1`. -/
def ArrayType.Misreports (s : Store List) (a : ArrayType List) (d : Dimension) : Prop :=
  d.Fixed ∧ a.dimensions = [] ∧ Unsized s a.context a.fieldType ∨
    ¬ d.Fixed ∧ ¬ d.Varies ∧ ¬ a.Varies ∧ ¬ Unsized s a.context a.fieldType

instance : Decidable (a.Misreports s d) := inferInstanceAs (Decidable (_ ∨ _))

/-- One more dimension leaves sizes that do not tell. -/
inductive Misleads (s : Store List) (h : Handle) (a : ArrayType List) (d : Dimension) : Prop where
  /-- A first dimension that is fixed, over elements of size `-1`: the total stays 0. -/
  | lost (fixed : d.Fixed) (first : a.dimensions = [])
      (unsized : Unsized s a.context a.fieldType)
  /-- An extent of no known type makes the total `-1`, and nothing varies. -/
  | unknown (unfixed : ¬ d.Fixed) (known : ¬ d.Varies) (none : ¬ a.Varies)
      (sized : ¬ Unsized s a.context a.fieldType)
  /-- The array gets the size `-1`, and is the element type of one that has a size. Such a use
  is under a mapped tag: any other would have frozen the array. -/
  | element {k : Handle} {b : ArrayType List} (unfixed : ¬ d.Fixed) (sized : a.totalSize ≠ -1)
      (present : s.arrays k = some b) (listed : b.dimensions ≠ []) (fixed : ¬ b.Varies)
      (resolved : s.resolve b.context b.fieldType = some (.array h))
  /-- The array gets a variable extent, and a field contains it: under a mapped tag again. -/
  | field {k : Handle} {c : Construct List} {f : Field} (varies : d.Varies)
      (present : s.constructs k = some c) (member : f ∈ c.fields)
      (reaches : Reaches s h c.context f.fieldType)

/-- The store after one more dimension. -/
private theorem dimension_extends (present : s.arrays h = some a) (k : Handle) (d : Dimension) :
    Extends s (s.setArray h (a.withDimension k d)) := by
  refine ⟨fun _ _ there => there, ?_, ?_⟩
  · intro n there
    rw [sizeAlign_setArray]
    split
    · rfl
    · exact there
  · intro i b c was later
    rw [setArray_arrays] at later
    split at later
    · rename_i here
      cases later
      cases (here ▸ present).symm.trans was
      exact ⟨rfl, rfl⟩
    · cases was.symm.trans later
      exact ⟨rfl, rfl⟩

/-- The array that gets the dimension has the size `-1` then, or had it. -/
private theorem dimension_unsized_iff (present : s.arrays h = some a) (k : Handle)
    (fits : a.ProductFits d) :
    Unsized (s.setArray h (a.withDimension k d)) owner fieldType ↔
      Unsized s owner fieldType ∨
        s.resolve owner fieldType = some (.array h) ∧ ¬ d.Fixed := by
  by_cases here : s.resolve owner fieldType = some (.array h)
  · rw [unsized_array_iff here present, unsized_array_iff (s := s.setArray h _) here
      (setArray_self s h (a.withDimension k d))]
    simp only [here, true_and]
    exact extend_eq_minus_iff fits
  · simp only [here, false_and, or_false]
    rw [unsized_iff, unsized_iff]
    refine exists_congr fun n => exists_congr fun align => and_congr_right fun resolved => ?_
    have resolved : s.resolve owner fieldType = some n := resolved
    rw [sizeAlign_setArray, if_neg]
    rintro rfl
    exact here resolved

private theorem dimension_varies_iff {next : Handle} (ground : Grounded ⟨next, s⟩)
    (present : s.arrays h = some a) (k : Handle) (known : Known s owner fieldType) :
    Varies (s.setArray h (a.withDimension k d)) owner fieldType ↔
      Varies s owner fieldType ∨ d.Varies ∧ Reaches s h owner fieldType := by
  have grown := dimension_extends present k d
  have same (i : Handle) : Reaches (s.setArray h (a.withDimension k d)) i owner fieldType ↔
      Reaches s i owner fieldType := grown.reaches_iff ground known
  constructor
  · rintro ⟨i, b, reaches, there, varies⟩
    rw [same] at reaches
    rw [setArray_arrays] at there
    split at there
    · rename_i here
      subst here
      cases there
      rcases (withDimension_varies a k d).mp varies with old | new
      · exact .inl ⟨i, a, reaches, present, old⟩
      · exact .inr ⟨new, reaches⟩
    · exact .inl ⟨i, b, reaches, there, varies⟩
  · rintro (⟨i, b, reaches, there, varies⟩ | ⟨new, reaches⟩)
    · by_cases here : i = h
      · subst here
        cases present.symm.trans there
        exact ⟨i, _, (same i).mpr reaches, setArray_self s i _,
          (withDimension_varies a k d).mpr (.inl varies)⟩
      · exact ⟨i, b, (same i).mpr reaches, by simp [here, there], varies⟩
    · exact ⟨h, _, (same h).mpr reaches, setArray_self s h _,
        (withDimension_varies a k d).mpr (.inr new)⟩

/-- The array itself tells its size after one more dimension, except in the first two cases. -/
private theorem dimension_array_iff {next : Handle} (ground : Grounded ⟨next, s⟩)
    (present : s.arrays h = some a) (k : Handle) (plain : Plainly a) (fits : a.ProductFits d)
    (tell : SizesTell s) :
    ((a.withDimension k d).totalSize = -1 ↔ (a.withDimension k d).Varies ∨
        Unsized (s.setArray h (a.withDimension k d)) a.context a.fieldType) ↔
      ¬ a.Misreports s d := by
  have apart : s.resolve a.context a.fieldType ≠ some (.array h) := ground.apart h a present
  show (a.extend d = -1 ↔ _) ↔ _
  rw [extend_eq_minus_iff fits, withDimension_varies, dimension_unsized_iff present k fits,
    ArrayType.Misreports]
  simp only [apart, false_and, or_false]
  by_cases fixed : d.Fixed
  · have still := fixed.not_varies
    simp only [fixed, still, not_true, or_false, true_and, false_and]
    by_cases first : a.dimensions = []
    · obtain ⟨total, none⟩ := plain.not_varies first
      simp only [first, total, none, false_or, true_and, false_iff]
    · simp only [first, false_and, not_false_iff, iff_true]
      exact tell.array h a present first
  · simp only [fixed, not_false_iff, or_true, true_iff, false_and, true_and]
    tauto

/-- After one more dimension sizes tell exactly where it does not mislead. -/
theorem dimension_tells_iff {next : Handle} (ground : Grounded ⟨next, s⟩)
    (present : s.arrays h = some a) (k : Handle) (plain : Plainly a) (fits : a.ProductFits d)
    (tell : SizesTell s) :
    SizesTell (s.setArray h (a.withDimension k d)) ↔ ¬ Misleads s h a d := by
  have own := dimension_array_iff ground present k plain fits tell
  constructor
  · rintro after misleads
    have told := own.mp (after.array h _ (setArray_self s h _) (by simp [ArrayType.withDimension]))
    cases misleads with
    | lost fixed first unsized => exact told (.inl ⟨fixed, first, unsized⟩)
    | unknown unfixed known none sized => exact told (.inr ⟨unfixed, known, none, sized⟩)
    | @element i b unfixed sized there listed fixed resolved =>
      have other : i ≠ h := by
        rintro rfl
        exact ground.apart i b there resolved
      have later : (s.setArray h (a.withDimension k d)).arrays i = some b := by simp [other, there]
      have minus := (after.array i b later listed).mpr
        (.inr ((dimension_unsized_iff present k fits).mpr (.inr ⟨resolved, unfixed⟩)))
      rcases (tell.array i b there listed).mp minus with varies | unsized
      · exact fixed varies
      · exact sized ((unsized_array_iff resolved present).mp unsized)
    | field varies there member reaches =>
      exact after.field _ _ _ there member
        ((dimension_varies_iff ground present k (ground.field there member)).mpr
          (.inr ⟨varies, reaches⟩))
  · intro keeps
    constructor
    · intro i b there listed
      rw [setArray_arrays] at there
      split at there
      · rename_i here
        subst here
        cases there
        refine own.mpr ?_
        rintro (⟨fixed, first, unsized⟩ | ⟨unfixed, known, none, sized⟩)
        · exact keeps (.lost fixed first unsized)
        · exact keeps (.unknown unfixed known none sized)
      · have before := tell.array i b there listed
        rw [dimension_unsized_iff present k fits, before]
        refine ⟨fun either => either.imp_right .inl, ?_⟩
        rintro (varies | unsized | ⟨resolved, unfixed⟩)
        · exact .inl varies
        · exact .inr unsized
        · by_contra none
          refine keeps (.element unfixed ?_ there listed (fun varies => none (.inl varies)) resolved)
          exact fun minus => none (.inr ((unsized_array_iff resolved present).mpr minus))
    · intro i c f there member varies
      rw [dimension_varies_iff ground present k (ground.field there member)] at varies
      rcases varies with old | ⟨new, reaches⟩
      · exact tell.field i c f there member old
      · exact keeps (.field new there member reaches)

end Dimensions

section Runs

variable {trace : List (Transition Machine Event)} {final : Machine}

/-- The plan adds a dimension that misleads, or a field of a type that hides a variable
extent. -/
def Plan.Misleads (s : Store List) : Plan → Prop
  | .dimension h d => ∃ a, s.arrays h = some a ∧ CopyEngine.Misleads s h a d
  | .field plan => ∃ record, s.constructs plan.construct = some record ∧
      Hides s record.context plan.fieldType
  | _ => False

/-- The call passes its checks, has the memory it needs, and misleads. -/
def Spoils (m : Machine) (mem : Memory) (op : Op) : Prop :=
  ∃ plan, checks m.store op = .ok plan ∧ plan.Enough m.store mem ∧ plan.Misleads m.store.view

variable {m next : Machine} {event : Event}

theorem Step.tell (step : Step m event next) (ground : Grounded m.seen)
    (ranged : Ranged m.store.view) (tell : SizesTell m.store.view)
    (inRange : InRange m.store.view event.op event.result.code)
    (keeps : ¬ Spoils m event.memory event.op) : SizesTell next.store.view := by
  have change := step.change
  have spared (plan : Plan) (ready : Ready m.seen.types event.op plan)
      (code : event.result.code = .success) : ¬ plan.Misleads m.store.view := by
    intro misleads
    obtain ⟨other, checked, enough⟩ := step.success_iff.mp code
    cases ready.unique (ready_of_checked checked)
    exact keeps ⟨plan, checked, enough, misleads⟩
  by_cases flat : event.call.Flat m.seen
  · refine change.tell_of_flat ground flat ranged (change.ranged ground ranged inRange) tell ?_
    exact fun plan record ready code was hides => spared _ ready code ⟨record, was, hides⟩
  · simp only [Call.Flat, not_forall, not_not] at flat
    obtain ⟨h, d, ready, code⟩ := flat
    obtain ⟨plan, again, same, _⟩ := change.of_success code
    cases ready.unique again
    have misled := spared _ ready code
    have fits := inRange.plan ready code
    obtain ⟨op, memory, result⟩ := event
    cases ready with
    | @dimension array dimension record present unfrozen =>
      have after : next.store.view =
          m.store.view.setArray h (record.withDimension m.heap.next d) := by
        refine Eq.trans same ?_
        simp only [commit, present]
        rfl
      rw [after]
      exact (dimension_tells_iff ground present _ (ranged.array h record present)
        (fits record present) tell).mpr fun misleads => misled ⟨record, present, misleads⟩

theorem Step.not_tell (step : Step m event next) (ground : Grounded m.seen)
    (ranged : Ranged m.store.view) (tell : SizesTell m.store.view)
    (inRange : InRange m.store.view event.op event.result.code)
    (spoils : Spoils m event.memory event.op) : ¬ SizesTell next.store.view := by
  intro after
  obtain ⟨plan, checked, enough, misleads⟩ := spoils
  obtain ⟨code, same⟩ := step.committed checked enough
  have ready := ready_of_checked checked
  have fits := inRange.plan ready code
  have change := step.change
  cases plan with
  | dimension h d =>
    obtain ⟨a, present, misled⟩ := misleads
    simp only [commit, present] at same
    rw [same] at after
    exact (dimension_tells_iff ground present _ (ranged.array h a present) (fits a present)
      tell).mp after misled
  | field plan =>
    obtain ⟨record, was, hides⟩ := misleads
    have flat : event.call.Flat m.seen := by
      intro h d other
      cases ready.unique other
    have varies := (change.varies_iff ground flat (ready.known was)).mpr hides.varies
    obtain ⟨old, flag, there, later⟩ := change.withField ready code
    cases was.symm.trans there
    refine after.field plan.construct _ (plan.entry record m.heap.next) later ?_ varies
    exact List.mem_append_right _ (List.mem_singleton.mpr rfl)
  | _ => exact misleads

/-- In every state of a run whose products and sums stay below `2 ^ 63`, sizes tell variable
extents exactly when no call misleads. -/
theorem sizesTell_iff_not_spoils (run : Run trace final)
    (inRange : ∀ entry ∈ trace,
      InRange entry.pre.store.view entry.label.op entry.label.result.code) :
    (∀ entry ∈ trace, SizesTell entry.post.store.view) ↔
      ∀ entry ∈ trace, ¬ Spoils entry.pre entry.label.memory entry.label.op := by
  refine run.forall_post_iff_of_strong (fun m => Grounded m.seen)
    (fun m => SizesTell m.store.view ∧ Ranged m.store.view) (fun m => SizesTell m.store.view)
    initial_grounded ⟨⟨nofun, nofun⟩, nofun, nofun⟩ (fun _ both => both.1)
    (fun _ _ _ ground step => step.change.grounded ground) ?_ ?_ inRange
  · rintro m event next ground ⟨tell, ranged⟩ step inRange keeps
    exact ⟨step.tell ground ranged tell inRange keeps, step.change.ranged ground ranged inRange⟩
  · rintro m event next ground ⟨tell, ranged⟩ step inRange spoils
    exact step.not_tell ground ranged tell inRange (Classical.not_not.mp spoils)

section Plain

variable {s : Store List} {h : Handle} {a : ArrayType List} {d : Dimension} {owner : Handle}
  {fieldType : FieldType}

theorem node_of_resolve (maps : DataMaps s) {n : Node} (resolved : s.resolve owner fieldType = some n) :
    fieldType.node = some n := by
  obtain ⟨platform, there, resolved⟩ := Option.bind_eq_some_iff.mp resolved
  exact node_of_resolved ((maps owner platform there).plain fieldType) resolved

/-- What contains an array is the array, or something has it as its element type. -/
theorem Reaches.last (reaches : Reaches s h owner fieldType) :
    s.resolve owner fieldType = some (.array h) ∨
      ∃ k b, s.arrays k = some b ∧ s.resolve b.context b.fieldType = some (.array h) := by
  induction reaches with
  | here resolved => exact .inl resolved
  | element resolved present inner ih =>
    rcases ih with own | deeper
    · exact .inr ⟨_, _, present, own⟩
    · exact .inr deeper

/-- Where no mapped tag stands for an object, an array that can be extended is not in use yet, so
that a dimension misleads about the array itself only. -/
theorem Misleads.of_maps (misleads : Misleads s h a d) (maps : DataMaps s) (frozen : UsedFrozen s)
    (present : s.arrays h = some a) (unfrozen : a.frozen = false) : a.Misreports s d := by
  have unused (u : Use) (uses : Uses s u) (designates : u.fieldType.node = some (.array h)) : False := by
    have set := frozen _ ⟨u, uses, designates⟩
    simp [Store.frozen, present, unfrozen] at set
  have element {k : Handle} {b : ArrayType List} (there : s.arrays k = some b)
      (resolved : s.resolve b.context b.fieldType = some (.array h)) : False :=
    unused b.use (.element there rfl) (node_of_resolve maps resolved)
  cases misleads with
  | lost fixed first unsized => exact .inl ⟨fixed, first, unsized⟩
  | unknown unfixed known none sized => exact .inr ⟨unfixed, known, none, sized⟩
  | element unfixed sized there listed fixed resolved => exact (element there resolved).elim
  | @field k c f varies there member reaches =>
    rcases reaches.last with own | ⟨i, b, inner, resolved⟩
    · exact (unused (f.use c.context) (.field there ⟨f, member, rfl⟩) (node_of_resolve maps own)).elim
    · exact (element inner resolved).elim

/-- An executable condition under which a plan misleads about nothing: elements of array types
that become fields are no arrays themselves. -/
def Plan.spares (s : Store List) : Plan → Bool
  | .dimension h d => (s.arrays h).all fun a => !decide (a.Misreports s d)
  | .field plan => (s.constructs plan.construct).all fun record =>
      match s.resolve record.context plan.fieldType with
      | some (.array h) => (s.arrays h).all fun a =>
          !(s.resolve a.context a.fieldType matches some (.array _))
      | _ => true
  | _ => true

theorem not_misleads_of_spares {op : Op} {plan : Plan} (ready : Ready s op plan) (maps : DataMaps s)
    (frozen : UsedFrozen s) (spares : plan.spares s = true) : ¬ plan.Misleads s := by
  cases ready with
  | @dimension array dimension record present unfrozen =>
    rintro ⟨a, there, misleads⟩
    cases present.symm.trans there
    simp only [Plan.spares, present, Option.all_some, Bool.not_eq_true', decide_eq_false_iff_not]
      at spares
    exact spares (misleads.of_maps maps frozen present unfrozen)
  | @field plan options record context present unfrozen named unused offsets owner sized nonneg =>
    rintro ⟨other, there, hides⟩
    cases present.symm.trans there
    have flat {h : Handle} {a : ArrayType List}
        (resolved : s.resolve record.context plan.fieldType = some (.array h))
        (there : s.arrays h = some a) (k : Handle) :
        s.resolve a.context a.fieldType ≠ some (.array k) := by
      intro below
      simp [Plan.spares, present, resolved, there, below] at spares
    cases hides with
    | bare resolved there empty inner =>
      obtain ⟨_, _, reaches, _, _⟩ := inner
      cases reaches with
      | here below => exact flat resolved there _ below
      | element below _ _ => exact flat resolved there _ below
    | around resolved there fixed inner =>
      cases inner with
      | bare below _ _ _ => exact flat resolved there _ below
      | around below _ _ _ => exact flat resolved there _ below
  | _ => exact id

/-- The plan makes no context of a platform that maps to anything but data types. -/
def Plan.MapsToData : Plan → Prop
  | .context _ platform => platform.MapsToData
  | _ => True

instance : DecidablePred Plan.MapsToData
  | .context _ platform => inferInstanceAs (Decidable platform.MapsToData)
  | .construct _ _ _ _ | .field _ | .pointer _ _ | .array _ | .dimension _ _ | .var _ => .isTrue trivial

theorem not_spoils_of_spares (run : Run trace final)
    (maps : ∀ entry ∈ trace, ∀ plan,
      checks entry.pre.store.view entry.label.op = .ok plan → plan.MapsToData)
    (spares : ∀ entry ∈ trace, ∀ plan,
      checks entry.pre.store.view entry.label.op = .ok plan →
        plan.spares entry.pre.store.view = true) :
    ∀ entry ∈ trace, ¬ Spoils entry.pre entry.label.memory entry.label.op := by
  intro entry member ⟨plan, checked, _, misleads⟩
  obtain ⟨earlier, later, split, before, _, _⟩ := run.split member
  have data := before.invariant_within (fun m => DataMaps m.store.view)
    (fun entry => ∀ plan, checks entry.pre.store.view entry.label.op = .ok plan → plan.MapsToData)
    (fun _ _ found => nomatch found)
    (fun _ _ _ data step maps => step.change.dataMaps data fun _ _ ready _ => maps _ ready.checked)
    (fun past there => maps past (by simp [split, there]))
  have ready := ready_of_checked checked
  exact not_misleads_of_spares ready data (usedFrozen_of_run before)
    (spares entry member plan ready.checked) misleads

end Plain

/-- An array of variable size, which an extent of no known type leaves so, an array of those, one
of fixed size, and a struct that is refused the second and takes the third. -/
def pathCalls : List (Op × Memory) :=
  [(.contextCreate (some []) (some lp64) true, plenty),
   (.contextCreateArray (some 0) (some ⟨4, 0⟩) true, plenty),
   (.arrayAddDimension (some 1) (some ⟨.variable [110], none⟩), plenty),
   (.arrayAddDimension (some 1) (some ⟨.other 2 0 (by decide), none⟩), plenty),
   (.contextCreateArray (some 0) (some ⟨complexTypeArray, 1⟩) true, plenty),
   (.arrayAddDimension (some 4) (some ⟨.fixed 2, some (.variable [109])⟩), plenty),
   (.arrayAddDimension (some 4) (some ⟨.fixed 2, none⟩), plenty),
   (.contextCreateConstruct .struct (some 0) (some [97]) false true, plenty),
   (.constructAddField (some 7) (some [97]) (some ⟨complexTypeArray, 4⟩) [], plenty),
   (.contextCreateArray (some 0) (some ⟨4, 0⟩) true, plenty),
   (.arrayAddDimension (some 8) (some ⟨.fixed 3, some (.fixed 4)⟩), plenty),
   (.constructAddField (some 7) (some [98]) (some ⟨complexTypeArray, 8⟩) [], plenty)]

theorem sizesTell_pathCalls :
    Run (replay respond Machine.initial pathCalls).1 (replay respond Machine.initial pathCalls).2 ∧
      ∀ entry ∈ (replay respond Machine.initial pathCalls).1, SizesTell entry.post.store.view := by
  have run := replay_run pathCalls
  refine ⟨run, (sizesTell_iff_not_spoils run (by decide +kernel)).mpr ?_⟩
  exact not_spoils_of_spares run (by decide +kernel) (by decide +kernel)

/-- A fixed dimension of an array whose elements have variable size. -/
def lostCalls : List (Op × Memory) :=
  [(.contextCreate (some []) (some lp64) true, plenty),
   (.contextCreateArray (some 0) (some ⟨4, 0⟩) true, plenty),
   (.arrayAddDimension (some 1) (some ⟨.variable [110], none⟩), plenty),
   (.contextCreateArray (some 0) (some ⟨complexTypeArray, 1⟩) true, plenty),
   (.arrayAddDimension (some 3) (some ⟨.fixed 2, none⟩), plenty),
   (.contextCreateConstruct .struct (some 0) (some [97]) false true, plenty),
   (.constructAddField (some 5) (some [97]) (some ⟨complexTypeArray, 3⟩) [], plenty)]

/-- The outer array reports size 0, and becomes a field. -/
theorem extent_lost : ¬ ∀ (trace : List (Transition Machine Event)) (final : Machine),
    Run trace final →
    (∀ entry ∈ trace, entry.label.result.code = .success → ¬ entry.label.op.SelfField) →
    (∀ entry ∈ trace, InRange entry.pre.store.view entry.label.op entry.label.result.code) →
    SizesTell final.store.view := by
  intro tell
  have last := tell _ _ (replay_run lostCalls) (by decide +kernel) (by decide +kernel)
  have unsized : Unsized (replay respond Machine.initial lostCalls).2.store.view 0
      ⟨complexTypeArray, 1⟩ := by decide +kernel
  have told := (last.array 3 _ rfl nofun).mpr (.inr unsized)
  exact absurd told (by decide +kernel)

end Runs

end Mam.CopyEngine
