import Mam.CopyEngine.ArraySize
import Mam.CopyEngine.Declaration
import Mam.CopyEngine.Containment
import Mam.CopyEngine.NaturalAlignment
import Mam.CopyEngine.Members

/-! The types that a run builds, read as declarations, and that they are laid out as declared. -/

namespace Mam.CopyEngine

open Mam.Library

section Reading

/-- What a field type on a platform stands for: a scalar what the tables say, a construct the
fields that the run added to it, in order, and an array its element and extents. -/
inductive Declares (past : List (Transition Machine Event)) (s : Store List) :
    Platform → FieldType → Declaration → Prop where
  | scalar {platform : Platform} {fieldType : FieldType} {size align : SizeT}
      (resolved : fieldType.resolved platform = none)
      (sized : dataTypeSizeAlign (platform.mapTag fieldType.type) = .ok (size, align)) :
      Declares past s platform fieldType (.scalar size.toNat align.toNat)
  | construct {platform inner : Platform} {fieldType : FieldType} {h : Handle} {c : Construct List}
      {list : MemberList} (resolved : fieldType.resolved platform = some (.construct h))
      (present : s.constructs h = some c) (owner : s.platform c.context = some inner)
      (asked : list.entries.map Prod.fst = (members h past).map (·.userOffset.map BitVec.toNat))
      (declared : ∀ plan entry, (plan, entry) ∈ (members h past).zip list.entries →
        Declares past s inner plan.fieldType entry.2) :
      Declares past s platform fieldType (.construct c.type c.packed list)
  | array {platform inner : Platform} {fieldType : FieldType} {h : Handle} {a : ArrayType List}
      {element : Declaration} (resolved : fieldType.resolved platform = some (.array h))
      (present : s.arrays h = some a) (owner : s.platform a.context = some inner)
      (fixed : a.Fixed) (declared : Declares past s inner a.fieldType element) :
      Declares past s platform fieldType (.array element a.counts)

/-- What a construct has come to, in exact numbers. -/
def Construct.shape (c : Construct List) : Shape :=
  ⟨c.lastOffset.toNat, c.totalSize.toNat, c.alignment.toNat⟩

/-- The fields that were added to a construct, with the sizes and alignments they had then. -/
def asAdded (plans : List FieldPlan) : MemberList :=
  .ofList (plans.map fun plan =>
    (plan.userOffset.map BitVec.toNat, .scalar plan.size.toNat plan.align.toNat))

theorem asAdded_snoc (plans : List FieldPlan) (plan : FieldPlan) :
    asAdded (plans ++ [plan]) = .snoc (asAdded plans) (plan.userOffset.map BitVec.toNat)
      (.scalar plan.size.toNat plan.align.toNat) := by
  rw [asAdded, List.map_append, List.map_singleton, MemberList.ofList_snoc]
  rfl

/-- The use that a field makes of its type when it is added. -/
def FieldPlan.useIn (plan : FieldPlan) (owner : Handle) : Use :=
  ⟨owner, plan.fieldType, plan.size, some plan.align⟩

/-- A construct is laid out as its fields were added, and their types are as they were then. -/
structure Recorded (s : Store List) (plans : List FieldPlan) (c : Construct List) : Prop where
  types : c.fields.map (·.fieldType) = plans.map (·.fieldType)
  shape : c.shape = (asAdded plans).shape c.type c.packed
  offsets : c.fields.map (·.offset.toNat) = (asAdded plans).offsets c.type c.packed
  owner : ∃ platform, s.platform c.context = some platform
  current : ∀ plan ∈ plans, Current s (plan.useIn c.context)

/-- An array has fixed extents, and the size that adding one after the other makes. -/
structure ArrayType.Extended (a : ArrayType List) : Prop where
  fixed : a.Fixed
  laidOut : a.LaidOut
  scaled : a.Scaled

/-- A store whose types can be read as declarations. -/
structure Readable (past : List (Transition Machine Event)) (s : Store List) : Prop where
  cached : Cached s
  plain : AllPlain s
  wellFounded : WellFounded (Part s)
  constructs : ∀ h c, s.constructs h = some c → Recorded s (members h past) c
  arrays : ∀ h a, s.arrays h = some a → a.Extended

variable {past : List (Transition Machine Event)} {s : Store List} {platform : Platform}
variable {fieldType : FieldType} {d : Declaration}

/-- What a field that was added asks of the layout. -/
def FieldPlan.demand (plan : FieldPlan) : Option Nat × Nat × Nat :=
  (plan.userOffset.map BitVec.toNat, plan.size.toNat, plan.align.toNat)

theorem demands_asAdded (plans : List FieldPlan) :
    (asAdded plans).demands = plans.map FieldPlan.demand := by
  rw [asAdded, MemberList.demands, MemberList.entries_ofList, List.map_map]
  rfl

/-- Constructs to which fields with the same demands were added are laid out alike. -/
theorem Recorded.alike {t : Store List} {plans others : List FieldPlan} {c other : Construct List}
    (as : Recorded s plans c) (like : Recorded t others other) (type : other.type = c.type)
    (packed : other.packed = c.packed)
    (same : plans.map FieldPlan.demand = others.map FieldPlan.demand) :
    c.shape = other.shape ∧ c.fields.map (·.offset.toNat) = other.fields.map (·.offset.toNat) := by
  rw [← demands_asAdded, ← demands_asAdded] at same
  obtain ⟨shape, offsets⟩ := MemberList.layout_congr c.type c.packed _ _ same
  rw [as.shape, as.offsets, like.shape, like.offsets, type, packed]
  exact ⟨shape, offsets⟩

private theorem demands_eq {plans : List FieldPlan} {entries : List (Option Nat × Declaration)}
    (asked : entries.map Prod.fst = plans.map (·.userOffset.map BitVec.toNat))
    (sizes : ∀ plan entry, (plan, entry) ∈ plans.zip entries →
      plan.size.toNat = entry.2.size ∧ plan.align.toNat = entry.2.align) :
    plans.map FieldPlan.demand = entries.map fun entry => (entry.1, entry.2.size, entry.2.align) := by
  induction plans generalizing entries with
  | nil =>
    rw [List.map_eq_nil_iff.mp asked]
    rfl
  | cons plan plans ih =>
    cases entries with
    | nil => cases asked
    | cons entry entries =>
      obtain ⟨first, rest⟩ := List.cons.inj asked
      obtain ⟨size, align⟩ := sizes plan entry List.mem_cons_self
      have later := ih rest fun plan entry member => sizes plan entry (List.mem_cons_of_mem _ member)
      rw [List.map_cons, List.map_cons, later, FieldPlan.demand, first, size, align]

/-- Fields that stand for the same members have the same demands, if their types are alike. -/
private theorem demands_alike {plans others : List FieldPlan}
    {entries : List (Option Nat × Declaration)}
    (asked : entries.map Prod.fst = plans.map (·.userOffset.map BitVec.toNat))
    (again : entries.map Prod.fst = others.map (·.userOffset.map BitVec.toNat))
    (alike : ∀ plan other entry, (plan, entry) ∈ plans.zip entries →
      (other, entry) ∈ others.zip entries → plan.size = other.size ∧ plan.align = other.align) :
    plans.map FieldPlan.demand = others.map FieldPlan.demand := by
  induction entries generalizing plans others with
  | nil => rw [List.map_eq_nil_iff.mp asked.symm, List.map_eq_nil_iff.mp again.symm]
  | cons entry entries ih =>
    cases plans with
    | nil => cases asked
    | cons plan plans =>
      cases others with
      | nil => cases again
      | cons other others =>
        obtain ⟨first, rest⟩ := List.cons.inj asked
        obtain ⟨second, later⟩ := List.cons.inj again
        obtain ⟨size, align⟩ := alike plan other entry List.mem_cons_self List.mem_cons_self
        have tail := ih rest later fun plan other entry here there =>
          alike plan other entry (List.mem_cons_of_mem _ here) (List.mem_cons_of_mem _ there)
        have asked : plan.userOffset.map BitVec.toNat = other.userOffset.map BitVec.toNat :=
          first.symm.trans second
        rw [List.map_cons, List.map_cons, tail, FieldPlan.demand, FieldPlan.demand, asked, size, align]

/-- A construct with the declared members has their shape and their offsets. -/
theorem Recorded.layout {plans : List FieldPlan} {c : Construct List} (as : Recorded s plans c)
    {list : MemberList}
    (asked : list.entries.map Prod.fst = plans.map (·.userOffset.map BitVec.toNat))
    (sizes : ∀ plan entry, (plan, entry) ∈ plans.zip list.entries →
      plan.size.toNat = entry.2.size ∧ plan.align.toNat = entry.2.align) :
    c.shape = list.shape c.type c.packed ∧
      c.fields.map (·.offset.toNat) = list.offsets c.type c.packed := by
  have same : (asAdded plans).demands = list.demands :=
    (demands_asAdded plans).trans (demands_eq asked sizes)
  obtain ⟨shape, offsets⟩ := MemberList.layout_congr c.type c.packed _ _ same
  exact ⟨as.shape.trans shape, as.offsets.trans offsets⟩

/-- The type of a field has the size and alignment with which the field was added. -/
theorem Recorded.sized {plans : List FieldPlan} {c : Construct List} (as : Recorded s plans c)
    (owner : s.platform c.context = some platform) {plan : FieldPlan} (member : plan ∈ plans) :
    getFieldTypeSizeAlign s platform plan.fieldType = .ok (plan.size, plan.align) := by
  obtain ⟨other, align, there, sized, same⟩ := as.current plan member
  cases owner.symm.trans there
  rw [same _ rfl]
  exact sized

/-- The types of the fields are as they were declared. -/
theorem Readable.members_exact (readable : Readable past s) {h : Handle} {c : Construct List}
    (present : s.constructs h = some c) (owner : s.platform c.context = some platform)
    {list : MemberList}
    (sizes : ∀ plan entry, (plan, entry) ∈ (members h past).zip list.entries →
      ∃ size align, getFieldTypeSizeAlign s platform plan.fieldType = .ok (size, align) ∧
        size.toNat = entry.2.size ∧ align.toNat = entry.2.align) :
    ∀ plan entry, (plan, entry) ∈ (members h past).zip list.entries →
      plan.size.toNat = entry.2.size ∧ plan.align.toNat = entry.2.align := by
  intro plan entry listed
  obtain ⟨size, align, sized, exact⟩ := sizes plan entry listed
  have as := readable.constructs h c present
  cases (as.sized owner (List.of_mem_zip listed).1).symm.trans sized
  exact exact

/-- An array of which no extent follows one that is 0 has the exact size. -/
theorem ArrayType.Extended.exact {a : ArrayType List} (extended : a.Extended)
    (zeros : a.elemSize.toNat = 0 ∨ 0 ∉ a.counts.dropLast) :
    a.totalSize.toNat = if a.counts = [] then 0 else a.elemSize.toNat * a.counts.prod := by
  have laidOut := extended.laidOut
  split
  · rename_i empty
    rw [laidOut.bare (List.map_eq_nil_iff.mp empty)]
    rfl
  · rename_i listed
    by_cases none : a.counts.prod = 0
    · have total := extended.scaled extended.fixed (toInt_nonneg_of_lt laidOut.elem)
      have small := laidOut.small
      suffices a.totalSize = 0 by rw [this, none, Nat.mul_zero]; rfl
      rw [total] at small ⊢
      rcases zeros with empty | nonzero
      · exact scaleAll_of_closes (empty ▸ closes_of_empty a.counts)
      · -- The extent that is 0 is the last one, and makes the total 0.
        rw [← List.dropLast_append_getLast listed] at small none ⊢
        rw [List.prod_append, List.prod_singleton] at none
        have last := (Nat.mul_eq_zero.mp none).resolve_left (List.prod_ne_zero nonzero)
        rw [last, scaleAll_snoc] at small ⊢
        exact scale_zero small
    · exact laidOut.total (fun empty => listed (List.map_eq_nil_iff.mpr empty)) none

/-- A construct as a field type has the size and the alignment of the construct. -/
theorem sized_construct {h : Handle} {c : Construct List}
    (resolved : fieldType.resolved platform = some (.construct h))
    (present : s.constructs h = some c) :
    getFieldTypeSizeAlign s platform fieldType = .ok (c.totalSize, c.alignment) := by
  rw [getFieldTypeSizeAlign_of_resolved resolved, Store.sizeAlign, present]
  rfl

/-- An array as a field type has the size and the alignment of the array. -/
theorem sized_array {h : Handle} {a : ArrayType List}
    (resolved : fieldType.resolved platform = some (.array h)) (present : s.arrays h = some a) :
    getFieldTypeSizeAlign s platform fieldType = .ok (a.totalSize, a.alignment) := by
  rw [getFieldTypeSizeAlign_of_resolved resolved, Store.sizeAlign, present]
  rfl

/-- What is declared has the declared size and alignment. -/
theorem Readable.exact (readable : Readable past s) (declares : Declares past s platform fieldType d)
    (zeros : d.ZerosLast) :
    ∃ size align, getFieldTypeSizeAlign s platform fieldType = .ok (size, align) ∧
      size.toNat = d.size ∧ align.toNat = d.align := by
  induction declares with
  | scalar resolved sized =>
    exact ⟨_, _, (getFieldTypeSizeAlign_of_data s resolved).trans sized, rfl, rfl⟩
  | @construct platform inner fieldType h c list resolved present owner asked declared ih =>
    have as := readable.constructs h c present
    have sizes := readable.members_exact present owner fun plan entry listed =>
      ih plan entry listed (MemberList.ZerosLast.entry zeros entry (List.of_mem_zip listed).2)
    obtain ⟨shape, _⟩ := as.layout asked sizes
    refine ⟨c.totalSize, c.alignment, sized_construct resolved present, ?_, ?_⟩
    · exact congrArg Shape.totalSize shape
    · exact congrArg Shape.alignment shape
  | @array platform inner fieldType h a element resolved present owner fixed declared ih =>
    obtain ⟨within, last⟩ := zeros
    obtain ⟨size, align, sized, exact, aligned⟩ := ih within
    cases (readable.cached.element present owner).symm.trans sized
    refine ⟨a.totalSize, a.alignment, sized_array resolved present, ?_, aligned⟩
    rw [Declaration.size, ← exact]
    exact (readable.arrays h a present).exact (exact ▸ last)

/-- The fields of a construct are at the offsets that its declaration says. -/
theorem Readable.offsets (readable : Readable past s) (declares : Declares past s platform fieldType d)
    (zeros : d.ZerosLast) {h : Handle} {c : Construct List}
    (resolved : fieldType.resolved platform = some (.construct h))
    (present : s.constructs h = some c) :
    ∃ list, d = .construct c.type c.packed list ∧
      c.fields.map (·.offset.toNat) = list.offsets c.type c.packed := by
  cases declares with
  | scalar other sized => cases other.symm.trans resolved
  | construct other there owner asked declared =>
    cases other.symm.trans resolved
    cases there.symm.trans present
    have sizes := readable.members_exact present owner fun plan entry listed =>
      readable.exact (declared plan entry listed)
        (MemberList.ZerosLast.entry zeros entry (List.of_mem_zip listed).2)
    exact ⟨_, rfl, ((readable.constructs h c present).layout asked sizes).2⟩
  | array other there owner fixed declared => cases other.symm.trans resolved

section Twins

variable {past' : List (Transition Machine Event)} {t : Store List} {platform' : Platform}
variable {fieldType' : FieldType}

/-- Two types have a size and an alignment, and the same. -/
def Alike (s t : Store List) (platform platform' : Platform) (fieldType fieldType' : FieldType) :
    Prop :=
  ∃ pair, getFieldTypeSizeAlign s platform fieldType = .ok pair ∧
    getFieldTypeSizeAlign t platform' fieldType' = .ok pair

theorem Readable.constructs_alike (readable : Readable past s) (readable' : Readable past' t)
    {h h' : Handle} {c c' : Construct List} (present : s.constructs h = some c)
    (present' : t.constructs h' = some c') (owner : s.platform c.context = some platform)
    (owner' : t.platform c'.context = some platform') (type : c'.type = c.type)
    (packed : c'.packed = c.packed) {list : MemberList}
    (asked : list.entries.map Prod.fst = (members h past).map (·.userOffset.map BitVec.toNat))
    (asked' : list.entries.map Prod.fst = (members h' past').map (·.userOffset.map BitVec.toNat))
    (alike : ∀ plan other entry, (plan, entry) ∈ (members h past).zip list.entries →
      (other, entry) ∈ (members h' past').zip list.entries →
      Alike s t platform platform' plan.fieldType other.fieldType) :
    c.shape = c'.shape ∧ c.fields.map (·.offset.toNat) = c'.fields.map (·.offset.toNat) := by
  have as := readable.constructs h c present
  have like := readable'.constructs h' c' present'
  refine as.alike like type packed (demands_alike asked asked' fun plan other entry here there => ?_)
  obtain ⟨pair, sized, sized'⟩ := alike plan other entry here there
  have first := Except.ok.inj ((as.sized owner (List.of_mem_zip here).1).symm.trans sized)
  have second := Except.ok.inj ((like.sized owner' (List.of_mem_zip there).1).symm.trans sized')
  exact Prod.mk.inj (first.trans second.symm)

/-- What stands for the same declaration is alike, by induction on the declaration. -/
theorem Readable.alike (readable : Readable past s) (readable' : Readable past' t)
    (declares : Declares past s platform fieldType d)
    (declares' : Declares past' t platform' fieldType' d) :
    Alike s t platform platform' fieldType fieldType' := by
  induction declares generalizing platform' fieldType' with
  | @scalar platform fieldType size align resolved sized =>
    generalize same : Declaration.scalar size.toNat align.toNat = d at declares'
    cases declares' with
    | @scalar _ _ size' align' resolved' sized' =>
      obtain ⟨sizes, aligns⟩ := Declaration.scalar.inj same
      cases BitVec.eq_of_toNat_eq sizes
      cases BitVec.eq_of_toNat_eq aligns
      exact ⟨_, (getFieldTypeSizeAlign_of_data s resolved).trans sized,
        (getFieldTypeSizeAlign_of_data t resolved').trans sized'⟩
    | construct => cases same
    | array => cases same
  | @construct platform inner fieldType h c list resolved present owner asked declared ih =>
    generalize same : Declaration.construct c.type c.packed list = d at declares'
    cases declares' with
    | scalar => cases same
    | @construct _ inner' _ h' c' list' resolved' present' owner' asked' declared' =>
      obtain ⟨type, packed, rfl⟩ := Declaration.construct.inj same
      obtain ⟨shape, _⟩ := readable.constructs_alike readable' present present' owner owner'
        type.symm packed.symm asked asked' fun plan other entry here there =>
          ih plan entry here (declared' other entry there)
      have size : c.totalSize = c'.totalSize := BitVec.eq_of_toNat_eq (congrArg Shape.totalSize shape)
      have align : c.alignment = c'.alignment :=
        BitVec.eq_of_toNat_eq (congrArg Shape.alignment shape)
      refine ⟨(c.totalSize, c.alignment), sized_construct resolved present, ?_⟩
      rw [size, align]
      exact sized_construct resolved' present'
    | array => cases same
  | @array platform inner fieldType h a element resolved present owner fixed declared ih =>
    generalize same : Declaration.array element a.counts = d at declares'
    cases declares' with
    | scalar => cases same
    | construct => cases same
    | @array _ inner' _ h' a' element' resolved' present' owner' fixed' declared' =>
      obtain ⟨rfl, counts⟩ := Declaration.array.inj same
      obtain ⟨pair, sized, sized'⟩ := ih declared'
      -- The elements are alike, and scaled by the same extents.
      cases (readable.cached.element present owner).symm.trans sized
      have elements := (readable'.cached.element present' owner').symm.trans sized'
      obtain ⟨elem, align⟩ := Prod.mk.inj (Except.ok.inj elements)
      have extended := readable.arrays h a present
      have total := extended.scaled extended.fixed (toInt_nonneg_of_lt extended.laidOut.elem)
      have extended' := readable'.arrays h' a' present'
      have total' := extended'.scaled extended'.fixed (toInt_nonneg_of_lt extended'.laidOut.elem)
      rw [elem, ← counts, ← total] at total'
      refine ⟨(a.totalSize, a.alignment), sized_array resolved present, ?_⟩
      rw [← total', ← align]
      exact sized_array resolved' present'

/-- Constructs that stand for the same declaration have their fields at the same offsets. -/
theorem Readable.offsets_alike (readable : Readable past s) (readable' : Readable past' t)
    (declares : Declares past s platform fieldType d)
    (declares' : Declares past' t platform' fieldType' d) {h h' : Handle} {c c' : Construct List}
    (resolved : fieldType.resolved platform = some (.construct h)) (present : s.constructs h = some c)
    (resolved' : fieldType'.resolved platform' = some (.construct h'))
    (present' : t.constructs h' = some c') :
    c.fields.map (·.offset.toNat) = c'.fields.map (·.offset.toNat) := by
  cases declares with
  | scalar other sized => cases other.symm.trans resolved
  | array other there owner fixed declared => cases other.symm.trans resolved
  | @construct _ inner _ _ _ list other there owner asked declared =>
    cases other.symm.trans resolved
    cases there.symm.trans present
    generalize same : Declaration.construct c.type c.packed list = d at declares'
    cases declares' with
    | scalar other' sized' => cases other'.symm.trans resolved'
    | array other' there' owner' fixed' declared' => cases other'.symm.trans resolved'
    | @construct _ inner' _ _ _ list' other' there' owner' asked' declared' =>
      cases other'.symm.trans resolved'
      cases there'.symm.trans present'
      obtain ⟨type, packed, rfl⟩ := Declaration.construct.inj same
      exact (readable.constructs_alike readable' present present' owner owner' type.symm packed.symm
        asked asked' fun plan other entry here there =>
          readable.alike readable' (declared plan entry here) (declared' other entry there)).2

end Twins

/-- What has a size is a scalar, or an object that has a size. -/
private theorem declared_of {size align : SizeT}
    (sized : getFieldTypeSizeAlign s platform fieldType = .ok (size, align))
    (object : ∀ n, fieldType.resolved platform = some n → s.sizeAlign n = some (size, align) →
      ∃ d, Declares past s platform fieldType d) :
    ∃ d, Declares past s platform fieldType d := by
  cases resolved : fieldType.resolved platform with
  | none => exact ⟨_, .scalar resolved ((getFieldTypeSizeAlign_of_data s resolved).symm.trans sized)⟩
  | some n => exact object n resolved ((getFieldTypeSizeAlign_of_resolved resolved).mp sized)

theorem Recorded.field_of {plans : List FieldPlan} {c : Construct List} (as : Recorded s plans c)
    {plan : FieldPlan} (member : plan ∈ plans) : ∃ f ∈ c.fields, f.fieldType = plan.fieldType := by
  have listed := List.mem_map_of_mem (f := FieldPlan.fieldType) member
  rw [← as.types] at listed
  exact List.mem_map.mp listed

/-- Every object stands for a declaration, by induction on what is part of what. -/
theorem Readable.declared_object (readable : Readable past s) (n : Node) :
    ∀ platform fieldType sizeAlign, fieldType.resolved platform = some n →
      s.sizeAlign n = some sizeAlign → ∃ d, Declares past s platform fieldType d := by
  induction n using readable.wellFounded.induction with
  | _ n ih =>
    intro platform fieldType sizeAlign resolved there
    cases n with
    | construct h =>
      obtain ⟨c, present, _⟩ := Option.map_eq_some_iff.mp there
      have as := readable.constructs h c present
      obtain ⟨inner, owner⟩ := as.owner
      have each : ∀ plan ∈ members h past, ∃ d, Declares past s inner plan.fieldType d := by
        intro plan member
        obtain ⟨f, listed, same⟩ := as.field_of member
        refine declared_of (as.sized owner member) fun m resolved there => ?_
        have plain := readable.plain _ (.field present ⟨f, listed, rfl⟩) inner owner
        have designates := node_of_resolved plain (same ▸ resolved)
        exact ih m (.field present listed designates) _ _ _ resolved there
      choose! declared spec using each
      let entry (plan : FieldPlan) := (plan.userOffset.map BitVec.toNat, declared plan)
      have entries : (MemberList.ofList ((members h past).map entry)).entries =
        (members h past).map entry := MemberList.entries_ofList _
      have asked : (MemberList.ofList ((members h past).map entry)).entries.map Prod.fst =
          (members h past).map (·.userOffset.map BitVec.toNat) := by
        rw [entries, List.map_map]
        rfl
      refine ⟨_, .construct resolved present owner asked ?_⟩
      intro plan other listed
      have pairs := List.zip_map' (f := id) (g := entry) (l := members h past)
      rw [List.map_id] at pairs
      rw [entries, pairs] at listed
      obtain ⟨plan, member, same⟩ := List.mem_map.mp listed
      cases same
      exact spec plan member
    | array h =>
      obtain ⟨a, present, _⟩ := Option.map_eq_some_iff.mp there
      obtain ⟨inner, align, owner, sized, _⟩ := readable.cached _ (.element present rfl)
      have element : ∃ d, Declares past s inner a.fieldType d := by
        refine declared_of sized fun m resolved there => ?_
        have plain := readable.plain _ (.element present rfl) inner owner
        exact ih m (.element present (node_of_resolved plain resolved)) _ _ _ resolved there
      obtain ⟨d, declared⟩ := element
      exact ⟨_, .array resolved present owner (readable.arrays h a present).fixed declared⟩

/-- Everything that has a size stands for a declaration. -/
theorem Readable.declared (readable : Readable past s) {size align : SizeT}
    (sized : getFieldTypeSizeAlign s platform fieldType = .ok (size, align)) :
    ∃ d, Declares past s platform fieldType d :=
  declared_of sized fun n resolved there => readable.declared_object n _ _ _ resolved there

end Reading

section Steps

variable {s next : Seen} {call : Call} {u : Use}

theorem commit_current {op : Op} {plan : Plan} (bounded : Bounded s) (ready : Ready s.types op plan)
    (maps : DataMaps s.types) (current : Current s.types u)
    (apart : ∀ n, u.fieldType.node = some n → plan.target s.next ≠ some n) :
    Current (commit s.types s.next plan) u := by
  refine current.kept (fun k platform => commit_platform bounded ready) ?_
  intro platform n owner resolved
  have plain := (maps _ platform owner).plain u.fieldType
  exact commit_sizeAlign ready (apart n (node_of_resolved plain resolved))

/-- A use of a frozen type stays current. -/
theorem Change.current (change : Change s call next) (bounded : Bounded s) (maps : DataMaps s.types)
    (current : Current s.types u) (settled : ∀ n, u.fieldType.node = some n → s.types.frozen n = true) :
    Current next.types u := by
  cases change with
  | idle failed same later => rwa [same]
  | frozen ready failed same later =>
    rw [same]
    refine current.kept (fun k platform here => ?_) fun _ _ _ _ => freezeFieldType_sizeAlign _ _ _
    rw [platform_freezeFieldType]
    exact here
  | committed ready code same taken =>
    rw [same]
    refine commit_current bounded ready maps current fun n designates target => ?_
    have set := settled n designates
    rw [ready.target_unfrozen bounded target] at set
    cases set

/-- What was added to a construct stays recorded. -/
theorem Change.recorded (change : Change s call next) (built : Built s) {h : Handle}
    {old : Construct List} {plans : List FieldPlan} (present : s.types.constructs h = some old)
    (as : Recorded s.types plans old) (flag : Bool) :
    Recorded next.types plans { old with frozen := flag } := by
  obtain ⟨platform, owner⟩ := as.owner
  refine ⟨as.types, as.shape, as.offsets, ⟨platform, change.platform_kept built.sizes.bounded owner⟩, ?_⟩
  intro plan member
  refine change.current built.sizes.bounded built.maps (as.current plan member) fun n designates => ?_
  obtain ⟨f, listed, same⟩ := as.field_of member
  exact built.sizes.frozen n ⟨_, .field present ⟨f, listed, rfl⟩,
    (congrArg FieldType.node same).trans designates⟩

/-- The exact layout of one more field is the shape with one more member. -/
theorem placeExact_shape (c : Construct List) (userOffset : Option SizeT) (size align : Nat) :
    let placed := c.shape.place c.type c.packed (userOffset.map BitVec.toNat) size align
    c.placeExact userOffset size align =
      { offset := c.shape.offset c.type c.packed (userOffset.map BitVec.toNat) align
        lastOffset := placed.lastOffset
        totalSize := placed.totalSize
        alignment := placed.alignment } := by
  unfold Construct.placeExact Construct.shape Shape.place Shape.offset Shape.grownAlignment
  cases userOffset <;> cases c.type <;> rfl

/-- Adding a field records it. -/
theorem Recorded.withField {t : Store List} {plans : List FieldPlan} {old : Construct List}
    (as : Recorded t plans old) (h : Handle) {plan : FieldPlan}
    (own : old.alignment.toNat.isPowerOfTwo) (power : plan.align.toNat.isPowerOfTwo)
    (fits : old.Fits plan.userOffset plan.size.toNat plan.align.toNat)
    (current : Current t (plan.useIn old.context)) (flag : Bool) :
    Recorded t (plans ++ [plan]) { old.withField h plan with frozen := flag } := by
  have exactly := place_exactly own power fits
  rw [placeExact_shape] at exactly
  have shape := as.shape
  have offset : (old.place plan.userOffset plan.size plan.align).offset.toNat =
      ((asAdded plans).shape old.type old.packed).offset old.type old.packed
        (plan.userOffset.map BitVec.toNat) plan.align.toNat := by
    rw [← shape]
    exact exactly.offset
  refine ⟨?_, ?_, ?_, as.owner, ?_⟩
  · simp [Construct.withField, FieldPlan.entry, as.types]
  · rw [asAdded_snoc]
    show _ = ((asAdded plans).shape old.type old.packed).place old.type old.packed _ _ _
    rw [← shape]
    exact Shape.ext exactly.lastOffset exactly.totalSize exactly.alignment
  · rw [asAdded_snoc]
    show (old.fields ++ [plan.entry old h]).map (·.offset.toNat) =
      (asAdded plans).offsets old.type old.packed ++
        [((asAdded plans).shape old.type old.packed).offset old.type old.packed
          (plan.userOffset.map BitVec.toNat) plan.align.toNat]
    rw [List.map_append, as.offsets, List.map_singleton, ← offset]
    rfl
  · intro other member
    rcases List.mem_append.mp member with earlier | last
    · exact as.current other earlier
    · obtain rfl := List.mem_singleton.mp last
      exact current

/-- A field that was just added is recorded as it is. -/
theorem Change.current_added (change : Change s call next) (built : Built s) {plan : FieldPlan}
    (ready : Ready s.types call.op (.field plan)) (code : call.code = .success)
    (apart : ¬ call.op.SelfField) {old : Construct List}
    (was : s.types.constructs plan.construct = some old) :
    Current next.types (plan.useIn old.context) := by
  obtain ⟨platform, owner, sized⟩ := ready.field_sized_in was
  obtain ⟨other, again, same, _⟩ := change.of_success code
  cases ready.unique again
  rw [same]
  refine commit_current built.sizes.bounded ready built.maps ⟨platform, plan.align, owner, sized, ?_⟩ ?_
  · intro align present
    exact (Option.some.inj present).symm
  · intro n designates target
    obtain ⟨op, result⟩ := call
    cases ready with
    | field there unfrozen named unused offsets owner sized nonneg =>
      cases target
      exact apart designates

variable {past : List (Transition Machine Event)} {m n : Machine} {event : Event}

theorem Step.recorded (step : Step m event n) (built : Built m.seen)
    (unborn : ∀ h, m.heap.next ≤ h → members h past = []) (readable : Readable past m.store.view)
    (regular : Regular m.store.view event.op event.result.code) {h : Handle} {c : Construct List}
    (present : n.store.view.constructs h = some c) :
    Recorded n.store.view (members h (past ++ [⟨m, event, n⟩])) c := by
  have change := step.change
  have bounded := built.sizes.bounded
  rw [members_snoc]
  cases member : memberOf h ⟨m, event, n⟩ with
  | some plan =>
    obtain ⟨code, checked, rfl⟩ := memberOf_eq_some.mp member
    have ready : Ready m.seen.types event.op (.field plan) := checks_ready checked
    obtain ⟨old, was, same⟩ := change.added ready code present
    have before := change.recorded built was (readable.constructs _ old was) old.frozen
    obtain ⟨platform, _, sized⟩ := ready.field_sized_in was
    have current := change.current_added built ready code (regular code).1 was
    rw [same]
    exact before.withField m.heap.next (built.laidOut.construct _ old was).power
      (built.laidOut.sizeAlign sized).2 (regular.plan ready code old was) current c.frozen
  | none =>
    simp only [Option.toList_none, List.append_nil]
    cases change.construct present with
    | @kept old was same =>
      rw [same]
      exact change.recorded built was (readable.constructs h old was) c.frozen
    | @created type owner name packed ready code here same =>
      have here : h = m.heap.next := here
      rw [same, unborn h (Nat.le_of_eq here.symm)]
      refine ⟨rfl, rfl, rfl, ?_, fun plan listed => absurd listed List.not_mem_nil⟩
      obtain ⟨op, memory, result⟩ := event
      cases ready with
      | construct present unused =>
        have there : m.seen.types.platform owner = some _ :=
          congrArg (Option.map Context.platform) present
        exact ⟨_, change.platform_kept bounded there⟩
    | @extended plan old ready code here was same =>
      have again : memberOf h ⟨m, event, n⟩ = some plan :=
        memberOf_eq_some.mpr ⟨code, ready.checked, here.symm⟩
      rw [member] at again
      cases again

theorem Change.extended (change : Change s call next) (built : Built s)
    (regular : Regular s.types call.op call.code)
    (arrays : ∀ h a, s.types.arrays h = some a → a.Extended) {h : Handle} {a : ArrayType List}
    (present : next.types.arrays h = some a) : a.Extended := by
  have laidOut := (change.laidOut built.laidOut regular).array h a present
  have scaled := change.scaled (fun h a was => (arrays h a was).scaled) present
  refine ⟨?_, laidOut, scaled⟩
  cases change.array present with
  | @kept old was same =>
    rw [same]
    exact (arrays h old was).fixed
  | created ready code here same =>
    rw [same]
    exact fun block member => absurd member List.not_mem_nil
  | @extended d old ready code was same =>
    rw [same]
    exact withDimension_fixed_iff.mpr ⟨(arrays h old was).fixed, (regular.plan ready code).1⟩

theorem Step.readable (step : Step m event n) (built : Built m.seen)
    (unborn : ∀ h, m.heap.next ≤ h → members h past = []) (readable : Readable past m.store.view)
    (regular : Regular m.store.view event.op event.result.code) :
    Readable (past ++ [⟨m, event, n⟩]) n.store.view := by
  have after := (step.change.built built regular).sizes
  refine ⟨after.cached, after.plain, ?_, ?_, ?_⟩
  · exact step.change.wellFounded built.sizes.bounded built.sizes.frozen
      (fun code => (regular code).1) readable.wellFounded
  · exact fun h c present => step.recorded built unborn readable regular present
  · exact fun h a present => step.change.extended built regular readable.arrays present

end Steps

section Runs

variable {trace : List (Transition Machine Event)} {final : Machine}

/-- The types of a run in range can be read as declarations. -/
theorem readable_of_run (run : Run trace final)
    (regular : ∀ entry ∈ trace,
      Regular entry.pre.store.view entry.label.op entry.label.result.code) :
    Readable trace final.store.view := by
  have along := run.invariant_along
    (fun past m => Built m.seen ∧ (∀ h, m.heap.next ≤ h → members h past = []) ∧
      Readable past m.store.view)
    (fun entry => Regular entry.pre.store.view entry.label.op entry.label.result.code) ?_ ?_ regular
  · exact along.2.2
  · refine ⟨initial_built, fun _ _ => rfl, initial_sizes.cached, initial_sizes.plain,
      initial_wellFounded, ?_, ?_⟩
    · exact fun h c present => nomatch present
    · exact fun h a present => nomatch present
  · rintro past m event next ⟨built, unborn, readable⟩ step regular
    refine ⟨step.change.built built regular, ?_, step.readable built unborn readable regular⟩
    intro h later
    have young : m.heap.next ≤ h := Nat.le_trans step.change.next_le later
    rw [members_snoc, unborn h young, memberOf_unborn built.sizes.bounded young]
    rfl

/-- A byte, and a word after it. -/
def byteAndWord : MemberList := .snoc (.snoc .none none (.scalar 1 1)) none (.scalar 4 4)

/-- A struct with three structs of a byte and a word, which begin at offset 8. -/
def shiftedArray : MemberList :=
  .snoc .none (some 8) (.array (.construct .struct false byteAndWord) [3])

/-- A union of that struct and of a long word. -/
def nestedUnion : MemberList :=
  .snoc (.snoc .none none (.construct .struct false shiftedArray)) none (.scalar 8 8)

example : (byteAndWord.shape .struct false).totalSize = 8 ∧ byteAndWord.offsets .struct false = [0, 4] :=
  ⟨rfl, rfl⟩

/-- A construct with these fields stands for a declaration of their members. -/
private theorem declares_construct {past : List (Transition Machine Event)} {s : Store List}
    {platform inner : Platform} {fieldType : FieldType} {h : Handle} {c : Construct List}
    {type : ConstructType} {packed : Bool} {list : MemberList}
    (resolved : fieldType.resolved platform = some (.construct h))
    (present : s.constructs h = some c) (kind : c.type = type ∧ c.packed = packed)
    (owner : s.platform c.context = some inner) (plans : List FieldPlan)
    (added : members h past = plans)
    (asked : list.entries.map Prod.fst = plans.map (·.userOffset.map BitVec.toNat))
    (each : ∀ pair ∈ plans.zip list.entries, Declares past s inner pair.1.fieldType pair.2.2) :
    Declares past s platform fieldType (.construct type packed list) := by
  obtain ⟨rfl, rfl⟩ := kind
  refine .construct resolved present owner (added ▸ asked) fun plan entry listed => ?_
  exact each (plan, entry) (added ▸ listed)

private theorem byteAndWord_declared {past : List (Transition Machine Event)} {s : Store List}
    {h : Handle} {c : Construct List} {byte word : FieldPlan} (present : s.constructs h = some c)
    (kind : c.type = .struct ∧ c.packed = false) (owner : s.platform c.context = some lp64)
    (added : members h past = [byte, word]) (free : byte.userOffset = none ∧ word.userOffset = none)
    (first : Declares past s lp64 byte.fieldType (.scalar 1 1))
    (second : Declares past s lp64 word.fieldType (.scalar 4 4)) :
    Declares past s lp64 ⟨complexTypeStruct, h⟩ (.construct .struct false byteAndWord) := by
  refine declares_construct rfl present kind owner [byte, word] added ?_ ?_
  · rw [List.map_cons, List.map_singleton, free.1, free.2]
    rfl
  · exact List.forall_mem_cons.mpr ⟨first, List.forall_mem_singleton.mpr second⟩

private theorem nestedCalls_byteAndWord : Declares (replay respond Machine.initial nestedCalls).1
    (replay respond Machine.initial nestedCalls).2.store.view lp64 ⟨complexTypeStruct, 1⟩
    (.construct .struct false byteAndWord) :=
  byteAndWord_declared rfl ⟨rfl, rfl⟩ rfl rfl ⟨rfl, rfl⟩
    (@Declares.scalar _ _ _ _ 1 1 rfl rfl) (@Declares.scalar _ _ _ _ 4 4 rfl rfl)

private theorem nestedCalls_nestedUnion : Declares (replay respond Machine.initial nestedCalls).1
    (replay respond Machine.initial nestedCalls).2.store.view lp64 ⟨complexTypeUnion, 8⟩
    (.construct .union false nestedUnion) := by
  have array : Declares (replay respond Machine.initial nestedCalls).1
      (replay respond Machine.initial nestedCalls).2.store.view lp64 ⟨complexTypeArray, 4⟩
      (.array (.construct .struct false byteAndWord) [3]) := by
    obtain ⟨a, present, owner, fixed, counts, element⟩ :
        ∃ a, (replay respond Machine.initial nestedCalls).2.store.view.arrays 4 = some a ∧
          (replay respond Machine.initial nestedCalls).2.store.view.platform a.context = some lp64 ∧
          a.Fixed ∧ a.counts = [3] ∧ a.fieldType = ⟨complexTypeStruct, 1⟩ :=
      ⟨_, rfl, rfl, List.forall_mem_singleton.mpr ⟨3, rfl⟩, rfl, rfl⟩
    rw [← counts]
    exact .array rfl present owner fixed (element ▸ nestedCalls_byteAndWord)
  have struct : Declares (replay respond Machine.initial nestedCalls).1
      (replay respond Machine.initial nestedCalls).2.store.view lp64 ⟨complexTypeStruct, 6⟩
      (.construct .struct false shiftedArray) :=
    declares_construct rfl rfl ⟨rfl, rfl⟩ rfl [_] rfl rfl (List.forall_mem_singleton.mpr array)
  refine declares_construct rfl rfl ⟨rfl, rfl⟩ rfl [_, _] rfl rfl ?_
  refine List.forall_mem_cons.mpr ⟨struct, List.forall_mem_singleton.mpr ?_⟩
  exact @Declares.scalar _ _ _ _ 8 8 rfl rfl

/-- In every run in range, everything that has a size stands for a declaration, and if no extent
follows one that is 0, its size, its alignment and the offsets of its fields are those of the
declaration. -/
theorem declared_layout (run : Run trace final)
    (regular : ∀ entry ∈ trace,
      Regular entry.pre.store.view entry.label.op entry.label.result.code)
    {platform : Platform} {fieldType : FieldType} {size align : SizeT}
    (sized : getFieldTypeSizeAlign final.store.view platform fieldType = .ok (size, align)) :
    (∃ d, Declares trace final.store.view platform fieldType d) ∧
      ∀ d, Declares trace final.store.view platform fieldType d → d.ZerosLast →
        (size.toNat = d.size ∧ align.toNat = d.align) ∧
        ∀ h c, fieldType.resolved platform = some (.construct h) →
          final.store.view.constructs h = some c →
          ∃ list, d = .construct c.type c.packed list ∧
            c.fields.map (·.offset.toNat) = list.offsets c.type c.packed := by
  have readable := readable_of_run run regular
  refine ⟨readable.declared sized, fun d declares zeros => ⟨?_, fun h c resolved present => ?_⟩⟩
  · obtain ⟨_, _, again, exact⟩ := readable.exact declares zeros
    cases sized.symm.trans again
    exact exact
  · exact readable.offsets declares zeros resolved present

theorem declared_nestedCalls :
    ((32 : SizeT).toNat = (Declaration.construct .union false nestedUnion).size ∧
      (8 : SizeT).toNat = (Declaration.construct .union false nestedUnion).align) ∧
    ∀ h c, (⟨complexTypeUnion, 8⟩ : FieldType).resolved lp64 = some (.construct h) →
      (replay respond Machine.initial nestedCalls).2.store.view.constructs h = some c →
      ∃ list, Declaration.construct .union false nestedUnion = .construct c.type c.packed list ∧
        c.fields.map (·.offset.toNat) = list.offsets c.type c.packed := by
  have sized : getFieldTypeSizeAlign (replay respond Machine.initial nestedCalls).2.store.view lp64
      ⟨complexTypeUnion, 8⟩ = .ok (32, 8) := by decide +kernel
  have layout := (declared_layout (replay_run nestedCalls) (by decide +kernel) sized).2
  refine layout _ nestedCalls_nestedUnion ?_
  simp [Declaration.ZerosLast, MemberList.ZerosLast, nestedUnion, shiftedArray, byteAndWord]

/-- The same declaration has the same layout wherever it is made: in two runs in range, types that
stand for one declaration have one size and one alignment, and their fields the same offsets,
whatever the contexts, the handles, the names, the order of the calls, and the calls between. -/
theorem declared_alike {trace' : List (Transition Machine Event)} {final' : Machine}
    (run : Run trace final) (run' : Run trace' final')
    (regular : ∀ entry ∈ trace,
      Regular entry.pre.store.view entry.label.op entry.label.result.code)
    (regular' : ∀ entry ∈ trace',
      Regular entry.pre.store.view entry.label.op entry.label.result.code)
    {platform platform' : Platform} {fieldType fieldType' : FieldType} {d : Declaration}
    (declares : Declares trace final.store.view platform fieldType d)
    (declares' : Declares trace' final'.store.view platform' fieldType' d) :
    getFieldTypeSizeAlign final.store.view platform fieldType =
        getFieldTypeSizeAlign final'.store.view platform' fieldType' ∧
      ∀ h c h' c', fieldType.resolved platform = some (.construct h) →
        final.store.view.constructs h = some c →
        fieldType'.resolved platform' = some (.construct h') →
        final'.store.view.constructs h' = some c' →
        c.fields.map (·.offset) = c'.fields.map (·.offset) := by
  have readable := readable_of_run run regular
  have readable' := readable_of_run run' regular'
  refine ⟨?_, ?_⟩
  · obtain ⟨pair, sized, sized'⟩ := readable.alike readable' declares declares'
    exact sized.trans sized'.symm
  · intro h c h' c' resolved present resolved' present'
    have offsets := readable.offsets_alike readable' declares declares' resolved present resolved'
      present'
    have distinct : Function.Injective (List.map (BitVec.toNat (w := 64))) :=
      List.map_injective_iff.mpr fun x y => BitVec.eq_of_toNat_eq
    apply distinct
    rw [List.map_map, List.map_map]
    exact offsets

/-- A struct of a byte and a word on a second context, made in another order than the one of
`nestedCalls`, with other names and tags, and with other calls in between, one of them refused. -/
def twinCalls : List (Op × Memory) :=
  [(.contextCreate (some []) (some lp64) true, plenty),
   (.contextCreate (some []) (some lp64) true, plenty),
   (.contextCreateConstruct .union (some 0) (some [97]) false true, plenty),
   (.contextCreateConstruct .struct (some 1) (some [98]) false true, plenty),
   (.constructAddField (some 3) (some [99]) (some ⟨0, 0⟩) [], plenty),
   (.constructAddField (some 2) (some [97]) (some ⟨13, 0⟩) [], plenty),
   (.constructAddField (some 3) (some [99]) (some ⟨6, 0⟩) [], plenty),
   (.constructAddField (some 3) (some [100]) (some ⟨4, 0⟩) [], plenty)]

theorem twinCalls_alike :
    getFieldTypeSizeAlign (replay respond Machine.initial nestedCalls).2.store.view lp64
        ⟨complexTypeStruct, 1⟩ =
      getFieldTypeSizeAlign (replay respond Machine.initial twinCalls).2.store.view lp64
        ⟨complexTypeStruct, 3⟩ ∧
    ∀ c c', (replay respond Machine.initial nestedCalls).2.store.view.constructs 1 = some c →
      (replay respond Machine.initial twinCalls).2.store.view.constructs 3 = some c' →
      c.fields.map (·.offset) = c'.fields.map (·.offset) := by
  have twin : Declares (replay respond Machine.initial twinCalls).1
      (replay respond Machine.initial twinCalls).2.store.view lp64 ⟨complexTypeStruct, 3⟩
      (.construct .struct false byteAndWord) :=
    byteAndWord_declared rfl ⟨rfl, rfl⟩ rfl rfl ⟨rfl, rfl⟩
      (@Declares.scalar _ _ _ _ 1 1 rfl rfl) (@Declares.scalar _ _ _ _ 4 4 rfl rfl)
  obtain ⟨sizes, offsets⟩ := declared_alike (replay_run nestedCalls) (replay_run twinCalls)
    (by decide +kernel) (by decide +kernel) nestedCalls_byteAndWord twin
  exact ⟨sizes, fun c c' present present' => offsets 1 c 3 c' rfl present rfl present'⟩

end Runs

end Mam.CopyEngine
