import Mam.CopyEngine.Leaves

/-! Natural alignment, where no construct is packed. -/

namespace Mam.CopyEngine

open Mam.Library

section Powers

/-- Without packing, the new alignment is a multiple of the old one and of the field's. -/
theorem placeExact_alignment {c : Construct List} {align : Nat} (userOffset : Option SizeT)
    (size : Nat) (own : c.alignment.toNat.isPowerOfTwo) (power : align.isPowerOfTwo)
    (unpacked : c.packed = false) :
    c.alignment.toNat ∣ (c.placeExact userOffset size align).alignment ∧
      align ∣ (c.placeExact userOffset size align).alignment := by
  have larger : (c.placeExact userOffset size align).alignment = max c.alignment.toNat align := by
    simp [Construct.placeExact, unpacked]
  have both := power_max own power
  rw [larger]
  exact ⟨power_dvd_of_le own both (Nat.le_max_left _ _),
    power_dvd_of_le power both (Nat.le_max_right _ _)⟩

/-- Without packing, the total is padded to the alignment. -/
theorem placeExact_padded {c : Construct List} {userOffset : Option SizeT} {size align : Nat}
    (own : c.alignment.toNat.isPowerOfTwo) (power : align.isPowerOfTwo)
    (unpacked : c.packed = false) :
    (c.placeExact userOffset size align).alignment ∣
      (c.placeExact userOffset size align).totalSize := by
  have positive := Nat.pos_of_isPowerOfTwo (power_max own power)
  simp only [Construct.placeExact, unpacked]
  exact dvd_roundUp _ positive

/-- Without packing, a field is placed at a multiple of its alignment, if the caller does
not place it elsewhere. -/
theorem placeExact_aligned {c : Construct List} {userOffset : Option SizeT} {size align : Nat}
    (power : align.isPowerOfTwo) (unpacked : c.packed = false)
    (natural : ∀ offset ∈ userOffset, align ∣ offset.toNat) :
    align ∣ (c.placeExact userOffset size align).offset := by
  cases userOffset with
  | some offset => exact natural offset rfl
  | none =>
    simp only [Construct.placeExact, unpacked]
    cases c.type with
    | struct => exact dvd_roundUp _ (Nat.pos_of_isPowerOfTwo power)
    | union => exact Nat.dvd_zero _

end Powers

/-- The plan creates no packed construct, and places no field off its alignment. -/
def Plan.Natural : Plan → Prop
  | .construct _ _ _ packed => packed = false
  | .field plan => ∀ offset ∈ plan.userOffset, plan.align.toNat ∣ offset.toNat
  | _ => True

/-- A call that succeeds creates no packed construct, and places no field off its
alignment. -/
def Natural (s : Store List) (op : Op) (code : MamError) : Prop :=
  code = .success → ∀ plan, checks s op = .ok plan → plan.Natural

instance : DecidablePred Plan.Natural
  | .construct _ _ _ packed => inferInstanceAs (Decidable (packed = false))
  -- the instance is named: the search takes one that runs through all offsets there are
  | .field plan => Option.decidableForallMem plan.userOffset
  | .context _ _ | .pointer _ _ | .array _ | .dimension _ _ | .var _ => .isTrue trivial

instance (s : Store List) (op : Op) (code : MamError) : Decidable (Natural s op code) :=
  inferInstanceAs (Decidable (_ → ∀ _, _ → _))

/-- Fields and elements are aligned, and sizes are multiples of alignments. -/
structure Aligned (s : Store List) : Prop where
  construct : ∀ h c, s.constructs h = some c →
    c.packed = false ∧ c.alignment.toNat ∣ c.totalSize.toNat
  field : ∀ h c f, s.constructs h = some c → f ∈ c.fields → ∃ platform align,
    s.platform c.context = some platform ∧
      getFieldTypeSizeAlign s platform f.fieldType = .ok (f.size, align) ∧
      align.toNat ∣ f.offset.toNat ∧ align.toNat ∣ c.alignment.toNat
  array : ∀ h a, s.arrays h = some a →
    a.alignment.toNat ∣ a.elemSize.toNat ∧ a.alignment.toNat ∣ a.totalSize.toNat

section Store

variable {s : Store List}

/-- The size of every type is a multiple of its alignment. -/
theorem Aligned.size (aligned : Aligned s) {platform : Platform} {fieldType : FieldType}
    {size align : SizeT}
    (sized : getFieldTypeSizeAlign s platform fieldType = .ok (size, align)) :
    align.toNat ∣ size.toNat := by
  cases sizeSource_of_sized sized with
  | data found => exact (dataTypeSizeAlign_spec found).2.2
  | construct present => exact (aligned.construct _ _ present).2
  | array present => exact (aligned.array _ _ present).2

/-- Every leaf lies at a multiple of its alignment, which divides that of the type. -/
theorem Leaf.aligned (aligned : Aligned s) (cached : Cached s) {platform : Platform}
    {fieldType : FieldType} {path : List PathStep} {leaf : Scalar}
    (reached : Leaf s platform fieldType path leaf) :
    ∀ size align, getFieldTypeSizeAlign s platform fieldType = .ok (size, align) →
      leaf.align ∣ align.toNat ∧ leaf.align ∣ leaf.range.start := by
  induction reached with
  | scalar resolved found =>
    intro size align sized
    rw [getFieldTypeSizeAlign_of_data s resolved, found] at sized
    cases sized
    exact ⟨Nat.dvd_refl _, Nat.dvd_zero _⟩
  | @member platform inner fieldType h c i f path leaf resolved present field owner below ih =>
    intro size align sized
    cases size_of_construct resolved present sized
    obtain ⟨other, own, there, fieldSized, placed, divides⟩ :=
      aligned.field h c f present (List.mem_of_getElem? field)
    have same : other = inner := Option.some.inj (there.symm.trans owner)
    rw [same] at fieldSized
    obtain ⟨least, start⟩ := ih _ _ fieldSized
    exact ⟨Nat.dvd_trans least divides, Nat.dvd_add (Nat.dvd_trans least placed) start⟩
  | @element platform inner fieldType h a k path leaf resolved present listed counted owner below ih =>
    intro size align sized
    cases size_of_array resolved present sized
    obtain ⟨least, start⟩ := ih _ _ (cached.element present owner)
    have stride := Nat.dvd_trans least (aligned.array h a present).1
    exact ⟨least, Nat.dvd_add (Nat.dvd_mul_left_of_dvd stride k) start⟩

end Store

section Steps

variable {s next : Seen} {call : Call}

/-- The size and alignment of a type in use stay. -/
theorem Change.sized_of_used (change : Change s call next) (sizes : Sizes s) {u : Use}
    (uses : Uses s.types u) {platform : Platform} (owner : s.types.platform u.owner = some platform)
    {sizeAlign : SizeT × SizeT}
    (sized : getFieldTypeSizeAlign s.types platform u.fieldType = .ok sizeAlign) :
    getFieldTypeSizeAlign next.types platform u.fieldType = .ok sizeAlign := by
  refine getFieldTypeSizeAlign_congr sized fun n resolved => ?_
  have designates := node_of_resolved (sizes.plain u uses platform owner) resolved
  exact (change.same sizes.bounded (sizes.frozen n ⟨u, uses, designates⟩)).sizeAlign

/-- The size and alignment of the type of a field stay when the field is added. -/
theorem Change.sized_of_added (change : Change s call next) {plan : FieldPlan}
    (ready : Ready s.types call.op (.field plan)) (notSelf : ¬ call.op.SelfField)
    {platform : Platform} (plain : ¬ plan.fieldType.Disguised platform) {sizeAlign : SizeT × SizeT}
    (sized : getFieldTypeSizeAlign s.types platform plan.fieldType = .ok sizeAlign) :
    getFieldTypeSizeAlign next.types platform plan.fieldType = .ok sizeAlign := by
  refine getFieldTypeSizeAlign_congr sized fun n resolved => ?_
  refine change.sizeAlign_of_other fun other again target => ?_
  cases ready.unique again
  cases target
  have designates := node_of_resolved plain resolved
  obtain ⟨op, code⟩ := call
  cases ready with
  | field present unfrozen named unused offsets owner sized nonneg => exact notSelf designates

/-- The layout of a field that is added is exact. -/
theorem LaidOut.placed {s : Store List} (laidOut : LaidOut s) {op : Op} {plan : FieldPlan}
    {record : Construct List} (ready : Ready s op (.field plan))
    (present : s.constructs plan.construct = some record)
    (fits : record.Fits plan.userOffset plan.size.toNat plan.align.toNat) :
    plan.align.toNat.isPowerOfTwo ∧
      (record.place plan.userOffset plan.size plan.align).Exactly
        (record.placeExact plan.userOffset plan.size.toNat plan.align.toNat) := by
  obtain ⟨platform, _, sized⟩ := ready.field_sized_in present
  have power := (laidOut.sizeAlign sized).2
  exact ⟨power, place_exactly (laidOut.construct _ _ present).power power fits⟩

private theorem construct_aligned (change : Change s call next) (built : Built s)
    (aligned : Aligned s.types) (regular : Regular s.types call.op call.code)
    (natural : Natural s.types call.op call.code) {h : Handle} {c : Construct List}
    (present : next.types.constructs h = some c) :
    c.packed = false ∧ c.alignment.toNat ∣ c.totalSize.toNat := by
  cases change.construct present with
  | @kept old was same =>
    rw [same]
    exact aligned.construct h old was
  | created ready code here same =>
    rw [same]
    exact ⟨natural code _ ready.checked, Nat.dvd_zero _⟩
  | @extended plan old ready code here was same =>
    subst here
    obtain ⟨power, exactly⟩ := built.laidOut.placed ready was (regular.plan ready code old was)
    obtain ⟨unpacked, _⟩ := aligned.construct _ old was
    rw [same]
    refine ⟨unpacked, ?_⟩
    show (old.place plan.userOffset plan.size plan.align).alignment.toNat ∣
      (old.place plan.userOffset plan.size plan.align).totalSize.toNat
    rw [exactly.alignment, exactly.totalSize]
    exact placeExact_padded (built.laidOut.construct _ old was).power power unpacked

private theorem field_aligned (change : Change s call next) (built : Built s)
    (aligned : Aligned s.types) (regular : Regular s.types call.op call.code)
    (natural : Natural s.types call.op call.code) {h : Handle} {c : Construct List} {f : Field}
    (present : next.types.constructs h = some c) (member : f ∈ c.fields) :
    ∃ platform align, next.types.platform c.context = some platform ∧
      getFieldTypeSizeAlign next.types platform f.fieldType = .ok (f.size, align) ∧
      align.toNat ∣ f.offset.toNat ∧ align.toNat ∣ c.alignment.toNat := by
  have carried (old : Construct List) (was : s.types.constructs h = some old)
      (earlier : f ∈ old.fields) (context : c.context = old.context)
      (divides : old.alignment.toNat ∣ c.alignment.toNat) :
      ∃ platform align, next.types.platform c.context = some platform ∧
        getFieldTypeSizeAlign next.types platform f.fieldType = .ok (f.size, align) ∧
        align.toNat ∣ f.offset.toNat ∧ align.toNat ∣ c.alignment.toNat := by
    obtain ⟨platform, align, owner, sized, placed, own⟩ := aligned.field h old f was earlier
    have uses : Uses s.types (f.use old.context) := .field was ⟨f, earlier, rfl⟩
    rw [context]
    exact ⟨platform, align, change.platform_kept built.sizes.bounded owner,
      change.sized_of_used built.sizes uses owner sized, placed, Nat.dvd_trans own divides⟩
  cases change.construct present with
  | @kept old was same =>
    have earlier : f ∈ old.fields := by
      rw [same] at member
      exact member
    exact carried old was earlier (by rw [same]) (by rw [same])
  | created ready code here same =>
    rw [same] at member
    cases member
  | @extended plan old ready code here was same =>
    subst here
    obtain ⟨power, exactly⟩ := built.laidOut.placed ready was (regular.plan ready code old was)
    obtain ⟨unpacked, _⟩ := aligned.construct _ old was
    have own := (built.laidOut.construct _ old was).power
    obtain ⟨grown, covers⟩ :=
      placeExact_alignment plan.userOffset plan.size.toNat own power unpacked
    have alignment : c.alignment.toNat =
        (old.placeExact plan.userOffset plan.size.toNat plan.align.toNat).alignment := by
      rw [same]
      exact exactly.alignment
    rw [← alignment] at grown covers
    have fields : c.fields = old.fields ++ [plan.entry old s.next] := by rw [same]; rfl
    have context : c.context = old.context := by rw [same]; rfl
    rw [fields] at member
    rcases List.mem_append.mp member with earlier | added
    · exact carried old was earlier context grown
    · obtain rfl := List.mem_singleton.mp added
      obtain ⟨platform, owner, sized⟩ := ready.field_sized_in was
      rw [context]
      refine ⟨platform, plan.align, change.platform_kept built.sizes.bounded owner, ?_, ?_, covers⟩
      · exact change.sized_of_added ready (regular code).1 ((built.maps _ _ owner).plain _) sized
      · show plan.align.toNat ∣ (old.place plan.userOffset plan.size plan.align).offset.toNat
        rw [exactly.offset]
        exact placeExact_aligned power unpacked (natural code _ ready.checked)

private theorem array_aligned (change : Change s call next) (built : Built s)
    (aligned : Aligned s.types) (regular : Regular s.types call.op call.code) {h : Handle}
    {a : ArrayType List} (present : next.types.arrays h = some a) :
    a.alignment.toNat ∣ a.elemSize.toNat ∧ a.alignment.toNat ∣ a.totalSize.toNat := by
  cases change.array present with
  | @kept old was same =>
    rw [same]
    exact aligned.array h old was
  | @created plan ready code here same =>
    obtain ⟨platform, sized⟩ := ready.element_sized
    rw [same]
    exact ⟨aligned.size sized, Nat.dvd_zero _⟩
  | @extended d old ready code was same =>
    obtain ⟨elem, total⟩ := aligned.array h old was
    obtain ⟨fixed, fits⟩ := regular.plan ready code
    obtain ⟨product, _⟩ := (built.laidOut.array h old was).toNat_extend fixed (fits old was)
    have factor : old.alignment.toNat ∣ old.factor.toNat := by
      unfold ArrayType.factor
      split
      · exact elem
      · exact total
    rw [same]
    refine ⟨elem, ?_⟩
    show old.alignment.toNat ∣ (old.extend d).toNat
    rw [product]
    exact Nat.dvd_mul_right_of_dvd factor _

/-- A call in range that packs nothing and places fields naturally keeps types aligned. -/
theorem Change.aligned (change : Change s call next) (built : Built s) (aligned : Aligned s.types)
    (regular : Regular s.types call.op call.code) (natural : Natural s.types call.op call.code) :
    Aligned next.types :=
  ⟨fun _ _ present => construct_aligned change built aligned regular natural present,
    fun _ _ _ present member => field_aligned change built aligned regular natural present member,
    fun _ _ present => array_aligned change built aligned regular present⟩

end Steps

section Runs

variable {trace : List (Transition Machine Event)} {final : Machine}

/-- For every type that a run in range builds without packing and without placing a field
off its alignment: its alignment is a power of two and divides its size, and every scalar
in it lies at a multiple of its own alignment. -/
theorem naturally_aligned (run : Run trace final)
    (regular : ∀ entry ∈ trace,
      Regular entry.pre.store.view entry.label.op entry.label.result.code)
    (natural : ∀ entry ∈ trace,
      Natural entry.pre.store.view entry.label.op entry.label.result.code)
    {platform : Platform} {fieldType : FieldType} {size align : SizeT}
    (sized : getFieldTypeSizeAlign final.store.view platform fieldType = .ok (size, align)) :
    align.toNat.isPowerOfTwo ∧ align.toNat ∣ size.toNat ∧
      ∀ path leaf, Leaf final.store.view platform fieldType path leaf →
        leaf.align ∣ leaf.range.start := by
  have start : Aligned Machine.initial.seen.types :=
    ⟨fun _ _ present => (nomatch present), fun _ _ _ present => (nomatch present),
      fun _ _ present => (nomatch present)⟩
  have both := run.invariant_within (fun m => Built m.seen ∧ Aligned m.seen.types)
    (fun entry => Regular entry.pre.store.view entry.label.op entry.label.result.code ∧
      Natural entry.pre.store.view entry.label.op entry.label.result.code)
    ⟨initial_built, start⟩
    (fun _ _ _ both step within => ⟨step.change.built both.1 within.1,
      step.change.aligned both.1 both.2 within.1 within.2⟩)
    (fun entry member => ⟨regular entry member, natural entry member⟩)
  obtain ⟨built, aligned⟩ := both
  refine ⟨(built.laidOut.sizeAlign sized).2, aligned.size sized, ?_⟩
  intro path leaf reached
  exact (reached.aligned aligned built.sizes.cached size align sized).2

theorem aligned_nestedCalls :
    (8 : SizeT).toNat.isPowerOfTwo ∧ (8 : SizeT).toNat ∣ (32 : SizeT).toNat ∧
      ∀ path leaf, Leaf (replay respond Machine.initial nestedCalls).2.store.view lp64
        ⟨complexTypeUnion, 8⟩ path leaf → leaf.align ∣ leaf.range.start := by
  have sized : getFieldTypeSizeAlign (replay respond Machine.initial nestedCalls).2.store.view lp64
      ⟨complexTypeUnion, 8⟩ = .ok ((32 : SizeT), (8 : SizeT)) := rfl
  exact naturally_aligned (replay_run nestedCalls) (by decide +kernel) (by decide +kernel) sized

end Runs

end Mam.CopyEngine
