import Mam.CopyEngine.AllOrNothing

/-! The type tags that reach the tables of sizes and alignments. -/

namespace Mam.CopyEngine

open Mam.Library Mam.Vendor

variable {L : Type → Type} {α β : Type}

/-- The call reaches `_mam_get_field_type_size_align`, with this platform and type. -/
inductive LooksUp (s : Store L) : Op → Platform → FieldType → Prop where
  | field {construct : Handle} {record : Construct L} {context : Context L} {name : CString}
      {fieldType : FieldType} {options : List FieldOption} {userOffset : Option SizeT}
      (present : s.constructs construct = some record) (unfrozen : record.frozen = false)
      (named : name ≠ []) (unused : record.fieldsNameHash.find name = none)
      (offsets : readOptions record.type record.lastOffset none options = .ok userOffset)
      (owner : s.contexts record.context = some context) :
      LooksUp s (.constructAddField (some construct) (some name) (some fieldType) options)
        context.platform fieldType
  | array {owner : Handle} {context : Context L} {fieldType : FieldType}
      (present : s.contexts owner = some context) :
      LooksUp s (.contextCreateArray (some owner) (some fieldType) true) context.platform fieldType
  | var {owner : Handle} {context : Context L} {name : CString} {fieldType : FieldType}
      (present : s.contexts owner = some context) (named : name ≠ [])
      (unused : context.variablesNameHash.find name = none) :
      LooksUp s (.contextCreateVariable (some owner) (some name) (some fieldType) true)
        context.platform fieldType

/-- An index of `mam_data_type_size` and `mam_data_type_align`. -/
def InTable (type : Int) : Prop := 0 ≤ type ∧ type < dataTypeSize.length

instance decidableInTable : DecidablePred InTable := fun _ => inferInstanceAs (Decidable (_ ∧ _))

/-- The mapping step takes a mapped tag to its entry in the type map. -/
theorem Platform.mapTag_entry (platform : Platform) (i : Fin mappedTypes) :
    platform.mapTag (mappedTypeChar + i) = platform.typeMap i := by
  have bound := i.isLt
  have range : mappedTypeChar ≤ mappedTypeChar + (i : Int) ∧
      mappedTypeChar + (i : Int) < mappedTypeChar + mappedTypes := by omega
  unfold Platform.mapTag
  rw [dif_pos range]
  congr 1
  apply Fin.ext
  show (mappedTypeChar + (i : Int) - mappedTypeChar).toNat = i
  omega

/-- A tag is mapped, or left alone. -/
theorem Platform.mapTag_cases (platform : Platform) (type : Int) :
    (∃ i : Fin mappedTypes, type = mappedTypeChar + i) ∨ platform.mapTag type = type := by
  by_cases range : mappedTypeChar ≤ type ∧ type < mappedTypeChar + mappedTypes
  · exact .inl ⟨⟨(type - mappedTypeChar).toNat, by omega⟩, by simp only; omega⟩
  · unfold Platform.mapTag
    exact .inr (dif_neg range)

theorem Platform.mapTag_of_inTable (platform : Platform) {type : Int} (inside : InTable type) :
    platform.mapTag type = type := by
  have below : type < mappedTypeChar := by
    have bound := inside.2
    simp only [dataTypeSize, List.length_cons, List.length_nil, mappedTypeChar] at bound ⊢
    omega
  unfold Platform.mapTag
  exact dif_neg fun range => Int.not_le.mpr below range.1

theorem dataTypeSizeAlign_of_inTable {type : Int} (inside : InTable type) :
    ∃ sizeAlign, dataTypeSizeAlign type = .ok sizeAlign := by
  obtain ⟨nonneg, below⟩ := inside
  obtain ⟨index, rfl⟩ := Int.eq_ofNat_of_zero_le nonneg
  have sized : index < dataTypeSize.length := by omega
  have aligned : index < dataTypeAlign.length := sized
  refine ⟨(dataTypeSize[index], dataTypeAlign[index]), ?_⟩
  unfold dataTypeSizeAlign
  rw [if_neg (Int.not_lt.mpr nonneg), Int.toNat_natCast, List.getElem?_eq_getElem sized,
    List.getElem?_eq_getElem aligned]
  rfl

theorem dataTypeSizeAlign_of_not_inTable {type : Int} (outside : ¬ InTable type) :
    dataTypeSizeAlign type = .error (.fault .tagOutOfTable) := by
  unfold dataTypeSizeAlign
  by_cases negative : type < 0
  · rw [if_pos negative]
  · have beyond : dataTypeSize.length ≤ type.toNat := by
      by_contra below
      exact outside ⟨by omega, by omega⟩
    rw [if_neg negative, List.getElem?_eq_none beyond]

/-- A tag of a construct or an array, and a pointer to none. -/
theorem getFieldTypeSizeAlign_of_absent {s : Store L} {platform : Platform} {fieldType : FieldType}
    {n : Node} (resolved : fieldType.resolved platform = some n) (absent : s.sizeAlign n = none) :
    getFieldTypeSizeAlign s platform fieldType = .error (.fault .danglingPointer) := by
  unfold FieldType.resolved designated at resolved
  unfold getFieldTypeSizeAlign deref
  split at resolved
  · rename_i construct
    cases resolved
    have missing : s.constructs fieldType.ref = none := by simpa [Store.sizeAlign] using absent
    simp [construct, missing, bind, Except.bind]
  · rename_i other
    split at resolved
    · rename_i array
      cases resolved
      have missing : s.arrays fieldType.ref = none := by simpa [Store.sizeAlign] using absent
      simp only [if_neg other, if_pos array, missing, bind, Except.bind]
    · cases resolved

/-- What `_mam_get_field_type_size_align` comes to. -/
inductive Looked (s : Store L) (platform : Platform) (fieldType : FieldType) :
    Except Stop (SizeT × SizeT) → Prop where
  | data {sizeAlign : SizeT × SizeT} (plain : fieldType.resolved platform = none)
      (inside : InTable (platform.mapTag fieldType.type)) :
      Looked s platform fieldType (.ok sizeAlign)
  | outside (plain : fieldType.resolved platform = none)
      (outside : ¬ InTable (platform.mapTag fieldType.type)) :
      Looked s platform fieldType (.error (.fault .tagOutOfTable))
  | object {n : Node} {sizeAlign : SizeT × SizeT} (resolved : fieldType.resolved platform = some n)
      (sized : s.sizeAlign n = some sizeAlign) : Looked s platform fieldType (.ok sizeAlign)
  | dangling {n : Node} (resolved : fieldType.resolved platform = some n) :
      Looked s platform fieldType (.error (.fault .danglingPointer))

theorem looked (s : Store L) (platform : Platform) (fieldType : FieldType) :
    Looked s platform fieldType (getFieldTypeSizeAlign s platform fieldType) := by
  cases resolved : fieldType.resolved platform with
  | none =>
    rw [getFieldTypeSizeAlign_of_data s resolved]
    by_cases inside : InTable (platform.mapTag fieldType.type)
    · obtain ⟨sizeAlign, found⟩ := dataTypeSizeAlign_of_inTable inside
      rw [found]
      exact .data resolved inside
    · rw [dataTypeSizeAlign_of_not_inTable inside]
      exact .outside resolved inside
  | some n =>
    cases sized : s.sizeAlign n with
    | some sizeAlign =>
      rw [(getFieldTypeSizeAlign_of_resolved resolved).mpr sized]
      exact .object resolved sized
    | none =>
      rw [getFieldTypeSizeAlign_of_absent resolved sized]
      exact .dangling resolved

/-- Every tag looked up is one under which the caller supplied an object, or an index of
the tables, or is refused. -/
def TagSafe (m : Machine) (mem : Memory) (op : Op) : Prop :=
  ∀ platform fieldType, LooksUp m.store op platform fieldType →
    (∃ n, fieldType.node = some n ∧ fieldType.resolved platform = some n) ∨
    InTable (platform.mapTag fieldType.type) ∨
    ∃ r, exec m mem op = .ok r ∧ r.code = .einval ∧ r.machine = m

/-- The call adds a field, whose size must not be negative. -/
def Op.addsField : Op → Bool
  | .constructAddField .. => true
  | _ => false

/-- The tags that do no harm: those of objects and of data types, the mapped ones whose
entry is a data type, and those whose entry makes an object of negative size of them, which
no field may have. -/
inductive Harmless (s : Store L) (op : Op) (platform : Platform) (fieldType : FieldType) : Prop where
  | object (own : fieldType.type = complexTypeStruct ∨ fieldType.type = complexTypeUnion ∨
      fieldType.type = complexTypeArray)
  | data (inside : InTable fieldType.type)
  | mapped {i : Fin mappedTypes} (tag : fieldType.type = mappedTypeChar + i)
      (entry : InTable (platform.typeMap i))
  | refused {i : Fin mappedTypes} {n : Node} {size align : SizeT} (adds : op.addsField = true)
      (tag : fieldType.type = mappedTypeChar + i)
      (entry : designated (platform.typeMap i) fieldType.ref = some n)
      (sized : s.sizeAlign n = some (size, align)) (negative : size.toInt < 0)

section Lookup

variable {s : Store L} {op : Op} {platform : Platform} {fieldType : FieldType}

/-- From the look-up on, the checks refuse a field of negative size and nothing else. -/
theorem LooksUp.checks_eq (looks : LooksUp s op platform fieldType) :
    ∃ plan : SizeT → SizeT → Plan, checks s op = do
      let (size, align) ← getFieldTypeSizeAlign s platform fieldType
      refute (op.addsField && size.toInt < 0) .einval
      return plan size align := by
  cases looks with
  | @field construct record context name fieldType options userOffset present unfrozen named unused
      offsets owner =>
    refine ⟨fun size align => .field
      { construct := construct, name := name, fieldType := fieldType, userOffset := userOffset,
        size := size, align := align }, ?_⟩
    simp only [checks, constructAddFieldChecks, checkPtr, deref, refute, bind, Except.bind, present,
      unfrozen, named, unused, offsets, owner, Option.isSome_none, decide_false, Bool.false_eq_true,
      if_false, Op.addsField, Bool.true_and]
    cases getFieldTypeSizeAlign s context.platform fieldType with
    | error stop => rfl
    | ok sizeAlign => by_cases negative : sizeAlign.1.toInt < 0 <;> simp [negative] <;> rfl
  | @array owner context fieldType present =>
    refine ⟨fun size align => .array
      { context := owner, fieldType := fieldType, size := size, align := align }, ?_⟩
    simp only [checks, contextCreateArrayChecks, checkPtr, deref, refute, bind, Except.bind, present,
      Bool.not_true, Bool.false_eq_true, if_false, Op.addsField, Bool.false_and]
    cases getFieldTypeSizeAlign s context.platform fieldType <;> rfl
  | @var owner context name fieldType present named unused =>
    refine ⟨fun size align => .var
      { context := owner, name := name, fieldType := fieldType, size := size, align := align }, ?_⟩
    simp only [checks, contextCreateVariableChecks, checkPtr, deref, refute, bind, Except.bind, present,
      named, unused, Option.isSome_none, decide_false, Bool.not_true, Bool.false_eq_true, if_false,
      Op.addsField, Bool.false_and]
    cases getFieldTypeSizeAlign s context.platform fieldType <;> rfl

/-- A call that gets to the look-up stops where the look-up does. -/
theorem LooksUp.stopped (looks : LooksUp s op platform fieldType) {stop : Stop}
    (failed : getFieldTypeSizeAlign s platform fieldType = .error stop) :
    checks s op = .error stop := by
  obtain ⟨plan, same⟩ := looks.checks_eq
  rw [same, failed]
  rfl

/-- A call that finds a size passes its checks, unless it adds a field of negative size. -/
theorem LooksUp.sized (looks : LooksUp s op platform fieldType) {size align : SizeT}
    (found : getFieldTypeSizeAlign s platform fieldType = .ok (size, align)) :
    (op.addsField = true ∧ size.toInt < 0) ∧ checks s op = .error (.code .einval) ∨
      ¬ (op.addsField = true ∧ size.toInt < 0) ∧ ∃ plan, checks s op = .ok plan := by
  obtain ⟨plan, same⟩ := looks.checks_eq
  rw [same, found]
  by_cases refuses : op.addsField = true ∧ size.toInt < 0
  · exact .inl ⟨refuses, by simp [refuses, refute, bind, Except.bind]⟩
  · have passes : (op.addsField && decide (size.toInt < 0)) = false := by
      simpa using refuses
    exact .inr ⟨refuses, plan size align,
      by simp [passes, refute, bind, Except.bind, pure, Except.pure]⟩

theorem bind_eq_error {x : Except Stop α} {f : α → Except Stop β} {stop : Stop} :
    x >>= f = .error stop ↔ x = .error stop ∨ ∃ a, x = .ok a ∧ f a = .error stop := by
  cases x with
  | error stop => simp [bind, Except.bind]
  | ok a => simp [bind, Except.bind]

theorem map_eq_error {x : Except Stop α} {f : α → β} {stop : Stop} :
    x.map f = .error stop ↔ x = .error stop := by
  cases x <;> simp [Except.map]

theorem checkPtr_ne_fault (p : Option α) (fault : Fault) : checkPtr p ≠ .error (.fault fault) := by
  cases p <;> exact nofun

theorem refute_ne_fault (cond : Bool) (error : MamError) (fault : Fault) :
    refute cond error ≠ .error (.fault fault) := by
  cases cond <;> exact nofun

theorem deref_ne_stray (table : Handle → Option α) (h : Handle) :
    deref table h ≠ .error (.fault .tagOutOfTable) := by
  unfold deref
  split <;> exact nofun

theorem readOptions_ne_fault (type : ConstructType) (lastOffset : SizeT) (fault : Fault)
    (options : List FieldOption) :
    ∀ userOffset, readOptions type lastOffset userOffset options ≠ .error (.fault fault) := by
  induction options with
  | nil => exact fun _ => nofun
  | cons option rest ih =>
    intro userOffset
    cases option with
    | offset value =>
      simp only [readOptions, ne_eq, bind_eq_error, refute_ne_fault, false_or, not_exists, not_and]
      exact fun _ _ _ _ => ih _
    | other option => exact nofun

/-- A call that reads outside the tables got to the look-up, and did so there. -/
theorem looksUp_of_stray (strays : checks s op = .error (.fault .tagOutOfTable)) :
    ∃ platform fieldType, LooksUp s op platform fieldType ∧
      getFieldTypeSizeAlign s platform fieldType = .error (.fault .tagOutOfTable) := by
  cases op with
  | constructAddField construct name fieldType options =>
    simp only [checks, constructAddFieldChecks, map_eq_error, bind_eq_error, checkPtr_ne_fault,
      refute_ne_fault, deref_ne_stray, readOptions_ne_fault, false_or, or_false, checkPtr_eq_ok,
      refute_eq_ok, deref_eq_ok, pure, Except.pure, reduceCtorEq, and_false, exists_false] at strays
    obtain ⟨construct, rfl, name, rfl, fieldType, rfl, record, present, _, unfrozen, _, named, _,
      unused, userOffset, offsets, context, owner, failed⟩ := strays
    exact ⟨_, _, .field present unfrozen (by simpa using named) (by simpa using unused) offsets owner,
      failed⟩
  | contextCreateArray context fieldType ret =>
    simp only [checks, contextCreateArrayChecks, map_eq_error, bind_eq_error, checkPtr_ne_fault,
      refute_ne_fault, deref_ne_stray, false_or, or_false, checkPtr_eq_ok, refute_eq_ok, deref_eq_ok,
      pure, Except.pure, reduceCtorEq, and_false, exists_false, Bool.not_eq_false'] at strays
    obtain ⟨context, rfl, fieldType, rfl, _, rfl, record, present, failed⟩ := strays
    exact ⟨_, _, .array present, failed⟩
  | contextCreateVariable context name fieldType ret =>
    simp only [checks, contextCreateVariableChecks, map_eq_error, bind_eq_error, checkPtr_ne_fault,
      refute_ne_fault, deref_ne_stray, false_or, or_false, checkPtr_eq_ok, refute_eq_ok, deref_eq_ok,
      pure, Except.pure, reduceCtorEq, and_false, exists_false, Bool.not_eq_false'] at strays
    obtain ⟨context, rfl, name, rfl, fieldType, rfl, _, rfl, _, named, record, present, _, unused,
      failed⟩ := strays
    exact ⟨_, _, .var present (by simpa using named) (by simpa using unused), failed⟩
  | _ =>
    simp [checks, contextCreateChecks, contextCreateConstructChecks, contextCreatePointerChecks,
      arrayAddDimensionChecks, map_eq_error, bind_eq_error, checkPtr_ne_fault, refute_ne_fault,
      deref_ne_stray, pure, Except.pure] at strays

/-- A call's checks read outside the tables exactly when it looks up a tag that is no
object's and no index. -/
theorem checks_stray_iff : checks s op = .error (.fault .tagOutOfTable) ↔
    ∃ platform fieldType, LooksUp s op platform fieldType ∧
      fieldType.resolved platform = none ∧ ¬ InTable (platform.mapTag fieldType.type) := by
  constructor
  · intro strays
    obtain ⟨platform, fieldType, looks, failed⟩ := looksUp_of_stray strays
    have came := looked s platform fieldType
    rw [failed] at came
    cases came with
    | outside plain outside => exact ⟨platform, fieldType, looks, plain, outside⟩
  · intro outside
    obtain ⟨platform, fieldType, looks, plain, outside⟩ := outside
    apply looks.stopped
    rw [getFieldTypeSizeAlign_of_data s plain, dataTypeSizeAlign_of_not_inTable outside]

end Lookup

/-- A call that its checks refuse returns their error, and leaves everything as it was. -/
theorem exec_of_refused {m : Machine} {op : Op} {error : MamError} (mem : Memory)
    (refused : checks m.store op = .error (.code error)) :
    exec m mem op = .ok { code := error, machine := m, value := none } := by
  cases op <;> simp only [checks, map_eq_error] at refused <;>
    simp [exec, contextCreate, contextCreateConstruct, constructAddField, contextCreatePointer,
      contextCreateArray, arrayAddDimension, contextCreateVariable, guarded, refused]

/-- Only the checks return `MAM_EINVAL`. -/
theorem refused_of_einval {m : Machine} {mem : Memory} {op : Op} {r : Return}
    (returned : exec m mem op = .ok r) (code : r.code = .einval) :
    checks m.store op = .error (.code .einval) := by
  cases exec_returned returned with
  | refused refused same =>
    rw [same] at code
    cases code
    exact refused
  | starved passed missing undone same => simp [undone.code] at code
  | unappended passed calloc malloc full missing undone same torn => simp [undone.code] at code
  | uninserted passed calloc malloc appended inserts missing undone same intact =>
    simp [undone.code] at code
  | done passed enough success heap same intact => simp [success] at code

section Harm

variable {s : Store L} {op : Op} {platform : Platform} {fieldType : FieldType}

theorem node_ne_none_iff (fieldType : FieldType) : fieldType.node ≠ none ↔
    fieldType.type = complexTypeStruct ∨ fieldType.type = complexTypeUnion ∨
      fieldType.type = complexTypeArray := by
  unfold FieldType.node designated
  split
  · rename_i construct
    simp only [ne_eq, reduceCtorEq, not_false_eq_true, true_iff]
    exact construct.elim .inl fun union => .inr (.inl union)
  · rename_i other
    split
    · rename_i array
      simp [array]
    · rename_i scalar
      simp only [ne_eq, not_true_eq_false, false_iff, not_or]
      exact ⟨fun struct => other (.inl struct), fun union => other (.inr union), scalar⟩

theorem harmless_of_inTable (s : Store L) (op : Op)
    (inside : InTable (platform.mapTag fieldType.type)) : Harmless s op platform fieldType := by
  rcases platform.mapTag_cases fieldType.type with ⟨i, tag⟩ | same
  · rw [tag, platform.mapTag_entry] at inside
    exact .mapped tag inside
  · rw [same] at inside
    exact .data inside

/-- A field that is refused for the size of its object, by its own tag or a mapped one. -/
theorem harmless_of_negative {n : Node} {size align : SizeT} (adds : op.addsField = true)
    (resolved : fieldType.resolved platform = some n) (sized : s.sizeAlign n = some (size, align))
    (negative : size.toInt < 0) : Harmless s op platform fieldType := by
  unfold FieldType.resolved at resolved
  rcases platform.mapTag_cases fieldType.type with ⟨i, tag⟩ | same
  · rw [tag, platform.mapTag_entry] at resolved
    exact .refused adds tag resolved sized negative
  · rw [same] at resolved
    have designates : fieldType.node ≠ none := by simp [FieldType.node, resolved]
    exact .object ((node_ne_none_iff fieldType).mp designates)

/-- A tag whose call is refused once it got to the look-up does no harm. -/
theorem harmless_of_refused (looks : LooksUp s op platform fieldType)
    (refused : checks s op = .error (.code .einval)) : Harmless s op platform fieldType := by
  have outcome := looked s platform fieldType
  cases found : getFieldTypeSizeAlign s platform fieldType with
  | error stop =>
    have stopped := looks.stopped found
    rw [refused] at stopped
    cases stopped
    rw [found] at outcome
    cases outcome
  | ok sizeAlign =>
    rw [found] at outcome
    rcases looks.sized found with ⟨⟨adds, negative⟩, _⟩ | ⟨_, plan, passed⟩
    · cases outcome with
      | data plain inside => exact harmless_of_inTable s op inside
      | object resolved sized => exact harmless_of_negative adds resolved sized negative
    · rw [refused] at passed
      cases passed

end Harm

/-- In every state a call's tags are safe exactly when those it looks up do no harm. -/
theorem tagSafe_iff_harmless (m : Machine) (mem : Memory) (op : Op) :
    TagSafe m mem op ↔
      ∀ platform fieldType, LooksUp m.store op platform fieldType →
        Harmless m.store op platform fieldType := by
  constructor
  · intro safe platform fieldType looks
    rcases safe platform fieldType looks with ⟨n, designates, _⟩ | inside | ⟨r, returned, code, _⟩
    · exact .object ((node_ne_none_iff fieldType).mp (by simp [designates]))
    · exact harmless_of_inTable m.store op inside
    · exact harmless_of_refused looks (refused_of_einval returned code)
  · intro harmless platform fieldType looks
    cases harmless platform fieldType looks with
    | object own =>
      obtain ⟨n, node⟩ := Option.ne_none_iff_exists'.mp ((node_ne_none_iff fieldType).mpr own)
      exact .inl ⟨n, node, resolved_of_node node platform⟩
    | data inside =>
      refine .inr (.inl ?_)
      rw [platform.mapTag_of_inTable inside]
      exact inside
    | mapped tag entry =>
      refine .inr (.inl ?_)
      rw [tag, platform.mapTag_entry]
      exact entry
    | @refused i n size align adds tag entry sized negative =>
      have resolved : fieldType.resolved platform = some n := by
        rw [FieldType.resolved, tag, platform.mapTag_entry]
        exact entry
      have found := (getFieldTypeSizeAlign_of_resolved resolved).mpr sized
      rcases looks.sized found with ⟨_, refused⟩ | ⟨other, _⟩
      · exact .inr (.inr ⟨_, exec_of_refused mem refused, rfl, rfl⟩)
      · exact absurd ⟨adds, negative⟩ other

/-- An array of a type whose tag is `MAM_DATA_TYPE_MAX` is created with a size from
beyond the table. -/
theorem beyond_table : ¬ ∀ (trace : List (Transition Machine Event)) (final : Machine),
    Run trace final → ∀ mem op, TagSafe final mem op := by
  intro safe
  obtain ⟨context, present, platform⟩ : ∃ context,
      (replay respond Machine.initial contextCalls).2.store.contexts 0 = some context ∧
        context.platform = lp64 := ⟨_, rfl, rfl⟩
  have stray := safe _ _ (replay_run contextCalls) plenty
    (.contextCreateArray (some 0) (some ⟨14, 0⟩) true) _ _ (.array present)
  rw [platform] at stray
  rcases stray with ⟨n, designates, _⟩ | inside | ⟨r, returned, _, _⟩
  · revert designates
    simp [FieldType.node, designated, complexTypeStruct, complexTypeUnion, complexTypeArray]
  · revert inside
    decide
  · have refused := refused_of_einval returned
    cases returned

end Mam.CopyEngine
