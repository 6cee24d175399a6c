import Mam.CopyEngine.Effect

/-! The types of a store as a graph: its nodes, what designates them, and what each
step does to them. -/

namespace Mam.CopyEngine

open Mam.Library Mam.Vendor

variable {L : Type → Type} {α β : Type}

/-- A construct or an array. -/
inductive Node where
  | construct (h : Handle)
  | array (h : Handle)
deriving DecidableEq, Repr

/-- The object that a tag and a pointer beside it stand for. -/
def designated (type : Int) (ref : Handle) : Option Node :=
  if type = complexTypeStruct ∨ type = complexTypeUnion then some (.construct ref)
  else if type = complexTypeArray then some (.array ref)
  else none

/-- The object a field type uses by value, by the tag it was given. -/
def FieldType.node (fieldType : FieldType) : Option Node := designated fieldType.type fieldType.ref

/-- The object a field type takes its size from, by the tag after mapping. -/
def FieldType.resolved (fieldType : FieldType) (platform : Platform) : Option Node :=
  designated (platform.mapTag fieldType.type) fieldType.ref

/-- `total_size` and `alignment` of an object. -/
def Store.sizeAlign (s : Store L) : Node → Option (SizeT × SizeT)
  | .construct h => (s.constructs h).map fun c => (c.totalSize, c.alignment)
  | .array h => (s.arrays h).map fun a => (a.totalSize, a.alignment)

/-- The frozen flag of an object. -/
def Store.frozen (s : Store L) : Node → Bool
  | .construct h => (s.constructs h).any (·.frozen)
  | .array h => (s.arrays h).any (·.frozen)

/-- A use of a type by value: the context of the user, and the size and alignment it
recorded. A field records no alignment. -/
structure Use where
  owner : Handle
  fieldType : FieldType
  size : SizeT
  align : Option SizeT

/-- The use that a field of a construct makes of its type. -/
def Field.use (f : Field) (owner : Handle) : Use := ⟨owner, f.fieldType, f.size, none⟩

/-- The use that an array makes of its element type. -/
def ArrayType.use (a : ArrayType List) : Use := ⟨a.context, a.fieldType, a.elemSize, some a.alignment⟩

/-- The use that a variable makes of its type. -/
def Variable.use (v : Variable) : Use := ⟨v.context, v.fieldType, v.size, some v.alignment⟩

/-- Something in the store makes the use. -/
inductive Uses (s : Store List) (u : Use) : Prop where
  | field {h : Handle} {c : Construct List} (present : s.constructs h = some c)
      (member : ∃ f ∈ c.fields, f.use c.context = u)
  | element {h : Handle} {a : ArrayType List} (present : s.arrays h = some a) (same : a.use = u)
  | var {h : Handle} {v : Variable} (present : s.vars h = some v) (same : v.use = u)

section Sizes

theorem getFieldTypeSizeAlign_of_resolved {s : Store L} {platform : Platform}
    {fieldType : FieldType} {n : Node} (resolved : fieldType.resolved platform = some n)
    {sizeAlign : SizeT × SizeT} :
    getFieldTypeSizeAlign s platform fieldType = .ok sizeAlign ↔ s.sizeAlign n = some sizeAlign := by
  unfold FieldType.resolved designated at resolved
  unfold getFieldTypeSizeAlign deref
  split at resolved
  · rename_i construct
    cases resolved
    simp only [construct, if_true, Store.sizeAlign]
    cases s.constructs fieldType.ref <;> simp [bind, Except.bind, pure, Except.pure]
  · rename_i other
    split at resolved
    · rename_i array
      cases resolved
      simp only [if_neg other, if_pos array, Store.sizeAlign]
      cases s.arrays fieldType.ref <;> simp [bind, Except.bind, pure, Except.pure]
    · cases resolved

theorem getFieldTypeSizeAlign_of_data (s : Store L) {platform : Platform} {fieldType : FieldType}
    (resolved : fieldType.resolved platform = none) :
    getFieldTypeSizeAlign s platform fieldType = dataTypeSizeAlign (platform.mapTag fieldType.type) := by
  unfold FieldType.resolved designated at resolved
  unfold getFieldTypeSizeAlign
  split at resolved
  · cases resolved
  · rename_i construct
    split at resolved
    · cases resolved
    · rename_i array
      simp [construct, array]

/-- Where a size and its alignment come from: the tables, or a construct or an array. -/
inductive SizeSource (s : Store L) (platform : Platform) (fieldType : FieldType) :
    SizeT → SizeT → Prop where
  | data {size align : SizeT}
      (found : dataTypeSizeAlign (platform.mapTag fieldType.type) = .ok (size, align)) :
      SizeSource s platform fieldType size align
  | construct {h : Handle} {c : Construct L} (present : s.constructs h = some c) :
      SizeSource s platform fieldType c.totalSize c.alignment
  | array {h : Handle} {a : ArrayType L} (present : s.arrays h = some a) :
      SizeSource s platform fieldType a.totalSize a.alignment

theorem sizeSource_of_sized {s : Store L} {platform : Platform} {fieldType : FieldType}
    {size align : SizeT}
    (sized : getFieldTypeSizeAlign s platform fieldType = .ok (size, align)) :
    SizeSource s platform fieldType size align := by
  cases resolved : fieldType.resolved platform with
  | none =>
    rw [getFieldTypeSizeAlign_of_data s resolved] at sized
    exact .data sized
  | some n =>
    rw [getFieldTypeSizeAlign_of_resolved resolved] at sized
    cases n with
    | construct h =>
      obtain ⟨c, present, same⟩ := Option.map_eq_some_iff.mp sized
      cases same
      exact .construct present
    | array h =>
      obtain ⟨a, present, same⟩ := Option.map_eq_some_iff.mp sized
      cases same
      exact .array present

/-- A size is determined by the platform and the object it is taken from. -/
theorem getFieldTypeSizeAlign_congr {s t : Store L} {platform : Platform} {fieldType : FieldType}
    {sizeAlign : SizeT × SizeT}
    (sized : getFieldTypeSizeAlign s platform fieldType = .ok sizeAlign)
    (same : ∀ n, fieldType.resolved platform = some n → t.sizeAlign n = s.sizeAlign n) :
    getFieldTypeSizeAlign t platform fieldType = .ok sizeAlign := by
  cases resolved : fieldType.resolved platform with
  | none =>
    rw [getFieldTypeSizeAlign_of_data _ resolved] at sized ⊢
    exact sized
  | some n =>
    rw [getFieldTypeSizeAlign_of_resolved resolved] at sized ⊢
    rw [same n resolved]
    exact sized

end Sizes

section Freezing

variable (s : Store L) (fieldType : FieldType)

theorem freezeFieldType_constructs (h : Handle) :
    (freezeFieldType s fieldType).constructs h = (s.constructs h).map fun c =>
      if fieldType.node = some (.construct h) then { c with frozen := true } else c := by
  unfold freezeFieldType FieldType.node designated
  split
  · by_cases here : fieldType.ref = h
    · subst here
      cases present : s.constructs fieldType.ref <;> simp [present, Store.setConstruct]
    · have elsewhere : h ≠ fieldType.ref := Ne.symm here
      cases s.constructs fieldType.ref <;> simp [Store.setConstruct, here, elsewhere]
  · split
    · cases s.arrays fieldType.ref <;> simp [Store.setArray]
    · simp

theorem freezeFieldType_arrays (h : Handle) :
    (freezeFieldType s fieldType).arrays h = (s.arrays h).map fun a =>
      if fieldType.node = some (.array h) then { a with frozen := true } else a := by
  unfold freezeFieldType FieldType.node designated
  split
  · cases s.constructs fieldType.ref <;> simp [Store.setConstruct]
  · split
    · by_cases here : fieldType.ref = h
      · subst here
        cases present : s.arrays fieldType.ref <;> simp [present, Store.setArray]
      · have elsewhere : h ≠ fieldType.ref := Ne.symm here
        cases s.arrays fieldType.ref <;> simp [Store.setArray, here, elsewhere]
    · simp

@[simp] theorem freezeFieldType_vars : (freezeFieldType s fieldType).vars = s.vars := by
  unfold freezeFieldType
  split
  · split <;> rfl
  · split
    · split <;> rfl
    · rfl

@[simp] theorem freezeFieldType_sizeAlign (n : Node) :
    (freezeFieldType s fieldType).sizeAlign n = s.sizeAlign n := by
  cases n with
  | construct h =>
    simp only [Store.sizeAlign, freezeFieldType_constructs, Option.map_map]
    congr 1
    funext c
    simp only [Function.comp_apply]
    split <;> rfl
  | array h =>
    simp only [Store.sizeAlign, freezeFieldType_arrays, Option.map_map]
    congr 1
    funext a
    simp only [Function.comp_apply]
    split <;> rfl

/-- Freezing sets the flag of the object designated, if it is there, and no other. -/
theorem freezeFieldType_frozen (n : Node) :
    (freezeFieldType s fieldType).frozen n = true ↔
      s.frozen n = true ∨ fieldType.node = some n ∧ (s.sizeAlign n).isSome = true := by
  cases n with
  | construct h =>
    simp only [Store.frozen, Store.sizeAlign, freezeFieldType_constructs]
    cases s.constructs h with
    | none => simp
    | some c => by_cases here : fieldType.node = some (.construct h) <;> simp [here]
  | array h =>
    simp only [Store.frozen, Store.sizeAlign, freezeFieldType_arrays]
    cases s.arrays h with
    | none => simp
    | some a => by_cases here : fieldType.node = some (.array h) <;> simp [here]

end Freezing

section Refusals

/-- A check that refuses does so with an error. -/
def Refuses (x : Except Stop α) : Prop := x ≠ .error (.code .success)

theorem refuses_ok (a : α) : Refuses (.ok a) := nofun

theorem Refuses.bind {x : Except Stop α} {f : α → Except Stop β} (first : Refuses x)
    (second : ∀ a, Refuses (f a)) : Refuses (x >>= f) := by
  cases x with
  | error stop =>
    intro same
    cases same
    exact first rfl
  | ok a => exact second a

theorem Refuses.map {x : Except Stop α} (first : Refuses x) (f : α → β) : Refuses (x.map f) := by
  cases x with
  | error stop =>
    intro same
    cases same
    exact first rfl
  | ok a => exact refuses_ok _

theorem checkPtr_refuses (p : Option α) : Refuses (checkPtr p) := by
  cases p <;> exact nofun

theorem refute_einval (cond : Bool) : Refuses (refute cond .einval) := by
  cases cond <;> exact nofun

theorem refute_efrozen (cond : Bool) : Refuses (refute cond .efrozen) := by
  cases cond <;> exact nofun

theorem deref_refuses (table : Handle → Option α) (h : Handle) : Refuses (deref table h) := by
  unfold deref
  split <;> exact nofun

theorem getFieldTypeSizeAlign_refuses (s : Store L) (platform : Platform) (fieldType : FieldType) :
    Refuses (getFieldTypeSizeAlign s platform fieldType) := by
  unfold getFieldTypeSizeAlign
  dsimp only
  split
  · exact (deref_refuses _ _).bind fun _ => refuses_ok _
  · split
    · exact (deref_refuses _ _).bind fun _ => refuses_ok _
    · unfold dataTypeSizeAlign
      split
      · exact nofun
      · split <;> exact nofun

theorem readOptions_refuses (type : ConstructType) (lastOffset : SizeT) (options : List FieldOption) :
    ∀ userOffset, Refuses (readOptions type lastOffset userOffset options) := by
  induction options with
  | nil => exact fun userOffset => refuses_ok _
  | cons option rest ih =>
    intro userOffset
    cases option with
    | offset value =>
      exact (refute_einval _).bind fun _ => (refute_einval _).bind fun _ => ih _
    | other option => exact nofun

/-- No call that its checks refuse reports success. -/
theorem checks_refuses (s : Store L) (op : Op) : Refuses (checks s op) := by
  cases op with
  | contextCreate name platform ret =>
    refine Refuses.map ?_ _
    exact (checkPtr_refuses _).bind fun _ => (checkPtr_refuses _).bind fun _ =>
      (refute_einval _).bind fun _ => refuses_ok _
  | contextCreateConstruct type context name packed ret =>
    refine Refuses.map ?_ _
    exact (checkPtr_refuses _).bind fun _ => (checkPtr_refuses _).bind fun _ =>
      (refute_einval _).bind fun _ => (deref_refuses _ _).bind fun _ =>
      (refute_einval _).bind fun _ => refuses_ok _
  | constructAddField construct name fieldType options =>
    refine Refuses.map ?_ _
    exact (checkPtr_refuses _).bind fun _ => (checkPtr_refuses _).bind fun _ =>
      (checkPtr_refuses _).bind fun _ => (deref_refuses _ _).bind fun _ =>
      (refute_efrozen _).bind fun _ => (refute_einval _).bind fun _ =>
      (refute_einval _).bind fun _ => (readOptions_refuses _ _ _ _).bind fun _ =>
      (deref_refuses _ _).bind fun _ => (getFieldTypeSizeAlign_refuses _ _ _).bind fun _ =>
      (refute_einval _).bind fun _ => refuses_ok _
  | contextCreatePointer context fieldType ret =>
    refine Refuses.map ?_ _
    exact (checkPtr_refuses _).bind fun _ => (checkPtr_refuses _).bind fun _ =>
      (refute_einval _).bind fun _ => refuses_ok _
  | contextCreateArray context fieldType ret =>
    refine Refuses.map ?_ _
    exact (checkPtr_refuses _).bind fun _ => (checkPtr_refuses _).bind fun _ =>
      (refute_einval _).bind fun _ => (deref_refuses _ _).bind fun _ =>
      (getFieldTypeSizeAlign_refuses _ _ _).bind fun _ => refuses_ok _
  | arrayAddDimension array dimension =>
    refine Refuses.map ?_ _
    exact (checkPtr_refuses _).bind fun _ => (deref_refuses _ _).bind fun _ =>
      (refute_efrozen _).bind fun _ => (checkPtr_refuses _).bind fun _ => refuses_ok _
  | contextCreateVariable context name fieldType ret =>
    refine Refuses.map ?_ _
    exact (checkPtr_refuses _).bind fun _ => (checkPtr_refuses _).bind fun _ =>
      (checkPtr_refuses _).bind fun _ => (refute_einval _).bind fun _ =>
      (refute_einval _).bind fun _ => (deref_refuses _ _).bind fun _ =>
      (refute_einval _).bind fun _ =>
      (getFieldTypeSizeAlign_refuses _ _ _).bind fun _ => refuses_ok _

end Refusals

section Checks

theorem bind_eq_ok {x : Except Stop α} {f : α → Except Stop β} {b : β} :
    x >>= f = .ok b ↔ ∃ a, x = .ok a ∧ f a = .ok b := by
  cases x with
  | error stop => simp [bind, Except.bind]
  | ok a => simp [bind, Except.bind]

theorem map_eq_ok {x : Except Stop α} {f : α → β} {b : β} :
    x.map f = .ok b ↔ ∃ a, x = .ok a ∧ f a = b := by
  cases x <;> simp [Except.map]

theorem checkPtr_eq_ok {p : Option α} {a : α} : checkPtr p = .ok a ↔ p = some a := by
  cases p <;> simp [checkPtr]

theorem refute_eq_ok {cond : Bool} {error : MamError} {u : Unit} :
    refute cond error = .ok u ↔ cond = false := by
  cases cond <;> simp [refute]

theorem deref_eq_ok {table : Handle → Option α} {h : Handle} {a : α} :
    deref table h = .ok a ↔ table h = some a := by
  unfold deref
  cases table h <;> simp

/-- What the checks of a call have established when they let it through. -/
inductive Ready (s : Store List) : Op → Plan → Prop where
  | context {name : CString} {platform : Platform} :
      Ready s (.contextCreate (some name) (some platform) true) (.context name platform)
  | construct {type : ConstructType} {owner : Handle} {name : CString} {packed : Bool}
      {record : Context List} (present : s.contexts owner = some record)
      (unused : name ≠ [] → record.constructsNameHash.find name = none) :
      Ready s (.contextCreateConstruct type (some owner) (some name) packed true)
        (.construct type owner name packed)
  | field {plan : FieldPlan} {options : List FieldOption} {record : Construct List}
      {context : Context List} (present : s.constructs plan.construct = some record)
      (unfrozen : record.frozen = false) (named : plan.name ≠ [])
      (unused : record.fieldsNameHash.find plan.name = none)
      (offsets : readOptions record.type record.lastOffset none options = .ok plan.userOffset)
      (owner : s.contexts record.context = some context)
      (sized : getFieldTypeSizeAlign s context.platform plan.fieldType = .ok (plan.size, plan.align))
      (nonneg : 0 ≤ plan.size.toInt) :
      Ready s (.constructAddField (some plan.construct) (some plan.name) (some plan.fieldType) options)
        (.field plan)
  | pointer {context : Handle} {fieldType : FieldType} :
      Ready s (.contextCreatePointer (some context) (some fieldType) true)
        (.pointer context fieldType)
  | array {plan : ArrayPlan} {record : Context List}
      (present : s.contexts plan.context = some record)
      (sized : getFieldTypeSizeAlign s record.platform plan.fieldType = .ok (plan.size, plan.align)) :
      Ready s (.contextCreateArray (some plan.context) (some plan.fieldType) true) (.array plan)
  | dimension {array : Handle} {dimension : Dimension} {record : ArrayType List}
      (present : s.arrays array = some record) (unfrozen : record.frozen = false) :
      Ready s (.arrayAddDimension (some array) (some dimension)) (.dimension array dimension)
  | var {plan : VariablePlan} {record : Context List}
      (present : s.contexts plan.context = some record) (named : plan.name ≠ [])
      (unused : record.variablesNameHash.find plan.name = none)
      (sized : getFieldTypeSizeAlign s record.platform plan.fieldType = .ok (plan.size, plan.align)) :
      Ready s (.contextCreateVariable (some plan.context) (some plan.name) (some plan.fieldType) true)
        (.var plan)

theorem checks_ready {s : Store List} {op : Op} {plan : Plan} (checked : checks s op = .ok plan) :
    Ready s op plan := by
  cases op with
  | contextCreate name platform ret =>
    simp only [checks, contextCreateChecks, map_eq_ok, bind_eq_ok, checkPtr_eq_ok, refute_eq_ok,
      pure, Except.pure, Except.ok.injEq, Bool.not_eq_false'] at checked
    obtain ⟨_, ⟨name, rfl, platform, rfl, _, rfl, rfl⟩, rfl⟩ := checked
    exact .context
  | contextCreateConstruct type context name packed ret =>
    simp only [checks, contextCreateConstructChecks, map_eq_ok, bind_eq_ok, checkPtr_eq_ok,
      refute_eq_ok, deref_eq_ok, pure, Except.pure, Except.ok.injEq, Bool.not_eq_false'] at checked
    obtain ⟨_, ⟨owner, rfl, name, rfl, _, rfl, record, present, _, unused, rfl⟩, rfl⟩ := checked
    exact .construct present fun named => by simpa [named] using unused
  | constructAddField construct name fieldType options =>
    simp only [checks, constructAddFieldChecks, map_eq_ok, bind_eq_ok, checkPtr_eq_ok,
      refute_eq_ok, deref_eq_ok, pure, Except.pure, Except.ok.injEq] at checked
    obtain ⟨_, ⟨construct, rfl, name, rfl, fieldType, rfl, record, present, _, unfrozen, _, named,
      _, unused, userOffset, offsets, context, owner, ⟨size, align⟩, sized, _, nonneg, rfl⟩, rfl⟩ :=
      checked
    exact @Ready.field s ⟨construct, name, fieldType, userOffset, size, align⟩ options record context
      present unfrozen (by simpa using named) (by simpa using unused) offsets owner sized
      (by simpa using nonneg)
  | contextCreatePointer context fieldType ret =>
    simp only [checks, contextCreatePointerChecks, map_eq_ok, bind_eq_ok, checkPtr_eq_ok,
      refute_eq_ok, pure, Except.pure, Except.ok.injEq, Bool.not_eq_false'] at checked
    obtain ⟨_, ⟨context, rfl, fieldType, rfl, _, rfl, rfl⟩, rfl⟩ := checked
    exact .pointer
  | contextCreateArray context fieldType ret =>
    simp only [checks, contextCreateArrayChecks, map_eq_ok, bind_eq_ok, checkPtr_eq_ok,
      refute_eq_ok, deref_eq_ok, pure, Except.pure, Except.ok.injEq, Bool.not_eq_false'] at checked
    obtain ⟨_, ⟨context, rfl, fieldType, rfl, _, rfl, record, present, ⟨size, align⟩, sized, rfl⟩,
      rfl⟩ := checked
    exact @Ready.array s ⟨context, fieldType, size, align⟩ record present sized
  | arrayAddDimension array dimension =>
    simp only [checks, arrayAddDimensionChecks, map_eq_ok, bind_eq_ok, checkPtr_eq_ok,
      refute_eq_ok, deref_eq_ok, pure, Except.pure, Except.ok.injEq] at checked
    obtain ⟨_, ⟨array, rfl, record, present, _, unfrozen, dimension, rfl, rfl⟩, rfl⟩ := checked
    exact .dimension present unfrozen
  | contextCreateVariable context name fieldType ret =>
    simp only [checks, contextCreateVariableChecks, map_eq_ok, bind_eq_ok, checkPtr_eq_ok,
      refute_eq_ok, deref_eq_ok, pure, Except.pure, Except.ok.injEq, Bool.not_eq_false'] at checked
    obtain ⟨_, ⟨context, rfl, name, rfl, fieldType, rfl, _, rfl, _, named, record, present, _, unused,
      ⟨size, align⟩, sized, rfl⟩, rfl⟩ := checked
    exact @Ready.var s ⟨context, name, fieldType, size, align⟩ record present
      (by simpa using named) (by simpa using unused) sized

/-- Nothing else is needed to let a call through. -/
theorem Ready.checked {s : Store List} {op : Op} {plan : Plan} (ready : Ready s op plan) :
    checks s op = .ok plan := by
  cases ready with
  | context => rfl
  | @construct type owner name packed record present unused =>
    have free : (decide (name ≠ []) && (record.constructsNameHash.find name).isSome) = false := by
      by_cases named : name = []
      · simp [named]
      · simp [unused named]
    simp only [checks, contextCreateConstructChecks, map_eq_ok, bind_eq_ok, checkPtr_eq_ok, refute_eq_ok,
      deref_eq_ok, pure, Except.pure]
    exact ⟨_, ⟨_, rfl, _, rfl, (), rfl, _, present, (), free, rfl⟩, rfl⟩
  | @field plan options record context present unfrozen named unused offsets owner sized nonneg =>
    simp only [checks, constructAddFieldChecks, map_eq_ok, bind_eq_ok, checkPtr_eq_ok, refute_eq_ok,
      deref_eq_ok, pure, Except.pure]
    exact ⟨_, ⟨_, rfl, _, rfl, _, rfl, _, present, (), unfrozen, (), by simpa using named, (),
      by simp [unused], _, offsets, _, owner, _, sized, (), by simpa using nonneg, rfl⟩, rfl⟩
  | pointer => rfl
  | array present sized =>
    simp only [checks, contextCreateArrayChecks, map_eq_ok, bind_eq_ok, checkPtr_eq_ok, refute_eq_ok,
      deref_eq_ok, pure, Except.pure]
    exact ⟨_, ⟨_, rfl, _, rfl, (), rfl, _, present, _, sized, rfl⟩, rfl⟩
  | dimension present unfrozen =>
    simp only [checks, arrayAddDimensionChecks, map_eq_ok, bind_eq_ok, checkPtr_eq_ok, refute_eq_ok,
      deref_eq_ok, pure, Except.pure]
    exact ⟨_, ⟨_, rfl, _, present, (), unfrozen, _, rfl, rfl⟩, rfl⟩
  | var present named unused sized =>
    simp only [checks, contextCreateVariableChecks, map_eq_ok, bind_eq_ok, checkPtr_eq_ok, refute_eq_ok,
      deref_eq_ok, pure, Except.pure]
    exact ⟨_, ⟨_, rfl, _, rfl, _, rfl, (), rfl, (), by simpa using named, _, present, (),
      by simp [unused], _, sized, rfl⟩, rfl⟩

/-- The checks let one plan through. -/
theorem Ready.unique {s : Store List} {op : Op} {plan other : Plan} (ready : Ready s op plan)
    (again : Ready s op other) : plan = other :=
  Except.ok.inj (ready.checked.symm.trans again.checked)

end Checks

end Mam.CopyEngine
