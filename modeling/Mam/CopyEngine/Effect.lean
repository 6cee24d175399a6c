import Mam.CopyEngine.Model

/-! What a call does to what is seen of the store: one committing function over plain
lists. -/

namespace Mam.CopyEngine

open Mam.Library Mam.Vendor

variable {L : Type → Type} {α β : Type}

/-- What a call that passed its checks is about to do. -/
inductive Plan where
  | context (name : CString) (platform : Platform)
  | construct (type : ConstructType) (context : Handle) (name : CString) (packed : Bool)
  | field (plan : FieldPlan)
  | pointer (context : Handle) (fieldType : FieldType)
  | array (plan : ArrayPlan)
  | dimension (array : Handle) (dimension : Dimension)
  | var (plan : VariablePlan)

/-- The checks of any call. -/
def checks (s : Store L) : Op → Except Stop Plan
  | .contextCreate name platform ret =>
    (contextCreateChecks name platform ret).map fun (name, platform) => .context name platform
  | .contextCreateConstruct type context name packed ret =>
    (contextCreateConstructChecks s context name ret).map fun (context, name) =>
      .construct type context name packed
  | .constructAddField construct name fieldType options =>
    (constructAddFieldChecks s construct name fieldType options).map .field
  | .contextCreatePointer context fieldType ret =>
    (contextCreatePointerChecks context fieldType ret).map fun (context, fieldType) =>
      .pointer context fieldType
  | .contextCreateArray context fieldType ret =>
    (contextCreateArrayChecks s context fieldType ret).map .array
  | .arrayAddDimension array dimension =>
    (arrayAddDimensionChecks s array dimension).map fun (array, dimension) =>
      .dimension array dimension
  | .contextCreateVariable context name fieldType ret =>
    (contextCreateVariableChecks s context name fieldType ret).map .var

/-- One more entry of a hash table. -/
def extendHash (table : UTHash Handle) (key : CString) (elem : Handle) : UTHash Handle :=
  { entries := table.entries ++ [(key, elem)] }

/-- A construct with no fields. -/
def Construct.fresh (owner : Handle) (type : ConstructType) (name : CString) (packed : Bool) :
    Construct List :=
  { context := owner, name := name, type := type, packed := packed, lastOffset := 0,
    totalSize := 0, alignment := 1, fields := [], fieldsNameHash := UTHash.empty, frozen := false }

/-- The field that a plan adds to a construct. -/
def FieldPlan.entry (plan : FieldPlan) (record : Construct List) (h : Handle) : Field :=
  { self := h, name := plan.name,
    offset := (record.place plan.userOffset plan.size plan.align).offset,
    size := plan.size, fieldType := plan.fieldType }

/-- A construct with one more field. -/
def Construct.withField (record : Construct List) (h : Handle) (plan : FieldPlan) : Construct List :=
  let layout := record.place plan.userOffset plan.size plan.align
  { record with
    fields := record.fields ++ [plan.entry record h]
    fieldsNameHash := extendHash record.fieldsNameHash plan.name h
    lastOffset := layout.lastOffset
    totalSize := layout.totalSize
    alignment := layout.alignment }

/-- An array with no dimensions. -/
def ArrayPlan.array (plan : ArrayPlan) : ArrayType List :=
  { context := plan.context, elemSize := plan.size, totalSize := 0, alignment := plan.align,
    fieldType := plan.fieldType, dimensions := [], frozen := false }

/-- An array with one more dimension. -/
def ArrayType.withDimension (record : ArrayType List) (h : Handle) (dimension : Dimension) :
    ArrayType List :=
  { record with
    dimensions := record.dimensions ++ [⟨h, dimension⟩]
    totalSize := record.extend dimension }

/-- The variable that a plan creates. -/
def VariablePlan.var (plan : VariablePlan) : Variable :=
  { context := plan.context, name := plan.name, alignment := plan.align, size := plan.size,
    fieldType := plan.fieldType }

/-- What a plan makes of the store, with `h` as the address of the new object. -/
def commit (s : Store List) (h : Handle) : Plan → Store List
  | .context name platform =>
    s.setContext h
      { name := name, platform := platform, pointers := [], arrays := [], constructs := [],
        vars := [], variablesNameHash := UTHash.empty, constructsNameHash := UTHash.empty }
  | .construct type owner name packed =>
    match s.contexts owner with
    | none => s
    | some context =>
      (s.setContext owner
        { context with
          constructs := context.constructs ++ [h]
          constructsNameHash := extendHash context.constructsNameHash name h }).setConstruct h
        (.fresh owner type name packed)
  | .field plan =>
    match s.constructs plan.construct with
    | none => s
    | some record =>
      freezeFieldType (s.setConstruct plan.construct (record.withField h plan)) plan.fieldType
  | .pointer owner fieldType =>
    match s.contexts owner with
    | none => s
    | some context =>
      (s.setContext owner { context with pointers := context.pointers ++ [h] }).setPointer h
        { context := owner, fieldType := fieldType }
  | .array plan =>
    match s.contexts plan.context with
    | none => s
    | some context =>
      freezeFieldType
        ((s.setContext plan.context { context with arrays := context.arrays ++ [h] }).setArray h
          plan.array)
        plan.fieldType
  | .dimension array dimension =>
    match s.arrays array with
    | none => s
    | some record => s.setArray array (record.withDimension h dimension)
  | .var plan =>
    match s.contexts plan.context with
    | none => s
    | some context =>
      ((freezeFieldType s plan.fieldType).setContext plan.context
        { context with
          vars := context.vars ++ [h]
          variablesNameHash := extendHash context.variablesNameHash plan.name h }).setVariable h
        plan.var

section View

@[simp] theorem view_contexts (s : Store UTArray) (h : Handle) :
    s.view.contexts h = (s.contexts h).map Context.view := rfl

@[simp] theorem view_constructs (s : Store UTArray) (h : Handle) :
    s.view.constructs h = (s.constructs h).map Construct.view := rfl

@[simp] theorem view_arrays (s : Store UTArray) (h : Handle) :
    s.view.arrays h = (s.arrays h).map ArrayType.view := rfl

theorem getFieldTypeSizeAlign_view (s : Store UTArray) (platform : Platform) (fieldType : FieldType) :
    getFieldTypeSizeAlign s.view platform fieldType =
      getFieldTypeSizeAlign s platform fieldType := by
  unfold getFieldTypeSizeAlign deref
  simp only [view_constructs, view_arrays]
  cases s.constructs fieldType.ref <;> cases s.arrays fieldType.ref <;> rfl

/-- The checks do not look at capacities. -/
theorem checks_view (s : Store UTArray) (op : Op) : checks s.view op = checks s op := by
  cases op with
  | contextCreate name platform ret => rfl
  | contextCreateConstruct type context name packed ret =>
    unfold checks contextCreateConstructChecks deref
    cases context with
    | none => rfl
    | some context =>
      simp only [view_contexts, checkPtr, bind, Except.bind]
      cases s.contexts context <;> rfl
  | constructAddField construct name fieldType options =>
    unfold checks constructAddFieldChecks deref
    cases construct with
    | none => rfl
    | some construct =>
      simp only [view_constructs, view_contexts, checkPtr, bind, Except.bind, getFieldTypeSizeAlign_view]
      cases s.constructs construct with
      | none => rfl
      | some record =>
        have context : record.view.context = record.context := rfl
        simp only [Option.map_some, context]
        cases s.contexts record.context <;> rfl
  | contextCreatePointer context fieldType ret => rfl
  | contextCreateArray context fieldType ret =>
    unfold checks contextCreateArrayChecks deref
    cases context with
    | none => rfl
    | some context =>
      simp only [view_contexts, checkPtr, bind, Except.bind, getFieldTypeSizeAlign_view]
      cases s.contexts context <;> rfl
  | arrayAddDimension array dimension =>
    unfold checks arrayAddDimensionChecks deref
    cases array with
    | none => rfl
    | some array =>
      simp only [view_arrays, checkPtr, bind, Except.bind]
      cases s.arrays array <;> rfl
  | contextCreateVariable context name fieldType ret =>
    unfold checks contextCreateVariableChecks deref
    cases context with
    | none => rfl
    | some context =>
      simp only [view_contexts, checkPtr, bind, Except.bind, getFieldTypeSizeAlign_view]
      cases s.contexts context <;> rfl

private theorem map_update (table : Handle → Option α) (f : α → β) (h : Handle) (a : α) :
    (fun k => (Function.update table h (some a) k).map f) =
      Function.update (fun k => (table k).map f) h (some (f a)) :=
  Function.comp_update (Option.map f) table h (some a)

theorem view_setContext (s : Store UTArray) (h : Handle) (context : Context UTArray) :
    (s.setContext h context).view = s.view.setContext h context.view := by
  simp only [Store.view, Store.setContext, map_update]

theorem view_setConstruct (s : Store UTArray) (h : Handle) (construct : Construct UTArray) :
    (s.setConstruct h construct).view = s.view.setConstruct h construct.view := by
  simp only [Store.view, Store.setConstruct, map_update]

theorem view_setArray (s : Store UTArray) (h : Handle) (array : ArrayType UTArray) :
    (s.setArray h array).view = s.view.setArray h array.view := by
  simp only [Store.view, Store.setArray, map_update]

theorem view_setPointer (s : Store UTArray) (h : Handle) (pointer : Pointer) :
    (s.setPointer h pointer).view = s.view.setPointer h pointer := rfl

theorem view_setVariable (s : Store UTArray) (h : Handle) (var : Variable) :
    (s.setVariable h var).view = s.view.setVariable h var := rfl

theorem seen_context {s : Store UTArray} {h : Handle} {context : Context UTArray}
    (present : s.contexts h = some context) : s.view.contexts h = some context.view := by
  rw [view_contexts, present]
  rfl

theorem seen_construct {s : Store UTArray} {h : Handle} {construct : Construct UTArray}
    (present : s.constructs h = some construct) : s.view.constructs h = some construct.view := by
  rw [view_constructs, present]
  rfl

theorem seen_array {s : Store UTArray} {h : Handle} {array : ArrayType UTArray}
    (present : s.arrays h = some array) : s.view.arrays h = some array.view := by
  rw [view_arrays, present]
  rfl

/-- Changing only a capacity is not seen. -/
theorem view_setContext_same {s : Store UTArray} {h : Handle} {context changed : Context UTArray}
    (present : s.contexts h = some context) (same : changed.view = context.view) :
    (s.setContext h changed).view = s.view := by
  rw [view_setContext, same, Store.setContext, ← seen_context present, Function.update_eq_self]

theorem view_setConstruct_same {s : Store UTArray} {h : Handle}
    {construct changed : Construct UTArray} (present : s.constructs h = some construct)
    (same : changed.view = construct.view) : (s.setConstruct h changed).view = s.view := by
  rw [view_setConstruct, same, Store.setConstruct, ← seen_construct present, Function.update_eq_self]

theorem view_setArray_same {s : Store UTArray} {h : Handle} {array changed : ArrayType UTArray}
    (present : s.arrays h = some array) (same : changed.view = array.view) :
    (s.setArray h changed).view = s.view := by
  rw [view_setArray, same, Store.setArray, ← seen_array present, Function.update_eq_self]

theorem view_freezeFieldType (s : Store UTArray) (fieldType : FieldType) :
    (freezeFieldType s fieldType).view = freezeFieldType s.view fieldType := by
  unfold freezeFieldType
  split
  · rw [view_constructs]
    cases s.constructs fieldType.ref with
    | none => rfl
    | some construct => exact view_setConstruct s fieldType.ref _
  · split
    · rw [view_arrays]
      cases s.arrays fieldType.ref with
      | none => rfl
      | some array => exact view_setArray s fieldType.ref _
    · rfl

theorem freezeFieldType_contexts (s : Store L) (fieldType : FieldType) :
    (freezeFieldType s fieldType).contexts = s.contexts := by
  unfold freezeFieldType
  split
  · split <;> rfl
  · split
    · split <;> rfl
    · rfl

end View

end Mam.CopyEngine
