import Mam.CopyEngine.Types
import Mam.Library.Execution

/-! The create and add operations of `copy-engine.c`. Each checks its arguments on the
store it finds, and then allocates, appends and inserts. -/

namespace Mam.CopyEngine

open Mam.Library Mam.Vendor

variable {L : Type → Type} {α : Type}

/-- How a call leaves before it changes anything. -/
inductive Stop where
  | fault (fault : Fault)
  | code (error : MamError)
deriving DecidableEq, Repr

/-- `MAM_CHECK_PTR`. -/
def checkPtr : Option α → Except Stop α
  | none => .error (.code .einval)
  | some a => .ok a

/-- `MAM_REFUTE`. -/
def refute (cond : Bool) (error : MamError) : Except Stop Unit :=
  if cond then .error (.code error) else .ok ()

/-- Following a pointer to an object of a kind. -/
def deref (table : Handle → Option α) (h : Handle) : Except Stop α :=
  match table h with
  | none => .error (.fault .danglingPointer)
  | some a => .ok a

/-- The tag after the mapping step of `_mam_get_field_type_size_align`. -/
def Platform.mapTag (platform : Platform) (type : Int) : Int :=
  if mapped : mappedTypeChar ≤ type ∧ type < mappedTypeChar + mappedTypes then
    platform.typeMap ⟨(type - mappedTypeChar).toNat, by omega⟩
  else type

/-- A look into `mam_data_type_size` and `mam_data_type_align`. -/
def dataTypeSizeAlign (type : Int) : Except Stop (SizeT × SizeT) :=
  if type < 0 then .error (.fault .tagOutOfTable)
  else
    match dataTypeSize[type.toNat]?, dataTypeAlign[type.toNat]? with
    | some size, some align => .ok (size, align)
    | _, _ => .error (.fault .tagOutOfTable)

/-- `_mam_get_field_type_size_align`. -/
def getFieldTypeSizeAlign (s : Store L) (platform : Platform) (fieldType : FieldType) :
    Except Stop (SizeT × SizeT) :=
  let type := platform.mapTag fieldType.type
  if type = complexTypeStruct ∨ type = complexTypeUnion then do
    let construct ← deref s.constructs fieldType.ref
    return (construct.totalSize, construct.alignment)
  else if type = complexTypeArray then do
    let array ← deref s.arrays fieldType.ref
    return (array.totalSize, array.alignment)
  else dataTypeSizeAlign type

/-- `_mam_freeze_field_type`. -/
def freezeFieldType (s : Store L) (fieldType : FieldType) : Store L :=
  if fieldType.type = complexTypeStruct ∨ fieldType.type = complexTypeUnion then
    match s.constructs fieldType.ref with
    | none => s
    | some construct => s.setConstruct fieldType.ref { construct with frozen := true }
  else if fieldType.type = complexTypeArray then
    match s.arrays fieldType.ref with
    | none => s
    | some array => s.setArray fieldType.ref { array with frozen := true }
  else s

/-- Which allocations of a call succeed: the `calloc` of the object, the `malloc`s of
`utarray_new`, the `realloc` of `utarray_push_back`, and those of the hash insertion. -/
structure Memory where
  calloc : Bool
  malloc : Bool
  realloc : Bool
  insert : Bool
deriving DecidableEq, Repr

/-- How a call returns: its code, the state it leaves, and what it stored through the
last pointer argument. -/
structure Return where
  code : MamError
  machine : Machine
  value : Option Handle

/-- Commit what passed its checks. -/
def guarded (m : Machine) (checks : Except Stop α) (commit : α → Except Fault Return) :
    Except Fault Return :=
  match checks with
  | .error (.fault fault) => .error fault
  | .error (.code error) => .ok { code := error, machine := m, value := none }
  | .ok plan => commit plan

/-- `utarray_push_back`, with the statement that `utarray_oom()` stands for. -/
def pushBackOr (list : UTArray α) (elem : α) (mem : Memory) (oom : UTArray α → Return)
    (stored : UTArray α → Except Fault Return) : Except Fault Return :=
  match list.pushBack elem mem.realloc with
  | none => .error .endlessLoop
  | some (.oom list) => .ok (oom list)
  | some (.stored list) => stored list

/-- Out of memory, in a state that has been put back. -/
def Machine.enomem (heap : Heap) (store : Store UTArray) : Return :=
  { code := .enomem, machine := { heap := heap, store := store }, value := none }

/-- The checks of `mam_context_create`. -/
def contextCreateChecks (name : Option CString) (platform : Option Platform) (ret : Bool) :
    Except Stop (CString × Platform) := do
  let name ← checkPtr name
  let platform ← checkPtr platform
  refute (!ret) .einval
  return (name, platform)

/-- `mam_context_create`. -/
def contextCreate (m : Machine) (mem : Memory) (name : Option CString)
    (platform : Option Platform) (ret : Bool) : Except Fault Return :=
  guarded m (contextCreateChecks name platform ret) fun (name, platform) =>
    if !mem.calloc then .ok (Machine.enomem m.heap m.store)
    else
      let (context, heap) := m.heap.calloc
      if !mem.malloc then .ok (Machine.enomem (heap.free context) m.store)
      else
        .ok { code := .success
              machine :=
                { heap := heap
                  store := m.store.setContext context
                    { name := name, platform := platform, pointers := UTArray.init,
                      arrays := UTArray.init, constructs := UTArray.init, vars := UTArray.init,
                      variablesNameHash := UTHash.empty, constructsNameHash := UTHash.empty } }
              value := some context }

/-- The checks of `_mam_context_create_construct`. -/
def contextCreateConstructChecks (s : Store L) (context : Option Handle) (name : Option CString)
    (ret : Bool) : Except Stop (Handle × CString) := do
  let context ← checkPtr context
  let name ← checkPtr name
  refute (!ret) .einval
  let record ← deref s.contexts context
  refute (name ≠ [] && (record.constructsNameHash.find name).isSome) .einval
  return (context, name)

/-- `_mam_context_create_construct`, for `mam_context_create_struct` and
`mam_context_create_union`. -/
def contextCreateConstruct (m : Machine) (mem : Memory) (type : ConstructType)
    (context : Option Handle) (name : Option CString) (packed ret : Bool) : Except Fault Return :=
  guarded m (contextCreateConstructChecks m.store context name ret) fun (owner, name) =>
    if !mem.calloc then .ok (Machine.enomem m.heap m.store)
    else
      let (construct, heap) := m.heap.calloc
      if !mem.malloc then .ok (Machine.enomem (heap.free construct) m.store)
      else
        match m.store.contexts owner with
        | none => .error .danglingPointer
        | some context =>
          pushBackOr context.constructs construct mem
            (fun constructs => Machine.enomem (heap.free construct)
              (m.store.setContext owner { context with constructs := constructs }))
            fun constructs =>
              match context.constructsNameHash.addKeyptr name construct mem.insert with
              | none => .ok (Machine.enomem (heap.free construct)
                  (m.store.setContext owner { context with constructs := constructs.popBack }))
              | some hash =>
                .ok { code := .success
                      machine :=
                        { heap := heap
                          store := (m.store.setContext owner
                            { context with constructs := constructs, constructsNameHash := hash }
                            ).setConstruct construct
                              { context := owner, name := name, type := type, packed := packed,
                                lastOffset := 0, totalSize := 0, alignment := 1,
                                fields := UTArray.init, fieldsNameHash := UTHash.empty,
                                frozen := false } }
                      value := some construct }

/-- A variadic option of `mam_construct_add_field`; the list ends at
`MAM_FIELD_OPTION_END`. -/
inductive FieldOption where
  | offset (value : SizeT)
  | other (option : Int)
deriving DecidableEq, Repr

/-- The option loop of `mam_construct_add_field`: the last OFFSET counts. -/
def readOptions (type : ConstructType) (lastOffset : SizeT) :
    Option SizeT → List FieldOption → Except Stop (Option SizeT)
  | userOffset, [] => .ok userOffset
  | _, .offset offset :: rest => do
    refute (offset < lastOffset) .einval
    refute (type = .union && offset ≠ 0) .einval
    readOptions type lastOffset (some offset) rest
  | _, .other _ :: _ => .error (.code .einval)

/-- What `mam_construct_add_field` is about to add. -/
structure FieldPlan where
  construct : Handle
  name : CString
  fieldType : FieldType
  userOffset : Option SizeT
  size : SizeT
  align : SizeT

/-- The checks of `mam_construct_add_field`. -/
def constructAddFieldChecks (s : Store L) (construct : Option Handle) (name : Option CString)
    (fieldType : Option FieldType) (options : List FieldOption) : Except Stop FieldPlan := do
  let construct ← checkPtr construct
  let name ← checkPtr name
  let fieldType ← checkPtr fieldType
  let record ← deref s.constructs construct
  refute record.frozen .efrozen
  refute (name = []) .einval
  refute (record.fieldsNameHash.find name).isSome .einval
  let userOffset ← readOptions record.type record.lastOffset none options
  let context ← deref s.contexts record.context
  let (size, align) ← getFieldTypeSizeAlign s context.platform fieldType
  refute (size.toInt < 0) .einval
  return { construct := construct, name := name, fieldType := fieldType,
           userOffset := userOffset, size := size, align := align }

/-- `size_t pad = n & (align - 1); if (pad) n += align - pad;` -/
def alignUp (n align : SizeT) : SizeT :=
  let pad := n &&& (align - 1)
  if pad = 0 then n else n + (align - pad)

/-- The four numbers that adding a field computes. -/
structure Layout where
  offset : SizeT
  lastOffset : SizeT
  totalSize : SizeT
  alignment : SizeT
deriving DecidableEq, Repr

/-- Where `mam_construct_add_field` puts a field, and what becomes of the construct. -/
def Construct.place (c : Construct L) (userOffset : Option SizeT) (size align : SizeT) : Layout :=
  let offset :=
    match userOffset, c.type with
    | some offset, _ => offset
    | none, .struct => if c.packed then c.lastOffset else alignUp c.lastOffset align
    | none, .union => 0
  let alignment := if c.packed then c.alignment else if align > c.alignment then align else c.alignment
  let lastOffset :=
    match c.type with
    | .struct => offset + size
    | .union => c.lastOffset
  let totalSize :=
    match c.type with
    | .struct => lastOffset
    | .union => if size > c.totalSize then size else c.totalSize
  { offset := offset
    lastOffset := lastOffset
    totalSize := if c.packed then totalSize else alignUp totalSize alignment
    alignment := alignment }

/-- `mam_construct_add_field`. -/
def constructAddField (m : Machine) (mem : Memory) (construct : Option Handle)
    (name : Option CString) (fieldType : Option FieldType) (options : List FieldOption) :
    Except Fault Return :=
  guarded m (constructAddFieldChecks m.store construct name fieldType options) fun plan =>
    if !mem.calloc then .ok (Machine.enomem m.heap m.store)
    else
      let (field, heap) := m.heap.calloc
      match m.store.constructs plan.construct with
      | none => .error .danglingPointer
      | some record =>
        let layout := record.place plan.userOffset plan.size plan.align
        let entry : Field :=
          { self := field, name := plan.name, offset := layout.offset, size := plan.size,
            fieldType := plan.fieldType }
        pushBackOr record.fields entry mem
          (fun fields => Machine.enomem (heap.free field)
            (m.store.setConstruct plan.construct { record with fields := fields }))
          fun fields =>
            match record.fieldsNameHash.addKeyptr plan.name field mem.insert with
            | none => .ok (Machine.enomem (heap.free field)
                (m.store.setConstruct plan.construct { record with fields := fields.popBack }))
            | some hash =>
              .ok { code := .success
                    machine :=
                      { heap := heap
                        store := freezeFieldType
                          (m.store.setConstruct plan.construct
                            { record with
                              fields := fields, fieldsNameHash := hash,
                              lastOffset := layout.lastOffset, totalSize := layout.totalSize,
                              alignment := layout.alignment })
                          plan.fieldType }
                    value := none }

/-- The checks of `mam_context_create_pointer`. -/
def contextCreatePointerChecks (context : Option Handle) (fieldType : Option FieldType)
    (ret : Bool) : Except Stop (Handle × FieldType) := do
  let context ← checkPtr context
  let fieldType ← checkPtr fieldType
  refute (!ret) .einval
  return (context, fieldType)

/-- `mam_context_create_pointer`. The result of its `calloc` is not tested. -/
def contextCreatePointer (m : Machine) (mem : Memory) (context : Option Handle)
    (fieldType : Option FieldType) (ret : Bool) : Except Fault Return :=
  guarded m (contextCreatePointerChecks context fieldType ret) fun (owner, fieldType) =>
    if !mem.calloc then .error .nullDereference
    else
      let (pointer, heap) := m.heap.calloc
      match m.store.contexts owner with
      | none => .error .danglingPointer
      | some context =>
        pushBackOr context.pointers pointer mem
          (fun pointers => Machine.enomem (heap.free pointer)
            (m.store.setContext owner { context with pointers := pointers }))
          fun pointers =>
            .ok { code := .success
                  machine :=
                    { heap := heap
                      store := (m.store.setContext owner { context with pointers := pointers }
                        ).setPointer pointer { context := owner, fieldType := fieldType } }
                  value := some pointer }

/-- What `mam_context_create_array` is about to create. -/
structure ArrayPlan where
  context : Handle
  fieldType : FieldType
  size : SizeT
  align : SizeT

/-- The checks of `mam_context_create_array`. -/
def contextCreateArrayChecks (s : Store L) (context : Option Handle)
    (fieldType : Option FieldType) (ret : Bool) : Except Stop ArrayPlan := do
  let context ← checkPtr context
  let fieldType ← checkPtr fieldType
  refute (!ret) .einval
  let record ← deref s.contexts context
  let (size, align) ← getFieldTypeSizeAlign s record.platform fieldType
  return { context := context, fieldType := fieldType, size := size, align := align }

/-- `mam_context_create_array`. The result of its `calloc` is not tested. -/
def contextCreateArray (m : Machine) (mem : Memory) (context : Option Handle)
    (fieldType : Option FieldType) (ret : Bool) : Except Fault Return :=
  guarded m (contextCreateArrayChecks m.store context fieldType ret) fun plan =>
    if !mem.calloc then .error .nullDereference
    else
      let (array, heap) := m.heap.calloc
      if !mem.malloc then .ok (Machine.enomem (heap.free array) m.store)
      else
        match m.store.contexts plan.context with
        | none => .error .danglingPointer
        | some context =>
          pushBackOr context.arrays array mem
            (fun arrays => Machine.enomem (heap.free array)
              (m.store.setContext plan.context { context with arrays := arrays }))
            fun arrays =>
              .ok { code := .success
                    machine :=
                      { heap := heap
                        store := freezeFieldType
                          ((m.store.setContext plan.context { context with arrays := arrays }
                            ).setArray array
                              { context := plan.context, elemSize := plan.size, totalSize := 0,
                                alignment := plan.align, fieldType := plan.fieldType,
                                dimensions := UTArray.init, frozen := false })
                          plan.fieldType }
                    value := some array }

/-- The checks of `mam_array_add_dimension`. -/
def arrayAddDimensionChecks (s : Store L) (array : Option Handle) (dimension : Option Dimension) :
    Except Stop (Handle × Dimension) := do
  let array ← checkPtr array
  let record ← deref s.arrays array
  refute record.frozen .efrozen
  let dimension ← checkPtr dimension
  return (array, dimension)

/-- The total size that one more dimension makes. -/
def ArrayType.extend (a : ArrayType L) (dimension : Dimension) : SizeT :=
  match dimension.effective with
  | .fixed count =>
    if a.totalSize = 0 ∧ 0 ≤ a.elemSize.toInt then a.elemSize * count
    else if 0 < a.totalSize.toInt then a.totalSize * count
    else a.totalSize
  | .variable _ | .other _ _ _ => -1

/-- `mam_array_add_dimension`. -/
def arrayAddDimension (m : Machine) (mem : Memory) (array : Option Handle)
    (dimension : Option Dimension) : Except Fault Return :=
  guarded m (arrayAddDimensionChecks m.store array dimension) fun (array, dimension) =>
    if !mem.calloc then .ok (Machine.enomem m.heap m.store)
    else
      let (block, heap) := m.heap.calloc
      match m.store.arrays array with
      | none => .error .danglingPointer
      | some record =>
        pushBackOr record.dimensions ⟨block, dimension⟩ mem
          (fun dimensions => Machine.enomem (heap.free block)
            (m.store.setArray array { record with dimensions := dimensions }))
          fun dimensions =>
            .ok { code := .success
                  machine :=
                    { heap := heap
                      store := m.store.setArray array
                        { record with dimensions := dimensions, totalSize := record.extend dimension } }
                  value := none }

/-- What `mam_context_create_variable` is about to create. -/
structure VariablePlan where
  context : Handle
  name : CString
  fieldType : FieldType
  size : SizeT
  align : SizeT

/-- The checks of `mam_context_create_variable`. -/
def contextCreateVariableChecks (s : Store L) (context : Option Handle) (name : Option CString)
    (fieldType : Option FieldType) (ret : Bool) : Except Stop VariablePlan := do
  let context ← checkPtr context
  let name ← checkPtr name
  let fieldType ← checkPtr fieldType
  refute (!ret) .einval
  refute (name = []) .einval
  let record ← deref s.contexts context
  refute (record.variablesNameHash.find name).isSome .einval
  let (size, align) ← getFieldTypeSizeAlign s record.platform fieldType
  return { context := context, name := name, fieldType := fieldType, size := size, align := align }

/-- `mam_context_create_variable`. The type is frozen before the steps that may fail. -/
def contextCreateVariable (m : Machine) (mem : Memory) (context : Option Handle)
    (name : Option CString) (fieldType : Option FieldType) (ret : Bool) : Except Fault Return :=
  guarded m (contextCreateVariableChecks m.store context name fieldType ret) fun plan =>
    if !mem.calloc then .ok (Machine.enomem m.heap m.store)
    else
      let (var, heap) := m.heap.calloc
      let store := freezeFieldType m.store plan.fieldType
      match store.contexts plan.context with
      | none => .error .danglingPointer
      | some context =>
        pushBackOr context.vars var mem
          (fun vars => Machine.enomem (heap.free var)
            (store.setContext plan.context { context with vars := vars }))
          fun vars =>
            match context.variablesNameHash.addKeyptr plan.name var mem.insert with
            | none => .ok (Machine.enomem (heap.free var)
                (store.setContext plan.context { context with vars := vars.popBack }))
            | some hash =>
              .ok { code := .success
                    machine :=
                      { heap := heap
                        store := (store.setContext plan.context
                          { context with vars := vars, variablesNameHash := hash }
                          ).setVariable var
                            { context := plan.context, name := plan.name,
                              alignment := plan.align, size := plan.size,
                              fieldType := plan.fieldType } }
                    value := some var }

/-- A call of the copy engine, with its arguments; an absent pointer is NULL. -/
inductive Op where
  | contextCreate (name : Option CString) (platform : Option Platform) (ret : Bool)
  | contextCreateConstruct (type : ConstructType) (context : Option Handle)
      (name : Option CString) (packed ret : Bool)
  | constructAddField (construct : Option Handle) (name : Option CString)
      (fieldType : Option FieldType) (options : List FieldOption)
  | contextCreatePointer (context : Option Handle) (fieldType : Option FieldType) (ret : Bool)
  | contextCreateArray (context : Option Handle) (fieldType : Option FieldType) (ret : Bool)
  | arrayAddDimension (array : Option Handle) (dimension : Option Dimension)
  | contextCreateVariable (context : Option Handle) (name : Option CString)
      (fieldType : Option FieldType) (ret : Bool)

/-- Run one call. -/
def exec (m : Machine) (mem : Memory) : Op → Except Fault Return
  | .contextCreate name platform ret => contextCreate m mem name platform ret
  | .contextCreateConstruct type context name packed ret =>
    contextCreateConstruct m mem type context name packed ret
  | .constructAddField construct name fieldType options =>
    constructAddField m mem construct name fieldType options
  | .contextCreatePointer context fieldType ret => contextCreatePointer m mem context fieldType ret
  | .contextCreateArray context fieldType ret => contextCreateArray m mem context fieldType ret
  | .arrayAddDimension array dimension => arrayAddDimension m mem array dimension
  | .contextCreateVariable context name fieldType ret =>
    contextCreateVariable m mem context name fieldType ret

/-- One call that returned. -/
structure Event where
  op : Op
  memory : Memory
  result : Return

/-- A call as a step of the machine. -/
def Step (m : Machine) (event : Event) (next : Machine) : Prop :=
  exec m event.memory event.op = .ok event.result ∧ next = event.result.machine

/-- A run of calls, from before the first context. -/
abbrev Run (trace : List (Transition Machine Event)) (final : Machine) : Prop :=
  Execution Step Machine.initial trace final

/-- Make one call, when it returns. -/
def respond (m : Machine) (input : Op × Memory) : Option (Event × Machine) :=
  match exec m input.2 input.1 with
  | .error _ => none
  | .ok result => some (⟨input.1, input.2, result⟩, result.machine)

theorem respond_step {m next : Machine} {input : Op × Memory} {event : Event}
    (returned : respond m input = some (event, next)) : Step m event next := by
  unfold respond at returned
  split at returned
  · cases returned
  · rename_i result answered
    cases returned
    exact ⟨answered, rfl⟩

/-- The run that a list of calls gives rise to. -/
theorem replay_run (inputs : List (Op × Memory)) :
    Run (replay respond Machine.initial inputs).1 (replay respond Machine.initial inputs).2 := by
  apply replay_execution
  intro m input event next returned
  exact respond_step returned

end Mam.CopyEngine
