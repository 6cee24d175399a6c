import Mam.CopyEngine.Destroy
import Mam.CopyEngine.Names
import Mam.Vendor.HashRuns

/-! The copy engine with the name tables of `uthash.h`: the calls that name an object look
the name up and file the object through the head of one table, and destroying clears the
tables. -/

namespace Mam.CopyEngine

open Mam.Library Mam.Vendor

/-- The object that has the head of a table among its members. -/
def Directory.object : Directory → Handle
  | .constructs context | .vars context => context
  | .fields construct => construct

/-- The heads of the name tables, and the `hh_name` members of the objects in them. -/
structure NameTables where
  handles : HashHandles
  root : Directory → HashRoot

namespace NameTables

/-- The handles, and the head of one table. -/
def table (t : NameTables) (d : Directory) : HashState := ⟨t.handles, t.root d⟩

/-- A block that `calloc` has zeroed has NULL heads. -/
def zeroed (t : NameTables) (h : Handle) : NameTables :=
  { t with root := fun d => if d.object = h then none else t.root d }

/-- The tables after an insertion into one of them. -/
def inserted (t : NameTables) (d : Directory) (added : HashAdded HashRoot) : NameTables :=
  { handles := added.handles, root := Function.update t.root d added.value }

/-- `HASH_CLEAR`. -/
def cleared (t : NameTables) (d : Directory) : NameTables :=
  { t with root := Function.update t.root d (hashClear (t.root d)).1 }

/-- `HASH_CLEAR` of one table after the other. -/
def clearedAll (t : NameTables) (ds : List Directory) : NameTables := ds.foldl cleared t

/-- The blocks that clearing tables gives back. -/
def given (t : NameTables) : List Directory → List Block
  | [] => []
  | d :: ds => (hashClear (t.root d)).2 ++ (t.cleared d).given ds

variable {t : NameTables} {d d' : Directory} {added : HashAdded HashRoot}

theorem inserted_here : (t.inserted d added).table d = ⟨added.handles, added.value⟩ := by
  simp [table, inserted]

theorem inserted_elsewhere (other : d' ≠ d) :
    (t.inserted d added).table d' = ⟨added.handles, t.root d'⟩ := by
  simp [table, inserted, other]

theorem hashClear_root (root : HashRoot) : (hashClear root).1 = none := by cases root <;> rfl

@[simp] theorem clearedAll_handles (ds : List Directory) :
    (t.clearedAll ds).handles = t.handles := by
  induction ds generalizing t with
  | nil => rfl
  | cons d rest ih => exact ih

theorem clearedAll_root (ds : List Directory) (d : Directory) :
    (t.clearedAll ds).root d = if d ∈ ds then none else t.root d := by
  induction ds generalizing t with
  | nil => rfl
  | cons first rest ih =>
    refine (ih (t := t.cleared first)).trans ?_
    rw [cleared, hashClear_root]
    by_cases here : d = first
    · simp [here]
    · simp [here]

theorem clearedAll_append (ds es : List Directory) :
    t.clearedAll (ds ++ es) = (t.clearedAll ds).clearedAll es := List.foldl_append

theorem given_append (ds es : List Directory) :
    t.given (ds ++ es) = t.given ds ++ (t.clearedAll ds).given es := by
  induction ds generalizing t with
  | nil => rfl
  | cons d rest ih =>
    rw [List.cons_append, given, given, ih, List.append_assoc]
    rfl

end NameTables

/-- The objects, and the tables of their names. The finite maps in the records of objects are
not used, and stay empty. -/
structure Hashed where
  machine : Machine
  tables : NameTables

/-- Which allocations of a call succeed, and what `uthash_malloc` returns. -/
structure HashMemory where
  calloc : Bool
  malloc : Bool
  realloc : Bool
  uthash : UthashMalloc

/-- The memory of a call whose insertion, if it comes to one, has this outcome. -/
def HashMemory.inserting (mem : HashMemory) (insert : Bool) : Memory :=
  { calloc := mem.calloc, malloc := mem.malloc, realloc := mem.realloc, insert := insert }

/-- How a call returns, with the blocks that `uthash` obtained and gave back. -/
structure HashedReturn where
  code : MamError
  state : Hashed
  value : Option Handle
  obtained : List Block
  freed : List Block

/-- A return that has nothing to do with the tables. -/
def Return.beside (r : Return) (tables : NameTables) : HashedReturn :=
  { code := r.code, state := ⟨r.machine, tables⟩, value := r.value, obtained := [], freed := [] }

namespace Hashed

variable (hashFunction : CString → BitVec 32) (fuel : Nat) (s : Hashed) (mem : HashMemory)

/-- `HASH_FIND`, of a name in one of the tables. -/
def find (d : Directory) (name : CString) : Except Stop (Option Handle) :=
  match hashFind hashFunction fuel (s.tables.table d) name (strlen name) with
  | none => .error (.fault .endlessLoop)
  | some out => .ok out

/-- `HASH_ADD_KEYPTR`, with the statement that `uthash_nonfatal_oom()` stands for. -/
def addKeyptrOr (tables : NameTables) (d : Directory) (name : CString) (elem : Handle)
    (oom stored : Return) : Except Fault HashedReturn :=
  match hashAddKeyptr hashFunction mem.uthash fuel (tables.table d) name (strlen name) elem with
  | none => .error .endlessLoop
  | some added =>
    let left := if added.oomed then oom else stored
    .ok { code := left.code, state := ⟨left.machine, tables.inserted d added⟩, value := left.value,
          obtained := added.obtained, freed := added.freed }

/-- Commit what passed its checks. -/
def guarded {α : Type} (checks : Except Stop α) (commit : α → Except Fault HashedReturn) :
    Except Fault HashedReturn :=
  match checks with
  | .error (.fault fault) => .error fault
  | .error (.code error) =>
    .ok (Return.beside { code := error, machine := s.machine, value := none } s.tables)
  | .ok plan => commit plan

/-- `utarray_push_back`, with the statement that `utarray_oom()` stands for. -/
def pushBackOr {α : Type} (list : UTArray α) (elem : α) (oom : UTArray α → HashedReturn)
    (stored : UTArray α → Except Fault HashedReturn) : Except Fault HashedReturn :=
  match list.pushBack elem mem.realloc with
  | none => .error .endlessLoop
  | some (.oom list) => .ok (oom list)
  | some (.stored list) => stored list

/-- `mam_context_create`. The heads of a new context are NULL. -/
def contextCreate (name : Option CString) (platform : Option Platform) (ret : Bool) :
    Except Fault HashedReturn :=
  let m := s.machine
  guarded s (contextCreateChecks name platform ret) fun (name, platform) =>
    if !mem.calloc then .ok ((Machine.enomem m.heap m.store).beside s.tables)
    else
      let (context, heap) := m.heap.calloc
      let tables := s.tables.zeroed context
      if !mem.malloc then .ok ((Machine.enomem (heap.free context) m.store).beside tables)
      else
        .ok (Return.beside
          { code := .success
            machine :=
              { heap := heap
                store := m.store.setContext context
                  { name := name, platform := platform, pointers := UTArray.init,
                    arrays := UTArray.init, constructs := UTArray.init, vars := UTArray.init,
                    variablesNameHash := UTHash.empty, constructsNameHash := UTHash.empty } }
            value := some context } tables)

/-- The checks of `_mam_context_create_construct`. -/
def contextCreateConstructChecks (context : Option Handle) (name : Option CString) (ret : Bool) :
    Except Stop (Handle × CString) := do
  let context ← checkPtr context
  let name ← checkPtr name
  refute (!ret) .einval
  let _ ← deref s.machine.store.contexts context
  let construct ← if name = [] then .ok none else find hashFunction fuel s (.constructs context) name
  refute construct.isSome .einval
  return (context, name)

/-- `_mam_context_create_construct`. -/
def contextCreateConstruct (type : ConstructType) (context : Option Handle)
    (name : Option CString) (packed ret : Bool) : Except Fault HashedReturn :=
  let m := s.machine
  guarded s (contextCreateConstructChecks hashFunction fuel s context name ret) fun (owner, name) =>
    if !mem.calloc then .ok ((Machine.enomem m.heap m.store).beside s.tables)
    else
      let (construct, heap) := m.heap.calloc
      let tables := s.tables.zeroed construct
      if !mem.malloc then .ok ((Machine.enomem (heap.free construct) m.store).beside tables)
      else
        match m.store.contexts owner with
        | none => .error .danglingPointer
        | some context =>
          pushBackOr mem context.constructs construct
            (fun constructs => (Machine.enomem (heap.free construct)
              (m.store.setContext owner { context with constructs := constructs })).beside tables)
            fun constructs =>
              addKeyptrOr hashFunction fuel mem tables (.constructs owner) name construct
                (Machine.enomem (heap.free construct)
                  (m.store.setContext owner { context with constructs := constructs.popBack }))
                { code := .success
                  machine :=
                    { heap := heap
                      store := (m.store.setContext owner { context with constructs := constructs }
                        ).setConstruct construct
                          { context := owner, name := name, type := type, packed := packed,
                            lastOffset := 0, totalSize := 0, alignment := 1, fields := UTArray.init,
                            fieldsNameHash := UTHash.empty, frozen := false } }
                  value := some construct }

/-- The checks of `mam_construct_add_field`. -/
def constructAddFieldChecks (construct : Option Handle) (name : Option CString)
    (fieldType : Option FieldType) (options : List FieldOption) : Except Stop FieldPlan := do
  let construct ← checkPtr construct
  let name ← checkPtr name
  let fieldType ← checkPtr fieldType
  let record ← deref s.machine.store.constructs construct
  refute record.frozen .efrozen
  refute (name = []) .einval
  let field ← find hashFunction fuel s (.fields construct) name
  refute field.isSome .einval
  let userOffset ← readOptions record.type record.lastOffset none options
  let context ← deref s.machine.store.contexts record.context
  let (size, align) ← getFieldTypeSizeAlign s.machine.store context.platform fieldType
  refute (size.toInt < 0) .einval
  return { construct := construct, name := name, fieldType := fieldType,
           userOffset := userOffset, size := size, align := align }

/-- `mam_construct_add_field`. -/
def constructAddField (construct : Option Handle) (name : Option CString)
    (fieldType : Option FieldType) (options : List FieldOption) : Except Fault HashedReturn :=
  let m := s.machine
  guarded s (constructAddFieldChecks hashFunction fuel s construct name fieldType options) fun plan =>
    if !mem.calloc then .ok ((Machine.enomem m.heap m.store).beside s.tables)
    else
      let (field, heap) := m.heap.calloc
      match m.store.constructs plan.construct with
      | none => .error .danglingPointer
      | some record =>
        let layout := record.place plan.userOffset plan.size plan.align
        let entry : Field :=
          { self := field, name := plan.name, offset := layout.offset, size := plan.size,
            fieldType := plan.fieldType }
        pushBackOr mem record.fields entry
          (fun fields => (Machine.enomem (heap.free field)
            (m.store.setConstruct plan.construct { record with fields := fields })).beside s.tables)
          fun fields =>
            addKeyptrOr hashFunction fuel mem s.tables (.fields plan.construct) plan.name field
              (Machine.enomem (heap.free field)
                (m.store.setConstruct plan.construct { record with fields := fields.popBack }))
              { code := .success
                machine :=
                  { heap := heap
                    store := freezeFieldType
                      (m.store.setConstruct plan.construct
                        { record with
                          fields := fields, lastOffset := layout.lastOffset,
                          totalSize := layout.totalSize, alignment := layout.alignment })
                      plan.fieldType }
                value := none }

/-- The checks of `mam_context_create_variable`. -/
def contextCreateVariableChecks (context : Option Handle) (name : Option CString)
    (fieldType : Option FieldType) (ret : Bool) : Except Stop VariablePlan := do
  let context ← checkPtr context
  let name ← checkPtr name
  let fieldType ← checkPtr fieldType
  refute (!ret) .einval
  refute (name = []) .einval
  let record ← deref s.machine.store.contexts context
  let var ← find hashFunction fuel s (.vars context) name
  refute var.isSome .einval
  let (size, align) ← getFieldTypeSizeAlign s.machine.store record.platform fieldType
  return { context := context, name := name, fieldType := fieldType, size := size, align := align }

/-- `mam_context_create_variable`. -/
def contextCreateVariable (context : Option Handle) (name : Option CString)
    (fieldType : Option FieldType) (ret : Bool) : Except Fault HashedReturn :=
  let m := s.machine
  guarded s (contextCreateVariableChecks hashFunction fuel s context name fieldType ret) fun plan =>
    if !mem.calloc then .ok ((Machine.enomem m.heap m.store).beside s.tables)
    else
      let (var, heap) := m.heap.calloc
      let store := freezeFieldType m.store plan.fieldType
      match store.contexts plan.context with
      | none => .error .danglingPointer
      | some context =>
        pushBackOr mem context.vars var
          (fun vars => (Machine.enomem (heap.free var)
            (store.setContext plan.context { context with vars := vars })).beside s.tables)
          fun vars =>
            addKeyptrOr hashFunction fuel mem s.tables (.vars plan.context) plan.name var
              (Machine.enomem (heap.free var)
                (store.setContext plan.context { context with vars := vars.popBack }))
              { code := .success
                machine :=
                  { heap := heap
                    store := (store.setContext plan.context { context with vars := vars }
                      ).setVariable var
                        { context := plan.context, name := plan.name, alignment := plan.align,
                          size := plan.size, fieldType := plan.fieldType } }
                value := some var }

/-- Run one call. The calls that name nothing leave the tables alone. -/
def exec : Op → Except Fault HashedReturn
  | .contextCreate name platform ret => contextCreate s mem name platform ret
  | .contextCreateConstruct type context name packed ret =>
    contextCreateConstruct hashFunction fuel s mem type context name packed ret
  | .constructAddField construct name fieldType options =>
    constructAddField hashFunction fuel s mem construct name fieldType options
  | .contextCreateVariable context name fieldType ret =>
    contextCreateVariable hashFunction fuel s mem context name fieldType ret
  | .contextCreatePointer context fieldType ret =>
    (contextCreatePointer s.machine (mem.inserting true) context fieldType ret).map
      (·.beside s.tables)
  | .contextCreateArray context fieldType ret =>
    (contextCreateArray s.machine (mem.inserting true) context fieldType ret).map (·.beside s.tables)
  | .arrayAddDimension array dimension =>
    (arrayAddDimension s.machine (mem.inserting true) array dimension).map (·.beside s.tables)

/-- `_mam_construct_destroy`, and the blocks of tables that have been given back. -/
def constructDestroy (s : Hashed × List Block) (construct : Handle) :
    Except Fault (Hashed × List Block) := do
  let d := Directory.fields construct
  let m ← CopyEngine.constructDestroy s.1.machine construct
  return (⟨m, s.1.tables.cleared d⟩, s.2 ++ (hashClear (s.1.tables.root d)).2)

/-- `mam_context_destroy`. -/
def contextDestroy (context : Option Handle) : Except Fault HashedReturn :=
  guarded s (checkPtr context) fun owner =>
    match s.machine.store.contexts owner with
    | none => .error .danglingPointer
    | some record => do
      let tables := (s.tables.cleared (.vars owner)).cleared (.constructs owner)
      let freed := (hashClear (s.tables.root (.vars owner))).2 ++
        (hashClear (s.tables.root (.constructs owner))).2
      let m ← destroyEach pointerDestroy s.machine record.pointers
      let m ← destroyEach arrayDestroy m record.arrays
      let (s, freed) ← record.constructs.visited.foldlM constructDestroy (⟨m, tables⟩, freed)
      let m ← destroyEach variableDestroy s.machine record.vars
      return { code := .success, state := ⟨m.free owner, s.tables⟩, value := none, obtained := [],
               freed := freed }

/-- `mam_context_get_variable_by_name`. -/
def contextGetVariableByName (context : Option Handle) (name : Option CString) (ret : Bool) :
    Except Stop Handle := do
  let context ← checkPtr context
  let name ← checkPtr name
  refute (name = []) .einval
  let _ ← deref s.machine.store.contexts context
  let var ← find hashFunction fuel s (.vars context) name
  let var ← checkPtr var
  storeThrough ret var

/-- `mam_context_get_construct_by_name`. -/
def contextGetConstructByName (context : Option Handle) (name : Option CString) (ret : Bool) :
    Except Stop Handle := do
  let context ← checkPtr context
  let name ← checkPtr name
  refute (name = []) .einval
  let _ ← deref s.machine.store.contexts context
  let construct ← find hashFunction fuel s (.constructs context) name
  let construct ← checkPtr construct
  storeThrough ret construct

/-- `mam_construct_get_field_by_name`. -/
def constructGetFieldByName (construct : Option Handle) (name : Option CString)
    (offsetRet sizeRet fieldTypeRet : Bool) : Except Stop FieldInfo := do
  let construct ← checkPtr construct
  let name ← checkPtr name
  refute (!offsetRet) .einval
  refute (!sizeRet) .einval
  refute (!fieldTypeRet) .einval
  refute (name = []) .einval
  let record ← deref s.machine.store.constructs construct
  let field ← find hashFunction fuel s (.fields construct) name
  let h ← checkPtr field
  let field ← deref (fun h => record.fields.elems.find? fun f => f.self = h) h
  return field.info

end Hashed

end Mam.CopyEngine
