import Mam.CopyEngine.Model

/-! The getters of `copy-engine.c` that list, find and measure objects. -/

namespace Mam.CopyEngine

open Mam.Vendor

variable {L : Type → Type} {α : Type}

/-- A store through a pointer that was not tested against NULL. -/
def storeThrough (ret : Bool) (a : α) : Except Stop α :=
  if ret then .ok a else .error (.fault .nullDereference)

/-- `*utarray_eltptr(list, index)`. -/
def elementAt (list : UTArray α) (index : SizeT) : Except Stop α :=
  match list.eltptr index with
  | none => .error (.fault .nullDereference)
  | some elem => .ok elem

/-- `mam_context_get_variables_number`. -/
def contextGetVariablesNumber (s : Store UTArray) (context : Option Handle) (ret : Bool) :
    Except Stop SizeT := do
  let context ← checkPtr context
  refute (!ret) .einval
  let record ← deref s.contexts context
  return record.vars.len

/-- `mam_context_get_constructs_number`. -/
def contextGetConstructsNumber (s : Store UTArray) (context : Option Handle) (ret : Bool) :
    Except Stop SizeT := do
  let context ← checkPtr context
  refute (!ret) .einval
  let record ← deref s.contexts context
  return record.constructs.len

/-- `mam_context_get_variable`. -/
def contextGetVariable (s : Store UTArray) (context : Option Handle) (index : SizeT) (ret : Bool) :
    Except Stop Handle := do
  let context ← checkPtr context
  let record ← deref s.contexts context
  refute (record.vars.len ≤ index) .einval
  let var ← elementAt record.vars index
  storeThrough ret var

/-- `mam_context_get_construct`. -/
def contextGetConstruct (s : Store UTArray) (context : Option Handle) (index : SizeT) (ret : Bool) :
    Except Stop Handle := do
  let context ← checkPtr context
  let record ← deref s.contexts context
  refute (record.constructs.len ≤ index) .einval
  let construct ← elementAt record.constructs index
  storeThrough ret construct

/-- `mam_context_get_variable_by_name`. -/
def contextGetVariableByName (s : Store L) (context : Option Handle) (name : Option CString)
    (ret : Bool) : Except Stop Handle := do
  let context ← checkPtr context
  let name ← checkPtr name
  refute (name = []) .einval
  let record ← deref s.contexts context
  let var ← checkPtr (record.variablesNameHash.find name)
  storeThrough ret var

/-- `mam_context_get_construct_by_name`. -/
def contextGetConstructByName (s : Store L) (context : Option Handle) (name : Option CString)
    (ret : Bool) : Except Stop Handle := do
  let context ← checkPtr context
  let name ← checkPtr name
  refute (name = []) .einval
  let record ← deref s.contexts context
  let construct ← checkPtr (record.constructsNameHash.find name)
  storeThrough ret construct

/-- `mam_construct_get_name`. -/
def constructGetName (s : Store L) (construct : Option Handle) (ret : Bool) : Except Stop CString := do
  let construct ← checkPtr construct
  refute (!ret) .einval
  let record ← deref s.constructs construct
  return record.name

/-- `mam_variable_get_name`. -/
def variableGetName (s : Store L) (var : Option Handle) (ret : Bool) : Except Stop CString := do
  let var ← checkPtr var
  refute (!ret) .einval
  let record ← deref s.vars var
  return record.name

/-- `mam_construct_get_fields_number`. -/
def constructGetFieldsNumber (s : Store UTArray) (construct : Option Handle) (ret : Bool) :
    Except Stop SizeT := do
  let construct ← checkPtr construct
  refute (!ret) .einval
  let record ← deref s.constructs construct
  return record.fields.len

/-- What the getters tell of a field besides its name. -/
structure FieldInfo where
  offset : SizeT
  size : SizeT
  fieldType : FieldType
deriving DecidableEq, Repr

def Field.info (f : Field) : FieldInfo :=
  { offset := f.offset, size := f.size, fieldType := f.fieldType }

/-- `mam_construct_get_field`. -/
def constructGetField (s : Store UTArray) (construct : Option Handle) (index : SizeT)
    (nameRet offsetRet sizeRet fieldTypeRet : Bool) : Except Stop (CString × FieldInfo) := do
  let construct ← checkPtr construct
  let record ← deref s.constructs construct
  refute (record.fields.len ≤ index) .einval
  refute (!nameRet) .einval
  refute (!offsetRet) .einval
  refute (!sizeRet) .einval
  refute (!fieldTypeRet) .einval
  let field ← elementAt record.fields index
  return (field.name, field.info)

/-- `mam_construct_get_field_by_name`. The table holds the address of the field; the field
itself is kept with the list of its construct. -/
def constructGetFieldByName (s : Store UTArray) (construct : Option Handle) (name : Option CString)
    (offsetRet sizeRet fieldTypeRet : Bool) : Except Stop FieldInfo := do
  let construct ← checkPtr construct
  let name ← checkPtr name
  refute (!offsetRet) .einval
  refute (!sizeRet) .einval
  refute (!fieldTypeRet) .einval
  refute (name = []) .einval
  let record ← deref s.constructs construct
  let h ← checkPtr (record.fieldsNameHash.find name)
  let field ← deref (fun h => record.fields.elems.find? fun f => f.self = h) h
  return field.info

/-- `mam_array_get_size`. -/
def arrayGetSize (s : Store L) (array : Option Handle) (ret : Bool) : Except Stop SizeT := do
  let array ← checkPtr array
  refute (!ret) .einval
  let record ← deref s.arrays array
  return record.totalSize

end Mam.CopyEngine
