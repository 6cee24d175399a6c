import Mam.Basic
import Mam.Vendor.UTArray
import Mam.Vendor.UTHash
import Mathlib.Logic.Function.Basic

/-! The objects of `copy-engine-internal.h` and the heap they live in. -/

namespace Mam.CopyEngine

open Mam.Vendor

/-- The address of an object, as the number of the `calloc` that returned it. -/
abbrev Handle := Nat

/-- `mam_construct_type_t`. -/
inductive ConstructType where
  | struct
  | union
deriving DecidableEq, Repr

/-- `mam_field_type_t`: a tag, and the pointer the caller stored beside it. -/
structure FieldType where
  type : Int
  ref : Handle
deriving DecidableEq, Repr

/-- `MAM_COMPLEX_TYPE_STRUCT`. -/
def complexTypeStruct : Int := 0x100

/-- `MAM_COMPLEX_TYPE_UNION`. -/
def complexTypeUnion : Int := 0x101

/-- `MAM_COMPLEX_TYPE_ARRAY`. -/
def complexTypeArray : Int := 0x102

/-- `MAM_MAPPED_TYPE_CHAR`, the first mapped tag. -/
def mappedTypeChar : Int := 0x200

/-- `MAM_MAPPED_TYPE_MAX - MAM_MAPPED_TYPE_CHAR`. -/
def mappedTypes : Nat := 19

/-- `mam_data_type_size`, over the tags from `MAM_DATA_TYPE_INT8` to
`MAM_DATA_TYPE_FLOAT64`. -/
def dataTypeSize : List SizeT := [1, 1, 2, 2, 4, 4, 8, 8, 16, 16, 2, 2, 4, 8]

/-- `mam_data_type_align`. -/
def dataTypeAlign : List SizeT := [1, 1, 2, 2, 4, 4, 8, 8, 16, 16, 2, 2, 4, 8]

/-- `struct _mam_platform_s`, as far as contexts read it. -/
structure Platform where
  typeMap : Fin mappedTypes → Int

/-- One extent of a dimension: its `mam_dimension_type_t`, with the member of the union
that goes with it. The type is never checked: one from `MAM_DIMENSION_TYPE_MAX` on keeps
the word that the union holds, which is not read. -/
inductive Extent where
  | fixed (count : SizeT)
  | variable (path : CString)
  | other (type : BitVec 32) (word : SizeT) (beyond : 1 < type)
deriving DecidableEq, Repr

/-- `mam_dimension_t`. -/
structure Dimension where
  extent : Extent
  padded : Option Extent
deriving DecidableEq, Repr

/-- The extent that counts for the size: the pad of a padded dimension. -/
def Dimension.effective (d : Dimension) : Extent := d.padded.getD d.extent

/-- `struct _mam_field_s`. -/
structure Field where
  self : Handle
  name : CString
  offset : SizeT
  size : SizeT
  fieldType : FieldType
deriving DecidableEq, Repr

/-- The copy of a dimension that an array keeps. -/
structure DimensionBlock where
  self : Handle
  dimension : Dimension
deriving DecidableEq, Repr

variable {L : Type → Type}

/-- `struct _mam_construct_s`. Lists are held in a container `L`: a `UT_array` in the
code's state, a plain list in what is seen of it. -/
structure Construct (L : Type → Type) where
  context : Handle
  name : CString
  type : ConstructType
  packed : Bool
  lastOffset : SizeT
  totalSize : SizeT
  alignment : SizeT
  fields : L Field
  fieldsNameHash : UTHash Handle
  frozen : Bool

/-- `struct _mam_array_s`. Both sizes are `ssize_t`. -/
structure ArrayType (L : Type → Type) where
  context : Handle
  elemSize : SizeT
  totalSize : SizeT
  alignment : SizeT
  fieldType : FieldType
  dimensions : L DimensionBlock
  frozen : Bool

/-- `struct _mam_pointer_s`. -/
structure Pointer where
  context : Handle
  fieldType : FieldType
deriving DecidableEq, Repr

/-- `struct _mam_variable_s`. -/
structure Variable where
  context : Handle
  name : CString
  alignment : SizeT
  size : SizeT
  fieldType : FieldType
deriving DecidableEq, Repr

/-- `struct _mam_context_s`. -/
structure Context (L : Type → Type) where
  name : CString
  platform : Platform
  pointers : L Handle
  arrays : L Handle
  constructs : L Handle
  vars : L Handle
  variablesNameHash : UTHash Handle
  constructsNameHash : UTHash Handle

/-- The live objects, by kind and address. -/
structure Store (L : Type → Type) where
  contexts : Handle → Option (Context L)
  constructs : Handle → Option (Construct L)
  arrays : Handle → Option (ArrayType L)
  pointers : Handle → Option Pointer
  vars : Handle → Option Variable

namespace Store

def empty : Store L :=
  { contexts := fun _ => none, constructs := fun _ => none, arrays := fun _ => none,
    pointers := fun _ => none, vars := fun _ => none }

def setContext (s : Store L) (h : Handle) (context : Context L) : Store L :=
  { s with contexts := Function.update s.contexts h (some context) }

def setConstruct (s : Store L) (h : Handle) (construct : Construct L) : Store L :=
  { s with constructs := Function.update s.constructs h (some construct) }

def setArray (s : Store L) (h : Handle) (array : ArrayType L) : Store L :=
  { s with arrays := Function.update s.arrays h (some array) }

def setPointer (s : Store L) (h : Handle) (pointer : Pointer) : Store L :=
  { s with pointers := Function.update s.pointers h (some pointer) }

def setVariable (s : Store L) (h : Handle) (var : Variable) : Store L :=
  { s with vars := Function.update s.vars h (some var) }

end Store

section Tables

variable (s : Store L) (h k : Handle)

@[simp] theorem setContext_contexts (c : Context L) :
    (s.setContext h c).contexts k = if k = h then some c else s.contexts k :=
  Function.update_apply _ _ _ _

@[simp] theorem setContext_constructs (c : Context L) :
    (s.setContext h c).constructs = s.constructs := rfl

@[simp] theorem setContext_arrays (c : Context L) : (s.setContext h c).arrays = s.arrays := rfl

@[simp] theorem setContext_vars (c : Context L) : (s.setContext h c).vars = s.vars := rfl

@[simp] theorem setConstruct_contexts (c : Construct L) :
    (s.setConstruct h c).contexts = s.contexts := rfl

@[simp] theorem setConstruct_constructs (c : Construct L) :
    (s.setConstruct h c).constructs k = if k = h then some c else s.constructs k :=
  Function.update_apply _ _ _ _

@[simp] theorem setConstruct_arrays (c : Construct L) : (s.setConstruct h c).arrays = s.arrays := rfl

@[simp] theorem setConstruct_vars (c : Construct L) : (s.setConstruct h c).vars = s.vars := rfl

@[simp] theorem setArray_contexts (a : ArrayType L) : (s.setArray h a).contexts = s.contexts := rfl

@[simp] theorem setArray_constructs (a : ArrayType L) :
    (s.setArray h a).constructs = s.constructs := rfl

@[simp] theorem setArray_arrays (a : ArrayType L) :
    (s.setArray h a).arrays k = if k = h then some a else s.arrays k :=
  Function.update_apply _ _ _ _

@[simp] theorem setArray_vars (a : ArrayType L) : (s.setArray h a).vars = s.vars := rfl

@[simp] theorem setPointer_contexts (p : Pointer) : (s.setPointer h p).contexts = s.contexts := rfl

@[simp] theorem setPointer_constructs (p : Pointer) :
    (s.setPointer h p).constructs = s.constructs := rfl

@[simp] theorem setPointer_arrays (p : Pointer) : (s.setPointer h p).arrays = s.arrays := rfl

@[simp] theorem setPointer_vars (p : Pointer) : (s.setPointer h p).vars = s.vars := rfl

@[simp] theorem setVariable_contexts (v : Variable) : (s.setVariable h v).contexts = s.contexts := rfl

@[simp] theorem setVariable_constructs (v : Variable) :
    (s.setVariable h v).constructs = s.constructs := rfl

@[simp] theorem setVariable_arrays (v : Variable) : (s.setVariable h v).arrays = s.arrays := rfl

@[simp] theorem setVariable_vars (v : Variable) :
    (s.setVariable h v).vars k = if k = h then some v else s.vars k :=
  Function.update_apply _ _ _ _

theorem setContext_self (c : Context L) : (s.setContext h c).contexts h = some c := by simp

theorem setConstruct_self (c : Construct L) : (s.setConstruct h c).constructs h = some c := by simp

theorem setArray_self (a : ArrayType L) : (s.setArray h a).arrays h = some a := by simp

end Tables

/-- The blocks handed out by `calloc` and not freed, and the blocks freed so far. -/
structure Heap where
  next : Handle
  outstanding : List Handle
  released : List Handle
deriving DecidableEq, Repr

def Heap.empty : Heap := { next := 0, outstanding := [], released := [] }

/-- A `calloc` that succeeds: the block, and the heap that has it. -/
def Heap.calloc (heap : Heap) : Handle × Heap :=
  (heap.next, { heap with next := heap.next + 1, outstanding := heap.next :: heap.outstanding })

def Heap.free (heap : Heap) (block : Handle) : Heap :=
  { heap with outstanding := heap.outstanding.erase block, released := heap.released ++ [block] }

/-- Everything the copy engine's calls read and write. -/
structure Machine where
  heap : Heap
  store : Store UTArray

def Machine.initial : Machine := { heap := Heap.empty, store := Store.empty }

/-! What is seen of a store when the capacities of its lists are forgotten. -/

def Construct.view (c : Construct UTArray) : Construct List :=
  { context := c.context, name := c.name, type := c.type, packed := c.packed,
    lastOffset := c.lastOffset, totalSize := c.totalSize, alignment := c.alignment,
    fields := c.fields.elems, fieldsNameHash := c.fieldsNameHash, frozen := c.frozen }

def ArrayType.view (a : ArrayType UTArray) : ArrayType List :=
  { context := a.context, elemSize := a.elemSize, totalSize := a.totalSize,
    alignment := a.alignment, fieldType := a.fieldType, dimensions := a.dimensions.elems,
    frozen := a.frozen }

def Context.view (c : Context UTArray) : Context List :=
  { name := c.name, platform := c.platform, pointers := c.pointers.elems,
    arrays := c.arrays.elems, constructs := c.constructs.elems, vars := c.vars.elems,
    variablesNameHash := c.variablesNameHash, constructsNameHash := c.constructsNameHash }

def Store.view (s : Store UTArray) : Store List :=
  { contexts := fun h => (s.contexts h).map Context.view
    constructs := fun h => (s.constructs h).map Construct.view
    arrays := fun h => (s.arrays h).map ArrayType.view
    pointers := s.pointers
    vars := s.vars }

end Mam.CopyEngine
