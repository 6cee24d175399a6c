import Mam.CopyEngine.Types

/-! The platforms: `mam_platform_create`, and the type map of the host. -/

namespace Mam.CopyEngine

/-- `mam_data_type_t`. -/
inductive DataType where
  | int8
  | uint8
  | int16
  | uint16
  | int32
  | uint32
  | int64
  | uint64
  | int128
  | uint128
  | float16
  | bfloat16
  | float32
  | float64
deriving DecidableEq, Repr

/-- The value of an enumerator. -/
def DataType.tag : DataType → Int
  | .int8 => 0
  | .uint8 => 1
  | .int16 => 2
  | .uint16 => 3
  | .int32 => 4
  | .uint32 => 5
  | .int64 => 6
  | .uint64 => 7
  | .int128 => 8
  | .uint128 => 9
  | .float16 => 10
  | .bfloat16 => 11
  | .float32 => 12
  | .float64 => 13

/-- `mam_mapped_type_t`. -/
inductive MappedType where
  | char
  | uchar
  | short
  | ushort
  | int
  | uint
  | long
  | ulong
  | longlong
  | ulonglong
  | size
  | ssize
  | pointer
  | ptrdiff
  | intptr
  | uintptr
  | half
  | float
  | double
deriving DecidableEq, Repr

instance mappedTypesNonzero : NeZero mappedTypes := ⟨by decide⟩

/-- The value of an enumerator, counted from `MAM_MAPPED_TYPE_CHAR`. -/
def MappedType.index : MappedType → Fin mappedTypes
  | .char => 0
  | .uchar => 1
  | .short => 2
  | .ushort => 3
  | .int => 4
  | .uint => 5
  | .long => 6
  | .ulong => 7
  | .longlong => 8
  | .ulonglong => 9
  | .size => 10
  | .ssize => 11
  | .pointer => 12
  | .ptrdiff => 13
  | .intptr => 14
  | .uintptr => 15
  | .half => 16
  | .float => 17
  | .double => 18

def MappedType.tag (mapped : MappedType) : Int := mappedTypeChar + mapped.index

/-- `mam_type_map_t`. -/
abbrev TypeMap := Fin mappedTypes → Int

/-- `struct _mam_platform_s`, in full. -/
structure PlatformBlock extends Platform where
  name : CString
  endian : Int

/-- `MAM_ENDIAN_LITTLE`. -/
def endianLittle : Int := 0

/-- `MAM_ENDIAN_BIG`. -/
def endianBig : Int := 1

/-- `MAM_ENDIAN_MAX`. -/
def endianMax : Int := 2

/-- `_mam_platform_create`. -/
def platformBlockCreate (calloc : Bool) (name : CString) (typeMap : TypeMap) (endian : Int) :
    Except MamError PlatformBlock :=
  if !calloc then .error .enomem
  else .ok { typeMap := typeMap, name := name, endian := endian }

/-- `mam_platform_create`. -/
def platformCreate (calloc : Bool) (name : Option CString) (typeMap : Option TypeMap) (endian : Int)
    (ret : Bool) : Except MamError PlatformBlock :=
  match name, typeMap with
  | none, _ => .error .einval
  | some _, none => .error .einval
  | some name, some typeMap =>
    if endian < endianLittle ∨ endianMax ≤ endian then .error .einval
    else if !ret then .error .einval
    else platformBlockCreate calloc name typeMap endian

/-- A type map of any contents is accepted. -/
theorem platformCreate_ok {endian : Int} (name : CString) (typeMap : TypeMap)
    (range : endianLittle ≤ endian ∧ endian < endianMax) :
    platformCreate true (some name) (some typeMap) endian true =
      .ok { typeMap := typeMap, name := name, endian := endian } := by
  have inside : ¬ (endian < endianLittle ∨ endianMax ≤ endian) := by omega
  simp [platformCreate, inside, platformBlockCreate]

/-- The C types whose size the host map depends on. -/
inductive CType where
  | char
  | unsignedChar
  | short
  | unsignedShort
  | int
  | unsignedInt
  | long
  | unsignedLong
  | longLong
  | unsignedLongLong
  | sizeT
  | ssizeT
  | voidPointer
  | ptrdiffT
  | intptrT
  | uintptrT
  | float
  | double
deriving DecidableEq, Repr

/-- What `sizeof` is of each type. -/
abbrev DataModel := CType → Nat

/-- `_mam_get_int`. -/
def getInt (sign : Bool) (sz : Nat) : Except MamError DataType :=
  if sign then
    match sz with
    | 1 => .ok .int8
    | 2 => .ok .int16
    | 4 => .ok .int32
    | 8 => .ok .int64
    | 16 => .ok .int128
    | _ => .error .einval
  else
    match sz with
    | 1 => .ok .uint8
    | 2 => .ok .uint16
    | 4 => .ok .uint32
    | 8 => .ok .uint64
    | 16 => .ok .uint128
    | _ => .error .einval

/-- `*TYPE_MAP_OFFSET(mapped) = type`. -/
def setType (typeMap : TypeMap) (mapped : MappedType) (type : DataType) : TypeMap :=
  Function.update typeMap mapped.index type.tag

/-- One call of `_mam_get_int`, with the entry of the map that it fills. -/
structure IntEntry where
  sign : Bool
  ctype : CType
  mapped : MappedType

/-- The calls of `_mam_get_int`, in their order. -/
def intEntries : List IntEntry :=
  [⟨true, .char, .char⟩,
   ⟨false, .unsignedChar, .uchar⟩,
   ⟨true, .short, .short⟩,
   ⟨false, .unsignedShort, .ushort⟩,
   ⟨true, .int, .int⟩,
   ⟨false, .unsignedInt, .uint⟩,
   ⟨true, .long, .long⟩,
   ⟨false, .unsignedLong, .ulong⟩,
   ⟨true, .longLong, .longlong⟩,
   ⟨false, .unsignedLongLong, .ulonglong⟩,
   ⟨false, .sizeT, .size⟩,
   ⟨true, .ssizeT, .ssize⟩,
   ⟨false, .voidPointer, .pointer⟩,
   ⟨true, .ptrdiffT, .ptrdiff⟩,
   ⟨false, .intptrT, .intptr⟩,
   ⟨true, .uintptrT, .uintptr⟩]

def fillInt (sizeof : DataModel) (typeMap : TypeMap) (entry : IntEntry) : Except MamError TypeMap := do
  let type ← getInt entry.sign (sizeof entry.ctype)
  return setType typeMap entry.mapped type

/-- `_mam_fill_host_type_map`, on a map that holds anything. -/
def fillHostTypeMap (sizeof : DataModel) (typeMap : TypeMap) : Except MamError TypeMap := do
  let typeMap ← intEntries.foldlM (fillInt sizeof) typeMap
  if sizeof .float ≠ 4 then .error .einval
  else
    let typeMap := setType typeMap .float .float32
    if sizeof .double ≠ 8 then .error .einval
    else
      let typeMap := setType typeMap .double .float64
      .ok (setType typeMap .half .float16)

/-- `mam_platform_create_host`; the bytes of `"host"` are 104, 111, 115 and 116. -/
def platformCreateHost (sizeof : DataModel) (littleEndian : Bool) (typeMap : TypeMap)
    (calloc ret : Bool) : Except MamError PlatformBlock :=
  if !ret then .error .einval
  else do
    let typeMap ← fillHostTypeMap sizeof typeMap
    platformBlockCreate calloc [104, 111, 115, 116] typeMap
      (if littleEndian then endianLittle else endianBig)

end Mam.CopyEngine
