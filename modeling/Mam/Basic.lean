/-! Machine types, return codes and faults shared by the allocator and the copy
engine. -/

namespace Mam

/-- `size_t`; an `ssize_t` is the same word read through `BitVec.toInt`. -/
abbrev SizeT := BitVec 64

/-- A `void *`, as the number it is. -/
abbrev Addr := BitVec 64

/-- The bytes of a C string before its terminator. -/
abbrev CString := List UInt8

/-- `mam_error_t`. -/
inductive MamError where
  | success
  | einval
  | enomem
  | efrozen
deriving DecidableEq, Repr

/-- The ways a call can fail to return at all. -/
inductive Fault where
  /-- A member of a NULL object is written. -/
  | nullDereference
  /-- A handle names no live object of the kind its tag announces. -/
  | danglingPointer
  /-- A type tag indexes outside `mam_data_type_size` and `mam_data_type_align`. -/
  | tagOutOfTable
  /-- A `while` loop never leaves. -/
  | endlessLoop
deriving DecidableEq, Repr

end Mam
