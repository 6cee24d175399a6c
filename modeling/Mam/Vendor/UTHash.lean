import Mam.Basic

/-! The vendored hash table, as the finite map from byte strings it implements. An insertion
may report that it ran out of memory, and then leaves the table as it was. Buckets, chains and
growth are in `HashTable`; `HashRefinement` shows that they carry out this map. -/

namespace Mam.Vendor

/-- The entries of a table, in the order they were added. -/
structure UTHash (α : Type) where
  entries : List (CString × α)
deriving DecidableEq, Repr

namespace UTHash

variable {α : Type}

/-- The NULL head of a table nothing was added to. -/
def empty : UTHash α := { entries := [] }

/-- `HASH_FIND`. -/
def find (table : UTHash α) (key : CString) : Option α := table.entries.lookup key

/-- `HASH_ADD_KEYPTR`; `none` when `uthash_nonfatal_oom` runs. -/
def addKeyptr (table : UTHash α) (key : CString) (elem : α) (memory : Bool) : Option (UTHash α) :=
  if memory then some { entries := table.entries ++ [(key, elem)] } else none

end UTHash

end Mam.Vendor
