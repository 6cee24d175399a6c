import Mam.Basic
import Mam.Library.Linked
import Mathlib.Logic.Function.Basic

/-! The operations of `uthash.h` that the program uses, with `HASH_NONFATAL_OOM`: handles
threaded into bucket chains and into the list in application order, buckets that double,
and an insertion that is rolled back when the doubling finds no memory. An element and the
handle inside it go by one address; the `tbl` members all point at the one table, which
stands beside the head. -/

namespace Mam.Vendor

open Mam.Library

/-- The address of an element, and of its hash handle. -/
abbrev Ref := Nat

/-- A block that `uthash_malloc` returned. -/
abbrev Block := Nat

/-- The members of the hash handles in memory, each a map from the handles. `key` is the
bytes at the key pointer. -/
structure HashHandles where
  prev : Ref → Option Ref
  next : Ref → Option Ref
  hhPrev : Ref → Option Ref
  hhNext : Ref → Option Ref
  key : Ref → CString
  keylen : Ref → BitVec 32
  hashv : Ref → BitVec 32

/-- `UT_hash_bucket`. -/
structure HashBucket where
  hhHead : Option Ref
  count : BitVec 32
  expandMult : BitVec 32
deriving DecidableEq, Repr

/-- A bucket after `uthash_bzero`. -/
def HashBucket.zero : HashBucket := { hhHead := none, count := 0, expandMult := 0 }

/-- `UT_hash_table`, with the blocks that it and its buckets are in. -/
structure HashTable where
  self : Block
  bucketsAt : Block
  buckets : Nat → HashBucket
  numBuckets : BitVec 32
  log2NumBuckets : BitVec 32
  numItems : BitVec 32
  tail : Ref
  idealChainMaxlen : BitVec 32
  nonidealItems : BitVec 32
  ineffExpands : BitVec 32
  noexpand : Bool

/-- A head pointer with the table its handle points at; `none` is the NULL head. -/
abbrev HashRoot := Option (Ref × HashTable)

/-- The handles in memory, and one head. -/
structure HashState where
  handles : HashHandles
  root : HashRoot

/-- What an insertion leaves: whether it ran out of memory, and the blocks it obtained and
gave back. -/
structure HashAdded (α : Type) where
  oomed : Bool
  handles : HashHandles
  value : α
  obtained : List Block
  freed : List Block

/-- `uthash_malloc`: a block of so many bytes, or NULL. -/
abbrev UthashMalloc := SizeT → Option Block

/-- `HASH_TO_BKT`. -/
def hashToBkt (hashv numBkts : BitVec 32) : BitVec 32 := hashv &&& (numBkts - 1)

/-- The bytes that hashing a key of a length reads: lengths are cast to `unsigned`. -/
def keyBytes (keyptr : CString) (keylen : SizeT) : CString :=
  keyptr.take (keylen.setWidth 32).toNat

section Operations

variable (hashFunction : CString → BitVec 32) (malloc : UthashMalloc) (fuel : Nat)

/-- Whether an item has the key looked for: `HASH_FIND_IN_BKT` compares the hash value, the
length and, by `memcmp`, the bytes. -/
def HashHandles.hasKey (m : HashHandles) (keyptr : CString) (keylenIn : SizeT)
    (hashval : BitVec 32) (item : Ref) : Bool :=
  m.hashv item == hashval && (m.keylen item).setWidth 64 == keylenIn &&
    (m.key item).take keylenIn.toNat == keyptr.take keylenIn.toNat

/-- `HASH_FIND_IN_BKT`; `none` when the walk is not over within the fuel. -/
def hashFindInBkt (m : HashHandles) (bucket : HashBucket) (keyptr : CString) (keylenIn : SizeT)
    (hashval : BitVec 32) : Option (Option Ref) :=
  whileLoop (fun out => out.any fun item => !m.hasKey keyptr keylenIn hashval item)
    (fun out => out.bind m.hhNext) fuel bucket.hhHead

/-- `HASH_FIND`. -/
def hashFind (s : HashState) (keyptr : CString) (keylen : SizeT) : Option (Option Ref) :=
  match s.root with
  | none => some none
  | some (_, tbl) =>
    let hashv := hashFunction (keyBytes keyptr keylen)
    hashFindInBkt fuel s.handles (tbl.buckets (hashToBkt hashv tbl.numBuckets).toNat) keyptr keylen
      hashv

/-- `sizeof(UT_hash_table)`. -/
def sizeofHashTable : SizeT := 64

/-- `sizeof(struct UT_hash_bucket)`. -/
def sizeofHashBucket : SizeT := 16

/-- `HASH_INITIAL_NUM_BUCKETS`. -/
def hashInitialNumBuckets : BitVec 32 := 32

/-- `HASH_INITIAL_NUM_BUCKETS_LOG2`. -/
def hashInitialNumBucketsLog2 : BitVec 32 := 5

/-- `HASH_BKT_CAPACITY_THRESH`. -/
def hashBktCapacityThresh : BitVec 32 := 10

/-- `HASH_MAKE_TABLE`. -/
def hashMakeTable (m : HashHandles) (head : Ref) : HashAdded HashRoot :=
  match malloc sizeofHashTable with
  | none => { oomed := true, handles := m, value := none, obtained := [], freed := [] }
  | some self =>
    match malloc (hashInitialNumBuckets.setWidth 64 * sizeofHashBucket) with
    | none => { oomed := true, handles := m, value := none, obtained := [self], freed := [self] }
    | some bucketsAt =>
      { oomed := false
        handles := m
        value := some (head,
          { self := self, bucketsAt := bucketsAt, buckets := fun _ => HashBucket.zero,
            numBuckets := hashInitialNumBuckets, log2NumBuckets := hashInitialNumBucketsLog2,
            numItems := 0, tail := head, idealChainMaxlen := 0, nonidealItems := 0,
            ineffExpands := 0, noexpand := false })
        obtained := [self, bucketsAt]
        freed := [] }

/-- `HASH_APPEND_LIST`. -/
def hashAppendList (m : HashHandles) (tbl : HashTable) (add : Ref) : HashHandles × HashTable :=
  ({ m with
      next := Function.update (Function.update m.next add none) tbl.tail (some add)
      prev := Function.update m.prev add (some tbl.tail) },
    { tbl with tail := add })

/-- Put a handle in front of a chain that starts at `head`: the links that
`HASH_ADD_TO_BKT` and `HASH_EXPAND_BUCKETS` write. -/
def HashHandles.pushHh (m : HashHandles) (head : Option Ref) (item : Ref) : HashHandles :=
  let hhPrev := Function.update m.hhPrev item none
  { m with
    hhNext := Function.update m.hhNext item head
    hhPrev :=
      match head with
      | none => hhPrev
      | some first => Function.update hhPrev first (some item) }

/-- Where `HASH_EXPAND_BUCKETS` is while it moves the items: the handles, the new buckets,
the items found past the ideal chain length, and the item that is next in its old chain. -/
structure Rehash where
  handles : HashHandles
  newBuckets : Nat → HashBucket
  nonidealItems : BitVec 32
  thh : Option Ref

/-- A new bucket with one more item, and whether that item is past the ideal length. -/
def HashBucket.receive (bucket : HashBucket) (ideal : BitVec 32) (item : Ref) : HashBucket × Bool :=
  let count := bucket.count + 1
  let nonideal := decide (count > ideal)
  let expandMult :=
    if nonideal ∧ count > bucket.expandMult * ideal then bucket.expandMult + 1
    else bucket.expandMult
  ({ hhHead := some item, count := count, expandMult := expandMult }, nonideal)

/-- The body of the inner loop of `HASH_EXPAND_BUCKETS`. -/
def rehashItem (ideal numBuckets : BitVec 32) (r : Rehash) : Rehash :=
  match r.thh with
  | none => r
  | some thh =>
    let bkt := (hashToBkt (r.handles.hashv thh) (numBuckets * 2)).toNat
    let newbkt := r.newBuckets bkt
    let (received, nonideal) := newbkt.receive ideal thh
    { handles := r.handles.pushHh newbkt.hhHead thh
      newBuckets := Function.update r.newBuckets bkt received
      nonidealItems := if nonideal then r.nonidealItems + 1 else r.nonidealItems
      thh := r.handles.hhNext thh }

/-- The inner loop: every item of one old chain. -/
def rehashBucket (ideal : BitVec 32) (tbl : HashTable) (r : Rehash) (i : Nat) : Option Rehash :=
  whileLoop (fun r => r.thh.isSome) (rehashItem ideal tbl.numBuckets) fuel
    { r with thh := (tbl.buckets i).hhHead }

/-- `ceil(num_items / (2 * num_buckets))`, by a shift and a mask. -/
def HashTable.nextIdeal (tbl : HashTable) : BitVec 32 :=
  (tbl.numItems >>> (tbl.log2NumBuckets + 1)) +
    if tbl.numItems &&& (tbl.numBuckets * 2 - 1) ≠ 0 then 1 else 0

/-- The table that has the new buckets. -/
def HashTable.expanded (tbl : HashTable) (bucketsAt : Block) (r : Rehash) : HashTable :=
  let ineffExpands :=
    if r.nonidealItems > tbl.numItems >>> 1 then tbl.ineffExpands + 1 else 0
  { tbl with
    bucketsAt := bucketsAt
    buckets := r.newBuckets
    numBuckets := tbl.numBuckets * 2
    log2NumBuckets := tbl.log2NumBuckets + 1
    idealChainMaxlen := tbl.nextIdeal
    nonidealItems := r.nonidealItems
    ineffExpands := ineffExpands
    noexpand := if ineffExpands > 1 then true else tbl.noexpand }

/-- `HASH_EXPAND_BUCKETS`. -/
def hashExpandBuckets (m : HashHandles) (tbl : HashTable) : Option (HashAdded HashTable) :=
  match malloc (sizeofHashBucket * tbl.numBuckets.setWidth 64 * 2) with
  | none => some { oomed := true, handles := m, value := tbl, obtained := [], freed := [] }
  | some bucketsAt => do
    let r ← (List.range tbl.numBuckets.toNat).foldlM (rehashBucket fuel tbl.nextIdeal tbl)
      { handles := m, newBuckets := fun _ => HashBucket.zero, nonidealItems := 0, thh := none }
    return { oomed := false, handles := r.handles, value := tbl.expanded bucketsAt r,
             obtained := [bucketsAt], freed := [tbl.bucketsAt] }

/-- `HASH_DEL_IN_BKT`, on the bucket at an index. -/
def hashDelInBkt (m : HashHandles) (tbl : HashTable) (bkt : Nat) (del : Ref) :
    HashHandles × HashTable :=
  let bucket := tbl.buckets bkt
  let hhHead := if bucket.hhHead = some del then m.hhNext del else bucket.hhHead
  let m :=
    match m.hhPrev del with
    | none => m
    | some before => { m with hhNext := Function.update m.hhNext before (m.hhNext del) }
  let m :=
    match m.hhNext del with
    | none => m
    | some after => { m with hhPrev := Function.update m.hhPrev after (m.hhPrev del) }
  (m, { tbl with
        buckets := Function.update tbl.buckets bkt
          { bucket with hhHead := hhHead, count := bucket.count - 1 } })

/-- `HASH_ADD_TO_BKT`, on the bucket at an index. -/
def hashAddToBkt (m : HashHandles) (tbl : HashTable) (bkt : Nat) (add : Ref) :
    Option (HashAdded HashTable) :=
  let bucket := tbl.buckets bkt
  let count := bucket.count + 1
  let m := m.pushHh bucket.hhHead add
  let tbl :=
    { tbl with
      buckets := Function.update tbl.buckets bkt { bucket with hhHead := some add, count := count } }
  if count ≥ (bucket.expandMult + 1) * hashBktCapacityThresh ∧ !tbl.noexpand then do
    let grown ← hashExpandBuckets malloc fuel m tbl
    if grown.oomed then
      let (m, tbl) := hashDelInBkt grown.handles grown.value bkt add
      return { grown with handles := m, value := tbl }
    else return grown
  else some { oomed := false, handles := m, value := tbl, obtained := [], freed := [] }

/-- `HASH_ROLLBACK_BKT`. -/
def hashRollbackBkt (m : HashHandles) (tbl : HashTable) (item : Ref) : HashHandles × HashTable :=
  let bkt := (hashToBkt (m.hashv item) tbl.numBuckets).toNat
  let bucket := tbl.buckets bkt
  ({ m with
      hhNext := Function.update m.hhNext item none
      hhPrev := Function.update m.hhPrev item none },
    { tbl with buckets := Function.update tbl.buckets bkt { bucket with count := bucket.count + 1 } })

/-- What `HASH_DELETE_HH` leaves: the handles and the head, and the blocks it gave back. -/
structure HashDeleted where
  handles : HashHandles
  root : HashRoot
  freed : List Block

/-- `HASH_DELETE_HH`. A tail has a handle before it unless it is the only one. -/
def hashDeleteHh (m : HashHandles) (head : Ref) (tbl : HashTable) (del : Ref) : HashDeleted :=
  if m.prev del = none ∧ m.next del = none then
    { handles := m, root := none, freed := [tbl.bucketsAt, tbl.self] }
  else
    let tail := if del = tbl.tail then (m.prev del).getD tbl.tail else tbl.tail
    let (m, head) :=
      match m.prev del with
      | some before => ({ m with next := Function.update m.next before (m.next del) }, head)
      | none => (m, (m.next del).getD head)
    let m :=
      match m.next del with
      | some after => { m with prev := Function.update m.prev after (m.prev del) }
      | none => m
    let (m, tbl) :=
      hashDelInBkt m { tbl with tail := tail }
        (hashToBkt (m.hashv del) tbl.numBuckets).toNat del
    { handles := m, root := some (head, { tbl with numItems := tbl.numItems - 1 }), freed := [] }

/-- `HASH_ADD_TO_TABLE`, where the table was made. -/
def hashAddToTable (m : HashHandles) (head : Ref) (tbl : HashTable) (hashval : BitVec 32)
    (add : Ref) : Option (HashAdded HashRoot) := do
  let tbl := { tbl with numItems := tbl.numItems + 1 }
  let bkt := (hashToBkt hashval tbl.numBuckets).toNat
  let added ← hashAddToBkt malloc fuel m tbl bkt add
  if added.oomed then
    let (m, tbl) := hashRollbackBkt added.handles added.value add
    let deleted := hashDeleteHh m head tbl add
    return { oomed := true, handles := deleted.handles, value := deleted.root,
             obtained := added.obtained, freed := added.freed ++ deleted.freed }
  else
    return { oomed := false, handles := added.handles, value := some (head, added.value),
             obtained := added.obtained, freed := added.freed }

/-- `HASH_ADD_KEYPTR_BYHASHVALUE`; `oomed` when `uthash_nonfatal_oom` runs. -/
def hashAddKeyptrByhashvalue (s : HashState) (keyptr : CString) (keylenIn : SizeT)
    (hashval : BitVec 32) (add : Ref) : Option (HashAdded HashRoot) :=
  let m : HashHandles :=
    { s.handles with
      hashv := Function.update s.handles.hashv add hashval
      key := Function.update s.handles.key add keyptr
      keylen := Function.update s.handles.keylen add (keylenIn.setWidth 32) }
  match s.root with
  | none =>
    let m : HashHandles :=
      { m with next := Function.update m.next add none, prev := Function.update m.prev add none }
    let made := hashMakeTable malloc m add
    match made.value with
    | none => some made
    | some (head, tbl) => do
      let added ← hashAddToTable malloc fuel made.handles head tbl hashval add
      return { added with obtained := made.obtained ++ added.obtained
                          freed := made.freed ++ added.freed }
  | some (head, tbl) =>
    let (m, tbl) := hashAppendList m tbl add
    hashAddToTable malloc fuel m head tbl hashval add

/-- `HASH_ADD_KEYPTR`. -/
def hashAddKeyptr (s : HashState) (keyptr : CString) (keylenIn : SizeT) (add : Ref) :
    Option (HashAdded HashRoot) :=
  hashAddKeyptrByhashvalue malloc fuel s keyptr keylenIn (hashFunction (keyBytes keyptr keylenIn)) add

/-- `HASH_CLEAR`: the head, and the blocks given back. -/
def hashClear : HashRoot → HashRoot × List Block
  | none => (none, [])
  | some (_, tbl) => (none, [tbl.bucketsAt, tbl.self])

/-- `HASH_COUNT`. -/
def hashCount : HashRoot → BitVec 32
  | none => 0
  | some (_, tbl) => tbl.numItems

end Operations

end Mam.Vendor
