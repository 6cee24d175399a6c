import Mam.Vendor.HashIntegrity

/-! What a sound table answers to `HASH_FIND`. -/

namespace Mam.Vendor

open Mam.Library

variable {hashFunction : CString → BitVec 32} {m m' : HashHandles} {head h : Ref} {tbl : HashTable}
variable {order : List Ref} {chains : Nat → List Ref} {s : HashState}

/-- The bytes an item is known by: the first `keylen` ones at its key pointer. -/
def HashHandles.bytes (m : HashHandles) (h : Ref) : CString := (m.key h).take (m.keylen h).toNat

/-- What keeps a table sound: its chains hold what its list holds, each item in the bucket of
its hash value, and the counts and the tail are those of the list. -/
structure Integrity (hashFunction : CString → BitVec 32) (m : HashHandles) (head : Ref)
    (tbl : HashTable) (order : List Ref) (chains : Nat → List Ref) : Prop where
  chained : HashChains m tbl.buckets tbl.numBuckets chains
  members : ∀ h, h ∈ chains (m.bktOf tbl.numBuckets h) ↔ h ∈ order
  listed : Linked m.next m.prev (some head) order
  final : order.getLast? = some tbl.tail
  counted : tbl.numItems = BitVec.ofNat 32 order.length
  doubled : tbl.numBuckets.toNat = 2 ^ tbl.log2NumBuckets.toNat
  bounded : tbl.log2NumBuckets.toNat < 32
  hashed : ∀ h ∈ order, m.hashv h = hashFunction (m.bytes h)

/-- A head, sound, whose items are these in application order. -/
def HashState.Holds (hashFunction : CString → BitVec 32) (s : HashState) (order : List Ref) : Prop :=
  match s.root with
  | none => order = []
  | some (head, tbl) => ∃ chains, Integrity hashFunction s.handles head tbl order chains

theorem HashState.Holds.empty (valid : s.Holds hashFunction order) (root : s.root = none) :
    order = [] := by
  rw [HashState.Holds, root] at valid
  exact valid

theorem HashState.Holds.integrity (valid : s.Holds hashFunction order) (root : s.root = some (head, tbl)) :
    ∃ chains, Integrity hashFunction s.handles head tbl order chains := by
  rw [HashState.Holds, root] at valid
  exact valid

namespace Integrity

theorem mem_order (valid : Integrity hashFunction m head tbl order chains) {j : Nat}
    (member : h ∈ chains j) : h ∈ order :=
  (valid.members h).mp (valid.chained.mem_iff.mp ⟨j, member⟩)

theorem chain_length_le (valid : Integrity hashFunction m head tbl order chains) (j : Nat) :
    (chains j).length ≤ order.length :=
  (valid.chained.linked j).nodup.length_le_of_subset fun _ member => valid.mem_order member

theorem absent (valid : Integrity hashFunction m head tbl order chains) (fresh : h ∉ order) (j : Nat) :
    h ∉ chains j := fun member => fresh (valid.mem_order member)

/-- Handles that agree on the items have the same table. -/
theorem congr (valid : Integrity hashFunction m head tbl order chains)
    (same : ∀ h ∈ order, m'.prev h = m.prev h ∧ m'.next h = m.next h ∧ m'.hhPrev h = m.hhPrev h ∧
      m'.hhNext h = m.hhNext h ∧ m'.key h = m.key h ∧ m'.keylen h = m.keylen h ∧
      m'.hashv h = m.hashv h) : Integrity hashFunction m' head tbl order chains := by
  have chained : HashChains m' tbl.buckets tbl.numBuckets chains :=
    valid.chained.congr (fun j h member => (same h (valid.mem_order member)).2.2.2.1)
      (fun j h member => (same h (valid.mem_order member)).2.2.1)
      (fun j h member => (same h (valid.mem_order member)).2.2.2.2.2.2)
  refine ⟨chained, ?_, ?_, valid.final, valid.counted, valid.doubled, valid.bounded, ?_⟩
  · intro h
    constructor
    · intro member
      exact valid.mem_order member
    · intro member
      have there := (valid.members h).mpr member
      rwa [HashHandles.bktOf, (same h member).2.2.2.2.2.2]
  · exact valid.listed.congr (fun h member => (same h member).2.1) (fun h member => (same h member).1)
  · intro h member
    obtain ⟨_, _, _, _, key, keylen, hashv⟩ := same h member
    rw [hashv, HashHandles.bytes, key, keylen]
    exact valid.hashed h member

end Integrity

/-- An item has the key looked for: the length as `HASH_FIND` compares it, and the bytes. -/
def HashHandles.Matches (m : HashHandles) (keyptr : CString) (keylen : SizeT) (h : Ref) : Prop :=
  (m.keylen h).setWidth 64 = keylen ∧ (m.key h).take keylen.toNat = keyptr.take keylen.toNat

theorem matches_bytes {keyptr : CString} {keylen : SizeT} (same : m.Matches keyptr keylen h) :
    m.bytes h = keyBytes keyptr keylen := by
  obtain ⟨length, bytes⟩ := same
  have small := (m.keylen h).isLt
  have wide : keylen.toNat = (m.keylen h).toNat := by
    rw [← length, BitVec.toNat_setWidth, Nat.mod_eq_of_lt]
    exact Nat.lt_of_lt_of_le small (by decide)
  have narrow : (keylen.setWidth 32).toNat = keylen.toNat := by
    rw [BitVec.toNat_setWidth, Nat.mod_eq_of_lt]
    exact wide ▸ small
  rw [HashHandles.bytes, keyBytes, narrow, ← wide, bytes]

theorem hasKey_iff {keyptr : CString} {keylen : SizeT} {hashval : BitVec 32} :
    m.hasKey keyptr keylen hashval h = true ↔
      m.hashv h = hashval ∧ m.Matches keyptr keylen h := by
  simp [HashHandles.hasKey, HashHandles.Matches, and_assoc]

/-- `HASH_FIND` comes back, with an item of the key or, where none has it, with NULL. -/
theorem hashFind_spec (valid : s.Holds hashFunction order) {fuel : Nat}
    (enough : order.length < fuel) (keyptr : CString) (keylen : SizeT) :
    ∃ out, hashFind hashFunction fuel s keyptr keylen = some out ∧
      (∀ h, out = some h → h ∈ order ∧ s.handles.Matches keyptr keylen h) ∧
      (out = none → ∀ h ∈ order, ¬ s.handles.Matches keyptr keylen h) := by
  cases root : s.root with
  | none =>
    obtain rfl := valid.empty root
    exact ⟨none, by simp [hashFind, root], nofun, fun _ _ member => by cases member⟩
  | some rooted =>
    obtain ⟨head, tbl⟩ := rooted
    obtain ⟨chains, valid⟩ := valid.integrity root
    let hashv := hashFunction (keyBytes keyptr keylen)
    let bkt := (hashToBkt hashv tbl.numBuckets).toNat
    have walked := whileLoop_find (valid.chained.linked bkt).forward
      (s.handles.hasKey keyptr keylen hashv)
      (Nat.lt_of_le_of_lt (valid.chain_length_le bkt) enough)
    refine ⟨(chains bkt).find? (s.handles.hasKey keyptr keylen hashv), ?_, ?_, ?_⟩
    · simp only [hashFind, root]
      exact walked
    · intro h found
      have good := hasKey_iff.mp (List.find?_some found)
      exact ⟨valid.mem_order (List.mem_of_find?_eq_some found), good.2⟩
    · intro missing h member same
      -- The item was filed under the hash of the same bytes, so the walk came past it.
      have hash : s.handles.hashv h = hashv := by rw [valid.hashed h member, matches_bytes same]
      have there := (valid.members h).mpr member
      rw [HashHandles.bktOf, hash] at there
      have wrong := List.find?_eq_none.mp missing h there
      exact wrong (hasKey_iff.mpr ⟨hash, same⟩)

end Mam.Vendor
