import Mam.Vendor.HashLookup

/-! `HASH_FSCK`, the integrity check that `HASH_DEBUG` compiles in, on sound tables. -/

namespace Mam.Vendor

open Mam.Library

variable {hashFunction : CString → BitVec 32} {head : Ref} {tbl : HashTable} {m : HashHandles}
variable {order : List Ref} {chains : Nat → List Ref} {s : HashState}
variable {next prev : Ref → Option Ref} {start : Option Ref} {items : List Ref}

/-- Where `HASH_FSCK` is on a list: the item, the one before, the items seen, and whether it
ran into `HASH_OOPS`. -/
structure FsckWalk where
  thh : Option Ref
  prev : Option Ref
  count : BitVec 32
  oops : Bool

/-- The body of the loop over one list: a link back that is not to the item before is wrong. -/
def FsckWalk.step (next prev : Ref → Option Ref) (w : FsckWalk) : FsckWalk :=
  match w.thh with
  | none => w
  | some thh =>
    if w.prev = prev thh then
      { thh := next thh, prev := some thh, count := w.count + 1, oops := false }
    else { w with oops := true }

/-- The loop over one list; `HASH_OOPS` exits. -/
def fsckWalk (next prev : Ref → Option Ref) (fuel : Nat) (start : Option Ref) : Option FsckWalk :=
  whileLoop (fun w => w.thh.isSome && !w.oops) (FsckWalk.step next prev) fuel
    { thh := start, prev := none, count := 0, oops := false }

/-- One bucket: its items are added to the count, unless something is wrong. -/
def fsckBucket (fuel : Nat) (m : HashHandles) (tbl : HashTable) (seen : BitVec 32 × Bool) (i : Nat) :
    Option (BitVec 32 × Bool) := do
  let walk ← fsckWalk m.hhNext m.hhPrev fuel (tbl.buckets i).hhHead
  return (seen.1 + walk.count, seen.2 && !walk.oops && (tbl.buckets i).count == walk.count)

/-- `HASH_FSCK`: whether no check fails; `none` when a walk is not over within the fuel. -/
def hashFsck (fuel : Nat) (s : HashState) : Option Bool :=
  match s.root with
  | none => some true
  | some (head, tbl) => do
    let buckets ← (List.range tbl.numBuckets.toNat).foldlM (fsckBucket fuel s.handles tbl) (0, true)
    let listed ← fsckWalk s.handles.next s.handles.prev fuel (some head)
    return buckets.2 && buckets.1 == tbl.numItems && !listed.oops && listed.count == tbl.numItems

/-- A walk along a doubly linked list counts it, and finds nothing wrong. -/
theorem fsckWalk_linked (linked : Linked next prev start items) {fuel : Nat}
    (enough : items.length < fuel) :
    fsckWalk next prev fuel start =
      some { thh := none, prev := items.getLast?, count := BitVec.ofNat 32 items.length,
             oops := false } := by
  let inv (seen rest : List Ref) (w : FsckWalk) : Prop :=
    Chain next w.thh rest ∧ BackLinked prev w.prev rest ∧ w.prev = seen.getLast? ∧
      w.count = BitVec.ofNat 32 seen.length ∧ w.oops = false
  have initial : inv [] items { thh := start, prev := none, count := 0, oops := false } :=
    ⟨linked.forward, linked.backward, rfl, rfl, rfl⟩
  have running : ∀ seen rest w, inv seen rest w → (w.thh.isSome && !w.oops) = !rest.isEmpty := by
    rintro seen rest w ⟨chain, _, _, _, fine⟩
    rw [chain.head, fine]
    cases rest <;> rfl
  have kept : ∀ seen item rest w, inv seen (item :: rest) w →
      inv (seen ++ [item]) rest (w.step next prev) := by
    rintro seen item rest w ⟨⟨cursor, onward⟩, ⟨back, backward⟩, _, counted, _⟩
    simp only [FsckWalk.step, cursor, back, if_true]
    refine ⟨onward, backward, by simp, ?_, rfl⟩
    rw [counted, List.length_append, BitVec.ofNat_add]
    rfl
  obtain ⟨result, stopped, final⟩ := whileLoop_visits inv running kept initial enough
  obtain ⟨thh, prev, count, oops⟩ := result
  obtain ⟨chain, _, before, counted, fine⟩ := final
  have ended : thh = none := chain
  simp only [List.nil_append] at before counted fine
  rw [ended, before, counted, fine] at stopped
  exact stopped

/-- The chains hold as many items as the list. -/
theorem Integrity.chainItems_perm (valid : Integrity hashFunction m head tbl order chains) :
    (chainItems tbl chains).Perm order := by
  refine (List.perm_ext_iff_of_nodup (valid.chained.chainItems_nodup tbl) valid.listed.nodup).mpr ?_
  intro h
  rw [valid.chained.mem_chainItems valid.doubled, valid.members]

theorem fsckBuckets_sound (valid : HashChains m tbl.buckets tbl.numBuckets chains) {fuel : Nat}
    (enough : ∀ j, (chains j).length < fuel) (indices : List Nat) (count : BitVec 32) :
    indices.foldlM (fsckBucket fuel m tbl) (count, true) =
      some (count + BitVec.ofNat 32 (indices.flatMap chains).length, true) := by
  induction indices generalizing count with
  | nil => simp
  | cons i indices ih =>
    have walked := fsckWalk_linked (valid.linked i) (enough i)
    have here : fsckBucket fuel m tbl (count, true) i =
        some (count + BitVec.ofNat 32 (chains i).length, true) := by
      simp [fsckBucket, walked, valid.counted i]
    rw [List.foldlM_cons, here]
    simp only [Option.bind_eq_bind, Option.bind_some, ih]
    rw [List.flatMap_cons, List.length_append, BitVec.ofNat_add, BitVec.add_assoc]

/-- `HASH_FSCK` finds nothing wrong with a sound table. -/
theorem hashFsck_sound (valid : s.Holds hashFunction order) {fuel : Nat}
    (enough : order.length < fuel) : hashFsck fuel s = some true := by
  cases root : s.root with
  | none => simp [hashFsck, root]
  | some rooted =>
    obtain ⟨head, tbl⟩ := rooted
    obtain ⟨chains, valid⟩ := valid.integrity root
    have shorter : ∀ j, (chains j).length < fuel := fun j =>
      Nat.lt_of_le_of_lt (valid.chain_length_le j) enough
    have counted : BitVec.ofNat 32 (chainItems tbl chains).length = tbl.numItems := by
      rw [valid.chainItems_perm.length_eq, valid.counted]
    have buckets : (List.range tbl.numBuckets.toNat).foldlM (fsckBucket fuel s.handles tbl) (0, true) =
        some (tbl.numItems, true) := by
      rw [fsckBuckets_sound valid.chained shorter, ← counted]
      exact congrArg (fun count => some (count, true)) (BitVec.zero_add _)
    simp only [hashFsck, root, buckets, fsckWalk_linked valid.listed enough, Option.bind_eq_bind,
      Option.bind_some, valid.counted]
    simp

end Mam.Vendor
