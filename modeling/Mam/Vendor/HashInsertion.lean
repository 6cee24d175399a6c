import Mam.Vendor.HashGrowth
import Mam.Vendor.HashLookup

/-! What `HASH_ADD_KEYPTR` does to a sound table: it files the element, or it puts
everything back. -/

namespace Mam.Vendor

open Mam.Library

variable {hashFunction : CString → BitVec 32} {malloc : UthashMalloc} {fuel : Nat}
variable {m m' : HashHandles} {head add h : Ref} {tbl tbl' : HashTable}
variable {order : List Ref} {chains : Nat → List Ref} {s : HashState}

/-- The memory is below 64 GiB, so that no bucket array reaches 2^32 buckets. -/
def Limited (malloc : UthashMalloc) : Prop := ∀ bytes : SizeT, 2 ^ 36 ≤ bytes.toNat → malloc bytes = none

/-- Handles that agree at an address. -/
structure SameAt (m m' : HashHandles) (h : Ref) : Prop where
  prev : m'.prev h = m.prev h
  next : m'.next h = m.next h
  hhPrev : m'.hhPrev h = m.hhPrev h
  hhNext : m'.hhNext h = m.hhNext h
  key : m'.key h = m.key h
  keylen : m'.keylen h = m.keylen h
  hashv : m'.hashv h = m.hashv h

theorem SameAt.trans {m'' : HashHandles} (first : SameAt m m' h) (second : SameAt m' m'' h) :
    SameAt m m'' h :=
  ⟨second.prev.trans first.prev, second.next.trans first.next, second.hhPrev.trans first.hhPrev,
    second.hhNext.trans first.hhNext, second.key.trans first.key,
    second.keylen.trans first.keylen, second.hashv.trans first.hashv⟩

/-- The table has the same members as before, and this one more, in chains of its own. -/
structure Filed (m m' : HashHandles) (tbl tbl' : HashTable) (add : Ref)
    (chains chains' : Nat → List Ref) : Prop where
  chained : HashChains m' tbl'.buckets tbl'.numBuckets chains'
  members : ∀ h, h ∈ chains' (m'.bktOf tbl'.numBuckets h) ↔
    h = add ∨ h ∈ chains (m.bktOf tbl.numBuckets h)
  order : SameOrder m m'
  elsewhere : ∀ h, h ≠ add → (∀ j, h ∉ chains j) → SameAt m m' h
  tail : tbl'.tail = tbl.tail
  numItems : tbl'.numItems = tbl.numItems
  self : tbl'.self = tbl.self
  doubled : tbl'.numBuckets.toNat = 2 ^ tbl'.log2NumBuckets.toNat
  bounded : tbl'.log2NumBuckets.toNat < 32
  grown : Kept tbl tbl' ∨ ∀ items : List Ref,
    (∀ h, h = add ∨ h ∈ chains (m.bktOf tbl.numBuckets h) → h ∈ items) → items.length < 2 ^ 32 →
      Doubled tbl tbl'

section Expansion

/-- The request for twice the buckets, in bytes. -/
theorem expansion_bytes {n : BitVec 32} {log : Nat} (doubled : n.toNat = 2 ^ log) (bounded : log < 32) :
    (sizeofHashBucket * n.setWidth 64 * 2).toNat = 2 ^ (log + 5) := by
  have below : 2 ^ (log + 5) ≤ 2 ^ 36 := Nat.pow_le_pow_right (by omega) (by omega)
  have wide : (n.setWidth 64).toNat = 2 ^ log := by
    rw [BitVec.toNat_setWidth, Nat.mod_eq_of_lt, doubled]
    exact Nat.lt_of_lt_of_le n.isLt (by decide)
  have whole : 16 * 2 ^ log * 2 = 2 ^ (log + 5) := by
    rw [Nat.pow_add]
    omega
  rw [BitVec.toNat_mul, BitVec.toNat_mul, wide]
  have sixteen : sizeofHashBucket.toNat = 16 := rfl
  have two : (2 : BitVec 64).toNat = 2 := rfl
  rw [sixteen, two, Nat.mod_eq_of_lt (a := 16 * 2 ^ log) (by omega), Nat.mod_eq_of_lt (by omega), whole]

/-- Where there is memory for it, an expansion ends. -/
theorem hashExpandBuckets_some (valid : HashChains m tbl.buckets tbl.numBuckets chains)
    (enough : ∀ j, (chains j).length < fuel) {bucketsAt : Block}
    (given : malloc (sizeofHashBucket * tbl.numBuckets.setWidth 64 * 2) = some bucketsAt) :
    ∃ r, hashExpandBuckets malloc fuel m tbl =
        some { oomed := false, handles := r.handles, value := tbl.expanded bucketsAt r,
               obtained := [bucketsAt], freed := [tbl.bucketsAt] } ∧
      Moved m (tbl.numBuckets * 2) tbl.nextIdeal (chainItems tbl chains) r := by
  have apart : ([] ++ (List.range tbl.numBuckets.toNat).flatMap chains).Nodup :=
    valid.chainItems_nodup tbl
  obtain ⟨r, finished, moved⟩ := (moved_none m (tbl.numBuckets * 2) tbl.nextIdeal).all tbl.nextIdeal
    (fun i => (valid.linked i).forward) apart enough
  refine ⟨r, ?_, moved⟩
  simp only [hashExpandBuckets, given, finished]
  rfl

/-- An expansion keeps the members. -/
theorem Filed.expanded (filed : Filed m m' tbl tbl' add chains chains') {bucketsAt : Block}
    {r : Rehash} (moved : Moved m' (tbl'.numBuckets * 2) tbl'.nextIdeal (chainItems tbl' chains') r)
    (room : tbl'.log2NumBuckets.toNat < 31) (kept : Kept tbl tbl') (allowed : tbl.noexpand = false) :
    Filed m r.handles tbl (tbl'.expanded bucketsAt r) add chains
      (splitChains m' (tbl'.numBuckets * 2) (chainItems tbl' chains')) := by
  have items : ∀ h, h ∈ chainItems tbl' chains' ↔
      h = add ∨ h ∈ chains (m.bktOf tbl.numBuckets h) := fun h =>
    (filed.chained.mem_chainItems filed.doubled).trans (filed.members h)
  have log : (tbl'.log2NumBuckets + 1).toNat = tbl'.log2NumBuckets.toNat + 1 := by
    rw [BitVec.toNat_add]
    exact Nat.mod_eq_of_lt (by simp; omega)
  refine ⟨moved.chained, ?_, filed.order.trans moved.order, ?_, filed.tail, filed.numItems,
    filed.self, ?_, ?_, .inr ?_⟩
  · intro h
    have placed : r.handles.bktOf (tbl'.expanded bucketsAt r).numBuckets h =
        m'.bktOf (tbl'.numBuckets * 2) h := by
      rw [moved.order.bktOf]
      rfl
    rw [placed, mem_splitChains, items]
    exact and_iff_left rfl
  · intro h other outside
    have unseen : h ∉ chainItems tbl' chains' := by
      rw [items]
      rintro (same | member)
      · exact other same
      · exact outside _ member
    have order := moved.order
    exact (filed.elsewhere h other outside).trans
      ⟨by rw [order.prev], by rw [order.next], moved.elsewhere h unseen, moved.untouched h unseen,
        by rw [order.key], by rw [order.keylen], by rw [order.hashv]⟩
  · change (tbl'.numBuckets * 2).toNat = 2 ^ (tbl'.log2NumBuckets + 1).toNat
    rw [doubled_toNat filed.doubled room, log]
  · change (tbl'.log2NumBuckets + 1).toNat < 32
    omega
  · intro all whole few
    have fewer : (chainItems tbl' chains').length ≤ all.length :=
      (filed.chained.chainItems_nodup tbl').length_le_of_subset fun h member =>
        whole h ((items h).mp member)
    exact moved.doubled kept allowed filed.doubled room (Nat.lt_of_le_of_lt fewer few) bucketsAt

end Expansion

section Bucket

/-- The table with an element counted into its bucket, in front. -/
def HashTable.withFront (tbl : HashTable) (bkt : Nat) (add : Ref) : HashTable :=
  { tbl with
    buckets := Function.update tbl.buckets bkt
      { tbl.buckets bkt with hhHead := some add, count := (tbl.buckets bkt).count + 1 } }

/-- Before any expansion. -/
theorem filed_front (valid : HashChains m tbl.buckets tbl.numBuckets chains)
    (fresh : ∀ j, add ∉ chains j) (doubled : tbl.numBuckets.toNat = 2 ^ tbl.log2NumBuckets.toNat)
    (bounded : tbl.log2NumBuckets.toNat < 32) {bkt : Nat} (placed : m.bktOf tbl.numBuckets add = bkt) :
    Filed m (m.pushHh (tbl.buckets bkt).hhHead add) tbl (tbl.withFront bkt add) add chains
      (Function.update chains bkt (add :: chains bkt)) := by
  subst placed
  have pushed := valid.push fresh
    { tbl.buckets (m.bktOf tbl.numBuckets add) with
      hhHead := some add, count := (tbl.buckets (m.bktOf tbl.numBuckets add)).count + 1 } rfl rfl
  refine ⟨pushed, ?_, (SameOrder.refl m).pushHh _ _, ?_, rfl, rfl, rfl, doubled, bounded,
    .inl ⟨rfl, rfl, rfl, rfl, rfl⟩⟩
  · intro h
    change h ∈ Function.update chains _ _ (m.bktOf tbl.numBuckets h) ↔ _
    rw [mem_update_cons]
    constructor
    · rintro (⟨_, same⟩ | member)
      · exact .inl same
      · exact .inr member
    · rintro (same | member)
      · exact .inl ⟨by rw [same], same⟩
      · exact .inr member
  · intro h other outside
    refine ⟨rfl, rfl, ?_, ?_, rfl, rfl, rfl⟩
    · rw [pushHh_hhPrev, if_neg, if_neg other]
      intro same
      have first := (valid.linked (m.bktOf tbl.numBuckets add)).forward.head
      rw [same] at first
      exact outside _ (List.mem_of_head? first.symm)
    · rw [pushHh_hhNext, if_neg other]

/-- Deleting from the bucket what was just put in front of it restores the bucket, and every
link but those of the element. -/
theorem hashDelInBkt_front (valid : HashChains m tbl.buckets tbl.numBuckets chains)
    (fresh : ∀ j, add ∉ chains j) (bkt : Nat) :
    (hashDelInBkt (m.pushHh (tbl.buckets bkt).hhHead add) (tbl.withFront bkt add) bkt add).2 = tbl ∧
      SameOrder m
        (hashDelInBkt (m.pushHh (tbl.buckets bkt).hhHead add) (tbl.withFront bkt add) bkt add).1 ∧
      ∀ h, h ≠ add → SameAt m
        (hashDelInBkt (m.pushHh (tbl.buckets bkt).hhHead add) (tbl.withFront bkt add) bkt add).1 h := by
  have linked := valid.linked bkt
  have apart : (tbl.buckets bkt).hhHead ≠ some add := by
    intro same
    have first := linked.forward.head
    rw [same] at first
    exact fresh bkt (List.mem_of_head? first.symm)
  have unlinked : (m.pushHh (tbl.buckets bkt).hhHead add).hhPrev add = none := by
    rw [pushHh_hhPrev, if_neg apart, if_pos rfl]
  refine ⟨?_, ?_, ?_⟩
  · simp only [hashDelInBkt, HashTable.withFront, Function.update_self, if_true, pushHh_hhNext,
      Function.update_idem, BitVec.add_sub_cancel]
    simp
  · simp only [hashDelInBkt, unlinked]
    cases (m.pushHh (tbl.buckets bkt).hhHead add).hhNext add <;> exact ⟨rfl, rfl, rfl, rfl, rfl⟩
  · intro h other
    simp only [hashDelInBkt, unlinked, pushHh_hhNext, if_true]
    cases start : (tbl.buckets bkt).hhHead with
    | none => exact ⟨rfl, rfl, by simp [pushHh_hhPrev, other], by simp [other], rfl, rfl, rfl⟩
    | some first =>
      refine ⟨rfl, rfl, ?_, by simp [other], rfl, rfl, rfl⟩
      by_cases second : h = first
      · subst second
        -- The old front pointed back at nothing, and does so again.
        have back : m.hhPrev h = none := by
          have forward := linked.forward
          rw [start] at forward
          cases chain : chains bkt with
          | nil =>
            rw [chain] at forward
            exact nomatch (forward : some h = none)
          | cons front rest =>
            have backward := linked.backward
            rw [chain] at forward backward
            rw [Option.some.inj forward.1]
            exact backward.1
        simp [back]
      · simp [Function.update_of_ne second, pushHh_hhPrev, other, Ne.symm second]

/-- One more item brings a bucket to its threshold, in a table that still expands. -/
def HashTable.Overfull (tbl : HashTable) (bkt : Nat) : Prop :=
  (tbl.buckets bkt).count + 1 ≥ ((tbl.buckets bkt).expandMult + 1) * hashBktCapacityThresh ∧
    !tbl.noexpand

theorem hashAddToBkt_overfull {bkt : Nat} (overfull : tbl.Overfull bkt) :
    hashAddToBkt malloc fuel m tbl bkt add =
      (hashExpandBuckets malloc fuel (m.pushHh (tbl.buckets bkt).hhHead add)
        (tbl.withFront bkt add)).bind fun grown =>
          if grown.oomed then
            some { grown with
                    handles := (hashDelInBkt grown.handles grown.value bkt add).1
                    value := (hashDelInBkt grown.handles grown.value bkt add).2 }
          else some grown := by
  unfold HashTable.Overfull at overfull
  simp only [hashAddToBkt, overfull, and_self, if_true]
  rfl

theorem hashAddToBkt_room {bkt : Nat} (room : ¬ tbl.Overfull bkt) :
    hashAddToBkt malloc fuel m tbl bkt add =
      some { oomed := false, handles := m.pushHh (tbl.buckets bkt).hhHead add,
             value := tbl.withFront bkt add, obtained := [], freed := [] } := by
  unfold HashTable.Overfull at room
  simp only [hashAddToBkt, room, if_false]
  rfl

/-- `HASH_ADD_TO_BKT` files the element, or leaves the bucket as it was. -/
theorem hashAddToBkt_spec (valid : HashChains m tbl.buckets tbl.numBuckets chains)
    (fresh : ∀ j, add ∉ chains j) (doubled : tbl.numBuckets.toNat = 2 ^ tbl.log2NumBuckets.toNat)
    (bounded : tbl.log2NumBuckets.toNat < 32) (enough : ∀ j, (chains j).length + 1 < fuel)
    (limited : Limited malloc) {bkt : Nat} (placed : m.bktOf tbl.numBuckets add = bkt) :
    ∃ added, hashAddToBkt malloc fuel m tbl bkt add = some added ∧
      ((added.oomed = true ∧ added.value = tbl ∧ SameOrder m added.handles ∧
          (∀ h, h ≠ add → SameAt m added.handles h) ∧ added.obtained = [] ∧ added.freed = []) ∨
        (added.oomed = false ∧
          (added.obtained ++ [tbl.bucketsAt]).Perm (added.freed ++ [added.value.bucketsAt]) ∧
          ∃ chains', Filed m added.handles tbl added.value add chains chains')) := by
  have front := filed_front valid fresh doubled bounded placed
  by_cases overfull : tbl.Overfull bkt
  · rw [hashAddToBkt_overfull overfull]
    cases given : malloc (sizeofHashBucket * (tbl.withFront bkt add).numBuckets.setWidth 64 * 2) with
    | none =>
      obtain ⟨table, order, handles⟩ := hashDelInBkt_front valid fresh bkt
      let deleted :=
        hashDelInBkt (m.pushHh (tbl.buckets bkt).hhHead add) (tbl.withFront bkt add) bkt add
      refine ⟨{ oomed := true, handles := deleted.1, value := deleted.2, obtained := [], freed := [] },
        ?_, .inl ⟨rfl, table, order, handles, rfl, rfl⟩⟩
      simp only [hashExpandBuckets, given]
      rfl
    | some bucketsAt =>
      have longer : ∀ j, (Function.update chains bkt (add :: chains bkt) j).length < fuel := by
        intro j
        by_cases here : j = bkt
        · subst here
          simpa using enough j
        · rw [Function.update_of_ne here]
          exact Nat.lt_of_succ_lt (enough j)
      obtain ⟨r, finished, moved⟩ := hashExpandBuckets_some front.chained longer given
      have room : (tbl.withFront bkt add).log2NumBuckets.toNat < 31 := by
        by_contra large
        have bytes := expansion_bytes doubled bounded
        have top : tbl.log2NumBuckets.toNat = 31 := by
          change ¬ tbl.log2NumBuckets.toNat < 31 at large
          omega
        rw [top] at bytes
        have refused := limited _ (Nat.le_of_eq bytes.symm)
        exact nomatch given.symm.trans refused
      refine ⟨{ oomed := false, handles := r.handles,
                value := (tbl.withFront bkt add).expanded bucketsAt r,
                obtained := [bucketsAt], freed := [tbl.bucketsAt] },
        ?_, .inr ⟨rfl, List.perm_append_comm, _,
          front.expanded moved room ⟨rfl, rfl, rfl, rfl, rfl⟩ (by simpa using overfull.2)⟩⟩
      rw [finished]
      rfl
  · exact ⟨_, hashAddToBkt_room overfull, .inr ⟨rfl, .refl _, _, front⟩⟩

end Bucket

section Undone

/-- Deleting the last of several items, when no chain holds it any more. -/
theorem hashDeleteHh_last {before : Ref} (prev : m.prev add = some before) (next : m.next add = none)
    (tail : tbl.tail = add) (hhPrev : m.hhPrev add = none) (hhNext : m.hhNext add = none)
    (unfiled : (tbl.buckets (m.bktOf tbl.numBuckets add)).hhHead ≠ some add) :
    hashDeleteHh m head tbl add =
      { handles := { m with next := Function.update m.next before none }
        root := some (head,
          { tbl with
            tail := before, numItems := tbl.numItems - 1
            buckets := Function.update tbl.buckets (m.bktOf tbl.numBuckets add)
              { tbl.buckets (m.bktOf tbl.numBuckets add) with
                count := (tbl.buckets (m.bktOf tbl.numBuckets add)).count - 1 } })
        freed := [] } := by
  have still : Function.update m.next before none add = none := by
    rw [Function.update_apply, next, ite_self]
  simp only [HashHandles.bktOf] at unfiled
  simp [hashDeleteHh, hashDelInBkt, HashHandles.bktOf, prev, next, still, tail, hhPrev, hhNext,
    unfiled]

/-- Deleting the only item. -/
theorem hashDeleteHh_only (prev : m.prev add = none) (next : m.next add = none) :
    hashDeleteHh m head tbl add =
      { handles := m, root := none, freed := [tbl.bucketsAt, tbl.self] } := by
  simp [hashDeleteHh, prev, next]

end Undone

/-- The blocks that a table is in. -/
def hashBlocks : HashRoot → List Block
  | none => []
  | some (_, tbl) => [tbl.bucketsAt, tbl.self]

/-- Blocks obtained and given back, against those that a table is in before and after. -/
def HashAdded.Balances (added : HashAdded HashRoot) (before : HashRoot) : Prop :=
  (added.obtained ++ hashBlocks before).Perm (added.freed ++ hashBlocks added.value)

section Table

/-- The handle of a new element, with its key. -/
def HashHandles.withKey (m : HashHandles) (add : Ref) (keyptr : CString) (keylenIn : SizeT)
    (hashval : BitVec 32) : HashHandles :=
  { m with
    hashv := Function.update m.hashv add hashval
    key := Function.update m.key add keyptr
    keylen := Function.update m.keylen add (keylenIn.setWidth 32) }

variable {keyptr : CString} {keylenIn : SizeT} {hashval : BitVec 32}

theorem withKey_same (other : h ≠ add) : SameAt m (m.withKey add keyptr keylenIn hashval) h := by
  refine ⟨rfl, rfl, rfl, rfl, ?_, ?_, ?_⟩ <;> exact Function.update_of_ne other _ _

/-- What an insertion that files the element leaves. -/
theorem Integrity.filed (valid : Integrity hashFunction m head tbl order chains)
    (fresh : add ∉ order) (hashes : hashval = hashFunction (keyBytes keyptr keylenIn))
    {chains' : Nat → List Ref} {numItems : BitVec 32} (more : numItems = tbl.numItems + 1)
    (filed : Filed (hashAppendList (m.withKey add keyptr keylenIn hashval) tbl add).1 m'
      { (hashAppendList (m.withKey add keyptr keylenIn hashval) tbl add).2 with numItems := numItems }
      tbl' add chains chains') :
    Integrity hashFunction m' head tbl' (order ++ [add]) chains' := by
  have member_ne : ∀ h ∈ order, h ≠ add := fun h member same => fresh (same ▸ member)
  have tail_ne : tbl.tail ≠ add := member_ne _ (List.mem_of_getLast? valid.final)
  have next : ∀ h, m'.next h =
      if h = tbl.tail then some add else if h = add then none else m.next h := by
    intro h
    rw [filed.order.next]
    simp [hashAppendList, HashHandles.withKey, Function.update_apply]
  have prev : ∀ h, m'.prev h = if h = add then some tbl.tail else m.prev h := by
    intro h
    rw [filed.order.prev]
    simp [hashAppendList, HashHandles.withKey, Function.update_apply]
  have hashv : ∀ h, m'.hashv h = if h = add then hashval else m.hashv h := by
    intro h
    rw [filed.order.hashv]
    simp [hashAppendList, HashHandles.withKey, Function.update_apply]
  have bytes : ∀ h, m'.bytes h = if h = add then keyBytes keyptr keylenIn else m.bytes h := by
    intro h
    rw [HashHandles.bytes, filed.order.key, filed.order.keylen]
    by_cases here : h = add
    · simp [hashAppendList, HashHandles.withKey, keyBytes, here]
    · simp [hashAppendList, HashHandles.withKey, HashHandles.bytes, here]
  refine ⟨filed.chained, ?_, ?_, ?_, ?_, filed.doubled, filed.bounded, ?_⟩
  · intro h
    rw [filed.members, List.mem_append, List.mem_singleton, or_comm]
    by_cases here : h = add
    · simp [here]
    · have placed : (hashAppendList (m.withKey add keyptr keylenIn hashval) tbl add).1.bktOf
          tbl.numBuckets h = m.bktOf tbl.numBuckets h := by
        simp [HashHandles.bktOf, hashAppendList, HashHandles.withKey, here]
      exact or_congr_left (by rw [← valid.members, ← placed]; rfl)
  · refine valid.listed.snoc valid.final ?_ ?_ ?_ ?_ ?_
    · intro other member different
      rw [next, if_neg different, if_neg (member_ne other member)]
    · rw [next, if_pos rfl]
    · rw [next, if_neg (Ne.symm tail_ne), if_pos rfl]
    · intro other member
      rw [prev, if_neg (member_ne other member)]
    · rw [prev, if_pos rfl]
  · rw [filed.tail, List.getLast?_concat]
    rfl
  · rw [filed.numItems, List.length_append, BitVec.ofNat_add, ← valid.counted]
    exact more
  · intro h member
    rw [hashv, bytes]
    rcases List.mem_append.mp member with old | new
    · rw [if_neg (member_ne h old), if_neg (member_ne h old)]
      exact valid.hashed h old
    · have here := List.mem_singleton.mp new
      rw [if_pos here, if_pos here, hashes]

/-- The table with one more item counted. -/
def HashTable.counting (tbl : HashTable) : HashTable := { tbl with numItems := tbl.numItems + 1 }

/-- How an insertion that failed is undone. -/
def undone (m : HashHandles) (head : Ref) (tbl : HashTable) (add : Ref) : HashAdded HashRoot :=
  let rolled := hashRollbackBkt m tbl add
  let deleted := hashDeleteHh rolled.1 head rolled.2 add
  { oomed := true, handles := deleted.handles, value := deleted.root, obtained := [],
    freed := deleted.freed }

theorem hashAddToTable_bind : hashAddToTable malloc fuel m head tbl hashval add =
    (hashAddToBkt malloc fuel m tbl.counting (hashToBkt hashval tbl.numBuckets).toNat add).bind
      fun added =>
        if added.oomed then
          let undone := undone added.handles head added.value add
          some { undone with obtained := added.obtained, freed := added.freed ++ undone.freed }
        else
          some { oomed := false, handles := added.handles, value := some (head, added.value),
                 obtained := added.obtained, freed := added.freed } := rfl

/-- `HASH_ADD_TO_TABLE` files the element, or deletes it from a table that has it in the
list alone. -/
theorem hashAddToTable_spec (head : Ref) (valid : HashChains m tbl.buckets tbl.numBuckets chains)
    (fresh : ∀ j, add ∉ chains j) (doubled : tbl.numBuckets.toNat = 2 ^ tbl.log2NumBuckets.toNat)
    (bounded : tbl.log2NumBuckets.toNat < 32) (enough : ∀ j, (chains j).length + 1 < fuel)
    (limited : Limited malloc) (hash : m.hashv add = hashval) :
    (∃ m', SameOrder m m' ∧ (∀ h, h ≠ add → SameAt m m' h) ∧
        hashAddToTable malloc fuel m head tbl hashval add = some (undone m' head tbl.counting add)) ∨
      ∃ added tbl' chains', hashAddToTable malloc fuel m head tbl hashval add = some added ∧
        added.oomed = false ∧ added.value = some (head, tbl') ∧
        (added.obtained ++ [tbl.bucketsAt]).Perm (added.freed ++ [tbl'.bucketsAt]) ∧
        Filed m added.handles tbl.counting tbl' add chains chains' := by
  have counting : HashChains m tbl.counting.buckets tbl.counting.numBuckets chains := valid
  have placed : m.bktOf tbl.counting.numBuckets add = (hashToBkt hashval tbl.numBuckets).toNat := by
    rw [HashHandles.bktOf, hash]
    rfl
  obtain ⟨filed, body, outcome⟩ :=
    hashAddToBkt_spec counting fresh doubled bounded enough limited placed
  rw [hashAddToTable_bind, body]
  rcases outcome with ⟨oomed, table, order, handles, obtained, freed⟩ | ⟨stored, balance, chains', after⟩
  · refine .inl ⟨filed.handles, order, handles, ?_⟩
    simp [oomed, table, obtained, freed]
    rfl
  · refine .inr ⟨{ oomed := false, handles := filed.handles, value := some (head, filed.value),
                   obtained := filed.obtained, freed := filed.freed }, filed.value, chains', ?_, rfl,
      rfl, balance, after⟩
    simp [stored]

/-- Undoing the insertion of the last item restores the table, and every handle but its own. -/
theorem undone_last (head : Ref) (valid : HashChains m tbl.buckets tbl.numBuckets chains)
    (fresh : ∀ j, add ∉ chains j) {before : Ref} (prev : m.prev add = some before)
    (next : m.next add = none) (tail : tbl.tail = add) :
    (undone m head tbl.counting add).value = some (head, { tbl with tail := before }) ∧
      (undone m head tbl.counting add).freed = [] ∧
      ∀ h, h ≠ add → SameAt { m with next := Function.update m.next before none }
        (undone m head tbl.counting add).handles h := by
  let bkt := m.bktOf tbl.numBuckets add
  let rolled := hashRollbackBkt m tbl.counting add
  have unfiled : (rolled.2.buckets (rolled.1.bktOf rolled.2.numBuckets add)).hhHead ≠ some add := by
    have head : (rolled.2.buckets (rolled.1.bktOf rolled.2.numBuckets add)).hhHead =
        (tbl.buckets bkt).hhHead := by
      simp [rolled, hashRollbackBkt, HashTable.counting, HashHandles.bktOf, bkt]
    rw [head]
    intro same
    have first := (valid.linked bkt).forward.head
    rw [same] at first
    exact fresh bkt (List.mem_of_head? first.symm)
  have deleted : hashDeleteHh rolled.1 head rolled.2 add = _ := hashDeleteHh_last prev next tail
    (by simp [rolled, hashRollbackBkt]) (by simp [rolled, hashRollbackBkt]) unfiled
  have same : undone m head tbl.counting add =
      { oomed := true, handles := (hashDeleteHh rolled.1 head rolled.2 add).handles
        value := (hashDeleteHh rolled.1 head rolled.2 add).root, obtained := []
        freed := (hashDeleteHh rolled.1 head rolled.2 add).freed } := rfl
  rw [same, deleted]
  refine ⟨?_, rfl, ?_⟩
  · simp only [rolled, hashRollbackBkt, HashTable.counting, HashHandles.bktOf, Function.update_idem,
      Function.update_self, BitVec.add_sub_cancel, Function.update_eq_self]
  · intro h other
    exact ⟨rfl, rfl, Function.update_of_ne other _ _, Function.update_of_ne other _ _, rfl, rfl, rfl⟩

/-- A new table, before its first item is filed. -/
def HashTable.fresh (self bucketsAt : Block) (add : Ref) : HashTable :=
  { self := self, bucketsAt := bucketsAt, buckets := fun _ => HashBucket.zero,
    numBuckets := hashInitialNumBuckets, log2NumBuckets := hashInitialNumBucketsLog2, numItems := 0,
    tail := add, idealChainMaxlen := 0, nonidealItems := 0, ineffExpands := 0, noexpand := false }

/-- The handle of the first element, with its key. -/
def HashHandles.withFirstKey (m : HashHandles) (add : Ref) (keyptr : CString) (keylenIn : SizeT)
    (hashval : BitVec 32) : HashHandles :=
  { m.withKey add keyptr keylenIn hashval with
    next := Function.update m.next add none, prev := Function.update m.prev add none }

theorem withFirstKey_same (other : h ≠ add) :
    SameAt m (m.withFirstKey add keyptr keylenIn hashval) h := by
  refine ⟨?_, ?_, rfl, rfl, ?_, ?_, ?_⟩ <;> exact Function.update_of_ne other _ _

/-- What the insertion of a first element leaves. -/
theorem Integrity.first {self bucketsAt : Block} (hashes : hashval = hashFunction (keyBytes keyptr keylenIn))
    {chains' : Nat → List Ref}
    (filed : Filed (m.withFirstKey add keyptr keylenIn hashval) m'
      (HashTable.fresh self bucketsAt add).counting tbl' add (fun _ => []) chains') :
    Integrity hashFunction m' add tbl' [add] chains' := by
  have hashv : m'.hashv add = hashval := by
    rw [filed.order.hashv]
    exact Function.update_self _ _ _
  have bytes : m'.bytes add = keyBytes keyptr keylenIn := by
    rw [HashHandles.bytes, filed.order.key, filed.order.keylen]
    simp [HashHandles.withFirstKey, HashHandles.withKey, keyBytes]
  refine ⟨filed.chained, ?_, ⟨⟨rfl, ?_⟩, ?_, trivial⟩, ?_, ?_, filed.doubled, filed.bounded, ?_⟩
  · intro h
    rw [filed.members]
    simp
  · rw [filed.order.next]
    exact Function.update_self _ _ _
  · rw [filed.order.prev]
    exact Function.update_self _ _ _
  · rw [filed.tail]
    rfl
  · rw [filed.numItems]
    rfl
  · intro h member
    rw [List.mem_singleton.mp member, hashv, bytes, hashes]

end Table

section Insertion

variable {keyptr : CString} {keylenIn : SizeT} {hashval : BitVec 32}

/-- The insertion failed, and nothing but the handle of its element is different. -/
structure Refused (s : HashState) (add : Ref) (added : HashAdded HashRoot) : Prop where
  oomed : added.oomed = true
  root : added.value = s.root
  elsewhere : ∀ h, h ≠ add → SameAt s.handles added.handles h

/-- The element is the last item of a sound table, under its key; the other items keep their
keys, and what is no item is left alone. -/
structure Accepted (hashFunction : CString → BitVec 32) (s : HashState) (order : List Ref) (add : Ref)
    (keyptr : CString) (keylenIn : SizeT) (added : HashAdded HashRoot) : Prop where
  stored : added.oomed = false
  sound : HashState.Holds hashFunction ⟨added.handles, added.value⟩ (order ++ [add])
  key : added.handles.key = Function.update s.handles.key add keyptr
  keylen : added.handles.keylen = Function.update s.handles.keylen add (keylenIn.setWidth 32)
  outside : ∀ h, h ≠ add → h ∉ order → SameAt s.handles added.handles h
  grown : order.length + 1 < 2 ^ 32 → ∀ head tbl head' tbl', s.root = some (head, tbl) →
    added.value = some (head', tbl') → Kept tbl tbl' ∨ Doubled tbl tbl'
  begun : s.root = none → ∀ head tbl, added.value = some (head, tbl) →
    tbl.noexpand = decide (1 < tbl.ineffExpands.toNat)

/-- Where the element is taken off the end of the list again, the other handles are as they were
before it was appended. -/
theorem cutTail_same (valid : Integrity hashFunction m head tbl order chains)
    (ordered : SameOrder (hashAppendList (m.withKey add keyptr keylenIn hashval) tbl add).1 m')
    (handles : ∀ h, h ≠ add →
      SameAt (hashAppendList (m.withKey add keyptr keylenIn hashval) tbl add).1 m' h)
    (other : h ≠ add) : SameAt m { m' with next := Function.update m'.next tbl.tail none } h := by
  have same : SameAt m (m.withKey add keyptr keylenIn hashval) h := withKey_same other
  have moved := handles h other
  refine ⟨?_, ?_, moved.hhPrev, moved.hhNext, moved.key.trans same.key,
    moved.keylen.trans same.keylen, moved.hashv.trans same.hashv⟩
  · exact moved.prev.trans (Function.update_of_ne other _ _)
  · change Function.update m'.next tbl.tail none h = _
    by_cases last : h = tbl.tail
    · rw [last, Function.update_self, valid.listed.forward.last_next valid.final]
    · rw [Function.update_of_ne last, ordered.next]
      simp [hashAppendList, last, other, HashHandles.withKey]

/-- Where the element was filed, the insertion did what it should. -/
theorem Integrity.accepted (root : s.root = some (head, tbl))
    (valid : Integrity hashFunction s.handles head tbl order chains) (fresh : add ∉ order)
    (hashes : hashval = hashFunction (keyBytes keyptr keylenIn)) {added : HashAdded HashRoot}
    (oomed : added.oomed = false) {chains' : Nat → List Ref} (value : added.value = some (head, tbl'))
    (filed : Filed (hashAppendList (s.handles.withKey add keyptr keylenIn hashval) tbl add).1
      added.handles (hashAppendList (s.handles.withKey add keyptr keylenIn hashval) tbl add).2.counting
      tbl' add chains chains') : Accepted hashFunction s order add keyptr keylenIn added := by
  have sound : Integrity hashFunction added.handles head tbl' (order ++ [add]) chains' :=
    valid.filed fresh hashes rfl filed
  refine ⟨oomed, ?_, ?_, ?_, ?_, ?_, ?_⟩
  · simpa [HashState.Holds, value] using ⟨chains', sound⟩
  · rw [filed.order.key]
    rfl
  · rw [filed.order.keylen]
    rfl
  · intro h other outside
    have tail : h ≠ tbl.tail := fun same => outside (same ▸ List.mem_of_getLast? valid.final)
    have near : SameAt (s.handles.withKey add keyptr keylenIn hashval)
        (hashAppendList (s.handles.withKey add keyptr keylenIn hashval) tbl add).1 h := by
      refine ⟨Function.update_of_ne other _ _, ?_, rfl, rfl, rfl, rfl, rfl⟩
      simp [hashAppendList, tail, other]
    exact ((withKey_same other).trans near).trans
      (filed.elsewhere h other fun j => valid.absent outside j)
  · intro few head' old head'' new before after
    cases root.symm.trans before
    cases value.symm.trans after
    rcases filed.grown with kept | doubled
    · exact .inl ⟨kept.numBuckets, kept.idealChainMaxlen, kept.nonidealItems, kept.ineffExpands,
        kept.noexpand⟩
    · have measured := doubled (order ++ [add]) ?_ (by simpa using few)
      · exact .inr ⟨measured.allowed, measured.buckets, measured.ideal, measured.past,
          measured.ineffective, measured.noexpand⟩
      · rintro h (same | member)
        · simp [same]
        · exact List.mem_append_left _ (valid.mem_order member)
  · intro empty
    cases root.symm.trans empty

/-- Into a table that has items. -/
theorem hashAddKeyptr_rooted (root : s.root = some (head, tbl))
    (valid : Integrity hashFunction s.handles head tbl order chains) (fresh : add ∉ order)
    (enough : order.length + 1 < fuel) (limited : Limited malloc) :
    ∃ added, hashAddKeyptr hashFunction malloc fuel s keyptr keylenIn add = some added ∧
      added.Balances s.root ∧
      (Refused s add added ∨ Accepted hashFunction s order add keyptr keylenIn added) := by
  let hashval := hashFunction (keyBytes keyptr keylenIn)
  let keyed := s.handles.withKey add keyptr keylenIn hashval
  let listed := hashAppendList keyed tbl add
  have tail_ne : tbl.tail ≠ add := fun same => fresh (same ▸ List.mem_of_getLast? valid.final)
  have run : hashAddKeyptr hashFunction malloc fuel s keyptr keylenIn add =
      hashAddToTable malloc fuel listed.1 head listed.2 hashval add := by
    simp only [hashAddKeyptr, hashAddKeyptrByhashvalue, root]
    rfl
  have chained : HashChains listed.1 listed.2.buckets listed.2.numBuckets chains :=
    valid.chained.congr (fun _ _ _ => rfl) (fun _ _ _ => rfl) fun j h member =>
      Function.update_of_ne (fun same : h = add => fresh (same ▸ valid.mem_order member)) _ _
  have next : listed.1.next add = none := by
    simp [listed, hashAppendList, Function.update_of_ne (Ne.symm tail_ne)]
  have prev : listed.1.prev add = some tbl.tail := Function.update_self _ _ _
  have longer : ∀ j, (chains j).length + 1 < fuel := fun j =>
    Nat.lt_of_le_of_lt (Nat.succ_le_succ (valid.chain_length_le j)) enough
  have hashed : listed.1.hashv add = hashval := Function.update_self _ _ _
  rw [run]
  rcases hashAddToTable_spec head chained (valid.absent fresh) valid.doubled valid.bounded longer limited
      hashed with ⟨m', order', handles, failed⟩ |
      ⟨added, tbl', chains', stored, oomed, value, balance, filed⟩
  · have before : m'.prev add = some tbl.tail := by rw [order'.prev, prev]
    have after : m'.next add = none := by rw [order'.next, next]
    have moved (j : Nat) (h : Ref) (member : h ∈ chains j) : SameAt listed.1 m' h :=
      handles h fun same => valid.absent fresh j (same ▸ member)
    have chained' : HashChains m' listed.2.buckets listed.2.numBuckets chains :=
      chained.congr (fun j h member => (moved j h member).hhNext)
        (fun j h member => (moved j h member).hhPrev) fun j h member => (moved j h member).hashv
    obtain ⟨restored, freed, elsewhere⟩ :=
      undone_last head chained' (valid.absent fresh) before after rfl
    refine ⟨_, failed, ?_, .inl ⟨rfl, ?_, ?_⟩⟩
    · rw [HashAdded.Balances, restored, freed, root]
      exact .refl _
    · rw [restored, root]
      rfl
    · exact fun h other => (cutTail_same valid order' handles other).trans (elsewhere h other)
  · refine ⟨added, stored, ?_, .inr (valid.accepted root fresh rfl oomed value filed)⟩
    rw [HashAdded.Balances, value, root]
    have same : tbl'.self = tbl.self := filed.self
    change (added.obtained ++ ([tbl.bucketsAt] ++ [tbl.self])).Perm
      (added.freed ++ ([tbl'.bucketsAt] ++ [tbl'.self]))
    rw [same, ← List.append_assoc, ← List.append_assoc]
    exact balance.append_right _

/-- `HASH_MAKE_TABLE` gives back what it obtained, or leaves an empty table. -/
theorem hashMakeTable_outcome (malloc : UthashMalloc) (m : HashHandles) (head : Ref) :
    (∃ blocks, hashMakeTable malloc m head =
      { oomed := true, handles := m, value := none, obtained := blocks, freed := blocks }) ∨
    ∃ self bucketsAt, hashMakeTable malloc m head =
      { oomed := false, handles := m, value := some (head, HashTable.fresh self bucketsAt head)
        obtained := [self, bucketsAt], freed := [] } := by
  unfold hashMakeTable
  cases malloc sizeofHashTable with
  | none => exact .inl ⟨[], rfl⟩
  | some self =>
    cases malloc (hashInitialNumBuckets.setWidth 64 * sizeofHashBucket) with
    | none => exact .inl ⟨[self], rfl⟩
    | some bucketsAt => exact .inr ⟨self, bucketsAt, rfl⟩

section First

variable {keyed : HashHandles} {blocks : List Block}

theorem hashAddKeyptr_unmade (root : s.root = none)
    (keys : s.handles.withFirstKey add keyptr keylenIn (hashFunction (keyBytes keyptr keylenIn)) = keyed)
    (made : hashMakeTable malloc keyed add =
      { oomed := true, handles := keyed, value := none, obtained := blocks, freed := blocks }) :
    hashAddKeyptr hashFunction malloc fuel s keyptr keylenIn add =
      some { oomed := true, handles := keyed, value := none, obtained := blocks, freed := blocks } := by
  subst keys
  simp only [HashHandles.withFirstKey, HashHandles.withKey] at made
  simp only [hashAddKeyptr, hashAddKeyptrByhashvalue, root, made]
  rfl

theorem hashAddKeyptr_made (root : s.root = none)
    (keys : s.handles.withFirstKey add keyptr keylenIn (hashFunction (keyBytes keyptr keylenIn)) = keyed)
    (made : hashMakeTable malloc keyed add =
      { oomed := false, handles := keyed, value := some (head, tbl), obtained := blocks, freed := [] }) :
    hashAddKeyptr hashFunction malloc fuel s keyptr keylenIn add =
      (hashAddToTable malloc fuel keyed head tbl (hashFunction (keyBytes keyptr keylenIn)) add).bind
        fun added => some { added with obtained := blocks ++ added.obtained, freed := added.freed } := by
  subst keys
  simp only [HashHandles.withFirstKey, HashHandles.withKey] at made
  simp only [hashAddKeyptr, hashAddKeyptrByhashvalue, root, made, List.nil_append]
  rfl

/-- Undoing the insertion of the only item gives the table back. -/
theorem undone_first (tbl : HashTable) (head : Ref) (prev : m.prev add = none) (next : m.next add = none) :
    (undone m head tbl.counting add).value = none ∧
      (undone m head tbl.counting add).freed = [tbl.bucketsAt, tbl.self] ∧
      ∀ h, h ≠ add → SameAt m (undone m head tbl.counting add).handles h := by
  let rolled := hashRollbackBkt m tbl.counting add
  have deleted : hashDeleteHh rolled.1 head rolled.2 add = _ := hashDeleteHh_only prev next
  have result : undone m head tbl.counting add =
      { oomed := true, handles := rolled.1, value := none, obtained := []
        freed := [tbl.bucketsAt, tbl.self] } := by
    change HashAdded.mk _ _ _ _ _ = _
    rw [deleted]
    rfl
  rw [result]
  refine ⟨rfl, rfl, fun h other => ⟨rfl, rfl, ?_, ?_, rfl, rfl, rfl⟩⟩ <;>
    exact Function.update_of_ne other _ _

/-- Into an empty head. -/
theorem hashAddKeyptr_first (root : s.root = none) (enough : 1 < fuel) (limited : Limited malloc) :
    ∃ added, hashAddKeyptr hashFunction malloc fuel s keyptr keylenIn add = some added ∧
      added.Balances s.root ∧
      (Refused s add added ∨ Accepted hashFunction s [] add keyptr keylenIn added) := by
  let hashval := hashFunction (keyBytes keyptr keylenIn)
  let keyed := s.handles.withFirstKey add keyptr keylenIn hashval
  have same : ∀ h, h ≠ add → SameAt s.handles keyed h := fun h other => withFirstKey_same other
  rw [root]
  rcases hashMakeTable_outcome malloc keyed add with ⟨blocks, made⟩ | ⟨self, bucketsAt, made⟩
  · exact ⟨_, hashAddKeyptr_unmade root rfl made, .refl _, .inl ⟨rfl, root.symm, same⟩⟩
  rw [hashAddKeyptr_made root rfl made]
  have outside (j : Nat) : add ∉ (fun _ => [] : Nat → List Ref) j := List.not_mem_nil
  have chained : HashChains keyed (HashTable.fresh self bucketsAt add).buckets
      (HashTable.fresh self bucketsAt add).numBuckets fun _ => [] :=
    ⟨fun _ => Linked.nil, fun _ => rfl, fun _ _ member => absurd member List.not_mem_nil⟩
  have hashed : keyed.hashv add = hashval := Function.update_self _ _ _
  have initial : hashInitialNumBucketsLog2.toNat < 32 := by decide
  rcases hashAddToTable_spec add chained outside rfl initial (fun _ => enough) limited hashed with
    ⟨m', order', handles, failed⟩ | ⟨added, tbl', chains', stored, oomed, value, balance, filed⟩
  · have before : m'.prev add = none := by
      rw [order'.prev]
      exact Function.update_self _ _ _
    have after : m'.next add = none := by
      rw [order'.next]
      exact Function.update_self _ _ _
    obtain ⟨nothing, freed, elsewhere⟩ :=
      undone_first (HashTable.fresh self bucketsAt add) add before after
    rw [failed]
    refine ⟨_, rfl, ?_, .inl ⟨rfl, nothing.trans root.symm, ?_⟩⟩
    · rw [HashAdded.Balances, nothing, freed]
      exact List.Perm.swap _ _ _
    · intro h other
      exact ((same h other).trans (handles h other)).trans (elsewhere h other)
  · have sound : Integrity hashFunction added.handles add tbl' [add] chains' :=
      Integrity.first rfl filed
    rw [stored]
    refine ⟨_, rfl, ?_, .inr ⟨oomed, ?_, ?_, ?_, ?_, ?_, ?_⟩⟩
    · have self' : tbl'.self = self := filed.self
      change ([self, bucketsAt] ++ added.obtained ++ []).Perm (added.freed ++ hashBlocks added.value)
      rw [value, List.append_nil]
      calc ([self] ++ ([bucketsAt] ++ added.obtained)).Perm
            ([self] ++ (added.obtained ++ [bucketsAt])) := List.perm_append_comm.append_left _
        _ |>.Perm ([self] ++ (added.freed ++ [tbl'.bucketsAt])) := balance.append_left _
        _ |>.Perm ((added.freed ++ [tbl'.bucketsAt]) ++ [tbl'.self]) :=
            self' ▸ List.perm_append_comm
        _ |>.Perm (added.freed ++ hashBlocks (some (add, tbl'))) := by
            rw [List.append_assoc]
            exact .refl _
    · simpa [HashState.Holds, value] using ⟨chains', sound⟩
    · rw [filed.order.key]
      rfl
    · rw [filed.order.keylen]
      rfl
    · intro h other _
      exact (same h other).trans (filed.elsewhere h other fun j => List.not_mem_nil)
    · intro _ head tbl _ _ before
      cases root.symm.trans before
    · intro _ head new after
      cases value.symm.trans after
      rcases filed.grown with kept | doubled
      · rw [kept.noexpand, kept.ineffExpands]
        rfl
      · exact (doubled [add] (by simp) (by simp)).noexpand

end First

/-- `HASH_ADD_KEYPTR` comes back. It files the new element, or it leaves the table and every
handle but the element's as they were; and it obtains what it does not give back for the
table alone. -/
theorem hashAddKeyptr_spec (valid : s.Holds hashFunction order) (fresh : add ∉ order)
    (enough : order.length + 1 < fuel) (limited : Limited malloc) (keyptr : CString)
    (keylenIn : SizeT) :
    ∃ added, hashAddKeyptr hashFunction malloc fuel s keyptr keylenIn add = some added ∧
      added.Balances s.root ∧
      (Refused s add added ∨ Accepted hashFunction s order add keyptr keylenIn added) := by
  cases root : s.root with
  | none =>
    obtain rfl := valid.empty root
    rw [← root]
    exact hashAddKeyptr_first root enough limited
  | some rooted =>
    obtain ⟨head, tbl⟩ := rooted
    obtain ⟨chains, valid⟩ := valid.integrity root
    rw [← root]
    exact hashAddKeyptr_rooted root valid fresh enough limited

end Insertion

end Mam.Vendor
