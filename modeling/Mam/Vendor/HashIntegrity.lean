import Mam.Vendor.HashTable
import Mathlib.Algebra.BigOperators.Group.Finset.Basic
import Mathlib.Algebra.Order.BigOperators.Group.Finset

/-! What `HASH_FSCK` is after: the items are in the chains of their buckets and in the list
in application order, with links and counts that say so. -/

namespace Mam.Vendor

open Mam.Library

variable {m m' : HashHandles} {buckets : Nat → HashBucket} {n : BitVec 32}
variable {chains : Nat → List Ref} {item add head : Ref} {tbl : HashTable}

/-- The bucket that an item belongs in, among so many. -/
def HashHandles.bktOf (m : HashHandles) (n : BitVec 32) (item : Ref) : Nat :=
  (hashToBkt (m.hashv item) n).toNat

/-- The chains that the buckets head. -/
structure HashChains (m : HashHandles) (buckets : Nat → HashBucket) (n : BitVec 32)
    (chains : Nat → List Ref) : Prop where
  linked : ∀ j, Linked m.hhNext m.hhPrev (buckets j).hhHead (chains j)
  counted : ∀ j, (buckets j).count = BitVec.ofNat 32 (chains j).length
  placed : ∀ j, ∀ h ∈ chains j, m.bktOf n h = j

namespace HashChains

theorem mem_iff (valid : HashChains m buckets n chains) :
    (∃ j, item ∈ chains j) ↔ item ∈ chains (m.bktOf n item) := by
  constructor
  · rintro ⟨j, member⟩
    rwa [valid.placed j item member]
  · exact fun member => ⟨_, member⟩

theorem congr (valid : HashChains m buckets n chains)
    (nexts : ∀ j, ∀ h ∈ chains j, m'.hhNext h = m.hhNext h)
    (prevs : ∀ j, ∀ h ∈ chains j, m'.hhPrev h = m.hhPrev h)
    (hashes : ∀ j, ∀ h ∈ chains j, m'.hashv h = m.hashv h) : HashChains m' buckets n chains := by
  refine ⟨fun j => (valid.linked j).congr (nexts j) (prevs j), valid.counted, ?_⟩
  intro j h member
  rw [← valid.placed j h member, HashHandles.bktOf, HashHandles.bktOf, hashes j h member]

end HashChains

section Push

variable (m) (start : Option Ref) (item)

@[simp] theorem pushHh_prev : (m.pushHh start item).prev = m.prev := rfl

@[simp] theorem pushHh_next : (m.pushHh start item).next = m.next := rfl

@[simp] theorem pushHh_key : (m.pushHh start item).key = m.key := rfl

@[simp] theorem pushHh_keylen : (m.pushHh start item).keylen = m.keylen := rfl

@[simp] theorem pushHh_hashv : (m.pushHh start item).hashv = m.hashv := rfl

@[simp] theorem pushHh_hhNext (h : Ref) :
    (m.pushHh start item).hhNext h = if h = item then start else m.hhNext h :=
  Function.update_apply _ _ _ _

theorem pushHh_hhPrev (h : Ref) : (m.pushHh start item).hhPrev h =
    if start = some h then some item else if h = item then none else m.hhPrev h := by
  cases start with
  | none => simp [HashHandles.pushHh, Function.update_apply]
  | some first =>
    simp only [HashHandles.pushHh, Function.update_apply, Option.some.injEq]
    by_cases same : h = first
    · simp [same]
    · rw [if_neg same, if_neg (Ne.symm same)]

@[simp] theorem bktOf_pushHh (n : BitVec 32) : (m.pushHh start item).bktOf n = m.bktOf n := rfl

end Push

/-- An item put in front of the chain of its bucket. -/
theorem HashChains.push (valid : HashChains m buckets n chains) (fresh : ∀ j, item ∉ chains j)
    (received : HashBucket) (headed : received.hhHead = some item)
    (counted : received.count = (buckets (m.bktOf n item)).count + 1) :
    HashChains (m.pushHh (buckets (m.bktOf n item)).hhHead item)
      (Function.update buckets (m.bktOf n item) received) n
      (Function.update chains (m.bktOf n item) (item :: chains (m.bktOf n item))) := by
  refine ⟨?_, ?_, ?_⟩
  · intro j
    by_cases here : j = m.bktOf n item
    · subst here
      have linked := valid.linked (m.bktOf n item)
      rw [Function.update_self, Function.update_self, headed]
      refine linked.push (fresh _) (by simp) ?_ ?_ ?_ ?_
      · intro other member
        have other_ne : other ≠ item := fun same => fresh _ (same ▸ member)
        rw [pushHh_hhNext, if_neg other_ne]
      · rw [pushHh_hhPrev, if_neg, if_pos rfl]
        intro same
        have first := linked.forward.head
        rw [same] at first
        exact fresh _ (List.mem_of_head? first.symm)
      · intro first same
        rw [pushHh_hhPrev, if_pos same]
      · intro other member second
        have other_ne : other ≠ item := fun same => fresh _ (same ▸ member)
        rw [pushHh_hhPrev, if_neg second, if_neg other_ne]
    · rw [Function.update_of_ne here, Function.update_of_ne here]
      refine (valid.linked j).congr ?_ ?_
      · intro other member
        have other_ne : other ≠ item := fun same => fresh j (same ▸ member)
        rw [pushHh_hhNext, if_neg other_ne]
      · intro other member
        have other_ne : other ≠ item := fun same => fresh j (same ▸ member)
        rw [pushHh_hhPrev, if_neg, if_neg other_ne]
        -- The old head is in its own bucket, so it is no member of another chain.
        intro same
        have first := (valid.linked (m.bktOf n item)).forward.head
        rw [same] at first
        have there := valid.placed _ other (List.mem_of_head? first.symm)
        exact here (by rw [← valid.placed j other member, there])
  · intro j
    by_cases here : j = m.bktOf n item
    · subst here
      rw [Function.update_self, Function.update_self, counted, valid.counted]
      simp [BitVec.ofNat_add]
    · rw [Function.update_of_ne here, Function.update_of_ne here, valid.counted]
  · intro j h member
    rw [bktOf_pushHh]
    by_cases here : j = m.bktOf n item
    · subst here
      rw [Function.update_self] at member
      rcases List.mem_cons.mp member with same | old
      · rw [same]
      · exact valid.placed _ h old
    · rw [Function.update_of_ne here] at member
      exact valid.placed j h member

/-- The members of the chains after a push. -/
theorem mem_update_cons {j k : Nat} {h : Ref} :
    h ∈ Function.update chains k (item :: chains k) j ↔ (j = k ∧ h = item) ∨ h ∈ chains j := by
  by_cases here : j = k
  · subst here
    simp
  · simp [here]

section Buckets

/-- A power of two as the bucket count keeps every index within the buckets. -/
theorem hashToBkt_lt {log : Nat} (doubled : n.toNat = 2 ^ log) (hashv : BitVec 32) :
    (hashToBkt hashv n).toNat < n.toNat := by
  have positive : 0 < n.toNat := doubled ▸ Nat.two_pow_pos log
  have mask : (n - 1).toNat = n.toNat - 1 := by
    rw [BitVec.toNat_sub_of_le (by simp [BitVec.le_def]; omega)]
    rfl
  rw [hashToBkt, BitVec.toNat_and, mask]
  exact Nat.lt_of_le_of_lt Nat.and_le_right (by omega)

/-- The index is the hash value modulo the bucket count. -/
theorem hashToBkt_toNat {log : Nat} (doubled : n.toNat = 2 ^ log) (hashv : BitVec 32) :
    (hashToBkt hashv n).toNat = hashv.toNat % n.toNat := by
  have positive : 0 < n.toNat := doubled ▸ Nat.two_pow_pos log
  have mask : (n - 1).toNat = 2 ^ log - 1 := by
    rw [BitVec.toNat_sub_of_le (by simp [BitVec.le_def]; omega), doubled]
    rfl
  rw [hashToBkt, BitVec.toNat_and, mask, Nat.and_two_pow_sub_one_eq_mod, doubled]

theorem doubled_toNat {log : Nat} (doubled : n.toNat = 2 ^ log) (room : log < 31) :
    (n * 2).toNat = 2 ^ (log + 1) := by
  have below : 2 ^ (log + 1) ≤ 2 ^ 31 := Nat.pow_le_pow_right (by omega) (by omega)
  rw [BitVec.toNat_mul, doubled, Nat.mod_eq_of_lt]
  · rw [Nat.pow_succ]
    rfl
  · have same : 2 ^ log * (2 : BitVec 32).toNat = 2 ^ (log + 1) := by
      rw [Nat.pow_succ]
      rfl
    omega

end Buckets

section Rehashing

variable {m₀ : HashHandles} {seen rest : List Ref} {newBuckets : Nat → HashBucket}

/-- The chains that moving these items one after another makes. -/
def splitChains (m : HashHandles) (n : BitVec 32) (seen : List Ref) (j : Nat) : List Ref :=
  (seen.filter fun h => m.bktOf n h == j).reverse

@[simp] theorem mem_splitChains {j : Nat} :
    item ∈ splitChains m n seen j ↔ item ∈ seen ∧ m.bktOf n item = j := by
  simp [splitChains]

theorem splitChains_snoc : splitChains m n (seen ++ [item]) =
    Function.update (splitChains m n seen) (m.bktOf n item)
      (item :: splitChains m n seen (m.bktOf n item)) := by
  funext j
  by_cases here : j = m.bktOf n item
  · subst here
    simp [splitChains, List.filter_append]
  · rw [Function.update_of_ne here]
    simp [splitChains, List.filter_append, Ne.symm here]

/-- The handles keep everything but their links within buckets. -/
structure SameOrder (m m' : HashHandles) : Prop where
  prev : m'.prev = m.prev
  next : m'.next = m.next
  key : m'.key = m.key
  keylen : m'.keylen = m.keylen
  hashv : m'.hashv = m.hashv

theorem SameOrder.refl (m : HashHandles) : SameOrder m m := ⟨rfl, rfl, rfl, rfl, rfl⟩

theorem SameOrder.trans {m'' : HashHandles} (first : SameOrder m m') (second : SameOrder m' m'') :
    SameOrder m m'' :=
  ⟨second.prev.trans first.prev, second.next.trans first.next, second.key.trans first.key,
    second.keylen.trans first.keylen, second.hashv.trans first.hashv⟩

theorem SameOrder.pushHh (same : SameOrder m m') (start : Option Ref) (item : Ref) :
    SameOrder m (m'.pushHh start item) := same.trans ⟨rfl, rfl, rfl, rfl, rfl⟩

theorem SameOrder.bktOf (same : SameOrder m m') : m'.bktOf n = m.bktOf n := by
  funext h
  rw [HashHandles.bktOf, HashHandles.bktOf, same.hashv]

/-- How many items of the chains are past the ideal length. -/
def pastIdeal (n ideal : BitVec 32) (chains : Nat → List Ref) : Nat :=
  ∑ j ∈ Finset.range n.toNat, ((chains j).length - ideal.toNat)

/-- One more item is past the ideal length if its chain had reached it. -/
theorem pastIdeal_update {ideal : BitVec 32} {j : Nat} (inside : j < n.toNat) :
    pastIdeal n ideal (Function.update chains j (item :: chains j)) =
      pastIdeal n ideal chains + if ideal.toNat < (chains j).length + 1 then 1 else 0 := by
  have here : j ∈ Finset.range n.toNat := Finset.mem_range.mpr inside
  rw [pastIdeal, pastIdeal, ← Finset.add_sum_erase _ _ here, ← Finset.add_sum_erase _ _ here,
    Function.update_self]
  have others : ∑ k ∈ (Finset.range n.toNat).erase j,
        ((Function.update chains j (item :: chains j) k).length - ideal.toNat) =
      ∑ k ∈ (Finset.range n.toNat).erase j, ((chains k).length - ideal.toNat) := by
    refine Finset.sum_congr rfl fun k member => ?_
    rw [Function.update_of_ne (Finset.ne_of_mem_erase member)]
  rw [others, List.length_cons]
  split <;> omega

/-- How far the items of the old chains have moved. -/
structure Moved (m₀ : HashHandles) (n ideal : BitVec 32) (seen : List Ref) (r : Rehash) : Prop where
  chained : HashChains r.handles r.newBuckets n (splitChains m₀ n seen)
  order : SameOrder m₀ r.handles
  untouched : ∀ h, h ∉ seen → r.handles.hhNext h = m₀.hhNext h
  elsewhere : ∀ h, h ∉ seen → r.handles.hhPrev h = m₀.hhPrev h
  measured : ∀ log, n.toNat = 2 ^ log → seen.length < 2 ^ 32 →
    r.nonidealItems.toNat = pastIdeal n ideal (splitChains m₀ n seen) ∧
      r.nonidealItems.toNat ≤ seen.length

/-- The count of the items past the ideal length keeps up with one more item. -/
theorem Moved.measure_step {ideal : BitVec 32} {r : Rehash} (moved : Moved m₀ n ideal seen r) :
    ∀ log, n.toNat = 2 ^ log → (seen ++ [item]).length < 2 ^ 32 →
      (if ((r.newBuckets (m₀.bktOf n item)).receive ideal item).2 then r.nonidealItems + 1
          else r.nonidealItems).toNat = pastIdeal n ideal (splitChains m₀ n (seen ++ [item])) ∧
        (if ((r.newBuckets (m₀.bktOf n item)).receive ideal item).2 then r.nonidealItems + 1
          else r.nonidealItems).toNat ≤ (seen ++ [item]).length := by
  intro log doubled few
  rw [List.length_append, List.length_singleton] at few ⊢
  obtain ⟨same, bound⟩ := moved.measured log doubled (Nat.lt_of_succ_lt few)
  have chain : (splitChains m₀ n seen (m₀.bktOf n item)).length ≤ seen.length := by
    rw [splitChains, List.length_reverse]
    exact List.length_filter_le _ _
  have counted : ((r.newBuckets (m₀.bktOf n item)).count + 1).toNat =
      (splitChains m₀ n seen (m₀.bktOf n item)).length + 1 := by
    have one : (1 : BitVec 32).toNat = 1 := rfl
    rw [moved.chained.counted, BitVec.toNat_add, BitVec.toNat_ofNat, one]
    rw [Nat.mod_eq_of_lt (a := List.length _) (by omega), Nat.mod_eq_of_lt (by omega)]
  have past : ((r.newBuckets (m₀.bktOf n item)).receive ideal item).2 = true ↔
      ideal.toNat < (splitChains m₀ n seen (m₀.bktOf n item)).length + 1 := by
    rw [← counted]
    simp [HashBucket.receive, BitVec.lt_def]
  have inside : m₀.bktOf n item < n.toNat := hashToBkt_lt doubled _
  rw [splitChains_snoc, pastIdeal_update inside, ← same]
  by_cases late : ideal.toNat < (splitChains m₀ n seen (m₀.bktOf n item)).length + 1
  · rw [if_pos (past.mpr late), if_pos late, BitVec.toNat_add]
    have whole : (r.nonidealItems.toNat + (1 : BitVec 32).toNat) % 2 ^ 32 =
        r.nonidealItems.toNat + 1 := Nat.mod_eq_of_lt (by simp; omega)
    rw [whole]
    exact ⟨rfl, Nat.succ_le_succ bound⟩
  · rw [if_neg fun wrong => late (past.mp wrong), if_neg late]
    exact ⟨rfl, Nat.le_succ_of_le bound⟩

/-- One item moves. -/
theorem Moved.step {ideal half : BitVec 32} {r : Rehash} (moved : Moved m₀ (half * 2) ideal seen r)
    (cursor : r.thh = some item) (fresh : item ∉ seen) :
    Moved m₀ (half * 2) ideal (seen ++ [item]) (rehashItem ideal half r) := by
  have here : r.handles.bktOf (half * 2) item = m₀.bktOf (half * 2) item := by
    rw [moved.order.bktOf]
  have unlinked : ∀ j, item ∉ splitChains m₀ (half * 2) seen j :=
    fun j member => fresh (mem_splitChains.mp member).1
  have pushed := moved.chained.push unlinked
    ((r.newBuckets (m₀.bktOf (half * 2) item)).receive ideal item).1 rfl (by rw [here]; rfl)
  rw [here, ← splitChains_snoc] at pushed
  have first : ∀ h, (r.newBuckets (m₀.bktOf (half * 2) item)).hhHead = some h → h ∈ seen := by
    intro h same
    have head := (moved.chained.linked (m₀.bktOf (half * 2) item)).forward.head
    rw [same] at head
    exact (mem_splitChains.mp (List.mem_of_head? head.symm)).1
  have body : rehashItem ideal half r =
      { handles := r.handles.pushHh (r.newBuckets (m₀.bktOf (half * 2) item)).hhHead item
        newBuckets := Function.update r.newBuckets (m₀.bktOf (half * 2) item)
          ((r.newBuckets (m₀.bktOf (half * 2) item)).receive ideal item).1
        nonidealItems :=
          if ((r.newBuckets (m₀.bktOf (half * 2) item)).receive ideal item).2 then
            r.nonidealItems + 1 else r.nonidealItems
        thh := r.handles.hhNext item } := by
    rw [← here]
    simp only [rehashItem, cursor, HashHandles.bktOf]
    rfl
  rw [body]
  refine ⟨pushed, moved.order.pushHh _ _, ?_, ?_, moved.measure_step⟩
  · intro h absent
    simp only [List.mem_append, List.mem_singleton, not_or] at absent
    simp [absent.2, moved.untouched h absent.1]
  · intro h absent
    simp only [List.mem_append, List.mem_singleton, not_or] at absent
    rw [pushHh_hhPrev, if_neg fun same => absent.1 (first h same), if_neg absent.2,
      moved.elsewhere h absent.1]

theorem rehashItem_thh {ideal half : BitVec 32} {r : Rehash} (cursor : r.thh = some item) :
    (rehashItem ideal half r).thh = r.handles.hhNext item := by
  simp [rehashItem, cursor]

theorem rehashItem_hhNext {ideal half : BitVec 32} {r : Rehash} (cursor : r.thh = some item)
    {h : Ref} (other : h ≠ item) :
    (rehashItem ideal half r).handles.hhNext h = r.handles.hhNext h := by
  simp [rehashItem, cursor, other]

/-- One old chain moves, from its first item to its last. -/
theorem Moved.bucket (ideal : BitVec 32) {r : Rehash} {fuel i : Nat}
    (moved : Moved m₀ (tbl.numBuckets * 2) ideal seen r)
    (chain : Chain m₀.hhNext (tbl.buckets i).hhHead rest) (apart : (seen ++ rest).Nodup)
    (enough : rest.length < fuel) :
    ∃ result, rehashBucket fuel ideal tbl r i = some result ∧
      Moved m₀ (tbl.numBuckets * 2) ideal (seen ++ rest) result := by
  let inv (seen rest : List Ref) (r : Rehash) : Prop :=
    Moved m₀ (tbl.numBuckets * 2) ideal seen r ∧ Chain r.handles.hhNext r.thh rest ∧
      (seen ++ rest).Nodup
  have initial : inv seen rest { r with thh := (tbl.buckets i).hhHead } := by
    refine ⟨⟨moved.chained, moved.order, moved.untouched, moved.elsewhere, moved.measured⟩, ?_, apart⟩
    refine chain.congr fun h member => moved.untouched h fun early => ?_
    exact (List.nodup_append.mp apart).2.2 h early h member rfl
  have running : ∀ seen rest r, inv seen rest r → r.thh.isSome = !rest.isEmpty := by
    rintro seen rest r ⟨_, chain, _⟩
    rw [chain.head]
    cases rest <;> rfl
  have kept : ∀ seen item rest r, inv seen (item :: rest) r →
      inv (seen ++ [item]) rest (rehashItem ideal tbl.numBuckets r) := by
    rintro seen item rest r ⟨moved, ⟨cursor, onward⟩, apart⟩
    have split := List.nodup_append.mp apart
    have later : item ∉ rest := (List.nodup_cons.mp split.2.1).1
    refine ⟨moved.step cursor fun early => split.2.2 item early item (by simp) rfl, ?_, ?_⟩
    · rw [rehashItem_thh cursor]
      exact onward.congr fun h member =>
        rehashItem_hhNext cursor fun same => later (same ▸ member)
    · simpa using apart
  obtain ⟨result, stopped, final⟩ := whileLoop_visits inv running kept initial enough
  exact ⟨result, stopped, final.1⟩

/-- Every old chain moves. -/
theorem Moved.all (ideal : BitVec 32) {r : Rehash} {fuel : Nat} {indices : List Nat}
    (moved : Moved m₀ (tbl.numBuckets * 2) ideal seen r)
    (linked : ∀ i, Chain m₀.hhNext (tbl.buckets i).hhHead (chains i))
    (apart : (seen ++ indices.flatMap chains).Nodup) (enough : ∀ i, (chains i).length < fuel) :
    ∃ result, indices.foldlM (rehashBucket fuel ideal tbl) r = some result ∧
      Moved m₀ (tbl.numBuckets * 2) ideal (seen ++ indices.flatMap chains) result := by
  induction indices generalizing seen r with
  | nil => exact ⟨r, rfl, by simpa using moved⟩
  | cons i indices ih =>
    rw [List.flatMap_cons, ← List.append_assoc] at apart
    obtain ⟨middle, stopped, after⟩ :=
      moved.bucket ideal (linked i) (List.nodup_append.mp apart).1 (enough i)
    obtain ⟨result, finished, final⟩ := ih after apart
    refine ⟨result, ?_, ?_⟩
    · rw [List.foldlM_cons, stopped]
      exact finished
    · rwa [List.flatMap_cons, ← List.append_assoc]

theorem moved_none (m : HashHandles) (n ideal : BitVec 32) :
    Moved m n ideal []
      { handles := m, newBuckets := fun _ => HashBucket.zero, nonidealItems := 0, thh := none } :=
  ⟨⟨fun _ => Linked.nil, fun _ => rfl, nofun⟩, .refl m, fun _ _ => rfl, fun _ _ => rfl,
    fun _ _ _ => ⟨by simp [pastIdeal, splitChains], Nat.le_refl _⟩⟩

/-- The items of the chains, in the order that an expansion visits them. -/
def chainItems (tbl : HashTable) (chains : Nat → List Ref) : List Ref :=
  (List.range tbl.numBuckets.toNat).flatMap chains

theorem HashChains.chainItems_nodup (valid : HashChains m buckets n chains) (tbl : HashTable) :
    (chainItems tbl chains).Nodup := by
  refine List.nodup_flatMap.mpr ⟨fun j _ => (valid.linked j).nodup, ?_⟩
  refine List.nodup_range.imp fun {i j} different h here there => ?_
  exact different (by rw [← valid.placed i h here, valid.placed j h there])

theorem HashChains.mem_chainItems (valid : HashChains m tbl.buckets tbl.numBuckets chains) {log : Nat}
    (doubled : tbl.numBuckets.toNat = 2 ^ log) :
    item ∈ chainItems tbl chains ↔ item ∈ chains (m.bktOf tbl.numBuckets item) := by
  simp only [chainItems, List.mem_flatMap, List.mem_range]
  constructor
  · rintro ⟨j, _, member⟩
    exact valid.mem_iff.mp ⟨j, member⟩
  · intro member
    exact ⟨_, hashToBkt_lt doubled _, member⟩

end Rehashing

end Mam.Vendor
