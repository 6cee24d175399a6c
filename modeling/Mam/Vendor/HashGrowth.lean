import Mam.Vendor.HashIntegrity

/-! What an expansion makes of the counts that decide on later expansions. -/

namespace Mam.Vendor

open Mam.Library

variable {m : HashHandles} {tbl tbl' : HashTable} {items : List Ref} {r : Rehash}

/-- A table that was not expanded. -/
structure Kept (tbl tbl' : HashTable) : Prop where
  numBuckets : tbl'.numBuckets = tbl.numBuckets
  idealChainMaxlen : tbl'.idealChainMaxlen = tbl.idealChainMaxlen
  nonidealItems : tbl'.nonidealItems = tbl.nonidealItems
  ineffExpands : tbl'.ineffExpands = tbl.ineffExpands
  noexpand : tbl'.noexpand = tbl.noexpand

/-- A table with twice the buckets. Its ideal chain length is the number of items by the number of
buckets, rounded up; the items past that are counted; and two expansions one after the other that
leave more than half of the items there are the last. -/
structure Doubled (tbl tbl' : HashTable) : Prop where
  allowed : tbl.noexpand = false
  buckets : tbl'.numBuckets.toNat = 2 * tbl.numBuckets.toNat
  ideal : tbl'.idealChainMaxlen.toNat =
    (tbl'.numItems.toNat + (tbl'.numBuckets.toNat - 1)) / tbl'.numBuckets.toNat
  past : tbl'.nonidealItems.toNat = ∑ j ∈ Finset.range tbl'.numBuckets.toNat,
    ((tbl'.buckets j).count.toNat - tbl'.idealChainMaxlen.toNat)
  ineffective : tbl'.ineffExpands =
    if tbl'.nonidealItems.toNat > tbl'.numItems.toNat / 2 then tbl.ineffExpands + 1 else 0
  noexpand : tbl'.noexpand = decide (1 < tbl'.ineffExpands.toNat)

theorem ceil_div (n d : Nat) (positive : 0 < d) :
    n / d + (if n % d ≠ 0 then 1 else 0) = (n + (d - 1)) / d := by
  have whole := Nat.div_add_mod n d
  have below := Nat.mod_lt n positive
  have split : n + (d - 1) = d * (n / d) + (n % d + (d - 1)) := by
    rw [← Nat.add_assoc, whole]
  rw [split, Nat.mul_add_div positive]
  by_cases even : n % d = 0
  · have none : (d - 1) / d = 0 := Nat.div_eq_of_lt (by omega)
    rw [if_neg (not_not.mpr even), even, Nat.zero_add, none]
  · have once : n % d + (d - 1) = n % d - 1 + d := by omega
    have none : (n % d - 1) / d = 0 := Nat.div_eq_of_lt (by omega)
    rw [if_pos even, once, Nat.add_div_right _ positive, none]

/-- The shift and the mask compute the ideal length of a chain. -/
theorem nextIdeal_toNat (doubled : tbl.numBuckets.toNat = 2 ^ tbl.log2NumBuckets.toNat)
    (room : tbl.log2NumBuckets.toNat < 31) :
    tbl.nextIdeal.toNat =
      (tbl.numItems.toNat + ((tbl.numBuckets * 2).toNat - 1)) / (tbl.numBuckets * 2).toNat := by
  let log := tbl.log2NumBuckets.toNat
  have twice : (tbl.numBuckets * 2).toNat = 2 ^ (log + 1) := doubled_toNat doubled room
  have next : (tbl.log2NumBuckets + 1).toNat = log + 1 := by
    rw [BitVec.toNat_add]
    exact Nat.mod_eq_of_lt (by simp; omega)
  have shifted : (tbl.numItems >>> (tbl.log2NumBuckets + 1)).toNat =
      tbl.numItems.toNat / 2 ^ (log + 1) := by
    rw [BitVec.ushiftRight_eq', BitVec.toNat_ushiftRight, next, Nat.shiftRight_eq_div_pow]
  have masked : (tbl.numItems &&& (tbl.numBuckets * 2 - 1)).toNat =
      tbl.numItems.toNat % 2 ^ (log + 1) := by
    rw [← twice]
    exact hashToBkt_toNat twice tbl.numItems
  have rest : (tbl.numItems &&& (tbl.numBuckets * 2 - 1) ≠ 0) ↔
      tbl.numItems.toNat % 2 ^ (log + 1) ≠ 0 := by
    rw [← masked]
    exact not_congr BitVec.toNat_inj.symm
  have half : tbl.numItems.toNat / 2 ^ (log + 1) ≤ 2 ^ 31 := by
    have items := tbl.numItems.isLt
    have least : 2 ^ 1 ≤ 2 ^ (log + 1) := Nat.pow_le_pow_right (by omega) (by omega)
    exact Nat.le_trans (Nat.div_le_div_left least (by decide)) (by omega)
  rw [twice, ← ceil_div _ _ (Nat.two_pow_pos _), HashTable.nextIdeal, BitVec.toNat_add, shifted]
  by_cases more : tbl.numItems.toNat % 2 ^ (log + 1) ≠ 0
  · rw [if_pos (rest.mpr more), if_pos more]
    exact Nat.mod_eq_of_lt (by simp; omega)
  · rw [if_neg fun wrong => more (rest.mp wrong), if_neg more]
    exact Nat.mod_eq_of_lt (by simp; omega)

/-- Where all items moved, and there are fewer than 2^32, the expansion took their measure. -/
theorem Moved.doubled (moved : Moved m (tbl'.numBuckets * 2) tbl'.nextIdeal items r)
    (kept : Kept tbl tbl') (allowed : tbl.noexpand = false)
    (doubled : tbl'.numBuckets.toNat = 2 ^ tbl'.log2NumBuckets.toNat)
    (room : tbl'.log2NumBuckets.toNat < 31) (few : items.length < 2 ^ 32) (bucketsAt : Block) :
    Doubled tbl (tbl'.expanded bucketsAt r) := by
  have twice := doubled_toNat doubled room
  obtain ⟨past, _⟩ := moved.measured _ twice few
  refine ⟨allowed, ?_, nextIdeal_toNat doubled room, ?_, ?_, ?_⟩
  · change (tbl'.numBuckets * 2).toNat = _
    rw [twice, Nat.pow_succ, ← doubled, kept.numBuckets, Nat.mul_comm]
  · change r.nonidealItems.toNat = ∑ j ∈ Finset.range (tbl'.numBuckets * 2).toNat,
      ((r.newBuckets j).count.toNat - tbl'.nextIdeal.toNat)
    rw [past, pastIdeal]
    refine Finset.sum_congr rfl fun j _ => ?_
    have chain : (splitChains m (tbl'.numBuckets * 2) items j).length ≤ items.length := by
      rw [splitChains, List.length_reverse]
      exact List.length_filter_le _ _
    rw [moved.chained.counted, BitVec.toNat_ofNat, Nat.mod_eq_of_lt (by omega)]
  · change (if r.nonidealItems > tbl'.numItems >>> 1 then tbl'.ineffExpands + 1 else 0) = _
    have half : (tbl'.numItems >>> 1).toNat = tbl'.numItems.toNat / 2 := by
      rw [BitVec.toNat_ushiftRight, Nat.shiftRight_eq_div_pow]
    have more : r.nonidealItems > tbl'.numItems >>> 1 ↔
        r.nonidealItems.toNat > tbl'.numItems.toNat / 2 := by
      rw [gt_iff_lt, BitVec.lt_def, half]
    rw [kept.ineffExpands]
    exact if_congr more rfl rfl
  · change (if (if r.nonidealItems > tbl'.numItems >>> 1 then tbl'.ineffExpands + 1 else 0) > 1
      then true else tbl'.noexpand) = decide (1 < (tbl'.expanded bucketsAt r).ineffExpands.toNat)
    have rule (ineff : BitVec 32) : (if ineff > 1 then true else false) = decide (1 < ineff.toNat) := by
      by_cases twice : ineff > 1
      · rw [if_pos twice]
        exact (decide_eq_true twice).symm
      · rw [if_neg twice]
        exact (decide_eq_false twice).symm
    rw [kept.noexpand, allowed]
    exact rule _

end Mam.Vendor
