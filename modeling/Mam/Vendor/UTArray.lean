import Mam.Library.Loop
import Mathlib.Tactic.Ring

/-! The vendored dynamic array, with the program's overrides of `utarray_oom()`:
a failed `realloc` makes the operation return and leaves the array in use. -/

namespace Mam.Vendor

open Mam.Library

variable {α : Type}

/-- `UT_array`. The first `i` slots hold `elems`; `n` is the recorded capacity and
`slots` the number of slots the block `d` really has. An append past the block is
visible as `slots < elems.length`; what it overwrites there is not modelled. -/
structure UTArray (α : Type) where
  elems : List α
  n : BitVec 32
  slots : Nat
deriving DecidableEq, Repr

namespace UTArray

/-- `utarray_init`. -/
def init : UTArray α := { elems := [], n := 0, slots := 0 }

/-- `i`, the index of the next available slot. -/
def i (a : UTArray α) : BitVec 32 := BitVec.ofNat 32 a.elems.length

/-- The body of `utarray_reserve`'s loop: `n = n ? 2 * n : 8`. -/
def nextCapacity (n : BitVec 32) : BitVec 32 := if n = 0 then 8 else 2 * n

/-- Tests after which the loop of `utarray_reserve` has visited every capacity it
can visit. -/
def reserveFuel : Nat := 62

/-- The capacity `utarray_reserve(a, 1)` settles on; `none` when its loop never ends. -/
def reserved (a : UTArray α) : Option (BitVec 32) :=
  whileLoop (fun n => n < a.i + 1) nextCapacity reserveFuel a.n

/-- How `utarray_push_back` leaves: past its end, or through `utarray_oom()`. -/
inductive Pushed (α : Type) where
  | stored (array : UTArray α)
  | oom (array : UTArray α)
deriving DecidableEq, Repr

/-- `utarray_push_back`. The capacity is raised before the `realloc` is attempted,
and stays raised when that fails. An append after that may write past the block, or through
NULL where there is none, and anything may follow. Here it stores its element, with
`slots < elems.length` to tell: what holds of all runs holds of more runs than the code has. -/
def pushBack (a : UTArray α) (elem : α) (realloc : Bool) : Option (Pushed α) :=
  if a.n < a.i + 1 then
    match a.reserved with
    | none => none
    | some n =>
      if realloc then some (.stored { elems := a.elems ++ [elem], n := n, slots := n.toNat })
      else some (.oom { a with n := n })
  else some (.stored { a with elems := a.elems ++ [elem] })

/-- `utarray_pop_back`, for elements without a destructor. -/
def popBack (a : UTArray α) : UTArray α := { a with elems := a.elems.dropLast }

/-- `utarray_len`, converted to `size_t`. -/
def len (a : UTArray α) : BitVec 64 := a.i.setWidth 64

/-- `utarray_eltptr`, followed; `none` where it is NULL, or points past what is modelled. -/
def eltptr (a : UTArray α) (j : BitVec 64) : Option α := if j < a.len then a.elems[j.toNat]? else none

/-- `utarray_next`, on the indices of elements; NULL is `none`. -/
def next (a : UTArray α) : Option Nat → Option Nat
  | none => if a.i = 0 then none else some 0
  | some e => if a.i.toNat = e + 1 then none else some (e + 1)

/-- The elements that `while ((p = utarray_next(a, p)))` meets after `p`. -/
def visitFrom (a : UTArray α) : Nat → Option Nat → List α
  | 0, _ => []
  | fuel + 1, p =>
    match a.next p with
    | none => []
    | some e =>
      match a.elems[e]? with
      | none => []
      | some elem => elem :: a.visitFrom fuel (some e)

/-- The elements that such a loop meets from the start, each of which it meets once. -/
def visited (a : UTArray α) : List α := a.visitFrom a.elems.length none

@[simp] theorem init_elems : (init : UTArray α).elems = [] := rfl

/-- A push that stores appends, whatever becomes of the capacity. -/
theorem pushBack_stored {a array : UTArray α} {elem : α} {realloc : Bool}
    (pushed : a.pushBack elem realloc = some (.stored array)) :
    array.elems = a.elems ++ [elem] := by
  unfold pushBack at pushed
  split at pushed
  · split at pushed
    · cases pushed
    · split at pushed <;> cases pushed
      rfl
  · cases pushed
    rfl

/-- A push that runs out of memory leaves the elements as they were. -/
theorem pushBack_oom {a array : UTArray α} {elem : α} {realloc : Bool}
    (pushed : a.pushBack elem realloc = some (.oom array)) :
    array.elems = a.elems := by
  unfold pushBack at pushed
  split at pushed
  · split at pushed
    · cases pushed
    · split at pushed <;> cases pushed
      rfl
  · cases pushed

/-- Undoing a push restores the elements. -/
theorem popBack_of_stored {a array : UTArray α} {elem : α} {realloc : Bool}
    (pushed : a.pushBack elem realloc = some (.stored array)) :
    array.popBack.elems = a.elems := by
  simp [popBack, pushBack_stored pushed]

/-- `n` counts the slots of the block, and the elements lie inside it. -/
structure Sound (a : UTArray α) : Prop where
  recorded : a.n.toNat = a.slots
  inside : a.elems.length ≤ a.slots

/-- Capacities are 0 or come from doubling 8. -/
def Stepped (a : UTArray α) : Prop := 8 ∣ a.n.toNat

theorem init_sound : (init : UTArray α).Sound := ⟨rfl, Nat.zero_le _⟩

theorem init_stepped : (init : UTArray α).Stepped := by
  simp [Stepped, init]

private theorem nextCapacity_dvd {n : BitVec 32} (divides : 8 ∣ n.toNat) :
    8 ∣ (nextCapacity n).toNat := by
  unfold nextCapacity
  split
  · decide
  · rw [BitVec.toNat_mul]
    have doubled : 8 ∣ (2#32).toNat * n.toNat := Dvd.dvd.mul_left divides _
    exact (Nat.dvd_mod_iff (by decide)).mpr doubled

/-- What the reserving loop settles on: a capacity beyond the next index. -/
theorem reserved_spec {a : UTArray α} {n : BitVec 32} (stepped : a.Stepped)
    (settled : a.reserved = some n) : 8 ∣ n.toNat ∧ a.i + 1 ≤ n := by
  obtain ⟨divides, stopped⟩ := whileLoop_invariant (fun n : BitVec 32 => 8 ∣ n.toNat)
    stepped (fun current _ divides => nextCapacity_dvd divides) settled
  exact ⟨divides, by simpa using stopped⟩

/-- `utarray_reserve` has to grow the block before the next append. -/
def Full (a : UTArray α) : Prop := a.n < a.i + 1

instance (a : UTArray α) : Decidable a.Full := inferInstanceAs (Decidable (_ < _))

/-- The recorded capacity covers the elements, so that `i` counts them. -/
structure Counted (a : UTArray α) : Prop where
  stepped : a.Stepped
  covered : a.elems.length ≤ a.n.toNat

theorem init_counted : (init : UTArray α).Counted := ⟨init_stepped, Nat.zero_le _⟩

theorem Sound.counted {a : UTArray α} (sound : a.Sound) (stepped : a.Stepped) : a.Counted :=
  ⟨stepped, sound.recorded ▸ sound.inside⟩

/-- A multiple of 8 below `2 ^ 32` leaves room for one more index. -/
theorem Counted.small {a : UTArray α} (counted : a.Counted) : a.elems.length + 1 < 2 ^ 32 := by
  have capacity := a.n.isLt
  have covered := counted.covered
  obtain ⟨eighth, same⟩ := counted.stepped
  omega

theorem Counted.toNat_i {a : UTArray α} (counted : a.Counted) : a.i.toNat = a.elems.length := by
  have small := counted.small
  rw [i, BitVec.toNat_ofNat]
  exact Nat.mod_eq_of_lt (by omega)

theorem Counted.toNat_next {a : UTArray α} (counted : a.Counted) :
    (a.i + 1).toNat = a.elems.length + 1 := by
  rw [BitVec.toNat_add, counted.toNat_i]
  exact Nat.mod_eq_of_lt counted.small

/-- No operation lets the elements outgrow the recorded capacity. -/
theorem Counted.pushBack_stored {a array : UTArray α} {elem : α} {realloc : Bool}
    (counted : a.Counted) (pushed : a.pushBack elem realloc = some (.stored array)) :
    array.Counted := by
  have next := counted.toNat_next
  unfold pushBack at pushed
  split at pushed
  · split at pushed
    · cases pushed
    · rename_i n settled
      split at pushed <;> cases pushed
      obtain ⟨divides, beyond⟩ := reserved_spec counted.stepped settled
      have room : (a.i + 1).toNat ≤ n.toNat := beyond
      exact ⟨divides, by simp only [List.length_append, List.length_singleton]; omega⟩
  · rename_i vacant
    cases pushed
    have room : (a.i + 1).toNat ≤ a.n.toNat := BitVec.not_lt.mp vacant
    exact ⟨counted.stepped, by simp only [List.length_append, List.length_singleton]; omega⟩

theorem Counted.pushBack_oom {a array : UTArray α} {elem : α} {realloc : Bool}
    (counted : a.Counted) (pushed : a.pushBack elem realloc = some (.oom array)) :
    array.Counted := by
  have next := counted.toNat_next
  unfold pushBack at pushed
  split at pushed
  · split at pushed
    · cases pushed
    · rename_i n settled
      split at pushed <;> cases pushed
      obtain ⟨divides, beyond⟩ := reserved_spec counted.stepped settled
      have room : (a.i + 1).toNat ≤ n.toNat := beyond
      refine ⟨divides, ?_⟩
      show a.elems.length ≤ n.toNat
      omega
  · cases pushed

theorem Counted.popBack {a : UTArray α} (counted : a.Counted) : a.popBack.Counted := by
  refine ⟨counted.stepped, Nat.le_trans ?_ counted.covered⟩
  rw [UTArray.popBack, List.length_dropLast]
  exact Nat.sub_le _ _

section Reads

variable {a : UTArray α}

theorem Counted.toNat_len (counted : a.Counted) : a.len.toNat = a.elems.length := by
  have wide := a.i.isLt
  rw [len, BitVec.toNat_setWidth, ← counted.toNat_i]
  exact Nat.mod_eq_of_lt (by omega)

theorem Counted.eltptr_eq (counted : a.Counted) (j : BitVec 64) :
    a.eltptr j = a.elems[j.toNat]? := by
  unfold eltptr
  split
  · rfl
  · rename_i beyond
    have outside : a.elems.length ≤ j.toNat := by
      rw [← counted.toNat_len]
      exact BitVec.not_lt.mp beyond
    exact (List.getElem?_eq_none outside).symm

/-- The index that a loop has behind it when `k` elements are. -/
private def behind : Nat → Option Nat
  | 0 => none
  | k + 1 => some k

private theorem Counted.next_behind (counted : a.Counted) (k : Nat) (inside : k ≤ a.elems.length) :
    a.next (behind k) = if k = a.elems.length then none else some k := by
  have counts := counted.toNat_i
  cases k with
  | zero =>
    have empty : a.i = 0 ↔ 0 = a.elems.length := by
      rw [← counts]
      constructor
      · intro zero
        simp [zero]
      · exact fun zero => BitVec.eq_of_toNat_eq zero.symm
    simp only [behind, next, empty]
  | succ k => simp only [behind, next, counts, eq_comm]

private theorem Counted.visitFrom_behind (counted : a.Counted) (fuel k : Nat)
    (enough : a.elems.length = k + fuel) : a.visitFrom fuel (behind k) = a.elems.drop k := by
  induction fuel generalizing k with
  | zero => exact (List.drop_of_length_le (Nat.le_of_eq enough)).symm
  | succ fuel ih =>
    have inside : k < a.elems.length := by omega
    rw [visitFrom, counted.next_behind k (Nat.le_of_lt inside), if_neg (Nat.ne_of_lt inside)]
    simp only [List.getElem?_eq_getElem inside]
    rw [List.drop_eq_getElem_cons inside]
    congr 1
    exact ih (k + 1) (by omega)

/-- A loop over the array meets every element once, in order. -/
theorem Counted.visited_eq (counted : a.Counted) : a.visited = a.elems :=
  counted.visitFrom_behind a.elems.length 0 (Nat.zero_add _).symm

end Reads

/-- A successful push into a sound array stores inside the block. -/
theorem pushBack_sound {a array : UTArray α} {elem : α} {realloc : Bool}
    (sound : a.Sound) (stepped : a.Stepped)
    (pushed : a.pushBack elem realloc = some (.stored array)) :
    array.Sound ∧ array.Stepped := by
  obtain ⟨divides, covered⟩ := (sound.counted stepped).pushBack_stored pushed
  have recorded : array.n.toNat = array.slots := by
    unfold pushBack at pushed
    split at pushed
    · split at pushed
      · cases pushed
      · split at pushed <;> cases pushed
        rfl
    · cases pushed
      exact sound.recorded
  exact ⟨⟨recorded, recorded ▸ covered⟩, divides⟩

/-- Only a full array reaches the `realloc`, and only a failed one runs out of memory. -/
theorem pushBack_oom_full {a array : UTArray α} {elem : α} {realloc : Bool}
    (pushed : a.pushBack elem realloc = some (.oom array)) : a.Full ∧ realloc = false := by
  unfold pushBack at pushed
  split at pushed
  · rename_i full
    split at pushed
    · cases pushed
    · split at pushed
      · cases pushed
      · rename_i failed
        exact ⟨full, by simpa using failed⟩
  · cases pushed

/-- A push into a full array that stores had its `realloc` succeed. -/
theorem pushBack_stored_realloc {a array : UTArray α} {elem : α} {realloc : Bool}
    (pushed : a.pushBack elem realloc = some (.stored array)) (full : a.Full) : realloc = true := by
  unfold pushBack at pushed
  split at pushed
  · split at pushed
    · cases pushed
    · split at pushed
      · rename_i succeeded
        exact succeeded
      · cases pushed
  · rename_i vacant
    exact absurd full vacant

/-- A push that runs out of memory leaves a capacity the block does not have. -/
theorem pushBack_oom_unsound {a array : UTArray α} {elem : α} {realloc : Bool}
    (sound : a.Sound) (stepped : a.Stepped)
    (pushed : a.pushBack elem realloc = some (.oom array)) : array.n.toNat ≠ array.slots := by
  obtain ⟨full, _⟩ := pushBack_oom_full pushed
  unfold pushBack at pushed
  split at pushed
  · split at pushed
    · cases pushed
    · rename_i n settled
      split at pushed <;> cases pushed
      obtain ⟨_, beyond⟩ := reserved_spec stepped settled
      have raised : a.n.toNat < (a.i + 1).toNat := full
      have room : (a.i + 1).toNat ≤ n.toNat := beyond
      have recorded := sound.recorded
      show n.toNat ≠ a.slots
      omega
  · cases pushed

/-- What every append needs of the array, and keeps when it stores. -/
structure Intact (a : UTArray α) : Prop where
  sound : a.Sound
  stepped : a.Stepped

theorem init_intact : (init : UTArray α).Intact := ⟨init_sound, init_stepped⟩

theorem Intact.pushBack {a array : UTArray α} {elem : α} {realloc : Bool} (intact : a.Intact)
    (pushed : a.pushBack elem realloc = some (.stored array)) : array.Intact := by
  obtain ⟨sound, stepped⟩ := pushBack_sound intact.sound intact.stepped pushed
  exact ⟨sound, stepped⟩

theorem Intact.popBack {a : UTArray α} (intact : a.Intact) : a.popBack.Intact := by
  refine ⟨⟨intact.sound.recorded, ?_⟩, intact.stepped⟩
  have inside := intact.sound.inside
  simp only [UTArray.popBack, List.length_dropLast]
  omega

/-- The capacity recorded is the one the block has, the elements are in the block, and
an append keeps them and stores its own in the block, or keeps them and stores nothing. -/
structure Safe (a : UTArray α) : Prop where
  sound : a.Sound
  stores : ∀ elem realloc array, a.pushBack elem realloc = some (.stored array) →
    array.elems = a.elems ++ [elem] ∧ array.elems.length ≤ array.slots
  keeps : ∀ elem realloc array, a.pushBack elem realloc = some (.oom array) →
    array.elems = a.elems

theorem Intact.safe {a : UTArray α} (intact : a.Intact) : a.Safe :=
  ⟨intact.sound,
    fun _ _ _ pushed => ⟨pushBack_stored pushed, (intact.pushBack pushed).sound.inside⟩,
    fun _ _ _ pushed => pushBack_oom pushed⟩

theorem Intact.not_sound_of_oom {a array : UTArray α} {elem : α} {realloc : Bool}
    (intact : a.Intact) (pushed : a.pushBack elem realloc = some (.oom array)) : ¬ array.Sound :=
  fun sound => pushBack_oom_unsound intact.sound intact.stepped pushed sound.recorded

private theorem iterate_nextCapacity {n : BitVec 32} (steps : Nat)
    (nonzero : ∀ earlier < steps, nextCapacity^[earlier] n ≠ 0) :
    nextCapacity^[steps] n = BitVec.ofNat 32 (2 ^ steps * n.toNat) := by
  induction steps with
  | zero => simp
  | succ steps ih =>
    have previous := ih (fun earlier below => nonzero earlier (by omega))
    have positive := nonzero steps (by omega)
    rw [Function.iterate_succ_apply', nextCapacity, if_neg positive, previous]
    apply BitVec.eq_of_toNat_eq
    rw [BitVec.toNat_mul, BitVec.toNat_ofNat, BitVec.toNat_ofNat, Nat.mul_mod_mod,
      show 2 ^ (steps + 1) * n.toNat = 2 * (2 ^ steps * n.toNat) by ring]
    rfl

private theorem nextCapacity_reaches_zero (n : BitVec 32) :
    ∃ steps ≤ 32, nextCapacity^[steps] n = 0 := by
  by_contra never
  push Not at never
  have last := iterate_nextCapacity 32 fun earlier below => never earlier (by omega)
  apply never 32 (Nat.le_refl _)
  rw [last]
  apply BitVec.eq_of_toNat_eq
  simp

private theorem nextCapacity_periodic (n : BitVec 32) :
    nextCapacity^[32 + 30] n = nextCapacity^[32] n := by
  obtain ⟨steps, bound, zero⟩ := nextCapacity_reaches_zero n
  have cycle : nextCapacity^[30] (0 : BitVec 32) = 0 := by decide
  have early : nextCapacity^[(32 - steps) + steps] n = nextCapacity^[32 - steps] 0 := by
    rw [Function.iterate_add_apply, zero]
  have late : nextCapacity^[(32 - steps) + 30 + steps] n = nextCapacity^[32 - steps] 0 := by
    rw [Function.iterate_add_apply, zero, Function.iterate_add_apply, cycle]
  rw [show (32 - steps) + steps = 32 by omega] at early
  rw [show (32 - steps) + 30 + steps = 32 + 30 by omega] at late
  rw [late, early]

/-- No amount of further fuel changes what `utarray_reserve` settles on, so `none`
means that its loop never ends. -/
theorem reserved_complete {a : UTArray α} {fuel : Nat} {n : BitVec 32}
    (settled : whileLoop (fun n => decide (n < a.i + 1)) nextCapacity fuel a.n = some n) :
    a.reserved = some n :=
  whileLoop_of_periodic (by decide) (nextCapacity_periodic a.n) settled

end UTArray

end Mam.Vendor
