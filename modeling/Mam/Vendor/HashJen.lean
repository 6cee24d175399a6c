import Mam.Basic
import Mathlib.Data.List.Basic
import Mathlib.Tactic.IntervalCases

/-! `HASH_JEN`, the hash function that `uthash.h` takes by default. -/

namespace Mam.Vendor

/-- `_hj_i`, `_hj_j` and `hashv`. -/
@[ext]
structure JenState where
  i : BitVec 32
  j : BitVec 32
  hashv : BitVec 32
deriving DecidableEq, Repr

/-- `HASH_JEN_MIX`. -/
def hashJenMix (s : JenState) : JenState :=
  let a := s.i - s.j - s.hashv ^^^ s.hashv >>> 13
  let b := s.j - s.hashv - a ^^^ a <<< 8
  let c := s.hashv - a - b ^^^ b >>> 13
  let a := a - b - c ^^^ c >>> 12
  let b := b - c - a ^^^ a <<< 16
  let c := c - a - b ^^^ b >>> 5
  let a := a - b - c ^^^ c >>> 3
  let b := b - c - a ^^^ a <<< 10
  let c := c - a - b ^^^ b >>> 15
  { i := a, j := b, hashv := c }

/-- A byte as an `unsigned`. -/
def unsigned (k : UInt8) : BitVec 32 := k.toBitVec.setWidth 32

/-- Four bytes as a number, the first one least. -/
def jenWord (k₀ k₁ k₂ k₃ : UInt8) : BitVec 32 :=
  unsigned k₀ + unsigned k₁ <<< 8 + unsigned k₂ <<< 16 + unsigned k₃ <<< 24

/-- The loop of `HASH_JEN` over whole blocks, and what it leaves of the key. -/
def hashJenBlocks (s : JenState) : CString → JenState × CString
  | k₀ :: k₁ :: k₂ :: k₃ :: k₄ :: k₅ :: k₆ :: k₇ :: k₈ :: k₉ :: k₁₀ :: k₁₁ :: rest =>
    hashJenBlocks
      (hashJenMix { i := s.i + jenWord k₀ k₁ k₂ k₃, j := s.j + jenWord k₄ k₅ k₆ k₇
                    hashv := s.hashv + jenWord k₈ k₉ k₁₀ k₁₁ }) rest
  | rest => (s, rest)

/-- A case of the `switch` of `HASH_JEN`. -/
def hashJenCase (k : CString) (s : JenState) (n : Nat) : JenState :=
  let byte := unsigned (k.getD (n - 1) 0)
  match n with
  | 11 => { s with hashv := s.hashv + byte <<< 24 }
  | 10 => { s with hashv := s.hashv + byte <<< 16 }
  | 9 => { s with hashv := s.hashv + byte <<< 8 }
  | 8 => { s with j := s.j + byte <<< 24 }
  | 7 => { s with j := s.j + byte <<< 16 }
  | 6 => { s with j := s.j + byte <<< 8 }
  | 5 => { s with j := s.j + byte }
  | 4 => { s with i := s.i + byte <<< 24 }
  | 3 => { s with i := s.i + byte <<< 16 }
  | 2 => { s with i := s.i + byte <<< 8 }
  | 1 => { s with i := s.i + byte }
  | _ => s

/-- The `switch`: every case falls through to the next, from that of the length left. -/
def hashJenTail (s : JenState) (k : CString) : JenState :=
  (List.range' 1 k.length).reverse.foldl (hashJenCase k) s

/-- `HASH_JEN` up to its last mix, on the bytes of a key from a state. -/
def hashJenFrom (s : JenState) (key : CString) (length : BitVec 32) : JenState :=
  let (s, rest) := hashJenBlocks s key
  hashJenMix (hashJenTail { s with hashv := s.hashv + length } rest)

/-- The state that `HASH_JEN` starts from. -/
def jenInitial : JenState := { i := 0x9e3779b9, j := 0x9e3779b9, hashv := 0xfeedbeef }

/-- `HASH_JEN`. -/
def hashJen (key : CString) : BitVec 32 :=
  (hashJenFrom jenInitial key (BitVec.ofNat 32 key.length)).hashv

section Mixing

/-- The lines of the mix, undone from the last to the first. -/
def hashJenUnmix (s : JenState) : JenState :=
  let c := (s.hashv ^^^ s.j >>> 15) + s.j + s.i
  let b := (s.j ^^^ s.i <<< 10) + s.i + c
  let a := (s.i ^^^ c >>> 3) + c + b
  let c := (c ^^^ b >>> 5) + b + a
  let b := (b ^^^ a <<< 16) + a + c
  let a := (a ^^^ c >>> 12) + c + b
  let c := (c ^^^ b >>> 13) + b + a
  let b := (b ^^^ a <<< 8) + a + c
  let a := (a ^^^ c >>> 13) + c + b
  { i := a, j := b, hashv := c }

/-- One line of the mix, undone. -/
theorem unmix_line (a b c shifted : BitVec 32) : ((a - b - c ^^^ shifted) ^^^ shifted) + c + b = a := by
  rw [BitVec.xor_assoc, BitVec.xor_self, BitVec.xor_zero, BitVec.sub_add_cancel, BitVec.sub_add_cancel]

theorem hashJenUnmix_mix (s : JenState) : hashJenUnmix (hashJenMix s) = s := by
  simp only [hashJenUnmix, hashJenMix, unmix_line]

/-- The mix loses nothing. -/
theorem hashJenMix_injective : Function.Injective hashJenMix :=
  Function.LeftInverse.injective hashJenUnmix_mix

end Mixing

section Bytes

theorem unsigned_toNat (k : UInt8) : (unsigned k).toNat = k.toNat := by
  have small := k.toNat_lt
  rw [unsigned, BitVec.toNat_setWidth]
  exact Nat.mod_eq_of_lt (Nat.lt_of_lt_of_le small (by decide))

theorem jenWord_toNat (k₀ k₁ k₂ k₃ : UInt8) : (jenWord k₀ k₁ k₂ k₃).toNat =
    k₀.toNat + k₁.toNat * 2 ^ 8 + k₂.toNat * 2 ^ 16 + k₃.toNat * 2 ^ 24 := by
  have small₀ := k₀.toNat_lt
  have small₁ := k₁.toNat_lt
  have small₂ := k₂.toNat_lt
  have small₃ := k₃.toNat_lt
  simp only [jenWord, BitVec.toNat_add, BitVec.toNat_shiftLeft, unsigned_toNat, Nat.shiftLeft_eq]
  omega

/-- Four bytes are read off their number. -/
theorem jenWord_inj {k₀ k₁ k₂ k₃ l₀ l₁ l₂ l₃ : UInt8} (same : jenWord k₀ k₁ k₂ k₃ = jenWord l₀ l₁ l₂ l₃) :
    k₀ = l₀ ∧ k₁ = l₁ ∧ k₂ = l₂ ∧ k₃ = l₃ := by
  have numbers := congrArg BitVec.toNat same
  rw [jenWord_toNat, jenWord_toNat] at numbers
  have small₀ := k₀.toNat_lt
  have small₁ := k₁.toNat_lt
  have small₂ := k₂.toNat_lt
  have small₀' := l₀.toNat_lt
  have small₁' := l₁.toNat_lt
  have small₂' := l₂.toNat_lt
  refine ⟨?_, ?_, ?_, ?_⟩ <;> apply UInt8.toNat_inj.mp <;> omega

end Bytes

section Tail

variable {s : JenState} {k : CString}

/-- A case past the length left would add nothing. -/
theorem hashJenCase_past {n : Nat} (past : k.length < n) : hashJenCase k s n = s := by
  have zero : unsigned (k.getD (n - 1) 0) = 0 := by
    rw [List.getD_eq_getElem?_getD, List.getElem?_eq_none (by omega)]
    rfl
  unfold hashJenCase
  simp only [zero]
  split <;> simp

theorem hashJenCases_past {cases : List Nat} (past : ∀ n ∈ cases, k.length < n) :
    cases.foldl (hashJenCase k) s = s := by
  induction cases with
  | nil => rfl
  | cons n rest ih =>
    rw [List.foldl_cons, hashJenCase_past (past n (by simp))]
    exact ih fun n member => past n (by simp [member])

/-- What a case adds does not depend on what is there. -/
theorem hashJenCase_adds (k : CString) (s : JenState) (n : Nat) :
    hashJenCase k s n =
      { i := s.i + (hashJenCase k ⟨0, 0, 0⟩ n).i, j := s.j + (hashJenCase k ⟨0, 0, 0⟩ n).j
        hashv := s.hashv + (hashJenCase k ⟨0, 0, 0⟩ n).hashv } := by
  unfold hashJenCase
  dsimp only
  split <;> simp

theorem hashJenCases_add (cases : List Nat) : cases.foldl (hashJenCase k) s =
    { i := s.i + cases.foldr (fun n total => (hashJenCase k ⟨0, 0, 0⟩ n).i + total) 0
      j := s.j + cases.foldr (fun n total => (hashJenCase k ⟨0, 0, 0⟩ n).j + total) 0
      hashv := s.hashv + cases.foldr (fun n total => (hashJenCase k ⟨0, 0, 0⟩ n).hashv + total) 0 } := by
  induction cases generalizing s with
  | nil => apply JenState.ext <;> exact (BitVec.add_zero _).symm
  | cons n rest ih =>
    rw [List.foldl_cons, ih, hashJenCase_adds k s n]
    simp only [List.foldr_cons, BitVec.add_assoc]

/-- The `switch` reads what is left of the key as a block that zeros fill up, in which the
lowest byte of the last word is kept for the length. -/
theorem hashJenTail_eq (short : k.length < 12) :
    hashJenTail s k =
      { i := s.i + jenWord (k.getD 0 0) (k.getD 1 0) (k.getD 2 0) (k.getD 3 0)
        j := s.j + jenWord (k.getD 4 0) (k.getD 5 0) (k.getD 6 0) (k.getD 7 0)
        hashv := s.hashv + jenWord 0 (k.getD 8 0) (k.getD 9 0) (k.getD 10 0) } := by
  have every : (List.range' 1 11).reverse.foldl (hashJenCase k) s = hashJenTail s k := by
    obtain ⟨more, whole⟩ : ∃ more, 11 = k.length + more := ⟨11 - k.length, by omega⟩
    have late : (List.range' (1 + k.length) more).reverse.foldl (hashJenCase k) s = s := by
      apply hashJenCases_past
      intro n member
      have there := List.mem_range'_1.mp (List.mem_reverse.mp member)
      omega
    rw [whole, ← List.range'_append_1, List.reverse_append, List.foldl_append, late]
    rfl
  have cases : (List.range' 1 11).reverse = [11, 10, 9, 8, 7, 6, 5, 4, 3, 2, 1] := rfl
  have zero : unsigned 0 = 0 := rfl
  rw [← every, hashJenCases_add, cases]
  simp only [List.foldr_cons, List.foldr_nil, hashJenCase, jenWord, zero,
    JenState.mk.injEq]
  have before (x : BitVec 32) : 0 + x = x := BitVec.zero_add x
  have after (x : BitVec 32) : x + 0 = x := BitVec.add_zero x
  have turned (s a b c d : BitVec 32) : s + (d + (c + (b + a))) = s + (a + b + c + d) := by ac_rfl
  have turned' (s a b c : BitVec 32) : s + (c + (b + a)) = s + (a + b + c) := by ac_rfl
  simp only [before, after]
  exact ⟨turned _ _ _ _ _, turned _ _ _ _ _, turned' _ _ _ _⟩

end Tail

section Separation

variable {s s' : JenState} {k k' rest rest' : CString} {length : BitVec 32}

/-- One block taken in. -/
def jenAbsorb (s : JenState) (k : CString) : JenState :=
  hashJenMix
    { i := s.i + jenWord (k.getD 0 0) (k.getD 1 0) (k.getD 2 0) (k.getD 3 0)
      j := s.j + jenWord (k.getD 4 0) (k.getD 5 0) (k.getD 6 0) (k.getD 7 0)
      hashv := s.hashv + jenWord (k.getD 8 0) (k.getD 9 0) (k.getD 10 0) (k.getD 11 0) }

theorem hashJenBlocks_append (whole : k.length = 12) (rest : CString) :
    hashJenBlocks s (k ++ rest) = hashJenBlocks (jenAbsorb s k) rest := by
  match k, whole with
  | [_, _, _, _, _, _, _, _, _, _, _, _], _ => rfl

theorem hashJenBlocks_short (short : k.length < 12) : hashJenBlocks s k = (s, k) := by
  unfold hashJenBlocks
  split
  · simp only [List.length_cons] at short
    omega
  · rfl

/-- Bytes of a length that agree up to it are the same. -/
theorem bytes_eq (sameLength : k.length = k'.length)
    (same : ∀ n, n < k.length → k.getD n 0 = k'.getD n 0) : k = k' := by
  apply List.ext_getElem sameLength
  intro n here there
  have equal := same n here
  rwa [List.getD_eq_getElem?_getD, List.getD_eq_getElem?_getD, List.getElem?_eq_getElem here,
    List.getElem?_eq_getElem there] at equal

/-- Neither the state nor the block is lost. -/
theorem jenAbsorb_state (same : jenAbsorb s k = jenAbsorb s' k) : s = s' := by
  have sums := JenState.mk.inj (hashJenMix_injective same)
  exact JenState.ext ((BitVec.add_left_inj _).mp sums.1) ((BitVec.add_left_inj _).mp sums.2.1)
    ((BitVec.add_left_inj _).mp sums.2.2)

theorem jenAbsorb_block (whole : k.length = 12) (sameLength : k.length = k'.length)
    (same : jenAbsorb s k = jenAbsorb s k') : k = k' := by
  have sums := JenState.mk.inj (hashJenMix_injective same)
  have first := jenWord_inj ((BitVec.add_right_inj _).mp sums.1)
  have second := jenWord_inj ((BitVec.add_right_inj _).mp sums.2.1)
  have third := jenWord_inj ((BitVec.add_right_inj _).mp sums.2.2)
  refine bytes_eq sameLength fun n inside => ?_
  rw [whole] at inside
  interval_cases n
  · exact first.1
  · exact first.2.1
  · exact first.2.2.1
  · exact first.2.2.2
  · exact second.1
  · exact second.2.1
  · exact second.2.2.1
  · exact second.2.2.2
  · exact third.1
  · exact third.2.1
  · exact third.2.2.1
  · exact third.2.2.2

theorem hashJenTail_bytes (short : k.length < 12) (sameLength : k.length = k'.length)
    (same : hashJenTail s k = hashJenTail s k') : k = k' := by
  rw [hashJenTail_eq short, hashJenTail_eq (sameLength ▸ short)] at same
  have sums := JenState.mk.inj same
  have first := jenWord_inj ((BitVec.add_right_inj _).mp sums.1)
  have second := jenWord_inj ((BitVec.add_right_inj _).mp sums.2.1)
  have third := jenWord_inj ((BitVec.add_right_inj _).mp sums.2.2)
  refine bytes_eq sameLength fun n inside => ?_
  have below : n < 11 := by omega
  interval_cases n
  · exact first.1
  · exact first.2.1
  · exact first.2.2.1
  · exact first.2.2.2
  · exact second.1
  · exact second.2.1
  · exact second.2.2.1
  · exact second.2.2.2
  · exact third.2.1
  · exact third.2.2.1
  · exact third.2.2.2

theorem hashJenFrom_append (whole : k.length = 12) (rest : CString) (length : BitVec 32) :
    hashJenFrom s (k ++ rest) length = hashJenFrom (jenAbsorb s k) rest length := by
  rw [hashJenFrom, hashJenFrom, hashJenBlocks_append whole]

theorem hashJenFrom_short (short : k.length < 12) (length : BitVec 32) :
    hashJenFrom s k length = hashJenMix (hashJenTail { s with hashv := s.hashv + length } k) := by
  rw [hashJenFrom, hashJenBlocks_short short]

/-- The block in front of a key that has a whole one. -/
theorem first_block (long : 12 ≤ k.length) :
    (k.take 12).length = 12 ∧ k = k.take 12 ++ k.drop 12 :=
  ⟨by simp [long], (List.take_append_drop 12 k).symm⟩

/-- From different states the same bytes lead to different states. -/
theorem hashJenFrom_state (n : Nat) (bound : k.length < 12 * (n + 1))
    (same : hashJenFrom s k length = hashJenFrom s' k length) : s = s' := by
  induction n generalizing k s s' with
  | zero =>
    have short : k.length < 12 := by omega
    rw [hashJenFrom_short short, hashJenFrom_short short] at same
    have tails := hashJenMix_injective same
    rw [hashJenTail_eq short, hashJenTail_eq short] at tails
    have sums := JenState.mk.inj tails
    exact JenState.ext ((BitVec.add_left_inj _).mp sums.1) ((BitVec.add_left_inj _).mp sums.2.1)
      ((BitVec.add_left_inj _).mp ((BitVec.add_left_inj _).mp sums.2.2))
  | succ n ih =>
    by_cases short : k.length < 12
    · exact ih (by omega) same
    · obtain ⟨whole, split⟩ := first_block (Nat.le_of_not_lt short)
      rw [split, hashJenFrom_append whole, hashJenFrom_append whole] at same
      exact jenAbsorb_state (ih (by rw [List.length_drop]; omega) same)

/-- Bytes of one length that differ inside one block, at most, and lead to one state are the same. -/
theorem hashJenFrom_block (n : Nat) (bound : k.length < 12 * (n + 1))
    (sameLength : k.length = k'.length) (block : Nat)
    (elsewhere : ∀ i, i / 12 ≠ block → k[i]? = k'[i]?)
    (same : hashJenFrom s k length = hashJenFrom s k' length) : k = k' := by
  induction n generalizing k k' s block with
  | zero =>
    have short : k.length < 12 := by omega
    rw [hashJenFrom_short short, hashJenFrom_short (sameLength ▸ short)] at same
    exact hashJenTail_bytes short sameLength (hashJenMix_injective same)
  | succ n ih =>
    by_cases short : k.length < 12
    · rw [hashJenFrom_short short, hashJenFrom_short (sameLength ▸ short)] at same
      exact hashJenTail_bytes short sameLength (hashJenMix_injective same)
    · obtain ⟨whole, split⟩ := first_block (Nat.le_of_not_lt short)
      obtain ⟨whole', split'⟩ := first_block (sameLength ▸ Nat.le_of_not_lt short)
      rw [split, split', hashJenFrom_append whole, hashJenFrom_append whole'] at same
      have rests : (k.drop 12).length < 12 * (n + 1) := by
        rw [List.length_drop]
        omega
      have shorter : (k.drop 12).length = (k'.drop 12).length := by
        rw [List.length_drop, List.length_drop, sameLength]
      cases block with
      | zero =>
        -- The rests agree, so the blocks in front are what has to differ.
        have tails : k.drop 12 = k'.drop 12 := by
          apply List.ext_getElem?
          intro i
          rw [List.getElem?_drop, List.getElem?_drop]
          exact elsewhere _ (by omega)
        rw [← tails] at same
        have fronts := jenAbsorb_block whole (whole.trans whole'.symm)
          (hashJenFrom_state n rests same)
        rw [split, split', fronts, tails]
      | succ block =>
        have fronts : k.take 12 = k'.take 12 := by
          apply List.ext_getElem?
          intro i
          rw [List.getElem?_take, List.getElem?_take]
          split
          · exact elsewhere i (by omega)
          · rfl
        rw [fronts] at same
        have tails : k.drop 12 = k'.drop 12 := by
          refine ih rests shorter block (fun i other => ?_) same
          rw [List.getElem?_drop, List.getElem?_drop]
          exact elsewhere _ (by omega)
        rw [split, split', fronts, tails]

/-- Keys of one length that differ inside one block of twelve bytes leave `HASH_JEN` in different
states: what makes two of them collide is that one word of three is kept. -/
theorem hashJen_separates (sameLength : k.length = k'.length) (different : k ≠ k') (block : Nat)
    (elsewhere : ∀ i, i / 12 ≠ block → k[i]? = k'[i]?) :
    hashJenFrom jenInitial k (BitVec.ofNat 32 k.length) ≠
      hashJenFrom jenInitial k' (BitVec.ofNat 32 k'.length) := by
  intro same
  rw [← sameLength] at same
  have bound : k.length < 12 * (k.length / 12 + 1) := by omega
  exact different (hashJenFrom_block _ bound sameLength block elsewhere same)

/-- Two names that differ in one byte. -/
theorem hashJen_separates_names :
    hashJenFrom jenInitial [97, 98] (BitVec.ofNat 32 2) ≠
      hashJenFrom jenInitial [97, 99] (BitVec.ofNat 32 2) := by
  refine @hashJen_separates [97, 98] [97, 99] rfl (by decide) 0 ?_
  intro i outside
  have far : 12 ≤ i := by omega
  rw [List.getElem?_eq_none, List.getElem?_eq_none] <;> simp <;> omega

end Separation

end Mam.Vendor
