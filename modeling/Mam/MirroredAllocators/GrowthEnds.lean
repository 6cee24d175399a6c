import Mam.MirroredAllocators.Calls
import Mam.MirroredAllocators.Growth

/-! Whether the growth loop ends. -/

namespace Mam.MirroredAllocators

open Mam.Library

/-- The growth loop ends, and what is then asked of the platforms covers the request. -/
structure GrowthEnds (a : Allocator) (size : SizeT) : Prop where
  ends : ∃ tests asked,
    whileLoop (fun sz => sz < size) shifted tests (startSize a.totalSize) = some asked
  covers : ∀ reply alignment result, allocInternal reply a size alignment = .ok result →
    ∀ side asked addr, .alloc side asked addr ∈ result.calls → size.toNat ≤ asked.toNat

/-- Whatever `_mam_allocate_buffer` asks a platform for is the size it was given. -/
theorem allocateBuffer_asks {reply : Reply} {a : Allocator} {size asked : SizeT} {side : Side}
    {addr : Addr} (member : .alloc side asked addr ∈ (allocateBuffer reply a size).calls) :
    asked = size := by
  unfold allocateBuffer at member
  split at member
  · cases member
  · split at member
    · simp only [List.mem_singleton, PlatformCall.alloc.injEq] at member
      exact member.2.1
    · split at member <;>
        simp only [List.mem_cons, PlatformCall.alloc.injEq, reduceCtorEq, List.not_mem_nil,
          or_false] at member <;>
        rcases member with host | mirror
      · exact host.2.1
      · exact mirror.2.1
      · exact host.2.1
      · exact mirror.2.1

/-- The size asked of a platform covers the request. -/
theorem Internal.covers {reply : Reply} {a : Allocator} {size alignment asked : SizeT}
    {result : AllocResult} {side : Side} {addr : Addr} (internal : Internal reply a size alignment result)
    (member : .alloc side asked addr ∈ result.calls) : size.toNat ≤ asked.toNat := by
  cases internal with
  | inPlace present found => cases member
  | appendFailed present missed pushed => cases member
  | unallocated retired grown refused =>
    rw [allocateBuffer_asks member]
    exact le_of_growLoop grown
  | fresh retired grown served =>
    simp only [List.mem_cons, PlatformCall.alloc.injEq, List.not_mem_nil, or_false] at member
    have covered := le_of_growLoop grown
    rcases member with ⟨_, same, _⟩ | ⟨_, same, _⟩
    · rw [same]
      exact covered
    · rw [same]
      exact covered

/-- What is left of a number after it is shifted left in a word: its low bits, at the top. -/
theorem shifted_eq_low_bits (start : Nat) {bits : Nat} (within : bits ≤ 64) :
    start * 2 ^ (64 - bits) % 2 ^ 64 = start % 2 ^ bits * 2 ^ (64 - bits) := by
  have word : 2 ^ 64 = 2 ^ bits * 2 ^ (64 - bits) := by
    rw [← Nat.pow_add, Nat.add_sub_cancel' within]
  rw [word, Nat.mul_mod_mul_right]

/-- In every state the growth loop ends for every request up to `2 ^ 63`, and for a
larger one exactly when some low bits of its start, moved to the top of the word, reach it. -/
theorem growthEnds_iff (a : Allocator) (size : SizeT) :
    GrowthEnds a size ↔ size.toNat ≤ 2 ^ 63 ∨
      ∃ bits ≤ 64, size.toNat ≤ (startSize a.totalSize).toNat % 2 ^ bits * 2 ^ (64 - bits) := by
  have ends_iff : GrowthEnds a size ↔ ∃ asked, growLoop (startSize a.totalSize) size = some asked := by
    constructor
    · intro growth
      obtain ⟨tests, asked, ended⟩ := growth.ends
      exact ⟨asked, growLoop_complete ended⟩
    · intro ended
      obtain ⟨asked, ended⟩ := ended
      refine ⟨⟨growFuel, asked, ended⟩, ?_⟩
      intro reply alignment result returned side asked addr member
      exact (allocInternal_cases returned).covers member
  rw [ends_iff, growLoop_ends_iff]
  constructor
  · intro ended
    obtain ⟨shifts, bound, reached⟩ := ended
    refine .inr ⟨64 - shifts, Nat.sub_le _ _, ?_⟩
    rw [← shifted_eq_low_bits _ (Nat.sub_le _ _), Nat.sub_sub_self (Nat.le_of_lt_succ bound)]
    exact reached
  · intro either
    rcases either with small | reaching
    · obtain ⟨shifts, bound, top⟩ :=
        shifts_to_top (startSize_pos a.totalSize) (startSize a.totalSize).isLt
      exact ⟨shifts, by omega, Nat.le_trans small top⟩
    · obtain ⟨bits, within, reached⟩ := reaching
      refine ⟨64 - bits, by omega, ?_⟩
      rw [shifted_eq_low_bits _ within]
      exact reached

/-- On a new allocator the loop shifts 4096 out of the word: a request beyond `2 ^ 63`
never returns. -/
theorem huge_request_hangs : ¬ ∀ (trace : List (Transition Allocator Event)) (final : Allocator),
    Run trace final → ∀ size : SizeT, size ≠ 0 → GrowthEnds final size := by
  intro promised
  have growth := promised [] Allocator.create .nil 0x8000000000000001 (by decide)
  obtain ⟨tests, asked, ended⟩ := growth.ends
  have settled := growLoop_complete ended
  have endless : growLoop (startSize Allocator.create.totalSize) 0x8000000000000001 = none := by
    decide +kernel
  rw [endless] at settled
  cases settled

end Mam.MirroredAllocators
