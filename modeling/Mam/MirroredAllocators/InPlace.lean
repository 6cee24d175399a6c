import Mathlib.Order.Bounds.Basic
import Mam.MirroredAllocators.Growth
import Mam.MirroredAllocators.RegionFits

/-! Which requests the current buffer serves. -/

namespace Mam.MirroredAllocators

open Mam.Library

/-- A success that keeps the current buffer and asks nothing of the platforms. The addresses
stored are those of one offset past the bytes in use. -/
structure InPlace (a : Allocator) (current : BuffDesc) (result : AllocResult) : Prop where
  code : result.code = .success
  calls : result.calls = []
  kept : ∃ after, after.self = current.self ∧
    result.allocator = { a with currentBuffer := some after }
  stored : ∃ offset, current.used ≤ offset ∧ result.stored =
    some (current.addr + BitVec.ofNat 64 offset, current.mAddr + BitVec.ofNat 64 offset)

/-- The offsets in the free tail at which the mirror address is aligned. -/
def BuffDesc.starts (b : BuffDesc) (alignment : SizeT) : Set Nat :=
  { offset | b.used ≤ offset ∧ alignment.toNat ∣ (b.mAddr + BitVec.ofNat 64 offset).toNat }

/-- From the first aligned offset on, the buffer holds at least the requested bytes. -/
def BuffDesc.HasRoom (b : BuffDesc) (size alignment : SizeT) : Prop :=
  ∃ offset, IsLeast (b.starts alignment) offset ∧ offset + size.toNat ≤ b.size.toNat

/-- Reduction to a word does not matter to a power of two. -/
private theorem dvd_mirror_iff {alignment : SizeT} (power : alignment.toNat.isPowerOfTwo)
    (mAddr : Addr) (offset : Nat) :
    alignment.toNat ∣ (mAddr + BitVec.ofNat 64 offset).toNat ↔ alignment.toNat ∣ mAddr.toNat + offset := by
  have divides := maskModulus_dvd (accepted_of_isPowerOfTwo power)
  rw [maskModulus_of_isPowerOfTwo power] at divides
  rw [BitVec.toNat_add, BitVec.toNat_ofNat, Nat.add_mod_mod, Nat.dvd_mod_iff divides]

/-- The padding leads to the first aligned offset. -/
theorem starts_isLeast (b : BuffDesc) {alignment : SizeT} (power : alignment.toNat.isPowerOfTwo) :
    IsLeast (b.starts alignment) (b.used + b.pad alignment) := by
  have positive := Nat.pos_of_isPowerOfTwo power
  have rounded : b.mAddr.toNat + (b.used + b.pad alignment) =
      roundUp (b.mAddr.toNat + b.used) alignment.toNat := by
    rw [roundUp, BuffDesc.pad, maskModulus_of_isPowerOfTwo power, Nat.add_assoc]
  constructor
  · refine ⟨Nat.le_add_right _ _, (dvd_mirror_iff power _ _).mpr ?_⟩
    rw [rounded]
    exact dvd_roundUp _ positive
  · intro offset start
    obtain ⟨above, aligned⟩ := start
    have least := roundUp_le positive (Nat.add_le_add_left above b.mAddr.toNat)
      ((dvd_mirror_iff power _ _).mp aligned)
    rw [← rounded] at least
    omega

theorem hasRoom_iff {b : BuffDesc} {size alignment : SizeT} (bounded : b.free.toNat ≤ b.size.toNat)
    (power : alignment.toNat.isPowerOfTwo) :
    b.HasRoom size alignment ↔ size.toNat + b.pad alignment ≤ b.free.toNat := by
  have first := starts_isLeast b power
  have used : b.used + b.free.toNat = b.size.toNat := Nat.sub_add_cancel bounded
  constructor
  · intro room
    obtain ⟨offset, least, fits⟩ := room
    rw [least.unique first] at fits
    omega
  · intro fits
    exact ⟨_, first, by omega⟩

/-- `_mam_allocator_alloc` stays in the current buffer exactly when the search there
succeeds. -/
theorem inPlace_iff_found {reply : Reply} {a : Allocator} {current : BuffDesc} {size alignment : SizeT}
    (present : a.currentBuffer = some current) (accepted : Accepted alignment)
    (bounded : current.free.toNat ≤ current.size.toNat) :
    (∃ result, allocInternal reply a size alignment = .ok result ∧ InPlace a current result) ↔
      (findInBuffer current size alignment).found = true := by
  constructor
  · intro served
    obtain ⟨result, returned, inPlace⟩ := served
    cases allocInternal_cases returned with
    | inPlace here found =>
      rw [here] at present
      cases present
      exact found
    | appendFailed here missed pushed => exact absurd inPlace.code (by simp [AllocResult.error])
    | unallocated retired grown refused =>
      exact absurd inPlace.code (by simp [AllocResult.error])
    | fresh retired grown served => exact absurd inPlace.calls (by simp)
  · intro found
    obtain ⟨free, same, _⟩ := found_spec bounded accepted found
    refine ⟨_, allocInternal_inPlace reply present found, rfl, rfl, ⟨_, ?_, rfl⟩, _,
      Nat.le_add_right current.used (current.pad alignment), ?_⟩
    · rw [same]
    · exact congrArg FindResult.stored same

/-- A search never takes the last byte of a buffer. -/
theorem findInBuffer_unfilled {b : BuffDesc} {size alignment : SizeT}
    (bounded : b.free.toNat ≤ b.size.toNat) (accepted : Accepted alignment)
    (unfilled : 0 < b.free.toNat) : 0 < (findInBuffer b size alignment).buffer.free.toNat := by
  cases found : (findInBuffer b size alignment).found with
  | true =>
    have below := (found_iff bounded accepted).mp found
    obtain ⟨free, same, spent⟩ := found_spec bounded accepted found
    rw [same]
    show 0 < free.toNat
    omega
  | false =>
    rw [not_found_spec found]
    exact unfilled

/-- No live buffer is full. -/
def Unfilled (a : Allocator) : Prop := ∀ b ∈ a.live, 0 < b.free.toNat

theorem unfilled_of_run {trace : List (Transition Allocator Event)} {final : Allocator}
    (run : Run trace final) : Unfilled final := by
  have both := run.invariant
    (fun a => ∀ b ∈ a.live, b.free.toNat ≤ b.size.toNat ∧ 0 < b.free.toNat)
    (fun b member => by simp [Allocator.create, Allocator.live] at member) ?_
  · exact fun b member => (both b member).2
  · intro pre event post before step
    refine step.effect.forall_live before ?_ ?_
    · intro self addr mAddr size valid covers
      have positive := valid.size_pos
      exact ⟨Nat.le_refl _, show 0 < size.toNat by omega⟩
    · intro b good valid
      obtain ⟨bounded, unfilled⟩ := good
      exact ⟨findInBuffer_bounded valid.alignment bounded,
        findInBuffer_unfilled bounded valid.alignment unfilled⟩

/-- In every reachable state no buffer is full, and the current buffer serves what it
has room for exactly where the request would not fill it. -/
theorem inPlace_iff_hasRoom {trace : List (Transition Allocator Event)} {final : Allocator}
    (run : Run trace final) {current : BuffDesc} (present : final.currentBuffer = some current)
    (reply : Reply) (size alignment : SizeT) (small : size.toNat ≤ 2 ^ 63)
    (power : alignment.toNat.isPowerOfTwo) :
    Unfilled final ∧
      (((∃ result, allocInternal reply final size alignment = .ok result ∧
          InPlace final current result) ↔ current.HasRoom size alignment) ↔
        size.toNat + current.pad alignment ≠ current.free.toNat) := by
  have bounded := (wellFormed_of_run run).bounded current (Allocator.mem_live_of_current present)
  refine ⟨unfilled_of_run run, ?_⟩
  rw [inPlace_iff_found present (accepted_of_isPowerOfTwo power) bounded,
    found_iff_of_power bounded power small, hasRoom_iff bounded power]
  omega

/-- A first request for 100 bytes, after which the page obtained for it is current. -/
def firstRequest : List (Request × Reply) :=
  [(⟨100, none, true, true, true⟩, ⟨0x10000, 0x20004, true, true⟩)]

theorem firstRequest_hasRoom :
    Unfilled (replay respond Allocator.create firstRequest).2 ∧
      (((∃ result, allocInternal ⟨0, 0, false, false⟩ (replay respond Allocator.create firstRequest).2
            64 64 = .ok result ∧
          InPlace (replay respond Allocator.create firstRequest).2 servedPage result) ↔
        servedPage.HasRoom 64 64) ↔ (64 : SizeT).toNat + servedPage.pad 64 ≠ servedPage.free.toNat) :=
  inPlace_iff_hasRoom (replay_run firstRequest) (by decide +kernel) ⟨0, 0, false, false⟩ 64 64
    (by decide) ⟨6, rfl⟩

/-- A request for exactly the bytes that are left is not served from them. -/
theorem exact_fit_missed : ¬ ∀ (trace : List (Transition Allocator Event)) (final : Allocator),
    Run trace final → ∀ current, final.currentBuffer = some current →
    ∀ (reply : Reply) (size alignment : SizeT), size ≠ 0 → size.toNat ≤ 2 ^ 63 →
      alignment.toNat.isPowerOfTwo →
      ((∃ result, allocInternal reply final size alignment = .ok result ∧
        InPlace final current result) ↔ current.HasRoom size alignment) := by
  intro promised
  have present : (replay respond Allocator.create firstRequest).2.currentBuffer = some servedPage := by
    decide +kernel
  have served := promised _ _ (replay_run firstRequest) servedPage present ⟨0, 0, false, false⟩
    3996 1 (by decide) (by decide) ⟨0, rfl⟩
  have room : servedPage.HasRoom 3996 1 := (hasRoom_iff (by decide) ⟨0, rfl⟩).mpr (by decide)
  rw [inPlace_iff_found present accepted_one (by decide)] at served
  have found := served.mpr room
  revert found
  decide

end Mam.MirroredAllocators
