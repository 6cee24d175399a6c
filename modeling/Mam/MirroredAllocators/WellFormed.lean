import Mathlib.Data.List.Nodup
import Mam.MirroredAllocators.Calls
import Mam.MirroredAllocators.Growth

namespace Mam.MirroredAllocators

open Mam.Library

/-- Every live buffer has its free tail inside it, and descriptors are numbered in
order of creation. -/
structure Allocator.WellFormed (a : Allocator) : Prop where
  bounded : ∀ b ∈ a.live, b.free.toNat ≤ b.size.toNat
  numbered : a.live.map BuffDesc.self = List.range a.nextDesc

theorem create_wellFormed : Allocator.create.WellFormed := by
  constructor <;> simp [Allocator.create, Allocator.live]

theorem Allocator.WellFormed.older {a : Allocator} (wellFormed : a.WellFormed) {b : BuffDesc}
    (member : b ∈ a.live) : b.self < a.nextDesc := by
  have listed : b.self ∈ a.live.map BuffDesc.self := List.mem_map_of_mem member
  rw [wellFormed.numbered] at listed
  exact List.mem_range.mp listed

theorem Allocator.WellFormed.nextDesc_eq {a : Allocator} (wellFormed : a.WellFormed) :
    a.nextDesc = a.live.length := by
  have lengths := congrArg List.length wellFormed.numbered
  simpa using lengths.symm

/-- A descriptor is known by its number. -/
theorem Allocator.WellFormed.eq_of_self {a : Allocator} (wellFormed : a.WellFormed)
    {first second : BuffDesc} (one : first ∈ a.live) (two : second ∈ a.live)
    (same : first.self = second.self) : first = second := by
  have distinct : (a.live.map BuffDesc.self).Nodup := by
    rw [wellFormed.numbered]
    exact List.nodup_range
  exact List.inj_on_of_nodup_map distinct one two same

/-- A search never moves a buffer, and never adds to its free bytes. -/
theorem findInBuffer_buffer (b : BuffDesc) (size alignment : SizeT) (accepted : Accepted alignment)
    (bounded : b.free.toNat ≤ b.size.toNat) :
    (findInBuffer b size alignment).buffer.self = b.self ∧
      (findInBuffer b size alignment).buffer.size = b.size ∧
      (findInBuffer b size alignment).buffer.free.toNat ≤ b.free.toNat := by
  cases found : (findInBuffer b size alignment).found with
  | true =>
    obtain ⟨free, same, spent⟩ := found_spec bounded accepted found
    rw [same]
    exact ⟨rfl, rfl, by show free.toNat ≤ b.free.toNat; omega⟩
  | false =>
    rw [not_found_spec found]
    exact ⟨rfl, rfl, Nat.le_refl _⟩

/-- A search keeps the free tail inside the buffer. -/
theorem findInBuffer_bounded {b : BuffDesc} {size alignment : SizeT} (accepted : Accepted alignment)
    (bounded : b.free.toNat ≤ b.size.toNat) :
    (findInBuffer b size alignment).buffer.free.toNat ≤
      (findInBuffer b size alignment).buffer.size.toNat := by
  obtain ⟨_, same, less⟩ := findInBuffer_buffer b size alignment accepted bounded
  rw [same]
  exact Nat.le_trans less bounded

theorem Allocator.mem_live_of_current {a : Allocator} {current : BuffDesc}
    (present : a.currentBuffer = some current) : current ∈ a.live := by
  simp [Allocator.live, present]

/-- Serving in place replaces the last live buffer. -/
theorem live_inPlace {a : Allocator} {current : BuffDesc} (next : BuffDesc)
    (present : a.currentBuffer = some current) :
    a.live = a.buffers.elems ++ [current] ∧
      ({ a with currentBuffer := some next } : Allocator).live = a.buffers.elems ++ [next] := by
  simp [Allocator.live, present]

/-- What holds of every live buffer and of a new one that covers the request, and is kept
by the search of a valid request, holds of every live buffer after the call. -/
theorem Effect.forall_live {P : BuffDesc → Prop} {pre post : Allocator} {event : Event}
    (effect : Effect pre event post) (old : ∀ b ∈ pre.live, P b)
    (fresh : ∀ self addr mAddr size, event.request.Valid →
      event.request.size.toNat ≤ size.toNat → P (.fresh self addr mAddr size))
    (kept : ∀ b, P b → event.request.Valid →
      P (findInBuffer b event.request.size event.request.align).buffer) :
    ∀ b ∈ post.live, P b := by
  cases effect with
  | failed failure code stored live totalSize nextDesc =>
    rw [live]
    exact old
  | @inPlace current valid present found code stored desc same =>
    obtain ⟨before, after⟩ := live_inPlace
      (findInBuffer current event.request.size event.request.align).buffer present
    rw [same, after]
    rw [before] at old
    intro b member
    rcases List.mem_append.mp member with front | last
    · exact old b (List.mem_append_left _ front)
    · obtain rfl := List.mem_singleton.mp last
      exact kept current (old current (by simp)) valid
  | fresh valid missed appendable grown serves code stored desc calls here live totalSize nextDesc =>
    rw [live]
    intro b member
    rcases List.mem_append.mp member with front | last
    · exact old b front
    · obtain rfl := List.mem_singleton.mp last
      exact kept _ (fresh _ _ _ _ valid (le_of_growLoop grown)) valid

theorem Step.wellFormed {pre post : Allocator} {event : Event} (wellFormed : pre.WellFormed)
    (step : Step pre event post) : post.WellFormed := by
  obtain ⟨bounded, numbered⟩ := wellFormed
  have effect := step.effect
  constructor
  · refine effect.forall_live bounded (fun _ _ _ _ _ _ => Nat.le_refl _) ?_
    exact fun b mine valid => findInBuffer_bounded valid.alignment mine
  · cases effect with
    | failed failure code stored live totalSize nextDesc =>
      rw [live, nextDesc]
      exact numbered
    | @inPlace current valid present found code stored desc same =>
      obtain ⟨self, _, _⟩ := findInBuffer_buffer current event.request.size event.request.align
        valid.alignment (bounded current (Allocator.mem_live_of_current present))
      obtain ⟨before, after⟩ := live_inPlace
        (findInBuffer current event.request.size event.request.align).buffer present
      rw [before] at numbered
      rw [same, after]
      simpa [self] using numbered
    | @fresh asked valid missed appendable grown serves code stored desc calls here live totalSize nextDesc =>
      obtain ⟨self, _, _⟩ := findInBuffer_buffer
        (.fresh pre.nextDesc event.reply.alloc1 event.reply.alloc2 asked)
        event.request.size event.request.align valid.alignment (Nat.le_refl _)
      rw [live, nextDesc, List.map_append, numbered, List.range_succ, List.map_singleton, self]
      rfl

theorem wellFormed_of_run {trace : List (Transition Allocator Event)} {final : Allocator}
    (run : Run trace final) : final.WellFormed :=
  run.invariant Allocator.WellFormed create_wellFormed
    fun _ _ _ wellFormed step => step.wellFormed wellFormed

theorem Retired.counted {reply : Reply} {a base : Allocator} {size alignment : SizeT}
    (retired : Retired reply a size alignment base) (counted : a.buffers.Counted) :
    base.buffers.Counted := by
  cases retired with
  | untouched absent => exact counted
  | listed present missed pushed => exact counted.pushBack_stored pushed

/-- The length of the list of retired buffers never wraps. -/
theorem Step.counted {pre post : Allocator} {event : Event} (counted : pre.buffers.Counted)
    (step : Step pre event post) : post.buffers.Counted := by
  obtain ⟨returned, rfl⟩ := step
  rcases call_cases returned with ⟨invalid, rejected⟩ | ⟨valid, inner, internal, handed⟩
  · rw [rejected]
    exact counted
  · rw [handed]
    cases internal with
    | inPlace present found => exact counted
    | appendFailed present missed pushed => exact counted.pushBack_oom pushed
    | unallocated retired grown refused => exact retired.counted counted
    | fresh retired grown served => exact retired.counted counted

theorem counted_of_run {trace : List (Transition Allocator Event)} {final : Allocator}
    (run : Run trace final) : final.buffers.Counted :=
  run.invariant (fun a => a.buffers.Counted) Vendor.UTArray.init_counted
    fun _ _ _ counted step => step.counted counted

end Mam.MirroredAllocators
