import Mam.Library.Pool
import Mam.MirroredAllocators.Geometric

/-! What the buffers of an allocator take, set against what was asked of it. -/

namespace Mam.MirroredAllocators

open Mam.Library Mam.Vendor

/-- The bytes that a request takes of a buffer at most; a request that is rejected takes none. -/
def Request.demand (request : Request) : Nat :=
  if request.Valid then request.size.toNat + (maskModulus request.align - 1) else 0

/-- What the requests of a run can take at most, those that failed included. -/
def demanded (trace : List (Transition Allocator Event)) : Nat :=
  (trace.map fun entry => entry.label.request.demand).sum

/-- The allocator as a pool: the buffers in the list are closed, the current one is open. -/
def Allocator.pool (a : Allocator) : Pool :=
  { closed := (a.buffers.elems.map (·.size.toNat)).sum
    current := a.currentBuffer.map fun b => (b.size.toNat, b.used) }

section Answers

variable {a base : Allocator} {b : BuffDesc} {request : Request} {reply : Reply}

theorem Allocator.pool_room (a : Allocator) : a.pool.room = a.sizes.sum := by
  cases present : a.currentBuffer <;>
    simp [Allocator.pool, Pool.room, Allocator.sizes, Allocator.live, present]

theorem Allocator.pool_closed (absent : a.currentBuffer = none) : a.pool = ⟨a.sizes.sum, none⟩ := by
  simp [Allocator.pool, Allocator.sizes, Allocator.live, absent]

theorem Allocator.pool_open (present : a.currentBuffer = some b) :
    a.pool = ⟨(a.buffers.elems.map (·.size.toNat)).sum, some (b.size.toNat, b.used)⟩ := by
  simp [Allocator.pool, present]

theorem Request.Valid.demand_eq (valid : request.Valid) :
    request.demand = request.size.toNat + (maskModulus request.align - 1) :=
  if_pos valid

/-- The padding that a buffer needs is less than the alignment. -/
theorem need_le_demand (b : BuffDesc) (valid : request.Valid) : b.need request ≤ request.demand := by
  rw [valid.demand_eq]
  exact Nat.add_le_add_left (Nat.le_sub_one_of_lt (b.pad_lt request.align)) _

/-- A search takes no more of a buffer than the demand. -/
theorem search_spends (valid : request.Valid) (bounded : b.free.toNat ≤ b.size.toNat) :
    ∃ more ≤ request.demand,
      (findInBuffer b request.size request.align).buffer.used = b.used + more := by
  cases found : (findInBuffer b request.size request.align).found with
  | false =>
    rw [not_found_spec found]
    exact ⟨0, Nat.zero_le _, rfl⟩
  | true =>
    obtain ⟨free, same, spent⟩ := found_spec bounded valid.alignment found
    refine ⟨b.need request % 2 ^ 64,
      Nat.le_trans (Nat.mod_le _ _) (need_le_demand b valid), ?_⟩
    have spent : free.toNat + b.need request % 2 ^ 64 = b.free.toNat := spent
    rw [same]
    show b.size.toNat - free.toNat = b.size.toNat - b.free.toNat + b.need request % 2 ^ 64
    omega

/-- A buffer in which the search fails has no room for the demand. -/
theorem missed_short (wellFormed : a.WellFormed) (valid : request.Valid)
    (present : a.currentBuffer = some b)
    (missed : (findInBuffer b request.size request.align).found = false) :
    b.size.toNat ≤ b.used + request.demand := by
  have free : b.free.toNat ≤ request.demand := by
    calc b.free.toNat
        ≤ b.need request % 2 ^ 64 := (current_missed_iff wellFormed valid present).mp missed
      _ ≤ b.need request := Nat.mod_le _ _
      _ ≤ request.demand := need_le_demand b valid
  have bounded := wellFormed.bounded b (Allocator.mem_live_of_current present)
  simp only [BuffDesc.used]
  omega

/-- Putting the current buffer in the list closes it. -/
theorem Retired.closes (retired : Retired reply a request.size request.align base)
    (wellFormed : a.WellFormed) (valid : request.Valid) :
    Pool.Closes request.demand a.pool base.sizes.sum := by
  rw [Allocator.sizes, retired.live]
  cases retired with
  | untouched absent =>
    rw [Allocator.pool_closed absent]
    exact .absent
  | @listed current buffers present missed pushed =>
    have sizes : (a.live.map (·.size.toNat)).sum =
        (a.buffers.elems.map (·.size.toNat)).sum + current.size.toNat := by
      simp [Allocator.live, present]
    rw [Allocator.pool_open present, sizes]
    exact .short (missed_short wellFormed valid present missed)

/-- A call answers its demand. -/
theorem Step.answer {pre post : Allocator} {event : Event} (step : Step pre event post)
    (wellFormed : pre.WellFormed) (summed : Summed pre)
    (small : event.request.size.toNat ≤ 2 ^ 63) :
    Pool.Answer 4096 event.request.demand pre.pool post.pool := by
  obtain ⟨returned, rfl⟩ := step
  rcases call_cases returned with ⟨invalid, rejected⟩ | ⟨valid, inner, internal, handed⟩
  · rw [rejected]
    exact .stay
  · rw [handed]
    cases internal with
    | @inPlace current present found =>
      have bounded := wellFormed.bounded current (Allocator.mem_live_of_current present)
      obtain ⟨more, within, used⟩ := search_spends valid bounded
      have size := (findInBuffer_blocks current event.request.size event.request.align).2.2
      simp only [Allocator.pool, AllocResult.forCaller, present, Option.map_some, size, used]
      exact .spend within
    | @appendFailed current buffers present missed pushed =>
      have same : buffers.elems = pre.buffers.elems := UTArray.pushBack_oom pushed
      simp only [Allocator.pool, AllocResult.forCaller, AllocResult.error, same]
      exact .stay
    | @unallocated base asked retired grown refused =>
      show Pool.Answer 4096 event.request.demand pre.pool base.pool
      rw [Allocator.pool_closed retired.currentBuffer]
      exact .close (retired.closes wellFormed valid)
    | @fresh base asked retired grown served =>
      have before := retired.closes wellFormed valid
      have bare := Allocator.pool_closed retired.currentBuffer
      have sizes : base.sizes.sum = pre.totalSize.toNat := by
        rw [summed.total, Allocator.sizes, retired.live]
        rfl
      rw [retired.totalSize] at grown
      obtain ⟨_, least, enlarges⟩ :=
        buffAllocSize_enlarges (summed.total ▸ summed.pages) small grown
      obtain ⟨more, within, used⟩ := search_spends (b := .fresh base.nextDesc event.reply.alloc1
        event.reply.alloc2 asked) valid (Nat.le_refl _)
      have size := (findInBuffer_blocks (.fresh base.nextDesc event.reply.alloc1 event.reply.alloc2
        asked) event.request.size event.request.align).2.2
      have closed : (base.buffers.elems.map (·.size.toNat)).sum = base.sizes.sum :=
        congrArg Pool.closed bare
      simp only [Allocator.pool, AllocResult.forCaller, Option.map_some, size, used, closed]
      refine .renew before (Nat.le_trans (Nat.le_of_eq ?_) within) least fun larger => ?_
      · simp [BuffDesc.used, BuffDesc.fresh]
      · refine Nat.lt_of_lt_of_le (enlarges.tight (sizes ▸ larger)) (Nat.mul_le_mul_left 2 ?_)
        rw [valid.demand_eq]
        exact Nat.le_add_right _ _

end Answers

section Runs

variable {trace : List (Transition Allocator Event)} {final : Allocator}

/-- What was asked pays for what the buffers take. -/
theorem paid_of_run (run : Run trace final)
    (small : ∀ entry ∈ trace, entry.label.request.size.toNat ≤ 2 ^ 63)
    (fits : final.sizes.sum < 2 ^ 64) : Pool.Paid 4096 (demanded trace) final.pool := by
  have along := run.invariant_along
    (fun history a => a.WellFormed ∧ (a.sizes.sum < 2 ^ 64 →
      Summed a ∧ Pool.Paid 4096 (demanded history) a.pool))
    (fun entry => entry.label.request.size.toNat ≤ 2 ^ 63) ?_ ?_ small
  · exact (along.2 fits).2
  · refine ⟨create_wellFormed, fun _ => ⟨create_summed, Nat.le_refl 0, .inl rfl, ?_⟩⟩
    intro size used present
    cases present
  · rintro history pre event post ⟨wellFormed, before⟩ step small
    refine ⟨step.wellFormed wellFormed, fun fits => ?_⟩
    obtain ⟨summed, paid⟩ := before (Nat.lt_of_le_of_lt step.growth.sum_le fits)
    have longer : demanded (history ++ [⟨pre, event, post⟩]) =
        demanded history + event.request.demand := by
      simp [demanded]
    rw [longer]
    exact ⟨(summed.step step.growth small fits).1, (step.answer wellFormed summed small).paid paid⟩

/-- In a run with sizes up to `2 ^ 63`, as long as the sizes of the buffers add up to less than
`2 ^ 64`, they take at most four times what the requests can take, padding included, or are a
single page; and so their number is logarithmic in that. -/
theorem footprint_bounded (run : Run trace final)
    (small : ∀ entry ∈ trace, entry.label.request.size.toNat ≤ 2 ^ 63)
    (fits : final.sizes.sum < 2 ^ 64) :
    final.totalSize.toNat ≤ max 4096 (4 * demanded trace) ∧
      2 ^ (final.live.length - 1) ≤ max 1 (demanded trace / 1024) := by
  have summed := summed_of_run run small fits
  have room := (paid_of_run run small fits).room_le
  rw [Allocator.pool_room] at room
  refine ⟨summed.total ▸ room, ?_⟩
  by_cases empty : final.sizes = []
  · have none : final.live = [] := List.map_eq_nil_iff.mp empty
    rw [none]
    exact Nat.le_max_left _ _
  · have grown := summed.doubling.le_sum empty
    rw [Allocator.sizes, List.length_map] at grown
    have bound := Nat.le_trans grown room
    omega

theorem growingRequests_bounded :
    (replay respond Allocator.create growingRequests).2.totalSize.toNat ≤
        max 4096 (4 * demanded (replay respond Allocator.create growingRequests).1) ∧
      2 ^ ((replay respond Allocator.create growingRequests).2.live.length - 1) ≤
        max 1 (demanded (replay respond Allocator.create growingRequests).1 / 1024) :=
  footprint_bounded (replay_run growingRequests) (by decide +kernel) (by decide +kernel)

end Runs

end Mam.MirroredAllocators
