import Mam.Library.Doubling
import Mam.MirroredAllocators.Regions
import Mam.MirroredAllocators.Served

/-! How the sizes of the buffers grow. -/

namespace Mam.MirroredAllocators

open Mam.Library

/-- The sizes of the live buffers, oldest first. -/
def Allocator.sizes (a : Allocator) : List Nat := a.live.map (·.size.toNat)

/-- What a new buffer's size has to do with the buffers before it and the request. -/
structure Enlarges (earlier request size : Nat) : Prop where
  covers : earlier ≤ size
  serves : request ≤ size
  tight : max 4096 earlier < size → size < 2 * request

/-- Where the sizes of a state add up to less than `2 ^ 64`, `total_size` is their sum. -/
structure Summed (a : Allocator) : Prop where
  total : a.totalSize.toNat = a.sizes.sum
  pages : 4096 ∣ a.sizes.sum
  doubling : Doubling 4096 a.sizes

/-- The sizes after a call: as before, or with that of a new buffer. -/
inductive Growth (pre : Allocator) (request : Request) (post : Allocator) : Prop where
  | kept (sizes : post.sizes = pre.sizes) (total : post.totalSize = pre.totalSize)
  | grown {asked : SizeT} (sizes : post.sizes = pre.sizes ++ [asked.toNat])
      (chosen : buffAllocSize pre.totalSize request.size = some asked)
      (total : post.totalSize = pre.totalSize + asked)

theorem Step.growth {pre post : Allocator} {event : Event} (step : Step pre event post) :
    Growth pre event.request post := by
  cases step.effect with
  | failed failure code stored live totalSize nextDesc =>
    exact .kept (by rw [Allocator.sizes, live]; rfl) totalSize
  | @inPlace current valid present found code stored desc same =>
    obtain ⟨before, after⟩ := live_inPlace
      (findInBuffer current event.request.size event.request.align).buffer present
    subst same
    refine .kept ?_ rfl
    rw [Allocator.sizes, Allocator.sizes, after, before]
    simp [(findInBuffer_blocks current event.request.size event.request.align).2.2]
  | @fresh asked valid missed appendable grown serves code stored desc calls here live totalSize nextDesc =>
    refine .grown ?_ grown totalSize
    rw [Allocator.sizes, live, List.map_append, List.map_singleton, (findInBuffer_blocks _ _ _).2.2]
    rfl

/-- The size that the growth loop starts from is at least a page, and at least the total. -/
theorem startSize_bounds {totalSize : SizeT} (pages : 4096 ∣ totalSize.toNat) :
    4096 ∣ (startSize totalSize).toNat ∧
      (startSize totalSize).toNat = max 4096 totalSize.toNat := by
  unfold startSize
  split
  · rename_i zero
    rw [zero]
    decide
  · rename_i nonzero
    have positive : totalSize.toNat ≠ 0 := fun zero => nonzero (BitVec.eq_of_toNat_eq zero)
    refine ⟨pages, ?_⟩
    have least := Nat.le_of_dvd (Nat.pos_of_ne_zero positive) pages
    omega

/-- The size chosen is a multiple of the page size that enlarges what there is. -/
theorem buffAllocSize_enlarges {totalSize size asked : SizeT} (pages : 4096 ∣ totalSize.toNat)
    (small : size.toNat ≤ 2 ^ 63) (chosen : buffAllocSize totalSize size = some asked) :
    4096 ∣ asked.toNat ∧ 4096 ≤ asked.toNat ∧ Enlarges totalSize.toNat size.toNat asked.toNat := by
  obtain ⟨doublings, grown, value⟩ := buffAllocSize_spec small chosen
  obtain ⟨divides, start⟩ := startSize_bounds pages
  have larger : (startSize totalSize).toNat ≤ asked.toNat := by
    rw [value]
    exact Nat.le_mul_of_pos_right _ (Nat.two_pow_pos _)
  refine ⟨value ▸ Dvd.dvd.mul_right divides _, by omega, by omega, value ▸ grown.reached, ?_⟩
  intro more
  -- A size beyond the starting size was doubled at least once.
  cases doublings with
  | zero => omega
  | succ fewer =>
    have short := grown.least fewer (Nat.lt_succ_self _)
    rw [value, Nat.pow_succ, ← Nat.mul_assoc]
    omega

theorem create_summed : Summed Allocator.create := ⟨rfl, Nat.dvd_zero _, .nil⟩

/-- Sizes are only ever added. -/
theorem Growth.sum_le {pre post : Allocator} {request : Request} (growth : Growth pre request post) :
    pre.sizes.sum ≤ post.sizes.sum := by
  cases growth with
  | kept sizes total => rw [sizes]
  | grown sizes chosen total =>
    rw [sizes, List.sum_append]
    exact Nat.le_add_right _ _

/-- A call keeps the sum, and a new buffer enlarges what there was. -/
theorem Summed.step {pre post : Allocator} {request : Request} (summed : Summed pre)
    (growth : Growth pre request post) (small : request.size.toNat ≤ 2 ^ 63)
    (fits : post.sizes.sum < 2 ^ 64) :
    Summed post ∧ (post.sizes = pre.sizes ∨ ∃ size, post.sizes = pre.sizes ++ [size] ∧
      Enlarges pre.sizes.sum request.size.toNat size) := by
  cases growth with
  | kept sizes total => exact ⟨⟨by rw [total, sizes, summed.total], sizes ▸ summed.pages,
      sizes ▸ summed.doubling⟩, .inl sizes⟩
  | @grown asked sizes chosen total =>
    have pages : 4096 ∣ pre.totalSize.toNat := summed.total ▸ summed.pages
    obtain ⟨divides, least, enlarges⟩ := buffAllocSize_enlarges pages small chosen
    rw [summed.total] at enlarges
    have sum : post.sizes.sum = pre.sizes.sum + asked.toNat := by
      rw [sizes, List.sum_append, List.sum_singleton]
    refine ⟨⟨?_, ?_, ?_⟩, .inr ⟨_, sizes, enlarges⟩⟩
    · rw [total, BitVec.toNat_add, summed.total, sum]
      exact Nat.mod_eq_of_lt (sum ▸ fits)
    · rw [sum]
      exact Nat.dvd_add summed.pages divides
    · rw [sizes]
      exact .snoc summed.doubling least enlarges.covers

section Runs

variable {trace : List (Transition Allocator Event)} {final : Allocator}

/-- A state of a run, if its sizes add up to less than `2 ^ 64`. -/
theorem summed_of_run (run : Run trace final)
    (small : ∀ entry ∈ trace, entry.label.request.size.toNat ≤ 2 ^ 63)
    (fits : final.sizes.sum < 2 ^ 64) : Summed final := by
  refine run.invariant_within (fun a => a.sizes.sum < 2 ^ 64 → Summed a)
    (fun entry => entry.label.request.size.toNat ≤ 2 ^ 63) (fun _ => create_summed) ?_ small fits
  intro pre event post before step small fits
  have summed := before (Nat.lt_of_le_of_lt step.growth.sum_le fits)
  exact (summed.step step.growth small fits).1

/-- The host blocks of the live buffers, each with its size. -/
def Allocator.hostSpans (a : Allocator) : List (Nat × Nat) :=
  a.live.map fun b => (b.addr.toNat, b.size.toNat)

/-- Blocks that share no address, of which none is NULL or wraps. -/
structure Separate (spans : List (Nat × Nat)) : Prop where
  apart : spans.Pairwise fun s t => Disjoint (span s.1 s.2) (span t.1 t.2)
  inside : ∀ s ∈ spans, 1 ≤ s.1 ∧ s.1 + s.2 ≤ 2 ^ 64

theorem Step.separate {pre post : Allocator} {event : Event} (step : Step pre event post)
    (honest : ∀ call ∈ event.result.calls, call.Honest pre.live) (separate : Separate pre.hostSpans) :
    Separate post.hostSpans := by
  cases step.effect with
  | failed failure code stored live totalSize nextDesc =>
    rw [Allocator.hostSpans, live]
    exact separate
  | @inPlace current valid present found code stored desc same =>
    obtain ⟨before, after⟩ := live_inPlace
      (findInBuffer current event.request.size event.request.align).buffer present
    obtain ⟨host, _, size⟩ := findInBuffer_blocks current event.request.size event.request.align
    subst same
    rw [Allocator.hostSpans, before] at separate
    rw [Allocator.hostSpans, after]
    simpa [host, size] using separate
  | @fresh asked valid missed appendable grown serves code stored desc calls here live totalSize nextDesc =>
    have fresh : post.hostSpans = pre.hostSpans ++ [(event.reply.alloc1.toNat, asked.toNat)] := by
      rw [Allocator.hostSpans, live, List.map_append, List.map_singleton,
        (findInBuffer_blocks _ _ _).1, (findInBuffer_blocks _ _ _).2.2]
      rfl
    obtain ⟨fits, apart⟩ := honest (.alloc .host asked event.reply.alloc1) (by simp [calls])
      serves.alloc1
    rw [fresh]
    refine ⟨List.pairwise_append.mpr ⟨separate.apart, List.pairwise_singleton _ _, ?_⟩, ?_⟩
    · intro s old t new
      obtain ⟨b, member, rfl⟩ := List.mem_map.mp old
      obtain rfl := List.mem_singleton.mp new
      exact apart b member
    · intro s member
      rcases List.mem_append.mp member with old | new
      · exact separate.inside s old
      · obtain rfl := List.mem_singleton.mp new
        have nonzero : event.reply.alloc1.toNat ≠ 0 := fun zero =>
          serves.alloc1 (BitVec.eq_of_toNat_eq zero)
        exact ⟨Nat.pos_of_ne_zero nonzero, fits⟩

/-- Platforms whose blocks are apart leave no room for sizes that add up to `2 ^ 64`. -/
theorem sum_lt_of_honest (run : Run trace final)
    (honest : ∀ entry ∈ trace, ∀ call ∈ entry.label.result.calls, call.Honest entry.pre.live) :
    final.sizes.sum < 2 ^ 64 := by
  obtain ⟨apart, inside⟩ := run.invariant_within (fun a => Separate a.hostSpans)
    (fun entry => ∀ call ∈ entry.label.result.calls, call.Honest entry.pre.live)
    ⟨.nil, fun _ member => nomatch member⟩
    (fun _ _ _ separate step honest => step.separate honest separate) honest
  have bound := sum_le_of_disjoint apart inside
  have same : final.hostSpans.map (·.2) = final.sizes := by
    simp [Allocator.hostSpans, Allocator.sizes]
  rw [same] at bound
  omega

/-- In a run with sizes up to `2 ^ 63`, platforms whose blocks are apart keep the sizes of
the live buffers below `2 ^ 64` in sum; and as long as they are, `total_size` is that sum
and whole pages, every new buffer enlarges what there was, sizes grow geometrically, and
there are at most 52 buffers. -/
theorem buffers_grow_geometrically (run : Run trace final)
    (small : ∀ entry ∈ trace, entry.label.request.size.toNat ≤ 2 ^ 63) :
    ((∀ entry ∈ trace, ∀ call ∈ entry.label.result.calls, call.Honest entry.pre.live) →
      final.sizes.sum < 2 ^ 64) ∧
    (final.sizes.sum < 2 ^ 64 →
      final.totalSize.toNat = final.sizes.sum ∧ 4096 ∣ final.totalSize.toNat ∧
      (∀ entry ∈ trace, entry.post.sizes = entry.pre.sizes ∨
        ∃ size, entry.post.sizes = entry.pre.sizes ++ [size] ∧
          Enlarges entry.pre.sizes.sum entry.label.request.size.toNat size) ∧
      (final.live ≠ [] → 4096 * 2 ^ (final.live.length - 1) ≤ final.totalSize.toNat) ∧
      final.live.length ≤ 52) := by
  refine ⟨sum_lt_of_honest run, fun fits => ?_⟩
  have summed := summed_of_run run small fits
  have length : final.live.length = final.sizes.length := by simp [Allocator.sizes]
  refine ⟨summed.total, summed.total ▸ summed.pages, ?_, ?_, ?_⟩
  · intro entry member
    obtain ⟨earlier, later, same, before, step, rest⟩ := run.split member
    -- Sums only grow, so that of every earlier state is below the bound too.
    have below : entry.post.sizes.sum ≤ final.sizes.sum :=
      rest.invariant (fun a => entry.post.sizes.sum ≤ a.sizes.sum) (Nat.le_refl _)
        fun _ _ _ least step => Nat.le_trans least step.growth.sum_le
    have now := Nat.lt_of_le_of_lt below fits
    have summed := summed_of_run before
      (fun entry member => small entry (by rw [same]; simp [member]))
      (Nat.lt_of_le_of_lt step.growth.sum_le now)
    exact (summed.step step.growth (small entry member) now).2
  · intro nonempty
    rw [summed.total, length]
    refine summed.doubling.le_sum fun empty => nonempty ?_
    simpa [Allocator.sizes] using empty
  · rw [length]
    exact summed.doubling.length_le fits

theorem growingRequests_grow :
    (replay respond Allocator.create growingRequests).2.sizes = [4096, 8192] ∧
      (replay respond Allocator.create growingRequests).2.totalSize.toNat =
        (replay respond Allocator.create growingRequests).2.sizes.sum ∧
      (replay respond Allocator.create growingRequests).2.live.length ≤ 52 := by
  obtain ⟨bounded, grows⟩ := buffers_grow_geometrically (replay_run growingRequests)
    (by decide +kernel)
  obtain ⟨total, _, _, _, few⟩ := grows (bounded (by decide +kernel))
  exact ⟨by decide +kernel, total, few⟩

end Runs

end Mam.MirroredAllocators
