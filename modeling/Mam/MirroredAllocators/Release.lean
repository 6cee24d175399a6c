import Mam.MirroredAllocators.WellFormed

/-! The blocks that the platform allocators give out and take back. -/

namespace Mam.MirroredAllocators

open Mam.Library Mam.Vendor

/-- The platform calls of `_mam_free_buffer`. -/
def freeBuffer (buffer : BuffDesc) : List PlatformCall :=
  [.free .host buffer.addr, .free .mirror buffer.mAddr]

/-- How `mam_allocator_destroy` leaves: its code, the platform calls it made, and the
descriptors it freed. -/
structure DestroyResult where
  code : MamError
  calls : List PlatformCall
  descs : List Nat
deriving DecidableEq, Repr

/-- `mam_allocator_destroy`. -/
def allocatorDestroy : Option Allocator → DestroyResult
  | none => { code := .einval, calls := [], descs := [] }
  | some a =>
    -- the list first, then the current buffer
    let released := a.buffers.visited ++ a.currentBuffer.toList
    { code := .success, calls := released.flatMap freeBuffer, descs := released.map (·.self) }

/-- The address a side gave out in a call, unless it was NULL. -/
def PlatformCall.obtained (side : Side) : PlatformCall → Option Addr
  | .alloc on _ addr => if on = side ∧ addr ≠ 0 then some addr else none
  | .free _ _ => none

/-- The address a side took back in a call. -/
def PlatformCall.released (side : Side) : PlatformCall → Option Addr
  | .alloc _ _ _ => none
  | .free on addr => if on = side then some addr else none

/-- The platform calls of a run, in order. -/
def platformCalls (trace : List (Transition Allocator Event)) : List PlatformCall :=
  trace.flatMap fun entry => entry.label.result.calls

/-- The addresses that a side gave out over some calls. -/
def obtained (side : Side) (calls : List PlatformCall) : List Addr :=
  calls.filterMap (·.obtained side)

/-- The addresses that a side took back over some calls. -/
def released (side : Side) (calls : List PlatformCall) : List Addr :=
  calls.filterMap (·.released side)

section Addresses

variable (side on : Side) (size : SizeT) (addr : Addr) (calls : List PlatformCall)

@[simp] theorem obtained_nil : obtained side [] = [] := rfl

@[simp] theorem released_nil : released side [] = [] := rfl

@[simp] theorem obtained_alloc : obtained side (.alloc on size addr :: calls) =
    if on = side ∧ addr ≠ 0 then addr :: obtained side calls else obtained side calls := by
  by_cases gave : on = side ∧ addr ≠ 0
  · rw [if_pos gave]
    exact List.filterMap_cons_some (if_pos gave)
  · rw [if_neg gave]
    exact List.filterMap_cons_none (if_neg gave)

@[simp] theorem obtained_free : obtained side (.free on addr :: calls) = obtained side calls := rfl

@[simp] theorem released_alloc :
    released side (.alloc on size addr :: calls) = released side calls := rfl

@[simp] theorem released_free : released side (.free on addr :: calls) =
    if on = side then addr :: released side calls else released side calls := by
  by_cases here : on = side
  · rw [if_pos here]
    exact List.filterMap_cons_some (if_pos here)
  · rw [if_neg here]
    exact List.filterMap_cons_none (if_neg here)

end Addresses

/-- The host block of a pair whose mirror block was refused is given back at once. -/
def GivenUp (calls : List PlatformCall) (side : Side) (addr : Addr) : Prop :=
  side = .host ∧ ∃ size, calls = [.alloc .host size addr, .alloc .mirror size 0, .free .host addr]

section Steps

/-- What a failing `_mam_allocate_buffer` asked of the platforms: nothing, a host block
that was refused, or a pair whose mirror block was. -/
theorem allocateBuffer_calls {reply : Reply} (refused : ¬ reply.Serves) (a : Allocator)
    (size : SizeT) :
    (allocateBuffer reply a size).calls = [] ∨
      (allocateBuffer reply a size).calls = [.alloc .host size 0] ∨
      ∃ addr ≠ 0, (allocateBuffer reply a size).calls =
        [.alloc .host size addr, .alloc .mirror size 0, .free .host addr] := by
  unfold allocateBuffer
  split
  · exact .inl rfl
  · rename_i present
    split
    · rename_i null
      exact .inr (.inl (by rw [null]))
    · rename_i host
      split
      · rename_i null
        exact .inr (.inr ⟨reply.alloc1, host, by rw [null]⟩)
      · rename_i mirror
        exact absurd ⟨by simpa using present, host, mirror⟩ refused

/-- What one call asks of the platforms, beside what becomes of the live buffers. -/
inductive Traffic (pre post : Allocator) (calls : List PlatformCall) : Prop where
  | silent (quiet : calls = []) (same : ∀ side, post.live.map (·.base side) = pre.live.map (·.base side))
  | refused {size : SizeT} (asked : calls = [.alloc .host size 0]) (same : post.live = pre.live)
  | givenUp {size : SizeT} {addr : Addr} (present : addr ≠ 0)
      (asked : calls = [.alloc .host size addr, .alloc .mirror size 0, .free .host addr])
      (same : post.live = pre.live)
  | obtained {size : SizeT} {buffer : BuffDesc} (host : buffer.addr ≠ 0) (mirror : buffer.mAddr ≠ 0)
      (asked : calls = [.alloc .host size buffer.addr, .alloc .mirror size buffer.mAddr])
      (live : post.live = pre.live ++ [buffer])

theorem findInBuffer_base (b : BuffDesc) (size alignment : SizeT) (side : Side) :
    (findInBuffer b size alignment).buffer.base side = b.base side := by
  obtain ⟨host, mirror, _⟩ := findInBuffer_blocks b size alignment
  cases side with
  | host => exact host
  | mirror => exact mirror

theorem Step.traffic {pre post : Allocator} {event : Event} (step : Step pre event post) :
    Traffic pre post event.result.calls := by
  obtain ⟨returned, rfl⟩ := step
  rcases call_cases returned with ⟨invalid, rejected⟩ | ⟨valid, inner, internal, handed⟩
  · rw [rejected]
    exact .silent rfl fun _ => rfl
  · rw [handed]
    cases internal with
    | @inPlace current present found =>
      refine .silent rfl fun side => ?_
      obtain ⟨before, after⟩ := live_inPlace
        (findInBuffer current event.request.size event.request.align).buffer present
      show List.map _ (Allocator.live { pre with currentBuffer := some _ }) = _
      rw [after, before]
      simp [findInBuffer_base]
    | appendFailed present missed pushed =>
      refine .silent rfl fun side => ?_
      simp [AllocResult.forCaller, AllocResult.error, Allocator.live, UTArray.pushBack_oom pushed]
    | @unallocated base asked retired grown refused =>
      rcases allocateBuffer_calls refused base asked with quiet | host | ⟨addr, present, mirror⟩
      · exact .silent quiet fun side => congrArg _ retired.live
      · exact .refused host retired.live
      · exact .givenUp present mirror retired.live
    | @fresh base asked retired grown serves =>
      let fresh := BuffDesc.fresh base.nextDesc event.reply.alloc1 event.reply.alloc2 asked
      let buffer := (findInBuffer fresh event.request.size event.request.align).buffer
      have host : buffer.addr = event.reply.alloc1 := findInBuffer_base fresh _ _ .host
      have mirror : buffer.mAddr = event.reply.alloc2 := findInBuffer_base fresh _ _ .mirror
      refine @Traffic.obtained pre _ _ _ buffer (host ▸ serves.alloc1) (mirror ▸ serves.alloc2)
        (by rw [host, mirror]; rfl) ?_
      rw [← retired.live]
      simp [AllocResult.forCaller, Allocator.live, retired.currentBuffer, buffer, fresh]

/-- Over one call, a side gives out what it takes back and what stays live. -/
theorem Step.balanced {pre post : Allocator} {event : Event} (step : Step pre event post)
    (side : Side) :
    (obtained side event.result.calls ++ pre.live.map (·.base side)).Perm
      (released side event.result.calls ++ post.live.map (·.base side)) := by
  cases step.traffic with
  | silent quiet same =>
    rw [quiet, same side]
    exact .refl _
  | refused asked same =>
    rw [asked, same]
    simp
  | @givenUp size addr present asked same =>
    rw [asked, same]
    have present : ¬ addr = 0#64 := present
    cases side <;> simp [present]
  | @obtained size buffer host mirror asked live =>
    rw [asked, live, List.map_append]
    have host : ¬ buffer.addr = 0#64 := host
    have mirror : ¬ buffer.mAddr = 0#64 := mirror
    refine List.perm_append_comm.trans ?_
    cases side <;> simp [host, mirror, BuffDesc.base]

/-- Before the destruction a block is taken back only where its mirror block was refused. -/
theorem Step.givenUp {pre post : Allocator} {event : Event} (step : Step pre event post)
    {side : Side} {addr : Addr} (member : addr ∈ released side event.result.calls) :
    GivenUp event.result.calls side addr := by
  cases step.traffic with
  | silent quiet same => simp [quiet] at member
  | refused asked same => simp [asked] at member
  | @givenUp size base present asked same =>
    rw [asked] at member ⊢
    cases side with
    | host =>
      have here : addr = base := by simpa using member
      exact ⟨rfl, size, by rw [here]⟩
    | mirror => simp at member
  | obtained host mirror asked live => simp [asked] at member

end Steps

section Runs

variable {trace : List (Transition Allocator Event)} {final : Allocator}

/-- The destruction gives back the block that every live buffer has on a side. -/
theorem released_destroy (a : Allocator) (counted : a.buffers.Counted) (side : Side) :
    released side (allocatorDestroy (some a)).calls = a.live.map (·.base side) := by
  have each (buffers : List BuffDesc) :
      released side (buffers.flatMap freeBuffer) = buffers.map (·.base side) := by
    induction buffers with
    | nil => rfl
    | cons buffer rest ih =>
      rw [List.flatMap_cons, List.map_cons, ← ih]
      cases side <;> rfl
  simp only [allocatorDestroy, counted.visited_eq]
  exact each a.live

theorem obtained_destroy (a : Allocator) (side : Side) :
    obtained side (allocatorDestroy (some a)).calls = [] := by
  have each (buffers : List BuffDesc) : obtained side (buffers.flatMap freeBuffer) = [] := by
    induction buffers with
    | nil => rfl
    | cons buffer rest ih => exact ih
  exact each _

/-- The destruction frees every descriptor that was allocated, each once. -/
theorem descs_destroy (run : Run trace final) :
    (allocatorDestroy (some final)).descs = List.range final.nextDesc := by
  rw [← (wellFormed_of_run run).numbered]
  simp only [allocatorDestroy, (counted_of_run run).visited_eq, Allocator.live]

/-- Over a run and the destruction that ends it, each side takes back exactly the blocks
that it gave out, each as often as it was given out; before the destruction only host
blocks whose mirror block was refused are taken back. -/
theorem released_perm_obtained (run : Run trace final) :
    (∀ side, (released side (platformCalls trace ++ (allocatorDestroy (some final)).calls)).Perm
      (obtained side (platformCalls trace ++ (allocatorDestroy (some final)).calls))) ∧
    ∀ entry ∈ trace, ∀ side, ∀ addr ∈ released side entry.label.result.calls,
      GivenUp entry.label.result.calls side addr := by
  constructor
  · intro side
    have law := run.conserved (fun a => a.live.map (·.base side))
      (fun entry => obtained side entry.label.result.calls)
      (fun entry => released side entry.label.result.calls)
      fun _ _ _ step => step.balanced side
    have fresh : Allocator.create.live = [] := rfl
    simp only [platformCalls, obtained, released, List.filterMap_append, List.filterMap_flatMap]
    have destroyed := released_destroy final (counted_of_run run) side
    have quiet := obtained_destroy final side
    rw [released] at destroyed
    rw [obtained] at quiet
    rw [destroyed, quiet, List.append_nil]
    simpa [fresh, obtained, released] using law.symm
  · intro entry member side addr freed
    obtain ⟨_, _, _, _, step, _⟩ := run.split member
    exact step.givenUp freed

/-- The addresses of the blocks that the `k`th request obtains. -/
def pairAt (k : Nat) : Addr × Addr :=
  (0x100000000 * BitVec.ofNat 64 (k + 1), 0x10000000000 * BitVec.ofNat 64 (k + 1))

/-- A host block that is refused, a mirror block that is refused, nine pairs obtained, and at last
a list that is full and does not grow. -/
def failingRequests : List (Request × Reply) :=
  [(⟨100, none, true, true, true⟩, ⟨0, 0, true, true⟩),
   (⟨100, none, true, true, true⟩, ⟨0x10000, 0, true, true⟩)] ++
  (List.range 9).map (fun k =>
    (⟨5000 <<< k, some 16, true, true, true⟩, ⟨(pairAt k).1, (pairAt k).2, true, true⟩)) ++
  [(⟨5000 <<< 9, some 16, true, true, true⟩, ⟨(pairAt 9).1, (pairAt 9).2, true, false⟩)]

theorem released_failingRequests :
    (released .host (platformCalls (replay respond Allocator.create failingRequests).1 ++
        (allocatorDestroy (some (replay respond Allocator.create failingRequests).2)).calls)).Perm
      (0x10000 :: (List.range 9).map fun k => (pairAt k).1) ∧
    (released .mirror (platformCalls (replay respond Allocator.create failingRequests).1 ++
        (allocatorDestroy (some (replay respond Allocator.create failingRequests).2)).calls)).Perm
      ((List.range 9).map fun k => (pairAt k).2) := by
  obtain ⟨all, _⟩ := released_perm_obtained (replay_run failingRequests)
  refine ⟨(all .host).trans ?_, (all .mirror).trans ?_⟩ <;> decide +kernel

end Runs

end Mam.MirroredAllocators
