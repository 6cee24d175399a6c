import Mam.MirroredAllocators.FindInBuffer

/-! Everything one allocation call can do, stated once. -/

namespace Mam.MirroredAllocators

open Mam.Library Mam.Vendor

/-- The state in which a new buffer is asked for: the current buffer, if there was
one, could not serve the request and was put in the list. -/
inductive Retired (reply : Reply) (a : Allocator) (size alignment : SizeT) : Allocator → Prop where
  | untouched (absent : a.currentBuffer = none) : Retired reply a size alignment a
  | listed {current : BuffDesc} {buffers : UTArray BuffDesc} (present : a.currentBuffer = some current)
      (missed : (findInBuffer current size alignment).found = false)
      (pushed : a.buffers.pushBack current reply.realloc = some (.stored buffers)) :
      Retired reply a size alignment { a with buffers := buffers, currentBuffer := none }

/-- Every platform allocation of the call succeeds. -/
structure Reply.Serves (reply : Reply) : Prop where
  calloc : reply.calloc = true
  alloc1 : reply.alloc1 ≠ 0
  alloc2 : reply.alloc2 ≠ 0

instance decidableServes : DecidablePred Reply.Serves := fun reply =>
  decidable_of_iff (reply.calloc = true ∧ reply.alloc1 ≠ 0 ∧ reply.alloc2 ≠ 0)
    ⟨fun ⟨calloc, alloc1, alloc2⟩ => ⟨calloc, alloc1, alloc2⟩,
      fun ⟨calloc, alloc1, alloc2⟩ => ⟨calloc, alloc1, alloc2⟩⟩

/-- The list can take one more buffer. -/
def Appendable (a : Allocator) (reply : Reply) : Prop :=
  a.currentBuffer.isSome = true → a.buffers.Full → reply.realloc = true

instance decidableAppendable (a : Allocator) (reply : Reply) : Decidable (Appendable a reply) :=
  inferInstanceAs (Decidable (a.currentBuffer.isSome = true → a.buffers.n < a.buffers.i + 1 →
    reply.realloc = true))

/-- The ways `_mam_allocator_alloc` returns. -/
inductive Internal (reply : Reply) (a : Allocator) (size alignment : SizeT) : AllocResult → Prop where
  /-- The current buffer serves the request. -/
  | inPlace {current : BuffDesc} (present : a.currentBuffer = some current)
      (found : (findInBuffer current size alignment).found = true) :
      Internal reply a size alignment
        { code := .success
          allocator := { a with currentBuffer := some (findInBuffer current size alignment).buffer }
          stored := (findInBuffer current size alignment).stored
          desc := some current.self
          calls := [] }
  /-- The full buffer cannot be put in the list. -/
  | appendFailed {current : BuffDesc} {buffers : UTArray BuffDesc}
      (present : a.currentBuffer = some current)
      (missed : (findInBuffer current size alignment).found = false)
      (pushed : a.buffers.pushBack current reply.realloc = some (.oom buffers)) :
      Internal reply a size alignment (.error .enomem { a with buffers := buffers } [])
  /-- No new buffer is obtained. -/
  | unallocated {base : Allocator} {asked : SizeT}
      (retired : Retired reply a size alignment base)
      (grown : buffAllocSize base.totalSize size = some asked) (refused : ¬ reply.Serves) :
      Internal reply a size alignment
        (.error .enomem base (allocateBuffer reply base asked).calls)
  /-- A new buffer is obtained, and looked in. -/
  | fresh {base : Allocator} {asked : SizeT}
      (retired : Retired reply a size alignment base)
      (grown : buffAllocSize base.totalSize size = some asked) (served : reply.Serves) :
      Internal reply a size alignment
        { code := .success
          allocator :=
            { base with
              currentBuffer := some (findInBuffer
                (.fresh base.nextDesc reply.alloc1 reply.alloc2 asked) size alignment).buffer
              totalSize := base.totalSize + asked
              nextDesc := base.nextDesc + 1 }
          stored := (findInBuffer
            (.fresh base.nextDesc reply.alloc1 reply.alloc2 asked) size alignment).stored
          desc := some base.nextDesc
          calls := [.alloc .host asked reply.alloc1, .alloc .mirror asked reply.alloc2] }

/-- `_mam_allocate_buffer` fails without touching the allocator, or obtains both blocks. -/
theorem allocateBuffer_cases (reply : Reply) (a : Allocator) (size : SizeT) :
    (¬ reply.Serves ∧ (allocateBuffer reply a size).desc = none ∧
      (allocateBuffer reply a size).allocator = a) ∨
    (reply.Serves ∧
      (allocateBuffer reply a size).desc =
        some (.fresh a.nextDesc reply.alloc1 reply.alloc2 size) ∧
      (allocateBuffer reply a size).allocator =
        { a with currentBuffer := some (.fresh a.nextDesc reply.alloc1 reply.alloc2 size),
                 totalSize := a.totalSize + size, nextDesc := a.nextDesc + 1 } ∧
      (allocateBuffer reply a size).calls =
        [.alloc .host size reply.alloc1, .alloc .mirror size reply.alloc2]) := by
  unfold allocateBuffer
  split
  · rename_i failed
    exact .inl ⟨fun served => by simp [served.calloc] at failed, rfl, rfl⟩
  · rename_i present
    split
    · rename_i null
      exact .inl ⟨fun served => served.alloc1 null, rfl, rfl⟩
    · rename_i host
      split
      · rename_i null
        exact .inl ⟨fun served => served.alloc2 null, rfl, rfl⟩
      · rename_i mirror
        exact .inr ⟨⟨by simpa using present, host, mirror⟩, rfl, rfl, rfl⟩

private theorem allocFresh_cases {reply : Reply} {a base : Allocator} {size alignment : SizeT}
    {result : AllocResult} (retired : Retired reply a size alignment base)
    (returned : allocFresh reply base size alignment = .ok result) :
    Internal reply a size alignment result := by
  unfold allocFresh at returned
  split at returned
  · cases returned
  · rename_i asked grown
    rcases allocateBuffer_cases reply base asked with
      ⟨refused, none, same⟩ | ⟨served, some, same, calls⟩
    · simp only [none, same] at returned
      cases returned
      exact .unallocated retired grown refused
    · simp only [some, same, calls] at returned
      cases returned
      exact .fresh retired grown served

/-- A returning `_mam_allocator_alloc` took one of its four ways out. -/
theorem allocInternal_cases {reply : Reply} {a : Allocator} {size alignment : SizeT}
    {result : AllocResult} (returned : allocInternal reply a size alignment = .ok result) :
    Internal reply a size alignment result := by
  unfold allocInternal at returned
  split at returned
  · rename_i absent
    exact allocFresh_cases (.untouched absent) returned
  · rename_i current present
    simp only at returned
    split at returned
    · rename_i found
      cases returned
      exact .inPlace present found
    · rename_i missed
      have missed : (findInBuffer current size alignment).found = false := by simpa using missed
      split at returned
      · cases returned
      · rename_i buffers pushed
        cases returned
        exact .appendFailed present missed pushed
      · rename_i buffers pushed
        exact allocFresh_cases (.listed present missed pushed) returned

/-- A current buffer that can serve the request does. -/
theorem allocInternal_inPlace {a : Allocator} {current : BuffDesc} {size alignment : SizeT}
    (reply : Reply) (present : a.currentBuffer = some current)
    (found : (findInBuffer current size alignment).found = true) :
    allocInternal reply a size alignment = .ok
      { code := .success
        allocator := { a with currentBuffer := some (findInBuffer current size alignment).buffer }
        stored := (findInBuffer current size alignment).stored
        desc := some current.self
        calls := [] } := by
  simp [allocInternal, present, found]

/-- The alignment a request works with: `mam_allocator_alloc` passes 1. -/
def Request.align (request : Request) : SizeT := request.alignment.getD 1

/-- The checks of the two public functions. -/
structure Request.Valid (request : Request) : Prop where
  addr : request.addr = true
  mirrorAddr : request.mirrorAddr = true
  size : request.size ≠ 0
  alignment : Accepted request.align

instance : DecidablePred Request.Valid := fun request =>
  decidable_of_iff (request.addr = true ∧ request.mirrorAddr = true ∧ request.size ≠ 0 ∧
      Accepted request.align)
    ⟨fun ⟨addr, mirrorAddr, size, alignment⟩ => ⟨addr, mirrorAddr, size, alignment⟩,
      fun ⟨addr, mirrorAddr, size, alignment⟩ => ⟨addr, mirrorAddr, size, alignment⟩⟩

theorem Request.Valid.size_pos {request : Request} (valid : request.Valid) :
    0 < request.size.toNat := by
  rcases Nat.eq_zero_or_pos request.size.toNat with zero | positive
  · exact absurd (BitVec.eq_of_toNat_eq (by simpa using zero)) valid.size
  · exact positive

/-- Both entry points hand a valid request to `_mam_allocator_alloc`, and reject any
other. -/
theorem call_eq (reply : Reply) (a : Allocator) (request : Request) :
    call reply a request =
      if request.Valid then
        (allocInternal reply a request.size request.align).map (·.forCaller request)
      else .ok (.error .einval a []) := by
  have valid_iff : request.Valid ↔ request.addr = true ∧ request.mirrorAddr = true ∧
      request.size ≠ 0 ∧ Accepted request.align :=
    ⟨fun ⟨addr, mirrorAddr, size, alignment⟩ => ⟨addr, mirrorAddr, size, alignment⟩,
      fun ⟨addr, mirrorAddr, size, alignment⟩ => ⟨addr, mirrorAddr, size, alignment⟩⟩
  unfold call
  cases aligned : request.alignment with
  | none =>
    have align : request.align = 1 := by simp [Request.align, aligned]
    rw [align] at valid_iff ⊢
    simp only [valid_iff, accepted_one, allocatorAlloc]
    cases request.addr <;> cases request.mirrorAddr <;> by_cases size : request.size = 0#64 <;>
      simp [size]
  | some alignment =>
    have align : request.align = alignment := by simp [Request.align, aligned]
    rw [align] at valid_iff ⊢
    simp only [valid_iff, allocatorAllocAligned, Accepted]
    cases request.addr <;> cases request.mirrorAddr <;> by_cases size : request.size = 0#64 <;>
      by_cases accepted : alignment &&& (alignment - 1#64) = 0#64 <;> simp [size, accepted]

/-- A public call either fails its checks and changes nothing, or is a valid
request handed to `_mam_allocator_alloc`. -/
theorem call_cases {reply : Reply} {a : Allocator} {request : Request} {result : AllocResult}
    (returned : call reply a request = .ok result) :
    (¬ request.Valid ∧ result = .error .einval a []) ∨
    (request.Valid ∧ ∃ inner, Internal reply a request.size request.align inner ∧
      result = inner.forCaller request) := by
  rw [call_eq] at returned
  split at returned
  · rename_i valid
    cases outcome : allocInternal reply a request.size request.align with
    | error fault => simp [outcome, Except.map] at returned
    | ok inner =>
      simp only [outcome, Except.map, Except.ok.injEq] at returned
      exact .inr ⟨valid, inner, allocInternal_cases outcome, returned.symm⟩
  · rename_i invalid
    cases returned
    exact .inl ⟨invalid, rfl⟩

theorem Retired.live {reply : Reply} {a base : Allocator} {size alignment : SizeT}
    (retired : Retired reply a size alignment base) : base.live = a.live := by
  cases retired with
  | untouched absent => rfl
  | listed present missed pushed => simp [Allocator.live, present, UTArray.pushBack_stored pushed]

theorem Retired.currentBuffer {reply : Reply} {a base : Allocator} {size alignment : SizeT}
    (retired : Retired reply a size alignment base) : base.currentBuffer = none := by
  cases retired with
  | untouched absent => exact absent
  | listed present missed pushed => rfl

theorem Retired.totalSize {reply : Reply} {a base : Allocator} {size alignment : SizeT}
    (retired : Retired reply a size alignment base) : base.totalSize = a.totalSize := by
  cases retired <;> rfl

theorem Retired.nextDesc {reply : Reply} {a base : Allocator} {size alignment : SizeT}
    (retired : Retired reply a size alignment base) : base.nextDesc = a.nextDesc := by
  cases retired <;> rfl

/-- The current buffer was looked in first, without success. -/
theorem Retired.missed {reply : Reply} {a base : Allocator} {size alignment : SizeT}
    (retired : Retired reply a size alignment base) (current : BuffDesc)
    (present : a.currentBuffer = some current) :
    (findInBuffer current size alignment).found = false := by
  cases retired with
  | untouched absent => rw [absent] at present; cases present
  | listed here missed pushed =>
    rw [here] at present
    cases present
    exact missed

theorem Retired.appendable {reply : Reply} {a base : Allocator} {size alignment : SizeT}
    (retired : Retired reply a size alignment base) : Appendable a reply := by
  intro present full
  cases retired with
  | untouched absent => simp [absent] at present
  | listed here missed pushed => exact UTArray.pushBack_stored_realloc pushed full

/-- Why an allocation call returns an error. -/
inductive Failure (pre : Allocator) (request : Request) (reply : Reply) : Prop where
  | rejected (invalid : ¬ request.Valid)
  | append {current : BuffDesc} (present : pre.currentBuffer = some current)
      (missed : (findInBuffer current request.size request.align).found = false)
      (full : pre.buffers.Full) (realloc : reply.realloc = false)
  | platform (missed : ∀ current, pre.currentBuffer = some current →
        (findInBuffer current request.size request.align).found = false)
      (refused : ¬ reply.Serves)

/-- A valid request fails only after the current buffer was looked in without success. -/
theorem Failure.missed {pre : Allocator} {request : Request} {reply : Reply}
    (failure : Failure pre request reply) (valid : request.Valid) (current : BuffDesc)
    (present : pre.currentBuffer = some current) :
    (findInBuffer current request.size request.align).found = false := by
  cases failure with
  | rejected invalid => exact absurd valid invalid
  | append here missed full realloc =>
    rw [here] at present
    cases present
    exact missed
  | platform missed refused => exact missed current present

/-- What an allocation call does to the live buffers and to its caller. -/
inductive Effect (pre : Allocator) (event : Event) (post : Allocator) : Prop where
  /-- An error: nothing is stored and no buffer changes. -/
  | failed (failure : Failure pre event.request event.reply)
      (code : event.result.code ≠ .success) (stored : event.result.stored = none)
      (live : post.live = pre.live) (totalSize : post.totalSize = pre.totalSize)
      (nextDesc : post.nextDesc = pre.nextDesc)
  /-- The current buffer, the last one, serves the request. -/
  | inPlace {current : BuffDesc} (valid : event.request.Valid)
      (present : pre.currentBuffer = some current)
      (found : (findInBuffer current event.request.size event.request.align).found = true)
      (code : event.result.code = .success)
      (stored : event.result.stored =
        (findInBuffer current event.request.size event.request.align).stored)
      (desc : event.result.desc = if event.request.desc then some current.self else none)
      (post : post = { pre with
        currentBuffer := some (findInBuffer current event.request.size event.request.align).buffer })
  /-- A new last buffer is obtained, and serves the request if it can. -/
  | fresh {asked : SizeT} (valid : event.request.Valid)
      (missed : ∀ current, pre.currentBuffer = some current →
        (findInBuffer current event.request.size event.request.align).found = false)
      (appendable : Appendable pre event.reply)
      (grown : buffAllocSize pre.totalSize event.request.size = some asked)
      (serves : event.reply.Serves)
      (code : event.result.code = .success)
      (stored : event.result.stored = (findInBuffer
        (.fresh pre.nextDesc event.reply.alloc1 event.reply.alloc2 asked)
        event.request.size event.request.align).stored)
      (desc : event.result.desc = if event.request.desc then some pre.nextDesc else none)
      (calls : event.result.calls =
        [.alloc .host asked event.reply.alloc1, .alloc .mirror asked event.reply.alloc2])
      (current : post.currentBuffer = some (findInBuffer
        (.fresh pre.nextDesc event.reply.alloc1 event.reply.alloc2 asked)
        event.request.size event.request.align).buffer)
      (live : post.live = pre.live ++ [(findInBuffer
        (.fresh pre.nextDesc event.reply.alloc1 event.reply.alloc2 asked)
        event.request.size event.request.align).buffer])
      (totalSize : post.totalSize = pre.totalSize + asked)
      (nextDesc : post.nextDesc = pre.nextDesc + 1)

/-- Every step has one of the three effects. -/
theorem Step.effect {pre post : Allocator} {event : Event} (step : Step pre event post) :
    Effect pre event post := by
  obtain ⟨returned, rfl⟩ := step
  rcases call_cases returned with ⟨invalid, rejected⟩ | ⟨valid, inner, internal, handed⟩
  · rw [rejected]
    exact .failed (.rejected invalid) (by simp [rejected, AllocResult.error])
      (by simp [rejected, AllocResult.error])
      rfl rfl rfl
  · rw [handed]
    cases internal with
    | inPlace present found =>
      exact .inPlace valid present found (by rw [handed]; rfl) (by rw [handed]; rfl)
        (by rw [handed]; rfl) rfl
    | appendFailed present missed pushed =>
      obtain ⟨full, realloc⟩ := UTArray.pushBack_oom_full pushed
      refine .failed (.append present missed full realloc)
        (by rw [handed]; simp [AllocResult.forCaller, AllocResult.error])
        (by rw [handed]; rfl) ?_ rfl rfl
      simp [AllocResult.forCaller, AllocResult.error, Allocator.live, UTArray.pushBack_oom pushed]
    | unallocated retired grown refused =>
      exact .failed (.platform retired.missed refused)
        (by rw [handed]; simp [AllocResult.forCaller, AllocResult.error])
        (by rw [handed]; rfl) retired.live retired.totalSize retired.nextDesc
    | fresh retired grown serves =>
      rw [retired.totalSize] at grown
      refine .fresh valid retired.missed retired.appendable grown serves (by rw [handed]; rfl)
        ?_ ?_ (by rw [handed]; rfl) ?_ ?_ ?_ ?_
      · rw [handed, ← retired.nextDesc]
        rfl
      · rw [handed, ← retired.nextDesc]
        rfl
      · rw [← retired.nextDesc]
        rfl
      · rw [← retired.live, ← retired.nextDesc]
        have absent := retired.currentBuffer
        simp [AllocResult.forCaller, Allocator.live, absent]
      · simp [AllocResult.forCaller, retired.totalSize]
      · simp [AllocResult.forCaller, retired.nextDesc]

end Mam.MirroredAllocators
