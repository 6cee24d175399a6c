import Mam.Basic
import Mam.Vendor.UTArray
import Mam.Library.Execution

/-! `mirrored-allocators.c`: buffers that exist at the same offsets on two
platforms, and the bump allocation inside them. -/

namespace Mam.MirroredAllocators

open Mam.Library Mam.Vendor

/-- `struct mam_buff_desc_s`, with the descriptor's own address. -/
structure BuffDesc where
  self : Nat
  addr : Addr
  mAddr : Addr
  size : SizeT
  free : SizeT
  ready : Bool
  count : BitVec 32
deriving DecidableEq, Repr

/-- `struct _mam_allocator_s`. A retired buffer is never written again, so the list
holds the descriptors themselves; `nextDesc` is the address the next `calloc` of a
descriptor returns. -/
structure Allocator where
  totalSize : SizeT
  currentBuffer : Option BuffDesc
  buffers : UTArray BuffDesc
  nextDesc : Nat
deriving DecidableEq, Repr

/-- What `mam_allocator_create` returns. -/
def Allocator.create : Allocator :=
  { totalSize := 0, currentBuffer := none, buffers := UTArray.init, nextDesc := 0 }

/-- The buffers of an allocator, retired ones first. -/
def Allocator.live (a : Allocator) : List BuffDesc := a.buffers.elems ++ a.currentBuffer.toList

/-- `MAM_ALLOC_SIZE_DEFAULT`. -/
def allocSizeDefault : SizeT := 1 <<< 12

/-- The two platform allocators, `alloc1` on the host and `alloc2` on the mirror. -/
inductive Side where
  | host
  | mirror
deriving DecidableEq, Repr

/-- The address of a buffer on a side. -/
def BuffDesc.base (b : BuffDesc) : Side → Addr
  | .host => b.addr
  | .mirror => b.mAddr

/-- A call into a platform allocator. -/
inductive PlatformCall where
  | alloc (side : Side) (size : SizeT) (addr : Addr)
  | free (side : Side) (addr : Addr)
deriving DecidableEq, Repr

/-- What the environment answers during one call: the addresses the platform
allocators return, 0 for NULL, and whether the `calloc` of the descriptor and the
`realloc` of the buffer list succeed. -/
structure Reply where
  alloc1 : Addr
  alloc2 : Addr
  calloc : Bool
  realloc : Bool
deriving DecidableEq, Repr

/-- How `_mam_find_in_buffer` leaves: its return value, the buffer, and what it
stored through `addr` and `mirror_addr`. -/
structure FindResult where
  found : Bool
  buffer : BuffDesc
  stored : Option (Addr × Addr)
deriving DecidableEq, Repr

/-- `_mam_find_in_buffer`. -/
def findInBuffer (buffer : BuffDesc) (size alignment : SizeT) : FindResult :=
  let mask := alignment - 1
  let offset := buffer.size - buffer.free
  -- pad for the target
  let low := (buffer.mAddr + offset) &&& mask
  let pad := if low = 0 then 0 else alignment - low
  let sz := size + pad
  let offset := offset + pad
  if sz < buffer.free then
    { found := true
      buffer := { buffer with free := buffer.free - sz, count := buffer.count + 1 }
      stored := some (buffer.addr + offset, buffer.mAddr + offset) }
  else { found := false, buffer := buffer, stored := none }

/-- The descriptor `_mam_allocate_buffer` fills in. -/
def BuffDesc.fresh (self : Nat) (addr mAddr : Addr) (size : SizeT) : BuffDesc :=
  { self := self, addr := addr, mAddr := mAddr, size := size, free := size, ready := false, count := 0 }

/-- How `_mam_allocate_buffer` leaves. -/
structure AllocateResult where
  allocator : Allocator
  desc : Option BuffDesc
  calls : List PlatformCall

/-- `_mam_allocate_buffer`. -/
def allocateBuffer (reply : Reply) (a : Allocator) (size : SizeT) : AllocateResult :=
  if !reply.calloc then { allocator := a, desc := none, calls := [] }
  else if reply.alloc1 = 0 then
    { allocator := a, desc := none, calls := [.alloc .host size reply.alloc1] }
  else if reply.alloc2 = 0 then
    { allocator := a, desc := none,
      calls := [.alloc .host size reply.alloc1, .alloc .mirror size reply.alloc2,
        .free .host reply.alloc1] }
  else
    let desc := BuffDesc.fresh a.nextDesc reply.alloc1 reply.alloc2 size
    { allocator :=
        { a with currentBuffer := some desc, totalSize := a.totalSize + size,
                 nextDesc := a.nextDesc + 1 }
      desc := some desc
      calls := [.alloc .host size reply.alloc1, .alloc .mirror size reply.alloc2] }

/-- Tests after which the growth loop has shifted every bit out. -/
def growFuel : Nat := 65

/-- `buff_alloc_sz <<= 1` -/
def shifted (buffAllocSz : SizeT) : SizeT := buffAllocSz <<< 1

/-- `while (buff_alloc_sz < size) buff_alloc_sz <<= 1;` -/
def growLoop (buffAllocSz size : SizeT) : Option SizeT :=
  whileLoop (fun sz => sz < size) shifted growFuel buffAllocSz

/-- The size the growth loop starts from: try reallocating existing size. -/
def startSize (totalSize : SizeT) : SizeT := if totalSize = 0 then allocSizeDefault else totalSize

/-- The size asked of the platform allocators; `none` when the growth loop never ends. -/
def buffAllocSize (totalSize size : SizeT) : Option SizeT := growLoop (startSize totalSize) size

/-- How an allocation call leaves: return code, allocator, what was stored through
`addr` and `mirror_addr`, the descriptor stored through `desc`, and the platform
calls it made. -/
structure AllocResult where
  code : MamError
  allocator : Allocator
  stored : Option (Addr × Addr)
  desc : Option Nat
  calls : List PlatformCall
deriving DecidableEq, Repr

/-- A return that stored nothing. -/
def AllocResult.error (code : MamError) (allocator : Allocator) (calls : List PlatformCall) :
    AllocResult :=
  { code := code, allocator := allocator, stored := none, desc := none, calls := calls }

/-- The second half of `_mam_allocator_alloc`, where no buffer is current: obtain a
larger one and look in it. The result of this second look is not tested. -/
def allocFresh (reply : Reply) (a : Allocator) (size alignment : SizeT) :
    Except Fault AllocResult :=
  match buffAllocSize a.totalSize size with
  | none => .error .endlessLoop
  | some buffAllocSz =>
    let allocated := allocateBuffer reply a buffAllocSz
    match allocated.desc with
    | none => .ok (.error .enomem allocated.allocator allocated.calls)
    | some buffer =>
      let result := findInBuffer buffer size alignment
      .ok { code := .success
            allocator := { allocated.allocator with currentBuffer := some result.buffer }
            stored := result.stored
            desc := some buffer.self
            calls := allocated.calls }

/-- `_mam_allocator_alloc`, on the address of a descriptor pointer. -/
def allocInternal (reply : Reply) (a : Allocator) (size alignment : SizeT) :
    Except Fault AllocResult :=
  match a.currentBuffer with
  | none => allocFresh reply a size alignment
  | some current =>
    let result := findInBuffer current size alignment
    if result.found then
      .ok { code := .success
            allocator := { a with currentBuffer := some result.buffer }
            stored := result.stored
            desc := some current.self
            calls := [] }
    else
      -- buffer full, put in list
      match a.buffers.pushBack current reply.realloc with
      | none => .error .endlessLoop
      | some (.oom buffers) => .ok (.error .enomem { a with buffers := buffers } [])
      | some (.stored buffers) =>
        allocFresh reply { a with buffers := buffers, currentBuffer := none } size alignment

/-- The arguments of an allocation call besides the allocator: whether `addr`,
`mirror_addr` and `desc` are non-NULL, and the alignment of
`mam_allocator_alloc_aligned`, absent for `mam_allocator_alloc`. -/
structure Request where
  size : SizeT
  alignment : Option SizeT
  addr : Bool
  mirrorAddr : Bool
  desc : Bool
deriving DecidableEq, Repr

/-- The descriptor is stored only where the caller passed a place for it. -/
def AllocResult.forCaller (result : AllocResult) (request : Request) : AllocResult :=
  { result with desc := if request.desc then result.desc else none }

/-- `mam_allocator_alloc`. -/
def allocatorAlloc (reply : Reply) (a : Allocator) (request : Request) :
    Except Fault AllocResult :=
  if !request.addr then .ok (.error .einval a [])
  else if !request.mirrorAddr then .ok (.error .einval a [])
  else if request.size = 0 then .ok (.error .einval a [])
  else (allocInternal reply a request.size 1).map (·.forCaller request)

/-- `mam_allocator_alloc_aligned`. -/
def allocatorAllocAligned (reply : Reply) (a : Allocator) (request : Request)
    (alignment : SizeT) : Except Fault AllocResult :=
  if !request.addr then .ok (.error .einval a [])
  else if !request.mirrorAddr then .ok (.error .einval a [])
  else if request.size = 0 then .ok (.error .einval a [])
  else if alignment &&& (alignment - 1) ≠ 0 then .ok (.error .einval a [])
  else (allocInternal reply a request.size alignment).map (·.forCaller request)

/-- Either public entry point. -/
def call (reply : Reply) (a : Allocator) (request : Request) : Except Fault AllocResult :=
  match request.alignment with
  | none => allocatorAlloc reply a request
  | some alignment => allocatorAllocAligned reply a request alignment

/-- One allocation call that returned: what was asked, answered and given back. -/
structure Event where
  request : Request
  reply : Reply
  result : AllocResult

/-- An allocation call as a step of the allocator. -/
def Step (a : Allocator) (event : Event) (next : Allocator) : Prop :=
  call event.reply a event.request = .ok event.result ∧ next = event.result.allocator

/-- A run of allocation calls on one allocator, from its creation. -/
abbrev Run (trace : List (Transition Allocator Event)) (final : Allocator) : Prop :=
  Execution Step Allocator.create trace final

/-- Answer one request, when the call returns. -/
def respond (a : Allocator) (input : Request × Reply) : Option (Event × Allocator) :=
  match call input.2 a input.1 with
  | .error _ => none
  | .ok result => some (⟨input.1, input.2, result⟩, result.allocator)

theorem respond_step {a next : Allocator} {input : Request × Reply} {event : Event}
    (returned : respond a input = some (event, next)) : Step a event next := by
  unfold respond at returned
  split at returned
  · cases returned
  · rename_i result answered
    cases returned
    exact ⟨answered, rfl⟩

/-- The run that a list of requests and replies gives rise to. -/
theorem replay_run (inputs : List (Request × Reply)) :
    Run (replay respond Allocator.create inputs).1 (replay respond Allocator.create inputs).2 := by
  apply replay_execution
  intro state input event next returned
  exact respond_step returned

end Mam.MirroredAllocators
