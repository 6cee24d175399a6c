import Mam.MirroredAllocators.WellFormed
import Mam.MirroredAllocators.Growth
import Mam.Library.Arena

/-! The regions a run hands out, seen as regions of a two-sided arena. -/

namespace Mam.MirroredAllocators

open Mam.Library

/-- A region handed out, with the number of the buffer it was taken from. -/
structure Region where
  buffer : Nat
  addr : Addr
  mirrorAddr : Addr
  size : SizeT
  alignment : SizeT

/-- The region of a call: the search in the current buffer stored both addresses. -/
def region (entry : Transition Allocator Event) : Option Region :=
  match entry.label.result.stored, entry.post.currentBuffer with
  | some (addr, mirrorAddr), some buffer =>
    some { buffer := buffer.self, addr := addr, mirrorAddr := mirrorAddr,
           size := entry.label.request.size, alignment := entry.label.request.align }
  | _, _ => none

/-- The regions of a run, in the order they were handed out. -/
def regions (trace : List (Transition Allocator Event)) : List Region := trace.filterMap region

/-- How many regions were served from a buffer. -/
def servedFrom (regions : List Region) (b : BuffDesc) : Nat :=
  regions.countP (·.buffer = b.self)

/-- Where the last region of a buffer ends, relative to the buffer. -/
def lastEnd (regions : List Region) (b : BuffDesc) : Nat :=
  ((regions.filter (·.buffer = b.self)).getLast?).elim 0 fun r =>
    r.addr.toNat + r.size.toNat - b.addr.toNat

/-- A region lies inside a buffer on both sides, at one offset. -/
structure Region.Inside (r : Region) (b : BuffDesc) : Prop where
  buffer : r.buffer = b.self
  host : b.addr.toNat ≤ r.addr.toNat ∧ r.addr.toNat + r.size.toNat ≤ b.addr.toNat + b.size.toNat
  mirror : b.mAddr.toNat ≤ r.mirrorAddr.toNat ∧
    r.mirrorAddr.toNat + r.size.toNat ≤ b.mAddr.toNat + b.size.toNat
  sameOffset : r.addr.toNat - b.addr.toNat = r.mirrorAddr.toNat - b.mAddr.toNat

/-- What a platform promises: a block it returns does not wrap, and shares no address
with a live block on its side. -/
def PlatformCall.Honest (live : List BuffDesc) : PlatformCall → Prop
  | .alloc side size addr =>
    addr ≠ 0 → addr.toNat + size.toNat ≤ 2 ^ 64 ∧
      ∀ b ∈ live, Disjoint (span (b.base side).toNat b.size.toNat) (span addr.toNat size.toNat)
  | .free _ _ => True

instance (live : List BuffDesc) : DecidablePred (PlatformCall.Honest live)
  | .alloc _ _ _ => by unfold PlatformCall.Honest; infer_instance
  | .free _ _ => .isTrue trivial

/-- The calls under consideration: a size up to `2 ^ 63`, an alignment that is not
zero, and honest platforms. -/
structure Proper (entry : Transition Allocator Event) : Prop where
  size : entry.label.request.size.toNat ≤ 2 ^ 63
  alignment : entry.label.request.align ≠ 0
  honest : ∀ call ∈ entry.label.result.calls, call.Honest entry.pre.live

instance : DecidablePred Proper := fun entry =>
  decidable_of_iff (entry.label.request.size.toNat ≤ 2 ^ 63 ∧ entry.label.request.align ≠ 0 ∧
      ∀ call ∈ entry.label.result.calls, call.Honest entry.pre.live)
    ⟨fun ⟨size, alignment, honest⟩ => ⟨size, alignment, honest⟩,
      fun ⟨size, alignment, honest⟩ => ⟨size, alignment, honest⟩⟩

/-- A buffer as a block of the arena. -/
def BuffDesc.block (b : BuffDesc) : Arena.Block :=
  { host := b.addr.toNat, mirror := b.mAddr.toNat, size := b.size.toNat, used := b.used }

/-- A region as a region of the arena. -/
def Region.carved (r : Region) : Arena.Region :=
  { block := r.buffer, host := r.addr.toNat, mirror := r.mirrorAddr.toNat, size := r.size.toNat,
    align := r.alignment.toNat }

/-- What the allocator and its history amount to. -/
def arena (live : List BuffDesc) (regions : List Region) : Arena :=
  { blocks := live.map BuffDesc.block, regions := regions.map Region.carved }

/-- No live buffer wraps around either address space. -/
def Unwrapped (live : List BuffDesc) : Prop :=
  ∀ b ∈ live, b.addr.toNat + b.size.toNat ≤ 2 ^ 64 ∧ b.mAddr.toNat + b.size.toNat ≤ 2 ^ 64

/-- A power of two, for a request that passed the checks with a nonzero alignment. -/
theorem Request.Valid.power {request : Request} (valid : request.Valid)
    (nonzero : request.align ≠ 0) : request.align.toNat.isPowerOfTwo :=
  ((and_pred_eq_zero_iff request.align).mp valid.alignment).resolve_left nonzero

/-- The region that a successful search in `b` hands out. -/
def BuffDesc.handOut (b : BuffDesc) (request : Request) : Region :=
  { buffer := b.self
    addr := b.addr + BitVec.ofNat 64 (b.used + b.pad request.align)
    mirrorAddr := b.mAddr + BitVec.ofNat 64 (b.used + b.pad request.align)
    size := request.size, alignment := request.align }

/-- A successful search in the last buffer carves a region out of the last block. -/
theorem found_carves {front : List BuffDesc} {b : BuffDesc} {request : Request}
    (given : List Region) (valid : request.Valid) (nonzero : request.align ≠ 0)
    (small : request.size.toNat ≤ 2 ^ 63) (bounded : b.free.toNat ≤ b.size.toNat)
    (unwrapped : b.addr.toNat + b.size.toNat ≤ 2 ^ 64 ∧ b.mAddr.toNat + b.size.toNat ≤ 2 ^ 64)
    (number : b.self = front.length)
    (found : (findInBuffer b request.size request.align).found = true) :
    Arena.Step (arena (front ++ [b]) given)
      (arena (front ++ [(findInBuffer b request.size request.align).buffer])
        (given ++ [b.handOut request])) := by
  have power := valid.power nonzero
  obtain ⟨free, same, spent⟩ := found_spec bounded valid.alignment found
  have fits := (found_iff bounded valid.alignment).mp found
  rw [Nat.mod_eq_of_lt (padded_lt power small)] at spent fits
  have room : b.used + b.pad request.align + request.size.toNat < b.size.toNat := by
    simp only [BuffDesc.used]
    omega
  have aligned : request.align.toNat ∣ b.mAddr.toNat + (b.used + b.pad request.align) := by
    have rounded := dvd_roundUp (b.mAddr.toNat + b.used) (maskModulus_pos request.align)
    rw [maskModulus_of_isPowerOfTwo power] at rounded
    rw [BuffDesc.pad, maskModulus_of_isPowerOfTwo power, ← Nat.add_assoc]
    exact rounded
  have placed (base : Addr) (inside : base.toNat + b.size.toNat ≤ 2 ^ 64) :
      (base + BitVec.ofNat 64 (b.used + b.pad request.align)).toNat =
        base.toNat + (b.used + b.pad request.align) := by
    rw [BitVec.toNat_add_of_lt] <;> rw [BitVec.toNat_ofNat, Nat.mod_eq_of_lt] <;> omega
  have block : (findInBuffer b request.size request.align).buffer.block =
      { b.block with used := b.used + b.pad request.align + request.size.toNat } := by
    have taken : b.size.toNat - free.toNat =
        b.used + b.pad request.align + request.size.toNat := by
      simp only [BuffDesc.used] at room ⊢
      omega
    rw [same, ← taken]
    rfl
  have carved : (b.handOut request).carved =
      ⟨front.length, b.addr.toNat + (b.used + b.pad request.align),
        b.mAddr.toNat + (b.used + b.pad request.align), request.size.toNat,
        request.align.toNat⟩ := by
    simp only [BuffDesc.handOut, Region.carved, placed _ unwrapped.1, placed _ unwrapped.2, number]
  simp only [arena, List.map_append, List.map_singleton, block, carved]
  rw [← List.length_map BuffDesc.block]
  exact .carve _ _ _ (Nat.le_add_right _ _) room aligned

/-- What holds of the live buffers and the regions given out so far. -/
structure Ledger (live : List BuffDesc) (given : List Region) : Prop where
  numbered : live.map BuffDesc.self = List.range live.length
  unwrapped : Unwrapped live
  reachable : (arena live given).Reachable
  counts : ∀ b ∈ live, b.count = BitVec.ofNat 32 (servedFrom given b)

/-- Every counter is the number of regions served, as an integer. -/
def Exact (live : List BuffDesc) (given : List Region) : Prop :=
  ∀ b ∈ live, b.count.toInt = servedFrom given b

theorem Ledger.empty : Ledger [] [] := by
  refine ⟨rfl, ?_, Relation.ReflTransGen.refl, ?_⟩ <;> intro b member <;> cases member

theorem Ledger.self_last {front : List BuffDesc} {b : BuffDesc} {given : List Region}
    (ledger : Ledger (front ++ [b]) given) : b.self = front.length := by
  have numbered := ledger.numbered
  simp only [List.map_append, List.map_singleton, List.length_append, List.length_singleton,
    List.range_succ] at numbered
  exact List.singleton_injective (List.append_inj_right' numbered rfl)

theorem Ledger.self_front {front : List BuffDesc} {b other : BuffDesc} {given : List Region}
    (ledger : Ledger (front ++ [b]) given) (member : other ∈ front) : other.self < front.length := by
  have numbered := ledger.numbered
  simp only [List.map_append, List.map_singleton, List.length_append, List.length_singleton,
    List.range_succ] at numbered
  have listed := List.mem_map_of_mem (f := BuffDesc.self) member
  rw [List.append_inj_left' numbered rfl] at listed
  exact List.mem_range.mp listed

/-- A buffer's number is its place. -/
theorem Ledger.self_eq {live : List BuffDesc} {given : List Region} (ledger : Ledger live given)
    {index : Nat} {b : BuffDesc} (present : live[index]? = some b) : b.self = index := by
  have same : (live.map BuffDesc.self)[index]? = some b.self := by
    rw [List.getElem?_map, present]
    rfl
  rw [ledger.numbered] at same
  obtain ⟨_, value⟩ := List.getElem?_eq_some_iff.mp same
  rw [List.getElem_range] at value
  exact value.symm

theorem Ledger.getElem?_self {live : List BuffDesc} {given : List Region} (ledger : Ledger live given)
    {b : BuffDesc} (member : b ∈ live) : live[b.self]? = some b := by
  obtain ⟨index, present⟩ := List.getElem?_of_mem member
  rw [ledger.self_eq present]
  exact present

/-- No region comes from a buffer that is not there yet. -/
theorem Ledger.unserved {live : List BuffDesc} {given : List Region} (ledger : Ledger live given)
    {b : BuffDesc} (number : b.self = live.length) : servedFrom given b = 0 := by
  apply List.countP_eq_zero.mpr
  intro r member
  have older := ledger.reachable.tidy.block_lt (List.mem_map_of_mem member)
  simp only [arena, List.length_map, Region.carved] at older
  simp only [decide_eq_true_eq, number]
  omega

theorem Ledger.obtain {live : List BuffDesc} {given : List Region} (ledger : Ledger live given)
    (self : Nat) (addr mAddr : Addr) (size : SizeT) (number : self = live.length)
    (positive : 0 < size.toNat)
    (serves : addr ≠ 0 ∧ mAddr ≠ 0) (host : (PlatformCall.alloc .host size addr).Honest live)
    (mirror : (PlatformCall.alloc .mirror size mAddr).Honest live) :
    Ledger (live ++ [.fresh self addr mAddr size]) given := by
  obtain ⟨hostFits, hostApart⟩ := host serves.1
  obtain ⟨mirrorFits, mirrorApart⟩ := mirror serves.2
  refine ⟨?_, ?_, ?_, ?_⟩
  · rw [List.map_append, ledger.numbered, List.length_append, List.length_singleton,
      List.range_succ, number]
    rfl
  · intro b member
    rcases List.mem_append.mp member with old | new
    · exact ledger.unwrapped b old
    · obtain rfl := List.mem_singleton.mp new
      exact ⟨hostFits, mirrorFits⟩
  · refine ledger.reachable.tail ?_
    simp only [arena, List.map_append, List.map_singleton]
    refine .obtain (BuffDesc.fresh self addr mAddr size).block (Nat.sub_self _) positive ?_
    intro block member
    obtain ⟨b, present, rfl⟩ := List.mem_map.mp member
    exact ⟨hostApart b present, mirrorApart b present⟩
  · intro b member
    rcases List.mem_append.mp member with old | new
    · exact ledger.counts b old
    · obtain rfl := List.mem_singleton.mp new
      rw [ledger.unserved number]
      rfl

theorem servedFrom_handOut (given : List Region) (b : BuffDesc) (request : Request)
    {other : BuffDesc} (same : other.self = b.self) :
    servedFrom (given ++ [b.handOut request]) other = servedFrom given b + 1 := by
  simp [servedFrom, List.countP_append, BuffDesc.handOut, same]

theorem servedFrom_handOut_other (given : List Region) (b : BuffDesc) (request : Request)
    {other : BuffDesc} (different : other.self ≠ b.self) :
    servedFrom (given ++ [b.handOut request]) other = servedFrom given other := by
  simp [servedFrom, List.countP_append, BuffDesc.handOut, different.symm]

theorem Ledger.serve {front : List BuffDesc} {b : BuffDesc} {request : Request}
    {given : List Region} (ledger : Ledger (front ++ [b]) given) (valid : request.Valid)
    (nonzero : request.align ≠ 0) (small : request.size.toNat ≤ 2 ^ 63)
    (bounded : b.free.toNat ≤ b.size.toNat)
    (found : (findInBuffer b request.size request.align).found = true) :
    Ledger (front ++ [(findInBuffer b request.size request.align).buffer])
      (given ++ [b.handOut request]) := by
  have unwrapped := ledger.unwrapped b (by simp)
  have carved := found_carves given valid nonzero small bounded unwrapped ledger.self_last found
  obtain ⟨free, same, _⟩ := found_spec bounded valid.alignment found
  refine ⟨?_, ?_, ledger.reachable.tail carved, ?_⟩
  · rw [same]
    simpa using ledger.numbered
  · intro other member
    rcases List.mem_append.mp member with old | new
    · exact ledger.unwrapped other (by simp [old])
    · obtain rfl := List.mem_singleton.mp new
      rw [same]
      exact unwrapped
  · intro other member
    rcases List.mem_append.mp member with old | new
    · have before := ledger.self_front old
      rw [servedFrom_handOut_other given b request (by have := ledger.self_last; omega)]
      exact ledger.counts other (by simp [old])
    · obtain rfl := List.mem_singleton.mp new
      rw [servedFrom_handOut given b request (by rw [same]), same]
      show b.count + 1 = _
      rw [ledger.counts b (by simp), BitVec.ofNat_add]
      rfl

/-- As long as fewer than `2 ^ 31` regions were served the counter tells how many. -/
theorem count_exact_iff {count : BitVec 32} {served : Nat} (counts : count = BitVec.ofNat 32 served) :
    count.toInt = served ↔ served < 2 ^ 31 := by
  subst counts
  rw [BitVec.toInt_eq_toNat_cond, BitVec.toNat_ofNat]
  have reduced := Nat.mod_lt served (show 0 < 2 ^ 32 by decide)
  split <;> omega

theorem exact_obtain {live : List BuffDesc} {given : List Region} (ledger : Ledger live given)
    (self : Nat) (addr mAddr : Addr) (size : SizeT) (number : self = live.length) :
    Exact (live ++ [.fresh self addr mAddr size]) given ↔ Exact live given := by
  constructor
  · intro exact b member
    exact exact b (by simp [member])
  · intro exact b member
    rcases List.mem_append.mp member with old | new
    · exact exact b old
    · obtain rfl := List.mem_singleton.mp new
      rw [ledger.unserved number]
      rfl

/-- One more region keeps the counter of its buffer exact unless it is at its limit. -/
theorem exact_serve {front : List BuffDesc} {b next : BuffDesc} {request : Request}
    {given : List Region} (ledger : Ledger (front ++ [b]) given)
    (after : Ledger (front ++ [next]) (given ++ [b.handOut request])) :
    Exact (front ++ [next]) (given ++ [b.handOut request]) ↔
      Exact (front ++ [b]) given ∧ b.count.toNat ≠ 2 ^ 31 - 1 := by
  have self : next.self = b.self := by rw [after.self_last, ledger.self_last]
  have elsewhere (other : BuffDesc) (member : other ∈ front) :
      servedFrom (given ++ [b.handOut request]) other = servedFrom given other := by
    have before := ledger.self_front member
    have last := ledger.self_last
    exact servedFrom_handOut_other given b request (by omega)
  have counted := ledger.counts b (by simp)
  have recounted := after.counts next (by simp)
  have more := servedFrom_handOut given b request self
  have earlier := count_exact_iff counted
  have later := count_exact_iff recounted
  have value : b.count.toNat = servedFrom given b % 2 ^ 32 := by rw [counted, BitVec.toNat_ofNat]
  constructor
  · intro exact
    have below := later.mp (exact next (by simp))
    refine ⟨fun other member => ?_, by omega⟩
    rcases List.mem_append.mp member with old | new
    · rw [← elsewhere other old]
      exact exact other (by simp [old])
    · obtain rfl := List.mem_singleton.mp new
      exact earlier.mpr (by omega)
  · rintro ⟨exact, room⟩ other member
    rcases List.mem_append.mp member with old | new
    · rw [elsewhere other old]
      exact exact other (by simp [old])
    · obtain rfl := List.mem_singleton.mp new
      have below := earlier.mp (exact b (by simp))
      exact later.mpr (by omega)

end Mam.MirroredAllocators
