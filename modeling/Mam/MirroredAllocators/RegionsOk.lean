import Mam.MirroredAllocators.Regions

/-! The promises about the regions of a run. -/

namespace Mam.MirroredAllocators

open Mam.Library

/-- What the allocator promises about the regions it hands out and the buffers it
takes them from. -/
structure RegionsOk (live : List BuffDesc) (regions : List Region) : Prop where
  inside : ∀ r ∈ regions, ∃ b ∈ live, r.Inside b
  aligned : ∀ r ∈ regions, r.alignment.toNat ∣ r.mirrorAddr.toNat
  disjoint : regions.Pairwise fun r later =>
    Disjoint (span r.addr.toNat r.size.toNat) (span later.addr.toNat later.size.toNat) ∧
      Disjoint (span r.mirrorAddr.toNat r.size.toNat) (span later.mirrorAddr.toNat later.size.toNat)
  increasing : regions.Pairwise fun r later =>
    r.buffer = later.buffer → r.addr.toNat + r.size.toNat ≤ later.addr.toNat
  free : ∀ b ∈ live, 0 < b.free.toNat ∧ b.free.toNat ≤ b.size.toNat
  ends : ∀ b ∈ live, b.size.toNat - b.free.toNat = lastEnd regions b
  counted : ∀ b ∈ live, b.count.toInt = servedFrom regions b

/-- A valid request that fits into the current buffer finds its region counter below
the largest `int`. -/
def CountRoom (entry : Transition Allocator Event) : Prop :=
  entry.label.request.Valid → ∀ current, entry.pre.currentBuffer = some current →
    entry.label.request.size.toNat + current.pad entry.label.request.align < current.free.toNat →
    current.count.toNat ≠ 2 ^ 31 - 1

instance : DecidablePred CountRoom := fun entry =>
  decidable_of_iff (entry.label.request.Valid → ∀ current ∈ entry.pre.currentBuffer.toList,
      entry.label.request.size.toNat + current.pad entry.label.request.align < current.free.toNat →
      current.count.toNat ≠ 2 ^ 31 - 1)
    (by simp [CountRoom])

theorem regions_snoc (history : List (Transition Allocator Event)) (entry : Transition Allocator Event) :
    regions (history ++ [entry]) = regions history ++ (region entry).toList := by
  simp only [regions, List.filterMap_append]
  cases given : region entry <;> simp [given]

theorem region_of_unstored {pre post : Allocator} {event : Event}
    (stored : event.result.stored = none) : region ⟨pre, event, post⟩ = none := by
  simp [region, stored]

/-- A successful search, whose outcome the call passed on, hands out its region. -/
theorem region_of_found {pre post : Allocator} {event : Event} {b : BuffDesc}
    (valid : event.request.Valid) (bounded : b.free.toNat ≤ b.size.toNat)
    (found : (findInBuffer b event.request.size event.request.align).found = true)
    (stored : event.result.stored =
      (findInBuffer b event.request.size event.request.align).stored)
    (current : post.currentBuffer =
      some (findInBuffer b event.request.size event.request.align).buffer) :
    region ⟨pre, event, post⟩ = some (b.handOut event.request) := by
  obtain ⟨free, same, _⟩ := found_spec bounded valid.alignment found
  rw [same] at stored current
  simp [region, stored, current, BuffDesc.handOut]

/-- What holds along a run of proper calls. -/
structure Along (history : List (Transition Allocator Event)) (a : Allocator) : Prop where
  wellFormed : a.WellFormed
  ledger : Ledger a.live (regions history)

/-- One proper call keeps the ledger, and keeps the counters exact exactly when the
counter of the buffer it serves from has room. -/
theorem Along.step {history : List (Transition Allocator Event)} {pre post : Allocator}
    {event : Event} (along : Along history pre) (step : Step pre event post)
    (proper : Proper ⟨pre, event, post⟩) :
    Ledger post.live (regions (history ++ [⟨pre, event, post⟩])) ∧
      (Exact post.live (regions (history ++ [⟨pre, event, post⟩])) ↔
        Exact pre.live (regions history) ∧ CountRoom ⟨pre, event, post⟩) := by
  obtain ⟨wellFormed, ledger⟩ := along
  have small : event.request.size.toNat ≤ 2 ^ 63 := proper.size
  have nonzero : event.request.align ≠ 0 := proper.alignment
  -- Where the current buffer is too small the counter does not matter.
  have spared (missed : event.request.Valid → ∀ current, pre.currentBuffer = some current →
      (findInBuffer current event.request.size event.request.align).found = false) :
      CountRoom ⟨pre, event, post⟩ := by
    intro valid current present fits
    have found := (found_iff_of_power (wellFormed.bounded current
      (Allocator.mem_live_of_current present)) (valid.power nonzero) small).mpr fits
    rw [missed valid current present] at found
    cases found
  rw [regions_snoc]
  cases step.effect with
  | failed failure code stored live totalSize nextDesc =>
    rw [region_of_unstored stored, live, Option.toList_none, List.append_nil]
    exact ⟨ledger, fun exact => ⟨exact, spared failure.missed⟩, fun both => both.1⟩
  | @inPlace current valid present found code stored desc same =>
    have bounded := wellFormed.bounded current (Allocator.mem_live_of_current present)
    obtain ⟨before, after⟩ := live_inPlace
      (findInBuffer current event.request.size event.request.align).buffer present
    rw [region_of_found valid bounded found stored (by rw [same])]
    rw [same, after, before, Option.toList_some]
    rw [before] at ledger
    have served := ledger.serve valid nonzero small bounded found
    refine ⟨served, (exact_serve ledger served).trans (and_congr_right fun _ => ?_)⟩
    have fits := (found_iff_of_power bounded (valid.power nonzero) small).mp found
    constructor
    · intro room _ other also _
      rw [present] at also
      obtain rfl := Option.some.inj also
      exact room
    · intro room
      exact room valid current present fits
  | @fresh asked valid missed appendable grown serves code stored desc calls here live totalSize nextDesc =>
    have positive : 0 < asked.toNat := by
      have covered := le_of_growLoop grown
      have nonempty := valid.size_pos
      omega
    have number := wellFormed.nextDesc_eq
    have obtained := ledger.obtain pre.nextDesc event.reply.alloc1 event.reply.alloc2 asked number
      positive ⟨serves.alloc1, serves.alloc2⟩ (proper.honest _ (by simp [calls]))
      (proper.honest _ (by simp [calls]))
    have kept := exact_obtain ledger pre.nextDesc event.reply.alloc1 event.reply.alloc2 asked number
    have room := spared fun _ => missed
    have bounded : (BuffDesc.fresh pre.nextDesc event.reply.alloc1 event.reply.alloc2 asked).free.toNat ≤
        (BuffDesc.fresh pre.nextDesc event.reply.alloc1 event.reply.alloc2 asked).size.toNat :=
      Nat.le_refl _
    rw [live]
    cases found : (findInBuffer (.fresh pre.nextDesc event.reply.alloc1 event.reply.alloc2 asked)
        event.request.size event.request.align).found with
    | false =>
      rw [not_found_spec found] at stored ⊢
      rw [region_of_unstored stored, Option.toList_none, List.append_nil, kept]
      exact ⟨obtained, fun exact => ⟨exact, room⟩, fun both => both.1⟩
    | true =>
      have served := obtained.serve valid nonzero small bounded found
      rw [region_of_found valid bounded found stored here, Option.toList_some]
      refine ⟨served, (exact_serve obtained served).trans ?_⟩
      rw [kept]
      exact ⟨fun both => ⟨both.1, room⟩, fun both => ⟨both.1, by simp [BuffDesc.fresh]⟩⟩

theorem lastEnd_carved (given : List Region) (b : BuffDesc) :
    Arena.lastEnd (given.map Region.carved) b.self b.block = lastEnd given b := by
  have filtered : (given.map Region.carved).filter (·.block = b.self) =
      (given.filter (·.buffer = b.self)).map Region.carved := by
    rw [List.filter_map]
    rfl
  rw [Arena.lastEnd, lastEnd, filtered, List.getLast?_map]
  cases (given.filter (·.buffer = b.self)).getLast? <;> rfl

/-- The ledger, and exact counters, are all that the promises need. -/
theorem Ledger.regionsOk_iff {live : List BuffDesc} {given : List Region}
    (ledger : Ledger live given) (bounded : ∀ b ∈ live, b.free.toNat ≤ b.size.toNat) :
    RegionsOk live given ↔ Exact live given := by
  refine ⟨fun ok => ok.counted, fun exact => ?_⟩
  have tidy := ledger.reachable.tidy
  have used (b : BuffDesc) (member : b ∈ live) : b.used < b.size.toNat :=
    tidy.fit b.block (List.mem_map_of_mem member)
  refine ⟨?_, ?_, ?_, ?_, ?_, ?_, exact⟩
  · intro r member
    obtain ⟨block, present, above, sameOffset, taken⟩ := tidy.inside r.carved (List.mem_map_of_mem member)
    simp only [arena, List.getElem?_map, Option.map_eq_some_iff] at present
    obtain ⟨b, present, rfl⟩ := present
    have inside := List.mem_of_getElem? present
    have fit := used b inside
    simp only [Region.carved, BuffDesc.block] at above sameOffset taken
    exact ⟨b, inside, (ledger.self_eq present).symm, ⟨above, by omega⟩, ⟨by omega, by omega⟩, by omega⟩
  · intro r member
    exact tidy.aligned r.carved (List.mem_map_of_mem member)
  · exact List.pairwise_map.mp tidy.disjoint
  · exact List.pairwise_map.mp tidy.increasing
  · intro b member
    have fit := used b member
    have limit := bounded b member
    simp only [BuffDesc.used] at fit
    omega
  · intro b member
    rw [← lastEnd_carved]
    apply tidy.ends b.self b.block
    simp [arena, ledger.getElem?_self member]

/-- In a run of proper calls the promises hold at the end exactly when no request is
served from a buffer whose counter is at its limit. -/
theorem regionsOk_iff_countRoom {trace : List (Transition Allocator Event)} {final : Allocator}
    (run : Run trace final) (proper : ∀ entry ∈ trace, Proper entry) :
    RegionsOk final.live (regions trace) ↔ ∀ entry ∈ trace, CountRoom entry := by
  have start : Along [] Allocator.create := ⟨create_wellFormed, Ledger.empty⟩
  have kept (history : List (Transition Allocator Event)) (state : Allocator) (event : Event)
      (next : Allocator) (along : Along history state) (step : Step state event next)
      (allowed : Proper ⟨state, event, next⟩) : Along (history ++ [⟨state, event, next⟩]) next :=
    ⟨step.wellFormed along.wellFormed, (along.step step allowed).1⟩
  have along := run.invariant_along Along Proper start kept proper
  rw [along.ledger.regionsOk_iff along.wellFormed.bounded]
  exact run.holds_iff_along Along (fun history state => Exact state.live (regions history)) start
    (fun b member => nomatch member) kept
    (fun history state event next along step allowed => (along.step step allowed).2) proper

/-- A first buffer, a region that needs padding on the mirror side, a buffer that is
too small, and a platform that fails. -/
def mixedRequests : List (Request × Reply) :=
  [(⟨100, none, true, true, true⟩, ⟨0x10000, 0x20004, true, true⟩),
   (⟨64, some 64, true, true, false⟩, ⟨0, 0, false, false⟩),
   (⟨5000, some 16, true, true, true⟩, ⟨0x40000, 0x50008, true, true⟩),
   (⟨9000, none, true, true, true⟩, ⟨0x80000, 0, true, true⟩)]

theorem regionsOk_mixedRequests :
    RegionsOk (replay respond Allocator.create mixedRequests).2.live
      (regions (replay respond Allocator.create mixedRequests).1) :=
  (regionsOk_iff_countRoom (replay_run mixedRequests) (by decide +kernel)).mpr (by decide +kernel)

/-- One byte, asked of platforms that are not called. -/
def byteRequest : Request := ⟨1, none, true, true, false⟩

def noReply : Reply := ⟨0, 0, false, false⟩

/-- A buffer of `2 ^ 32` bytes of which `served` single bytes were handed out. -/
def bytesBuffer (served : Nat) : BuffDesc :=
  { self := 0, addr := 0x1000000000, mAddr := 0x2000000000, size := BitVec.ofNat 64 (2 ^ 32)
    free := BitVec.ofNat 64 (2 ^ 32 - served), ready := false, count := BitVec.ofNat 32 served }

/-- The allocator after a first request for `2 ^ 32` bytes, which the buffer obtained
for it could not hold, and `served` one-byte requests. -/
def afterBytes (served : Nat) : Allocator :=
  { totalSize := BitVec.ofNat 64 (2 ^ 32), currentBuffer := some (bytesBuffer served)
    buffers := Vendor.UTArray.init, nextDesc := 1 }

private theorem find_byte {served : Nat} (few : served < 2 ^ 31) :
    (findInBuffer (bytesBuffer served) 1 1).found = true ∧
      (findInBuffer (bytesBuffer served) 1 1).buffer = bytesBuffer (served + 1) := by
  have pad : (bytesBuffer served).pad 1 = 0 := by
    simp [BuffDesc.pad, padding, maskModulus, Nat.mod_one]
  have free : (bytesBuffer served).free.toNat = 2 ^ 32 - served := by
    rw [bytesBuffer, BitVec.toNat_ofNat, Nat.mod_eq_of_lt (by omega)]
  have size : (bytesBuffer served).size.toNat = 2 ^ 32 := rfl
  have one : (1 : SizeT).toNat = 1 := rfl
  have bounded : (bytesBuffer served).free.toNat ≤ (bytesBuffer served).size.toNat := by omega
  have found : (findInBuffer (bytesBuffer served) 1 1).found = true := by
    rw [found_iff bounded accepted_one, pad, free, one]
    omega
  obtain ⟨rest, same, spent⟩ := found_spec bounded accepted_one found
  rw [pad, free, one] at spent
  refine ⟨found, ?_⟩
  have left : rest = BitVec.ofNat 64 (2 ^ 32 - (served + 1)) := by
    apply BitVec.eq_of_toNat_eq
    rw [BitVec.toNat_ofNat, Nat.mod_eq_of_lt (by omega)]
    omega
  rw [same, left]
  simp [bytesBuffer, BitVec.ofNat_add]

private theorem byte_step {served : Nat} (few : served < 2 ^ 31) :
    ∃ result, Step (afterBytes served) ⟨byteRequest, noReply, result⟩ (afterBytes (served + 1)) ∧
      result.calls = [] := by
  obtain ⟨found, next⟩ := find_byte few
  have present : (afterBytes served).currentBuffer = some (bytesBuffer served) := by
    simp only [afterBytes]
  have valid : byteRequest.Valid := by decide
  have align : byteRequest.align = 1 := by decide
  have size : byteRequest.size = 1 := by decide
  have answered := call_eq noReply (afterBytes served) byteRequest
  rw [if_pos valid, align, size, allocInternal_inPlace noReply present found, next] at answered
  exact ⟨_, ⟨answered, by simp only [afterBytes]⟩, rfl⟩

/-- `2 ^ 31` regions of one byte drive the counter of a buffer negative. -/
theorem counter_wraps : ¬ ∀ (trace : List (Transition Allocator Event)) (final : Allocator),
    Run trace final → (∀ entry ∈ trace, Proper entry) → RegionsOk final.live (regions trace) := by
  intro promised
  have reached (served : Nat) (few : served ≤ 2 ^ 31) :
      ∃ trace, Run trace (afterBytes served) ∧ ∀ entry ∈ trace, Proper entry := by
    induction served with
    | zero =>
      have first := replay_run [(⟨BitVec.ofNat 64 (2 ^ 32), none, true, true, false⟩,
        ⟨0x1000000000, 0x2000000000, true, true⟩)]
      exact ⟨_, first, by decide +kernel⟩
    | succ served ih =>
      obtain ⟨trace, run, proper⟩ := ih (by omega)
      obtain ⟨result, step, calls⟩ := byte_step few
      refine ⟨_, run.snoc step, ?_⟩
      intro entry member
      rcases List.mem_append.mp member with old | new
      · exact proper entry old
      · obtain rfl := List.mem_singleton.mp new
        exact ⟨show (1 : SizeT).toNat ≤ 2 ^ 63 by decide, show (1 : SizeT) ≠ 0 by decide,
          by simp [calls]⟩
  obtain ⟨trace, run, proper⟩ := reached (2 ^ 31) (Nat.le_refl _)
  have ok := promised trace _ run proper
  have counted := ok.counted _ (Allocator.mem_live_of_current (a := afterBytes (2 ^ 31)) rfl)
  have negative : (BitVec.ofNat 32 (2 ^ 31)).toInt < 0 := by decide
  have same : (BitVec.ofNat 32 (2 ^ 31)).toInt = _ := counted
  omega

end Mam.MirroredAllocators
