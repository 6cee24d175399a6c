import Mam.MirroredAllocators.WellFormed
import Mam.MirroredAllocators.Growth

/-! Whether a call that reports success has served its request. -/

namespace Mam.MirroredAllocators

open Mam.Library

/-- A success has served the request: both addresses were stored, and the returned
buffer holds at least the requested bytes more than it held before, if it existed. -/
def Served (entry : Transition Allocator Event) : Prop :=
  entry.label.result.code = .success →
    entry.label.result.stored.isSome = true ∧
    ∃ buffer ∈ entry.post.live,
      (entry.label.request.desc = true → entry.label.result.desc = some buffer.self) ∧
      entry.label.request.size.toNat ≤ buffer.used ∧
      ∀ before ∈ entry.pre.live, before.self = buffer.self →
        before.used + entry.label.request.size.toNat ≤ buffer.used

instance (entry : Transition Allocator Event) : Decidable (Served entry) := by
  unfold Served
  infer_instance

/-- The bytes a request takes of a buffer, in exact arithmetic. -/
def BuffDesc.need (b : BuffDesc) (request : Request) : Nat :=
  request.size.toNat + b.pad request.align

/-- The bytes a request takes of a new buffer with mirror address `mAddr`. -/
def freshNeed (mAddr : Addr) (request : Request) : Nat :=
  request.size.toNat + padding mAddr.toNat (maskModulus request.align)

/-- When a valid request is served, in terms of the state before the call, the
request and the platform's replies. -/
structure Fits (a : Allocator) (request : Request) (reply : Reply) : Prop where
  /-- What the current buffer's test lets through did not wrap. -/
  unwrapped : ∀ current, a.currentBuffer = some current →
    current.need request % 2 ^ 64 < current.free.toNat → current.need request < 2 ^ 64
  /-- A new buffer, the total size doubled as often as the bare request needs, is
  strictly larger than the request with its padding. -/
  room : (∀ current, a.currentBuffer = some current →
      current.free.toNat ≤ current.need request % 2 ^ 64) →
    Appendable a reply → reply.Serves →
    ∀ doublings, GrownBy (startSize a.totalSize).toNat request.size.toNat doublings →
      freshNeed reply.alloc2 request < (startSize a.totalSize).toNat * 2 ^ doublings

private theorem fresh_need (self : Nat) (addr mAddr : Addr) (size : SizeT) (request : Request) :
    (BuffDesc.fresh self addr mAddr size).need request = freshNeed mAddr request := by
  simp [BuffDesc.need, BuffDesc.pad, BuffDesc.used, BuffDesc.fresh, freshNeed]

private theorem current_found_iff {a : Allocator} {current : BuffDesc} {request : Request}
    (wellFormed : a.WellFormed) (valid : request.Valid) (present : a.currentBuffer = some current) :
    (findInBuffer current request.size request.align).found = true ↔
      current.need request % 2 ^ 64 < current.free.toNat :=
  found_iff (wellFormed.bounded current (Allocator.mem_live_of_current present)) valid.alignment

/-- The test of the current buffer fails exactly where its free bytes do not exceed the
padded size, reduced to 64 bits. -/
theorem current_missed_iff {a : Allocator} {current : BuffDesc} {request : Request}
    (wellFormed : a.WellFormed) (valid : request.Valid) (present : a.currentBuffer = some current) :
    (findInBuffer current request.size request.align).found = false ↔
      current.free.toNat ≤ current.need request % 2 ^ 64 := by
  rw [← Nat.not_lt, ← Bool.not_eq_true]
  exact not_congr (current_found_iff wellFormed valid present)

/-- A successful search uses up at least the requested bytes exactly when the padded
size did not wrap. -/
private theorem used_grows_iff {b : BuffDesc} {request : Request} (valid : request.Valid)
    (bounded : b.free.toNat ≤ b.size.toNat)
    (found : (findInBuffer b request.size request.align).found = true) :
    b.used + request.size.toNat ≤ (findInBuffer b request.size request.align).buffer.used ↔
      b.need request < 2 ^ 64 := by
  obtain ⟨free, same, spent⟩ := found_spec bounded valid.alignment found
  have short := b.pad_lt request.align
  have limit := maskModulus_le request.align
  have sized := request.size.isLt
  rw [same]
  simp only [BuffDesc.used, BuffDesc.need] at *
  by_cases wraps : request.size.toNat + b.pad request.align < 2 ^ 64
  · rw [Nat.mod_eq_of_lt wraps] at spent
    omega
  · have reduced : (request.size.toNat + b.pad request.align) % 2 ^ 64 =
        request.size.toNat + b.pad request.align - 2 ^ 64 := by
      rw [Nat.mod_eq_sub_mod (by omega), Nat.mod_eq_of_lt (by omega)]
    rw [reduced] at spent
    omega

/-- A buffer that was not served from does not hold more than before. -/
private theorem not_served_elsewhere {pre : Allocator} {b : BuffDesc} {request : Request}
    (valid : request.Valid) (member : b ∈ pre.live)
    (gained : ∀ before ∈ pre.live, before.self = b.self → before.used + request.size.toNat ≤ b.used) :
    False := by
  have positive := valid.size_pos
  have more := gained b member rfl
  omega

/-- Serving in place is real exactly when the padded size did not wrap. -/
private theorem served_inPlace_iff {pre : Allocator} {event : Event} {current : BuffDesc}
    (wellFormed : pre.WellFormed) (valid : event.request.Valid)
    (present : pre.currentBuffer = some current)
    (found : (findInBuffer current event.request.size event.request.align).found = true)
    (code : event.result.code = .success)
    (stored : event.result.stored =
      (findInBuffer current event.request.size event.request.align).stored)
    (desc : event.result.desc = if event.request.desc then some current.self else none) :
    Served ⟨pre, event, { pre with
        currentBuffer := some (findInBuffer current event.request.size event.request.align).buffer }⟩ ↔
      current.need event.request < 2 ^ 64 := by
  have bounded := wellFormed.bounded current (Allocator.mem_live_of_current present)
  obtain ⟨free, same, spent⟩ := found_spec bounded valid.alignment found
  obtain ⟨self, size, _⟩ :=
    findInBuffer_buffer current event.request.size event.request.align valid.alignment bounded
  obtain ⟨earlier, later⟩ :=
    live_inPlace (findInBuffer current event.request.size event.request.align).buffer present
  rw [← used_grows_iff valid bounded found]
  constructor
  · intro served
    obtain ⟨_, b, member, _, _, gained⟩ := served code
    rw [later] at member
    rcases List.mem_append.mp member with old | last
    · exact (not_served_elsewhere valid (by rw [earlier]; simp [old]) gained).elim
    · obtain rfl := List.mem_singleton.mp last
      exact gained current (by rw [earlier]; simp) self.symm
  · intro gained _
    refine ⟨by rw [stored, same]; rfl, _, ?_, ?_, Nat.le_trans (Nat.le_add_left _ _) gained, ?_⟩
    · rw [later]
      exact List.mem_append_right _ (List.mem_singleton.mpr rfl)
    · intro wanted
      rw [desc, self, wanted]
      rfl
    · intro before member sameSelf
      have unique := wellFormed.eq_of_self member (Allocator.mem_live_of_current present)
        (sameSelf.trans self)
      rw [unique]
      exact gained

/-- A new buffer serves the request exactly when it is strictly larger than the
request with its padding. -/
private theorem served_fresh_iff {pre post : Allocator} {event : Event} {asked : SizeT}
    (wellFormed : pre.WellFormed) (valid : event.request.Valid)
    (code : event.result.code = .success)
    (stored : event.result.stored = (findInBuffer
      (.fresh pre.nextDesc event.reply.alloc1 event.reply.alloc2 asked)
      event.request.size event.request.align).stored)
    (desc : event.result.desc = if event.request.desc then some pre.nextDesc else none)
    (live : post.live = pre.live ++ [(findInBuffer
      (.fresh pre.nextDesc event.reply.alloc1 event.reply.alloc2 asked)
      event.request.size event.request.align).buffer]) :
    Served ⟨pre, event, post⟩ ↔ freshNeed event.reply.alloc2 event.request < asked.toNat := by
  have empty : ((BuffDesc.fresh pre.nextDesc event.reply.alloc1 event.reply.alloc2 asked).used) = 0 :=
    Nat.sub_self _
  have needed := fresh_need pre.nextDesc event.reply.alloc1 event.reply.alloc2 asked event.request
  revert stored live empty needed
  generalize same : BuffDesc.fresh pre.nextDesc event.reply.alloc1 event.reply.alloc2 asked = fresh
  intro stored live empty needed
  have bounded : fresh.free.toNat ≤ fresh.size.toNat := by
    rw [← same]
    exact Nat.le_refl _
  have whole : fresh.free = asked := by rw [← same]; rfl
  have number : fresh.self = pre.nextDesc := by rw [← same]; rfl
  have fits : (findInBuffer fresh event.request.size event.request.align).found = true ↔
      (event.request.size.toNat + fresh.pad event.request.align) % 2 ^ 64 < fresh.free.toNat :=
    found_iff bounded valid.alignment
  obtain ⟨self, _, _⟩ :=
    findInBuffer_buffer fresh event.request.size event.request.align valid.alignment bounded
  rw [whole] at fits
  rw [← needed]
  constructor
  · intro served
    obtain ⟨isStored, b, member, _, enough, gained⟩ := served code
    cases found : (findInBuffer fresh event.request.size event.request.align).found with
    | false =>
      rw [stored, not_found_spec found] at isStored
      cases isStored
    | true =>
      rw [live] at member
      rcases List.mem_append.mp member with old | last
      · exact (not_served_elsewhere valid old gained).elim
      · obtain rfl := List.mem_singleton.mp last
        have unwrapped := (used_grows_iff valid bounded found).mp (by
          rw [empty, Nat.zero_add]
          exact enough)
        have below := fits.mp found
        rw [← BuffDesc.need, Nat.mod_eq_of_lt unwrapped] at below
        exact below
  · intro room _
    have limit := asked.isLt
    have unwrapped : fresh.need event.request < 2 ^ 64 := by omega
    have found := fits.mpr (by rw [← BuffDesc.need, Nat.mod_eq_of_lt unwrapped]; exact room)
    have gained := (used_grows_iff valid bounded found).mpr unwrapped
    obtain ⟨free, outcome, _⟩ := found_spec bounded valid.alignment found
    refine ⟨by rw [stored, outcome]; rfl, _, ?_, ?_, Nat.le_trans (Nat.le_add_left _ _) gained, ?_⟩
    · rw [live]
      exact List.mem_append_right _ (List.mem_singleton.mpr rfl)
    · intro wanted
      rw [desc, self, number, wanted]
      rfl
    · intro before member sameSelf
      have older := wellFormed.older member
      rw [sameSelf, self, number] at older
      exact absurd older (Nat.lt_irrefl _)

private theorem served_iff_fits_step {pre post : Allocator} {event : Event}
    (wellFormed : pre.WellFormed) (step : Step pre event post)
    (small : event.request.size.toNat ≤ 2 ^ 63) :
    Served ⟨pre, event, post⟩ ↔ (event.request.Valid → Fits pre event.request event.reply) := by
  -- A search that failed tells what the test of the current buffer compared.
  have exceeded (valid : event.request.Valid)
      (missed : ∀ current, pre.currentBuffer = some current →
        (findInBuffer current event.request.size event.request.align).found = false) :
      ∀ current, pre.currentBuffer = some current →
        current.free.toNat ≤ current.need event.request % 2 ^ 64 := by
    intro current present
    exact (current_missed_iff wellFormed valid present).mp (missed current present)
  cases step.effect with
  | failed failure code stored live totalSize nextDesc =>
    refine ⟨fun _ valid => ?_, fun _ success => absurd success code⟩
    have large := exceeded valid (failure.missed valid)
    refine ⟨fun current present below => absurd below (Nat.not_lt.mpr (large current present)), ?_⟩
    intro _ appendable serves
    cases failure with
    | rejected invalid => exact absurd valid invalid
    | append present missed full realloc =>
      have succeeded := appendable (by simp [present]) full
      rw [realloc] at succeeded
      cases succeeded
    | platform missed refused => exact absurd serves refused
  | @inPlace current valid present found code stored desc same =>
    rw [same, served_inPlace_iff wellFormed valid present found code stored desc]
    have below := (current_found_iff wellFormed valid present).mp found
    constructor
    · intro unwrapped _
      refine ⟨fun other also _ => ?_, fun above => absurd below (Nat.not_lt.mpr (above current present))⟩
      rw [present] at also
      cases also
      exact unwrapped
    · intro fits
      exact (fits valid).unwrapped current present below
  | @fresh asked valid missed appendable grown serves code stored desc calls here live totalSize nextDesc =>
    rw [served_fresh_iff wellFormed valid code stored desc live]
    obtain ⟨doublings, grownBy, value⟩ := buffAllocSize_spec small grown
    have large := exceeded valid missed
    rw [value]
    constructor
    · intro room _
      refine ⟨fun other also below => absurd below (Nat.not_lt.mpr (large other also)), ?_⟩
      intro _ _ _ other otherGrown
      rw [otherGrown.unique grownBy]
      exact room
    · intro fits
      exact (fits valid).room large appendable serves doublings grownBy

/-- In a run with sizes up to `2 ^ 63`, every success served its request exactly when
every valid request met a buffer that it fits into. -/
theorem served_iff_fits {trace : List (Transition Allocator Event)} {final : Allocator}
    (run : Run trace final) (sizes : ∀ entry ∈ trace, entry.label.request.size.toNat ≤ 2 ^ 63) :
    (∀ entry ∈ trace, Served entry) ↔
      ∀ entry ∈ trace, entry.label.request.Valid →
        Fits entry.pre entry.label.request entry.label.reply :=
  run.forall_iff Allocator.WellFormed create_wellFormed
    (fun _ _ _ wellFormed step => step.wellFormed wellFormed)
    (fun _ _ _ wellFormed step small => served_iff_fits_step wellFormed step small) sizes

/-- Two small regions of one buffer, and one that a second buffer is obtained for. -/
def growingRequests : List (Request × Reply) :=
  [(⟨100, none, true, true, true⟩, ⟨0x10000, 0x20004, true, true⟩),
   (⟨64, some 64, true, true, false⟩, ⟨0, 0, false, false⟩),
   (⟨5000, some 16, true, true, true⟩, ⟨0x40000, 0x50008, true, true⟩)]

theorem fits_growingRequests :
    Run (replay respond Allocator.create growingRequests).1
        (replay respond Allocator.create growingRequests).2 ∧
      ∀ entry ∈ (replay respond Allocator.create growingRequests).1, entry.label.request.Valid →
        Fits entry.pre entry.label.request entry.label.reply := by
  have run := replay_run growingRequests
  exact ⟨run, (served_iff_fits run (by decide +kernel)).mp (by decide +kernel)⟩

/-- The first request asks for as much as the smallest buffer has. -/
def pageRequest : List (Request × Reply) :=
  [(⟨4096, some 1, true, true, true⟩, ⟨0x10000, 0x20000, true, true⟩)]

/-- A request for exactly the size of the buffer obtained for it is not served, and
the call reports success. -/
theorem page_not_served : ¬ ∀ (trace : List (Transition Allocator Event)) (final : Allocator),
    Run trace final →
    (∀ entry ∈ trace, entry.label.request.Valid ∧ entry.label.request.size.toNat ≤ 2 ^ 63 ∧
      entry.label.reply.alloc1 ≠ 0 ∧ entry.label.reply.alloc2 ≠ 0) →
    ∀ entry ∈ trace, Served entry := by
  intro served
  have run := replay_run pageRequest
  have page := served _ _ run (by decide +kernel)
  revert page
  decide +kernel

end Mam.MirroredAllocators
