import Mam.Library.Mirror
import Mam.MirroredAllocators.Descriptors
import Mam.MirroredAllocators.RegionsOk

/-! What the buffer descriptors are for: a client that copies the buffers it fetched has every
region on the other side, at the address it was given for it. -/

namespace Mam.MirroredAllocators

open Mam.Library Mam.Library.Window

/-- The blocks of a buffer, from the host to the mirror. -/
def BuffDesc.window (b : BuffDesc) : Window := ⟨b.addr.toNat, b.mAddr.toNat, b.size.toNat⟩

/-- A region, from the host to the mirror. -/
def Region.window (r : Region) : Window := ⟨r.addr.toNat, r.mirrorAddr.toNat, r.size.toNat⟩

/-- The buffer that a fetched pointer leads to. -/
def Allocator.desc? (a : Allocator) (desc : Option Nat) : Option BuffDesc :=
  desc.bind fun self => a.live.find? (·.self = self)

/-- What a client reads off the descriptors it fetched. -/
def Allocator.windows (a : Allocator) (descs : List (Option Nat)) : List Window :=
  descs.filterMap fun desc => (a.desc? desc).map BuffDesc.window

/-- What the windows of the buffers do for the regions. -/
structure Mirrors (ws : List Window) (regions : List Region) : Prop where
  across : ∀ r ∈ regions, ∀ i < r.size.toNat,
    translateAll ws (r.addr.toNat + i) = some (r.mirrorAddr.toNat + i)
  back : ∀ r ∈ regions, ∀ i < r.size.toNat,
    translateAll (ws.map flip) (r.mirrorAddr.toNat + i) = some (r.addr.toNat + i)
  copied : ∀ {β : Type} (host mirror : Nat → β), ∀ r ∈ regions, ∀ i < r.size.toNat,
    copyAll ws host mirror (r.mirrorAddr.toNat + i) = host (r.addr.toNat + i)
  copiedBack : ∀ {β : Type} (host mirror : Nat → β), ∀ r ∈ regions, ∀ i < r.size.toNat,
    copyAll (ws.map flip) mirror host (r.addr.toNat + i) = mirror (r.mirrorAddr.toNat + i)
  elsewhere : ∀ {β : Type} (host mirror : Nat → β) (b : Nat),
    (∀ w ∈ ws, b ∉ span w.target w.size) → copyAll ws host mirror b = mirror b
  thereAndBack : ∀ {β : Type} (host mirror : Nat → β),
    copyAll (ws.map flip) (copyAll ws host mirror) host = host

section Windows

variable {a : Allocator} {live : List BuffDesc} {given : List Region} {r : Region}

/-- Every descriptor leads to its own buffer. -/
theorem find_self (numbered : live.map BuffDesc.self = List.range live.length) {b : BuffDesc}
    (member : b ∈ live) : live.find? (·.self = b.self) = some b := by
  have once : (live.map BuffDesc.self).Nodup := numbered ▸ List.nodup_range
  cases found : live.find? (·.self = b.self) with
  | none => simpa using List.find?_eq_none.mp found b member
  | some other =>
    have same : other.self = b.self := by simpa using List.find?_some found
    rw [List.inj_on_of_nodup_map once (List.mem_of_find?_eq_some found) member same]

/-- The windows of what was fetched are those of the live buffers, in order. -/
theorem windows_fetched (wellFormed : a.WellFormed) (counted : a.buffers.Counted)
    {descs : List (Option Nat)} (fetched : Fetched a descs) :
    a.windows descs = a.live.map BuffDesc.window := by
  have numbered : a.live.map BuffDesc.self = List.range a.live.length := by
    rw [wellFormed.numbered, wellFormed.nextDesc_eq]
  rw [fetched.eq_live counted, Allocator.windows, List.filterMap_map, List.filterMap_map]
  rw [← List.filterMap_eq_map]
  refine List.filterMap_congr fun b member => ?_
  show ((a.live.find? (·.self = b.self)).map BuffDesc.window) = some b.window
  rw [find_self numbered member]
  rfl

/-- The windows of live buffers share no address on either side. -/
theorem Ledger.twoSided (ledger : Ledger live given) : TwoSided (live.map BuffDesc.window) := by
  have apart := List.pairwise_map.mp ledger.reachable.tidy.apart
  constructor
  · exact List.pairwise_map.mpr (apart.imp And.left)
  · rw [List.map_map]
    exact List.pairwise_map.mpr (apart.imp And.right)

/-- Every region is a part of the window of its buffer. -/
theorem Ledger.part (ledger : Ledger live given) (member : r ∈ given) :
    ∃ b ∈ live, r.window.Part b.window := by
  have tidy := ledger.reachable.tidy
  obtain ⟨block, present, above, sameOffset, taken⟩ := tidy.inside r.carved (List.mem_map_of_mem member)
  simp only [arena, List.getElem?_map, Option.map_eq_some_iff] at present
  obtain ⟨b, present, rfl⟩ := present
  have inside := List.mem_of_getElem? present
  have fit : b.used < b.size.toNat := tidy.fit b.block (List.mem_map_of_mem inside)
  refine ⟨b, inside, above, ?_, sameOffset⟩
  exact Nat.le_trans taken (Nat.add_le_add_left fit.le _)

theorem Ledger.across (ledger : Ledger live given) (member : r ∈ given) {i : Nat}
    (inside : i < r.size.toNat) :
    translateAll (live.map BuffDesc.window) (r.addr.toNat + i) = some (r.mirrorAddr.toNat + i) := by
  obtain ⟨b, listed, part⟩ := ledger.part member
  refine (translateAll_eq_some_iff ledger.twoSided.sources).mpr ⟨b.window, List.mem_map_of_mem listed, ?_⟩
  exact part.translate (translate_offset (w := r.window) inside)

theorem Ledger.mirrors (ledger : Ledger live given) :
    Mirrors (live.map BuffDesc.window) given := by
  have sides := ledger.twoSided
  have back {r : Region} (member : r ∈ given) {i : Nat} (inside : i < r.size.toNat) :
      translateAll ((live.map BuffDesc.window).map flip) (r.mirrorAddr.toNat + i) =
        some (r.addr.toNat + i) :=
    (translateAll_flip_iff sides).mpr (ledger.across member inside)
  constructor
  · exact fun r member i inside => ledger.across member inside
  · exact fun r member i inside => back member inside
  · exact fun host mirror r member i inside => copyAll_of_translate sides (ledger.across member inside)
  · exact fun host mirror r member i inside => copyAll_of_translate sides.flip (back member inside)
  · intro β host mirror b outside
    refine copyAll_elsewhere sides fun a comes => ?_
    obtain ⟨w, listed, goes⟩ := (translateAll_eq_some_iff sides.sources).mp comes
    obtain ⟨above, below, rfl⟩ := translate_eq_some_iff.mp goes
    exact outside w listed ⟨by omega, by omega⟩
  · exact fun host mirror => copyAll_back sides

end Windows

section Runs

variable {trace : List (Transition Allocator Event)} {final pre post : Allocator} {event : Event}

/-- A call leaves the blocks of the buffers, and adds at most one buffer behind them. -/
theorem Step.windows_grow (step : Step pre event post) :
    pre.live.map BuffDesc.window <+: post.live.map BuffDesc.window := by
  have same (b : BuffDesc) (size alignment : SizeT) :
      (findInBuffer b size alignment).buffer.window = b.window := by
    obtain ⟨addr, mAddr, whole⟩ := findInBuffer_blocks b size alignment
    rw [BuffDesc.window, addr, mAddr, whole]
    rfl
  cases step.effect with
  | failed failure code stored live totalSize nextDesc => exact live ▸ List.prefix_refl _
  | @inPlace current valid present found code stored desc next =>
    obtain ⟨before, after⟩ := live_inPlace
      (findInBuffer current event.request.size event.request.align).buffer present
    have kept : post.live.map BuffDesc.window = pre.live.map BuffDesc.window := by
      rw [next, after, before, List.map_append, List.map_append, List.map_singleton,
        List.map_singleton, same]
    exact kept ▸ List.prefix_refl _
  | fresh valid missed appendable grown serves code stored desc calls here live totalSize nextDesc =>
    rw [live, List.map_append]
    exact List.prefix_append _ _

/-- The windows at any moment begin those at any later moment. -/
theorem windows_grow (run : Run trace final) {entry : Transition Allocator Event}
    (member : entry ∈ trace) :
    entry.pre.live.map BuffDesc.window <+: final.live.map BuffDesc.window := by
  obtain ⟨_, _, _, _, step, rest⟩ := run.split member
  exact rest.invariant (fun a => entry.pre.live.map BuffDesc.window <+: a.live.map BuffDesc.window)
    step.windows_grow fun _ _ _ before step => before.trans step.windows_grow

theorem ledger_of_run (run : Run trace final) (proper : ∀ entry ∈ trace, Proper entry) :
    Ledger final.live (regions trace) := by
  have along : Along trace final := by
    refine run.invariant_along Along Proper ⟨create_wellFormed, Ledger.empty⟩ ?_ proper
    intro history state event next along step allowed
    exact ⟨step.wellFormed along.wellFormed, (along.step step allowed).1⟩
  exact along.ledger

/-- After any run over honest platforms a client that fetches the descriptors can take every
address inside a region across and back, and has every region on the other side after it copied
the buffers; and an address it took across earlier it takes to the same place later. -/
theorem regions_mirrored (run : Run trace final) (proper : ∀ entry ∈ trace, Proper entry)
    {descs : List (Option Nat)} (fetched : Fetched final descs) :
    Mirrors (final.windows descs) (regions trace) ∧
      ∀ entry ∈ trace, ∀ earlier, Fetched entry.pre earlier → ∀ a b,
        translateAll (entry.pre.windows earlier) a = some b →
          translateAll (final.windows descs) a = some b := by
  have windows := windows_fetched (wellFormed_of_run run) (counted_of_run run) fetched
  rw [windows]
  refine ⟨(ledger_of_run run proper).mirrors, ?_⟩
  intro entry member earlier told a b goes
  obtain ⟨_, _, _, before, _, _⟩ := run.split member
  rw [windows_fetched (wellFormed_of_run before) (counted_of_run before) told] at goes
  exact translateAll_of_grown (windows_grow run member) goes

theorem mirrored_mixedRequests :
    Mirrors ((replay respond Allocator.create mixedRequests).2.windows [some 0, some 1])
      (regions (replay respond Allocator.create mixedRequests).1) := by
  refine (regions_mirrored (replay_run mixedRequests) (by decide +kernel) ?_).1
  refine ⟨2, fun _ => none, _, _, rfl, ?_⟩
  decide +kernel

end Runs

end Mam.MirroredAllocators
