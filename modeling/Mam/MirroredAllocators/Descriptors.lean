import Mam.MirroredAllocators.Release

/-! What `mam_allocator_get_buffer_descs` tells of the buffers. -/

namespace Mam.MirroredAllocators

open Mam.Library Mam.Vendor

/-- How `mam_allocator_get_buffer_descs` leaves: its code, the array `descs` with the
descriptors written to it, and what it stored through `n_buff_ret`. NULL is `none`. -/
structure DescsResult where
  code : MamError
  descs : Option (Nat → Option Nat)
  count : Option SizeT

/-- The number of buffers that `mam_allocator_get_buffer_descs` counts. -/
def Allocator.buffCount (a : Allocator) : SizeT :=
  if a.currentBuffer.isSome then a.buffers.len + 1 else a.buffers.len

/-- The cells of `descs` after the live buffers are stored in them. -/
def Allocator.copy (a : Allocator) (cells : Nat → Option Nat) : Nat → Option Nat :=
  -- below its length the list has an element for `utarray_eltptr` to point to
  let cells := forLoop 0 a.buffers.len.toNat
    (fun i cells =>
      Function.update cells i ((a.buffers.eltptr (BitVec.ofNat 64 i)).map (·.self))) cells
  match a.currentBuffer with
  | none => cells
  | some current => Function.update cells a.buffers.len.toNat (some current.self)

/-- The cells of `descs` after the rest of them is NULL. -/
def Allocator.fill (a : Allocator) (nBuff : SizeT) (cells : Nat → Option Nat) : Nat → Option Nat :=
  forLoop a.buffCount.toNat nBuff.toNat (fun i cells => Function.update cells i none) (a.copy cells)

/-- `mam_allocator_get_buffer_descs`. -/
def getBufferDescs (allocator : Option Allocator) (nBuff : SizeT)
    (descs : Option (Nat → Option Nat)) (nBuffRet : Bool) : DescsResult :=
  match allocator with
  | none => { code := .einval, descs := descs, count := none }
  | some a =>
    if 0 < nBuff ∧ descs.isNone then { code := .einval, descs := descs, count := none }
    else
      let count := if nBuffRet then some a.buffCount else none
      match descs with
      | none => { code := .success, descs := none, count := count }
      | some cells =>
        if nBuff < a.buffCount then { code := .einval, descs := descs, count := none }
        else { code := .success, descs := some (a.fill nBuff cells), count := count }

section Fill

variable {a : Allocator}

theorem live_length (a : Allocator) :
    a.live.length = a.buffers.elems.length + a.currentBuffer.toList.length := by
  rw [Allocator.live, List.length_append]

/-- The count is the number of live buffers. -/
theorem toNat_buffCount (counted : a.buffers.Counted) : a.buffCount.toNat = a.live.length := by
  have small := counted.small
  have len := counted.toNat_len
  rw [live_length, Allocator.buffCount]
  cases a.currentBuffer with
  | none => exact len
  | some current =>
    show (a.buffers.len + 1).toNat = _
    rw [BitVec.toNat_add, len]
    exact Nat.mod_eq_of_lt (by simp; omega)

/-- The list is copied, and the current buffer after it. -/
theorem copy_eq (counted : a.buffers.Counted) (cells : Nat → Option Nat) (i : Nat) :
    a.copy cells i = if i < a.live.length then (a.live.map (·.self))[i]? else cells i := by
  have len := counted.toNat_len
  have small := counted.small
  have listed : forLoop 0 a.buffers.len.toNat
      (fun i cells => Function.update cells i
        ((a.buffers.eltptr (BitVec.ofNat 64 i)).map (·.self))) cells i =
      if i < a.buffers.elems.length then (a.buffers.elems.map (·.self))[i]? else cells i := by
    rw [forLoop_update _ (Nat.zero_le _), len]
    simp only [Nat.zero_le, true_and]
    split
    · rename_i inside
      have same : (BitVec.ofNat 64 i).toNat = i := by
        rw [BitVec.toNat_ofNat]
        exact Nat.mod_eq_of_lt (by omega)
      rw [counted.eltptr_eq, same, List.getElem?_map]
    · rfl
  rw [live_length, Allocator.live]
  unfold Allocator.copy
  rw [len] at listed ⊢
  cases a.currentBuffer with
  | none => simpa using listed
  | some current =>
    simp only [Function.update_apply, listed]
    by_cases last : i = a.buffers.elems.length
    · subst last
      simp
    · by_cases inside : i < a.buffers.elems.length
      · have early : i < a.buffers.elems.length + 1 := by omega
        simp [last, inside, early]
      · have late : ¬ i < a.buffers.elems.length + 1 := by omega
        simp [last, inside, late]

/-- The cells filled are the live buffers in order, and then NULL. -/
theorem fill_eq (counted : a.buffers.Counted) {nBuff : SizeT}
    (enough : a.live.length ≤ nBuff.toNat) (cells : Nat → Option Nat) (i : Nat) :
    a.fill nBuff cells i =
      if i < nBuff.toNat then (a.live.map (·.self))[i]? else cells i := by
  have count := toNat_buffCount counted
  rw [Allocator.fill, forLoop_update _ (by rw [count]; exact enough), copy_eq counted, count]
  by_cases live : i < a.live.length
  · have inside : i < nBuff.toNat := Nat.lt_of_lt_of_le live enough
    simp [live, inside, Nat.not_le.mpr live]
  · have beyond : a.live.length ≤ i := Nat.not_lt.mp live
    by_cases inside : i < nBuff.toNat
    · simp [inside, beyond]
    · simp [live, inside]

end Fill

section Calls

variable {a : Allocator}

/-- What a call tells the caller that passes `n_buff_ret`. -/
structure Told (a : Allocator) (nBuff : SizeT) (descs : Option (Nat → Option Nat))
    (result : DescsResult) : Prop where
  rejects : result.code = .einval ↔
    (∃ cells, descs = some cells ∧ nBuff.toNat < a.live.length) ∨ 0 < nBuff.toNat ∧ descs = none
  untouched : result.code = .einval → result.descs = descs ∧ result.count = none
  succeeds : result.code ≠ .einval →
    result.code = .success ∧ ∃ n, result.count = some n ∧ n.toNat = a.live.length
  cells : result.code ≠ .einval → ∀ cells, descs = some cells → ∃ after, result.descs = some after ∧
    (∀ i < a.live.length, after i = (a.live.map (·.self))[i]?) ∧
    (∀ i, a.live.length ≤ i → i < nBuff.toNat → after i = none) ∧
    ∀ i, nBuff.toNat ≤ i → after i = cells i

theorem getBufferDescs_told (counted : a.buffers.Counted) (nBuff : SizeT)
    (descs : Option (Nat → Option Nat)) :
    Told a nBuff descs (getBufferDescs (some a) nBuff descs true) := by
  have count := toNat_buffCount counted
  cases descs with
  | none =>
    by_cases asked : 0 < nBuff
    · have rejected : getBufferDescs (some a) nBuff none true = ⟨.einval, none, none⟩ :=
        if_pos ⟨asked, rfl⟩
      rw [rejected]
      exact ⟨⟨fun _ => .inr ⟨asked, rfl⟩, fun _ => rfl⟩, fun _ => ⟨rfl, rfl⟩,
        fun other => absurd rfl other, fun other => absurd rfl other⟩
    · have queried : getBufferDescs (some a) nBuff none true =
          ⟨.success, none, some a.buffCount⟩ :=
        if_neg fun both => asked both.1
      rw [queried]
      refine ⟨⟨nofun, ?_⟩, nofun, fun _ => ⟨rfl, _, rfl, count⟩, fun _ _ => nofun⟩
      rintro (⟨cells, given, _⟩ | ⟨some, _⟩)
      · cases given
      · exact absurd some asked
  | some cells =>
    by_cases short : nBuff < a.buffCount
    · have few : nBuff.toNat < a.live.length := count ▸ short
      have rejected : getBufferDescs (some a) nBuff (some cells) true =
          ⟨.einval, some cells, none⟩ := by
        simp [getBufferDescs, short]
      rw [rejected]
      exact ⟨⟨fun _ => .inl ⟨cells, rfl, few⟩, fun _ => rfl⟩, fun _ => ⟨rfl, rfl⟩,
        fun other => absurd rfl other, fun other => absurd rfl other⟩
    · have enough : a.live.length ≤ nBuff.toNat := count ▸ BitVec.not_lt.mp short
      have fetched : getBufferDescs (some a) nBuff (some cells) true =
          ⟨.success, some (a.fill nBuff cells), some a.buffCount⟩ := by
        simp [getBufferDescs, short]
      rw [fetched]
      refine ⟨⟨nofun, ?_⟩, nofun, fun _ => ⟨rfl, _, rfl, count⟩, ?_⟩
      · rintro (⟨_, _, few⟩ | ⟨_, missing⟩)
        · exact absurd enough (Nat.not_le.mpr few)
        · cases missing
      · rintro _ _ ⟨⟩
        have filled := fill_eq counted enough cells
        refine ⟨_, rfl, ?_, ?_, ?_⟩
        · intro i live
          rw [filled, if_pos (Nat.lt_of_lt_of_le live enough)]
        · intro i beyond inside
          rw [filled, if_pos inside]
          simpa using beyond
        · intro i outside
          rw [filled, if_neg (Nat.not_lt.mpr outside)]

/-- A fetch gives the list `descs`. -/
def Fetched (a : Allocator) (descs : List (Option Nat)) : Prop :=
  ∃ nBuff cells after n, getBufferDescs (some a) nBuff (some cells) true =
    ⟨.success, some after, some n⟩ ∧ descs = (List.range n.toNat).map after

/-- Whatever the arguments, a fetch gives the live buffers. -/
theorem Fetched.eq_live {descs : List (Option Nat)} (fetched : Fetched a descs)
    (counted : a.buffers.Counted) : descs = (a.live.map (·.self)).map some := by
  obtain ⟨nBuff, cells, after, n, returned, rfl⟩ := fetched
  have told := getBufferDescs_told counted nBuff (some cells)
  rw [returned] at told
  obtain ⟨_, _, ⟨⟩, length⟩ := told.succeeds nofun
  obtain ⟨_, ⟨⟩, live, _, _⟩ := told.cells nofun cells rfl
  apply List.ext_getElem (by simp [length])
  intro i inside _
  have small : i < a.live.length := by simpa [length] using inside
  simp [live i small, small]

end Calls

section Runs

variable {trace : List (Transition Allocator Event)} {final : Allocator}

/-- Descriptors are never given back to be used again. -/
theorem Step.nextDesc_le {pre post : Allocator} {event : Event} (step : Step pre event post) :
    pre.nextDesc ≤ post.nextDesc := by
  cases step.effect with
  | failed failure code stored live totalSize nextDesc => exact Nat.le_of_eq nextDesc.symm
  | inPlace valid present found code stored desc same => rw [same]
  | fresh valid missed appendable grown serves code stored desc calls here live totalSize nextDesc =>
    exact nextDesc ▸ Nat.le_succ _

/-- The descriptor a call returns is one of a live buffer. -/
theorem Step.desc_lt {pre post : Allocator} {event : Event} (wellFormed : pre.WellFormed)
    (step : Step pre event post) {desc : Nat} (returned : event.result.desc = some desc) :
    desc < post.nextDesc := by
  obtain ⟨answered, rfl⟩ := step
  rcases call_cases answered with ⟨invalid, rejected⟩ | ⟨valid, inner, internal, handed⟩
  · rw [rejected] at returned
    cases returned
  · rw [handed] at returned ⊢
    have inner_desc : inner.desc = some desc := by
      simp only [AllocResult.forCaller] at returned
      split at returned
      · exact returned
      · cases returned
    cases internal with
    | inPlace present found =>
      cases inner_desc
      exact wellFormed.older (Allocator.mem_live_of_current present)
    | appendFailed present missed pushed => cases inner_desc
    | unallocated retired grown refused => cases inner_desc
    | fresh retired grown served =>
      cases inner_desc
      exact Nat.lt_succ_self _

/-- From any moment of a run to its end no descriptor is lost. -/
theorem nextDesc_le_of_mem (run : Run trace final) {entry : Transition Allocator Event}
    (member : entry ∈ trace) :
    entry.pre.nextDesc ≤ entry.post.nextDesc ∧ entry.post.nextDesc ≤ final.nextDesc := by
  obtain ⟨_, _, _, _, step, rest⟩ := run.split member
  refine ⟨step.nextDesc_le, ?_⟩
  exact rest.invariant (fun a => entry.post.nextDesc ≤ a.nextDesc) (Nat.le_refl _)
    fun _ _ _ before step => Nat.le_trans before step.nextDesc_le

/-- The live buffers are the pairs of blocks obtained, oldest first. -/
theorem live_mirror_eq (run : Run trace final) :
    final.live.map (·.base .mirror) = obtained .mirror (platformCalls trace) := by
  refine run.invariant_along
    (fun history a => a.live.map (·.base .mirror) = obtained .mirror (platformCalls history))
    (fun _ => True) rfl ?_ (fun _ _ => trivial)
  intro history pre event post before step _
  have split : obtained .mirror (platformCalls (history ++ [⟨pre, event, post⟩])) =
      obtained .mirror (platformCalls history) ++ obtained .mirror event.result.calls := by
    simp [platformCalls, obtained]
  rw [split, ← before]
  cases step.traffic with
  | silent quiet same => rw [quiet, same .mirror, obtained_nil, List.append_nil]
  | refused asked same => simp [asked, same]
  | givenUp present asked same => simp [asked, same]
  | @obtained size buffer host mirror asked live =>
    have mirror : ¬ buffer.mAddr = 0#64 := mirror
    simp [asked, live, mirror, BuffDesc.base]

/-- After any run of allocation calls, the descriptors told are those of all live buffers,
in the order of their creation and each once, among them every descriptor a call has
returned; a query followed by a fetch succeeds; and a list fetched earlier begins every
list fetched later. -/
theorem descs_complete (run : Run trace final) :
    (∀ nBuff descs, Told final nBuff descs (getBufferDescs (some final) nBuff descs true)) ∧
    (final.live.map (·.self) = List.range final.live.length ∧
      final.live.map (·.base .mirror) = obtained .mirror (platformCalls trace)) ∧
    (∀ entry ∈ trace, ∀ desc, entry.label.result.desc = some desc →
      desc ∈ final.live.map (·.self)) ∧
    (∃ n, getBufferDescs (some final) 0 none true = ⟨.success, none, some n⟩ ∧
      ∀ cells, (getBufferDescs (some final) n (some cells) true).code = .success) ∧
    ∀ entry ∈ trace, ∀ earlier later, Fetched entry.pre earlier → Fetched final later →
      earlier <+: later := by
  have counted := counted_of_run run
  have wellFormed := wellFormed_of_run run
  refine ⟨getBufferDescs_told counted, ⟨?_, live_mirror_eq run⟩, ?_, ?_, ?_⟩
  · rw [wellFormed.numbered, wellFormed.nextDesc_eq]
  · intro entry member desc returned
    obtain ⟨_, _, _, before, step, _⟩ := run.split member
    rw [wellFormed.numbered, List.mem_range]
    exact Nat.lt_of_lt_of_le (step.desc_lt (wellFormed_of_run before) returned)
      (nextDesc_le_of_mem run member).2
  · refine ⟨final.buffCount, by simp [getBufferDescs], fun cells => ?_⟩
    have told := getBufferDescs_told counted final.buffCount (some cells)
    refine (told.succeeds fun rejected => ?_).1
    rcases told.rejects.mp rejected with ⟨_, _, few⟩ | ⟨_, missing⟩
    · exact Nat.ne_of_lt few (toNat_buffCount counted)
    · cases missing
  · intro entry member earlier later first second
    obtain ⟨_, _, _, before, step, _⟩ := run.split member
    obtain ⟨kept, grown⟩ := nextDesc_le_of_mem run member
    rw [first.eq_live (counted_of_run before), second.eq_live counted,
      (wellFormed_of_run before).numbered, wellFormed.numbered]
    have begins : List.range entry.pre.nextDesc <+: List.range final.nextDesc := by
      rw [← Nat.min_eq_left (Nat.le_trans kept grown), ← List.take_range]
      exact List.take_prefix _ _
    exact begins.map _

theorem descs_failingRequests :
    Told (replay respond Allocator.create failingRequests).2 12 (some fun _ => some 7)
        (getBufferDescs (some (replay respond Allocator.create failingRequests).2) 12
          (some fun _ => some 7) true) ∧
      (replay respond Allocator.create failingRequests).2.live.map (·.self) = List.range 9 := by
  obtain ⟨told, ⟨numbered, _⟩, _⟩ := descs_complete (replay_run failingRequests)
  exact ⟨told _ _, numbered.trans (by decide +kernel)⟩

end Runs

end Mam.MirroredAllocators
