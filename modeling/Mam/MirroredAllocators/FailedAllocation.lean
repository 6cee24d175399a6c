import Mam.MirroredAllocators.InPlace
import Mam.MirroredAllocators.Release
import Mam.MirroredAllocators.Served

/-! What a failed allocation costs. -/

namespace Mam.MirroredAllocators

open Mam.Library Mam.Vendor

/-- The state after a call is as good as the one before: the same buffers in the same
places, and every request that the current buffer would have served is still served from
it, at the same addresses. -/
structure CostsNothing (pre post : Allocator) : Prop where
  currentBuffer : post.currentBuffer = pre.currentBuffer
  buffers : post.buffers.elems = pre.buffers.elems
  totalSize : post.totalSize = pre.totalSize
  serves : ∀ current, pre.currentBuffer = some current → ∀ reply request result,
    call reply pre request = .ok result → InPlace pre current result →
    ∃ again, call reply post request = .ok again ∧ InPlace post current again ∧
      again.stored = result.stored ∧ again.desc = result.desc

/-- A call gives up the current buffer for a new one that the platforms refuse. -/
structure LosesCurrent (a : Allocator) (request : Request) (reply : Reply) : Prop where
  valid : request.Valid
  retired : ∃ current, a.currentBuffer = some current ∧
    current.free.toNat ≤ current.need request % 2 ^ 64
  appendable : Appendable a reply
  refused : ¬ reply.Serves

instance decidableLosesCurrent (a : Allocator) (request : Request) (reply : Reply) :
    Decidable (LosesCurrent a request reply) :=
  decidable_of_iff (request.Valid ∧
      (∃ current ∈ a.currentBuffer, current.free.toNat ≤ current.need request % 2 ^ 64) ∧
      Appendable a reply ∧ ¬ reply.Serves)
    ⟨fun ⟨valid, retired, appendable, refused⟩ => ⟨valid, retired, appendable, refused⟩,
      fun ⟨valid, retired, appendable, refused⟩ => ⟨valid, retired, appendable, refused⟩⟩

/-- Serving in place looks at nothing but the current buffer. -/
theorem call_inPlace {pre post : Allocator} {reply : Reply} {request : Request} {result : AllocResult}
    {current : BuffDesc} (wellFormed : pre.WellFormed) (present : pre.currentBuffer = some current)
    (same : post.currentBuffer = pre.currentBuffer) (returned : call reply pre request = .ok result)
    (inPlace : InPlace pre current result) :
    ∃ again, call reply post request = .ok again ∧ InPlace post current again ∧
      again.stored = result.stored ∧ again.desc = result.desc := by
  rw [call_eq] at returned
  split at returned
  · rename_i valid
    have bounded := wellFormed.bounded current (Allocator.mem_live_of_current present)
    obtain ⟨self, _, _⟩ :=
      findInBuffer_buffer current request.size request.align valid.alignment bounded
    cases outcome : allocInternal reply pre request.size request.align with
    | error fault => simp [outcome, Except.map] at returned
    | ok inner =>
      simp only [outcome, Except.map, Except.ok.injEq] at returned
      subst returned
      -- The descriptor passed on to the caller is all that the two results differ in.
      have found := (inPlace_iff_found present valid.alignment bounded).mp
        ⟨inner, outcome, inPlace.code, inPlace.calls, inPlace.kept, inPlace.stored⟩
      rw [allocInternal_inPlace reply present found] at outcome
      cases outcome
      have answered := call_eq reply post request
      rw [if_pos valid, allocInternal_inPlace reply (same.trans present) found] at answered
      exact ⟨_, answered, ⟨rfl, rfl, ⟨_, self, rfl⟩, inPlace.stored⟩, rfl, rfl⟩
  · cases returned
    cases inPlace.code

private theorem costsNothing_of_same {pre post : Allocator} (wellFormed : pre.WellFormed)
    (currentBuffer : post.currentBuffer = pre.currentBuffer)
    (buffers : post.buffers.elems = pre.buffers.elems) (totalSize : post.totalSize = pre.totalSize) :
    CostsNothing pre post := by
  refine ⟨currentBuffer, buffers, totalSize, ?_⟩
  intro current present reply request result returned inPlace
  exact call_inPlace wellFormed present currentBuffer returned inPlace

/-- A call that loses the current buffer leaves none. -/
private theorem LosesCurrent.not_costsNothing {pre post : Allocator} {event : Event}
    (wellFormed : pre.WellFormed) (step : Step pre event post)
    (loses : LosesCurrent pre event.request event.reply) :
    event.result.code ≠ .success ∧ ¬ CostsNothing pre post := by
  obtain ⟨returned, rfl⟩ := step
  obtain ⟨current, present, exceeded⟩ := loses.retired
  have missed := (current_missed_iff wellFormed loses.valid present).mpr exceeded
  rcases call_cases returned with ⟨invalid, _⟩ | ⟨_, inner, internal, handed⟩
  · exact absurd loses.valid invalid
  · cases internal with
    | inPlace here found =>
      rw [here] at present
      cases present
      rw [missed] at found
      cases found
    | appendFailed here _ pushed =>
      obtain ⟨full, realloc⟩ := UTArray.pushBack_oom_full pushed
      have succeeded := loses.appendable (by simp [here]) full
      rw [realloc] at succeeded
      cases succeeded
    | fresh retired grown served => exact absurd served loses.refused
    | unallocated retired grown refused =>
      rw [handed]
      refine ⟨by simp [AllocResult.forCaller, AllocResult.error], ?_⟩
      intro costless
      have kept := costless.currentBuffer
      rw [present] at kept
      simp [AllocResult.forCaller, AllocResult.error, retired.currentBuffer] at kept

private theorem costsNothing_step_iff {pre post : Allocator} {event : Event}
    (wellFormed : pre.WellFormed) (step : Step pre event post) :
    (event.result.code ≠ .success → CostsNothing pre post) ↔
      ¬ LosesCurrent pre event.request event.reply := by
  constructor
  · intro costless loses
    obtain ⟨failed, costly⟩ := loses.not_costsNothing wellFormed step
    exact costly (costless failed)
  · intro keeps failed
    obtain ⟨returned, rfl⟩ := step
    rcases call_cases returned with ⟨invalid, rejected⟩ | ⟨valid, inner, internal, handed⟩
    · rw [rejected]
      exact costsNothing_of_same wellFormed rfl rfl rfl
    · rw [handed] at failed ⊢
      cases internal with
      | inPlace present found => exact absurd rfl failed
      | appendFailed present missed pushed =>
        exact costsNothing_of_same wellFormed rfl (UTArray.pushBack_oom pushed) rfl
      | fresh retired grown served => exact absurd rfl failed
      | unallocated retired grown refused =>
        cases retired with
        | untouched absent => exact costsNothing_of_same wellFormed rfl rfl rfl
        | @listed current buffers present missed pushed =>
          have appendable : Appendable pre event.reply :=
            fun _ full => UTArray.pushBack_stored_realloc pushed full
          have exceeded := (current_missed_iff wellFormed valid present).mp missed
          exact absurd ⟨valid, ⟨current, present, exceeded⟩, appendable, refused⟩ keeps

/-- In every run, the calls that return an error cost nothing exactly when none of the
calls gives up the current buffer for one that it does not get. -/
theorem failed_costsNothing_iff {trace : List (Transition Allocator Event)} {final : Allocator}
    (run : Run trace final) :
    (∀ entry ∈ trace, entry.label.result.code ≠ .success → CostsNothing entry.pre entry.post) ↔
      ∀ entry ∈ trace, ¬ LosesCurrent entry.pre entry.label.request entry.label.reply :=
  run.forall_iff Allocator.WellFormed create_wellFormed
    (fun _ _ _ wellFormed step => step.wellFormed wellFormed)
    (fun _ _ _ wellFormed step (_ : True) => costsNothing_step_iff wellFormed step)
    (fun _ _ => trivial)

theorem failingRequests_costsNothing :
    Run (replay respond Allocator.create failingRequests).1
        (replay respond Allocator.create failingRequests).2 ∧
      ∀ entry ∈ (replay respond Allocator.create failingRequests).1,
        entry.label.result.code ≠ .success → CostsNothing entry.pre entry.post := by
  have run := replay_run failingRequests
  exact ⟨run, (failed_costsNothing_iff run).mpr (by decide +kernel)⟩

/-- A page that still has 3996 bytes, and a platform that has no room for more. -/
def refusedLarger : List (Request × Reply) :=
  [(⟨100, none, true, true, true⟩, ⟨0x10000, 0x20004, true, true⟩),
   (⟨0x1000000000000, none, true, true, true⟩, ⟨0, 0, true, true⟩)]

/-- The refused request takes the page away. -/
theorem page_lost : ¬ ∀ (trace : List (Transition Allocator Event)) (final : Allocator),
    Run trace final → ∀ entry ∈ trace,
      entry.label.result.code ≠ .success → CostsNothing entry.pre entry.post := by
  intro promised
  have costless := promised _ _ (replay_run refusedLarger)
  have kept : ∀ entry ∈ (replay respond Allocator.create refusedLarger).1,
      entry.label.result.code ≠ .success → entry.post.currentBuffer = entry.pre.currentBuffer :=
    fun entry member failed => (costless entry member failed).currentBuffer
  revert kept
  decide +kernel

end Mam.MirroredAllocators
