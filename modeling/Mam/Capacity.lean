import Mam.CopyEngine.Runs
import Mam.MirroredAllocators.Served

/-! The capacities that dynamic arrays record, after appends that ran out of memory. -/

namespace Mam

open Mam.Library Mam.Vendor

namespace MirroredAllocators

/-- A valid request finds the current buffer too full, and the list that is to take that
buffer cannot grow. -/
def CannotRetire (a : Allocator) (event : Event) : Prop :=
  event.request.Valid ∧ (∃ current ∈ a.currentBuffer,
    (findInBuffer current event.request.size event.request.align).found = false) ∧
    a.buffers.Full ∧ event.reply.realloc = false

instance (a : Allocator) (event : Event) : Decidable (CannotRetire a event) :=
  inferInstanceAs (Decidable (_ ∧ (∃ current ∈ a.currentBuffer, _) ∧ _))

theorem Retired.intact {reply : Reply} {a base : Allocator} {size alignment : SizeT}
    (retired : Retired reply a size alignment base) (intact : a.buffers.Intact) :
    base.buffers.Intact := by
  cases retired with
  | untouched absent => exact intact
  | listed present missed pushed => exact intact.pushBack pushed

/-- A call keeps the capacity of the buffer list in step with its block, or fails to
retire the current buffer and loses it. -/
theorem Step.intact_or_torn {a next : Allocator} {event : Event} (step : Step a event next)
    (intact : a.buffers.Intact) :
    ¬ CannotRetire a event ∧ next.buffers.Intact ∨
      CannotRetire a event ∧ ¬ next.buffers.Sound := by
  obtain ⟨returned, rfl⟩ := step
  have retires {base : Allocator}
      (retired : Retired event.reply a event.request.size event.request.align base) :
      ¬ CannotRetire a event := by
    rintro ⟨_, ⟨current, present, _⟩, full, realloc⟩
    rw [retired.appendable (Option.isSome_of_mem present) full] at realloc
    cases realloc
  rcases call_cases returned with ⟨invalid, rejected⟩ | ⟨valid, inner, internal, handed⟩
  · rw [rejected]
    exact .inl ⟨fun cannot => invalid cannot.1, intact⟩
  · rw [handed]
    cases internal with
    | inPlace present found =>
      refine .inl ⟨?_, intact⟩
      rintro ⟨_, ⟨current, there, missed⟩, _, _⟩
      rw [present] at there
      cases there
      rw [found] at missed
      cases missed
    | appendFailed present missed pushed =>
      obtain ⟨full, realloc⟩ := UTArray.pushBack_oom_full pushed
      exact .inr ⟨⟨valid, ⟨_, present, missed⟩, full, realloc⟩, intact.not_sound_of_oom pushed⟩
    | unallocated retired grown refused => exact .inl ⟨retires retired, retired.intact intact⟩
    | fresh retired grown serves => exact .inl ⟨retires retired, retired.intact intact⟩

end MirroredAllocators

namespace CopyEngine

/-- The call passes its checks and obtains its object, and the list that is to take the
object cannot grow. -/
def CannotAppend (m : Machine) (mem : Memory) (op : Op) : Prop :=
  ∃ plan, checks m.store op = .ok plan ∧ mem.calloc = true ∧
    (plan.allocates = true → mem.malloc = true) ∧ plan.full m.store = true ∧ mem.realloc = false

instance (m : Machine) (mem : Memory) (op : Op) : Decidable (CannotAppend m mem op) :=
  inferInstanceAs (Decidable (∃ _, _ ∧ _))

/-- A call keeps all capacities in step with their blocks, or cannot append and loses one. -/
theorem Step.intact_or_torn {m next : Machine} {event : Event} (step : Step m event next)
    (intact : m.store.Intact) :
    ¬ CannotAppend m event.memory event.op ∧ next.store.Intact ∨
      CannotAppend m event.memory event.op ∧ ¬ next.store.Sound := by
  obtain ⟨returned, rfl⟩ := step
  cases exec_returned returned with
  | refused checked same =>
    rw [same]
    exact .inl ⟨not_exists_ok checked, intact⟩
  | starved checked missing undone same =>
    rw [same]
    refine .inl ⟨fun cannot => ?_, intact⟩
    obtain ⟨calloc, malloc, _, _⟩ := (exists_ok_iff checked).mp cannot
    rcases missing with failed | ⟨allocates, failed⟩
    · rw [calloc] at failed
      cases failed
    · rw [malloc allocates] at failed
      cases failed
  | unappended checked calloc malloc full missing undone same torn =>
    exact .inr ⟨(exists_ok_iff checked).mpr ⟨calloc, malloc, full, missing⟩, torn intact⟩
  | uninserted checked calloc malloc appended inserts missing undone same kept =>
    refine .inl ⟨fun cannot => ?_, kept intact⟩
    obtain ⟨_, _, full, failed⟩ := (exists_ok_iff checked).mp cannot
    rw [appended full] at failed
    cases failed
  | done checked enough code heap same kept =>
    refine .inl ⟨fun cannot => ?_, kept intact⟩
    obtain ⟨_, _, full, failed⟩ := (exists_ok_iff checked).mp cannot
    rw [enough.realloc full] at failed
    cases failed

theorem initial_intact : Machine.initial.store.Intact := by
  constructor <;> intro h x present <;> cases present

end CopyEngine

/-- After every call of a run, every dynamic array of the allocator, and every one of
the contexts and of their constructs and arrays, is safe to append to, exactly when no
append of the run meets a full list that cannot grow. -/
theorem safe_iff_can_append
    {allocations : List (Transition MirroredAllocators.Allocator MirroredAllocators.Event)}
    {allocator : MirroredAllocators.Allocator}
    {calls : List (Transition CopyEngine.Machine CopyEngine.Event)} {machine : CopyEngine.Machine}
    (served : MirroredAllocators.Run allocations allocator) (run : CopyEngine.Run calls machine) :
    ((∀ entry ∈ allocations, entry.post.buffers.Safe) ↔
        ∀ entry ∈ allocations, ¬ MirroredAllocators.CannotRetire entry.pre entry.label) ∧
      ((∀ entry ∈ calls, CopyEngine.Lists (fun _ list => list.Safe) entry.post.store) ↔
        ∀ entry ∈ calls, ¬ CopyEngine.CannotAppend entry.pre entry.label.memory entry.label.op) := by
  constructor
  · refine served.forall_post_iff_of_strong (fun _ => True) (fun a => a.buffers.Intact)
      (fun a => a.buffers.Safe) trivial UTArray.init_intact (fun _ intact => intact.safe)
      (fun _ _ _ _ _ => trivial) ?_ ?_ (fun _ _ => trivial)
    · intro a event next _ intact step (_ : True) able
      rcases step.intact_or_torn intact with ⟨_, kept⟩ | ⟨cannot, _⟩
      · exact kept
      · exact absurd cannot able
    · intro a event next _ intact step _ unable safe
      rcases step.intact_or_torn intact with ⟨able, _⟩ | ⟨_, torn⟩
      · exact unable able
      · exact torn safe.sound
  · refine run.forall_post_iff_of_strong (fun _ => True) (fun m => m.store.Intact)
      (fun m => CopyEngine.Lists (fun _ list => list.Safe) m.store) trivial
      CopyEngine.initial_intact (fun _ intact => intact.mono fun _ _ list => list.safe)
      (fun _ _ _ _ _ => trivial) ?_ ?_ (fun _ _ => trivial)
    · intro m event next _ intact step (_ : True) able
      rcases step.intact_or_torn intact with ⟨_, kept⟩ | ⟨cannot, _⟩
      · exact kept
      · exact absurd cannot able
    · intro m event next _ intact step _ unable safe
      rcases step.intact_or_torn intact with ⟨able, _⟩ | ⟨_, torn⟩
      · exact unable able
      · exact torn (safe.mono fun _ _ list => list.sound)

theorem safe_nestedCalls :
    (∀ entry ∈ (replay MirroredAllocators.respond MirroredAllocators.Allocator.create
        MirroredAllocators.growingRequests).1, entry.post.buffers.Safe) ∧
      ∀ entry ∈ (replay CopyEngine.respond CopyEngine.Machine.initial CopyEngine.nestedCalls).1,
        CopyEngine.Lists (fun _ list => list.Safe) entry.post.store := by
  obtain ⟨retired, appended⟩ := safe_iff_can_append
    (MirroredAllocators.replay_run MirroredAllocators.growingRequests)
    (CopyEngine.replay_run CopyEngine.nestedCalls)
  exact ⟨retired.mpr (by decide +kernel), appended.mpr (by decide +kernel)⟩

/-- Two structs, the list of which cannot grow for the first. -/
def retriedCalls : List (CopyEngine.Op × CopyEngine.Memory) :=
  [(.contextCreate (some []) (some CopyEngine.lp64) true, CopyEngine.plenty),
   (.contextCreateConstruct .struct (some 0) (some [97]) false true,
     { CopyEngine.plenty with realloc := false }),
   (.contextCreateConstruct .struct (some 0) (some [97]) false true, CopyEngine.plenty)]

/-- The second struct is stored in a list whose block has no slots. -/
theorem retried_outside : ¬ ∀ (calls : List (Transition CopyEngine.Machine CopyEngine.Event))
    (machine : CopyEngine.Machine), CopyEngine.Run calls machine →
    CopyEngine.Lists (fun _ list => list.Safe) machine.store := by
  intro safe
  have lists := safe _ _ (CopyEngine.replay_run retriedCalls)
  have inside := (lists.contexts 0 _ rfl).constructs.sound.inside
  exact absurd inside (by decide +kernel)

end Mam
