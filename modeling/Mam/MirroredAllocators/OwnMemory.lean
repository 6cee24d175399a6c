import Mam.Library.Simulation
import Mam.MirroredAllocators.Release
import Mathlib.Data.List.Count

/-! The memory an allocator takes for itself: its own block, its list of buffers and the block
behind that, and the descriptors. -/

namespace Mam.MirroredAllocators

open Mam.Library Mam.Vendor

/-- A block that `calloc`, `malloc` or `realloc` returned. -/
abbrev HeapBlock := Nat

/-- The blocks behind an allocator: itself, its `UT_array`, the member `d` of that, and the
descriptors, oldest first. -/
structure OwnMemory where
  self : HeapBlock
  buffers : HeapBlock
  d : Option HeapBlock
  descs : List HeapBlock
deriving DecidableEq, Repr

/-- All blocks of an allocator. -/
def OwnMemory.held (m : OwnMemory) : List HeapBlock := m.self :: m.buffers :: m.d.toList ++ m.descs

/-- An allocator with the blocks behind it. -/
structure Owned where
  allocator : Allocator
  memory : OwnMemory

section Operations

/-- The function pointers of a `mam_platform_alloc_t` that are not NULL. -/
structure PlatformAlloc where
  alloc : Bool
  free : Bool
deriving DecidableEq, Repr

/-- How `mam_allocator_create` leaves. -/
structure CreateResult where
  code : MamError
  made : Option Owned
  obtained : List HeapBlock
  freed : List HeapBlock

/-- `mam_allocator_create`, with what `calloc` and the `malloc` of `utarray_new` return. -/
def allocatorCreate (allocator : Bool) (alloc1 alloc2 : Option PlatformAlloc)
    (calloc malloc : Option HeapBlock) : CreateResult :=
  match alloc1, alloc2 with
  | some alloc1, some alloc2 =>
    if !(allocator && alloc1.alloc && alloc1.free && alloc2.alloc && alloc2.free) then
      { code := .einval, made := none, obtained := [], freed := [] }
    else
      match calloc with
      | none => { code := .enomem, made := none, obtained := [], freed := [] }
      | some self =>
        match malloc with
        | none => { code := .enomem, made := none, obtained := [self], freed := [self] }
        | some buffers =>
          { code := .success
            made := some ⟨.create, { self := self, buffers := buffers, d := none, descs := [] }⟩
            obtained := [self, buffers], freed := [] }
  | _, _ => { code := .einval, made := none, obtained := [], freed := [] }

/-- What the environment answers during one call: a `Reply`, with the blocks. -/
structure HeapReply where
  alloc1 : Addr
  alloc2 : Addr
  calloc : Option HeapBlock
  realloc : Option HeapBlock
deriving DecidableEq, Repr

def HeapReply.reply (answer : HeapReply) : Reply :=
  { alloc1 := answer.alloc1, alloc2 := answer.alloc2, calloc := answer.calloc.isSome,
    realloc := answer.realloc.isSome }

/-- What becomes of the blocks in some piece of code. -/
structure Moved where
  memory : OwnMemory
  obtained : List HeapBlock
  freed : List HeapBlock
deriving DecidableEq, Repr

def Moved.unmoved (memory : OwnMemory) : Moved := { memory := memory, obtained := [], freed := [] }

/-- One piece of code after another. -/
def Moved.andThen (first : Moved) (next : OwnMemory → Moved) : Moved :=
  { memory := (next first.memory).memory
    obtained := first.obtained ++ (next first.memory).obtained
    freed := first.freed ++ (next first.memory).freed }

/-- The blocks in `_mam_allocate_buffer`. -/
def allocateBufferMemory (answer : HeapReply) (memory : OwnMemory) : Moved :=
  match answer.calloc with
  | none => .unmoved memory
  | some newDesc =>
    -- both error labels end in the free of the descriptor
    if answer.alloc1 = 0 then { memory := memory, obtained := [newDesc], freed := [newDesc] }
    else if answer.alloc2 = 0 then { memory := memory, obtained := [newDesc], freed := [newDesc] }
    else
      { memory := { memory with descs := memory.descs ++ [newDesc] }, obtained := [newDesc], freed := [] }

/-- The blocks in `utarray_push_back`: a `realloc` that succeeds takes the old block. -/
def pushBackMemory (answer : HeapReply) (buffers : UTArray BuffDesc) (memory : OwnMemory) : Moved :=
  if buffers.Full then
    match answer.realloc with
    | none => .unmoved memory
    | some d =>
      { memory := { memory with d := some d }, obtained := [d], freed := memory.d.toList }
  else .unmoved memory

/-- The blocks in `_mam_allocator_alloc`. -/
def allocMemory (answer : HeapReply) (a : Allocator) (memory : OwnMemory) (size alignment : SizeT) :
    Moved :=
  match a.currentBuffer with
  | none => allocateBufferMemory answer memory
  | some current =>
    if (findInBuffer current size alignment).found then .unmoved memory
    else
      match a.buffers.pushBack current answer.realloc.isSome with
      | some (.stored _) =>
        (pushBackMemory answer a.buffers memory).andThen (allocateBufferMemory answer)
      | _ => pushBackMemory answer a.buffers memory

/-- The blocks in either public entry point. -/
def callMemory (answer : HeapReply) (o : Owned) (request : Request) : Moved :=
  if request.Valid then allocMemory answer o.allocator o.memory request.size request.align
  else .unmoved o.memory

/-- The blocks that `mam_allocator_destroy` frees: the descriptors of the list and of the current
buffer, and `utarray_free` and the allocator last. -/
def destroyMemory (o : Owned) : List HeapBlock :=
  (o.allocator.buffers.visited ++ o.allocator.currentBuffer.toList).filterMap
      (fun buffer => o.memory.descs[buffer.self]?) ++
    -- `utarray_done` goes by the recorded capacity
    (if o.allocator.buffers.n ≠ 0 then o.memory.d.toList else []) ++
    [o.memory.buffers, o.memory.self]

/-- One allocation call that returned, with its blocks. -/
structure OwnCall where
  event : Event
  answer : HeapReply
  obtained : List HeapBlock
  freed : List HeapBlock

def OwnStep (o : Owned) (call : OwnCall) (next : Owned) : Prop :=
  Step o.allocator call.event next.allocator ∧ call.event.reply = call.answer.reply ∧
    callMemory call.answer o call.event.request = ⟨next.memory, call.obtained, call.freed⟩

/-- Answer one request, when the call returns. -/
def ownRespond (o : Owned) (input : Request × HeapReply) : Option (OwnCall × Owned) :=
  (respond o.allocator (input.1, input.2.reply)).map fun (event, next) =>
    let moved := callMemory input.2 o event.request
    (⟨event, input.2, moved.obtained, moved.freed⟩, ⟨next, moved.memory⟩)

end Operations

section Balance

variable {answer : HeapReply} {m : OwnMemory} {a : Allocator} {o next : Owned} {call : OwnCall}

/-- What was obtained is held or was given back. -/
def Moved.Balances (moved : Moved) (before : OwnMemory) : Prop :=
  (moved.obtained ++ before.held).Perm (moved.freed ++ moved.memory.held)

theorem Moved.unmoved_balances (memory : OwnMemory) : (Moved.unmoved memory).Balances memory :=
  .refl _

theorem Moved.Balances.andThen {first : Moved} {following : OwnMemory → Moved}
    (start : first.Balances m) (rest : (following first.memory).Balances first.memory) :
    (first.andThen following).Balances m := by
  have before := List.perm_iff_count.mp start
  have after := List.perm_iff_count.mp rest
  refine List.perm_iff_count.mpr fun block => ?_
  have one := before block
  have two := after block
  simp only [Moved.andThen, List.count_append] at one two ⊢
  omega

theorem allocateBufferMemory_balances (answer : HeapReply) (m : OwnMemory) :
    (allocateBufferMemory answer m).Balances m := by
  unfold allocateBufferMemory
  split
  · exact Moved.unmoved_balances m
  · rename_i newDesc given
    split
    · exact .refl _
    · split
      · exact .refl _
      · show ([newDesc] ++ m.held).Perm ([] ++ (m.self :: m.buffers :: m.d.toList ++ (m.descs ++ [newDesc])))
        rw [List.nil_append, ← List.append_assoc]
        exact List.perm_append_comm

theorem pushBackMemory_balances (answer : HeapReply) (buffers : UTArray BuffDesc) (m : OwnMemory) :
    (pushBackMemory answer buffers m).Balances m := by
  unfold pushBackMemory
  split
  · split
    · exact Moved.unmoved_balances m
    · rename_i d
      refine List.perm_iff_count.mpr fun block => ?_
      simp only [OwnMemory.held, Option.toList_some, List.count_append, List.count_cons, List.count_nil]
      omega
  · exact Moved.unmoved_balances m

theorem callMemory_balances (answer : HeapReply) (o : Owned) (request : Request) :
    (callMemory answer o request).Balances o.memory := by
  unfold callMemory
  split
  · unfold allocMemory
    split
    · exact allocateBufferMemory_balances answer o.memory
    · rename_i current present
      split
      · exact Moved.unmoved_balances o.memory
      · have pushed := pushBackMemory_balances answer o.allocator.buffers o.memory
        split
        · exact pushed.andThen (allocateBufferMemory_balances answer _)
        · exact pushed
  · exact Moved.unmoved_balances o.memory

end Balance

section Steps

variable {answer : HeapReply} {a base : Allocator} {m : OwnMemory} {size alignment : SizeT}
variable {o next : Owned} {call : OwnCall}

/-- The blocks are those of the list and of the descriptors that there are. -/
structure Owned.Sound (o : Owned) : Prop where
  wellFormed : o.allocator.WellFormed
  counted : o.allocator.buffers.Counted
  descs : o.memory.descs.length = o.allocator.nextDesc
  d : o.memory.d ≠ none → o.allocator.buffers.n ≠ 0

/-- After a push the recorded capacity is not zero. -/
theorem capacity_ne_zero {buffers array : UTArray BuffDesc} {current : BuffDesc} {realloc : Bool}
    (counted : buffers.Counted) (pushed : buffers.pushBack current realloc = some (.stored array)) :
    array.n ≠ 0 := by
  have covered := (counted.pushBack_stored pushed).covered
  rw [UTArray.pushBack_stored pushed, List.length_append, List.length_singleton] at covered
  intro zero
  rw [zero] at covered
  exact absurd covered (Nat.not_le.mpr (Nat.succ_pos _))

/-- A failed `realloc` leaves a larger capacity, never a smaller one. -/
theorem capacity_le_of_oom {buffers array : UTArray BuffDesc} {current : BuffDesc} {realloc : Bool}
    (counted : buffers.Counted) (pushed : buffers.pushBack current realloc = some (.oom array)) :
    buffers.n ≤ array.n := by
  obtain ⟨full, _⟩ := UTArray.pushBack_oom_full pushed
  unfold UTArray.pushBack at pushed
  split at pushed
  · split at pushed
    · cases pushed
    · rename_i n settled
      split at pushed <;> cases pushed
      obtain ⟨_, beyond⟩ := UTArray.reserved_spec counted.stepped settled
      exact Nat.le_of_lt (Nat.lt_of_lt_of_le full beyond)
  · cases pushed

/-- A push leaves the descriptors, and takes a block for the list only where it counts it. -/
theorem pushBackMemory_descs (answer : HeapReply) (buffers : UTArray BuffDesc) (m : OwnMemory) :
    (pushBackMemory answer buffers m).memory.descs = m.descs := by
  unfold pushBackMemory
  split
  · split <;> rfl
  · rfl

theorem pushBackMemory_failed {buffers : UTArray BuffDesc} (none : answer.realloc = none)
    (m : OwnMemory) : pushBackMemory answer buffers m = .unmoved m := by
  unfold pushBackMemory
  rw [none]
  split <;> rfl

/-- A descriptor stays exactly where both platforms serve. -/
theorem allocateBufferMemory_served (serves : answer.reply.Serves) (m : OwnMemory) :
    (allocateBufferMemory answer m).memory.descs.length = m.descs.length + 1 ∧
      (allocateBufferMemory answer m).memory.d = m.d := by
  obtain ⟨newDesc, given⟩ := Option.isSome_iff_exists.mp serves.calloc
  have host : ¬ answer.alloc1 = 0#64 := serves.alloc1
  have mirror : ¬ answer.alloc2 = 0#64 := serves.alloc2
  simp [allocateBufferMemory, given, host, mirror]

theorem allocateBufferMemory_refused (refused : ¬ answer.reply.Serves) (m : OwnMemory) :
    (allocateBufferMemory answer m).memory = m := by
  unfold allocateBufferMemory
  split
  · rfl
  · rename_i newDesc given
    split
    · rfl
    · rename_i host
      split
      · rfl
      · rename_i mirror
        exact absurd ⟨by simp [HeapReply.reply, given], host, mirror⟩ refused

/-- The blocks where a new buffer is asked for. -/
theorem allocMemory_retired (retired : Retired answer.reply a size alignment base)
    (counted : a.buffers.Counted) (d : m.d ≠ none → a.buffers.n ≠ 0) :
    ∃ middle : OwnMemory, (allocMemory answer a m size alignment).memory =
        (allocateBufferMemory answer middle).memory ∧
      middle.descs = m.descs ∧ (middle.d ≠ none → base.buffers.n ≠ 0) := by
  cases retired with
  | untouched absent => exact ⟨m, by simp [allocMemory, absent], rfl, d⟩
  | @listed current buffers present missed pushed =>
    refine ⟨(pushBackMemory answer a.buffers m).memory, ?_, pushBackMemory_descs answer a.buffers m, ?_⟩
    · have stored : a.buffers.pushBack current answer.realloc.isSome = some (.stored buffers) := pushed
      simp only [allocMemory, present, missed, stored]
      rfl
    · exact fun _ => capacity_ne_zero counted pushed

/-- What `_mam_allocator_alloc` leaves of the blocks goes with what it leaves of the allocator. -/
theorem Internal.blocks {result : AllocResult} (internal : Internal answer.reply a size alignment result)
    (counted : a.buffers.Counted) (descs : m.descs.length = a.nextDesc)
    (d : m.d ≠ none → a.buffers.n ≠ 0) :
    (allocMemory answer a m size alignment).memory.descs.length = result.allocator.nextDesc ∧
      ((allocMemory answer a m size alignment).memory.d ≠ none → result.allocator.buffers.n ≠ 0) := by
  cases internal with
  | inPlace present found =>
    have kept : allocMemory answer a m size alignment = .unmoved m := by
      simp [allocMemory, present, found]
    rw [kept]
    exact ⟨descs, d⟩
  | @appendFailed current buffers present missed pushed =>
    have failed : answer.realloc = none := by
      simpa [HeapReply.reply] using (UTArray.pushBack_oom_full pushed).2
    have oom : a.buffers.pushBack current answer.realloc.isSome = some (.oom buffers) := pushed
    have kept : allocMemory answer a m size alignment = .unmoved m := by
      simp only [allocMemory, present, missed, oom]
      exact pushBackMemory_failed failed m
    rw [kept]
    refine ⟨descs, fun taken zero => d taken ?_⟩
    have larger := capacity_le_of_oom counted pushed
    rw [show buffers.n = 0 from zero] at larger
    exact BitVec.eq_of_toNat_eq (Nat.le_zero.mp larger)
  | unallocated retired grown refused =>
    obtain ⟨middle, same, kept, taken⟩ := allocMemory_retired retired counted d
    rw [same, allocateBufferMemory_refused refused]
    exact ⟨by rw [kept, descs]; exact retired.nextDesc.symm, taken⟩
  | fresh retired grown served =>
    obtain ⟨middle, same, kept, taken⟩ := allocMemory_retired retired counted d
    obtain ⟨longer, block⟩ := allocateBufferMemory_served served middle
    rw [same, longer, block, kept, descs, ← retired.nextDesc]
    exact ⟨rfl, taken⟩

theorem OwnStep.sound (step : OwnStep o call next) (sound : o.Sound) : next.Sound := by
  obtain ⟨taken, answered, moved⟩ := step
  have memory : next.memory = (callMemory call.answer o call.event.request).memory := by rw [moved]
  have wellFormed := taken.wellFormed sound.wellFormed
  have counted := taken.counted sound.counted
  obtain ⟨returned, same⟩ := taken
  rw [answered] at returned
  rcases call_cases returned with ⟨invalid, rejected⟩ | ⟨valid, inner, internal, handed⟩
  · have kept : next.memory = o.memory := by
      rw [memory, callMemory, if_neg invalid]
      rfl
    have unchanged : next.allocator = o.allocator := by
      rw [same, rejected]
      rfl
    exact ⟨wellFormed, counted, kept ▸ unchanged ▸ sound.descs, kept ▸ unchanged ▸ sound.d⟩
  · have result : next.allocator = inner.allocator := by
      rw [same, handed]
      rfl
    rw [callMemory, if_pos valid] at memory
    obtain ⟨descs, d⟩ := internal.blocks sound.counted sound.descs sound.d
    exact ⟨wellFormed, counted, memory ▸ result ▸ descs, memory ▸ result ▸ d⟩

theorem OwnStep.balances (step : OwnStep o call next) :
    (call.obtained ++ o.memory.held).Perm (call.freed ++ next.memory.held) := by
  have balance := callMemory_balances call.answer o call.event.request
  rw [step.2.2] at balance
  exact balance

end Steps

section Lives

variable {o : Owned}

private theorem filterMap_range (blocks : List HeapBlock) :
    (List.range blocks.length).filterMap (fun i => blocks[i]?) = blocks := by
  have cells : (List.range blocks.length).map (fun i => blocks[i]?) = blocks.map some := by
    apply List.ext_getElem <;> simp
  have through := congrArg (List.filterMap id) cells
  rw [List.filterMap_map, List.filterMap_map] at through
  simpa [Function.comp_def] using through

/-- The destruction frees every block there is, once. -/
theorem Owned.Sound.destroyed (sound : o.Sound) : (destroyMemory o).Perm o.memory.held := by
  have live : o.allocator.buffers.visited ++ o.allocator.currentBuffer.toList = o.allocator.live := by
    rw [sound.counted.visited_eq]
    rfl
  have descs : (o.allocator.buffers.visited ++ o.allocator.currentBuffer.toList).filterMap
      (fun buffer => o.memory.descs[buffer.self]?) = o.memory.descs := by
    rw [live]
    calc o.allocator.live.filterMap (fun buffer => o.memory.descs[buffer.self]?) =
          (o.allocator.live.map BuffDesc.self).filterMap (fun i => o.memory.descs[i]?) :=
          List.filterMap_map.symm
      _ = (List.range o.memory.descs.length).filterMap (fun i => o.memory.descs[i]?) := by
          rw [sound.wellFormed.numbered, sound.descs]
      _ = o.memory.descs := filterMap_range o.memory.descs
  have data : (if o.allocator.buffers.n ≠ 0 then o.memory.d.toList else []) = o.memory.d.toList := by
    split
    · rfl
    · rename_i zero
      have none : o.memory.d = none := by
        by_contra taken
        exact zero (sound.d taken)
      rw [none]
      rfl
  rw [destroyMemory, descs, data]
  refine List.perm_iff_count.mpr fun block => ?_
  simp only [OwnMemory.held, List.count_append, List.count_cons, List.count_nil]
  omega

/-- What creation makes is an allocator without buffers; what it does not make it gives back. -/
theorem allocatorCreate_cases (allocator : Bool) (alloc1 alloc2 : Option PlatformAlloc)
    (calloc malloc : Option HeapBlock) :
    let created := allocatorCreate allocator alloc1 alloc2 calloc malloc
    (created.made = none ∧ created.freed = created.obtained) ∨
      ∃ start, created.made = some start ∧ start.allocator = Allocator.create ∧ start.Sound ∧
        created.freed = [] ∧ created.obtained = start.memory.held := by
  unfold allocatorCreate
  split
  · split
    · exact .inl ⟨rfl, rfl⟩
    · split
      · exact .inl ⟨rfl, rfl⟩
      · split
        · exact .inl ⟨rfl, rfl⟩
        · exact .inr ⟨_, rfl, rfl, ⟨create_wellFormed, UTArray.init_counted, rfl, nofun⟩, rfl, rfl⟩
  · exact .inl ⟨rfl, rfl⟩

end Lives

section Results

variable {start final : Owned} {trace : List (Transition Owned OwnCall)}

def Owned.Shows (o : Owned) (a : Allocator) : Prop := o.allocator = a

def OwnCall.Shows (call : OwnCall) (event : Event) : Prop := call.event = event

/-- The calls with their blocks are calls of the allocator. -/
theorem run_of_owned (run : Execution OwnStep start trace final)
    (created : start.allocator = Allocator.create) :
    ∃ calls, Run calls final.allocator ∧ Matched Owned.Shows OwnCall.Shows trace calls := by
  have initial : start.Shows Allocator.create := created
  let allowed : Transition Owned OwnCall → Prop := fun _ => True
  have every : ∀ entry ∈ trace, allowed entry := fun _ _ => trivial
  have simulates (o : Owned) (call : OwnCall) (next : Owned) (a : Allocator) (shows : o.Shows a)
      (step : OwnStep o call next) (_ : allowed ⟨o, call, next⟩) :
      ∃ event after, Step a event after ∧ call.Shows event ∧ next.Shows after := by
    cases shows
    exact ⟨call.event, next.allocator, step.1, rfl, rfl⟩
  obtain ⟨calls, a, taken, same, matched⟩ := run.simulated initial simulates every
  cases same
  exact ⟨calls, taken, matched⟩

/-- The calls are calls of the allocator, what was obtained is held or was given back, and the
destruction gives back what is held. -/
structure Kept (created : CreateResult) (trace : List (Transition Owned OwnCall)) (final : Owned) :
    Prop where
  calls : ∃ calls, Run calls final.allocator ∧ Matched Owned.Shows OwnCall.Shows trace calls
  balance : (created.obtained ++ trace.flatMap (·.label.obtained)).Perm
    (created.freed ++ trace.flatMap (·.label.freed) ++ final.memory.held)
  destroyed : (destroyMemory final).Perm final.memory.held

/-- Over the life of an allocator, whatever fails in its creation and in its calls, every block
that it obtained for itself is held by it or was given back, as often as it was obtained; and its
destruction gives back what it holds. -/
theorem own_memory_kept (allocator : Bool) (alloc1 alloc2 : Option PlatformAlloc)
    (calloc malloc : Option HeapBlock) :
    ((allocatorCreate allocator alloc1 alloc2 calloc malloc).made = none →
      (allocatorCreate allocator alloc1 alloc2 calloc malloc).freed =
        (allocatorCreate allocator alloc1 alloc2 calloc malloc).obtained) ∧
    ∀ start trace final, (allocatorCreate allocator alloc1 alloc2 calloc malloc).made = some start →
      Execution OwnStep start trace final →
      Kept (allocatorCreate allocator alloc1 alloc2 calloc malloc) trace final := by
  rcases allocatorCreate_cases allocator alloc1 alloc2 calloc malloc with
    ⟨none, back⟩ | ⟨first, some, created, sound, freed, obtained⟩
  · exact ⟨fun _ => back, fun _ _ _ made => absurd (none.symm.trans made) nofun⟩
  · refine ⟨fun none => absurd (some.symm.trans none) nofun, fun start trace final made run => ?_⟩
    cases some.symm.trans made
    have later := run.invariant Owned.Sound sound fun _ _ _ sound step => step.sound sound
    have balance := run.conserved (fun o => o.memory.held) (fun entry => entry.label.obtained)
      (fun entry => entry.label.freed) fun _ _ _ step => step.balances
    refine ⟨run_of_owned run created, ?_, later.destroyed⟩
    rw [obtained, freed, List.nil_append]
    exact List.perm_append_comm.trans balance

theorem ownRespond_step {o next : Owned} {input : Request × HeapReply} {call : OwnCall}
    (returned : ownRespond o input = some (call, next)) : OwnStep o call next := by
  obtain ⟨⟨event, after⟩, answered, same⟩ := Option.map_eq_some_iff.mp returned
  cases same
  have step := respond_step answered
  refine ⟨step, ?_, rfl⟩
  unfold respond at answered
  split at answered
  · cases answered
  · cases answered
    rfl

/-- An allocator whose first descriptor is given back, and whose list is moved once. -/
def ownRequests : List (Request × HeapReply) :=
  [(⟨100, none, true, true, true⟩, ⟨0x10000, 0, some 3, none⟩),
   (⟨100, none, true, true, true⟩, ⟨0x10000, 0x20004, some 4, none⟩),
   (⟨5000, some 16, true, true, true⟩, ⟨0x40000, 0x50008, some 5, some 6⟩)]

/-- The allocator of blocks 1 and 2, and what the requests make of it. -/
def ownStart : Owned := ⟨.create, { self := 1, buffers := 2, d := none, descs := [] }⟩

theorem own_memory_kept_requests :
    Kept (allocatorCreate true (some ⟨true, true⟩) (some ⟨true, true⟩) (some 1) (some 2))
        (replay ownRespond ownStart ownRequests).1 (replay ownRespond ownStart ownRequests).2 ∧
      (destroyMemory (replay ownRespond ownStart ownRequests).2).Perm [4, 5, 6, 2, 1] := by
  have run : Execution OwnStep ownStart (replay ownRespond ownStart ownRequests).1
      (replay ownRespond ownStart ownRequests).2 := by
    apply replay_execution
    intro state input call next returned
    exact ownRespond_step returned
  exact ⟨(own_memory_kept _ _ _ _ _).2 _ _ _ rfl run, by decide +kernel⟩

end Results

end Mam.MirroredAllocators
