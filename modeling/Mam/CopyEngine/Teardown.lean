import Mam.CopyEngine.Estates

/-! Programs that destroy their contexts: each takes its estate with it and nothing else, and
all of them leave nothing. -/

namespace Mam.CopyEngine

open Mam.Library Mam.Vendor

section Destruction

/-- Two stores have the same at an address. -/
structure Store.SameAt (s t : Store UTArray) (h : Handle) : Prop where
  contexts : s.contexts h = t.contexts h
  constructs : s.constructs h = t.constructs h
  arrays : s.arrays h = t.arrays h
  pointers : s.pointers h = t.pointers h
  vars : s.vars h = t.vars h

theorem drop_self (s : Store UTArray) (h : Handle) : (s.drop h).SameAt Store.empty h := by
  constructor <;> exact Function.update_self _ _ _

theorem drop_other (s : Store UTArray) {h k : Handle} (other : h ≠ k) : (s.drop k).SameAt s h := by
  constructor <;> exact Function.update_of_ne other _ _

variable {m : Machine} {live : List Handle} {k other h : Handle} {blocks : List Handle}

/-- What is not freed stays. -/
theorem freeAll_kept (m : Machine) (kept : h ∉ blocks) : (m.freeAll blocks).store.SameAt m.store h := by
  induction blocks generalizing m with
  | nil => exact ⟨rfl, rfl, rfl, rfl, rfl⟩
  | cons block rest ih =>
    obtain ⟨apart, later⟩ := List.ne_and_not_mem_of_not_mem_cons kept
    obtain ⟨contexts, constructs, arrays, pointers, vars⟩ := ih (m.free block) later
    obtain ⟨context, construct, array, pointer, var⟩ := drop_other m.store apart
    exact ⟨contexts.trans context, constructs.trans construct, arrays.trans array,
      pointers.trans pointer, vars.trans var⟩

/-- What is freed is gone. -/
theorem freeAll_gone (m : Machine) (freed : h ∈ blocks) :
    (m.freeAll blocks).store.SameAt Store.empty h := by
  induction blocks generalizing m with
  | nil => cases freed
  | cons block rest ih =>
    by_cases later : h ∈ rest
    · exact ih (m.free block) later
    · obtain rfl := (List.mem_cons.mp freed).resolve_right later
      obtain ⟨contexts, constructs, arrays, pointers, vars⟩ := freeAll_kept (m.free h) later
      obtain ⟨context, construct, array, pointer, var⟩ := drop_self m.store h
      exact ⟨contexts.trans context, constructs.trans construct, arrays.trans array,
        pointers.trans pointer, vars.trans var⟩

/-- What is there after some was freed was there before, and is not freed. -/
theorem freeAll_present {α : Type} {table after : Handle → Option α} {a : α}
    (kept : h ∉ blocks → after h = table h) (gone : h ∈ blocks → after h = none)
    (present : after h = some a) : h ∉ blocks ∧ table h = some a := by
  by_cases freed : h ∈ blocks
  · rw [gone freed] at present
    cases present
  · exact ⟨freed, (kept freed).symm.trans present⟩

theorem freeAll_context {c : Context List}
    (present : (m.freeAll blocks).store.view.contexts h = some c) :
    h ∉ blocks ∧ m.store.view.contexts h = some c :=
  freeAll_present (fun kept => congrArg (Option.map Context.view) (freeAll_kept m kept).contexts)
    (fun freed => congrArg (Option.map Context.view) (freeAll_gone m freed).contexts) present

theorem freeAll_construct {c : Construct List}
    (present : (m.freeAll blocks).store.view.constructs h = some c) :
    h ∉ blocks ∧ m.store.view.constructs h = some c :=
  freeAll_present (fun kept => congrArg (Option.map Construct.view) (freeAll_kept m kept).constructs)
    (fun freed => congrArg (Option.map Construct.view) (freeAll_gone m freed).constructs) present

theorem freeAll_array {a : ArrayType List}
    (present : (m.freeAll blocks).store.view.arrays h = some a) :
    h ∉ blocks ∧ m.store.view.arrays h = some a :=
  freeAll_present (fun kept => congrArg (Option.map ArrayType.view) (freeAll_kept m kept).arrays)
    (fun freed => congrArg (Option.map ArrayType.view) (freeAll_gone m freed).arrays) present

/-- A context of which nothing is freed owns what it owned. -/
theorem Owned.keeps_freeAll {c : Context List} (owned : Owned m.store.view other c)
    (apart : ∀ b ∈ m.store.view.estate other, b ∉ blocks) :
    Keeps m.store.view (m.freeAll blocks).store.view other c := by
  rw [owned.estate, held_eq] at apart
  have arrays (h : Handle) (listed : h ∈ c.arrays) :
      (m.freeAll blocks).store.view.arrays h = m.store.view.arrays h :=
    congrArg (Option.map ArrayType.view) (freeAll_kept m (apart h (by simp [listed]))).arrays
  have constructs (h : Handle) (listed : h ∈ c.constructs) :
      (m.freeAll blocks).store.view.constructs h = m.store.view.constructs h :=
    congrArg (Option.map Construct.view) (freeAll_kept m (apart h (by simp [listed]))).constructs
  refine ⟨⟨?_, fun h => ⟨fun listed => ?_, ?_⟩, fun h => ⟨fun listed => ?_, ?_⟩⟩, ?_⟩
  · refine Eq.trans ?_ owned.here
    exact congrArg (Option.map Context.view) (freeAll_kept m (apart other (by simp))).contexts
  · rw [arrays h listed]
    exact (owned.arrays h).mp listed
  · rintro ⟨a, present, own⟩
    exact (owned.arrays h).mpr ⟨a, (freeAll_array present).2, own⟩
  · rw [constructs h listed]
    exact (owned.constructs h).mp listed
  · rintro ⟨x, present, own⟩
    exact (owned.constructs h).mpr ⟨x, (freeAll_construct present).2, own⟩
  · have dimensions : c.arrays.flatMap (m.freeAll blocks).store.view.dimensionBlocks =
        c.arrays.flatMap m.store.view.dimensionBlocks := by
      refine List.flatMap_congr fun h listed => ?_
      rw [Store.dimensionBlocks, Store.dimensionBlocks, arrays h listed]
    have fields : c.constructs.flatMap (m.freeAll blocks).store.view.fieldBlocks =
        c.constructs.flatMap m.store.view.fieldBlocks := by
      refine List.flatMap_congr fun h listed => ?_
      rw [Store.fieldBlocks, Store.fieldBlocks, constructs h listed]
    rw [held_eq, held_eq, dimensions, fields]

/-- A live context is destroyed without fault, and its estate is what is freed. -/
theorem Estates.contextDestroy (estates : Estates m live) (member : k ∈ live) :
    ∃ blocks, CopyEngine.contextDestroy m (some k) =
        .ok { code := .success, machine := m.freeAll blocks, value := none } ∧
      blocks.Perm (m.store.view.estate k) := by
  obtain ⟨c, owned⟩ := estates.owned k member
  obtain ⟨record, present, rfl⟩ := Option.map_eq_some_iff.mp owned.here
  have freed : (m.store.view.frees k record.view).Perm (m.store.view.estate k) := by
    rw [owned.estate]
    exact frees_perm m.store.view k record.view
  refine ⟨m.store.view.frees k record.view, ?_, freed⟩
  refine contextDestroy_eq present estates.standing.counted (fun h listed => ?_) (fun h listed => ?_)
    (freed.nodup_iff.mpr (estates.estate_nodup member))
  · obtain ⟨a, there, _⟩ := (owned.arrays h).mp listed
    obtain ⟨old, was, _⟩ := Option.map_eq_some_iff.mp there
    exact ⟨old, was⟩
  · obtain ⟨x, there, _⟩ := (owned.constructs h).mp listed
    obtain ⟨old, was, _⟩ := Option.map_eq_some_iff.mp there
    exact ⟨old, was⟩

/-- Without the estate of one context, the others are as they were. -/
theorem Estates.keeps (estates : Estates m live) (member : k ∈ live)
    (freed : blocks.Perm (m.store.view.estate k)) (listed : other ∈ live) (apart : other ≠ k)
    {c : Context List} (owned : Owned m.store.view other c) :
    Keeps m.store.view (m.freeAll blocks).store.view other c := by
  refine owned.keeps_freeAll fun b holds gone => ?_
  exact not_mem_of_flatMap estates.apart member listed apart (freed.mem_iff.mp gone) holds

theorem Estates.freeAll (estates : Estates m live) (member : k ∈ live)
    (freed : blocks.Perm (m.store.view.estate k)) : Estates (m.freeAll blocks) (live.erase k) := by
  obtain ⟨mine, own⟩ := estates.owned k member
  have rest {other : Handle} : other ∈ live.erase k ↔ other ≠ k ∧ other ∈ live :=
    estates.live_nodup.mem_erase_iff
  have gone (h : Handle) (holds : h ∈ m.store.view.estate k) : h ∈ blocks := freed.mem_iff.mpr holds
  have larger (h other : Handle) (kept : h ∉ blocks) (holds : h ∈ m.store.view.estate other) :
      h ∈ (m.freeAll blocks).store.view.estate other := by
    have listed := estates.live_of_mem holds
    have apart : other ≠ k := by
      rintro rfl
      exact kept (gone h holds)
    obtain ⟨c, owned⟩ := estates.owned other listed
    rw [(estates.keeps member freed listed apart owned).estate owned]
    exact holds
  rw [own.estate, held_eq] at gone
  have outstanding : m.heap.outstanding.Perm
      (blocks ++ (live.erase k).flatMap m.store.view.estate) :=
    estates.outstanding.trans ((flatMap_perm_erase member).trans (freed.symm.append_right _))
  refine ⟨estates.standing.freeAll blocks, ?_, ?_, ?_, ?_, ⟨?_, ?_⟩, ?_,
    estates.accounted.freeAll outstanding⟩
  · intro other listed
    obtain ⟨apart, listed⟩ := rest.mp listed
    obtain ⟨c, owned⟩ := estates.owned other listed
    exact ⟨c, (estates.keeps member freed listed apart owned).owned⟩
  · intro other c present
    obtain ⟨kept, there⟩ := freeAll_context present
    refine rest.mpr ⟨?_, estates.contexts other c there⟩
    rintro rfl
    exact kept (gone other (by simp))
  · intro h c present
    obtain ⟨kept, there⟩ := freeAll_construct present
    refine rest.mpr ⟨fun same => kept (gone h ?_), estates.constructs h c there⟩
    have listed := (own.constructs h).mpr ⟨c, there, same⟩
    simp [listed]
  · intro h a present
    obtain ⟨kept, there⟩ := freeAll_array present
    refine rest.mpr ⟨fun same => kept (gone h ?_), estates.arrays h a there⟩
    have listed := (own.arrays h).mpr ⟨a, there, same⟩
    simp [listed]
  · intro h p present
    obtain ⟨kept, there⟩ := freeAll_present (fun kept => (freeAll_kept m kept).pointers)
      (fun freed => (freeAll_gone m freed).pointers) present
    exact larger h _ kept (estates.homed.pointers h p there)
  · intro h v present
    obtain ⟨kept, there⟩ := freeAll_present (fun kept => (freeAll_kept m kept).vars)
      (fun freed => (freeAll_gone m freed).vars) present
    exact larger h _ kept (estates.homed.vars h v there)
  · refine (freeAll_perm outstanding).trans (.of_eq (List.flatMap_congr fun other listed => ?_))
    obtain ⟨apart, listed⟩ := rest.mp listed
    obtain ⟨c, owned⟩ := estates.owned other listed
    exact ((estates.keeps member freed listed apart owned).estate owned).symm

/-- Destroying refuses NULL, or frees the estate of a context that is live. -/
theorem Estates.destroys (estates : Estates m live) {context : Option Handle} {r : Return}
    (returned : CopyEngine.contextDestroy m context = .ok r) :
    context = none ∧ r.machine = m ∨
      ∃ k ∈ live, context = some k ∧
        ∃ blocks, r.machine = m.freeAll blocks ∧ blocks.Perm (m.store.view.estate k) := by
  cases context with
  | none =>
    cases returned
    exact .inl ⟨rfl, rfl⟩
  | some k =>
    cases present : m.store.contexts k with
    | none => simp [CopyEngine.contextDestroy, guarded, checkPtr, present] at returned
    | some record =>
      have member : k ∈ live := by
        refine estates.contexts k record.view ?_
        rw [view_contexts, present]
        rfl
      obtain ⟨blocks, done, freed⟩ := estates.contextDestroy member
      rw [done] at returned
      cases returned
      exact .inr ⟨k, member, rfl, blocks, rfl, freed⟩

/-- Nothing of a context is freed with another one. -/
theorem Estates.kept (estates : Estates m live) (member : k ∈ live)
    (freed : blocks.Perm (m.store.view.estate k)) (apart : other ≠ k)
    (holds : h ∈ m.store.view.estate other) : (m.freeAll blocks).store.SameAt m.store h := by
  refine freeAll_kept m fun lost => ?_
  exact not_mem_of_flatMap estates.apart member (estates.live_of_mem holds) apart
    (freed.mem_iff.mp lost) holds

end Destruction

section Programs

variable {m next final : Machine} {live : List Handle} {trace : List (Transition Machine Act)}

theorem Step.estates {event : Event} (step : Step m event next) (estates : Estates m live) :
    ∃ later, Estates next later := by
  cases step.blockMove with
  | failed code heap same => exact ⟨live, estates.failed step heap same⟩
  | @committed plan ready code heap same =>
    rcases estates.owner step ready with ⟨name, platform, rfl⟩ | ⟨k, member, own⟩
    · exact ⟨m.heap.next :: live, estates.created step ready heap same⟩
    · exact ⟨live, estates.committed step ready member own heap same⟩

theorem Act.estates {act : Act} (step : act.Step m next) (estates : Estates m live) :
    ∃ later, Estates next later := by
  cases act with
  | call event => exact Step.estates step estates
  | destroy context result =>
    obtain ⟨returned, rfl⟩ := step
    rcases estates.destroys returned with ⟨_, same⟩ | ⟨k, member, _, blocks, same, freed⟩
    · exact ⟨live, same ▸ estates⟩
    · rw [same]
      exact ⟨live.erase k, estates.freeAll member freed⟩

theorem estates_of_life (life : Life trace final) : ∃ live, Estates final live :=
  life.invariant (fun m => ∃ live, Estates m live) ⟨[], initial_estates⟩
    fun _ _ _ ⟨_, estates⟩ step => Act.estates step estates

theorem Estates.live_iff (estates : Estates m live) (k : Handle) :
    k ∈ live ↔ ∃ record, m.store.contexts k = some record := by
  constructor
  · intro member
    obtain ⟨c, owned⟩ := estates.owned k member
    obtain ⟨record, present, _⟩ := Option.map_eq_some_iff.mp owned.here
    exact ⟨record, present⟩
  · rintro ⟨record, present⟩
    refine estates.contexts k record.view ?_
    rw [view_contexts, present]
    rfl

/-- The objects of the store are in the estates of their contexts. -/
structure Settled (s : Store List) : Prop extends s.Homed where
  constructs : ∀ h c, s.constructs h = some c → h ∈ s.estate c.context
  arrays : ∀ h a, s.arrays h = some a → h ∈ s.estate a.context

theorem Estates.settled (estates : Estates m live) : Settled m.store.view := by
  refine ⟨estates.homed, ?_, ?_⟩
  · intro h c present
    obtain ⟨record, owned⟩ := estates.owned _ (estates.constructs h c present)
    have listed := (owned.constructs h).mpr ⟨c, present, rfl⟩
    rw [owned.estate, held_eq]
    simp [listed]
  · intro h a present
    obtain ⟨record, owned⟩ := estates.owned _ (estates.arrays h a present)
    have listed := (owned.arrays h).mpr ⟨a, present, rfl⟩
    rw [owned.estate, held_eq]
    simp [listed]

/-- Destroying contexts one after another. -/
def destroyAll (m : Machine) (contexts : List Handle) : Except Fault Machine :=
  contexts.foldlM (fun m k => (contextDestroy m (some k)).map (·.machine)) m

theorem Estates.destroyAll (estates : Estates m live) {contexts : List Handle}
    (each : contexts.Perm live) :
    ∃ bare, CopyEngine.destroyAll m contexts = .ok bare ∧ Estates bare [] ∧
      bare.heap.next = m.heap.next := by
  induction contexts generalizing m live with
  | nil =>
    obtain rfl := each.nil_eq
    exact ⟨m, rfl, estates, rfl⟩
  | cons k rest ih =>
    have member : k ∈ live := each.mem_iff.mp List.mem_cons_self
    obtain ⟨blocks, done, freed⟩ := estates.contextDestroy member
    have others : rest.Perm (live.erase k) :=
      (List.cons_perm_iff_perm_erase.mp each).2
    obtain ⟨bare, rested, empty, same⟩ := ih (estates.freeAll member freed) others
    refine ⟨bare, ?_, empty, same.trans (freeAll_next m blocks)⟩
    rw [CopyEngine.destroyAll, List.foldlM_cons, done]
    exact rested

theorem Estates.bare (estates : Estates m []) (h : Handle) :
    m.store.SameAt Store.empty h := by
  have none {α : Type} {x : Option α} (absent : ∀ a, x ≠ some a) : x = Option.none :=
    Option.eq_none_iff_forall_ne_some.mpr absent
  constructor
  · refine none fun record present => ?_
    exact List.not_mem_nil ((estates.live_iff h).mpr ⟨record, present⟩)
  · refine none fun c present => ?_
    refine List.not_mem_nil (estates.constructs h c.view ?_)
    rw [view_constructs, present]
    rfl
  · refine none fun a present => ?_
    refine List.not_mem_nil (estates.arrays h a.view ?_)
    rw [view_arrays, present]
    rfl
  · exact none fun p present =>
      List.not_mem_nil (estates.live_of_mem (estates.homed.pointers h p present))
  · exact none fun v present =>
      List.not_mem_nil (estates.live_of_mem (estates.homed.vars h v present))

end Programs

section Instances

/-- Make one call, or destroy one context, when it returns. -/
def Act.respond (m : Machine) : (Op × Memory) ⊕ Option Handle → Option (Act × Machine)
  | .inl (op, mem) =>
    match exec m mem op with
    | .error _ => none
    | .ok result => some (.call ⟨op, mem, result⟩, result.machine)
  | .inr context =>
    match contextDestroy m context with
    | .error _ => none
    | .ok result => some (.destroy context result, result.machine)

theorem Act.respond_step {m next : Machine} {input : (Op × Memory) ⊕ Option Handle} {act : Act}
    (returned : Act.respond m input = some (act, next)) : act.Step m next := by
  cases input with
  | inl input =>
    simp only [Act.respond] at returned
    split at returned
    · cases returned
    · rename_i answered
      cases returned
      exact ⟨answered, rfl⟩
  | inr context =>
    simp only [Act.respond] at returned
    split at returned
    · cases returned
    · rename_i answered
      cases returned
      exact ⟨answered, rfl⟩

/-- The program that a list of calls and destructions gives rise to. -/
def program (inputs : List ((Op × Memory) ⊕ Option Handle)) : List (Transition Machine Act) × Machine :=
  replay Act.respond Machine.initial inputs

/-- What a list of calls and destructions gives rise to from a machine on. -/
theorem Act.replay_execution (m : Machine) (inputs : List ((Op × Memory) ⊕ Option Handle)) :
    Execution Act.Step m (replay Act.respond m inputs).1 (replay Act.respond m inputs).2 := by
  apply Library.replay_execution
  intro m input act next returned
  exact Act.respond_step returned

theorem program_life (inputs : List ((Op × Memory) ⊕ Option Handle)) :
    Life (program inputs).1 (program inputs).2 :=
  Act.replay_execution Machine.initial inputs

/-- Two contexts whose objects alternate, with a call that lacks memory, and a context that is
destroyed and one that is made after it. -/
def estateCalls : List ((Op × Memory) ⊕ Option Handle) :=
  [.inl (.contextCreate (some []) (some lp64) true, plenty),
   .inl (.contextCreate (some []) (some lp64) true, plenty),
   .inl (.contextCreateConstruct .struct (some 0) (some [97]) false true, plenty),
   .inl (.contextCreateConstruct .union (some 1) (some [97]) false true, plenty),
   .inl (.constructAddField (some 2) (some [97]) (some ⟨4, 0⟩) [], plenty),
   .inl (.constructAddField (some 3) (some [98]) (some ⟨4, 0⟩) [], ⟨true, true, true, false⟩),
   .inl (.contextCreateArray (some 1) (some ⟨complexTypeStruct, 2⟩) true, plenty),
   .inr (some 0),
   .inl (.contextCreate (some []) (some lp64) true, plenty),
   .inl (.contextCreatePointer (some 7) (some ⟨4, 0⟩) true, plenty)]

end Instances

section Results

variable {final : Machine} {trace : List (Transition Machine Act)}

/-- Whatever a program did with its contexts, every block that was ever taken was released
once, or is once in the estate of one context that is live; and every object of the store is in
the estate of its context. -/
theorem every_block_owned (life : Life trace final) :
    (∃ live : List Handle, (∀ k, k ∈ live ↔ ∃ record, final.store.contexts k = some record) ∧
      (final.heap.released ++ live.flatMap final.store.view.estate).Perm
        (List.range final.heap.next)) ∧
      Settled final.store.view := by
  obtain ⟨live, estates⟩ := estates_of_life life
  refine ⟨⟨live, estates.live_iff, ?_⟩, estates.settled⟩
  exact (estates.outstanding.symm.append_left _).trans estates.accounted

theorem every_block_owned_calls :
    (∃ live : List Handle,
      (∀ k, k ∈ live ↔ ∃ record, (program estateCalls).2.store.contexts k = some record) ∧
      ((program estateCalls).2.heap.released ++
        live.flatMap (program estateCalls).2.store.view.estate).Perm
          (List.range (program estateCalls).2.heap.next)) ∧
      Settled (program estateCalls).2.store.view :=
  every_block_owned (program_life estateCalls)

/-- After any program a context can be destroyed: its estate is released and gone, and everything
else is as it was, the estates of the other contexts too. -/
theorem destroyed_alone (life : Life trace final) {k : Handle}
    (there : ∃ record, final.store.contexts k = some record) :
    ∃ r freed, contextDestroy final (some k) = .ok r ∧ r.code = .success ∧
      freed.Perm (final.store.view.estate k) ∧
      r.machine.heap.released = final.heap.released ++ freed ∧
      (∀ h ∈ final.store.view.estate k, r.machine.store.SameAt Store.empty h) ∧
      (∀ h ∉ final.store.view.estate k, r.machine.store.SameAt final.store h) ∧
      ∀ other, other ≠ k → r.machine.store.view.estate other = final.store.view.estate other := by
  obtain ⟨live, estates⟩ := estates_of_life life
  have member := (estates.live_iff k).mpr there
  obtain ⟨blocks, done, freed⟩ := estates.contextDestroy member
  refine ⟨_, blocks, done, rfl, freed, freeAll_released final blocks, ?_, ?_, ?_⟩
  · exact fun h holds => freeAll_gone final (freed.mem_iff.mpr holds)
  · exact fun h elsewhere => freeAll_kept final (freed.mem_iff.not.mpr elsewhere)
  · intro other apart
    by_cases listed : other ∈ live
    · obtain ⟨c, owned⟩ := estates.owned other listed
      exact (estates.keeps member freed listed apart owned).estate owned
    · have later := estates.freeAll member freed
      have gone : other ∉ live.erase k := fun rest => listed (List.mem_of_mem_erase rest)
      have none {m : Machine} {live : List Handle} (estates : Estates m live)
          (unlisted : other ∉ live) : m.store.view.estate other = [] := by
        refine List.eq_nil_iff_forall_not_mem.mpr fun h holds => ?_
        exact unlisted (estates.live_of_mem holds)
      rw [none later gone, none estates listed]

theorem destroyed_alone_calls :
    ∃ r freed, contextDestroy (program estateCalls).2 (some 1) = .ok r ∧ r.code = .success ∧
      freed.Perm ((program estateCalls).2.store.view.estate 1) ∧
      r.machine.heap.released = (program estateCalls).2.heap.released ++ freed ∧
      (∀ h ∈ (program estateCalls).2.store.view.estate 1, r.machine.store.SameAt Store.empty h) ∧
      (∀ h ∉ (program estateCalls).2.store.view.estate 1,
        r.machine.store.SameAt (program estateCalls).2.store h) ∧
      ∀ other, other ≠ 1 → r.machine.store.view.estate other =
        (program estateCalls).2.store.view.estate other :=
  destroyed_alone (program_life estateCalls) (Option.isSome_iff_exists.mp (by decide +kernel))

/-- After any program its contexts can be destroyed in any order; then nothing is stored,
nothing is outstanding, and every block that was ever taken was released once. -/
theorem teardown (life : Life trace final) {contexts : List Handle} (once : contexts.Nodup)
    (each : ∀ k, k ∈ contexts ↔ ∃ record, final.store.contexts k = some record) :
    ∃ bare, destroyAll final contexts = .ok bare ∧ bare.heap.outstanding = [] ∧
      bare.heap.released.Perm (List.range final.heap.next) ∧
      ∀ h, bare.store.SameAt Store.empty h := by
  obtain ⟨live, estates⟩ := estates_of_life life
  have same : contexts.Perm live := by
    refine (List.perm_ext_iff_of_nodup once estates.live_nodup).mpr fun k => ?_
    rw [each, estates.live_iff]
  obtain ⟨bare, done, empty, next⟩ := estates.destroyAll same
  have nothing : bare.heap.outstanding = [] := empty.outstanding.eq_nil
  refine ⟨bare, done, nothing, ?_, empty.bare⟩
  have accounted := empty.accounted
  rw [Heap.Accounted, nothing, List.append_nil, next] at accounted
  exact accounted

theorem teardown_calls :
    ∃ bare, destroyAll (program estateCalls).2 [7, 1] = .ok bare ∧ bare.heap.outstanding = [] ∧
      bare.heap.released.Perm (List.range (program estateCalls).2.heap.next) ∧
      ∀ h, bare.store.SameAt Store.empty h := by
  have next : (program estateCalls).2.heap.next = 9 := by decide +kernel
  have early : ∀ k < 9, k ∈ [7, 1] ↔ ((program estateCalls).2.store.contexts k).isSome := by
    decide +kernel
  refine teardown (program_life estateCalls) (by decide) fun k => ?_
  rw [← Option.isSome_iff_exists]
  rcases Nat.lt_or_ge k 9 with old | beyond
  · exact early k old
  · have bounded := (standing_of_life (program_life estateCalls)).bounded
    have none := Option.map_eq_none_iff.mp (bounded.contexts k (Nat.le_trans (Nat.le_of_eq next) beyond))
    have small : ∀ k ∈ [7, 1], k < 9 := by decide
    rw [none]
    exact iff_of_false (fun listed => absurd (small k listed) (Nat.not_lt.mpr beyond)) (by simp)

end Results

end Mam.CopyEngine
