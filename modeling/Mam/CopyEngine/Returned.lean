import Mam.CopyEngine.Graph

/-! How a call returns: with which code, in which state, and with what left of the
lists of the store. -/

namespace Mam.CopyEngine

open Mam.Library Mam.Vendor

variable {α β : Type}

section Lists

/-- All lists of a context have the property. -/
structure Context.Each (P : (α : Type) → UTArray α → Prop) (c : Context UTArray) : Prop where
  pointers : P Handle c.pointers
  arrays : P Handle c.arrays
  constructs : P Handle c.constructs
  vars : P Handle c.vars

/-- All lists of the objects of a store have the property. -/
structure Lists (P : (α : Type) → UTArray α → Prop) (s : Store UTArray) : Prop where
  contexts : ∀ h c, s.contexts h = some c → c.Each P
  constructs : ∀ h c, s.constructs h = some c → P Field c.fields
  arrays : ∀ h a, s.arrays h = some a → P DimensionBlock a.dimensions

/-- Every list of the store can be appended to. -/
abbrev Store.Intact (s : Store UTArray) : Prop := Lists (fun _ list => list.Intact) s

/-- Every list of the store records the capacity that its block has. -/
abbrev Store.Sound (s : Store UTArray) : Prop := Lists (fun _ list => list.Sound) s

variable {P : (α : Type) → UTArray α → Prop} {s : Store UTArray}

theorem Lists.setContext (lists : Lists P s) (h : Handle) {c : Context UTArray} (each : c.Each P) :
    Lists P (s.setContext h c) := by
  refine ⟨?_, lists.constructs, lists.arrays⟩
  intro k other present
  rw [setContext_contexts] at present
  split at present
  · cases present
    exact each
  · exact lists.contexts k other present

theorem Lists.setConstruct (lists : Lists P s) (h : Handle) {c : Construct UTArray}
    (fields : P Field c.fields) : Lists P (s.setConstruct h c) := by
  refine ⟨lists.contexts, ?_, lists.arrays⟩
  intro k other present
  rw [setConstruct_constructs] at present
  split at present
  · cases present
    exact fields
  · exact lists.constructs k other present

theorem Lists.setArray (lists : Lists P s) (h : Handle) {a : ArrayType UTArray}
    (dimensions : P DimensionBlock a.dimensions) : Lists P (s.setArray h a) := by
  refine ⟨lists.contexts, lists.constructs, ?_⟩
  intro k other present
  rw [setArray_arrays] at present
  split at present
  · cases present
    exact dimensions
  · exact lists.arrays k other present

theorem Lists.setPointer (lists : Lists P s) (h : Handle) (p : Pointer) :
    Lists P (s.setPointer h p) := ⟨lists.contexts, lists.constructs, lists.arrays⟩

theorem Lists.setVariable (lists : Lists P s) (h : Handle) (v : Variable) :
    Lists P (s.setVariable h v) := ⟨lists.contexts, lists.constructs, lists.arrays⟩

theorem Lists.freezeFieldType (lists : Lists P s) (fieldType : FieldType) :
    Lists P (freezeFieldType s fieldType) := by
  refine ⟨?_, ?_, ?_⟩
  · rw [freezeFieldType_contexts]
    exact lists.contexts
  · intro h c present
    rw [freezeFieldType_constructs, Option.map_eq_some_iff] at present
    obtain ⟨old, there, rfl⟩ := present
    split <;> exact lists.constructs h old there
  · intro h a present
    rw [freezeFieldType_arrays, Option.map_eq_some_iff] at present
    obtain ⟨old, there, rfl⟩ := present
    split <;> exact lists.arrays h old there

theorem Lists.mono {Q : (α : Type) → UTArray α → Prop} (lists : Lists P s)
    (weaken : ∀ α (list : UTArray α), P α list → Q α list) : Lists Q s := by
  refine ⟨?_, fun h c present => weaken _ _ (lists.constructs h c present),
    fun h a present => weaken _ _ (lists.arrays h a present)⟩
  intro h c present
  have each := lists.contexts h c present
  exact ⟨weaken _ _ each.pointers, weaken _ _ each.arrays, weaken _ _ each.constructs,
    weaken _ _ each.vars⟩

end Lists

section Needs

/-- The call makes a new `UT_array`. -/
def Plan.allocates : Plan → Bool
  | .context _ _ | .construct _ _ _ _ | .array _ => true
  | _ => false

/-- The list that the call appends to has to grow first. -/
def Plan.full (s : Store UTArray) : Plan → Bool
  | .context _ _ => false
  | .construct _ owner _ _ => (s.contexts owner).any fun c => c.constructs.Full
  | .field plan => (s.constructs plan.construct).any fun c => c.fields.Full
  | .pointer owner _ => (s.contexts owner).any fun c => c.pointers.Full
  | .array plan => (s.contexts plan.context).any fun c => c.arrays.Full
  | .dimension owner _ => (s.arrays owner).any fun a => a.dimensions.Full
  | .var plan => (s.contexts plan.context).any fun c => c.vars.Full

/-- The call inserts a name. -/
def Plan.inserts : Plan → Bool
  | .construct _ _ _ _ | .field _ | .var _ => true
  | _ => false

/-- The call does not look at the result of its `calloc`. -/
def Plan.unchecked : Plan → Bool
  | .pointer _ _ | .array _ => true
  | _ => false

/-- Every allocation that the call makes succeeds. -/
structure Plan.Enough (plan : Plan) (s : Store UTArray) (mem : Memory) : Prop where
  calloc : mem.calloc = true
  malloc : plan.allocates = true → mem.malloc = true
  realloc : plan.full s = true → mem.realloc = true
  insert : plan.inserts = true → mem.insert = true

instance (plan : Plan) (s : Store UTArray) (mem : Memory) : Decidable (plan.Enough s mem) :=
  decidable_of_iff (mem.calloc = true ∧ (plan.allocates = true → mem.malloc = true) ∧
      (plan.full s = true → mem.realloc = true) ∧ (plan.inserts = true → mem.insert = true))
    ⟨fun ⟨calloc, malloc, realloc, insert⟩ => ⟨calloc, malloc, realloc, insert⟩,
      fun enough => ⟨enough.calloc, enough.malloc, enough.realloc, enough.insert⟩⟩

/-- There is only one plan that checks can pass. -/
theorem exists_ok_iff {x : Except Stop α} {a : α} {P : α → Prop} (passed : x = .ok a) :
    (∃ b, x = .ok b ∧ P b) ↔ P a := by
  constructor
  · rintro ⟨b, same, holds⟩
    rw [passed] at same
    cases same
    exact holds
  · exact fun holds => ⟨a, passed, holds⟩

theorem not_exists_ok {x : Except Stop α} {stop : Stop} {P : α → Prop} (refused : x = .error stop) :
    ¬ ∃ b, x = .ok b ∧ P b := by
  rintro ⟨b, same, _⟩
  rw [refused] at same
  cases same

instance {x : Except Stop α} {P : α → Prop} [DecidablePred P] :
    Decidable (∃ a, x = .ok a ∧ P a) :=
  match x with
  | .ok a => decidable_of_iff (P a) (exists_ok_iff rfl).symm
  | .error _ => .isFalse (not_exists_ok rfl)

instance {x : Except Stop α} {P : α → Prop} [DecidablePred P] : Decidable (∀ a, x = .ok a → P a) :=
  match x with
  | .ok a =>
    decidable_of_iff (P a) ⟨fun holds _ same => by
      cases same
      exact holds, fun all => all a rfl⟩
  | .error _ => .isTrue fun _ same => nomatch same

/-- What a plan leaves in the store when it fails after its `calloc`: a variable has
frozen its type. -/
def Plan.leftover (s : Store List) : Plan → Store List
  | .var plan => freezeFieldType s plan.fieldType
  | _ => s

end Needs

/-- Out of memory, with the object of the call freed again. -/
structure Undone (m : Machine) (r : Return) : Prop where
  code : r.code = .enomem
  later : m.heap.next ≤ r.machine.heap.next
  outstanding : r.machine.heap.outstanding = m.heap.outstanding

theorem undone_of_untaken (m : Machine) (store : Store UTArray) :
    Undone m (Machine.enomem m.heap store) := ⟨rfl, Nat.le_refl _, rfl⟩

theorem undone_of_freed (m : Machine) (store : Store UTArray) :
    Undone m (Machine.enomem (m.heap.calloc.2.free m.heap.calloc.1) store) :=
  ⟨rfl, Nat.le_succ _, by simp [Machine.enomem, Heap.calloc, Heap.free]⟩

/-- The ways a call returns. -/
inductive Returned (m : Machine) (op : Op) (mem : Memory) (r : Return) : Prop where
  /-- The checks refuse. -/
  | refused {error : MamError} (checked : checks m.store op = .error (.code error))
      (same : r = { code := error, machine := m, value := none })
  /-- The object, or a list it needs, is not obtained. -/
  | starved {plan : Plan} (checked : checks m.store op = .ok plan)
      (missing : mem.calloc = false ∨ plan.allocates = true ∧ mem.malloc = false)
      (undone : Undone m r) (same : r.machine.store = m.store)
  /-- The list that was to take the object cannot grow, and counts slots it lacks. -/
  | unappended {plan : Plan} (checked : checks m.store op = .ok plan) (calloc : mem.calloc = true)
      (malloc : plan.allocates = true → mem.malloc = true) (full : plan.full m.store = true)
      (missing : mem.realloc = false) (undone : Undone m r)
      (same : r.machine.store.view = plan.leftover m.store.view)
      (torn : m.store.Intact → ¬ r.machine.store.Sound)
  /-- The name cannot be inserted, and the append is taken back. -/
  | uninserted {plan : Plan} (checked : checks m.store op = .ok plan) (calloc : mem.calloc = true)
      (malloc : plan.allocates = true → mem.malloc = true)
      (appended : plan.full m.store = true → mem.realloc = true) (inserts : plan.inserts = true)
      (missing : mem.insert = false) (undone : Undone m r)
      (same : r.machine.store.view = plan.leftover m.store.view)
      (intact : m.store.Intact → r.machine.store.Intact)
  /-- The call succeeds. -/
  | done {plan : Plan} (checked : checks m.store op = .ok plan) (enough : plan.Enough m.store mem)
      (code : r.code = .success) (heap : r.machine.heap = m.heap.calloc.2)
      (same : r.machine.store.view = commit m.store.view m.heap.next plan)
      (intact : m.store.Intact → r.machine.store.Intact)

section Inversion

variable {m : Machine} {mem : Memory} {r : Return}

/-- A guarded call refuses, or commits what passed the checks. -/
theorem guarded_cases {checks : Except Stop α} {commit : α → Except Fault Return}
    (returned : guarded m checks commit = .ok r) :
    (∃ error, checks = .error (.code error) ∧
        r = { code := error, machine := m, value := none }) ∨
      ∃ plan, checks = .ok plan ∧ commit plan = .ok r := by
  cases checks with
  | error stop =>
    cases stop with
    | fault fault => cases returned
    | code error =>
      cases returned
      exact .inl ⟨error, rfl, rfl⟩
  | ok plan => exact .inr ⟨plan, rfl, returned⟩

/-- An allocation fails where that is tested, or the call goes on. -/
theorem tested_cases {memory : Bool} {failed : Return} {rest : Except Fault Return}
    (returned : (if !memory then .ok failed else rest) = .ok r) :
    memory = false ∧ r = failed ∨ memory = true ∧ rest = .ok r := by
  cases memory with
  | false =>
    cases returned
    exact .inl ⟨rfl, rfl⟩
  | true => exact .inr ⟨rfl, returned⟩

/-- A call that does not test an allocation returns only when it succeeds. -/
theorem untested_cases {memory : Bool} {fault : Fault} {rest : Except Fault Return}
    (returned : (if !memory then .error fault else rest) = .ok r) :
    memory = true ∧ rest = .ok r := by
  cases memory with
  | false => cases returned
  | true => exact ⟨rfl, returned⟩

/-- An append runs out of memory on a full list, or goes on with the element added. -/
theorem pushBackOr_cases {list : UTArray α} {elem : α} {oom : UTArray α → Return}
    {stored : UTArray α → Except Fault Return}
    (returned : pushBackOr list elem mem oom stored = .ok r) :
    (∃ grown, list.pushBack elem mem.realloc = some (.oom grown) ∧
        list.Full ∧ mem.realloc = false ∧ r = oom grown) ∨
      ∃ grown, list.pushBack elem mem.realloc = some (.stored grown) ∧
        (list.Full → mem.realloc = true) ∧ stored grown = .ok r := by
  unfold pushBackOr at returned
  split at returned
  · cases returned
  · rename_i grown pushed
    cases returned
    obtain ⟨filled, missing⟩ := UTArray.pushBack_oom_full pushed
    exact .inl ⟨grown, pushed, filled, missing, rfl⟩
  · rename_i grown pushed
    exact .inr ⟨grown, pushed, UTArray.pushBack_stored_realloc pushed, returned⟩

private theorem unneeded {P : Prop} (impossible : false = true) : P :=
  absurd impossible Bool.false_ne_true

theorem addKeyptr_eq_none {table : UTHash α} {key : CString} {elem : α} {memory : Bool}
    (failed : table.addKeyptr key elem memory = none) : memory = false := by
  cases memory with
  | false => rfl
  | true => cases failed

theorem addKeyptr_eq_some {table grown : UTHash Handle} {key : CString} {elem : Handle}
    {memory : Bool} (added : table.addKeyptr key elem memory = some grown) :
    memory = true ∧ grown = extendHash table key elem := by
  cases memory with
  | false => cases added
  | true =>
    cases added
    exact ⟨rfl, rfl⟩

private theorem contextCreate_returned {name : Option CString} {platform : Option Platform}
    {ret : Bool} (returned : contextCreate m mem name platform ret = .ok r) :
    Returned m (.contextCreate name platform ret) mem r := by
  unfold contextCreate at returned
  rcases guarded_cases returned with ⟨error, refused, rfl⟩ | ⟨⟨called, on⟩, passed, committed⟩
  · exact .refused (by simp only [checks, refused]; rfl) rfl
  · have checked : checks m.store (.contextCreate name platform ret) = .ok (.context called on) := by
      simp only [checks, passed]
      rfl
    simp only [Heap.calloc] at committed
    rcases tested_cases committed with ⟨missing, rfl⟩ | ⟨calloc, committed⟩
    · exact .starved checked (.inl missing) (undone_of_untaken m _) rfl
    · rcases tested_cases committed with ⟨missing, rfl⟩ | ⟨malloc, committed⟩
      · exact .starved checked (.inr ⟨rfl, missing⟩) (undone_of_freed m _) rfl
      · cases committed
        refine .done checked ⟨calloc, fun _ => malloc,
          by simp [Plan.full], by simp [Plan.inserts]⟩
          rfl rfl (view_setContext _ _ _) ?_
        intro intact
        exact intact.setContext _ ⟨UTArray.init_intact, UTArray.init_intact, UTArray.init_intact,
          UTArray.init_intact⟩

private theorem contextCreateConstruct_returned {type : ConstructType} {context : Option Handle}
    {name : Option CString} {packed ret : Bool}
    (returned : contextCreateConstruct m mem type context name packed ret = .ok r) :
    Returned m (.contextCreateConstruct type context name packed ret) mem r := by
  unfold contextCreateConstruct at returned
  rcases guarded_cases returned with ⟨error, refused, rfl⟩ | ⟨⟨owner, called⟩, passed, committed⟩
  · exact .refused (by simp only [checks, refused]; rfl) rfl
  · have checked : checks m.store (.contextCreateConstruct type context name packed ret) =
        .ok (.construct type owner called packed) := by
      simp only [checks, passed]
      rfl
    simp only [Heap.calloc] at committed
    rcases tested_cases committed with ⟨missing, rfl⟩ | ⟨calloc, committed⟩
    · exact .starved checked (.inl missing) (undone_of_untaken m _) rfl
    · rcases tested_cases committed with ⟨missing, rfl⟩ | ⟨malloc, committed⟩
      · exact .starved checked (.inr ⟨rfl, missing⟩) (undone_of_freed m _) rfl
      · split at committed
        · cases committed
        · rename_i record present
          have full : (Plan.construct type owner called packed).full m.store = true ↔
              record.constructs.Full := by simp [Plan.full, present]
          rcases pushBackOr_cases committed with
              ⟨grown, pushed, filled, missing, rfl⟩ | ⟨grown, pushed, room, stored⟩
          · refine .unappended checked calloc (fun _ => malloc) (full.mpr filled) missing
              (undone_of_freed m _) (view_setContext_same present ?_) ?_
            · simp [Context.view, UTArray.pushBack_oom pushed]
            · intro intact sound
              exact (intact.contexts _ _ present).constructs.not_sound_of_oom pushed
                (sound.contexts owner _ (setContext_self _ _ _)).constructs
          · have appended := fun filled => room (full.mp filled)
            split at stored
            · rename_i failed
              cases stored
              refine .uninserted checked calloc (fun _ => malloc) appended rfl
                (addKeyptr_eq_none failed) (undone_of_freed m _) (view_setContext_same present ?_) ?_
              · simp [Context.view, UTArray.popBack_of_stored pushed]
              · intro intact
                have each := intact.contexts _ _ present
                exact intact.setContext _ ⟨each.pointers, each.arrays,
                  (each.constructs.pushBack pushed).popBack, each.vars⟩
            · rename_i hash added
              obtain ⟨insert, rfl⟩ := addKeyptr_eq_some added
              cases stored
              refine .done checked ⟨calloc, fun _ => malloc, appended,
                fun _ => insert⟩ rfl rfl ?_ ?_
              · have here := seen_context present
                rw [view_setConstruct, view_setContext]
                simp only [commit, here]
                simp [Context.view, Construct.view, Construct.fresh, UTArray.pushBack_stored pushed]
              · intro intact
                have each := intact.contexts _ _ present
                refine Lists.setConstruct (Lists.setContext intact _ ?_) _ ?_
                · exact ⟨each.pointers, each.arrays, each.constructs.pushBack pushed, each.vars⟩
                · exact UTArray.init_intact

private theorem constructAddField_returned {construct : Option Handle} {name : Option CString}
    {fieldType : Option FieldType} {options : List FieldOption}
    (returned : constructAddField m mem construct name fieldType options = .ok r) :
    Returned m (.constructAddField construct name fieldType options) mem r := by
  unfold constructAddField at returned
  rcases guarded_cases returned with ⟨error, refused, rfl⟩ | ⟨plan, passed, committed⟩
  · exact .refused (by simp only [checks, refused]; rfl) rfl
  · have checked : checks m.store (.constructAddField construct name fieldType options) =
        .ok (.field plan) := by
      simp only [checks, passed]
      rfl
    simp only [Heap.calloc] at committed
    rcases tested_cases committed with ⟨missing, rfl⟩ | ⟨calloc, committed⟩
    · exact .starved checked (.inl missing) (undone_of_untaken m _) rfl
    · split at committed
      · cases committed
      · rename_i record present
        have full : (Plan.field plan).full m.store = true ↔ record.fields.Full := by
          simp [Plan.full, present]
        rcases pushBackOr_cases committed with
            ⟨grown, pushed, filled, missing, rfl⟩ | ⟨grown, pushed, room, stored⟩
        · refine .unappended checked calloc unneeded (full.mpr filled) missing
            (undone_of_freed m _) (view_setConstruct_same present ?_) ?_
          · simp [Construct.view, UTArray.pushBack_oom pushed]
          · intro intact sound
            exact (intact.constructs _ _ present).not_sound_of_oom pushed
              (sound.constructs plan.construct _ (setConstruct_self _ _ _))
        · have appended := fun filled => room (full.mp filled)
          split at stored
          · rename_i failed
            cases stored
            refine .uninserted checked calloc unneeded appended rfl
              (addKeyptr_eq_none failed) (undone_of_freed m _) (view_setConstruct_same present ?_) ?_
            · simp [Construct.view, UTArray.popBack_of_stored pushed]
            · intro intact
              exact intact.setConstruct _ ((intact.constructs _ _ present).pushBack pushed).popBack
          · rename_i hash added
            obtain ⟨insert, rfl⟩ := addKeyptr_eq_some added
            cases stored
            refine .done checked ⟨calloc, unneeded, appended, fun _ => insert⟩ rfl rfl ?_ ?_
            · have here := seen_construct present
              rw [view_freezeFieldType, view_setConstruct]
              simp only [commit, here]
              congr 2
              simp only [Construct.withField, FieldPlan.entry, Construct.view,
                UTArray.pushBack_stored pushed]
              rfl
            · intro intact
              refine Lists.freezeFieldType (Lists.setConstruct intact _ ?_) _
              exact (intact.constructs _ _ present).pushBack pushed

private theorem contextCreatePointer_returned {context : Option Handle}
    {fieldType : Option FieldType} {ret : Bool}
    (returned : contextCreatePointer m mem context fieldType ret = .ok r) :
    Returned m (.contextCreatePointer context fieldType ret) mem r := by
  unfold contextCreatePointer at returned
  rcases guarded_cases returned with ⟨error, refused, rfl⟩ | ⟨⟨owner, target⟩, passed, committed⟩
  · exact .refused (by simp only [checks, refused]; rfl) rfl
  · have checked : checks m.store (.contextCreatePointer context fieldType ret) =
        .ok (.pointer owner target) := by
      simp only [checks, passed]
      rfl
    simp only [Heap.calloc] at committed
    obtain ⟨calloc, committed⟩ := untested_cases committed
    split at committed
    · cases committed
    · rename_i record present
      have full : (Plan.pointer owner target).full m.store = true ↔ record.pointers.Full := by
        simp [Plan.full, present]
      rcases pushBackOr_cases committed with
          ⟨grown, pushed, filled, missing, rfl⟩ | ⟨grown, pushed, room, stored⟩
      · refine .unappended checked calloc unneeded (full.mpr filled) missing
          (undone_of_freed m _) (view_setContext_same present ?_) ?_
        · simp [Context.view, UTArray.pushBack_oom pushed]
        · intro intact sound
          exact (intact.contexts _ _ present).pointers.not_sound_of_oom pushed
            (sound.contexts owner _ (setContext_self _ _ _)).pointers
      · have appended := fun filled => room (full.mp filled)
        cases stored
        refine .done checked ⟨calloc, unneeded, appended, unneeded⟩ rfl rfl ?_ ?_
        · have here := seen_context present
          rw [view_setPointer, view_setContext]
          simp only [commit, here]
          simp [Context.view, UTArray.pushBack_stored pushed]
        · intro intact
          have each := intact.contexts _ _ present
          refine Lists.setPointer (Lists.setContext intact _ ?_) _ _
          exact ⟨each.pointers.pushBack pushed, each.arrays, each.constructs, each.vars⟩

private theorem contextCreateArray_returned {context : Option Handle}
    {fieldType : Option FieldType} {ret : Bool}
    (returned : contextCreateArray m mem context fieldType ret = .ok r) :
    Returned m (.contextCreateArray context fieldType ret) mem r := by
  unfold contextCreateArray at returned
  rcases guarded_cases returned with ⟨error, refused, rfl⟩ | ⟨plan, passed, committed⟩
  · exact .refused (by simp only [checks, refused]; rfl) rfl
  · have checked : checks m.store (.contextCreateArray context fieldType ret) =
        .ok (.array plan) := by
      simp only [checks, passed]
      rfl
    simp only [Heap.calloc] at committed
    obtain ⟨calloc, committed⟩ := untested_cases committed
    rcases tested_cases committed with ⟨missing, rfl⟩ | ⟨malloc, committed⟩
    · exact .starved checked (.inr ⟨rfl, missing⟩) (undone_of_freed m _) rfl
    · split at committed
      · cases committed
      · rename_i record present
        have full : (Plan.array plan).full m.store = true ↔ record.arrays.Full := by
          simp [Plan.full, present]
        rcases pushBackOr_cases committed with
            ⟨grown, pushed, filled, missing, rfl⟩ | ⟨grown, pushed, room, stored⟩
        · refine .unappended checked calloc (fun _ => malloc) (full.mpr filled) missing
            (undone_of_freed m _) (view_setContext_same present ?_) ?_
          · simp [Context.view, UTArray.pushBack_oom pushed]
          · intro intact sound
            exact (intact.contexts _ _ present).arrays.not_sound_of_oom pushed
              (sound.contexts plan.context _ (setContext_self _ _ _)).arrays
        · have appended := fun filled => room (full.mp filled)
          cases stored
          refine .done checked ⟨calloc, fun _ => malloc, appended, unneeded⟩
            rfl rfl ?_ ?_
          · have here := seen_context present
            rw [view_freezeFieldType, view_setArray, view_setContext]
            simp only [commit, here]
            simp [Context.view, ArrayType.view, ArrayPlan.array, UTArray.pushBack_stored pushed]
          · intro intact
            have each := intact.contexts _ _ present
            refine Lists.freezeFieldType (Lists.setArray (Lists.setContext intact _ ?_) _ ?_) _
            · exact ⟨each.pointers, each.arrays.pushBack pushed, each.constructs, each.vars⟩
            · exact UTArray.init_intact

private theorem arrayAddDimension_returned {array : Option Handle} {dimension : Option Dimension}
    (returned : arrayAddDimension m mem array dimension = .ok r) :
    Returned m (.arrayAddDimension array dimension) mem r := by
  unfold arrayAddDimension at returned
  rcases guarded_cases returned with ⟨error, refused, rfl⟩ | ⟨⟨owner, extent⟩, passed, committed⟩
  · exact .refused (by simp only [checks, refused]; rfl) rfl
  · have checked : checks m.store (.arrayAddDimension array dimension) =
        .ok (.dimension owner extent) := by
      simp only [checks, passed]
      rfl
    simp only [Heap.calloc] at committed
    rcases tested_cases committed with ⟨missing, rfl⟩ | ⟨calloc, committed⟩
    · exact .starved checked (.inl missing) (undone_of_untaken m _) rfl
    · split at committed
      · cases committed
      · rename_i record present
        have full : (Plan.dimension owner extent).full m.store = true ↔ record.dimensions.Full := by
          simp [Plan.full, present]
        rcases pushBackOr_cases committed with
            ⟨grown, pushed, filled, missing, rfl⟩ | ⟨grown, pushed, room, stored⟩
        · refine .unappended checked calloc unneeded (full.mpr filled) missing
            (undone_of_freed m _) (view_setArray_same present ?_) ?_
          · simp [ArrayType.view, UTArray.pushBack_oom pushed]
          · intro intact sound
            exact (intact.arrays _ _ present).not_sound_of_oom pushed
              (sound.arrays owner _ (setArray_self _ _ _))
        · have appended := fun filled => room (full.mp filled)
          cases stored
          refine .done checked ⟨calloc, unneeded, appended, unneeded⟩ rfl rfl ?_ ?_
          · have here := seen_array present
            rw [view_setArray]
            simp only [commit, here]
            simp only [ArrayType.view, ArrayType.withDimension, UTArray.pushBack_stored pushed]
            rfl
          · intro intact
            refine Lists.setArray intact _ ?_
            exact (intact.arrays _ _ present).pushBack pushed

private theorem contextCreateVariable_returned {context : Option Handle} {name : Option CString}
    {fieldType : Option FieldType} {ret : Bool}
    (returned : contextCreateVariable m mem context name fieldType ret = .ok r) :
    Returned m (.contextCreateVariable context name fieldType ret) mem r := by
  unfold contextCreateVariable at returned
  rcases guarded_cases returned with ⟨error, refused, rfl⟩ | ⟨plan, passed, committed⟩
  · exact .refused (by simp only [checks, refused]; rfl) rfl
  · have checked : checks m.store (.contextCreateVariable context name fieldType ret) =
        .ok (.var plan) := by
      simp only [checks, passed]
      rfl
    simp only [Heap.calloc, freezeFieldType_contexts] at committed
    rcases tested_cases committed with ⟨missing, rfl⟩ | ⟨calloc, committed⟩
    · exact .starved checked (.inl missing) (undone_of_untaken m _) rfl
    · split at committed
      · cases committed
      · rename_i record present
        have full : (Plan.var plan).full m.store = true ↔ record.vars.Full := by
          simp [Plan.full, present]
        have there : (freezeFieldType m.store plan.fieldType).contexts plan.context = some record := by
          rw [freezeFieldType_contexts, present]
        rcases pushBackOr_cases committed with
            ⟨grown, pushed, filled, missing, rfl⟩ | ⟨grown, pushed, room, stored⟩
        · refine .unappended checked calloc unneeded (full.mpr filled) missing
            (undone_of_freed m _) ((view_setContext_same there ?_).trans (view_freezeFieldType _ _)) ?_
          · simp [Context.view, UTArray.pushBack_oom pushed]
          · intro intact sound
            exact (intact.contexts _ _ present).vars.not_sound_of_oom pushed
              (sound.contexts plan.context _ (setContext_self _ _ _)).vars
        · have appended := fun filled => room (full.mp filled)
          split at stored
          · rename_i failed
            cases stored
            refine .uninserted checked calloc unneeded appended rfl
              (addKeyptr_eq_none failed) (undone_of_freed m _)
              ((view_setContext_same there ?_).trans (view_freezeFieldType _ _)) ?_
            · simp [Context.view, UTArray.popBack_of_stored pushed]
            · intro intact
              have each := intact.contexts _ _ present
              exact (intact.freezeFieldType _).setContext _ ⟨each.pointers, each.arrays,
                each.constructs, (each.vars.pushBack pushed).popBack⟩
          · rename_i hash added
            obtain ⟨insert, rfl⟩ := addKeyptr_eq_some added
            cases stored
            refine .done checked ⟨calloc, unneeded, appended, fun _ => insert⟩ rfl rfl ?_ ?_
            · have here := seen_context present
              rw [view_setVariable, view_setContext, view_freezeFieldType]
              simp only [commit, here]
              simp [Context.view, VariablePlan.var, UTArray.pushBack_stored pushed]
            · intro intact
              have each := intact.contexts _ _ present
              refine Lists.setVariable (Lists.setContext (intact.freezeFieldType _) _ ?_) _ _
              exact ⟨each.pointers, each.arrays, each.constructs, each.vars.pushBack pushed⟩

/-- Every call that returns does so in one of these ways. -/
theorem exec_returned {op : Op} (returned : exec m mem op = .ok r) : Returned m op mem r := by
  cases op with
  | contextCreate name platform ret => exact contextCreate_returned returned
  | contextCreateConstruct type context name packed ret =>
    exact contextCreateConstruct_returned returned
  | constructAddField construct name fieldType options => exact constructAddField_returned returned
  | contextCreatePointer context fieldType ret => exact contextCreatePointer_returned returned
  | contextCreateArray context fieldType ret => exact contextCreateArray_returned returned
  | arrayAddDimension array dimension => exact arrayAddDimension_returned returned
  | contextCreateVariable context name fieldType ret => exact contextCreateVariable_returned returned

end Inversion

section Seen

/-- What is seen of a machine: the address of the next object, and the store without
capacities. -/
structure Seen where
  next : Handle
  types : Store List

def Machine.seen (m : Machine) : Seen := { next := m.heap.next, types := m.store.view }

/-- A call with its return code. -/
structure Call where
  op : Op
  code : MamError

def Event.call (event : Event) : Call := { op := event.op, code := event.result.code }

/-- A call as a step of what is seen: it leaves the types alone, freezes the type of a
variable it fails to create, or commits its plan. -/
inductive Change (s : Seen) (call : Call) (next : Seen) : Prop where
  | idle (failed : call.code ≠ .success) (same : next.types = s.types) (later : s.next ≤ next.next)
  | frozen {plan : VariablePlan} (ready : Ready s.types call.op (.var plan))
      (failed : call.code ≠ .success) (same : next.types = freezeFieldType s.types plan.fieldType)
      (later : s.next ≤ next.next)
  | committed {plan : Plan} (ready : Ready s.types call.op plan) (code : call.code = .success)
      (same : next.types = commit s.types s.next plan) (taken : next.next = s.next + 1)

/-- A call that succeeds commits its plan. -/
theorem Change.of_success {s next : Seen} {call : Call} (change : Change s call next)
    (code : call.code = .success) : ∃ plan, Ready s.types call.op plan ∧
      next.types = commit s.types s.next plan ∧ next.next = s.next + 1 := by
  cases change with
  | idle failed same later => exact absurd code failed
  | frozen ready failed same later => exact absurd code failed
  | @committed plan ready code same taken => exact ⟨plan, ready, same, taken⟩

theorem ready_of_checked {m : Machine} {op : Op} {plan : Plan} (checked : checks m.store op = .ok plan) :
    Ready m.seen.types op plan := by
  apply checks_ready
  rw [Machine.seen, checks_view]
  exact checked

private theorem change_of_leftover {m : Machine} {op : Op} {r : Return} {plan : Plan}
    (checked : checks m.store op = .ok plan) (undone : Undone m r)
    (same : r.machine.store.view = plan.leftover m.store.view) :
    Change m.seen ⟨op, r.code⟩ r.machine.seen := by
  have failed : r.code ≠ .success := by
    rw [undone.code]
    exact nofun
  cases plan with
  | var plan => exact .frozen (ready_of_checked checked) failed same undone.later
  | _ => exact .idle failed same undone.later

theorem Returned.change {m : Machine} {op : Op} {mem : Memory} {r : Return}
    (returned : Returned m op mem r) : Change m.seen ⟨op, r.code⟩ r.machine.seen := by
  cases returned with
  | @refused error checked same =>
    subst same
    refine .idle ?_ rfl (Nat.le_refl _)
    rintro rfl
    exact checks_refuses _ _ checked
  | starved checked missing undone same =>
    refine .idle ?_ ?_ undone.later
    · rw [undone.code]
      exact nofun
    · exact congrArg Store.view same
  | unappended checked calloc malloc full missing undone same torn =>
    exact change_of_leftover checked undone same
  | uninserted checked calloc malloc appended inserts missing undone same intact =>
    exact change_of_leftover checked undone same
  | done checked enough code heap same intact =>
    refine .committed (ready_of_checked checked) code same ?_
    exact congrArg Heap.next heap

theorem Step.change {m next : Machine} {event : Event} (step : Step m event next) :
    Change m.seen event.call next.seen := by
  obtain ⟨returned, rfl⟩ := step
  exact (exec_returned returned).change

/-- A call succeeds exactly when its checks pass and its allocations do. -/
theorem Step.success_iff {m next : Machine} {event : Event} (step : Step m event next) :
    event.result.code = .success ↔
      ∃ plan, checks m.store event.op = .ok plan ∧ plan.Enough m.store event.memory := by
  obtain ⟨returned, rfl⟩ := step
  cases exec_returned returned with
  | @refused error checked same =>
    rw [same]
    refine ⟨?_, fun enough => absurd enough (not_exists_ok checked)⟩
    rintro rfl
    exact absurd checked (checks_refuses _ _)
  | @starved plan checked missing undone same =>
    rw [exists_ok_iff checked, undone.code]
    refine ⟨nofun, fun enough => ?_⟩
    rcases missing with calloc | ⟨allocates, malloc⟩
    · rw [enough.calloc] at calloc
      cases calloc
    · rw [enough.malloc allocates] at malloc
      cases malloc
  | @unappended plan checked calloc malloc full missing undone same torn =>
    rw [exists_ok_iff checked, undone.code]
    refine ⟨nofun, fun enough => ?_⟩
    rw [enough.realloc full] at missing
    cases missing
  | @uninserted plan checked calloc malloc appended inserts missing undone same intact =>
    rw [exists_ok_iff checked, undone.code]
    refine ⟨nofun, fun enough => ?_⟩
    rw [enough.insert inserts] at missing
    cases missing
  | @done plan checked enough code heap same intact =>
    rw [exists_ok_iff checked, code]
    exact ⟨fun _ => enough, fun _ => rfl⟩

/-- A call that passes its checks and has its memory commits its plan. -/
theorem Step.committed {m next : Machine} {event : Event} (step : Step m event next) {plan : Plan}
    (checked : checks m.store event.op = .ok plan) (enough : plan.Enough m.store event.memory) :
    event.result.code = .success ∧ next.store.view = commit m.store.view m.heap.next plan := by
  have code := step.success_iff.mpr ⟨plan, checked, enough⟩
  obtain ⟨returned, rfl⟩ := step
  cases exec_returned returned with
  | refused refused same =>
    rw [checked] at refused
    cases refused
  | starved passed missing undone same =>
    rw [undone.code] at code
    cases code
  | unappended passed calloc malloc full missing undone same torn =>
    rw [undone.code] at code
    cases code
  | uninserted passed calloc malloc appended inserts missing undone same intact =>
    rw [undone.code] at code
    cases code
  | done passed needs code heap same intact =>
    rw [checked] at passed
    cases passed
    exact ⟨code, same⟩

end Seen

end Mam.CopyEngine
