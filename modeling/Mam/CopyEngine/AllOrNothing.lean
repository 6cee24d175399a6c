import Mam.CopyEngine.Runs

/-! Calls that fail leave the contents of the store as they were. -/

namespace Mam.CopyEngine

open Mam.Library Mam.Vendor

/-- The store with every frozen flag cleared: lists, name tables, layouts and dimensions. -/
def Store.contents (s : Store List) : Store List :=
  { s with
    constructs := fun h => (s.constructs h).map fun c => { c with frozen := false }
    arrays := fun h => (s.arrays h).map fun a => { a with frozen := false } }

theorem freezeFieldType_pointers (s : Store List) (fieldType : FieldType) :
    (freezeFieldType s fieldType).pointers = s.pointers := by
  unfold freezeFieldType
  split
  · split <;> rfl
  · split
    · split <;> rfl
    · rfl

theorem freezeFieldType_contents (s : Store List) (fieldType : FieldType) :
    (freezeFieldType s fieldType).contents = s.contents := by
  have constructs : (freezeFieldType s fieldType).contents.constructs = s.contents.constructs := by
    funext h
    simp only [Store.contents, freezeFieldType_constructs, Option.map_map]
    congr 1
    funext c
    simp only [Function.comp_apply]
    split <;> rfl
  have arrays : (freezeFieldType s fieldType).contents.arrays = s.contents.arrays := by
    funext h
    simp only [Store.contents, freezeFieldType_arrays, Option.map_map]
    congr 1
    funext a
    simp only [Function.comp_apply]
    split <;> rfl
  calc (freezeFieldType s fieldType).contents
      = { contexts := (freezeFieldType s fieldType).contexts
          constructs := (freezeFieldType s fieldType).contents.constructs
          arrays := (freezeFieldType s fieldType).contents.arrays
          pointers := (freezeFieldType s fieldType).pointers
          vars := (freezeFieldType s fieldType).vars } := rfl
    _ = s.contents := by
        rw [freezeFieldType_contexts, constructs, arrays, freezeFieldType_pointers,
          freezeFieldType_vars]
        rfl

theorem leftover_contents (s : Store List) (plan : Plan) :
    (plan.leftover s).contents = s.contents := by
  cases plan with
  | var plan => exact freezeFieldType_contents s plan.fieldType
  | _ => rfl

/-- The call stops at an allocation that its object cannot do without, reports every
other one that fails, and an error it returns has changed nothing but frozen flags. -/
structure AllOrNothing (m : Machine) (mem : Memory) (op : Op) : Prop where
  stops : ∀ plan, checks m.store op = .ok plan →
    mem.calloc = false ∨ plan.allocates = true ∧ mem.malloc = false →
    ∃ r, exec m mem op = .ok r ∧ r.code = .enomem
  reports : ∀ plan r, checks m.store op = .ok plan → ¬ plan.Enough m.store mem →
    exec m mem op = .ok r → r.code = .enomem
  undone : ∀ r, exec m mem op = .ok r → r.code ≠ .success →
    r.machine.store.view.contents = m.store.view.contents

/-- The call passes its checks, its `calloc` fails, and it does not look. -/
def Unchecked (m : Machine) (mem : Memory) (op : Op) : Prop :=
  ∃ plan, checks m.store op = .ok plan ∧ plan.unchecked = true ∧ mem.calloc = false

instance (m : Machine) (mem : Memory) (op : Op) : Decidable (Unchecked m mem op) :=
  inferInstanceAs (Decidable (∃ _, _ ∧ _))

section Starved

variable {m : Machine} {mem : Memory} {op : Op} {plan : Plan}

/-- Without the memory for its object a call writes to NULL, or returns as it came. -/
theorem exec_of_calloc_failed (checked : checks m.store op = .ok plan)
    (failed : mem.calloc = false) :
    exec m mem op = if plan.unchecked then .error .nullDereference
      else .ok (Machine.enomem m.heap m.store) := by
  cases op <;> simp only [checks, map_eq_ok] at checked <;> obtain ⟨passed, same, rfl⟩ := checked <;>
    simp [exec, contextCreate, contextCreateConstruct, constructAddField, contextCreatePointer,
      contextCreateArray, arrayAddDimension, contextCreateVariable, guarded, same, failed,
      Plan.unchecked]

/-- Without the memory for its list a call frees its object and returns. -/
theorem exec_of_malloc_failed (checked : checks m.store op = .ok plan)
    (calloc : mem.calloc = true) (allocates : plan.allocates = true) (failed : mem.malloc = false) :
    exec m mem op = .ok (Machine.enomem (m.heap.calloc.2.free m.heap.calloc.1) m.store) := by
  cases op <;> simp only [checks, map_eq_ok] at checked <;> obtain ⟨passed, same, rfl⟩ := checked
  case contextCreate => simp [exec, contextCreate, guarded, same, calloc, failed, Heap.calloc]
  case contextCreateConstruct =>
    simp [exec, contextCreateConstruct, guarded, same, calloc, failed, Heap.calloc]
  case contextCreateArray =>
    simp [exec, contextCreateArray, guarded, same, calloc, failed, Heap.calloc]
  all_goals cases allocates

end Starved

/-- A call is all or nothing exactly when it is not one that misses a failed `calloc`. -/
theorem allOrNothing_iff_not_unchecked (m : Machine) (mem : Memory) (op : Op) :
    AllOrNothing m mem op ↔ ¬ Unchecked m mem op := by
  constructor
  · rintro ⟨stops, _, _⟩ ⟨plan, checked, unchecked, failed⟩
    obtain ⟨r, returned, _⟩ := stops plan checked (.inl failed)
    rw [exec_of_calloc_failed checked failed, if_pos unchecked] at returned
    cases returned
  · intro looks
    constructor
    · intro plan checked missing
      cases calloc : mem.calloc with
      | false =>
        have tested : ¬ plan.unchecked = true :=
          fun unchecked => looks ⟨plan, checked, unchecked, calloc⟩
        exact ⟨_, by rw [exec_of_calloc_failed checked calloc, if_neg tested], rfl⟩
      | true =>
        rcases missing with failed | ⟨allocates, failed⟩
        · rw [calloc] at failed
          cases failed
        · exact ⟨_, exec_of_malloc_failed checked calloc allocates failed, rfl⟩
    · intro plan r checked short returned
      cases exec_returned returned with
      | refused refused same =>
        rw [checked] at refused
        cases refused
      | starved passed missing undone same => exact undone.code
      | unappended passed calloc malloc full missing undone same torn => exact undone.code
      | uninserted passed calloc malloc appended inserts missing undone same intact =>
        exact undone.code
      | done passed enough code heap same intact =>
        rw [checked] at passed
        cases passed
        exact absurd enough short
    · intro r returned failed
      cases exec_returned returned with
      | refused checked same => rw [same]
      | starved checked missing undone same => rw [same]
      | unappended checked calloc malloc full missing undone same torn =>
        rw [same, leftover_contents]
      | uninserted checked calloc malloc appended inserts missing undone same intact =>
        rw [same, leftover_contents]
      | done checked enough code heap same intact => exact absurd code failed

/-- A context, and no memory for a pointer in it. -/
def contextCalls : List (Op × Memory) := [(.contextCreate (some []) (some lp64) true, plenty)]

/-- The missing pointer is written to. -/
theorem pointer_unchecked : ¬ ∀ (trace : List (Transition Machine Event)) (final : Machine),
    Run trace final → ∀ mem op, AllOrNothing final mem op := by
  intro all
  have stops := (all _ _ (replay_run contextCalls) { plenty with calloc := false }
    (.contextCreatePointer (some 0) (some ⟨4, 0⟩) true)).stops _ rfl (.inl rfl)
  obtain ⟨r, returned, _⟩ := stops
  cases returned

end Mam.CopyEngine
