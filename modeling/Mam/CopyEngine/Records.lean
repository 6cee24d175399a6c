import Mam.CopyEngine.Cached

/-! What one call does to the record of one construct or array. -/

namespace Mam.CopyEngine

open Mam.Library

section Arrays

/-- Where an array found after a call comes from. -/
inductive ArrayChange (s : Seen) (call : Call) (h : Handle) (a : ArrayType List) : Prop where
  | kept {old : ArrayType List} (present : s.types.arrays h = some old)
      (same : a = { old with frozen := a.frozen })
  | created {plan : ArrayPlan} (ready : Ready s.types call.op (.array plan))
      (code : call.code = .success) (here : h = s.next)
      (same : a = { plan.array with frozen := a.frozen })
  | extended {dimension : Dimension} {old : ArrayType List}
      (ready : Ready s.types call.op (.dimension h dimension)) (code : call.code = .success)
      (present : s.types.arrays h = some old)
      (same : a = old.withDimension s.next dimension)

private theorem array_of_frozen {s : Store List} {fieldType : FieldType} {h : Handle}
    {a : ArrayType List} (present : (freezeFieldType s fieldType).arrays h = some a) :
    ∃ old, s.arrays h = some old ∧ a = { old with frozen := a.frozen } := by
  rw [freezeFieldType_arrays, Option.map_eq_some_iff] at present
  obtain ⟨old, there, rfl⟩ := present
  exact ⟨old, there, by split <;> rfl⟩

theorem commit_array {s : Seen} {call : Call} {plan : Plan} (ready : Ready s.types call.op plan)
    (code : call.code = .success) {h : Handle} {a : ArrayType List}
    (present : (commit s.types s.next plan).arrays h = some a) :
    ArrayChange s call h a := by
  obtain ⟨op, result⟩ := call
  cases ready with
  | context => exact .kept present rfl
  | construct there unused =>
    simp only [commit, there] at present
    exact .kept present rfl
  | field there unfrozen named unused offsets owner sized nonneg =>
    simp only [commit, there] at present
    obtain ⟨old, was, same⟩ := array_of_frozen present
    exact .kept was same
  | pointer =>
    simp only [commit] at present
    split at present
    · exact .kept present rfl
    · exact .kept present rfl
  | @array plan record there sized =>
    simp only [commit, there] at present
    obtain ⟨old, was, same⟩ := array_of_frozen present
    rw [setArray_arrays] at was
    split at was
    · rename_i here
      cases was
      exact .created (.array there sized) code here same
    · exact .kept was same
  | @dimension owner dimension record there unfrozen =>
    simp only [commit, there, setArray_arrays] at present
    split at present
    · rename_i here
      subst here
      cases present
      exact .extended (.dimension there unfrozen) code there rfl
    · exact .kept present rfl
  | var there named unused sized =>
    simp only [commit, there] at present
    obtain ⟨old, was, same⟩ := array_of_frozen present
    exact .kept was same

theorem Change.array {s next : Seen} {call : Call} (change : Change s call next) {h : Handle}
    {a : ArrayType List} (present : next.types.arrays h = some a) : ArrayChange s call h a := by
  cases change with
  | idle failed same later =>
    rw [same] at present
    exact .kept present rfl
  | frozen ready failed same later =>
    rw [same] at present
    obtain ⟨old, was, same⟩ := array_of_frozen present
    exact .kept was same
  | committed ready code same taken =>
    rw [same] at present
    exact commit_array ready code present

end Arrays

section Constructs

/-- Where a construct found after a call comes from. -/
inductive ConstructChange (s : Seen) (call : Call) (h : Handle) (c : Construct List) : Prop where
  | kept {old : Construct List} (present : s.types.constructs h = some old)
      (same : c = { old with frozen := c.frozen })
  | created {type : ConstructType} {owner : Handle} {name : CString} {packed : Bool}
      (ready : Ready s.types call.op (.construct type owner name packed))
      (code : call.code = .success) (here : h = s.next) (same : c = .fresh owner type name packed)
  | extended {plan : FieldPlan} {old : Construct List} (ready : Ready s.types call.op (.field plan))
      (code : call.code = .success) (here : h = plan.construct)
      (present : s.types.constructs h = some old)
      (same : c = { old.withField s.next plan with frozen := c.frozen })

private theorem construct_of_frozen {s : Store List} {fieldType : FieldType} {h : Handle}
    {c : Construct List} (present : (freezeFieldType s fieldType).constructs h = some c) :
    ∃ old, s.constructs h = some old ∧ c = { old with frozen := c.frozen } := by
  rw [freezeFieldType_constructs, Option.map_eq_some_iff] at present
  obtain ⟨old, there, rfl⟩ := present
  exact ⟨old, there, by split <;> rfl⟩

theorem commit_construct {s : Seen} {call : Call} {plan : Plan} (ready : Ready s.types call.op plan)
    (code : call.code = .success) {h : Handle} {c : Construct List}
    (present : (commit s.types s.next plan).constructs h = some c) :
    ConstructChange s call h c := by
  obtain ⟨op, result⟩ := call
  cases ready with
  | context => exact .kept present rfl
  | construct there unused =>
    simp only [commit, there, setConstruct_constructs] at present
    split at present
    · rename_i here
      cases present
      exact .created (.construct there unused) code here rfl
    · exact .kept present rfl
  | @field plan options record context there unfrozen named unused offsets owner sized nonneg =>
    simp only [commit, there] at present
    obtain ⟨old, was, same⟩ := construct_of_frozen present
    rw [setConstruct_constructs] at was
    split at was
    · rename_i here
      subst here
      cases was
      exact .extended (.field there unfrozen named unused offsets owner sized nonneg) code rfl there
        same
    · exact .kept was same
  | pointer =>
    simp only [commit] at present
    split at present
    · exact .kept present rfl
    · exact .kept present rfl
  | array there sized =>
    simp only [commit, there] at present
    obtain ⟨old, was, same⟩ := construct_of_frozen present
    exact .kept was same
  | dimension there unfrozen =>
    simp only [commit, there] at present
    exact .kept present rfl
  | var there named unused sized =>
    simp only [commit, there] at present
    obtain ⟨old, was, same⟩ := construct_of_frozen present
    exact .kept was same

theorem Change.construct {s next : Seen} {call : Call} (change : Change s call next) {h : Handle}
    {c : Construct List} (present : next.types.constructs h = some c) :
    ConstructChange s call h c := by
  cases change with
  | idle failed same later =>
    rw [same] at present
    exact .kept present rfl
  | frozen ready failed same later =>
    rw [same] at present
    obtain ⟨old, was, same⟩ := construct_of_frozen present
    exact .kept was same
  | committed ready code same taken =>
    rw [same] at present
    exact commit_construct ready code present

end Constructs

end Mam.CopyEngine
