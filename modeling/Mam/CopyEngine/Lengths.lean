import Mam.CopyEngine.Returned

/-! What all operations on lists keep, in every list of the store. -/

namespace Mam.CopyEngine

open Mam.Library Mam.Vendor

variable {α : Type}

/-- Every operation on a list keeps the property. -/
structure Kept (P : (α : Type) → UTArray α → Prop) : Prop where
  init : ∀ {α : Type}, P α UTArray.init
  stored : ∀ {α : Type} {list grown : UTArray α} {elem : α} {realloc : Bool}, P α list →
    list.pushBack elem realloc = some (.stored grown) → P α grown
  oom : ∀ {α : Type} {list grown : UTArray α} {elem : α} {realloc : Bool}, P α list →
    list.pushBack elem realloc = some (.oom grown) → P α grown
  popBack : ∀ {α : Type} {list : UTArray α}, P α list → P α list.popBack

section Calls

variable {P : (α : Type) → UTArray α → Prop} {m : Machine} {mem : Memory} {r : Return}

theorem guarded_lists (lists : Lists P m.store) {checks : Except Stop α}
    {commit : α → Except Fault Return} (returned : guarded m checks commit = .ok r)
    (committed : ∀ plan, commit plan = .ok r → Lists P r.machine.store) :
    Lists P r.machine.store := by
  rcases guarded_cases returned with ⟨error, refused, rfl⟩ | ⟨plan, passed, done⟩
  · exact lists
  · exact committed plan done

theorem tested_lists {memory : Bool} {failed : Return} {rest : Except Fault Return}
    (returned : (if !memory then .ok failed else rest) = .ok r)
    (stopped : Lists P failed.machine.store) (went : rest = .ok r → Lists P r.machine.store) :
    Lists P r.machine.store := by
  rcases tested_cases returned with ⟨_, rfl⟩ | ⟨_, rest⟩
  · exact stopped
  · exact went rest

theorem pushBackOr_lists (kept : Kept P) {list : UTArray α} {elem : α}
    {oom : UTArray α → Return} {stored : UTArray α → Except Fault Return}
    (returned : pushBackOr list elem mem oom stored = .ok r) (before : P α list)
    (failed : ∀ grown, P α grown → Lists P (oom grown).machine.store)
    (appended : ∀ grown, P α grown → stored grown = .ok r → Lists P r.machine.store) :
    Lists P r.machine.store := by
  rcases pushBackOr_cases returned with ⟨grown, pushed, _, _, rfl⟩ | ⟨grown, pushed, _, rest⟩
  · exact failed grown (kept.oom before pushed)
  · exact appended grown (kept.stored before pushed) rest

private theorem contextCreate_lists (kept : Kept P) (lists : Lists P m.store)
    {name : Option CString} {platform : Option Platform} {ret : Bool}
    (returned : contextCreate m mem name platform ret = .ok r) : Lists P r.machine.store := by
  refine guarded_lists lists returned fun plan committed => ?_
  simp only [Heap.calloc] at committed
  refine tested_lists committed lists fun committed => ?_
  refine tested_lists committed lists fun committed => ?_
  cases committed
  exact lists.setContext _ ⟨kept.init, kept.init, kept.init, kept.init⟩

private theorem contextCreateConstruct_lists (kept : Kept P) (lists : Lists P m.store)
    {type : ConstructType} {context : Option Handle} {name : Option CString} {packed ret : Bool}
    (returned : contextCreateConstruct m mem type context name packed ret = .ok r) :
    Lists P r.machine.store := by
  refine guarded_lists lists returned fun plan committed => ?_
  simp only [Heap.calloc] at committed
  refine tested_lists committed lists fun committed => ?_
  refine tested_lists committed lists fun committed => ?_
  split at committed
  · cases committed
  · rename_i record present
    have each := lists.contexts _ _ present
    have put (grown : UTArray Handle) (good : P Handle grown) (hash : UTHash Handle) :
        Lists P (m.store.setContext plan.1
          { record with constructs := grown, constructsNameHash := hash }) :=
      lists.setContext _ ⟨each.pointers, each.arrays, good, each.vars⟩
    refine pushBackOr_lists kept committed each.constructs (fun grown good => put grown good _) ?_
    intro grown good stored
    split at stored
    · cases stored
      exact put grown.popBack (kept.popBack good) _
    · cases stored
      exact (put grown good _).setConstruct _ kept.init

private theorem constructAddField_lists (kept : Kept P) (lists : Lists P m.store)
    {construct : Option Handle} {name : Option CString} {fieldType : Option FieldType}
    {options : List FieldOption}
    (returned : constructAddField m mem construct name fieldType options = .ok r) :
    Lists P r.machine.store := by
  refine guarded_lists lists returned fun plan committed => ?_
  simp only [Heap.calloc] at committed
  refine tested_lists committed lists fun committed => ?_
  split at committed
  · cases committed
  · rename_i record present
    refine pushBackOr_lists kept committed (lists.constructs _ _ present)
      (fun grown good => lists.setConstruct _ good) ?_
    intro grown good stored
    split at stored
    · cases stored
      exact lists.setConstruct _ (kept.popBack good)
    · cases stored
      exact Lists.freezeFieldType (lists.setConstruct _ good) _

private theorem contextCreatePointer_lists (kept : Kept P) (lists : Lists P m.store)
    {context : Option Handle} {fieldType : Option FieldType} {ret : Bool}
    (returned : contextCreatePointer m mem context fieldType ret = .ok r) :
    Lists P r.machine.store := by
  refine guarded_lists lists returned fun plan committed => ?_
  simp only [Heap.calloc] at committed
  obtain ⟨_, committed⟩ := untested_cases committed
  split at committed
  · cases committed
  · rename_i record present
    have each := lists.contexts _ _ present
    have put (grown : UTArray Handle) (good : P Handle grown) :
        Lists P (m.store.setContext plan.1 { record with pointers := grown }) :=
      lists.setContext _ ⟨good, each.arrays, each.constructs, each.vars⟩
    refine pushBackOr_lists kept committed each.pointers put ?_
    intro grown good stored
    cases stored
    exact (put grown good).setPointer _ _

private theorem contextCreateArray_lists (kept : Kept P) (lists : Lists P m.store)
    {context : Option Handle} {fieldType : Option FieldType} {ret : Bool}
    (returned : contextCreateArray m mem context fieldType ret = .ok r) :
    Lists P r.machine.store := by
  refine guarded_lists lists returned fun plan committed => ?_
  simp only [Heap.calloc] at committed
  obtain ⟨_, committed⟩ := untested_cases committed
  refine tested_lists committed lists fun committed => ?_
  split at committed
  · cases committed
  · rename_i record present
    have each := lists.contexts _ _ present
    have put (grown : UTArray Handle) (good : P Handle grown) :
        Lists P (m.store.setContext plan.context { record with arrays := grown }) :=
      lists.setContext _ ⟨each.pointers, good, each.constructs, each.vars⟩
    refine pushBackOr_lists kept committed each.arrays put ?_
    intro grown good stored
    cases stored
    exact Lists.freezeFieldType ((put grown good).setArray _ kept.init) _

private theorem arrayAddDimension_lists (kept : Kept P) (lists : Lists P m.store)
    {array : Option Handle} {dimension : Option Dimension}
    (returned : arrayAddDimension m mem array dimension = .ok r) : Lists P r.machine.store := by
  refine guarded_lists lists returned fun plan committed => ?_
  simp only [Heap.calloc] at committed
  refine tested_lists committed lists fun committed => ?_
  split at committed
  · cases committed
  · rename_i record present
    refine pushBackOr_lists kept committed (lists.arrays _ _ present)
      (fun grown good => lists.setArray _ good) ?_
    intro grown good stored
    cases stored
    exact lists.setArray _ good

private theorem contextCreateVariable_lists (kept : Kept P) (lists : Lists P m.store)
    {context : Option Handle} {name : Option CString} {fieldType : Option FieldType} {ret : Bool}
    (returned : contextCreateVariable m mem context name fieldType ret = .ok r) :
    Lists P r.machine.store := by
  refine guarded_lists lists returned fun plan committed => ?_
  simp only [Heap.calloc, freezeFieldType_contexts] at committed
  refine tested_lists committed lists fun committed => ?_
  have frozen := lists.freezeFieldType plan.fieldType
  split at committed
  · cases committed
  · rename_i record present
    have each := lists.contexts _ _ present
    have put (grown : UTArray Handle) (good : P Handle grown) (hash : UTHash Handle) :
        Lists P ((freezeFieldType m.store plan.fieldType).setContext plan.context
          { record with vars := grown, variablesNameHash := hash }) :=
      frozen.setContext _ ⟨each.pointers, each.arrays, each.constructs, good⟩
    refine pushBackOr_lists kept committed each.vars (fun grown good => put grown good _) ?_
    intro grown good stored
    split at stored
    · cases stored
      exact put grown.popBack (kept.popBack good) _
    · cases stored
      exact (put grown good _).setVariable _ _

/-- What all operations on lists keep, every call keeps in every list. -/
theorem exec_lists (kept : Kept P) (lists : Lists P m.store) {op : Op}
    (returned : exec m mem op = .ok r) : Lists P r.machine.store := by
  cases op with
  | contextCreate name platform ret => exact contextCreate_lists kept lists returned
  | contextCreateConstruct type context name packed ret =>
    exact contextCreateConstruct_lists kept lists returned
  | constructAddField construct name fieldType options =>
    exact constructAddField_lists kept lists returned
  | contextCreatePointer context fieldType ret => exact contextCreatePointer_lists kept lists returned
  | contextCreateArray context fieldType ret => exact contextCreateArray_lists kept lists returned
  | arrayAddDimension array dimension => exact arrayAddDimension_lists kept lists returned
  | contextCreateVariable context name fieldType ret =>
    exact contextCreateVariable_lists kept lists returned

end Calls

/-- The length of every list is what its index says. -/
abbrev Store.Counted (s : Store UTArray) : Prop := Lists (fun _ list => list.Counted) s

theorem counted_kept : Kept fun _ list => list.Counted where
  init := UTArray.init_counted
  stored counted pushed := counted.pushBack_stored pushed
  oom counted pushed := counted.pushBack_oom pushed
  popBack counted := counted.popBack

theorem initial_counted : Machine.initial.store.Counted := by
  refine ⟨?_, ?_, ?_⟩
  · exact fun _ _ present => nomatch present
  · exact fun _ _ present => nomatch present
  · exact fun _ _ present => nomatch present

theorem counted_of_run {trace : List (Transition Machine Event)} {final : Machine}
    (run : Run trace final) : final.store.Counted := by
  refine run.invariant (fun m => m.store.Counted) initial_counted ?_
  rintro m event next counted ⟨returned, rfl⟩
  exact exec_lists counted_kept counted returned

end Mam.CopyEngine
