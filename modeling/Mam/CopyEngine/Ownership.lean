import Mam.CopyEngine.Destroy
import Mam.CopyEngine.Runs

/-! Every block that the calls on a context take belongs to one entry of one of its lists,
until `mam_context_destroy` frees it. -/

namespace Mam.CopyEngine

open Mam.Library Mam.Vendor

section Heaps

variable {α : Type} {m : Machine} {mem : Memory} {r : Return}

/-- What a call does to the heap: nothing, or it takes a block, which it may free again. -/
inductive HeapMove (before after : Heap) : Prop where
  | untouched (same : after = before)
  | undone (same : after = before.calloc.2.free before.calloc.1)
  | taken (same : after = before.calloc.2)

theorem guarded_heap {checks : Except Stop α} {commit : α → Except Fault Return}
    (returned : guarded m checks commit = .ok r)
    (committed : ∀ plan, commit plan = .ok r → HeapMove m.heap r.machine.heap) :
    HeapMove m.heap r.machine.heap := by
  rcases guarded_cases returned with ⟨error, refused, rfl⟩ | ⟨plan, passed, done⟩
  · exact .untouched rfl
  · exact committed plan done

theorem tested_heap {memory : Bool} {failed : Return} {rest : Except Fault Return}
    (returned : (if !memory then .ok failed else rest) = .ok r)
    (stopped : HeapMove m.heap failed.machine.heap)
    (went : rest = .ok r → HeapMove m.heap r.machine.heap) : HeapMove m.heap r.machine.heap := by
  rcases tested_cases returned with ⟨_, rfl⟩ | ⟨_, rest⟩
  · exact stopped
  · exact went rest

theorem pushBackOr_heap {list : UTArray α} {elem : α} {oom : UTArray α → Return}
    {stored : UTArray α → Except Fault Return}
    (returned : pushBackOr list elem mem oom stored = .ok r)
    (failed : ∀ grown, HeapMove m.heap (oom grown).machine.heap)
    (appended : ∀ grown, stored grown = .ok r → HeapMove m.heap r.machine.heap) :
    HeapMove m.heap r.machine.heap := by
  rcases pushBackOr_cases returned with ⟨grown, _, _, _, rfl⟩ | ⟨grown, _, _, rest⟩
  · exact failed grown
  · exact appended grown rest

private theorem contextCreate_heap {name : Option CString} {platform : Option Platform} {ret : Bool}
    (returned : contextCreate m mem name platform ret = .ok r) :
    HeapMove m.heap r.machine.heap := by
  refine guarded_heap returned fun plan committed => ?_
  simp only [Heap.calloc] at committed
  refine tested_heap committed (.untouched rfl) fun committed => ?_
  refine tested_heap committed (.undone rfl) fun committed => ?_
  cases committed
  exact .taken rfl

private theorem contextCreateConstruct_heap {type : ConstructType} {context : Option Handle}
    {name : Option CString} {packed ret : Bool}
    (returned : contextCreateConstruct m mem type context name packed ret = .ok r) :
    HeapMove m.heap r.machine.heap := by
  refine guarded_heap returned fun plan committed => ?_
  simp only [Heap.calloc] at committed
  refine tested_heap committed (.untouched rfl) fun committed => ?_
  refine tested_heap committed (.undone rfl) fun committed => ?_
  split at committed
  · cases committed
  · refine pushBackOr_heap committed (fun _ => .undone rfl) fun grown stored => ?_
    split at stored
    · cases stored
      exact .undone rfl
    · cases stored
      exact .taken rfl

private theorem constructAddField_heap {construct : Option Handle} {name : Option CString}
    {fieldType : Option FieldType} {options : List FieldOption}
    (returned : constructAddField m mem construct name fieldType options = .ok r) :
    HeapMove m.heap r.machine.heap := by
  refine guarded_heap returned fun plan committed => ?_
  simp only [Heap.calloc] at committed
  refine tested_heap committed (.untouched rfl) fun committed => ?_
  split at committed
  · cases committed
  · refine pushBackOr_heap committed (fun _ => .undone rfl) fun grown stored => ?_
    split at stored
    · cases stored
      exact .undone rfl
    · cases stored
      exact .taken rfl

private theorem contextCreatePointer_heap {context : Option Handle} {fieldType : Option FieldType}
    {ret : Bool} (returned : contextCreatePointer m mem context fieldType ret = .ok r) :
    HeapMove m.heap r.machine.heap := by
  refine guarded_heap returned fun plan committed => ?_
  simp only [Heap.calloc] at committed
  obtain ⟨_, committed⟩ := untested_cases committed
  split at committed
  · cases committed
  · refine pushBackOr_heap committed (fun _ => .undone rfl) fun grown stored => ?_
    cases stored
    exact .taken rfl

private theorem contextCreateArray_heap {context : Option Handle} {fieldType : Option FieldType}
    {ret : Bool} (returned : contextCreateArray m mem context fieldType ret = .ok r) :
    HeapMove m.heap r.machine.heap := by
  refine guarded_heap returned fun plan committed => ?_
  simp only [Heap.calloc] at committed
  obtain ⟨_, committed⟩ := untested_cases committed
  refine tested_heap committed (.undone rfl) fun committed => ?_
  split at committed
  · cases committed
  · refine pushBackOr_heap committed (fun _ => .undone rfl) fun grown stored => ?_
    cases stored
    exact .taken rfl

private theorem arrayAddDimension_heap {array : Option Handle} {dimension : Option Dimension}
    (returned : arrayAddDimension m mem array dimension = .ok r) :
    HeapMove m.heap r.machine.heap := by
  refine guarded_heap returned fun plan committed => ?_
  simp only [Heap.calloc] at committed
  refine tested_heap committed (.untouched rfl) fun committed => ?_
  split at committed
  · cases committed
  · refine pushBackOr_heap committed (fun _ => .undone rfl) fun grown stored => ?_
    cases stored
    exact .taken rfl

private theorem contextCreateVariable_heap {context : Option Handle} {name : Option CString}
    {fieldType : Option FieldType} {ret : Bool}
    (returned : contextCreateVariable m mem context name fieldType ret = .ok r) :
    HeapMove m.heap r.machine.heap := by
  refine guarded_heap returned fun plan committed => ?_
  simp only [Heap.calloc] at committed
  refine tested_heap committed (.untouched rfl) fun committed => ?_
  split at committed
  · cases committed
  · refine pushBackOr_heap committed (fun _ => .undone rfl) fun grown stored => ?_
    split at stored
    · cases stored
      exact .undone rfl
    · cases stored
      exact .taken rfl

/-- Every call that returns leaves the heap in one of three ways. -/
theorem exec_heap {op : Op} (returned : exec m mem op = .ok r) :
    HeapMove m.heap r.machine.heap := by
  cases op with
  | contextCreate name platform ret => exact contextCreate_heap returned
  | contextCreateConstruct type context name packed ret => exact contextCreateConstruct_heap returned
  | constructAddField construct name fieldType options => exact constructAddField_heap returned
  | contextCreatePointer context fieldType ret => exact contextCreatePointer_heap returned
  | contextCreateArray context fieldType ret => exact contextCreateArray_heap returned
  | arrayAddDimension array dimension => exact arrayAddDimension_heap returned
  | contextCreateVariable context name fieldType ret => exact contextCreateVariable_heap returned

/-- A call that frees what it took leaves nothing of it outstanding. -/
theorem Undone.heap (undone : Undone m r) (move : HeapMove m.heap r.machine.heap) :
    r.machine.heap = m.heap ∨ r.machine.heap = m.heap.calloc.2.free m.heap.calloc.1 := by
  cases move with
  | untouched same => exact .inl same
  | undone same => exact .inr same
  | taken same =>
    have kept := undone.outstanding
    rw [same] at kept
    exact absurd kept (List.cons_ne_self _ _)

/-- A call fails, and leaves nothing but perhaps a frozen type, or takes the block of the
object that it commits. -/
inductive BlockMove (m : Machine) (event : Event) (next : Machine) : Prop where
  | failed (code : event.result.code ≠ .success)
      (heap : next.heap = m.heap ∨ next.heap = m.heap.calloc.2.free m.heap.calloc.1)
      (same : next.store.view = m.store.view ∨
        ∃ fieldType, next.store.view = freezeFieldType m.store.view fieldType)
  | committed {plan : Plan} (ready : Ready m.store.view event.op plan)
      (code : event.result.code = .success) (heap : next.heap = m.heap.calloc.2)
      (same : next.store.view = commit m.store.view m.heap.next plan)

private theorem leftover_cases (s : Store List) (plan : Plan) :
    plan.leftover s = s ∨ ∃ fieldType, plan.leftover s = freezeFieldType s fieldType := by
  cases plan with
  | var plan => exact .inr ⟨plan.fieldType, rfl⟩
  | _ => exact .inl rfl

private theorem blockMove_of_undone {event : Event} (move : HeapMove m.heap event.result.machine.heap)
    (undone : Undone m event.result) {plan : Plan}
    (same : event.result.machine.store.view = plan.leftover m.store.view) :
    BlockMove m event event.result.machine := by
  refine .failed ?_ (undone.heap move) ?_
  · rw [undone.code]
    exact nofun
  · rw [same]
    exact leftover_cases _ plan

theorem Step.blockMove {m next : Machine} {event : Event} (step : Step m event next) :
    BlockMove m event next := by
  obtain ⟨returned, rfl⟩ := step
  have move := exec_heap returned
  cases exec_returned returned with
  | @refused error checked same =>
    rw [same]
    refine .failed ?_ (.inl rfl) (.inl rfl)
    rw [same]
    rintro rfl
    exact checks_refuses _ _ checked
  | starved checked missing undone same =>
    refine .failed ?_ (undone.heap move) (.inl (congrArg Store.view same))
    rw [undone.code]
    exact nofun
  | unappended checked calloc malloc full missing undone same torn =>
    exact blockMove_of_undone move undone same
  | uninserted checked calloc malloc appended inserts missing undone same intact =>
    exact blockMove_of_undone move undone same
  | done checked enough code heap same intact =>
    exact .committed (ready_of_checked checked) code heap same

end Heaps

section Holdings

variable {s : Store List}

/-- The lists through which a context owns blocks: its own, those of the dimensions of its
arrays, and those of the fields of its constructs. -/
def Store.owning (s : Store List) (c : Context List) : List (List Handle) :=
  [c.pointers, c.arrays, c.constructs, c.vars] ++ c.arrays.map s.dimensionBlocks ++
    c.constructs.map s.fieldBlocks

/-- All entries of these lists. -/
def Store.held (s : Store List) (c : Context List) : List Handle := (s.owning c).flatten

theorem held_eq (s : Store List) (c : Context List) :
    s.held c = c.pointers ++ (c.arrays ++ (c.constructs ++ (c.vars ++
      (c.arrays.flatMap s.dimensionBlocks ++ c.constructs.flatMap s.fieldBlocks)))) := by
  simp [Store.held, Store.owning, List.flatMap_def]

/-- The blocks that are freed are the context and the entries of its lists. -/
theorem frees_perm (s : Store List) (k : Handle) (c : Context List) :
    (s.frees k c).Perm (k :: s.held c) := by
  have arrays := List.flatMap_append_perm c.arrays s.dimensionBlocks fun h => [h]
  have constructs := List.flatMap_append_perm c.constructs s.fieldBlocks fun h => [h]
  rw [List.perm_iff_count] at arrays constructs ⊢
  intro block
  have arrays := arrays block
  have constructs := constructs block
  simp only [List.count_append, List.flatMap_singleton'] at arrays constructs
  rw [held_eq]
  simp only [Store.frees, List.count_append, List.count_cons, List.count_nil]
  omega

/-- Where one object of a list gets one block more, so does the whole list. -/
theorem flatMap_grow_perm {α β : Type} [DecidableEq α] {before after : α → List β} {objects : List α}
    (once : objects.Nodup) {x : α} (member : x ∈ objects) {b : β} (grown : after x = before x ++ [b])
    (others : ∀ y, y ≠ x → after y = before y) :
    (objects.flatMap after).Perm (b :: objects.flatMap before) := by
  induction objects with
  | nil => cases member
  | cons y rest ih =>
    obtain ⟨apart, once⟩ := List.nodup_cons.mp once
    rw [List.flatMap_cons, List.flatMap_cons]
    by_cases here : x = y
    · subst here
      have same : rest.flatMap after = rest.flatMap before := by
        refine List.flatMap_congr fun z listed => others z ?_
        rintro rfl
        exact apart listed
      rw [grown, same, List.append_assoc]
      exact List.perm_middle
    · have later : x ∈ rest := (List.mem_cons.mp member).resolve_left here
      rw [others y (Ne.symm here)]
      exact ((ih once later).append_left _).trans List.perm_middle

/-- An object that is not in a list adds nothing to it by having no blocks. -/
theorem flatMap_unlisted {α β : Type} [DecidableEq α] (own : α → List β) {objects : List α} {x : α}
    (unlisted : x ∉ objects) :
    objects.flatMap (fun y => if y = x then [] else own y) = objects.flatMap own := by
  refine List.flatMap_congr fun y listed => if_neg ?_
  rintro rfl
  exact unlisted listed

@[simp] theorem dimensionBlocks_setContext (k : Handle) (c : Context List) :
    (s.setContext k c).dimensionBlocks = s.dimensionBlocks := rfl

@[simp] theorem dimensionBlocks_setConstruct (k : Handle) (c : Construct List) :
    (s.setConstruct k c).dimensionBlocks = s.dimensionBlocks := rfl

@[simp] theorem dimensionBlocks_setPointer (k : Handle) (p : Pointer) :
    (s.setPointer k p).dimensionBlocks = s.dimensionBlocks := rfl

@[simp] theorem dimensionBlocks_setVariable (k : Handle) (v : Variable) :
    (s.setVariable k v).dimensionBlocks = s.dimensionBlocks := rfl

theorem dimensionBlocks_setArray (k : Handle) (a : ArrayType List) (h : Handle) :
    (s.setArray k a).dimensionBlocks h =
      if h = k then a.dimensions.map (·.self) else s.dimensionBlocks h := by
  simp only [Store.dimensionBlocks, setArray_arrays]
  by_cases here : h = k <;> simp [here]

@[simp] theorem dimensionBlocks_freeze (fieldType : FieldType) :
    (freezeFieldType s fieldType).dimensionBlocks = s.dimensionBlocks := by
  funext h
  rw [Store.dimensionBlocks, freezeFieldType_arrays, Store.dimensionBlocks]
  cases s.arrays h with
  | none => rfl
  | some a => by_cases frozen : fieldType.node = some (.array h) <;> simp [frozen]

@[simp] theorem fieldBlocks_setContext (k : Handle) (c : Context List) :
    (s.setContext k c).fieldBlocks = s.fieldBlocks := rfl

@[simp] theorem fieldBlocks_setArray (k : Handle) (a : ArrayType List) :
    (s.setArray k a).fieldBlocks = s.fieldBlocks := rfl

@[simp] theorem fieldBlocks_setPointer (k : Handle) (p : Pointer) :
    (s.setPointer k p).fieldBlocks = s.fieldBlocks := rfl

@[simp] theorem fieldBlocks_setVariable (k : Handle) (v : Variable) :
    (s.setVariable k v).fieldBlocks = s.fieldBlocks := rfl

theorem fieldBlocks_setConstruct (k : Handle) (c : Construct List) (h : Handle) :
    (s.setConstruct k c).fieldBlocks h =
      if h = k then c.fields.map (·.self) else s.fieldBlocks h := by
  simp only [Store.fieldBlocks, setConstruct_constructs]
  by_cases here : h = k <;> simp [here]

@[simp] theorem fieldBlocks_freeze (fieldType : FieldType) :
    (freezeFieldType s fieldType).fieldBlocks = s.fieldBlocks := by
  funext h
  rw [Store.fieldBlocks, freezeFieldType_constructs, Store.fieldBlocks]
  cases s.constructs h with
  | none => rfl
  | some c => by_cases frozen : fieldType.node = some (.construct h) <;> simp [frozen]

/-- The lists of a context hold its arrays and constructs, and no others. -/
structure Owned (s : Store List) (k : Handle) (c : Context List) : Prop where
  here : s.contexts k = some c
  arrays : ∀ h, h ∈ c.arrays ↔ ∃ a, s.arrays h = some a ∧ a.context = k
  constructs : ∀ h, h ∈ c.constructs ↔ ∃ x, s.constructs h = some x ∧ x.context = k

/-- The context that a plan adds to. -/
def Plan.owner (s : Store List) : Plan → Option Handle
  | .context _ _ => none
  | .construct _ owner _ _ => some owner
  | .field plan => (s.constructs plan.construct).map (·.context)
  | .pointer owner _ => some owner
  | .array plan => some plan.context
  | .dimension h _ => (s.arrays h).map (·.context)
  | .var plan => some plan.context

variable {k : Handle} {c : Context List}

theorem held_freeze (fieldType : FieldType) (c : Context List) :
    (freezeFieldType s fieldType).held c = s.held c := by
  simp only [held_eq, dimensionBlocks_freeze, fieldBlocks_freeze]

theorem Owned.freeze (owned : Owned s k c) (fieldType : FieldType) :
    Owned (freezeFieldType s fieldType) k c := by
  refine ⟨?_, ?_, ?_⟩
  · rw [freezeFieldType_contexts]
    exact owned.here
  · intro h
    rw [owned.arrays, freezeFieldType_arrays]
    cases s.arrays h with
    | none => simp
    | some a => by_cases frozen : fieldType.node = some (.array h) <;> simp [frozen]
  · intro h
    rw [owned.constructs, freezeFieldType_constructs]
    cases s.constructs h with
    | none => simp
    | some x => by_cases frozen : fieldType.node = some (.construct h) <;> simp [frozen]

end Holdings

section Commits

variable {s : Seen} {k : Handle} {c : Context List}

private theorem array_unlisted (bounded : Bounded s) (owned : Owned s.types k c) :
    s.next ∉ c.arrays := by
  intro listed
  obtain ⟨a, present, _⟩ := (owned.arrays s.next).mp listed
  rw [bounded.arrays s.next (Nat.le_refl _)] at present
  cases present

private theorem construct_unlisted (bounded : Bounded s) (owned : Owned s.types k c) :
    s.next ∉ c.constructs := by
  intro listed
  obtain ⟨x, present, _⟩ := (owned.constructs s.next).mp listed
  rw [bounded.constructs s.next (Nat.le_refl _)] at present
  cases present

/-- The context holds the new block besides those it held. -/
private def Takes (s : Seen) (k : Handle) (c : Context List) (after : Store List) : Prop :=
  ∃ now, Owned after k now ∧ (after.held now).Perm (s.next :: s.types.held c)

private theorem construct_takes (bounded : Bounded s) (owned : Owned s.types k c)
    (type : ConstructType) (name : CString) (packed : Bool) :
    Takes s k c (commit s.types s.next (.construct type k name packed)) := by
  simp only [commit, owned.here]
  refine ⟨_, ⟨setContext_self _ _ _, ?_, ?_⟩, ?_⟩
  · exact owned.arrays
  · intro h
    simp only [List.mem_append, List.mem_singleton, owned.constructs, setConstruct_constructs,
      setContext_constructs]
    by_cases new : h = s.next
    · subst new
      simp [Construct.fresh]
    · simp [new]
  · have kept := flatMap_unlisted s.types.fieldBlocks (construct_unlisted bounded owned)
    have blocks : ((s.types.setContext k { c with
          constructs := c.constructs ++ [s.next]
          constructsNameHash := extendHash c.constructsNameHash name s.next }).setConstruct s.next
        (.fresh k type name packed)).fieldBlocks =
          fun h => if h = s.next then [] else s.types.fieldBlocks h := by
      funext h
      rw [fieldBlocks_setConstruct, fieldBlocks_setContext]
      rfl
    rw [held_eq, held_eq, blocks, dimensionBlocks_setConstruct, dimensionBlocks_setContext,
      List.flatMap_append, kept, List.perm_iff_count]
    intro block
    simp [List.count_cons]
    omega

private theorem pointer_takes (owned : Owned s.types k c) (fieldType : FieldType) :
    Takes s k c (commit s.types s.next (.pointer k fieldType)) := by
  simp only [commit, owned.here]
  refine ⟨_, ⟨setContext_self _ _ _, owned.arrays, owned.constructs⟩, ?_⟩
  rw [held_eq, held_eq, dimensionBlocks_setPointer, fieldBlocks_setPointer,
    dimensionBlocks_setContext, fieldBlocks_setContext, List.perm_iff_count]
  intro block
  simp [List.count_cons]
  omega

private theorem array_takes (bounded : Bounded s) {plan : ArrayPlan}
    (owned : Owned s.types plan.context c) :
    Takes s plan.context c (commit s.types s.next (.array plan)) := by
  simp only [commit, owned.here]
  refine ⟨{ c with arrays := c.arrays ++ [s.next] }, Owned.freeze (.mk ?_ ?_ ?_) _, ?_⟩
  · exact setContext_self _ _ _
  · intro h
    simp only [List.mem_append, List.mem_singleton, owned.arrays, setArray_arrays, setContext_arrays]
    by_cases new : h = s.next
    · subst new
      simp [ArrayPlan.array]
    · simp [new]
  · exact owned.constructs
  · have kept := flatMap_unlisted s.types.dimensionBlocks (array_unlisted bounded owned)
    have blocks : ((s.types.setContext plan.context
          { c with arrays := c.arrays ++ [s.next] }).setArray s.next plan.array).dimensionBlocks =
          fun h => if h = s.next then [] else s.types.dimensionBlocks h := by
      funext h
      rw [dimensionBlocks_setArray, dimensionBlocks_setContext]
      rfl
    rw [held_freeze, held_eq, held_eq, blocks, fieldBlocks_setArray, fieldBlocks_setContext,
      List.flatMap_append, kept, List.perm_iff_count]
    intro block
    simp [List.count_cons]
    omega

private theorem var_takes {plan : VariablePlan} (owned : Owned s.types plan.context c) :
    Takes s plan.context c (commit s.types s.next (.var plan)) := by
  have frozen := owned.freeze plan.fieldType
  simp only [commit, owned.here]
  refine ⟨_, ⟨setContext_self _ _ _, frozen.arrays, frozen.constructs⟩, ?_⟩
  rw [held_eq, held_eq, dimensionBlocks_setVariable, fieldBlocks_setVariable,
    dimensionBlocks_setContext, fieldBlocks_setContext, dimensionBlocks_freeze, fieldBlocks_freeze,
    List.perm_iff_count]
  intro block
  simp [List.count_cons]
  omega

/-- Entries of different lists are different. -/
private theorem once_listed {s : Store List} {c : Context List} (once : (s.held c).Nodup) :
    c.arrays.Nodup ∧ c.constructs.Nodup := by
  rw [held_eq] at once
  obtain ⟨_, once, _⟩ := List.nodup_append.mp once
  obtain ⟨arrays, once, _⟩ := List.nodup_append.mp once
  obtain ⟨constructs, _, _⟩ := List.nodup_append.mp once
  exact ⟨arrays, constructs⟩

private theorem dimension_takes (owned : Owned s.types k c) (once : (s.types.held c).Nodup)
    {h : Handle} {a : ArrayType List} (present : s.types.arrays h = some a) (own : a.context = k)
    (dimension : Dimension) : Takes s k c (commit s.types s.next (.dimension h dimension)) := by
  have listed : h ∈ c.arrays := (owned.arrays h).mpr ⟨a, present, own⟩
  simp only [commit, present]
  refine ⟨c, ⟨owned.here, ?_, owned.constructs⟩, ?_⟩
  · intro x
    rw [owned.arrays, setArray_arrays]
    by_cases here : x = h
    · subst here
      simp [present, ArrayType.withDimension]
    · simp [here]
  · have added : (s.types.setArray h (a.withDimension s.next dimension)).dimensionBlocks h =
        s.types.dimensionBlocks h ++ [s.next] := by
      simp [ArrayType.withDimension, Store.dimensionBlocks, present]
    have grown := flatMap_grow_perm (once_listed once).1 listed added fun x other => by
      rw [dimensionBlocks_setArray, if_neg other]
    rw [List.perm_iff_count] at grown ⊢
    intro block
    have grown := grown block
    rw [held_eq, held_eq, fieldBlocks_setArray]
    simp only [List.count_append, List.count_cons] at grown ⊢
    omega

private theorem field_takes (owned : Owned s.types k c) (once : (s.types.held c).Nodup)
    {plan : FieldPlan} {record : Construct List}
    (present : s.types.constructs plan.construct = some record) (own : record.context = k) :
    Takes s k c (commit s.types s.next (.field plan)) := by
  have listed : plan.construct ∈ c.constructs :=
    (owned.constructs plan.construct).mpr ⟨record, present, own⟩
  simp only [commit, present]
  refine ⟨c, Owned.freeze (.mk ?_ ?_ ?_) _, ?_⟩
  · exact owned.here
  · exact owned.arrays
  · intro x
    rw [owned.constructs, setConstruct_constructs]
    by_cases here : x = plan.construct
    · subst here
      simp [present, Construct.withField]
    · simp [here]
  · have added : (s.types.setConstruct plan.construct
        (record.withField s.next plan)).fieldBlocks plan.construct =
          s.types.fieldBlocks plan.construct ++ [s.next] := by
      simp [Construct.withField, FieldPlan.entry, Store.fieldBlocks, present]
    have grown := flatMap_grow_perm (once_listed once).2 listed added fun x other => by
      rw [fieldBlocks_setConstruct, if_neg other]
    rw [List.perm_iff_count] at grown ⊢
    intro block
    have grown := grown block
    rw [held_freeze, held_eq, held_eq, dimensionBlocks_setConstruct]
    simp only [List.count_append, List.count_cons] at grown ⊢
    omega

/-- Whatever is committed on a context, the context holds the new block besides those it
held. -/
theorem commit_takes (bounded : Bounded s) (owned : Owned s.types k c)
    (once : (s.types.held c).Nodup) {op : Op} {plan : Plan} (ready : Ready s.types op plan)
    (own : plan.owner s.types = some k) :
    ∃ now, Owned (commit s.types s.next plan) k now ∧
      ((commit s.types s.next plan).held now).Perm (s.next :: s.types.held c) := by
  cases ready with
  | context => cases own
  | construct present unused =>
    cases own
    exact construct_takes bounded owned _ _ _
  | field present unfrozen named unused offsets owner sized nonneg =>
    simp only [Plan.owner, present, Option.map_some, Option.some.injEq] at own
    exact field_takes owned once present own
  | pointer =>
    cases own
    exact pointer_takes owned _
  | array present sized =>
    cases own
    exact array_takes bounded owned
  | dimension present unfrozen =>
    simp only [Plan.owner, present, Option.map_some, Option.some.injEq] at own
    exact dimension_takes owned once present own _
  | var present named unused sized =>
    cases own
    exact var_takes owned

end Commits

end Mam.CopyEngine
