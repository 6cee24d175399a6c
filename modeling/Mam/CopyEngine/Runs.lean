import Mam.CopyEngine.Returned

/-! Runs of calls over what is seen of the machine, and what a committed plan does to
sizes, frozen flags and uses by value. -/

namespace Mam.CopyEngine

open Mam.Library

/-- Nothing exists at or beyond the next address. -/
structure Bounded (s : Seen) : Prop where
  contexts : ∀ h, s.next ≤ h → s.types.contexts h = none
  constructs : ∀ h, s.next ≤ h → s.types.constructs h = none
  arrays : ∀ h, s.next ≤ h → s.types.arrays h = none
  vars : ∀ h, s.next ≤ h → s.types.vars h = none

theorem initial_bounded : Bounded Machine.initial.seen := by
  constructor <;> intro h _ <;> rfl

/-- The type map that `_mam_fill_host_type_map` makes where `long` has eight bytes. -/
def lp64 : Platform :=
  { typeMap := fun i => [0, 1, 2, 3, 4, 5, 6, 7, 6, 7, 7, 6, 7, 6, 7, 6, 10, 12, 13].getD i 0 }

/-- No allocation fails. -/
def plenty : Memory := ⟨true, true, true, true⟩

/-- A struct, an array of it inside a second struct, a union with that struct as a
member, and a variable; and one call that comes too late. -/
def nestedCalls : List (Op × Memory) :=
  [(.contextCreate (some []) (some lp64) true, plenty),
   (.contextCreateConstruct .struct (some 0) (some [97]) false true, plenty),
   (.constructAddField (some 1) (some [97]) (some ⟨mappedTypeChar, 0⟩) [], plenty),
   (.constructAddField (some 1) (some [98]) (some ⟨4, 0⟩) [], plenty),
   (.contextCreateArray (some 0) (some ⟨complexTypeStruct, 1⟩) true, plenty),
   (.arrayAddDimension (some 4) (some ⟨.fixed 3, none⟩), plenty),
   (.contextCreateConstruct .struct (some 0) (some [98]) false true, plenty),
   (.constructAddField (some 6) (some [97]) (some ⟨complexTypeArray, 4⟩) [.offset 8], plenty),
   (.arrayAddDimension (some 4) (some ⟨.fixed 2, none⟩), plenty),
   (.contextCreateConstruct .union (some 0) (some [99]) false true, plenty),
   (.constructAddField (some 8) (some [97]) (some ⟨complexTypeStruct, 6⟩) [], plenty),
   (.constructAddField (some 8) (some [98]) (some ⟨13, 0⟩) [], plenty),
   (.contextCreateVariable (some 0) (some [97]) (some ⟨complexTypeUnion, 8⟩) true, plenty)]

/-- The platform of a context. -/
def Store.platform (s : Store List) (k : Handle) : Option Platform := (s.contexts k).map (·.platform)

section Uses

variable {α : Type} {s : Store List} {u : Use}

/-- Overwriting one entry adds `Q` to what some entry satisfies, if it does so there. -/
private theorem exists_update {table : Handle → Option α} {k : Handle} {x : α} {P : α → Prop}
    {Q : Prop} (here : P x ↔ (∃ old, table k = some old ∧ P old) ∨ Q) :
    (∃ h a, (if h = k then some x else table h) = some a ∧ P a) ↔
      (∃ h a, table h = some a ∧ P a) ∨ Q := by
  constructor
  · rintro ⟨h, a, present, holds⟩
    split at present
    · cases present
      rcases here.mp holds with ⟨old, was, held⟩ | new
      · exact .inl ⟨k, old, was, held⟩
      · exact .inr new
    · exact .inl ⟨h, a, present, holds⟩
  · rintro (⟨h, a, present, holds⟩ | new)
    · by_cases same : h = k
      · subst same
        exact ⟨h, x, by simp, here.mpr (.inl ⟨a, present, holds⟩)⟩
      · exact ⟨h, a, by simp [same, present], holds⟩
    · exact ⟨k, x, by simp, here.mpr (.inr new)⟩

theorem uses_iff : Uses s u ↔
    (∃ h c, s.constructs h = some c ∧ ∃ f ∈ c.fields, f.use c.context = u) ∨
      (∃ h a, s.arrays h = some a ∧ a.use = u) ∨ ∃ h v, s.vars h = some v ∧ v.use = u := by
  constructor
  · intro uses
    cases uses with
    | field present member => exact .inl ⟨_, _, present, member⟩
    | element present same => exact .inr (.inl ⟨_, _, present, same⟩)
    | var present same => exact .inr (.inr ⟨_, _, present, same⟩)
  · rintro (⟨_, _, present, member⟩ | ⟨_, _, present, same⟩ | ⟨_, _, present, same⟩)
    · exact .field present member
    · exact .element present same
    · exact .var present same

@[simp] theorem uses_setContext (h : Handle) (c : Context List) :
    Uses (s.setContext h c) u ↔ Uses s u := by simp [uses_iff]

@[simp] theorem uses_setPointer (h : Handle) (p : Pointer) :
    Uses (s.setPointer h p) u ↔ Uses s u := by simp [uses_iff]

theorem uses_setConstruct {k : Handle} {c : Construct List} {Q : Prop}
    (here : (∃ f ∈ c.fields, f.use c.context = u) ↔
      (∃ old, s.constructs k = some old ∧ ∃ f ∈ old.fields, f.use old.context = u) ∨ Q) :
    Uses (s.setConstruct k c) u ↔ Uses s u ∨ Q := by
  rw [uses_iff, uses_iff]
  simp only [setConstruct_constructs, setConstruct_arrays, setConstruct_vars,
    exists_update (P := fun c : Construct List => ∃ f ∈ c.fields, f.use c.context = u) here]
  exact or_right_comm

theorem uses_setArray {k : Handle} {a : ArrayType List} {Q : Prop}
    (here : a.use = u ↔ (∃ old, s.arrays k = some old ∧ old.use = u) ∨ Q) :
    Uses (s.setArray k a) u ↔ Uses s u ∨ Q := by
  rw [uses_iff, uses_iff]
  simp only [setArray_constructs, setArray_arrays, setArray_vars,
    exists_update (P := fun a : ArrayType List => a.use = u) here]
  rw [or_right_comm, ← or_assoc]

theorem uses_setVariable {k : Handle} {v : Variable} {Q : Prop}
    (here : v.use = u ↔ (∃ old, s.vars k = some old ∧ old.use = u) ∨ Q) :
    Uses (s.setVariable k v) u ↔ Uses s u ∨ Q := by
  rw [uses_iff, uses_iff]
  simp only [setVariable_constructs, setVariable_arrays, setVariable_vars,
    exists_update (P := fun v : Variable => v.use = u) here]
  simp only [or_assoc]

@[simp] theorem uses_freezeFieldType (fieldType : FieldType) :
    Uses (freezeFieldType s fieldType) u ↔ Uses s u := by
  have constructs (h : Handle) : (∃ c, (freezeFieldType s fieldType).constructs h = some c ∧
      ∃ f ∈ c.fields, f.use c.context = u) ↔
      ∃ c, s.constructs h = some c ∧ ∃ f ∈ c.fields, f.use c.context = u := by
    rw [freezeFieldType_constructs]
    cases s.constructs h with
    | none => simp
    | some c => by_cases frozen : fieldType.node = some (.construct h) <;> simp [frozen]
  have arrays (h : Handle) : (∃ a, (freezeFieldType s fieldType).arrays h = some a ∧ a.use = u) ↔
      ∃ a, s.arrays h = some a ∧ a.use = u := by
    rw [freezeFieldType_arrays]
    cases s.arrays h with
    | none => simp
    | some a => by_cases frozen : fieldType.node = some (.array h) <;> simp [frozen, ArrayType.use]
  rw [uses_iff, uses_iff]
  simp only [constructs, arrays, freezeFieldType_vars]

/-- The use that a plan makes when it is committed. -/
def Plan.use (s : Store List) : Plan → Option Use
  | .field plan => (s.constructs plan.construct).map fun record =>
      ⟨record.context, plan.fieldType, plan.size, none⟩
  | .array plan => some plan.array.use
  | .var plan => some plan.var.use
  | _ => none

/-- A committed plan makes its own use and leaves all others. -/
theorem commit_uses {s : Seen} {op : Op} {plan : Plan} (bounded : Bounded s)
    (ready : Ready s.types op plan) {u : Use} :
    Uses (commit s.types s.next plan) u ↔ Uses s.types u ∨ plan.use s.types = some u := by
  have construct := bounded.constructs s.next (Nat.le_refl _)
  have array := bounded.arrays s.next (Nat.le_refl _)
  have var := bounded.vars s.next (Nat.le_refl _)
  cases ready with
  | context => simp [commit, Plan.use]
  | construct present unused =>
    simp only [commit, present, Plan.use]
    rw [uses_setConstruct (Q := False) (by simp [Construct.fresh, construct])]
    simp
  | @field plan options record context present unfrozen named unused offsets owner sized nonneg =>
    simp only [commit, present, Plan.use, uses_freezeFieldType]
    refine uses_setConstruct ?_
    simp only [Construct.withField, List.mem_append, List.mem_singleton, present,
      Option.some.injEq, Option.map_some]
    constructor
    · rintro ⟨f, old | rfl, same⟩
      · exact .inl ⟨record, rfl, f, old, same⟩
      · exact .inr same
    · rintro (⟨_, rfl, f, old, same⟩ | same)
      · exact ⟨f, .inl old, same⟩
      · exact ⟨_, .inr rfl, same⟩
  | pointer =>
    simp only [commit, Plan.use]
    split <;> simp
  | @array plan record present sized =>
    simp only [commit, present, Plan.use, uses_freezeFieldType]
    rw [uses_setArray (Q := plan.array.use = u) (by simp [array])]
    simp
  | dimension present unfrozen =>
    simp only [commit, present, Plan.use]
    rw [uses_setArray (Q := False) (by simp [present, ArrayType.use, ArrayType.withDimension])]
    simp
  | @var plan record present named unused sized =>
    simp only [commit, present, Plan.use]
    rw [uses_setVariable (Q := plan.var.use = u) (by simp [var])]
    simp

end Uses

section Objects

variable {s : Store List}

@[simp] theorem sizeAlign_setContext (k : Handle) (c : Context List) (n : Node) :
    (s.setContext k c).sizeAlign n = s.sizeAlign n := by cases n <;> rfl

@[simp] theorem sizeAlign_setPointer (k : Handle) (p : Pointer) (n : Node) :
    (s.setPointer k p).sizeAlign n = s.sizeAlign n := by cases n <;> rfl

@[simp] theorem sizeAlign_setVariable (k : Handle) (v : Variable) (n : Node) :
    (s.setVariable k v).sizeAlign n = s.sizeAlign n := by cases n <;> rfl

theorem sizeAlign_setConstruct (k : Handle) (c : Construct List) (n : Node) :
    (s.setConstruct k c).sizeAlign n =
      if n = .construct k then some (c.totalSize, c.alignment) else s.sizeAlign n := by
  cases n with
  | construct h => by_cases same : h = k <;> simp [Store.sizeAlign, same]
  | array h => simp [Store.sizeAlign]

theorem sizeAlign_setArray (k : Handle) (a : ArrayType List) (n : Node) :
    (s.setArray k a).sizeAlign n =
      if n = .array k then some (a.totalSize, a.alignment) else s.sizeAlign n := by
  cases n with
  | construct h => simp [Store.sizeAlign]
  | array h => by_cases same : h = k <;> simp [Store.sizeAlign, same]

@[simp] theorem frozen_setContext (k : Handle) (c : Context List) (n : Node) :
    (s.setContext k c).frozen n = s.frozen n := by cases n <;> rfl

@[simp] theorem frozen_setPointer (k : Handle) (p : Pointer) (n : Node) :
    (s.setPointer k p).frozen n = s.frozen n := by cases n <;> rfl

@[simp] theorem frozen_setVariable (k : Handle) (v : Variable) (n : Node) :
    (s.setVariable k v).frozen n = s.frozen n := by cases n <;> rfl

theorem frozen_setConstruct (k : Handle) (c : Construct List) (n : Node) :
    (s.setConstruct k c).frozen n = if n = .construct k then c.frozen else s.frozen n := by
  cases n with
  | construct h => by_cases same : h = k <;> simp [Store.frozen, same]
  | array h => simp [Store.frozen]

theorem frozen_setArray (k : Handle) (a : ArrayType List) (n : Node) :
    (s.setArray k a).frozen n = if n = .array k then a.frozen else s.frozen n := by
  cases n with
  | construct h => simp [Store.frozen]
  | array h => by_cases same : h = k <;> simp [Store.frozen, same]

/-- The object that a plan creates or extends. -/
def Plan.target (h : Handle) : Plan → Option Node
  | .construct _ _ _ _ => some (.construct h)
  | .field plan => some (.construct plan.construct)
  | .array _ => some (.array h)
  | .dimension owner _ => some (.array owner)
  | _ => none

/-- Only the size and alignment of the object extended change. -/
theorem commit_sizeAlign {s : Store List} {h : Handle} {op : Op} {plan : Plan}
    (ready : Ready s op plan) {n : Node} (other : plan.target h ≠ some n) :
    (commit s h plan).sizeAlign n = s.sizeAlign n := by
  cases ready with
  | context => simp [commit]
  | construct present unused =>
    simp only [commit, present, sizeAlign_setConstruct, sizeAlign_setContext]
    rw [if_neg fun same => other (by rw [same]; rfl)]
  | field present unfrozen named unused offsets owner sized nonneg =>
    simp only [commit, present, freezeFieldType_sizeAlign, sizeAlign_setConstruct]
    rw [if_neg fun same => other (by rw [same]; rfl)]
  | pointer =>
    simp only [commit]
    split <;> simp
  | array present sized =>
    simp only [commit, present, freezeFieldType_sizeAlign, sizeAlign_setArray, sizeAlign_setContext]
    rw [if_neg fun same => other (by rw [same]; rfl)]
  | dimension present unfrozen =>
    simp only [commit, present, sizeAlign_setArray]
    rw [if_neg fun same => other (by rw [same]; rfl)]
  | var present named unused sized => simp [commit, present]

/-- The tags of constructs and arrays are not mapped. -/
theorem resolved_of_node {fieldType : FieldType} {n : Node} (designates : fieldType.node = some n)
    (platform : Platform) : fieldType.resolved platform = some n := by
  have unmapped : platform.mapTag fieldType.type = fieldType.type := by
    have complex : fieldType.type = complexTypeStruct ∨ fieldType.type = complexTypeUnion ∨
        fieldType.type = complexTypeArray := by
      unfold FieldType.node designated at designates
      by_contra other
      push Not at other
      simp [other] at designates
    unfold Platform.mapTag
    rw [dif_neg]
    simp only [complexTypeStruct, complexTypeUnion, complexTypeArray, mappedTypeChar] at complex ⊢
    omega
  rw [FieldType.resolved, unmapped]
  exact designates

/-- A type with a size designates an object that exists. -/
theorem exists_of_sized {s : Store List} {platform : Platform} {fieldType : FieldType}
    {sizeAlign : SizeT × SizeT} (sized : getFieldTypeSizeAlign s platform fieldType = .ok sizeAlign)
    {n : Node} (designates : fieldType.node = some n) : s.sizeAlign n = some sizeAlign :=
  (getFieldTypeSizeAlign_of_resolved (resolved_of_node designates platform)).mp sized

/-- A committed plan freezes the object it uses by value, and no other. -/
theorem commit_frozen {s : Seen} {op : Op} {plan : Plan} (bounded : Bounded s)
    (ready : Ready s.types op plan) (n : Node) :
    (commit s.types s.next plan).frozen n = true ↔
      s.types.frozen n = true ∨ ∃ u, plan.use s.types = some u ∧ u.fieldType.node = some n := by
  have construct := bounded.constructs s.next (Nat.le_refl _)
  have array := bounded.arrays s.next (Nat.le_refl _)
  cases ready with
  | context => simp [commit, Plan.use]
  | construct present unused =>
    simp only [commit, present, frozen_setConstruct, frozen_setContext, Plan.use]
    by_cases here : n = .construct s.next
    · subst here
      simp [Construct.fresh, Store.frozen, construct]
    · simp [here]
  | @field plan options record context present unfrozen named unused offsets owner sized nonneg =>
    simp only [commit, present, freezeFieldType_frozen, frozen_setConstruct, sizeAlign_setConstruct,
      Plan.use, Option.map_some, Option.some.injEq, exists_eq_left']
    have exist : plan.fieldType.node = some n → (s.types.sizeAlign n).isSome = true := by
      intro designates
      rw [exists_of_sized sized designates]
      rfl
    by_cases here : n = .construct plan.construct
    · subst here
      simp [Construct.withField, Store.frozen, present]
    · simp only [here, if_false]
      exact or_congr_right ⟨fun both => both.1, fun designates => ⟨designates, exist designates⟩⟩
  | pointer =>
    simp only [commit, Plan.use]
    split <;> simp
  | @array plan record present sized =>
    simp only [commit, present, freezeFieldType_frozen, frozen_setArray, frozen_setContext,
      sizeAlign_setArray, sizeAlign_setContext, Plan.use, Option.some.injEq, exists_eq_left',
      ArrayType.use]
    have exist : plan.fieldType.node = some n → (s.types.sizeAlign n).isSome = true := by
      intro designates
      rw [exists_of_sized sized designates]
      rfl
    by_cases here : n = .array s.next
    · subst here
      simp [ArrayPlan.array, Store.frozen, array]
    · simp only [here, if_false]
      exact or_congr_right ⟨fun both => both.1, fun designates => ⟨designates, exist designates⟩⟩
  | @dimension array dimension record present unfrozen =>
    simp only [commit, present, frozen_setArray, Plan.use]
    by_cases here : n = .array array
    · subst here
      simp [ArrayType.withDimension, Store.frozen, present]
    · simp [here]
  | @var plan record present named unused sized =>
    simp only [commit, present, frozen_setVariable, frozen_setContext, freezeFieldType_frozen,
      Plan.use, Option.some.injEq, exists_eq_left', Variable.use]
    refine or_congr_right ⟨fun both => both.1, fun designates => ⟨designates, ?_⟩⟩
    rw [exists_of_sized sized designates]
    rfl

/-- A record that keeps its platform changes no platform. -/
theorem platform_setContext {owner : Handle} {record changed : Context List}
    (present : s.contexts owner = some record) (same : changed.platform = record.platform) :
    (s.setContext owner changed).platform = s.platform := by
  funext k
  unfold Store.platform
  rw [setContext_contexts]
  split
  · rename_i here
    rw [here, present]
    exact congrArg some same
  · rfl

@[simp] theorem platform_setConstruct (k : Handle) (c : Construct List) :
    (s.setConstruct k c).platform = s.platform := rfl

@[simp] theorem platform_setArray (k : Handle) (a : ArrayType List) :
    (s.setArray k a).platform = s.platform := rfl

@[simp] theorem platform_setPointer (k : Handle) (p : Pointer) :
    (s.setPointer k p).platform = s.platform := rfl

@[simp] theorem platform_setVariable (k : Handle) (v : Variable) :
    (s.setVariable k v).platform = s.platform := rfl

@[simp] theorem platform_freezeFieldType (fieldType : FieldType) :
    (freezeFieldType s fieldType).platform = s.platform := by
  funext k
  simp only [Store.platform, freezeFieldType_contexts]

/-- Only the creation of a context adds a platform. -/
theorem commit_platform_eq {h : Handle} {op : Op} {plan : Plan} (ready : Ready s op plan) :
    (commit s h plan).platform =
      match plan with
      | .context _ platform => Function.update s.platform h (some platform)
      | _ => s.platform := by
  cases ready with
  | context =>
    funext k
    simp only [commit, Store.platform, setContext_contexts, Function.update_apply]
    split <;> rfl
  | construct present unused =>
    simp only [commit, present, platform_setConstruct]
    exact platform_setContext present rfl
  | field present unfrozen named unused offsets owner sized nonneg =>
    simp only [commit, present, platform_freezeFieldType, platform_setConstruct]
  | @pointer owner fieldType =>
    simp only [commit]
    cases present : s.contexts owner with
    | none => rfl
    | some record => exact platform_setContext present rfl
  | array present sized =>
    simp only [commit, present, platform_freezeFieldType, platform_setArray]
    exact platform_setContext present rfl
  | dimension present unfrozen => simp only [commit, present, platform_setArray]
  | @var plan record present named unused sized =>
    simp only [commit, present, platform_setVariable]
    have there : (freezeFieldType s plan.fieldType).contexts plan.context = some record := by
      rw [freezeFieldType_contexts, present]
    rw [platform_setContext there, platform_freezeFieldType]
    rfl

/-- Contexts keep their platforms. -/
theorem commit_platform {s : Seen} {op : Op} {plan : Plan} (bounded : Bounded s)
    (ready : Ready s.types op plan) {k : Handle} {platform : Platform}
    (here : s.types.platform k = some platform) :
    (commit s.types s.next plan).platform k = some platform := by
  rw [commit_platform_eq ready]
  split
  · rw [Function.update_of_ne, here]
    rintro rfl
    rw [Store.platform, bounded.contexts s.next (Nat.le_refl _)] at here
    cases here
  · exact here

theorem Change.platform_kept {s next : Seen} {call : Call} (change : Change s call next)
    (bounded : Bounded s) {k : Handle} {platform : Platform} (here : s.types.platform k = some platform) :
    next.types.platform k = some platform := by
  cases change with
  | idle failed same later => rwa [same]
  | frozen ready failed same later => rwa [same, platform_freezeFieldType]
  | committed ready code same taken =>
    rw [same]
    exact commit_platform bounded ready here

theorem freezeFieldType_bounded {s : Seen} {next : Handle} (bounded : Bounded s)
    (later : s.next ≤ next) (fieldType : FieldType) :
    Bounded { next := next, types := freezeFieldType s.types fieldType } := by
  refine ⟨?_, ?_, ?_, ?_⟩ <;> intro k beyond
  · rw [freezeFieldType_contexts]
    exact bounded.contexts k (Nat.le_trans later beyond)
  · rw [freezeFieldType_constructs, bounded.constructs k (Nat.le_trans later beyond)]
    rfl
  · rw [freezeFieldType_arrays, bounded.arrays k (Nat.le_trans later beyond)]
    rfl
  · rw [freezeFieldType_vars]
    exact bounded.vars k (Nat.le_trans later beyond)

/-- A committed plan creates objects at the next address only. -/
theorem commit_bounded {s : Seen} {op : Op} {plan : Plan} (bounded : Bounded s)
    (ready : Ready s.types op plan) :
    Bounded { next := s.next + 1, types := commit s.types s.next plan } := by
  have outside {α : Type} {table : Handle → Option α} {k owner : Handle} {x : α}
      (there : table owner = some x) (none : table k = none) : k ≠ owner := by
    rintro rfl
    rw [there] at none
    cases none
  have beyond (k : Handle) (later : s.next + 1 ≤ k) : k ≠ s.next ∧ s.types.contexts k = none ∧
      s.types.constructs k = none ∧ s.types.arrays k = none ∧ s.types.vars k = none :=
    have after : s.next ≤ k := Nat.le_of_succ_le later
    ⟨Nat.ne_of_gt later, bounded.contexts k after, bounded.constructs k after,
      bounded.arrays k after, bounded.vars k after⟩
  cases ready with
  | context =>
    refine ⟨?_, ?_, ?_, ?_⟩ <;> intro k later <;>
      obtain ⟨other, contexts, constructs, arrays, vars⟩ := beyond k later <;>
      simp [commit, other, contexts, constructs, arrays, vars]
  | construct present unused =>
    refine ⟨?_, ?_, ?_, ?_⟩ <;> intro k later <;>
      obtain ⟨other, contexts, constructs, arrays, vars⟩ := beyond k later <;>
      simp [commit, present, outside present contexts, other, contexts, constructs, arrays, vars]
  | field present unfrozen named unused offsets owner sized nonneg =>
    refine ⟨?_, ?_, ?_, ?_⟩ <;> intro k later <;>
      obtain ⟨other, contexts, constructs, arrays, vars⟩ := beyond k later <;>
      simp [commit, present, outside present constructs, freezeFieldType_contexts,
        freezeFieldType_constructs, freezeFieldType_arrays, contexts, constructs, arrays, vars]
  | @pointer owner fieldType =>
    cases present : s.types.contexts owner with
    | none =>
      refine ⟨?_, ?_, ?_, ?_⟩ <;> intro k later <;>
        obtain ⟨other, contexts, constructs, arrays, vars⟩ := beyond k later <;>
        simp [commit, present, contexts, constructs, arrays, vars]
    | some record =>
      refine ⟨?_, ?_, ?_, ?_⟩ <;> intro k later <;>
        obtain ⟨other, contexts, constructs, arrays, vars⟩ := beyond k later <;>
        simp [commit, present, outside present contexts, contexts, constructs, arrays, vars]
  | array present sized =>
    refine ⟨?_, ?_, ?_, ?_⟩ <;> intro k later <;>
      obtain ⟨other, contexts, constructs, arrays, vars⟩ := beyond k later <;>
      simp [commit, present, outside present contexts, freezeFieldType_contexts,
        freezeFieldType_constructs, freezeFieldType_arrays, other, contexts, constructs, arrays, vars]
  | dimension present unfrozen =>
    refine ⟨?_, ?_, ?_, ?_⟩ <;> intro k later <;>
      obtain ⟨other, contexts, constructs, arrays, vars⟩ := beyond k later <;>
      simp [commit, present, outside present arrays, contexts, constructs, arrays, vars]
  | var present named unused sized =>
    refine ⟨?_, ?_, ?_, ?_⟩ <;> intro k later <;>
      obtain ⟨other, contexts, constructs, arrays, vars⟩ := beyond k later <;>
      simp [commit, present, outside present contexts, freezeFieldType_contexts,
        freezeFieldType_constructs, freezeFieldType_arrays, other, contexts, constructs, arrays, vars]

theorem Change.bounded {s next : Seen} {call : Call} (bounded : Bounded s)
    (change : Change s call next) : Bounded next := by
  obtain ⟨address, types⟩ := next
  cases change with
  | idle failed same later =>
    cases same
    exact ⟨fun k beyond => bounded.contexts k (Nat.le_trans later beyond),
      fun k beyond => bounded.constructs k (Nat.le_trans later beyond),
      fun k beyond => bounded.arrays k (Nat.le_trans later beyond),
      fun k beyond => bounded.vars k (Nat.le_trans later beyond)⟩
  | frozen ready failed same later =>
    cases same
    exact freezeFieldType_bounded bounded later _
  | committed ready code same taken =>
    cases same
    cases taken
    exact commit_bounded bounded ready

end Objects

end Mam.CopyEngine
