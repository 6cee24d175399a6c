import Mam.Library.Named
import Mam.CopyEngine.Getters
import Mam.CopyEngine.Lengths
import Mam.CopyEngine.Runs

/-! Objects by index and by name. -/

namespace Mam.CopyEngine

open Mam.Library Mam.Vendor

section Catalogs

/-- The three kinds of lists that a name table stands beside. -/
inductive Directory where
  | constructs (context : Handle)
  | vars (context : Handle)
  | fields (construct : Handle)
deriving DecidableEq, Repr

/-- The list that a call adds to, and the name it adds. -/
def Op.adds : Op → Option (Directory × CString)
  | .contextCreateConstruct _ (some context) (some name) _ _ => some (.constructs context, name)
  | .constructAddField (some construct) (some name) _ _ => some (.fields construct, name)
  | .contextCreateVariable (some context) (some name) _ _ => some (.vars context, name)
  | _ => none

/-- An object of a list, with its name, and what is told of it if it is a field. -/
structure Listed where
  name : Option CString
  self : Handle
  info : Option FieldInfo

/-- What a list holds, and the table beside it. -/
structure Catalog where
  listed : List Listed
  table : List (CString × Handle)

def Catalog.empty : Catalog := { listed := [], table := [] }

/-- The catalog with one more object, listed and in the table. -/
def Catalog.add (c : Catalog) (name : CString) (h : Handle) (info : Option FieldInfo) : Catalog :=
  { listed := c.listed ++ [⟨some name, h, info⟩], table := c.table ++ [(name, h)] }

def Store.constructName (s : Store List) (h : Handle) : Option CString :=
  (s.constructs h).map (·.name)

def Store.varName (s : Store List) (h : Handle) : Option CString := (s.vars h).map (·.name)

/-- Objects under the names that `nameOf` gives them, beside a table. -/
def Catalog.ofNames (nameOf : Handle → Option CString) (objects : List Handle)
    (table : UTHash Handle) : Catalog :=
  { listed := objects.map fun h => ⟨nameOf h, h, none⟩, table := table.entries }

def Construct.catalog (c : Construct List) : Catalog :=
  { listed := c.fields.map fun f => ⟨some f.name, f.self, some f.info⟩
    table := c.fieldsNameHash.entries }

def Store.catalog (s : Store List) : Directory → Option Catalog
  | .constructs k => (s.contexts k).map fun c =>
      .ofNames s.constructName c.constructs c.constructsNameHash
  | .vars k => (s.contexts k).map fun c => .ofNames s.varName c.vars c.variablesNameHash
  | .fields k => (s.constructs k).map Construct.catalog

theorem catalog_constructs {s : Store List} {k : Handle} {record : Context List}
    (present : s.contexts k = some record) : s.catalog (.constructs k) =
      some (.ofNames s.constructName record.constructs record.constructsNameHash) := by
  rw [Store.catalog, present]
  rfl

theorem catalog_vars {s : Store List} {k : Handle} {record : Context List}
    (present : s.contexts k = some record) : s.catalog (.vars k) =
      some (.ofNames s.varName record.vars record.variablesNameHash) := by
  rw [Store.catalog, present]
  rfl

theorem catalog_fields {s : Store List} {h : Handle} {record : Construct List}
    (present : s.constructs h = some record) : s.catalog (.fields h) = some record.catalog := by
  rw [Store.catalog, present]
  rfl

/-- The table holds what is listed, under names that are distinct unless empty, in the
order of creation. -/
structure Catalog.InStep (c : Catalog) (next : Handle) : Prop where
  same : c.listed.map (fun l => (l.name, l.self)) = c.table.map fun entry => (some entry.1, entry.2)
  distinct : NamesDistinct [] c.table
  increasing : c.table.Pairwise fun first second => first.2 < second.2
  older : ∀ entry ∈ c.table, entry.2 < next

theorem Catalog.empty_inStep (next : Handle) : Catalog.empty.InStep next :=
  ⟨rfl, .nil [], .nil, fun _ member => nomatch member⟩

theorem Catalog.InStep.later {c : Catalog} {next after : Handle} (inStep : c.InStep next)
    (later : next ≤ after) : c.InStep after :=
  ⟨inStep.same, inStep.distinct, inStep.increasing,
    fun entry member => Nat.lt_of_lt_of_le (inStep.older entry member) later⟩

theorem Catalog.InStep.add {c : Catalog} {next : Handle} (inStep : c.InStep next) {name : CString}
    (unused : name ≠ [] → c.table.lookup name = none) (info : Option FieldInfo) :
    (c.add name next info).InStep (next + 1) := by
  refine ⟨?_, inStep.distinct.snoc unused next, ?_, ?_⟩
  · simp [Catalog.add, inStep.same]
  · refine List.pairwise_append.mpr ⟨inStep.increasing, List.pairwise_singleton _ _, ?_⟩
    intro entry member added new
    obtain rfl := List.mem_singleton.mp new
    exact inStep.older entry member
  · intro entry member
    rcases List.mem_append.mp member with old | new
    · exact Nat.lt_succ_of_lt (inStep.older entry old)
    · obtain rfl := List.mem_singleton.mp new
      exact Nat.lt_succ_self next

/-- Nothing listed is as new as the next object. -/
theorem Catalog.InStep.listed_ne {c : Catalog} {next : Handle} (inStep : c.InStep next)
    {l : Listed} (member : l ∈ c.listed) : l.self ≠ next := by
  have listed : (l.name, l.self) ∈ c.listed.map fun l => (l.name, l.self) :=
    List.mem_map_of_mem member
  rw [inStep.same] at listed
  obtain ⟨entry, present, same⟩ := List.mem_map.mp listed
  have self : entry.2 = l.self := congrArg Prod.snd same
  exact self ▸ Nat.ne_of_lt (inStep.older entry present)

variable {before after : Handle → Option CString} {objects : List Handle} {table : UTHash Handle}
variable {next : Handle}

/-- The name of a new object makes no difference where it is not listed. -/
theorem Catalog.ofNames_older (inStep : (Catalog.ofNames before objects table).InStep next)
    (same : ∀ h, h ≠ next → after h = before h) :
    Catalog.ofNames after objects table = Catalog.ofNames before objects table := by
  unfold Catalog.ofNames
  congr 1
  apply List.map_congr_left
  intro h member
  rw [same h (inStep.listed_ne (l := ⟨before h, h, none⟩) (List.mem_map_of_mem member))]

/-- A new object is listed under its name. -/
theorem Catalog.ofNames_add (inStep : (Catalog.ofNames before objects table).InStep next)
    {name : CString} (same : ∀ h, h ≠ next → after h = before h) (named : after next = some name) :
    Catalog.ofNames after (objects ++ [next]) (extendHash table name next) =
      (Catalog.ofNames before objects table).add name next none := by
  rw [← Catalog.ofNames_older inStep same]
  simp [Catalog.ofNames, Catalog.add, extendHash, named]

end Catalogs

section Changes

variable {s : Store List}

theorem constructName_freeze (fieldType : FieldType) (h : Handle) :
    (freezeFieldType s fieldType).constructName h = s.constructName h := by
  rw [Store.constructName, freezeFieldType_constructs, Option.map_map, Store.constructName]
  congr 1
  funext c
  simp only [Function.comp_apply]
  split <;> rfl

@[simp] theorem catalog_freeze (fieldType : FieldType) (d : Directory) :
    (freezeFieldType s fieldType).catalog d = s.catalog d := by
  cases d with
  | constructs k =>
    have names : (freezeFieldType s fieldType).constructName = s.constructName :=
      funext (constructName_freeze fieldType)
    simp only [Store.catalog, freezeFieldType_contexts, names]
  | vars k =>
    have names : (freezeFieldType s fieldType).varName = s.varName := by
      funext h
      rw [Store.varName, freezeFieldType_vars, Store.varName]
    simp only [Store.catalog, freezeFieldType_contexts, names]
  | fields k =>
    simp only [Store.catalog, freezeFieldType_constructs, Option.map_map]
    congr 1
    funext c
    simp only [Function.comp_apply]
    split <;> rfl

/-- Where a catalog found after a call comes from. -/
inductive CatalogChange (s : Seen) (call : Call) (d : Directory) (after : Store List) : Prop where
  | kept (same : after.catalog d = s.types.catalog d)
      (elsewhere : call.code = .success → ∀ name, call.op.adds ≠ some (d, name))
  | opened (code : call.code = .success) (absent : s.types.catalog d = none)
      (fresh : after.catalog d = some .empty) (elsewhere : ∀ name, call.op.adds ≠ some (d, name))
  | extended {c : Catalog} (name : CString) (info : Option FieldInfo) (code : call.code = .success)
      (adds : call.op.adds = some (d, name)) (present : s.types.catalog d = some c)
      (unused : name ≠ [] → c.table.lookup name = none)
      (more : after.catalog d = some (c.add name s.next info))

@[simp] theorem constructName_setConstruct (k : Handle) (c : Construct List) (h : Handle) :
    (s.setConstruct k c).constructName h = if h = k then some c.name else s.constructName h := by
  simp only [Store.constructName, setConstruct_constructs]
  split <;> rfl

@[simp] theorem constructName_setContext (k : Handle) (c : Context List) :
    (s.setContext k c).constructName = s.constructName := rfl

@[simp] theorem constructName_setVariable (k : Handle) (v : Variable) :
    (s.setVariable k v).constructName = s.constructName := rfl

@[simp] theorem varName_setVariable (k : Handle) (v : Variable) (h : Handle) :
    (s.setVariable k v).varName h = if h = k then some v.name else s.varName h := by
  simp only [Store.varName, setVariable_vars]
  split <;> rfl

@[simp] theorem catalog_setPointer (h : Handle) (p : Pointer) (d : Directory) :
    (s.setPointer h p).catalog d = s.catalog d := by cases d <;> rfl

@[simp] theorem catalog_setArray (h : Handle) (a : ArrayType List) (d : Directory) :
    (s.setArray h a).catalog d = s.catalog d := by cases d <;> rfl

/-- A context that keeps its lists and tables changes no catalog. -/
theorem catalog_setContext_same {owner : Handle} {record changed : Context List}
    (present : s.contexts owner = some record) (constructs : changed.constructs = record.constructs)
    (vars : changed.vars = record.vars)
    (constructTable : changed.constructsNameHash = record.constructsNameHash)
    (varTable : changed.variablesNameHash = record.variablesNameHash) (d : Directory) :
    (s.setContext owner changed).catalog d = s.catalog d := by
  cases d with
  | constructs k =>
    simp only [Store.catalog, setContext_contexts]
    split
    · rename_i here
      rw [here, present, Option.map_some, Option.map_some, constructs, constructTable]
      rfl
    · rfl
  | vars k =>
    simp only [Store.catalog, setContext_contexts]
    split
    · rename_i here
      rw [here, present, Option.map_some, Option.map_some, vars, varTable]
      rfl
    · rfl
  | fields k => rfl

variable {s : Seen} {call : Call}

private theorem elsewhere_of_none {op : Op} (none : op.adds = none) (d : Directory) (name : CString) :
    op.adds ≠ some (d, name) := by
  intro adds
  rw [none] at adds
  cases adds

private theorem elsewhere_of_other {op : Op} {d there : Directory} {other : CString}
    (adds : op.adds = some (there, other)) (apart : d ≠ there) (name : CString) :
    op.adds ≠ some (d, name) := by
  intro here
  rw [adds] at here
  cases here
  exact apart rfl

/-- A call that adds to no list leaves the catalog it keeps. -/
private theorem kept_of_none {d : Directory} {after : Store List} (none : call.op.adds = none)
    (same : after.catalog d = s.types.catalog d) : CatalogChange s call d after :=
  .kept same fun _ => elsewhere_of_none none d

/-- A call that adds to one list leaves the others as they are. -/
private theorem kept_of_other {d there : Directory} {name : CString} {after : Store List}
    (adds : call.op.adds = some (there, name)) (other : d ≠ there)
    (same : after.catalog d = s.types.catalog d) : CatalogChange s call d after :=
  .kept same fun _ => elsewhere_of_other adds other

/-- All catalogs are in step. -/
def Seen.InStep (s : Seen) : Prop := ∀ d c, s.types.catalog d = some c → c.InStep s.next

private theorem context_catalog (bounded : Bounded s) {name : CString} {platform : Platform}
    (adds : call.op.adds = none) (code : call.code = .success) (d : Directory) :
    CatalogChange s call d (commit s.types s.next (.context name platform)) := by
  have absent := bounded.contexts s.next (Nat.le_refl _)
  cases d with
  | constructs k =>
    by_cases here : k = s.next
    · subst here
      refine .opened code (by simp [Store.catalog, absent]) ?_ (elsewhere_of_none adds _)
      simp only [commit, Store.catalog, setContext_self, Option.map_some]
      rfl
    · refine kept_of_none adds ?_
      simp only [commit, Store.catalog, setContext_contexts, if_neg here]
      rfl
  | vars k =>
    by_cases here : k = s.next
    · subst here
      refine .opened code (by simp [Store.catalog, absent]) ?_ (elsewhere_of_none adds _)
      simp only [commit, Store.catalog, setContext_self, Option.map_some]
      rfl
    · refine kept_of_none adds ?_
      simp only [commit, Store.catalog, setContext_contexts, if_neg here]
      rfl
  | fields k => exact kept_of_none adds rfl

private theorem construct_catalog (bounded : Bounded s) (inStep : s.InStep) {type : ConstructType}
    {owner : Handle} {name : CString} {packed : Bool} {record : Context List}
    (present : s.types.contexts owner = some record)
    (unused : name ≠ [] → record.constructsNameHash.find name = none)
    (adds : call.op.adds = some (.constructs owner, name)) (code : call.code = .success)
    (d : Directory) :
    CatalogChange s call d (commit s.types s.next (.construct type owner name packed)) := by
  have absent := bounded.constructs s.next (Nat.le_refl _)
  have renamed (t : Store List) (same : t.constructs = s.types.constructs) (h : Handle) :
      (t.setConstruct s.next (.fresh owner type name packed)).constructName h =
        if h = s.next then some name else s.types.constructName h := by
    rw [constructName_setConstruct, Store.constructName, same]
    rfl
  simp only [commit, present]
  cases d with
  | constructs k =>
    by_cases here : k = owner
    · subst here
      have before := catalog_constructs present
      refine .extended name none code adds before unused ?_
      simp only [Store.catalog, setConstruct_contexts, setContext_self, Option.map_some]
      rw [Catalog.ofNames_add (inStep _ _ before)]
      · exact fun h other => (renamed _ rfl h).trans (if_neg other)
      · exact (renamed _ rfl _).trans (if_pos rfl)
    · refine kept_of_other adds (fun same => here (Directory.constructs.inj same)) ?_
      simp only [Store.catalog, setConstruct_contexts, setContext_contexts, if_neg here]
      cases there : s.types.contexts k with
      | none => rfl
      | some c =>
        have before := catalog_constructs there
        rw [Option.map_some, Option.map_some, Catalog.ofNames_older (inStep _ _ before)]
        exact fun h other => (renamed _ rfl h).trans (if_neg other)
  | vars k =>
    refine kept_of_other adds (by simp) ?_
    simp only [Store.catalog, setConstruct_contexts, setContext_contexts]
    split
    · rename_i here
      rw [here, present]
      rfl
    · rfl
  | fields k =>
    by_cases here : k = s.next
    · subst here
      refine .opened code (by simp [Store.catalog, absent]) ?_ (elsewhere_of_other adds (by simp))
      simp only [Store.catalog, setConstruct_self, Option.map_some]
      rfl
    · exact kept_of_other adds (by simp) (by simp [Store.catalog, here])

private theorem field_catalog {plan : FieldPlan} {record : Construct List}
    (present : s.types.constructs plan.construct = some record)
    (unused : record.fieldsNameHash.find plan.name = none)
    (adds : call.op.adds = some (.fields plan.construct, plan.name)) (code : call.code = .success)
    (d : Directory) : CatalogChange s call d (commit s.types s.next (.field plan)) := by
  simp only [commit, present]
  cases d with
  | constructs k =>
    refine kept_of_other adds (by simp) ?_
    have names : (s.types.setConstruct plan.construct
        (record.withField s.next plan)).constructName = s.types.constructName := by
      funext h
      rw [constructName_setConstruct]
      split
      · rename_i here
        rw [here, Store.constructName, present]
        rfl
      · rfl
    rw [catalog_freeze]
    simp only [Store.catalog, setConstruct_contexts, names]
  | vars k => exact kept_of_other adds (by simp) (catalog_freeze _ _)
  | fields k =>
    by_cases here : k = plan.construct
    · subst here
      have before := catalog_fields present
      refine .extended plan.name (some (plan.entry record s.next).info) code adds before
        (fun _ => unused) ?_
      rw [catalog_freeze]
      simp only [Store.catalog, setConstruct_self, Option.map_some]
      simp [Construct.catalog, Construct.withField, FieldPlan.entry, Catalog.add, extendHash]
    · refine kept_of_other adds (fun same => here (Directory.fields.inj same)) ?_
      rw [catalog_freeze]
      simp [Store.catalog, here]

private theorem var_catalog (inStep : s.InStep) {plan : VariablePlan} {record : Context List}
    (present : s.types.contexts plan.context = some record)
    (unused : record.variablesNameHash.find plan.name = none)
    (adds : call.op.adds = some (.vars plan.context, plan.name)) (code : call.code = .success)
    (d : Directory) : CatalogChange s call d (commit s.types s.next (.var plan)) := by
  have renamed (t : Store List) (same : t.vars = s.types.vars) (h : Handle) :
      (t.setVariable s.next plan.var).varName h =
        if h = s.next then some plan.name else s.types.varName h := by
    rw [varName_setVariable, Store.varName, same]
    rfl
  simp only [commit, present]
  cases d with
  | constructs k =>
    refine kept_of_other adds (by simp) ?_
    have names : (freezeFieldType s.types plan.fieldType).constructName = s.types.constructName :=
      funext (constructName_freeze plan.fieldType)
    simp only [Store.catalog, constructName_setVariable, constructName_setContext, names,
      setVariable_contexts, setContext_contexts]
    split
    · rename_i here
      rw [here, present]
      rfl
    · rw [freezeFieldType_contexts]
  | vars k =>
    by_cases here : k = plan.context
    · subst here
      have before := catalog_vars present
      refine .extended plan.name none code adds before (fun _ => unused) ?_
      simp only [Store.catalog, setVariable_contexts, setContext_self, Option.map_some]
      rw [Catalog.ofNames_add (inStep _ _ before)]
      · exact fun h other => (renamed _ (freezeFieldType_vars _ _) h).trans (if_neg other)
      · exact (renamed _ (freezeFieldType_vars _ _) _).trans (if_pos rfl)
    · refine kept_of_other adds (fun same => here (Directory.vars.inj same)) ?_
      simp only [Store.catalog, setVariable_contexts, setContext_contexts, if_neg here,
        freezeFieldType_contexts]
      cases there : s.types.contexts k with
      | none => rfl
      | some c =>
        have before := catalog_vars there
        rw [Option.map_some, Option.map_some, Catalog.ofNames_older (inStep _ _ before)]
        exact fun h other => (renamed _ (freezeFieldType_vars _ _) h).trans (if_neg other)
  | fields k => exact kept_of_other adds (by simp) (catalog_freeze _ (.fields k))

theorem commit_catalog (bounded : Bounded s) (inStep : s.InStep) {plan : Plan}
    (ready : Ready s.types call.op plan) (code : call.code = .success) (d : Directory) :
    CatalogChange s call d (commit s.types s.next plan) := by
  obtain ⟨op, result⟩ := call
  cases ready with
  | context => exact context_catalog bounded rfl code d
  | construct present unused => exact construct_catalog bounded inStep present unused rfl code d
  | field present unfrozen named unused offsets owner sized nonneg =>
    exact field_catalog present unused rfl code d
  | @pointer owner fieldType =>
    refine kept_of_none rfl ?_
    simp only [commit]
    split
    · rfl
    · rename_i record present
      rw [catalog_setPointer]
      exact catalog_setContext_same present (by rfl) (by rfl) (by rfl) (by rfl) d
  | array present sized =>
    refine kept_of_none rfl ?_
    simp only [commit, present, catalog_freeze, catalog_setArray]
    exact catalog_setContext_same present (by rfl) (by rfl) (by rfl) (by rfl) d
  | dimension present unfrozen =>
    refine kept_of_none rfl ?_
    simp only [commit, present, catalog_setArray]
  | var present named unused sized => exact var_catalog inStep present unused rfl code d

theorem Change.catalog {next : Seen} (change : Change s call next) (bounded : Bounded s)
    (inStep : s.InStep) (d : Directory) : CatalogChange s call d next.types := by
  cases change with
  | idle failed same later => exact .kept (by rw [same]) fun code => absurd code failed
  | frozen ready failed same later => exact .kept (by rw [same, catalog_freeze]) fun code => absurd code failed
  | committed ready code same taken =>
    rw [same]
    exact commit_catalog bounded inStep ready code d

theorem Change.next_le {next : Seen} (change : Change s call next) : s.next ≤ next.next := by
  cases change with
  | idle failed same later => exact later
  | frozen ready failed same later => exact later
  | committed ready code same taken => exact taken ▸ Nat.le_succ _

theorem Change.taken {next : Seen} (change : Change s call next) (code : call.code = .success) :
    next.next = s.next + 1 := by
  obtain ⟨_, _, _, taken⟩ := change.of_success code
  exact taken

theorem Change.inStep {next : Seen} (change : Change s call next) (bounded : Bounded s)
    (inStep : s.InStep) : next.InStep := by
  intro d c present
  cases change.catalog bounded inStep d with
  | kept same elsewhere =>
    rw [same] at present
    exact (inStep d c present).later change.next_le
  | opened code absent fresh elsewhere =>
    rw [fresh] at present
    cases present
    exact Catalog.empty_inStep _
  | extended name info code adds before unused more =>
    rw [more] at present
    cases present
    rw [change.taken code]
    exact (inStep d _ before).add unused info

/-- What is listed stays listed, at the same index. -/
theorem Change.listed_prefix {next : Seen} (change : Change s call next) (bounded : Bounded s)
    (inStep : s.InStep) {d : Directory} {c : Catalog} (present : s.types.catalog d = some c) :
    ∃ later, next.types.catalog d = some later ∧ c.listed <+: later.listed := by
  cases change.catalog bounded inStep d with
  | kept same => exact ⟨c, same.trans present, List.prefix_rfl⟩
  | opened code absent fresh elsewhere =>
    rw [absent] at present
    cases present
  | extended name info code adds before unused more =>
    rw [before] at present
    cases present
    exact ⟨_, more, List.prefix_append _ _⟩

end Changes

section Runs

variable {trace : List (Transition Machine Event)} {final : Machine}

/-- What catalogs rest on. -/
structure Ordered (s : Seen) : Prop where
  bounded : Bounded s
  inStep : s.InStep

theorem initial_ordered : Ordered Machine.initial.seen := by
  refine ⟨initial_bounded, ?_⟩
  intro d c present
  cases d <;> cases present

theorem Step.ordered {m next : Machine} {event : Event} (ordered : Ordered m.seen)
    (step : Step m event next) : Ordered next.seen :=
  ⟨step.change.bounded ordered.bounded, step.change.inStep ordered.bounded ordered.inStep⟩

theorem ordered_of_run (run : Run trace final) : Ordered final.seen :=
  run.invariant (fun m => Ordered m.seen) initial_ordered fun _ _ _ ordered step =>
    step.ordered ordered

/-- From any moment of a run to its end what is listed stays listed, at the same index. -/
theorem listed_prefix_of_run (run : Run trace final) {entry : Transition Machine Event}
    (member : entry ∈ trace) {d : Directory} {c : Catalog}
    (present : entry.pre.store.view.catalog d = some c) :
    ∃ later, final.store.view.catalog d = some later ∧ c.listed <+: later.listed := by
  obtain ⟨_, _, _, before, step, rest⟩ := run.split member
  have ordered := ordered_of_run before
  obtain ⟨first, there, begins⟩ :=
    step.change.listed_prefix ordered.bounded ordered.inStep (d := d) present
  refine (rest.invariant (fun m => Ordered m.seen ∧
    ∃ later, m.store.view.catalog d = some later ∧ c.listed <+: later.listed)
    ⟨step.ordered ordered, first, there, begins⟩ ?_).2
  rintro m event next ⟨ordered, now, here, begins⟩ step
  obtain ⟨later, there, longer⟩ :=
    step.change.listed_prefix ordered.bounded ordered.inStep (d := d) here
  exact ⟨step.ordered ordered, later, there, begins.trans longer⟩

end Runs

end Mam.CopyEngine
