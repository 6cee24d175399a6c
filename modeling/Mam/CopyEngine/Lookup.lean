import Mam.CopyEngine.Names
import Mathlib.Data.List.Nodup

/-! What the getters tell by index and by name. -/

namespace Mam.CopyEngine

open Mam.Library Mam.Vendor

variable {α : Type}

section Views

/-- What a getter tells of an element: its address, or the name and the numbers of a field. -/
inductive Told where
  | object (h : Handle)
  | field (name : CString) (info : FieldInfo)
deriving DecidableEq, Repr

/-- How many elements a list has. -/
def getNumber (s : Store UTArray) : Directory → Except Stop SizeT
  | .constructs k => contextGetConstructsNumber s (some k) true
  | .vars k => contextGetVariablesNumber s (some k) true
  | .fields h => constructGetFieldsNumber s (some h) true

/-- An element by index. -/
def getAt (s : Store UTArray) (d : Directory) (index : SizeT) : Except Stop Told :=
  match d with
  | .constructs k => (contextGetConstruct s (some k) index true).map .object
  | .vars k => (contextGetVariable s (some k) index true).map .object
  | .fields h => (constructGetField s (some h) index true true true true).map
      fun (name, info) => .field name info

/-- An element by name. -/
def getNamed (s : Store UTArray) (d : Directory) (name : CString) : Except Stop Told :=
  match d with
  | .constructs k => (contextGetConstructByName s (some k) (some name) true).map .object
  | .vars k => (contextGetVariableByName s (some k) (some name) true).map .object
  | .fields h => (constructGetFieldByName s (some h) (some name) true true true).map (.field name)

/-- The name of an element that was told. -/
def getName (s : Store UTArray) : Directory → Told → Except Stop CString
  | .constructs _, .object h => constructGetName s (some h) true
  | .vars _, .object h => variableGetName s (some h) true
  | _, .object _ => .error (.code .einval)
  | _, .field name _ => .ok name

/-- By index the getters show the elements in order, and by name each one that has a name,
which no other has. -/
structure Shows (s : Store UTArray) (d : Directory) (elems : List (CString × Told)) : Prop where
  counted : ∃ n, getNumber s d = .ok n ∧ n.toNat = elems.length
  indexed : ∀ i, getAt s d i =
    match elems[i.toNat]? with
    | none => .error (.code .einval)
    | some elem => .ok elem.2
  named : ∀ elem ∈ elems, getName s d elem.2 = .ok elem.1
  distinct : NamesDistinct [] elems
  found : ∀ name ≠ [], ∀ told, getNamed s d name = .ok told ↔ ∃ i, OnlyAt elems i name told
  missing : ∀ name ≠ [], (∀ i told, ¬ OnlyAt elems i name told) →
    getNamed s d name = .error (.code .einval)
  unnamed : getNamed s d [] = .error (.code .einval)

/-- The object that the list belongs to is there. -/
def Store.Has (s : Store UTArray) : Directory → Prop
  | .constructs k | .vars k => ∃ record, s.contexts k = some record
  | .fields h => ∃ c, s.constructs h = some c

/-- By index and by name the getters tell what they told before. -/
structure SameViews (s t : Store UTArray) (d : Directory) : Prop where
  number : getNumber t d = getNumber s d
  indexed : ∀ i, getAt t d i = getAt s d i
  named : ∀ name, getNamed t d name = getNamed s d name

/-- The element that was created is the last one, under its name; its address is the one
that the call obtained. -/
def AddsLast (m next : Machine) (d : Directory) (name : CString) : Prop :=
  ∃ n told, getNumber m.store d = .ok n ∧ getNumber next.store d = .ok (n + 1) ∧
    getAt next.store d n = .ok told ∧ getName next.store d told = .ok name ∧
    ∀ h, told = .object h → h = m.heap.next

/-- What a call does to both views of the lists that are there. -/
structure ViewsMove (entry : Transition Machine Event) : Prop where
  adds : ∀ d name, entry.label.result.code = .success → entry.label.op.adds = some (d, name) →
    AddsLast entry.pre entry.post d name
  same : ∀ d, entry.pre.store.Has d →
    (entry.label.result.code = .success → ∀ name, entry.label.op.adds ≠ some (d, name)) →
    SameViews entry.pre.store entry.post.store d
  refused : ∀ d name told, name ≠ [] → entry.label.op.adds = some (d, name) →
    getNamed entry.pre.store d name = .ok told → entry.label.result.code ≠ .success

end Views

section Reads

/-- Reading an index is reading the list, where the length is what the index says. -/
theorem elementAt_eq {list : UTArray α} (counted : list.Counted) (index : SizeT)
    (rest : α → Except Stop Elem) :
    (refute (list.len ≤ index) .einval >>= fun _ => elementAt list index >>= rest) =
      match list.elems[index.toNat]? with
      | none => .error (.code .einval)
      | some elem => rest elem := by
  have len := counted.toNat_len
  unfold elementAt
  rw [counted.eltptr_eq]
  by_cases beyond : list.len ≤ index
  · have outside : list.elems.length ≤ index.toNat := len ▸ beyond
    rw [List.getElem?_eq_none outside]
    simp [refute, beyond, bind, Except.bind]
  · have inside : index.toNat < list.elems.length := len ▸ Nat.not_le.mp beyond
    rw [List.getElem?_eq_getElem inside]
    simp [refute, beyond, bind, Except.bind]

variable {s : Store UTArray} {k : Handle} {record : Context UTArray} {c : Construct UTArray}

theorem contextGetConstruct_eq (counted : s.Counted) (present : s.contexts k = some record)
    (i : SizeT) : contextGetConstruct s (some k) i true =
      match record.constructs.elems[i.toNat]? with
      | none => .error (.code .einval)
      | some h => .ok h := by
  have there : deref s.contexts k = .ok record := deref_eq_ok.mpr present
  have read := elementAt_eq (counted.contexts k record present).constructs i (storeThrough true)
  show (deref s.contexts k >>= fun record => refute (record.constructs.len ≤ i) .einval >>= fun _ =>
    elementAt record.constructs i >>= storeThrough true) = _
  rw [there]
  refine read.trans ?_
  cases record.constructs.elems[i.toNat]? <;> rfl

theorem contextGetVariable_eq (counted : s.Counted) (present : s.contexts k = some record)
    (i : SizeT) : contextGetVariable s (some k) i true =
      match record.vars.elems[i.toNat]? with
      | none => .error (.code .einval)
      | some h => .ok h := by
  have there : deref s.contexts k = .ok record := deref_eq_ok.mpr present
  have read := elementAt_eq (counted.contexts k record present).vars i (storeThrough true)
  show (deref s.contexts k >>= fun record => refute (record.vars.len ≤ i) .einval >>= fun _ =>
    elementAt record.vars i >>= storeThrough true) = _
  rw [there]
  refine read.trans ?_
  cases record.vars.elems[i.toNat]? <;> rfl

theorem constructGetField_eq (counted : s.Counted) (present : s.constructs k = some c) (i : SizeT) :
    constructGetField s (some k) i true true true true =
      match c.fields.elems[i.toNat]? with
      | none => .error (.code .einval)
      | some f => .ok (f.name, f.info) := by
  have there : deref s.constructs k = .ok c := deref_eq_ok.mpr present
  have read := elementAt_eq (counted.constructs k c present) i
    fun f => (.ok (f.name, f.info) : Except Stop (CString × FieldInfo))
  show (deref s.constructs k >>= fun c => refute (c.fields.len ≤ i) .einval >>= fun _ =>
    elementAt c.fields i >>= fun f => .ok (f.name, f.info)) = _
  rw [there]
  refine read.trans ?_
  cases c.fields.elems[i.toNat]? <;> rfl

theorem contextGetConstructByName_eq (present : s.contexts k = some record) (name : CString) :
    contextGetConstructByName s (some k) (some name) true =
      if name = [] then .error (.code .einval) else checkPtr (record.constructsNameHash.find name) := by
  unfold contextGetConstructByName
  by_cases empty : name = []
  · simp [checkPtr, refute, empty, bind, Except.bind]
  · cases found : record.constructsNameHash.find name <;>
      simp [checkPtr, refute, empty, deref, present, found, storeThrough, bind, Except.bind]

theorem contextGetVariableByName_eq (present : s.contexts k = some record) (name : CString) :
    contextGetVariableByName s (some k) (some name) true =
      if name = [] then .error (.code .einval) else checkPtr (record.variablesNameHash.find name) := by
  unfold contextGetVariableByName
  by_cases empty : name = []
  · simp [checkPtr, refute, empty, bind, Except.bind]
  · cases found : record.variablesNameHash.find name <;>
      simp [checkPtr, refute, empty, deref, present, found, storeThrough, bind, Except.bind]

theorem constructGetFieldByName_eq (present : s.constructs k = some c) (name : CString) :
    constructGetFieldByName s (some k) (some name) true true true =
      if name = [] then .error (.code .einval)
      else match c.fieldsNameHash.find name with
        | none => .error (.code .einval)
        | some h => (deref (fun h => c.fields.elems.find? fun f => f.self = h) h).map Field.info := by
  unfold constructGetFieldByName
  by_cases empty : name = []
  · simp [checkPtr, refute, empty, bind, Except.bind]
  · cases found : c.fieldsNameHash.find name with
    | none => simp [checkPtr, refute, empty, deref, present, found, bind, Except.bind]
    | some h =>
      simp only [checkPtr, refute, empty, deref, present, found, bind, Except.bind]
      cases c.fields.elems.find? fun f => f.self = h <;> rfl

end Reads

section Listing

/-- What is told of a listed object. -/
def Listed.told (l : Listed) : Told :=
  match l.info with
  | none => .object l.self
  | some info => .field (l.name.getD []) info

/-- What is told of the objects of a list, with their names. -/
def Catalog.elems (c : Catalog) : List (CString × Told) :=
  c.listed.map fun l => (l.name.getD [], l.told)

variable {s : Store UTArray} {d : Directory} {c : Catalog}

/-- The catalogs of a store are those of the objects that are there. -/
inductive CatalogOf (s : Store UTArray) : Directory → Catalog → Prop where
  | constructs {k : Handle} {record : Context UTArray} (present : s.contexts k = some record) :
      CatalogOf s (.constructs k) (.ofNames s.view.constructName record.constructs.elems
        record.constructsNameHash)
  | vars {k : Handle} {record : Context UTArray} (present : s.contexts k = some record) :
      CatalogOf s (.vars k) (.ofNames s.view.varName record.vars.elems record.variablesNameHash)
  | fields {h : Handle} {record : Construct UTArray} (present : s.constructs h = some record) :
      CatalogOf s (.fields h) record.view.catalog

theorem catalogOf (present : s.view.catalog d = some c) : CatalogOf s d c := by
  cases d with
  | constructs k =>
    rw [Store.catalog, view_contexts, Option.map_map, Option.map_eq_some_iff] at present
    obtain ⟨record, there, rfl⟩ := present
    exact .constructs there
  | vars k =>
    rw [Store.catalog, view_contexts, Option.map_map, Option.map_eq_some_iff] at present
    obtain ⟨record, there, rfl⟩ := present
    exact .vars there
  | fields h =>
    rw [Store.catalog, view_constructs, Option.map_map, Option.map_eq_some_iff] at present
    obtain ⟨record, there, rfl⟩ := present
    exact .fields there

theorem catalog_of_has (has : s.Has d) : ∃ c, s.view.catalog d = some c := by
  cases d <;> obtain ⟨record, there⟩ := has <;> simp [Store.catalog, there]

/-- The number told is the number listed. -/
theorem getNumber_listed (counted : s.Counted) (present : s.view.catalog d = some c) :
    ∃ n, getNumber s d = .ok n ∧ n.toNat = c.listed.length := by
  cases catalogOf present with
  | @constructs k record there =>
    refine ⟨record.constructs.len, ?_, ?_⟩
    · simp [getNumber, contextGetConstructsNumber, checkPtr, refute, deref, there, bind, Except.bind,
        pure, Except.pure]
    · simp [Catalog.ofNames, (counted.contexts _ _ there).constructs.toNat_len]
  | @vars k record there =>
    refine ⟨record.vars.len, ?_, ?_⟩
    · simp [getNumber, contextGetVariablesNumber, checkPtr, refute, deref, there, bind, Except.bind,
        pure, Except.pure]
    · simp [Catalog.ofNames, (counted.contexts _ _ there).vars.toNat_len]
  | @fields h record there =>
    refine ⟨record.fields.len, ?_, ?_⟩
    · simp [getNumber, constructGetFieldsNumber, checkPtr, refute, deref, there, bind, Except.bind,
        pure, Except.pure]
    · simp [Construct.catalog, Construct.view, (counted.constructs _ _ there).toNat_len]

/-- By index the getters tell what is listed there. -/
theorem getAt_listed (counted : s.Counted) (present : s.view.catalog d = some c) (i : SizeT) :
    getAt s d i =
      match c.listed[i.toNat]? with
      | none => .error (.code .einval)
      | some l => .ok l.told := by
  cases catalogOf present with
  | @constructs k record there =>
    simp only [getAt, contextGetConstruct_eq counted there, Catalog.ofNames, List.getElem?_map]
    cases record.constructs.elems[i.toNat]? <;> rfl
  | @vars k record there =>
    simp only [getAt, contextGetVariable_eq counted there, Catalog.ofNames, List.getElem?_map]
    cases record.vars.elems[i.toNat]? <;> rfl
  | @fields h record there =>
    simp only [getAt, constructGetField_eq counted there, Construct.catalog, Construct.view,
      List.getElem?_map]
    cases record.fields.elems[i.toNat]? <;> rfl

/-- The name told of a listed object is its own. -/
theorem getName_listed (present : s.view.catalog d = some c) {l : Listed} (member : l ∈ c.listed)
    {name : CString} (named : l.name = some name) : getName s d l.told = .ok name := by
  cases catalogOf present with
  | @constructs k record there =>
    obtain ⟨h, _, rfl⟩ := List.mem_map.mp member
    rw [Store.constructName, view_constructs, Option.map_map, Option.map_eq_some_iff] at named
    obtain ⟨construct, here, rfl⟩ := named
    simp [Listed.told, getName, constructGetName, checkPtr, refute, deref, here, bind, Except.bind,
      pure, Except.pure, Construct.view]
  | @vars k record there =>
    obtain ⟨h, _, rfl⟩ := List.mem_map.mp member
    rw [Store.varName, Option.map_eq_some_iff] at named
    obtain ⟨var, here, rfl⟩ := named
    have here : s.vars h = some var := here
    simp [Listed.told, getName, variableGetName, checkPtr, refute, deref, here, bind, Except.bind,
      pure, Except.pure]
  | @fields h record there =>
    obtain ⟨f, _, rfl⟩ := List.mem_map.mp member
    cases named
    rfl

/-- A name that is empty or not in the table is not found. -/
theorem getNamed_missing (present : s.view.catalog d = some c) {name : CString}
    (unfound : name ≠ [] → c.table.lookup name = none) :
    getNamed s d name = .error (.code .einval) := by
  cases catalogOf present with
  | @constructs k record there =>
    rw [getNamed, contextGetConstructByName_eq there]
    split
    · rfl
    · rename_i named
      rw [show record.constructsNameHash.find name = none from unfound named]
      rfl
  | @vars k record there =>
    rw [getNamed, contextGetVariableByName_eq there]
    split
    · rfl
    · rename_i named
      rw [show record.variablesNameHash.find name = none from unfound named]
      rfl
  | @fields h record there =>
    rw [getNamed, constructGetFieldByName_eq there]
    split
    · rfl
    · rename_i named
      rw [show record.fieldsNameHash.find name = none from unfound named]
      rfl

variable {next : Handle}

/-- An entry of the table belongs to the object listed at its index. -/
theorem Catalog.InStep.listed_of_entry (inStep : c.InStep next) {i : Nat} {entry : CString × Handle}
    (present : c.table[i]? = some entry) :
    ∃ l, c.listed[i]? = some l ∧ l.name = some entry.1 ∧ l.self = entry.2 := by
  have same := congrArg (fun pairs => pairs[i]?) inStep.same
  simp only [List.getElem?_map, present, Option.map_some] at same
  obtain ⟨l, there, equal⟩ := Option.map_eq_some_iff.mp same
  exact ⟨l, there, congrArg Prod.fst equal, congrArg Prod.snd equal⟩

/-- An object listed has its entry in the table, at its index. -/
theorem Catalog.InStep.entry_of_listed (inStep : c.InStep next) {i : Nat} {l : Listed}
    (present : c.listed[i]? = some l) :
    ∃ name, c.table[i]? = some (name, l.self) ∧ l.name = some name := by
  have same := congrArg (fun pairs => pairs[i]?) inStep.same.symm
  simp only [List.getElem?_map, present, Option.map_some] at same
  obtain ⟨⟨name, h⟩, there, equal⟩ := Option.map_eq_some_iff.mp same
  obtain rfl : h = l.self := congrArg Prod.snd equal
  exact ⟨name, there, (congrArg Prod.fst equal).symm⟩

/-- The names listed are those of the table. -/
theorem Catalog.InStep.names (inStep : c.InStep next) :
    c.elems.map Prod.fst = c.table.map Prod.fst := by
  have same := congrArg (List.map fun pair => pair.1.getD []) inStep.same
  simp only [List.map_map] at same
  rw [Catalog.elems, List.map_map]
  exact same

theorem Catalog.InStep.elems_distinct (inStep : c.InStep next) : NamesDistinct [] c.elems := by
  have table : (c.table.map Prod.fst).Pairwise fun first second => first ≠ [] → first ≠ second :=
    List.pairwise_map.mpr inStep.distinct
  rw [← inStep.names] at table
  exact List.pairwise_map.mp table

/-- The objects listed have different addresses. -/
theorem Catalog.InStep.selves_nodup (inStep : c.InStep next) : (c.listed.map (·.self)).Nodup := by
  have same := congrArg (List.map Prod.snd) inStep.same
  simp only [List.map_map] at same
  have selves : c.listed.map (·.self) = c.table.map (·.2) := same
  rw [selves]
  exact List.pairwise_map.mpr (inStep.increasing.imp Nat.ne_of_lt)

/-- A name of the table finds the object listed with it. -/
theorem getNamed_found (present : s.view.catalog d = some c) (inStep : c.InStep next) {l : Listed}
    (member : l ∈ c.listed) {name : CString} (nonempty : name ≠ []) (named : l.name = some name)
    (found : c.table.lookup name = some l.self) : getNamed s d name = .ok l.told := by
  cases catalogOf present with
  | @constructs k record there =>
    have found : record.constructsNameHash.find name = some l.self := found
    obtain ⟨h, _, rfl⟩ := List.mem_map.mp member
    rw [getNamed, contextGetConstructByName_eq there, if_neg nonempty, found]
    rfl
  | @vars k record there =>
    have found : record.variablesNameHash.find name = some l.self := found
    obtain ⟨h, _, rfl⟩ := List.mem_map.mp member
    rw [getNamed, contextGetVariableByName_eq there, if_neg nonempty, found]
    rfl
  | @fields h record there =>
    have found : record.fieldsNameHash.find name = some l.self := found
    have selves := inStep.selves_nodup
    simp only [Construct.catalog, Construct.view, List.map_map] at selves
    obtain ⟨f, listed, rfl⟩ := List.mem_map.mp member
    have unique : record.fields.elems.find? (fun other => other.self = f.self) = some f := by
      cases search : record.fields.elems.find? (fun other => other.self = f.self) with
      | none =>
        have differs := List.find?_eq_none.mp search f listed
        exact absurd (decide_eq_true rfl) differs
      | some other =>
        have same : other.self = f.self := of_decide_eq_true (List.find?_some search :)
        rw [List.inj_on_of_nodup_map selves (List.mem_of_find?_eq_some search) listed same]
    cases named
    rw [getNamed, constructGetFieldByName_eq there, if_neg nonempty, found]
    simp only [deref, unique]
    rfl

theorem Catalog.elems_getElem? (c : Catalog) (i : Nat) :
    c.elems[i]? = (c.listed[i]?).map fun l => (l.name.getD [], l.told) :=
  List.getElem?_map

/-- A name of the table is the name of an object that is listed. -/
theorem Catalog.InStep.listed_of_lookup (inStep : c.InStep next) {name : CString}
    (nonempty : name ≠ []) {h : Handle} (found : c.table.lookup name = some h) :
    ∃ i : Nat, ∃ l : Listed, c.listed[i]? = some l ∧ l.name = some name ∧ l.self = h := by
  obtain ⟨i, entry, _⟩ := (inStep.distinct.lookup_iff nonempty).mp found
  obtain ⟨l, there, named, self⟩ := inStep.listed_of_entry entry
  exact ⟨i, l, there, named, self⟩

/-- A name of the table is told at its index, and nowhere else. -/
theorem located (present : s.view.catalog d = some c) (inStep : c.InStep next) {name : CString}
    (nonempty : name ≠ []) {h : Handle} (found : c.table.lookup name = some h) :
    ∃ i, ∃ l : Listed, OnlyAt c.elems i name l.told ∧ getNamed s d name = .ok l.told := by
  obtain ⟨i, l, there, named, rfl⟩ := inStep.listed_of_lookup nonempty found
  refine ⟨i, l, inStep.elems_distinct.onlyAt nonempty ?_, ?_⟩
  · rw [c.elems_getElem?, there, Option.map_some, named]
    rfl
  · exact getNamed_found present inStep (List.mem_of_getElem? there) nonempty named found

/-- A name told at one index alone is in the table. -/
theorem Catalog.InStep.lookup_of_onlyAt (inStep : c.InStep next) {name : CString}
    (nonempty : name ≠ []) {i : Nat} {elem : Told} (only : OnlyAt c.elems i name elem) :
    ∃ h, c.table.lookup name = some h := by
  have here := only.1
  rw [c.elems_getElem?, Option.map_eq_some_iff] at here
  obtain ⟨l, there, same⟩ := here
  obtain ⟨own, entry, named⟩ := inStep.entry_of_listed there
  rw [named] at same
  obtain rfl : own = name := congrArg Prod.fst same
  exact ⟨l.self, (inStep.distinct.lookup_iff nonempty).mpr
    ⟨i, inStep.distinct.onlyAt nonempty entry⟩⟩

/-- The getters show what a catalog in step lists. -/
theorem shows_of_inStep (counted : s.Counted) (present : s.view.catalog d = some c)
    (inStep : c.InStep next) : Shows s d c.elems := by
  refine ⟨?_, ?_, ?_, inStep.elems_distinct, ?_, ?_, ?_⟩
  · obtain ⟨n, number, same⟩ := getNumber_listed counted present
    exact ⟨n, number, by rw [same, Catalog.elems, List.length_map]⟩
  · intro i
    rw [getAt_listed counted present, c.elems_getElem?]
    cases c.listed[i.toNat]? <;> rfl
  · intro elem member
    obtain ⟨l, listed, rfl⟩ := List.mem_map.mp member
    obtain ⟨i, there⟩ := List.getElem?_of_mem listed
    obtain ⟨name, _, named⟩ := inStep.entry_of_listed there
    rw [getName_listed present listed named, named]
    rfl
  · intro name nonempty elem
    constructor
    · intro found
      cases search : c.table.lookup name with
      | none =>
        rw [getNamed_missing present fun _ => search] at found
        cases found
      | some h =>
        obtain ⟨i, l, only, there⟩ := located present inStep nonempty search
        rw [there] at found
        cases found
        exact ⟨i, only⟩
    · rintro ⟨i, only⟩
      obtain ⟨h, search⟩ := inStep.lookup_of_onlyAt nonempty only
      obtain ⟨other, l, again, there⟩ := located present inStep nonempty search
      obtain rfl : other = i := only.2 other l.told again.1
      have same := again.1.symm.trans only.1
      cases same
      exact there
  · intro name nonempty absent
    refine getNamed_missing present fun _ => ?_
    cases search : c.table.lookup name with
    | none => rfl
    | some h =>
      obtain ⟨i, l, only, _⟩ := located present inStep nonempty search
      exact absurd only (absent i l.told)
  · exact getNamed_missing present fun nonempty => absurd rfl nonempty

/-- A getter that tells something has its list there. -/
theorem has_of_getAt {i : SizeT} {told : Told} (shown : getAt s d i = .ok told) : s.Has d := by
  cases d with
  | constructs k =>
    cases there : s.contexts k with
    | none => simp [getAt, contextGetConstruct, checkPtr, deref, there, bind, Except.bind, Except.map] at shown
    | some record => exact ⟨record, there⟩
  | vars k =>
    cases there : s.contexts k with
    | none => simp [getAt, contextGetVariable, checkPtr, deref, there, bind, Except.bind, Except.map] at shown
    | some record => exact ⟨record, there⟩
  | fields h =>
    cases there : s.constructs h with
    | none => simp [getAt, constructGetField, checkPtr, deref, there, bind, Except.bind, Except.map] at shown
    | some record => exact ⟨record, there⟩

/-- What is told depends on the catalog alone. -/
theorem sameViews_of_catalog {t : Store UTArray} (before : s.Counted) (after : t.Counted)
    (present : s.view.catalog d = some c) (kept : t.view.catalog d = some c)
    (inStep : c.InStep next) : SameViews s t d := by
  refine ⟨?_, ?_, ?_⟩
  · obtain ⟨n, number, length⟩ := getNumber_listed before present
    obtain ⟨m, again, same⟩ := getNumber_listed after kept
    obtain rfl : m = n := BitVec.eq_of_toNat_eq (same.trans length.symm)
    rw [number, again]
  · intro i
    rw [getAt_listed before present, getAt_listed after kept]
  · intro name
    by_cases nonempty : name = []
    · rw [getNamed_missing present fun named => absurd nonempty named,
        getNamed_missing kept fun named => absurd nonempty named]
    · cases search : c.table.lookup name with
      | none => rw [getNamed_missing present fun _ => search, getNamed_missing kept fun _ => search]
      | some h =>
        obtain ⟨i, l, there, named, rfl⟩ := inStep.listed_of_lookup nonempty search
        have listed := List.mem_of_getElem? there
        rw [getNamed_found present inStep listed nonempty named search,
          getNamed_found kept inStep listed nonempty named search]

end Listing

section Runs

variable {trace : List (Transition Machine Event)} {final : Machine}

/-- A call that adds an element adds it to the end of its list. -/
theorem Step.addsLast {m next : Machine} {event : Event} (step : Step m event next)
    (before : m.store.Counted) (after : next.store.Counted) (ordered : Ordered m.seen)
    {d : Directory} {name : CString} (code : event.result.code = .success)
    (adds : event.op.adds = some (d, name)) : AddsLast m next d name := by
  cases step.change.catalog ordered.bounded ordered.inStep d with
  | kept same elsewhere => exact absurd adds (elsewhere code name)
  | opened code absent fresh elsewhere => exact absurd adds (elsewhere name)
  | @extended c other info code again present unused more =>
    have again : event.op.adds = some (d, other) := again
    rw [adds] at again
    cases again
    obtain ⟨n, number, length⟩ := getNumber_listed before present
    obtain ⟨grown, counted, longer⟩ := getNumber_listed after more
    have one : grown = n + 1 := by
      have wide := grown.isLt
      apply BitVec.eq_of_toNat_eq
      rw [BitVec.toNat_add, length, longer]
      simp only [Catalog.add, List.length_append, List.length_singleton] at longer ⊢
      rw [longer] at wide
      exact (Nat.mod_eq_of_lt wide).symm
    have last : (c.add name m.seen.next info).listed[n.toNat]? =
        some ⟨some name, m.seen.next, info⟩ := by
      rw [length]
      exact List.getElem?_concat_length
    refine ⟨n, Listed.told ⟨some name, m.seen.next, info⟩, number, one ▸ counted, ?_, ?_, ?_⟩
    · rw [getAt_listed after more, last]
    · exact getName_listed more (List.mem_of_getElem? last) rfl
    · intro h object
      cases info with
      | none => exact (Told.object.inj object).symm
      | some info => cases object

theorem Step.viewsMove {m next : Machine} {event : Event} (step : Step m event next)
    (before : m.store.Counted) (after : next.store.Counted) (ordered : Ordered m.seen) :
    ViewsMove ⟨m, event, next⟩ := by
  refine ⟨fun d name code adds => step.addsLast before after ordered code adds, ?_, ?_⟩
  · intro d has elsewhere
    obtain ⟨c, present⟩ := catalog_of_has has
    cases step.change.catalog ordered.bounded ordered.inStep d with
    | kept same _ =>
      exact sameViews_of_catalog before after present (same.trans present)
        (ordered.inStep d c present)
    | opened code absent fresh _ =>
      have absent : m.store.view.catalog d = none := absent
      rw [present] at absent
      cases absent
    | extended name info code adds _ unused more => exact absurd adds (elsewhere code name)
  · intro d name told nonempty adds found code
    cases step.change.catalog ordered.bounded ordered.inStep d with
    | kept same elsewhere => exact elsewhere code name adds
    | opened code absent fresh elsewhere => exact elsewhere name adds
    | @extended c other info code again present unused more =>
      have again : event.op.adds = some (d, other) := again
      have adds : event.op.adds = some (d, name) := adds
      rw [adds] at again
      cases again
      have found : getNamed m.store d name = .ok told := found
      rw [getNamed_missing present unused] at found
      cases found

/-- From any moment of a run to its end an element keeps its index. -/
theorem getAt_kept (run : Run trace final) {entry : Transition Machine Event}
    (member : entry ∈ trace) {d : Directory} {i : SizeT} {told : Told}
    (shown : getAt entry.pre.store d i = .ok told) : getAt final.store d i = .ok told := by
  obtain ⟨_, _, _, before, _, _⟩ := run.split member
  obtain ⟨c, present⟩ := catalog_of_has (has_of_getAt shown)
  obtain ⟨later, there, rest, same⟩ := listed_prefix_of_run run member present
  rw [getAt_listed (counted_of_run before) present] at shown
  rw [getAt_listed (counted_of_run run) there, ← same]
  cases here : c.listed[i.toNat]? with
  | none =>
    rw [here] at shown
    cases shown
  | some l =>
    rw [here] at shown
    rw [List.getElem?_append_left (List.getElem?_eq_some_iff.mp here).1, here]
    exact shown

/-- In every state that a run reaches, index and name tell of the same elements, for the
constructs and the variables of a context and the fields of a construct alike; an element
keeps its index; and every call adds its element at the end or leaves both views alone, as
it does when its name is taken. -/
theorem index_and_name_agree (run : Run trace final) :
    (∀ d, final.store.Has d → ∃ elems, Shows final.store d elems) ∧
      (∀ entry ∈ trace, ∀ d i told, getAt entry.pre.store d i = .ok told →
        getAt final.store d i = .ok told) ∧
      ∀ entry ∈ trace, ViewsMove entry := by
  refine ⟨?_, fun entry member d i told shown => getAt_kept run member shown, ?_⟩
  · intro d has
    obtain ⟨c, present⟩ := catalog_of_has has
    exact ⟨_, shows_of_inStep (counted_of_run run) present ((ordered_of_run run).inStep d c present)⟩
  · intro entry member
    obtain ⟨_, _, _, before, step, _⟩ := run.split member
    exact step.viewsMove (counted_of_run before) (counted_of_run (before.snoc step))
      (ordered_of_run before)

/-- Structs and unions share a table: one is refused because its name is taken, and two
have no name. -/
def namedCalls : List (Op × Memory) :=
  [(.contextCreate (some []) (some lp64) true, plenty),
   (.contextCreateConstruct .struct (some 0) (some []) false true, plenty),
   (.contextCreateConstruct .struct (some 0) (some [97]) false true, plenty),
   (.contextCreateConstruct .union (some 0) (some [97]) false true, plenty),
   (.contextCreateConstruct .union (some 0) (some []) false true, plenty),
   (.constructAddField (some 2) (some [97]) (some ⟨4, 0⟩) [], plenty),
   (.constructAddField (some 2) (some [97]) (some ⟨5, 0⟩) [], plenty),
   (.contextCreateVariable (some 0) (some [97]) (some ⟨complexTypeStruct, 2⟩) true, plenty)]

theorem namedCalls_agree :
    getNamed (replay respond Machine.initial namedCalls).2.store (.constructs 0) [97] =
        .ok (.object 2) ∧
      getAt (replay respond Machine.initial namedCalls).2.store (.constructs 0) 2 =
        .ok (.object 3) ∧
      ∃ elems, Shows (replay respond Machine.initial namedCalls).2.store (.constructs 0) elems :=
  ⟨rfl, rfl, (index_and_name_agree (replay_run namedCalls)).1 _ ⟨_, rfl⟩⟩

end Runs

end Mam.CopyEngine
