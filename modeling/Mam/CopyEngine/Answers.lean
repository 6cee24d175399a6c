import Mam.CopyEngine.History
import Mam.CopyEngine.Lookup

/-! The getters of `copy-engine.c` that tell of single objects, and what goes on being told as
long as a context is there. -/

namespace Mam.CopyEngine

open Mam.Library Mam.Vendor

variable {L : Type → Type} {α β : Type}

section Getters

/-- A getter of one member of an object. -/
def getMember (table : Handle → Option β) (member : β → α) (object : Option Handle) (ret : Bool) :
    Except Stop α := do
  let object ← checkPtr object
  refute (!ret) .einval
  let record ← deref table object
  return member record

/-- `mam_construct_get_type`. -/
def constructGetType (s : Store L) (construct : Option Handle) (ret : Bool) :
    Except Stop ConstructType := getMember s.constructs (·.type) construct ret

/-- `mam_construct_get_size`. -/
def constructGetSize (s : Store L) (construct : Option Handle) (ret : Bool) : Except Stop SizeT :=
  getMember s.constructs (·.totalSize) construct ret

/-- `mam_construct_get_align`. -/
def constructGetAlign (s : Store L) (construct : Option Handle) (ret : Bool) : Except Stop SizeT :=
  getMember s.constructs (·.alignment) construct ret

/-- `mam_pointer_get_field_type`. -/
def pointerGetFieldType (s : Store L) (pointer : Option Handle) (ret : Bool) : Except Stop FieldType :=
  getMember s.pointers (·.fieldType) pointer ret

/-- `mam_array_get_field_type`. -/
def arrayGetFieldType (s : Store L) (array : Option Handle) (ret : Bool) : Except Stop FieldType :=
  getMember s.arrays (·.fieldType) array ret

/-- `mam_array_get_align`. -/
def arrayGetAlign (s : Store L) (array : Option Handle) (ret : Bool) : Except Stop SizeT :=
  getMember s.arrays (·.alignment) array ret

/-- `mam_array_get_num_dimensions`. -/
def arrayGetNumDimensions (s : Store UTArray) (array : Option Handle) (ret : Bool) :
    Except Stop SizeT := getMember s.arrays (·.dimensions.len) array ret

/-- `mam_array_get_dimension`. -/
def arrayGetDimension (s : Store UTArray) (array : Option Handle) (index : SizeT) (ret : Bool) :
    Except Stop Dimension := do
  let array ← checkPtr array
  refute (!ret) .einval
  let record ← deref s.arrays array
  refute (record.dimensions.len ≤ index) .einval
  let block ← elementAt record.dimensions index
  return block.dimension

/-- `mam_variable_get_field_type`. -/
def variableGetFieldType (s : Store L) (var : Option Handle) (ret : Bool) : Except Stop FieldType :=
  getMember s.vars (·.fieldType) var ret

/-- `mam_variable_get_size`. -/
def variableGetSize (s : Store L) (var : Option Handle) (ret : Bool) : Except Stop SizeT :=
  getMember s.vars (·.size) var ret

/-- `mam_variable_get_align`. -/
def variableGetAlign (s : Store L) (var : Option Handle) (ret : Bool) : Except Stop SizeT :=
  getMember s.vars (·.alignment) var ret

/-- Where both tables have the object, and the member is the same, so is what is told. -/
theorem getMember_same {table later : Handle → Option β} {member : β → α} {h : Handle} {a b : β}
    (was : table h = some a) (is : later h = some b) (same : member b = member a) (ret : Bool) :
    getMember later member (some h) ret = getMember table member (some h) ret := by
  cases ret with
  | false => rfl
  | true => simp only [getMember, checkPtr, refute, deref, was, is, bind, Except.bind, same]

theorem arrayGetDimension_eq {s : Store UTArray} {h : Handle} {a : ArrayType UTArray}
    (counted : s.Counted) (present : s.arrays h = some a) (i : SizeT) :
    arrayGetDimension s (some h) i true =
      match a.dimensions.elems[i.toNat]? with
      | none => .error (.code .einval)
      | some block => .ok block.dimension := by
  have there : deref s.arrays h = .ok a := deref_eq_ok.mpr present
  have read := elementAt_eq (counted.arrays h a present) i
    fun block => (.ok block.dimension : Except Stop Dimension)
  show (deref s.arrays h >>= fun a => refute (a.dimensions.len ≤ i) .einval >>= fun _ =>
    elementAt a.dimensions i >>= fun block => .ok block.dimension) = _
  rw [there]
  refine read.trans ?_
  cases a.dimensions.elems[i.toNat]? <;> rfl

end Getters

section Telling

/-- The lists of a context. -/
def Store.Lists (s : Store UTArray) (k : Handle) : Directory → Prop
  | .constructs owner | .vars owner => owner = k
  | .fields h => ∃ c, s.constructs h = some c ∧ c.context = k

/-- What the getters told of a context and its objects they tell still: elements by index and by
name, and the members of objects that do not change; of frozen objects all members. -/
structure GoesOn (s t : Store UTArray) (k : Handle) : Prop where
  number : ∀ d, s.Lists k d → ∀ n, getNumber s d = .ok n → ∃ later, getNumber t d = .ok later ∧ n ≤ later
  indexed : ∀ d, s.Lists k d → ∀ i told, getAt s d i = .ok told → getAt t d i = .ok told
  named : ∀ d, s.Lists k d → ∀ name told, getNamed s d name = .ok told → getNamed t d name = .ok told
  constructs : ∀ h c, s.constructs h = some c → c.context = k → ∀ ret,
    constructGetType t (some h) ret = constructGetType s (some h) ret ∧
      constructGetName t (some h) ret = constructGetName s (some h) ret
  frozenConstructs : ∀ h c, s.constructs h = some c → c.context = k → c.frozen = true → ∀ ret,
    constructGetSize t (some h) ret = constructGetSize s (some h) ret ∧
      constructGetAlign t (some h) ret = constructGetAlign s (some h) ret ∧
      constructGetFieldsNumber t (some h) ret = constructGetFieldsNumber s (some h) ret
  arrays : ∀ h a, s.arrays h = some a → a.context = k → ∀ ret,
    arrayGetFieldType t (some h) ret = arrayGetFieldType s (some h) ret ∧
      arrayGetAlign t (some h) ret = arrayGetAlign s (some h) ret
  dimensions : ∀ h a, s.arrays h = some a → a.context = k → ∀ i dimension,
    arrayGetDimension s (some h) i true = .ok dimension →
      arrayGetDimension t (some h) i true = .ok dimension
  frozenArrays : ∀ h a, s.arrays h = some a → a.context = k → a.frozen = true → ∀ ret,
    arrayGetSize t (some h) ret = arrayGetSize s (some h) ret ∧
      arrayGetNumDimensions t (some h) ret = arrayGetNumDimensions s (some h) ret
  pointers : ∀ h p, s.pointers h = some p → p.context = k → ∀ ret,
    pointerGetFieldType t (some h) ret = pointerGetFieldType s (some h) ret
  vars : ∀ h v, s.vars h = some v → v.context = k → ∀ ret,
    variableGetName t (some h) ret = variableGetName s (some h) ret ∧
      variableGetFieldType t (some h) ret = variableGetFieldType s (some h) ret ∧
      variableGetSize t (some h) ret = variableGetSize s (some h) ret ∧
      variableGetAlign t (some h) ret = variableGetAlign s (some h) ret

variable {s t : Store UTArray} {k h : Handle}

/-- What a list has at an index it has there still when it is longer. -/
theorem getElem?_of_grown {xs ys : List α} (longer : xs <+: ys) {i : Nat} {x : α}
    (there : xs[i]? = some x) : ys[i]? = some x := by
  obtain ⟨more, rfl⟩ := longer
  rw [List.getElem?_append_left (List.getElem?_eq_some_iff.mp there).1]
  exact there

theorem find_of_grown {table later : UTHash α} (longer : table.entries <+: later.entries)
    {name : CString} {x : α} (found : table.find name = some x) : later.find name = some x := by
  obtain ⟨more, same⟩ := longer
  rw [UTHash.find] at found ⊢
  rw [← same, List.lookup_append, found]
  rfl

theorem len_le_of_grown {list later : UTArray α} (counted : list.Counted) (still : later.Counted)
    (longer : list.elems <+: later.elems) : list.len ≤ later.len := by
  rw [BitVec.le_def, counted.toNat_len, still.toNat_len]
  exact longer.length_le

theorem number_goesOn (counted : s.Counted) (still : t.Counted) (lasts : Lasts s.view t.view k)
    {d : Directory} (own : s.Lists k d) {n : SizeT} (told : getNumber s d = .ok n) :
    ∃ later, getNumber t d = .ok later ∧ n ≤ later := by
  cases d with
  | constructs owner =>
    cases own
    cases present : s.contexts k with
    | none => simp [getNumber, contextGetConstructsNumber, checkPtr, refute, deref, present, bind,
        Except.bind] at told
    | some c =>
      obtain ⟨d, there, grows⟩ := lasts.context_of present
      simp only [getNumber, contextGetConstructsNumber, checkPtr, refute, deref, present, there, bind,
        Except.bind] at told ⊢
      cases told
      exact ⟨_, rfl, len_le_of_grown (counted.contexts k c present).constructs
        (still.contexts k d there).constructs grows.constructs⟩
  | vars owner =>
    cases own
    cases present : s.contexts k with
    | none => simp [getNumber, contextGetVariablesNumber, checkPtr, refute, deref, present, bind,
        Except.bind] at told
    | some c =>
      obtain ⟨d, there, grows⟩ := lasts.context_of present
      simp only [getNumber, contextGetVariablesNumber, checkPtr, refute, deref, present, there, bind,
        Except.bind] at told ⊢
      cases told
      exact ⟨_, rfl, len_le_of_grown (counted.contexts k c present).vars
        (still.contexts k d there).vars grows.vars⟩
  | fields h =>
    obtain ⟨c, present, own⟩ := own
    obtain ⟨d, there, grows⟩ := lasts.construct_of present own
    simp only [getNumber, constructGetFieldsNumber, checkPtr, refute, deref, present, there, bind,
      Except.bind] at told ⊢
    cases told
    exact ⟨_, rfl, len_le_of_grown (counted.constructs h c present)
      (still.constructs h d there) grows.fields⟩

theorem indexed_goesOn (counted : s.Counted) (still : t.Counted) (lasts : Lasts s.view t.view k)
    {d : Directory} (own : s.Lists k d) {i : SizeT} {told : Told} (shown : getAt s d i = .ok told) :
    getAt t d i = .ok told := by
  have has := has_of_getAt shown
  cases d with
  | constructs owner =>
    cases own
    obtain ⟨c, present⟩ := has
    obtain ⟨d, there, grows⟩ := lasts.context_of present
    have longer : c.constructs.elems <+: d.constructs.elems := grows.constructs
    simp only [getAt, contextGetConstruct_eq counted present] at shown
    simp only [getAt, contextGetConstruct_eq still there]
    cases here : c.constructs.elems[i.toNat]? with
    | none => simp [here, Except.map] at shown
    | some x =>
      rw [getElem?_of_grown longer here]
      rw [here] at shown
      exact shown
  | vars owner =>
    cases own
    obtain ⟨c, present⟩ := has
    obtain ⟨d, there, grows⟩ := lasts.context_of present
    have longer : c.vars.elems <+: d.vars.elems := grows.vars
    simp only [getAt, contextGetVariable_eq counted present] at shown
    simp only [getAt, contextGetVariable_eq still there]
    cases here : c.vars.elems[i.toNat]? with
    | none => simp [here, Except.map] at shown
    | some x =>
      rw [getElem?_of_grown longer here]
      rw [here] at shown
      exact shown
  | fields h =>
    obtain ⟨c, present, own⟩ := own
    obtain ⟨d, there, grows⟩ := lasts.construct_of present own
    have longer : c.fields.elems <+: d.fields.elems := grows.fields
    simp only [getAt, constructGetField_eq counted present] at shown
    simp only [getAt, constructGetField_eq still there]
    cases here : c.fields.elems[i.toNat]? with
    | none => simp [here, Except.map] at shown
    | some f =>
      rw [getElem?_of_grown longer here]
      rw [here] at shown
      exact shown

/-- A context by whose names something is told has them still. -/
private theorem found_goesOn {table later : UTHash Handle}
    (longer : table.entries <+: later.entries) {name : CString} {x : Handle}
    (shown : (if name = [] then .error (.code .einval) else checkPtr (table.find name)) =
      (.ok x : Except Stop Handle)) :
    (if name = [] then .error (.code .einval) else checkPtr (later.find name)) =
      (.ok x : Except Stop Handle) := by
  split at shown
  · cases shown
  · rename_i named
    rw [if_neg named]
    rw [checkPtr_eq_ok] at shown ⊢
    exact find_of_grown longer shown

private theorem map_eq_ok_iff {x : Except Stop α} {f : α → β} {b : β} :
    x.map f = .ok b ↔ ∃ a, x = .ok a ∧ f a = b := by
  cases x with
  | error stop => simp [Except.map]
  | ok a => simp [Except.map]

theorem named_goesOn (lasts : Lasts s.view t.view k) {c : Context UTArray}
    (present : s.contexts k = some c) {d : Directory} (own : s.Lists k d) {name : CString}
    {told : Told} (shown : getNamed s d name = .ok told) : getNamed t d name = .ok told := by
  cases d with
  | constructs owner =>
    cases own
    obtain ⟨d, there, grows⟩ := lasts.context_of present
    simp only [getNamed, contextGetConstructByName_eq present, map_eq_ok_iff] at shown
    simp only [getNamed, contextGetConstructByName_eq there, map_eq_ok_iff]
    obtain ⟨x, found, same⟩ := shown
    exact ⟨x, found_goesOn grows.constructsNamed found, same⟩
  | vars owner =>
    cases own
    obtain ⟨d, there, grows⟩ := lasts.context_of present
    simp only [getNamed, contextGetVariableByName_eq present, map_eq_ok_iff] at shown
    simp only [getNamed, contextGetVariableByName_eq there, map_eq_ok_iff]
    obtain ⟨x, found, same⟩ := shown
    exact ⟨x, found_goesOn grows.varsNamed found, same⟩
  | fields h =>
    obtain ⟨c, present, own⟩ := own
    obtain ⟨d, there, grows⟩ := lasts.construct_of present own
    simp only [getNamed, constructGetFieldByName_eq present, map_eq_ok_iff] at shown
    simp only [getNamed, constructGetFieldByName_eq there, map_eq_ok_iff]
    obtain ⟨info, found, same⟩ := shown
    refine ⟨info, ?_, same⟩
    split at found
    · cases found
    · rename_i named
      rw [if_neg named]
      cases filed : c.fieldsNameHash.find name with
      | none => simp [filed] at found
      | some f =>
        have still : d.fieldsNameHash.find name = some f := find_of_grown grows.named filed
        rw [filed] at found
        rw [still]
        simp only [map_eq_ok_iff, deref_eq_ok] at found ⊢
        obtain ⟨field, listed, rfl⟩ := found
        obtain ⟨more, longer⟩ := grows.fields
        have longer : c.fields.elems ++ more = d.fields.elems := longer
        refine ⟨field, ?_, rfl⟩
        rw [← longer, List.find?_append, listed]
        rfl

/-- What lasts goes on being told. -/
theorem goesOn_of_lasts (counted : s.Counted) (still : t.Counted) (lasts : Lasts s.view t.view k)
    {c : Context UTArray} (present : s.contexts k = some c) : GoesOn s t k := by
  constructor
  · exact fun d own n told => number_goesOn counted still lasts own told
  · exact fun d own i told shown => indexed_goesOn counted still lasts own shown
  · exact fun d own name told shown => named_goesOn lasts present own shown
  · intro h c there own ret
    obtain ⟨d, later, grows⟩ := lasts.construct_of there own
    exact ⟨getMember_same there later grows.type ret, getMember_same there later grows.name ret⟩
  · intro h c there own frozen ret
    obtain ⟨d, later, grows⟩ := lasts.construct_of there own
    have same := grows.settled frozen
    have size : d.totalSize = c.totalSize := congrArg (fun c : Construct List => c.totalSize) same
    have align : d.alignment = c.alignment := congrArg (fun c : Construct List => c.alignment) same
    have fields : d.fields.elems = c.fields.elems := congrArg (fun c : Construct List => c.fields) same
    have number : d.fields.len = c.fields.len := by
      simp only [UTArray.len, UTArray.i, fields]
    exact ⟨getMember_same there later size ret, getMember_same there later align ret,
      getMember_same there later number ret⟩
  · intro h a there own ret
    obtain ⟨b, later, grows⟩ := lasts.array_of there own
    exact ⟨getMember_same there later grows.fieldType ret,
      getMember_same there later grows.alignment ret⟩
  · intro h a there own i dimension shown
    obtain ⟨b, later, grows⟩ := lasts.array_of there own
    have longer : a.dimensions.elems <+: b.dimensions.elems := grows.dimensions
    rw [arrayGetDimension_eq counted there] at shown
    rw [arrayGetDimension_eq still later]
    cases here : a.dimensions.elems[i.toNat]? with
    | none => simp [here] at shown
    | some block =>
      rw [getElem?_of_grown longer here]
      rw [here] at shown
      exact shown
  · intro h a there own frozen ret
    obtain ⟨b, later, grows⟩ := lasts.array_of there own
    have same := grows.settled frozen
    have size : b.totalSize = a.totalSize := congrArg (fun a : ArrayType List => a.totalSize) same
    have dimensions : b.dimensions.elems = a.dimensions.elems :=
      congrArg (fun a : ArrayType List => a.dimensions) same
    have number : b.dimensions.len = a.dimensions.len := by
      simp only [UTArray.len, UTArray.i, dimensions]
    exact ⟨getMember_same there later size ret, getMember_same there later number ret⟩
  · exact fun h p there own ret => getMember_same there (lasts.pointers h p there own) rfl ret
  · intro h v there own ret
    have later : t.vars h = some v := lasts.vars h v there own
    exact ⟨getMember_same there later rfl ret, getMember_same there later rfl ret,
      getMember_same there later rfl ret, getMember_same there later rfl ret⟩

end Telling

section Results

variable {m final : Machine} {past trace : List (Transition Machine Act)} {k : Handle}

/-- From any point of a program on, whatever it does with this context and with others, and
whatever fails: as long as the context is there, what the getters told of it and of its objects
they tell still. -/
theorem answers_go_on (life : Life past m) (run : Execution Act.Step m trace final)
    (there : ∃ record, m.store.contexts k = some record)
    (still : ∃ record, final.store.contexts k = some record) : GoesOn m.store final.store k := by
  obtain ⟨live, estates⟩ := estates_of_life life
  obtain ⟨c, present⟩ := there
  obtain ⟨d, later⟩ := still
  obtain ⟨mine, owned⟩ := estates.owned k ((estates.live_iff k).mpr ⟨c, present⟩)
  have older : k < m.heap.next := estates.lt_next (owned.estate ▸ List.mem_cons_self)
  have seen : final.store.view.contexts k = some d.view := by
    rw [view_contexts, later]
    rfl
  have counted := (standing_of_life (life.append run)).counted
  exact goesOn_of_lasts estates.standing.counted counted (lasts_of_program estates run older seen) present

theorem answers_go_on_calls :
    GoesOn (program (estateCalls.take 7)).2.store
      (replay Act.respond (program (estateCalls.take 7)).2 (estateCalls.drop 7)).2.store 1 := by
  have run := Act.replay_execution (program (estateCalls.take 7)).2 (estateCalls.drop 7)
  exact answers_go_on (program_life _) run (Option.isSome_iff_exists.mp (by decide +kernel))
    (Option.isSome_iff_exists.mp (by decide +kernel))

end Results

end Mam.CopyEngine
