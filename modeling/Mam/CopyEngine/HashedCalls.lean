import Mam.CopyEngine.Hashed
import Mam.CopyEngine.Lifetime

/-! Each call with name tables returns what it returns with finite maps, and keeps what
makes the tables those maps. -/

namespace Mam.CopyEngine

open Mam.Library Mam.Vendor

section Above

/-- What the finite maps of a store are. -/
abbrev Maps := Directory → UTHash Handle

variable {L : Type → Type} {α : Type}

def Context.withMaps (c : Context L) (h : Handle) (T : Maps) : Context L :=
  { c with constructsNameHash := T (.constructs h), variablesNameHash := T (.vars h) }

def Construct.withMaps (c : Construct L) (h : Handle) (T : Maps) : Construct L :=
  { c with fieldsNameHash := T (.fields h) }

/-- The store whose records have these maps. -/
def Store.withMaps (s : Store L) (T : Maps) : Store L :=
  { s with
    contexts := fun h => (s.contexts h).map (·.withMaps h T)
    constructs := fun h => (s.constructs h).map (·.withMaps h T) }

def Machine.withMaps (m : Machine) (T : Maps) : Machine :=
  { heap := m.heap, store := m.store.withMaps T }

def Return.withMaps (r : Return) (T : Maps) : Return := { r with machine := r.machine.withMaps T }

variable {s : Store L} {T T' : Maps} {h : Handle}

theorem setContext_withMaps {c : Context L} (same : ∀ d : Directory, d.object ≠ h → T' d = T d)
    (fields : T' (.fields h) = T (.fields h)) :
    (s.setContext h c).withMaps T' = (s.withMaps T).setContext h (c.withMaps h T') := by
  have contexts : ((s.setContext h c).withMaps T').contexts =
      ((s.withMaps T).setContext h (c.withMaps h T')).contexts := by
    funext k
    simp only [Store.withMaps, setContext_contexts]
    by_cases here : k = h
    · simp [here]
    · simp only [if_neg here, Context.withMaps, same (.constructs k) here, same (.vars k) here]
  have constructs : ((s.setContext h c).withMaps T').constructs =
      ((s.withMaps T).setContext h (c.withMaps h T')).constructs := by
    funext k
    simp only [Store.withMaps, setContext_constructs, Construct.withMaps]
    by_cases here : k = h
    · rw [here, fields]
    · rw [same (.fields k) here]
  unfold Store.setContext Store.withMaps at contexts constructs ⊢
  simp only [Store.mk.injEq, and_true] at contexts constructs ⊢
  exact ⟨contexts, constructs⟩

theorem setConstruct_withMaps {c : Construct L} (same : ∀ d, d ≠ .fields h → T' d = T d) :
    (s.setConstruct h c).withMaps T' = (s.withMaps T).setConstruct h (c.withMaps h T') := by
  have contexts : ((s.setConstruct h c).withMaps T').contexts =
      ((s.withMaps T).setConstruct h (c.withMaps h T')).contexts := by
    funext k
    simp only [Store.withMaps, setConstruct_contexts, Context.withMaps]
    rw [same (.constructs k) (by simp), same (.vars k) (by simp)]
  have constructs : ((s.setConstruct h c).withMaps T').constructs =
      ((s.withMaps T).setConstruct h (c.withMaps h T')).constructs := by
    funext k
    simp only [Store.withMaps, setConstruct_constructs]
    by_cases here : k = h
    · simp [here]
    · have other : Directory.fields k ≠ .fields h := fun clash => here (Directory.fields.inj clash)
      simp only [if_neg here, Construct.withMaps, same _ other]
  unfold Store.setConstruct Store.withMaps at contexts constructs ⊢
  simp only [Store.mk.injEq, and_true] at contexts constructs ⊢
  exact ⟨contexts, constructs⟩

theorem freezeFieldType_withMaps (s : Store L) (fieldType : FieldType) (T : Maps) :
    (freezeFieldType s fieldType).withMaps T = freezeFieldType (s.withMaps T) fieldType := by
  unfold freezeFieldType
  split
  · simp only [Store.withMaps]
    cases s.constructs fieldType.ref with
    | none => rfl
    | some c => exact setConstruct_withMaps fun _ _ => rfl
  · split
    · simp only [Store.withMaps]
      cases s.arrays fieldType.ref <;> rfl
    · rfl

theorem getFieldTypeSizeAlign_withMaps (s : Store L) (platform : Platform) (fieldType : FieldType)
    (T : Maps) :
    getFieldTypeSizeAlign (s.withMaps T) platform fieldType =
      getFieldTypeSizeAlign s platform fieldType := by
  simp only [getFieldTypeSizeAlign, Store.withMaps, deref]
  cases s.constructs fieldType.ref <;> rfl

theorem map_bind {ε α β γ : Type} (e : Except ε α) (f : α → β) (g : β → Except ε γ) :
    e.map f >>= g = e >>= fun a => g (f a) := by cases e <;> rfl

theorem deref_contexts (s : Store L) (T : Maps) (h : Handle) :
    deref (s.withMaps T).contexts h = (deref s.contexts h).map (·.withMaps h T) := by
  simp only [deref, Store.withMaps]
  cases s.contexts h <;> rfl

theorem deref_constructs (s : Store L) (T : Maps) (h : Handle) :
    deref (s.withMaps T).constructs h = (deref s.constructs h).map (·.withMaps h T) := by
  simp only [deref, Store.withMaps]
  cases s.constructs h <;> rfl

/-! Maps that stay as they are go past every write. -/

theorem setContext_past (s : Store L) (T : Maps) (h : Handle) (c : Context L) :
    (s.setContext h c).withMaps T = (s.withMaps T).setContext h (c.withMaps h T) :=
  setContext_withMaps (fun _ _ => rfl) rfl

theorem setConstruct_past (s : Store L) (T : Maps) (h : Handle) (c : Construct L) :
    (s.setConstruct h c).withMaps T = (s.withMaps T).setConstruct h (c.withMaps h T) :=
  setConstruct_withMaps fun _ _ => rfl

theorem setArray_past (s : Store L) (T : Maps) (h : Handle) (a : ArrayType L) :
    (s.setArray h a).withMaps T = (s.withMaps T).setArray h a := rfl

theorem setPointer_past (s : Store L) (T : Maps) (h : Handle) (p : Pointer) :
    (s.setPointer h p).withMaps T = (s.withMaps T).setPointer h p := rfl

theorem setVariable_past (s : Store L) (T : Maps) (h : Handle) (v : Variable) :
    (s.setVariable h v).withMaps T = (s.withMaps T).setVariable h v := rfl

@[simp] theorem withMaps_contexts (s : Store L) (T : Maps) (h : Handle) :
    (s.withMaps T).contexts h = (s.contexts h).map (·.withMaps h T) := rfl

@[simp] theorem withMaps_constructs (s : Store L) (T : Maps) (h : Handle) :
    (s.withMaps T).constructs h = (s.constructs h).map (·.withMaps h T) := rfl

end Above

section Unnamed

/-! The calls that name nothing do not depend on the maps. -/

variable {m : Machine} {mem : Memory} {T : Maps} {α : Type}

theorem guarded_withMaps {checks : Except Stop α} {commit commit' : α → Except Fault Return}
    (same : ∀ plan, commit' plan = (commit plan).map (·.withMaps T)) :
    guarded (m.withMaps T) checks commit' = (guarded m checks commit).map (·.withMaps T) := by
  cases checks with
  | error stop => cases stop <;> rfl
  | ok plan => exact same plan

theorem pushBackOr_withMaps {list : UTArray α} {elem : α} {oom oom' : UTArray α → Return}
    {stored stored' : UTArray α → Except Fault Return}
    (failed : ∀ grown, oom' grown = (oom grown).withMaps T)
    (kept : ∀ grown, stored' grown = (stored grown).map (·.withMaps T)) :
    pushBackOr list elem mem oom' stored' =
      (pushBackOr list elem mem oom stored).map (·.withMaps T) := by
  unfold pushBackOr
  cases list.pushBack elem mem.realloc with
  | none => rfl
  | some pushed =>
    cases pushed with
    | oom grown => exact congrArg Except.ok (failed grown)
    | stored grown => exact kept grown

theorem contextCreatePointer_withMaps (context : Option Handle) (fieldType : Option FieldType)
    (ret : Bool) :
    contextCreatePointer (m.withMaps T) mem context fieldType ret =
      (contextCreatePointer m mem context fieldType ret).map (·.withMaps T) := by
  apply guarded_withMaps
  rintro ⟨owner, fieldType⟩
  dsimp only [Machine.withMaps]
  cases mem.calloc with
  | false => rfl
  | true =>
    rw [withMaps_contexts]
    cases m.store.contexts owner with
    | none => rfl
    | some record =>
      apply pushBackOr_withMaps
      · intro grown
        simp only [Machine.enomem, Return.withMaps, Machine.withMaps, setContext_past]
        rfl
      · intro grown
        simp only [Except.map, Return.withMaps, Machine.withMaps, setPointer_past, setContext_past]
        rfl

theorem contextCreateArray_withMaps (context : Option Handle) (fieldType : Option FieldType)
    (ret : Bool) :
    contextCreateArray (m.withMaps T) mem context fieldType ret =
      (contextCreateArray m mem context fieldType ret).map (·.withMaps T) := by
  have checks : contextCreateArrayChecks (m.withMaps T).store context fieldType ret =
      contextCreateArrayChecks m.store context fieldType ret := by
    simp only [contextCreateArrayChecks, Machine.withMaps, deref_contexts, map_bind,
      getFieldTypeSizeAlign_withMaps]
    rfl
  unfold contextCreateArray
  rw [checks]
  apply guarded_withMaps
  intro plan
  dsimp only [Machine.withMaps]
  cases mem.calloc with
  | false => rfl
  | true =>
    cases mem.malloc with
    | false => rfl
    | true =>
      rw [withMaps_contexts]
      cases m.store.contexts plan.context with
      | none => rfl
      | some record =>
        apply pushBackOr_withMaps
        · intro grown
          simp only [Machine.enomem, Return.withMaps, Machine.withMaps, setContext_past]
          rfl
        · intro grown
          simp only [Except.map, Return.withMaps, Machine.withMaps, freezeFieldType_withMaps,
            setArray_past, setContext_past]
          rfl

theorem arrayAddDimension_withMaps (array : Option Handle) (dimension : Option Dimension) :
    arrayAddDimension (m.withMaps T) mem array dimension =
      (arrayAddDimension m mem array dimension).map (·.withMaps T) := by
  apply guarded_withMaps
  rintro ⟨array, dimension⟩
  dsimp only [Machine.withMaps]
  cases mem.calloc with
  | false => rfl
  | true =>
    have records : (m.store.withMaps T).arrays array = m.store.arrays array := rfl
    rw [records]
    cases m.store.arrays array with
    | none => rfl
    | some record => exact pushBackOr_withMaps (fun _ => rfl) fun _ => rfl

end Unnamed

section Tables

variable {hashFunction : CString → BitVec 32} {fuel : Nat} {t : NameTables} {next after : Handle}
variable {T : Maps} {d : Directory} {name : CString}

/-- The tables are the finite maps: each of them is sound and has the entries of its map. No
object is in two tables, and all are older than `next`. -/
structure Stands (hashFunction : CString → BitVec 32) (t : NameTables) (next : Handle) (T : Maps) :
    Prop where
  refines : ∀ d, Refines hashFunction (t.table d) (T d)
  apart : ∀ d d', d ≠ d' → ∀ entry ∈ (T d).entries, ∀ other ∈ (T d').entries, entry.2 ≠ other.2
  older : ∀ d, ∀ entry ∈ (T d).entries, entry.2 < next
  short : ∀ d, ∀ entry ∈ (T d).entries, entry.1.length < 2 ^ 32
  unborn : ∀ d, next ≤ d.object → T d = UTHash.empty

theorem Stands.later (stands : Stands hashFunction t next T) (later : next ≤ after) :
    Stands hashFunction t after T :=
  ⟨stands.refines, stands.apart,
    fun d entry member => Nat.lt_of_lt_of_le (stands.older d entry member) later, stands.short,
    fun d beyond => stands.unborn d (Nat.le_trans later beyond)⟩

/-- A table that no longer is, or is not yet. -/
theorem Stands.emptied (stands : Stands hashFunction t next T) (gone : Directory → Prop)
    [DecidablePred gone] {t' : NameTables} (handles : t'.handles = t.handles)
    (roots : ∀ d, t'.root d = if gone d then none else t.root d) :
    Stands hashFunction t' next fun d => if gone d then UTHash.empty else T d := by
  have below (d : Directory) {entry : CString × Handle}
      (member : entry ∈ (if gone d then UTHash.empty else T d).entries) : entry ∈ (T d).entries := by
    split at member
    · cases member
    · exact member
  refine ⟨?_, ?_, ?_, ?_, ?_⟩
  · intro d
    rw [NameTables.table, handles, roots]
    split
    · exact Refines.empty hashFunction t.handles
    · exact stands.refines d
  · exact fun d d' other entry here entry' there =>
      stands.apart d d' other entry (below d here) entry' (below d' there)
  · exact fun d entry member => stands.older d entry (below d member)
  · exact fun d entry member => stands.short d entry (below d member)
  · intro d beyond
    split
    · rfl
    · exact stands.unborn d beyond

/-- The heads of a new block stand for the maps that nothing was added to. -/
theorem Stands.zeroed (stands : Stands hashFunction t next T) :
    Stands hashFunction (t.zeroed next) next T := by
  have same : (fun d : Directory => if d.object = next then UTHash.empty else T d) = T := by
    funext d
    split
    · rename_i here
      exact (stands.unborn d (Nat.le_of_eq here.symm)).symm
    · rfl
  exact same ▸ stands.emptied (fun d => d.object = next) rfl fun _ => rfl

/-- A look-up that comes back finds an entry of the name, or there is none. -/
theorem Stands.answered (stands : Stands hashFunction t next T) (fits : name.length < 2 ^ 64)
    {out : Option Handle} (found : hashFind hashFunction fuel (t.table d) name (strlen name) = some out) :
    (∀ h, out = some h → (name, h) ∈ (T d).entries) ∧ (out = none → (T d).find name = none) := by
  have same {entry : CString × Handle} (member : entry ∈ (T d).entries) : recorded entry.1 = entry.1 := by
    rw [recorded, Nat.mod_eq_of_lt (stands.short d entry member), List.take_length]
  cases (stands.refines d).find fits found with
  | found member recorded =>
    refine ⟨fun h is => ?_, fun none => absurd none (by simp)⟩
    cases is
    rw [← recorded, same member]
    exact member
  | missing absent =>
    refine ⟨fun h is => absurd is (by simp), fun _ => ?_⟩
    apply List.lookup_eq_none_iff.mpr
    intro entry member
    have differs := absent entry member
    rw [same member] at differs
    simpa using Ne.symm differs

/-- A look-up comes back, and tells whether the name is taken. -/
theorem Stands.find (m : Machine) (fuel : Nat) (stands : Stands hashFunction t next T) (d : Directory)
    (fits : name.length < 2 ^ 64) :
    (Hashed.find hashFunction fuel ⟨m, t⟩ d name = .error (.fault .endlessLoop) ∧
        fuel ≤ (T d).entries.length + 1) ∨
      ∃ out, Hashed.find hashFunction fuel ⟨m, t⟩ d name = .ok out ∧
        out.isSome = ((T d).find name).isSome := by
  unfold Hashed.find
  cases found : hashFind hashFunction fuel (t.table d) name (strlen name) with
  | none =>
    refine .inl ⟨rfl, ?_⟩
    by_contra few
    have enough : ((T d).entries.map (·.2)).length < fuel := by
      rw [List.length_map]
      omega
    obtain ⟨out, answer, _⟩ := hashFind_spec (stands.refines d).sound enough name (strlen name)
    cases found.symm.trans answer
  | some out =>
    refine .inr ⟨out, rfl, ?_⟩
    obtain ⟨present, missing⟩ := stands.answered fits found
    cases out with
    | none => rw [missing rfl]
    | some h =>
      cases there : (T d).find name with
      | some other => rfl
      | none =>
        have differs := List.lookup_eq_none_iff.mp there _ (present h rfl)
        simp at differs

theorem Stands.fresh (stands : Stands hashFunction t next T) (d : Directory) :
    next ∉ (T d).entries.map (·.2) := by
  intro member
  obtain ⟨entry, there, same⟩ := List.mem_map.mp member
  exact Nat.lt_irrefl next (same ▸ stands.older d entry there)

theorem Stands.uncontained (stands : Stands hashFunction t next T) (d : Directory) :
    ¬ Contains (t.table d) next :=
  fun member => stands.fresh d ((contains_iff (stands.refines d).sound).mp member)

/-- An insertion that failed leaves the maps. -/
theorem Stands.refused (stands : Stands hashFunction t next T) {added : HashAdded HashRoot}
    (refused : Vendor.Refused (t.table d) next added) :
    Stands hashFunction (t.inserted d added) (next + 1) T := by
  refine ⟨?_, stands.apart, ?_, stands.short, ?_⟩
  · intro d'
    by_cases same : d' = d
    · subst same
      rw [NameTables.inserted_here]
      exact (stands.refines d').refused (stands.uncontained d') refused
    · rw [NameTables.inserted_elsewhere same]
      refine (stands.refines d').congr fun entry member => refused.elsewhere _ ?_
      exact Nat.ne_of_lt (stands.older d' entry member)
  · exact fun d' entry member => Nat.lt_succ_of_lt (stands.older d' entry member)
  · exact fun d' beyond => stands.unborn d' (Nat.le_of_succ_le beyond)

/-- An insertion that files its object adds it to one map. -/
theorem Stands.accepted (stands : Stands hashFunction t next T) (object : d.object ≤ next)
    (short : name.length < 2 ^ 32) {added : HashAdded HashRoot}
    (accepted : Accepted hashFunction (t.table d) ((T d).entries.map (·.2)) next name (strlen name)
      added) :
    Stands hashFunction (t.inserted d added) (next + 1)
      (Function.update T d { entries := (T d).entries ++ [(name, next)] }) := by
  have cases_ {d' : Directory} {entry : CString × Handle} (member : entry ∈
      (Function.update T d { entries := (T d).entries ++ [(name, next)] } d').entries) :
      entry ∈ (T d').entries ∨ d' = d ∧ entry = (name, next) := by
    by_cases same : d' = d
    · subst same
      rw [Function.update_self] at member
      rcases List.mem_append.mp member with old | new
      · exact .inl old
      · exact .inr ⟨rfl, List.mem_singleton.mp new⟩
    · rw [Function.update_of_ne same] at member
      exact .inl member
  refine ⟨?_, ?_, ?_, ?_, ?_⟩
  · intro d'
    by_cases same : d' = d
    · subst same
      rw [NameTables.inserted_here, Function.update_self]
      exact (stands.refines d').accepted (stands.uncontained d') accepted
    · rw [NameTables.inserted_elsewhere same, Function.update_of_ne same]
      refine (stands.refines d').congr fun entry member => accepted.outside _ ?_ ?_
      · exact Nat.ne_of_lt (stands.older d' entry member)
      · intro there
        obtain ⟨old, inside, clash⟩ := List.mem_map.mp there
        exact stands.apart d' d same entry member old inside clash.symm
  · intro d' d'' other entry here entry' there
    rcases cases_ here with old | ⟨same, new⟩
    · rcases cases_ there with old' | ⟨same', new'⟩
      · exact stands.apart d' d'' other entry old entry' old'
      · rw [new']
        exact Nat.ne_of_lt (stands.older d' entry old)
    · rcases cases_ there with old' | ⟨same', new'⟩
      · rw [new]
        exact (Nat.ne_of_lt (stands.older d'' entry' old')).symm
      · exact absurd (same.trans same'.symm) other
  · intro d' entry member
    rcases cases_ member with old | ⟨same, new⟩
    · exact Nat.lt_succ_of_lt (stands.older d' entry old)
    · rw [new]
      exact Nat.lt_succ_self next
  · intro d' entry member
    rcases cases_ member with old | ⟨same, new⟩
    · exact stands.short d' entry old
    · rw [new]
      exact short
  · intro d' beyond
    have other : d' ≠ d := by
      rintro rfl
      exact absurd (Nat.lt_of_lt_of_le (Nat.lt_succ_of_le object) beyond) (Nat.lt_irrefl _)
    rw [Function.update_of_ne other]
    exact stands.unborn d' (Nat.le_of_succ_le beyond)

/-- An insertion of a new object comes back. -/
theorem Stands.addKeyptr (stands : Stands hashFunction t next T) (d : Directory)
    (object : d.object ≤ next) (short : name.length < 2 ^ 32) {malloc : UthashMalloc}
    (limited : Limited malloc) :
    (hashAddKeyptr hashFunction malloc fuel (t.table d) name (strlen name) next = none ∧
        fuel ≤ (T d).entries.length + 1) ∨
      ∃ added, hashAddKeyptr hashFunction malloc fuel (t.table d) name (strlen name) next =
          some added ∧
        (added.oomed = true ∧ Stands hashFunction (t.inserted d added) (next + 1) T ∨
          added.oomed = false ∧ Stands hashFunction (t.inserted d added) (next + 1)
            (Function.update T d { entries := (T d).entries ++ [(name, next)] })) := by
  have refines := stands.refines d
  cases finished : hashAddKeyptr hashFunction malloc fuel (t.table d) name (strlen name) next with
  | none =>
    refine .inl ⟨rfl, ?_⟩
    by_contra few
    have enough : ((T d).entries.map (·.2)).length + 1 < fuel := by
      rw [List.length_map]
      omega
    obtain ⟨added, answer, _⟩ :=
      hashAddKeyptr_spec refines.sound (stands.fresh d) enough limited name (strlen name)
    cases finished.symm.trans answer
  | some added =>
    refine .inr ⟨added, rfl, ?_⟩
    rcases (refines.added (stands.uncontained d) limited finished).2 with refused | accepted
    · exact .inl ⟨refused.oomed, stands.refused refused⟩
    · exact .inr ⟨accepted.stored, stands.accepted object short accepted⟩

end Tables

section Calls

variable {hashFunction : CString → BitVec 32} {fuel : Nat} {t : NameTables} {m : Machine}
variable {mem : HashMemory} {T : Maps} {α : Type}

/-- A call with tables left as a call with maps did, and the tables stand for maps again. -/
inductive Agrees (hashFunction : CString → BitVec 32) :
    Except Fault HashedReturn → Except Fault Return → Prop where
  | fault (fault : Fault) : Agrees hashFunction (.error fault) (.error fault)
  | returned {r : HashedReturn} {T : Maps}
      (stands : Stands hashFunction r.state.tables r.state.machine.heap.next T) :
      Agrees hashFunction (.ok r)
        (.ok { code := r.code, machine := r.state.machine.withMaps T, value := r.value })

/-- Some table has as many items as the loops have fuel. -/
def RunsOut (fuel : Nat) (T : Maps) : Prop := ∃ d, fuel ≤ (T d).entries.length + 1

/-- For some outcome of the insertion a call with tables leaves as the one with maps, unless
its loops run out of fuel. -/
def Settles (hashFunction : CString → BitVec 32) (fuel : Nat) (T : Maps)
    (hashed : Except Fault HashedReturn) (mapped : Bool → Except Fault Return) : Prop :=
  (hashed = .error .endlessLoop ∧ RunsOut fuel T) ∨
    ∃ insert, Agrees hashFunction hashed (mapped insert)

/-- Checks with tables pass as checks with maps do, unless a loop runs out of fuel. -/
def Checked (fuel : Nat) (T : Maps) (hashed mapped : Except Stop α) : Prop :=
  (hashed = .error (.fault .endlessLoop) ∧ RunsOut fuel T) ∨ hashed = mapped

namespace Checked

variable {β : Type}

theorem rfl {checks : Except Stop α} : Checked fuel T checks checks := .inr (Eq.refl checks)

/-- One check after the other. -/
theorem bind {hashed mapped : Except Stop α} {rest rest' : α → Except Stop β}
    (first : Checked fuel T hashed mapped)
    (later : ∀ a, mapped = .ok a → Checked fuel T (rest a) (rest' a)) :
    Checked fuel T (hashed >>= rest) (mapped >>= rest') := by
  rcases first with ⟨stuck, out⟩ | same
  · subst stuck
    exact .inl ⟨Eq.refl _, out⟩
  · subst same
    cases hashed with
    | error stop => exact rfl
    | ok a => exact later a (Eq.refl _)

/-- A check that a name is not taken. -/
theorem taken (stands : Stands hashFunction t m.heap.next T) (d : Directory) {name : CString}
    (short : name.length < 2 ^ 32) (error : MamError) (rest : Except Stop β) :
    Checked fuel T
      (Hashed.find hashFunction fuel ⟨m, t⟩ d name >>= fun out =>
        refute out.isSome error >>= fun _ => rest)
      (refute ((T d).find name).isSome error >>= fun _ => rest) := by
  have fits : name.length < 2 ^ 64 := Nat.lt_trans short (by decide)
  rcases stands.find m fuel d fits with ⟨stuck, out⟩ | ⟨out, found, same⟩
  · rw [stuck]
    exact .inl ⟨Eq.refl _, d, out⟩
  · rw [found, ← same]
    exact rfl

end Checked

theorem Settles.agrees {hashed : Except Fault HashedReturn} {mapped : Bool → Except Fault Return}
    (agrees : Agrees hashFunction hashed (mapped true)) : Settles hashFunction fuel T hashed mapped :=
  .inr ⟨true, agrees⟩

/-- What a call leaves beside its tables. -/
theorem Agrees.beside {out : Except Fault Return} (stands : Stands hashFunction t m.heap.next T)
    (later : ∀ r, out = .ok r → m.heap.next ≤ r.machine.heap.next) :
    Agrees hashFunction (out.map (·.beside t)) (out.map (·.withMaps T)) := by
  cases out with
  | error fault => exact .fault fault
  | ok r => exact .returned (r := r.beside t) (stands.later (later r rfl))

theorem Agrees.left {r r' : Return} (stands : Stands hashFunction t r.machine.heap.next T)
    (same : r.withMaps T = r') : Agrees hashFunction (.ok (r.beside t)) (.ok r') := by
  subst same
  exact .returned (r := r.beside t) stands

theorem guarded_settles {checks checks' : Except Stop α} {commit' : α → Except Fault HashedReturn}
    {commit : Bool → α → Except Fault Return} (stands : Stands hashFunction t m.heap.next T)
    (same : Checked fuel T checks' checks)
    (settles : ∀ plan, checks = .ok plan →
      Settles hashFunction fuel T (commit' plan) fun insert => commit insert plan) :
    Settles hashFunction fuel T (Hashed.guarded ⟨m, t⟩ checks' commit') fun insert =>
      guarded (m.withMaps T) checks (commit insert) := by
  rcases same with ⟨stuck, out⟩ | same
  · subst stuck
    exact .inl ⟨rfl, out⟩
  · subst same
    cases checks' with
    | error stop =>
      cases stop with
      | fault fault => exact .agrees (.fault fault)
      | code error => exact .agrees (.returned stands)
    | ok plan => exact settles plan rfl

theorem tested_settles {memory : Bool} {failed' : HashedReturn} {rest' : Except Fault HashedReturn}
    {failed : Return} {rest : Bool → Except Fault Return}
    (refused : Agrees hashFunction (.ok failed') (.ok failed))
    (settles : Settles hashFunction fuel T rest' rest) :
    Settles hashFunction fuel T (if !memory then .ok failed' else rest') fun insert =>
      if !memory then .ok failed else rest insert := by
  cases memory with
  | false => exact .agrees refused
  | true => exact settles

theorem pushBackOr_settles {list : UTArray α} {elem : α} {oom' : UTArray α → HashedReturn}
    {stored' : UTArray α → Except Fault HashedReturn} {oom : UTArray α → Return}
    {stored : Bool → UTArray α → Except Fault Return}
    (failed : ∀ grown, Agrees hashFunction (.ok (oom' grown)) (.ok (oom grown)))
    (kept : ∀ grown, Settles hashFunction fuel T (stored' grown) fun insert => stored insert grown) :
    Settles hashFunction fuel T (Hashed.pushBackOr mem list elem oom' stored') fun insert =>
      pushBackOr list elem (mem.inserting insert) oom (stored insert) := by
  dsimp only [Hashed.pushBackOr, pushBackOr, HashMemory.inserting]
  cases list.pushBack elem mem.realloc with
  | none => exact .agrees (.fault _)
  | some pushed =>
    cases pushed with
    | oom grown => exact .agrees (failed grown)
    | stored grown => exact kept grown

theorem addKeyptrOr_settles {next : Handle} (stands : Stands hashFunction t next T) {d : Directory}
    (object : d.object ≤ next) {name : CString} (short : name.length < 2 ^ 32)
    (limited : Limited mem.uthash) {oom stored : Return} {mapped : Bool → Except Fault Return}
    (freed : oom.machine.heap.next = next + 1) (taken : stored.machine.heap.next = next + 1)
    (refused : mapped false = .ok (oom.withMaps T))
    (filed : mapped true =
      .ok (stored.withMaps (Function.update T d { entries := (T d).entries ++ [(name, next)] }))) :
    Settles hashFunction fuel T (Hashed.addKeyptrOr hashFunction fuel mem t d name next oom stored)
      mapped := by
  unfold Hashed.addKeyptrOr
  rcases stands.addKeyptr d object short limited with ⟨stuck, out⟩ | ⟨added, finished, outcome⟩
  · refine .inl ⟨?_, d, out⟩
    rw [stuck]
  · rw [finished]
    rcases outcome with ⟨oomed, after⟩ | ⟨oomed, after⟩
    · refine .inr ⟨false, ?_⟩
      simp only [oomed, if_true, refused]
      refine .returned (r := ⟨oom.code, ⟨oom.machine, t.inserted d added⟩, oom.value, _, _⟩) ?_
      exact freed ▸ after
    · refine .inr ⟨true, ?_⟩
      simp only [oomed, filed]
      refine .returned (r := ⟨stored.code, ⟨stored.machine, t.inserted d added⟩, stored.value, _, _⟩) ?_
      exact taken ▸ after

theorem contextCreate_settles (stands : Stands hashFunction t m.heap.next T)
    (name : Option CString) (platform : Option Platform) (ret : Bool) :
    Settles hashFunction fuel T (Hashed.contextCreate ⟨m, t⟩ mem name platform ret) fun insert =>
      contextCreate (m.withMaps T) (mem.inserting insert) name platform ret := by
  apply guarded_settles stands .rfl
  rintro ⟨name, platform⟩ _
  have zeroed := stands.zeroed.later (Nat.le_succ _)
  refine tested_settles (.returned (r := Return.beside _ t) stands) ?_
  refine tested_settles (.returned (r := Return.beside _ (t.zeroed _)) zeroed) (.agrees ?_)
  have agrees := Agrees.returned (r := Return.beside
    { code := .success
      machine :=
        { heap := m.heap.calloc.2
          store := m.store.setContext m.heap.calloc.1
            { name := name, platform := platform, pointers := UTArray.init,
              arrays := UTArray.init, constructs := UTArray.init, vars := UTArray.init,
              variablesNameHash := UTHash.empty, constructsNameHash := UTHash.empty } }
      value := some m.heap.calloc.1 } (t.zeroed m.heap.calloc.1)) zeroed
  simp only [Return.beside, Machine.withMaps, setContext_past, Context.withMaps] at agrees
  rw [stands.unborn (.constructs m.heap.calloc.1) (Nat.le_refl _),
    stands.unborn (.vars m.heap.calloc.1) (Nat.le_refl _)] at agrees
  exact agrees

/-- Names that calls add are shorter than 4 GiB. -/
def Op.Short (op : Op) : Prop := ∀ entry ∈ op.adds, entry.2.length < 2 ^ 32

instance (op : Op) : Decidable op.Short := inferInstanceAs (Decidable (∀ entry ∈ op.adds, _))

/-- A live object is older than the next one. -/
theorem older_of_bounded (bounded : Bounded (m.withMaps T).seen) {h : Handle} :
    (m.store.contexts h ≠ none → h < m.heap.next) ∧
      (m.store.constructs h ≠ none → h < m.heap.next) := by
  constructor
  · intro present
    by_contra later
    have absent := bounded.contexts h (Nat.not_lt.mp later)
    simp only [Machine.seen, Machine.withMaps, Store.view, withMaps_contexts, Option.map_map,
      Option.map_eq_none_iff] at absent
    exact present absent
  · intro present
    by_contra later
    have absent := bounded.constructs h (Nat.not_lt.mp later)
    simp only [Machine.seen, Machine.withMaps, Store.view, withMaps_constructs, Option.map_map,
      Option.map_eq_none_iff] at absent
    exact present absent

theorem contextCreateConstructChecks_settles (stands : Stands hashFunction t m.heap.next T)
    {context : Option Handle} {name : Option CString} {ret : Bool}
    (short : ∀ owner string, context = some owner → name = some string → string.length < 2 ^ 32) :
    Checked fuel T
      (Hashed.contextCreateConstructChecks hashFunction fuel ⟨m, t⟩ context name ret)
      (contextCreateConstructChecks (m.withMaps T).store context name ret) := by
  unfold Hashed.contextCreateConstructChecks contextCreateConstructChecks
  simp only [Machine.withMaps, deref_contexts, map_bind]
  refine .bind .rfl fun owner given => .bind .rfl fun string named => .bind .rfl fun _ _ =>
    .bind .rfl fun record present => ?_
  by_cases unnamed : string = []
  · simp only [unnamed]
    exact .rfl
  · simp only [ne_eq, unnamed, not_false_eq_true, decide_true, Bool.true_and]
    exact .taken stands (.constructs owner)
      (short owner string (checkPtr_eq_ok.mp given) (checkPtr_eq_ok.mp named)) _ _

theorem contextCreateConstruct_settles (stands : Stands hashFunction t m.heap.next T)
    (bounded : Bounded (m.withMaps T).seen) (limited : Limited mem.uthash) {type : ConstructType}
    {context : Option Handle} {name : Option CString} {packed ret : Bool}
    (short : (Op.contextCreateConstruct type context name packed ret).Short) :
    Settles hashFunction fuel T
      (Hashed.contextCreateConstruct hashFunction fuel ⟨m, t⟩ mem type context name packed ret)
      fun insert => contextCreateConstruct (m.withMaps T) (mem.inserting insert) type context name
        packed ret := by
  have small : ∀ owner string, context = some owner → name = some string →
      string.length < 2 ^ 32 := by
    rintro owner string rfl rfl
    exact short _ rfl
  apply guarded_settles stands (contextCreateConstructChecks_settles stands small)
  rintro ⟨owner, string⟩ passed
  simp only [contextCreateConstructChecks, bind_eq_ok, checkPtr_eq_ok] at passed
  obtain ⟨_, given, _, named, _, _, record', present', _, _, same⟩ := passed
  cases same
  have zeroed := stands.zeroed
  refine tested_settles (.returned (r := Return.beside _ t) stands) ?_
  refine tested_settles
    (.returned (r := Return.beside _ (t.zeroed _)) (zeroed.later (Nat.le_succ _))) ?_
  dsimp only [Machine.withMaps]
  rw [withMaps_contexts]
  cases present : m.store.contexts owner with
  | none => exact .agrees (.fault _)
  | some record =>
    have older : owner < m.heap.next := (older_of_bounded bounded).1 (by simp [present])
    refine pushBackOr_settles (fun grown => ?_) fun grown => ?_
    · refine .left (zeroed.later (Nat.le_succ _)) ?_
      simp only [Machine.enomem, Return.withMaps, Machine.withMaps, setContext_past]
      rfl
    · refine addKeyptrOr_settles (d := .constructs owner) zeroed (Nat.le_of_lt older)
        (small owner string given named) limited rfl rfl ?_ ?_
      · simp only [Return.withMaps, Machine.enomem, Machine.withMaps, setContext_past]
        rfl
      · have unborn := stands.unborn (.fields m.heap.next) (Nat.le_refl _)
        have other (e : Directory) (apart : e ≠ .constructs owner) (hash : UTHash Handle) :
            Function.update T (.constructs owner) hash e = T e := Function.update_of_ne apart _ _
        simp only [Return.withMaps, Machine.withMaps, setConstruct_past, Construct.withMaps]
        rw [setContext_withMaps (T := T) ?_ (other (.fields owner) (by simp) _)]
        · simp only [Context.withMaps, Function.update_self]
          rw [other (.fields m.heap.next) (by simp), other (.vars owner) (by simp), unborn]
          rfl
        · intro e apart
          exact other e (fun same => apart (same ▸ rfl)) _

theorem constructAddFieldChecks_settles (stands : Stands hashFunction t m.heap.next T)
    {construct : Option Handle} {name : Option CString} {fieldType : Option FieldType}
    {options : List FieldOption}
    (short : ∀ owner string, construct = some owner → name = some string → string.length < 2 ^ 32) :
    Checked fuel T
      (Hashed.constructAddFieldChecks hashFunction fuel ⟨m, t⟩ construct name fieldType options)
      (constructAddFieldChecks (m.withMaps T).store construct name fieldType options) := by
  unfold Hashed.constructAddFieldChecks constructAddFieldChecks
  simp only [Machine.withMaps, deref_contexts, deref_constructs, map_bind,
    getFieldTypeSizeAlign_withMaps]
  refine .bind .rfl fun owner given => .bind .rfl fun string named => .bind .rfl fun _ _ =>
    .bind .rfl fun record present => .bind .rfl fun _ _ => .bind .rfl fun _ _ => ?_
  exact .taken stands (.fields owner)
    (short owner string (checkPtr_eq_ok.mp given) (checkPtr_eq_ok.mp named)) _ _

theorem constructAddField_settles (stands : Stands hashFunction t m.heap.next T)
    (bounded : Bounded (m.withMaps T).seen) (limited : Limited mem.uthash)
    {construct : Option Handle} {name : Option CString} {fieldType : Option FieldType}
    {options : List FieldOption} (short : (Op.constructAddField construct name fieldType options).Short) :
    Settles hashFunction fuel T
      (Hashed.constructAddField hashFunction fuel ⟨m, t⟩ mem construct name fieldType options)
      fun insert => constructAddField (m.withMaps T) (mem.inserting insert) construct name fieldType
        options := by
  have small : ∀ owner string, construct = some owner → name = some string →
      string.length < 2 ^ 32 := by
    rintro owner string rfl rfl
    exact short _ rfl
  apply guarded_settles stands (constructAddFieldChecks_settles stands small)
  intro plan passed
  simp only [constructAddFieldChecks, bind_eq_ok, checkPtr_eq_ok] at passed
  obtain ⟨owner, given, string, named, _, _, _, _, _, _, _, _, _, _, _, _, _, _, _, _, _, _, same⟩ := passed
  cases same
  have later : Stands hashFunction t (m.heap.next + 1) T := stands.later (Nat.le_succ _)
  refine tested_settles (.returned (r := Return.beside _ t) stands) ?_
  dsimp only [Machine.withMaps]
  rw [withMaps_constructs]
  cases present : m.store.constructs owner with
  | none => exact .agrees (.fault _)
  | some record =>
    have older : owner < m.heap.next := (older_of_bounded bounded).2 (by simp [present])
    refine pushBackOr_settles (fun grown => ?_) fun grown => ?_
    · refine .left later ?_
      simp only [Machine.enomem, Return.withMaps, Machine.withMaps, setConstruct_past]
      rfl
    · refine addKeyptrOr_settles (d := .fields owner) stands (Nat.le_of_lt older)
        (small owner string given named) limited rfl rfl ?_ ?_
      · simp only [Return.withMaps, Machine.enomem, Machine.withMaps, setConstruct_past]
        rfl
      · simp only [Return.withMaps, Machine.withMaps, freezeFieldType_withMaps]
        rw [setConstruct_withMaps (T := T) fun e apart => Function.update_of_ne apart _ _]
        simp only [Construct.withMaps, Function.update_self]
        rfl

theorem contextCreateVariableChecks_settles (stands : Stands hashFunction t m.heap.next T)
    {context : Option Handle} {name : Option CString} {fieldType : Option FieldType} {ret : Bool}
    (short : ∀ owner string, context = some owner → name = some string → string.length < 2 ^ 32) :
    Checked fuel T
      (Hashed.contextCreateVariableChecks hashFunction fuel ⟨m, t⟩ context name fieldType ret)
      (contextCreateVariableChecks (m.withMaps T).store context name fieldType ret) := by
  unfold Hashed.contextCreateVariableChecks contextCreateVariableChecks
  simp only [Machine.withMaps, deref_contexts, map_bind, getFieldTypeSizeAlign_withMaps]
  refine .bind .rfl fun owner given => .bind .rfl fun string named => .bind .rfl fun _ _ =>
    .bind .rfl fun _ _ => .bind .rfl fun _ _ => .bind .rfl fun record present => ?_
  exact .taken stands (.vars owner)
    (short owner string (checkPtr_eq_ok.mp given) (checkPtr_eq_ok.mp named)) _ _

theorem contextCreateVariable_settles (stands : Stands hashFunction t m.heap.next T)
    (bounded : Bounded (m.withMaps T).seen) (limited : Limited mem.uthash) {context : Option Handle}
    {name : Option CString} {fieldType : Option FieldType} {ret : Bool}
    (short : (Op.contextCreateVariable context name fieldType ret).Short) :
    Settles hashFunction fuel T
      (Hashed.contextCreateVariable hashFunction fuel ⟨m, t⟩ mem context name fieldType ret)
      fun insert => contextCreateVariable (m.withMaps T) (mem.inserting insert) context name fieldType
        ret := by
  have small : ∀ owner string, context = some owner → name = some string →
      string.length < 2 ^ 32 := by
    rintro owner string rfl rfl
    exact short _ rfl
  apply guarded_settles stands (contextCreateVariableChecks_settles stands small)
  intro plan passed
  simp only [contextCreateVariableChecks, bind_eq_ok, checkPtr_eq_ok] at passed
  obtain ⟨owner, given, string, named, type, _, _, _, _, _, _, _, _, _, _, _, same⟩ := passed
  cases same
  have later : Stands hashFunction t (m.heap.next + 1) T := stands.later (Nat.le_succ _)
  refine tested_settles (.returned (r := Return.beside _ t) stands) ?_
  dsimp only [Machine.withMaps]
  rw [← freezeFieldType_withMaps, withMaps_contexts]
  cases present : (freezeFieldType m.store type).contexts owner with
  | none => exact .agrees (.fault _)
  | some record =>
    have older : owner < m.heap.next := by
      apply (older_of_bounded bounded).1
      rw [freezeFieldType_contexts] at present
      simp [present]
    refine pushBackOr_settles (fun grown => ?_) fun grown => ?_
    · refine .left later ?_
      simp only [Machine.enomem, Return.withMaps, Machine.withMaps, setContext_past]
      rfl
    · refine addKeyptrOr_settles (d := .vars owner) stands (Nat.le_of_lt older)
        (small owner string given named) limited rfl rfl ?_ ?_
      · simp only [Return.withMaps, Machine.enomem, Machine.withMaps, setContext_past]
        rfl
      · have other (e : Directory) (apart : e ≠ .vars owner) (hash : UTHash Handle) :
            Function.update T (.vars owner) hash e = T e := Function.update_of_ne apart _ _
        simp only [Return.withMaps, Machine.withMaps, setVariable_past]
        rw [setContext_withMaps (T := T) ?_ (other (.fields owner) (by simp) _)]
        · simp only [Context.withMaps, Function.update_self]
          rw [other (.constructs owner) (by simp)]
          rfl
        · intro e apart
          exact other e (fun same => apart (same ▸ rfl)) _

/-- Every call with tables leaves as the call with maps. -/
theorem exec_settles (fuel : Nat) (stands : Stands hashFunction t m.heap.next T)
    (bounded : Bounded (m.withMaps T).seen) (limited : Limited mem.uthash) {op : Op}
    (short : op.Short) :
    Settles hashFunction fuel T (Hashed.exec hashFunction fuel ⟨m, t⟩ mem op) fun insert =>
      exec (m.withMaps T) (mem.inserting insert) op := by
  have later (op : Op) (r : Return) (returned : exec m (mem.inserting true) op = .ok r) :
      m.heap.next ≤ r.machine.heap.next := by
    have step : Step m ⟨op, mem.inserting true, r⟩ r.machine := ⟨returned, rfl⟩
    exact step.change.next_le
  cases op with
  | contextCreate name platform ret => exact contextCreate_settles stands name platform ret
  | contextCreateConstruct type context name packed ret =>
    exact contextCreateConstruct_settles stands bounded limited short
  | constructAddField construct name fieldType options =>
    exact constructAddField_settles stands bounded limited short
  | contextCreateVariable context name fieldType ret =>
    exact contextCreateVariable_settles stands bounded limited short
  | contextCreatePointer context fieldType ret =>
    refine .agrees ?_
    simp only [exec, contextCreatePointer_withMaps]
    exact .beside stands (later (.contextCreatePointer context fieldType ret))
  | contextCreateArray context fieldType ret =>
    refine .agrees ?_
    simp only [exec, contextCreateArray_withMaps]
    exact .beside stands (later (.contextCreateArray context fieldType ret))
  | arrayAddDimension array dimension =>
    refine .agrees ?_
    simp only [exec, arrayAddDimension_withMaps]
    exact .beside stands (later (.arrayAddDimension array dimension))

end Calls

section Destruction

variable {hashFunction : CString → BitVec 32} {t : NameTables} {m : Machine} {T : Maps}

theorem free_withMaps (m : Machine) (block : Handle) (T : Maps) :
    (m.free block).withMaps T = (m.withMaps T).free block := by
  have contexts : (fun h => (Function.update m.store.contexts block none h).map (·.withMaps h T)) =
      Function.update (fun h => (m.store.contexts h).map (·.withMaps h T)) block none := by
    funext h
    rw [Function.update_apply, Function.update_apply]
    split <;> rfl
  have constructs : (fun h => (Function.update m.store.constructs block none h).map (·.withMaps h T)) =
      Function.update (fun h => (m.store.constructs h).map (·.withMaps h T)) block none := by
    funext h
    rw [Function.update_apply, Function.update_apply]
    split <;> rfl
  unfold Machine.free Machine.withMaps Store.withMaps Store.drop
  simp only [contexts, constructs]

theorem freeAll_withMaps (m : Machine) (blocks : List Handle) (T : Maps) :
    (m.freeAll blocks).withMaps T = (m.withMaps T).freeAll blocks := by
  induction blocks generalizing m with
  | nil => rfl
  | cons block rest ih =>
    refine (ih (m.free block)).trans ?_
    rw [free_withMaps]
    rfl

/-- A loop of destructions that do not depend on the maps does not either. -/
theorem foldlM_withMaps {destroy : Machine → Handle → Except Fault Machine}
    (same : ∀ m h, destroy (m.withMaps T) h = (destroy m h).map (·.withMaps T)) (m : Machine)
    (hs : List Handle) :
    hs.foldlM destroy (m.withMaps T) = (hs.foldlM destroy m).map (·.withMaps T) := by
  induction hs generalizing m with
  | nil => rfl
  | cons h rest ih =>
    rw [List.foldlM_cons, List.foldlM_cons, same]
    cases destroy m h with
    | error fault => rfl
    | ok next => exact ih next

theorem pointerDestroy_withMaps (m : Machine) (h : Handle) :
    pointerDestroy (m.withMaps T) h = (pointerDestroy m h).map (·.withMaps T) :=
  congrArg Except.ok (free_withMaps m h T).symm

theorem arrayDestroy_withMaps (m : Machine) (h : Handle) :
    arrayDestroy (m.withMaps T) h = (arrayDestroy m h).map (·.withMaps T) := by
  unfold arrayDestroy
  have records : (m.withMaps T).store.arrays h = m.store.arrays h := rfl
  rw [records]
  cases m.store.arrays h with
  | none => rfl
  | some record =>
    simp only [Except.map, free_withMaps, freeAll_withMaps]

theorem constructDestroy_withMaps (m : Machine) (h : Handle) :
    constructDestroy (m.withMaps T) h = (constructDestroy m h).map (·.withMaps T) := by
  unfold constructDestroy
  have records : (m.withMaps T).store.constructs h = (m.store.constructs h).map (·.withMaps h T) := rfl
  rw [records]
  cases m.store.constructs h with
  | none => rfl
  | some record =>
    simp only [Except.map, free_withMaps, freeAll_withMaps]
    rfl

/-- The tables that `mam_context_destroy` clears. -/
def Machine.directories (m : Machine) (context : Option Handle) : List Directory :=
  match context with
  | none => []
  | some k =>
    match m.store.contexts k with
    | none => []
    | some record => [.vars k, .constructs k] ++ record.constructs.visited.map .fields

/-- The loop over the constructs clears their tables and nothing else. -/
theorem constructsDestroy_eq (m : Machine) (t : NameTables) (freed : List Block) (hs : List Handle) :
    hs.foldlM Hashed.constructDestroy (⟨m, t⟩, freed) = (hs.foldlM constructDestroy m).map fun m =>
      (⟨m, t.clearedAll (hs.map .fields)⟩, freed ++ t.given (hs.map .fields)) := by
  induction hs generalizing m t freed with
  | nil =>
    change Except.ok _ = Except.ok _
    rw [List.map_nil, NameTables.given, List.append_nil]
    rfl
  | cons h rest ih =>
    rw [List.foldlM_cons, List.foldlM_cons]
    unfold Hashed.constructDestroy
    cases constructDestroy m h with
    | error fault => rfl
    | ok next =>
      refine (ih next (t.cleared (.fields h)) _).trans ?_
      rw [List.map_cons, NameTables.given, ← List.append_assoc]
      rfl

/-- Destroying with tables is destroying, and clearing the tables of what is destroyed. -/
theorem contextDestroy_beside (m : Machine) (t : NameTables) (context : Option Handle) :
    Hashed.contextDestroy ⟨m, t⟩ context = (contextDestroy m context).map fun r =>
      { code := r.code, state := ⟨r.machine, t.clearedAll (m.directories context)⟩
        value := r.value, obtained := [], freed := t.given (m.directories context) } := by
  cases context with
  | none => rfl
  | some k =>
    simp only [Hashed.contextDestroy, contextDestroy, Hashed.guarded, guarded, checkPtr,
      Machine.directories]
    cases m.store.contexts k with
    | none => rfl
    | some record =>
      simp only
      cases destroyEach pointerDestroy m record.pointers with
      | error fault => rfl
      | ok m =>
        simp only [bind, Except.bind]
        cases destroyEach arrayDestroy m record.arrays with
        | error fault => rfl
        | ok m =>
          simp only [constructsDestroy_eq]
          rw [destroyEach]
          cases record.constructs.visited.foldlM constructDestroy m with
          | error fault => rfl
          | ok m =>
            simp only [Except.map]
            cases destroyEach variableDestroy m record.vars with
            | error fault => rfl
            | ok m =>
              have both : t.given [.vars k, .constructs k] = (hashClear (t.root (.vars k))).2 ++
                  (hashClear (t.root (.constructs k))).2 := by
                simp [NameTables.given, NameTables.cleared]
              rw [NameTables.clearedAll_append, NameTables.given_append, both]
              rfl

/-- What is gone stays gone. -/
theorem freeAll_absent {m : Machine} {h : Handle} (absent : m.store.constructs h = none)
    (blocks : List Handle) : (m.freeAll blocks).store.constructs h = none := by
  induction blocks generalizing m with
  | nil => exact absent
  | cons block rest ih =>
    apply ih
    change Function.update m.store.constructs block none h = none
    rw [Function.update_apply, absent, ite_self]

/-- A loop over constructs leaves none of them. -/
theorem foldlM_constructs_gone {m next : Machine} {hs : List Handle}
    (done : hs.foldlM constructDestroy m = .ok next) : ∀ h ∈ hs, next.store.constructs h = none := by
  have frees {m : Machine} {h : Handle} {next : Machine} (freed : constructDestroy m h = .ok next) :
      (∃ blocks, next = m.freeAll blocks) ∧ next.store.constructs h = none := by
    unfold constructDestroy at freed
    split at freed
    · cases freed
    · cases freed
      exact ⟨⟨_, by rw [free_eq_freeAll, ← freeAll_append]⟩, Function.update_self _ _ _⟩
  induction hs generalizing m with
  | nil => exact fun h member => absurd member List.not_mem_nil
  | cons first rest ih =>
    rw [List.foldlM_cons] at done
    cases here : constructDestroy m first with
    | error fault =>
      rw [here] at done
      cases done
    | ok middle =>
      rw [here] at done
      intro h member
      rcases List.mem_cons.mp member with rfl | later
      · obtain ⟨blocks, same⟩ := foldlM_frees (fun _ _ _ freed => (frees freed).1) done
        rw [same]
        exact freeAll_absent (frees here).2 blocks
      · exact ih done h later

private theorem bind_done {α β : Type} {x : Except Fault α} {f : α → Except Fault β} {b : β}
    (returned : x >>= f = .ok b) : ∃ a, x = .ok a ∧ f a = .ok b := by
  cases x with
  | error fault => cases returned
  | ok a => exact ⟨a, rfl, returned⟩

/-- The objects whose tables were cleared are gone. -/
theorem contextDestroy_gone {m : Machine} {context : Option Handle} {r : Return}
    (returned : contextDestroy m context = .ok r) : ∀ d ∈ m.directories context,
      match d with
      | .constructs k | .vars k => r.machine.store.contexts k = none
      | .fields h => r.machine.store.constructs h = none := by
  cases context with
  | none => exact fun d member => absurd member List.not_mem_nil
  | some k =>
    simp only [contextDestroy, guarded, checkPtr, Machine.directories] at returned ⊢
    cases present : m.store.contexts k with
    | none => exact fun d member => absurd member List.not_mem_nil
    | some record =>
      simp only [present] at returned ⊢
      obtain ⟨m₁, pointers, returned⟩ := bind_done returned
      obtain ⟨m₂, arrays, returned⟩ := bind_done returned
      obtain ⟨m₃, constructs, returned⟩ := bind_done returned
      obtain ⟨m₄, vars, returned⟩ := bind_done returned
      cases returned
      have context : (m₄.free k).store.contexts k = none := Function.update_self _ _ _
      intro d member
      rcases List.mem_append.mp member with own | field
      · rcases List.mem_cons.mp own with rfl | last
        · exact context
        · obtain rfl := List.mem_singleton.mp last
          exact context
      · obtain ⟨h, listed, rfl⟩ := List.mem_map.mp field
        obtain ⟨blocks, rfl⟩ := foldlM_frees (fun m h next freed => by
          cases freed
          exact ⟨[h], rfl⟩) vars
        have gone := freeAll_absent (foldlM_constructs_gone constructs h listed) blocks
        exact freeAll_absent gone [k]

/-- Destroying does not depend on the maps. -/
theorem contextDestroy_withMaps (m : Machine) (T : Maps) (context : Option Handle) :
    contextDestroy (m.withMaps T) context = (contextDestroy m context).map (·.withMaps T) := by
  apply guarded_withMaps
  intro k
  have records : (m.withMaps T).store.contexts k = (m.store.contexts k).map (·.withMaps k T) := rfl
  rw [records]
  cases m.store.contexts k with
  | none => rfl
  | some record =>
    have pointers := foldlM_withMaps (T := T) pointerDestroy_withMaps m record.pointers.visited
    have arrays (m : Machine) :=
      foldlM_withMaps (T := T) arrayDestroy_withMaps m record.arrays.visited
    have constructs (m : Machine) :=
      foldlM_withMaps (T := T) constructDestroy_withMaps m record.constructs.visited
    have vars (m : Machine) : record.vars.visited.foldlM variableDestroy (m.withMaps T) =
        (record.vars.visited.foldlM variableDestroy m).map (·.withMaps T) :=
      foldlM_withMaps (T := T) pointerDestroy_withMaps m record.vars.visited
    simp only [Option.map_some, destroyEach, Context.withMaps, pointers, map_bind, arrays, constructs,
      vars]
    cases record.pointers.visited.foldlM pointerDestroy m with
    | error fault => rfl
    | ok m =>
      simp only [bind, Except.bind]
      cases record.arrays.visited.foldlM arrayDestroy m with
      | error fault => rfl
      | ok m =>
        simp only
        cases record.constructs.visited.foldlM constructDestroy m with
        | error fault => rfl
        | ok m =>
          simp only
          cases record.vars.visited.foldlM variableDestroy m with
          | error fault => rfl
          | ok m =>
            have last : (m.withMaps T).free k = (m.free k).withMaps T := (free_withMaps m k T).symm
            simp only [Except.map, pure, Except.pure, Return.withMaps, last]

/-- Maps of objects that are not there make no difference. -/
theorem withMaps_gone {s : Store UTArray} {T T' : Maps}
    (same : ∀ d, T' d = T d ∨ match d with
      | .constructs k | .vars k => s.contexts k = none
      | .fields h => s.constructs h = none) : s.withMaps T' = s.withMaps T := by
  have contexts : (s.withMaps T').contexts = (s.withMaps T).contexts := by
    funext k
    simp only [Store.withMaps]
    rcases same (.constructs k) with constructs | gone
    · rcases same (.vars k) with vars | gone
      · simp only [Context.withMaps, constructs, vars]
      · rw [gone]
        rfl
    · rw [gone]
      rfl
  have constructs : (s.withMaps T').constructs = (s.withMaps T).constructs := by
    funext h
    simp only [Store.withMaps]
    rcases same (.fields h) with fields | gone
    · simp only [Construct.withMaps, fields]
    · rw [gone]
      rfl
  unfold Store.withMaps at contexts constructs ⊢
  simp only [Store.mk.injEq, and_true] at contexts constructs ⊢
  exact ⟨contexts, constructs⟩

/-- Destroying with tables leaves as destroying with maps. -/
theorem contextDestroy_agrees {hashFunction : CString → BitVec 32}
    (stands : Stands hashFunction t m.heap.next T) (context : Option Handle) :
    Agrees hashFunction (Hashed.contextDestroy ⟨m, t⟩ context)
      (contextDestroy (m.withMaps T) context) := by
  rw [contextDestroy_beside, contextDestroy_withMaps]
  cases returned : contextDestroy m context with
  | error fault => exact .fault fault
  | ok r =>
    let gone (d : Directory) : Prop := d ∈ m.directories context
    let T' : Maps := fun d => if gone d then UTHash.empty else T d
    have next : r.machine.heap.next = m.heap.next := by
      obtain ⟨blocks, same⟩ := contextDestroy_frees returned
      rw [same, freeAll_next]
    have after : Stands hashFunction (t.clearedAll (m.directories context)) r.machine.heap.next T' := by
      rw [next]
      exact stands.emptied gone (NameTables.clearedAll_handles _)
        fun d => NameTables.clearedAll_root _ d
    have same : r.machine.withMaps T' = r.machine.withMaps T := by
      unfold Machine.withMaps
      congr 1
      apply withMaps_gone
      intro d
      by_cases member : gone d
      · exact .inr (contextDestroy_gone returned d member)
      · exact .inl (if_neg member)
    have agrees := Agrees.returned (r := ⟨r.code, ⟨r.machine, t.clearedAll (m.directories context)⟩,
      r.value, [], t.given (m.directories context)⟩) after
    simp only [same] at agrees
    exact agrees

end Destruction

end Mam.CopyEngine
