import Mam.CopyEngine.Teardown

/-! What the objects of a context may become as long as the context is not destroyed. -/

namespace Mam.CopyEngine

open Mam.Library Mam.Vendor

section Growth

/-- A list and a table that gain entries at their ends. -/
structure Context.Grows (c d : Context List) : Prop where
  name : d.name = c.name
  platform : d.platform = c.platform
  pointers : c.pointers <+: d.pointers
  arrays : c.arrays <+: d.arrays
  constructs : c.constructs <+: d.constructs
  vars : c.vars <+: d.vars
  varsNamed : c.variablesNameHash.entries <+: d.variablesNameHash.entries
  constructsNamed : c.constructsNameHash.entries <+: d.constructsNameHash.entries

/-- A construct gains fields at the end, until it is frozen. -/
structure Construct.Grows (c d : Construct List) : Prop where
  context : d.context = c.context
  name : d.name = c.name
  type : d.type = c.type
  packed : d.packed = c.packed
  fields : c.fields <+: d.fields
  named : c.fieldsNameHash.entries <+: d.fieldsNameHash.entries
  settled : c.frozen = true → d = c

/-- An array gains dimensions at the end, until it is frozen. -/
structure ArrayType.Grows (a b : ArrayType List) : Prop where
  context : b.context = a.context
  elemSize : b.elemSize = a.elemSize
  alignment : b.alignment = a.alignment
  fieldType : b.fieldType = a.fieldType
  dimensions : a.dimensions <+: b.dimensions
  settled : a.frozen = true → b = a

theorem Context.Grows.refl (c : Context List) : c.Grows c :=
  have same {α : Type} (list : List α) := List.prefix_refl list
  ⟨rfl, rfl, same _, same _, same _, same _, same _, same _⟩

theorem Construct.Grows.refl (c : Construct List) : c.Grows c :=
  ⟨rfl, rfl, rfl, rfl, List.prefix_refl _, List.prefix_refl _, fun _ => rfl⟩

theorem ArrayType.Grows.refl (a : ArrayType List) : a.Grows a :=
  ⟨rfl, rfl, rfl, rfl, List.prefix_refl _, fun _ => rfl⟩

theorem Context.Grows.trans {c d e : Context List} (first : c.Grows d) (second : d.Grows e) :
    c.Grows e where
  name := second.name.trans first.name
  platform := second.platform.trans first.platform
  pointers := first.pointers.trans second.pointers
  arrays := first.arrays.trans second.arrays
  constructs := first.constructs.trans second.constructs
  vars := first.vars.trans second.vars
  varsNamed := first.varsNamed.trans second.varsNamed
  constructsNamed := first.constructsNamed.trans second.constructsNamed

theorem Construct.Grows.trans {c d e : Construct List} (first : c.Grows d) (second : d.Grows e) :
    c.Grows e where
  context := second.context.trans first.context
  name := second.name.trans first.name
  type := second.type.trans first.type
  packed := second.packed.trans first.packed
  fields := first.fields.trans second.fields
  named := first.named.trans second.named
  settled := by
    intro frozen
    have same := first.settled frozen
    subst same
    exact second.settled frozen

theorem ArrayType.Grows.trans {a b c : ArrayType List} (first : a.Grows b) (second : b.Grows c) :
    a.Grows c where
  context := second.context.trans first.context
  elemSize := second.elemSize.trans first.elemSize
  alignment := second.alignment.trans first.alignment
  fieldType := second.fieldType.trans first.fieldType
  dimensions := first.dimensions.trans second.dimensions
  settled := by
    intro frozen
    have same := first.settled frozen
    subst same
    exact second.settled frozen

/-- Freezing is growth. -/
theorem Construct.grows_frozen (c : Construct List) : c.Grows { c with frozen := true } where
  context := rfl
  name := rfl
  type := rfl
  packed := rfl
  fields := List.prefix_refl _
  named := List.prefix_refl _
  settled := fun frozen => by rw [← frozen]

theorem ArrayType.grows_frozen (a : ArrayType List) : a.Grows { a with frozen := true } where
  context := rfl
  elemSize := rfl
  alignment := rfl
  fieldType := rfl
  dimensions := List.prefix_refl _
  settled := fun frozen => by rw [← frozen]

theorem Construct.grows_withField {c : Construct List} (unfrozen : c.frozen = false) (h : Handle)
    (plan : FieldPlan) : c.Grows (c.withField h plan) where
  context := rfl
  name := rfl
  type := rfl
  packed := rfl
  fields := List.prefix_append _ _
  named := List.prefix_append _ _
  settled := fun frozen => by simp [unfrozen] at frozen

theorem ArrayType.grows_withDimension {a : ArrayType List} (unfrozen : a.frozen = false) (h : Handle)
    (dimension : Dimension) : a.Grows (a.withDimension h dimension) where
  context := rfl
  elemSize := rfl
  alignment := rfl
  fieldType := rfl
  dimensions := List.prefix_append _ _
  settled := fun frozen => by simp [unfrozen] at frozen

end Growth

section Lasting

/-- The context and its objects are there still: the constructs, the arrays and the context
itself may have grown, and the pointers and variables are the same. -/
structure Lasts (s t : Store List) (k : Handle) : Prop where
  context : ∀ c, s.contexts k = some c → ∃ d, t.contexts k = some d ∧ c.Grows d
  constructs : ∀ h c, s.constructs h = some c → c.context = k →
    ∃ d, t.constructs h = some d ∧ c.Grows d
  arrays : ∀ h a, s.arrays h = some a → a.context = k → ∃ b, t.arrays h = some b ∧ a.Grows b
  pointers : ∀ h p, s.pointers h = some p → p.context = k → t.pointers h = some p
  vars : ∀ h v, s.vars h = some v → v.context = k → t.vars h = some v

variable {s t u : Store List} {k h : Handle}

theorem Lasts.refl (s : Store List) (k : Handle) : Lasts s s k where
  context := fun c present => ⟨c, present, .refl c⟩
  constructs := fun _ c present _ => ⟨c, present, .refl c⟩
  arrays := fun _ a present _ => ⟨a, present, .refl a⟩
  pointers := fun _ _ present _ => present
  vars := fun _ _ present _ => present

theorem Lasts.trans (first : Lasts s t k) (second : Lasts t u k) : Lasts s u k := by
  constructor
  · intro c present
    obtain ⟨d, there, grows⟩ := first.context c present
    obtain ⟨e, later, more⟩ := second.context d there
    exact ⟨e, later, grows.trans more⟩
  · intro h c present own
    obtain ⟨d, there, grows⟩ := first.constructs h c present own
    obtain ⟨e, later, more⟩ := second.constructs h d there (grows.context.trans own)
    exact ⟨e, later, grows.trans more⟩
  · intro h a present own
    obtain ⟨b, there, grows⟩ := first.arrays h a present own
    obtain ⟨c, later, more⟩ := second.arrays h b there (grows.context.trans own)
    exact ⟨c, later, grows.trans more⟩
  · exact fun h p present own => second.pointers h p (first.pointers h p present own) own
  · exact fun h v present own => second.vars h v (first.vars h v present own) own

theorem lasts_freeze (s : Store List) (fieldType : FieldType) (k : Handle) :
    Lasts s (freezeFieldType s fieldType) k where
  context := fun c present => ⟨c, by rw [freezeFieldType_contexts]; exact present, .refl c⟩
  constructs := by
    intro h c present _
    rw [freezeFieldType_constructs, present, Option.map_some]
    refine ⟨_, rfl, ?_⟩
    split
    · exact c.grows_frozen
    · exact .refl c
  arrays := by
    intro h a present _
    rw [freezeFieldType_arrays, present, Option.map_some]
    refine ⟨_, rfl, ?_⟩
    split
    · exact a.grows_frozen
    · exact .refl a
  pointers := fun h p present _ => by rw [freezeFieldType_pointers]; exact present
  vars := fun h v present _ => by rw [freezeFieldType_vars]; exact present

/-- Where a record is put, there was none, or one that grows to it. -/
theorem lasts_setContext {d : Context List} (grows : ∀ c, s.contexts h = some c → c.Grows d)
    (k : Handle) : Lasts s (s.setContext h d) k := by
  refine { Lasts.refl s k with context := fun c present => ?_ }
  rw [setContext_contexts]
  split
  · rename_i here
    exact ⟨d, rfl, grows c (here ▸ present)⟩
  · exact ⟨c, present, .refl c⟩

theorem lasts_setConstruct {d : Construct List} (grows : ∀ c, s.constructs h = some c → c.Grows d)
    (k : Handle) : Lasts s (s.setConstruct h d) k := by
  refine { Lasts.refl s k with constructs := fun x c present _ => ?_ }
  rw [setConstruct_constructs]
  split
  · rename_i here
    exact ⟨d, rfl, grows c (here ▸ present)⟩
  · exact ⟨c, present, .refl c⟩

theorem lasts_setArray {b : ArrayType List} (grows : ∀ a, s.arrays h = some a → a.Grows b)
    (k : Handle) : Lasts s (s.setArray h b) k := by
  refine { Lasts.refl s k with arrays := fun x a present _ => ?_ }
  rw [setArray_arrays]
  split
  · rename_i here
    exact ⟨b, rfl, grows a (here ▸ present)⟩
  · exact ⟨a, present, .refl a⟩

theorem lasts_setPointer (absent : s.pointers h = none) (p : Pointer) (k : Handle) :
    Lasts s (s.setPointer h p) k := by
  refine { Lasts.refl s k with pointers := fun x q present _ => ?_ }
  have other : x ≠ h := by
    rintro rfl
    cases absent.symm.trans present
  exact (Function.update_of_ne other _ _).trans present

theorem lasts_setVariable (absent : s.vars h = none) (v : Variable) (k : Handle) :
    Lasts s (s.setVariable h v) k := by
  refine { Lasts.refl s k with vars := fun x w present _ => ?_ }
  have other : x ≠ h := by
    rintro rfl
    cases absent.symm.trans present
  exact (Function.update_of_ne other _ _).trans present

section Records

variable {s t : Store UTArray} {k h : Handle}

theorem Lasts.context_of {c : Context UTArray} (lasts : Lasts s.view t.view k)
    (present : s.contexts k = some c) : ∃ d, t.contexts k = some d ∧ c.view.Grows d.view := by
  obtain ⟨view, there, grows⟩ := lasts.context c.view (by rw [view_contexts, present]; rfl)
  obtain ⟨d, later, rfl⟩ := Option.map_eq_some_iff.mp there
  exact ⟨d, later, grows⟩

theorem Lasts.construct_of {c : Construct UTArray} (lasts : Lasts s.view t.view k)
    (present : s.constructs h = some c) (own : c.context = k) :
    ∃ d, t.constructs h = some d ∧ c.view.Grows d.view := by
  obtain ⟨view, there, grows⟩ :=
    lasts.constructs h c.view (by rw [view_constructs, present]; rfl) own
  obtain ⟨d, later, rfl⟩ := Option.map_eq_some_iff.mp there
  exact ⟨d, later, grows⟩

theorem Lasts.array_of {a : ArrayType UTArray} (lasts : Lasts s.view t.view k)
    (present : s.arrays h = some a) (own : a.context = k) :
    ∃ b, t.arrays h = some b ∧ a.view.Grows b.view := by
  obtain ⟨view, there, grows⟩ := lasts.arrays h a.view (by rw [view_arrays, present]; rfl) own
  obtain ⟨b, later, rfl⟩ := Option.map_eq_some_iff.mp there
  exact ⟨b, later, grows⟩

end Records

end Lasting

section Commits

variable {s : Seen}

private theorem grows_of_none {α : Type} {x : Option α} (absent : x = none) {P : α → Prop} :
    ∀ a, x = some a → P a := by
  intro a present
  cases absent.symm.trans present

private theorem grows_of_some {α : Type} {x : Option α} {a : α} (there : x = some a) {P : α → Prop}
    (holds : P a) : ∀ b, x = some b → P b := by
  intro b present
  cases there.symm.trans present
  exact holds

/-- What is committed makes nothing less. -/
theorem commit_lasts (bounded : Bounded s) (unpointed : s.types.pointers s.next = none) {op : Op}
    {plan : Plan} (ready : Ready s.types op plan) (k : Handle) :
    Lasts s.types (commit s.types s.next plan) k := by
  have newest := Nat.le_refl s.next
  cases ready with
  | context => exact lasts_setContext (grows_of_none (bounded.contexts s.next newest)) k
  | @construct type owner name packed record present unused =>
    simp only [commit, present]
    have grows : record.Grows
        { record with
          constructs := record.constructs ++ [s.next]
          constructsNameHash := extendHash record.constructsNameHash name s.next } :=
      { Context.Grows.refl record with
        constructs := List.prefix_append _ _
        constructsNamed := List.prefix_append _ _ }
    refine (lasts_setContext (grows_of_some present grows) k).trans ?_
    apply lasts_setConstruct
    exact grows_of_none (bounded.constructs s.next newest)
  | @field plan options record owner present unfrozen named unused offsets there sized nonneg =>
    simp only [commit, present]
    have grows := record.grows_withField unfrozen s.next plan
    exact (lasts_setConstruct (grows_of_some present grows) k).trans (lasts_freeze _ _ k)
  | @pointer owner fieldType =>
    cases present : s.types.contexts owner with
    | none =>
      simp only [commit, present]
      exact .refl _ k
    | some record =>
      simp only [commit, present]
      have grows : record.Grows { record with pointers := record.pointers ++ [s.next] } :=
        { Context.Grows.refl record with pointers := List.prefix_append _ _ }
      refine (lasts_setContext (grows_of_some present grows) k).trans ?_
      apply lasts_setPointer
      exact unpointed
  | @array plan record present sized =>
    simp only [commit, present]
    have grows : record.Grows { record with arrays := record.arrays ++ [s.next] } :=
      { Context.Grows.refl record with arrays := List.prefix_append _ _ }
    refine ((lasts_setContext (grows_of_some present grows) k).trans ?_).trans (lasts_freeze _ _ k)
    apply lasts_setArray
    exact grows_of_none (bounded.arrays s.next newest)
  | @dimension array dimension record present unfrozen =>
    simp only [commit, present]
    exact lasts_setArray (grows_of_some present (record.grows_withDimension unfrozen s.next dimension)) k
  | @var plan record present named unused sized =>
    simp only [commit, present]
    have there : (freezeFieldType s.types plan.fieldType).contexts plan.context = some record := by
      rw [freezeFieldType_contexts]
      exact present
    have absent : (freezeFieldType s.types plan.fieldType).vars s.next = none := by
      rw [freezeFieldType_vars]
      exact bounded.vars s.next newest
    have grows : record.Grows
        { record with
          vars := record.vars ++ [s.next]
          variablesNameHash := extendHash record.variablesNameHash plan.name s.next } :=
      { Context.Grows.refl record with
        vars := List.prefix_append _ _
        varsNamed := List.prefix_append _ _ }
    refine ((lasts_freeze s.types plan.fieldType k).trans
      (lasts_setContext (grows_of_some there grows) k)).trans ?_
    apply lasts_setVariable
    exact absent

end Commits

section Programs

variable {m next final : Machine} {live : List Handle} {k : Handle}

theorem Estates.lt_next (estates : Estates m live) {h : Handle}
    (member : h ∈ m.store.view.estate k) : h < m.heap.next := by
  have outstanding : h ∈ m.heap.outstanding := by
    refine estates.outstanding.mem_iff.mpr ?_
    exact List.mem_flatMap.mpr ⟨k, estates.live_of_mem member, member⟩
  exact List.mem_range.mp (estates.accounted.mem_iff.mp (List.mem_append_right _ outstanding))

theorem Estates.unpointed (estates : Estates m live) : m.store.view.pointers m.heap.next = none := by
  refine Option.eq_none_iff_forall_ne_some.mpr fun p present => ?_
  exact absurd (estates.lt_next (estates.homed.pointers _ p present)) (Nat.lt_irrefl _)

/-- A call makes nothing less. -/
theorem Step.lasts {event : Event} (step : Step m event next) (estates : Estates m live)
    (k : Handle) : Lasts m.store.view next.store.view k := by
  cases step.change with
  | idle failed same later =>
    have same : next.store.view = m.store.view := same
    rw [same]
    exact .refl _ k
  | @frozen plan ready failed same later =>
    have same : next.store.view = freezeFieldType m.store.view plan.fieldType := same
    rw [same]
    exact lasts_freeze _ _ k
  | @committed plan ready code same taken =>
    have same : next.store.view = commit m.store.view m.heap.next plan := same
    rw [same]
    exact commit_lasts (s := m.seen) estates.standing.bounded estates.unpointed ready k

/-- A context that is there after a call was there, or is new. -/
theorem Step.context_old {event : Event} (step : Step m event next) (estates : Estates m live)
    (older : k < m.heap.next) {c : Context List} (still : next.store.view.contexts k = some c) :
    ∃ old, m.store.view.contexts k = some old := by
  cases step.change with
  | idle failed same later =>
    have same : next.store.view = m.store.view := same
    exact ⟨c, same ▸ still⟩
  | @frozen plan ready failed same later =>
    have same : next.store.view = freezeFieldType m.store.view plan.fieldType := same
    rw [same, freezeFieldType_contexts] at still
    exact ⟨c, still⟩
  | @committed plan ready code same taken =>
    have same : next.store.view = commit m.store.view m.heap.next plan := same
    rw [same] at still
    rcases estates.owner step ready with ⟨name, platform, rfl⟩ | ⟨owner, member, own⟩
    · rw [commit, setContext_contexts, if_neg (Nat.ne_of_lt older)] at still
      exact ⟨c, still⟩
    · exact commit_contexts (s := m.seen) ready own still

/-- Nothing of a context is lost when another one is destroyed. -/
theorem Estates.lasts_freeAll (estates : Estates m live) {gone : Handle} (member : gone ∈ live)
    {blocks : List Handle} (freed : blocks.Perm (m.store.view.estate gone)) (apart : k ≠ gone) :
    Lasts m.store.view (m.freeAll blocks).store.view k := by
  have kept {h : Handle} (holds : h ∈ m.store.view.estate k) := estates.kept member freed apart holds
  have settled := estates.settled
  constructor
  · intro c present
    obtain ⟨mine, owned⟩ := estates.owned k (estates.contexts k c present)
    have own : k ∈ m.store.view.estate k := owned.estate ▸ List.mem_cons_self
    refine ⟨c, ?_, .refl c⟩
    rw [view_contexts, (kept own).contexts]
    exact present
  · intro h c present own
    subst own
    refine ⟨c, ?_, .refl c⟩
    rw [view_constructs, (kept (settled.constructs h c present)).constructs]
    exact present
  · intro h a present own
    subst own
    refine ⟨a, ?_, .refl a⟩
    rw [view_arrays, (kept (settled.arrays h a present)).arrays]
    exact present
  · intro h p present own
    subst own
    exact (kept (settled.pointers h p present)).pointers.trans present
  · intro h v present own
    subst own
    exact (kept (settled.vars h v present)).vars.trans present

/-- Whatever a program does next, a context that is old and still there was there, and nothing of
it is less. -/
theorem Act.lasts {act : Act} (step : act.Step m next) (estates : Estates m live)
    (older : k < m.heap.next) {c : Context List} (still : next.store.view.contexts k = some c) :
    (∃ old, m.store.view.contexts k = some old) ∧ Lasts m.store.view next.store.view k := by
  cases act with
  | call event => exact ⟨step.context_old estates older still, step.lasts estates k⟩
  | destroy context result =>
    obtain ⟨returned, rfl⟩ := step
    rcases estates.destroys returned with ⟨_, same⟩ | ⟨gone, member, _, blocks, same, freed⟩
    · rw [same] at still ⊢
      exact ⟨⟨c, still⟩, .refl _ k⟩
    · rw [same] at still ⊢
      obtain ⟨kept, there⟩ := freeAll_context still
      have apart : k ≠ gone := by
        rintro rfl
        obtain ⟨mine, owned⟩ := estates.owned k member
        exact kept (freed.mem_iff.mpr (owned.estate ▸ List.mem_cons_self))
      exact ⟨⟨c, there⟩, estates.lasts_freeAll member freed apart⟩

theorem Act.next_le {act : Act} (step : act.Step m next) : m.heap.next ≤ next.heap.next := by
  cases act with
  | call event => exact (Step.change step).next_le
  | destroy context result =>
    obtain ⟨returned, rfl⟩ := step
    obtain ⟨blocks, same⟩ := contextDestroy_frees returned
    rw [same, freeAll_next]

/-- As long as a context is there, nothing of it is less. -/
theorem lasts_of_program {trace : List (Transition Machine Act)} (estates : Estates m live)
    (run : Execution Act.Step m trace final) (older : k < m.heap.next) {c : Context List}
    (still : final.store.view.contexts k = some c) : Lasts m.store.view final.store.view k := by
  have along := run.invariant
    (fun s => (∃ later, Estates s later) ∧ m.heap.next ≤ s.heap.next ∧
      ∀ c, s.store.view.contexts k = some c → Lasts m.store.view s.store.view k)
    ⟨⟨live, estates⟩, Nat.le_refl _, fun _ _ => .refl _ k⟩ ?_
  · exact along.2.2 c still
  · rintro s act next ⟨⟨later, settled⟩, grown, lasts⟩ step
    refine ⟨Act.estates step settled, Nat.le_trans grown (Act.next_le step), fun c still => ?_⟩
    obtain ⟨⟨old, there⟩, more⟩ :=
      Act.lasts step settled (Nat.lt_of_lt_of_le older grown) still
    exact (lasts old there).trans more

end Programs

end Mam.CopyEngine
