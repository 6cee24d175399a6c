import Mam.CopyEngine.History

/-! Contexts apart: what is done on other contexts, and names no type of a context, leaves the
context and everything of it as it was. -/

namespace Mam.CopyEngine

open Mam.Library Mam.Vendor

section Untouched

/-- Two stores agree on a context and on everything of it. -/
structure Untouched (s t : Store List) (k : Handle) : Prop where
  context : t.contexts k = s.contexts k
  constructs : ∀ h c, c.context = k → (t.constructs h = some c ↔ s.constructs h = some c)
  arrays : ∀ h a, a.context = k → (t.arrays h = some a ↔ s.arrays h = some a)
  pointers : ∀ h p, p.context = k → (t.pointers h = some p ↔ s.pointers h = some p)
  vars : ∀ h v, v.context = k → (t.vars h = some v ↔ s.vars h = some v)

/-- The context of the object at a node. -/
def Store.ownerOf (s : Store List) : Node → Option Handle
  | .construct h => (s.constructs h).map (·.context)
  | .array h => (s.arrays h).map (·.context)

variable {s t u : Store List} {k h : Handle}

theorem Untouched.refl (s : Store List) (k : Handle) : Untouched s s k :=
  ⟨rfl, fun _ _ _ => .rfl, fun _ _ _ => .rfl, fun _ _ _ => .rfl, fun _ _ _ => .rfl⟩

theorem Untouched.trans (first : Untouched s t k) (second : Untouched t u k) : Untouched s u k where
  context := second.context.trans first.context
  constructs := fun h c own => (second.constructs h c own).trans (first.constructs h c own)
  arrays := fun h a own => (second.arrays h a own).trans (first.arrays h a own)
  pointers := fun h p own => (second.pointers h p own).trans (first.pointers h p own)
  vars := fun h v own => (second.vars h v own).trans (first.vars h v own)

/-- Nothing comes to be of the context. -/
theorem Untouched.ownerOf (untouched : Untouched s t k) {n : Node} (own : t.ownerOf n = some k) :
    s.ownerOf n = some k := by
  cases n with
  | construct h =>
    obtain ⟨c, present, same⟩ := Option.map_eq_some_iff.mp own
    exact Option.map_eq_some_iff.mpr ⟨c, (untouched.constructs h c same).mp present, same⟩
  | array h =>
    obtain ⟨a, present, same⟩ := Option.map_eq_some_iff.mp own
    exact Option.map_eq_some_iff.mpr ⟨a, (untouched.arrays h a same).mp present, same⟩

/-- So the context owns what it owned. -/
theorem Untouched.estate (untouched : Untouched s t k) {c : Context List} (owned : Owned s k c) :
    t.estate k = s.estate k := by
  have arrays : c.arrays.flatMap t.dimensionBlocks = c.arrays.flatMap s.dimensionBlocks := by
    refine List.flatMap_congr fun h listed => ?_
    obtain ⟨a, present, own⟩ := (owned.arrays h).mp listed
    rw [Store.dimensionBlocks, Store.dimensionBlocks, present, (untouched.arrays h a own).mpr present]
  have constructs : c.constructs.flatMap t.fieldBlocks = c.constructs.flatMap s.fieldBlocks := by
    refine List.flatMap_congr fun h listed => ?_
    obtain ⟨x, present, own⟩ := (owned.constructs h).mp listed
    rw [Store.fieldBlocks, Store.fieldBlocks, present, (untouched.constructs h x own).mpr present]
  have here : t.contexts k = some c := untouched.context.trans owned.here
  simp only [Store.estate, here, owned.here, held_eq, arrays, constructs]

/-- What is put and what it replaces are not of the context. -/
private theorem update_apart {α : Type} (owner : α → Handle) {table : Handle → Option α} {b c : α}
    {x : Handle} (new : owner b ≠ k) (old : ∀ a, table h = some a → owner a ≠ k) (own : owner c = k) :
    Function.update table h (some b) x = some c ↔ table x = some c := by
  by_cases here : x = h
  · subst here
    rw [Function.update_self]
    constructor
    · rintro same
      cases same
      exact absurd own new
    · exact fun present => absurd own (old c present)
  · rw [Function.update_of_ne here]

/-- Freezing sets a flag of an object that is not of the context. -/
private theorem map_apart {α : Type} (owner : α → Handle) {x : Option α} {f : α → α} {c : α}
    (same : ∀ a, owner (f a) = owner a) (fixed : ∀ a, x = some a → owner a = k → f a = a)
    (own : owner c = k) : x.map f = some c ↔ x = some c := by
  constructor
  · intro present
    obtain ⟨a, there, rfl⟩ := Option.map_eq_some_iff.mp present
    rw [there, fixed a there ((same a).symm.trans own)]
  · rintro rfl
    rw [Option.map_some, fixed c rfl own]

theorem untouched_freeze {fieldType : FieldType}
    (apart : ∀ n, fieldType.node = some n → s.ownerOf n ≠ some k) :
    Untouched s (freezeFieldType s fieldType) k where
  context := congrFun (freezeFieldType_contexts s fieldType) k
  constructs := by
    intro h c own
    rw [freezeFieldType_constructs]
    refine map_apart Construct.context (fun a => by split <;> rfl) (fun a present mine => ?_) own
    refine if_neg fun designates => apart _ designates ?_
    rw [Store.ownerOf, present, Option.map_some, mine]
  arrays := by
    intro h c own
    rw [freezeFieldType_arrays]
    refine map_apart ArrayType.context (fun a => by split <;> rfl) (fun a present mine => ?_) own
    refine if_neg fun designates => apart _ designates ?_
    rw [Store.ownerOf, present, Option.map_some, mine]
  pointers := fun h p _ => by rw [freezeFieldType_pointers]
  vars := fun h v _ => by rw [freezeFieldType_vars]

theorem untouched_setContext (apart : k ≠ h) (d : Context List) : Untouched s (s.setContext h d) k :=
  { Untouched.refl s k with context := by rw [setContext_contexts, if_neg apart] }

theorem untouched_setConstruct {d : Construct List} (apart : d.context ≠ k)
    (old : ∀ c, s.constructs h = some c → c.context ≠ k) : Untouched s (s.setConstruct h d) k :=
  { Untouched.refl s k with
    constructs := fun _ _ own => update_apart Construct.context apart old own }

theorem untouched_setArray {b : ArrayType List} (apart : b.context ≠ k)
    (old : ∀ a, s.arrays h = some a → a.context ≠ k) : Untouched s (s.setArray h b) k :=
  { Untouched.refl s k with
    arrays := fun _ _ own => update_apart ArrayType.context apart old own }

theorem untouched_setPointer {p : Pointer} (apart : p.context ≠ k) (absent : s.pointers h = none) :
    Untouched s (s.setPointer h p) k :=
  { Untouched.refl s k with
    pointers := fun _ _ own => by
      refine update_apart Pointer.context apart (fun p present => ?_) own
      cases absent.symm.trans present }

theorem untouched_setVariable {v : Variable} (apart : v.context ≠ k) (absent : s.vars h = none) :
    Untouched s (s.setVariable h v) k :=
  { Untouched.refl s k with
    vars := fun _ _ own => by
      refine update_apart Variable.context apart (fun v present => ?_) own
      cases absent.symm.trans present }

end Untouched

section Commits

/-- The type that a plan freezes. -/
def Plan.freezes : Plan → Option FieldType
  | .field plan => some plan.fieldType
  | .array plan => some plan.fieldType
  | .var plan => some plan.fieldType
  | _ => none

/-- The plan adds to another context, and freezes no type of this one. -/
structure Plan.Elsewhere (s : Store List) (k : Handle) (plan : Plan) : Prop where
  owner : plan.owner s ≠ some k
  freezes : (plan.freezes.bind FieldType.node).bind s.ownerOf ≠ some k

instance (s : Store List) (k : Handle) (plan : Plan) : Decidable (plan.Elsewhere s k) :=
  decidable_of_iff (plan.owner s ≠ some k ∧ (plan.freezes.bind FieldType.node).bind s.ownerOf ≠ some k)
    ⟨fun ⟨owner, freezes⟩ => ⟨owner, freezes⟩, fun ⟨owner, freezes⟩ => ⟨owner, freezes⟩⟩

theorem Plan.Elsewhere.node {s : Store List} {k : Handle} {plan : Plan}
    (elsewhere : plan.Elsewhere s k) {fieldType : FieldType} (frozen : plan.freezes = some fieldType)
    {n : Node} (designates : fieldType.node = some n) : s.ownerOf n ≠ some k := by
  have apart := elsewhere.freezes
  rw [frozen, Option.bind_some, designates, Option.bind_some] at apart
  exact apart

variable {s : Seen} {k : Handle}

private theorem none_apart {α : Type} {owner : α → Handle} {x : Option α} (absent : x = none) :
    ∀ a, x = some a → owner a ≠ k := by
  intro a present
  cases absent.symm.trans present

private theorem some_apart {α : Type} {owner : α → Handle} {x : Option α} {a : α} (there : x = some a)
    (apart : owner a ≠ k) : ∀ b, x = some b → owner b ≠ k := by
  intro b present
  cases there.symm.trans present
  exact apart

/-- What is committed elsewhere leaves the context as it was. -/
theorem commit_untouched (bounded : Bounded s) (unpointed : s.types.pointers s.next = none)
    (older : k ≠ s.next) {op : Op} {plan : Plan} (ready : Ready s.types op plan)
    (elsewhere : plan.Elsewhere s.types k) :
    Untouched s.types (commit s.types s.next plan) k := by
  have newest := Nat.le_refl s.next
  have apart := elsewhere.owner
  cases ready with
  | context => exact untouched_setContext older _
  | @construct type owner name packed record present unused =>
    have other : k ≠ owner := fun same => apart (congrArg some same.symm)
    simp only [commit, present]
    refine (untouched_setContext other _).trans (untouched_setConstruct other.symm ?_)
    exact none_apart (bounded.constructs s.next newest)
  | @field plan options record owner present unfrozen named unused offsets there sized nonneg =>
    simp only [Plan.owner, present, Option.map_some, ne_eq, Option.some.injEq] at apart
    have first : Untouched s.types
        (s.types.setConstruct plan.construct (record.withField s.next plan)) k :=
      untouched_setConstruct apart (some_apart present apart)
    simp only [commit, present]
    exact first.trans (untouched_freeze fun n designates own =>
      elsewhere.node rfl designates (first.ownerOf own))
  | @pointer owner fieldType =>
    have other : k ≠ owner := fun same => apart (congrArg some same.symm)
    cases present : s.types.contexts owner with
    | none =>
      simp only [commit, present]
      exact .refl _ k
    | some record =>
      simp only [commit, present]
      refine (untouched_setContext other _).trans (untouched_setPointer other.symm ?_)
      exact unpointed
  | @array plan record present sized =>
    have other : k ≠ plan.context := fun same => apart (congrArg some same.symm)
    have first : Untouched s.types
        ((s.types.setContext plan.context
          { record with arrays := record.arrays ++ [s.next] }).setArray s.next plan.array) k := by
      refine (untouched_setContext other _).trans (untouched_setArray other.symm ?_)
      exact none_apart (bounded.arrays s.next newest)
    simp only [commit, present]
    exact first.trans (untouched_freeze fun n designates own =>
      elsewhere.node rfl designates (first.ownerOf own))
  | @dimension array dimension record present unfrozen =>
    simp only [Plan.owner, present, Option.map_some, ne_eq, Option.some.injEq] at apart
    simp only [commit, present]
    exact untouched_setArray apart (some_apart present apart)
  | @var plan record present named unused sized =>
    have other : k ≠ plan.context := fun same => apart (congrArg some same.symm)
    have first : Untouched s.types (freezeFieldType s.types plan.fieldType) k :=
      untouched_freeze fun n designates => elsewhere.node rfl designates
    simp only [commit, present]
    refine (first.trans (untouched_setContext other _)).trans
      (untouched_setVariable other.symm ?_)
    rw [setContext_vars, freezeFieldType_vars]
    exact bounded.vars s.next newest

end Commits

section Programs

/-- The act is on other contexts, and names no type of this one. -/
def Act.Elsewhere (m : Machine) (k : Handle) : Act → Prop
  | .call event => ∀ plan, checks m.store.view event.op = .ok plan → plan.Elsewhere m.store.view k
  | .destroy context _ => context ≠ some k

instance (m : Machine) (k : Handle) : (act : Act) → Decidable (act.Elsewhere m k)
  | .call event =>
    match checked : checks m.store.view event.op with
    | .ok plan => decidable_of_iff (plan.Elsewhere m.store.view k)
        ⟨fun elsewhere other same => Except.ok.inj (checked.symm.trans same) ▸ elsewhere,
          fun elsewhere => elsewhere plan checked⟩
    | .error _ => isTrue fun plan same => by cases checked.symm.trans same
  | .destroy context _ => inferInstanceAs (Decidable (context ≠ some k))

variable {m next final : Machine} {live : List Handle} {k : Handle}

theorem Step.untouched {event : Event} (step : Step m event next) (estates : Estates m live)
    (member : k ∈ live)
    (elsewhere : ∀ plan, checks m.store.view event.op = .ok plan → plan.Elsewhere m.store.view k) :
    Untouched m.store.view next.store.view k := by
  have older : k ≠ m.heap.next := by
    obtain ⟨c, owned⟩ := estates.owned k member
    exact Nat.ne_of_lt (estates.lt_next (owned.estate ▸ List.mem_cons_self))
  cases step.change with
  | idle failed same later =>
    have same : next.store.view = m.store.view := same
    rw [same]
    exact .refl _ k
  | @frozen plan ready failed same later =>
    have same : next.store.view = freezeFieldType m.store.view plan.fieldType := same
    rw [same]
    exact untouched_freeze fun n designates =>
      (elsewhere _ ready.checked).node rfl designates
  | @committed plan ready code same taken =>
    have same : next.store.view = commit m.store.view m.heap.next plan := same
    rw [same]
    exact commit_untouched (s := m.seen) estates.standing.bounded estates.unpointed older ready
      (elsewhere _ ready.checked)

/-- Destroying another context leaves the context as it was. -/
theorem Estates.untouched_freeAll (estates : Estates m live) {gone : Handle} (member : gone ∈ live)
    {blocks : List Handle} (freed : blocks.Perm (m.store.view.estate gone)) (apart : k ≠ gone)
    (there : k ∈ live) : Untouched m.store.view (m.freeAll blocks).store.view k := by
  have kept {h : Handle} (holds : h ∈ m.store.view.estate k) := estates.kept member freed apart holds
  have settled := estates.settled
  obtain ⟨mine, owned⟩ := estates.owned k there
  have own : k ∈ m.store.view.estate k := owned.estate ▸ List.mem_cons_self
  refine ⟨congrArg (Option.map Context.view) (kept own).contexts, ?_, ?_, ?_, ?_⟩
  · rintro h c rfl
    refine ⟨fun present => (freeAll_construct present).2, fun present => ?_⟩
    rw [view_constructs, (kept (settled.constructs h c present)).constructs]
    exact present
  · rintro h a rfl
    refine ⟨fun present => (freeAll_array present).2, fun present => ?_⟩
    rw [view_arrays, (kept (settled.arrays h a present)).arrays]
    exact present
  · rintro h p rfl
    refine ⟨fun present => ?_, fun present => (kept (settled.pointers h p present)).pointers.trans present⟩
    exact (freeAll_present (fun kept => (freeAll_kept m kept).pointers)
      (fun freed => (freeAll_gone m freed).pointers) present).2
  · rintro h v rfl
    refine ⟨fun present => ?_, fun present => (kept (settled.vars h v present)).vars.trans present⟩
    exact (freeAll_present (fun kept => (freeAll_kept m kept).vars)
      (fun freed => (freeAll_gone m freed).vars) present).2

theorem Act.untouched {act : Act} (step : act.Step m next) (estates : Estates m live)
    (there : k ∈ live) (elsewhere : act.Elsewhere m k) :
    Untouched m.store.view next.store.view k := by
  cases act with
  | call event => exact Step.untouched step estates there elsewhere
  | destroy context result =>
    obtain ⟨returned, rfl⟩ := step
    rcases estates.destroys returned with ⟨_, same⟩ | ⟨gone, member, named, blocks, same, freed⟩
    · rw [same]
      exact .refl _ k
    · rw [same]
      exact estates.untouched_freeAll member freed (fun here => elsewhere (here ▸ named)) there

/-- From any point of a program on, whatever it does with other contexts, their destruction too,
leaves a context, everything of it and its estate as they were, as long as it freezes no type of
it. -/
theorem contexts_apart {past trace : List (Transition Machine Act)} (life : Life past m)
    (run : Execution Act.Step m trace final)
    (there : ∃ record, m.store.contexts k = some record)
    (elsewhere : ∀ entry ∈ trace, entry.label.Elsewhere entry.pre k) :
    Untouched m.store.view final.store.view k ∧
      final.store.view.estate k = m.store.view.estate k := by
  obtain ⟨live, estates⟩ := estates_of_life life
  obtain ⟨record, present⟩ := there
  have along := run.invariant_within
    (fun s => (∃ later, Estates s later) ∧ Untouched m.store.view s.store.view k)
    (fun entry => entry.label.Elsewhere entry.pre k) ⟨⟨live, estates⟩, .refl _ k⟩ ?_ elsewhere
  · obtain ⟨c, owned⟩ := estates.owned k ((estates.live_iff k).mpr ⟨record, present⟩)
    exact ⟨along.2, along.2.estate owned⟩
  · rintro s act next ⟨⟨later, settled⟩, before⟩ step apart
    have here : s.store.view.contexts k = some record.view := by
      rw [before.context, view_contexts, present]
      rfl
    exact ⟨Act.estates step settled,
      before.trans (Act.untouched step settled (settled.contexts k _ here) apart)⟩

theorem contexts_apart_calls :
    Untouched (program (estateCalls.take 7)).2.store.view
        (replay Act.respond (program (estateCalls.take 7)).2 (estateCalls.drop 7)).2.store.view 1 ∧
      (replay Act.respond (program (estateCalls.take 7)).2
          (estateCalls.drop 7)).2.store.view.estate 1 =
        (program (estateCalls.take 7)).2.store.view.estate 1 := by
  have run := Act.replay_execution (program (estateCalls.take 7)).2 (estateCalls.drop 7)
  apply contexts_apart (program_life _) run
  · exact Option.isSome_iff_exists.mp (by decide +kernel)
  · decide +kernel

end Programs

end Mam.CopyEngine
