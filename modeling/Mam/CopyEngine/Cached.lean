import Mam.CopyEngine.Runs

/-! Frozen objects, and the sizes recorded by those that use them. -/

namespace Mam.CopyEngine

open Mam.Library

/-- The same record under a node in two stores. -/
def SameObject (s t : Store List) : Node → Prop
  | .construct h => t.constructs h = s.constructs h
  | .array h => t.arrays h = s.arrays h

theorem freezeFieldType_same {s : Store List} {n : Node} (frozen : s.frozen n = true)
    (fieldType : FieldType) : SameObject s (freezeFieldType s fieldType) n := by
  cases n with
  | construct h =>
    show (freezeFieldType s fieldType).constructs h = s.constructs h
    rw [freezeFieldType_constructs]
    cases present : s.constructs h with
    | none => rfl
    | some c =>
      have set : c.frozen = true := by simpa [Store.frozen, present] using frozen
      have same : { c with frozen := true } = c := by rw [← set]
      simp [same]
  | array h =>
    show (freezeFieldType s fieldType).arrays h = s.arrays h
    rw [freezeFieldType_arrays]
    cases present : s.arrays h with
    | none => rfl
    | some a =>
      have set : a.frozen = true := by simpa [Store.frozen, present] using frozen
      have same : { a with frozen := true } = a := by rw [← set]
      simp [same]

theorem SameObject.trans {s t u : Store List} {n : Node} (first : SameObject s t n)
    (second : SameObject t u n) : SameObject s u n := by
  cases n with
  | construct h => exact Eq.trans second first
  | array h => exact Eq.trans second first

theorem SameObject.frozen {s t : Store List} {n : Node} (same : SameObject s t n) :
    t.frozen n = s.frozen n := by
  cases n with
  | construct h =>
    show (t.constructs h).any _ = (s.constructs h).any _
    rw [show t.constructs h = s.constructs h from same]
  | array h =>
    show (t.arrays h).any _ = (s.arrays h).any _
    rw [show t.arrays h = s.arrays h from same]

theorem setConstruct_same {s : Store List} {h : Handle} (c : Construct List) {n : Node}
    (other : n ≠ .construct h) : SameObject s (s.setConstruct h c) n := by
  cases n with
  | construct k =>
    have elsewhere : k ≠ h := fun same => other (by rw [same])
    simp [SameObject, elsewhere]
  | array k => rfl

theorem setArray_same {s : Store List} {h : Handle} (a : ArrayType List) {n : Node}
    (other : n ≠ .array h) : SameObject s (s.setArray h a) n := by
  cases n with
  | construct k => rfl
  | array k =>
    have elsewhere : k ≠ h := fun same => other (by rw [same])
    simp [SameObject, elsewhere]

/-- What a plan creates or extends is not frozen. -/
theorem Ready.target_unfrozen {s : Seen} {op : Op} {plan : Plan} (bounded : Bounded s)
    (ready : Ready s.types op plan) {n : Node} (target : plan.target s.next = some n) :
    s.types.frozen n = false := by
  cases ready with
  | context => cases target
  | construct present unused =>
    cases target
    simp [Store.frozen, bounded.constructs s.next (Nat.le_refl _)]
  | field present unfrozen named unused offsets owner sized nonneg =>
    cases target
    simp [Store.frozen, present, unfrozen]
  | pointer => cases target
  | array present sized =>
    cases target
    simp [Store.frozen, bounded.arrays s.next (Nat.le_refl _)]
  | dimension present unfrozen =>
    cases target
    simp [Store.frozen, present, unfrozen]
  | var present named unused sized => cases target

/-- A plan leaves frozen objects entirely alone. -/
theorem commit_same {s : Seen} {op : Op} {plan : Plan} (bounded : Bounded s)
    (ready : Ready s.types op plan) {n : Node} (frozen : s.types.frozen n = true) :
    SameObject s.types (commit s.types s.next plan) n := by
  have other (m : Node) (target : plan.target s.next = some m) : n ≠ m := by
    rintro rfl
    rw [ready.target_unfrozen bounded target] at frozen
    cases frozen
  have context (t : Store List) (k : Handle) (c : Context List) : SameObject t (t.setContext k c) n := by
    cases n <;> rfl
  cases ready with
  | context => exact context _ _ _
  | construct present unused =>
    simp only [commit, present]
    exact (context _ _ _).trans (setConstruct_same _ (other _ rfl))
  | @field plan options record owner present unfrozen named unused offsets there sized nonneg =>
    simp only [commit, present]
    have kept : SameObject s.types
        (s.types.setConstruct plan.construct (record.withField s.next plan)) n :=
      setConstruct_same _ (other _ rfl)
    exact kept.trans (freezeFieldType_same (by rw [kept.frozen]; exact frozen) _)
  | @pointer owner fieldType =>
    simp only [commit]
    split <;> cases n <;> rfl
  | @array plan record present sized =>
    simp only [commit, present]
    have kept := (context s.types plan.context
      { record with arrays := record.arrays ++ [s.next] }).trans (setArray_same plan.array (other _ rfl))
    exact kept.trans (freezeFieldType_same (by rw [kept.frozen]; exact frozen) _)
  | dimension present unfrozen =>
    simp only [commit, present]
    exact setArray_same _ (other _ rfl)
  | var present named unused sized =>
    simp only [commit, present]
    exact (freezeFieldType_same frozen _).trans (by cases n <;> rfl)

/-- Frozen objects never change. -/
theorem Change.same {s next : Seen} {call : Call} (bounded : Bounded s)
    (change : Change s call next) {n : Node} (frozen : s.types.frozen n = true) :
    SameObject s.types next.types n := by
  cases change with
  | idle failed same later =>
    rw [same]
    cases n <;> rfl
  | frozen ready failed same later =>
    rw [same]
    exact freezeFieldType_same frozen _
  | committed ready code same taken =>
    rw [same]
    exact commit_same bounded ready frozen

section Recorded

/-- The use records the size and alignment that its type has now. -/
def Current (s : Store List) (u : Use) : Prop :=
  ∃ platform align, s.platform u.owner = some platform ∧
    getFieldTypeSizeAlign s platform u.fieldType = .ok (u.size, align) ∧
    ∀ recorded, u.align = some recorded → recorded = align

/-- Every field's size, and every array's and variable's size and alignment, are those
that its type has now. -/
def Cached (s : Store List) : Prop := ∀ u, Uses s u → Current s u

/-- Something uses the object by value, as its type by the tag that the caller gave; tags that
only the type map of a platform makes complex ones are left out. -/
def UsedByValue (s : Store List) (n : Node) : Prop := ∃ u, Uses s u ∧ u.fieldType.node = some n

/-- What is used by value is frozen. -/
def UsedFrozen (s : Store List) : Prop := ∀ n, UsedByValue s n → s.frozen n = true

/-- A tag that designates nothing by itself, and an object after mapping. -/
def FieldType.Disguised (fieldType : FieldType) (platform : Platform) : Prop :=
  fieldType.node = none ∧ fieldType.resolved platform ≠ none

instance (fieldType : FieldType) (platform : Platform) : Decidable (fieldType.Disguised platform) :=
  inferInstanceAs (Decidable (_ ∧ _))

theorem node_of_resolved {fieldType : FieldType} {platform : Platform}
    (plain : ¬ fieldType.Disguised platform) {n : Node}
    (resolved : fieldType.resolved platform = some n) : fieldType.node = some n := by
  cases designates : fieldType.node with
  | none => exact absurd ⟨designates, by simp [resolved]⟩ plain
  | some m =>
    rw [resolved_of_node designates platform] at resolved
    exact resolved

/-- The context and the type of the use by value that a call asks for. -/
def Op.byValue (s : Store List) : Op → Option (Handle × FieldType)
  | .constructAddField (some construct) _ (some fieldType) _ =>
    (s.constructs construct).map fun record => (record.context, fieldType)
  | .contextCreateArray (some context) (some fieldType) _ => some (context, fieldType)
  | .contextCreateVariable (some context) _ (some fieldType) _ => some (context, fieldType)
  | _ => none

/-- The call adds a construct as a field of itself. -/
def Op.SelfField : Op → Prop
  | .constructAddField (some construct) _ (some fieldType) _ =>
    fieldType.node = some (.construct construct)
  | _ => False

instance : DecidablePred Op.SelfField
  | .contextCreate .. => .isFalse id
  | .contextCreateConstruct .. => .isFalse id
  | .constructAddField none _ _ _ => .isFalse id
  | .constructAddField (some _) _ none _ => .isFalse id
  | .constructAddField (some construct) _ (some fieldType) _ =>
    inferInstanceAs (Decidable (fieldType.node = some (.construct construct)))
  | .contextCreatePointer .. => .isFalse id
  | .contextCreateArray .. => .isFalse id
  | .arrayAddDimension .. => .isFalse id
  | .contextCreateVariable .. => .isFalse id

/-- The use by value that a plan makes is the one its call asked for, and records what
the checks have read. -/
theorem Ready.use {s : Store List} {op : Op} {plan : Plan} (ready : Ready s op plan) {u : Use}
    (use : plan.use s = some u) : op.byValue s = some (u.owner, u.fieldType) ∧ Current s u := by
  cases ready with
  | context => cases use
  | construct present unused => cases use
  | field present unfrozen named unused offsets owner sized nonneg =>
    simp only [Plan.use, present, Option.map_some, Option.some.injEq] at use
    subst use
    exact ⟨by simp [Op.byValue, present], _, _, by simp [Store.platform, owner], sized, by simp⟩
  | pointer => cases use
  | array present sized =>
    cases use
    exact ⟨rfl, _, _, by simp [Store.platform, ArrayPlan.array, ArrayType.use, present], sized,
      by simp [ArrayPlan.array, ArrayType.use]⟩
  | dimension present unfrozen => cases use
  | var present named unused sized =>
    cases use
    exact ⟨rfl, _, _, by simp [Store.platform, VariablePlan.var, Variable.use, present], sized,
      by simp [VariablePlan.var, Variable.use]⟩

/-- Short of nesting a construct in itself, a plan does not use what it creates or
extends. -/
theorem Ready.use_ne_target {s : Seen} {op : Op} {plan : Plan} (bounded : Bounded s)
    (ready : Ready s.types op plan) (notSelf : ¬ op.SelfField) {u : Use} {n : Node}
    (use : plan.use s.types = some u) (target : plan.target s.next = some n)
    (designates : u.fieldType.node = some n) {sizeAlign : SizeT × SizeT}
    (there : s.types.sizeAlign n = some sizeAlign) : False := by
  cases ready with
  | context => cases use
  | construct present unused => cases use
  | field present unfrozen named unused offsets owner sized nonneg =>
    cases target
    simp only [Plan.use, present, Option.map_some, Option.some.injEq] at use
    subst use
    exact notSelf designates
  | pointer => cases use
  | array present sized =>
    cases target
    simp [Store.sizeAlign, bounded.arrays s.next (Nat.le_refl _)] at there
  | dimension present unfrozen => cases use
  | var present named unused sized => cases target

theorem freezeFieldType_usedFrozen {s : Store List} (frozen : UsedFrozen s) (fieldType : FieldType) :
    UsedFrozen (freezeFieldType s fieldType) := by
  rintro n ⟨u, uses, designates⟩
  rw [uses_freezeFieldType] at uses
  exact (freezeFieldType_frozen s fieldType n).mpr (.inl (frozen n ⟨u, uses, designates⟩))

theorem commit_usedFrozen {s : Seen} {op : Op} {plan : Plan} (bounded : Bounded s)
    (ready : Ready s.types op plan) (frozen : UsedFrozen s.types) :
    UsedFrozen (commit s.types s.next plan) := by
  rintro n ⟨u, uses, designates⟩
  rw [commit_frozen bounded ready]
  rcases (commit_uses bounded ready).mp uses with old | new
  · exact .inl (frozen n ⟨u, old, designates⟩)
  · exact .inr ⟨u, new, designates⟩

theorem Change.usedFrozen {s next : Seen} {call : Call} (bounded : Bounded s)
    (change : Change s call next) (frozen : UsedFrozen s.types) : UsedFrozen next.types := by
  cases change with
  | idle failed same later => rwa [same]
  | frozen ready failed same later =>
    rw [same]
    exact freezeFieldType_usedFrozen frozen _
  | committed ready code same taken =>
    rw [same]
    exact commit_usedFrozen bounded ready frozen

/-- No type used by value is disguised. -/
def AllPlain (s : Store List) : Prop :=
  ∀ u, Uses s u → ∀ platform, s.platform u.owner = some platform → ¬ u.fieldType.Disguised platform

/-- The call uses a disguised type by value. -/
def Op.Disguised (s : Store List) (op : Op) : Prop :=
  ∃ use ∈ op.byValue s, ∃ platform ∈ s.platform use.1, use.2.Disguised platform

instance (s : Store List) (op : Op) : Decidable (op.Disguised s) := by
  unfold Op.Disguised
  infer_instance

/-- A use stays current while its platform and the size of its object stay. -/
theorem Current.kept {s t : Store List} {u : Use} (current : Current s u)
    (platforms : ∀ k platform, s.platform k = some platform → t.platform k = some platform)
    (same : ∀ platform n, s.platform u.owner = some platform →
      u.fieldType.resolved platform = some n → t.sizeAlign n = s.sizeAlign n) : Current t u := by
  obtain ⟨platform, align, owner, sized, recorded⟩ := current
  exact ⟨platform, align, platforms _ _ owner,
    getFieldTypeSizeAlign_congr sized fun n resolved => same platform n owner resolved, recorded⟩

/-- What the cached sizes rest on. -/
structure Sizes (s : Seen) : Prop where
  bounded : Bounded s
  frozen : UsedFrozen s.types
  plain : AllPlain s.types
  cached : Cached s.types

/-- The calls that keep cached sizes: those that succeed neither nest a construct in
itself nor use a disguised type. -/
def KeepsSizes (s : Store List) (op : Op) (code : MamError) : Prop :=
  code = .success → ¬ op.SelfField ∧ ¬ op.Disguised s

instance (s : Store List) (op : Op) (code : MamError) : Decidable (KeepsSizes s op code) := by
  unfold KeepsSizes
  infer_instance

theorem freezeFieldType_sizes {s : Seen} {fieldType : FieldType} (sizes : Sizes s) :
    AllPlain (freezeFieldType s.types fieldType) ∧ Cached (freezeFieldType s.types fieldType) := by
  have platforms : (freezeFieldType s.types fieldType).platform = s.types.platform :=
    platform_freezeFieldType fieldType
  constructor
  · intro u uses platform owner
    rw [uses_freezeFieldType] at uses
    rw [platforms] at owner
    exact sizes.plain u uses platform owner
  · intro u uses
    rw [uses_freezeFieldType] at uses
    exact (sizes.cached u uses).kept (by rw [platforms]; exact fun _ _ same => same)
      (fun _ _ _ _ => freezeFieldType_sizeAlign _ _ _)

/-- The platform of a use that is made does not change. -/
theorem Current.platform_eq {s : Seen} {op : Op} {plan : Plan} {u : Use} {platform : Platform}
    (current : Current s.types u) (bounded : Bounded s) (ready : Ready s.types op plan)
    (after : (commit s.types s.next plan).platform u.owner = some platform) :
    s.types.platform u.owner = some platform := by
  obtain ⟨before, _, owner, _, _⟩ := current
  rw [commit_platform bounded ready owner] at after
  rw [owner, Option.some.inj after]

theorem commit_sizes {s : Seen} {op : Op} {plan : Plan} (sizes : Sizes s)
    (ready : Ready s.types op plan) (keeps : ¬ op.SelfField ∧ ¬ op.Disguised s.types) :
    AllPlain (commit s.types s.next plan) ∧ Cached (commit s.types s.next plan) := by
  obtain ⟨bounded, frozen, plain, cached⟩ := sizes
  obtain ⟨notSelf, notDisguised⟩ := keeps
  have newPlain (u : Use) (new : plan.use s.types = some u) (platform : Platform)
      (owner : s.types.platform u.owner = some platform) : ¬ u.fieldType.Disguised platform :=
    fun disguised => notDisguised ⟨_, (ready.use new).1, platform, owner, disguised⟩
  constructor
  · intro u uses platform owner
    rcases (commit_uses bounded ready).mp uses with old | new
    · exact plain u old platform ((cached u old).platform_eq bounded ready owner)
    · exact newPlain u new platform ((ready.use new).2.platform_eq bounded ready owner)
  · intro u uses
    rcases (commit_uses bounded ready).mp uses with old | new
    · -- The object of an old use is frozen, and the one that changes is not.
      refine (cached u old).kept (fun k platform => commit_platform bounded ready) ?_
      intro platform n owner resolved
      apply commit_sizeAlign ready
      intro target
      have designates := node_of_resolved (plain u old platform owner) resolved
      have set := frozen n ⟨u, old, designates⟩
      rw [ready.target_unfrozen bounded target] at set
      cases set
    · have current := (ready.use new).2
      refine current.kept (fun k platform => commit_platform bounded ready) ?_
      intro platform n owner resolved
      apply commit_sizeAlign ready
      intro target
      have designates := node_of_resolved (newPlain u new platform owner) resolved
      obtain ⟨_, _, _, sized, _⟩ := current
      exact ready.use_ne_target bounded notSelf new target designates (exists_of_sized sized designates)

theorem Change.sizes {s next : Seen} {call : Call} (sizes : Sizes s) (change : Change s call next)
    (keeps : KeepsSizes s.types call.op call.code) : Sizes next := by
  have bounded := change.bounded sizes.bounded
  have frozen := change.usedFrozen sizes.bounded sizes.frozen
  suffices AllPlain next.types ∧ Cached next.types from ⟨bounded, frozen, this.1, this.2⟩
  cases change with
  | idle failed same later =>
    rw [same]
    exact ⟨sizes.plain, sizes.cached⟩
  | frozen ready failed same later =>
    rw [same]
    exact freezeFieldType_sizes sizes
  | committed ready code same taken =>
    rw [same]
    exact commit_sizes sizes ready (keeps code)

end Recorded

section Runs

variable {trace : List (Transition Machine Event)} {final : Machine}

theorem bounded_of_run (run : Run trace final) : Bounded final.seen :=
  run.invariant (fun m => Bounded m.seen) initial_bounded
    fun _ _ _ bounded step => step.change.bounded bounded

theorem usedFrozen_of_run (run : Run trace final) : UsedFrozen final.seen.types := by
  have both := run.invariant (fun m => Bounded m.seen ∧ UsedFrozen m.seen.types)
    ⟨initial_bounded, by rintro n ⟨u, uses, _⟩; cases uses <;> contradiction⟩
    fun _ _ _ both step =>
      ⟨step.change.bounded both.1, step.change.usedFrozen both.1 both.2⟩
  exact both.2

/-- Frozen objects stay as they are over any further calls. -/
theorem same_of_execution {m : Machine} (bounded : Bounded m.seen)
    (execution : Execution Step m trace final) {n : Node}
    (frozen : m.seen.types.frozen n = true) : SameObject m.seen.types final.seen.types n := by
  have both := execution.invariant
    (fun later => Bounded later.seen ∧ SameObject m.seen.types later.seen.types n)
    ⟨bounded, by cases n <;> rfl⟩
    fun _ _ _ both step => by
      refine ⟨step.change.bounded both.1, both.2.trans (step.change.same both.1 ?_)⟩
      rw [both.2.frozen]
      exact frozen
  exact both.2

theorem initial_sizes : Sizes Machine.initial.seen := by
  refine ⟨initial_bounded, ?_, ?_, ?_⟩
  · rintro n ⟨u, uses, _⟩
    cases uses <;> contradiction
  · intro u uses
    cases uses <;> contradiction
  · intro u uses
    cases uses <;> contradiction

/-- In a run that succeeds neither in nesting a construct in itself nor in using a
disguised type, recorded sizes and alignments are current, and what is used by value at
some time is the same object ever after. -/
theorem cached_and_settled (run : Run trace final)
    (keeps : ∀ entry ∈ trace, KeepsSizes entry.pre.store.view entry.label.op entry.label.result.code) :
    Cached final.store.view ∧
      ∀ entry ∈ trace, ∀ n, UsedByValue entry.pre.store.view n →
        SameObject entry.pre.store.view final.store.view n := by
  have sizes := run.invariant_within (fun m => Sizes m.seen)
    (fun entry => KeepsSizes entry.pre.store.view entry.label.op entry.label.result.code) initial_sizes
    (fun _ _ _ sizes step allowed => step.change.sizes sizes allowed) keeps
  refine ⟨sizes.cached, ?_⟩
  intro entry member n used
  obtain ⟨earlier, later, _, before, step, after⟩ := run.split member
  have bounded := bounded_of_run before
  have frozen := usedFrozen_of_run before n used
  have now := step.change.same bounded frozen
  exact now.trans (same_of_execution (step.change.bounded bounded) after (by rw [now.frozen]; exact frozen))

theorem cached_nestedCalls : Cached (replay respond Machine.initial nestedCalls).2.store.view :=
  (cached_and_settled (replay_run nestedCalls) (by decide +kernel)).1

/-- A platform on which `MAM_MAPPED_TYPE_CHAR` stands for the tag of a struct. -/
def structChar : Platform := { typeMap := fun i => if i.val = 0 then complexTypeStruct else 0 }

/-- A struct becomes a field of another under the mapped tag, and then grows. -/
def disguisedCalls : List (Op × Memory) :=
  [(.contextCreate (some []) (some structChar) true, plenty),
   (.contextCreateConstruct .struct (some 0) (some [97]) false true, plenty),
   (.contextCreateConstruct .struct (some 0) (some [98]) false true, plenty),
   (.constructAddField (some 2) (some [99]) (some ⟨mappedTypeChar, 1⟩) [], plenty),
   (.constructAddField (some 1) (some [100]) (some ⟨4, 0⟩) [], plenty)]

/-- A type used under a disguised tag is not frozen, and outgrows the size recorded. -/
theorem disguised_outgrows : ¬ ∀ (trace : List (Transition Machine Event)) (final : Machine),
    Run trace final →
    (∀ entry ∈ trace, entry.label.result.code = .success → ¬ entry.label.op.SelfField) →
    Cached final.store.view := by
  intro cached
  have stale := cached _ _ (replay_run disguisedCalls) (by decide +kernel)
    ⟨0, ⟨mappedTypeChar, 1⟩, 0, none⟩ (.field (h := 2) rfl ⟨_, .head _, rfl⟩)
  obtain ⟨platform, align, owner, sized, _⟩ := stale
  cases owner
  have grown : (0 : SizeT) = 4 := congrArg Prod.fst (Except.ok.inj sized.symm)
  exact absurd grown (by decide)

end Runs

end Mam.CopyEngine
