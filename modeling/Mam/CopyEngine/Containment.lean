import Mam.CopyEngine.Cached
import Mam.Library.Acyclic

/-! Which objects hold which by value. -/

namespace Mam.CopyEngine

open Mam.Library

/-- A construct or array holds an object by value: as the type of a field, or as its
element type. What a type is goes by the tag that the caller gave: a tag that only the type map
of a platform makes a complex one stands for no object, whatever pointer is beside it. -/
inductive Holds (s : Store List) : Node → Node → Prop where
  | field {h : Handle} {c : Construct List} {f : Field} {n : Node}
      (present : s.constructs h = some c) (member : f ∈ c.fields)
      (designates : f.fieldType.node = some n) : Holds s (.construct h) n
  | element {h : Handle} {a : ArrayType List} {n : Node} (present : s.arrays h = some a)
      (designates : a.fieldType.node = some n) : Holds s (.array h) n

/-- Being a part of: the converse of holding. -/
def Part (s : Store List) (part whole : Node) : Prop := Holds s whole part

theorem Holds.used {s : Store List} {whole part : Node} (holds : Holds s whole part) :
    UsedByValue s part := by
  cases holds with
  | field present member designates => exact ⟨_, .field present ⟨_, member, rfl⟩, designates⟩
  | element present designates => exact ⟨_, .element present rfl, designates⟩

/-- What an object holds is in its record. -/
theorem SameObject.holds {s t : Store List} {whole part : Node} (same : SameObject s t whole)
    (holds : Holds s whole part) : Holds t whole part := by
  cases holds with
  | field present member designates =>
    have there : t.constructs _ = s.constructs _ := same
    exact .field (there.trans present) member designates
  | element present designates =>
    have there : t.arrays _ = s.arrays _ := same
    exact .element (there.trans present) designates

theorem freezeFieldType_holds {s : Store List} (fieldType : FieldType) {whole part : Node} :
    Holds (freezeFieldType s fieldType) whole part ↔ Holds s whole part := by
  constructor
  · intro holds
    cases holds with
    | field present member designates =>
      rw [freezeFieldType_constructs, Option.map_eq_some_iff] at present
      obtain ⟨c, was, rfl⟩ := present
      refine .field was ?_ designates
      split at member <;> exact member
    | element present designates =>
      rw [freezeFieldType_arrays, Option.map_eq_some_iff] at present
      obtain ⟨a, was, rfl⟩ := present
      refine .element was ?_
      split at designates <;> exact designates
  · intro holds
    cases holds with
    | @field h c f n present member designates =>
      refine Holds.field (c := if fieldType.node = some (.construct h) then
        { c with frozen := true } else c) ?_ ?_ designates
      · rw [freezeFieldType_constructs, present]
        rfl
      · split <;> exact member
    | @element h a n present designates =>
      refine Holds.element (a := if fieldType.node = some (.array h) then
        { a with frozen := true } else a) ?_ ?_
      · rw [freezeFieldType_arrays, present]
        rfl
      · split <;> exact designates

theorem setConstruct_holds {s : Store List} {k : Handle} {c : Construct List} {whole part : Node}
    (holds : Holds (s.setConstruct k c) whole part) :
    Holds s whole part ∨ whole = .construct k ∧ ∃ f ∈ c.fields, f.fieldType.node = some part := by
  cases holds with
  | @field h other f n present member designates =>
    rw [setConstruct_constructs] at present
    split at present
    · rename_i here
      cases present
      exact .inr ⟨by rw [here], f, member, designates⟩
    · exact .inl (.field present member designates)
  | element present designates => exact .inl (.element present designates)

theorem setArray_holds {s : Store List} {k : Handle} {a : ArrayType List} {whole part : Node}
    (holds : Holds (s.setArray k a) whole part) :
    Holds s whole part ∨ whole = .array k ∧ a.fieldType.node = some part := by
  cases holds with
  | field present member designates => exact .inl (.field present member designates)
  | @element h other n present designates =>
    rw [setArray_arrays] at present
    split at present
    · rename_i here
      cases present
      exact .inr ⟨by rw [here], designates⟩
    · exact .inl (.element present designates)

theorem setContext_holds {s : Store List} {k : Handle} {c : Context List} {whole part : Node}
    (holds : Holds (s.setContext k c) whole part) : Holds s whole part := by
  cases holds with
  | field present member designates => exact .field present member designates
  | element present designates => exact .element present designates

theorem setPointer_holds {s : Store List} {k : Handle} {p : Pointer} {whole part : Node}
    (holds : Holds (s.setPointer k p) whole part) : Holds s whole part := by
  cases holds with
  | field present member designates => exact .field present member designates
  | element present designates => exact .element present designates

theorem setVariable_holds {s : Store List} {k : Handle} {v : Variable} {whole part : Node}
    (holds : Holds (s.setVariable k v) whole part) : Holds s whole part := by
  cases holds with
  | field present member designates => exact .field present member designates
  | element present designates => exact .element present designates

/-- The only object that a committed plan gives parts to is its target, and the only new
part is what it uses by value. -/
theorem commit_holds {s : Seen} {op : Op} {plan : Plan} (ready : Ready s.types op plan)
    {whole part : Node} (holds : Holds (commit s.types s.next plan) whole part) :
    Holds s.types whole part ∨ plan.target s.next = some whole ∧
      ∃ u, plan.use s.types = some u ∧ u.fieldType.node = some part := by
  cases ready with
  | context => exact .inl (setContext_holds holds)
  | construct present unused =>
    simp only [commit, present] at holds
    rcases setConstruct_holds holds with old | ⟨rfl, f, member, _⟩
    · exact .inl (setContext_holds old)
    · cases member
  | @field plan options record context present unfrozen named unused offsets owner sized nonneg =>
    simp only [commit, present, freezeFieldType_holds] at holds
    rcases setConstruct_holds holds with old | ⟨rfl, f, member, designates⟩
    · exact .inl old
    · rcases List.mem_append.mp member with earlier | added
      · exact .inl (.field present earlier designates)
      · obtain rfl := List.mem_singleton.mp added
        exact .inr ⟨rfl, _, by simp only [Plan.use, present]; rfl, designates⟩
  | pointer =>
    simp only [commit] at holds
    split at holds
    · exact .inl holds
    · exact .inl (setContext_holds (setPointer_holds holds))
  | array present sized =>
    simp only [commit, present, freezeFieldType_holds] at holds
    rcases setArray_holds holds with old | ⟨rfl, designates⟩
    · exact .inl (setContext_holds old)
    · exact .inr ⟨rfl, _, rfl, designates⟩
  | dimension present unfrozen =>
    simp only [commit, present] at holds
    rcases setArray_holds holds with old | ⟨rfl, designates⟩
    · exact .inl old
    · exact .inl (.element present designates)
  | var present named unused sized =>
    simp only [commit, present] at holds
    exact .inl ((freezeFieldType_holds _).mp (setContext_holds (setVariable_holds holds)))

/-- Nothing holds what is not frozen. -/
theorem UsedFrozen.unheld {s : Store List} (frozen : UsedFrozen s) {part : Node}
    (unfrozen : s.frozen part = false) (whole : Node) : ¬ Holds s whole part := by
  intro holds
  rw [frozen part holds.used] at unfrozen
  cases unfrozen

/-- A step keeps containment well founded, short of nesting a construct in itself. -/
theorem Change.wellFounded {s next : Seen} {call : Call} (bounded : Bounded s)
    (frozen : UsedFrozen s.types) (change : Change s call next)
    (apart : call.code = .success → ¬ call.op.SelfField) (wellFounded : WellFounded (Part s.types)) :
    WellFounded (Part next.types) := by
  cases change with
  | idle failed same later => rwa [same]
  | @frozen plan ready failed same later =>
    rw [same]
    exact Subrelation.wf (fun held => (freezeFieldType_holds _).mp held) wellFounded
  | @committed plan ready code same taken =>
    rw [same]
    cases target : plan.target s.next with
    | none =>
      refine Subrelation.wf (fun held => ?_) wellFounded
      rcases commit_holds ready held with old | ⟨there, _⟩
      · exact old
      · rw [target] at there
        cases there
    | some top =>
      refine wellFounded_extend wellFounded (a := top)
        (fun whole => frozen.unheld (ready.target_unfrozen bounded target) whole) ?_
      intro part whole held
      rcases commit_holds ready held with old | ⟨there, u, use, designates⟩
      · exact .inl old
      · rw [target] at there
        cases there
        refine .inr ⟨rfl, ?_⟩
        rintro rfl
        obtain ⟨_, _, _, sized, _⟩ := (ready.use use).2
        exact ready.use_ne_target bounded (apart code) use target designates
          (exists_of_sized sized designates)

/-- The field type contains the object: it designates it, or something that holds it at
some depth. -/
def FieldType.Contains (s : Store List) (fieldType : FieldType) (n : Node) : Prop :=
  ∃ top, fieldType.node = some top ∧ Relation.ReflTransGen (Holds s) top n

/-- The call adds to a construct a field whose type contains the construct. -/
def Op.AddsContainer (s : Store List) : Op → Prop
  | .constructAddField (some construct) _ (some fieldType) _ =>
    fieldType.Contains s (.construct construct)
  | _ => False

theorem Op.SelfField.addsContainer {s : Store List} {op : Op} (self : op.SelfField) :
    op.AddsContainer s := by
  cases op with
  | constructAddField construct name fieldType options =>
    cases construct with
    | none => exact self
    | some construct =>
      cases fieldType with
      | none => exact self
      | some fieldType => exact ⟨_, self, .refl⟩
  | _ => exact self

/-- Only the construct itself contains what is still to be extended. -/
theorem Ready.addsContainer {s : Store List} {op : Op} {plan : Plan} (frozen : UsedFrozen s)
    (ready : Ready s op plan) (adds : op.AddsContainer s) : op.SelfField := by
  cases ready with
  | @field plan options record context present unfrozen named unused offsets owner sized nonneg =>
    obtain ⟨top, designates, contains⟩ := adds
    rcases contains.cases_tail with here | ⟨whole, _, holds⟩
    · subst here
      exact designates
    · have free : s.frozen (.construct plan.construct) = false := by
        simp [Store.frozen, present, unfrozen]
      exact absurd holds (frozen.unheld free whole)
  | _ => exact adds

section Runs

variable {trace : List (Transition Machine Event)} {final : Machine}

/-- The call passes its checks, has the memory it needs, and adds a construct as a field
of itself. -/
def NestsItself (m : Machine) (mem : Memory) (op : Op) : Prop :=
  op.SelfField ∧ ∃ plan, checks m.store op = .ok plan ∧ plan.Enough m.store mem

instance (m : Machine) (mem : Memory) (op : Op) : Decidable (NestsItself m mem op) :=
  inferInstanceAs (Decidable (_ ∧ _))

theorem Step.nestsItself_iff {m next : Machine} {event : Event} (step : Step m event next) :
    NestsItself m event.memory event.op ↔ event.op.SelfField ∧ event.result.code = .success := by
  rw [step.success_iff]
  rfl

theorem Ready.selfField {s : Seen} {op : Op} {plan : Plan} (bounded : Bounded s)
    (ready : Ready s.types op plan) (self : op.SelfField) :
    ∃ n, (commit s.types s.next plan).frozen n = true ∧ Holds (commit s.types s.next plan) n n := by
  cases ready with
  | @field plan options record context present unfrozen named unused offsets owner sized nonneg =>
    have designates : plan.fieldType.node = some (.construct plan.construct) := self
    refine ⟨.construct plan.construct, ?_, ?_⟩
    · rw [commit_frozen bounded (.field present unfrozen named unused offsets owner sized nonneg)]
      exact .inr ⟨_, by simp only [Plan.use, present]; rfl, designates⟩
    · simp only [commit, present, freezeFieldType_holds]
      exact .field (setConstruct_self _ _ _)
        (List.mem_append.mpr (.inr (List.mem_singleton.mpr rfl))) designates
  | _ => exact self.elim

theorem initial_wellFounded : WellFounded (Part Machine.initial.seen.types) := by
  refine ⟨fun whole => ⟨whole, fun part held => ?_⟩⟩
  cases held <;> contradiction

/-- A construct that was nested in itself stays so. -/
theorem not_wellFounded_of_nestsItself (run : Run trace final) {entry : Transition Machine Event}
    (member : entry ∈ trace) (nests : NestsItself entry.pre entry.label.memory entry.label.op) :
    ¬ WellFounded (Part final.store.view) := by
  obtain ⟨_, _, _, before, taken, after⟩ := run.split member
  obtain ⟨self, code⟩ := taken.nestsItself_iff.mp nests
  have bounded := bounded_of_run before
  obtain ⟨plan, ready, same, _⟩ := taken.change.of_success code
  obtain ⟨n, frozen, holds⟩ := ready.selfField bounded self
  rw [← same] at frozen holds
  have kept := same_of_execution (taken.change.bounded bounded) after frozen
  intro wellFounded
  exact wellFounded.asymmetric _ _ (kept.holds holds) (kept.holds holds)

/-- Containment is well founded at the end of a run exactly when no call succeeded in
adding a construct as a field of itself, and exactly then no call succeeded in adding a
construct to anything that contains it. -/
theorem wellFounded_iff_not_nestsItself (run : Run trace final) :
    (WellFounded (Part final.store.view) ↔
        ∀ entry ∈ trace, ¬ NestsItself entry.pre entry.label.memory entry.label.op) ∧
      ((∀ entry ∈ trace, entry.label.result.code = .success →
          ¬ entry.label.op.AddsContainer entry.pre.store.view) ↔
        ∀ entry ∈ trace, ¬ NestsItself entry.pre entry.label.memory entry.label.op) := by
  refine ⟨⟨?_, ?_⟩, ⟨?_, ?_⟩⟩
  · intro wellFounded entry member nests
    exact not_wellFounded_of_nestsItself run member nests wellFounded
  · intro apart
    have all := run.invariant_within
      (fun m => Bounded m.seen ∧ UsedFrozen m.seen.types ∧ WellFounded (Part m.seen.types))
      (fun entry => ¬ NestsItself entry.pre entry.label.memory entry.label.op)
      ⟨initial_bounded, usedFrozen_of_run .nil, initial_wellFounded⟩
      (fun m event next holds taken apart => by
        obtain ⟨bounded, frozen, wellFounded⟩ := holds
        have separate : event.call.code = .success → ¬ event.call.op.SelfField :=
          fun code self => apart (taken.nestsItself_iff.mpr ⟨self, code⟩)
        exact ⟨taken.change.bounded bounded, taken.change.usedFrozen bounded frozen,
          taken.change.wellFounded bounded frozen separate wellFounded⟩)
      apart
    exact all.2.2
  · intro never entry member nests
    obtain ⟨_, _, _, _, taken, _⟩ := run.split member
    obtain ⟨self, code⟩ := taken.nestsItself_iff.mp nests
    exact never entry member code self.addsContainer
  · intro apart entry member code adds
    obtain ⟨_, _, _, before, taken, _⟩ := run.split member
    obtain ⟨plan, ready, _⟩ := taken.change.of_success code
    have self := ready.addsContainer (usedFrozen_of_run before) adds
    exact apart entry member (taken.nestsItself_iff.mpr ⟨self, code⟩)

theorem wellFounded_nestedCalls :
    WellFounded (Part (replay respond Machine.initial nestedCalls).2.store.view) :=
  (wellFounded_iff_not_nestsItself (replay_run nestedCalls)).1.mpr (by decide +kernel)

/-- A struct that becomes a field of itself. -/
def selfCalls : List (Op × Memory) :=
  [(.contextCreate (some []) (some lp64) true, plenty),
   (.contextCreateConstruct .struct (some 0) (some [97]) false true, plenty),
   (.constructAddField (some 1) (some [98]) (some ⟨complexTypeStruct, 1⟩) [], plenty)]

theorem self_not_wellFounded : ¬ ∀ (trace : List (Transition Machine Event)) (final : Machine),
    Run trace final → WellFounded (Part final.store.view) := by
  intro wellFounded
  have last := wellFounded _ _ (replay_run selfCalls)
  have holds : Part (replay respond Machine.initial selfCalls).2.store.view
      (.construct 1) (.construct 1) :=
    .field (h := 1) rfl (.head _) rfl
  exact last.asymmetric _ _ holds holds

end Runs

end Mam.CopyEngine
