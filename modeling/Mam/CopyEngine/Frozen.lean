import Mam.CopyEngine.Cached

/-! Which objects are frozen: those used by value, unless a call freezes before it fails. -/

namespace Mam.CopyEngine

open Mam.Library

/-- The objects that are frozen are those that something uses by value. -/
def FrozenExactly (s : Store List) : Prop := ∀ n, s.frozen n = true ↔ UsedByValue s n

theorem initial_frozenExactly : FrozenExactly Machine.initial.store.view := by
  intro n
  constructor
  · intro frozen
    cases n <;> cases frozen
  · rintro ⟨u, uses, _⟩
    cases uses <;> contradiction

theorem FrozenExactly.usedFrozen {s : Store List} (exactly : FrozenExactly s) : UsedFrozen s :=
  fun n used => (exactly n).mpr used

/-- The plan is for a variable of a type that is not frozen. -/
def Plan.settles (s : Store List) : Plan → Prop
  | .var plan => ∃ n, plan.fieldType.node = some n ∧ s.frozen n = false
  | _ => False

instance (s : Store List) : DecidablePred (Plan.settles s)
  | .var plan =>
    match designates : plan.fieldType.node with
    | some n => decidable_of_iff (s.frozen n = false) (by simp [Plan.settles, designates])
    | none => .isFalse (by simp [Plan.settles, designates])
  | .context _ _ => .isFalse id
  | .construct _ _ _ _ => .isFalse id
  | .field _ => .isFalse id
  | .pointer _ _ => .isFalse id
  | .array _ => .isFalse id
  | .dimension _ _ => .isFalse id

/-- The call is to create a variable of a type that is not frozen yet, obtains the
variable, and then lacks the memory for the list or for the name. -/
def FreezesEarly (m : Machine) (mem : Memory) (op : Op) : Prop :=
  ∃ plan, checks m.store op = .ok plan ∧ mem.calloc = true ∧ ¬ plan.Enough m.store mem ∧
    plan.settles m.store.view

instance (m : Machine) (mem : Memory) (op : Op) : Decidable (FreezesEarly m mem op) :=
  inferInstanceAs (Decidable (∃ _, _ ∧ _))

section Steps

variable {m next : Machine} {event : Event}

/-- Freezing one type more keeps flags and uses in step exactly when that type was
frozen already. -/
theorem freezeFieldType_frozenExactly {s : Store List} {fieldType : FieldType}
    (exactly : FrozenExactly s)
    (exist : ∀ n, fieldType.node = some n → (s.sizeAlign n).isSome = true) :
    FrozenExactly (freezeFieldType s fieldType) ↔
      ¬ ∃ n, fieldType.node = some n ∧ s.frozen n = false := by
  have used (n : Node) : UsedByValue (freezeFieldType s fieldType) n ↔ UsedByValue s n := by
    simp only [UsedByValue, uses_freezeFieldType]
  constructor
  · rintro kept ⟨n, designates, unfrozen⟩
    have set := (freezeFieldType_frozen s fieldType n).mpr (.inr ⟨designates, exist n designates⟩)
    rw [kept n, used n, ← exactly n, unfrozen] at set
    cases set
  · intro none n
    rw [freezeFieldType_frozen, used n, ← exactly n]
    refine ⟨?_, .inl⟩
    rintro (frozen | ⟨designates, _⟩)
    · exact frozen
    · by_contra unfrozen
      exact none ⟨n, designates, by simpa using unfrozen⟩

theorem commit_frozenExactly {s : Seen} {op : Op} {plan : Plan} (bounded : Bounded s)
    (ready : Ready s.types op plan) (exactly : FrozenExactly s.types) :
    FrozenExactly (commit s.types s.next plan) := by
  intro n
  rw [commit_frozen bounded ready, exactly n]
  constructor
  · rintro (⟨u, uses, designates⟩ | ⟨u, use, designates⟩)
    · exact ⟨u, (commit_uses bounded ready).mpr (.inl uses), designates⟩
    · exact ⟨u, (commit_uses bounded ready).mpr (.inr use), designates⟩
  · rintro ⟨u, uses, designates⟩
    rcases (commit_uses bounded ready).mp uses with old | new
    · exact .inl ⟨u, old, designates⟩
    · exact .inr ⟨u, new, designates⟩

/-- A call that fails after its `calloc` leaves flags and uses in step exactly when it
did not freeze anything early. -/
private theorem leftover_frozenExactly {plan : Plan} {r : Return}
    (exactly : FrozenExactly m.store.view) (checked : checks m.store event.op = .ok plan)
    (calloc : event.memory.calloc = true) (short : ¬ plan.Enough m.store event.memory)
    (same : r.machine.store.view = plan.leftover m.store.view) :
    FrozenExactly r.machine.store.view ↔ ¬ FreezesEarly m event.memory event.op := by
  have early : FreezesEarly m event.memory event.op ↔ plan.settles m.store.view :=
    (exists_ok_iff checked).trans
      ⟨fun ⟨_, _, settles⟩ => settles, fun settles => ⟨calloc, short, settles⟩⟩
  rw [same, early]
  have ready := ready_of_checked checked
  cases plan with
  | var plan =>
    refine freezeFieldType_frozenExactly exactly fun n designates => ?_
    obtain ⟨_, _, _, sized, _⟩ := (ready.use rfl).2
    exact Option.isSome_of_eq_some (exists_of_sized sized designates)
  | _ => exact ⟨fun _ => id, fun _ => exactly⟩

/-- One step keeps flags and uses in step exactly when it does not freeze early. -/
theorem Step.frozenExactly_iff (step : Step m event next) (bounded : Bounded m.seen)
    (exactly : FrozenExactly m.store.view) :
    FrozenExactly next.store.view ↔ ¬ FreezesEarly m event.memory event.op := by
  obtain ⟨returned, rfl⟩ := step
  cases exec_returned returned with
  | refused checked same =>
    rw [same]
    exact ⟨fun _ => not_exists_ok checked, fun _ => exactly⟩
  | @starved plan checked missing undone same =>
    rw [same]
    refine ⟨fun _ early => ?_, fun _ => exactly⟩
    obtain ⟨calloc, _, settles⟩ := (exists_ok_iff checked).mp early
    rcases missing with failed | ⟨allocates, _⟩
    · rw [calloc] at failed
      cases failed
    · cases plan <;> first | exact settles | cases allocates
  | unappended checked calloc malloc full missing undone same torn =>
    refine leftover_frozenExactly exactly checked calloc ?_ same
    intro enough
    rw [enough.realloc full] at missing
    cases missing
  | uninserted checked calloc malloc appended inserts missing undone same intact =>
    refine leftover_frozenExactly exactly checked calloc ?_ same
    intro enough
    rw [enough.insert inserts] at missing
    cases missing
  | done checked enough code heap same intact =>
    rw [same]
    refine ⟨fun _ early => ?_, fun _ => commit_frozenExactly bounded (ready_of_checked checked) exactly⟩
    obtain ⟨_, short, _⟩ := (exists_ok_iff checked).mp early
    exact short enough

/-- Where flags and uses are in step on both sides, a call that failed froze nothing. -/
theorem Step.frozen_of_failed (step : Step m event next) (failed : event.result.code ≠ .success)
    (before : FrozenExactly m.store.view) (after : FrozenExactly next.store.view) (n : Node) :
    next.store.view.frozen n = m.store.view.frozen n := by
  have used : UsedByValue next.store.view n ↔ UsedByValue m.store.view n := by
    cases step.change with
    | idle _ same later =>
      have same : next.store.view = m.store.view := same
      rw [same]
    | @frozen plan ready _ same later =>
      have same : next.store.view = freezeFieldType m.store.view plan.fieldType := same
      simp only [same, UsedByValue, uses_freezeFieldType]
    | committed ready code same taken => exact absurd code failed
  exact Bool.eq_iff_iff.mpr ((after n).trans (used.trans (before n).symm))

end Steps

section Runs

variable {trace : List (Transition Machine Event)} {final : Machine}

theorem frozenExactly_of_run (run : Run trace final)
    (timely : ∀ entry ∈ trace, ¬ FreezesEarly entry.pre entry.label.memory entry.label.op) :
    FrozenExactly final.store.view := by
  have both := run.invariant_within
    (fun m => Bounded m.seen ∧ FrozenExactly m.store.view)
    (fun entry => ¬ FreezesEarly entry.pre entry.label.memory entry.label.op)
    ⟨initial_bounded, initial_frozenExactly⟩
    (fun _ _ _ both step timely =>
      ⟨step.change.bounded both.1, (step.frozenExactly_iff both.1 both.2).mpr timely⟩)
    timely
  exact both.2

theorem forall_frozenExactly_iff (run : Run trace final) :
    (∀ entry ∈ trace, FrozenExactly entry.post.store.view) ↔
      ∀ entry ∈ trace, ¬ FreezesEarly entry.pre entry.label.memory entry.label.op :=
  run.forall_post_iff (fun m => Bounded m.seen) (fun m => FrozenExactly m.store.view)
    initial_bounded initial_frozenExactly
    (fun _ _ _ bounded step => step.change.bounded bounded)
    (fun _ _ _ bounded exactly step => step.frozenExactly_iff bounded exactly)

/-- In every state of a run the frozen objects are exactly those used by value, and no
failing call freezes any, exactly when no call freezes early. -/
theorem frozenExactly_iff_not_freezesEarly (run : Run trace final) :
    (∀ entry ∈ trace, FrozenExactly entry.post.store.view ∧
        (entry.label.result.code ≠ .success →
          ∀ n, entry.post.store.view.frozen n = entry.pre.store.view.frozen n)) ↔
      ∀ entry ∈ trace, ¬ FreezesEarly entry.pre entry.label.memory entry.label.op := by
  rw [← forall_frozenExactly_iff run]
  constructor
  · exact fun all entry member => (all entry member).1
  · intro all entry member
    refine ⟨all entry member, fun failed => ?_⟩
    obtain ⟨earlier, later, split, before, step, _⟩ := run.split member
    have timely : ∀ past ∈ earlier, ¬ FreezesEarly past.pre past.label.memory past.label.op := by
      intro past member
      exact (forall_frozenExactly_iff run).mp all past (by simp [split, member])
    exact step.frozen_of_failed failed (frozenExactly_of_run before timely) (all entry member)

theorem frozen_nestedCalls :
    Run (replay respond Machine.initial nestedCalls).1 (replay respond Machine.initial nestedCalls).2 ∧
      ∀ entry ∈ (replay respond Machine.initial nestedCalls).1,
        FrozenExactly entry.post.store.view ∧ (entry.label.result.code ≠ .success →
          ∀ n, entry.post.store.view.frozen n = entry.pre.store.view.frozen n) := by
  have run := replay_run nestedCalls
  exact ⟨run, (frozenExactly_iff_not_freezesEarly run).mpr (by decide +kernel)⟩

/-- A variable of a struct type, whose name cannot be inserted. -/
def unnamedCalls : List (Op × Memory) :=
  [(.contextCreate (some []) (some lp64) true, plenty),
   (.contextCreateConstruct .struct (some 0) (some [97]) false true, plenty),
   (.contextCreateVariable (some 0) (some [98]) (some ⟨complexTypeStruct, 1⟩) true,
     { plenty with insert := false })]

/-- The struct is frozen, and nothing uses it. -/
theorem unused_frozen : ¬ ∀ (trace : List (Transition Machine Event)) (final : Machine),
    Run trace final → ∀ entry ∈ trace, FrozenExactly entry.post.store.view := by
  intro exactly
  have timely := (forall_frozenExactly_iff (replay_run unnamedCalls)).mp
    (exactly _ _ (replay_run unnamedCalls))
  exact absurd timely (by decide +kernel)

end Runs

end Mam.CopyEngine
