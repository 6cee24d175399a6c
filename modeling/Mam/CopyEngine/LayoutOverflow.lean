import Mam.CopyEngine.Members

/-! Where the layout of a construct leaves the range of its words. -/

namespace Mam.CopyEngine

open Mam.Library

section Exact

/-- What adding the field makes of the construct, in exact numbers. -/
def FieldPlan.exact (plan : FieldPlan) (c : Construct List) : ExactLayout :=
  c.placeExact plan.userOffset plan.size.toNat plan.align.toNat

/-- The field is placed and its construct extended by exact numbers, the last offset does not
decrease, and the size is the same number as an `ssize_t`. -/
structure PlacedExactly (before after : Construct List) (plan : FieldPlan) : Prop where
  offset : ∃ f, after.fields = before.fields ++ [f] ∧ f.offset.toNat = (plan.exact before).offset
  lastOffset : after.lastOffset.toNat = (plan.exact before).lastOffset
  totalSize : after.totalSize.toNat = (plan.exact before).totalSize
  forward : before.lastOffset.toNat ≤ after.lastOffset.toNat
  signed : after.totalSize.toInt = (plan.exact before).totalSize

/-- The field is added exactly, and the size of the construct is read so from then on. -/
inductive AddedExactly (s next : Store List) (plan : FieldPlan) : Prop where
  | intro {before after : Construct List} (was : s.constructs plan.construct = some before)
      (present : next.constructs plan.construct = some after)
      (placed : PlacedExactly before after plan)
      (read : ∀ platform (fieldType : FieldType),
        fieldType.resolved platform = some (.construct plan.construct) →
        getFieldTypeSizeAlign next platform fieldType = .ok (after.totalSize, after.alignment))

variable {c : Construct List} {userOffset : Option SizeT}

/-- The exact last offset lies between the one before and the exact total. -/
theorem placeExact_lastOffset (size align : Nat)
    (ahead : ∀ offset ∈ userOffset, c.lastOffset.toNat ≤ offset.toNat)
    (flat : c.type = .union → c.lastOffset = 0) :
    c.lastOffset.toNat ≤ (c.placeExact userOffset size align).lastOffset ∧
      (c.placeExact userOffset size align).lastOffset ≤
        (c.placeExact userOffset size align).totalSize := by
  cases type : c.type with
  | struct =>
    obtain ⟨before, last, covered⟩ := placeExact_struct size align type ahead
    refine ⟨?_, covered⟩
    rw [last]
    exact Nat.le_trans before (Nat.le_add_right _ _)
  | union =>
    have same : (c.placeExact userOffset size align).lastOffset = c.lastOffset.toNat := by
      simp only [Construct.placeExact, type]
    rw [same]
    refine ⟨Nat.le_refl _, ?_⟩
    rw [flat type]
    exact Nat.zero_le _

/-- A field is placed exactly if and only if its exact layout is in range. -/
theorem placedExactly_iff_fits {plan : FieldPlan} (own : c.alignment.toNat.isPowerOfTwo)
    (power : plan.align.toNat.isPowerOfTwo)
    (ahead : ∀ offset ∈ plan.userOffset, c.lastOffset.toNat ≤ offset.toNat)
    (flat : c.type = .union → c.lastOffset = 0) (h : Handle) (flag : Bool) :
    PlacedExactly c { c.withField h plan with frozen := flag } plan ↔
      c.Fits plan.userOffset plan.size.toNat plan.align.toNat := by
  obtain ⟨forward, covered⟩ := placeExact_lastOffset plan.size.toNat plan.align.toNat ahead flat
  constructor
  · intro placed
    have below := BitVec.toInt_lt (x := (c.withField h plan).totalSize)
    have signed : (c.withField h plan).totalSize.toInt = (plan.exact c).totalSize := placed.signed
    rw [signed] at below
    have small : (plan.exact c).totalSize < 2 ^ 63 := by omega
    exact ⟨Nat.lt_of_le_of_lt covered small, small⟩
  · intro fits
    have exactly := place_exactly own power fits
    refine ⟨⟨_, rfl, exactly.offset⟩, exactly.lastOffset, exactly.totalSize, ?_, ?_⟩
    · show c.lastOffset.toNat ≤ (c.place plan.userOffset plan.size plan.align).lastOffset.toNat
      rw [exactly.lastOffset]
      exact forward
    · have small := fits.totalSize
      rw [← exactly.totalSize] at small
      show (c.place plan.userOffset plan.size plan.align).totalSize.toInt = _
      rw [BitVec.toInt_eq_toNat_of_lt (by omega), exactly.totalSize]
      rfl

end Exact

section Runs

/-- The exact layout is out of range. -/
def FieldPlan.Overflows (plan : FieldPlan) (s : Store List) : Prop :=
  ∃ record ∈ s.constructs plan.construct,
    ¬ record.Fits plan.userOffset plan.size.toNat plan.align.toNat

instance FieldPlan.decidableOverflows (plan : FieldPlan) (s : Store List) :
    Decidable (plan.Overflows s) :=
  inferInstanceAs (Decidable (∃ record ∈ s.constructs plan.construct, ¬ _))

def Plan.OverflowsLayout (s : Store List) : Plan → Prop
  | .field plan => plan.Overflows s
  | _ => False

instance Plan.decidableOverflowsLayout (s : Store List) : DecidablePred (Plan.OverflowsLayout s)
  | .field plan => inferInstanceAs (Decidable (plan.Overflows s))
  | .context _ _ => .isFalse id
  | .construct _ _ _ _ => .isFalse id
  | .pointer _ _ => .isFalse id
  | .array _ => .isFalse id
  | .dimension _ _ => .isFalse id
  | .var _ => .isFalse id

/-- The call passes its checks, has the memory it needs, and adds a field whose exact layout
is out of range. -/
def OverflowsLayout (m : Machine) (mem : Memory) (op : Op) : Prop :=
  ∃ plan, checks m.store op = .ok plan ∧ plan.Enough m.store mem ∧
    plan.OverflowsLayout m.store.view

instance decidableOverflowsLayout (m : Machine) (mem : Memory) (op : Op) :
    Decidable (OverflowsLayout m mem op) :=
  inferInstanceAs (Decidable (∃ _, _ ∧ _))

/-- A call that is refused leaves the construct as it was. -/
structure Refused (entry : Transition Machine Event) (h : Handle) : Prop where
  code : entry.label.result.code ≠ .success
  same : entry.post.store.view.constructs h = entry.pre.store.view.constructs h

/-- What placing a field relies on. -/
structure Placeable (s : Store List) : Prop where
  powered : Powered s
  flat : ∀ h c, s.constructs h = some c → c.type = .union → c.lastOffset = 0

theorem Change.placeable {s next : Seen} {call : Call} (change : Change s call next)
    (placeable : Placeable s.types) : Placeable next.types := by
  refine ⟨change.powered placeable.powered, ?_⟩
  intro h c present
  cases change.construct present with
  | @kept old was same =>
    rw [same]
    exact placeable.flat h old was
  | created ready code here same =>
    rw [same]
    exact fun _ => rfl
  | @extended plan old ready code here was same =>
    rw [same]
    intro union
    have union : old.type = .union := union
    show (old.place plan.userOffset plan.size plan.align).lastOffset = 0
    simp only [Construct.place, union]
    exact placeable.flat h old was union

/-- A call that succeeds in adding a field adds it exactly if and only if it fits. -/
theorem Change.addedExactly_iff {s next : Seen} {call : Call} (change : Change s call next)
    (placeable : Placeable s.types) {plan : FieldPlan} (ready : Ready s.types call.op (.field plan))
    (code : call.code = .success) :
    AddedExactly s.types next.types plan ↔ ¬ plan.Overflows s.types := by
  obtain ⟨record, flag, was, present⟩ := change.withField ready code
  have exactly := placedExactly_iff_fits (placeable.powered.construct _ record was)
    (placeable.powered.field ready) (fun offset member => (ready.offsets was offset member).1)
    (placeable.flat _ record was) s.next flag
  have within : ¬ plan.Overflows s.types ↔
      record.Fits plan.userOffset plan.size.toNat plan.align.toNat := by
    simp only [FieldPlan.Overflows, was, Option.mem_some_iff, exists_eq_left', not_not]
  rw [within, ← exactly]
  constructor
  · rintro ⟨there, after, placed, read⟩
    rw [was] at there
    rw [present] at after
    cases there
    cases after
    exact placed
  · intro placed
    refine ⟨was, present, placed, ?_⟩
    intro platform fieldType resolved
    apply (getFieldTypeSizeAlign_of_resolved resolved).mpr
    simp only [Store.sizeAlign, present, Option.map_some]

theorem Change.refused {s next : Seen} {call : Call} (change : Change s call next)
    {plan : FieldPlan} (ready : Ready s.types call.op (.field plan)) (failed : call.code ≠ .success) :
    next.types = s.types := by
  cases change with
  | idle _ same later => exact same
  | frozen other _ same later => cases ready.unique other
  | committed other code same taken => exact absurd code failed

theorem Step.overflowsLayout {m next : Machine} {event : Event} (step : Step m event next)
    {plan : FieldPlan} (checked : checks m.store event.op = .ok (.field plan))
    (code : event.result.code = .success) (beyond : plan.Overflows m.store.view) :
    OverflowsLayout m event.memory event.op := by
  obtain ⟨other, passed, enough⟩ := step.success_iff.mp code
  rw [checked] at passed
  cases passed
  exact ⟨_, checked, enough, beyond⟩

variable {trace : List (Transition Machine Event)} {final : Machine}

/-- Every field of a run is added exactly if and only if no call adds one whose exact layout
is out of range, and exactly then every such call is refused. -/
theorem addedExactly_iff_not_overflows (run : Run trace final) :
    ((∀ entry ∈ trace, ∀ plan, checks entry.pre.store entry.label.op = .ok (.field plan) →
        entry.label.result.code = .success →
        AddedExactly entry.pre.store.view entry.post.store.view plan) ↔
      ∀ entry ∈ trace, ¬ OverflowsLayout entry.pre entry.label.memory entry.label.op) ∧
    ((∀ entry ∈ trace, ∀ plan, checks entry.pre.store entry.label.op = .ok (.field plan) →
        plan.Overflows entry.pre.store.view → Refused entry plan.construct) ↔
      ∀ entry ∈ trace, ¬ OverflowsLayout entry.pre entry.label.memory entry.label.op) := by
  constructor
  · refine run.forall_iff (fun m => Placeable m.store.view) ?_ ?_ ?_ (fun _ _ => trivial)
    · exact ⟨⟨nofun, nofun⟩, nofun⟩
    · intro m event next placeable step
      exact step.change.placeable placeable
    · intro m event next placeable step (_ : True)
      constructor
      · rintro added ⟨plan, checked, enough, beyond⟩
        cases plan with
        | field plan =>
          have code := step.success_iff.mpr ⟨_, checked, enough⟩
          exact (step.change.addedExactly_iff placeable (ready_of_checked checked) code).mp
            (added plan checked code) beyond
        | _ => exact beyond
      · intro within plan checked code
        apply (step.change.addedExactly_iff placeable (ready_of_checked checked) code).mpr
        intro beyond
        exact within (step.overflowsLayout checked code beyond)
  · refine run.forall_iff (fun _ => True) trivial (fun _ _ _ _ _ => trivial) ?_ (fun _ _ => trivial)
    intro m event next _ step (_ : True)
    constructor
    · rintro refused ⟨plan, checked, enough, beyond⟩
      cases plan with
      | field plan =>
        exact (refused plan checked beyond).code (step.success_iff.mpr ⟨_, checked, enough⟩)
      | _ => exact beyond
    · intro within plan checked beyond
      have failed : event.result.code ≠ .success :=
        fun code => within (step.overflowsLayout checked code beyond)
      refine ⟨failed, ?_⟩
      have same := step.change.refused (ready_of_checked checked) failed
      exact congrArg (fun types => types.constructs plan.construct) same

/-- A field far out, and one after it. -/
def distantCalls : List (Op × Memory) :=
  [(.contextCreate (some []) (some lp64) true, plenty),
   (.contextCreateConstruct .struct (some 0) (some [97]) false true, plenty),
   (.constructAddField (some 1) (some [97]) (some ⟨6, 0⟩) [.offset 0x4000000000000000], plenty),
   (.constructAddField (some 1) (some [98]) (some ⟨0, 0⟩) [], plenty)]

theorem distantCalls_exact :
    Run (replay respond Machine.initial distantCalls).1 (replay respond Machine.initial distantCalls).2 ∧
      ∀ entry ∈ (replay respond Machine.initial distantCalls).1, ∀ plan,
        checks entry.pre.store entry.label.op = .ok (.field plan) →
        entry.label.result.code = .success →
        AddedExactly entry.pre.store.view entry.post.store.view plan := by
  have run := replay_run distantCalls
  exact ⟨run, (addedExactly_iff_not_overflows run).1.mpr (by decide +kernel)⟩

/-- A byte at the last offset there is. -/
def outermostCalls : List (Op × Memory) :=
  [(.contextCreate (some []) (some lp64) true, plenty),
   (.contextCreateConstruct .struct (some 0) (some [97]) false true, plenty),
   (.constructAddField (some 1) (some [97]) (some ⟨0, 0⟩) [.offset 0xFFFFFFFFFFFFFFFF], plenty)]

/-- The last offset and the size become 0. -/
theorem layout_wraps : ¬ ∀ (trace : List (Transition Machine Event)) (final : Machine),
    Run trace final →
    (∀ entry ∈ trace, ∀ plan, checks entry.pre.store entry.label.op = .ok (.field plan) →
        entry.label.result.code = .success →
        AddedExactly entry.pre.store.view entry.post.store.view plan) ∧
      ∀ entry ∈ trace, ∀ plan, checks entry.pre.store entry.label.op = .ok (.field plan) →
        plan.Overflows entry.pre.store.view → Refused entry plan.construct := by
  intro all
  obtain ⟨added, _⟩ := all _ _ (replay_run outermostCalls)
  obtain ⟨was, present, placed, _⟩ := added _ (List.getLast_mem (by decide +kernel)) _ rfl rfl
  cases was
  cases present
  exact absurd placed.signed (by decide +kernel)

end Runs

end Mam.CopyEngine
