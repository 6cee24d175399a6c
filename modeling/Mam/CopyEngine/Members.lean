import Mam.CopyEngine.Built
import Mam.CopyEngine.Names

/-! The fields that a run adds to a construct, and what follows for the construct from what
every one of them does to it. -/

namespace Mam.CopyEngine

open Mam.Library

section Powers

/-- All alignments are powers of two. -/
structure Powered (s : Store List) : Prop where
  construct : ∀ h c, s.constructs h = some c → c.alignment.toNat.isPowerOfTwo
  array : ∀ h a, s.arrays h = some a → a.alignment.toNat.isPowerOfTwo

theorem Powered.sized {s : Store List} (powered : Powered s) {platform : Platform}
    {fieldType : FieldType} {size align : SizeT}
    (sized : getFieldTypeSizeAlign s platform fieldType = .ok (size, align)) :
    align.toNat.isPowerOfTwo := by
  cases sizeSource_of_sized sized with
  | data found => exact (dataTypeSizeAlign_spec found).2.1
  | construct present => exact powered.construct _ _ present
  | array present => exact powered.array _ _ present

theorem Powered.field {s : Store List} (powered : Powered s) {op : Op} {plan : FieldPlan}
    (ready : Ready s op (.field plan)) : plan.align.toNat.isPowerOfTwo := by
  cases ready with
  | field present unfrozen named unused offsets owner sized nonneg => exact powered.sized sized

theorem place_power {c : Construct List} (userOffset : Option SizeT) (size : SizeT) {align : SizeT}
    (own : c.alignment.toNat.isPowerOfTwo) (power : align.toNat.isPowerOfTwo) :
    (c.place userOffset size align).alignment.toNat.isPowerOfTwo := by
  rw [place_alignment]
  exact placeExact_power own power

theorem Change.powered {s next : Seen} {call : Call} (change : Change s call next)
    (powered : Powered s.types) : Powered next.types := by
  constructor
  · intro h c present
    cases change.construct present with
    | @kept old was same =>
      rw [same]
      exact powered.construct h old was
    | created ready code here same =>
      rw [same]
      exact Nat.isPowerOfTwo_one
    | @extended plan old ready code here was same =>
      rw [same]
      exact place_power plan.userOffset plan.size (powered.construct h old was) (powered.field ready)
  · intro h a present
    cases change.array present with
    | @kept old was same =>
      rw [same]
      exact powered.array h old was
    | @created plan ready code here same =>
      obtain ⟨platform, sized⟩ := ready.element_sized
      rw [same]
      exact powered.sized sized
    | @extended d old ready code was same =>
      rw [same]
      exact powered.array h old was

end Powers

section Members

/-- The field that a call adds to a construct. -/
def memberOf (h : Handle) (entry : Transition Machine Event) : Option FieldPlan :=
  if entry.label.result.code = .success then
    match checks entry.pre.store.view entry.label.op with
    | .ok (.field plan) => if plan.construct = h then some plan else none
    | _ => none
  else none

/-- The fields that a run adds to a construct, in order. -/
def members (h : Handle) (trace : List (Transition Machine Event)) : List FieldPlan :=
  trace.filterMap (memberOf h)

theorem memberOf_eq_some {h : Handle} {entry : Transition Machine Event} {plan : FieldPlan} :
    memberOf h entry = some plan ↔ entry.label.result.code = .success ∧
      checks entry.pre.store.view entry.label.op = .ok (.field plan) ∧ plan.construct = h := by
  unfold memberOf
  split
  · rename_i code
    split
    · rename_i found checked
      rw [checked]
      constructor
      · intro same
        split at same
        · rename_i here
          cases same
          exact ⟨code, rfl, here⟩
        · cases same
      · rintro ⟨_, same, here⟩
        cases same
        exact if_pos here
    · rename_i other
      refine ⟨nofun, ?_⟩
      rintro ⟨_, checked, _⟩
      exact absurd checked (other plan)
  · rename_i failed
    exact ⟨nofun, fun added => absurd added.1 failed⟩

theorem members_snoc (h : Handle) (trace : List (Transition Machine Event))
    (entry : Transition Machine Event) :
    members h (trace ++ [entry]) = members h trace ++ (memberOf h entry).toList := by
  unfold members
  rw [List.filterMap_append]
  cases added : memberOf h entry <;> simp [added]

/-- No call adds a field to a construct that does not exist yet. -/
theorem memberOf_unborn {m next : Machine} {event : Event} (bounded : Bounded m.seen) {h : Handle}
    (young : m.heap.next ≤ h) : memberOf h ⟨m, event, next⟩ = none := by
  cases member : memberOf h ⟨m, event, next⟩ with
  | none => rfl
  | some plan =>
    obtain ⟨_, checked, rfl⟩ := memberOf_eq_some.mp member
    have absent := bounded.constructs _ young
    obtain ⟨op, memory, result⟩ := event
    cases checks_ready checked with
    | field there unfrozen named unused offsets owner sized nonneg =>
      have there : m.seen.types.constructs plan.construct = _ := there
      rw [absent] at there
      cases there

/-- A call that adds a field leaves the construct with it. -/
theorem Change.withField {s next : Seen} {call : Call} (change : Change s call next)
    {plan : FieldPlan} (ready : Ready s.types call.op (.field plan)) (code : call.code = .success) :
    ∃ record flag, s.types.constructs plan.construct = some record ∧
      next.types.constructs plan.construct =
        some { record.withField s.next plan with frozen := flag } := by
  obtain ⟨other, again, same, _⟩ := change.of_success code
  cases ready.unique again
  obtain ⟨op, result⟩ := call
  cases ready with
  | @field plan options record context there unfrozen named unused offsets owner sized nonneg =>
    simp only [same, commit, there, freezeFieldType_constructs, setConstruct_self,
      Option.map_some, Option.some.injEq]
    split
    · exact ⟨record, true, rfl, rfl⟩
    · exact ⟨record, record.frozen, rfl, rfl⟩

theorem Change.added {s next : Seen} {call : Call} (change : Change s call next) {plan : FieldPlan}
    (ready : Ready s.types call.op (.field plan)) (code : call.code = .success)
    {c : Construct List} (present : next.types.constructs plan.construct = some c) :
    ∃ old, s.types.constructs plan.construct = some old ∧
      c = { old.withField s.next plan with frozen := c.frozen } := by
  obtain ⟨old, flag, was, grown⟩ := change.withField ready code
  rw [grown] at present
  cases present
  exact ⟨old, was, rfl⟩

variable {trace : List (Transition Machine Event)} {final : Machine}

/-- What holds of new constructs with no fields, and is kept by every field that is added and
by freezing, holds of every construct with the fields that the run added to it. -/
theorem members_rule {P : List FieldPlan → Construct List → Prop} (run : Run trace final)
    (created : ∀ owner type name packed, P [] (.fresh owner type name packed))
    (frozen : ∀ plans c flag, P plans c → P plans { c with frozen := flag })
    (added : ∀ (s : Seen) op (plan : FieldPlan) c plans, Powered s.types → Ready s.types op (.field plan) →
      s.types.constructs plan.construct = some c → P plans c →
      P (plans ++ [plan]) (c.withField s.next plan))
    {h : Handle} {c : Construct List} (present : final.store.view.constructs h = some c) :
    P (members h trace) c := by
  have all := run.invariant_along (fun history m => Bounded m.seen ∧ Powered m.store.view ∧
    (∀ h, m.heap.next ≤ h → members h history = []) ∧
    ∀ h c, m.store.view.constructs h = some c → P (members h history) c) (fun _ => True)
    ⟨initial_bounded, ⟨nofun, nofun⟩, fun _ _ => rfl, nofun⟩ ?_ fun _ _ => trivial
  · exact all.2.2.2 h c present
  rintro history m event next ⟨bounded, powered, unborn, holds⟩ step _
  have change := step.change
  refine ⟨change.bounded bounded, change.powered powered, ?_, ?_⟩
  · intro h later
    have young : m.heap.next ≤ h := Nat.le_trans change.next_le later
    rw [members_snoc, unborn h young, memberOf_unborn bounded young]
    rfl
  · intro h c present
    rw [members_snoc]
    cases member : memberOf h ⟨m, event, next⟩ with
    | some plan =>
      obtain ⟨code, checked, rfl⟩ := memberOf_eq_some.mp member
      have ready : Ready m.seen.types event.op (.field plan) := checks_ready checked
      obtain ⟨old, was, same⟩ := change.added ready code present
      rw [same]
      exact frozen _ _ _ (added m.seen _ plan old _ powered ready was (holds _ old was))
    | none =>
      simp only [Option.toList_none, List.append_nil]
      cases change.construct present with
      | @kept old was same =>
        rw [same]
        exact frozen _ _ _ (holds h old was)
      | created ready code here same =>
        have here : h = m.heap.next := here
        rw [same, unborn h (Nat.le_of_eq here.symm)]
        exact created _ _ _ _
      | @extended plan old ready code here was same =>
        have again : memberOf h ⟨m, event, next⟩ = some plan :=
          memberOf_eq_some.mpr ⟨code, ready.checked, here.symm⟩
        rw [member] at again
        cases again

end Members

end Mam.CopyEngine
