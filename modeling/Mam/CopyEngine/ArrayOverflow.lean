import Mam.CopyEngine.ArraySize

/-! Where the size of an array leaves the range of `ssize_t`. -/

namespace Mam.CopyEngine

open Mam.Library

/-- The size is the exact product of the element size and the extents, which is positive. -/
def ArrayType.Exact (a : ArrayType List) : Prop :=
  a.dimensions ≠ [] → a.Fixed → 0 ∉ a.counts → 0 < a.elemSize.toInt →
    a.totalSize.toInt = (a.elemSize.toNat * a.count : Nat) ∧ 0 < a.totalSize.toInt

/-- One more extent takes the exact product out of the range. -/
structure ArrayType.Overflows (a : ArrayType List) (d : Dimension) : Prop where
  fixed : a.Fixed
  extent : d.Fixed
  positive : 0 < a.elemSize.toInt
  large : 2 ^ 63 ≤ a.elemSize.toNat * (a.count * d.count)

instance ArrayType.decidableOverflows (a : ArrayType List) (d : Dimension) :
    Decidable (a.Overflows d) :=
  decidable_of_iff (a.Fixed ∧ d.Fixed ∧ 0 < a.elemSize.toInt ∧
      2 ^ 63 ≤ a.elemSize.toNat * (a.count * d.count))
    ⟨fun ⟨fixed, extent, positive, large⟩ => ⟨fixed, extent, positive, large⟩,
      fun beyond => ⟨beyond.fixed, beyond.extent, beyond.positive, beyond.large⟩⟩

/-- The call adds such an extent. -/
def Op.OverflowsArray (s : Store List) : Op → Prop
  | .arrayAddDimension (some h) (some d) => ∃ a ∈ s.arrays h, a.Overflows d
  | _ => False

instance Op.decidableOverflowsArray (s : Store List) : DecidablePred (Op.OverflowsArray s)
  | .arrayAddDimension (some h) (some d) =>
    inferInstanceAs (Decidable (∃ a ∈ s.arrays h, a.Overflows d))
  | .arrayAddDimension none _ => .isFalse id
  | .arrayAddDimension (some _) none => .isFalse id
  | .contextCreate .. => .isFalse id
  | .contextCreateConstruct .. => .isFalse id
  | .constructAddField .. => .isFalse id
  | .contextCreatePointer .. => .isFalse id
  | .contextCreateArray .. => .isFalse id
  | .contextCreateVariable .. => .isFalse id

section Products

variable {a : ArrayType List} {d : Dimension}

theorem count_pos_of_zero_not_mem (nonzero : 0 ∉ a.counts) : 0 < a.count :=
  Nat.pos_of_ne_zero (List.prod_ne_zero nonzero)

/-- Where the exact product is in range, the size is exact. -/
theorem ArrayType.Scaled.exact (scaled : a.Scaled)
    (small : a.Fixed → 0 ∉ a.counts → 0 < a.elemSize.toInt → a.elemSize.toNat * a.count < 2 ^ 63) :
    a.Exact := by
  intro listed fixed nonzero positive
  have extents : a.counts ≠ [] := fun empty => listed (List.map_eq_nil_iff.mp empty)
  have less := small fixed nonzero positive
  have total : a.totalSize.toNat = a.elemSize.toNat * a.count := by
    rw [scaled fixed (Int.le_of_lt positive)]
    exact scaleAll_exact extents nonzero less
  have above : 0 < a.elemSize.toNat * a.count :=
    Nat.mul_pos (toInt_pos_iff.mp positive).1 (count_pos_of_zero_not_mem nonzero)
  rw [BitVec.toInt_eq_toNat_of_lt (by omega), total]
  exact ⟨rfl, Int.natCast_pos.mpr above⟩

/-- The exact product of an array whose size is exact is in range. -/
theorem ArrayType.Exact.small (exact : a.Exact) (fixed : a.Fixed) (nonzero : 0 ∉ a.counts)
    (positive : 0 < a.elemSize.toInt) : a.elemSize.toNat * a.count < 2 ^ 63 := by
  by_cases listed : a.dimensions = []
  · have one : a.count = 1 := by simp [ArrayType.count, listed]
    rw [one, Nat.mul_one]
    exact (toInt_pos_iff.mp positive).2
  · obtain ⟨total, _⟩ := exact listed fixed nonzero positive
    have below := BitVec.toInt_lt (x := a.totalSize)
    omega

/-- An extent that takes the product out of range leaves a size that is not exact. -/
theorem ArrayType.Overflows.not_exact (beyond : a.Overflows d) (h : Handle) :
    ¬ (a.withDimension h d).Exact := by
  intro exact
  have fixed : (a.withDimension h d).Fixed := withDimension_fixed_iff.mpr ⟨beyond.fixed, beyond.extent⟩
  have large := beyond.large
  rw [← withDimension_count a h d] at large
  have nonzero : 0 ∉ (a.withDimension h d).counts := by
    intro member
    have none : (a.withDimension h d).count = 0 := List.prod_eq_zero member
    rw [none, Nat.mul_zero] at large
    exact absurd large (by decide)
  exact Nat.not_lt.mpr large (exact.small fixed nonzero beyond.positive)

/-- Any other extent leaves an exact size. -/
theorem ArrayType.Scaled.withDimension_exact (scaled : a.Scaled) (h : Handle)
    (within : ¬ a.Overflows d) : (a.withDimension h d).Exact := by
  apply (scaled.withDimension h d).exact
  intro fixed _ positive
  obtain ⟨earlier, last⟩ := withDimension_fixed_iff.mp fixed
  rw [withDimension_count]
  apply Nat.lt_of_not_le
  intro large
  exact within ⟨earlier, last, positive, large⟩

end Products

section Runs

/-- The sizes of all arrays are exact. -/
def ArraysExact (s : Store List) : Prop := ∀ h a, s.arrays h = some a → a.Exact

/-- The call passes its checks, has the memory it needs, and adds an extent that takes the
exact product of an array out of range. -/
def OverflowsArray (m : Machine) (mem : Memory) (op : Op) : Prop :=
  op.OverflowsArray m.store.view ∧ ∃ plan, checks m.store op = .ok plan ∧ plan.Enough m.store mem

instance decidableOverflowsArray (m : Machine) (mem : Memory) (op : Op) :
    Decidable (OverflowsArray m mem op) :=
  inferInstanceAs (Decidable (_ ∧ _))

theorem Step.overflowsArray_iff {m next : Machine} {event : Event} (step : Step m event next) :
    OverflowsArray m event.memory event.op ↔
      event.op.OverflowsArray m.store.view ∧ event.result.code = .success := by
  rw [step.success_iff]
  rfl

theorem Change.arraysExact {s next : Seen} {call : Call} (change : Change s call next)
    (scaled : ∀ h a, s.types.arrays h = some a → a.Scaled) (exact : ArraysExact s.types)
    (within : call.code = .success → ¬ call.op.OverflowsArray s.types) :
    ArraysExact next.types := by
  intro h a present
  cases change.array present with
  | @kept old was same =>
    rw [same]
    exact exact h old was
  | created ready code here same =>
    rw [same]
    exact fun listed => absurd rfl listed
  | @extended d old ready code was same =>
    rw [same]
    apply (scaled h old was).withDimension_exact
    intro beyond
    obtain ⟨op, result⟩ := call
    cases ready with
    | dimension there unfrozen => exact within code ⟨old, was, beyond⟩

theorem Ready.not_arraysExact {s : Store List} {op : Op} {plan : Plan} (ready : Ready s op plan)
    (beyond : op.OverflowsArray s) (h : Handle) : ¬ ArraysExact (commit s h plan) := by
  cases ready with
  | @dimension array dimension record there unfrozen =>
    obtain ⟨old, was, beyond⟩ := beyond
    intro exact
    rw [there] at was
    cases was
    refine beyond.not_exact h (exact array _ ?_)
    simp only [commit, there, setArray_self]
  | _ => exact beyond.elim

variable {trace : List (Transition Machine Event)} {final : Machine}

/-- All sizes are exact after every call of a run exactly when no call adds an extent that
takes a product out of range, and exactly then every such call is refused. -/
theorem arraysExact_iff_not_overflows (run : Run trace final) :
    ((∀ entry ∈ trace, ArraysExact entry.post.store.view) ↔
        ∀ entry ∈ trace, ¬ OverflowsArray entry.pre entry.label.memory entry.label.op) ∧
      ((∀ entry ∈ trace, entry.label.op.OverflowsArray entry.pre.store.view →
          entry.label.result.code ≠ .success) ↔
        ∀ entry ∈ trace, ¬ OverflowsArray entry.pre entry.label.memory entry.label.op) := by
  constructor
  · apply run.forall_post_iff (fun m => ∀ h a, m.store.view.arrays h = some a → a.Scaled)
      (fun m => ArraysExact m.store.view) nofun nofun
    · intro m event next scaled step h a
      exact step.change.scaled scaled
    · intro m event next scaled exact step
      constructor
      · rintro after ⟨beyond, plan, checked, enough⟩
        obtain ⟨_, same⟩ := step.committed checked enough
        rw [same] at after
        exact (ready_of_checked checked).not_arraysExact beyond _ after
      · intro within
        exact step.change.arraysExact scaled exact
          fun code beyond => within (step.overflowsArray_iff.mpr ⟨beyond, code⟩)
  · refine run.forall_iff (fun _ => True) trivial (fun _ _ _ _ _ => trivial) ?_ (fun _ _ => trivial)
    intro m event next _ step (_ : True)
    rw [step.overflowsArray_iff, not_and]

theorem turnedCalls_exact :
    Run (replay respond Machine.initial turnedCalls).1 (replay respond Machine.initial turnedCalls).2 ∧
      ∀ entry ∈ (replay respond Machine.initial turnedCalls).1, ArraysExact entry.post.store.view := by
  have run := replay_run turnedCalls
  exact ⟨run, (arraysExact_iff_not_overflows run).1.mpr (by decide +kernel)⟩

/-- An array of `2 ^ 62` elements of 4 bytes, and an extent more. -/
def wrappedCalls : List (Op × Memory) :=
  [(.contextCreate (some []) (some lp64) true, plenty),
   (.contextCreateArray (some 0) (some ⟨4, 0⟩) true, plenty),
   (.arrayAddDimension (some 1) (some ⟨.fixed 0x4000000000000000, none⟩), plenty),
   (.arrayAddDimension (some 1) (some ⟨.fixed 3, none⟩), plenty)]

/-- Both extents are accepted; the size is 0 after the first, and 12 after the second. -/
theorem array_wraps : ¬ ∀ (trace : List (Transition Machine Event)) (final : Machine),
    Run trace final →
    (∀ entry ∈ trace, ArraysExact entry.post.store.view) ∧
      ∀ entry ∈ trace, entry.label.op.OverflowsArray entry.pre.store.view →
        entry.label.result.code ≠ .success := by
  intro all
  obtain ⟨exact, _⟩ := all _ _ (replay_run wrappedCalls)
  have last := exact _ (List.getLast_mem (by decide +kernel)) 1 _ rfl nofun (by decide +kernel)
    (by decide +kernel) (by decide +kernel)
  exact absurd last.1 (by decide +kernel)

end Runs

end Mam.CopyEngine
