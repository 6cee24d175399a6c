import Mam.Library.Execution
import Mathlib.Data.List.Forall2

/-! Forward simulation between labelled transition systems. -/

namespace Mam.Library

universe u v

variable {State Abstract : Type u} {Label View : Type v}

/-- The recorded steps of two executions match, states and labels. -/
def Matched (rel : State → Abstract → Prop) (seen : Label → View → Prop)
    (trace : List (Transition State Label)) (views : List (Transition Abstract View)) : Prop :=
  List.Forall₂
    (fun entry view => rel entry.pre view.pre ∧ seen entry.label view.label ∧ rel entry.post view.post)
    trace views

variable {step : State → Label → State → Prop} {abstract : Abstract → View → Abstract → Prop}
variable {rel : State → Abstract → Prop} {seen : Label → View → Prop}

/-- Where every allowed step is matched by an abstract one, so is every execution of allowed
steps. -/
theorem Execution.simulated {allowed : Transition State Label → Prop} {start final : State}
    {trace : List (Transition State Label)} (execution : Execution step start trace final)
    {above : Abstract} (initial : rel start above)
    (simulates : ∀ state label next above, rel state above → step state label next →
      allowed ⟨state, label, next⟩ →
      ∃ view after, abstract above view after ∧ seen label view ∧ rel next after)
    (within : ∀ entry ∈ trace, allowed entry) :
    ∃ views after, Execution abstract above views after ∧ rel final after ∧
      Matched rel seen trace views := by
  induction execution with
  | nil => exact ⟨[], above, .nil, initial, .nil⟩
  | @snoc trace state next label before last ih =>
    obtain ⟨views, middle, run, related, matched⟩ :=
      ih fun entry member => within entry (by simp [member])
    obtain ⟨view, after, taken, same, final⟩ :=
      simulates state label next middle related last (within _ (by simp))
    refine ⟨views ++ [⟨middle, view, after⟩], after, run.snoc taken, final, ?_⟩
    exact List.rel_append matched (.cons ⟨related, same, final⟩ .nil)

/-- Each recorded step was taken in a state that has the invariant, if allowed steps keep it. -/
theorem Execution.strengthened {inv : State → Prop} {allowed : Transition State Label → Prop}
    {start final : State} {trace : List (Transition State Label)}
    (execution : Execution step start trace final) (initial : inv start)
    (kept : ∀ state label next, inv state → step state label next → allowed ⟨state, label, next⟩ →
      inv next)
    (within : ∀ entry ∈ trace, allowed entry) :
    Execution (fun state label next => step state label next ∧ inv state ∧ inv next ∧
      allowed ⟨state, label, next⟩) start trace final := by
  induction execution with
  | nil => exact .nil
  | @snoc trace state next label before last ih =>
    have earlier : ∀ entry ∈ trace, allowed entry := fun entry member => within entry (by simp [member])
    have now : allowed ⟨state, label, next⟩ := within _ (by simp)
    have holds := before.invariant_within inv allowed initial kept earlier
    exact (ih earlier).snoc ⟨last, holds, kept state label next holds last now, now⟩

end Mam.Library
