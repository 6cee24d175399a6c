import Mathlib.Logic.Basic

namespace Mam.Library

universe u v

/-- One recorded step of a labelled transition system. -/
structure Transition (State : Type u) (Label : Type v) where
  pre : State
  label : Label
  post : State

/-- A finite execution from `start`, with the steps it took, oldest first. -/
inductive Execution {State : Type u} {Label : Type v} (step : State → Label → State → Prop)
    (start : State) : List (Transition State Label) → State → Prop where
  | nil : Execution step start [] start
  | snoc {trace : List (Transition State Label)} {state next : State} {label : Label}
      (before : Execution step start trace state) (last : step state label next) :
      Execution step start (trace ++ [⟨state, label, next⟩]) next

namespace Execution

variable {State : Type u} {Label : Type v} {step : State → Label → State → Prop}
variable {start final : State} {trace : List (Transition State Label)}

/-- What holds of the start with no history, and is kept by every allowed step as
it adds to the history, holds of the end with the whole history. -/
theorem invariant_along (inv : List (Transition State Label) → State → Prop)
    (allowed : Transition State Label → Prop) (execution : Execution step start trace final)
    (initial : inv [] start)
    (kept : ∀ history state label next, inv history state → step state label next →
      allowed ⟨state, label, next⟩ → inv (history ++ [⟨state, label, next⟩]) next)
    (within : ∀ entry ∈ trace, allowed entry) : inv trace final := by
  induction execution with
  | nil => exact initial
  | @snoc trace state next label before last ih =>
    have earlier := ih (fun entry member => within entry (by simp [member]))
    exact kept trace state label next earlier last (within _ (by simp))

/-- A property of states with their history, whose loss or gain is decided step by
step wherever the invariant holds, holds at the end exactly when every step allows it. -/
theorem holds_iff_along (inv good : List (Transition State Label) → State → Prop)
    {domain allowed : Transition State Label → Prop}
    (execution : Execution step start trace final) (initial : inv [] start) (fresh : good [] start)
    (kept : ∀ history state label next, inv history state → step state label next →
      domain ⟨state, label, next⟩ → inv (history ++ [⟨state, label, next⟩]) next)
    (decided : ∀ history state label next, inv history state → step state label next →
      domain ⟨state, label, next⟩ →
      (good (history ++ [⟨state, label, next⟩]) next ↔
        good history state ∧ allowed ⟨state, label, next⟩))
    (within : ∀ entry ∈ trace, domain entry) :
    good trace final ↔ ∀ entry ∈ trace, allowed entry := by
  induction execution with
  | nil => simp [fresh]
  | @snoc trace state next label before last ih =>
    have earlier : ∀ entry ∈ trace, domain entry := fun entry member => within entry (by simp [member])
    have now : domain ⟨state, label, next⟩ := within _ (by simp)
    have holds := before.invariant_along inv domain initial kept earlier
    rw [decided trace state label next holds last now, ih earlier]
    constructor
    · rintro ⟨old, new⟩ entry member
      rcases List.mem_append.mp member with past | here
      · exact old entry past
      · obtain rfl := List.mem_singleton.mp here
        exact new
    · intro all
      exact ⟨fun entry member => all entry (by simp [member]), all _ (by simp)⟩

/-- What the start has and every allowed step keeps, the end has. -/
theorem invariant_within (inv : State → Prop) (allowed : Transition State Label → Prop)
    (execution : Execution step start trace final) (initial : inv start)
    (kept : ∀ state label next, inv state → step state label next →
      allowed ⟨state, label, next⟩ → inv next)
    (within : ∀ entry ∈ trace, allowed entry) : inv final :=
  execution.invariant_along (fun _ => inv) allowed initial (fun _ => kept) within

/-- What the start has and every step keeps, the end has. -/
theorem invariant (inv : State → Prop) (execution : Execution step start trace final)
    (initial : inv start)
    (kept : ∀ state label next, inv state → step state label next → inv next) : inv final :=
  execution.invariant_within inv (fun _ => True) initial
    (fun state label next holds taken _ => kept state label next holds taken)
    (fun _ _ => trivial)

/-- A property that allowed steps keep, and that other steps lose even in its weaker
form, holds in that form after every step of a domain exactly when every step is allowed. -/
theorem forall_post_iff_of_strong (inv strong weak : State → Prop)
    {domain allowed : Transition State Label → Prop} (execution : Execution step start trace final)
    (initial : inv start) (fresh : strong start) (weaken : ∀ state, strong state → weak state)
    (kept : ∀ state label next, inv state → step state label next → inv next)
    (gained : ∀ state label next, inv state → strong state → step state label next →
      domain ⟨state, label, next⟩ → allowed ⟨state, label, next⟩ → strong next)
    (lost : ∀ state label next, inv state → strong state → step state label next →
      domain ⟨state, label, next⟩ → ¬ allowed ⟨state, label, next⟩ → ¬ weak next)
    (within : ∀ entry ∈ trace, domain entry) :
    (∀ entry ∈ trace, weak entry.post) ↔ ∀ entry ∈ trace, allowed entry := by
  have along : ((∀ entry ∈ trace, weak entry.post) ↔ ∀ entry ∈ trace, allowed entry) ∧
      ((∀ entry ∈ trace, allowed entry) → strong final) := by
    induction execution with
    | nil => simp [fresh]
    | @snoc trace state next label before last ih =>
      obtain ⟨agree, reached⟩ := ih fun entry member => within entry (by simp [member])
      have now : domain ⟨state, label, next⟩ := within _ (by simp)
      have holds := before.invariant inv initial kept
      simp only [List.mem_append, List.mem_singleton, or_imp, forall_and, forall_eq]
      refine ⟨⟨?_, ?_⟩, ?_⟩
      · rintro ⟨old, new⟩
        have earlier := agree.mp old
        exact ⟨earlier, Classical.byContradiction fun other =>
          lost state label next holds (reached earlier) last now other new⟩
      · rintro ⟨old, new⟩
        exact ⟨agree.mpr old,
          weaken next (gained state label next holds (reached old) last now new)⟩
      · rintro ⟨old, new⟩
        exact gained state label next holds (reached old) last now new
  exact along.1

/-- A property of states that a step from a good state keeps exactly when it is
allowed holds after every step exactly when every step is allowed. -/
theorem forall_post_iff (inv good : State → Prop) {allowed : Transition State Label → Prop}
    (execution : Execution step start trace final) (initial : inv start) (fresh : good start)
    (kept : ∀ state label next, inv state → step state label next → inv next)
    (decided : ∀ state label next, inv state → good state → step state label next →
      (good next ↔ allowed ⟨state, label, next⟩)) :
    (∀ entry ∈ trace, good entry.post) ↔ ∀ entry ∈ trace, allowed entry :=
  execution.forall_post_iff_of_strong inv good good initial fresh (fun _ holds => holds) kept
    (fun state label next holds before taken (_ : True) fine =>
      (decided state label next holds before taken).mpr fine)
    (fun state label next holds before taken _ other after =>
      other ((decided state label next holds before taken).mp after))
    (fun _ _ => trivial)

/-- Where every allowed step balances what it takes in and gives out against something that is
held, so does the whole execution. -/
theorem conserved_among {α : Type v} (holds : State → List α → Prop)
    (allowed : Transition State Label → Prop) (taken given : Transition State Label → List α)
    (execution : Execution step start trace final) {first : List α} (initial : holds start first)
    (balanced : ∀ state label next held, holds state held → step state label next →
      allowed ⟨state, label, next⟩ → ∃ later, holds next later ∧
        (taken ⟨state, label, next⟩ ++ held).Perm (given ⟨state, label, next⟩ ++ later))
    (within : ∀ entry ∈ trace, allowed entry) :
    ∃ held, holds final held ∧ (trace.flatMap taken ++ first).Perm (trace.flatMap given ++ held) := by
  induction execution with
  | nil => exact ⟨first, initial, .refl _⟩
  | @snoc trace state next label before last ih =>
    obtain ⟨held, here, balance⟩ := ih fun entry member => within entry (by simp [member])
    obtain ⟨later, there, now⟩ := balanced state label next held here last (within _ (by simp))
    refine ⟨later, there, ?_⟩
    simp only [List.flatMap_append, List.flatMap_singleton]
    calc (trace.flatMap taken ++ taken ⟨state, label, next⟩ ++ first).Perm
          (taken ⟨state, label, next⟩ ++ (trace.flatMap taken ++ first)) := by
          rw [← List.append_assoc]
          exact List.perm_append_comm.append_right _
      _ |>.Perm (taken ⟨state, label, next⟩ ++ (trace.flatMap given ++ held)) :=
          balance.append_left _
      _ |>.Perm (trace.flatMap given ++ (taken ⟨state, label, next⟩ ++ held)) := by
          rw [← List.append_assoc, ← List.append_assoc]
          exact List.perm_append_comm.append_right _
      _ |>.Perm (trace.flatMap given ++ (given ⟨state, label, next⟩ ++ later)) :=
          now.append_left _
      _ |>.Perm (trace.flatMap given ++ given ⟨state, label, next⟩ ++ later) := by
          rw [List.append_assoc]

/-- Where every step balances what it takes in and gives out against what is held, so does
the whole execution. -/
theorem conserved {α : Type v} (held : State → List α)
    (taken given : Transition State Label → List α) (execution : Execution step start trace final)
    (balanced : ∀ state label next, step state label next →
      (taken ⟨state, label, next⟩ ++ held state).Perm (given ⟨state, label, next⟩ ++ held next)) :
    (trace.flatMap taken ++ held start).Perm (trace.flatMap given ++ held final) := by
  obtain ⟨_, rfl, balance⟩ := execution.conserved_among (fun state list => list = held state)
    (fun _ => True) taken given rfl
    (fun state label next _ same last _ => ⟨held next, rfl, same ▸ balanced state label next last⟩)
    (fun _ _ => trivial)
  exact balance

/-- Every recorded step splits its execution at that step. -/
theorem split (execution : Execution step start trace final) {entry : Transition State Label}
    (member : entry ∈ trace) :
    ∃ earlier later, trace = earlier ++ entry :: later ∧
      Execution step start earlier entry.pre ∧ step entry.pre entry.label entry.post ∧
      Execution step entry.post later final := by
  induction execution with
  | nil => simp at member
  | @snoc trace state next label before last ih =>
    rcases List.mem_append.mp member with old | new
    · obtain ⟨earlier, later, same, initial, taken, rest⟩ := ih old
      exact ⟨earlier, later ++ [⟨state, label, next⟩], by simp [same], initial, taken, rest.snoc last⟩
    · have here : entry = ⟨state, label, next⟩ := by simpa using new
      subst here
      exact ⟨trace, [], rfl, before, last, .nil⟩

/-- Two ways of judging single steps that agree wherever the invariant holds
agree over whole executions inside a domain of steps. -/
theorem forall_iff (inv : State → Prop) {domain good allowed : Transition State Label → Prop}
    (execution : Execution step start trace final) (initial : inv start)
    (kept : ∀ state label next, inv state → step state label next → inv next)
    (agree : ∀ state label next, inv state → step state label next →
      domain ⟨state, label, next⟩ → (good ⟨state, label, next⟩ ↔ allowed ⟨state, label, next⟩))
    (within : ∀ entry ∈ trace, domain entry) :
    (∀ entry ∈ trace, good entry) ↔ ∀ entry ∈ trace, allowed entry := by
  have judged : ∀ entry ∈ trace, (good entry ↔ allowed entry) := by
    intro entry member
    obtain ⟨earlier, later, _, before, taken, _⟩ := execution.split member
    exact agree entry.pre entry.label entry.post (before.invariant inv initial kept) taken
      (within entry member)
  exact ⟨fun all entry member => (judged entry member).mp (all entry member),
    fun all entry member => (judged entry member).mpr (all entry member)⟩

theorem append {middle : State} {earlier later : List (Transition State Label)}
    (first : Execution step start earlier middle) (second : Execution step middle later final) :
    Execution step start (earlier ++ later) final := by
  induction second with
  | nil => simpa using first
  | @snoc later state next label before last ih =>
    rw [← List.append_assoc]
    exact ih.snoc last

end Execution

section Replay

variable {State : Type u} {Label Input : Type v}

/-- Feed inputs to an executable step, up to the first one it does not return from. -/
def replay (run : State → Input → Option (Label × State)) (start : State) :
    List Input → List (Transition State Label) × State
  | [] => ([], start)
  | input :: rest =>
    match run start input with
    | none => ([], start)
    | some (label, next) =>
      (⟨start, label, next⟩ :: (replay run next rest).1, (replay run next rest).2)

/-- A replay is an execution of any relation that contains the executable step. -/
theorem replay_execution {run : State → Input → Option (Label × State)}
    {step : State → Label → State → Prop}
    (sound : ∀ state input label next, run state input = some (label, next) → step state label next)
    (start : State) (inputs : List Input) :
    Execution step start (replay run start inputs).1 (replay run start inputs).2 := by
  induction inputs generalizing start with
  | nil => exact .nil
  | cons input rest ih =>
    cases returned : run start input with
    | none =>
      simp only [replay, returned]
      exact .nil
    | some outcome =>
      obtain ⟨label, next⟩ := outcome
      simp only [replay, returned]
      have first : Execution step start [⟨start, label, next⟩] next :=
        Execution.nil.snoc (sound start input label next returned)
      simpa using first.append (ih next)

/-- The labels of a replay are what the inputs gave rise to. -/
theorem replay_labels {run : State → Input → Option (Label × State)} {good : Label → Prop}
    {inputs : List Input}
    (each : ∀ input ∈ inputs, ∀ state label next, run state input = some (label, next) → good label)
    (start : State) : ∀ entry ∈ (replay run start inputs).1, good entry.label := by
  induction inputs generalizing start with
  | nil => exact fun entry member => absurd member List.not_mem_nil
  | cons input rest ih =>
    cases returned : run start input with
    | none =>
      simp only [replay, returned]
      exact fun entry member => absurd member List.not_mem_nil
    | some outcome =>
      obtain ⟨label, next⟩ := outcome
      simp only [replay, returned]
      refine List.forall_mem_cons.mpr ⟨each input List.mem_cons_self start label next returned, ?_⟩
      exact ih (fun other member => each other (List.mem_cons_of_mem input member)) next

end Replay

end Mam.Library
