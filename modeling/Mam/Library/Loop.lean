import Mathlib.Logic.Function.Basic
import Mathlib.Logic.Function.Iterate

namespace Mam.Library

universe u

variable {State : Type u}

/-- `while (test state) state = body state;`, abandoned after `fuel` tests. -/
def whileLoop (test : State → Bool) (body : State → State) : Nat → State → Option State
  | 0, _ => none
  | fuel + 1, state =>
    if test state then whileLoop test body fuel (body state) else some state

variable {test : State → Bool} {body : State → State}

/-- A loop stops exactly at the first iterate of its body that fails the test,
provided the fuel covers the tests made up to there. -/
theorem whileLoop_eq_some_iff {fuel : Nat} {state result : State} :
    whileLoop test body fuel state = some result ↔
      ∃ steps < fuel, (∀ earlier < steps, test (body^[earlier] state) = true) ∧
        test (body^[steps] state) = false ∧ body^[steps] state = result := by
  induction fuel generalizing state with
  | zero => simp [whileLoop]
  | succ fuel ih =>
    by_cases running : test state = true
    · simp only [whileLoop, running, if_true, ih]
      constructor
      · rintro ⟨steps, bound, before, stops, same⟩
        refine ⟨steps + 1, by omega, ?_, stops, same⟩
        intro earlier below
        cases earlier with
        | zero => exact running
        | succ previous => exact before previous (by omega)
      · rintro ⟨steps, bound, before, stops, same⟩
        cases steps with
        | zero => simp [running] at stops
        | succ previous =>
          exact ⟨previous, by omega, fun earlier below => before (earlier + 1) (by omega),
            stops, same⟩
    · simp only [whileLoop, running, Bool.false_eq_true, if_false, Option.some.injEq]
      constructor
      · intro same
        exact ⟨0, by omega, by simp, by simpa using running, same⟩
      · rintro ⟨steps, bound, before, stops, same⟩
        cases steps with
        | zero => exact same
        | succ previous => exact absurd (before 0 (by omega)) running

/-- An invariant of the body holds at the exit, where the test fails. -/
theorem whileLoop_invariant (inv : State → Prop) {fuel : Nat} {state result : State}
    (initial : inv state) (kept : ∀ current, test current = true → inv current → inv (body current))
    (stopped : whileLoop test body fuel state = some result) :
    inv result ∧ test result = false := by
  induction fuel generalizing state with
  | zero => simp [whileLoop] at stopped
  | succ fuel ih =>
    by_cases running : test state = true
    · simp only [whileLoop, running, if_true] at stopped
      exact ih (kept state running initial) stopped
    · simp only [whileLoop, running, Bool.false_eq_true, if_false, Option.some.injEq] at stopped
      subst stopped
      exact ⟨initial, by simpa using running⟩

/-- A loop stops within its fuel exactly when one of the iterates reached by then
fails the test. -/
theorem whileLoop_stops_iff {fuel : Nat} {state : State} :
    (∃ result, whileLoop test body fuel state = some result) ↔
      ∃ steps < fuel, test (body^[steps] state) = false := by
  constructor
  · intro stopped
    obtain ⟨result, stopped⟩ := stopped
    obtain ⟨steps, bound, _, stops, _⟩ := whileLoop_eq_some_iff.mp stopped
    exact ⟨steps, bound, stops⟩
  · intro failing
    obtain ⟨steps, bound, stops⟩ := failing
    induction steps using Nat.strongRecOn with
    | ind steps ih =>
      by_cases sooner : ∃ earlier < steps, test (body^[earlier] state) = false
      · obtain ⟨earlier, below, fails⟩ := sooner
        exact ih earlier below (by omega) fails
      · refine ⟨_, whileLoop_eq_some_iff.mpr ⟨steps, bound, ?_, stops, rfl⟩⟩
        intro earlier below
        by_contra fails
        exact sooner ⟨earlier, below, by simpa using fails⟩

/-- Where the body's orbit repeats after `entry + period` rounds, no amount of
further fuel makes a loop stop that has not stopped by then. -/
theorem whileLoop_of_periodic {fuel entry period : Nat} {state result : State}
    (positive : 0 < period) (periodic : body^[entry + period] state = body^[entry] state)
    (stopped : whileLoop test body fuel state = some result) :
    whileLoop test body (entry + period) state = some result := by
  obtain ⟨steps, _, before, stops, same⟩ := whileLoop_eq_some_iff.mp stopped
  refine whileLoop_eq_some_iff.mpr ⟨steps, ?_, before, stops, same⟩
  by_contra late
  -- One period earlier the loop was in the same state, and its test held there.
  obtain ⟨extra, rfl⟩ : ∃ extra, steps = extra + (entry + period) :=
    ⟨steps - (entry + period), by omega⟩
  have repeated : body^[extra + (entry + period)] state = body^[extra + entry] state := by
    rw [Function.iterate_add_apply, periodic, ← Function.iterate_add_apply]
  have running := before (extra + entry) (by omega)
  rw [← repeated, stops] at running
  cases running

/-- `for (i = first; i < last; i++) body;`, where the body leaves `i` alone. -/
def forLoop (first last : Nat) (body : Nat → State → State) (state : State) : State :=
  (List.range' first (last - first)).foldl (fun state i => body i state) state

/-- An invariant indexed by the counter holds at the exit of a loop that is entered. -/
theorem forLoop_invariant (inv : Nat → State → Prop) {first last : Nat}
    {body : Nat → State → State} {state : State} (ordered : first ≤ last) (initial : inv first state)
    (kept : ∀ i state, first ≤ i → i < last → inv i state → inv (i + 1) (body i state)) :
    inv last (forLoop first last body state) := by
  have rounds (count : Nat) (bound : first + count ≤ last) :
      inv (first + count)
        ((List.range' first count).foldl (fun state i => body i state) state) := by
    induction count with
    | zero => exact initial
    | succ count ih =>
      rw [List.range'_concat, List.foldl_append]
      simp only [List.foldl_cons, List.foldl_nil, Nat.one_mul]
      have running : first + count < last := by omega
      exact kept _ _ (Nat.le_add_right _ _) running (ih (Nat.le_of_lt running))
  have whole := rounds (last - first) (by omega)
  rwa [Nat.add_sub_cancel' ordered] at whole

/-- A loop that writes one cell of an array at each count fills the range it runs over. -/
theorem forLoop_update {α : Type u} (values : Nat → α) {first last : Nat} (ordered : first ≤ last)
    (cells : Nat → α) (i : Nat) :
    forLoop first last (fun i cells => Function.update cells i (values i)) cells i =
      if first ≤ i ∧ i < last then values i else cells i := by
  refine forLoop_invariant
    (fun count (now : Nat → α) => now i = if first ≤ i ∧ i < count then values i else cells i)
    ordered ?_ ?_
  · rw [if_neg fun inside => Nat.not_lt.mpr inside.1 inside.2]
  · intro count now begun running before
    rw [Function.update_apply]
    split
    · rename_i here
      subst here
      rw [if_pos ⟨begun, Nat.lt_succ_self i⟩]
    · rename_i elsewhere
      rw [before]
      congr 1
      exact propext ⟨fun inside => ⟨inside.1, Nat.lt_succ_of_lt inside.2⟩,
        fun inside => ⟨inside.1, by omega⟩⟩

end Mam.Library
