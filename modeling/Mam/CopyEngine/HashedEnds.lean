import Mam.CopyEngine.HashedRuns
import Mam.CopyEngine.History

/-! Name tables are kept for objects that are there, and a program that has destroyed its
contexts has given back all that `uthash` took. -/

namespace Mam.CopyEngine

open Mam.Library Mam.Vendor

section Kept

variable {m next : Machine} {live : List Handle} {d : Directory}

/-- A call takes no object away. -/
theorem Step.has {event : Event} (step : Step m event next) (estates : Estates m live)
    (has : m.store.Has d) : next.store.Has d := by
  cases d with
  | constructs k =>
    obtain ⟨record, present⟩ := has
    obtain ⟨later, there, _⟩ := (step.lasts estates k).context_of present
    exact ⟨later, there⟩
  | vars k =>
    obtain ⟨record, present⟩ := has
    obtain ⟨later, there, _⟩ := (step.lasts estates k).context_of present
    exact ⟨later, there⟩
  | fields h =>
    obtain ⟨c, present⟩ := has
    obtain ⟨later, there, _⟩ := (step.lasts estates c.context).construct_of present rfl
    exact ⟨later, there⟩

/-- An object whose tables are not cleared with a context stays when the context is destroyed. -/
theorem Estates.has_kept (estates : Estates m live) {context : Option Handle} {r : Return}
    (returned : CopyEngine.contextDestroy m context = .ok r) (has : m.store.Has d)
    (kept : d ∉ m.directories context) : r.machine.store.Has d := by
  rcases estates.destroys returned with ⟨_, same⟩ | ⟨k, member, rfl, blocks, same, freed⟩
  · rw [same]
    exact has
  · rw [same]
    obtain ⟨record, present⟩ := (estates.live_iff k).mp member
    have context {k' : Handle} (there : ∃ record, m.store.contexts k' = some record)
        (apart : k' ≠ k) : ∃ record, (m.freeAll blocks).store.contexts k' = some record := by
      obtain ⟨c, owned⟩ := estates.owned k' ((estates.live_iff k').mpr there)
      have own : k' ∈ m.store.view.estate k' := owned.estate ▸ List.mem_cons_self
      rw [(estates.kept member freed apart own).contexts]
      exact there
    simp only [Machine.directories, present] at kept
    cases d with
    | constructs k' => exact context has fun same => kept (by simp [same])
    | vars k' => exact context has fun same => kept (by simp [same])
    | fields h =>
      obtain ⟨c, there⟩ := has
      have seen : m.store.view.constructs h = some c.view := by
        rw [view_constructs, there]
        rfl
      have apart : c.context ≠ k := by
        intro same
        obtain ⟨mine, owned⟩ := estates.owned k member
        have listed := (owned.constructs h).mpr ⟨_, seen, same⟩
        have here := owned.here
        rw [view_contexts, present] at here
        cases here
        refine kept (List.mem_append_right _ (List.mem_map_of_mem ?_))
        rw [(estates.standing.counted.contexts k record present).constructs.visited_eq]
        exact listed
      have own := estates.settled.constructs h _ seen
      exact ⟨c, (estates.kept member freed apart own).constructs.trans there⟩

end Kept

section Programs

variable {hashFunction : CString → BitVec 32} {handles : HashHandles} {s next final : Hashed}
variable {trace : List (Transition Hashed HashedAct)} {m : Machine} {act : HashedAct}
variable {live : List Handle} {d : Directory} {T : Maps}

theorem has_withMaps_iff (s : Store UTArray) (T : Maps) (d : Directory) :
    (s.withMaps T).Has d ↔ s.Has d := by
  cases d <;> simp [Store.Has]

theorem directories_withMaps (m : Machine) (T : Maps) (context : Option Handle) :
    (m.withMaps T).directories context = m.directories context := by
  cases context with
  | none => rfl
  | some k =>
    simp only [Machine.directories, Machine.withMaps, withMaps_contexts]
    cases m.store.contexts k <;> rfl

/-- Only objects that are there have tables. -/
def Hashed.Rooted (s : Hashed) : Prop := ∀ d, s.tables.root d ≠ none → s.machine.store.Has d

theorem HashedAct.rooted (represents : Represents hashFunction s m) (estates : Estates m live)
    (taken : act.Step hashFunction s next) (fair : act.Fair) (rooted : s.Rooted) : next.Rooted := by
  intro d there
  obtain ⟨view, after, step, same, represented⟩ := represents.step taken fair
  obtain ⟨⟨T', _, rfl⟩, _⟩ := represented
  obtain ⟨⟨T, stands, rfl⟩, _⟩ := represents
  cases act with
  | call event =>
    cases same with
    | call code value =>
      have kept (has : s.machine.store.Has d) : next.machine.store.Has d :=
        (has_withMaps_iff _ T' d).mp (Step.has step estates ((has_withMaps_iff _ T d).mpr has))
      obtain ⟨⟨fuel, returned⟩, rfl⟩ := taken
      have roots {t' : NameTables}
          (same : t' = s.tables ∨ t' = s.tables.zeroed s.machine.heap.next) (d : Directory) :
          t'.root d = s.tables.root d := by
        rcases same with rfl | rfl
        · rfl
        · exact stands.zeroed_root d
      cases exec_moves returned with
      | kept same => exact kept (rooted d (roots same d ▸ there))
      | @inserted t' d' name fuel added has same finished tables =>
        by_cases here : d = d'
        · exact kept (here ▸ has)
        · refine kept (rooted d ?_)
          rw [tables] at there
          have other : (t'.inserted d' added).root d = t'.root d := Function.update_of_ne here _ _
          rw [other, roots same d] at there
          exact there
  | destroy context result =>
    obtain ⟨returned, rfl⟩ := taken
    rw [contextDestroy_beside] at returned
    cases done : contextDestroy s.machine context with
    | error fault =>
      rw [done] at returned
      cases returned
    | ok r =>
      rw [done] at returned
      cases returned
      have root : (s.tables.clearedAll (s.machine.directories context)).root d =
          if d ∈ s.machine.directories context then none else s.tables.root d :=
        NameTables.clearedAll_root _ d
      have there : (s.tables.clearedAll (s.machine.directories context)).root d ≠ none := there
      rw [root] at there
      split at there
      · exact absurd rfl there
      · rename_i kept
        have abstract : contextDestroy (s.machine.withMaps T) context = .ok (r.withMaps T) := by
          rw [contextDestroy_withMaps, done]
          rfl
        have has := estates.has_kept abstract ((has_withMaps_iff _ T d).mpr (rooted d there))
          (directories_withMaps s.machine T context ▸ kept)
        exact (has_withMaps_iff _ T d).mp has

theorem HashedLife.rooted (life : HashedLife hashFunction handles trace final) :
    final.Rooted ∧ ∃ m live, Represents hashFunction final m ∧ Estates m live := by
  have initial : (Hashed.initial handles).Rooted := fun d rooted => absurd rfl rooted
  refine life.execution.invariant_within
    (fun s => s.Rooted ∧ ∃ m live, Represents hashFunction s m ∧ Estates m live)
    (fun entry => entry.label.Fair)
    ⟨initial, _, _, initial_represents hashFunction handles, initial_estates⟩ ?_ life.fair
  rintro s act next ⟨rooted, m, live, represents, estates⟩ taken fair
  obtain ⟨view, after, step, _, represented⟩ := represents.step taken fair
  obtain ⟨later, settled⟩ := Act.estates step estates
  exact ⟨act.rooted represents estates taken fair rooted, after, later, represented, settled⟩

/-- Through any program, what `uthash` obtained and has not given back is in the tables, once,
and the tables that are not empty are those of objects that are there. -/
theorem table_blocks_balance (life : HashedLife hashFunction handles trace final) :
    (∀ d, final.tables.root d ≠ none → final.machine.store.Has d) ∧
      ∃ live, Holding final.tables live ∧
        (trace.flatMap fun entry => entry.label.result.obtained).Perm
          ((trace.flatMap fun entry => entry.label.result.freed) ++ final.tables.held live) :=
  ⟨life.rooted.1, life.balance⟩

theorem table_blocks_balance_destroyed :
    (∀ d, (hashedProgram (hashedCalls ++ [.inr (some 0)])).2.tables.root d ≠ none →
        (hashedProgram (hashedCalls ++ [.inr (some 0)])).2.machine.store.Has d) ∧
      ∃ live, Holding (hashedProgram (hashedCalls ++ [.inr (some 0)])).2.tables live ∧
      ((hashedProgram (hashedCalls ++ [.inr (some 0)])).1.flatMap
        fun entry => entry.label.result.obtained).Perm
        (((hashedProgram (hashedCalls ++ [.inr (some 0)])).1.flatMap
          fun entry => entry.label.result.freed) ++
          (hashedProgram (hashedCalls ++ [.inr (some 0)])).2.tables.held live) :=
  table_blocks_balance (hashedProgram_life _ (by simp))

example : (hashedProgram (hashedCalls ++ [.inr (some 0)])).1.map
      (fun entry => (entry.label.result.code, entry.label.result.obtained, entry.label.result.freed)) =
    [(.success, [], []), (.enomem, [], []), (.success, [100, 200], []), (.einval, [], []),
     (.success, [100, 200], []), (.success, [100, 200], []),
     (.success, [], [200, 100, 200, 100, 200, 100])] := by decide +kernel

/-- A program that has destroyed all its contexts has given back all that `uthash` obtained. -/
theorem tables_given_back (life : HashedLife hashFunction handles trace final)
    (ended : ∀ k, final.machine.store.contexts k = none) :
    (∀ d, final.tables.root d = none) ∧
      (trace.flatMap fun entry => entry.label.result.obtained).Perm
        (trace.flatMap fun entry => entry.label.result.freed) := by
  obtain ⟨rooted, m, live, ⟨⟨T, _, rfl⟩, _⟩, estates⟩ := life.rooted
  have gone (k : Handle) : ¬ ∃ record, (final.machine.withMaps T).store.contexts k = some record := by
    rintro ⟨record, present⟩
    simp [Machine.withMaps, ended] at present
  have empty : live = [] := List.eq_nil_iff_forall_not_mem.mpr fun k member =>
    gone k ((estates.live_iff k).mp member)
  subst empty
  have none (d : Directory) : final.tables.root d = none := by
    by_contra there
    have has := (has_withMaps_iff _ T d).mpr (rooted d there)
    cases d with
    | constructs k => exact gone k has
    | vars k => exact gone k has
    | fields h =>
      obtain ⟨c, present⟩ := has
      have absent : (final.machine.withMaps T).store.constructs h = Option.none :=
        (estates.bare h).constructs
      cases absent.symm.trans present
  refine ⟨none, ?_⟩
  obtain ⟨holders, _, balance⟩ := life.balance
  have nothing : final.tables.held holders = [] := by
    simp [NameTables.held, none, hashBlocks]
  rw [nothing, List.append_nil] at balance
  exact balance

theorem tables_given_back_destroyed :
    (∀ d, (hashedProgram (hashedCalls ++ [.inr (some 0)])).2.tables.root d = none) ∧
      ((hashedProgram (hashedCalls ++ [.inr (some 0)])).1.flatMap
        fun entry => entry.label.result.obtained).Perm
        ((hashedProgram (hashedCalls ++ [.inr (some 0)])).1.flatMap
          fun entry => entry.label.result.freed) := by
  have life := hashedProgram_life (hashedCalls ++ [.inr (some 0)]) (by simp)
  refine tables_given_back life fun k => ?_
  have next : (hashedProgram (hashedCalls ++ [.inr (some 0)])).2.machine.heap.next = 5 := by
    decide +kernel
  have early : ∀ k < 5,
      ((hashedProgram (hashedCalls ++ [.inr (some 0)])).2.machine.store.contexts k).isNone := by
    decide +kernel
  rcases Nat.lt_or_ge k 5 with old | beyond
  · exact Option.isNone_iff_eq_none.mp (early k old)
  · obtain ⟨_, m, _, ⟨⟨T, _, rfl⟩, standing⟩, _⟩ := life.represents
    have absent := standing.bounded.contexts k (Nat.le_trans (Nat.le_of_eq next) beyond)
    exact Option.map_eq_none_iff.mp (Option.map_eq_none_iff.mp absent)

end Programs

end Mam.CopyEngine
