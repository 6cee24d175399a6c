import Mam.CopyEngine.AllOrNothing
import Mam.CopyEngine.Lifetime
import Mam.CopyEngine.Records
import Mam.Library.Owners

/-! Programs with any number of contexts: the blocks that each context owns, and that there
are no others. -/

namespace Mam.CopyEngine

open Mam.Library Mam.Vendor

section Heaps

/-- Every block that was taken is outstanding or was released, and is so once. -/
def Heap.Accounted (heap : Heap) : Prop :=
  (heap.released ++ heap.outstanding).Perm (List.range heap.next)

theorem Heap.Accounted.calloc {heap : Heap} (accounted : heap.Accounted) :
    heap.calloc.2.Accounted := by
  show (heap.released ++ heap.next :: heap.outstanding).Perm (List.range (heap.next + 1))
  rw [List.range_succ]
  calc (heap.released ++ heap.next :: heap.outstanding).Perm
        (heap.next :: (heap.released ++ heap.outstanding)) := List.perm_middle
    _ |>.Perm (heap.next :: List.range heap.next) := accounted.cons heap.next
    _ |>.Perm (List.range heap.next ++ [heap.next]) := (List.perm_append_singleton _ _).symm

theorem Heap.Accounted.free {heap : Heap} (accounted : heap.Accounted) {block : Handle}
    (outstanding : block ∈ heap.outstanding) : (heap.free block).Accounted := by
  show (heap.released ++ [block] ++ heap.outstanding.erase block).Perm (List.range heap.next)
  refine List.Perm.trans ?_ accounted
  rw [List.append_assoc]
  exact (List.perm_cons_erase outstanding).symm.append_left _

theorem Heap.Accounted.once {heap : Heap} (accounted : heap.Accounted) :
    heap.outstanding.Nodup :=
  (List.nodup_append.mp (accounted.nodup_iff.mpr List.nodup_range)).2.1

theorem Heap.Accounted.freeAll {m : Machine} (accounted : m.heap.Accounted)
    {blocks rest : List Handle} (held : m.heap.outstanding.Perm (blocks ++ rest)) :
    (m.freeAll blocks).heap.Accounted := by
  unfold Heap.Accounted
  rw [freeAll_released, freeAll_next, List.append_assoc]
  exact (((freeAll_perm held).append_left blocks).trans held.symm).append_left _ |>.trans accounted

end Heaps

section Others

/-- A context owns what it owned, and its lists hold what they held. -/
structure Keeps (s after : Store List) (k : Handle) (c : Context List) : Prop where
  owned : Owned after k c
  held : after.held c = s.held c

variable {s middle after : Store List} {other k : Handle} {c : Context List}

theorem Keeps.trans (first : Keeps s middle other c) (second : Keeps middle after other c) :
    Keeps s after other c := ⟨second.owned, second.held.trans first.held⟩

theorem Owned.keeps_freeze (owned : Owned s other c) (fieldType : FieldType) :
    Keeps s (freezeFieldType s fieldType) other c :=
  ⟨owned.freeze fieldType, held_freeze fieldType c⟩

theorem Owned.keeps_setContext (owned : Owned s other c) (apart : other ≠ k) (record : Context List) :
    Keeps s (s.setContext k record) other c := by
  refine ⟨⟨?_, owned.arrays, owned.constructs⟩, rfl⟩
  rw [setContext_contexts, if_neg apart]
  exact owned.here

theorem Owned.keeps_setPointer (owned : Owned s other c) (pointer : Pointer) :
    Keeps s (s.setPointer k pointer) other c :=
  ⟨⟨owned.here, owned.arrays, owned.constructs⟩, rfl⟩

theorem Owned.keeps_setVariable (owned : Owned s other c) (var : Variable) :
    Keeps s (s.setVariable k var) other c :=
  ⟨⟨owned.here, owned.arrays, owned.constructs⟩, rfl⟩

theorem Owned.keeps_setConstruct (owned : Owned s other c) (record : Construct List)
    (unlisted : k ∉ c.constructs) (apart : record.context ≠ other) :
    Keeps s (s.setConstruct k record) other c := by
  refine ⟨⟨owned.here, owned.arrays, fun h => ?_⟩, ?_⟩
  · rw [owned.constructs, setConstruct_constructs]
    by_cases here : h = k
    · subst here
      have none := (owned.constructs h).not.mp unlisted
      simp only [if_true, Option.some.injEq, exists_eq_left']
      exact ⟨fun listed => absurd listed none, fun own => absurd own apart⟩
    · rw [if_neg here]
  · have same : c.constructs.flatMap (s.setConstruct k record).fieldBlocks =
        c.constructs.flatMap s.fieldBlocks := by
      refine List.flatMap_congr fun h listed => ?_
      rw [fieldBlocks_setConstruct, if_neg (ne_of_mem_of_not_mem listed unlisted)]
    rw [held_eq, held_eq, same, dimensionBlocks_setConstruct]

theorem Owned.keeps_setArray (owned : Owned s other c) (record : ArrayType List)
    (unlisted : k ∉ c.arrays) (apart : record.context ≠ other) :
    Keeps s (s.setArray k record) other c := by
  refine ⟨⟨owned.here, fun h => ?_, owned.constructs⟩, ?_⟩
  · rw [owned.arrays, setArray_arrays]
    by_cases here : h = k
    · subst here
      have none := (owned.arrays h).not.mp unlisted
      simp only [if_true, Option.some.injEq, exists_eq_left']
      exact ⟨fun listed => absurd listed none, fun own => absurd own apart⟩
    · rw [if_neg here]
  · have same : c.arrays.flatMap (s.setArray k record).dimensionBlocks =
        c.arrays.flatMap s.dimensionBlocks := by
      refine List.flatMap_congr fun h listed => ?_
      rw [dimensionBlocks_setArray, if_neg (ne_of_mem_of_not_mem listed unlisted)]
    rw [held_eq, held_eq, same, fieldBlocks_setArray]

end Others

section Commits

variable {s : Seen} {other : Handle} {c : Context List}

/-- What is not there yet is in no list. -/
private theorem unlisted (bounded : Bounded s) (owned : Owned s.types other c) :
    other ≠ s.next ∧ s.next ∉ c.arrays ∧ s.next ∉ c.constructs := by
  refine ⟨?_, fun listed => ?_, fun listed => ?_⟩
  · rintro rfl
    have here := owned.here
    rw [bounded.contexts s.next (Nat.le_refl _)] at here
    cases here
  · obtain ⟨a, present, _⟩ := (owned.arrays s.next).mp listed
    rw [bounded.arrays s.next (Nat.le_refl _)] at present
    cases present
  · obtain ⟨x, present, _⟩ := (owned.constructs s.next).mp listed
    rw [bounded.constructs s.next (Nat.le_refl _)] at present
    cases present

/-- What is committed on another context leaves a context what it owns. -/
theorem commit_keeps (bounded : Bounded s) (owned : Owned s.types other c) {op : Op} {plan : Plan}
    (ready : Ready s.types op plan) (apart : plan.owner s.types ≠ some other) :
    Keeps s.types (commit s.types s.next plan) other c := by
  obtain ⟨older, newArray, newConstruct⟩ := unlisted bounded owned
  cases ready with
  | context => exact owned.keeps_setContext older _
  | @construct type owner name packed record present unused =>
    have elsewhere : other ≠ owner := fun same => apart (congrArg some same.symm)
    have first := owned.keeps_setContext elsewhere
      { record with
        constructs := record.constructs ++ [s.next]
        constructsNameHash := extendHash record.constructsNameHash name s.next }
    simp only [commit, present]
    exact first.trans (first.owned.keeps_setConstruct _ newConstruct elsewhere.symm)
  | @field plan options record context present unfrozen named unused offsets owner sized nonneg =>
    simp only [Plan.owner, present, Option.map_some, ne_eq, Option.some.injEq] at apart
    have elsewhere : plan.construct ∉ c.constructs := by
      intro listed
      obtain ⟨x, there, own⟩ := (owned.constructs _).mp listed
      rw [present] at there
      cases there
      exact apart own
    have first := owned.keeps_setConstruct (record.withField s.next plan) elsewhere apart
    simp only [commit, present]
    exact first.trans (first.owned.keeps_freeze plan.fieldType)
  | @pointer owner fieldType =>
    have elsewhere : other ≠ owner := fun same => apart (congrArg some same.symm)
    cases present : s.types.contexts owner with
    | none =>
      simp only [commit, present]
      exact ⟨owned, rfl⟩
    | some record =>
      have first := owned.keeps_setContext elsewhere
        { record with pointers := record.pointers ++ [s.next] }
      simp only [commit, present]
      exact first.trans (first.owned.keeps_setPointer _)
  | @array plan record present sized =>
    have elsewhere : other ≠ plan.context := fun same => apart (congrArg some same.symm)
    have first := owned.keeps_setContext elsewhere
      { record with arrays := record.arrays ++ [s.next] }
    have second := first.owned.keeps_setArray plan.array newArray elsewhere.symm
    simp only [commit, present]
    exact (first.trans second).trans (second.owned.keeps_freeze plan.fieldType)
  | @dimension array dimension record present unfrozen =>
    simp only [Plan.owner, present, Option.map_some, ne_eq, Option.some.injEq] at apart
    have elsewhere : array ∉ c.arrays := by
      intro listed
      obtain ⟨a, there, own⟩ := (owned.arrays _).mp listed
      rw [present] at there
      cases there
      exact apart own
    simp only [commit, present]
    exact owned.keeps_setArray (record.withDimension s.next dimension) elsewhere apart
  | @var plan record present named unused sized =>
    have elsewhere : other ≠ plan.context := fun same => apart (congrArg some same.symm)
    have first := owned.keeps_freeze plan.fieldType
    have second := first.owned.keeps_setContext elsewhere
      { record with
        vars := record.vars ++ [s.next]
        variablesNameHash := extendHash record.variablesNameHash plan.name s.next }
    simp only [commit, present]
    exact (first.trans second).trans (second.owned.keeps_setVariable plan.var)

private theorem of_setContext {s : Store List} {k other : Handle} {record old c : Context List}
    (there : s.contexts k = some old) (present : (s.setContext k record).contexts other = some c) :
    ∃ old, s.contexts other = some old := by
  rw [setContext_contexts] at present
  split at present
  · rename_i here
    exact ⟨old, here ▸ there⟩
  · exact ⟨c, present⟩

/-- Only the creation of a context makes a context. -/
theorem commit_contexts {op : Op} {plan : Plan} (ready : Ready s.types op plan) {k : Handle}
    (own : plan.owner s.types = some k)
    (present : (commit s.types s.next plan).contexts other = some c) :
    ∃ old, s.types.contexts other = some old := by
  cases ready with
  | context => cases own
  | construct there unused =>
    simp only [commit, there, setConstruct_contexts] at present
    exact of_setContext there present
  | field there unfrozen named unused offsets owner sized nonneg =>
    simp only [commit, there, freezeFieldType_contexts, setConstruct_contexts] at present
    exact ⟨c, present⟩
  | pointer =>
    simp only [commit] at present
    split at present
    · exact ⟨c, present⟩
    · rename_i record there
      exact of_setContext there present
  | array there sized =>
    simp only [commit, there, freezeFieldType_contexts, setArray_contexts] at present
    exact of_setContext there present
  | dimension there unfrozen =>
    simp only [commit, there, setArray_contexts] at present
    exact ⟨c, present⟩
  | @var plan record there named unused sized =>
    simp only [commit, there, setVariable_contexts] at present
    obtain ⟨old, was⟩ := of_setContext
      ((congrFun (freezeFieldType_contexts s.types plan.fieldType) _).trans there) present
    exact ⟨old, (congrFun (freezeFieldType_contexts s.types plan.fieldType) _).symm.trans was⟩

/-- A pointer that is new is of the context that the plan adds to. -/
theorem commit_pointer {op : Op} {plan : Plan} (ready : Ready s.types op plan) {h : Handle}
    {p : Pointer} (present : (commit s.types s.next plan).pointers h = some p) :
    s.types.pointers h = some p ∨ h = s.next ∧ plan.owner s.types = some p.context := by
  cases ready with
  | context => exact .inl present
  | construct there unused =>
    simp only [commit, there] at present
    exact .inl present
  | field there unfrozen named unused offsets owner sized nonneg =>
    simp only [commit, there, freezeFieldType_pointers] at present
    exact .inl present
  | pointer =>
    simp only [commit] at present
    split at present
    · exact .inl present
    · simp only [Store.setPointer, Function.update_apply] at present
      split at present
      · rename_i here
        cases present
        exact .inr ⟨here, rfl⟩
      · exact .inl present
  | array there sized =>
    simp only [commit, there, freezeFieldType_pointers] at present
    exact .inl present
  | dimension there unfrozen =>
    simp only [commit, there] at present
    exact .inl present
  | @var plan record there named unused sized =>
    simp only [commit, there] at present
    have kept := congrFun (freezeFieldType_pointers s.types plan.fieldType) h
    exact .inl (kept.symm.trans present)

/-- So is a variable. -/
theorem commit_var {op : Op} {plan : Plan} (ready : Ready s.types op plan) {h : Handle}
    {v : Variable} (present : (commit s.types s.next plan).vars h = some v) :
    s.types.vars h = some v ∨ h = s.next ∧ plan.owner s.types = some v.context := by
  cases ready with
  | context => exact .inl present
  | construct there unused =>
    simp only [commit, there] at present
    exact .inl present
  | field there unfrozen named unused offsets owner sized nonneg =>
    simp only [commit, there, freezeFieldType_vars] at present
    exact .inl present
  | pointer =>
    simp only [commit] at present
    split at present
    · exact .inl present
    · exact .inl present
  | array there sized =>
    simp only [commit, there, freezeFieldType_vars] at present
    exact .inl present
  | dimension there unfrozen =>
    simp only [commit, there] at present
    exact .inl present
  | @var plan record there named unused sized =>
    simp only [commit, there, setVariable_vars] at present
    split at present
    · rename_i here
      cases present
      exact .inr ⟨here, rfl⟩
    · rw [setContext_vars, freezeFieldType_vars] at present
      exact .inl present

/-- A context that is new owns nothing yet. -/
theorem created_owned (owners : Owners s) (name : CString) (platform : Platform) :
    ∃ c, Owned (commit s.types s.next (.context name platform)) s.next c ∧
      (commit s.types s.next (.context name platform)).held c = [] := by
  refine ⟨_, ⟨setContext_self _ _ _, fun h => ?_, fun h => ?_⟩, rfl⟩
  · refine ⟨fun listed => absurd listed List.not_mem_nil, ?_⟩
    rintro ⟨a, present, own⟩
    exact absurd own (Nat.ne_of_lt (owners.arrays h a present))
  · refine ⟨fun listed => absurd listed List.not_mem_nil, ?_⟩
    rintro ⟨c, present, own⟩
    exact absurd own (Nat.ne_of_lt (owners.constructs h c present))

end Commits

section Invariant

/-- The blocks of a context: itself, and what its lists hold. -/
def Store.estate (s : Store List) (k : Handle) : List Handle :=
  match s.contexts k with
  | none => []
  | some c => k :: s.held c

theorem Owned.estate {s : Store List} {k : Handle} {c : Context List} (owned : Owned s k c) :
    s.estate k = k :: s.held c := by
  rw [Store.estate, owned.here]

theorem Keeps.estate {s after : Store List} {k : Handle} {c : Context List}
    (keeps : Keeps s after k c) (owned : Owned s k c) : after.estate k = s.estate k := by
  rw [keeps.owned.estate, owned.estate, keeps.held]

/-- Pointers and variables are in the estates of their contexts. -/
structure Store.Homed (s : Store List) : Prop where
  pointers : ∀ h p, s.pointers h = some p → h ∈ s.estate p.context
  vars : ∀ h v, s.vars h = some v → h ∈ s.estate v.context

/-- Of the contexts that are live, each owns its lists; every construct and array is of one of
them, and what is outstanding is what they own. -/
structure Estates (m : Machine) (live : List Handle) : Prop where
  standing : Standing m
  owned : ∀ k ∈ live, ∃ c, Owned m.store.view k c
  contexts : ∀ k c, m.store.view.contexts k = some c → k ∈ live
  constructs : ∀ h c, m.store.view.constructs h = some c → c.context ∈ live
  arrays : ∀ h a, m.store.view.arrays h = some a → a.context ∈ live
  homed : m.store.view.Homed
  outstanding : m.heap.outstanding.Perm (live.flatMap m.store.view.estate)
  accounted : m.heap.Accounted

variable {m next : Machine} {live : List Handle} {event : Event}

theorem initial_estates : Estates Machine.initial [] :=
  { standing := ⟨initial_bounded, ⟨nofun, nofun⟩, initial_counted⟩
    owned := nofun
    contexts := nofun
    constructs := nofun
    arrays := nofun
    homed := ⟨nofun, nofun⟩
    outstanding := .refl _
    accounted := .refl _ }

theorem Estates.apart (estates : Estates m live) : (live.flatMap m.store.view.estate).Nodup :=
  estates.outstanding.nodup_iff.mp estates.accounted.once

theorem Estates.live_nodup (estates : Estates m live) : live.Nodup := by
  refine nodup_of_flatMap (fun k member => ?_) estates.apart
  obtain ⟨c, owned⟩ := estates.owned k member
  rw [owned.estate]
  exact List.mem_cons_self

theorem Estates.estate_nodup (estates : Estates m live) {k : Handle} (member : k ∈ live) :
    (m.store.view.estate k).Nodup :=
  (List.nodup_flatMap.mp estates.apart).1 k member

/-- Only what is live has an estate. -/
theorem Estates.live_of_mem (estates : Estates m live) {h k : Handle}
    (member : h ∈ m.store.view.estate k) : k ∈ live := by
  unfold Store.estate at member
  split at member
  · cases member
  · rename_i c present
    exact estates.contexts k c present

/-- Constructs and arrays are made on contexts that are live. -/
theorem Estates.members (estates : Estates m live) (step : Step m event next) (later : List Handle)
    (kept : ∀ k ∈ live, k ∈ later) :
    (∀ h c, next.store.view.constructs h = some c → c.context ∈ later) ∧
      ∀ h a, next.store.view.arrays h = some a → a.context ∈ later := by
  have change := step.change
  refine ⟨fun h c present => kept _ ?_, fun h a present => kept _ ?_⟩
  · cases change.construct present with
    | @kept old was same =>
      rw [same]
      exact estates.constructs h old was
    | created ready code here same =>
      rw [same]
      generalize event.call = call at ready
      cases call
      cases ready with
      | construct there unused => exact estates.contexts _ _ there
    | @extended plan old ready code here was same =>
      rw [same]
      exact estates.constructs h old was
  · cases change.array present with
    | @kept old was same =>
      rw [same]
      exact estates.arrays h old was
    | created ready code here same =>
      rw [same]
      generalize event.call = call at ready
      cases call
      cases ready with
      | array there sized => exact estates.contexts _ _ there
    | @extended dimension old ready code was same =>
      rw [same]
      exact estates.arrays h old was

/-- Where every context owns and holds what it did, every estate is what it was. -/
theorem Estates.estate_kept (estates : Estates m live) {after : Store List}
    (keeps : ∀ k c, Owned m.store.view k c → Keeps m.store.view after k c) {k : Handle}
    (member : k ∈ live) : after.estate k = m.store.view.estate k := by
  obtain ⟨c, owned⟩ := estates.owned k member
  exact (keeps k c owned).estate owned

theorem Estates.mem_kept (estates : Estates m live) {after : Store List}
    (keeps : ∀ k c, Owned m.store.view k c → Keeps m.store.view after k c) {h k : Handle}
    (member : h ∈ m.store.view.estate k) : h ∈ after.estate k := by
  rw [estates.estate_kept keeps (estates.live_of_mem member)]
  exact member

/-- A call that fails changes no estate, and gives back the block that it took. -/
theorem Estates.failed (estates : Estates m live) (step : Step m event next)
    (heap : next.heap = m.heap ∨ next.heap = m.heap.calloc.2.free m.heap.calloc.1)
    (same : next.store.view = m.store.view ∨
      ∃ fieldType, next.store.view = freezeFieldType m.store.view fieldType) :
    Estates next live := by
  have keeps (k : Handle) (c : Context List) (owned : Owned m.store.view k c) :
      Keeps m.store.view next.store.view k c := by
    rcases same with same | ⟨fieldType, same⟩
    · rw [same]
      exact ⟨owned, rfl⟩
    · rw [same]
      exact owned.keeps_freeze fieldType
  have contexts : next.store.view.contexts = m.store.view.contexts := by
    rcases same with same | ⟨fieldType, same⟩
    · rw [same]
    · rw [same, freezeFieldType_contexts]
  obtain ⟨outstanding, accounted⟩ :
      next.heap.outstanding = m.heap.outstanding ∧ next.heap.Accounted := by
    rcases heap with heap | heap
    · rw [heap]
      exact ⟨rfl, estates.accounted⟩
    · rw [heap]
      refine ⟨by simp [Heap.calloc, Heap.free], estates.accounted.calloc.free ?_⟩
      exact List.mem_cons_self
  obtain ⟨constructs, arrays⟩ := estates.members step live fun k member => member
  refine ⟨step.standing estates.standing, ?_, ?_, constructs, arrays, ⟨?_, ?_⟩, ?_, accounted⟩
  · intro k member
    obtain ⟨c, owned⟩ := estates.owned k member
    exact ⟨c, (keeps k c owned).owned⟩
  · rw [contexts]
    exact estates.contexts
  · intro h p present
    refine estates.mem_kept keeps (estates.homed.pointers h p ?_)
    rcases same with same | ⟨fieldType, same⟩
    · rw [← same]
      exact present
    · rw [same, freezeFieldType_pointers] at present
      exact present
  · intro h v present
    refine estates.mem_kept keeps (estates.homed.vars h v ?_)
    rcases same with same | ⟨fieldType, same⟩
    · rw [← same]
      exact present
    · rw [same, freezeFieldType_vars] at present
      exact present
  · rw [outstanding, List.flatMap_congr fun k member => estates.estate_kept keeps member]
    exact estates.outstanding

/-- A context that is created is live, and holds nothing. -/
theorem Estates.created (estates : Estates m live) (step : Step m event next) {name : CString}
    {platform : Platform} (ready : Ready m.store.view event.op (.context name platform))
    (heap : next.heap = m.heap.calloc.2)
    (same : next.store.view = commit m.store.view m.heap.next (.context name platform)) :
    Estates next (m.heap.next :: live) := by
  have standing := estates.standing
  have keeps (k : Handle) (c : Context List) (owned : Owned m.store.view k c) :
      Keeps m.store.view next.store.view k c := by
    rw [same]
    exact commit_keeps (s := m.seen) standing.bounded owned ready (fun owner => nomatch owner)
  obtain ⟨record, owned, empty⟩ := created_owned (s := m.seen) standing.owners name platform
  have owned : Owned next.store.view m.heap.next record := by
    rw [same]
    exact owned
  have fresh : next.store.view.estate m.heap.next = [m.heap.next] := by
    rw [owned.estate, same]
    exact congrArg (m.heap.next :: ·) empty
  obtain ⟨constructs, arrays⟩ := estates.members step (m.heap.next :: live)
    fun k member => List.mem_cons_of_mem _ member
  refine ⟨step.standing standing, ?_, ?_, constructs, arrays, ⟨?_, ?_⟩, ?_, ?_⟩
  · intro k member
    rcases List.mem_cons.mp member with rfl | old
    · exact ⟨record, owned⟩
    · obtain ⟨c, owned⟩ := estates.owned k old
      exact ⟨c, (keeps k c owned).owned⟩
  · intro k c present
    rw [same, commit, setContext_contexts] at present
    split at present
    · rename_i here
      exact here ▸ List.mem_cons_self
    · exact List.mem_cons_of_mem _ (estates.contexts k c present)
  · intro h p present
    rw [same] at present
    exact estates.mem_kept keeps (estates.homed.pointers h p present)
  · intro h v present
    rw [same] at present
    exact estates.mem_kept keeps (estates.homed.vars h v present)
  · rw [heap, List.flatMap_cons, fresh]
    rw [List.flatMap_congr fun k member => estates.estate_kept keeps member]
    exact estates.outstanding.cons m.heap.next
  · rw [heap]
    exact estates.accounted.calloc

/-- A pointer is made on a context that is there. -/
private theorem pointer_owner {mem : Memory} {k : Handle} {fieldType : FieldType} {r : Return}
    (returned : contextCreatePointer m mem (some k) (some fieldType) true = .ok r) :
    ∃ record, m.store.contexts k = some record := by
  rcases guarded_cases returned with ⟨error, refused, _⟩ | ⟨plan, passed, done⟩
  · cases refused
  · cases passed
    simp only [Heap.calloc] at done
    obtain ⟨_, done⟩ := untested_cases done
    split at done
    · cases done
    · rename_i record present
      exact ⟨record, present⟩

/-- What is committed is a context, or is committed on a context that is live. -/
theorem Estates.owner (estates : Estates m live) (step : Step m event next) {plan : Plan}
    (ready : Ready m.store.view event.op plan) :
    (∃ name platform, plan = .context name platform) ∨
      ∃ k ∈ live, plan.owner m.store.view = some k := by
  obtain ⟨op, memory, result⟩ := event
  cases ready with
  | context => exact .inl ⟨_, _, rfl⟩
  | construct present unused => exact .inr ⟨_, estates.contexts _ _ present, rfl⟩
  | field present unfrozen named unused offsets owner sized nonneg =>
    exact .inr ⟨_, estates.constructs _ _ present, by rw [Plan.owner, present]; rfl⟩
  | pointer =>
    obtain ⟨record, present⟩ := pointer_owner step.1
    refine .inr ⟨_, estates.contexts _ record.view ?_, rfl⟩
    rw [view_contexts, present]
    rfl
  | array present sized => exact .inr ⟨_, estates.contexts _ _ present, rfl⟩
  | dimension present unfrozen =>
    exact .inr ⟨_, estates.arrays _ _ present, by rw [Plan.owner, present]; rfl⟩
  | var present named unused sized => exact .inr ⟨_, estates.contexts _ _ present, rfl⟩

/-- What is committed on a live context is one block more in its estate. -/
theorem Estates.committed (estates : Estates m live) (step : Step m event next) {plan : Plan}
    (ready : Ready m.store.view event.op plan) {k : Handle} (member : k ∈ live)
    (own : plan.owner m.store.view = some k) (heap : next.heap = m.heap.calloc.2)
    (same : next.store.view = commit m.store.view m.heap.next plan) : Estates next live := by
  have bounded := estates.standing.bounded
  obtain ⟨c, owned⟩ := estates.owned k member
  have once : (m.store.view.held c).Nodup := by
    have all := estates.estate_nodup member
    rw [owned.estate] at all
    exact all.of_cons
  obtain ⟨now, takes, held⟩ := commit_takes (s := m.seen) bounded owned once ready own
  have takes : Owned next.store.view k now := by
    rw [same]
    exact takes
  have grown : (next.store.view.estate k).Perm (m.heap.next :: m.store.view.estate k) := by
    rw [takes.estate, owned.estate, same]
    exact (held.cons k).trans (.swap _ _ _)
  have keeps (other : Handle) (record : Context List) (owned : Owned m.store.view other record)
      (apart : other ≠ k) : Keeps m.store.view next.store.view other record := by
    rw [same]
    refine commit_keeps (s := m.seen) bounded owned ready fun same => apart ?_
    exact Option.some.inj (same.symm.trans own)
  obtain ⟨constructs, arrays⟩ := estates.members step live fun k member => member
  have larger (h other : Handle) (holds : h ∈ m.store.view.estate other) :
      h ∈ next.store.view.estate other := by
    by_cases here : other = k
    · subst here
      exact grown.mem_iff.mpr (List.mem_cons_of_mem _ holds)
    · obtain ⟨record, owned⟩ := estates.owned other (estates.live_of_mem holds)
      rw [(keeps other record owned here).estate owned]
      exact holds
  have newest (h context : Handle) (here : h = m.heap.next)
      (owner : plan.owner m.store.view = some context) : h ∈ next.store.view.estate context := by
    obtain rfl := Option.some.inj (own.symm.trans owner)
    rw [here]
    exact grown.mem_iff.mpr List.mem_cons_self
  refine ⟨step.standing estates.standing, ?_, ?_, constructs, arrays, ⟨?_, ?_⟩, ?_, ?_⟩
  · intro other listed
    by_cases here : other = k
    · subst here
      exact ⟨now, takes⟩
    · obtain ⟨record, owned⟩ := estates.owned other listed
      exact ⟨record, (keeps other record owned here).owned⟩
  · intro other record present
    rw [same] at present
    obtain ⟨old, there⟩ := commit_contexts (s := m.seen) ready own present
    exact estates.contexts other old there
  · intro h p present
    rw [same] at present
    rcases commit_pointer (s := m.seen) ready present with old | ⟨here, owner⟩
    · exact larger h _ (estates.homed.pointers h p old)
    · exact newest h _ here owner
  · intro h v present
    rw [same] at present
    rcases commit_var (s := m.seen) ready present with old | ⟨here, owner⟩
    · exact larger h _ (estates.homed.vars h v old)
    · exact newest h _ here owner
  · rw [heap]
    refine (estates.outstanding.cons m.heap.next).trans ?_
    refine (flatMap_perm_of_grown estates.live_nodup member grown fun other listed apart => ?_).symm
    obtain ⟨record, owned⟩ := estates.owned other listed
    exact (keeps other record owned apart).estate owned
  · rw [heap]
    exact estates.accounted.calloc

end Invariant

end Mam.CopyEngine
