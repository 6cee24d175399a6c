import Mam.CopyEngine.Names
import Mam.CopyEngine.Ownership
import Mam.CopyEngine.Records
import Mathlib.Data.List.Nodup

/-! Programs that create, use and destroy contexts. -/

namespace Mam.CopyEngine

open Mam.Library Mam.Vendor

section Programs

/-- What a program does: it makes a call, or it destroys a context. -/
inductive Act where
  | call (event : Event)
  | destroy (context : Option Handle) (result : Return)

def Act.Step (m : Machine) (act : Act) (next : Machine) : Prop :=
  match act with
  | .call event => CopyEngine.Step m event next
  | .destroy context result => contextDestroy m context = .ok result ∧ next = result.machine

/-- A program, from before its first context. -/
abbrev Life (trace : List (Transition Machine Act)) (final : Machine) : Prop :=
  Execution Act.Step Machine.initial trace final

/-- The context of an object is older than the next address. -/
structure Owners (s : Seen) : Prop where
  constructs : ∀ h c, s.types.constructs h = some c → c.context < s.next
  arrays : ∀ h a, s.types.arrays h = some a → a.context < s.next

theorem Change.owners {s next : Seen} {call : Call} (change : Change s call next)
    (bounded : Bounded s) (owners : Owners s) : Owners next := by
  have older {k : Handle} {record : Context List} (present : s.types.contexts k = some record) :
      k < s.next := by
    by_contra later
    rw [bounded.contexts k (Nat.not_lt.mp later)] at present
    cases present
  have later := change.next_le
  constructor
  · intro h c present
    refine Nat.lt_of_lt_of_le ?_ later
    cases change.construct present with
    | @kept old was same =>
      rw [same]
      exact owners.constructs h old was
    | created ready code here same =>
      rw [same]
      cases call
      cases ready with
      | construct there unused => exact older there
    | @extended plan old ready code here was same =>
      rw [same]
      exact owners.constructs h old was
  · intro h a present
    refine Nat.lt_of_lt_of_le ?_ later
    cases change.array present with
    | @kept old was same =>
      rw [same]
      exact owners.arrays h old was
    | created ready code here same =>
      rw [same]
      cases call
      cases ready with
      | array there sized => exact older there
    | @extended dimension old ready code was same =>
      rw [same]
      exact owners.arrays h old was

/-- What calls and destructions keep: the next address is unused, and lists tell their
lengths. -/
structure Standing (m : Machine) : Prop where
  bounded : Bounded m.seen
  owners : Owners m.seen
  counted : m.store.Counted

private theorem drop_eq_some {α : Type} {table : Handle → Option α} {h k : Handle} {a : α}
    (present : Function.update table h none k = some a) : table k = some a := by
  rw [Function.update_apply] at present
  split at present
  · cases present
  · exact present

private theorem drop_eq_none {α : Type} {table : Handle → Option α} (h : Handle) {k : Handle}
    (absent : table k = none) : Function.update table h none k = none := by
  rw [Function.update_apply, absent, ite_self]

theorem Standing.free {m : Machine} (standing : Standing m) (block : Handle) :
    Standing (m.free block) := by
  obtain ⟨bounded, owners, counted⟩ := standing
  have view {α β : Type} {table : Handle → Option α} {k : Handle} {f : α → β}
      (absent : (table k).map f = none) : (Function.update table block none k).map f = none := by
    rw [drop_eq_none block (Option.map_eq_none_iff.mp absent)]
    rfl
  have older {α β : Type} {table : Handle → Option α} {k : Handle} {f : α → β} {b : β}
      (present : (Function.update table block none k).map f = some b) :
      (table k).map f = some b := by
    obtain ⟨a, there, rfl⟩ := Option.map_eq_some_iff.mp present
    rw [drop_eq_some there]
    rfl
  refine ⟨⟨?_, ?_, ?_, ?_⟩, ⟨?_, ?_⟩, ⟨?_, ?_, ?_⟩⟩
  · exact fun k beyond => view (bounded.contexts k beyond)
  · exact fun k beyond => view (bounded.constructs k beyond)
  · exact fun k beyond => view (bounded.arrays k beyond)
  · exact fun k beyond => drop_eq_none block (bounded.vars k beyond)
  · exact fun k c present => owners.constructs k c (older present)
  · exact fun k a present => owners.arrays k a (older present)
  · exact fun k c present => counted.contexts k c (drop_eq_some present)
  · exact fun k c present => counted.constructs k c (drop_eq_some present)
  · exact fun k a present => counted.arrays k a (drop_eq_some present)

theorem Standing.freeAll {m : Machine} (standing : Standing m) (blocks : List Handle) :
    Standing (m.freeAll blocks) := by
  induction blocks generalizing m with
  | nil => exact standing
  | cons block rest ih => exact ih (standing.free block)

theorem Step.standing {m next : Machine} {event : Event} (standing : Standing m)
    (step : Step m event next) : Standing next := by
  refine ⟨step.change.bounded standing.bounded, step.change.owners standing.bounded standing.owners, ?_⟩
  obtain ⟨returned, rfl⟩ := step
  exact exec_lists counted_kept standing.counted returned

theorem Act.standing {m next : Machine} {act : Act} (standing : Standing m)
    (step : act.Step m next) : Standing next := by
  cases act with
  | call event => exact Step.standing standing step
  | destroy context result =>
    obtain ⟨returned, rfl⟩ := step
    obtain ⟨blocks, same⟩ := contextDestroy_frees returned
    rw [same]
    exact standing.freeAll blocks

theorem standing_of_life {trace : List (Transition Machine Act)} {final : Machine}
    (life : Life trace final) : Standing final :=
  life.invariant Standing ⟨initial_bounded, ⟨nofun, nofun⟩, initial_counted⟩
    fun _ _ _ standing step => Act.standing standing step

end Programs

section Sessions

/-- Between the creation of a context and its destruction: what is outstanding is what was
before, the context, and what its lists hold; `since` has been released. -/
structure Session (start : Machine) (k : Handle) (m : Machine) (c : Context List)
    (since : List Handle) : Prop where
  standing : Standing m
  owned : Owned m.store.view k c
  outstanding : m.heap.outstanding.Perm (k :: m.store.view.held c ++ start.heap.outstanding)
  released : m.heap.released = start.heap.released ++ since
  once : (since ++ k :: m.store.view.held c).Nodup
  recent : ∀ block ∈ since ++ k :: m.store.view.held c,
    start.heap.next ≤ block ∧ block < m.heap.next

/-- The call commits nothing, or it commits on the context. -/
def OnContext (k : Handle) (entry : Transition Machine Event) : Prop :=
  entry.label.result.code = .success → ∀ plan,
    checks entry.pre.store.view entry.label.op = .ok plan →
      plan.owner entry.pre.store.view = some k

instance (k : Handle) (entry : Transition Machine Event) : Decidable (OnContext k entry) :=
  inferInstanceAs (Decidable (_ → ∀ _, _ → _))

/-- A context that was created is new, and holds nothing. -/
theorem session_of_created {start : Machine} (standing : Standing start) {mem : Memory}
    {name : Option CString} {platform : Option Platform} {ret : Bool} {r : Return}
    (created : contextCreate start mem name platform ret = .ok r) {k : Handle}
    (given : r.value = some k) : ∃ c, Session start k r.machine c [] := by
  have step : Step start ⟨.contextCreate name platform ret, mem, r⟩ r.machine := ⟨created, rfl⟩
  have after : Standing r.machine := step.standing standing
  rcases guarded_cases created with ⟨error, refused, rfl⟩ | ⟨plan, passed, done⟩
  · cases given
  · simp only [Heap.calloc] at done
    rcases tested_cases done with ⟨_, rfl⟩ | ⟨_, done⟩
    · cases given
    rcases tested_cases done with ⟨_, rfl⟩ | ⟨_, done⟩
    · cases given
    cases done
    cases given
    have bounded := standing.bounded
    let record : Context List :=
      { name := plan.1, platform := plan.2, pointers := [], arrays := [], constructs := [], vars := [],
        variablesNameHash := UTHash.empty, constructsNameHash := UTHash.empty }
    refine ⟨record, after, ⟨?_, ?_, ?_⟩, List.Perm.refl _, (List.append_nil _).symm, ?_, ?_⟩
    · rw [view_setContext]
      exact setContext_self _ _ _
    · intro h
      refine ⟨fun listed => absurd listed List.not_mem_nil, ?_⟩
      rintro ⟨a, present, own⟩
      exact absurd own (Nat.ne_of_lt (standing.owners.arrays h a present))
    · intro h
      refine ⟨fun listed => absurd listed List.not_mem_nil, ?_⟩
      rintro ⟨c, present, own⟩
      exact absurd own (Nat.ne_of_lt (standing.owners.constructs h c present))
    · exact List.pairwise_singleton _ _
    · intro block member
      obtain rfl := List.mem_singleton.mp member
      exact ⟨Nat.le_refl _, Nat.lt_succ_self _⟩

variable {start m next : Machine} {k : Handle} {c : Context List} {since : List Handle} {event : Event}

/-- The block that a call takes is one more that is recent and was not there before. -/
theorem Session.grows (session : Session start k m c since) {blocks : List Handle}
    (moved : blocks.Perm (m.heap.next :: (since ++ k :: m.store.view.held c)))
    (later : next.heap.next = m.heap.next + 1) :
    blocks.Nodup ∧ ∀ block ∈ blocks, start.heap.next ≤ block ∧ block < next.heap.next := by
  constructor
  · rw [moved.nodup_iff]
    refine List.nodup_cons.mpr ⟨fun member => ?_, session.once⟩
    exact absurd (session.recent _ member).2 (Nat.lt_irrefl _)
  · intro block member
    rw [later]
    rcases List.mem_cons.mp (moved.mem_iff.mp member) with rfl | old
    · obtain ⟨own, young⟩ := session.recent k (by simp)
      exact ⟨Nat.le_of_lt (Nat.lt_of_le_of_lt own young), Nat.lt_succ_self _⟩
    · obtain ⟨recent, earlier⟩ := session.recent block old
      exact ⟨recent, Nat.lt_succ_of_lt earlier⟩

/-- A call that fails leaves what is held, and releases at most the block that it took. -/
theorem Session.failed (session : Session start k m c since) (step : Step m event next)
    (heap : next.heap = m.heap ∨ next.heap = m.heap.calloc.2.free m.heap.calloc.1)
    (same : next.store.view = m.store.view ∨
      ∃ fieldType, next.store.view = freezeFieldType m.store.view fieldType) :
    ∃ released, Session start k next c released := by
  have standing := step.standing session.standing
  obtain ⟨owned, held⟩ : Owned next.store.view k c ∧
      next.store.view.held c = m.store.view.held c := by
    rcases same with same | ⟨fieldType, same⟩
    · rw [same]
      exact ⟨session.owned, rfl⟩
    · rw [same]
      exact ⟨session.owned.freeze fieldType, held_freeze fieldType c⟩
  rcases heap with heap | heap
  · refine ⟨since, standing, owned, ?_, ?_, ?_, ?_⟩
    · rw [heap, held]
      exact session.outstanding
    · rw [heap]
      exact session.released
    · rw [held]
      exact session.once
    · rw [heap, held]
      exact session.recent
  · have outstanding : next.heap.outstanding = m.heap.outstanding := by
      rw [heap]
      simp [Heap.calloc, Heap.free]
    have later : next.heap.next = m.heap.next + 1 := by rw [heap]; rfl
    have released : next.heap.released = m.heap.released ++ [m.heap.next] := by rw [heap]; rfl
    have moved : (since ++ [m.heap.next] ++ k :: next.store.view.held c).Perm
        (m.heap.next :: (since ++ k :: m.store.view.held c)) := by
      rw [held, List.append_assoc]
      exact List.perm_middle
    obtain ⟨once, recent⟩ := session.grows moved later
    refine ⟨since ++ [m.heap.next], standing, owned, ?_, ?_, once, recent⟩
    · rw [outstanding, held]
      exact session.outstanding
    · rw [released, session.released, List.append_assoc]

/-- What is committed on the context is held by it, and nothing is released. -/
theorem Session.committed (session : Session start k m c since) (step : Step m event next)
    {plan : Plan} (ready : Ready m.store.view event.op plan)
    (own : plan.owner m.store.view = some k) (heap : next.heap = m.heap.calloc.2)
    (same : next.store.view = commit m.store.view m.heap.next plan) :
    ∃ now, Session start k next now since := by
  have holds : (m.store.view.held c).Nodup := (List.nodup_append.mp session.once).2.1.of_cons
  obtain ⟨now, owned, held⟩ :=
    commit_takes (s := m.seen) session.standing.bounded session.owned holds ready own
  rw [show commit m.seen.types m.seen.next plan = next.store.view from same.symm] at owned held
  have held : (next.store.view.held now).Perm (m.heap.next :: m.store.view.held c) := held
  have moved : (since ++ k :: next.store.view.held now).Perm
      (m.heap.next :: (since ++ k :: m.store.view.held c)) := by
    refine (((held.cons k).trans (.swap _ _ _)).append_left since).trans ?_
    exact List.perm_middle
  have later : next.heap.next = m.heap.next + 1 := by rw [heap]; rfl
  obtain ⟨once, recent⟩ := session.grows moved later
  refine ⟨now, step.standing session.standing, owned, ?_, ?_, once, recent⟩
  · rw [heap]
    refine (session.outstanding.cons m.heap.next).trans ?_
    refine List.Perm.trans ?_ (((held.cons k).symm).append_right _)
    exact .swap _ _ _
  · rw [heap]
    exact session.released

theorem session_of_run {trace : List (Transition Machine Event)} {first final : Machine}
    (opened : ∃ c, Session start k first c []) (run : Execution Step first trace final)
    (own : ∀ entry ∈ trace, OnContext k entry) : ∃ c since, Session start k final c since := by
  obtain ⟨c, opened⟩ := opened
  refine run.invariant_within (fun m => ∃ c since, Session start k m c since) (OnContext k)
    ⟨c, [], opened⟩ ?_ own
  rintro m event next ⟨c, since, session⟩ step on
  cases step.blockMove with
  | failed code heap same =>
    obtain ⟨released, after⟩ := session.failed step heap same
    exact ⟨c, released, after⟩
  | @committed plan ready code heap same =>
    obtain ⟨now, after⟩ := session.committed step ready (on code plan ready.checked) heap same
    exact ⟨now, since, after⟩

/-- Destroying the context gives back what was outstanding before it was created. -/
theorem Session.destroyed (session : Session start k m c since) :
    ∃ r blocks, contextDestroy m (some k) = .ok r ∧ r.code = .success ∧
      r.machine.heap.outstanding.Perm start.heap.outstanding ∧
      r.machine.heap.released = start.heap.released ++ (since ++ blocks) ∧
      (since ++ blocks).Nodup := by
  obtain ⟨record, present, rfl⟩ := Option.map_eq_some_iff.mp session.owned.here
  have freed := frees_perm m.store.view k record.view
  have apart : (m.store.view.frees k record.view).Nodup :=
    freed.nodup_iff.mpr (List.nodup_append.mp session.once).2.1
  have arrays (h : Handle) (member : h ∈ record.view.arrays) : ∃ a, m.store.arrays h = some a := by
    obtain ⟨a, there, _⟩ := (session.owned.arrays h).mp member
    obtain ⟨old, was, _⟩ := Option.map_eq_some_iff.mp there
    exact ⟨old, was⟩
  have constructs (h : Handle) (member : h ∈ record.view.constructs) :
      ∃ c, m.store.constructs h = some c := by
    obtain ⟨c, there, _⟩ := (session.owned.constructs h).mp member
    obtain ⟨old, was, _⟩ := Option.map_eq_some_iff.mp there
    exact ⟨old, was⟩
  refine ⟨_, m.store.view.frees k record.view,
    contextDestroy_eq present session.standing.counted arrays constructs apart, rfl, ?_, ?_, ?_⟩
  · exact freeAll_perm (session.outstanding.trans (freed.symm.append_right _))
  · rw [freeAll_released, session.released, List.append_assoc]
  · exact (freed.append_left since).nodup_iff.mpr session.once

/-- Exactly one entry of exactly one of the lists of a context is the block. -/
def Store.HeldOnce (s : Store List) (c : Context List) (block : Handle) : Prop :=
  (s.owning c).flatten.count block = 1

theorem Session.heldOnce (session : Session start k m c since) {block : Handle}
    (outstanding : block ∈ m.heap.outstanding) (new : block ∉ start.heap.outstanding)
    (other : block ≠ k) : m.store.view.HeldOnce c block := by
  have once : (m.store.view.held c).Nodup := (List.nodup_append.mp session.once).2.1.of_cons
  refine List.count_eq_one_of_mem once ?_
  rcases List.mem_append.mp (session.outstanding.mem_iff.mp outstanding) with own | old
  · exact (List.mem_cons.mp own).resolve_left other
  · exact absurd old new

/-- Whatever a program did before, from the creation of a context to its destruction: of the
blocks that were taken and not freed, each but the context itself is held by one entry of one
of its lists, and what its lists hold is not freed yet; destroying it succeeds, leaves
outstanding what was before, and in all no block was freed twice. -/
theorem owned_once_freed_once {past : List (Transition Machine Act)} (life : Life past start)
    {mem : Memory} {name : Option CString} {platform : Option Platform} {ret : Bool} {r : Return}
    (created : contextCreate start mem name platform ret = .ok r) (given : r.value = some k)
    {trace : List (Transition Machine Event)} {final : Machine}
    (run : Execution Step r.machine trace final) (own : ∀ entry ∈ trace, OnContext k entry) :
    (∃ c, final.store.view.contexts k = some c ∧
      (∀ block ∈ final.heap.outstanding, block ∉ start.heap.outstanding → block ≠ k →
        final.store.view.HeldOnce c block) ∧
      ∀ block ∈ (final.store.view.owning c).flatten, block ∈ final.heap.outstanding) ∧
    ∃ destroyed freed, contextDestroy final (some k) = .ok destroyed ∧
      destroyed.code = .success ∧
      destroyed.machine.heap.outstanding.Perm start.heap.outstanding ∧
      destroyed.machine.heap.released = start.heap.released ++ freed ∧ freed.Nodup := by
  obtain ⟨c, since, session⟩ :=
    session_of_run (session_of_created (standing_of_life life) created given) run own
  refine ⟨⟨c, session.owned.here, ?_, ?_⟩, ?_⟩
  · exact fun block outstanding new other => session.heldOnce outstanding new other
  · intro block held
    refine session.outstanding.mem_iff.mpr (List.mem_append_left _ ?_)
    exact List.mem_cons_of_mem k held
  · obtain ⟨destroyed, blocks, returned, code, outstanding, released, once⟩ := session.destroyed
    exact ⟨destroyed, since ++ blocks, returned, code, outstanding, released, once⟩

/-- Objects of every kind on one context, with calls that lack memory after they took their block:
two cannot insert a name, and the list of dimensions of the last array cannot grow. -/
def ownedCalls : List (Op × Memory) :=
  [(.contextCreateConstruct .struct (some 0) (some [97]) false true, plenty),
   (.constructAddField (some 1) (some [97]) (some ⟨4, 0⟩) [], plenty),
   (.constructAddField (some 1) (some [98]) (some ⟨4, 0⟩) [], ⟨true, true, true, false⟩),
   (.contextCreateArray (some 0) (some ⟨complexTypeStruct, 1⟩) true, plenty),
   (.arrayAddDimension (some 4) (some ⟨.fixed 3, none⟩), plenty),
   (.contextCreatePointer (some 0) (some ⟨complexTypeArray, 4⟩) true, plenty),
   (.contextCreateVariable (some 0) (some [97]) (some ⟨complexTypeArray, 4⟩) true,
     ⟨true, true, true, false⟩),
   (.contextCreateVariable (some 0) (some [98]) (some ⟨complexTypeArray, 4⟩) true, plenty),
   (.contextCreateArray (some 0) (some ⟨4, 0⟩) true, plenty),
   (.arrayAddDimension (some 9) (some ⟨.fixed 3, none⟩), ⟨true, true, false, true⟩)]

/-- The machine that has the context of these calls. -/
def ownedStart : Machine :=
  (replay respond Machine.initial [(.contextCreate (some []) (some lp64) true, plenty)]).2

theorem ownedCalls_freed :
    ∃ destroyed freed, contextDestroy (replay respond ownedStart ownedCalls).2 (some 0) =
        .ok destroyed ∧ destroyed.code = .success ∧
      destroyed.machine.heap.outstanding.Perm [] ∧
      destroyed.machine.heap.released = [] ++ freed ∧ freed.Nodup := by
  have run : Execution Step ownedStart (replay respond ownedStart ownedCalls).1
      (replay respond ownedStart ownedCalls).2 := by
    apply replay_execution
    intro m input event next returned
    exact respond_step returned
  have created : contextCreate Machine.initial plenty (some []) (some lp64) true =
      .ok { code := .success, machine := ownedStart, value := some 0 } := rfl
  exact (owned_once_freed_once .nil created rfl run (by decide +kernel)).2

end Sessions

end Mam.CopyEngine
