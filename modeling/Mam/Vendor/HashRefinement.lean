import Mam.Vendor.HashRuns

/-! What holds of every run of a table, whatever the hash function and wherever memory
runs out. -/

namespace Mam.Vendor

open Mam.Library

variable {hashFunction : CString → BitVec 32} {handles : HashHandles} {s final : HashState}
variable {table grown : UTHash Ref} {trace : List (Transition HashState HashCall)}
variable {elem h : Ref} {order : List Ref} {call : HashCall} {after : HashState}

/-- The runs of correct callers, from a NULL head. -/
structure HashRun (hashFunction : CString → BitVec 32) (handles : HashHandles)
    (trace : List (Transition HashState HashCall)) (final : HashState) : Prop where
  execution : Execution (HashStep hashFunction) ⟨handles, none⟩ trace final
  correct : ∀ entry ∈ trace, Correct entry

theorem MapStep.length_le (step : MapStep table call grown) :
    grown.entries.length ≤ table.entries.length + 1 := by
  cases step with
  | found member same => exact Nat.le_succ _
  | missing absent => exact Nat.le_succ _
  | stored added =>
    cases added
    simp
  | refused failed => exact Nat.le_succ _
  | cleared => exact Nat.zero_le _

/-- A map holds no more entries than there were requests. -/
theorem map_length_le {views : List (Transition (UTHash Ref) HashCall)}
    (run : Execution MapStep UTHash.empty views table) : table.entries.length ≤ views.length := by
  induction run with
  | nil => exact Nat.le_refl _
  | snoc before last ih =>
    rw [List.length_append]
    exact Nat.le_trans last.length_le (Nat.succ_le_succ ih)

namespace HashRun

/-- A run of the table is, call for call, a run of the finite map; at its end the table is
sound and has the entries of the map. -/
theorem refines_map (run : HashRun hashFunction handles trace final) :
    ∃ views table, Execution MapStep UTHash.empty views table ∧ Refines hashFunction final table ∧
      Matched (Refines hashFunction) Eq trace views := by
  refine run.execution.simulated (Refines.empty hashFunction handles) ?_ run.correct
  intro state label next above refines taken owed
  obtain ⟨grown, step, after⟩ := refines.step taken owed
  exact ⟨label, grown, step, rfl, after⟩

/-- The end of a run has no more items than there were requests. -/
theorem refines (run : HashRun hashFunction handles trace final) :
    ∃ table, Refines hashFunction final table ∧ table.entries.length ≤ trace.length := by
  obtain ⟨views, table, maps, refines, matched⟩ := run.refines_map
  exact ⟨table, refines, matched.length_eq ▸ map_length_le maps⟩

/-- Every recorded step, in a table that refines a map before and after it. -/
theorem steps (run : HashRun hashFunction handles trace final) :
    Execution (fun s call after => HashStep hashFunction s call after ∧
      (∃ table, Refines hashFunction s table) ∧ (∃ table, Refines hashFunction after table) ∧
      Owed s call.request) ⟨handles, none⟩ trace final := by
  refine run.execution.strengthened ⟨_, Refines.empty hashFunction handles⟩ ?_ run.correct
  rintro state label next ⟨table, refines⟩ taken owed
  obtain ⟨grown, _, after⟩ := refines.step taken owed
  exact ⟨grown, after⟩

/-- The run up to a recorded step, and the step. -/
theorem before (run : HashRun hashFunction handles trace final)
    {entry : Transition HashState HashCall} (member : entry ∈ trace) :
    ∃ earlier, HashRun hashFunction handles earlier entry.pre ∧ earlier.length < trace.length ∧
      HashStep hashFunction entry.pre entry.label entry.post ∧ Owed entry.pre entry.label.request := by
  obtain ⟨earlier, later, rfl, first, taken, _⟩ := run.execution.split member
  refine ⟨earlier, ⟨first, fun other old => run.correct other (List.mem_append_left _ old)⟩, ?_,
    taken, run.correct entry member⟩
  simp

end HashRun

section Pointers

/-- Some pointer of a table leads to an element. -/
def Mentions (s : HashState) (elem : Ref) : Prop :=
  ∃ head tbl, s.root = some (head, tbl) ∧
    (head = elem ∨ tbl.tail = elem ∨ (∃ j, (tbl.buckets j).hhHead = some elem) ∨
      ∃ item, Contains s item ∧
        (s.handles.next item = some elem ∨ s.handles.prev item = some elem ∨
          s.handles.hhNext item = some elem ∨ s.handles.hhPrev item = some elem))

/-- The pointers of a sound table lead to its items. -/
theorem contains_of_mentions (valid : s.Holds hashFunction order) (mentions : Mentions s elem) :
    Contains s elem := by
  obtain ⟨head, tbl, root, pointer⟩ := mentions
  rw [contains_iff valid]
  have items : ∀ item, Contains s item → item ∈ order := fun item there => (contains_iff valid).mp there
  obtain ⟨chains, valid⟩ := valid.integrity root
  rcases pointer with first | last | ⟨j, front⟩ | ⟨item, there, link⟩
  · have start := valid.listed.forward.head
    rw [first] at start
    exact List.mem_of_head? start.symm
  · exact last ▸ List.mem_of_getLast? valid.final
  · have start := (valid.chained.linked j).forward.head
    rw [front] at start
    exact valid.mem_order (List.mem_of_head? start.symm)
  · have member := items item there
    have chained := (valid.members item).mpr member
    have linked := valid.chained.linked (s.handles.bktOf tbl.numBuckets item)
    rcases link with next | prev | hhNext | hhPrev
    · exact valid.listed.forward.next_mem member next
    · exact valid.listed.prev_mem member prev
    · exact valid.mem_order (linked.forward.next_mem chained hhNext)
    · exact valid.mem_order (linked.prev_mem chained hhPrev)

end Pointers

/-- The blocks that a call obtained, and those it gave back. -/
def HashCall.obtained : HashCall → List Block
  | .add _ _ _ _ obtained _ => obtained
  | _ => []

def HashCall.freed : HashCall → List Block
  | .add _ _ _ _ _ freed => freed
  | .clear freed => freed
  | _ => []

section Instances

/-- Memory before any handle is written. -/
def HashHandles.blank : HashHandles :=
  { prev := fun _ => none, next := fun _ => none, hhPrev := fun _ => none, hhNext := fun _ => none,
    key := fun _ => [], keylen := fun _ => 0, hashv := fun _ => 0 }

/-- Memory with room for a new table and nothing more. -/
def roomForTable : UthashMalloc := fun size =>
  if size = 64 then some 100 else if size = 512 then some 200 else none

theorem roomForTable_limited : Limited roomForTable := by
  intro size large
  have first : size ≠ 64 := by
    rintro rfl
    exact absurd large (by decide)
  have second : size ≠ 512 := by
    rintro rfl
    exact absurd large (by decide)
  exact (if_neg first).trans (if_neg second)

/-- Memory of 64 GiB, where blocks of one size lie at one place. -/
def ampleMemory : UthashMalloc := fun size => if size.toNat < 2 ^ 36 then some size.toNat else none

theorem ampleMemory_limited : Limited ampleMemory := fun _ large => if_neg (Nat.not_lt.mpr large)

/-- A string fits the address space, and the memory is limited. -/
def HashRequest.Modest : HashRequest → Prop
  | .find key => key.length < 2 ^ 64
  | .add _ _ malloc => Limited malloc
  | .clear => True

/-- The element to be added is the next one after those on the list. -/
def HashRequest.Next (s : HashState) : HashRequest → Prop
  | .add _ elem _ => Chain s.handles.next (s.root.map Prod.fst) (List.range elem)
  | _ => True

instance (s : HashState) : DecidablePred (HashRequest.Next s)
  | .add _ _ _ => inferInstanceAs (Decidable (Chain _ _ _))
  | .find _ => .isTrue trivial
  | .clear => .isTrue trivial

theorem owed_of_next {request : HashRequest} (modest : request.Modest) (next : request.Next s) :
    Owed s request := by
  cases request with
  | find key => exact modest
  | add key elem malloc =>
    refine ⟨?_, modest⟩
    rintro ⟨head, tbl, root, reached⟩
    have chain : Chain s.handles.next (s.root.map Prod.fst) (List.range elem) := next
    rw [root] at chain
    exact absurd (chain.reaches_iff.mp reached) List.not_mem_range_self
  | clear => trivial

theorem hashRespond_request {fuel : Nat} {request : HashRequest}
    (returned : hashRespond hashFunction fuel s request = some (call, after)) :
    call.request = request := by
  cases request with
  | find key =>
    obtain ⟨out, _, same⟩ := Option.bind_eq_some_iff.mp returned
    cases same
    rfl
  | add key elem malloc =>
    obtain ⟨added, _, same⟩ := Option.bind_eq_some_iff.mp returned
    cases same
    rfl
  | clear =>
    cases returned
    rfl

/-- One item, and no items; then nine, a tenth without memory for more buckets and with it, and a
look-up. -/
def crowdedRequests : List HashRequest :=
  [.add [0] 0 ampleMemory, .clear] ++
    (List.range 9).map (fun n => .add [UInt8.ofNat n] n ampleMemory) ++
    [.add [9] 9 fun _ => none, .add [9] 9 ampleMemory, .find [9]]

/-- Ten items in one bucket, which double the buckets. -/
def crowded : List (Transition HashState HashCall) × HashState :=
  replay (hashRespond (fun _ => 0) 12) ⟨HashHandles.blank, none⟩ crowdedRequests

theorem crowded_run : HashRun (fun _ => 0) HashHandles.blank crowded.1 crowded.2 := by
  refine ⟨replay_execution (fun _ request _ _ returned => ⟨12, request, returned⟩) _ _, ?_⟩
  have modest : ∀ request ∈ crowdedRequests, request.Modest := by
    intro request member
    simp only [crowdedRequests, List.mem_append, List.mem_cons, List.mem_map, List.not_mem_nil,
      or_false] at member
    rcases member with ((rfl | rfl) | ⟨n, _, rfl⟩) | rfl | rfl | rfl
    · exact ampleMemory_limited
    · exact trivial
    · exact ampleMemory_limited
    · exact fun _ _ => rfl
    · exact ampleMemory_limited
    · show [9].length < 2 ^ 64
      decide
  let good (call : HashCall) : Prop := call.request.Modest
  have each : ∀ entry ∈ crowded.1, good entry.label := by
    refine replay_labels (fun request member state call after returned => ?_) _
    show call.request.Modest
    rw [hashRespond_request returned]
    exact modest request member
  have next : ∀ entry ∈ crowded.1, entry.label.request.Next entry.pre := by decide +kernel
  exact fun entry member => owed_of_next (each entry member) (next entry member)

/-- The element that a call refused. -/
def HashCall.refused : HashCall → Option Ref
  | .add _ elem _ true _ _ => some elem
  | _ => none

end Instances

/-- A run of the table is, call for call, a run of the finite map, and ends in a sound table
with the entries of the map: whatever the hash function, wherever memory runs out. -/
theorem table_refines_map (run : HashRun hashFunction handles trace final) :
    ∃ views table, Execution MapStep UTHash.empty views table ∧ Refines hashFunction final table ∧
      Matched (Refines hashFunction) Eq trace views := run.refines_map

theorem table_refines_map_crowded :
    ∃ views table, Execution MapStep UTHash.empty views table ∧
      Refines (fun _ => 0) crowded.2 table ∧ Matched (Refines fun _ => 0) Eq crowded.1 views :=
  table_refines_map crowded_run

/-- After any run `HASH_FSCK` finds nothing wrong, and every request of a correct caller comes
back: no walk takes more rounds than there were requests. -/
theorem sound_and_responsive (run : HashRun hashFunction handles trace final) {fuel : Nat}
    (enough : trace.length + 1 < fuel) :
    hashFsck fuel final = some true ∧ ∀ request, Owed final request →
      ∃ call after, hashRespond hashFunction fuel final request = some (call, after) := by
  obtain ⟨table, refines, few⟩ := run.refines
  have room : (table.entries.map (·.2)).length + 1 < fuel := by
    rw [List.length_map]
    omega
  refine ⟨hashFsck_sound refines.sound (Nat.lt_of_succ_lt room), ?_⟩
  intro request owed
  cases request with
  | find key =>
    obtain ⟨out, found, _⟩ := hashFind_spec refines.sound (Nat.lt_of_succ_lt room) key (strlen key)
    exact ⟨.find key out, final, by simp [hashRespond, found]⟩
  | add key elem malloc =>
    obtain ⟨fresh, limited⟩ := owed
    have absent : elem ∉ table.entries.map (·.2) := fun member =>
      fresh ((contains_iff refines.sound).mpr member)
    obtain ⟨added, finished, _⟩ :=
      hashAddKeyptr_spec refines.sound absent room limited key (strlen key)
    refine ⟨.add key elem malloc added.oomed added.obtained added.freed,
      ⟨added.handles, added.value⟩, ?_⟩
    simp [hashRespond, finished]
  | clear => exact ⟨_, _, rfl⟩

theorem sound_and_responsive_crowded :
    hashFsck 16 crowded.2 = some true ∧ ∀ request, Owed crowded.2 request →
      ∃ call after, hashRespond (fun _ => 0) 16 crowded.2 request = some (call, after) :=
  sound_and_responsive crowded_run (by decide +kernel)

/-- An insertion that runs out of memory changes no pointer, count or key of the table, and no
handle but its element's, which nothing in the table leads to. -/
theorem refused_leaves_table (run : HashRun hashFunction handles trace final) :
    ∀ entry ∈ trace, ∀ key elem malloc obtained freed,
      entry.label = .add key elem malloc true obtained freed →
      entry.post.root = entry.pre.root ∧
        (∀ h, h ≠ elem → SameAt entry.pre.handles entry.post.handles h) ∧
        ¬ Mentions entry.post elem := by
  intro entry member key elem malloc obtained freed label
  obtain ⟨_, before, _, ⟨fuel, request, returned⟩, owed⟩ := run.before member
  obtain ⟨table, refines, _⟩ := before.refines
  rw [label] at returned owed
  obtain ⟨fresh, limited⟩ := owed
  cases request with
  | find other =>
    obtain ⟨_, _, same⟩ := Option.bind_eq_some_iff.mp returned
    cases same
  | clear => cases returned
  | add other added_ malloc_ =>
    obtain ⟨added, finished, same⟩ := Option.bind_eq_some_iff.mp returned
    obtain ⟨same, post⟩ := Prod.mk.inj (Option.some.inj same)
    obtain ⟨rfl, rfl, rfl, oomed, _, _⟩ := HashCall.add.inj same
    rcases (refines.added fresh limited finished).2 with refused | accepted
    · rw [← post]
      refine ⟨refused.root, refused.elsewhere, ?_⟩
      intro mentions
      have sound := (refines.refused fresh refused).sound
      have there := (contains_iff sound).mp (contains_of_mentions sound mentions)
      exact fresh ((contains_iff refines.sound).mpr there)
    · exact absurd (accepted.stored.symm.trans oomed) nofun

/-- The tenth insertion into a table of nine items. -/
theorem refused_leaves_table_filled :
    ∃ entry ∈ crowded.1, hashCount entry.pre.root = 9 ∧ entry.post.root = entry.pre.root ∧
      (∀ h, h ≠ 9 → SameAt entry.pre.handles entry.post.handles h) ∧ ¬ Mentions entry.post 9 := by
  have there : ∃ entry ∈ crowded.1, entry.label.refused = some 9 ∧ hashCount entry.pre.root = 9 := by
    decide +kernel
  obtain ⟨entry, member, refused, counted⟩ := there
  refine ⟨entry, member, counted, ?_⟩
  cases same : entry.label with
  | find key out => cases same ▸ refused
  | clear freed => cases same ▸ refused
  | add key elem malloc oomed obtained freed =>
    rw [same] at refused
    cases oomed with
    | false => cases refused
    | true =>
      cases refused
      exact refused_leaves_table crowded_run entry member key 9 malloc obtained freed same

/-- What the table obtained from `uthash_malloc` and has not given back is, at the end of any
run, the one table and its one array of buckets, or nothing where the head is NULL. -/
theorem blocks_balance (run : HashRun hashFunction handles trace final) :
    (trace.flatMap fun entry => entry.label.obtained).Perm
      ((trace.flatMap fun entry => entry.label.freed) ++ hashBlocks final.root) := by
  have balanced := run.steps.conserved (fun s => hashBlocks s.root)
    (fun entry => entry.label.obtained) (fun entry => entry.label.freed) ?_
  · simpa [hashBlocks] using balanced
  · rintro state label next ⟨⟨fuel, request, returned⟩, ⟨table, refines⟩, _, owed⟩
    cases request with
    | find key =>
      obtain ⟨out, _, same⟩ := Option.bind_eq_some_iff.mp returned
      cases same
      exact .refl _
    | add key elem malloc =>
      obtain ⟨added, finished, same⟩ := Option.bind_eq_some_iff.mp returned
      cases same
      exact (refines.added owed.1 owed.2 finished).1
    | clear =>
      cases returned
      cases root : state.root with
      | none => exact .refl _
      | some rooted => exact .refl _

theorem blocks_balance_crowded :
    (crowded.1.flatMap fun entry => entry.label.obtained).Perm
      ((crowded.1.flatMap fun entry => entry.label.freed) ++ hashBlocks crowded.2.root) :=
  blocks_balance crowded_run

example : (crowded.1.flatMap fun entry => entry.label.freed) = [512, 64, 512] := by decide +kernel

/-- An insertion leaves the measures of the last expansion, or takes new ones. -/
theorem step_measured (taken : HashStep hashFunction s call after) (owed : Owed s call.request)
    (refines : Refines hashFunction s table) (few : table.entries.length + 1 < 2 ^ 32) {head head' : Ref}
    {tbl tbl' : HashTable} (before : s.root = some (head, tbl))
    (result : after.root = some (head', tbl')) : Kept tbl tbl' ∨ Doubled tbl tbl' := by
  have same (root : after.root = s.root) : Kept tbl tbl' := by
    rw [before, result] at root
    cases root
    exact ⟨rfl, rfl, rfl, rfl, rfl⟩
  obtain ⟨fuel, request, returned⟩ := taken
  cases request with
  | find key =>
    obtain ⟨out, _, answer⟩ := Option.bind_eq_some_iff.mp returned
    cases answer
    exact .inl (same rfl)
  | add key elem malloc =>
    obtain ⟨added, finished, answer⟩ := Option.bind_eq_some_iff.mp returned
    cases answer
    rcases (refines.added owed.1 owed.2 finished).2 with refused | accepted
    · exact .inl (same refused.root)
    · exact accepted.grown (by simpa using few) head tbl head' tbl' before result
  | clear =>
    cases returned
    rw [before] at result
    cases result

/-- In a run of fewer than 2^32 requests every expansion doubles the buckets and takes the measures
that its comments describe, and expansions are given up exactly after two ineffective ones. -/
theorem expansions_measured (run : HashRun hashFunction handles trace final)
    (few : trace.length < 2 ^ 32) :
    (∀ entry ∈ trace, ∀ head tbl head' tbl', entry.pre.root = some (head, tbl) →
      entry.post.root = some (head', tbl') → Kept tbl tbl' ∨ Doubled tbl tbl') ∧
    ∀ head tbl, final.root = some (head, tbl) →
      (tbl.noexpand = true ↔ 1 < tbl.ineffExpands.toNat) := by
  have each : ∀ entry ∈ trace, ∀ head tbl head' tbl', entry.pre.root = some (head, tbl) →
      entry.post.root = some (head', tbl') → Kept tbl tbl' ∨ Doubled tbl tbl' := by
    intro entry member head tbl head' tbl' before after
    obtain ⟨earlier, run, shorter, taken, owed⟩ := run.before member
    obtain ⟨table, refines, bound⟩ := run.refines
    exact step_measured taken owed refines (by omega) before after
  let inhibited (s : HashState) : Prop :=
    ∀ head tbl, s.root = some (head, tbl) → tbl.noexpand = decide (1 < tbl.ineffExpands.toNat)
  have settled : inhibited final := by
    let allowed (entry : Transition HashState HashCall) : Prop :=
      (∀ head tbl head' tbl', entry.pre.root = some (head, tbl) →
        entry.post.root = some (head', tbl') → Kept tbl tbl' ∨ Doubled tbl tbl')
    refine run.steps.invariant_within inhibited allowed nofun ?_ each
    rintro state label next earlier ⟨⟨fuel, request, returned⟩, ⟨table, refines⟩, _, owed⟩ grown
      head' tbl' after
    cases root : state.root with
    | some rooted =>
      obtain ⟨head, tbl⟩ := rooted
      rcases grown head tbl head' tbl' root after with kept | doubled
      · rw [kept.noexpand, kept.ineffExpands]
        exact earlier head tbl root
      · exact doubled.noexpand
    | none =>
      cases request with
      | find key =>
        obtain ⟨out, _, answer⟩ := Option.bind_eq_some_iff.mp returned
        cases answer
        cases root.symm.trans after
      | add key elem malloc =>
        obtain ⟨added, finished, answer⟩ := Option.bind_eq_some_iff.mp returned
        cases answer
        rcases (refines.added owed.1 owed.2 finished).2 with refused | accepted
        · cases (refused.root.trans root).symm.trans after
        · exact accepted.begun root head' tbl' after
      | clear =>
        cases returned
        rw [root] at after
        cases after
  refine ⟨each, fun head tbl root => ?_⟩
  rw [settled head tbl root]
  exact decide_eq_true_iff

/-- Nine of ten items lie past the ideal length of a chain, so that the expansion does not help. -/
theorem expansions_measured_crowded :
    (∃ entry ∈ crowded.1, ∃ head tbl head' tbl', entry.pre.root = some (head, tbl) ∧
      entry.post.root = some (head', tbl') ∧ tbl'.nonidealItems = 9 ∧ Doubled tbl tbl') ∧
    ∃ head tbl, crowded.2.root = some (head, tbl) ∧ tbl.numBuckets = 64 ∧ tbl.ineffExpands = 1 ∧
      (tbl.noexpand = true ↔ 1 < tbl.ineffExpands.toNat) := by
  obtain ⟨each, inhibited⟩ := expansions_measured crowded_run (by decide +kernel)
  refine ⟨?_, ?_⟩
  · have there : ∃ entry ∈ crowded.1,
        (entry.pre.root.map fun rooted => rooted.2.numBuckets) = some 32 ∧
        (entry.post.root.map fun rooted => (rooted.2.numBuckets, rooted.2.nonidealItems)) =
          some (64, 9) := by decide +kernel
    obtain ⟨entry, member, before, after⟩ := there
    obtain ⟨⟨head, tbl⟩, root, few⟩ := Option.map_eq_some_iff.mp before
    obtain ⟨⟨head', tbl'⟩, root', many⟩ := Option.map_eq_some_iff.mp after
    obtain ⟨more, past⟩ := Prod.mk.inj many
    refine ⟨entry, member, head, tbl, head', tbl', root, root', past, ?_⟩
    rcases each entry member head tbl head' tbl' root root' with kept | doubled
    · rw [kept.numBuckets, few] at more
      exact absurd more (by decide)
    · exact doubled
  · have there : (crowded.2.root.map fun rooted => (rooted.2.numBuckets, rooted.2.ineffExpands)) =
        some (64, 1) := by decide +kernel
    obtain ⟨⟨head, tbl⟩, root, same⟩ := Option.map_eq_some_iff.mp there
    obtain ⟨buckets, once⟩ := Prod.mk.inj same
    exact ⟨head, tbl, root, buckets, once, inhibited head tbl root⟩

end Mam.Vendor
