import Mam.CopyEngine.Lengths
import Mathlib.Data.List.Count
import Mathlib.Data.List.Perm.Basic

/-! `mam_context_destroy`, and the blocks that it frees. -/

namespace Mam.CopyEngine

open Mam.Library Mam.Vendor

section Model

/-- The store without the object at an address. -/
def Store.drop (s : Store UTArray) (h : Handle) : Store UTArray :=
  { contexts := Function.update s.contexts h none
    constructs := Function.update s.constructs h none
    arrays := Function.update s.arrays h none
    pointers := Function.update s.pointers h none
    vars := Function.update s.vars h none }

/-- `free`: what was at the address is gone. -/
def Machine.free (m : Machine) (block : Handle) : Machine :=
  { heap := m.heap.free block, store := m.store.drop block }

def Machine.freeAll (m : Machine) (blocks : List Handle) : Machine := blocks.foldl Machine.free m

/-- `_mam_pointer_destroy`. -/
def pointerDestroy (m : Machine) (pointer : Handle) : Except Fault Machine := .ok (m.free pointer)

/-- `_mam_array_destroy`. -/
def arrayDestroy (m : Machine) (array : Handle) : Except Fault Machine :=
  match m.store.arrays array with
  | none => .error .danglingPointer
  | some record => .ok ((m.freeAll (record.dimensions.visited.map (·.self))).free array)

/-- `_mam_construct_destroy`. -/
def constructDestroy (m : Machine) (construct : Handle) : Except Fault Machine :=
  match m.store.constructs construct with
  | none => .error .danglingPointer
  | some record => .ok ((m.freeAll (record.fields.visited.map (·.self))).free construct)

/-- `_mam_variable_destroy`. -/
def variableDestroy (m : Machine) (var : Handle) : Except Fault Machine := .ok (m.free var)

/-- A loop of `mam_context_destroy`, over one of the lists of the context. -/
def destroyEach (destroy : Machine → Handle → Except Fault Machine) (m : Machine)
    (list : UTArray Handle) : Except Fault Machine := list.visited.foldlM destroy m

/-- `mam_context_destroy`. The name tables and the lists free what they allocated. -/
def contextDestroy (m : Machine) (context : Option Handle) : Except Fault Return :=
  guarded m (checkPtr context) fun owner =>
    match m.store.contexts owner with
    | none => .error .danglingPointer
    | some record => do
      let m ← destroyEach pointerDestroy m record.pointers
      let m ← destroyEach arrayDestroy m record.arrays
      let m ← destroyEach constructDestroy m record.constructs
      let m ← destroyEach variableDestroy m record.vars
      return { code := .success, machine := m.free owner, value := none }

end Model

section Freeing

variable {m : Machine}

theorem freeAll_append (m : Machine) (first second : List Handle) :
    m.freeAll (first ++ second) = (m.freeAll first).freeAll second := List.foldl_append

theorem free_eq_freeAll (m : Machine) (block : Handle) : m.free block = m.freeAll [block] := rfl

@[simp] theorem freeAll_next (m : Machine) (blocks : List Handle) :
    (m.freeAll blocks).heap.next = m.heap.next := by
  induction blocks generalizing m with
  | nil => rfl
  | cons block rest ih => exact ih (m.free block)

theorem freeAll_released (m : Machine) (blocks : List Handle) :
    (m.freeAll blocks).heap.released = m.heap.released ++ blocks := by
  induction blocks generalizing m with
  | nil => exact (List.append_nil _).symm
  | cons block rest ih =>
    refine (ih (m.free block)).trans ?_
    exact List.append_assoc _ _ _

theorem freeAll_outstanding (m : Machine) (blocks : List Handle) :
    (m.freeAll blocks).heap.outstanding = m.heap.outstanding.diff blocks := by
  induction blocks generalizing m with
  | nil => rfl
  | cons block rest ih =>
    refine (ih (m.free block)).trans ?_
    rw [List.diff_cons]
    rfl

/-- What is freed is gone, and the other objects stay. -/
theorem freeAll_store (m : Machine) {blocks : List Handle} {h : Handle} (other : h ∉ blocks) :
    (m.freeAll blocks).store.contexts h = m.store.contexts h ∧
      (m.freeAll blocks).store.constructs h = m.store.constructs h ∧
      (m.freeAll blocks).store.arrays h = m.store.arrays h := by
  induction blocks generalizing m with
  | nil => exact ⟨rfl, rfl, rfl⟩
  | cons block rest ih =>
    obtain ⟨apart, later⟩ := List.ne_and_not_mem_of_not_mem_cons other
    obtain ⟨contexts, constructs, arrays⟩ := ih (m.free block) later
    exact ⟨contexts.trans (Function.update_of_ne apart _ _),
      constructs.trans (Function.update_of_ne apart _ _),
      arrays.trans (Function.update_of_ne apart _ _)⟩

/-- Freeing what is outstanding leaves the rest outstanding. -/
theorem freeAll_perm {blocks rest : List Handle} (held : m.heap.outstanding.Perm (blocks ++ rest)) :
    (m.freeAll blocks).heap.outstanding.Perm rest := by
  rw [freeAll_outstanding]
  refine (held.diff_right blocks).trans ?_
  rw [List.perm_iff_count]
  intro block
  rw [List.count_diff, List.count_append]
  exact Nat.add_sub_cancel_left _ _

end Freeing

section Loops

variable {m : Machine} {destroy : Machine → Handle → Except Fault Machine} {own : Handle → List Handle}

/-- A loop of destructions that free blocks frees blocks. -/
theorem foldlM_frees
    (each : ∀ m h next, destroy m h = .ok next → ∃ blocks, next = m.freeAll blocks)
    {hs : List Handle} {next : Machine} (done : hs.foldlM destroy m = .ok next) :
    ∃ blocks, next = m.freeAll blocks := by
  induction hs generalizing m with
  | nil =>
    cases done
    exact ⟨[], rfl⟩
  | cons h rest ih =>
    cases first : destroy m h with
    | error fault => simp [List.foldlM_cons, first, bind, Except.bind] at done
    | ok middle =>
      simp only [List.foldlM_cons, first, bind, Except.bind] at done
      obtain ⟨earlier, rfl⟩ := each m h middle first
      obtain ⟨later, rfl⟩ := ih done
      exact ⟨earlier ++ later, (freeAll_append m earlier later).symm⟩

/-- A loop over objects that are all there, and hold different blocks, frees each object
after the blocks it holds. -/
theorem foldlM_freeAll {Intact : Machine → Handle → Prop}
    (destroys : ∀ m h, Intact m h → destroy m h = .ok (m.freeAll (own h ++ [h])))
    (survives : ∀ m h blocks, Intact m h → h ∉ blocks → Intact (m.freeAll blocks) h)
    {hs : List Handle} (intact : ∀ h ∈ hs, Intact m h)
    (apart : (hs.flatMap fun h => own h ++ [h]).Nodup) :
    hs.foldlM destroy m = .ok (m.freeAll (hs.flatMap fun h => own h ++ [h])) := by
  induction hs generalizing m with
  | nil => rfl
  | cons h rest ih =>
    rw [List.flatMap_cons] at apart ⊢
    obtain ⟨_, later, disjoint⟩ := List.nodup_append.mp apart
    rw [List.foldlM_cons, destroys m h (intact h List.mem_cons_self),
      freeAll_append m (own h ++ [h])]
    refine ih (fun other member => ?_) later
    refine survives m other _ (intact other (List.mem_cons_of_mem h member)) fun freed => ?_
    exact disjoint other freed other
      (List.mem_flatMap.mpr ⟨other, member, List.mem_append_right _ List.mem_cons_self⟩) rfl

/-- Such a loop after others have freed what it does not need. -/
theorem destroyEach_freeAll {Intact : Machine → Handle → Prop}
    (destroys : ∀ m h, Intact m h → destroy m h = .ok (m.freeAll (own h ++ [h])))
    (survives : ∀ m h blocks, Intact m h → h ∉ blocks → Intact (m.freeAll blocks) h)
    {list : UTArray Handle} (counted : list.Counted) (intact : ∀ h ∈ list.elems, Intact m h)
    {earlier : List Handle}
    (apart : (earlier ++ list.elems.flatMap fun h => own h ++ [h]).Nodup) :
    destroyEach destroy (m.freeAll earlier) list =
      .ok (m.freeAll (earlier ++ list.elems.flatMap fun h => own h ++ [h])) := by
  obtain ⟨_, later, elsewhere⟩ := List.nodup_append.mp apart
  rw [destroyEach, counted.visited_eq, freeAll_append]
  refine foldlM_freeAll destroys survives (fun h member => ?_) later
  refine survives m h earlier (intact h member) fun freed => ?_
  exact elsewhere h freed h
    (List.mem_flatMap.mpr ⟨h, member, List.mem_append_right _ List.mem_cons_self⟩) rfl

/-- A loop over objects that hold no blocks frees the objects. -/
theorem foldlM_free (frees : ∀ m h, destroy m h = .ok (m.freeAll [h])) (m : Machine)
    (hs : List Handle) : hs.foldlM destroy m = .ok (m.freeAll hs) := by
  induction hs generalizing m with
  | nil => rfl
  | cons h rest ih =>
    rw [List.foldlM_cons, frees]
    exact ih (m.freeAll [h])

end Loops

section Context

/-- The dimensions of an array, as blocks. -/
def Store.dimensionBlocks (s : Store List) (h : Handle) : List Handle :=
  match s.arrays h with
  | none => []
  | some a => a.dimensions.map (·.self)

/-- The fields of a construct, as blocks. -/
def Store.fieldBlocks (s : Store List) (h : Handle) : List Handle :=
  match s.constructs h with
  | none => []
  | some c => c.fields.map (·.self)

/-- What `mam_context_destroy` frees, in its order. -/
def Store.frees (s : Store List) (k : Handle) (c : Context List) : List Handle :=
  c.pointers ++ c.arrays.flatMap (fun h => s.dimensionBlocks h ++ [h]) ++
    c.constructs.flatMap (fun h => s.fieldBlocks h ++ [h]) ++ c.vars ++ [k]

variable {m : Machine}

/-- The array is there, and holds the blocks. -/
private def ArrayHolds (own : Handle → List Handle) (m : Machine) (h : Handle) : Prop :=
  ∃ a, m.store.arrays h = some a ∧ a.dimensions.visited.map (·.self) = own h

/-- The construct is there, and holds the blocks. -/
private def ConstructHolds (own : Handle → List Handle) (m : Machine) (h : Handle) : Prop :=
  ∃ c, m.store.constructs h = some c ∧ c.fields.visited.map (·.self) = own h

private theorem arrayHolds_survives {own : Handle → List Handle} (m : Machine) (h : Handle)
    (blocks : List Handle) (holds : ArrayHolds own m h) (other : h ∉ blocks) :
    ArrayHolds own (m.freeAll blocks) h := by
  obtain ⟨a, present, same⟩ := holds
  exact ⟨a, (freeAll_store m other).2.2.trans present, same⟩

private theorem constructHolds_survives {own : Handle → List Handle} (m : Machine) (h : Handle)
    (blocks : List Handle) (holds : ConstructHolds own m h) (other : h ∉ blocks) :
    ConstructHolds own (m.freeAll blocks) h := by
  obtain ⟨c, present, same⟩ := holds
  exact ⟨c, (freeAll_store m other).2.1.trans present, same⟩

private theorem arrayDestroy_eq {own : Handle → List Handle} (m : Machine) (h : Handle)
    (holds : ArrayHolds own m h) : arrayDestroy m h = .ok (m.freeAll (own h ++ [h])) := by
  obtain ⟨a, present, same⟩ := holds
  rw [arrayDestroy, present, freeAll_append, ← same]
  rfl

private theorem constructDestroy_eq {own : Handle → List Handle} (m : Machine) (h : Handle)
    (holds : ConstructHolds own m h) : constructDestroy m h = .ok (m.freeAll (own h ++ [h])) := by
  obtain ⟨c, present, same⟩ := holds
  rw [constructDestroy, present, freeAll_append, ← same]
  rfl

private theorem arrayHolds_of_counted (counted : m.store.Counted) {h : Handle}
    (present : ∃ a, m.store.arrays h = some a) : ArrayHolds m.store.view.dimensionBlocks m h := by
  obtain ⟨a, there⟩ := present
  refine ⟨a, there, ?_⟩
  rw [(counted.arrays h a there).visited_eq, Store.dimensionBlocks, view_arrays, there]
  rfl

private theorem constructHolds_of_counted (counted : m.store.Counted) {h : Handle}
    (present : ∃ c, m.store.constructs h = some c) :
    ConstructHolds m.store.view.fieldBlocks m h := by
  obtain ⟨c, there⟩ := present
  refine ⟨c, there, ?_⟩
  rw [(counted.constructs h c there).visited_eq, Store.fieldBlocks, view_constructs, there]
  rfl

private theorem bind_ok {α β : Type} {x : Except Fault α} {f : α → Except Fault β} {b : β}
    (returned : x >>= f = .ok b) : ∃ a, x = .ok a ∧ f a = .ok b := by
  cases x with
  | error fault => cases returned
  | ok a => exact ⟨a, rfl, returned⟩

/-- `mam_context_destroy` frees blocks, and changes nothing else. -/
theorem contextDestroy_frees {context : Option Handle} {r : Return}
    (returned : contextDestroy m context = .ok r) : ∃ blocks, r.machine = m.freeAll blocks := by
  rcases guarded_cases returned with ⟨error, refused, rfl⟩ | ⟨owner, passed, done⟩
  · exact ⟨[], rfl⟩
  · split at done
    · cases done
    · rename_i record present
      obtain ⟨m₁, pointers, done⟩ := bind_ok done
      obtain ⟨m₂, arrays, done⟩ := bind_ok done
      obtain ⟨m₃, constructs, done⟩ := bind_ok done
      obtain ⟨m₄, vars, done⟩ := bind_ok done
      cases done
      obtain ⟨first, rfl⟩ := foldlM_frees (fun m h next freed => by
        cases freed
        exact ⟨[h], rfl⟩) pointers
      obtain ⟨second, rfl⟩ := foldlM_frees (fun m h next freed => by
        unfold arrayDestroy at freed
        split at freed <;> cases freed
        exact ⟨_, by rw [free_eq_freeAll, ← freeAll_append]⟩) arrays
      obtain ⟨third, rfl⟩ := foldlM_frees (fun m h next freed => by
        unfold constructDestroy at freed
        split at freed <;> cases freed
        exact ⟨_, by rw [free_eq_freeAll, ← freeAll_append]⟩) constructs
      obtain ⟨fourth, rfl⟩ := foldlM_frees (fun m h next freed => by
        cases freed
        exact ⟨[h], rfl⟩) vars
      refine ⟨first ++ second ++ third ++ fourth ++ [owner], ?_⟩
      simp only [freeAll_append, free_eq_freeAll]

/-- Where the lists tell their lengths, what they hold is there and no block is held twice,
`mam_context_destroy` frees everything that the context holds, and the context. -/
theorem contextDestroy_eq {k : Handle} {record : Context UTArray}
    (present : m.store.contexts k = some record) (counted : m.store.Counted)
    (arrays : ∀ h ∈ record.view.arrays, ∃ a, m.store.arrays h = some a)
    (constructs : ∀ h ∈ record.view.constructs, ∃ c, m.store.constructs h = some c)
    (apart : (m.store.view.frees k record.view).Nodup) :
    contextDestroy m (some k) = .ok
      { code := .success, machine := m.freeAll (m.store.view.frees k record.view), value := none } := by
  have each := counted.contexts k record present
  unfold Store.frees at apart ⊢
  obtain ⟨apart, _, _⟩ := List.nodup_append.mp apart
  obtain ⟨apart, _, _⟩ := List.nodup_append.mp apart
  have first : destroyEach pointerDestroy m record.pointers =
      .ok (m.freeAll record.view.pointers) := by
    rw [destroyEach, each.pointers.visited_eq]
    exact foldlM_free (fun _ _ => rfl) m _
  have second : destroyEach arrayDestroy (m.freeAll record.view.pointers) record.arrays = .ok
      (m.freeAll (record.view.pointers ++
        record.view.arrays.flatMap fun h => m.store.view.dimensionBlocks h ++ [h])) :=
    destroyEach_freeAll arrayDestroy_eq arrayHolds_survives each.arrays
      (fun h member => arrayHolds_of_counted counted (arrays h member))
      (List.nodup_append.mp apart).1
  have third : destroyEach constructDestroy (m.freeAll (record.view.pointers ++
        record.view.arrays.flatMap fun h => m.store.view.dimensionBlocks h ++ [h]))
      record.constructs = .ok
      (m.freeAll (record.view.pointers ++
        (record.view.arrays.flatMap fun h => m.store.view.dimensionBlocks h ++ [h]) ++
        record.view.constructs.flatMap fun h => m.store.view.fieldBlocks h ++ [h])) :=
    destroyEach_freeAll constructDestroy_eq constructHolds_survives each.constructs
      (fun h member => constructHolds_of_counted counted (constructs h member)) apart
  have fourth (m : Machine) : destroyEach variableDestroy m record.vars =
      .ok (m.freeAll record.view.vars) := by
    rw [destroyEach, each.vars.visited_eq]
    exact foldlM_free (fun _ _ => rfl) m _
  have loops : contextDestroy m (some k) = (do
      let m ← destroyEach pointerDestroy m record.pointers
      let m ← destroyEach arrayDestroy m record.arrays
      let m ← destroyEach constructDestroy m record.constructs
      let m ← destroyEach variableDestroy m record.vars
      return { code := .success, machine := m.free k, value := none }) := by
    simp only [contextDestroy, guarded, checkPtr, present]
  rw [loops, first]
  simp only [bind, Except.bind]
  rw [second]
  simp only [third, fourth]
  simp only [free_eq_freeAll, freeAll_append]
  rfl

end Context

end Mam.CopyEngine
