import Mam.CopyEngine.HashedCalls
import Mam.CopyEngine.Lookup
import Mam.Vendor.HashRefinement

/-! Programs over the copy engine with name tables, against programs over finite maps. -/

namespace Mam.CopyEngine

open Mam.Library Mam.Vendor

/-- One call that returned. -/
structure HashedEvent where
  op : Op
  memory : HashMemory
  result : HashedReturn

/-- What a program does: it makes a call, or it destroys a context. -/
inductive HashedAct where
  | call (event : HashedEvent)
  | destroy (context : Option Handle) (result : HashedReturn)

/-- What came of it. -/
def HashedAct.result : HashedAct → HashedReturn
  | .call event => event.result
  | .destroy _ result => result

def HashedAct.Step (hashFunction : CString → BitVec 32) (s : Hashed) (act : HashedAct)
    (next : Hashed) : Prop :=
  match act with
  | .call event =>
    (∃ fuel, Hashed.exec hashFunction fuel s event.memory event.op = .ok event.result) ∧
      next = event.result.state
  | .destroy context result => Hashed.contextDestroy s context = .ok result ∧ next = result.state

/-- No context yet, and every head NULL. -/
def Hashed.initial (handles : HashHandles) : Hashed :=
  { machine := Machine.initial, tables := { handles := handles, root := fun _ => none } }

/-- A name that is added is below 4 GiB, and `uthash` gets less than 64 GiB. -/
def HashedAct.Fair : HashedAct → Prop
  | .call event => event.op.Short ∧ Limited event.memory.uthash
  | .destroy _ _ => True

/-- A program, from before its first context. -/
structure HashedLife (hashFunction : CString → BitVec 32) (handles : HashHandles)
    (trace : List (Transition Hashed HashedAct)) (final : Hashed) : Prop where
  execution : Execution (HashedAct.Step hashFunction) (Hashed.initial handles) trace final
  fair : ∀ entry ∈ trace, entry.label.Fair

/-- The machine with maps in place of the tables. -/
structure Represents (hashFunction : CString → BitVec 32) (s : Hashed) (m : Machine) : Prop where
  maps : ∃ T, Stands hashFunction s.tables s.machine.heap.next T ∧ s.machine.withMaps T = m
  standing : Standing m

/-- The same act: the arguments, the code and what was stored are the same. -/
inductive SameAct : HashedAct → Act → Prop where
  | call {event : HashedEvent} {insert : Bool} {r : Return} (code : r.code = event.result.code)
      (value : r.value = event.result.value) :
      SameAct (.call event) (.call ⟨event.op, event.memory.inserting insert, r⟩)
  | destroy {context : Option Handle} {result : HashedReturn} {r : Return}
      (code : r.code = result.code) (value : r.value = result.value) :
      SameAct (.destroy context result) (.destroy context r)

section Simulation

variable {hashFunction : CString → BitVec 32} {handles : HashHandles} {s next final : Hashed}
variable {trace : List (Transition Hashed HashedAct)} {m : Machine} {act : HashedAct}

theorem initial_represents (hashFunction : CString → BitVec 32) (handles : HashHandles) :
    Represents hashFunction (Hashed.initial handles) Machine.initial := by
  refine ⟨⟨fun _ => UTHash.empty, ⟨?_, ?_, ?_, ?_, ?_⟩, rfl⟩, initial_bounded, ⟨nofun, nofun⟩,
    initial_counted⟩
  · exact fun _ => Refines.empty hashFunction handles
  · exact fun _ _ _ entry member => absurd member List.not_mem_nil
  · exact fun _ entry member => absurd member List.not_mem_nil
  · exact fun _ entry member => absurd member List.not_mem_nil
  · exact fun _ _ => rfl

/-- What a call returned is what the call with maps returns. -/
theorem Agrees.of_ok {r : HashedReturn} {out : Except Fault Return}
    (agrees : Agrees hashFunction (.ok r) out) : ∃ T,
      Stands hashFunction r.state.tables r.state.machine.heap.next T ∧
      out = .ok { code := r.code, machine := r.state.machine.withMaps T, value := r.value } := by
  cases agrees with
  | returned stands => exact ⟨_, stands, rfl⟩

/-- Every act with tables is matched by the act with maps. -/
theorem Represents.step (represents : Represents hashFunction s m)
    (taken : act.Step hashFunction s next) (fair : act.Fair) :
    ∃ view after, Act.Step m view after ∧ SameAct act view ∧ Represents hashFunction next after := by
  obtain ⟨⟨T, stands, rfl⟩, standing⟩ := represents
  cases act with
  | call event =>
    obtain ⟨⟨fuel, returned⟩, rfl⟩ := taken
    obtain ⟨short, limited⟩ := fair
    rcases exec_settles fuel stands standing.bounded limited short with ⟨stuck, _⟩ | ⟨insert, agrees⟩
    · cases returned.symm.trans stuck
    · obtain ⟨T', after, same⟩ := (returned ▸ agrees).of_ok
      have step : Act.Step (s.machine.withMaps T)
          (.call ⟨event.op, event.memory.inserting insert, _⟩) _ := ⟨same, rfl⟩
      exact ⟨_, _, step, .call rfl rfl, ⟨T', after, rfl⟩, Act.standing standing step⟩
  | destroy context result =>
    obtain ⟨returned, rfl⟩ := taken
    obtain ⟨T', after, same⟩ := (returned ▸ contextDestroy_agrees stands context).of_ok
    have step : Act.Step (s.machine.withMaps T) (.destroy context _) _ := ⟨same, rfl⟩
    exact ⟨_, _, step, .destroy rfl rfl, ⟨T', after, rfl⟩, Act.standing standing step⟩

theorem HashedLife.represents (life : HashedLife hashFunction handles trace final) :
    ∃ views m, Life views m ∧ Represents hashFunction final m ∧
      Matched (Represents hashFunction) SameAct trace views :=
  life.execution.simulated (initial_represents hashFunction handles)
    (fun _ _ _ _ represents taken fair => represents.step taken fair) life.fair

/-- A table has no more items than there were objects. -/
theorem Stands.length_le {t : NameTables} {count : Handle} {T : Maps}
    (stands : Stands hashFunction t count T) (d : Directory) : (T d).entries.length ≤ count := by
  have distinct : ((T d).entries.map (·.2)).Nodup := by
    have sound := (stands.refines d).sound
    cases root : (t.table d).root with
    | none =>
      rw [sound.empty root]
      exact List.nodup_nil
    | some rooted =>
      obtain ⟨chains, valid⟩ := sound.integrity root
      exact valid.listed.nodup
  have inside : (T d).entries.map (·.2) ⊆ List.range count := by
    intro h member
    obtain ⟨entry, there, rfl⟩ := List.mem_map.mp member
    exact List.mem_range.mpr (stands.older d entry there)
  have bound := distinct.length_le_of_subset inside
  rwa [List.length_map, List.length_range] at bound

end Simulation

section Views

variable {hashFunction : CString → BitVec 32} {fuel : Nat} {m : Machine} {t : NameTables} {T : Maps}
variable {d : Directory} {name : CString}

/-- An element by name, through the tables. -/
def Hashed.getNamed (hashFunction : CString → BitVec 32) (fuel : Nat) (s : Hashed) (d : Directory)
    (name : CString) : Except Stop Told :=
  match d with
  | .constructs k =>
    (contextGetConstructByName hashFunction fuel s (some k) (some name) true).map .object
  | .vars k => (contextGetVariableByName hashFunction fuel s (some k) (some name) true).map .object
  | .fields h =>
    (constructGetFieldByName hashFunction fuel s (some h) (some name) true true true).map (.field name)

/-- By index the getters show the elements in order, and through the tables, by name, each one
that has a name, which no other has. -/
structure HashedShows (hashFunction : CString → BitVec 32) (fuel : Nat) (s : Hashed) (d : Directory)
    (elems : List (CString × Told)) : Prop where
  counted : ∃ n, getNumber s.machine.store d = .ok n ∧ n.toNat = elems.length
  indexed : ∀ i, getAt s.machine.store d i =
    match elems[i.toNat]? with
    | none => .error (.code .einval)
    | some elem => .ok elem.2
  named : ∀ elem ∈ elems, getName s.machine.store d elem.2 = .ok elem.1
  distinct : NamesDistinct [] elems
  found : ∀ name ≠ [], name.length < 2 ^ 64 → ∀ told,
    s.getNamed hashFunction fuel d name = .ok told ↔ ∃ i, OnlyAt elems i name told
  missing : ∀ name ≠ [], name.length < 2 ^ 64 → (∀ i told, ¬ OnlyAt elems i name told) →
    s.getNamed hashFunction fuel d name = .error (.code .einval)
  unnamed : s.getNamed hashFunction fuel d [] = .error (.code .einval)

/-- A name that is not empty has the object of its map, where no two objects have it. -/
theorem Stands.found {next : Handle} (stands : Stands hashFunction t next T)
    (distinct : NamesDistinct [] (T d).entries) (named : name ≠ []) (fits : name.length < 2 ^ 64)
    (enough : next + 1 < fuel) :
    Hashed.find hashFunction fuel ⟨m, t⟩ d name = .ok ((T d).find name) := by
  have few := stands.length_le d
  rcases stands.find m fuel d fits with ⟨_, out⟩ | ⟨out, answer, _⟩
  · exact absurd (Nat.le_trans out (Nat.succ_le_succ few)) (Nat.not_le.mpr enough)
  · unfold Hashed.find at answer ⊢
    cases result : hashFind hashFunction fuel (t.table d) name (strlen name) with
    | none =>
      simp only [result] at answer
      cases answer
    | some out =>
      obtain ⟨present, missing⟩ := stands.answered fits result
      cases out with
      | none => simp only [missing rfl]
      | some h =>
        obtain ⟨i, there⟩ := List.mem_iff_getElem?.mp (present h rfl)
        have only := (distinct.lookup_iff named).mpr ⟨i, distinct.onlyAt named there⟩
        simp only [UTHash.find, only]

/-! What is told by index does not depend on the maps. -/

theorem getNumber_withMaps (s : Store UTArray) (T : Maps) (d : Directory) :
    getNumber (s.withMaps T) d = getNumber s d := by
  cases d <;> simp only [getNumber, contextGetConstructsNumber, contextGetVariablesNumber,
    constructGetFieldsNumber, deref_contexts, deref_constructs, map_bind] <;> rfl

theorem getAt_withMaps (s : Store UTArray) (T : Maps) (d : Directory) (i : SizeT) :
    getAt (s.withMaps T) d i = getAt s d i := by
  cases d <;> simp only [getAt, contextGetConstruct, contextGetVariable, constructGetField,
    deref_contexts, deref_constructs, map_bind] <;> rfl

theorem getName_withMaps (s : Store UTArray) (T : Maps) (d : Directory) (told : Told) :
    getName (s.withMaps T) d told = getName s d told := by
  cases d <;> cases told <;> simp only [getName, constructGetName, variableGetName,
    deref_constructs, map_bind] <;> rfl

theorem has_withMaps {s : Store UTArray} (has : s.Has d) (T : Maps) : (s.withMaps T).Has d := by
  cases d <;> obtain ⟨record, present⟩ := has <;> exact ⟨_, by simp [present]; rfl⟩

/-- In a store whose catalogs are in step the maps have no name twice. -/
theorem distinct_of_inStep {next : Handle} (has : m.store.Has d)
    (inStep : ∀ c, (m.withMaps T).store.view.catalog d = some c → c.InStep next) :
    NamesDistinct [] (T d).entries := by
  cases d with
  | constructs k =>
    obtain ⟨record, present⟩ := has
    have there : (m.withMaps T).store.view.contexts k = some (record.withMaps k T).view := by
      simp [Machine.withMaps, Store.view, present]
    exact (inStep _ (catalog_constructs there)).distinct
  | vars k =>
    obtain ⟨record, present⟩ := has
    have there : (m.withMaps T).store.view.contexts k = some (record.withMaps k T).view := by
      simp [Machine.withMaps, Store.view, present]
    exact (inStep _ (catalog_vars there)).distinct
  | fields h =>
    obtain ⟨record, present⟩ := has
    have there : (m.withMaps T).store.view.constructs h = some (record.withMaps h T).view := by
      simp [Machine.withMaps, Store.view, present]
    exact (inStep _ (catalog_fields there)).distinct

/-- By name the tables tell what the maps tell. -/
theorem getNamed_withMaps {next : Handle} (stands : Stands hashFunction t next T)
    (has : m.store.Has d) (inStep : ∀ c, (m.withMaps T).store.view.catalog d = some c → c.InStep next)
    (fits : name.length < 2 ^ 64) (enough : next + 1 < fuel) :
    Hashed.getNamed hashFunction fuel ⟨m, t⟩ d name = getNamed (m.withMaps T).store d name := by
  have distinct := distinct_of_inStep has inStep
  by_cases unnamed : name = []
  · subst unnamed
    cases d <;> rfl
  · have found := stands.found (m := m) distinct unnamed fits enough
    cases d with
    | constructs k =>
      obtain ⟨record, present⟩ := has
      simp only [Hashed.getNamed, getNamed, Hashed.contextGetConstructByName,
        contextGetConstructByName, Machine.withMaps, deref, withMaps_contexts, checkPtr, refute,
        bind, Except.bind, unnamed, present, found]
      rfl
    | vars k =>
      obtain ⟨record, present⟩ := has
      simp only [Hashed.getNamed, getNamed, Hashed.contextGetVariableByName,
        contextGetVariableByName, Machine.withMaps, deref, withMaps_contexts, checkPtr, refute,
        bind, Except.bind, unnamed, present, found]
      rfl
    | fields h =>
      obtain ⟨record, present⟩ := has
      simp only [Hashed.getNamed, getNamed, Hashed.constructGetFieldByName,
        constructGetFieldByName, Machine.withMaps, deref, withMaps_constructs, checkPtr, refute,
        bind, Except.bind, unnamed, present, found]
      rfl

end Views

section Ledger

variable {hashFunction : CString → BitVec 32} {fuel : Nat} {t : NameTables} {m : Machine}
variable {mem : HashMemory} {T : Maps} {r : HashedReturn} {α : Type} {h : Handle}

/-- What a call does to the tables: at most one insertion, into the table of an object. -/
inductive TablesMove (hashFunction : CString → BitVec 32) (malloc : UthashMalloc)
    (store : Store UTArray) (t : NameTables) (h : Handle) (r : HashedReturn) : Prop where
  | kept (same : r.state.tables = t ∨ r.state.tables = t.zeroed h) (obtained : r.obtained = [])
      (freed : r.freed = [])
  | inserted {t' : NameTables} {d : Directory} {name : CString} {fuel : Nat}
      {added : HashAdded HashRoot} (has : store.Has d) (same : t' = t ∨ t' = t.zeroed h)
      (finished : hashAddKeyptr hashFunction malloc fuel (t'.table d) name (strlen name) h = some added)
      (tables : r.state.tables = t'.inserted d added) (obtained : r.obtained = added.obtained)
      (freed : r.freed = added.freed)

theorem tablesMove_beside {malloc : UthashMalloc} {r : Return} {t' : NameTables}
    (same : t' = t ∨ t' = t.zeroed h) : TablesMove hashFunction malloc m.store t h (r.beside t') :=
  .kept same rfl rfl

theorem guarded_moves {s : Hashed} {checks : Except Stop α} {commit : α → Except Fault HashedReturn}
    (returned : Hashed.guarded s checks commit = .ok r)
    (moves : ∀ plan, commit plan = .ok r →
      TablesMove hashFunction mem.uthash s.machine.store s.tables h r) :
    TablesMove hashFunction mem.uthash s.machine.store s.tables h r := by
  cases checks with
  | error stop =>
    cases stop with
    | fault fault => cases returned
    | code error =>
      cases returned
      exact tablesMove_beside (.inl rfl)
  | ok plan => exact moves plan returned

theorem tested_moves {memory : Bool} {failed : Return} {t' : NameTables}
    {rest : Except Fault HashedReturn}
    (returned : (if !memory then .ok (failed.beside t') else rest) = .ok r)
    (same : t' = t ∨ t' = t.zeroed h)
    (moves : rest = .ok r → TablesMove hashFunction mem.uthash m.store t h r) :
    TablesMove hashFunction mem.uthash m.store t h r := by
  cases memory with
  | false =>
    cases returned
    exact tablesMove_beside same
  | true => exact moves returned

/-- Appending and filing under a name. -/
theorem appended_moves {list : UTArray α} {elem : α} {oom : UTArray α → Return}
    {undo stored : UTArray α → Return} {t' : NameTables} {d : Directory} {name : CString}
    (returned : Hashed.pushBackOr mem list elem (fun grown => (oom grown).beside t')
      (fun grown => Hashed.addKeyptrOr hashFunction fuel mem t' d name h (undo grown) (stored grown)) =
      .ok r)
    (has : m.store.Has d) (same : t' = t ∨ t' = t.zeroed h) :
    TablesMove hashFunction mem.uthash m.store t h r := by
  unfold Hashed.pushBackOr at returned
  split at returned
  · cases returned
  · cases returned
    exact tablesMove_beside same
  · unfold Hashed.addKeyptrOr at returned
    split at returned
    · cases returned
    · rename_i added finished
      cases returned
      exact .inserted has same finished rfl rfl rfl

theorem exec_moves {op : Op} (returned : Hashed.exec hashFunction fuel ⟨m, t⟩ mem op = .ok r) :
    TablesMove hashFunction mem.uthash m.store t m.heap.next r := by
  have unnamed {out : Except Fault Return} (returned : out.map (·.beside t) = .ok r) :
      TablesMove hashFunction mem.uthash m.store t m.heap.next r := by
    cases out with
    | error fault => cases returned
    | ok left =>
      cases returned
      exact tablesMove_beside (.inl rfl)
  cases op with
  | contextCreate name platform ret =>
    refine guarded_moves returned fun plan done => ?_
    refine tested_moves done (.inl rfl) fun done => ?_
    refine tested_moves done (.inr rfl) fun done => ?_
    cases done
    exact tablesMove_beside (.inr rfl)
  | contextCreateConstruct type context name packed ret =>
    refine guarded_moves returned fun plan done => ?_
    refine tested_moves done (.inl rfl) fun done => ?_
    refine tested_moves done (.inr rfl) fun done => ?_
    split at done
    · cases done
    · rename_i record present
      exact appended_moves done ⟨record, present⟩ (.inr rfl)
  | constructAddField construct name fieldType options =>
    refine guarded_moves returned fun plan done => ?_
    refine tested_moves done (.inl rfl) fun done => ?_
    dsimp only [Heap.calloc] at done
    split at done
    · cases done
    · rename_i record present
      exact appended_moves done ⟨record, present⟩ (.inl rfl)
  | contextCreateVariable context name fieldType ret =>
    refine guarded_moves returned fun plan done => ?_
    refine tested_moves done (.inl rfl) fun done => ?_
    dsimp only [Heap.calloc] at done
    split at done
    · cases done
    · rename_i record present
      rw [freezeFieldType_contexts] at present
      exact appended_moves done ⟨record, present⟩ (.inl rfl)
  | contextCreatePointer context fieldType ret => exact unnamed returned
  | contextCreateArray context fieldType ret => exact unnamed returned
  | arrayAddDimension array dimension => exact unnamed returned

/-- All tables that are not empty stand in the list, and these blocks are theirs. -/
structure Holding (t : NameTables) (live : List Directory) : Prop where
  nodup : live.Nodup
  covers : ∀ d, t.root d ≠ none → d ∈ live

/-- The blocks of the tables in a list. -/
def NameTables.held (t : NameTables) (live : List Directory) : List Block :=
  live.flatMap fun d => hashBlocks (t.root d)

theorem held_congr {t t' : NameTables} {live : List Directory}
    (same : ∀ d ∈ live, t'.root d = t.root d) : t'.held live = t.held live := by
  unfold NameTables.held
  exact List.flatMap_congr fun d member => by rw [same d member]

/-- One table of the list apart from the others. -/
theorem held_perm {d : Directory} {live : List Directory} (member : d ∈ live) (t : NameTables) :
    (t.held live).Perm (hashBlocks (t.root d) ++ t.held (live.erase d)) :=
  (List.perm_cons_erase member).flatMap_right _

/-- A list that has one more directory in it. -/
theorem Holding.widen {live : List Directory} (holding : Holding t live) (d : Directory) :
    ∃ wider, Holding t wider ∧ d ∈ wider ∧ t.held wider = t.held live := by
  by_cases member : d ∈ live
  · exact ⟨live, holding, member, rfl⟩
  · have empty : t.root d = none := by
      by_contra some
      exact member (holding.covers d some)
    refine ⟨d :: live, ⟨List.nodup_cons.mpr ⟨member, holding.nodup⟩, fun e rooted =>
      List.mem_cons_of_mem d (holding.covers e rooted)⟩, List.mem_cons_self, ?_⟩
    rw [NameTables.held, List.flatMap_cons, empty]
    rfl

/-- Only one head changes. -/
theorem Holding.changed {live : List Directory} (holding : Holding t live) {d : Directory}
    (member : d ∈ live) {t' : NameTables} (same : ∀ e, e ≠ d → t'.root e = t.root e) :
    Holding t' live ∧ (t'.held live).Perm (hashBlocks (t'.root d) ++ t.held (live.erase d)) := by
  refine ⟨⟨holding.nodup, fun e rooted => ?_⟩, ?_⟩
  · by_cases here : e = d
    · exact here ▸ member
    · exact holding.covers e (same e here ▸ rooted)
  · refine (held_perm member t').trans ?_
    rw [held_congr fun e there => same e ?_]
    exact fun here => (holding.nodup.mem_erase_iff.mp there).1 here

/-- Clearing tables gives back their blocks. -/
theorem Holding.cleared {live : List Directory} (holding : Holding t live) (ds : List Directory) :
    ∃ rest, Holding (t.clearedAll ds) rest ∧
      (t.held live).Perm (t.given ds ++ (t.clearedAll ds).held rest) := by
  induction ds generalizing t live with
  | nil => exact ⟨live, holding, .refl _⟩
  | cons d ds ih =>
    obtain ⟨wider, holding, member, same⟩ := holding.widen d
    have others : ∀ e, e ≠ d → (t.cleared d).root e = t.root e :=
      fun e other => Function.update_of_ne other _ _
    have none : (t.cleared d).root d = none :=
      (Function.update_self _ _ _).trans (NameTables.hashClear_root _)
    have blocks : hashBlocks (t.root d) = (hashClear (t.root d)).2 := by cases t.root d <;> rfl
    obtain ⟨after, balance⟩ := holding.changed member others
    obtain ⟨rest, final, later⟩ := ih after
    refine ⟨rest, final, ?_⟩
    rw [← same, NameTables.given, List.append_assoc, ← blocks]
    refine (held_perm member t).trans (List.Perm.append_left _ ?_)
    refine .trans ?_ later
    rw [none] at balance
    exact balance.symm

/-- A block that is zeroed held no table. -/
theorem Stands.zeroed_root (stands : Stands hashFunction t h T) (d : Directory) :
    (t.zeroed h).root d = t.root d := by
  change (if d.object = h then none else t.root d) = t.root d
  split
  · rename_i here
    have sound := (stands.refines d).sound
    rw [stands.unborn d (Nat.le_of_eq here.symm)] at sound
    cases root : t.root d with
    | none => rfl
    | some rooted =>
      simp only [HashState.Holds, NameTables.table, root] at sound
      obtain ⟨chains, valid⟩ := sound
      cases valid.final
  · rfl

/-- What a call obtained is given back, or is in the tables. -/
theorem TablesMove.balance {malloc : UthashMalloc} (move : TablesMove hashFunction malloc m.store t h r)
    (stands : Stands hashFunction t h T) (limited : Limited malloc) {live : List Directory}
    (holding : Holding t live) :
    ∃ later, Holding r.state.tables later ∧
      (r.obtained ++ t.held live).Perm (r.freed ++ r.state.tables.held later) := by
  have roots {t' : NameTables} (same : t' = t ∨ t' = t.zeroed h) (d : Directory) :
      t'.root d = t.root d := by
    rcases same with rfl | rfl
    · rfl
    · exact stands.zeroed_root d
  cases move with
  | kept same obtained freed =>
    refine ⟨live, ⟨holding.nodup, fun d rooted => ?_⟩, ?_⟩
    · exact holding.covers d (roots same d ▸ rooted)
    · rw [obtained, freed, held_congr fun d _ => roots same d]
  | @inserted t' d name fuel added has same finished tables obtained freed =>
    have there : Stands hashFunction t' h T := by
      rcases same with rfl | rfl
      · exact stands
      · exact stands.zeroed
    obtain ⟨wider, holding, member, equal⟩ := holding.widen d
    have others : ∀ e, e ≠ d → r.state.tables.root e = t.root e := by
      intro e other
      rw [tables]
      exact (Function.update_of_ne other _ _).trans (roots same e)
    have value : r.state.tables.root d = added.value := by
      rw [tables]
      exact Function.update_self _ _ _
    have balances := ((there.refines d).added (there.uncontained d) limited finished).1
    rw [HashAdded.Balances, NameTables.table, roots same] at balances
    obtain ⟨after, balance⟩ := holding.changed member others
    refine ⟨wider, after, ?_⟩
    rw [obtained, freed, ← equal]
    calc (added.obtained ++ t.held wider).Perm
          (added.obtained ++ (hashBlocks (t.root d) ++ t.held (wider.erase d))) :=
          (held_perm member t).append_left _
      _ |>.Perm ((added.freed ++ hashBlocks added.value) ++ t.held (wider.erase d)) := by
          rw [← List.append_assoc]
          exact balances.append_right _
      _ |>.Perm (added.freed ++ r.state.tables.held wider) := by
          rw [List.append_assoc, ← value]
          exact balance.symm.append_left _

/-- So is what any act obtained. -/
theorem HashedAct.balance {s next : Hashed} {act : HashedAct} {m : Machine}
    (represents : Represents hashFunction s m) (taken : act.Step hashFunction s next)
    (fair : act.Fair) {live : List Directory} (holding : Holding s.tables live) :
    ∃ later, Holding next.tables later ∧
      (act.result.obtained ++ s.tables.held live).Perm (act.result.freed ++ next.tables.held later) := by
  obtain ⟨⟨T, stands, _⟩, _⟩ := represents
  cases act with
  | call event =>
    obtain ⟨⟨fuel, returned⟩, rfl⟩ := taken
    exact (exec_moves returned).balance stands fair.2 holding
  | destroy context result =>
    obtain ⟨returned, rfl⟩ := taken
    rw [contextDestroy_beside] at returned
    cases done : contextDestroy s.machine context with
    | error fault =>
      rw [done] at returned
      cases returned
    | ok left =>
      rw [done] at returned
      cases returned
      exact holding.cleared _

end Ledger

section Programs

variable {hashFunction : CString → BitVec 32} {handles : HashHandles} {s next final : Hashed}
variable {trace : List (Transition Hashed HashedAct)}

/-- The act is a call. -/
def HashedAct.IsCall : HashedAct → Prop
  | .call _ => True
  | .destroy _ _ => False

/-- A program that destroys nothing is a run of calls over maps. -/
theorem HashedLife.run (life : HashedLife hashFunction handles trace final)
    (calls : ∀ entry ∈ trace, entry.label.IsCall) :
    ∃ views m, Run views m ∧ Represents hashFunction final m := by
  refine life.execution.invariant_within
    (fun s => ∃ views m, Run views m ∧ Represents hashFunction s m)
    (fun entry => entry.label.Fair ∧ entry.label.IsCall)
    ⟨[], _, .nil, initial_represents hashFunction handles⟩ ?_
    fun entry member => ⟨life.fair entry member, calls entry member⟩
  rintro state act after ⟨views, m, run, represents⟩ taken ⟨fair, isCall⟩
  obtain ⟨view, later, step, same, holds⟩ := represents.step taken fair
  cases same with
  | call code value => exact ⟨_, later, run.snoc step, holds⟩
  | destroy code value => exact isCall.elim

section Instances

/-- Make one call, or destroy a context, when it returns. -/
def Hashed.respond (hashFunction : CString → BitVec 32) (fuel : Nat) (s : Hashed) :
    (Op × HashMemory) ⊕ Option Handle → Option (HashedAct × Hashed)
  | .inl (op, mem) =>
    match exec hashFunction fuel s mem op with
    | .error _ => none
    | .ok result => some (.call ⟨op, mem, result⟩, result.state)
  | .inr context =>
    match contextDestroy s context with
    | .error _ => none
    | .ok result => some (.destroy context result, result.state)

/-- What makes an act fair. -/
def FairInput : (Op × HashMemory) ⊕ Option Handle → Prop
  | .inl (op, mem) => op.Short ∧ Limited mem.uthash
  | .inr _ => True

theorem respond_act {fuel : Nat} {input : (Op × HashMemory) ⊕ Option Handle} {act : HashedAct}
    (returned : s.respond hashFunction fuel input = some (act, next)) :
    act.Step hashFunction s next ∧ (FairInput input → act.Fair) ∧ (input.isLeft → act.IsCall) := by
  cases input with
  | inl call =>
    simp only [Hashed.respond] at returned
    split at returned
    · cases returned
    · rename_i answered
      cases returned
      exact ⟨⟨⟨fuel, answered⟩, rfl⟩, id, fun _ => trivial⟩
  | inr context =>
    simp only [Hashed.respond] at returned
    split at returned
    · cases returned
    · rename_i answered
      cases returned
      exact ⟨⟨answered, rfl⟩, id, nofun⟩

/-- No allocation fails but those of `uthash`. -/
def unhashed : HashMemory := ⟨true, true, true, fun _ => none⟩

/-- No allocation fails, and `uthash` makes new tables. -/
def roomy : HashMemory := ⟨true, true, true, roomForTable⟩

/-- A struct whose table cannot be made at first, a union that wants its name, a field, and a
variable. -/
def hashedCalls : List ((Op × HashMemory) ⊕ Option Handle) :=
  [.inl (.contextCreate (some []) (some lp64) true, roomy),
   .inl (.contextCreateConstruct .struct (some 0) (some [97]) false true, unhashed),
   .inl (.contextCreateConstruct .struct (some 0) (some [97]) false true, roomy),
   .inl (.contextCreateConstruct .union (some 0) (some [97]) false true, roomy),
   .inl (.constructAddField (some 2) (some [97]) (some ⟨4, 0⟩) [], roomy),
   .inl (.contextCreateVariable (some 0) (some [98]) (some ⟨complexTypeStruct, 2⟩) true, roomy)]

/-- A program that makes some of these calls, and then may destroy the context. -/
def hashedProgram (inputs : List ((Op × HashMemory) ⊕ Option Handle)) :
    List (Transition Hashed HashedAct) × Hashed :=
  replay (Hashed.respond (fun _ => 0) 9) (Hashed.initial HashHandles.blank) inputs

theorem hashedProgram_life (inputs : List ((Op × HashMemory) ⊕ Option Handle))
    (among : ∀ input ∈ inputs, input ∈ hashedCalls ∨ input = .inr (some 0)) :
    HashedLife (fun _ => 0) HashHandles.blank (hashedProgram inputs).1 (hashedProgram inputs).2 := by
  have sound (s : Hashed) (input : (Op × HashMemory) ⊕ Option Handle) (act : HashedAct)
      (next : Hashed) (returned : s.respond (fun _ => 0) 9 input = some (act, next)) :
      act.Step (fun _ => 0) s next := (respond_act returned).1
  refine ⟨replay_execution sound _ _, replay_labels ?_ _⟩
  intro input member state act next returned
  apply (respond_act returned).2.1
  rcases among input member with call | rfl
  · have fair : ∀ input ∈ hashedCalls, FairInput input := by
      simp only [hashedCalls, List.forall_mem_cons]
      have room := roomForTable_limited
      have refused : Limited fun _ => none := fun _ _ => rfl
      refine ⟨⟨by decide, room⟩, ⟨by decide, refused⟩, ⟨by decide, room⟩, ⟨by decide, room⟩,
        ⟨by decide, room⟩, ⟨by decide, room⟩, fun _ member => absurd member List.not_mem_nil⟩
    exact fair input call
  · trivial

end Instances

/-- A program over the engine with `uthash` tables is, act for act, the program over finite maps:
it returns the same codes and the same addresses, whatever the hash function and wherever
memory runs out. -/
theorem tables_refine_maps (life : HashedLife hashFunction handles trace final) :
    ∃ views m, Life views m ∧ Represents hashFunction final m ∧
      Matched (Represents hashFunction) SameAct trace views := life.represents

theorem tables_refine_maps_destroyed :
    ∃ views m, Life views m ∧
      Represents (fun _ => 0) (hashedProgram (hashedCalls ++ [.inr (some 0)])).2 m ∧
      Matched (Represents fun _ => 0) SameAct (hashedProgram (hashedCalls ++ [.inr (some 0)])).1 views :=
  tables_refine_maps (hashedProgram_life _ (by simp))

/-- After any program, where the loops have more fuel than there were objects, every call with
tables returns what the call with maps returns, or leaves by the same fault; and so does
destroying. -/
theorem tables_answer_as_maps (life : HashedLife hashFunction handles trace final) :
    ∃ m, Represents hashFunction final m ∧
      (∀ fuel op mem, final.machine.heap.next + 1 < fuel → op.Short → Limited mem.uthash →
        ∃ insert, Agrees hashFunction (Hashed.exec hashFunction fuel final mem op)
          (exec m (mem.inserting insert) op)) ∧
      ∀ context, Agrees hashFunction (Hashed.contextDestroy final context)
        (contextDestroy m context) := by
  obtain ⟨_, m, _, represents, _⟩ := life.represents
  refine ⟨m, represents, ?_, ?_⟩
  · intro fuel op mem enough short limited
    obtain ⟨⟨T, stands, rfl⟩, standing⟩ := represents
    rcases exec_settles fuel stands standing.bounded limited short with ⟨_, d, out⟩ | agrees
    · have few := stands.length_le d
      exact absurd (Nat.le_trans out (Nat.succ_le_succ few)) (Nat.not_le.mpr enough)
    · exact agrees
  · intro context
    obtain ⟨⟨T, stands, rfl⟩, _⟩ := represents
    exact contextDestroy_agrees stands context

theorem tables_answer_as_maps_calls :
    ∃ m, Represents (fun _ => 0) (hashedProgram hashedCalls).2 m ∧
      ∃ insert, Agrees (fun _ => 0)
        (Hashed.exec (fun _ => 0) 9 (hashedProgram hashedCalls).2 roomy
          (.contextCreateConstruct .union (some 0) (some [97]) false true))
        (exec m (roomy.inserting insert)
          (.contextCreateConstruct .union (some 0) (some [97]) false true)) := by
  obtain ⟨m, represents, calls, _⟩ :=
    tables_answer_as_maps (hashedProgram_life hashedCalls fun _ member => .inl member)
  exact ⟨m, represents, calls 9 _ roomy (by decide +kernel) (by decide) roomForTable_limited⟩

/-- After any calls the tables tell by name what the lists tell by index, of the constructs and
the variables of every context and of the fields of every construct. -/
theorem tables_show_lists (life : HashedLife hashFunction handles trace final)
    (calls : ∀ entry ∈ trace, entry.label.IsCall) {fuel : Nat}
    (enough : final.machine.heap.next + 1 < fuel) (d : Directory)
    (has : final.machine.store.Has d) :
    ∃ elems, HashedShows hashFunction fuel final d elems := by
  obtain ⟨views, m, run, ⟨⟨T, stands, rfl⟩, standing⟩⟩ := life.run calls
  have inStep : ∀ c, (final.machine.withMaps T).store.view.catalog d = some c →
      c.InStep final.machine.heap.next := fun c present => (ordered_of_run run).inStep d c present
  obtain ⟨c, present⟩ := catalog_of_has (has_withMaps has T)
  have shows := shows_of_inStep standing.counted present (inStep c present)
  have same (name : CString) (fits : name.length < 2 ^ 64) :
      final.getNamed hashFunction fuel d name = getNamed (final.machine.withMaps T).store d name :=
    getNamed_withMaps stands has inStep fits enough
  have number := getNumber_withMaps final.machine.store T d
  refine ⟨c.elems, ?_, ?_, ?_, shows.distinct, ?_, ?_, ?_⟩
  · rw [← number]
    exact shows.counted
  · intro i
    rw [← getAt_withMaps final.machine.store T]
    exact shows.indexed i
  · intro elem member
    rw [← getName_withMaps final.machine.store T]
    exact shows.named elem member
  · intro name named fits told
    rw [same name fits]
    exact shows.found name named told
  · intro name named fits none
    rw [same name fits]
    exact shows.missing name named none
  · rw [same [] (by simp)]
    exact shows.unnamed

theorem tables_show_lists_constructs :
    ∃ elems, HashedShows (fun _ => 0) 9 (hashedProgram hashedCalls).2 (.constructs 0) elems := by
  apply tables_show_lists (hashedProgram_life hashedCalls fun _ member => .inl member)
  · refine replay_labels (fun input member state act next returned => ?_) _
    exact (respond_act returned).2.2 ((by decide : ∀ input ∈ hashedCalls, input.isLeft) input member)
  · decide +kernel
  · exact ⟨_, rfl⟩

/-- What a program obtained for its tables is given back, or is in them. -/
theorem HashedLife.balance (life : HashedLife hashFunction handles trace final) :
    ∃ live, Holding final.tables live ∧
      (trace.flatMap fun entry => entry.label.result.obtained).Perm
        ((trace.flatMap fun entry => entry.label.result.freed) ++ final.tables.held live) := by
  let holds (s : Hashed) (held : List Block) : Prop :=
    (∃ m, Represents hashFunction s m) ∧ ∃ live, Holding s.tables live ∧ s.tables.held live = held
  have initial : holds (Hashed.initial handles) [] :=
    ⟨⟨_, initial_represents hashFunction handles⟩, [], ⟨List.nodup_nil,
      fun d rooted => absurd rfl rooted⟩, rfl⟩
  have balanced := life.execution.conserved_among holds (fun entry => entry.label.Fair)
    (fun entry => entry.label.result.obtained) (fun entry => entry.label.result.freed) initial ?_
    life.fair
  · obtain ⟨_, ⟨_, live, holding, rfl⟩, balance⟩ := balanced
    exact ⟨live, holding, by simpa using balance⟩
  · rintro s act next _ ⟨⟨m, represents⟩, live, holding, rfl⟩ taken fair
    obtain ⟨_, after, _, _, holds⟩ := represents.step taken fair
    obtain ⟨later, standing, moved⟩ := act.balance represents taken fair holding
    exact ⟨_, ⟨⟨after, holds⟩, later, standing, rfl⟩, moved⟩

end Programs

end Mam.CopyEngine
