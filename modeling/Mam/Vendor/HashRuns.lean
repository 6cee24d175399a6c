import Mam.Library.Simulation
import Mam.Vendor.HashFsck
import Mam.Vendor.HashInsertion
import Mam.Vendor.UTHash

/-! Runs of table operations from a NULL head, with any hash function and any failures of
memory, against the finite map. -/

namespace Mam.Vendor

open Mam.Library

/-- What a program asks of a table. -/
inductive HashRequest where
  | find (key : CString)
  | add (key : CString) (elem : Ref) (malloc : UthashMalloc)
  | clear

/-- A request, with what came of it. -/
inductive HashCall where
  | find (key : CString) (out : Option Ref)
  | add (key : CString) (elem : Ref) (malloc : UthashMalloc) (oomed : Bool)
      (obtained freed : List Block)
  | clear (freed : List Block)

/-- `strlen`. -/
def strlen (key : CString) : SizeT := BitVec.ofNat 64 key.length

/-- One request to a table; `none` when a loop is not over within the fuel. -/
def hashRespond (hashFunction : CString → BitVec 32) (fuel : Nat) (s : HashState) :
    HashRequest → Option (HashCall × HashState)
  | .find key => do
    let out ← hashFind hashFunction fuel s key (strlen key)
    return (.find key out, s)
  | .add key elem malloc => do
    let added ← hashAddKeyptr hashFunction malloc fuel s key (strlen key) elem
    return (.add key elem malloc added.oomed added.obtained added.freed,
      ⟨added.handles, added.value⟩)
  | .clear => some (.clear (hashClear s.root).2, ⟨s.handles, (hashClear s.root).1⟩)

/-- A request that comes back. -/
def HashStep (hashFunction : CString → BitVec 32) (s : HashState) (call : HashCall)
    (after : HashState) : Prop :=
  ∃ fuel request, hashRespond hashFunction fuel s request = some (call, after)

/-- An element is on the list of a table. -/
def Contains (s : HashState) (elem : Ref) : Prop :=
  ∃ head tbl, s.root = some (head, tbl) ∧ Reaches s.handles.next (some head) elem

/-- What a caller owes the table: a string that fits the address space, and an element that
is not in the table yet; and the memory is below 64 GiB. -/
def Owed (s : HashState) : HashRequest → Prop
  | .find key => key.length < 2 ^ 64
  | .add _ elem malloc => ¬ Contains s elem ∧ Limited malloc
  | .clear => True

/-- The request of a call. -/
def HashCall.request : HashCall → HashRequest
  | .find key _ => .find key
  | .add key elem malloc _ _ _ => .add key elem malloc
  | .clear _ => .clear

/-- A recorded step whose caller did what it owes. -/
def Correct (entry : Transition HashState HashCall) : Prop := Owed entry.pre entry.label.request

/-- The bytes that a table knows a string by: its length is kept in 32 bits. -/
def recorded (key : CString) : CString := key.take (key.length % 2 ^ 32)

/-- One request to the finite map. A look-up answers with an element whose recorded key is the
string, and only with NULL where there is none; a failed insertion changes nothing. -/
inductive MapStep : UTHash Ref → HashCall → UTHash Ref → Prop where
  | found {table : UTHash Ref} {key stored : CString} {h : Ref}
      (member : (stored, h) ∈ table.entries) (same : recorded stored = key) :
      MapStep table (.find key (some h)) table
  | missing {table : UTHash Ref} {key : CString}
      (absent : ∀ entry ∈ table.entries, recorded entry.1 ≠ key) :
      MapStep table (.find key none) table
  | stored {table grown : UTHash Ref} {key : CString} {elem : Ref} {malloc : UthashMalloc}
      {obtained freed : List Block} (added : table.addKeyptr key elem true = some grown) :
      MapStep table (.add key elem malloc false obtained freed) grown
  | refused {table : UTHash Ref} {key : CString} {elem : Ref} {malloc : UthashMalloc}
      {obtained freed : List Block} (failed : table.addKeyptr key elem false = none) :
      MapStep table (.add key elem malloc true obtained freed) table
  | cleared {table : UTHash Ref} {freed : List Block} :
      MapStep table (.clear freed) UTHash.empty

variable {hashFunction : CString → BitVec 32} {s start final after : HashState}
variable {table : UTHash Ref} {order : List Ref} {elem h : Ref} {call : HashCall}
variable {trace : List (Transition HashState HashCall)}

/-- A sound table that has the entries of a finite map, in their order. -/
structure Refines (hashFunction : CString → BitVec 32) (s : HashState) (table : UTHash Ref) :
    Prop where
  sound : s.Holds hashFunction (table.entries.map (·.2))
  keyed : ∀ entry ∈ table.entries, s.handles.key entry.2 = entry.1 ∧
    s.handles.keylen entry.2 = BitVec.ofNat 32 entry.1.length

theorem contains_iff (valid : s.Holds hashFunction order) : Contains s h ↔ h ∈ order := by
  cases root : s.root with
  | none =>
    have empty := valid.empty root
    simp [Contains, root, empty]
  | some rooted =>
    obtain ⟨head, tbl⟩ := rooted
    obtain ⟨chains, valid⟩ := valid.integrity root
    rw [← valid.listed.forward.reaches_iff, Contains]
    simp [root]

theorem Refines.empty (hashFunction : CString → BitVec 32) (handles : HashHandles) :
    Refines hashFunction ⟨handles, none⟩ UTHash.empty := ⟨rfl, nofun⟩

/-- `HASH_COUNT` tells how many entries there are, in 32 bits. -/
theorem Refines.count (refines : Refines hashFunction s table) :
    hashCount s.root = BitVec.ofNat 32 table.entries.length := by
  cases root : s.root with
  | none =>
    rw [List.map_eq_nil_iff.mp (refines.sound.empty root)]
    rfl
  | some rooted =>
    obtain ⟨head, tbl⟩ := rooted
    obtain ⟨chains, valid⟩ := refines.sound.integrity root
    have counted := valid.counted
    rw [List.length_map] at counted
    exact counted

/-- An item matches a string exactly if the string is its recorded key. -/
theorem matches_iff {m : HashHandles} {stored key : CString} (fits : key.length < 2 ^ 64)
    (bytes : m.key h = stored) (length : m.keylen h = BitVec.ofNat 32 stored.length) :
    m.Matches key (strlen key) h ↔ recorded stored = key := by
  have keylen : (strlen key).toNat = key.length := by
    rw [strlen, BitVec.toNat_ofNat, Nat.mod_eq_of_lt fits]
  have small : stored.length % 2 ^ 32 < 2 ^ 32 := Nat.mod_lt _ (by decide)
  have widened : (m.keylen h).setWidth 64 = strlen key ↔ stored.length % 2 ^ 32 = key.length := by
    rw [BitVec.toNat_inj.symm, keylen, length, BitVec.toNat_setWidth, BitVec.toNat_ofNat]
    rw [Nat.mod_eq_of_lt (Nat.lt_of_lt_of_le small (by decide))]
  rw [HashHandles.Matches, widened, bytes, keylen, List.take_length, recorded]
  constructor
  · rintro ⟨same, front⟩
    rw [same, front]
  · intro same
    have counted := congrArg List.length same
    rw [List.length_take, Nat.min_eq_left (Nat.mod_le _ _)] at counted
    exact ⟨counted, by rw [← counted, same]⟩

section Fuel

variable {malloc : UthashMalloc} {fuel more : Nat} {m : HashHandles} {tbl : HashTable} {head add : Ref}

/-! More fuel changes no result. -/

theorem hashFind_mono (le : fuel ≤ more) {keyptr : CString} {keylen : SizeT} {out : Option Ref}
    (found : hashFind hashFunction fuel s keyptr keylen = some out) :
    hashFind hashFunction more s keyptr keylen = some out := by
  cases root : s.root with
  | none =>
    simp only [hashFind, root] at found ⊢
    exact found
  | some rooted =>
    simp only [hashFind, root, hashFindInBkt] at found ⊢
    exact whileLoop_mono le found

theorem hashExpandBuckets_mono (le : fuel ≤ more) {grown : HashAdded HashTable}
    (finished : hashExpandBuckets malloc fuel m tbl = some grown) :
    hashExpandBuckets malloc more m tbl = some grown := by
  unfold hashExpandBuckets at finished ⊢
  cases given : malloc (sizeofHashBucket * tbl.numBuckets.setWidth 64 * 2) with
  | none =>
    simp only [given] at finished ⊢
    exact finished
  | some bucketsAt =>
    simp only [given] at finished ⊢
    obtain ⟨r, moved, same⟩ := Option.bind_eq_some_iff.mp finished
    refine Option.bind_eq_some_iff.mpr ⟨r, ?_, same⟩
    exact foldlM_mono (fun r i result stopped => whileLoop_mono le stopped) moved

theorem hashAddToBkt_mono (le : fuel ≤ more) {bkt : Nat} {added : HashAdded HashTable}
    (finished : hashAddToBkt malloc fuel m tbl bkt add = some added) :
    hashAddToBkt malloc more m tbl bkt add = some added := by
  by_cases overfull : tbl.Overfull bkt
  · rw [hashAddToBkt_overfull overfull] at finished ⊢
    obtain ⟨grown, expanded, same⟩ := Option.bind_eq_some_iff.mp finished
    exact Option.bind_eq_some_iff.mpr ⟨grown, hashExpandBuckets_mono le expanded, same⟩
  · rw [hashAddToBkt_room overfull] at finished ⊢
    exact finished

theorem hashAddToTable_mono (le : fuel ≤ more) {hashval : BitVec 32} {added : HashAdded HashRoot}
    (finished : hashAddToTable malloc fuel m head tbl hashval add = some added) :
    hashAddToTable malloc more m head tbl hashval add = some added := by
  obtain ⟨filed, body, same⟩ := Option.bind_eq_some_iff.mp finished
  exact Option.bind_eq_some_iff.mpr ⟨filed, hashAddToBkt_mono le body, same⟩

theorem hashAddKeyptr_mono (le : fuel ≤ more) {keyptr : CString} {keylenIn : SizeT}
    {added : HashAdded HashRoot}
    (finished : hashAddKeyptr hashFunction malloc fuel s keyptr keylenIn add = some added) :
    hashAddKeyptr hashFunction malloc more s keyptr keylenIn add = some added := by
  unfold hashAddKeyptr hashAddKeyptrByhashvalue at finished ⊢
  cases root : s.root with
  | none =>
    simp only [root] at finished ⊢
    split at finished
    · exact finished
    · obtain ⟨filed, table, same⟩ := Option.bind_eq_some_iff.mp finished
      exact Option.bind_eq_some_iff.mpr ⟨filed, hashAddToTable_mono le table, same⟩
  | some rooted =>
    simp only [root] at finished ⊢
    exact hashAddToTable_mono le finished

end Fuel

section Steps

/-- A look-up is answered as the map answers it. -/
theorem Refines.find (refines : Refines hashFunction s table) {key : CString}
    (fits : key.length < 2 ^ 64) {fuel : Nat} {out : Option Ref}
    (found : hashFind hashFunction fuel s key (strlen key) = some out) :
    MapStep table (.find key out) table := by
  have bound : (table.entries.map (·.2)).length < max fuel (table.entries.length + 1) := by
    rw [List.length_map]
    omega
  obtain ⟨answer, same, present, missing⟩ := hashFind_spec refines.sound bound key (strlen key)
  have equal : out = answer :=
    Option.some.inj ((hashFind_mono (Nat.le_max_left _ _) found).symm.trans same)
  subst equal
  cases out with
  | none =>
    refine .missing fun entry member clash => ?_
    obtain ⟨bytes, length⟩ := refines.keyed entry member
    exact missing rfl entry.2 (List.mem_map_of_mem member) ((matches_iff fits bytes length).mpr clash)
  | some h =>
    obtain ⟨member, match_⟩ := present h rfl
    obtain ⟨entry, there, rfl⟩ := List.mem_map.mp member
    obtain ⟨bytes, length⟩ := refines.keyed entry there
    exact .found there ((matches_iff fits bytes length).mp match_)

/-- The result of an insertion, whatever the fuel it came back with. -/
theorem Refines.added (refines : Refines hashFunction s table) {key : CString} {malloc : UthashMalloc}
    (fresh : ¬ Contains s elem) (limited : Limited malloc) {fuel : Nat} {added : HashAdded HashRoot}
    (finished : hashAddKeyptr hashFunction malloc fuel s key (strlen key) elem = some added) :
    added.Balances s.root ∧ (Refused s elem added ∨
      Accepted hashFunction s (table.entries.map (·.2)) elem key (strlen key) added) := by
  have absent : elem ∉ table.entries.map (·.2) := fun member =>
    fresh ((contains_iff refines.sound).mpr member)
  have bound : (table.entries.map (·.2)).length + 1 < max fuel (table.entries.length + 2) := by
    rw [List.length_map]
    omega
  obtain ⟨result, same, outcome⟩ :=
    hashAddKeyptr_spec refines.sound absent bound limited key (strlen key)
  have equal : added = result :=
    Option.some.inj ((hashAddKeyptr_mono (Nat.le_max_left _ _) finished).symm.trans same)
  exact equal ▸ outcome

/-- Handles that agree on the elements have the same entries. -/
theorem Refines.congr (refines : Refines hashFunction s table) {m : HashHandles}
    (same : ∀ entry ∈ table.entries, SameAt s.handles m entry.2) :
    Refines hashFunction ⟨m, s.root⟩ table := by
  refine ⟨?_, ?_⟩
  · cases root : s.root with
    | none => exact refines.sound.empty root
    | some rooted =>
      obtain ⟨head, tbl⟩ := rooted
      obtain ⟨chains, valid⟩ := refines.sound.integrity root
      refine ⟨chains, valid.congr fun h member => ?_⟩
      obtain ⟨entry, there, rfl⟩ := List.mem_map.mp member
      have kept := same entry there
      exact ⟨kept.prev, kept.next, kept.hhPrev, kept.hhNext, kept.key, kept.keylen, kept.hashv⟩
  · intro entry member
    obtain ⟨key, keylen⟩ := refines.keyed entry member
    exact ⟨(same entry member).key.trans key, (same entry member).keylen.trans keylen⟩

/-- An insertion that failed leaves the same entries. -/
theorem Refines.refused (refines : Refines hashFunction s table) (fresh : ¬ Contains s elem)
    {added : HashAdded HashRoot} (refused : Refused s elem added) :
    Refines hashFunction ⟨added.handles, added.value⟩ table := by
  rw [refused.root]
  apply refines.congr
  intro entry member
  apply refused.elsewhere
  rintro rfl
  exact fresh ((contains_iff refines.sound).mpr (List.mem_map_of_mem member))

/-- An insertion that files its element adds an entry. -/
theorem Refines.accepted (refines : Refines hashFunction s table) (fresh : ¬ Contains s elem)
    {key : CString} {added : HashAdded HashRoot}
    (accepted : Accepted hashFunction s (table.entries.map (·.2)) elem key (strlen key) added) :
    Refines hashFunction ⟨added.handles, added.value⟩ { entries := table.entries ++ [(key, elem)] } := by
  refine ⟨by simpa using accepted.sound, ?_⟩
  intro entry member
  change added.handles.key entry.2 = entry.1 ∧ added.handles.keylen entry.2 = _
  rw [accepted.key, accepted.keylen]
  rcases List.mem_append.mp member with old | new
  · have other : entry.2 ≠ elem := fun same =>
      fresh ((contains_iff refines.sound).mpr (same ▸ List.mem_map_of_mem old))
    rw [Function.update_of_ne other, Function.update_of_ne other]
    exact refines.keyed entry old
  · obtain rfl := List.mem_singleton.mp new
    simp only [Function.update_self, strlen, true_and]
    apply BitVec.eq_of_toNat_eq
    simp only [BitVec.toNat_setWidth, BitVec.toNat_ofNat]
    exact Nat.mod_mod_of_dvd _ (by decide)

/-- Every request of a correct caller is answered as the finite map answers it. -/
theorem Refines.step (refines : Refines hashFunction s table) (taken : HashStep hashFunction s call after)
    (owed : Owed s call.request) :
    ∃ grown, MapStep table call grown ∧ Refines hashFunction after grown := by
  obtain ⟨fuel, request, returned⟩ := taken
  cases request with
  | find key =>
    obtain ⟨out, found, same⟩ := Option.bind_eq_some_iff.mp returned
    cases same
    exact ⟨table, refines.find owed found, refines⟩
  | add key elem malloc =>
    obtain ⟨added, finished, same⟩ := Option.bind_eq_some_iff.mp returned
    cases same
    obtain ⟨fresh, limited⟩ := owed
    obtain ⟨_, refused | accepted⟩ := refines.added fresh limited finished
    · refine ⟨table, ?_, refines.refused fresh refused⟩
      rw [refused.oomed]
      exact .refused rfl
    · refine ⟨_, ?_, refines.accepted fresh accepted⟩
      rw [accepted.stored]
      exact .stored rfl
  | clear =>
    cases returned
    refine ⟨UTHash.empty, .cleared, ?_⟩
    cases root : s.root <;> exact .empty hashFunction s.handles

end Steps

end Mam.Vendor
