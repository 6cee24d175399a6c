import Mam.CopyEngine.Types
import Mam.Library.Alignment
import Mathlib.Algebra.BigOperators.Group.List.Basic
import Mathlib.Data.List.Induction

/-! Types as they are declared, and the layout that a declaration stands for: what a type is,
without the calls that made it and the objects that hold it. -/

namespace Mam.CopyEngine

open Mam.Library

/-- What the members of a construct have come to so far. -/
@[ext]
structure Shape where
  lastOffset : Nat
  totalSize : Nat
  alignment : Nat
deriving DecidableEq, Repr

namespace Shape

variable (type : ConstructType) (packed : Bool)

def empty : Shape := ⟨0, 0, 1⟩

/-- Where the next member lies: at the offset asked for it, if there is one. -/
def offset (shape : Shape) (asked : Option Nat) (align : Nat) : Nat :=
  match asked, type with
  | some offset, _ => offset
  | none, .struct => if packed then shape.lastOffset else roundUp shape.lastOffset align
  | none, .union => 0

/-- The alignment with one more member. -/
def grownAlignment (shape : Shape) (align : Nat) : Nat :=
  if packed then shape.alignment else max shape.alignment align

/-- The shape with one more member. -/
def place (shape : Shape) (asked : Option Nat) (size align : Nat) : Shape :=
  let lastOffset :=
    match type with
    | .struct => shape.offset type packed asked align + size
    | .union => shape.lastOffset
  let totalSize :=
    match type with
    | .struct => lastOffset
    | .union => max shape.totalSize size
  { lastOffset := lastOffset
    totalSize := if packed then totalSize else roundUp totalSize (shape.grownAlignment packed align)
    alignment := shape.grownAlignment packed align }

end Shape

mutual

/-- A type: its scalars by size and alignment, and how constructs and arrays are made of them. -/
inductive Declaration where
  | scalar (size align : Nat)
  | construct (type : ConstructType) (packed : Bool) (members : MemberList)
  | array (element : Declaration) (extents : List Nat)

/-- The members of a construct, the last one outermost, each with the offset asked for it. -/
inductive MemberList where
  | none
  | snoc (before : MemberList) (asked : Option Nat) (declared : Declaration)

end

instance : Inhabited Declaration := ⟨.scalar 0 1⟩

mutual

def Declaration.size : Declaration → Nat
  | .scalar size _ => size
  | .construct type packed members => (members.shape type packed).totalSize
  | .array element extents => if extents = [] then 0 else element.size * extents.prod

def Declaration.align : Declaration → Nat
  | .scalar _ align => align
  | .construct type packed members => (members.shape type packed).alignment
  | .array element _ => element.align

def MemberList.shape (type : ConstructType) (packed : Bool) : MemberList → Shape
  | .none => .empty
  | .snoc before asked declared =>
    (before.shape type packed).place type packed asked declared.size declared.align

end

mutual

/-- No array has an extent after an extent of 0, unless its elements have size 0. -/
def Declaration.ZerosLast : Declaration → Prop
  | .scalar _ _ => True
  | .construct _ _ members => members.ZerosLast
  | .array element extents => element.ZerosLast ∧ (element.size = 0 ∨ 0 ∉ extents.dropLast)

def MemberList.ZerosLast : MemberList → Prop
  | .none => True
  | .snoc before _ declared => before.ZerosLast ∧ declared.ZerosLast

end

/-- The offsets of the members, in order. -/
def MemberList.offsets (type : ConstructType) (packed : Bool) : MemberList → List Nat
  | .none => []
  | .snoc before asked declared =>
    before.offsets type packed ++ [(before.shape type packed).offset type packed asked declared.align]

/-- The members with the offsets asked for them, in order. -/
def MemberList.entries : MemberList → List (Option Nat × Declaration)
  | .none => []
  | .snoc before asked declared => before.entries ++ [(asked, declared)]

theorem MemberList.ZerosLast.entry : ∀ {list : MemberList}, list.ZerosLast →
    ∀ entry ∈ list.entries, entry.2.ZerosLast
  | .none, _, _, listed => absurd listed List.not_mem_nil
  | .snoc before asked declared, zeros, entry, listed => by
    rcases List.mem_append.mp listed with earlier | last
    · exact ZerosLast.entry zeros.1 entry earlier
    · obtain rfl := List.mem_singleton.mp last
      exact zeros.2

def MemberList.ofList (entries : List (Option Nat × Declaration)) : MemberList :=
  entries.foldl (fun before entry => .snoc before entry.1 entry.2) .none

theorem MemberList.ofList_snoc (entries : List (Option Nat × Declaration))
    (entry : Option Nat × Declaration) :
    ofList (entries ++ [entry]) = .snoc (ofList entries) entry.1 entry.2 := by
  rw [ofList, List.foldl_append]
  rfl

@[simp] theorem MemberList.entries_ofList (entries : List (Option Nat × Declaration)) :
    (ofList entries).entries = entries := by
  induction entries using List.reverseRecOn with
  | nil => rfl
  | append_singleton entries entry ih => rw [ofList_snoc, MemberList.entries, ih]

/-- What the layout of a construct depends on: the offset asked for each member, its size and
its alignment. -/
def MemberList.demands (list : MemberList) : List (Option Nat × Nat × Nat) :=
  list.entries.map fun entry => (entry.1, entry.2.size, entry.2.align)

theorem MemberList.demands_snoc (before : MemberList) (asked : Option Nat) (declared : Declaration) :
    (MemberList.snoc before asked declared).demands =
      before.demands ++ [(asked, declared.size, declared.align)] := by
  simp [demands, entries]

theorem MemberList.layout_congr (type : ConstructType) (packed : Bool) :
    ∀ first second : MemberList, first.demands = second.demands →
      first.shape type packed = second.shape type packed ∧
        first.offsets type packed = second.offsets type packed
  | .none, .none, _ => ⟨rfl, rfl⟩
  | .none, .snoc before asked declared, same => by
    rw [demands_snoc] at same
    simp [demands, entries] at same
  | .snoc before asked declared, .none, same => by
    rw [demands_snoc] at same
    simp [demands, entries] at same
  | .snoc before asked declared, .snoc other asked' declared', same => by
    rw [demands_snoc, demands_snoc] at same
    obtain ⟨earlier, last⟩ := List.append_inj' same rfl
    obtain ⟨shape, offsets⟩ := layout_congr type packed before other earlier
    simp only [List.cons.injEq, Prod.mk.injEq, and_true] at last
    obtain ⟨rfl, size, align⟩ := last
    refine ⟨?_, ?_⟩
    · rw [MemberList.shape, MemberList.shape, shape, size, align]
    · rw [MemberList.offsets, MemberList.offsets, shape, offsets, align]

end Mam.CopyEngine
