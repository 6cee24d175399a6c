import Mathlib.Data.List.Basic

/-! Lists of named elements, in which one name may stand for no name at all. -/

namespace Mam.Library

universe u v

variable {Name : Type u} {Elem : Type v}

/-- No name but `blank` occurs twice. -/
def NamesDistinct (blank : Name) (entries : List (Name × Elem)) : Prop :=
  entries.Pairwise fun first second => first.1 ≠ blank → first.1 ≠ second.1

/-- The entry at an index is the only one of its name. -/
def OnlyAt (entries : List (Name × Elem)) (index : Nat) (name : Name) (elem : Elem) : Prop :=
  entries[index]? = some (name, elem) ∧
    ∀ other found, entries[other]? = some (name, found) → other = index

namespace NamesDistinct

variable {blank : Name} {entries : List (Name × Elem)}

theorem nil (blank : Name) : NamesDistinct blank ([] : List (Name × Elem)) := List.Pairwise.nil

/-- A name occurs at one index. -/
theorem onlyAt (distinct : NamesDistinct blank entries) {name : Name} (named : name ≠ blank)
    {index : Nat} {elem : Elem} (present : entries[index]? = some (name, elem)) :
    OnlyAt entries index name elem := by
  refine ⟨present, fun other found there => ?_⟩
  obtain ⟨inside, here⟩ := List.getElem?_eq_some_iff.mp present
  obtain ⟨below, same⟩ := List.getElem?_eq_some_iff.mp there
  have apart := List.pairwise_iff_getElem.mp distinct
  rcases Nat.lt_trichotomy index other with before | equal | after
  · have clash := apart index other inside below before
    rw [here, same] at clash
    exact absurd rfl (clash named)
  · exact equal.symm
  · have clash := apart other index below inside after
    rw [here, same] at clash
    exact absurd rfl (clash named)

variable [BEq Name] [LawfulBEq Name]

/-- Looking a name up finds the only element that has it. -/
theorem lookup_iff (distinct : NamesDistinct blank entries) {name : Name} (named : name ≠ blank)
    {elem : Elem} : entries.lookup name = some elem ↔ ∃ index, OnlyAt entries index name elem := by
  constructor
  · intro found
    obtain ⟨before, after, same, _⟩ := List.lookup_eq_some_iff.mp found
    refine ⟨before.length, distinct.onlyAt named ?_⟩
    rw [same]
    simp
  · rintro ⟨index, present, _⟩
    have member := List.mem_of_getElem? present
    cases found : entries.lookup name with
    | none =>
      have absent := List.lookup_eq_none_iff.mp found _ member
      simp at absent
    | some other =>
      obtain ⟨before, after, same, _⟩ := List.lookup_eq_some_iff.mp found
      have there : entries[before.length]? = some (name, other) := by
        rw [same]
        simp
      have equal := (distinct.onlyAt named present).2 _ _ there
      rw [equal, present] at there
      cases there
      rfl

/-- A name that cannot be found may be added. -/
theorem snoc (distinct : NamesDistinct blank entries) {name : Name}
    (unused : name ≠ blank → entries.lookup name = none) (elem : Elem) :
    NamesDistinct blank (entries ++ [(name, elem)]) := by
  refine List.pairwise_append.mpr ⟨distinct, List.pairwise_singleton _ _, ?_⟩
  intro entry member added new named same
  obtain rfl := List.mem_singleton.mp new
  have same : entry.1 = name := same
  have absent := List.lookup_eq_none_iff.mp (unused (same ▸ named)) entry member
  simp [same] at absent

end NamesDistinct

end Mam.Library
