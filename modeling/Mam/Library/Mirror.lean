import Mam.Library.Arena

/-! Windows from one address space into another: where they take an address, and memory that is
copied through them. -/

namespace Mam.Library

/-- `size` addresses from `source` on, and where they begin on the other side. -/
structure Window where
  source : Nat
  target : Nat
  size : Nat
deriving DecidableEq, Repr

namespace Window

variable {β : Type} {v w : Window} {ws : List Window} {a b : Nat} {source target : Nat → β}

/-- The window the other way. -/
def flip (w : Window) : Window := ⟨w.target, w.source, w.size⟩

/-- Where a window takes an address. -/
def translate (w : Window) (a : Nat) : Option Nat :=
  if w.source ≤ a ∧ a < w.source + w.size then some (w.target + (a - w.source)) else none

/-- Memory on the other side after what is in the window was copied there. -/
def copy (w : Window) (source target : Nat → β) : Nat → β :=
  fun b => (w.flip.translate b).elim (target b) source

/-- Windows that begin with no address in common. -/
def Apart (v w : Window) : Prop := Disjoint (span v.source v.size) (span w.source w.size)

/-- A part of a window, at one offset on both sides. -/
structure Part (v w : Window) : Prop where
  above : w.source ≤ v.source
  below : v.source + v.size ≤ w.source + w.size
  sameOffset : v.source + w.target = v.target + w.source

theorem translate_eq_some_iff : w.translate a = some b ↔
    w.source ≤ a ∧ a < w.source + w.size ∧ b = w.target + (a - w.source) := by
  unfold translate
  split
  · rename_i inside
    simp only [Option.some.injEq, inside, true_and]
    exact eq_comm
  · rename_i outside
    constructor
    · exact nofun
    · exact fun ⟨above, below, _⟩ => absurd ⟨above, below⟩ outside

theorem translate_offset {i : Nat} (inside : i < w.size) :
    w.translate (w.source + i) = some (w.target + i) :=
  translate_eq_some_iff.mpr ⟨by omega, by omega, by omega⟩

theorem translate_flip_iff : w.flip.translate b = some a ↔ w.translate a = some b := by
  rw [translate_eq_some_iff, translate_eq_some_iff]
  simp only [flip]
  constructor
  · rintro ⟨above, below, rfl⟩
    exact ⟨by omega, by omega, by omega⟩
  · rintro ⟨above, below, rfl⟩
    exact ⟨by omega, by omega, by omega⟩

/-- A window takes the addresses of its parts where the parts take them. -/
theorem Part.translate (part : v.Part w) (goes : v.translate a = some b) :
    w.translate a = some b := by
  obtain ⟨above, below, sameOffset⟩ := part
  obtain ⟨lower, upper, rfl⟩ := translate_eq_some_iff.mp goes
  exact translate_eq_some_iff.mpr ⟨by omega, by omega, by omega⟩

/-- No address is in two windows that are apart. -/
theorem Apart.translate_eq_none (apart : v.Apart w) {c : Nat} (goes : w.translate a = some c) :
    v.translate a = none := by
  refine Option.eq_none_iff_forall_not_mem.mpr fun b also => ?_
  obtain ⟨lower, upper, _⟩ := translate_eq_some_iff.mp goes
  obtain ⟨lower', upper', _⟩ := translate_eq_some_iff.mp also
  exact Set.disjoint_left.mp apart ⟨lower', upper'⟩ ⟨lower, upper⟩

section Lists

/-- Where the first window that has an address takes it. -/
def translateAll (ws : List Window) (a : Nat) : Option Nat := ws.findSome? (·.translate a)

/-- Memory after one window after another was copied. -/
def copyAll (ws : List Window) (source target : Nat → β) : Nat → β :=
  ws.foldl (fun memory w => w.copy source memory) target

/-- Windows that are apart on either side. -/
structure TwoSided (ws : List Window) : Prop where
  sources : ws.Pairwise Apart
  targets : (ws.map flip).Pairwise Apart

@[simp] theorem flip_flip (w : Window) : w.flip.flip = w := rfl

theorem map_flip_flip (ws : List Window) : (ws.map flip).map flip = ws := by
  rw [List.map_map]
  exact List.map_id ws

theorem TwoSided.flip (sides : TwoSided ws) : TwoSided (ws.map Window.flip) :=
  ⟨sides.targets, (map_flip_flip ws).symm ▸ sides.sources⟩

theorem translateAll_cons (w : Window) (ws : List Window) (a : Nat) :
    translateAll (w :: ws) a = (w.translate a).or (translateAll ws a) := by
  rw [translateAll, List.findSome?_cons]
  cases w.translate a <;> rfl

/-- Where windows are apart it does not matter which comes first. -/
theorem translateAll_eq_some_iff (apart : ws.Pairwise Apart) :
    translateAll ws a = some b ↔ ∃ w ∈ ws, w.translate a = some b := by
  induction ws with
  | nil => simp [translateAll]
  | cons w rest ih =>
    obtain ⟨first, later⟩ := List.pairwise_cons.mp apart
    rw [translateAll_cons, List.exists_mem_cons_iff, ← ih later]
    cases here : w.translate a with
    | some c =>
      have alone : translateAll rest a ≠ some b := fun also => by
        obtain ⟨other, member, goes⟩ := (ih later).mp also
        cases here.symm.trans ((first other member).translate_eq_none goes)
      simp [alone]
    | none => simp

/-- The windows the other way take every address back. -/
theorem translateAll_flip_iff (sides : TwoSided ws) :
    translateAll (ws.map Window.flip) b = some a ↔ translateAll ws a = some b := by
  rw [translateAll_eq_some_iff sides.targets, translateAll_eq_some_iff sides.sources]
  simp only [List.mem_map, exists_exists_and_eq_and, translate_flip_iff]

/-- More windows take an address where it went. -/
theorem translateAll_of_grown {more : List Window} (longer : ws <+: more)
    (goes : translateAll ws a = some b) : translateAll more a = some b := by
  obtain ⟨added, rfl⟩ := longer
  rw [translateAll, List.findSome?_append]
  rw [translateAll] at goes
  rw [goes]
  rfl

/-- Copied through windows that are apart, an address has what the one that comes there had. -/
theorem copyAll_eq (apart : (ws.map Window.flip).Pairwise Apart) :
    copyAll ws source target b =
      (translateAll (ws.map Window.flip) b).elim (target b) source := by
  induction ws generalizing target with
  | nil => rfl
  | cons w rest ih =>
    obtain ⟨first, later⟩ := List.pairwise_cons.mp apart
    rw [List.map_cons, translateAll_cons]
    refine (ih later).trans ?_
    cases beyond : translateAll (rest.map Window.flip) b with
    | some a =>
      obtain ⟨other, member, goes⟩ := (translateAll_eq_some_iff later).mp beyond
      have missed : w.flip.translate b = none := (first other member).translate_eq_none goes
      rw [missed]
      rfl
    | none =>
      rw [Option.or_none]
      rfl

theorem copyAll_of_translate (sides : TwoSided ws) (goes : translateAll ws a = some b) :
    copyAll ws source target b = source a := by
  rw [copyAll_eq sides.targets, (translateAll_flip_iff sides).mpr goes]
  rfl

theorem copyAll_elsewhere (sides : TwoSided ws) (unreached : ∀ a, translateAll ws a ≠ some b) :
    copyAll ws source target b = target b := by
  have none : translateAll (ws.map Window.flip) b = none :=
    Option.eq_none_iff_forall_not_mem.mpr fun a comes =>
      unreached a ((translateAll_flip_iff sides).mp comes)
  rw [copyAll_eq sides.targets, none]
  rfl

/-- What is copied there and back is as it was. -/
theorem copyAll_back (sides : TwoSided ws) :
    copyAll (ws.map Window.flip) (copyAll ws source target) source = source := by
  funext a
  rw [copyAll_eq sides.flip.targets, map_flip_flip]
  cases goes : translateAll ws a with
  | none => rfl
  | some b => exact copyAll_of_translate sides goes

end Lists

end Window

end Mam.Library
