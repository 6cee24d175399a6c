import Mathlib.Logic.Basic

/-! The room that a pool of blocks takes, set against what was asked of it: the blocks are filled
one after the other, and a new block is no larger than all before it, unless the demand that it
is obtained for needs it. -/

namespace Mam.Library

/-- The room of the closed blocks, and the room and the fill of the open one. -/
structure Pool where
  closed : Nat
  current : Option (Nat × Nat)

namespace Pool

/-- The room of all blocks. -/
def room (p : Pool) : Nat := p.closed + p.current.elim 0 Prod.fst

/-- The fill of the open block. -/
def fill (p : Pool) : Nat := p.current.elim 0 Prod.snd

/-- The room of the closed blocks, after the open one, if there is one, did not have room for a
demand. -/
inductive Closes (demand : Nat) : Pool → Nat → Prop where
  | absent {closed : Nat} : Closes demand ⟨closed, none⟩ closed
  | short {closed size used : Nat} (short : size ≤ used + demand) :
      Closes demand ⟨closed, some (size, used)⟩ (closed + size)

/-- The answer to a demand. -/
inductive Answer (unit demand : Nat) : Pool → Pool → Prop where
  | stay {p : Pool} : Answer unit demand p p
  | spend {closed size used more : Nat} (within : more ≤ demand) :
      Answer unit demand ⟨closed, some (size, used)⟩ ⟨closed, some (size, used + more)⟩
  | close {p : Pool} {closed : Nat} (closes : Closes demand p closed) :
      Answer unit demand p ⟨closed, none⟩
  | renew {p : Pool} {closed size used : Nat} (closes : Closes demand p closed)
      (within : used ≤ demand) (least : unit ≤ size)
      (tight : max unit closed < size → size < 2 * demand) :
      Answer unit demand p ⟨closed, some (size, used)⟩

/-- What was asked pays for the fill and for what the closed blocks left over, half each. -/
structure Paid (unit asked : Nat) (p : Pool) : Prop where
  filled : p.closed + p.fill ≤ 2 * asked
  least : p.closed = 0 ∨ unit ≤ p.closed
  openBlock : ∀ size used, p.current = some (size, used) → unit ≤ size ∧ size ≤ max unit (2 * asked)

variable {unit asked demand closed : Nat} {p q : Pool}

/-- More asked pays for no less. -/
theorem Paid.mono (paid : Paid unit asked p) : Paid unit (asked + demand) p where
  filled := Nat.le_trans paid.filled (Nat.mul_le_mul_left 2 (Nat.le_add_right asked demand))
  least := paid.least
  openBlock := by
    intro size used present
    obtain ⟨least, most⟩ := paid.openBlock size used present
    exact ⟨least, by omega⟩

/-- The demand that did not fit pays for the room that is left over. -/
theorem Closes.paid (closes : Closes demand p closed) (paid : Paid unit asked p) :
    closed ≤ 2 * asked + demand ∧ (closed = 0 ∨ unit ≤ closed) := by
  have filled := paid.filled
  cases closes with
  | absent => exact ⟨Nat.le_trans filled (Nat.le_add_right _ _), paid.least⟩
  | @short earlier size used short =>
    obtain ⟨least, _⟩ := paid.openBlock size used rfl
    refine ⟨?_, .inr (Nat.le_trans least (Nat.le_add_left _ _))⟩
    calc earlier + size
        ≤ earlier + (used + demand) := Nat.add_le_add_left short _
      _ = earlier + used + demand := (Nat.add_assoc _ _ _).symm
      _ ≤ 2 * asked + demand := Nat.add_le_add_right filled _

/-- A demand pays twice: for what it fills, and for what it leaves behind. -/
theorem Answer.paid (answer : Answer unit demand p q) (paid : Paid unit asked p) :
    Paid unit (asked + demand) q := by
  cases answer with
  | stay => exact paid.mono
  | @spend closed size used more within =>
    have filled : closed + used ≤ 2 * asked := paid.filled
    obtain ⟨least, most⟩ := paid.openBlock size used rfl
    refine ⟨?_, paid.least, ?_⟩
    · show closed + (used + more) ≤ 2 * (asked + demand)
      omega
    · rintro _ _ ⟨⟩
      exact ⟨least, by omega⟩
  | @close _ closed closes =>
    obtain ⟨bound, least⟩ := closes.paid paid
    refine ⟨?_, least, ?_⟩
    · show closed + 0 ≤ 2 * (asked + demand)
      omega
    · intro size used present
      cases present
  | @renew _ closed size used closes within least tight =>
    obtain ⟨bound, before⟩ := closes.paid paid
    refine ⟨?_, before, ?_⟩
    · show closed + used ≤ 2 * (asked + demand)
      omega
    · rintro _ _ ⟨⟩
      refine ⟨least, ?_⟩
      rcases Nat.lt_or_ge (max unit closed) size with larger | covered
      · have twice := tight larger
        omega
      · omega

/-- All blocks together take at most four times what was asked, or are a single least block. -/
theorem Paid.room_le (paid : Paid unit asked p) : p.room ≤ max unit (4 * asked) := by
  obtain ⟨closed, current⟩ := p
  have filled := paid.filled
  have least := paid.least
  cases current with
  | none =>
    have filled : closed + 0 ≤ 2 * asked := filled
    show closed + 0 ≤ _
    omega
  | some block =>
    obtain ⟨size, used⟩ := block
    have filled : closed + used ≤ 2 * asked := filled
    obtain ⟨_, most⟩ := paid.openBlock size used rfl
    show closed + size ≤ _
    rcases least with none | some
    · have none : closed = 0 := none
      omega
    · have some : unit ≤ closed := some
      omega

end Pool

end Mam.Library
