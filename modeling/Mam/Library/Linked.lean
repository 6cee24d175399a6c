import Mam.Library.Loop
import Mathlib.Data.List.Nodup

/-! Lists threaded through memory. A link field is a map from addresses, so that writing
one field leaves the others alone. -/

namespace Mam.Library

universe u v

variable {Ref : Type u} {State : Type v}

/-- From `start` the links lead through exactly these addresses, and then to NULL. -/
def Chain (next : Ref → Option Ref) : Option Ref → List Ref → Prop
  | start, [] => start = none
  | start, item :: rest => start = some item ∧ Chain next (next item) rest

instance Chain.decidable [DecidableEq Ref] (next : Ref → Option Ref) :
    (start : Option Ref) → (items : List Ref) → Decidable (Chain next start items)
  | start, [] => inferInstanceAs (Decidable (start = none))
  | start, item :: rest =>
    have := Chain.decidable next (next item) rest
    inferInstanceAs (Decidable (start = some item ∧ Chain next (next item) rest))

/-- Each address points back at the one before it, and the first at `before`. -/
def BackLinked (prev : Ref → Option Ref) : Option Ref → List Ref → Prop
  | _, [] => True
  | before, item :: rest => prev item = before ∧ BackLinked prev (some item) rest

/-- A doubly linked list. -/
structure Linked (next prev : Ref → Option Ref) (start : Option Ref) (items : List Ref) : Prop where
  forward : Chain next start items
  backward : BackLinked prev none items

/-- An address that following the links comes to. -/
inductive Reaches (next : Ref → Option Ref) : Option Ref → Ref → Prop where
  | here (item : Ref) : Reaches next (some item) item
  | later {item target : Ref} (rest : Reaches next (next item) target) :
      Reaches next (some item) target

variable {next next' prev prev' : Ref → Option Ref} {start before : Option Ref}
variable {item last : Ref} {items front back : List Ref}

namespace Chain

theorem head (chain : Chain next start items) : start = items.head? := by
  cases items with
  | nil => exact chain
  | cons first rest => exact chain.1

theorem congr (chain : Chain next start items) (same : ∀ item ∈ items, next' item = next item) :
    Chain next' start items := by
  induction items generalizing start with
  | nil => exact chain
  | cons first rest ih =>
    obtain ⟨here, onward⟩ := chain
    refine ⟨here, ?_⟩
    rw [same first (by simp)]
    exact ih onward fun item member => same item (by simp [member])

/-- The links decide the list. -/
theorem unique {others : List Ref} (chain : Chain next start items)
    (other : Chain next start others) : items = others := by
  induction items generalizing start others with
  | nil =>
    cases others with
    | nil => rfl
    | cons first rest =>
      have here : start = none := chain
      rw [here] at other
      cases other.1
  | cons first rest ih =>
    cases others with
    | nil =>
      have here : start = none := other
      rw [here] at chain
      cases chain.1
    | cons second more =>
      have same : first = second := Option.some.inj (chain.1.symm.trans other.1)
      subst same
      rw [ih chain.2 other.2]

theorem suffix (chain : Chain next start (front ++ item :: back)) :
    Chain next (some item) (item :: back) := by
  induction front generalizing start with
  | nil => exact ⟨rfl, chain.2⟩
  | cons first rest ih => exact ih chain.2

/-- A list that ends comes to no address twice. -/
theorem nodup (chain : Chain next start items) : items.Nodup := by
  induction items generalizing start with
  | nil => exact List.nodup_nil
  | cons first rest ih =>
    refine List.nodup_cons.mpr ⟨?_, ih chain.2⟩
    intro again
    obtain ⟨front, back, same⟩ := List.append_of_mem again
    have onward : Chain next (next first) (front ++ first :: back) := same ▸ chain.2
    -- The list that starts at the second visit is the one that starts at the first.
    have whole : first :: rest = first :: back :=
      unique (⟨rfl, chain.2⟩ : Chain next (some first) (first :: rest)) onward.suffix
    have shorter : rest.length = back.length := congrArg List.length (List.cons.inj whole).2
    have longer : rest.length = front.length + (back.length + 1) := by simp [same]
    omega

/-- Past an address whose link is redirected, the list goes on where the link leads. -/
theorem splice {after : List Ref} (chain : Chain next start (front ++ item :: back))
    (kept : ∀ other ∈ front, next' other = next other) (onward : Chain next' (next' item) after) :
    Chain next' start (front ++ item :: after) := by
  induction front generalizing start with
  | nil => exact ⟨chain.1, onward⟩
  | cons first rest ih =>
    refine ⟨chain.1, ?_⟩
    rw [kept first (by simp)]
    exact ih chain.2 fun other member => kept other (by simp [member])

/-- The link of the last address is NULL. -/
theorem last_next (chain : Chain next start items) (final : items.getLast? = some last) :
    next last = none := by
  obtain ⟨front, rfl⟩ := List.getLast?_eq_some_iff.mp final
  exact chain.suffix.2

/-- The links of the list stay in it. -/
theorem next_mem (chain : Chain next start items) (member : item ∈ items) {other : Ref}
    (link : next item = some other) : other ∈ items := by
  obtain ⟨front, back, rfl⟩ := List.append_of_mem member
  have onward : Chain next (next item) back := chain.suffix.2
  rw [link] at onward
  cases back with
  | nil => cases (onward : some other = none)
  | cons second rest =>
    rw [Option.some.inj onward.1]
    simp

theorem reaches_iff (chain : Chain next start items) : Reaches next start item ↔ item ∈ items := by
  induction items generalizing start with
  | nil =>
    have here : start = none := chain
    subst here
    exact ⟨nofun, nofun⟩
  | cons first rest ih =>
    obtain ⟨here, onward⟩ := chain
    subst here
    constructor
    · intro reached
      cases reached with
      | here => exact List.mem_cons_self
      | later rest => exact List.mem_cons_of_mem _ ((ih onward).mp rest)
    · intro member
      rcases List.mem_cons.mp member with same | later
      · subst same
        exact .here item
      · exact .later ((ih onward).mpr later)

end Chain

namespace BackLinked

theorem congr (linked : BackLinked prev before items)
    (same : ∀ item ∈ items, prev' item = prev item) : BackLinked prev' before items := by
  induction items generalizing before with
  | nil => trivial
  | cons first rest ih =>
    refine ⟨?_, ih linked.2 fun item member => same item (by simp [member])⟩
    rw [same first (by simp)]
    exact linked.1

theorem append_iff : BackLinked prev before (front ++ back) ↔
    BackLinked prev before front ∧ BackLinked prev (front.getLast?.or before) back := by
  induction front generalizing before with
  | nil => simp [BackLinked]
  | cons first rest ih =>
    simp only [List.cons_append, BackLinked, ih, and_assoc]
    cases rest <;> simp [List.getLast?_cons]

/-- The links back stay in the list, or are the one its first address has. -/
theorem prev_mem (linked : BackLinked prev before items) (member : item ∈ items) {other : Ref}
    (link : prev item = some other) : other ∈ items ∨ before = some other := by
  induction items generalizing before with
  | nil => cases member
  | cons first rest ih =>
    rcases List.mem_cons.mp member with same | later
    · subst same
      exact .inr (linked.1.symm.trans link)
    · rcases ih linked.2 later with there | here
      · exact .inl (List.mem_cons_of_mem _ there)
      · exact .inl (Option.some.inj here ▸ List.mem_cons_self)

end BackLinked

namespace Linked

theorem nil : Linked next prev none [] := ⟨rfl, trivial⟩

theorem congr (linked : Linked next prev start items)
    (nexts : ∀ item ∈ items, next' item = next item)
    (prevs : ∀ item ∈ items, prev' item = prev item) : Linked next' prev' start items :=
  ⟨linked.forward.congr nexts, linked.backward.congr prevs⟩

theorem nodup (linked : Linked next prev start items) : items.Nodup := linked.forward.nodup

theorem prev_mem (linked : Linked next prev start items) (member : item ∈ items) {other : Ref}
    (link : prev item = some other) : other ∈ items := by
  rcases linked.backward.prev_mem member link with there | here
  · exact there
  · cases here

/-- An address put in front. -/
theorem push (linked : Linked next prev start items) (fresh : item ∉ items)
    (link : next' item = start) (nexts : ∀ other ∈ items, next' other = next other)
    (backlink : prev' item = none) (second : ∀ first, start = some first → prev' first = some item)
    (prevs : ∀ other ∈ items, start ≠ some other → prev' other = prev other) :
    Linked next' prev' (some item) (item :: items) := by
  refine ⟨⟨rfl, link ▸ linked.forward.congr nexts⟩, backlink, ?_⟩
  cases items with
  | nil => trivial
  | cons first rest =>
    have here := linked.forward.1
    refine ⟨second first here, linked.backward.2.congr fun other member => ?_⟩
    apply prevs other (List.mem_cons_of_mem _ member)
    rw [here]
    intro same
    have apart := (List.nodup_cons.mp linked.nodup).1
    exact apart (Option.some.inj same ▸ member)

/-- An address put at the end. -/
theorem snoc (linked : Linked next prev start items) (final : items.getLast? = some last)
    (nexts : ∀ other ∈ items, other ≠ last → next' other = next other)
    (link : next' last = some item) (ends : next' item = none)
    (prevs : ∀ other ∈ items, prev' other = prev other) (backlink : prev' item = some last) :
    Linked next' prev' start (items ++ [item]) := by
  obtain ⟨front, rfl⟩ := List.getLast?_eq_some_iff.mp final
  have apart : last ∉ front := by
    have nodup := linked.nodup
    rw [List.nodup_append] at nodup
    exact fun member => nodup.2.2 last member last (by simp) rfl
  refine ⟨?_, ?_⟩
  · rw [List.append_assoc]
    refine linked.forward.splice (fun other member => ?_) ⟨link, ends⟩
    exact nexts other (by simp [member]) fun same => apart (same ▸ member)
  · rw [BackLinked.append_iff]
    refine ⟨linked.backward.congr prevs, ?_⟩
    simp [BackLinked, backlink]

end Linked

section Loops

/-- More fuel changes no result. -/
theorem whileLoop_mono {test : State → Bool} {body : State → State} {fuel more : Nat}
    {state result : State} (le : fuel ≤ more)
    (stopped : whileLoop test body fuel state = some result) :
    whileLoop test body more state = some result := by
  obtain ⟨steps, bound, found⟩ := whileLoop_eq_some_iff.mp stopped
  exact whileLoop_eq_some_iff.mpr ⟨steps, Nat.lt_of_lt_of_le bound le, found⟩

theorem foldlM_mono {first second : State → Ref → Option State}
    (mono : ∀ state item result, first state item = some result → second state item = some result)
    {state result : State} (finished : items.foldlM first state = some result) :
    items.foldlM second state = some result := by
  induction items generalizing state with
  | nil => exact finished
  | cons item rest ih =>
    rw [List.foldlM_cons] at finished ⊢
    obtain ⟨middle, here, onward⟩ := Option.bind_eq_some_iff.mp finished
    rw [mono state item middle here]
    exact ih onward

variable {test : State → Bool} {body : State → State}

/-- A loop that visits the elements of a list one after another stops after the last. -/
theorem whileLoop_visits (inv : List Ref → List Ref → State → Prop)
    (running : ∀ seen rest state, inv seen rest state → test state = !rest.isEmpty)
    (kept : ∀ seen item rest state, inv seen (item :: rest) state →
      inv (seen ++ [item]) rest (body state))
    {fuel : Nat} {seen rest : List Ref} {state : State} (initial : inv seen rest state)
    (enough : rest.length < fuel) :
    ∃ result, whileLoop test body fuel state = some result ∧ inv (seen ++ rest) [] result := by
  induction fuel generalizing seen rest state with
  | zero => omega
  | succ fuel ih =>
    have now := running seen rest state initial
    cases rest with
    | nil =>
      refine ⟨state, ?_, by simpa using initial⟩
      simp at now
      simp [whileLoop, now]
    | cons item rest =>
      have onward := kept seen item rest state initial
      have shorter : rest.length < fuel := by simp at enough; omega
      obtain ⟨result, stopped, final⟩ := ih onward shorter
      refine ⟨result, ?_, by simpa using final⟩
      simp at now
      simp [whileLoop, now, stopped]

/-- A walk along the links to the first address that is good, or to NULL. -/
theorem whileLoop_find (chain : Chain next start items) (good : Ref → Bool) {fuel : Nat}
    (enough : items.length < fuel) :
    whileLoop (fun out => out.any fun item => !good item) (fun out => out.bind next) fuel start =
      some (items.find? good) := by
  induction items generalizing start fuel with
  | nil =>
    have here : start = none := chain
    subst here
    cases fuel with
    | zero => simp at enough
    | succ fuel => rfl
  | cons first rest ih =>
    obtain ⟨here, onward⟩ := chain
    subst here
    cases fuel with
    | zero => simp at enough
    | succ fuel =>
      cases wanted : good first with
      | true => simp [whileLoop, wanted]
      | false =>
        have shorter : rest.length < fuel := by simp at enough; omega
        simpa [whileLoop, wanted] using ih onward shorter

end Loops

end Mam.Library
