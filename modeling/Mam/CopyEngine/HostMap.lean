import Mam.CopyEngine.Platforms
import Mam.CopyEngine.Tags

/-! The type map of the host, against the C types it describes. -/

namespace Mam.CopyEngine

variable {L : Type → Type}

/-- Whether the values of a data type have a sign; no answer for the floating types. -/
def DataType.signed : DataType → Option Bool
  | .int8 | .int16 | .int32 | .int64 | .int128 => some true
  | .uint8 | .uint16 | .uint32 | .uint64 | .uint128 => some false
  | .float16 | .bfloat16 | .float32 | .float64 => none

/-- Whether the values of a C type have a sign, where those of `char` do; no answer for
the floating types. -/
def CType.signed : CType → Option Bool
  | .char | .short | .int | .long | .longLong | .ssizeT | .ptrdiffT | .intptrT => some true
  | .unsignedChar | .unsignedShort | .unsignedInt | .unsignedLong | .unsignedLongLong | .sizeT
  | .voidPointer | .uintptrT => some false
  | .float | .double => none

/-- The C type that a tag is named for; there is none for `MAM_MAPPED_TYPE_HALF`. -/
def MappedType.ctype : MappedType → Option CType
  | .char => some .char
  | .uchar => some .unsignedChar
  | .short => some .short
  | .ushort => some .unsignedShort
  | .int => some .int
  | .uint => some .unsignedInt
  | .long => some .long
  | .ulong => some .unsignedLong
  | .longlong => some .longLong
  | .ulonglong => some .unsignedLongLong
  | .size => some .sizeT
  | .ssize => some .ssizeT
  | .pointer => some .voidPointer
  | .ptrdiff => some .ptrdiffT
  | .intptr => some .intptrT
  | .uintptr => some .uintptrT
  | .half => none
  | .float => some .float
  | .double => some .double

/-- The sizes that the data types cover. -/
structure Supported (sizeof : DataModel) : Prop where
  integer : ∀ ctype, ctype.signed ≠ none → sizeof ctype ∈ [1, 2, 4, 8, 16]
  float : sizeof .float = 4
  double : sizeof .double = 8

/-- The size reported for a mapped tag is that of the C type. -/
def ReportsSize (sizeof : DataModel) (typeMap : TypeMap) (mapped : MappedType) (ctype : CType) : Prop :=
  ∀ (s : Store Vendor.UTArray) (ref : Handle), ∃ align,
    getFieldTypeSizeAlign s { typeMap := typeMap } ⟨mapped.tag, ref⟩ =
      .ok (BitVec.ofNat 64 (sizeof ctype), align)

/-- The data type of a mapped tag has a sign exactly when the C type does. -/
def KeepsSign (typeMap : TypeMap) (mapped : MappedType) (ctype : CType) : Prop :=
  ∀ sign, ctype.signed = some sign →
    ∃ type : DataType, typeMap mapped.index = type.tag ∧ type.signed = some sign

section Entries

variable {sizeof : DataModel}

theorem getInt_ok_iff (sign : Bool) (sz : Nat) :
    (∃ type, getInt sign sz = .ok type) ↔ sz ∈ [1, 2, 4, 8, 16] := by
  unfold getInt
  cases sign <;> simp only [Bool.false_eq_true, if_true, if_false] <;> split <;> simp_all

/-- The data type chosen has the sign and the size asked for. -/
theorem getInt_spec {sign : Bool} {sz : Nat} {type : DataType} (chosen : getInt sign sz = .ok type) :
    type.signed = some sign ∧
      dataTypeSizeAlign type.tag = .ok (BitVec.ofNat 64 sz, BitVec.ofNat 64 sz) := by
  unfold getInt at chosen
  cases sign <;> simp only [Bool.false_eq_true, if_true, if_false] at chosen <;>
    split at chosen <;> cases chosen <;> exact ⟨rfl, rfl⟩

theorem fillInt_ok {typeMap next : TypeMap} {entry : IntEntry}
    (filled : fillInt sizeof typeMap entry = .ok next) :
    ∃ type, getInt entry.sign (sizeof entry.ctype) = .ok type ∧
      next = setType typeMap entry.mapped type := by
  unfold fillInt at filled
  cases chosen : getInt entry.sign (sizeof entry.ctype) with
  | error error => simp [chosen, bind, Except.bind] at filled
  | ok type =>
    simp only [chosen, bind, Except.bind, pure, Except.pure, Except.ok.injEq] at filled
    exact ⟨type, rfl, filled.symm⟩

/-- The calls succeed together exactly when each does. -/
theorem foldlM_fillInt_ok_iff (entries : List IntEntry) :
    ∀ typeMap, (∃ final, entries.foldlM (fillInt sizeof) typeMap = .ok final) ↔
      ∀ entry ∈ entries, ∃ type, getInt entry.sign (sizeof entry.ctype) = .ok type := by
  induction entries with
  | nil => simp [pure, Except.pure]
  | cons entry rest ih =>
    intro typeMap
    rw [List.foldlM_cons, List.forall_mem_cons]
    cases filled : fillInt sizeof typeMap entry with
    | error error =>
      simp only [bind, Except.bind, reduceCtorEq, exists_false, false_iff, not_and]
      intro chosen
      obtain ⟨type, chosen⟩ := chosen
      simp [fillInt, chosen, bind, Except.bind, pure, Except.pure] at filled
    | ok next =>
      obtain ⟨type, chosen, _⟩ := fillInt_ok filled
      simp only [bind, Except.bind, ih next]
      exact ⟨fun later => ⟨⟨type, chosen⟩, later⟩, fun both => both.2⟩

/-- Calls that fill different entries leave each with the type chosen for it, and the
other entries alone. -/
theorem foldlM_fillInt_spec {entries : List IntEntry} :
    ∀ {typeMap final : TypeMap}, entries.foldlM (fillInt sizeof) typeMap = .ok final →
      (entries.map fun entry => entry.mapped.index).Nodup →
      (∀ entry ∈ entries, ∃ type, getInt entry.sign (sizeof entry.ctype) = .ok type ∧
        final entry.mapped.index = type.tag) ∧
      ∀ i, (∀ entry ∈ entries, entry.mapped.index ≠ i) → final i = typeMap i := by
  induction entries with
  | nil =>
    intro typeMap final filled distinct
    cases filled
    exact ⟨by simp, fun i other => rfl⟩
  | cons entry rest ih =>
    intro typeMap final filled distinct
    rw [List.foldlM_cons] at filled
    cases first : fillInt sizeof typeMap entry with
    | error error => simp [first, bind, Except.bind] at filled
    | ok next =>
      simp only [first, bind, Except.bind] at filled
      obtain ⟨type, chosen, same⟩ := fillInt_ok first
      rw [List.map_cons, List.nodup_cons] at distinct
      obtain ⟨written, kept⟩ := ih filled distinct.2
      have unwritten : ∀ later ∈ rest, later.mapped.index ≠ entry.mapped.index :=
        fun later member twice => distinct.1 (List.mem_map.mpr ⟨later, member, twice⟩)
      constructor
      · rw [List.forall_mem_cons]
        refine ⟨⟨type, chosen, ?_⟩, written⟩
        rw [kept _ unwritten, same, setType, Function.update_self]
      · intro i others
        rw [List.forall_mem_cons] at others
        rw [kept i others.2, same, setType, Function.update_of_ne (Ne.symm others.1)]

end Entries

/-- What filling the host map leaves in it: an answer in every entry. -/
structure HostMap (sizeof : DataModel) (typeMap : TypeMap) : Prop where
  integer : ∀ entry ∈ intEntries, ∃ type, getInt entry.sign (sizeof entry.ctype) = .ok type ∧
    typeMap entry.mapped.index = type.tag
  float : sizeof .float = 4 ∧ typeMap MappedType.float.index = DataType.float32.tag
  double : sizeof .double = 8 ∧ typeMap MappedType.double.index = DataType.float64.tag
  half : typeMap MappedType.half.index = DataType.float16.tag

section Host

variable {sizeof : DataModel} {typeMap final : TypeMap}

theorem hostMap_of_filled (filled : fillHostTypeMap sizeof typeMap = .ok final) :
    HostMap sizeof final := by
  unfold fillHostTypeMap at filled
  cases integers : intEntries.foldlM (fillInt sizeof) typeMap with
  | error error => simp [integers, bind, Except.bind] at filled
  | ok map =>
    simp only [integers, bind, Except.bind] at filled
    split at filled
    · cases filled
    · rename_i float
      split at filled
      · cases filled
      · rename_i double
        cases filled
        obtain ⟨written, _⟩ := foldlM_fillInt_spec integers (by decide)
        refine ⟨?_, ⟨not_not.mp float, rfl⟩, ⟨not_not.mp double, rfl⟩, rfl⟩
        -- The last three entries are none of the integers'.
        have apart : ∀ entry ∈ intEntries, entry.mapped.index ≠ MappedType.float.index ∧
            entry.mapped.index ≠ MappedType.double.index ∧
            entry.mapped.index ≠ MappedType.half.index := by decide
        intro entry member
        obtain ⟨type, chosen, stored⟩ := written entry member
        obtain ⟨notFloat, notDouble, notHalf⟩ := apart entry member
        refine ⟨type, chosen, ?_⟩
        rw [setType, Function.update_of_ne notHalf, setType, Function.update_of_ne notDouble, setType,
          Function.update_of_ne notFloat, stored]

/-- The calls of `_mam_get_int` are about the types that are no floating types, all of them. -/
theorem mem_intEntries_ctype (ctype : CType) :
    ctype.signed ≠ none ↔ ∃ entry ∈ intEntries, entry.ctype = ctype := by
  cases ctype <;> decide

/-- The map can be filled exactly for the sizes that the data types cover. -/
theorem filled_iff_supported (sizeof : DataModel) (typeMap : TypeMap) :
    (∃ final, fillHostTypeMap sizeof typeMap = .ok final) ↔ Supported sizeof := by
  constructor
  · intro filled
    obtain ⟨final, filled⟩ := filled
    have host := hostMap_of_filled filled
    refine ⟨?_, host.float.1, host.double.1⟩
    intro ctype plain
    obtain ⟨entry, member, rfl⟩ := (mem_intEntries_ctype ctype).mp plain
    obtain ⟨type, chosen, _⟩ := host.integer entry member
    exact (getInt_ok_iff entry.sign _).mp ⟨type, chosen⟩
  · intro supported
    have chosen : ∀ entry ∈ intEntries, ∃ type, getInt entry.sign (sizeof entry.ctype) = .ok type := by
      intro entry member
      apply (getInt_ok_iff _ _).mpr
      exact supported.integer _ ((mem_intEntries_ctype _).mpr ⟨entry, member, rfl⟩)
    obtain ⟨map, integers⟩ := (foldlM_fillInt_ok_iff intEntries typeMap).mpr chosen
    unfold fillHostTypeMap
    simp [integers, bind, Except.bind, supported.float, supported.double]

/-- Every entry is that of some tag, so that a host map is determined by the sizes: none of
what the map held before is left in it. -/
theorem HostMap.unique {first second : TypeMap} (one : HostMap sizeof first)
    (two : HostMap sizeof second) : first = second := by
  have entries : ∀ i : Fin mappedTypes, (∃ entry ∈ intEntries, entry.mapped.index = i) ∨
      i = MappedType.float.index ∨ i = MappedType.double.index ∨ i = MappedType.half.index := by
    decide
  funext i
  rcases entries i with ⟨entry, member, rfl⟩ | rfl | rfl | rfl
  · obtain ⟨type, chosen, stored⟩ := one.integer entry member
    obtain ⟨again, also, same⟩ := two.integer entry member
    rw [chosen] at also
    cases also
    rw [stored, same]
  · rw [one.float.2, two.float.2]
  · rw [one.double.2, two.double.2]
  · rw [one.half, two.half]

/-- The call of `_mam_get_int` for a tag asks for its C type, and for the right sign but in
two cases. -/
theorem intEntry_of_tag {mapped : MappedType} {ctype : CType} {sign : Bool}
    (named : mapped.ctype = some ctype) (signed : ctype.signed = some sign) :
    ∃ entry ∈ intEntries, entry.mapped = mapped ∧ entry.ctype = ctype ∧
      (entry.sign = sign ↔ mapped ≠ .intptr ∧ mapped ≠ .uintptr) := by
  cases mapped <;> cases named <;> cases signed <;> decide

/-- The look-up of a mapped tag whose entry is a data type goes to the tables. -/
theorem getFieldTypeSizeAlign_mapped {mapped : MappedType} {type : DataType}
    (stored : typeMap mapped.index = type.tag) (s : Store L) (ref : Handle) :
    getFieldTypeSizeAlign s { typeMap := typeMap } ⟨mapped.tag, ref⟩ = dataTypeSizeAlign type.tag := by
  have tagged : ({ typeMap := typeMap } : Platform).mapTag mapped.tag = type.tag :=
    (Platform.mapTag_entry _ mapped.index).trans stored
  have plain : designated type.tag ref = none := by cases type <;> rfl
  have resolved : (⟨mapped.tag, ref⟩ : FieldType).resolved { typeMap := typeMap } = none := by
    rw [FieldType.resolved, tagged, plain]
  rw [getFieldTypeSizeAlign_of_data s resolved, tagged]

theorem HostMap.reportsSize (host : HostMap sizeof typeMap) {mapped : MappedType} {ctype : CType}
    (named : mapped.ctype = some ctype) : ReportsSize sizeof typeMap mapped ctype := by
  intro s ref
  cases signed : ctype.signed with
  | some sign =>
    obtain ⟨entry, member, rfl, rfl, _⟩ := intEntry_of_tag named signed
    obtain ⟨type, chosen, stored⟩ := host.integer entry member
    obtain ⟨_, sized⟩ := getInt_spec chosen
    exact ⟨_, by rw [getFieldTypeSizeAlign_mapped stored, sized]⟩
  | none =>
    cases mapped with
    | float =>
      cases named
      exact ⟨4, by rw [getFieldTypeSizeAlign_mapped host.float.2, host.float.1]; rfl⟩
    | double =>
      cases named
      exact ⟨8, by rw [getFieldTypeSizeAlign_mapped host.double.2, host.double.1]; rfl⟩
    | _ => cases named <;> cases signed

theorem DataType.tag_inj {first second : DataType} (same : first.tag = second.tag) :
    first = second := by
  cases first <;> cases second <;> first | rfl | cases same

theorem HostMap.keepsSign_iff (host : HostMap sizeof typeMap) {mapped : MappedType} {ctype : CType}
    (named : mapped.ctype = some ctype) :
    KeepsSign typeMap mapped ctype ↔ mapped ≠ .intptr ∧ mapped ≠ .uintptr := by
  unfold KeepsSign
  cases signed : ctype.signed with
  | none =>
    cases mapped <;> cases named <;> simp [CType.signed] at signed ⊢
  | some sign =>
    obtain ⟨entry, member, rfl, rfl, right⟩ := intEntry_of_tag named signed
    obtain ⟨type, chosen, stored⟩ := host.integer entry member
    obtain ⟨given, _⟩ := getInt_spec chosen
    rw [← right]
    constructor
    · intro keeps
      obtain ⟨other, same, wanted⟩ := keeps sign rfl
      rw [stored] at same
      rw [← DataType.tag_inj same, given] at wanted
      exact Option.some.inj wanted
    · intro agrees wanted same
      cases same
      exact ⟨type, stored, by rw [given, agrees]⟩

end Host

/-- The host platform has the host map. -/
theorem hostMap_of_created {sizeof : DataModel} {littleEndian calloc ret : Bool} {typeMap : TypeMap}
    {block : PlatformBlock}
    (created : platformCreateHost sizeof littleEndian typeMap calloc ret = .ok block) :
    HostMap sizeof block.typeMap := by
  unfold platformCreateHost at created
  split at created
  · cases created
  · cases filled : fillHostTypeMap sizeof typeMap with
    | error error => simp [filled, bind, Except.bind] at created
    | ok final =>
      simp only [filled, bind, Except.bind, platformBlockCreate] at created
      split at created
      · cases created
      · cases created
        exact hostMap_of_filled filled

/-- The data model with 8 bytes to a `long` and to a pointer. -/
def lp64Model : DataModel
  | .char | .unsignedChar => 1
  | .short | .unsignedShort => 2
  | .int | .unsignedInt | .float => 4
  | _ => 8

private theorem lp64_hostMap : HostMap lp64Model lp64.typeMap := by
  refine ⟨?_, ⟨rfl, rfl⟩, ⟨rfl, rfl⟩, rfl⟩
  unfold intEntries
  simp only [List.forall_mem_cons, List.not_mem_nil, false_implies, implies_true, and_true]
  and_intros <;> exact ⟨_, rfl, rfl⟩

/-- The platform of the runs is the host platform of such a host, whatever the map holds
before it is filled. -/
theorem lp64_filled (typeMap : TypeMap) : fillHostTypeMap lp64Model typeMap = .ok lp64.typeMap := by
  have supported : Supported lp64Model := by
    refine ⟨?_, rfl, rfl⟩
    intro ctype plain
    cases ctype <;> simp [lp64Model]
  obtain ⟨final, filled⟩ := (filled_iff_supported lp64Model typeMap).mpr supported
  rw [filled, (hostMap_of_filled filled).unique lp64_hostMap]

/-- For every data model, the host map can be filled exactly where the data types cover the
sizes; it then reports the size of every C type, and keeps the sign of all but `intptr_t`
and `uintptr_t`. -/
theorem host_described (sizeof : DataModel) (typeMap : TypeMap) :
    ((∃ final, fillHostTypeMap sizeof typeMap = .ok final) ↔ Supported sizeof) ∧
      ∀ final, fillHostTypeMap sizeof typeMap = .ok final →
        ∀ mapped ctype, mapped.ctype = some ctype →
          ReportsSize sizeof final mapped ctype ∧
            (KeepsSign final mapped ctype ↔ mapped ≠ .intptr ∧ mapped ≠ .uintptr) := by
  refine ⟨filled_iff_supported sizeof typeMap, ?_⟩
  intro final filled mapped ctype named
  have host := hostMap_of_filled filled
  exact ⟨host.reportsSize named, host.keepsSign_iff named⟩

theorem lp64_described : ReportsSize lp64Model lp64.typeMap .long .long ∧
    (KeepsSign lp64.typeMap .long .long ↔ MappedType.long ≠ .intptr ∧ MappedType.long ≠ .uintptr) :=
  (host_described lp64Model fun _ => 0).2 lp64.typeMap (lp64_filled _) .long .long rfl

/-- On such a host `intptr_t` is described as unsigned. -/
theorem intptr_unsigned : ¬ ∀ (sizeof : DataModel) (typeMap final : TypeMap),
    fillHostTypeMap sizeof typeMap = .ok final → ∀ mapped ctype, mapped.ctype = some ctype →
      ReportsSize sizeof final mapped ctype ∧ KeepsSign final mapped ctype := by
  intro described
  obtain ⟨_, keeps⟩ := described lp64Model (fun _ => 0) lp64.typeMap (lp64_filled _)
    .intptr .intptrT rfl
  obtain ⟨type, stored, signed⟩ := keeps true rfl
  have chosen : type = .uint64 := DataType.tag_inj stored.symm
  rw [chosen] at signed
  cases signed

end Mam.CopyEngine
