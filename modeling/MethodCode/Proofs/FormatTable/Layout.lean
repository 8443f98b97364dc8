import MethodCode.FormatTable.Standard
import MethodCode.Proofs.Execution

/-! How the standard instruction set is laid out. The table is closed data, so what holds of all its
entries is settled by going through them once; from then on the entries are reasoned about by family.
Main statements: a family fixes the length of its instructions and the size and byte order of their
index, and a fast form takes the same room as the standard code it replaces. -/

namespace MethodCode

/-- The flags that tell the size of an index: an offset is no index. -/
def FormatFlags.indexSize : FormatFlags := .of [.hasU2, .hasU4, .notSimple, .hasOffset]

namespace FormatEntry

/-- The family of the instruction that an entry describes. -/
def family (e : FormatEntry) : Family := .ofCanonical e.canonical

/-- An index of one byte follows the opcode. -/
def HasByteIndex (e : FormatEntry) : Prop :=
  e.flags &&& FormatFlags.indexSize = .of []

/-- An index of two bytes follows the opcode, in native order if `native`. -/
def HasShortIndex (e : FormatEntry) (native : Bool) : Prop :=
  e.flags &&& FormatFlags.indexSize = .of [.hasU2] ∧ e.flags.contains (.of [.hasNative]) = native ∧
    e.flags.contains (.of [.hasCacheIndex, .hasU4, .hasNative]) = false

/-- A cache index of four bytes in native order follows the opcode. -/
def HasWordIndex (e : FormatEntry) : Prop :=
  e.flags &&& FormatFlags.indexSize = .of [.hasU4] ∧ e.flags.contains (.of [.hasNative]) = true ∧
    e.flags.contains (.of [.hasCacheIndex, .hasU4, .hasNative]) = true

instance (e : FormatEntry) : Decidable e.HasByteIndex := inferInstanceAs (Decidable (_ = _))

instance (e : FormatEntry) (native : Bool) : Decidable (e.HasShortIndex native) :=
  inferInstanceAs (Decidable (_ ∧ _))

instance (e : FormatEntry) : Decidable e.HasWordIndex := inferInstanceAs (Decidable (_ ∧ _))

/-- How an instruction of the family `family` is laid out. -/
def LaidOut (op : Opcode) (e : FormatEntry) : Family → Prop
  | .fieldAccess => e.length = some 3 ∧ e.HasShortIndex true
  | .invoke => (e.length = some 3 ∨ e.length = some 5) ∧ e.HasShortIndex true
  | .dynamicInvoke => op = .invokedynamic ∧ e.length = some 5 ∧ e.HasWordIndex
  | .loadConstant =>
    if e.canonical = .ldc then e.length = some 2 ∧ e.HasByteIndex
    else e.length = some 3 ∧ e.HasShortIndex op.isFast
  | .branch => e.length = some (if e.flags.has .hasU4 then 5 else 3) ∧ op.isFast = false
  | .lookupSwitch => e.length = none ∧ e.canonical = .lookupswitch
  | .tableSwitch => e.length = none ∧ op = .tableswitch ∧ e.canonical = .tableswitch
  | .typeReference | .other => True

instance (op : Opcode) (e : FormatEntry) (family : Family) : Decidable (e.LaidOut op family) := by
  cases family <;> unfold LaidOut <;> infer_instance

/-- What holds of the instructions of every family: they take up room, only branches have an offset, and
only a fast form stands for another code. -/
def Regular (op : Opcode) (e : FormatEntry) : Prop :=
  (∀ n ∈ e.length, 0 < n) ∧ (∀ n ∈ e.wideLength, 1 < n) ∧
    (e.flags.has .hasOffset ↔ e.family = .branch) ∧ (op.isFast = false → e.canonical = op)

instance (op : Opcode) (e : FormatEntry) : Decidable (e.Regular op) :=
  inferInstanceAs (Decidable (_ ∧ _))

end FormatEntry

/-! ### Codes by family -/

namespace Opcode

theorem mem_all (op : Opcode) : op ∈ all := by
  refine List.mem_map.mpr ⟨op.byte.toNat, List.mem_range.mpr op.byte.toNat_lt, ?_⟩
  cases op
  simp

/-- The standard codes that access a field. -/
def fieldAccesses : List Opcode := [.getstatic, .putstatic, .getfield, .putfield]

/-- The standard codes that invoke a method the pool names. -/
def invokes : List Opcode := [.invokevirtual, .invokespecial, .invokestatic, .invokeinterface]

private theorem families_of_all : ∀ op ∈ all,
    (Family.ofCanonical op = .fieldAccess ↔ op ∈ fieldAccesses) ∧
      (Family.ofCanonical op = .invoke ↔ op ∈ invokes) ∧
      (Family.ofCanonical op = .dynamicInvoke ↔ op = .invokedynamic) := by
  decide +kernel

theorem ofCanonical_eq_fieldAccess {op : Opcode} :
    Family.ofCanonical op = .fieldAccess ↔ op ∈ fieldAccesses :=
  (families_of_all op op.mem_all).1

theorem ofCanonical_eq_invoke {op : Opcode} : Family.ofCanonical op = .invoke ↔ op ∈ invokes :=
  (families_of_all op op.mem_all).2.1

theorem ofCanonical_eq_dynamicInvoke {op : Opcode} :
    Family.ofCanonical op = .dynamicInvoke ↔ op = .invokedynamic :=
  (families_of_all op op.mem_all).2.2

end Opcode

namespace FormatTable

/-! ### Questions about a defined opcode -/

section Entry

variable {t : FormatTable} {op : Opcode} {e : FormatEntry}

theorem entry_eq_ok : t.entry op = .ok e ↔ t.entry? op = some e := by
  unfold entry
  cases t.entry? op <;> simp

theorem length_of_entry (he : t.entry? op = some e) (wide : Bool) :
    t.length op wide = .ok (if wide then e.wideLength else e.length) := by
  rw [length, entry_eq_ok.mpr he]
  rfl

theorem flags_of_entry (he : t.entry? op = some e) (wide : Bool) :
    t.flags op wide = .ok (if wide then e.wideFlags else e.flags) := by
  rw [flags, entry_eq_ok.mpr he]
  rfl

theorem hasAllFlags_of_entry (he : t.entry? op = some e) (test : FormatFlags) :
    t.hasAllFlags op test false = .ok (e.flags.contains test) := by
  rw [hasAllFlags, flags_of_entry he]
  rfl

theorem hasWideIndex_of_entry (he : t.entry? op = some e) :
    t.hasWideIndex op = .ok (e.flags.contains (.of [.hasCacheIndex, .hasU4, .hasNative])) :=
  hasAllFlags_of_entry he _

theorem name_of_entry (he : t.entry? op = some e) : t.name op = .ok e.name := by
  rw [name, entry_eq_ok.mpr he]
  rfl

theorem canonical_of_entry (he : t.entry? op = some e) : t.canonical op = .ok e.canonical := by
  rw [canonical, entry_eq_ok.mpr he]
  rfl

theorem family_of_entry (he : t.entry? op = some e) : t.family op = .ok e.family := by
  rw [family, canonical_of_entry he]
  rfl

theorem isDefined_iff : t.isDefined op = true ↔ ∃ e, t.entry? op = some e :=
  Option.isSome_iff_exists

/-- Whatever is asked of an opcode, the answer comes from its entry. -/
theorem exists_entry_of_bind {α : Type} {f : FormatEntry → Except Fault α} {a : α}
    (h : (do f (← t.entry op)) = .ok a) : ∃ e, t.entry? op = some e := by
  obtain ⟨e, he, -⟩ := bind_eq_ok.mp h
  exact ⟨e, entry_eq_ok.mp he⟩

end Entry

/-! ### The entries of the standard set -/

/-- Whether every defined opcode passes a test. -/
def all (t : FormatTable) (test : Opcode → FormatEntry → Bool) : Bool :=
  Opcode.all.all fun op => (t.entry? op).all (test op)

theorem of_all {t : FormatTable} {test : Opcode → FormatEntry → Bool} (h : t.all test = true)
    {op : Opcode} {e : FormatEntry} (he : t.entry? op = some e) : test op e = true := by
  have h := List.all_eq_true.mp h op op.mem_all
  rwa [he] at h

private theorem all_standard :
    standard.all (fun op e => decide (e.Regular op ∧ e.LaidOut op e.family)) = true := by
  decide +kernel

variable {op : Opcode} {e : FormatEntry}

theorem regular_standard (he : standard.entry? op = some e) : e.Regular op :=
  (of_decide_eq_true (of_all all_standard he)).1

theorem laidOut_standard (he : standard.entry? op = some e) : e.LaidOut op e.family :=
  (of_decide_eq_true (of_all all_standard he)).2

/-- A standard code is of its own family. -/
theorem family_of_slow (he : standard.entry? op = some e) (hslow : op.isFast = false) :
    e.family = .ofCanonical op := by
  rw [FormatEntry.family, (regular_standard he).2.2.2 hslow]

/-- The length of an opcode and the standard code that it stands for. -/
def shape? (t : FormatTable) (op : Opcode) : Option (Option Nat × Opcode) :=
  (t.entry? op).map fun e => (e.length, e.canonical)

theorem entry_of_shape? {t : FormatTable} {length : Option Nat} {canonical : Opcode}
    (h : t.shape? op = some (length, canonical)) :
    ∃ e, t.entry? op = some e ∧ e.length = length ∧ e.canonical = canonical := by
  obtain ⟨e, he, heq⟩ := Option.map_eq_some_iff.mp h
  exact ⟨e, he, Prod.mk.inj heq⟩

/-- The standard codes that give way to fast forms, with these forms. -/
def fastForms : List (Opcode × Opcode) :=
  [(.ldc, .fastAldc), (.ldcW, .fastAldcW), (.lookupswitch, .fastLinearswitch),
    (.lookupswitch, .fastBinaryswitch), (.aload0, .fastAload0),
    (.getfield, .fastAgetfield), (.getfield, .fastBgetfield), (.getfield, .fastCgetfield),
    (.getfield, .fastDgetfield), (.getfield, .fastFgetfield), (.getfield, .fastIgetfield),
    (.getfield, .fastLgetfield), (.getfield, .fastSgetfield),
    (.putfield, .fastAputfield), (.putfield, .fastBputfield), (.putfield, .fastCputfield),
    (.putfield, .fastDputfield), (.putfield, .fastFputfield), (.putfield, .fastIputfield),
    (.putfield, .fastLputfield), (.putfield, .fastSputfield)]

/-- A fast form takes the room of the code it replaces, and stands for the same code. -/
theorem shape?_fastForms : ∀ form ∈ fastForms, standard.shape? form.2 = standard.shape? form.1 := by
  decide +kernel

theorem entry_of_fastForm {op' : Opcode} (he : standard.entry? op = some e) (h : (op, op') ∈ fastForms) :
    ∃ e', standard.entry? op' = some e' ∧ e'.length = e.length ∧ e'.canonical = e.canonical := by
  have hshape : standard.shape? op = some (e.length, e.canonical) := by
    rw [shape?, he]
    rfl
  exact entry_of_shape? ((shape?_fastForms _ h).trans hshape)

end FormatTable

end MethodCode
