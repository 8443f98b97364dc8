import MethodCode.Cursor.Claims
import MethodCode.Proofs.Cursor.Index
import MethodCode.Proofs.FormatTable.Definitions

/-! What the claims about an instruction ask for, where they are tested. A claim of a format compares the flags of the
layout of two opcodes, that of the caller and the one that stands there; the other claims compare some flags of the
caller's opcode with those that an operand of the given size has. Main statements: each test passes exactly if these
flags are the same. -/

namespace MethodCode

/-! ### Layouts by form -/

/-- The flags of an opcode, with a wide prefix if `wide`. -/
def FormatEntry.flagsIn (e : FormatEntry) (wide : Bool) : FormatFlags := if wide then e.wideFlags else e.flags

/-- The layout of an opcode, with a wide prefix if `wide`. -/
def FormatEntry.layoutIn (e : FormatEntry) (wide : Bool) : FormatFlags := e.flagsIn wide &&& FormatFlags.layout

theorem FormatEntry.has_layoutIn {e : FormatEntry} {wide : Bool} {f : Flag} (hf : FormatFlags.layout.has f = true) :
    (e.layoutIn wide).has f = (e.flagsIn wide).has f := by
  rw [Bool.eq_iff_iff, layoutIn, FormatFlags.has_and]
  exact and_iff_left hf

/-- The format of an opcode, with a wide prefix if `wide`. -/
def OpcodeDefinition.formatIn (d : OpcodeDefinition) (wide : Bool) : Option String :=
  if wide then d.wideFormat else some d.format

namespace OpcodeDefinition.Describes

variable {d : OpcodeDefinition} {e : FormatEntry} {wide : Bool}

/-- The layout in an entry is what the format of its definition tells. -/
theorem layoutIn (h : d.Describes e) {format : String} (hformat : d.formatIn wide = some format) :
    Format.flags format 0 = .ok (e.layoutIn wide) := by
  have hbehaviour (f : Flag) (hf : d.behaviour.has f = true) : ¬FormatFlags.layout.has f = true := by
    rcases (d.has_behaviour f).mp hf with ⟨-, rfl⟩ | ⟨-, rfl⟩ <;> decide
  cases wide with
  | false =>
      obtain rfl := Option.some.inj hformat
      exact Format.flags_zero hbehaviour h.flags
  | true => exact Format.flags_zero hbehaviour (h.wideFlags format hformat)

/-- Without a format for it, an opcode has no wide form and no flags for one. -/
theorem layoutIn_of_none (h : d.Describes e) (hformat : d.formatIn wide = none) : e.layoutIn wide = 0 := by
  cases wide with
  | false => cases hformat
  | true =>
      have hflags : e.flagsIn true = 0 := h.noWideFlags hformat
      rw [FormatEntry.layoutIn, hflags]
      exact BitVec.zero_and

end OpcodeDefinition.Describes

namespace FormatTable

variable {t : FormatTable} {op : Opcode} {e : FormatEntry} {wide : Bool}

/-- A form is as long as its format. -/
theorem length_of_definition {ds : List OpcodeDefinition} {d : OpcodeDefinition} {format : String}
    (h : ofDefinitions ds = .ok t) (hd : d ∈ ds) (hformat : d.formatIn wide = some format) (hne : format ≠ "") :
    t.length d.code wide = .ok (some format.utf8ByteSize) := by
  obtain ⟨e, he, hdescribes⟩ := entry_of_definition h hd
  rw [length_of_entry he]
  cases wide with
  | false =>
      obtain rfl := Option.some.inj hformat
      rw [if_neg Bool.false_ne_true, hdescribes.length, if_neg hne]
  | true =>
      have hwide : d.wideFormat = some format := hformat
      rw [if_pos rfl, hdescribes.wideLength, hwide]
      rfl

theorem flags_of_entryIn (he : t.entry? op = some e) : t.flags op wide = .ok (e.flagsIn wide) :=
  flags_of_entry he wide

/-- The byte order is told by the layout. -/
theorem isNative_of_entryIn (he : t.entry? op = some e) (wide : Bool) :
    t.isNative op wide = .ok ((e.layoutIn wide).has .hasNative) := by
  have hcontains : (e.flagsIn wide).contains (.of [.hasNative]) = (e.layoutIn wide).has .hasNative := by
    rw [Bool.eq_iff_iff, FormatFlags.contains_of, List.forall_mem_singleton, FormatEntry.has_layoutIn (by decide)]
  rw [isNative, hasAllFlags, flags_of_entryIn he, ok_bind, hcontains]
  rfl

theorem flags_of_undefined (he : t.entry? op = none) :
    t.flags op wide = .error (.violation (.invalidOpcode op)) := by
  rw [flags, entry, he]
  rfl

end FormatTable

/-! ### Claims -/

theorem ensure_eq_ok {condition : Bool} {v : Violation} : ensure condition v = .ok () ↔ condition = true := by
  cases condition <;> simp [ensure]

theorem ensure_bind_eq_ok {α : Type} {condition : Bool} {v : Violation} {f : Unit → Except Fault α} {a : α} :
    (ensure condition v >>= f) = .ok a ↔ condition = true ∧ f () = .ok a := by
  cases condition <;> simp [ensure]

theorem throw_bind_eq {α β : Type} {fault : Fault} {f : α → Except Fault β} :
    (throw fault >>= f) = .error fault := rfl

theorem seq_eq_ok {α : Type} {x : Except Fault Unit} {y : Except Fault α} {a : α} :
    (do x; y) = .ok a ↔ x = .ok () ∧ y = .ok a := by
  cases x <;> simp

namespace Cursor

variable {c : Cursor} {op : Opcode} {e : FormatEntry} {wide : Bool} {size offset : Nat}

/-- The instruction under a cursor has the opcode `op`, after a wide prefix if `wide`. -/
def Shows (c : Cursor) (wide : Bool) (op : Opcode) : Prop :=
  if wide then c.rawOpcode = .ok .wide ∧ c.wideOpcode = .ok op else c.rawOpcode = .ok op

theorem Shows.unique {op op' : Opcode} (h : c.Shows wide op) (h' : c.Shows wide op') : op = op' := by
  cases wide with
  | false => exact Except.ok.inj (Eq.trans (Eq.symm h) h')
  | true => exact Except.ok.inj (h.2.symm.trans h'.2)

/-! ### The format -/

/-- No breakpoint hides the opcode, or the opcode after a wide prefix. -/
structure InSight (c : Cursor) (wide : Bool) : Prop where
  raw : c.rawOpcode ≠ .ok .breakpoint
  inner : wide = true → c.rawOpcode = .ok .wide → c.wideOpcode ≠ .ok .breakpoint

/-- Where no breakpoint stands, the format that is claimed has the layout of the instruction. -/
theorem claimFormat_eq_ok (hmode : c.mode = .checked) (hsight : c.InSight wide) :
    c.claimFormat op wide = .ok () ↔
      ∃ actual e e', c.Shows wide actual ∧ c.formats.entry? op = some e ∧ c.formats.entry? actual = some e' ∧
        e'.layoutIn wide = e.layoutIn wide := by
  have hcompare {actual : Opcode} (hne : actual ≠ .breakpoint) :
      (do
        if actual = .breakpoint then return
        let claimedFlags := (← c.formats.flags op wide) &&& FormatFlags.layout
        let actualFlags := (← c.formats.flags actual wide) &&& FormatFlags.layout
        if actualFlags ≠ claimedFlags then
          throw (.violation (.formatMismatch (← c.formats.name op) wide c.bci (← c.formats.name actual)
            claimedFlags actualFlags)) : Except Fault Unit) = .ok () ↔
        ∃ e e', c.formats.entry? op = some e ∧ c.formats.entry? actual = some e' ∧
          e'.layoutIn wide = e.layoutIn wide := by
    rw [if_neg hne]
    cases he : c.formats.entry? op with
    | none => simp [FormatTable.flags_of_undefined he]
    | some e =>
    cases he' : c.formats.entry? actual with
    | none => simp [FormatTable.flags_of_entryIn he, FormatTable.flags_of_undefined he']
    | some e' =>
        rw [FormatTable.flags_of_entryIn he, FormatTable.flags_of_entryIn he', ok_bind, ok_bind]
        by_cases hsame : e'.layoutIn wide = e.layoutIn wide
        · simp [FormatEntry.layoutIn] at hsame
          simp [FormatEntry.layoutIn, hsame, pure, Except.pure]
        · simp [FormatEntry.layoutIn] at hsame
          simp [FormatEntry.layoutIn, hsame, FormatTable.name_of_entry he, FormatTable.name_of_entry he']
  unfold claimFormat
  rw [hmode, Mode.check]
  cases hraw : c.rawOpcode with
  | error f => cases wide <;> simp [Shows, hraw]
  | ok raw =>
      have hne : raw ≠ .breakpoint := by
        rintro rfl
        exact hsight.raw hraw
      rw [ok_bind, if_neg hne]
      cases wide with
      | false =>
          refine (hcompare hne).trans ?_
          simp [Shows, hraw]
      | true =>
          rw [if_pos rfl]
          by_cases hwide : raw = .wide
          · subst hwide
            cases hinner : c.wideOpcode with
            | error f => simp [Shows, hraw, hinner, ensure]
            | ok inner =>
                have hne' : inner ≠ .breakpoint := by
                  rintro rfl
                  exact hsight.inner rfl hraw hinner
                refine (hcompare hne').trans ?_
                simp [Shows, hraw, hinner]
          · simp [Shows, hraw, hwide, ensure]

/-- The layout that a checked reader finds when it takes the instruction for `op`: both are laid out alike. -/
structure HasLayout (c : Cursor) (op : Opcode) (wide : Bool) (set : FormatFlags) : Prop where
  mode : c.mode = .checked
  format : c.claimFormat op wide = .ok ()
  entry : ∃ e, c.formats.entry? op = some e ∧ e.layoutIn wide = set

/-- An instruction may be taken for any opcode that has its format. -/
theorem hasLayout_of_shows {ds : List OpcodeDefinition} {d claimed : OpcodeDefinition} {format : String}
    {set : FormatFlags} (h : FormatTable.ofDefinitions ds = .ok c.formats) (hmode : c.mode = .checked)
    (hsight : c.InSight wide) (hd : d ∈ ds) (hclaimed : claimed ∈ ds) (hshows : c.Shows wide d.code)
    (hformat : d.formatIn wide = some format) (hsame : claimed.formatIn wide = some format)
    (hset : Format.flags format 0 = .ok set) : c.HasLayout claimed.code wide set := by
  obtain ⟨e', he', hdescribes'⟩ := FormatTable.entry_of_definition h hd
  obtain ⟨e, he, hdescribes⟩ := FormatTable.entry_of_definition h hclaimed
  have hlayout' := Except.ok.inj ((hdescribes'.layoutIn hformat).symm.trans hset)
  have hlayout := Except.ok.inj ((hdescribes.layoutIn hsame).symm.trans hset)
  exact ⟨hmode, (claimFormat_eq_ok hmode hsight).mpr ⟨d.code, e, e', hshows, he, he', hlayout'.trans hlayout.symm⟩,
    e, he, hlayout⟩

/-! ### Sizes -/

/-- The flags for the size of an index of so many bytes. -/
def indexFlags? : Nat → Option FormatFlags
  | 1 => some (.of [])
  | 2 => some (.of [.hasU2])
  | 4 => some (.of [.hasU4])
  | _ => none

/-- The flags for a constant of so many bytes. -/
def constantFlags? : Nat → Option FormatFlags
  | 1 => some .byteConstant
  | 2 => some (FormatFlags.byteConstant.insert .hasU2)
  | _ => none

theorem claimIndexSize_eq_ok (hmode : c.mode = .checked) :
    c.claimIndexSize size op wide = .ok () ↔
      ∃ e, c.formats.entry? op = some e ∧
        ∃ need ∈ indexFlags? size, e.flagsIn wide &&& FormatFlags.indexSize = widened need wide := by
  unfold claimIndexSize
  rw [hmode, Mode.check]
  cases he : c.formats.entry? op with
  | none => simp [FormatTable.flags_of_undefined he]
  | some e =>
      rw [FormatTable.flags_of_entryIn he, ok_bind, FormatTable.name_of_entry he]
      rcases size with _ | _ | _ | _ | _ | size <;>
        simp [indexFlags?, throw_bind_eq, ensure_eq_ok, FormatFlags.indexSize]

theorem claimNativeIndex_eq_ok (hmode : c.mode = .checked) (he : c.formats.entry? op = some e) :
    c.claimNativeIndex op wide = .ok () ↔ (e.layoutIn wide).has .hasNative = true := by
  rw [claimNativeIndex, hmode, Mode.check, FormatTable.isNative_of_entryIn he, FormatTable.name_of_entry he]
  exact ensure_eq_ok

theorem claimNativeWideIndex_eq_ok (hmode : c.mode = .checked) (he : c.formats.entry? op = some e) :
    c.claimNativeWideIndex op = .ok () ↔ (e.layoutIn false).has .hasNative = true := by
  rw [claimNativeWideIndex, hmode, Mode.check, FormatTable.isNative_of_entryIn he, FormatTable.name_of_entry he]
  exact ensure_eq_ok

theorem claimConstantSize_eq_ok (hmode : c.mode = .checked) :
    c.claimConstantSize size offset op wide = .ok () ↔
      ∃ e, c.formats.entry? op = some e ∧
        (∃ need ∈ constantFlags? size,
          e.flagsIn wide &&& (FormatFlags.layout &&& ~~~(.of [.hasLocal])) = widened need wide) ∧
        (if wide then e.wideLength else e.length) = some (offset + size) := by
  unfold claimConstantSize
  rw [hmode, Mode.check]
  cases he : c.formats.entry? op with
  | none => simp [FormatTable.flags_of_undefined he]
  | some e =>
      rw [FormatTable.flags_of_entryIn he, ok_bind, FormatTable.name_of_entry he, FormatTable.length_of_entry he]
      rcases size with _ | _ | _ | size <;>
        simp [constantFlags?, throw_bind_eq, ensure_eq_ok, ensure_bind_eq_ok]

end Cursor

end MethodCode
