import MethodCode.Proofs.Cursor.Length
import MethodCode.Proofs.Format.Language

/-! Lengths and layout flags, over the tables that any definitions make. Both are read off the formats of a definition,
each in its own way: the flags tell a fixed length of every format that is not empty, and so does the length without a
prefix, but the length with a wide prefix is the size of whatever format is given for it, an empty one included. Main
statement: a fixed length and a length of at least one byte go together, a length of zero bytes belongs to exactly the
wide forms with an empty format, and an instruction has no bytes exactly if it is one of those after a wide prefix. -/

namespace MethodCode

/-! ### Formats -/

theorem inContext_eq_ok {α : Type} {context : Context} {call : Except Error α} {a : α} :
    inContext context call = .ok a ↔ call = .ok a := by
  cases call <;> simp [inContext]

/-- The flags of a format tell a fixed length exactly if the format is not empty. -/
theorem Format.has_notVariable {format : String} {more set : FormatFlags} (hmore : more.has .notVariable = false)
    (h : flags format more = .ok set) : set.has .notVariable = true ↔ format ≠ "" := by
  by_cases hempty : format = ""
  · subst hempty
    have hflags : flags "" more = .ok (more.insert .notSimple) := rfl
    obtain rfl := Except.ok.inj (hflags.symm.trans h)
    simp [FormatFlags.has_insert, hmore]
  · obtain ⟨lead, body, hbody⟩ := exists_lead hempty h
    have hlead : Flag.notVariable ∈ lead.flags := by cases lead <;> decide
    exact iff_of_true ((has_flags hbody h _).mpr (.inr (.inl hlead))) hempty

/-! ### Definitions -/

namespace OpcodeDefinition

variable {d : OpcodeDefinition} {e : FormatEntry}

/-- The flags that tell how an opcode behaves. -/
def behaviour (d : OpcodeDefinition) : FormatFlags :=
  .of ((if d.canTrap then [Flag.canTrap] else []) ++ if d.canRewrite then [Flag.canRewrite] else [])

theorem behaviour_notVariable (d : OpcodeDefinition) : d.behaviour.has .notVariable = false := by
  unfold behaviour
  cases d.canTrap <;> cases d.canRewrite <;> decide

/-- An entry says what a definition says. -/
structure Describes (d : OpcodeDefinition) (e : FormatEntry) : Prop where
  flags : Format.flags d.format d.behaviour = .ok e.flags
  wideFlags : ∀ wide ∈ d.wideFormat, Format.flags wide d.behaviour = .ok e.wideFlags
  noWideFlags : d.wideFormat = none → e.wideFlags = 0
  length : e.length = if d.format = "" then none else some d.format.utf8ByteSize
  wideLength : e.wideLength = d.wideFormat.map String.utf8ByteSize
  canonical : e.canonical = d.canonical

theorem describes_of_ofDefinition (h : FormatEntry.ofDefinition d = .ok e) : d.Describes e := by
  have hlength : (if d.format.isEmpty then none else some d.format.utf8ByteSize) =
      if d.format = "" then none else some d.format.utf8ByteSize := by
    simp only [String.isEmpty_iff]
  obtain ⟨flags, hflags, h⟩ := bind_eq_ok.mp h
  cases hwide : d.wideFormat with
  | none =>
      rw [hwide] at h
      obtain rfl := Except.ok.inj h
      exact ⟨inContext_eq_ok.mp hflags, by simp [hwide], fun _ => rfl, hlength, by rw [hwide], rfl⟩
  | some wide =>
      rw [hwide] at h
      obtain ⟨wideFlags, hwideFlags, h⟩ := bind_eq_ok.mp h
      obtain rfl := Except.ok.inj h
      refine ⟨inContext_eq_ok.mp hflags, ?_, by simp [hwide], hlength, by rw [hwide], rfl⟩
      rw [hwide]
      rintro _ ⟨⟩
      exact inContext_eq_ok.mp hwideFlags

/-- Without a prefix, the length is fixed exactly if it is a number, which is never zero. -/
theorem Describes.length_iff (h : d.Describes e) :
    (e.flags.has .notVariable = true ↔ ∃ n, e.length = some n ∧ 1 ≤ n) ∧ e.length ≠ some 0 := by
  rw [Format.has_notVariable d.behaviour_notVariable h.flags, h.length]
  by_cases hempty : d.format = ""
  · simp [hempty]
  · have hsize : d.format.utf8ByteSize ≠ 0 := mt String.utf8ByteSize_eq_zero_iff.mp hempty
    simp [hempty, Nat.one_le_iff_ne_zero]

/-- With a wide prefix, the length is fixed exactly if it is a number other than zero; it is zero for an empty
format. -/
theorem Describes.wideLength_iff (h : d.Describes e) :
    (e.wideFlags.has .notVariable = true ↔ ∃ n, e.wideLength = some n ∧ 1 ≤ n) ∧
      (e.wideLength = some 0 ↔ d.wideFormat = some "") := by
  rw [h.wideLength]
  cases hwide : d.wideFormat with
  | none =>
      rw [h.noWideFlags hwide]
      simp [FormatFlags.has]
  | some wide =>
      rw [Format.has_notVariable d.behaviour_notVariable (h.wideFlags wide hwide)]
      simp [Nat.one_le_iff_ne_zero]

end OpcodeDefinition

/-! ### Tables -/

namespace FormatTable

variable {t t' : FormatTable} {d : OpcodeDefinition} {ds : List OpcodeDefinition} {op : Opcode} {e : FormatEntry}

theorem entry?_insert (t : FormatTable) (code op : Opcode) (made : FormatEntry) :
    FormatTable.entry? ⟨t.entries.insert code.byte made⟩ op =
      if op.byte = code.byte then some made else t.entry? op :=
  ByteMap.get?_insert ..

/-- What one more definition adds to a table: its own entry, where there was none. -/
theorem entry?_define (h : t.define d = .ok t') :
    ∃ made, FormatEntry.ofDefinition d = .ok made ∧
      ∀ op e, t'.entry? op = some e ↔ t.entry? op = some e ∨ d.code = op ∧ made = e := by
  obtain ⟨made, hmade, h⟩ := bind_eq_ok.mp h
  refine ⟨made, hmade, fun op e => ?_⟩
  cases hold : t.entry? d.code with
  | some _ =>
      rw [hold] at h
      cases h
  | none =>
      rw [hold] at h
      obtain rfl := Except.ok.inj h
      rw [entry?_insert]
      by_cases hop : d.code = op
      · subst hop
        simp [hold]
      · have hbyte : op.byte ≠ d.code.byte := fun hbyte => hop (congrArg Opcode.mk hbyte.symm)
        simp [hbyte, hop]

/-- The entries of a table are those that it had, and those of the definitions added. -/
theorem entry?_defineAll (h : t.defineAll ds = .ok t') :
    (∀ op e, t'.entry? op = some e ↔
      t.entry? op = some e ∨ ∃ d ∈ ds, d.code = op ∧ FormatEntry.ofDefinition d = .ok e) ∧
    ∀ d ∈ ds, ∃ e, FormatEntry.ofDefinition d = .ok e := by
  induction ds generalizing t with
  | nil =>
      obtain rfl := Except.ok.inj h
      simp
  | cons d ds ih =>
      obtain ⟨next, hdefine, hrest⟩ := bind_eq_ok.mp h
      obtain ⟨made, hmade, hnext⟩ := entry?_define hdefine
      obtain ⟨hentries, hall⟩ := ih hrest
      refine ⟨fun op e => ?_, List.forall_mem_cons.mpr ⟨⟨made, hmade⟩, hall⟩⟩
      rw [hentries, hnext, List.exists_mem_cons_iff, hmade, Except.ok.injEq, or_assoc]

/-- Whatever a table knows has been defined. -/
theorem definition_of_entry (h : ofDefinitions ds = .ok t) (he : t.entry? op = some e) :
    ∃ d ∈ ds, d.code = op ∧ d.Describes e := by
  rcases ((entry?_defineAll h).1 op e).mp he with hempty | ⟨d, hd, hcode, hmade⟩
  · cases hempty
  · exact ⟨d, hd, hcode, OpcodeDefinition.describes_of_ofDefinition hmade⟩

/-- Whatever has been defined is known. -/
theorem entry_of_definition (h : ofDefinitions ds = .ok t) (hd : d ∈ ds) :
    ∃ e, t.entry? d.code = some e ∧ d.Describes e := by
  obtain ⟨e, hmade⟩ := (entry?_defineAll h).2 d hd
  exact ⟨e, ((entry?_defineAll h).1 d.code e).mpr (.inr ⟨d, hd, rfl, hmade⟩),
    OpcodeDefinition.describes_of_ofDefinition hmade⟩

/-- The wide form of an opcode has a length of no bytes if it is defined with an empty format. -/
theorem wideLength_eq_zero_iff (h : ofDefinitions ds = .ok t) (he : t.entry? op = some e) :
    e.wideLength = some 0 ↔ ∃ d ∈ ds, d.code = op ∧ d.wideFormat = some "" := by
  constructor
  · intro hzero
    obtain ⟨d, hd, hcode, hdescribes⟩ := definition_of_entry h he
    exact ⟨d, hd, hcode, hdescribes.wideLength_iff.2.mp hzero⟩
  · rintro ⟨d, hd, rfl, hempty⟩
    obtain ⟨e', he', hdescribes⟩ := entry_of_definition h hd
    obtain rfl := Option.some.inj (he'.symm.trans he)
    exact hdescribes.wideLength_iff.2.mpr hempty

end FormatTable

/-! ### Instructions -/

namespace Cursor

variable {c : Cursor} {ds : List OpcodeDefinition} (h : FormatTable.ofDefinitions ds = .ok c.formats)

include h

/-- An instruction of no bytes is one whose opcode, after a wide prefix, has an empty format. -/
theorem definitions_of_length_zero (hzero : c.length = .ok 0) :
    ∃ d ∈ ds, ∃ inner ∈ ds, c.rawOpcode = .ok d.code ∧ d.format = "" ∧ d.canonical = .wide ∧
      c.wideOpcode = .ok inner.code ∧ inner.wideFormat = some "" := by
  obtain ⟨op, hop, -⟩ := bind_eq_ok.mp hzero
  cases he : c.formats.entry? op with
  | none =>
      rw [length_of_undefined hop he] at hzero
      cases hzero
  | some e =>
  obtain ⟨d, hd, rfl, hdescribes⟩ := FormatTable.definition_of_entry h he
  cases hlength : e.length with
  | some n =>
      rw [length_of_fixed hop he hlength] at hzero
      obtain rfl := Except.ok.inj hzero
      exact absurd hlength hdescribes.length_iff.2
  | none =>
      have hformat : d.format = "" := by
        by_contra hne
        have hsome := hdescribes.length
        rw [hlength, if_neg hne] at hsome
        cases hsome
      rw [length_of_none hop he hlength] at hzero
      by_cases hwide : e.canonical = .wide
      · rw [if_pos hwide] at hzero
        obtain ⟨op', hop', hzero⟩ := bind_eq_ok.mp hzero
        obtain ⟨l, hl, hzero⟩ := bind_eq_ok.mp hzero
        obtain ⟨e', he'⟩ := FormatTable.exists_entry_of_bind hl
        obtain ⟨inner, hinner, rfl, hdescribes'⟩ := FormatTable.definition_of_entry h he'
        rw [FormatTable.length_of_entry he' true, if_pos rfl, Except.ok.injEq] at hl
        cases l with
        | none =>
            obtain ⟨_, -, hzero⟩ := bind_eq_ok.mp hzero
            cases hzero
        | some n =>
            obtain rfl := Except.ok.inj hzero
            exact ⟨d, hd, inner, hinner, hop, hformat, hdescribes.canonical.symm.trans hwide, hop',
              hdescribes'.wideLength_iff.2.mp hl⟩
      · rw [if_neg hwide] at hzero
        by_cases hswitch : e.canonical = .tableswitch ∨ e.canonical = .lookupswitch
        · -- the padding of a switch comes after its opcode
          have hpos := c.one_le_alignedOffset
          rw [if_pos hswitch] at hzero
          rcases (switchLength_eq_ok hswitch).mp hzero with ⟨-, _, _, -, -, hsum⟩ | ⟨-, _, -, hsum⟩ <;> omega
        · rw [if_neg hswitch] at hzero
          cases hzero

theorem length_zero_of_definitions {d inner : OpcodeDefinition} (hd : d ∈ ds) (hinner : inner ∈ ds)
    (hop : c.rawOpcode = .ok d.code) (hformat : d.format = "") (hcanonical : d.canonical = .wide)
    (hop' : c.wideOpcode = .ok inner.code) (hempty : inner.wideFormat = some "") : c.length = .ok 0 := by
  obtain ⟨e, he, hdescribes⟩ := FormatTable.entry_of_definition h hd
  obtain ⟨e', he', hdescribes'⟩ := FormatTable.entry_of_definition h hinner
  have hlength : e.length = none := by rw [hdescribes.length, if_pos hformat]
  have hzero : e'.wideLength = some 0 := hdescribes'.wideLength_iff.2.mpr hempty
  rw [length_of_none hop he hlength, if_pos (hdescribes.canonical.trans hcanonical), hop', ok_bind,
    FormatTable.length_of_entry he' true, if_pos rfl, hzero]
  rfl

end Cursor

namespace FormatTable

variable {t : FormatTable} {ds : List OpcodeDefinition}

/-- The lengths in a table and the flags beside them. The flags tell a fixed length exactly of the forms that have a
length of at least one byte; what has a length of no bytes is the wide form of an opcode that is given an empty
format, and so an instruction of no bytes is a wide prefix before such an opcode. -/
theorem fixed_lengths (h : ofDefinitions ds = .ok t) :
    (∀ op, t.isDefined op = true → ∀ wide, ∃ length set, t.length op wide = .ok length ∧ t.flags op wide = .ok set ∧
      (set.has .notVariable = true ↔ ∃ n, length = some n ∧ 1 ≤ n) ∧
      (length = some 0 ↔ wide = true ∧ ∃ d ∈ ds, d.code = op ∧ d.wideFormat = some "")) ∧
    ∀ c : Cursor, c.formats = t →
      (c.length = .ok 0 ↔
        ∃ d ∈ ds, ∃ inner ∈ ds, c.rawOpcode = .ok d.code ∧ d.format = "" ∧ d.canonical = .wide ∧
          c.wideOpcode = .ok inner.code ∧ inner.wideFormat = some "") := by
  refine ⟨fun op hop wide => ?_, ?_⟩
  · obtain ⟨e, he⟩ := isDefined_iff.mp hop
    obtain ⟨d, hd, hcode, hdescribes⟩ := definition_of_entry h he
    refine ⟨_, _, length_of_entry he wide, flags_of_entry he wide, ?_⟩
    cases wide with
    | false => exact ⟨hdescribes.length_iff.1, iff_of_false hdescribes.length_iff.2 fun h => Bool.false_ne_true h.1⟩
    | true => exact ⟨hdescribes.wideLength_iff.1, (wideLength_eq_zero_iff h he).trans (and_iff_right rfl).symm⟩
  · rintro c rfl
    constructor
    · exact Cursor.definitions_of_length_zero h
    · rintro ⟨d, hd, inner, hinner, hop, hformat, hcanonical, hop', hempty⟩
      exact Cursor.length_zero_of_definitions h hd hinner hop hformat hcanonical hop' hempty

/-- The wide prefix, and an opcode whose wide form is given an empty format. -/
def emptyWideForm : List OpcodeDefinition :=
  [.plain 0xc4 "wide" "" .void, (OpcodeDefinition.plain 0 "nop" "b" .void).widened ""]

private theorem exists_emptyWideForm : ∃ t, ofDefinitions emptyWideForm = .ok t := by
  have hok : (ofDefinitions emptyWideForm).isOk = true := by decide +kernel
  cases h : ofDefinitions emptyWideForm with
  | ok t => exact ⟨t, rfl⟩
  | error e =>
      rw [h] at hok
      cases hok

theorem fixed_lengths_sample :
    ∃ t, ofDefinitions emptyWideForm = .ok t ∧
      (∃ set, t.length ⟨0⟩ true = .ok (some 0) ∧ t.flags ⟨0⟩ true = .ok set ∧ set.has .notVariable = false) ∧
      (⟨.checked, t, .ofList [0xc4, 0], none, 0⟩ : Cursor).length = .ok 0 := by
  obtain ⟨t, ht⟩ := exists_emptyWideForm
  have hprefix : OpcodeDefinition.plain 0xc4 "wide" "" .void ∈ emptyWideForm := by simp [emptyWideForm]
  have hnop : (OpcodeDefinition.plain 0 "nop" "b" .void).widened "" ∈ emptyWideForm := by simp [emptyWideForm]
  obtain ⟨e, he, -⟩ := entry_of_definition ht hnop
  obtain ⟨htable, hcursor⟩ := fixed_lengths ht
  obtain ⟨length, set, hlength, hset, hfixed, hzero⟩ := htable ⟨0⟩ (isDefined_iff.mpr ⟨e, he⟩) true
  obtain rfl : length = some 0 := hzero.mpr ⟨rfl, _, hnop, rfl, rfl⟩
  refine ⟨t, ht, ⟨set, hlength, hset, ?_⟩, ?_⟩
  · apply Bool.eq_false_iff.mpr
    intro hhas
    obtain ⟨n, hn, hpos⟩ := hfixed.mp hhas
    obtain rfl := Option.some.inj hn
    exact absurd hpos (by decide)
  · exact (hcursor _ rfl).mpr ⟨_, hprefix, _, hnop, rfl, rfl, rfl, rfl, rfl⟩

/-- A length may be a number although the flags do not tell a fixed length, and the number may be zero. -/
theorem length_of_empty_wide_form :
    ¬∀ (ds : List OpcodeDefinition) (t : FormatTable), ofDefinitions ds = .ok t →
      (∀ op, t.isDefined op = true → ∀ wide length set, t.length op wide = .ok length → t.flags op wide = .ok set →
        (length.isSome = true ↔ set.has .notVariable = true) ∧ ∀ n, length = some n → 1 ≤ n) ∧
      ∀ c : Cursor, c.formats = t → c.length ≠ .ok 0 := by
  intro h
  obtain ⟨t, ht⟩ := exists_emptyWideForm
  obtain ⟨e, he, hdescribes⟩ := entry_of_definition ht (List.mem_cons_of_mem _ (List.mem_singleton.mpr rfl))
  have hzero : t.length ⟨0⟩ true = .ok (some 0) :=
    (length_of_entry he true).trans (congrArg Except.ok (hdescribes.wideLength_iff.2.mpr rfl))
  obtain ⟨-, hpos⟩ := (h _ t ht).1 ⟨0⟩ (isDefined_iff.mpr ⟨e, he⟩) true _ _ hzero (flags_of_entry he true)
  exact absurd (hpos 0 rfl) (by decide)

end FormatTable

end MethodCode
