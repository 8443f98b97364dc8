import MethodCode.Proofs.Cursor.Claim
import MethodCode.Proofs.Cursor.Length
import MethodCode.Proofs.Format.Field

/-! What the readers of an index return. Each of them tests two claims: that the instruction has the layout of the
caller's opcode, and that this layout has fields of the right size, none of them a branch offset. Together they fix the
size of the first field, since no field is longer than the first; but they ask neither for an index nor for a field
that comes right after the opcode, where the index is read. Main statement: what a reader returns is an index of the
instruction, unless the instruction has no operand, a constant in that place, or a byte of no use; the four formats for
which this is so are read like any other. -/

namespace MethodCode

open FormatTable (standard)
open Format (FieldAt SuitsIndex indexLetters unused)

/-- The byte order of a field of a format. -/
def ByteOrder.ofLetter (letter : UInt8) : ByteOrder := if Format.isUpper letter then .native else .java

/-- The byte order that the flags of a format tell. -/
def FormatFlags.order (set : FormatFlags) : ByteOrder := if set.has .hasNative then .native else .java

/-! ### Flags that suit an index -/

namespace Cursor

variable {set need : FormatFlags} {size : Nat} {wide : Bool} {f : Flag}

theorem has_widened (hneed : need ∈ indexFlags? size) :
    (widened need wide).has f = true ↔
      f = .hasU2 ∧ size = 2 ∨ f = .hasU4 ∧ size = 4 ∨ f = .notSimple ∧ wide = true := by
  have hwidened : (widened need wide).has f = true ↔ need.has f = true ∨ f = .notSimple ∧ wide = true := by
    cases wide <;> simp [widened, FormatFlags.has_insert]
  rw [hwidened]
  unfold indexFlags? at hneed
  split at hneed <;> simp only [Option.mem_def, Option.some.injEq, reduceCtorEq] at hneed <;> subst hneed <;>
    simp [FormatFlags.has_of]

/-- The test of an index size looks at exactly the flags that tell a size. -/
theorem suitsIndex_iff :
    (∃ need ∈ indexFlags? size, set &&& FormatFlags.indexSize = widened need wide) ↔
      SuitsIndex (set &&& FormatFlags.layout) size wide := by
  have hindex (f : Flag) : FormatFlags.indexSize.has f = true ↔ f ∈ [Flag.hasU2, .hasU4, .notSimple, .hasOffset] :=
    FormatFlags.has_of _ f
  have hlayout {f : Flag} (hf : f ∈ [Flag.hasU2, .hasU4, .notSimple, .hasOffset]) :
      (set &&& FormatFlags.layout).has f = true ↔ set.has f = true := by
    rw [FormatFlags.has_and]
    refine and_iff_left ((FormatFlags.has_layout f).mpr ?_)
    revert hf
    cases f <;> decide
  constructor
  · rintro ⟨need, hneed, heq⟩
    have hhas {f : Flag} (hf : f ∈ [Flag.hasU2, .hasU4, .notSimple, .hasOffset]) :
        (set &&& FormatFlags.layout).has f = true ↔
          f = .hasU2 ∧ size = 2 ∨ f = .hasU4 ∧ size = 4 ∨ f = .notSimple ∧ wide = true := by
      rw [hlayout hf, ← has_widened hneed, ← heq, FormatFlags.has_and, hindex]
      exact (and_iff_left hf).symm
    have hfield : size = 1 ∨ size = 2 ∨ size = 4 := by
      unfold indexFlags? at hneed
      split at hneed
      case _ | _ | _ => simp
      case _ => cases hneed
    exact ⟨hfield, by simp [hhas], by simp [hhas], by simp [hhas], by simp [hhas]⟩
  · intro h
    obtain ⟨need, hneed⟩ : ∃ need, indexFlags? size = some need := by
      rcases h.field with rfl | rfl | rfl <;> exact ⟨_, rfl⟩
    refine ⟨need, hneed, FormatFlags.ext fun f => ?_⟩
    rw [has_widened hneed, FormatFlags.has_and, hindex]
    have hshort := hlayout (f := .hasU2) (by simp)
    have hword := hlayout (f := .hasU4) (by simp)
    have hwide := hlayout (f := .notSimple) (by simp)
    have hoffset := hlayout (f := .hasOffset) (by simp)
    rw [h.short] at hshort
    rw [h.word] at hword
    rw [h.wide] at hwide
    rw [iff_false_left h.offset] at hoffset
    cases f <;> simp [← hshort, ← hword, ← hwide, hoffset]

end Cursor

/-! ### Readers -/

/-- The readers of an index. -/
inductive IndexReader where
  /-- One byte. -/
  | byte
  /-- Two bytes, after a wide prefix if `wide`. -/
  | short (wide : Bool)
  /-- Two bytes for the cache, with its tag added. -/
  | cache (tag : UInt32)
  /-- Four bytes for the cache. -/
  | word

namespace IndexReader

/-- How many bytes are read. -/
def size : IndexReader → Nat
  | byte => 1
  | short _ => 2
  | cache _ => 2
  | word => 4

/-- Whether a wide prefix is asked for. -/
def wide : IndexReader → Bool
  | short wide => wide
  | _ => false

/-- Where the first byte is read, counted from the start of the instruction. -/
def offset (r : IndexReader) : Nat := if r.wide then 2 else 1

/-- An index for the cache has to be in native order. -/
def isNative : IndexReader → Bool
  | byte => false
  | short _ => false
  | cache _ => true
  | word => true

/-- The index that is read by a caller who has the opcode `op` in mind. -/
def read (r : IndexReader) (c : Cursor) (op : Opcode) : Except Fault UInt32 :=
  match r with
  | byte => do return (← c.indexU1 op).toUInt32
  | short wide => do return (← c.indexU2 op wide).toUInt32
  | cache tag => c.cacheIndexU2 op tag
  | word => c.indexU4 op

/-- What the bytes in the place of the index say, whatever the instruction is. -/
def fetch (r : IndexReader) (c : Cursor) (order : ByteOrder) : Except Fault UInt32 :=
  match r with
  | byte => do return (← c.byteAt r.offset).toUInt32
  | short _ => do return (← c.code.u16At order (c.bci + r.offset)).toUInt32
  | cache tag => do return (← c.code.u16At order (c.bci + r.offset)).toUInt32 + tag
  | word => c.code.u32At order (c.bci + r.offset)

variable {r : IndexReader} {c : Cursor} {op : Opcode} {e : FormatEntry} {v : UInt32}

/-- After the two claims, a reader tests the byte order and reads. -/
def readOn (r : IndexReader) (c : Cursor) (op : Opcode) : Except Fault UInt32 :=
  match r with
  | byte => r.fetch c .java
  | short wide => do r.fetch c (if ← c.formats.isNative op wide then .native else .java)
  | cache _ => do
    c.claimNativeIndex op false
    r.fetch c .native
  | word => do
    c.claimNativeWideIndex op
    r.fetch c .native

theorem read_eq (r : IndexReader) (c : Cursor) (op : Opcode) :
    r.read c op = (do
      c.claimFormat op r.wide
      c.claimIndexSize r.size op r.wide
      r.readOn c op) := by
  cases r with
  | byte => simp [read, readOn, fetch, wide, size, offset, Cursor.indexU1]
  | short wide =>
      simp only [read, Cursor.indexU2, bind_assoc]
      rfl
  | cache tag => simp [read, readOn, fetch, wide, size, offset, Cursor.cacheIndexU2]
  | word => simp [read, readOn, fetch, wide, size, offset, Cursor.indexU4]

theorem readOn_eq_ok (hmode : c.mode = .checked) (he : c.formats.entry? op = some e) :
    r.readOn c op = .ok v ↔
      (r.isNative = true → (e.layoutIn r.wide).has .hasNative = true) ∧
        r.fetch c (e.layoutIn r.wide).order = .ok v := by
  -- a reader that asks for native order reads in the order that the layout tells
  have htested {p : Prop} (hp : p) {test : Except Fault Unit} {native : Bool} (htest : test = .ok () ↔ native = true) :
      (do test; r.fetch c .native) = .ok v ↔
        (p → native = true) ∧ r.fetch c (if native then .native else .java) = .ok v := by
    rw [seq_eq_ok, htest, forall_prop_of_true hp]
    exact and_congr_right fun hnative => by rw [if_pos hnative]
  cases r with
  | byte => simp [readOn, isNative, fetch]
  | short wide =>
      have hread : (short wide).readOn c op = (short wide).fetch c (e.layoutIn wide).order := by
        rw [readOn, FormatTable.isNative_of_entryIn he]
        rfl
      rw [hread]
      exact (and_iff_right nofun).symm
  | cache tag => exact htested rfl (Cursor.claimNativeIndex_eq_ok hmode he)
  | word => exact htested rfl (Cursor.claimNativeWideIndex_eq_ok hmode he)

/-- Where no breakpoint stands, a reader returns what is in the place of the index exactly if the instruction has the
layout of the caller's opcode, and this layout suits the index. -/
theorem read_eq_ok (hmode : c.mode = .checked) (hsight : c.InSight r.wide) :
    r.read c op = .ok v ↔
      ∃ actual e e', c.Shows r.wide actual ∧ c.formats.entry? op = some e ∧ c.formats.entry? actual = some e' ∧
        e'.layoutIn r.wide = e.layoutIn r.wide ∧ SuitsIndex (e'.layoutIn r.wide) r.size r.wide ∧
        (r.isNative = true → (e'.layoutIn r.wide).has .hasNative = true) ∧
        r.fetch c (e'.layoutIn r.wide).order = .ok v := by
  rw [read_eq, seq_eq_ok, seq_eq_ok, Cursor.claimFormat_eq_ok hmode hsight, Cursor.claimIndexSize_eq_ok hmode]
  simp only [Cursor.suitsIndex_iff]
  constructor
  · rintro ⟨⟨actual, e, e', hshows, he, he', hsame⟩, ⟨e₁, he₁, hsuits⟩, hread⟩
    obtain rfl := Option.some.inj (he.symm.trans he₁)
    rw [readOn_eq_ok hmode he, ← hsame] at hread
    exact ⟨actual, e, e', hshows, he, he', hsame, hsame ▸ hsuits, hread⟩
  · rintro ⟨actual, e, e', hshows, he, he', hsame, hsuits, hread⟩
    rw [hsame] at hsuits hread
    exact ⟨⟨actual, e, e', hshows, he, he', hsame⟩, ⟨e, he, hsuits⟩, (readOn_eq_ok hmode he).mpr hread⟩

/-- A reader whose size suits the layout returns what is in the place of the index. -/
theorem read_of_layout {set : FormatFlags} (h : c.HasLayout op r.wide set) (hsuits : SuitsIndex set r.size r.wide)
    (hnative : r.isNative = true → set.has .hasNative = true) : r.read c op = .ok v ↔ r.fetch c set.order = .ok v := by
  obtain ⟨e, he, rfl⟩ := h.entry
  have hsize : c.claimIndexSize r.size op r.wide = .ok () :=
    (Cursor.claimIndexSize_eq_ok h.mode).mpr ⟨e, he, Cursor.suitsIndex_iff.mpr hsuits⟩
  rw [read_eq, h.format, ok_bind, hsize, ok_bind, readOn_eq_ok h.mode he]
  exact and_iff_right hnative

/-! ### What the format says -/

/-- A reader finds flags that suit it in the layout of a format. -/
structure Suits (r : IndexReader) (format : String) (set : FormatFlags) : Prop where
  flags : Format.flags format 0 = .ok set
  index : SuitsIndex set r.size r.wide
  native : r.isNative = true → set.has .hasNative = true

/-- Over any table, the format of the instruction suits a reader that returns something. -/
theorem exists_format_of_read {ds : List OpcodeDefinition} (h : FormatTable.ofDefinitions ds = .ok c.formats)
    (hmode : c.mode = .checked) (hsight : c.InSight r.wide) (hread : r.read c op = .ok v) :
    ∃ d ∈ ds, ∃ format set, c.Shows r.wide d.code ∧ d.formatIn r.wide = some format ∧ r.Suits format set ∧
      r.fetch c set.order = .ok v := by
  obtain ⟨actual, -, e, hshows, -, he, -, hsuits, hnative, hfetch⟩ := (read_eq_ok hmode hsight).mp hread
  obtain ⟨d, hd, rfl, hdescribes⟩ := FormatTable.definition_of_entry h he
  cases hformat : d.formatIn r.wide with
  | none =>
      -- an opcode without a wide form has no flags for one
      have hwide : r.wide = true := by
        by_contra hnarrow
        rw [Bool.not_eq_true] at hnarrow
        rw [hnarrow] at hformat
        cases hformat
      have hsimple := hsuits.wide.mpr hwide
      rw [hdescribes.layoutIn_of_none hformat, FormatFlags.has_zero] at hsimple
      cases hsimple
  | some format =>
      exact ⟨d, hd, format, _, hshows, hformat, ⟨hdescribes.layoutIn hformat, hsuits, hnative⟩, hfetch⟩

/-! ### The standard set -/

/-- The formats in which a reader finds no index: it takes the byte of the next instruction, or a constant, or two
bytes of which one is of no use. -/
def misread : IndexReader → List String
  | byte => ["b", "bc"]
  | short false => ["bcc", "b_JJ"]
  | short true => []
  | cache _ => ["b_JJ"]
  | word => []

/-- A reader returns the index of an instruction: the one that its format spells in that place, in the byte order that
is spelled too, and with all of its bytes inside the instruction. -/
structure ReturnsIndex (r : IndexReader) (c : Cursor) (format : String) (letter : UInt8) (v : UInt32) : Prop where
  isIndex : letter ∈ indexLetters
  field : FieldAt format letter r.offset r.size
  fetch : r.fetch c (.ofLetter letter) = .ok v
  inside : ∃ n, c.length = .ok n ∧ r.offset + r.size ≤ n

/-- Whether a format has what it should have in the place of the index: no index if it is misread, and an index if it
suits the reader otherwise. -/
private def isSorted (r : IndexReader) (format : String) : Bool :=
  match Format.flags format 0 with
  | .ok set =>
    let suits := SuitsIndex set r.size r.wide ∧ (r.isNative = true → set.has .hasNative = true)
    let isIndex := ∃ letter ∈ indexLetters, (Format.bytes format)[r.offset]? = some letter
    decide (if format ∈ r.misread then suits ∧ ¬isIndex else suits → isIndex)
  | .error _ => false

private theorem isSorted_standard : ∀ d ∈ OpcodeDefinition.standard,
    ∀ r ∈ [byte, short false, short true, cache 0, word], ∀ format ∈ d.formatIn r.wide, r.isSorted format = true := by
  decide +kernel

/-- Of the formats that suit a reader, those without an index in its place are known. -/
theorem sorted_standard {d : OpcodeDefinition} (hd : d ∈ OpcodeDefinition.standard) {format : String}
    (hformat : d.formatIn r.wide = some format) :
    ∃ set, Format.flags format 0 = .ok set ∧
      if format ∈ r.misread then
        r.Suits format set ∧ ¬∃ letter ∈ indexLetters, (Format.bytes format)[r.offset]? = some letter
      else r.Suits format set → ∃ letter ∈ indexLetters, (Format.bytes format)[r.offset]? = some letter := by
  have hsorted : r.isSorted format = true := by
    cases r with
    | byte => exact isSorted_standard d hd byte (by simp) format hformat
    | short wide => exact isSorted_standard d hd (short wide) (by cases wide <;> simp) format hformat
    | cache tag => exact isSorted_standard d hd (cache 0) (by simp) format hformat
    | word => exact isSorted_standard d hd word (by simp) format hformat
  unfold isSorted at hsorted
  cases hset : Format.flags format 0 with
  | error e =>
      rw [hset] at hsorted
      cases hsorted
  | ok set =>
      rw [hset] at hsorted
      have h := of_decide_eq_true hsorted
      refine ⟨set, rfl, ?_⟩
      by_cases hmisread : format ∈ r.misread
      · rw [if_pos hmisread] at h ⊢
        exact ⟨⟨hset, h.1.1, h.1.2⟩, h.2⟩
      · rw [if_neg hmisread] at h ⊢
        exact fun hsuits => h ⟨hsuits.index, hsuits.native⟩

end IndexReader

/-- An instruction is as long as its format. -/
theorem Cursor.length_of_shows {c : Cursor} {wide : Bool} {d : OpcodeDefinition} {format : String}
    (hformats : c.formats = standard) (hd : d ∈ OpcodeDefinition.standard) (hshows : c.Shows wide d.code)
    (hformat : d.formatIn wide = some format) (hne : format ≠ "") : c.length = .ok format.utf8ByteSize := by
  have hlength := FormatTable.length_of_definition (hformats ▸ FormatTable.ofDefinitions_standard) hd hformat hne
  cases wide with
  | false =>
      have hop : c.rawOpcode = .ok d.code := hshows
      rw [length, hop, ok_bind, hlength]
      rfl
  | true =>
      have hwide : standard.shape? .wide = some (none, .wide) := by decide +kernel
      obtain ⟨e, he, hnone, hcanonical⟩ := FormatTable.entry_of_shape? hwide
      rw [length_of_none hshows.1 (hformats ▸ he) hnone, if_pos hcanonical, hshows.2, ok_bind, hlength, ok_bind]

namespace IndexReader

variable {r : IndexReader} {c : Cursor}

/-- What the checked readers of an index return, over the standard set. What is returned is the index that the format
of the instruction spells in the place where it is read, unless this format is one of the few that are misread: these
have no index there, and what is there is returned all the same. -/
theorem index_read (hmode : c.mode = .checked) (hformats : c.formats = standard) (hsight : c.InSight r.wide) :
    (∀ op v, r.read c op = .ok v →
      ∃ d ∈ OpcodeDefinition.standard, ∃ format, c.Shows r.wide d.code ∧ d.formatIn r.wide = some format ∧
        (format ∈ r.misread ∨ ∃ letter, r.ReturnsIndex c format letter v)) ∧
    ∀ d ∈ OpcodeDefinition.standard, ∀ format ∈ d.formatIn r.wide, c.Shows r.wide d.code → format ∈ r.misread →
      (¬∃ letter ∈ indexLetters, ∃ n, FieldAt format letter r.offset n) ∧
        ∃ set, Format.flags format 0 = .ok set ∧ ∀ v, r.read c d.code = .ok v ↔ r.fetch c set.order = .ok v := by
  have htable : FormatTable.ofDefinitions OpcodeDefinition.standard = .ok c.formats :=
    hformats ▸ FormatTable.ofDefinitions_standard
  constructor
  · intro op v hread
    obtain ⟨d, hd, format, set, hshows, hformat, hsuits, hfetch⟩ := exists_format_of_read htable hmode hsight hread
    refine ⟨d, hd, format, hshows, hformat, or_iff_not_imp_left.mpr fun hmisread => ?_⟩
    obtain ⟨set', hset', hsorted⟩ := sorted_standard hd hformat
    obtain rfl := Except.ok.inj (hsuits.flags.symm.trans hset')
    rw [if_neg hmisread] at hsorted
    obtain ⟨letter, hletter, hbyte⟩ := hsorted hsuits
    have hused : letter ≠ unused := by
      rintro rfl
      exact absurd hletter (by decide)
    obtain ⟨hfield, hnative⟩ := Format.field_after_lead hsuits.flags hsuits.index hbyte hused
    have hne : format ≠ "" := by
      rintro rfl
      cases hbyte
    have horder : set.order = .ofLetter letter := by
      simp only [FormatFlags.order, ByteOrder.ofLetter, hnative]
    exact ⟨letter, hletter, hfield, horder ▸ hfetch, _,
      Cursor.length_of_shows hformats hd hshows hformat hne, hfield.end_le⟩
  · intro d hd format hformat hshows hmisread
    obtain ⟨set, hset, hsorted⟩ := sorted_standard hd hformat
    rw [if_pos hmisread] at hsorted
    have hlayout := Cursor.hasLayout_of_shows htable hmode hsight hd hd hshows hformat hformat hset
    refine ⟨?_, set, hset, fun v => read_of_layout hlayout hsorted.1.index hsorted.1.native⟩
    rintro ⟨letter, hletter, n, hfield⟩
    exact hsorted.2 ⟨letter, hletter, hfield.byte⟩

/-- A constant load with its index. -/
def sampleLoad : Cursor := ⟨.checked, standard, .ofList [0x12, 7], none, 0⟩

/-- An instruction without operands, and another one after it. -/
def sampleNop : Cursor := ⟨.checked, standard, .ofList [0x00, 0x2a], none, 0⟩

theorem index_read_sample :
    sampleLoad.InSight false ∧ sampleNop.InSight false ∧
      byte.ReturnsIndex sampleLoad "bk" ('k').toUInt8 7 ∧
      (¬∃ letter ∈ indexLetters, ∃ n, FieldAt "b" letter 1 n) ∧ byte.read sampleNop ⟨0x00⟩ = .ok 0x2a := by
  have hsight : sampleLoad.InSight false := ⟨by decide, nofun⟩
  have hsight' : sampleNop.InSight false := ⟨by decide, nofun⟩
  have hread : byte.read sampleLoad .ldc = .ok 7 := by decide +kernel
  have hformats : ∀ d ∈ OpcodeDefinition.standard, d.code = .ldc → d.formatIn false = some "bk" := by decide +kernel
  obtain ⟨d, hd, format, hshows, hformat, hcase⟩ := (index_read (r := byte) rfl rfl hsight).1 _ _ hread
  obtain rfl : format = "bk" :=
    Option.some.inj (hformat.symm.trans (hformats d hd (hshows.unique (show sampleLoad.rawOpcode = _ by decide))))
  obtain ⟨letter, hreturns⟩ := hcase.resolve_left (by decide)
  obtain rfl : letter = ('k').toUInt8 := Option.some.inj (hreturns.field.byte.symm.trans (by decide))
  have hnop : OpcodeDefinition.plain 0x00 "nop" "b" .void ∈ OpcodeDefinition.standard := List.mem_cons_self
  obtain ⟨hnone, set, -, hfetch⟩ :=
    (index_read (r := byte) rfl rfl hsight').2 _ hnop "b" rfl (show sampleNop.rawOpcode = _ by decide) (by decide)
  exact ⟨hsight, hsight', hreturns, hnone, (hfetch 0x2a).mpr rfl⟩

/-- An instruction without any operand has its index read nevertheless. -/
theorem index_of_nop :
    ¬∀ (r : IndexReader) (c : Cursor) (op : Opcode) (v : UInt32), c.mode = .checked → c.formats = standard →
      c.InSight true → r.read c op = .ok v →
      ∃ d ∈ OpcodeDefinition.standard, ∃ format, c.Shows r.wide d.code ∧ d.formatIn r.wide = some format ∧
        ∃ letter ∈ indexLetters, FieldAt format letter r.offset r.size := by
  intro h
  have hsight : sampleNop.InSight true := ⟨by decide, fun _ => by decide⟩
  have hread : byte.read sampleNop ⟨0x00⟩ = .ok 0x2a := by decide +kernel
  have hformats : ∀ d ∈ OpcodeDefinition.standard, d.code = ⟨0x00⟩ → d.formatIn false = some "b" := by decide +kernel
  obtain ⟨d, hd, format, hshows, hformat, letter, -, hfield⟩ := h byte sampleNop ⟨0x00⟩ _ rfl rfl hsight hread
  obtain rfl : format = "b" :=
    Option.some.inj (hformat.symm.trans (hformats d hd (hshows.unique (show sampleNop.rawOpcode = _ by decide))))
  exact absurd hfield.end_le (by decide)

end IndexReader

end MethodCode
