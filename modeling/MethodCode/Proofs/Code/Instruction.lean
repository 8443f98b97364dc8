import MethodCode.Proofs.Cursor.Length

/-! Instructions as ranges of bytes. `Occupies` says that an instruction is all there and how many bytes
it takes, and a walk by checked lengths visits exactly such instructions. Main statements: the length of
an instruction depends on its own bytes alone, and no two instructions of a walk overlap. -/

namespace MethodCode

open FormatTable (standard)

namespace Code

/-- A cursor over bare code. -/
def cursorAt (c : Code) (bci : Nat) : Cursor := ⟨.checked, .standard, c, none, bci⟩

/-- The length of the instruction at a position, if the code holds all of it. -/
def lengthAt (c : Code) (bci : Nat) : Except Fault (Option Nat) := (c.cursorAt bci).checkedLength

/-- The length that the instruction at a position states, its opcode having the entry `e`. -/
inductive States (c : Code) (bci : Nat) (e : FormatEntry) : Nat → Prop where
  | fixed {n : Nat} (hlength : e.length = some n) : States c bci e n
  | wide {inner : Opcode} {e' : FormatEntry} {n : Nat} (hlength : e.length = none)
      (hcanonical : e.canonical = .wide) (hinner : c.opcodeAt (bci + 1) = .ok inner)
      (hentry : standard.entry? inner = some e') (hwide : e'.wideLength = some n) : States c bci e n
  | tableSwitch {low high : Int32} (hlength : e.length = none) (hcanonical : e.canonical = .tableswitch)
      (hlow : (c.cursorAt bci).switchWord 1 = .ok low)
      (hhigh : (c.cursorAt bci).switchWord 2 = .ok high) :
      States c bci e ((c.cursorAt bci).alignedOffset 1 + 12 + (high.toInt - low.toInt + 1).toNat * 4)
  | lookupSwitch {pairs : Int32} (hlength : e.length = none) (hcanonical : e.canonical = .lookupswitch)
      (hpairs : (c.cursorAt bci).switchWord 1 = .ok pairs) :
      States c bci e ((c.cursorAt bci).alignedOffset 1 + 8 + pairs.toInt.toNat * 8)
  | hidden (hlength : e.length = none) (hwide : e.canonical ≠ .wide)
      (htable : e.canonical ≠ .tableswitch) (hlookup : e.canonical ≠ .lookupswitch) : States c bci e 1

/-- The code holds all `n` bytes of the instruction at a position. -/
structure Occupies (c : Code) (bci n : Nat) (op : Opcode) (e : FormatEntry) : Prop where
  opcode : c.opcodeAt bci = .ok op
  entry : standard.entry? op = some e
  states : c.States bci e n
  ends : bci + n ≤ c.size

end Code

theorem Cursor.checkedLength_eq_lengthAt {c : Cursor} (h : c.formats = .standard) :
    c.checkedLength = c.code.lengthAt c.bci := by
  cases c
  subst h
  rfl

namespace Code

variable {c d : Code} {bci n : Nat} {op : Opcode} {e : FormatEntry}

/-- The length of an instruction is the one that it states. -/
theorem length_eq_ok_iff_states (hop : c.opcodeAt bci = .ok op) (he : standard.entry? op = some e) :
    (c.cursorAt bci).length = .ok n ↔ c.States bci e n := by
  have hraw : (c.cursorAt bci).rawOpcode = .ok op := hop
  have hentry : (c.cursorAt bci).formats.entry? op = some e := he
  have hinner : (c.cursorAt bci).wideOpcode = c.opcodeAt (bci + 1) := rfl
  constructor
  · intro h
    cases hlength : e.length with
    | some m =>
        rw [Cursor.length_of_fixed hraw hentry hlength] at h
        obtain rfl := Except.ok.inj h
        exact .fixed hlength
    | none =>
        rw [Cursor.length_of_none hraw hentry hlength] at h
        by_cases hwide : e.canonical = .wide
        · rw [if_pos hwide] at h
          obtain ⟨inner, hinnerOp, h⟩ := bind_eq_ok.mp h
          obtain ⟨l, hl, h⟩ := bind_eq_ok.mp h
          obtain ⟨e', he'⟩ := FormatTable.exists_entry_of_bind hl
          rw [FormatTable.length_of_entry he', if_pos rfl] at hl
          obtain rfl := Except.ok.inj hl
          cases hwidened : e'.wideLength with
          | none =>
              rw [hwidened] at h
              obtain ⟨name, -, h⟩ := bind_eq_ok.mp h
              cases h
          | some m =>
              rw [hwidened] at h
              obtain rfl := Except.ok.inj h
              exact .wide hlength hwide hinnerOp he' hwidened
        rw [if_neg hwide] at h
        by_cases hswitch : e.canonical = .tableswitch ∨ e.canonical = .lookupswitch
        · rw [if_pos hswitch] at h
          rcases (Cursor.switchLength_eq_ok hswitch).mp h with
            ⟨htable, low, high, hlow, hhigh, rfl⟩ | ⟨hlookup, pairs, hpairs, rfl⟩
          · exact .tableSwitch hlength htable hlow hhigh
          · exact .lookupSwitch hlength hlookup hpairs
        · rw [if_neg hswitch] at h
          obtain rfl := Except.ok.inj h
          obtain ⟨htable, hlookup⟩ := not_or.mp hswitch
          exact .hidden hlength hwide htable hlookup
  · intro h
    cases h with
    | fixed hlength => exact Cursor.length_of_fixed hraw hentry hlength
    | wide hlength hcanonical hinnerOp hinnerEntry hwide =>
        have hwidened := (FormatTable.length_of_entry hinnerEntry true).trans (congrArg _ hwide)
        rw [Cursor.length_of_none hraw hentry hlength, if_pos hcanonical, hinner, hinnerOp, ok_bind]
        exact (congrArg (· >>= _) hwidened).trans rfl
    | tableSwitch hlength hcanonical hlow hhigh =>
        rw [Cursor.length_of_none hraw hentry hlength, if_neg (by rw [hcanonical]; decide),
          if_pos (.inl hcanonical), Cursor.switchLength_eq_ok (.inl hcanonical)]
        exact .inl ⟨hcanonical, _, _, hlow, hhigh, rfl⟩
    | lookupSwitch hlength hcanonical hpairs =>
        rw [Cursor.length_of_none hraw hentry hlength, if_neg (by rw [hcanonical]; decide),
          if_pos (.inr hcanonical), Cursor.switchLength_eq_ok (.inr hcanonical)]
        exact .inr ⟨hcanonical, _, hpairs, rfl⟩
    | hidden hlength hwide htable hlookup =>
        rw [Cursor.length_of_none hraw hentry hlength, if_neg hwide, if_neg (not_or.mpr ⟨htable, hlookup⟩)]

/-- A walk finds an instruction exactly where the code holds all of one. -/
theorem lengthAt_eq_some_iff : c.lengthAt bci = .ok (some n) ↔ ∃ op e, c.Occupies bci n op e := by
  rw [lengthAt, Cursor.checkedLength_eq_some_iff]
  constructor
  · rintro ⟨hlength, hend⟩
    obtain ⟨op, hop, hrest⟩ := bind_eq_ok.mp hlength
    obtain ⟨_, hl, -⟩ := bind_eq_ok.mp hrest
    obtain ⟨e, he⟩ := FormatTable.exists_entry_of_bind hl
    exact ⟨op, e, hop, he, (length_eq_ok_iff_states hop he).mp hlength, hend⟩
  · rintro ⟨op, e, hop, he, hstates, hend⟩
    exact ⟨(length_eq_ok_iff_states hop he).mpr hstates, hend⟩

/-- A walk fails at a byte that is no opcode, and nowhere else. -/
theorem lengthAt_eq_error_iff {f : Fault} :
    c.lengthAt bci = .error f ↔
      ∃ op, c.opcodeAt bci = .ok op ∧ standard.entry? op = none ∧ f = .violation (.invalidOpcode op) := by
  unfold lengthAt
  constructor
  · intro h
    have hlt : bci < c.size := by
      by_contra hend
      rw [Cursor.checkedLength, if_pos (by exact Nat.not_lt.mp hend)] at h
      cases h
    obtain ⟨b, hb⟩ := exists_byteAt hlt
    have hop : c.opcodeAt bci = .ok ⟨b⟩ := opcodeAt_eq_ok.mpr hb
    cases he : standard.entry? ⟨b⟩ with
    | none =>
        rw [Cursor.checkedLength_of_undefined (c := c.cursorAt bci) hop he] at h
        exact ⟨_, hop, he, (Except.error.inj h).symm⟩
    | some e =>
        obtain ⟨l, hl⟩ := Cursor.exists_checkedLength (c := c.cursorAt bci) hop he
        rw [hl] at h
        cases h
  · rintro ⟨op, hop, hundefined, rfl⟩
    exact Cursor.checkedLength_of_undefined (c := c.cursorAt bci) hop hundefined

/-! ### Instructions over changed code -/

theorem States.congr {e' : FormatEntry} (h : c.States bci e n) (hlength : e'.length = e.length)
    (hcanonical : e'.canonical = e.canonical)
    (hbytes : e.length = none → Set.EqOn d.byteAt c.byteAt (Set.Ico (bci + 1) (bci + n))) :
    d.States bci e' n := by
  have halign := (c.cursorAt bci).one_le_alignedOffset
  cases h with
  | fixed hl => exact .fixed (hlength.trans hl)
  | wide hl hc hinner hentry hwide =>
      have hn := (FormatTable.regular_standard hentry).2.1 n hwide
      have hbyte : d.byteAt (bci + 1) = c.byteAt (bci + 1) := hbytes hl ⟨by omega, by omega⟩
      exact .wide (hlength.trans hl) (hcanonical.trans hc) ((opcodeAt_congr hbyte).trans hinner) hentry hwide
  | tableSwitch hl hc hlow hhigh =>
      have hword (k : Nat) (hk : k ≤ 2) :
          (d.cursorAt bci).switchWord k = (c.cursorAt bci).switchWord k :=
        Cursor.switchWord_congr rfl ((hbytes hl).mono (Set.Ico_subset_Ico
          (by change bci + 1 ≤ bci + _; omega) (by change bci + _ + 4 ≤ bci + _; omega)))
      exact .tableSwitch (hlength.trans hl) (hcanonical.trans hc) ((hword 1 (by omega)).trans hlow)
        ((hword 2 (by omega)).trans hhigh)
  | lookupSwitch hl hc hpairs =>
      have hword : (d.cursorAt bci).switchWord 1 = (c.cursorAt bci).switchWord 1 :=
        Cursor.switchWord_congr rfl ((hbytes hl).mono (Set.Ico_subset_Ico
          (by change bci + 1 ≤ bci + _; omega) (by change bci + _ + 4 ≤ bci + _; omega)))
      exact .lookupSwitch (hlength.trans hl) (hcanonical.trans hc) (hword.trans hpairs)
  | hidden hl hwide htable hlookup =>
      refine .hidden (hlength.trans hl) ?_ ?_ ?_ <;> rwa [hcanonical]

namespace Occupies

theorem pos (h : c.Occupies bci n op e) : 0 < n := by
  have halign := (c.cursorAt bci).one_le_alignedOffset
  cases h.states with
  | fixed hlength => exact (FormatTable.regular_standard h.entry).1 n hlength
  | wide _ _ _ hentry hwide => exact Nat.zero_lt_of_lt ((FormatTable.regular_standard hentry).2.1 n hwide)
  | tableSwitch => omega
  | lookupSwitch => omega
  | hidden => omega

theorem lengthAt (h : c.Occupies bci n op e) : c.lengthAt bci = .ok (some n) :=
  lengthAt_eq_some_iff.mpr ⟨op, e, h⟩

theorem of_shape {raw : Opcode} (hop : c.opcodeAt bci = .ok op)
    (hshape : standard.shape? op = some (some n, raw)) (hend : bci + n ≤ c.size) :
    ∃ e, c.Occupies bci n op e ∧ e.canonical = raw := by
  obtain ⟨e, he, heq⟩ := Option.map_eq_some_iff.mp hshape
  obtain ⟨hlength, hcanonical⟩ := Prod.mk.inj heq
  exact ⟨e, ⟨hop, he, .fixed hlength, hend⟩, hcanonical⟩

/-- An instruction of fixed length takes that length. -/
theorem eq_of_length {m : Nat} (h : c.Occupies bci n op e) (hm : e.length = some m) : n = m := by
  cases h.states with
  | fixed hlength => exact Option.some.inj (hlength.symm.trans hm)
  | wide hlength => rw [hlength] at hm; cases hm
  | tableSwitch hlength => rw [hlength] at hm; cases hm
  | lookupSwitch hlength => rw [hlength] at hm; cases hm
  | hidden hlength => rw [hlength] at hm; cases hm

theorem short_of_member (h : c.Occupies bci n op e)
    (hfamily : e.family = .fieldAccess ∨ e.family = .invoke) : 3 ≤ n ∧ e.HasShortIndex true := by
  have hlaid := FormatTable.laidOut_standard h.entry
  rcases hfamily with hf | hf
  · rw [hf] at hlaid
    rw [h.eq_of_length hlaid.1]
    exact ⟨Nat.le_refl _, hlaid.2⟩
  · rw [hf] at hlaid
    refine ⟨?_, hlaid.2⟩
    rcases hlaid.1 with hlength | hlength
    · rw [h.eq_of_length hlength]
    · rw [h.eq_of_length hlength]
      omega

theorem word_of_callSite (h : c.Occupies bci n op e) (hfamily : e.family = .dynamicInvoke) :
    n = 5 ∧ e.HasWordIndex := by
  have hlaid := FormatTable.laidOut_standard h.entry
  rw [hfamily] at hlaid
  exact ⟨h.eq_of_length hlaid.2.1, hlaid.2.2⟩

theorem room_of_load (h : c.Occupies bci n op e) (hfamily : e.family = .loadConstant) :
    n = if e.canonical = .ldc then 2 else 3 := by
  have hlaid := FormatTable.laidOut_standard h.entry
  rw [hfamily, FormatEntry.LaidOut] at hlaid
  by_cases hldc : e.canonical = .ldc
  · rw [if_pos hldc] at hlaid ⊢
    exact h.eq_of_length hlaid.1
  · rw [if_neg hldc] at hlaid ⊢
    exact h.eq_of_length hlaid.1

/-- A table has a word for every key between its bounds, after the three that lead it. -/
theorem table_words (h : c.Occupies bci n op e) (hfamily : e.family = .tableSwitch) :
    ∃ low high, (c.cursorAt bci).switchWord 1 = .ok low ∧ (c.cursorAt bci).switchWord 2 = .ok high ∧
      n = (c.cursorAt bci).alignedOffset 1 + 12 + (high.toInt - low.toInt + 1).toNat * 4 := by
  have hlaid := FormatTable.laidOut_standard h.entry
  rw [hfamily] at hlaid
  obtain ⟨hnone, -, htable⟩ := hlaid
  cases h.states with
  | fixed hlength => rw [hnone] at hlength; cases hlength
  | wide _ hcanonical => rw [htable] at hcanonical; exact absurd hcanonical (by decide)
  | tableSwitch _ _ hlow hhigh => exact ⟨_, _, hlow, hhigh, rfl⟩
  | lookupSwitch _ hcanonical => rw [htable] at hcanonical; exact absurd hcanonical (by decide)
  | hidden _ _ hcanonical => exact absurd htable hcanonical

/-- A lookup has two words for every pair, after the two that lead it. -/
theorem lookup_words (h : c.Occupies bci n op e) (hfamily : e.family = .lookupSwitch) :
    ∃ pairs, (c.cursorAt bci).switchWord 1 = .ok pairs ∧
      n = (c.cursorAt bci).alignedOffset 1 + 8 + pairs.toInt.toNat * 8 := by
  have hlaid := FormatTable.laidOut_standard h.entry
  rw [hfamily] at hlaid
  obtain ⟨hnone, hlookup⟩ := hlaid
  cases h.states with
  | fixed hlength => rw [hnone] at hlength; cases hlength
  | wide _ hcanonical => rw [hlookup] at hcanonical; exact absurd hcanonical (by decide)
  | tableSwitch _ hcanonical => rw [hlookup] at hcanonical; exact absurd hcanonical (by decide)
  | lookupSwitch _ _ hpairs => exact ⟨_, hpairs, rfl⟩
  | hidden _ _ _ hcanonical => exact absurd hlookup hcanonical

/-- Another opcode of the same shape leaves an instruction in its place, whatever becomes of the operands
that do not tell its length. -/
theorem congr {op' : Opcode} {e' : FormatEntry} (h : c.Occupies bci n op e)
    (hop : d.opcodeAt bci = .ok op') (hentry : standard.entry? op' = some e')
    (hlength : e'.length = e.length) (hcanonical : e'.canonical = e.canonical)
    (hbytes : e.length = none → Set.EqOn d.byteAt c.byteAt (Set.Ico (bci + 1) (bci + n)))
    (hsize : bci + n ≤ d.size) : d.Occupies bci n op' e' :=
  ⟨hop, hentry, h.states.congr hlength hcanonical hbytes, hsize⟩

/-- An instruction depends on its own bytes alone. -/
theorem of_eqOn (h : c.Occupies bci n op e) (hbytes : Set.EqOn d.byteAt c.byteAt (Set.Ico bci (bci + n)))
    (hsize : bci + n ≤ d.size) : d.Occupies bci n op e := by
  have hpos := h.pos
  have hop : d.opcodeAt bci = .ok op := (opcodeAt_congr (hbytes ⟨by omega, by omega⟩)).trans h.opcode
  exact h.congr hop h.entry rfl rfl
    (fun _ => hbytes.mono (Set.Ico_subset_Ico (Nat.le_succ bci) (Nat.le_refl _))) hsize

end Occupies

theorem switchWord_cursorAt (hbytes : Set.EqOn d.byteAt c.byteAt (Set.Ici bci)) (k : Nat) :
    (d.cursorAt bci).switchWord k = (c.cursorAt bci).switchWord k := by
  refine Cursor.switchWord_congr rfl (hbytes.mono ?_)
  intro p hp
  have hle : bci + _ ≤ p := hp.1
  exact Set.mem_Ici.mpr (by omega)

/-- What a walk finds at a position depends on the bytes from there on, also where it finds nothing. -/
theorem lengthAt_congr (hsize : d.size = c.size) (hbytes : Set.EqOn d.byteAt c.byteAt (Set.Ici bci)) :
    d.lengthAt bci = c.lengthAt bci := by
  have hop (k : Nat) : d.opcodeAt (bci + k) = c.opcodeAt (bci + k) :=
    opcodeAt_congr (hbytes (Set.mem_Ici.mpr (by omega)))
  have hswitch (op : Opcode) : (d.cursorAt bci).switchLength op = (c.cursorAt bci).switchLength op := by
    simp only [Cursor.switchLength, switchWord_cursorAt hbytes]
    rfl
  have hstated : (d.cursorAt bci).statedLength = (c.cursorAt bci).statedLength := by
    have hraw : (d.cursorAt bci).rawOpcode = (c.cursorAt bci).rawOpcode := hop 0
    have hwide : (d.cursorAt bci).wideOpcode = (c.cursorAt bci).wideOpcode := hop 1
    have hsize' : (d.cursorAt bci).code.size = (c.cursorAt bci).code.size := hsize
    simp only [Cursor.statedLength, hraw, hwide, hswitch, hsize']
    rfl
  have hsize' : (d.cursorAt bci).code.size = (c.cursorAt bci).code.size := hsize
  rw [lengthAt, lengthAt, Cursor.checkedLength, Cursor.checkedLength, hstated, hsize']
  rfl

end Code

end MethodCode
