import MethodCode.Proofs.Instruction.Safety
import MethodCode.Proofs.Instruction.SwitchLayout
import MethodCode.Proofs.Mode.Operation

/-! Lookup switches as they are laid out: the default, the number of pairs, and every key with its offset. Main
statement: the code of a lookup switch or of one of its fast forms reads back as the default and the pairs that were
laid out, the instruction is as long as its layout, tests accept it exactly if its keys ascend, and a negative number
of pairs is as good as none. -/

namespace MethodCode

open FormatTable (standard)

namespace LookupSwitch

/-! ### Layouts -/

/-- The standard code of a lookup switch and its fast forms. -/
def forms : List Opcode := [.lookupswitch, .fastLinearswitch, .fastBinaryswitch]

private theorem shape?_forms : ∀ op ∈ forms, standard.shape? op = some (none, .lookupswitch) := by
  decide +kernel

/-- Every pair as its key and its offset. -/
def pairWords (pairs : List SwitchPair) : List Int32 := pairs.flatMap fun p => [p.key, p.offset]

@[simp] theorem length_pairWords (pairs : List SwitchPair) : (pairWords pairs).length = pairs.length * 2 := by
  simp [pairWords]

theorem getElem?_pairWords {pairs : List SwitchPair} {i : Nat} {p : SwitchPair} (hi : pairs[i]? = some p) :
    (pairWords pairs)[i * 2]? = some p.key ∧ (pairWords pairs)[i * 2 + 1]? = some p.offset := by
  induction pairs generalizing i with
  | nil => cases hi
  | cons first pairs ih =>
      rw [pairWords, List.flatMap_cons, ← pairWords]
      cases i with
      | zero =>
          obtain rfl := Option.some.inj hi
          exact ⟨rfl, rfl⟩
      | succ i =>
          rw [Nat.succ_mul]
          exact ih hi

/-- A default and pairs, no more of them than a signed word can count. -/
structure Table where
  default : Int32
  pairs : List SwitchPair
  fits : pairs.length ≤ Int32.maxValue.toInt

namespace Table

/-- The number of pairs. -/
def count (t : Table) : Int32 := .ofNat t.pairs.length

/-- The words of a lookup switch. -/
def words (t : Table) : List Int32 := t.default :: t.count :: pairWords t.pairs

theorem toNat_count (t : Table) : t.count.toInt.toNat = t.pairs.length := by
  have hfits := t.fits
  have hmax : Int32.maxValue.toInt = 2147483647 := rfl
  rw [count, Int32.toInt_ofNat_of_lt (by omega), Int.toNat_natCast]

end Table

variable {c d : Code} {bci : Nat} {op : Opcode} {padding : List UInt8} {words : List Int32} {n : Int32}
  {mode : Mode} {method : Option Method}

/-! ### Any number of pairs -/

section Counted

variable (hop : op ∈ forms) (h : c.HoldsSwitch bci op padding words) (hcount : words[1]? = some n)

include h

include hop in
theorem isValid_of_holds : isValid ⟨c.viewAt mode method bci⟩ = .ok true := by
  rw [isValid, h.family (shape?_forms op hop)]
  rfl

include hcount

theorem size_of_holds : size ⟨c.viewAt mode method bci⟩ = .ok n.toInt.toNat := by
  rw [size, h.switchWord hcount]
  rfl

include hop in
theorem length_of_holds :
    (c.viewAt mode method bci).length = .ok (1 + padding.length + 8 + n.toInt.toNat * 8) := by
  rw [h.length (shape?_forms op hop) (.inr rfl), Cursor.switchLength_eq_ok (.inr rfl)]
  exact .inr ⟨rfl, n, h.switchWord hcount, by rw [h.alignedOffset]⟩

/-- All words are there if there are as many of them as the number of pairs asks for. -/
theorem complete_of_holds (hwords : words.length = 2 + n.toInt.toNat * 2) :
    Complete ⟨c.viewAt mode method bci⟩ n.toInt.toNat where
  size := size_of_holds h hcount
  word _ hk := ⟨_, h.switchWord (List.getElem?_eq_getElem (hwords ▸ hk))⟩

end Counted

/-! ### The pairs of a table -/

section Table

variable {t : Table} (h : c.HoldsSwitch bci op padding t.words)

include h

theorem pairAt_of_holds {i : Nat} {p : SwitchPair} (hi : t.pairs[i]? = some p) :
    pairAt ⟨c.viewAt mode method bci⟩ i = .ok p := by
  obtain ⟨hkey, hoffset⟩ := getElem?_pairWords hi
  have hinside : (c.viewAt mode method bci).mode.check
      (do ensure (i < (← size ⟨c.viewAt mode method bci⟩)) (.pairOutOfBounds i)) = .ok () := by
    apply Cursor.check_of_ok
    rw [size_of_holds h rfl, t.toNat_count, ok_bind]
    exact if_pos (decide_eq_true (List.getElem?_eq_some_iff.mp hi).1)
  have hfirst : (c.viewAt mode method bci).switchWord (2 + i * 2) = .ok p.key := by
    rw [Nat.add_comm]
    exact h.switchWord hkey
  have hsecond : (c.viewAt mode method bci).switchWord (3 + i * 2) = .ok p.offset := by
    rw [Nat.add_comm]
    exact h.switchWord hoffset
  rw [pairAt, hinside, ok_bind, hfirst, ok_bind, hsecond]
  rfl

/-- From any position on, the pairs that are left are read in their order. -/
theorem pairsFrom_of_holds (before after : List SwitchPair) (hpairs : t.pairs = before ++ after) :
    pairsFrom ⟨c.viewAt mode method bci⟩ before.length after.length = .ok after := by
  induction after generalizing before with
  | nil => rfl
  | cons p after ih =>
      have hp : t.pairs[before.length]? = some p := by simp [hpairs]
      have hrest := ih (before ++ [p]) (by simp [hpairs])
      rw [List.length_append, List.length_singleton] at hrest
      rw [List.length_cons, pairsFrom, pairAt_of_holds h hp, ok_bind, hrest]
      rfl

theorem pairs_of_holds : pairs ⟨c.viewAt mode method bci⟩ = .ok t.pairs := by
  rw [pairs, size_of_holds h rfl, t.toNat_count, ok_bind]
  exact pairsFrom_of_holds h [] t.pairs rfl

theorem lengths_of_holds (hop : op ∈ forms) :
    (c.viewAt mode method bci).length = .ok (switchBytes op padding t.words).length ∧
      (c.viewAt mode method bci).checkedLength = .ok (some (switchBytes op padding t.words).length) := by
  have hcounted : (switchBytes op padding t.words).length = 1 + padding.length + 8 + t.count.toInt.toNat * 8 := by
    rw [length_switchBytes, t.toNat_count, Table.words, List.length_cons, List.length_cons, length_pairWords]
    omega
  have hlength : (c.viewAt mode method bci).length = .ok (switchBytes op padding t.words).length := by
    rw [hcounted, length_of_holds hop h rfl]
  exact ⟨hlength, Cursor.checkedLength_eq_some_iff.mpr ⟨hlength, h.end_le⟩⟩

/-- Tests accept the switch if its keys ascend, and otherwise tell two keys that do not. -/
theorem decode_of_holds (hop : op ∈ forms) (method : Option Method) :
    Ascending t.pairs ∧ decode (c.viewAt .checked method bci) = .ok ⟨c.viewAt .checked method bci⟩ ∨
      ¬Ascending t.pairs ∧ ∃ key next : Int32, next ≤ key ∧
        decode (c.viewAt .checked method bci) = .error (.violation (.keysOutOfOrder bci key next)) := by
  have hwords : t.words.length = 2 + t.count.toInt.toNat * 2 := by
    rw [Table.words, t.toNat_count, List.length_cons, List.length_cons, length_pairWords]
    omega
  have hcomplete : Complete ⟨c.viewAt .checked method bci⟩ t.count.toInt.toNat := complete_of_holds h rfl hwords
  obtain ⟨pairs, hpairs, hcases⟩ := hcomplete.decode_cases rfl (isValid_of_holds hop h)
  obtain rfl := Except.ok.inj ((pairs_of_holds h).symm.trans hpairs)
  exact hcases

end Table

/-! ### No pairs -/

section NoPairs

variable (hop : op ∈ forms) {default : Int32} (h : c.HoldsSwitch bci op padding [default, n])
  (hn : n.toInt.toNat = 0)

include hop h hn

/-- A number of pairs that stands for none is accepted. -/
theorem decode_of_no_pairs : decode (c.viewAt mode method bci) = .ok ⟨c.viewAt mode method bci⟩ := by
  cases mode with
  | unchecked => rfl
  | checked =>
      have hcomplete : Complete ⟨c.viewAt .checked method bci⟩ 0 := by
        rw [← hn]
        exact complete_of_holds h rfl (by simp [hn])
      obtain ⟨pairs, hpairs, ⟨-, hok⟩ | ⟨hnot, -⟩⟩ := hcomplete.decode_cases rfl (isValid_of_holds hop h)
      · exact hok
      · have hnone : LookupSwitch.pairs ⟨c.viewAt .checked method bci⟩ = .ok [] := by
          rw [LookupSwitch.pairs, hcomplete.size]
          rfl
        obtain rfl := Except.ok.inj (hnone.symm.trans hpairs)
        exact absurd List.Pairwise.nil hnot

theorem lengths_of_no_pairs :
    (c.viewAt mode method bci).length = .ok (1 + padding.length + 8) ∧
      (c.viewAt mode method bci).checkedLength = .ok (some (1 + padding.length + 8)) := by
  have hlength : (c.viewAt mode method bci).length = .ok (1 + padding.length + 8) := by
    rw [length_of_holds hop h rfl, hn]
  have hend := h.end_le
  rw [length_switchBytes] at hend
  exact ⟨hlength, Cursor.checkedLength_eq_some_iff.mpr ⟨hlength, hend⟩⟩

end NoPairs

section Negative

variable {default : Int32} (hd : d.HoldsSwitch bci op padding [default, n])
  (hc : c.HoldsSwitch bci op padding [default, 0]) (hn : n.toInt.toNat = 0)
  (hrest : Set.EqOn d.byteAt c.byteAt (Set.Ico (bci + 1 + padding.length + 4) (bci + 1 + padding.length + 8))ᶜ)

include hc hrest

/-- The words after the number of pairs are the same. -/
theorem switchWord_of_rest {k : Nat} (hk : 2 ≤ k) :
    (d.viewAt mode method bci).switchWord k = (c.viewAt mode method bci).switchWord k := by
  have hafter := Code.eqOn_after hrest (le_refl (bci + 1 + padding.length + 8))
  refine Cursor.switchWord_congr rfl (hafter.mono fun j hj => ?_)
  have hlow := (Set.mem_Ico.mp hj).1
  rw [hc.alignedOffset] at hlow
  change bci + (1 + padding.length + k * 4) ≤ j at hlow
  exact Set.mem_Ici.mpr (by omega)

include hd hn

/-- Whatever is asked of the switch, the answer is that of the switch without pairs. -/
theorem run_of_rest {α : Type} (call : LookupSwitchCall α) (hop : op ∈ forms) :
    call.run ⟨d.viewAt mode method bci⟩ = call.run ⟨c.viewAt mode method bci⟩ := by
  have hsize : size ⟨d.viewAt mode method bci⟩ = .ok 0 := by rw [size_of_holds hd rfl, hn]
  have hsize' : size ⟨c.viewAt mode method bci⟩ = .ok 0 := size_of_holds hc rfl
  cases call with
  | isValid => exact (isValid_of_holds hop hd).trans (isValid_of_holds hop hc).symm
  | defaultOffset => exact (hd.switchWord rfl).trans (hc.switchWord rfl).symm
  | size => exact hsize.trans hsize'.symm
  | pairAt i =>
      change pairAt _ i = pairAt _ i
      rw [pairAt, pairAt, hsize, hsize', switchWord_of_rest hc hrest (by omega : 2 ≤ 2 + i * 2),
        switchWord_of_rest hc hrest (by omega : 2 ≤ 3 + i * 2)]
      rfl
  | firstPairs limit =>
      change firstPairs _ limit = firstPairs _ limit
      rw [firstPairs, firstPairs, hsize, hsize', ok_bind, ok_bind, Nat.min_zero]
      rfl
  | pairs =>
      change LookupSwitch.pairs _ = LookupSwitch.pairs _
      rw [LookupSwitch.pairs, LookupSwitch.pairs, hsize, hsize']
      rfl

end Negative

/-! ### The layout and its reading -/

theorem eq_of_decode {cursor : Cursor} {l : LookupSwitch} (h : decode cursor = .ok l) : l = ⟨cursor⟩ := by
  obtain ⟨_, -, h⟩ := bind_eq_ok.mp h
  obtain ⟨_, -, h⟩ := bind_eq_ok.mp h
  exact (Except.ok.inj h).symm

/-- What was laid out as a lookup switch is what its view tells, at any position. With tests there is a view exactly
if the keys ascend, without tests there always is one. A negative number of pairs in the place of zero changes nothing
that can be asked, and neither length. -/
theorem inverts_layout (hop : op ∈ forms) (bci : Nat) (padding : List UInt8) (method : Option Method) :
    (∀ (t : Table) (c : Code), c.HoldsSwitch bci op padding t.words →
      ((∃ l, decode (c.viewAt .checked method bci) = .ok l) ↔ Ascending t.pairs) ∧
      (¬Ascending t.pairs → ∃ key next : Int32, next ≤ key ∧
        decode (c.viewAt .checked method bci) = .error (.violation (.keysOutOfOrder bci key next))) ∧
      (∃ l, decode (c.viewAt .unchecked method bci) = .ok l) ∧
      ∀ mode,
        (∀ l, decode (c.viewAt mode method bci) = .ok l →
          l.defaultOffset = .ok t.default ∧ l.size = .ok t.pairs.length ∧ l.pairs = .ok t.pairs ∧
            ∀ i (hi : i < t.pairs.length), l.pairAt i = .ok t.pairs[i]) ∧
        (c.viewAt mode method bci).length = .ok (switchBytes op padding t.words).length ∧
        (c.viewAt mode method bci).checkedLength = .ok (some (switchBytes op padding t.words).length)) ∧
    ∀ (default n : Int32) (c d : Code), n < 0 → d.HoldsSwitch bci op padding [default, n] →
      c.HoldsSwitch bci op padding [default, 0] →
      Set.EqOn d.byteAt c.byteAt (Set.Ico (bci + 1 + padding.length + 4) (bci + 1 + padding.length + 8))ᶜ →
      ∀ mode,
        decode (d.viewAt mode method bci) = .ok ⟨d.viewAt mode method bci⟩ ∧
        decode (c.viewAt mode method bci) = .ok ⟨c.viewAt mode method bci⟩ ∧
        (∀ (α : Type) (call : LookupSwitchCall α),
          call.run ⟨d.viewAt mode method bci⟩ = call.run ⟨c.viewAt mode method bci⟩) ∧
        (d.viewAt mode method bci).length = (c.viewAt mode method bci).length ∧
        (d.viewAt mode method bci).checkedLength = (c.viewAt mode method bci).checkedLength := by
  constructor
  · intro t c h
    have hcases := decode_of_holds h hop method
    refine ⟨⟨?_, ?_⟩, ?_, ⟨_, rfl⟩, fun mode => ⟨?_, lengths_of_holds h hop⟩⟩
    · rintro ⟨l, hl⟩
      rcases hcases with ⟨hascending, -⟩ | ⟨-, key, next, -, herror⟩
      · exact hascending
      · rw [herror] at hl
        cases hl
    · intro hascending
      exact ⟨_, (hcases.resolve_right fun hnot => hnot.1 hascending).2⟩
    · intro hnot
      exact (hcases.resolve_left fun hascending => hnot hascending.1).2
    · intro l hl
      obtain rfl := eq_of_decode hl
      have hsize : size ⟨c.viewAt mode method bci⟩ = .ok t.count.toInt.toNat := size_of_holds h rfl
      rw [t.toNat_count] at hsize
      exact ⟨h.switchWord rfl, hsize, pairs_of_holds h, fun i hi => pairAt_of_holds h (List.getElem?_eq_getElem hi)⟩
  · intro default n c d hneg hd hc hrest mode
    have hn : n.toInt.toNat = 0 := by
      rw [Int32.lt_iff_toInt_lt, Int32.toInt_zero] at hneg
      omega
    refine ⟨decode_of_no_pairs hop hd hn, decode_of_no_pairs hop hc rfl,
      fun _ call => run_of_rest hd hc hn hrest call hop, ?_, ?_⟩
    · exact (lengths_of_no_pairs hop hd hn).1.trans (lengths_of_no_pairs hop hc rfl).1.symm
    · exact (lengths_of_no_pairs hop hd hn).2.trans (lengths_of_no_pairs hop hc rfl).2.symm

/-- A default of twelve, and two pairs of which the first has the lowest key that there is. -/
def samplePairs : Table := ⟨12, [⟨Int32.minValue, 5⟩, ⟨3, -7⟩], by decide⟩

/-- A fast form at position two, and other code around it. -/
def sampleSearch (words : List Int32) : Code :=
  .ofList ([0x03, 0x3c] ++ switchBytes .fastBinaryswitch [0xff] words ++ [0xb1])

theorem inverts_layout_sample :
    Opcode.fastBinaryswitch ∈ forms ∧
      (sampleSearch samplePairs.words).HoldsSwitch 2 .fastBinaryswitch [0xff] samplePairs.words ∧
      (∃ l, decode ((sampleSearch samplePairs.words).viewAt .checked none 2) = .ok l ∧
        l.pairs = .ok [⟨Int32.minValue, 5⟩, ⟨3, -7⟩]) ∧
      (sampleSearch [12, -1]).HoldsSwitch 2 .fastBinaryswitch [0xff] [12, -1] ∧
      ((sampleSearch [12, -1]).viewAt .unchecked none 2).length =
        ((sampleSearch [12, 0]).viewAt .unchecked none 2).length := by
  have hform : Opcode.fastBinaryswitch ∈ forms := by decide
  have hpairs : (sampleSearch samplePairs.words).HoldsSwitch 2 .fastBinaryswitch [0xff] samplePairs.words :=
    ⟨by decide, by decide, by decide +kernel⟩
  have hnegative : (sampleSearch [12, -1]).HoldsSwitch 2 .fastBinaryswitch [0xff] [12, -1] :=
    ⟨by decide, by decide, by decide +kernel⟩
  have hnone : (sampleSearch [12, 0]).HoldsSwitch 2 .fastBinaryswitch [0xff] [12, 0] :=
    ⟨by decide, by decide, by decide +kernel⟩
  have hrest : Set.EqOn (sampleSearch [12, -1]).byteAt (sampleSearch [12, 0]).byteAt (Set.Ico 8 12)ᶜ := by
    have hinside : ∀ k < 13, ¬(8 ≤ k ∧ k < 12) → (sampleSearch [12, -1]).byteAt k = (sampleSearch [12, 0]).byteAt k := by
      decide +kernel
    intro k hk
    by_cases hend : k < 13
    · exact hinside k hend hk
    · have hsize : (sampleSearch [12, -1]).size = 13 ∧ (sampleSearch [12, 0]).size = 13 := by decide +kernel
      rw [Code.byteAt_of_size_le (by omega), Code.byteAt_of_size_le (by omega)]
  obtain ⟨hread, hcount⟩ := inverts_layout hform 2 [0xff] none
  obtain ⟨haccepted, -, -, htold⟩ := hread samplePairs _ hpairs
  obtain ⟨l, hl⟩ := haccepted.mpr (show List.Pairwise _ [Int32.minValue, 3] by decide)
  obtain ⟨-, -, -, hlength, -⟩ := hcount 12 (-1) _ _ (by decide) hnegative hnone hrest .unchecked
  exact ⟨hform, hpairs, ⟨l, hl, ((htold .checked).1 l hl).2.2.1⟩, hnegative, hlength⟩

end LookupSwitch

end MethodCode
