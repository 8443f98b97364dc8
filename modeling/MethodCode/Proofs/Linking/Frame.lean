import MethodCode.Proofs.Linking.Site

/-! What rewriting a site leaves alone. Every write stays among the positions that `Touches` lists, and
these lie inside the instruction, so a pass may change the code that it is walking over. Main statements:
the other bytes keep their values, the instruction keeps its room and the code that it stands for, and
no slot is taken away. -/

namespace MethodCode.Rewriting

open FormatTable (standard)

/-- The load at a position is of a constant that linking keeps in the cache. -/
def LoadsCached (pool : Pool) (c : Code) (bci : Nat) : Prop :=
  ∃ index tag, c.encodedIndexAt bci = .ok index ∧ pool.tagAt index = .ok tag ∧
    tag.isExecutableReference = true

/-- The positions whose bytes rewriting the instruction `op` at a position may change. -/
inductive Touches (pool : Pool) (c : Code) (bci : Nat) (op : Opcode) (family : Family) : Nat → Prop where
  | member {k : Nat} (hslow : op.isFast = false) (hfamily : family = .fieldAccess ∨ family = .invoke)
      (hk : bci + 1 ≤ k ∧ k < bci + 3) : Touches pool c bci op family k
  | callSite {k : Nat} (hop : op = .invokedynamic) (hk : bci + 1 ≤ k ∧ k < bci + 5) :
      Touches pool c bci op family k
  | load {k : Nat} (hop : op = .ldc) (hcached : LoadsCached pool c bci) (hk : bci ≤ k ∧ k < bci + 2) :
      Touches pool c bci op family k
  | wideLoad {k : Nat} (hop : op = .ldcW) (hcached : LoadsCached pool c bci)
      (hk : bci ≤ k ∧ k < bci + 3) : Touches pool c bci op family k
  | switch (hop : op = .lookupswitch) : Touches pool c bci op family bci

variable {pool : Pool} {bci n k : Nat} {op : Opcode} {e : FormatEntry} {c d : Code} {s t : Rewriting}

theorem LoadsCached.congr (h : LoadsCached pool c bci)
    (hindex : d.encodedIndexAt bci = c.encodedIndexAt bci) : LoadsCached pool d bci := by
  rw [LoadsCached, hindex]
  exact h

theorem Touches.congr {family : Family} (h : Touches pool c bci op family k)
    (hindex : d.encodedIndexAt bci = c.encodedIndexAt bci) : Touches pool d bci op family k := by
  cases h with
  | member hslow hfamily hk => exact .member hslow hfamily hk
  | callSite hop hk => exact .callSite hop hk
  | load hop hcached hk => exact .load hop (hcached.congr hindex) hk
  | wideLoad hop hcached hk => exact .wideLoad hop (hcached.congr hindex) hk
  | switch hop => exact .switch hop

/-- Rewriting writes inside its instruction, and of an instruction of stated length only the opcode. -/
theorem Touches.inside (h : Touches pool c bci op e.family k) (hocc : c.Occupies bci n op e) :
    (bci ≤ k ∧ k < bci + n) ∧ (e.length = none → k = bci) := by
  have hlaid := FormatTable.laidOut_standard hocc.entry
  have hroom {m : Nat} (hm : e.length = some m) (hk : bci ≤ k ∧ k < bci + m) :
      (bci ≤ k ∧ k < bci + n) ∧ (e.length = none → k = bci) := by
    rw [hocc.eq_of_length hm, hm]
    exact ⟨hk, fun hnone => by cases hnone⟩
  cases h with
  | member hslow hfamily hk =>
      rcases hfamily with hf | hf
      · rw [hf] at hlaid
        exact hroom hlaid.1 ⟨by omega, hk.2⟩
      · rw [hf] at hlaid
        rcases hlaid.1 with hlength | hlength
        · exact hroom hlength ⟨by omega, hk.2⟩
        · exact hroom hlength ⟨by omega, by omega⟩
  | callSite hop hk =>
      have hf : e.family = .dynamicInvoke := by
        rw [FormatTable.family_of_slow hocc.entry (by rw [hop]; decide), hop]
        decide
      rw [hf] at hlaid
      exact hroom hlaid.2.1 ⟨by omega, hk.2⟩
  | load hop _ hk =>
      obtain ⟨hslow, hf⟩ := family_of_ldc hocc.entry (.inl hop)
      have hcanonical := (FormatTable.regular_standard hocc.entry).2.2.2 hslow
      rw [hf, FormatEntry.LaidOut, if_pos (hcanonical.trans hop)] at hlaid
      exact hroom hlaid.1 hk
  | wideLoad hop _ hk =>
      obtain ⟨hslow, hf⟩ := family_of_ldc hocc.entry (.inr hop)
      have hcanonical := (FormatTable.regular_standard hocc.entry).2.2.2 hslow
      rw [hf, FormatEntry.LaidOut, if_neg (by rw [hcanonical, hop]; decide)] at hlaid
      exact hroom hlaid.1 hk
  | switch =>
      have hpos := hocc.pos
      exact ⟨⟨Nat.le_refl _, by omega⟩, fun _ => rfl⟩

/-- Of a family whose codes have no fast forms but these, a code that is not fast is the code itself. -/
theorem lookupswitch_of_family (he : standard.entry? op = some e) (hslow : op.isFast = false)
    (hfamily : e.family = .lookupSwitch) : op = .lookupswitch := by
  have hlaid := FormatTable.laidOut_standard he
  rw [hfamily] at hlaid
  rw [← hlaid.2, (FormatTable.regular_standard he).2.2.2 hslow]

private theorem eqOn_relinked {c' d : Code} {operands : List UInt8} {b : UInt8}
    (hoperands : c.setBytes (bci + 1) operands = .ok c') (hopcode : c'.setBytes bci [b] = .ok d) :
    Set.EqOn d.byteAt c.byteAt (Set.Ico bci (bci + 1 + operands.length))ᶜ := by
  intro k hk
  rw [Code.eqOn_setBytes hopcode fun hmem => hk ?_, Code.eqOn_setBytes hoperands fun hmem => hk ?_]
  · exact ⟨by have := hmem.1; omega, hmem.2⟩
  · simp only [List.length_singleton, Set.mem_Ico] at hmem ⊢
    omega

namespace SiteStep

theorem byteAt_eq (h : SiteStep pool bci op e s t) (he : standard.entry? op = some e)
    (hk : ¬Touches pool s.code bci op e.family k) : t.code.byteAt k = s.code.byteAt k := by
  cases h with
  | keep | inPool | loadLeft => rfl
  | member hslow hfamily _ _ _ _ hwrite =>
      refine Code.eqOn_setBytes hwrite fun hmem => hk (.member hslow hfamily ?_)
      rwa [ByteOrder.length_split16] at hmem
  | callSite _ hfamily _ _ hwrite =>
      have hlaid := FormatTable.laidOut_standard he
      rw [hfamily] at hlaid
      refine Code.eqOn_setBytes hwrite fun hmem => hk (.callSite hlaid.1 ?_)
      rwa [ByteOrder.length_split32] at hmem
  | load hop _ hindex htag hcached _ hwrite hfast =>
      exact eqOn_relinked hwrite hfast fun hmem => hk (.load hop ⟨_, _, hindex, htag, hcached⟩ hmem)
  | wideLoad hop _ hindex htag hcached _ hwrite hfast =>
      refine eqOn_relinked hwrite hfast fun hmem =>
        hk (.wideLoad hop ⟨_, _, hindex, htag, hcached⟩ ?_)
      rwa [ByteOrder.length_split16] at hmem
  | switch hslow hfamily _ _ hwrite =>
      refine Code.eqOn_setBytes hwrite fun hmem => hk ?_
      obtain rfl : k = bci := by
        simp only [List.length_singleton, Set.mem_Ico] at hmem
        omega
      exact .switch (lookupswitch_of_family he hslow hfamily)

theorem size_eq (h : SiteStep pool bci op e s t) : t.code.size = s.code.size := by
  cases h with
  | keep | inPool | loadLeft => rfl
  | member _ _ _ _ _ _ hwrite => exact Code.size_setBytes hwrite
  | callSite _ _ _ _ hwrite => exact Code.size_setBytes hwrite
  | load _ _ _ _ _ _ hwrite hfast => exact (Code.size_setBytes hfast).trans (Code.size_setBytes hwrite)
  | wideLoad _ _ _ _ _ _ hwrite hfast => exact (Code.size_setBytes hfast).trans (Code.size_setBytes hwrite)
  | switch _ _ _ _ hwrite => exact Code.size_setBytes hwrite

theorem eqOn_outside (h : SiteStep pool bci op e s t) (hocc : s.code.Occupies bci n op e) :
    Set.EqOn t.code.byteAt s.code.byteAt (Set.Ico bci (bci + n))ᶜ :=
  fun _ hout => h.byteAt_eq hocc.entry fun hk => hout (hk.inside hocc).1

/-- The opcode of a site stays or gives way to a fast form of its own. -/
theorem opcode_eq_or_fastForm (h : SiteStep pool bci op e s t) (hocc : s.code.Occupies bci n op e) :
    ∃ op', t.code.opcodeAt bci = .ok op' ∧ (op' = op ∨ (op, op') ∈ FormatTable.fastForms) := by
  have hwritten {d d' : Code} {op' : Opcode} (hd : d.setBytes bci [op'.byte] = .ok d') :
      d'.opcodeAt bci = .ok op' :=
    Code.opcodeAt_eq_ok.mpr (by simp [Code.byteAt_setBytes hd])
  have hkept (hbyte : t.code.byteAt bci = s.code.byteAt bci) :
      ∃ op', t.code.opcodeAt bci = .ok op' ∧ (op' = op ∨ (op, op') ∈ FormatTable.fastForms) :=
    ⟨op, (Code.opcodeAt_congr hbyte).trans hocc.opcode, .inl rfl⟩
  cases h with
  | keep | inPool | loadLeft => exact hkept rfl
  | member _ _ _ _ _ _ hwrite => exact hkept (Code.eqOn_setBytes hwrite (by simp))
  | callSite _ _ _ _ hwrite => exact hkept (Code.eqOn_setBytes hwrite (by simp))
  | load hop _ _ _ _ _ _ hfast =>
      subst hop
      exact ⟨_, hwritten hfast, .inr (by decide)⟩
  | wideLoad hop _ _ _ _ _ _ hfast =>
      subst hop
      exact ⟨_, hwritten hfast, .inr (by decide)⟩
  | switch hslow hfamily _ hform hwrite =>
      obtain rfl := lookupswitch_of_family hocc.entry hslow hfamily
      refine ⟨_, hwritten hwrite, .inr ?_⟩
      rw [hform]
      split <;> decide

/-- The instruction of a site keeps its room and the code that it stands for. -/
theorem occupies (h : SiteStep pool bci op e s t) (hocc : s.code.Occupies bci n op e) :
    ∃ op' e', t.code.Occupies bci n op' e' ∧ e'.canonical = e.canonical := by
  have hoperands (hnone : e.length = none) :
      Set.EqOn t.code.byteAt s.code.byteAt (Set.Ico (bci + 1) (bci + n)) := by
    intro k hk
    refine h.byteAt_eq hocc.entry fun htouch => ?_
    have hk := hk.1
    rw [(htouch.inside hocc).2 hnone] at hk
    omega
  have hsize : bci + n ≤ t.code.size := h.size_eq ▸ hocc.ends
  obtain ⟨op', hop, rfl | hform⟩ := h.opcode_eq_or_fastForm hocc
  · exact ⟨op', e, hocc.congr hop hocc.entry rfl rfl hoperands hsize, rfl⟩
  · obtain ⟨e', he', hlength, hcanonical⟩ := FormatTable.entry_of_fastForm hocc.entry hform
    exact ⟨op', e', hocc.congr hop he' hlength hcanonical hoperands hsize, hcanonical⟩

theorem extends_allocator (h : SiteStep pool bci op e s t) : t.allocator.Extends s.allocator := by
  cases h with
  | keep | inPool | switch => exact .refl _
  | member | load | loadLeft | wideLoad => exact Allocator.extends_shared _ _
  | callSite => exact Allocator.extends_callSite _ _

/-- What has been reported stays reported. -/
theorem events_prefix (h : SiteStep pool bci op e s t) : s.events <+: t.events := by
  cases h with
  | loadLeft => exact List.prefix_append _ _
  | _ => exact List.prefix_refl _

end SiteStep

end MethodCode.Rewriting
