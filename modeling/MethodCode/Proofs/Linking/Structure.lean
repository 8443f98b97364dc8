import MethodCode.Proofs.Instruction.SameStructure
import MethodCode.Proofs.Linking.Pass

/-! Rewriting keeps the structure of code. The pass changes the code that it is walking over, and still
every instruction stays where it is, keeps its length and goes where it went. `Becomes` tells the opcode
that each instruction is left with; for a load it hangs on the number of its slot (`LoadsSlot`), which is the
same however many slots are taken later. -/

namespace MethodCode

open FormatTable (standard)

namespace Rewriting

/-- The load at a position is of a constant that linking keeps in the cache, and `slot` is its cache index: the
number, among the slots taken, of the one that references to the constant share. -/
def LoadsSlot (pool : Pool) (slots : Allocator) (c : Code) (bci : Nat) (slot : UInt32) : Prop :=
  ∃ index tag i, c.encodedIndexAt bci = .ok index ∧ pool.tagAt index = .ok tag ∧
    tag.isExecutableReference = true ∧ slots.shared? index = some i ∧ slot = .ofNat i

/-- What rewriting makes of the opcode at a position of `c`, where `d` is the code in the end, `slots` are all that
have been taken and `events` are those that have been reported. -/
inductive Becomes (pool : Pool) (c d : Code) (slots : Allocator) (events : List Event) (bci : Nat) :
    Opcode → Opcode → Prop where
  | load {slot : UInt32} (hslot : LoadsSlot pool slots c bci slot) (hnarrow : slot.toNat < 256)
      (hoperand : d.byteAt (bci + 1) = .ok slot.toUInt8) : Becomes pool c d slots events bci .ldc .fastAldc
  /-- A one-byte load stays where its slot does not fit one byte. -/
  | loadLeft {slot : UInt32} (hslot : LoadsSlot pool slots c bci slot) (hwide : 256 ≤ slot.toNat)
      (hleft : .loadLeft bci slot ∈ events) (hoperand : d.byteAt (bci + 1) = c.byteAt (bci + 1)) :
      Becomes pool c d slots events bci .ldc .ldc
  | wideLoad {slot : UInt32} (hslot : LoadsSlot pool slots c bci slot) (hnarrow : slot.toNat < 65536)
      (hoperand : d.u16At .native (bci + 1) = .ok slot.toUInt16) :
      Becomes pool c d slots events bci .ldcW .fastAldcW
  | switch {pairs : Int32} (hpairs : (c.cursorAt bci).switchWord 1 = .ok pairs) :
      Becomes pool c d slots events bci .lookupswitch
        (if pairs.toInt.toNat < 5 then .fastLinearswitch else .fastBinaryswitch)
  | same {op : Opcode} (hload : op = .ldc ∨ op = .ldcW → ¬LoadsCached pool c bci)
      (hswitch : op ≠ .lookupswitch) : Becomes pool c d slots events bci op op

variable {pool : Pool} {bci n k : Nat} {op op' : Opcode} {e : FormatEntry} {c c' d d' : Code}
  {s t m m' : Rewriting} {slots later : Allocator} {slot slot' : UInt32} {events : List Event}

namespace LoadsSlot

theorem congr (h : LoadsSlot pool slots c bci slot) (hindex : d.encodedIndexAt bci = c.encodedIndexAt bci)
    (hlater : later.Extends slots) : LoadsSlot pool later d bci slot := by
  obtain ⟨index, tag, i, hencoded, htag, hcached, hi, hnumber⟩ := h
  exact ⟨index, tag, i, hindex.trans hencoded, htag, hcached, Allocator.shared?_of_extends hlater hi, hnumber⟩

theorem loadsCached (h : LoadsSlot pool slots c bci slot) : LoadsCached pool c bci := by
  obtain ⟨index, tag, -, hencoded, htag, hcached, -⟩ := h
  exact ⟨index, tag, hencoded, htag, hcached⟩

theorem unique (h : LoadsSlot pool slots c bci slot) (h' : LoadsSlot pool slots c bci slot') : slot = slot' := by
  obtain ⟨index, -, i, hencoded, -, -, hi, rfl⟩ := h
  obtain ⟨index', -, i', hencoded', -, -, hi', rfl⟩ := h'
  obtain rfl := Except.ok.inj (hencoded.symm.trans hencoded')
  obtain rfl := Option.some.inj (hi.symm.trans hi')
  rfl

/-- The number that is handed out for a load is its cache index. -/
theorem of_shared {index : UInt16} {tag : ConstantTag} (hencoded : c.encodedIndexAt bci = .ok index)
    (htag : pool.tagAt index = .ok tag) (hcached : tag.isExecutableReference = true) (a : Allocator) :
    LoadsSlot pool (a.shared index).2 c bci (a.shared index).1 := by
  obtain ⟨i, hi, hnumber⟩ := Allocator.shared?_shared a index
  exact ⟨index, tag, i, hencoded, htag, hcached, hi, hnumber⟩

end LoadsSlot

namespace Becomes

/-- What has become of an instruction stays so when only code outside of it changes, and more slots are taken and
more events reported. -/
theorem congr {reported : List Event} (h : Becomes pool c d slots events bci op op')
    (hbytes : Set.EqOn c'.byteAt c.byteAt (Set.Ici bci))
    (hindex : c'.encodedIndexAt bci = c.encodedIndexAt bci)
    (hroom : op = .ldc ∨ op = .ldcW → (if op = .ldc then 2 else 3) ≤ n)
    (hkept : Set.EqOn d'.byteAt d.byteAt (Set.Ico bci (bci + n))) (hslots : later.Extends slots)
    (hevents : events <+: reported) : Becomes pool c' d' later reported bci op op' := by
  cases h with
  | load hslot hnarrow hoperand =>
      have hn : 2 ≤ n := hroom (.inl rfl)
      refine .load (hslot.congr hindex hslots) hnarrow ?_
      rw [hkept ⟨by omega, by omega⟩, hoperand]
  | loadLeft hslot hwide hleft hoperand =>
      have hn : 2 ≤ n := hroom (.inl rfl)
      refine .loadLeft (hslot.congr hindex hslots) hwide (hevents.subset hleft) ?_
      rw [hkept ⟨by omega, by omega⟩, hoperand, hbytes (Set.mem_Ici.mpr (Nat.le_succ bci))]
  | wideLoad hslot hnarrow hoperand =>
      have hn : 3 ≤ n := hroom (.inr rfl)
      refine .wideLoad (hslot.congr hindex hslots) hnarrow ?_
      rw [← hoperand]
      exact Code.u16At_congr (hkept.mono (Set.Ico_subset_Ico (Nat.le_succ bci) (by omega)))
  | switch hpairs => exact .switch ((Code.switchWord_cursorAt hbytes 1).trans hpairs)
  | same hload hswitch =>
      exact .same (fun hop hcached => hload hop (hcached.congr hindex.symm)) hswitch

theorem reported_later {reported : List Event} (h : Becomes pool c d slots events bci op op')
    (hevents : events <+: reported) : Becomes pool c d slots reported bci op op' :=
  h.congr (n := 3) (Set.eqOn_refl _ _) rfl (fun _ => by split <;> omega) (Set.eqOn_refl _ _) (.refl _) hevents

/-- A one-byte load is left alone, and reported, if its cache index takes more than a byte. -/
theorem left_of_wide (h : Becomes pool c d slots events bci .ldc op') (hslot : LoadsSlot pool slots c bci slot)
    (hwide : 256 ≤ slot.toNat) :
    op' = .ldc ∧ d.byteAt (bci + 1) = c.byteAt (bci + 1) ∧ .loadLeft bci slot ∈ events := by
  cases h with
  | load hslot' hnarrow =>
      obtain rfl := hslot.unique hslot'
      exact absurd hnarrow (Nat.not_lt.mpr hwide)
  | loadLeft hslot' _ hleft hoperand =>
      obtain rfl := hslot.unique hslot'
      exact ⟨rfl, hoperand, hleft⟩
  | same hload => exact absurd hslot.loadsCached (hload (.inl rfl))

end Becomes

private theorem becomes_same (he : standard.entry? op = some e) (hload : e.family ≠ .loadConstant)
    (hswitch : e.family ≠ .lookupSwitch) : Becomes pool c d slots events bci op op := by
  refine .same (fun hop => absurd (family_of_ldc he hop).2 hload) ?_
  rintro rfl
  exact hswitch (FormatTable.family_of_slow he (by decide))

theorem SiteStep.becomes (h : SiteStep pool bci op e s t) (hocc : s.code.Occupies bci n op e) :
    ∃ op', t.code.opcodeAt bci = .ok op' ∧ Becomes pool s.code t.code t.allocator t.events bci op op' := by
  have he := hocc.entry
  have hwritten {c d : Code} {op' : Opcode} (hd : c.setBytes bci [op'.byte] = .ok d) :
      d.opcodeAt bci = .ok op' :=
    Code.opcodeAt_eq_ok.mpr (by simp [Code.byteAt_setBytes hd])
  cases h with
  | keep hkeep =>
      refine ⟨op, hocc.opcode, .same (fun hop => ?_) ?_⟩
      · obtain ⟨hslow, hfamily⟩ := family_of_ldc he hop
        rw [hslow, hfamily] at hkeep
        rcases hop with rfl | rfl <;> exact absurd hkeep (by decide)
      · rintro rfl
        rw [FormatTable.family_of_slow he (by decide)] at hkeep
        exact absurd hkeep (by decide)
  | inPool _ _ hop hindex htag hpool =>
      refine ⟨op, hocc.opcode, .same (fun _ hcached => ?_) ?_⟩
      · obtain ⟨index', tag', hindex', htag', hcached⟩ := hcached
        obtain rfl := Except.ok.inj (hindex.symm.trans hindex')
        obtain rfl := Except.ok.inj (htag.symm.trans htag')
        rw [hpool] at hcached
        cases hcached
      · rcases hop with rfl | rfl <;> decide
  | member _ hfamily _ _ _ _ hwrite =>
      have hop := (Code.opcodeAt_congr (Code.eqOn_setBytes hwrite (by simp))).trans hocc.opcode
      exact ⟨op, hop, becomes_same he (by rcases hfamily with hf | hf <;> rw [hf] <;> decide)
        (by rcases hfamily with hf | hf <;> rw [hf] <;> decide)⟩
  | callSite _ hfamily _ _ hwrite =>
      have hop := (Code.opcodeAt_congr (Code.eqOn_setBytes hwrite (by simp))).trans hocc.opcode
      exact ⟨op, hop, becomes_same he (by rw [hfamily]; decide) (by rw [hfamily]; decide)⟩
  | load hop _ hindex htag hcached hnarrow hwrite hfast =>
      subst hop
      refine ⟨_, hwritten hfast, .load (.of_shared hindex htag hcached _) hnarrow ?_⟩
      rw [Code.eqOn_setBytes hfast (by simp), Code.byteAt_setBytes hwrite]
      simp
  | loadLeft hop _ hindex htag hcached hwide =>
      subst hop
      exact ⟨_, hocc.opcode, .loadLeft (.of_shared hindex htag hcached _) (Nat.not_lt.mp hwide) (by simp) rfl⟩
  | wideLoad hop _ hindex htag hcached hnarrow hwrite hfast =>
      subst hop
      refine ⟨_, hwritten hfast, .wideLoad (.of_shared hindex htag hcached _) hnarrow ?_⟩
      rw [← Code.u16At_setBytes hwrite]
      refine Code.u16At_congr fun k hk => Code.eqOn_setBytes hfast ?_
      simp only [List.length_singleton, Set.mem_compl_iff, Set.mem_Ico] at hk ⊢
      omega
  | switch hslow hfamily hpairs hform hwrite =>
      obtain rfl := lookupswitch_of_family he hslow hfamily
      exact ⟨_, hwritten hwrite, hform ▸ .switch hpairs⟩

theorem Touches.family_of (h : Touches pool c bci op e.family k) (he : standard.entry? op = some e)
    (hjump : e.family ∈ jumpFamilies) : op = .lookupswitch ∧ k = bci := by
  have hfamily {family : Family} (hf : e.family = family) : family ∈ jumpFamilies := hf ▸ hjump
  cases h with
  | member _ hmember => rcases hmember with hf | hf <;> exact absurd (hfamily hf) (by decide)
  | callSite hop =>
      subst hop
      exact absurd (hfamily (FormatTable.family_of_slow he (by decide))) (by decide)
  | load hop => exact absurd (hfamily (family_of_ldc he (.inl hop)).2) (by decide)
  | wideLoad hop => exact absurd (hfamily (family_of_ldc he (.inr hop)).2) (by decide)
  | switch hop => exact ⟨hop, rfl⟩

namespace Visit

variable (h : Visit pool bci n op e s t m m')

include h

theorem becomes :
    ∃ op', t.code.opcodeAt bci = .ok op' ∧ Becomes pool s.code t.code t.allocator t.events bci op op' := by
  obtain ⟨op', hop, hbecomes⟩ := h.site.becomes h.occupies
  refine ⟨op', h.opcodeAt_left.trans hop,
    hbecomes.congr (n := n) (fun k hk => (h.found hk).symm) h.encodedIndexAt_found.symm (fun hload => ?_)
      (h.left.mono fun k hk => Set.mem_Iio.mpr hk.2) h.extends_left h.events_left⟩
  obtain ⟨hslow, hfamily⟩ := family_of_ldc h.occupies.entry hload
  have hroom := h.occupies.room_of_load hfamily
  rw [(FormatTable.regular_standard h.occupies.entry).2.2.2 hslow] at hroom
  exact Nat.le_of_eq hroom.symm

theorem sameStructure (mode : Mode) (method : Option Method) :
    (t.code.viewAt mode method bci).SameStructure (s.code.viewAt mode method bci) := by
  obtain ⟨op', e', hafter, hcanonical⟩ := h.occupies_after
  have hentry := h.occupies.entry
  have hpos := h.occupies.pos
  refine sameStructure_of_occupies h.occupies_before hafter hcanonical ?_ ?_
  · intro hbranch
    have hkept : t.code.byteAt bci = s.code.byteAt bci := by
      refine h.byteAt_eq ⟨Nat.le_refl _, by omega⟩ fun htouch => ?_
      obtain ⟨rfl, -⟩ := htouch.family_of hentry (by rw [hbranch]; decide)
      rw [FormatTable.family_of_slow hentry (by decide)] at hbranch
      exact absurd hbranch (by decide)
    rw [← Except.ok.injEq, ← hafter.opcode, Code.opcodeAt_congr hkept, h.occupies_before.opcode]
  · intro hjump k hk
    refine h.byteAt_eq ⟨by have := hk.1; omega, hk.2⟩ fun htouch => ?_
    have hle := hk.1
    rw [(htouch.family_of hentry hjump).2] at hle
    omega

end Visit

namespace Pass

variable {limit : Nat} (h : Pass pool limit 0 s t) (hlimit : s.code.size ≤ limit)

include h hlimit

/-- A walk over the code finds the same lengths after the pass as before. -/
theorem lengthAt_eq {b : Nat} (hb : s.code.IsStart b) : t.code.lengthAt b = s.code.lengthAt b := by
  by_cases hlt : b < s.code.size
  · obtain ⟨n, op, e, m, m', hvisit⟩ := h.visits hb (Nat.lt_of_lt_of_le hlt hlimit)
    obtain ⟨op', e', hafter, -⟩ := hvisit.occupies_after
    rw [hafter.lengthAt, hvisit.occupies_before.lengthAt]
  · have hnone {c : Code} (hsize : c.size ≤ b) : c.lengthAt b = .ok none := if_pos hsize
    have hle := Nat.not_lt.mp hlt
    rw [hnone hle, hnone (h.size_eq ▸ hle)]

theorem isStart_iff (b : Nat) : t.code.IsStart b ↔ s.code.IsStart b :=
  Code.isStart_congr (fun _ hb => h.lengthAt_eq hlimit hb) b

theorem becomes (hstart : s.code.IsStart bci) (hop : s.code.opcodeAt bci = .ok op) :
    ∃ op', t.code.opcodeAt bci = .ok op' ∧ Becomes pool s.code t.code t.allocator t.events bci op op' := by
  obtain ⟨n, e, m, m', hvisit⟩ := h.visits_opcode hlimit hstart hop
  exact hvisit.becomes

/-- A byte that the pass has changed is one that it may touch in the instruction around it. -/
theorem touches_of_ne (hk : t.code.byteAt k ≠ s.code.byteAt k) :
    ∃ bci op family, s.code.IsStart bci ∧ s.code.opcodeAt bci = .ok op ∧ standard.family op = .ok family ∧
      Touches pool s.code bci op family k := by
  have hlt : k < s.code.size := by
    by_contra hle
    rw [Nat.not_lt] at hle
    exact hk (by rw [Code.byteAt_of_size_le hle, Code.byteAt_of_size_le (h.size_eq ▸ hle)])
  obtain ⟨x, hx, hreaches⟩ := h.exists_reaches
  have hin : k < limit := Nat.lt_of_lt_of_le hlt hlimit
  obtain ⟨b, l, hb, hl, hmem⟩ := hreaches.exists_instruction ⟨Nat.zero_le k, Nat.lt_of_lt_of_le hin hx⟩
  obtain ⟨n, op, e, m, m', hvisit⟩ := h.visits hb (Nat.lt_of_le_of_lt hmem.1 hin)
  have hbefore := hvisit.occupies_before
  obtain rfl : n = l := Option.some.inj (Except.ok.inj (hbefore.lengthAt.symm.trans hl))
  refine ⟨b, op, e.family, hb, hbefore.opcode, FormatTable.family_of_entry hbefore.entry, ?_⟩
  by_contra hout
  exact hk (hvisit.byteAt_eq hmem hout)

end Pass

end Rewriting

open Rewriting (Becomes LoadsCached LoadsSlot Touches)

/-- Rewriting keeps the structure of code: its length, the instructions in it, what they stand for and where
they go. It writes operands of references and makes fast forms, and nothing else. A one-byte load whose cache index
takes more than a byte is left alone and reported. -/
theorem rewrite_keeps_structure {code : Code} {pool : Pool} {a : Allocator} {summary : RewriteSummary}
    (h : (rewrite code pool a).outcome = .ok summary) :
    (rewrite code pool a).code.size = code.size ∧
      (∀ bci, (rewrite code pool a).code.IsStart bci ↔ code.IsStart bci) ∧
      (∀ bci, code.IsStart bci → (rewrite code pool a).code.lengthAt bci = code.lengthAt bci) ∧
      (∀ bci, code.IsStart bci → bci < code.size → ∀ mode method,
        ((rewrite code pool a).code.viewAt mode method bci).SameStructure (code.viewAt mode method bci)) ∧
      (∀ k, (rewrite code pool a).code.byteAt k ≠ code.byteAt k → ∃ bci op family, code.IsStart bci ∧
        code.opcodeAt bci = .ok op ∧ standard.family op = .ok family ∧ Touches pool code bci op family k) ∧
      (∀ bci op, code.IsStart bci → code.opcodeAt bci = .ok op →
        ∃ op', (rewrite code pool a).code.opcodeAt bci = .ok op' ∧
          Becomes pool code (rewrite code pool a).code (rewrite code pool a).allocator (rewrite code pool a).events
            bci op op') ∧
      (∀ bci slot, code.IsStart bci → code.opcodeAt bci = .ok .ldc →
        LoadsSlot pool (rewrite code pool a).allocator code bci slot → 256 ≤ slot.toNat →
        (rewrite code pool a).code.opcodeAt bci = .ok .ldc ∧
          (rewrite code pool a).code.byteAt (bci + 1) = code.byteAt (bci + 1) ∧
          .loadLeft bci slot ∈ (rewrite code pool a).events) := by
  obtain ⟨t, hpass, hcode, hallocator, hevents⟩ := pass_of_rewrite h
  rw [hcode, hallocator]
  have hall : code.size ≤ code.size := Nat.le_refl _
  have hbecomes (bci : Nat) (op : Opcode) (hstart : code.IsStart bci) (hop : code.opcodeAt bci = .ok op) :
      ∃ op', t.code.opcodeAt bci = .ok op' ∧
        Becomes pool code t.code t.allocator (rewrite code pool a).events bci op op' := by
    obtain ⟨op', hop', hbecomes⟩ := hpass.becomes hall hstart hop
    exact ⟨op', hop', hbecomes.reported_later hevents⟩
  refine ⟨hpass.size_eq, hpass.isStart_iff hall, fun bci => hpass.lengthAt_eq hall, ?_,
    fun k => hpass.touches_of_ne hall, hbecomes, ?_⟩
  · intro bci hstart hlt mode method
    obtain ⟨n, op, e, m, m', hvisit⟩ := hpass.visits hstart hlt
    exact hvisit.sameStructure mode method
  · intro bci slot hstart hop hslot hwide
    obtain ⟨op', hop', hbecomes⟩ := hbecomes bci .ldc hstart hop
    obtain ⟨rfl, hoperand, hleft⟩ := hbecomes.left_of_wide hslot hwide
    exact ⟨hop', hoperand, hleft⟩

/-- A load of a method type. -/
def sampleLoad : Code := ⟨#[0x12, 0x02, 0xb1]⟩

/-- The pool of the load. -/
def sampleLoadPool : Pool := ⟨#[.invalid, .utf8 (.ofString "()V"), .methodType 1]⟩

/-- As many slots as one byte has numbers for. -/
def fullAllocator : Allocator := ⟨Array.replicate 256 ⟨2, false⟩⟩

/-- Where 256 slots have been taken, the load takes the next one, which it cannot name, and stays. -/
theorem sampleLoad_rewritten :
    (rewrite sampleLoad sampleLoadPool fullAllocator).outcome = .ok ⟨0, 0, 0, 0⟩ ∧
      (rewrite sampleLoad sampleLoadPool fullAllocator).code = sampleLoad ∧
      (rewrite sampleLoad sampleLoadPool fullAllocator).allocator.size = 257 ∧
      (rewrite sampleLoad sampleLoadPool fullAllocator).allocator.shared? 2 = some 256 ∧
      (rewrite sampleLoad sampleLoadPool fullAllocator).events = [.loadLeft 0 256, .rewrote ⟨0, 0, 0, 0⟩ 257] := by
  decide +kernel

/-- The load of the sample becomes a fast form, and the load with 256 slots in front of it is left. -/
theorem rewrite_keeps_structure_sample :
    (rewrite sampleCode samplePool .empty).code.size = 7 ∧
      (∃ op', (rewrite sampleCode samplePool .empty).code.opcodeAt 4 = .ok op' ∧
        Becomes samplePool sampleCode (rewrite sampleCode samplePool .empty).code
          (rewrite sampleCode samplePool .empty).allocator (rewrite sampleCode samplePool .empty).events 4 .ldc op') ∧
      (rewrite sampleLoad sampleLoadPool fullAllocator).code.opcodeAt 0 = .ok .ldc ∧
      (rewrite sampleLoad sampleLoadPool fullAllocator).code.byteAt 1 = .ok 2 ∧
      .loadLeft 0 256 ∈ (rewrite sampleLoad sampleLoadPool fullAllocator).events := by
  obtain ⟨hok, hlength, hlength'⟩ : (rewrite sampleCode samplePool .empty).outcome = .ok ⟨1, 0, 1, 0⟩ ∧
      sampleCode.lengthAt 0 = .ok (some 1) ∧ sampleCode.lengthAt 1 = .ok (some 3) := by
    decide +kernel
  have hstart : sampleCode.IsStart 4 := .step hlength (.step hlength' (.refl 4))
  obtain ⟨hsize, -, -, -, -, hbecomes, -⟩ := rewrite_keeps_structure hok
  obtain ⟨hfull, -, -, hshared, -⟩ := sampleLoad_rewritten
  have hslot : LoadsSlot sampleLoadPool (rewrite sampleLoad sampleLoadPool fullAllocator).allocator sampleLoad 0 256 :=
    ⟨2, .methodType, 256, by decide, by decide, by decide, hshared, rfl⟩
  obtain ⟨-, -, -, -, -, -, hleft⟩ := rewrite_keeps_structure hfull
  exact ⟨hsize, hbecomes 4 .ldc hstart (by decide), hleft 0 256 (.refl 0) (by decide) hslot (by decide)⟩

/-- A one-byte load does not become a fast form where 256 slots have been taken. -/
theorem not_every_load_becomes_fast :
    ¬∀ (code : Code) (pool : Pool) (a : Allocator) (summary : RewriteSummary) (bci : Nat),
      (rewrite code pool a).outcome = .ok summary → code.IsStart bci → code.opcodeAt bci = .ok .ldc →
      LoadsCached pool code bci → (rewrite code pool a).code.opcodeAt bci = .ok .fastAldc := by
  intro h
  obtain ⟨hok, hkept, -⟩ := sampleLoad_rewritten
  have hcached : LoadsCached sampleLoadPool sampleLoad 0 :=
    ⟨2, .methodType, by decide, by decide, by decide⟩
  have hfast := h sampleLoad sampleLoadPool fullAllocator _ 0 hok (.refl 0) (by decide) hcached
  rw [hkept] at hfast
  exact absurd hfast (by decide)

end MethodCode
