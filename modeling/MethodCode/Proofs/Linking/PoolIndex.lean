import MethodCode.Proofs.Instruction.Reference
import MethodCode.Proofs.Linking.Pass

/-! Rewriting keeps what every instruction refers to. A reference that has been given a cache slot tells,
through the cache made from the slots, the pool index that it was encoded with, and so does one that was
left alone. Main statement: this holds for all codes that are rewritten with one pool and one allocator,
once all of them are. -/

namespace MethodCode

open FormatTable (standard)
open Rewriting (SiteStep Visit)

/-- The body of a method once its class is linked. -/
def linkedBody (method : Method) (code : Code) (pool : Pool) (cache : Cache) : MethodBody :=
  ⟨method, code, ⟨pool, some cache⟩⟩

theorem toUInt32_toUInt16 {n : UInt32} (h : n.toNat < 65536) : n.toUInt16.toUInt32 = n := by
  apply UInt32.toNat_inj.mp
  rw [UInt16.toNat_toUInt32, UInt32.toNat_toUInt16, Nat.mod_eq_of_lt h]

theorem toUInt32_toUInt8 {n : UInt32} (h : n.toNat < 256) : n.toUInt8.toUInt16.toUInt32 = n := by
  apply UInt32.toNat_inj.mp
  rw [UInt16.toNat_toUInt32, UInt8.toNat_toUInt16, UInt32.toNat_toUInt8, Nat.mod_eq_of_lt h]

namespace Rewriting

variable {pool : Pool} {bci n : Nat} {op : Opcode} {e : FormatEntry} {s t m m' : Rewriting}

/-! ### What a site holds after rewriting -/

namespace SiteStep

variable (h : SiteStep pool bci op e s t)

include h

theorem member_left (hslow : op.isFast = false) (hfamily : e.family = .fieldAccess ∨ e.family = .invoke) :
    ∃ p, s.code.encodedIndexAt bci = .ok p ∧ (s.allocator.shared p).1.toNat < 65536 ∧
      t.code.opcodeAt bci = s.code.opcodeAt bci ∧
      t.code.u16At .native (bci + 1) = .ok (s.allocator.shared p).1.toUInt16 := by
  have hlinked : e.family ∈ linkedFamilies := by rcases hfamily with hf | hf <;> rw [hf] <;> decide
  have hother {family : Family} (hf : e.family = family) : family = .fieldAccess ∨ family = .invoke :=
    hf ▸ hfamily
  cases h with
  | keep hkeep =>
      rcases hkeep with hfast | hkept | ⟨hload, -⟩
      · rw [hslow] at hfast
        cases hfast
      · exact absurd hlinked hkept
      · exact absurd (hother hload) (by decide)
  | member _ _ hindex _ _ hnarrow hwrite =>
      exact ⟨_, hindex, hnarrow, Code.opcodeAt_congr (Code.eqOn_setBytes hwrite (by simp)),
        Code.u16At_setBytes hwrite⟩
  | callSite _ hf => exact absurd (hother hf) (by decide)
  | inPool _ hf => exact absurd (hother hf) (by decide)
  | load _ hf => exact absurd (hother hf) (by decide)
  | loadLeft _ hf => exact absurd (hother hf) (by decide)
  | wideLoad _ hf => exact absurd (hother hf) (by decide)
  | switch _ hf => exact absurd (hother hf) (by decide)

theorem callSite_left (hslow : op.isFast = false) (hfamily : e.family = .dynamicInvoke) :
    ∃ p, s.code.encodedIndexAt bci = .ok p ∧ t.code.opcodeAt bci = s.code.opcodeAt bci ∧
      t.code.u32At .native (bci + 1) = .ok (s.allocator.callSite p).1 := by
  cases h with
  | keep hkeep =>
      rw [hfamily, hslow] at hkeep
      exact absurd hkeep (by simp [linkedFamilies])
  | callSite _ _ hindex _ hwrite =>
      exact ⟨_, hindex, Code.opcodeAt_congr (Code.eqOn_setBytes hwrite (by simp)),
        Code.u32At_setBytes hwrite⟩
  | member _ hf => exact absurd (hfamily ▸ hf) (by decide)
  | inPool _ hf => exact absurd (hfamily ▸ hf) (by decide)
  | load _ hf => exact absurd (hfamily ▸ hf) (by decide)
  | loadLeft _ hf => exact absurd (hfamily ▸ hf) (by decide)
  | wideLoad _ hf => exact absurd (hfamily ▸ hf) (by decide)
  | switch _ hf => exact absurd (hfamily ▸ hf) (by decide)

/-- A load stays, or it has become a fast form that holds the number of its slot. -/
theorem load_left (hop : s.code.opcodeAt bci = .ok op) (hfamily : e.family = .loadConstant) :
    t.code = s.code ∨ ∃ p fast index, s.code.slotAt? pool bci = some ⟨p, true⟩ ∧
      index.toUInt32 = (s.allocator.shared p).1 ∧
      (op, fast) ∈ FormatTable.fastForms ∧ fast.isFast = true ∧ t.code.opcodeAt bci = .ok fast ∧
      (if op = .ldc then (do return (← t.code.byteAt (bci + 1)).toUInt16)
        else t.code.u16At .native (bci + 1)) = .ok index := by
  have hopcode {c d : Code} {fast : Opcode} (hwrite : c.setBytes bci [fast.byte] = .ok d) :
      d.opcodeAt bci = .ok fast :=
    Code.opcodeAt_eq_ok.mpr (by simp [Code.byteAt_setBytes hwrite])
  cases h with
  | keep | inPool | loadLeft => exact .inl rfl
  | member _ hf => exact absurd (hfamily ▸ hf) (by decide)
  | callSite _ hf => exact absurd (hfamily ▸ hf) (by decide)
  | switch _ hf => exact absurd (hfamily ▸ hf) (by decide)
  | load hldc _ hindex htag hcached hnarrow hwrite hfast =>
      subst hldc
      have hslot := (Code.slotAt?_of_load hop (.inl rfl) hindex htag).trans (if_pos hcached)
      refine .inr ⟨_, .fastAldc, _, hslot, toUInt32_toUInt8 hnarrow, by decide, by decide, hopcode hfast, ?_⟩
      rw [if_pos rfl, Code.eqOn_setBytes hfast (by simp), Code.byteAt_setBytes hwrite]
      simp [pure, Except.pure]
  | wideLoad hldcW _ hindex htag hcached hnarrow hwrite hfast =>
      subst hldcW
      have hslot := (Code.slotAt?_of_load hop (.inr rfl) hindex htag).trans (if_pos hcached)
      refine .inr ⟨_, .fastAldcW, _, hslot, toUInt32_toUInt16 hnarrow, by decide, by decide, hopcode hfast, ?_⟩
      rw [if_neg (by decide), ← Code.u16At_setBytes hwrite]
      refine Code.u16At_congr fun k hk => Code.eqOn_setBytes hfast ?_
      simp only [List.length_singleton, Set.mem_compl_iff, Set.mem_Ico] at hk ⊢
      omega

end SiteStep

/-! ### What an instruction tells after the pass -/

namespace Visit

section Operand

variable (mode : Mode) (body : MethodBody) (h : Visit pool bci n op e s t m m') (hbody : body.code = t.code)
  (hslow : op.isFast = false)

include h hbody hslow

/-- A member reference tells the number of the slot that it has taken. -/
theorem memberRef_cacheIndex (hfamily : e.family ∈ MemberRef.families) :
    t.code.opcodeAt bci = .ok op ∧ ∃ slot, s.code.slotAt? pool bci = some slot ∧
      (body.memberRefAt mode bci).cacheIndex = .ok (m.allocator.take slot).1 := by
  have hentry := h.occupies.entry
  have hslot {p : UInt16} (hindex : m.code.encodedIndexAt bci = .ok p) :
      s.code.slotAt? pool bci = op.slotFor? pool p :=
    h.slotAt?_found.symm.trans (Code.slotAt?_eq pool h.occupies.opcode hindex)
  have hcode := FormatTable.family_of_slow hentry hslow
  rcases (show (e.family = .fieldAccess ∨ e.family = .invoke) ∨ e.family = .dynamicInvoke by
    simpa [MemberRef.families, or_assoc] using hfamily) with hmember | hdynamic
  · obtain ⟨hroom, hshort⟩ := h.occupies.short_of_member hmember
    obtain ⟨p, hindex, hnarrow, hop, hread⟩ := h.site.member_left hslow hmember
    rw [← h.opcodeAt_left, h.occupies.opcode] at hop
    rw [← h.u16At_left hroom] at hread
    rw [hcode, Opcode.ofCanonical_eq_fieldAccess, Opcode.ofCanonical_eq_invoke] at hmember
    refine ⟨hop, ⟨p, true⟩, (hslot hindex).trans (Opcode.slotFor?_of_member hmember), ?_⟩
    rw [← hbody] at hop hread
    rw [MemberRef.cacheIndex_of_short hop hentry hshort, hread, Allocator.take_shared, ok_bind,
      toUInt32_toUInt16 hnarrow]
    rfl
  · obtain ⟨hroom, hword⟩ := h.occupies.word_of_callSite hdynamic
    obtain ⟨p, hindex, hop, hread⟩ := h.site.callSite_left hslow hdynamic
    rw [← h.opcodeAt_left, h.occupies.opcode] at hop
    rw [← h.u32At_left (Nat.le_of_eq hroom.symm)] at hread
    rw [hcode, Opcode.ofCanonical_eq_dynamicInvoke] at hdynamic
    subst hdynamic
    refine ⟨hop, ⟨p, false⟩, (hslot hindex).trans Opcode.slotFor?_of_dynamic, ?_⟩
    rw [← hbody] at hop hread
    exact MemberRef.cacheIndex_of_word hop hentry hword hread

/-- A load stays as it is, or it tells the number of the slot that it has taken. -/
theorem load_operand (hfamily : e.family = .loadConstant) :
    (t.code.opcodeAt bci = .ok op ∧ t.code.encodedIndexAt bci = s.code.encodedIndexAt bci) ∨
      ∃ fast e' slot index, t.code.opcodeAt bci = .ok fast ∧ fast.isFast = true ∧
        standard.entry? fast = some e' ∧ e'.family = .loadConstant ∧ s.code.slotAt? pool bci = some slot ∧
        (body.loadAt mode bci).rawIndex = .ok index ∧ index.toUInt32 = (m.allocator.take slot).1 := by
  have hentry := h.occupies.entry
  have hcanonical : e.canonical = op := (FormatTable.regular_standard hentry).2.2.2 hslow
  have hroom := h.occupies.room_of_load hfamily
  rw [hcanonical] at hroom
  rcases h.site.load_left h.occupies.opcode hfamily with
    hcode | ⟨p, fast, index, hslot, hnumber, hform, hfast, hop, hread⟩
  · have hbytes : Set.EqOn t.code.byteAt s.code.byteAt (Set.Ico bci (bci + n)) := fun k hk => by
      rw [h.left (Set.mem_Iio.mpr hk.2), hcode, h.found (Set.mem_Ici.mpr hk.1)]
    refine .inl ⟨by rw [h.opcodeAt_left, hcode, h.occupies.opcode], ?_⟩
    exact Code.encodedIndexAt_congr h.occupies_before.opcode (Nat.le_of_eq hroom.symm) hbytes
  · obtain ⟨e', hentry', -, hsame⟩ := FormatTable.entry_of_fastForm hentry hform
    have hfamily' : e'.family = .loadConstant := by
      rw [FormatEntry.family, hsame, ← hfamily]
      rfl
    rw [← h.opcodeAt_left] at hop
    refine .inr ⟨fast, e', ⟨p, true⟩, index, hop, hfast, hentry', hfamily', ?_, ?_, hnumber⟩
    · rw [← h.slotAt?_found, hslot]
    · rw [← hbody] at hop
      rw [LoadConstant.rawIndex_eq hop hentry' hfamily', hfast, hsame, hcanonical, ← hread, hbody]
      by_cases hldc : op = .ldc
      · rw [if_pos hldc] at hroom
        rw [if_pos hldc, if_pos hldc, h.left (Set.mem_Iio.mpr (by omega))]
      · rw [if_neg hldc] at hroom
        rw [if_neg hldc, if_neg hldc, if_pos rfl, h.u16At_left (Nat.le_of_eq hroom.symm)]

end Operand

/-! ### What an instruction refers to after the pass -/

variable {final : Allocator} {tag : UInt32} {mode : Mode} {method : Method}
  (h : Visit pool bci n op e s t m m') (hextends : final.Extends t.allocator)
  (hsize : final.size < UInt32.size) (hslow : op.isFast = false)

include h hextends hsize hslow

/-- A member reference that has been rewritten tells the pool index that it was encoded with. -/
theorem memberRef_poolIndex (hfamily : e.family ∈ MemberRef.families) :
    t.code.opcodeAt bci = .ok op ∧ ∃ p, s.code.encodedIndexAt bci = .ok p ∧
      ((linkedBody method t.code pool (final.cache tag)).memberRefAt mode bci).poolIndex = .ok p := by
  obtain ⟨hop, slot, hslot, hindex⟩ := memberRef_cacheIndex mode
    (linkedBody method t.code pool (final.cache tag)) h rfl hslow hfamily
  obtain ⟨_, -, hencoded, -⟩ := Code.exists_of_slotAt? hslot
  have hcached := Allocator.poolIndexAt_take (hextends.trans (h.extends_take hslot)) hsize tag
  exact ⟨hop, slot.poolIndex, hencoded, MemberRef.poolIndex_of_cacheIndex rfl hindex hcached⟩

/-- A load of a constant tells the pool index that it was encoded with, wherever it loads from. -/
theorem load_poolIndex (hfamily : e.family = .loadConstant) :
    ∃ op' e', t.code.opcodeAt bci = .ok op' ∧ standard.entry? op' = some e' ∧
      e'.family = .loadConstant ∧ ∃ p, s.code.encodedIndexAt bci = .ok p ∧
        ((linkedBody method t.code pool (final.cache tag)).loadAt mode bci).poolIndex = .ok p := by
  have hentry := h.occupies.entry
  rcases load_operand mode (linkedBody method t.code pool (final.cache tag)) h rfl hslow hfamily with
    ⟨hop, hsame⟩ | ⟨fast, e', slot, index, hop, hfast, hentry', hfamily', hslot, hindex, hnumber⟩
  · have hbefore := h.occupies_before
    have hroom := hbefore.room_of_load hfamily
    rw [(FormatTable.regular_standard hentry).2.2.2 hslow] at hroom
    obtain ⟨p, hindex⟩ := Code.exists_encodedIndexAt hbefore.opcode (Nat.le_of_eq hroom.symm) hbefore.ends
    exact ⟨op, e, hop, hentry, hfamily, p, hindex,
      LoadConstant.poolIndex_of_slow hop hentry hfamily hslow (hsame.trans hindex)⟩
  · obtain ⟨_, -, hencoded, -⟩ := Code.exists_of_slotAt? hslot
    have hcached := Allocator.poolIndexAt_take (hextends.trans (h.extends_take hslot)) hsize tag
    rw [← hnumber] at hcached
    exact ⟨fast, e', hop, hentry', hfamily', slot.poolIndex, hencoded,
      LoadConstant.poolIndex_of_fast hop hfast hindex rfl hcached⟩

end Visit

end Rewriting

/-! ### Codes rewritten in turn -/

/-- Codes before and after rewriting, one after the other with one pool, each taking slots from the
allocator that the code before it has left. -/
inductive RewrittenInTurn (pool : Pool) : Allocator → List (Code × Code) → Allocator → Prop where
  | nil (a : Allocator) : RewrittenInTurn pool a [] a
  | cons {a b : Allocator} {before : Code} {rest : List (Code × Code)} {summary : RewriteSummary}
      (hok : (rewrite before pool a).outcome = .ok summary)
      (hrest : RewrittenInTurn pool (rewrite before pool a).allocator rest b) :
      RewrittenInTurn pool a ((before, (rewrite before pool a).code) :: rest) b

namespace Opcode

def ldc2W : Opcode := ⟨0x14⟩

/-- The standard codes that refer to a member. -/
def memberReferences : List Opcode :=
  [.getstatic, .putstatic, .getfield, .putfield, .invokevirtual, .invokespecial, .invokestatic,
    .invokeinterface, .invokedynamic]

/-- The standard codes that load a constant. -/
def constantLoads : List Opcode := [.ldc, .ldcW, .ldc2W]

theorem family_of_memberReference :
    ∀ op ∈ memberReferences, op.isFast = false ∧ Family.ofCanonical op ∈ MemberRef.families := by
  decide

theorem family_of_constantLoad :
    ∀ op ∈ constantLoads, op.isFast = false ∧ Family.ofCanonical op = .loadConstant := by
  decide

end Opcode

variable {pool : Pool} {a b : Allocator} {pairs : List (Code × Code)} {before after : Code}

theorem extends_rewrite {summary : RewriteSummary} (h : (rewrite before pool a).outcome = .ok summary) :
    (rewrite before pool a).allocator.Extends a := by
  obtain ⟨t, hpass, -, hallocator, -⟩ := pass_of_rewrite h
  rw [hallocator]
  exact hpass.extends_allocator

namespace RewrittenInTurn

theorem extends_allocator (h : RewrittenInTurn pool a pairs b) : b.Extends a := by
  induction h with
  | nil => exact .refl _
  | cons hok _ ih => exact ih.trans (extends_rewrite hok)

/-- Each code has been rewritten successfully, and its slots are among those taken in the end. -/
theorem exists_rewrite (h : RewrittenInTurn pool a pairs b) (hmem : (before, after) ∈ pairs) :
    ∃ a' summary, (rewrite before pool a').outcome = .ok summary ∧
      after = (rewrite before pool a').code ∧ b.Extends (rewrite before pool a').allocator := by
  induction h with
  | nil => cases hmem
  | @cons a _ _ _ summary hok hrest ih =>
      rcases List.mem_cons.mp hmem with heq | hmem
      · obtain ⟨rfl, rfl⟩ := Prod.mk.inj heq
        exact ⟨a, summary, hok, rfl, hrest.extends_allocator⟩
      · exact ih hmem

/-- Every instruction refers to what it referred to before its code was rewritten. -/
theorem poolIndex_kept (h : RewrittenInTurn pool a pairs b) (hsize : b.size < UInt32.size)
    (hmem : (before, after) ∈ pairs) {bci : Nat} {op : Opcode} (hstart : before.IsStart bci)
    (hop : before.opcodeAt bci = .ok op) (tag : UInt32) (mode : Mode) (method : Method) :
    (op ∈ Opcode.memberReferences → ∃ p r, before.encodedIndexAt bci = .ok p ∧
        MemberRef.decode mode (linkedBody method after pool (b.cache tag)) bci = .ok r ∧
        r.poolIndex = .ok p ∧ r.name = liftM (pool.memberNameAt p) ∧
        r.signature = liftM (pool.memberSignatureAt p)) ∧
      (op ∈ Opcode.constantLoads → ∃ p l, before.encodedIndexAt bci = .ok p ∧
        LoadConstant.decode mode (linkedBody method after pool (b.cache tag)) bci = .ok l ∧
        l.poolIndex = .ok p) := by
  obtain ⟨a', summary, hok, rfl, hextends⟩ := h.exists_rewrite hmem
  obtain ⟨t, hpass, hcode, hallocator, -⟩ := pass_of_rewrite hok
  rw [hallocator] at hextends
  rw [hcode]
  obtain ⟨n, e, m, m', hvisit⟩ := hpass.visits_opcode (Nat.le_refl _) hstart hop
  have hentry := hvisit.occupies.entry
  constructor
  · intro hmember
    obtain ⟨hslow, hfamily⟩ := Opcode.family_of_memberReference _ hmember
    rw [← FormatTable.family_of_slow hentry hslow] at hfamily
    obtain ⟨hop, p, hindex, hpool⟩ := hvisit.memberRef_poolIndex hextends hsize hslow hfamily
    refine ⟨p, _, hindex, MemberRef.decode_of_family hop hentry hfamily rfl, hpool, ?_, ?_⟩
    · rw [MemberRef.name, hpool]
      rfl
    · rw [MemberRef.signature, hpool]
      rfl
  · intro hload
    obtain ⟨hslow, hfamily⟩ := Opcode.family_of_constantLoad _ hload
    rw [← FormatTable.family_of_slow hentry hslow] at hfamily
    obtain ⟨op', e', hop, hentry', hfamily', p, hindex, hpool⟩ :=
      hvisit.load_poolIndex hextends hsize hslow hfamily
    exact ⟨p, _, hindex, LoadConstant.decode_of_family hop hentry' hfamily', hpool⟩

/-- A method of the sample class. -/
def sampleMethod : Method := ⟨0, .ofString "C", .ofString "m", .ofString "()V"⟩

theorem poolIndex_kept_sample :
    ∃ r, MemberRef.decode .checked (linkedBody sampleMethod (rewrite sampleCode samplePool .empty).code
        samplePool ((rewrite sampleCode samplePool .empty).allocator.cache 7)) 1 = .ok r ∧
      r.poolIndex = .ok 4 := by
  obtain ⟨hok, hsize, hlength⟩ : (rewrite sampleCode samplePool .empty).outcome = .ok ⟨1, 0, 1, 0⟩ ∧
      (rewrite sampleCode samplePool .empty).allocator.size < UInt32.size ∧
      sampleCode.lengthAt 0 = .ok (some 1) := by
    decide +kernel
  have hstart : sampleCode.IsStart 1 := .step hlength (.refl 1)
  have hop : sampleCode.opcodeAt 1 = .ok .getfield := by decide
  have hencoded : sampleCode.encodedIndexAt 1 = .ok 4 := by decide
  obtain ⟨p, r, hindex, hdecode, hpool, -⟩ :=
    (poolIndex_kept (.cons hok (.nil _)) hsize (List.mem_singleton.mpr rfl) hstart hop 7 .checked _).1
      (by decide)
  obtain rfl : p = 4 := Except.ok.inj (hindex.symm.trans hencoded)
  exact ⟨r, hdecode, hpool⟩

end RewrittenInTurn

end MethodCode
