import MethodCode.Linking.Rewrite
import MethodCode.Proofs.Code.EncodedIndex
import MethodCode.Proofs.Code.Starts
import MethodCode.Proofs.Cursor.Index
import MethodCode.Proofs.Linking.Allocation

/-! One site of a rewriting pass. `SiteStep` lists everything that rewriting an instruction can do, with
the tests it has passed; whatever is proved of the pass is proved of these cases. Main statement: a site
that rewriting has accepted is one of the cases. -/

namespace MethodCode

open FormatTable (standard)

/-- The tags of the pool entries that a member reference of a family can name. -/
def Family.memberTags : Family → List ConstantTag
  | .fieldAccess => [.fieldRef]
  | .invoke => [.methodRef, .interfaceMethodRef]
  | .dynamicInvoke => [.invokeDynamic]
  | _ => []

namespace Rewriting

/-- The families with instructions that linking changes. -/
def linkedFamilies : List Family :=
  [.fieldAccess, .invoke, .dynamicInvoke, .loadConstant, .lookupSwitch]

/-- What rewriting does to the instruction `op` at a position, whose entry in the format table is `e`. -/
inductive SiteStep (pool : Pool) (bci : Nat) (op : Opcode) (e : FormatEntry) (s : Rewriting) :
    Rewriting → Prop where
  /-- Fast forms, instructions of other families and `ldc2_w` stay. -/
  | keep (h : op.isFast = true ∨ e.family ∉ linkedFamilies ∨
      e.family = .loadConstant ∧ op ≠ .ldc ∧ op ≠ .ldcW) : SiteStep pool bci op e s s
  /-- A load of a constant that stands in the pool stays. -/
  | inPool {index : UInt16} {tag : ConstantTag} (hslow : op.isFast = false)
      (hfamily : e.family = .loadConstant) (hop : op = .ldc ∨ op = .ldcW)
      (hindex : s.code.encodedIndexAt bci = .ok index) (htag : pool.tagAt index = .ok tag)
      (hpool : tag.isExecutableReference = false) : SiteStep pool bci op e s s
  | member {index : UInt16} {tag : ConstantTag} {code : Code} (hslow : op.isFast = false)
      (hfamily : e.family = .fieldAccess ∨ e.family = .invoke)
      (hindex : s.code.encodedIndexAt bci = .ok index) (htag : pool.tagAt index = .ok tag)
      (haccepted : tag ∈ e.family.memberTags)
      (hnarrow : (s.allocator.shared index).1.toNat < 65536)
      (hwrite : s.code.setBytes (bci + 1)
        (ByteOrder.native.split16 (s.allocator.shared index).1.toUInt16) = .ok code) :
      SiteStep pool bci op e s
        ⟨code, (s.allocator.shared index).2, { s.summary with memberRefs := s.summary.memberRefs + 1 },
          s.events⟩
  | callSite {index : UInt16} {code : Code} (hslow : op.isFast = false)
      (hfamily : e.family = .dynamicInvoke) (hindex : s.code.encodedIndexAt bci = .ok index)
      (htag : pool.tagAt index = .ok .invokeDynamic)
      (hwrite : s.code.setBytes (bci + 1)
        (ByteOrder.native.split32 (s.allocator.callSite index).1) = .ok code) :
      SiteStep pool bci op e s
        ⟨code, (s.allocator.callSite index).2, { s.summary with callSites := s.summary.callSites + 1 },
          s.events⟩
  | load {index : UInt16} {tag : ConstantTag} {code code' : Code} (hop : op = .ldc)
      (hfamily : e.family = .loadConstant) (hindex : s.code.encodedIndexAt bci = .ok index)
      (htag : pool.tagAt index = .ok tag) (hcached : tag.isExecutableReference = true)
      (hnarrow : (s.allocator.shared index).1.toNat < 256)
      (hwrite : s.code.setBytes (bci + 1) [(s.allocator.shared index).1.toUInt8] = .ok code)
      (hfast : code.setBytes bci [Opcode.fastAldc.byte] = .ok code') :
      SiteStep pool bci op e s
        ⟨code', (s.allocator.shared index).2, { s.summary with constants := s.summary.constants + 1 },
          s.events⟩
  /-- A one-byte load stays where its slot does not fit one byte. -/
  | loadLeft {index : UInt16} {tag : ConstantTag} (hop : op = .ldc)
      (hfamily : e.family = .loadConstant) (hindex : s.code.encodedIndexAt bci = .ok index)
      (htag : pool.tagAt index = .ok tag) (hcached : tag.isExecutableReference = true)
      (hwide : ¬(s.allocator.shared index).1.toNat < 256) :
      SiteStep pool bci op e s
        ⟨s.code, (s.allocator.shared index).2, s.summary,
          s.events ++ [.loadLeft bci (s.allocator.shared index).1]⟩
  | wideLoad {index : UInt16} {tag : ConstantTag} {code code' : Code} (hop : op = .ldcW)
      (hfamily : e.family = .loadConstant) (hindex : s.code.encodedIndexAt bci = .ok index)
      (htag : pool.tagAt index = .ok tag) (hcached : tag.isExecutableReference = true)
      (hnarrow : (s.allocator.shared index).1.toNat < 65536)
      (hwrite : s.code.setBytes (bci + 1)
        (ByteOrder.native.split16 (s.allocator.shared index).1.toUInt16) = .ok code)
      (hfast : code.setBytes bci [Opcode.fastAldcW.byte] = .ok code') :
      SiteStep pool bci op e s
        ⟨code', (s.allocator.shared index).2, { s.summary with constants := s.summary.constants + 1 },
          s.events⟩
  | switch {pairs : Int32} {form : Opcode} {code : Code} (hslow : op.isFast = false)
      (hfamily : e.family = .lookupSwitch)
      (hpairs : (s.code.cursorAt bci).switchWord 1 = .ok pairs)
      (hform : form = if pairs.toInt.toNat < linearSwitchLimit then .fastLinearswitch
        else .fastBinaryswitch)
      (hwrite : s.code.setBytes bci [form.byte] = .ok code) :
      SiteStep pool bci op e s
        ⟨code, s.allocator, { s.summary with switches := s.summary.switches + 1 }, s.events⟩

/-! ### Reading the cases off the pass -/

variable {α : Type} {pool : Pool} {bci : Nat} {s t : Rewriting}

theorem exec_sharedSlot_bind (p : UInt16) (f : UInt32 → RewriteM α) :
    exec (sharedSlot p >>= f) s =
      exec (f (s.allocator.shared p).1) { s with allocator := (s.allocator.shared p).2 } := by
  rw [exec_bind]
  rfl

theorem exec_callSiteSlot_bind (p : UInt16) (f : UInt32 → RewriteM α) :
    exec (callSiteSlot p >>= f) s =
      exec (f (s.allocator.callSite p).1) { s with allocator := (s.allocator.callSite p).2 } := by
  rw [exec_bind]
  rfl

theorem exec_write_bind_eq_ok {pos : Nat} {bytes : List UInt8} {f : Unit → RewriteM α} {a : α} :
    exec (write pos bytes >>= f) s = (.ok a, t) ↔
      ∃ code, s.code.setBytes pos bytes = .ok code ∧ exec (f ()) { s with code } = (.ok a, t) := by
  rw [exec_bind]
  unfold write
  rw [exec_get_bind, exec_bind, exec_liftM]
  cases s.code.setBytes pos bytes <;> simp

theorem exec_count_eq_ok {change : RewriteSummary → RewriteSummary} :
    exec (count change) s = (.ok (), t) ↔ t = { s with summary := change s.summary } := by
  unfold count
  rw [exec_modify, Prod.mk.injEq, eq_comm (b := t)]
  simp

theorem expectTag_eq_ok {index : UInt16} {accepted : List ConstantTag} {u : Unit} :
    expectTag pool index bci accepted = .ok u ↔ ∃ tag, pool.tagAt index = .ok tag ∧ tag ∈ accepted := by
  unfold expectTag inContext failWith
  cases h : pool.tagAt index with
  | error e => simp
  | ok tag =>
      by_cases htag : tag ∈ accepted <;> simp [htag, pure, Except.pure]

theorem narrow_eq_ok {index : UInt32} {n : UInt16} :
    narrow index bci = .ok n ↔ index.toNat < 65536 ∧ index.toUInt16 = n := by
  unfold narrow failWith
  by_cases h : index.toNat < 65536 <;> simp [h]

variable {op : Opcode} {e : FormatEntry}

theorem family_of_ldc (he : standard.entry? op = some e) (hop : op = .ldc ∨ op = .ldcW) :
    op.isFast = false ∧ e.family = .loadConstant := by
  have hslow : op.isFast = false := by rcases hop with rfl | rfl <;> decide
  refine ⟨hslow, (FormatTable.family_of_slow he hslow).trans ?_⟩
  rcases hop with rfl | rfl <;> decide

theorem siteStep_of_member (hslow : op.isFast = false)
    (hfamily : e.family = .fieldAccess ∨ e.family = .invoke)
    (hindex : ∀ index, s.code.u16At .java (bci + 1) = .ok index → s.code.encodedIndexAt bci = .ok index)
    (h : exec (rewriteMember pool bci e.family.memberTags) s = (.ok (), t)) : SiteStep pool bci op e s t := by
  unfold rewriteMember at h
  simp only [exec_get_bind, exec_liftM_bind_eq_ok, exec_liftM_error_bind_eq_ok, exec_sharedSlot_bind,
    exec_write_bind_eq_ok, exec_count_eq_ok, expectTag_eq_ok, narrow_eq_ok] at h
  obtain ⟨index, hread, _, ⟨tag, htag, haccepted⟩, _, ⟨hnarrow, rfl⟩, code, hwrite, rfl⟩ := h
  exact .member hslow hfamily (hindex _ hread) htag haccepted hnarrow hwrite

theorem siteStep_of_callSite (hslow : op.isFast = false) (hfamily : e.family = .dynamicInvoke)
    (hindex : ∀ index, s.code.u16At .java (bci + 1) = .ok index → s.code.encodedIndexAt bci = .ok index)
    (h : exec (rewriteCallSite pool bci) s = (.ok (), t)) : SiteStep pool bci op e s t := by
  unfold rewriteCallSite at h
  simp only [exec_get_bind, exec_liftM_bind_eq_ok, exec_liftM_error_bind_eq_ok, exec_callSiteSlot_bind,
    exec_write_bind_eq_ok, exec_count_eq_ok, expectTag_eq_ok, List.mem_singleton] at h
  obtain ⟨index, hread, _, ⟨tag, htag, rfl⟩, code, hwrite, rfl⟩ := h
  exact .callSite hslow hfamily (hindex _ hread) htag hwrite

theorem siteStep_of_load (hop : s.code.opcodeAt bci = .ok .ldc) (he : standard.entry? .ldc = some e)
    (h : exec (rewriteLoad pool bci) s = (.ok (), t)) : SiteStep pool bci .ldc e s t := by
  obtain ⟨hslow, hfamily⟩ := family_of_ldc he (.inl rfl)
  unfold rewriteLoad at h
  simp only [exec_get_bind, exec_liftM_bind_eq_ok, exec_liftM_error_bind_eq_ok] at h
  obtain ⟨b, hread, tag, htag, h⟩ := h
  have hindex : s.code.encodedIndexAt bci = .ok b.toUInt16 := by
    rw [Code.encodedIndexAt, hop, hread]
    rfl
  split at h
  · rename_i hcached
    rw [exec_sharedSlot_bind] at h
    split at h
    · rename_i hnarrow
      simp only [exec_write_bind_eq_ok, exec_count_eq_ok] at h
      obtain ⟨code, hwrite, code', hfast, rfl⟩ := h
      exact .load rfl hfamily hindex htag hcached hnarrow hwrite hfast
    · rename_i hwide
      obtain ⟨-, rfl⟩ := Prod.mk.inj h
      exact .loadLeft rfl hfamily hindex htag hcached hwide
  · rename_i hpool
    obtain ⟨-, rfl⟩ := Prod.mk.inj h
    exact .inPool hslow hfamily (.inl rfl) hindex htag (Bool.eq_false_iff.mpr hpool)

theorem siteStep_of_wideLoad (hop : s.code.opcodeAt bci = .ok .ldcW)
    (he : standard.entry? .ldcW = some e) (h : exec (rewriteWideLoad pool bci) s = (.ok (), t)) :
    SiteStep pool bci .ldcW e s t := by
  obtain ⟨hslow, hfamily⟩ := family_of_ldc he (.inr rfl)
  unfold rewriteWideLoad at h
  simp only [exec_get_bind, exec_liftM_bind_eq_ok, exec_liftM_error_bind_eq_ok] at h
  obtain ⟨index, hread, tag, htag, h⟩ := h
  have hindex : s.code.encodedIndexAt bci = .ok index := by
    rw [Code.encodedIndexAt, hop]
    exact hread
  split at h
  · rename_i hcached
    simp only [exec_sharedSlot_bind, exec_liftM_error_bind_eq_ok, narrow_eq_ok, exec_write_bind_eq_ok,
      exec_count_eq_ok] at h
    obtain ⟨_, ⟨hnarrow, rfl⟩, code, hwrite, code', hfast, rfl⟩ := h
    exact .wideLoad rfl hfamily hindex htag hcached hnarrow hwrite hfast
  · rename_i hpool
    obtain ⟨-, rfl⟩ := Prod.mk.inj h
    exact .inPool hslow hfamily (.inr rfl) hindex htag (Bool.eq_false_iff.mpr hpool)

theorem siteStep_of_switch (hslow : op.isFast = false) (hfamily : e.family = .lookupSwitch)
    (h : exec (rewriteSwitch (s.code.cursorAt bci)) s = (.ok (), t)) : SiteStep pool bci op e s t := by
  unfold rewriteSwitch at h
  simp only [exec_liftM_bind_eq_ok, exec_write_bind_eq_ok, exec_count_eq_ok] at h
  obtain ⟨pairs, hpairs, code, hwrite, rfl⟩ := h
  exact .switch hslow hfamily hpairs rfl hwrite

/-- A site that rewriting has accepted is one of the cases. -/
theorem siteStep_of_exec (hop : s.code.opcodeAt bci = .ok op) (he : standard.entry? op = some e)
    (h : exec (rewriteSite pool (s.code.cursorAt bci)) s = (.ok (), t)) : SiteStep pool bci op e s t := by
  have hraw : (s.code.cursorAt bci).rawOpcode = .ok op := hop
  have hentry : (s.code.cursorAt bci).formats.entry? op = some e := he
  have hfamily := Cursor.family_of_entry hraw hentry
  unfold rewriteSite at h
  simp only [hraw, hfamily, exec_liftM_bind_eq_ok, Except.ok.injEq, exists_eq_left'] at h
  by_cases hfast : op.isFast = true
  · rw [if_pos hfast] at h
    obtain ⟨-, rfl⟩ := Prod.mk.inj h
    exact .keep (.inl hfast)
  rw [if_neg hfast] at h
  have hslow := Bool.eq_false_iff.mpr hfast
  have hindex (hne : op ≠ .ldc) (index : UInt16) (hread : s.code.u16At .java (bci + 1) = .ok index) :
      s.code.encodedIndexAt bci = .ok index := by
    rw [Code.encodedIndexAt, hop]
    exact (if_neg hne).trans hread
  have hne (hf : e.family ≠ .loadConstant) : op ≠ .ldc := by
    rintro rfl
    exact hf (family_of_ldc he (.inl rfl)).2
  cases hf : e.family with
  | fieldAccess =>
      rw [hf] at h
      exact siteStep_of_member hslow (.inl hf) (hindex (hne (by rw [hf]; decide))) (by rw [hf]; exact h)
  | invoke =>
      rw [hf] at h
      exact siteStep_of_member hslow (.inr hf) (hindex (hne (by rw [hf]; decide))) (by rw [hf]; exact h)
  | dynamicInvoke =>
      rw [hf] at h
      exact siteStep_of_callSite hslow hf (hindex (hne (by rw [hf]; decide))) h
  | loadConstant =>
      simp only [hf] at h
      by_cases hldc : op = .ldc
      · subst hldc
        exact siteStep_of_load hop he h
      by_cases hldcW : op = .ldcW
      · subst hldcW
        exact siteStep_of_wideLoad hop he h
      rw [if_neg hldc, if_neg hldcW] at h
      obtain ⟨-, rfl⟩ := Prod.mk.inj h
      exact .keep (.inr (.inr ⟨hf, hldc, hldcW⟩))
  | lookupSwitch =>
      rw [hf] at h
      exact siteStep_of_switch hslow hf h
  | typeReference | tableSwitch | branch | other =>
      rw [hf] at h
      obtain ⟨-, rfl⟩ := Prod.mk.inj h
      exact .keep (.inr (.inl (by rw [hf]; decide)))

end Rewriting

end MethodCode
