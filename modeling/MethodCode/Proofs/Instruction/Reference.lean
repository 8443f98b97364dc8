import MethodCode.Instruction.Decoded
import MethodCode.Proofs.Code.EncodedIndex
import MethodCode.Proofs.Cursor.Index

/-! Instructions that refer to the constant pool, over code with a cache. Main statements: a member
reference tells its cache slot whatever the tag of the cache is, and both member references and loads
tell the pool index that their slot stands for; a load that was not moved behind the cache tells its own
operand. -/

namespace MethodCode

open FormatTable (standard)

variable {mode : Mode} {body : MethodBody} {bci : Nat} {op : Opcode} {e : FormatEntry} {cache : Cache}
  {p : UInt16}

/-! ### Member references -/

/-- The member reference at a position of a body, if there is one. -/
def MethodBody.memberRefAt (body : MethodBody) (mode : Mode) (bci : Nat) : MemberRef :=
  ⟨body.cursor mode bci, body⟩

namespace MemberRef

/-- The families of the instructions that refer to a member. -/
def families : List Family := [.fieldAccess, .invoke, .dynamicInvoke]

theorem isValid_iff {r : MemberRef} {family : Family} (h : r.cursor.family = .ok family) :
    r.isValid = .ok (decide (family ∈ families)) := by
  rw [isValid, h]
  cases family <;> rfl

theorem decode_of_family (hop : body.code.opcodeAt bci = .ok op) (he : standard.entry? op = some e)
    (hfamily : e.family ∈ families) (hcache : body.constants.cache = some cache) :
    decode mode body bci = .ok (body.memberRefAt mode bci) := by
  have hraw : (body.cursor mode bci).rawOpcode = .ok op := hop
  have hentry : (body.cursor mode bci).formats.entry? op = some e := he
  have hvalid : (body.memberRefAt mode bci).isValid = .ok true :=
    (isValid_iff (Cursor.family_of_entry hraw hentry)).trans (by rw [decide_eq_true hfamily])
  have hopcode : (body.memberRefAt mode bci).opcode = .ok e.canonical :=
    Cursor.opcode_of_entry hraw hentry
  have hmember : mode.check (do ensure (← (body.memberRefAt mode bci).isValid) (.notMemberRef bci)) =
      .ok () :=
    Cursor.check_of_ok (by rw [hvalid]; rfl)
  have hlinked : mode.check (ensure body.constants.cache.isSome (.unlinkedInvoke bci body.method)) =
      .ok () :=
    Cursor.check_of_ok (by rw [hcache]; rfl)
  rw [MethodBody.memberRefAt] at hmember hopcode ⊢
  rw [decode, hmember, invokeKind, hopcode, hlinked]
  change (if _ then _ else _) = _
  split <;> rfl

theorem invokeKind_of_fieldAccess (h : Family.ofCanonical op = .fieldAccess) :
    InvokeKind.ofOpcode? op = none := by
  have hne (invoke : Opcode) (hother : Family.ofCanonical invoke ≠ .fieldAccess) : op ≠ invoke := by
    rintro rfl
    exact hother h
  rw [InvokeKind.ofOpcode?, if_neg (hne _ (by decide)), if_neg (hne _ (by decide)), if_neg (hne _ (by decide)),
    if_neg (hne _ (by decide)), if_neg (hne _ (by decide))]

/-- A field access has a meaning before its class is linked. -/
theorem decode_of_fieldAccess (hop : body.code.opcodeAt bci = .ok op) (he : standard.entry? op = some e)
    (hfamily : e.family = .fieldAccess) : decode mode body bci = .ok (body.memberRefAt mode bci) := by
  have hraw : (body.cursor mode bci).rawOpcode = .ok op := hop
  have hentry : (body.cursor mode bci).formats.entry? op = some e := he
  have hvalid : (body.memberRefAt mode bci).isValid = .ok true :=
    (isValid_iff (Cursor.family_of_entry hraw hentry)).trans (by rw [hfamily]; decide)
  have hkind : (body.memberRefAt mode bci).invokeKind = .ok none := by
    rw [invokeKind, opcode, MethodBody.memberRefAt, Cursor.opcode_of_entry hraw hentry]
    exact congrArg Except.ok (invokeKind_of_fieldAccess hfamily)
  have hmember : mode.check (do ensure (← (body.memberRefAt mode bci).isValid) (.notMemberRef bci)) =
      .ok () :=
    Cursor.check_of_ok (by rw [hvalid]; rfl)
  rw [MethodBody.memberRefAt] at hmember hkind ⊢
  rw [decode, hmember, hkind]
  rfl

theorem hasWideIndex_of_entry (hop : body.code.opcodeAt bci = .ok op) (he : standard.entry? op = some e) :
    (body.memberRefAt mode bci).hasWideIndex =
      .ok (e.flags.contains (.of [.hasCacheIndex, .hasU4, .hasNative])) := by
  have hraw : (body.cursor mode bci).rawOpcode = .ok op := hop
  have hentry : (body.cursor mode bci).formats.entry? op = some e := he
  rw [hasWideIndex, rawOpcode, MethodBody.memberRefAt, hraw, ok_bind]
  exact FormatTable.hasWideIndex_of_entry hentry

theorem index_of_short (hop : body.code.opcodeAt bci = .ok op) (he : standard.entry? op = some e)
    (hshort : e.HasShortIndex true) :
    (body.memberRefAt mode bci).index = (do
      return (← body.code.u16At .native (bci + 1)).toUInt32 + (body.memberRefAt mode bci).indexTag) := by
  have hraw : (body.cursor mode bci).rawOpcode = .ok op := hop
  have hentry : (body.cursor mode bci).formats.entry? op = some e := he
  rw [index, hasWideIndex_of_entry hop he, hshort.2.2, rawOpcode, MethodBody.memberRefAt, hraw, ok_bind, ok_bind]
  exact Cursor.cacheIndexU2_eq hraw hentry hshort _

theorem index_of_word (hop : body.code.opcodeAt bci = .ok op) (he : standard.entry? op = some e)
    (hword : e.HasWordIndex) :
    (body.memberRefAt mode bci).index = body.code.u32At .native (bci + 1) := by
  have hraw : (body.cursor mode bci).rawOpcode = .ok op := hop
  have hentry : (body.cursor mode bci).formats.entry? op = some e := he
  rw [index, hasWideIndex_of_entry hop he, hword.2.2, rawOpcode, MethodBody.memberRefAt, hraw, ok_bind, ok_bind]
  exact Cursor.indexU4_eq hraw hentry hword

/-- The tag of the cache is added and taken off again. -/
theorem cacheIndex_of_short (hop : body.code.opcodeAt bci = .ok op) (he : standard.entry? op = some e)
    (hshort : e.HasShortIndex true) :
    (body.memberRefAt mode bci).cacheIndex =
      (do return (← body.code.u16At .native (bci + 1)).toUInt32) := by
  rw [cacheIndex, hasWideIndex_of_entry hop he, hshort.2.2, index_of_short hop he hshort]
  cases body.code.u16At .native (bci + 1) with
  | error f => rfl
  | ok n => exact congrArg Except.ok (UInt32.add_sub_cancel _ _)

theorem cacheIndex_of_word {n : UInt32} (hop : body.code.opcodeAt bci = .ok op)
    (he : standard.entry? op = some e) (hword : e.HasWordIndex)
    (hread : body.code.u32At .native (bci + 1) = .ok n) :
    (body.memberRefAt mode bci).cacheIndex = .ok n := by
  rw [cacheIndex, hasWideIndex_of_entry hop he, hword.2.2, index_of_word hop he hword]
  exact hread

theorem poolIndex_of_cacheIndex {i : UInt32} (hcache : body.constants.cache = some cache)
    (hindex : (body.memberRefAt mode bci).cacheIndex = .ok i) (hslot : cache.poolIndexAt i = .ok p) :
    (body.memberRefAt mode bci).poolIndex = .ok p := by
  have hcache' : (body.memberRefAt mode bci).body.constants.cache = some cache := hcache
  rw [poolIndex, hcache', hindex]
  change (liftM (inContext _ (cache.poolIndexAt i)) : Except Fault UInt16) = _
  rw [hslot]
  rfl

/-- What a resolver is asked to link for an instruction with a two-byte index. -/
theorem symbolicRef_of_short (hop : body.code.opcodeAt bci = .ok op) (he : standard.entry? op = some e)
    (hshort : e.HasShortIndex true) (hcache : body.constants.cache = some cache) :
    (body.memberRefAt mode bci).symbolicRef = (do
      let n ← body.code.u16At .native (bci + 1)
      let p ← inContext (.site body.method bci) (cache.poolIndexAt n.toUInt32)
      return ⟨p, n.toUInt32⟩) := by
  have hcache' : (body.memberRefAt mode bci).body.constants.cache = some cache := hcache
  rw [symbolicRef, poolIndex, hcache']
  dsimp only
  rw [cacheIndex_of_short hop he hshort]
  cases body.code.u16At .native (bci + 1) with
  | error f => rfl
  | ok n =>
      change (do
        let p ← (liftM (inContext (.site body.method bci) (cache.poolIndexAt n.toUInt32)) : Except Fault UInt16)
        let i ← (do return n.toUInt32)
        return (⟨p, i⟩ : SymbolicRef)) = _
      rfl

end MemberRef

/-! ### Loads of constants -/

/-- The load at a position of a body, if there is one. -/
def MethodBody.loadAt (body : MethodBody) (mode : Mode) (bci : Nat) : LoadConstant :=
  ⟨body.cursor mode bci, some body⟩

namespace LoadConstant

variable (hop : body.code.opcodeAt bci = .ok op) (he : standard.entry? op = some e)
  (hfamily : e.family = .loadConstant)

include he hfamily in
private theorem ne_wide : op ≠ .wide := by
  rintro rfl
  rw [FormatTable.family_of_slow he (by decide)] at hfamily
  exact absurd hfamily (by decide)

include hop he hfamily

theorem decode_of_family : decode mode body bci = .ok (body.loadAt mode bci) := by
  have hraw : (body.cursor mode bci).rawOpcode = .ok op := hop
  have hvalid : (body.loadAt mode bci).isValid = .ok true := by
    rw [isValid, MethodBody.loadAt, Cursor.family_of_entry hraw he, hfamily]
    rfl
  have hplain : mode.check (do
      ensure ((← (body.cursor mode bci).rawOpcode) ≠ .wide) (.wideLoadConstant bci)) = .ok () := by
    apply Cursor.check_of_ok
    rw [hraw]
    exact if_pos (decide_eq_true (ne_wide he hfamily))
  have hload : mode.check (do ensure (← (body.loadAt mode bci).isValid) (.notLoadConstant bci)) = .ok () :=
    Cursor.check_of_ok (by rw [hvalid]; rfl)
  change (do
    mode.check do ensure ((← (body.cursor mode bci).rawOpcode) ≠ Opcode.wide) (.wideLoadConstant bci)
    mode.check do ensure (← (body.loadAt mode bci).isValid) (.notLoadConstant bci)
    return body.loadAt mode bci) = _
  rw [hplain, hload]
  rfl

/-- The operand of a load takes one byte if the load stands for `ldc`, two bytes otherwise, in native order
in fast forms. -/
theorem rawIndex_eq :
    (body.loadAt mode bci).rawIndex =
      if e.canonical = .ldc then (do return (← body.code.byteAt (bci + 1)).toUInt16)
      else body.code.u16At (if op.isFast then .native else .java) (bci + 1) := by
  have hraw : (body.cursor mode bci).rawOpcode = .ok op := hop
  have hentry : (body.cursor mode bci).formats.entry? op = some e := he
  have hcanonical : (body.cursor mode bci).formats.canonical op = .ok e.canonical :=
    FormatTable.canonical_of_entry hentry
  have hlaid := FormatTable.laidOut_standard he
  rw [hfamily, FormatEntry.LaidOut] at hlaid
  have hplain : mode.check (ensure (op ≠ .wide) (.wideLoadConstant bci)) = .ok () :=
    Cursor.check_of_ok (if_pos (decide_eq_true (ne_wide he hfamily)))
  have hstart : (body.loadAt mode bci).rawIndex = (do
      mode.check (ensure (op ≠ .wide) (.wideLoadConstant bci))
      if (← (body.cursor mode bci).formats.canonical op) = .ldc then
        return (← (body.cursor mode bci).indexU1 op).toUInt16
      else (body.cursor mode bci).indexU2 op false) := by
    rw [rawIndex, MethodBody.loadAt, hraw]
    rfl
  rw [hstart, hplain, hcanonical]
  by_cases hldc : e.canonical = .ldc
  · rw [if_pos hldc] at hlaid ⊢
    rw [Cursor.indexU1_eq hraw hentry hlaid.2]
    exact if_pos hldc
  · rw [if_neg hldc] at hlaid ⊢
    rw [Cursor.indexU2_eq hraw hentry hlaid.2]
    exact if_neg hldc

omit he hfamily in
theorem hasCacheIndex_eq : (body.loadAt mode bci).hasCacheIndex = .ok op.isFast := by
  have hraw : (body.cursor mode bci).rawOpcode = .ok op := hop
  rw [hasCacheIndex, MethodBody.loadAt, hraw]
  rfl

/-- A standard form names a pool entry. -/
theorem poolIndex_of_slow (hslow : op.isFast = false) (hindex : body.code.encodedIndexAt bci = .ok p) :
    (body.loadAt mode bci).poolIndex = .ok p := by
  have hcached : (body.loadAt mode bci).hasCacheIndex = .ok false := (hasCacheIndex_eq hop).trans (hslow ▸ rfl)
  have hoperand : (body.loadAt mode bci).rawIndex = .ok p := by
    rw [Code.encodedIndexAt, hop, ok_bind] at hindex
    rw [rawIndex_eq hop he hfamily, (FormatTable.regular_standard he).2.2.2 hslow, hslow]
    exact hindex
  rw [poolIndex, hoperand, hcached]
  rfl

omit he hfamily in
/-- A fast form names a cache slot. -/
theorem poolIndex_of_fast {n : UInt16} (hfast : op.isFast = true)
    (hindex : (body.loadAt mode bci).rawIndex = .ok n) (hcache : body.constants.cache = some cache)
    (hslot : cache.poolIndexAt n.toUInt32 = .ok p) : (body.loadAt mode bci).poolIndex = .ok p := by
  have hcached : (body.loadAt mode bci).hasCacheIndex = .ok true := (hasCacheIndex_eq hop).trans (hfast ▸ rfl)
  have hbound : (body.loadAt mode bci).boundBody = .ok body := rfl
  rw [poolIndex, hindex, hcached, hbound]
  simp only [ok_bind, Bool.not_true, hcache]
  change (liftM (cache.poolIndexAt n.toUInt32) : Except Fault UInt16) = _
  rw [hslot]
  rfl

end LoadConstant

/-! ### Decoding by family -/

section Decoding

variable (hop : body.code.opcodeAt bci = .ok op) (he : standard.entry? op = some e)

include hop he

theorem Decoded.decode_memberRef (hfamily : e.family ∈ MemberRef.families)
    (hcache : body.constants.cache = some cache) :
    Decoded.decode mode body bci = .ok (.memberRef (body.memberRefAt mode bci)) := by
  have hraw : (body.cursor mode bci).rawOpcode = .ok op := hop
  rw [decode, Cursor.family_of_entry hraw he, ok_bind, MemberRef.decode_of_family hop he hfamily hcache]
  simp only [MemberRef.families, List.mem_cons, List.not_mem_nil, or_false] at hfamily
  rcases hfamily with hf | hf | hf <;> rw [hf] <;> rfl

theorem Decoded.decode_loadConstant (hfamily : e.family = .loadConstant) :
    Decoded.decode mode body bci = .ok (.loadConstant (body.loadAt mode bci)) := by
  have hraw : (body.cursor mode bci).rawOpcode = .ok op := hop
  rw [decode, Cursor.family_of_entry hraw he, ok_bind, LoadConstant.decode_of_family hop he hfamily, hfamily]
  rfl

end Decoding

end MethodCode
