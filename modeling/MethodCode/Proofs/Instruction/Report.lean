import MethodCode.Instruction.Decoded
import MethodCode.Proofs.Instruction.Reference
import MethodCode.Proofs.Instruction.SameStructure
import MethodCode.Proofs.Linking.References

/-! What an instruction tells about itself. A report collects the answers of a cursor or of a member reference,
so that two codes are compared by comparing their reports. Main statements: an instruction whose opcode is
exchanged for another one of the same standard code, while its operands stay, reports the same as before; it
decodes to the same kind of instruction, and fails to decode where it failed before. -/

namespace MethodCode

open FormatTable (standard)

/-- What a cursor tells of the instruction it stands at. -/
structure Cursor.Report where
  opcode : Except Fault Opcode
  family : Except Fault Family
  length : Except Fault Nat
  checkedLength : Except Fault (Option Nat)
  destination : Except Fault (Option UInt64)

/-- The answers of a cursor. -/
def Cursor.report (c : Cursor) : Report :=
  ⟨c.opcode, c.family, c.length, c.checkedLength, c.branchDestination⟩

/-- What a member reference tells of itself. -/
structure MemberRef.Report where
  index : Except Fault UInt32
  cacheIndex : Except Fault UInt32
  poolIndex : Except Fault UInt16
  name : Except Fault Symbol
  signature : Except Fault Symbol
  holderName : Except Fault Symbol
  resultType : Except Fault ValueType
  invokeKind : Except Fault (Option InvokeKind)
  fieldAccess : Except Fault (Option FieldAccess)
  isStatic : Except Fault Bool
  hasReceiver : Except Fault Bool
  parameterSize : Except Fault Nat

/-- The answers of a member reference. -/
def MemberRef.report (r : MemberRef) : Report :=
  ⟨r.index, r.cacheIndex, r.poolIndex, r.name, r.signature, r.holderName, r.resultType, r.invokeKind,
    r.fieldAccess, r.isStatic, r.hasReceiver, r.parameterSize⟩

/-- The kinds of decoded instructions. -/
inductive Decoded.Kind where
  | memberRef
  | loadConstant
  | tableSwitch
  | lookupSwitch
  | typeRef
  | plain
  deriving DecidableEq

/-- The kind of a decoded instruction. -/
def Decoded.kind : Decoded → Kind
  | memberRef _ => .memberRef
  | loadConstant _ => .loadConstant
  | tableSwitch _ => .tableSwitch
  | lookupSwitch _ => .lookupSwitch
  | typeRef _ => .typeRef
  | plain _ => .plain

/-- The instruction at a position has kept its operands and the standard code that it stands for; the opcode
itself may be another one, unless the instruction branches. -/
structure Code.SameOperands (d c : Code) (bci n : Nat) (op' op : Opcode) (e' e : FormatEntry) : Prop where
  after : d.Occupies bci n op' e'
  before : c.Occupies bci n op e
  canonical : e'.canonical = e.canonical
  branch : e.family = .branch → op' = op
  operands : Set.EqOn d.byteAt c.byteAt (Set.Ico (bci + 1) (bci + n))

variable {c d : Code} {bci n : Nat} {op op' : Opcode} {e e' : FormatEntry} {mode : Mode}
  {method : Option Method}

/-! ### Cursors -/

/-- An instruction that is all there has the length that it takes up. -/
theorem Code.Occupies.length (h : c.Occupies bci n op e) : (c.viewAt mode method bci).length = .ok n :=
  (Cursor.checkedLength_eq_some_iff (c := c.viewAt mode method bci).mp h.lengthAt).1

namespace Code.SameOperands

variable (h : d.SameOperands c bci n op' op e' e)

include h

theorem structure_eq (mode : Mode) (method : Option Method) :
    (d.viewAt mode method bci).SameStructure (c.viewAt mode method bci) :=
  sameStructure_of_occupies h.before h.after h.canonical h.branch fun _ => h.operands

theorem family_eq : e'.family = e.family := by
  rw [FormatEntry.family, FormatEntry.family, h.canonical]

theorem report_eq : (d.viewAt mode method bci).report = (c.viewAt mode method bci).report := by
  have hsame := h.structure_eq mode method
  rw [Cursor.report, Cursor.report, hsame.opcode, hsame.family, hsame.length, hsame.destination,
    h.before.length, h.after.length]

end Code.SameOperands

/-! ### Member references -/

section MemberRef

variable {body body' : MethodBody}

theorem MethodBody.cursor_eq (hmethod : body'.method = body.method) :
    body'.cursor mode bci = body'.code.viewAt mode (some body.method) bci := by
  rw [cursor, hmethod]
  rfl

/-- A member reference whose index is the same refers to the same member. -/
theorem MemberRef.report_congr {r r' : MemberRef} (hmethod : r'.body.method = r.body.method)
    (hbci : r'.cursor.bci = r.cursor.bci)
    (hreferences : r'.body.constants.references = r.body.constants.references)
    (hindex : r'.index = r.index) (hcacheIndex : r'.cacheIndex = r.cacheIndex)
    (hopcode : r'.opcode = r.opcode) : r'.report = r.report := by
  obtain ⟨hpool, hcache⟩ := Constants.cases_of_references hreferences
  have hpoolIndex : r'.poolIndex = r.poolIndex := by
    rcases hcache with ⟨hnone', hnone⟩ | ⟨cache', cache, hsome', hsome, hsame⟩
    · rw [poolIndex, poolIndex, hnone', hnone, hmethod]
    · rw [poolIndex, poolIndex, hsome', hsome, hcacheIndex, hmethod, hbci]
      simp only [Cache.poolIndexAt_congr hsame]
  have hsignature : r'.signature = r.signature := by
    rw [signature, signature, hpoolIndex, hpool]
  have hreceiver : r'.hasReceiver = r.hasReceiver := by
    rw [hasReceiver, hasReceiver, isStatic, isStatic, hopcode]
  rw [report, report, hindex, hcacheIndex, hpoolIndex, hsignature, hreceiver, name, name, holderName, holderName,
    resultType, resultType, invokeKind, invokeKind, fieldAccess, fieldAccess, isStatic, isStatic, parameterSize,
    parameterSize, hpoolIndex, hsignature, hreceiver, hopcode, hpool]

theorem MemberRef.indexTag_congr (hreferences : body'.constants.references = body.constants.references)
    (mode : Mode) (bci : Nat) :
    (body'.memberRefAt mode bci).indexTag = (body.memberRefAt mode bci).indexTag := by
  rw [indexTag, indexTag, MethodBody.memberRefAt, MethodBody.memberRefAt]
  obtain ⟨-, hcache⟩ := Constants.cases_of_references hreferences
  rcases hcache with ⟨hnone', hnone⟩ | ⟨cache', cache, hsome', hsome, hsame⟩
  · rw [hnone', hnone]
  · rw [hsome', hsome]
    exact (Prod.mk.inj hsame).1

theorem Code.SameOperands.memberRef_report_eq
    (h : body'.code.SameOperands body.code bci n op' op e' e) (hmethod : body'.method = body.method)
    (hreferences : body'.constants.references = body.constants.references)
    (hfamily : e.family ∈ MemberRef.families) :
    (body'.memberRefAt mode bci).report = (body.memberRefAt mode bci).report := by
  have htag := MemberRef.indexTag_congr hreferences mode bci
  have hopcode : (body'.memberRefAt mode bci).opcode = (body.memberRefAt mode bci).opcode :=
    (h.structure_eq mode (some body.method)).opcode
  have hfamily' := h.family_eq.symm ▸ hfamily
  rcases (show (e.family = .fieldAccess ∨ e.family = .invoke) ∨ e.family = .dynamicInvoke by
    simpa [MemberRef.families, or_assoc] using hfamily) with hmember | hdynamic
  · obtain ⟨hroom, hshort⟩ := h.before.short_of_member hmember
    obtain ⟨-, hshort'⟩ := h.after.short_of_member (h.family_eq.symm ▸ hmember)
    have hread : body'.code.u16At .native (bci + 1) = body.code.u16At .native (bci + 1) :=
      Code.u16At_congr (h.operands.mono (Set.Ico_subset_Ico_right (by omega)))
    refine MemberRef.report_congr hmethod rfl hreferences ?_ ?_ hopcode
    · rw [MemberRef.index_of_short h.after.opcode h.after.entry hshort',
        MemberRef.index_of_short h.before.opcode h.before.entry hshort, hread, htag]
    · rw [MemberRef.cacheIndex_of_short h.after.opcode h.after.entry hshort',
        MemberRef.cacheIndex_of_short h.before.opcode h.before.entry hshort, hread]
  · obtain ⟨hroom, hword⟩ := h.before.word_of_callSite hdynamic
    obtain ⟨-, hword'⟩ := h.after.word_of_callSite (h.family_eq.symm ▸ hdynamic)
    have hread : body'.code.u32At .native (bci + 1) = body.code.u32At .native (bci + 1) :=
      Code.u32At_congr (h.operands.mono (Set.Ico_subset_Ico_right (by omega)))
    have hindex : (body'.memberRefAt mode bci).index = (body.memberRefAt mode bci).index := by
      rw [MemberRef.index_of_word h.after.opcode h.after.entry hword',
        MemberRef.index_of_word h.before.opcode h.before.entry hword, hread]
    refine MemberRef.report_congr hmethod rfl hreferences hindex ?_ hopcode
    rw [MemberRef.cacheIndex, MemberRef.cacheIndex, MemberRef.hasWideIndex_of_entry h.after.opcode h.after.entry,
      MemberRef.hasWideIndex_of_entry h.before.opcode h.before.entry, hword.2.2, hword'.2.2]
    exact hindex

end MemberRef

/-! ### Kinds -/

/-- Two calls answer both, or fail with the same. -/
def FailAlike {α β : Type} (x : Except Fault α) (y : Except Fault β) : Prop :=
  (fun _ => ()) <$> x = (fun _ => ()) <$> y

theorem FailAlike.bind_eq {α β γ : Type} {x : Except Fault α} {y : Except Fault β} (h : FailAlike x y)
    {f : α → Except Fault γ} {g : β → Except Fault γ} {k : γ} (hf : ∀ a, f a = .ok k) (hg : ∀ b, g b = .ok k) :
    x >>= f = y >>= g := by
  cases x with
  | error e =>
      cases y with
      | error e' => exact congrArg Except.error (Except.error.inj h)
      | ok b => cases h
  | ok a =>
      cases y with
      | error e' => cases h
      | ok b => exact (hf a).trans (hg b).symm

theorem MemberRef.failAlike_decode {body body' : MethodBody} (hmethod : body'.method = body.method)
    (hlinked : body'.constants.cache.isSome = body.constants.cache.isSome)
    (hfamily : (body'.cursor mode bci).family = (body.cursor mode bci).family)
    (hopcode : (body'.cursor mode bci).opcode = (body.cursor mode bci).opcode) :
    FailAlike (decode mode body' bci) (decode mode body bci) := by
  unfold FailAlike decode isValid invokeKind opcode
  simp only [hmethod, hlinked, hfamily, hopcode, map_bind]
  refine bind_congr fun _ => bind_congr fun kind => ?_
  split
  · simp only [map_bind]
    rfl
  · rfl

theorem LoadConstant.failAlike_decode {body body' : MethodBody}
    (hraw : (body'.cursor mode bci).rawOpcode = (body.cursor mode bci).rawOpcode)
    (hfamily : (body'.cursor mode bci).family = (body.cursor mode bci).family) :
    FailAlike (decode mode body' bci) (decode mode body bci) := by
  unfold FailAlike decode verified isValid
  simp only [hraw, hfamily, map_bind]
  rfl

theorem TableSwitch.failAlike_decode {c c' : Cursor} (hmode : c'.mode = c.mode) (hbci : c'.bci = c.bci)
    (hfamily : c'.family = c.family) (hlow : low ⟨c'⟩ = low ⟨c⟩) (hhigh : high ⟨c'⟩ = high ⟨c⟩) :
    FailAlike (decode c') (decode c) := by
  unfold FailAlike decode isValid
  simp only [hmode, hbci, hfamily, hlow, hhigh, map_bind]
  rfl

theorem LookupSwitch.ascendingFrom_congr {l l' : LookupSwitch} {n : Nat} (hbci : l'.cursor.bci = l.cursor.bci)
    (h : ∀ i < n, l'.pairAt i = l.pairAt i) (i count : Nat) (hle : i + count < n ∨ count = 0) :
    l'.ascendingFrom i count = l.ascendingFrom i count := by
  induction count generalizing i with
  | zero => rfl
  | succ count ih =>
      rw [ascendingFrom, ascendingFrom, h i (by omega), h (i + 1) (by omega), hbci, ih (i + 1) (by omega)]

theorem LookupSwitch.failAlike_decode {c c' : Cursor} (hmode : c'.mode = c.mode) (hbci : c'.bci = c.bci)
    (hfamily : c'.family = c.family) (hsame : size ⟨c'⟩ = size ⟨c⟩)
    (hpairAt : ∀ n, size ⟨c⟩ = .ok n → ∀ i < n, pairAt ⟨c'⟩ i = pairAt ⟨c⟩ i) :
    FailAlike (decode c') (decode c) := by
  have hascending : (do ascendingFrom ⟨c'⟩ 0 ((← size ⟨c'⟩) - 1)) =
      (do ascendingFrom ⟨c⟩ 0 ((← size ⟨c⟩) - 1)) := by
    rw [hsame]
    cases hsize : size ⟨c⟩ with
    | error f => rfl
    | ok n => exact ascendingFrom_congr hbci (hpairAt n hsize) 0 (n - 1) (by omega)
  unfold FailAlike decode isValid
  simp only [hmode, hbci, hfamily, hascending, map_bind]
  rfl

theorem TypeRef.failAlike_decode {body body' : MethodBody}
    (hfamily : (body'.cursor mode bci).family = (body.cursor mode bci).family) :
    FailAlike (decode mode body' bci) (decode mode body bci) := by
  unfold FailAlike decode isValid
  simp only [hfamily, map_bind]
  rfl

/-- Decoding looks at the family first, and then at what the view of this family verifies. -/
theorem Decoded.kind_congr {body body' : MethodBody} (hmethod : body'.method = body.method)
    (hreferences : body'.constants.references = body.constants.references)
    (hfamily : (body'.cursor mode bci).family = (body.cursor mode bci).family)
    (hopcode : (body'.cursor mode bci).opcode = (body.cursor mode bci).opcode)
    (hload : (body.cursor mode bci).family = .ok .loadConstant →
      FailAlike (LoadConstant.decode mode body' bci) (LoadConstant.decode mode body bci))
    (htable : (body.cursor mode bci).family = .ok .tableSwitch →
      FailAlike (TableSwitch.decode (body'.cursor mode bci)) (TableSwitch.decode (body.cursor mode bci)))
    (hlookup : (body.cursor mode bci).family = .ok .lookupSwitch →
      FailAlike (LookupSwitch.decode (body'.cursor mode bci)) (LookupSwitch.decode (body.cursor mode bci))) :
    kind <$> decode mode body' bci = kind <$> decode mode body bci := by
  have hlinked : body'.constants.cache.isSome = body.constants.cache.isSome := by
    rcases (Constants.cases_of_references hreferences).2 with ⟨hnone', hnone⟩ | ⟨_, _, hsome', hsome, -⟩
    · rw [hnone', hnone]
    · rw [hsome', hsome]
      rfl
  have hmember := MemberRef.failAlike_decode hmethod hlinked hfamily hopcode
  have htype : FailAlike (TypeRef.decode mode body' bci) (TypeRef.decode mode body bci) :=
    TypeRef.failAlike_decode hfamily
  unfold decode
  rw [map_bind, map_bind, hfamily]
  cases hf : (body.cursor mode bci).family with
  | error f => rfl
  | ok family =>
      rw [ok_bind, ok_bind]
      cases family with
      | fieldAccess | invoke | dynamicInvoke =>
          simp only [map_bind]
          exact hmember.bind_eq (fun _ => rfl) fun _ => rfl
      | loadConstant =>
          simp only [map_bind]
          exact (hload hf).bind_eq (fun _ => rfl) fun _ => rfl
      | tableSwitch =>
          simp only [map_bind]
          exact (htable hf).bind_eq (fun _ => rfl) fun _ => rfl
      | lookupSwitch =>
          simp only [map_bind]
          exact (hlookup hf).bind_eq (fun _ => rfl) fun _ => rfl
      | typeReference =>
          simp only [map_bind]
          exact htype.bind_eq (fun _ => rfl) fun _ => rfl
      | branch | other => rfl

/-- An instruction that has kept its operands decodes to the same kind, or fails to decode as before. -/
theorem Code.SameOperands.kind_eq {body body' : MethodBody}
    (h : body'.code.SameOperands body.code bci n op' op e' e) (hmethod : body'.method = body.method)
    (hreferences : body'.constants.references = body.constants.references) :
    Decoded.kind <$> Decoded.decode mode body' bci = Decoded.kind <$> Decoded.decode mode body bci := by
  have hview : body'.cursor mode bci = body'.code.viewAt mode (some body.method) bci :=
    MethodBody.cursor_eq hmethod
  have hsame : (body'.cursor mode bci).SameStructure (body.cursor mode bci) :=
    hview ▸ h.structure_eq mode (some body.method)
  have hfamily : (body.cursor mode bci).family = .ok e.family :=
    Cursor.family_of_entry h.before.opcode h.before.entry
  refine Decoded.kind_congr hmethod hreferences hsame.family hsame.opcode (fun hload => ?_) (fun htable => ?_)
    fun hlookup => ?_
  · have hload : e.family = .loadConstant := Except.ok.inj (hfamily.symm.trans hload)
    have hbefore : LoadConstant.decode mode body bci = .ok (body.loadAt mode bci) :=
      LoadConstant.decode_of_family h.before.opcode h.before.entry hload
    have hafter : LoadConstant.decode mode body' bci = .ok (body'.loadAt mode bci) :=
      LoadConstant.decode_of_family h.after.opcode h.after.entry (h.family_eq.trans hload)
    rw [hbefore, hafter]
    rfl
  · have htargets := hsame.table htable
    exact TableSwitch.failAlike_decode rfl rfl hsame.family htargets.low htargets.high
  · have htargets := hsame.lookup hlookup
    exact LookupSwitch.failAlike_decode rfl rfl hsame.family htargets.size htargets.pairAt

end MethodCode
