import MethodCode.Instruction.Decoded
import MethodCode.Proofs.Mode.Agreement

/-! Decoded instructions in checked and unchecked mode. What decoding gives remembers its mode, and nothing
else in it depends on the mode. Main statements: all that is asked of a decoded instruction agrees in both
modes, and so does decoding itself. -/

namespace MethodCode

open Fault (IsBreach)

namespace MemberRef

/-- The same member reference, testing nothing. -/
def unchecked (r : MemberRef) : MemberRef := { r with cursor := r.cursor.unchecked }

variable (r : MemberRef)

theorem agrees_decode (mode : Mode) (body : MethodBody) (bci : Nat) :
    Agrees (unchecked <$> decode mode body bci) (decode .unchecked body bci) := by
  refine .image_bind (agrees_check (.bind (fails_isValid _) fun _ => fails_ensure)) fun _ =>
    .image_bind (.refl (invokeKind ⟨body.cursor .unchecked bci, body⟩)) fun kind => ?_
  split
  · exact .image_bind (agrees_check fails_ensure) fun _ => .refl _
  · exact .refl _

theorem agrees_index : Agrees r.index r.unchecked.index := by
  refine .bind (.refl r.rawOpcode) fun raw => .bind (.refl r.hasWideIndex) fun wide => ?_
  split
  · exact r.cursor.agrees_indexU4 raw
  · exact r.cursor.agrees_cacheIndexU2 raw r.indexTag

theorem agrees_cacheIndex : Agrees r.cacheIndex r.unchecked.cacheIndex := by
  refine .bind (.refl r.hasWideIndex) fun wide => ?_
  split
  · exact r.agrees_index
  · exact .map (· - r.indexTag) r.agrees_index

theorem agrees_poolIndex : Agrees r.poolIndex r.unchecked.poolIndex := by
  cases hcache : r.body.constants.cache with
  | none =>
      have hcache' : r.unchecked.body.constants.cache = none := hcache
      rw [poolIndex, poolIndex, hcache, hcache']
      exact .refl _
  | some cache =>
      have hcache' : r.unchecked.body.constants.cache = some cache := hcache
      rw [poolIndex, poolIndex, hcache, hcache']
      exact .bind r.agrees_cacheIndex fun _ => .refl _

theorem agrees_symbolicRef : Agrees r.symbolicRef r.unchecked.symbolicRef :=
  .bind r.agrees_poolIndex fun _ => .bind r.agrees_cacheIndex fun _ => .refl _

theorem agrees_name : Agrees r.name r.unchecked.name :=
  .bind r.agrees_poolIndex fun _ => .refl _

theorem agrees_signature : Agrees r.signature r.unchecked.signature :=
  .bind r.agrees_poolIndex fun _ => .refl _

theorem agrees_holderName : Agrees r.holderName r.unchecked.holderName :=
  .bind r.agrees_poolIndex fun _ => .refl _

theorem agrees_resultType : Agrees r.resultType r.unchecked.resultType :=
  .bind r.agrees_signature fun _ => .refl _

theorem agrees_parameterSize : Agrees r.parameterSize r.unchecked.parameterSize :=
  .bind r.agrees_signature fun _ => .refl _

end MemberRef

namespace LoadConstant

/-- The same load, testing nothing. -/
def unchecked (l : LoadConstant) : LoadConstant := { l with cursor := l.cursor.unchecked }

variable (l : LoadConstant)

theorem agrees_verified : Agrees (unchecked <$> l.verified) l.unchecked.verified :=
  .image_bind (agrees_check (.bind l.cursor.fails_rawOpcode fun _ => fails_ensure)) fun _ =>
    .image_bind (agrees_check (.bind (.bind l.cursor.fails_family fun _ => .pure _) fun _ => fails_ensure))
      fun _ => .refl _

theorem agrees_decode (mode : Mode) (body : MethodBody) (bci : Nat) :
    Agrees (unchecked <$> decode mode body bci) (decode .unchecked body bci) :=
  agrees_verified _

theorem agrees_detached (mode : Mode) (code : Code) (bci : Nat) :
    Agrees (unchecked <$> detached mode code bci) (detached .unchecked code bci) :=
  agrees_verified _

theorem agrees_rawIndex : Agrees l.rawIndex l.unchecked.rawIndex := by
  refine .bind (.refl l.cursor.rawOpcode) fun raw => .bind (agrees_check fails_ensure) fun _ =>
    .bind (.refl (l.cursor.formats.canonical raw)) fun op => ?_
  split
  · exact .map UInt8.toUInt16 (l.cursor.agrees_indexU1 raw)
  · exact l.cursor.agrees_indexU2 raw false

theorem agrees_poolIndex : Agrees l.poolIndex l.unchecked.poolIndex :=
  .bind l.agrees_rawIndex fun _ => .refl _

theorem agrees_resultType : Agrees l.resultType l.unchecked.resultType :=
  .bind (.refl l.boundBody) fun _ => .bind l.agrees_poolIndex fun _ => .refl _

end LoadConstant

namespace TableSwitch

/-- The same table switch, testing nothing. -/
def unchecked (t : TableSwitch) : TableSwitch := ⟨t.cursor.unchecked⟩

theorem agrees_decode (c : Cursor) : Agrees (unchecked <$> decode c) (decode c.unchecked) :=
  .image_bind (agrees_check (.bind (.bind c.fails_family fun _ => .pure _) fun _ => fails_ensure)) fun _ =>
    .image_bind (agrees_check (.bind (c.fails_switchWord 2) fun _ => .bind (c.fails_switchWord 1) fun _ =>
      fails_ensure)) fun _ => .refl _

end TableSwitch

namespace LookupSwitch

/-- The same lookup switch, testing nothing. -/
def unchecked (l : LookupSwitch) : LookupSwitch := ⟨l.cursor.unchecked⟩

variable (l : LookupSwitch)

theorem fails_size : Fails IsBreach l.size := .bind (l.cursor.fails_switchWord 1) fun _ => .pure _

theorem fails_inBounds (i : Nat) :
    Fails IsBreach (do ensure (i < (← l.size)) (.pairOutOfBounds i)) :=
  .bind l.fails_size fun _ => fails_ensure

theorem fails_pairAt (i : Nat) : Fails IsBreach (l.pairAt i) :=
  .bind (fails_check (l.fails_inBounds i)) fun _ => .bind (l.cursor.fails_switchWord _) fun _ =>
    .bind (l.cursor.fails_switchWord _) fun _ => .pure _

theorem fails_ascendingFrom (i count : Nat) : Fails IsBreach (l.ascendingFrom i count) := by
  induction count generalizing i with
  | zero => exact .pure ()
  | succ count ih =>
      exact .bind (l.fails_pairAt i) fun _ => .bind (l.fails_pairAt (i + 1)) fun _ =>
        .bind fails_ensure fun _ => ih (i + 1)

theorem agrees_pairAt (i : Nat) : Agrees (l.pairAt i) (l.unchecked.pairAt i) :=
  .bind (agrees_check (l.fails_inBounds i)) fun _ => .refl _

theorem agrees_pairsFrom (i count : Nat) : Agrees (l.pairsFrom i count) (l.unchecked.pairsFrom i count) := by
  induction count generalizing i with
  | zero => exact .refl _
  | succ count ih => exact .bind (l.agrees_pairAt i) fun _ => .bind (ih (i + 1)) fun _ => .refl _

theorem agrees_pairs : Agrees l.pairs l.unchecked.pairs :=
  .bind (.refl l.size) fun _ => l.agrees_pairsFrom 0 _

theorem agrees_firstPairs (limit : Nat) : Agrees (l.firstPairs limit) (l.unchecked.firstPairs limit) :=
  .bind (.refl l.size) fun _ => l.agrees_pairsFrom 0 _

theorem agrees_decode (c : Cursor) : Agrees (unchecked <$> decode c) (decode c.unchecked) :=
  .image_bind (agrees_check (.bind (.bind c.fails_family fun _ => .pure _) fun _ => fails_ensure)) fun _ =>
    .image_bind (agrees_check (.bind (fails_size ⟨c⟩) fun _ => fails_ascendingFrom ⟨c⟩ 0 _)) fun _ => .refl _

end LookupSwitch

namespace TypeRef

/-- The same type reference, testing nothing. -/
def unchecked (r : TypeRef) : TypeRef := { r with cursor := r.cursor.unchecked }

variable (r : TypeRef)

theorem agrees_decode (mode : Mode) (body : MethodBody) (bci : Nat) :
    Agrees (unchecked <$> decode mode body bci) (decode .unchecked body bci) :=
  .image_bind (agrees_check (.bind (.bind (Cursor.fails_family _) fun _ => .pure _) fun _ => fails_ensure))
    fun _ => .refl _

theorem agrees_index : Agrees r.index r.unchecked.index :=
  .bind (.refl r.cursor.rawOpcode) fun raw => r.cursor.agrees_indexU2 raw false

theorem agrees_className : Agrees r.className r.unchecked.className :=
  .bind r.agrees_index fun _ => .refl _

end TypeRef

namespace Decoded

/-- The same instruction, testing nothing. -/
def unchecked : Decoded → Decoded
  | memberRef r => memberRef r.unchecked
  | loadConstant l => loadConstant l.unchecked
  | tableSwitch t => tableSwitch t.unchecked
  | lookupSwitch l => lookupSwitch l.unchecked
  | typeRef r => typeRef r.unchecked
  | plain c => plain c.unchecked

theorem unchecked_unchecked (d : Decoded) : d.unchecked.unchecked = d.unchecked := by
  cases d <;> rfl

theorem agrees_decode (mode : Mode) (body : MethodBody) (bci : Nat) :
    Agrees (unchecked <$> decode mode body bci) (decode .unchecked body bci) := by
  refine .image_bind (.refl (body.cursor .unchecked bci).family) fun family => ?_
  cases family with
  | fieldAccess | invoke | dynamicInvoke =>
      exact .image_pure (fun _ => rfl) (MemberRef.agrees_decode mode body bci)
  | loadConstant => exact .image_pure (fun _ => rfl) (LoadConstant.agrees_decode mode body bci)
  | tableSwitch => exact .image_pure (fun _ => rfl) (TableSwitch.agrees_decode (body.cursor mode bci))
  | lookupSwitch => exact .image_pure (fun _ => rfl) (LookupSwitch.agrees_decode (body.cursor mode bci))
  | typeReference => exact .image_pure (fun _ => rfl) (TypeRef.agrees_decode mode body bci)
  | branch | other => exact .refl _

end Decoded

end MethodCode
