import MethodCode.Proofs.Linking.Quickening
import MethodCode.Proofs.Mode.Linking
import MethodCode.Walk

/-! Every operation in both modes. `Operation` lists what the library can be asked to do, by the type of the
answer; an operation finds its inputs in any state, also in those that decoding would not have led to. Main
statement: whenever an operation returns in checked mode, with an answer or with an error, unchecked mode
gives the same and leaves the same state. -/

namespace MethodCode

/-! ### Questions about one instruction -/

/-- What a cursor can be asked. -/
inductive CursorCall : Type → Type where
  | byteAt (offset : Nat) : CursorCall UInt8
  | rawOpcode : CursorCall Opcode
  | opcode : CursorCall Opcode
  | isWide : CursorCall Bool
  | wideOpcode : CursorCall Opcode
  | family : CursorCall Family
  | name : CursorCall String
  | alignedOffset (offset : Nat) : CursorCall Nat
  | wordAt (offset : Nat) : CursorCall Int32
  | hasWideIndex (op : Opcode) : CursorCall Bool
  | isNative (op : Opcode) (wide : Bool) : CursorCall Bool
  | mustRewrite (op : Opcode) : CursorCall Bool
  | indexU1 (op : Opcode) : CursorCall UInt8
  | indexU2 (op : Opcode) (wide : Bool) : CursorCall UInt16
  | cacheIndexU2 (op : Opcode) (tag : UInt32) : CursorCall UInt32
  | indexU4 (op : Opcode) : CursorCall UInt32
  | offsetS2 (op : Opcode) : CursorCall Int16
  | offsetS4 (op : Opcode) : CursorCall Int32
  | constantS1 (offset : Nat) (op : Opcode) : CursorCall Int8
  | constantS2 (offset : Nat) (op : Opcode) (wide : Bool) : CursorCall Int16
  | branchDestination : CursorCall (Option UInt64)
  | length : CursorCall Nat
  | checkedLength : CursorCall (Option Nat)
  | claimFormat (op : Opcode) (wide : Bool) : CursorCall Unit
  | claimIndexSize (size : Nat) (op : Opcode) (wide : Bool) : CursorCall Unit
  | claimOffsetSize (size : Nat) (op : Opcode) (wide : Bool) : CursorCall Unit
  | claimConstantSize (size offset : Nat) (op : Opcode) (wide : Bool) : CursorCall Unit
  | claimNativeIndex (op : Opcode) (wide : Bool) : CursorCall Unit

namespace CursorCall

variable {α : Type}

/-- What a cursor answers. -/
def run (c : Cursor) : CursorCall α → Except Fault α
  | byteAt offset => c.byteAt offset
  | rawOpcode => c.rawOpcode
  | opcode => c.opcode
  | isWide => c.isWide
  | wideOpcode => c.wideOpcode
  | family => c.family
  | name => c.name
  | alignedOffset offset => .ok (c.alignedOffset offset)
  | wordAt offset => c.wordAt offset
  | hasWideIndex op => c.formats.hasWideIndex op
  | isNative op wide => c.formats.isNative op wide
  | mustRewrite op => c.formats.mustRewrite op
  | indexU1 op => c.indexU1 op
  | indexU2 op wide => c.indexU2 op wide
  | cacheIndexU2 op tag => c.cacheIndexU2 op tag
  | indexU4 op => c.indexU4 op
  | offsetS2 op => c.offsetS2 op
  | offsetS4 op => c.offsetS4 op
  | constantS1 offset op => c.constantS1 offset op
  | constantS2 offset op wide => c.constantS2 offset op wide
  | branchDestination => c.branchDestination
  | length => c.length
  | checkedLength => c.checkedLength
  | claimFormat op wide => c.claimFormat op wide
  | claimIndexSize size op wide => c.claimIndexSize size op wide
  | claimOffsetSize size op wide => c.claimOffsetSize size op wide
  | claimConstantSize size offset op wide => c.claimConstantSize size offset op wide
  | claimNativeIndex op wide => c.claimNativeIndex op wide

theorem agrees (c : Cursor) (call : CursorCall α) : Agrees (call.run c) (call.run c.unchecked) := by
  cases call with
  | indexU1 op => exact c.agrees_indexU1 op
  | indexU2 op wide => exact c.agrees_indexU2 op wide
  | cacheIndexU2 op tag => exact c.agrees_cacheIndexU2 op tag
  | indexU4 op => exact c.agrees_indexU4 op
  | offsetS2 op => exact c.agrees_offsetS2 op
  | offsetS4 op => exact c.agrees_offsetS4 op
  | constantS1 offset op => exact c.agrees_constantS1 op offset
  | constantS2 offset op wide => exact c.agrees_constantS2 op wide offset
  | branchDestination => exact c.agrees_branchDestination
  | claimFormat op wide => exact c.agrees_claimFormat op wide
  | claimIndexSize size op wide => exact c.agrees_claimIndexSize op wide size
  | claimOffsetSize size op wide => exact c.agrees_claimOffsetSize op wide size
  | claimConstantSize size offset op wide => exact c.agrees_claimConstantSize op wide size offset
  | claimNativeIndex op wide => exact c.agrees_claimNativeIndex op wide
  | _ => exact .refl _

end CursorCall

/-- What a member reference can be asked. -/
inductive MemberRefCall : Type → Type where
  | opcode : MemberRefCall Opcode
  | isValid : MemberRefCall Bool
  | invokeKind : MemberRefCall (Option InvokeKind)
  | fieldAccess : MemberRefCall (Option FieldAccess)
  | hasWideIndex : MemberRefCall Bool
  | index : MemberRefCall UInt32
  | cacheIndex : MemberRefCall UInt32
  | poolIndex : MemberRefCall UInt16
  | symbolicRef : MemberRefCall SymbolicRef
  | name : MemberRefCall Symbol
  | signature : MemberRefCall Symbol
  | holderName : MemberRefCall Symbol
  | resultType : MemberRefCall ValueType
  | isStatic : MemberRefCall Bool
  | hasReceiver : MemberRefCall Bool
  | parameterSize : MemberRefCall Nat

namespace MemberRefCall

variable {α : Type}

/-- What a member reference answers. -/
def run (r : MemberRef) : MemberRefCall α → Except Fault α
  | opcode => r.opcode
  | isValid => r.isValid
  | invokeKind => r.invokeKind
  | fieldAccess => r.fieldAccess
  | hasWideIndex => r.hasWideIndex
  | index => r.index
  | cacheIndex => r.cacheIndex
  | poolIndex => r.poolIndex
  | symbolicRef => r.symbolicRef
  | name => r.name
  | signature => r.signature
  | holderName => r.holderName
  | resultType => r.resultType
  | isStatic => r.isStatic
  | hasReceiver => r.hasReceiver
  | parameterSize => r.parameterSize

theorem agrees (r : MemberRef) (call : MemberRefCall α) : Agrees (call.run r) (call.run r.unchecked) := by
  cases call with
  | index => exact r.agrees_index
  | cacheIndex => exact r.agrees_cacheIndex
  | poolIndex => exact r.agrees_poolIndex
  | symbolicRef => exact r.agrees_symbolicRef
  | name => exact r.agrees_name
  | signature => exact r.agrees_signature
  | holderName => exact r.agrees_holderName
  | resultType => exact r.agrees_resultType
  | parameterSize => exact r.agrees_parameterSize
  | _ => exact .refl _

end MemberRefCall

/-- What a load of a constant can be asked. -/
inductive LoadConstantCall : Type → Type where
  | isValid : LoadConstantCall Bool
  | rawIndex : LoadConstantCall UInt16
  | hasCacheIndex : LoadConstantCall Bool
  | poolIndex : LoadConstantCall UInt16
  | resultType : LoadConstantCall ValueType

namespace LoadConstantCall

variable {α : Type}

/-- What a load of a constant answers. -/
def run (l : LoadConstant) : LoadConstantCall α → Except Fault α
  | isValid => l.isValid
  | rawIndex => l.rawIndex
  | hasCacheIndex => l.hasCacheIndex
  | poolIndex => l.poolIndex
  | resultType => l.resultType

theorem agrees (l : LoadConstant) (call : LoadConstantCall α) : Agrees (call.run l) (call.run l.unchecked) := by
  cases call with
  | rawIndex => exact l.agrees_rawIndex
  | poolIndex => exact l.agrees_poolIndex
  | resultType => exact l.agrees_resultType
  | _ => exact .refl _

end LoadConstantCall

/-- What a table switch can be asked. -/
inductive TableSwitchCall : Type → Type where
  | isValid : TableSwitchCall Bool
  | defaultOffset : TableSwitchCall Int32
  | low : TableSwitchCall Int32
  | high : TableSwitchCall Int32
  | size : TableSwitchCall Nat
  | offsetAt (i : Nat) : TableSwitchCall Int32
  | offsetFor (key : Int32) : TableSwitchCall Int32

/-- What a table switch answers. Nothing of it is tested. -/
def TableSwitchCall.run {α : Type} (t : TableSwitch) : TableSwitchCall α → Except Fault α
  | isValid => t.isValid
  | defaultOffset => t.defaultOffset
  | low => t.low
  | high => t.high
  | size => t.size
  | offsetAt i => t.offsetAt i
  | offsetFor key => t.offsetFor key

theorem TableSwitchCall.agrees {α : Type} (t : TableSwitch) (call : TableSwitchCall α) :
    Agrees (call.run t) (call.run t.unchecked) := by
  cases call <;> exact .refl _

/-- What a lookup switch can be asked. -/
inductive LookupSwitchCall : Type → Type where
  | isValid : LookupSwitchCall Bool
  | defaultOffset : LookupSwitchCall Int32
  | size : LookupSwitchCall Nat
  | pairAt (i : Nat) : LookupSwitchCall SwitchPair
  | firstPairs (limit : Nat) : LookupSwitchCall (List SwitchPair)
  | pairs : LookupSwitchCall (List SwitchPair)

namespace LookupSwitchCall

variable {α : Type}

/-- What a lookup switch answers. -/
def run (l : LookupSwitch) : LookupSwitchCall α → Except Fault α
  | isValid => l.isValid
  | defaultOffset => l.defaultOffset
  | size => l.size
  | pairAt i => l.pairAt i
  | firstPairs limit => l.firstPairs limit
  | pairs => l.pairs

theorem agrees (l : LookupSwitch) (call : LookupSwitchCall α) : Agrees (call.run l) (call.run l.unchecked) := by
  cases call with
  | pairAt i => exact l.agrees_pairAt i
  | firstPairs limit => exact l.agrees_firstPairs limit
  | pairs => exact l.agrees_pairs
  | _ => exact .refl _

end LookupSwitchCall

/-- What a type reference can be asked. -/
inductive TypeRefCall : Type → Type where
  | isValid : TypeRefCall Bool
  | index : TypeRefCall UInt16
  | className : TypeRefCall Symbol
  | dimensions : TypeRefCall (Option UInt8)

namespace TypeRefCall

variable {α : Type}

/-- What a type reference answers. -/
def run (r : TypeRef) : TypeRefCall α → Except Fault α
  | isValid => r.isValid
  | index => r.index
  | className => r.className
  | dimensions => r.dimensions

theorem agrees (r : TypeRef) (call : TypeRefCall α) : Agrees (call.run r) (call.run r.unchecked) := by
  cases call with
  | index => exact r.agrees_index
  | className => exact r.agrees_className
  | _ => exact .refl _

end TypeRefCall

/-! ### Walks -/

/-- The same walk in another mode. -/
def Walk.inMode (w : Walk) (mode : Mode) : Walk := { w with mode }

/-- The next instruction of a walk and the walk after it, both without their mode. -/
def Walk.stepIn (mode : Mode) (w : Walk) : Except Fault (Option Cursor × Walk) :=
  (fun c => (c.map Cursor.unchecked, (w.inMode mode).step.2.inMode .unchecked)) <$> (w.inMode mode).step.1

theorem Walk.agrees_stepIn (w : Walk) : Agrees (w.stepIn .checked) (w.stepIn .unchecked) := by
  have hlength : (w.inMode .unchecked).cursor.checkedLength = (w.inMode .checked).cursor.checkedLength := rfl
  have hsame : w.stepIn .unchecked = w.stepIn .checked := by
    unfold stepIn step
    rw [hlength]
    by_cases hend : w.stop ≤ w.next
    · have hend' (mode : Mode) : (w.inMode mode).stop ≤ (w.inMode mode).next := hend
      simp only [if_pos (hend' _)]
      rfl
    · have hend' (mode : Mode) : ¬(w.inMode mode).stop ≤ (w.inMode mode).next := hend
      simp only [if_neg (hend' _)]
      rcases (w.inMode .checked).cursor.checkedLength with f | _ | n <;> rfl
  rw [hsame]
  exact .refl _

/-! ### Operations -/

/-- Everything that operations read and change. -/
structure Session where
  link : LinkState
  allocator : Allocator

/-- What the library can be asked to do. -/
inductive Operation : Type → Type 1 where
  | askCursor {α : Type} (c : Cursor) (call : CursorCall α) : Operation α
  | askMemberRef {α : Type} (r : MemberRef) (call : MemberRefCall α) : Operation α
  | askLoadConstant {α : Type} (l : LoadConstant) (call : LoadConstantCall α) : Operation α
  | askTableSwitch {α : Type} (t : TableSwitch) (call : TableSwitchCall α) : Operation α
  | askLookupSwitch {α : Type} (l : LookupSwitch) (call : LookupSwitchCall α) : Operation α
  | askTypeRef {α : Type} (r : TypeRef) (call : TypeRefCall α) : Operation α
  | memberRef (body : MethodBody) (bci : Nat) : Operation MemberRef
  | loadConstant (body : MethodBody) (bci : Nat) : Operation LoadConstant
  | detachedLoad (code : Code) (bci : Nat) : Operation LoadConstant
  | tableSwitch (c : Cursor) : Operation TableSwitch
  | lookupSwitch (c : Cursor) : Operation LookupSwitch
  | typeRef (body : MethodBody) (bci : Nat) : Operation TypeRef
  | decode (body : MethodBody) (bci : Nat) : Operation Decoded
  | step (w : Walk) : Operation (Option Cursor × Walk)
  | staticTarget (r : MemberRef) (resolver : Resolver) (thread : Thread) : Operation Method
  | resolveField (r : MemberRef) (resolver : Resolver) (thread : Thread) : Operation Field
  | resolveConstant (l : LoadConstant) (thread : Thread) : Operation LoadedConstant
  | quicken (method : Method) (bci : Nat) (resolver : Resolver) (thread : Thread) : Operation (Option Opcode)
  | rewrite : Operation RewriteSummary

/-- The same cursor in another mode. -/
def Cursor.inMode (c : Cursor) (mode : Mode) : Cursor := { c with mode }

/-- The same member reference in another mode. -/
def MemberRef.inMode (r : MemberRef) (mode : Mode) : MemberRef := { r with cursor := r.cursor.inMode mode }

/-- The same load in another mode. -/
def LoadConstant.inMode (l : LoadConstant) (mode : Mode) : LoadConstant :=
  { l with cursor := l.cursor.inMode mode }

namespace Session

/-- Links in a session. -/
def exec {α : Type} (s : Session) (x : LinkM α) : Except Fault α × Session :=
  let (answer, link) := MethodCode.exec x s.link
  (answer, { s with link })

/-- Rewrites the code of a session. -/
def rewrite (s : Session) (mode : Mode) : Except Fault RewriteSummary × Session :=
  let r := rewriteIn mode s.link.code s.link.constants.pool s.allocator
  (r.outcome, ⟨{ s.link with code := r.code, log := s.link.log ++ r.events }, r.allocator⟩)

end Session

namespace Operation

variable {α : Type}

/-- Carries out an operation. What is decoded remembers its mode; the answer is given without it. -/
def run (mode : Mode) (s : Session) : Operation α → Except Fault α × Session
  | askCursor c call => (call.run (c.inMode mode), s)
  | askMemberRef r call => (call.run (r.inMode mode), s)
  | askLoadConstant l call => (call.run (l.inMode mode), s)
  | askTableSwitch t call => (call.run ⟨t.cursor.inMode mode⟩, s)
  | askLookupSwitch l call => (call.run ⟨l.cursor.inMode mode⟩, s)
  | askTypeRef r call => (call.run ⟨r.cursor.inMode mode, r.body⟩, s)
  | memberRef body bci => (MemberRef.unchecked <$> MemberRef.decode mode body bci, s)
  | loadConstant body bci => (LoadConstant.unchecked <$> LoadConstant.decode mode body bci, s)
  | detachedLoad code bci => (LoadConstant.unchecked <$> LoadConstant.detached mode code bci, s)
  | tableSwitch c => (TableSwitch.unchecked <$> TableSwitch.decode (c.inMode mode), s)
  | lookupSwitch c => (LookupSwitch.unchecked <$> LookupSwitch.decode (c.inMode mode), s)
  | typeRef body bci => (TypeRef.unchecked <$> TypeRef.decode mode body bci, s)
  | decode body bci => (Decoded.unchecked <$> Decoded.decode mode body bci, s)
  | step w => (w.stepIn mode, s)
  | staticTarget r resolver thread => s.exec ((r.inMode mode).staticTargetBy resolver thread)
  | resolveField r resolver thread => s.exec ((r.inMode mode).resolveFieldBy resolver thread)
  | resolveConstant l thread => s.exec ((l.inMode mode).resolve thread)
  | quicken method bci resolver thread => s.exec (LinkM.quickenBy mode method bci resolver thread)
  | rewrite => s.rewrite mode

private theorem answer_eq {x y : Except Fault α} (h : Agrees x y) (s : Session) (hreturns : Returns x) :
    (y, s) = (x, s) := by
  rw [h hreturns]

private theorem exec_eq {x y : LinkM α} (h : StepAgrees x y) (s : Session)
    (hreturns : Returns (s.exec x).1) : s.exec y = s.exec x := by
  rw [Session.exec, Session.exec, h s.link hreturns]

/-- An operation that returns in checked mode, with an answer or with an error, does the same in unchecked
mode, and leaves the code, the cache, the slots taken, the polls and the log the same. -/
theorem modes_agree (op : Operation α) (s : Session) (h : Returns (op.run .checked s).1) :
    op.run .unchecked s = op.run .checked s := by
  cases op with
  | askCursor c call => exact answer_eq (call.agrees (c.inMode .checked)) s h
  | askMemberRef r call => exact answer_eq (call.agrees (r.inMode .checked)) s h
  | askLoadConstant l call => exact answer_eq (call.agrees (l.inMode .checked)) s h
  | askTableSwitch t call => exact answer_eq (call.agrees ⟨t.cursor.inMode .checked⟩) s h
  | askLookupSwitch l call => exact answer_eq (call.agrees ⟨l.cursor.inMode .checked⟩) s h
  | askTypeRef r call => exact answer_eq (call.agrees ⟨r.cursor.inMode .checked, r.body⟩) s h
  | memberRef body bci =>
      exact answer_eq ((MemberRef.agrees_decode .checked body bci).image_image fun _ => rfl) s h
  | loadConstant body bci =>
      exact answer_eq ((LoadConstant.agrees_decode .checked body bci).image_image fun _ => rfl) s h
  | detachedLoad code bci =>
      exact answer_eq ((LoadConstant.agrees_detached .checked code bci).image_image fun _ => rfl) s h
  | tableSwitch c =>
      exact answer_eq ((TableSwitch.agrees_decode (c.inMode .checked)).image_image fun _ => rfl) s h
  | lookupSwitch c =>
      exact answer_eq ((LookupSwitch.agrees_decode (c.inMode .checked)).image_image fun _ => rfl) s h
  | typeRef body bci =>
      exact answer_eq ((TypeRef.agrees_decode .checked body bci).image_image fun _ => rfl) s h
  | decode body bci =>
      exact answer_eq ((Decoded.agrees_decode .checked body bci).image_image Decoded.unchecked_unchecked) s h
  | step w => exact answer_eq w.agrees_stepIn s h
  | staticTarget r resolver thread =>
      exact exec_eq ((r.inMode .checked).agrees_staticTarget resolver thread) s h
  | resolveField r resolver thread =>
      exact exec_eq ((r.inMode .checked).agrees_resolveField resolver thread) s h
  | resolveConstant l thread => exact exec_eq ((l.inMode .checked).agrees_resolve thread) s h
  | quicken method bci resolver thread =>
      exact exec_eq (LinkM.agrees_quicken .checked method bci resolver thread) s h
  | rewrite =>
      change s.rewrite .unchecked = s.rewrite .checked
      rw [Session.rewrite, Session.rewrite, rewriteIn_eq, rewriteIn_eq]

/-- Quickening the reading of the field in the sample class, and quickening it while no field is registered. -/
theorem modes_agree_sample :
    ((quicken sampleReader 1 sampleRegistry.resolver .detached).run .unchecked ⟨sampleClass, .empty⟩).1 =
        .ok (some .fastIgetfield) ∧
      ∃ e, ((quicken sampleReader 1 Registry.empty.resolver .detached).run .unchecked ⟨sampleClass, .empty⟩).1 =
        .error (.error e) := by
  have hanswer :
      ((quicken sampleReader 1 sampleRegistry.resolver .detached).run .checked ⟨sampleClass, .empty⟩).1 =
        .ok (some .fastIgetfield) := by
    decide +kernel
  have herror :
      ((quicken sampleReader 1 Registry.empty.resolver .detached).run .checked ⟨sampleClass, .empty⟩).1 =
        .error (.error (.of (.noSuchField (.ofString "C") (.ofString "f")))) := by
    decide +kernel
  constructor
  · rw [modes_agree _ _ (by rw [hanswer]; exact nofun), hanswer]
  · refine ⟨.of (.noSuchField (.ofString "C") (.ofString "f")), ?_⟩
    rw [modes_agree _ _ (by rw [herror]; rintro _ ⟨⟩; exact ⟨_, rfl⟩), herror]

end Operation

end MethodCode
