import MethodCode.Cursor.Length
import MethodCode.Event
import MethodCode.FormatTable.Standard
import MethodCode.Linking.Allocator
import MethodCode.Pool

/-! Rewriting code for linking. Member references change from pool indices to cache indices, loads of
method handles and method types move behind the cache, and lookup switches take the form that suits their
size. No instruction changes its length. A pass that fails leaves code and slots as they were. -/

namespace MethodCode

/-- What a rewriting pass works on: nothing outside sees it before the pass succeeds. -/
structure Rewriting where
  code : Code
  allocator : Allocator
  summary : RewriteSummary
  events : List Event

/-- A step of a rewriting pass. -/
abbrev RewriteM := ExceptT Fault (StateM Rewriting)

namespace Rewriting

/-- A lookup switch with fewer pairs than this is searched from its first pair on. -/
def linearSwitchLimit : Nat := 5

/-- The slot that references to a pool index share. -/
def sharedSlot (poolIndex : UInt16) : RewriteM UInt32 := do
  let (index, allocator) := (← get).allocator.shared poolIndex
  modify fun s => { s with allocator }
  return index

/-- A slot for one dynamic call site. -/
def callSiteSlot (poolIndex : UInt16) : RewriteM UInt32 := do
  let (index, allocator) := (← get).allocator.callSite poolIndex
  modify fun s => { s with allocator }
  return index

/-- Writes bytes into the code. -/
def write (pos : Nat) (bytes : List UInt8) : RewriteM Unit := do
  let code ← (← get).code.setBytes pos bytes
  modify fun s => { s with code }

/-- Counts a change. -/
def count (change : RewriteSummary → RewriteSummary) : RewriteM Unit :=
  modify fun s => { s with summary := change s.summary }

/-- The pool entry that a site names must have one of the tags given. -/
def expectTag (pool : Pool) (index : UInt16) (bci : Nat) (accepted : List ConstantTag) :
    Except Error Unit := do
  let tag ← inContext (.bci bci) (pool.tagAt index)
  if tag ∈ accepted then return else failWith (.unexpectedTag tag index bci)

/-- A cache index in two bytes, if it fits. -/
def narrow (index : UInt32) (bci : Nat) : Except Error UInt16 :=
  if index.toNat < 65536 then .ok index.toUInt16 else failWith (.cacheIndexTooLarge index bci)

/-- Gives a field access or an invoke the shared slot of its member. -/
def rewriteMember (pool : Pool) (bci : Nat) (accepted : List ConstantTag) : RewriteM Unit := do
  let index ← (← get).code.u16At .java (bci + 1)
  expectTag pool index bci accepted
  let slot ← narrow (← sharedSlot index) bci
  write (bci + 1) (ByteOrder.native.split16 slot)
  count fun s => { s with memberRefs := s.memberRefs + 1 }

/-- Gives a dynamic call site a slot of its own. -/
def rewriteCallSite (pool : Pool) (bci : Nat) : RewriteM Unit := do
  let index ← (← get).code.u16At .java (bci + 1)
  expectTag pool index bci [.invokeDynamic]
  let slot ← callSiteSlot index
  write (bci + 1) (ByteOrder.native.split32 slot)
  count fun s => { s with callSites := s.callSites + 1 }

/-- Moves a one-byte load behind the cache, if its constant belongs there and the slot fits one byte. -/
def rewriteLoad (pool : Pool) (bci : Nat) : RewriteM Unit := do
  let index := (← (← get).code.byteAt (bci + 1)).toUInt16
  if (← pool.tagAt index).isExecutableReference then
    let slot ← sharedSlot index
    if slot.toNat < 256 then
      write (bci + 1) [slot.toUInt8]
      write bci [Opcode.fastAldc.byte]
      count fun s => { s with constants := s.constants + 1 }
    else
      modify fun s => { s with events := s.events ++ [.loadLeft bci slot] }

/-- Moves a two-byte load behind the cache, if its constant belongs there. -/
def rewriteWideLoad (pool : Pool) (bci : Nat) : RewriteM Unit := do
  let index ← (← get).code.u16At .java (bci + 1)
  if (← pool.tagAt index).isExecutableReference then
    let slot ← narrow (← sharedSlot index) bci
    write (bci + 1) (ByteOrder.native.split16 slot)
    write bci [Opcode.fastAldcW.byte]
    count fun s => { s with constants := s.constants + 1 }

/-- Gives a lookup switch the form that suits its number of pairs. -/
def rewriteSwitch (cursor : Cursor) : RewriteM Unit := do
  let pairs := (← cursor.switchWord 1).toInt.toNat
  let form := if pairs < linearSwitchLimit then Opcode.fastLinearswitch else Opcode.fastBinaryswitch
  write cursor.bci [form.byte]
  count fun s => { s with switches := s.switches + 1 }

/-- Rewrites the instruction under a cursor. Fast forms have been rewritten already. -/
def rewriteSite (pool : Pool) (cursor : Cursor) : RewriteM Unit := do
  let raw ← cursor.rawOpcode
  let family ← cursor.family
  if raw.isFast then return
  match family with
  | .fieldAccess => rewriteMember pool cursor.bci [.fieldRef]
  | .invoke => rewriteMember pool cursor.bci [.methodRef, .interfaceMethodRef]
  | .dynamicInvoke => rewriteCallSite pool cursor.bci
  | .loadConstant =>
    if raw = .ldc then rewriteLoad pool cursor.bci
    else if raw = .ldcW then rewriteWideLoad pool cursor.bci
    else return
  | .lookupSwitch => rewriteSwitch cursor
  | _ => return

/-- Rewrites the instructions from a position up to a limit. Every instruction of the standard set takes
up room, so the pass ends. -/
def rewriteFrom (pool : Pool) (limit bci : Nat) : RewriteM Unit := do
  if _h : bci < limit then
    let cursor : Cursor := ⟨.checked, .standard, (← get).code, none, bci⟩
    match ← cursor.checkedLength with
    | none => throw (.of (.truncated bci))
    | some 0 => return
    | some (n + 1) =>
      rewriteSite pool cursor
      rewriteFrom pool limit (bci + n + 1)
termination_by limit - bci

end Rewriting

/-- What a rewriting pass leaves behind. -/
structure Rewritten where
  outcome : Except Fault RewriteSummary
  code : Code
  allocator : Allocator
  events : List Event

/-- Rewrites unlinked code, taking cache slots as it goes. -/
def rewrite (code : Code) (pool : Pool) (allocator : Allocator) : Rewritten :=
  match (Rewriting.rewriteFrom pool code.size 0).run ⟨code, allocator, ⟨0, 0, 0, 0⟩, []⟩ with
  | (.ok (), s) =>
    ⟨.ok s.summary, s.code, s.allocator, s.events ++ [.rewrote s.summary s.allocator.size]⟩
  | (.error fault, s) => ⟨.error fault, code, allocator, s.events⟩

end MethodCode
