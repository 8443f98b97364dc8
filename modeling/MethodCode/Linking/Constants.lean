import MethodCode.Descriptor.Category
import MethodCode.Instruction.LoadConstant
import MethodCode.Linking.State

/-! Resolution of constants. Numbers and strings stand in the pool; a class, a method type and a method
handle are made on first use, which may have to wait. A constant behind a cache slot is made once. -/

namespace MethodCode

namespace LinkM

/-- Makes the constant of a pool entry. -/
def constantAt (index : UInt16) (thread : Thread) : LinkM LoadedConstant := do
  let pool ← pool
  let constant ← match ← pool.entryAt index with
    | .integer v => pure (.int v)
    | .float bits => pure (.float bits)
    | .long v => pure (.long v)
    | .double bits => pure (.double bits)
    | .string text => pure (.string (← pool.utf8At text).text)
    | .classRef name =>
      poll thread
      pure (.classRef (← pool.utf8At name))
    | .methodType descriptor =>
      let descriptor ← pool.utf8At descriptor
      let _ ← Descriptor.resultType descriptor.text
      poll thread
      pure (.methodType descriptor)
    | .methodHandle kind reference =>
      poll thread
      pure (.methodHandle kind (← pool.memberNameAt reference))
    | other => throw (.of (.notLoadable index other.tag))
  report (.constantResolved thread.name index constant)
  return constant

/-- The constant behind a cache slot, made and published if the slot does not hold it yet. -/
def cachedConstantAt (index : UInt32) (thread : Thread) : LinkM LoadedConstant := do
  match (← get).constants.cache with
  | none => throw (.of (.noCacheForConstant index))
  | some cache =>
    if let some (.constant c) := cache.resolvedAt index then return c
    let c ← constantAt (← cache.poolIndexAt index) thread
    match ← publish index (.constant c) with
    | .constant c => return c
    | other => throw (.of (.wrongEntryKind index other .constant))

end LinkM

/-- The constant that a load pushes. -/
def LoadConstant.resolve (l : LoadConstant) (thread : Thread) : LinkM LoadedConstant := do
  let body ← l.boundBody
  let index ← l.rawIndex
  let step := if ← l.hasCacheIndex then LinkM.cachedConstantAt index.toUInt32 thread
    else LinkM.constantAt index thread
  step.within (.site body.method l.cursor.bci)

end MethodCode
