import MethodCode.Cache
import MethodCode.Event
import MethodCode.MethodBody

/-! The state that resolution works on. Resolution reads the code and the constants of a class, publishes
outcomes to its cache, polls for a safepoint where it may have to wait, and reports what it did. What it
has done by the time it fails stays done. -/

namespace MethodCode

/-- The thread on whose behalf resolution runs. -/
structure Thread where
  name : String
  /-- Whether its safepoint polls are counted. -/
  isCounted : Bool

/-- A thread of a tool outside the interpreter, which never has to stop. -/
def Thread.detached : Thread := ⟨"detached", false⟩

/-- What resolution reads and changes. -/
structure LinkState where
  code : Code
  constants : Constants
  /-- The safepoint polls counted so far. -/
  polls : Nat
  /-- The events reported so far, oldest first. -/
  log : List Event

/-- A step of resolution. -/
abbrev LinkM := ExceptT Fault (StateM LinkState)

namespace LinkM

/-- Stops at the safepoint until the thread may go on. -/
def poll (thread : Thread) : LinkM Unit :=
  modify fun s => if thread.isCounted then { s with polls := s.polls + 1 } else s

/-- Reports an event. -/
def report (event : Event) : LinkM Unit :=
  modify fun s => { s with log := s.log ++ [event] }

/-- The constant pool. -/
def pool : LinkM Pool :=
  return (← get).constants.pool

/-- The body of a method whose code is at hand. -/
def bodyOf (method : Method) : LinkM MethodBody := do
  let s ← get
  return ⟨method, s.code, s.constants⟩

/-- Publishes an outcome to a cache slot; the answer is what the slot holds from then on. Before the class
is linked there is no slot, and the outcome stands. -/
def publish (index : UInt32) (outcome : Resolved) : LinkM Resolved := do
  match (← get).constants.cache with
  | none => return outcome
  | some cache =>
    let (winner, cache) ← cache.publish index outcome
    modify fun s => { s with constants.cache := some cache }
    return winner

/-- Installs the resolution cache, which happens once. -/
def install (cache : Cache) : LinkM Unit := do
  if (← get).constants.cache.isSome then throw (.of .cacheInstalled)
  modify fun s => { s with constants.cache := some cache }
  report (.cacheInstalled cache.size)

/-- A step whose errors are seen from one context further out. -/
def within {α : Type} (context : Context) (step : LinkM α) : LinkM α :=
  tryCatch step fun fault => throw (fault.within context)

end LinkM

end MethodCode
