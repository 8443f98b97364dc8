import MethodCode.Violation

/-! How a call fails to answer: with an error, in a violation, or by reaching past the end of the code.
In checked mode a call tests the claims of its caller first; in unchecked mode it takes them as true. -/

namespace MethodCode

/-- Why a call did not answer. -/
inductive Fault where
  | error (e : Error)
  | violation (v : Violation)
  | outOfBounds
  deriving DecidableEq

namespace Fault

/-- A fault of the given cause, in no context yet. -/
def of (cause : Cause) : Fault := error (.of cause)

/-- The fault seen from one context further out; only errors carry contexts. -/
def within (context : Context) : Fault → Fault
  | error e => error (e.within context)
  | f => f

end Fault

/-- An error is one kind of fault. -/
instance : MonadLift (Except Error) (Except Fault) where
  monadLift x := x.mapError .error

/-- Whether the claims that callers make about instructions are tested. -/
inductive Mode where
  | checked
  | unchecked
  deriving DecidableEq

/-- Runs a test in checked mode only. -/
def Mode.check (mode : Mode) (test : Except Fault Unit) : Except Fault Unit :=
  match mode with
  | checked => test
  | unchecked => .ok ()

/-- Ends in a violation unless a condition holds. -/
def ensure (condition : Bool) (otherwise : Violation) : Except Fault Unit :=
  if condition then .ok () else .error (.violation otherwise)

end MethodCode
