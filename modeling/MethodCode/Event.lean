import MethodCode.LoadedConstant
import MethodCode.Method

/-! Events: what decoding and linking report to an observer beside their answers. -/

namespace MethodCode

/-- How much attention an event asks for. -/
inductive Level where
  | warning
  | debug
  | trace
  deriving DecidableEq

/-- The level's name in logs. -/
def Level.label : Level → String
  | warning => "WARN"
  | debug => "DEBUG"
  | trace => "TRACE"

/-- How many sites of each kind a rewriting pass has changed. -/
structure RewriteSummary where
  memberRefs : Nat
  callSites : Nat
  constants : Nat
  switches : Nat
  deriving DecidableEq

/-- Something worth reporting. -/
inductive Event where
  /-- A walk met an instruction that the code does not hold in full. -/
  | truncated (method : Method) (bci : Nat)
  /-- A one-byte load stays as it is, because its cache index does not fit. -/
  | loadLeft (bci : Nat) (index : UInt32)
  | rewrote (summary : RewriteSummary) (entries : Nat)
  | cacheInstalled (entries : Nat)
  | constantResolved (thread : String) (index : UInt16) (constant : LoadedConstant)
  | methodLinked (thread : String) (method : Method) (index : UInt32)
  | interfaceMethodLinked (thread : String) (method : Method) (index : UInt32)
  | callSiteBootstrapped (thread : String) (name : Symbol) (index : UInt32)
  /-- An `aload_0` waits for the `getfield` after it. -/
  | quickeningDeferred (method : Method) (bci : Nat)
  | quickened (thread raw : String) (bci : Nat) (fast : String)
  deriving DecidableEq

namespace Event

/-- How much attention an event asks for. -/
def level : Event → Level
  | truncated _ _ | loadLeft _ _ => .warning
  | constantResolved _ _ _ | quickeningDeferred _ _ | quickened _ _ _ _ => .trace
  | _ => .debug

/-- An event as logs word it. -/
def message : Event → String
  | truncated method bci => s!"{method.text}: instruction at bci {bci} runs past the end of the code"
  | loadLeft bci index =>
    s!"ldc at bci {bci}: cache index {index} does not fit one byte, left unrewritten"
  | rewrote s entries =>
    s!"rewrote {s.memberRefs} member refs, {s.callSites} call sites, {s.constants} constants, " ++
      s!"{s.switches} switches ({entries} cache entries)"
  | cacheInstalled entries => s!"installed resolution cache with {entries} entries"
  | constantResolved thread index constant =>
    s!"{thread} resolved constant {index} to {constant.describe}"
  | methodLinked thread method index => s!"{thread} linked {method.text} at cache index {index}"
  | interfaceMethodLinked thread method index =>
    s!"{thread} linked interface method {method.text} at cache index {index}"
  | callSiteBootstrapped thread name index =>
    s!"{thread} bootstrapped call site {name.text} at cache index {index}"
  | quickeningDeferred method bci => s!"{method.text}: deferring aload_0 at bci {bci}"
  | quickened thread raw bci fast => s!"{thread} quickened {raw} at bci {bci} to {fast}"

end Event

end MethodCode
