import MethodCode.ConstantTag
import MethodCode.Opcode
import MethodCode.Resolved

/-! Failures of decoding and linking. An error is a cause, which fixes its kind and its message, and the
contexts it passed through on the way out, innermost first. -/

namespace MethodCode

/-- The classes of failure, by which a caller picks the error it raises. -/
inductive ErrorKind where
  /-- An index out of range, or an entry with an unexpected tag. -/
  | lookup
  /-- An operation that needs a method's constants, asked of bare code. -/
  | unbound
  | linkage
  | incompatibleClassChange
  /-- A name or descriptor that cannot be read. -/
  | malformed
  deriving DecidableEq

namespace ErrorKind

/-- Every kind, in the order of declaration. -/
def all : List ErrorKind :=
  [lookup, unbound, linkage, incompatibleClassChange, malformed]

/-- The kind's name in listings. -/
def label : ErrorKind → String
  | lookup => "Lookup"
  | unbound => "Unbound"
  | linkage => "Linkage"
  | incompatibleClassChange => "IncompatibleClassChange"
  | malformed => "Malformed"

/-- The kind with a given label. -/
def ofLabel? (label : String) : Option ErrorKind :=
  all.find? (·.label == label)

end ErrorKind

/-- What went wrong. -/
inductive Cause where
  | unreadableSymbol
  | malformedDescriptor (descriptor : String)
  | malformedMethodDescriptor (descriptor : String)
  | wideFormatStart (format : String)
  | formatStart (format : String)
  | badFormatLetter (letter : UInt8) (format : String)
  | mixedByteOrders (format : String)
  | badFieldSize (size : Nat) (format : String)
  | mixedFieldSizes (format : String)
  | duplicateOpcode (op : Opcode)
  | noEntry (index : UInt16)
  | notUtf8 (index : UInt16) (found : ConstantTag)
  | notMember (index : UInt16) (found : ConstantTag)
  | notNameAndType (index : UInt16) (found : ConstantTag)
  | noHolder (found : ConstantTag) (index : UInt16)
  | notClass (index : UInt16) (found : ConstantTag)
  | notLoadable (index : UInt16) (found : ConstantTag)
  | cacheInstalled
  | noCacheForConstant (index : UInt32)
  | cacheIndexOutOfRange (index : UInt32) (size : Nat)
  | wrongEntryKind (index : UInt32) (held : Resolved) (wanted : ResolvedKind)
  | noCache (method : Method)
  | notInvoke (name : String) (bci : Nat)
  | notFieldAccess (name : String) (bci : Nat)
  | detachedLoad (bci : Nat)
  | notLoadableAt (found : ConstantTag) (bci : Nat)
  | unexpectedTag (found : ConstantTag) (index : UInt16) (bci : Nat)
  | cacheIndexTooLarge (index : UInt32) (bci : Nat)
  | truncated (bci : Nat)
  | staticField (holder name : Symbol)
  | fieldWithoutValue (name : Symbol)
  | foundInterface (holder : Symbol)
  | foundClass (holder : Symbol)
  | noSuchMethod (holder name signature : Symbol)
  | noSuchField (holder name : Symbol)
  | noBootstrap (name : Symbol)
  /-- A failure that a caller of the library words itself. -/
  | given (kind : ErrorKind) (text : String)
  deriving DecidableEq

namespace Cause

/-- The class of failure a cause belongs to. -/
def kind : Cause → ErrorKind
  | unreadableSymbol | malformedDescriptor _ | malformedMethodDescriptor _ => .malformed
  | detachedLoad _ => .unbound
  | notLoadable _ _ | fieldWithoutValue _ | noSuchMethod _ _ _ | noSuchField _ _ | noBootstrap _ =>
    .linkage
  | staticField _ _ | foundInterface _ | foundClass _ => .incompatibleClassChange
  | given kind _ => kind
  | _ => .lookup

/-- The message of a cause. -/
def message : Cause → String
  | unreadableSymbol => "invalid modified UTF-8 in symbol"
  | malformedDescriptor d => s!"malformed descriptor {d}"
  | malformedMethodDescriptor d => s!"malformed method descriptor {d}"
  | wideFormatStart f => s!"wide format must start with 'wb': {f}"
  | formatStart f => s!"format must start with 'b' or 'w': {f}"
  | badFormatLetter letter f => s!"bad char '{Char.ofNat letter.toNat}' in format {f}"
  | mixedByteOrders f => s!"mixed byte orders in format {f}"
  | badFieldSize size f => s!"bad repeat count {size} in format {f}"
  | mixedFieldSizes f => s!"mixed field sizes in format {f}"
  | duplicateOpcode op => s!"opcode {op.text} defined twice"
  | noEntry index => s!"invalid constant pool index {index}"
  | notUtf8 index found => s!"expected utf8 at {index}, found {found.label}"
  | notMember index found => s!"expected a member reference at {index}, found {found.label}"
  | notNameAndType index found => s!"expected name and type at {index}, found {found.label}"
  | noHolder found index => s!"no holder class for {found.label} at {index}"
  | notClass index found => s!"expected class at {index}, found {found.label}"
  | notLoadable index found => s!"constant at {index} is not loadable ({found.label})"
  | cacheInstalled => "resolution cache already installed"
  | noCacheForConstant index => s!"no resolution cache for cached constant {index}"
  | cacheIndexOutOfRange index size => s!"cache index {index} out of range ({size} entries)"
  | wrongEntryKind index held wanted =>
    s!"cache entry {index} holds {held.describe}, not {wanted.text}"
  | noCache method => s!"{method.text} has no resolution cache"
  | notInvoke name bci => s!"{name} at bci {bci} is not an invoke"
  | notFieldAccess name bci => s!"{name} at bci {bci} is not a field access"
  | detachedLoad bci => s!"load constant at bci {bci} has no method"
  | notLoadableAt found bci => s!"{found.label} constant at bci {bci} is not loadable"
  | unexpectedTag found index bci =>
    s!"unexpected {found.label} at pool index {index} for bci {bci}"
  | cacheIndexTooLarge index bci => s!"cache index {index} too large for bci {bci}"
  | truncated bci => s!"instruction at bci {bci} runs past the end of the code"
  | staticField holder name =>
    s!"IncompatibleClassChangeError: expected non-static field {holder.text}.{name.text}"
  | fieldWithoutValue name => s!"field {name.text} has no value type"
  | foundInterface holder =>
    s!"IncompatibleClassChangeError: found interface {holder.text}, but class was expected"
  | foundClass holder =>
    s!"IncompatibleClassChangeError: found class {holder.text}, but interface was expected"
  | noSuchMethod holder name signature =>
    s!"NoSuchMethodError: {holder.text}.{name.text}{signature.text}"
  | noSuchField holder name => s!"NoSuchFieldError: {holder.text}.{name.text}"
  | noBootstrap name => s!"BootstrapMethodError: no bootstrap for call site {name.text}"
  | given _ text => text

end Cause

/-- Where an error was met. -/
inductive Context where
  | opcode (name : String)
  | wideOpcode (name : String)
  | site (method : Method) (bci : Nat)
  | bci (bci : Nat)
  | given (text : String)
  deriving DecidableEq

/-- A context as messages name it. -/
def Context.text : Context → String
  | opcode name => s!"opcode {name}"
  | wideOpcode name => s!"wide opcode {name}"
  | site method n => s!"{method.text} at bci {n}"
  | bci n => s!"bci {n}"
  | given text => text

/-- A failure: its cause and the contexts it passed through. -/
structure Error where
  cause : Cause
  contexts : List Context
  deriving DecidableEq

namespace Error

/-- An error that has passed through no context yet. -/
def of (cause : Cause) : Error := ⟨cause, []⟩

/-- The error seen from one context further out. -/
def within (context : Context) (e : Error) : Error :=
  ⟨e.cause, e.contexts ++ [context]⟩

/-- The class of failure an error belongs to. -/
def kind (e : Error) : ErrorKind := e.cause.kind

/-- The message of an error without its contexts. -/
def message (e : Error) : String := e.cause.message

/-- The full text of an error: its message for the innermost context, of each further one. -/
def text (e : Error) : String :=
  match e.contexts with
  | [] => e.message
  | inner :: outer => e.message ++ " for " ++ inner.text ++ String.join (outer.map (" of " ++ ·.text))

end Error

/-- A call whose errors are seen from one context further out. -/
def inContext {α : Type} (context : Context) (call : Except Error α) : Except Error α :=
  call.mapError (·.within context)

/-- Fails with a cause and no context. -/
def failWith {α : Type} (cause : Cause) : Except Error α :=
  .error (.of cause)

end MethodCode
