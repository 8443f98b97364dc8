import MethodCode.Pool

/-! Building constant pools. Entries are appended one by one, after those they refer to; a text and a
class name are entered once, however often they are asked for. An index has sixteen bits, so past `65536`
slots the indices handed out start again from zero. -/

namespace MethodCode

/-- What can be asked of a builder: a constant or a reference by its parts. -/
inductive PoolItem where
  | utf8 (text : String)
  | classRef (name : String)
  | nameAndType (name descriptor : String)
  | fieldRef (holder name descriptor : String)
  | methodRef (holder name descriptor : String)
  | interfaceMethodRef (holder name descriptor : String)
  | invokeDynamic (bootstrap : UInt16) (name descriptor : String)
  | integer (value : Int32)
  | float (bits : UInt32)
  | long (value : Int64)
  | double (bits : UInt64)
  | string (text : String)
  | methodType (descriptor : String)
  | methodHandle (kind : UInt8) (reference : UInt16)
  deriving DecidableEq

/-- A pool under construction, with the indices of the texts and class names it holds. -/
structure PoolBuilder where
  entries : Array PoolEntry
  texts : List (String × UInt16)
  classes : List (String × UInt16)

namespace PoolBuilder

/-- A builder that has only slot zero. -/
def empty : PoolBuilder := ⟨#[.invalid], [], []⟩

/-- Appends an entry; the answer is its index. -/
def push (entry : PoolEntry) : StateM PoolBuilder UInt16 :=
  fun b => (.ofNat b.entries.size, { b with entries := b.entries.push entry })

/-- The index of a text, entered if it is new. -/
def text (s : String) : StateM PoolBuilder UInt16 := do
  match (← get).texts.lookup s with
  | some index => return index
  | none =>
    let index ← push (.utf8 (.ofString s))
    modify fun b => { b with texts := (s, index) :: b.texts }
    return index

/-- The index of a class, entered if it is new. -/
def classNamed (name : String) : StateM PoolBuilder UInt16 := do
  match (← get).classes.lookup name with
  | some index => return index
  | none =>
    let index ← push (.classRef (← text name))
    modify fun b => { b with classes := (name, index) :: b.classes }
    return index

/-- Appends a name with its descriptor. -/
def nameAndType (name descriptor : String) : StateM PoolBuilder UInt16 := do
  let n ← text name
  let d ← text descriptor
  push (.nameAndType n d)

/-- Appends a reference to a member of a class. -/
def member (make : UInt16 → UInt16 → PoolEntry) (holder name descriptor : String) :
    StateM PoolBuilder UInt16 := do
  let h ← classNamed holder
  let nt ← nameAndType name descriptor
  push (make h nt)

/-- Appends an entry that takes two slots, of which the second holds nothing. -/
def pushTwo (entry : PoolEntry) : StateM PoolBuilder UInt16 := do
  let index ← push entry
  let _ ← push .invalid
  return index

/-- Enters an item; the answer is its index. -/
def add : PoolItem → StateM PoolBuilder UInt16
  | .utf8 s => text s
  | .classRef name => classNamed name
  | .nameAndType name descriptor => nameAndType name descriptor
  | .fieldRef holder name descriptor => member .fieldRef holder name descriptor
  | .methodRef holder name descriptor => member .methodRef holder name descriptor
  | .interfaceMethodRef holder name descriptor => member .interfaceMethodRef holder name descriptor
  | .invokeDynamic bootstrap name descriptor => do
    push (.invokeDynamic bootstrap (← nameAndType name descriptor))
  | .integer v => push (.integer v)
  | .float bits => push (.float bits)
  | .long v => pushTwo (.long v)
  | .double bits => pushTwo (.double bits)
  | .string s => do push (.string (← text s))
  | .methodType descriptor => do push (.methodType (← text descriptor))
  | .methodHandle kind reference => push (.methodHandle kind reference)

/-- The pool as it stands. -/
def build (b : PoolBuilder) : Pool := ⟨b.entries⟩

end PoolBuilder

end MethodCode
