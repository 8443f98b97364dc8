import MethodCode.Instruction.MemberRef
import MethodCode.Linking.State

/-! Registries: the methods, fields, interfaces and call site targets that references can be linked to. A
reference is linked to the latest registration under its names, unless its cache slot holds an earlier
outcome already. -/

namespace MethodCode

/-- What references can be linked to, latest registrations first. -/
structure Registry where
  methods : List Method
  fields : List Field
  interfaces : List Symbol
  /-- The targets of dynamic call sites, by the name of the site. -/
  bootstraps : List (Symbol × Method)

namespace Registry

/-- Nothing is registered. -/
def empty : Registry := ⟨[], [], [], []⟩

/-- Registers a method under its holder, name and signature. -/
def addMethod (r : Registry) (m : Method) : Registry :=
  { r with methods := m :: r.methods }

/-- Registers a field under its holder and name. -/
def addField (r : Registry) (f : Field) : Registry :=
  { r with fields := f :: r.fields }

/-- Registers the name of an interface. -/
def addInterface (r : Registry) (name : Symbol) : Registry :=
  { r with interfaces := name :: r.interfaces }

/-- Registers the target of the call sites of a name. -/
def addBootstrap (r : Registry) (name : Symbol) (target : Method) : Registry :=
  { r with bootstraps := (name, target) :: r.bootstraps }

/-- The method registered under a holder, a name and a signature. -/
def method? (r : Registry) (holder name signature : Symbol) : Option Method :=
  r.methods.find? fun m => m.holder = holder ∧ m.name = name ∧ m.signature = signature

/-- The field registered under a holder and a name. -/
def field? (r : Registry) (holder name : Symbol) : Option Field :=
  r.fields.find? fun f => f.holder = holder ∧ f.name = name

/-- The target registered for the call sites of a name. -/
def bootstrap? (r : Registry) (name : Symbol) : Option Method :=
  r.bootstraps.lookup name

/-- The method that a reference names. -/
def lookupMethod (r : Registry) (pool : Pool) (index : UInt16) : Except Error Method := do
  let holder ← pool.holderNameAt index
  let name ← pool.memberNameAt index
  let signature ← pool.memberSignatureAt index
  match r.method? holder name signature with
  | some m => return m
  | none => failWith (.noSuchMethod holder name signature)

/-- Publishes a method; the answer is the method that its slot holds from then on. -/
def publishMethod (index : UInt32) (m : Method) : LinkM Method := do
  match ← LinkM.publish index (.method m) with
  | .method winner => return winner
  | other => throw (.of (.wrongEntryKind index other .method))

/-- Links a reference to a method of a class. -/
def resolveMethod (r : Registry) (site : SymbolicRef) (thread : Thread) : LinkM Method := do
  LinkM.poll thread
  let pool ← LinkM.pool
  let holder ← pool.holderNameAt site.poolIndex
  if holder ∈ r.interfaces then throw (.of (.foundInterface holder))
  let m ← r.lookupMethod pool site.poolIndex
  LinkM.report (.methodLinked thread.name m site.cacheIndex)
  publishMethod site.cacheIndex m

/-- Links a reference to a method of an interface. -/
def resolveInterfaceMethod (r : Registry) (site : SymbolicRef) (thread : Thread) : LinkM Method := do
  LinkM.poll thread
  let pool ← LinkM.pool
  let holder ← pool.holderNameAt site.poolIndex
  if holder ∉ r.interfaces then throw (.of (.foundClass holder))
  let m ← r.lookupMethod pool site.poolIndex
  LinkM.report (.interfaceMethodLinked thread.name m site.cacheIndex)
  publishMethod site.cacheIndex m

/-- Links a dynamic call site to its target. -/
def resolveCallSite (r : Registry) (site : SymbolicRef) (thread : Thread) : LinkM Method := do
  LinkM.poll thread
  let name ← (← LinkM.pool).memberNameAt site.poolIndex
  match r.bootstrap? name with
  | none => throw (.of (.noBootstrap name))
  | some target =>
    LinkM.report (.callSiteBootstrapped thread.name name site.cacheIndex)
    match ← LinkM.publish site.cacheIndex (.callSite target) with
    | .callSite winner => return winner
    | other => throw (.of (.wrongEntryKind site.cacheIndex other .callSite))

/-- Links a reference to a field. -/
def resolveField (r : Registry) (site : SymbolicRef) (thread : Thread) : LinkM Field := do
  LinkM.poll thread
  let pool ← LinkM.pool
  let holder ← pool.holderNameAt site.poolIndex
  let name ← pool.memberNameAt site.poolIndex
  match r.field? holder name with
  | none => throw (.of (.noSuchField holder name))
  | some f =>
    match ← LinkM.publish site.cacheIndex (.field f) with
    | .field winner => return winner
    | other => throw (.of (.wrongEntryKind site.cacheIndex other .field))

end Registry

namespace MemberRef

/-- The method that an invoke is linked to. -/
def staticTarget (r : MemberRef) (registry : Registry) (thread : Thread) : LinkM Method := do
  let site ← r.symbolicRef
  match ← r.invokeKind with
  | some .dynamic => registry.resolveCallSite site thread
  | some .interface => registry.resolveInterfaceMethod site thread
  | some _ => registry.resolveMethod site thread
  | none => throw (.of (.notInvoke (← r.cursor.name) r.cursor.bci))

/-- The field that a field access is linked to. -/
def resolveField (r : MemberRef) (registry : Registry) (thread : Thread) : LinkM Field := do
  if (← r.fieldAccess).isNone then throw (.of (.notFieldAccess (← r.cursor.name) r.cursor.bci))
  registry.resolveField (← r.symbolicRef) thread

end MemberRef

end MethodCode
