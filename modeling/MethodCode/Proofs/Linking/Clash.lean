import MethodCode.Linking.Quicken
import MethodCode.Proofs.Execution.Breaches

/-! Clashes: a slot of the cache is found to hold something of another kind than the caller asked for. Only the
steps that take an outcome out of a slot can meet one. Main statement: what is read on the way to a slot, from
the code, the pool, the registry and the cache, fails without a clash. -/

namespace MethodCode

/-- Whether a slot was found to hold something of another kind. -/
def Cause.isClash : Cause → Bool
  | wrongEntryKind _ _ _ => true
  | _ => false

/-- The failure is no clash, whatever it is. -/
def Fault.NoClash (f : Fault) : Prop := ∀ e, f = .error e → e.cause.isClash = false

/-- The error is no clash. -/
def Error.NoClash (e : Error) : Prop := e.cause.isClash = false

open Fault (NoClash)

theorem Fault.IsBreach.noClash {f : Fault} (h : f.IsBreach) : f.NoClash := fun e he => absurd he (h e)

theorem Fault.noClash_of {cause : Cause} (h : cause.isClash = false) : (Fault.of cause).NoClash := by
  rintro _ ⟨⟩
  exact h

theorem Fault.NoClash.within {f : Fault} (h : f.NoClash) (context : Context) : (f.within context).NoClash := by
  cases f with
  | error e =>
      rintro _ ⟨⟩
      exact h e rfl
  | violation | outOfBounds => exact nofun

theorem Fails.of_breach {α : Type} {x : Except Fault α} (h : Fails Fault.IsBreach x) : Fails NoClash x :=
  h.mono fun _ hf => hf.noClash

theorem Fails.of_error {α : Type} {x : Except Error α} (h : Fails Error.NoClash x) :
    Fails NoClash (x.mapError .error) := by
  cases x with
  | ok a => exact .pure a
  | error e =>
      rintro _ ⟨⟩ _ ⟨⟩
      exact h e rfl

theorem Fails.inContext {α : Type} {x : Except Error α} (h : Fails Error.NoClash x) (context : Context) :
    Fails Error.NoClash (inContext context x) := by
  cases x with
  | ok a => exact .pure a
  | error e =>
      rintro _ ⟨⟩
      exact h e rfl

theorem fails_failWith {α : Type} {cause : Cause} (h : cause.isClash = false) :
    Fails Error.NoClash (failWith cause : Except Error α) := by
  rintro _ ⟨⟩
  exact h

/-! ### Lookups -/

namespace Pool

variable (pool : Pool) (index : UInt16)

theorem fails_entryAt : Fails Error.NoClash (pool.entryAt index) := by
  unfold entryAt
  split
  · exact fails_failWith rfl
  · exact fails_failWith rfl
  · exact .pure _

theorem fails_utf8At : Fails Error.NoClash (pool.utf8At index) := by
  refine .bind (pool.fails_entryAt index) fun e => ?_
  split
  · exact .pure _
  · exact fails_failWith rfl

theorem fails_nameAndTypeOf : Fails Error.NoClash (pool.nameAndTypeOf index) := by
  refine .bind (pool.fails_entryAt index) fun e => ?_
  cases e with
  | fieldRef | methodRef | interfaceMethodRef | invokeDynamic =>
      refine .bind (.pure _) fun pair => .bind (pool.fails_entryAt pair) fun e => ?_
      split
      · exact .pure _
      · exact fails_failWith rfl
  | _ => exact fails_failWith rfl

theorem fails_memberNameAt : Fails Error.NoClash (pool.memberNameAt index) :=
  .bind (pool.fails_nameAndTypeOf index) fun _ => pool.fails_utf8At _

theorem fails_memberSignatureAt : Fails Error.NoClash (pool.memberSignatureAt index) :=
  .bind (pool.fails_nameAndTypeOf index) fun _ => pool.fails_utf8At _

theorem fails_classNameAt : Fails Error.NoClash (pool.classNameAt index) := by
  refine .bind (pool.fails_entryAt index) fun e => ?_
  split
  · exact pool.fails_utf8At _
  · exact fails_failWith rfl

theorem fails_holderNameAt : Fails Error.NoClash (pool.holderNameAt index) := by
  refine .bind (pool.fails_entryAt index) fun e => ?_
  split
  · exact pool.fails_classNameAt _
  · exact pool.fails_classNameAt _
  · exact pool.fails_classNameAt _
  · exact fails_failWith rfl

end Pool

theorem Descriptor.fails_resultType (descriptor : String) : Fails Error.NoClash (resultType descriptor) := by
  unfold resultType
  dsimp only
  split
  · exact .pure _
  · exact fails_failWith rfl

theorem Cache.fails_poolIndexAt (c : Cache) (i : UInt32) : Fails Error.NoClash (c.poolIndexAt i) := by
  have hslot : Fails Error.NoClash (c.slotAt i) := by
    unfold slotAt
    split
    · exact .pure _
    · exact fails_failWith rfl
  exact .bind hslot fun _ => .pure _

theorem Registry.fails_lookupMethod (r : Registry) (pool : Pool) (index : UInt16) :
    Fails Error.NoClash (r.lookupMethod pool index) := by
  refine .bind (pool.fails_holderNameAt index) fun holder => .bind (pool.fails_memberNameAt index) fun name =>
    .bind (pool.fails_memberSignatureAt index) fun signature => ?_
  split
  · exact .pure _
  · exact fails_failWith rfl

/-! ### Instructions -/

theorem MemberRef.fails_poolIndex (r : MemberRef) : Fails NoClash r.poolIndex := by
  unfold poolIndex
  split
  · exact .throw (Fault.noClash_of rfl)
  · rename_i cache _
    exact .bind (.of_breach r.fails_cacheIndex) fun i => .of_error ((cache.fails_poolIndexAt i).inContext _)

theorem MemberRef.fails_symbolicRef (r : MemberRef) : Fails NoClash r.symbolicRef :=
  .bind r.fails_poolIndex fun _ => .bind (.of_breach r.fails_cacheIndex) fun _ => .pure _

theorem LoadConstant.fails_boundBody (l : LoadConstant) : Fails NoClash l.boundBody := by
  unfold boundBody
  split
  · exact .pure _
  · exact .throw (Fault.noClash_of rfl)

end MethodCode
