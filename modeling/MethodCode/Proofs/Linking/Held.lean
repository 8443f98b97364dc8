import MethodCode.Proofs.Linking.LinkedClass
import MethodCode.Proofs.Linking.MadeConstants
import MethodCode.Proofs.Linking.QuickenStep

/-! What slots hold. A call publishes what was looked up for the pool entry of a slot to this slot, and nothing else.
So whatever is true of everything that can be looked up is true of everything in the cache, and it is shown here once
for all such properties. Main statements: a property of what is looked up is one of what slots hold, after any number
of calls; and fields are looked up by the names of a pool entry, so the field in a slot has the names of its entry,
whichever registries have been asked. -/

namespace MethodCode

/-- The class is linked, and what a slot holds suits the pool entry of the slot. -/
def Constants.Holds (P : Pool → UInt16 → Resolved → Prop) (k : Constants) : Prop :=
  ∃ cache, k.cache = some cache ∧ ∀ i p e, cache.poolIndexAt i = .ok p → cache.resolvedAt i = some e → P k.pool p e

/-- A property of outcomes and pool entries is about what is looked up for the entries: fields by their names, and
constants. -/
structure SuitsLookups (P : Pool → UInt16 → Resolved → Prop) : Prop where
  method : ∀ pool p m, P pool p (.method m)
  callSite : ∀ pool p m, P pool p (.callSite m)
  field : ∀ (registry : Registry) pool p f, registry.lookupField pool p = .ok f → P pool p (.field f)
  constant : ∀ pool p c, pool.loadedConstantAt p = .ok c → P pool p (.constant c)

/-- A step from one state to the other brings in nothing that does not suit its pool entry. -/
def LinkState.KeepsHeld (P : Pool → UInt16 → Resolved → Prop) (s t : LinkState) : Prop :=
  s.constants.Holds P → t.constants.Holds P

open LinkState (KeepsHeld)

variable {P : Pool → UInt16 → Resolved → Prop} {s : LinkState} {k : Constants} {cache : Cache} {i : UInt32}
  {p : UInt16} {outcome : Resolved} {registry : Registry}

instance : IsPreorder LinkState (KeepsHeld P) where
  refl _ h := h
  trans _ _ _ h h' := h' ∘ h

/-! ### Steps -/

/-- What is offered to a slot suits the pool entry of the slot. -/
theorem Constants.Holds.offer (h : k.Holds P) (hcache : k.cache = some cache) (hslot : cache.poolIndexAt i = .ok p)
    (hsuits : P k.pool p outcome) : Holds P { k with cache := some (cache.offer i outcome) } := by
  obtain ⟨known, hknown, hheld⟩ := h
  obtain rfl : known = cache := Option.some.inj (hknown.symm.trans hcache)
  refine ⟨_, rfl, fun j q e hindex hoffered => ?_⟩
  obtain ⟨hindex, hold⟩ | ⟨rfl, rfl⟩ := Cache.held_of_offer hslot hindex hoffered
  · exact hheld j q e hindex hold
  · exact hsuits

/-- A step whose answers suit every pool entry. -/
theorem Settles.keepsHeld {α : Type} {wrap : α → Resolved} {x : LinkM α} (h : Settles i wrap x)
    (hwrap : ∀ pool p a, P pool p (wrap a)) : Keeps (KeepsHeld P) x := by
  intro s ⟨cache, hcache, hheld⟩
  obtain ⟨d, hd, -, hsettled⟩ := h s cache hcache
  rw [hd]
  refine ⟨d, rfl, fun j p e hslot hafter => ?_⟩
  by_cases hanswer : (exec x s).1.map wrap = .ok e
  · cases hexec : (exec x s).1 with
    | error g =>
        rw [hexec] at hanswer
        cases hanswer
    | ok a =>
        rw [hexec] at hanswer
        exact Except.ok.inj hanswer ▸ hwrap _ _ a
  · obtain ⟨hslot, hbefore⟩ := hsettled.of_held hanswer hslot hafter
    exact hheld j p e hslot hbefore

section Lookups

variable (hP : SuitsLookups P)

include hP

theorem keepsHeld_staticTarget (r : MemberRef) (registry : Registry) (thread : Thread) :
    Keeps (KeepsHeld P) (r.staticTarget registry thread) := by
  unfold MemberRef.staticTarget
  refine .bind (.lift _) fun site => .bind (.lift _) fun kind => ?_
  split
  · exact (settles_resolveCallSite registry site thread).keepsHeld hP.callSite
  · exact (settles_resolveInterfaceMethod registry site thread).keepsHeld hP.method
  · exact (settles_resolveMethod registry site thread).keepsHeld hP.method
  · exact .bind (.lift _) fun _ => .throw _

/-- The slot of a reference is for the pool entry that the field was looked up for. -/
theorem keepsHeld_resolveField {r : MemberRef} (hbody : r.body.constants = s.constants) (registry : Registry)
    (thread : Thread) : KeepsHeld P s (exec (r.resolveField registry thread) s).2 := by
  unfold MemberRef.resolveField
  refine Keeps.lift_bind fun access _ => ?_
  split
  · exact Keeps.lift_bind fun _ _ => refl_of (KeepsHeld P) s
  refine Keeps.lift_bind fun site hsite => ?_
  obtain ⟨-, -, cache, hcache, hslot⟩ := MemberRef.slot_of_symbolicRef hsite
  rw [hbody] at hcache
  intro hs
  rcases hexec : exec (registry.resolveField site thread) s with ⟨answer, t⟩
  obtain ⟨-, hstep⟩ := Registry.fieldStep hcache hslot hexec
  generalize t.constants = k at hstep ⊢
  cases hstep with
  | unfound => exact hs
  | linked hfound | clash hfound => exact hs.offer hcache hslot (hP.field registry _ _ _ hfound)

theorem keepsHeld_quicken (mode : Mode) (method : Method) (bci : Nat) (registry : Registry) (thread : Thread) :
    Keeps (KeepsHeld P) (LinkM.quicken mode method bci registry thread) := by
  intro s hs
  obtain ⟨_, t, hexec, hstep⟩ := quicken_step mode method bci registry thread s
  have hpublish {cache : Cache} {i : UInt32} {f : Field} (hcache : s.constants.cache = some cache)
      (hsite : registry.fieldSite? s bci = some (i, f)) :
      Constants.Holds P { s.constants with cache := some (cache.offer i (.field f)) } := by
    obtain ⟨known, _, p, hknown, -, -, hslot, hfound⟩ := Registry.fieldSite?_eq_some.mp hsite
    obtain rfl : known = cache := Option.some.inj (hknown.symm.trans hcache)
    exact hs.offer hcache hslot (hP.field registry _ _ _ hfound)
  rw [hexec]
  generalize t.code = code, t.constants = k at hstep ⊢
  cases hstep with
  | idle | waits | load | unresolved => exact hs
  | formless _ _ hcache hsite | access _ _ hcache hsite => exact hpublish hcache hsite

theorem keepsHeld_cachedConstantAt (i : UInt32) (thread : Thread) :
    Keeps (KeepsHeld P) (LinkM.cachedConstantAt i thread) := by
  intro s hs
  obtain ⟨cache, hcache, -⟩ := id hs
  obtain ⟨_, t, hexec, hstep⟩ := cachedStep hcache i thread
  rw [hexec]
  generalize t.constants = k at hstep ⊢
  cases hstep with
  | held | noSlot | unmade => exact hs
  | made hslot hmake | clash hslot hmake => exact hs.offer hcache hslot (hP.constant _ _ _ hmake)

theorem keepsHeld_resolve (l : LoadConstant) (thread : Thread) : Keeps (KeepsHeld P) (l.resolve thread) := by
  unfold LoadConstant.resolve
  refine .bind (.lift _) fun body => .bind (.lift _) fun index => .bind (.lift _) fun cached =>
    .tryCatch ?_ fun _ => .throw _
  split
  · exact keepsHeld_cachedConstantAt hP _ thread
  · intro s hs
    rw [(LinkM.keeps_constantAt _ _ s).2]
    exact hs

/-- Whichever view is called on, what slots hold suits their pool entries afterwards if it did before. -/
theorem ViewCall.keepsHeld (call : ViewCall) : Keeps (KeepsHeld P) call.run := by
  intro s
  have hbody : exec (LinkM.bodyOf call.method) s = (.ok (s.body call.method), s) := rfl
  unfold run
  rw [exec_bind, hbody]
  dsimp only
  cases call.operation with
  | staticTarget => exact Keeps.lift_bind fun r _ => (keepsHeld_staticTarget hP r _ _).discard s
  | resolveField =>
      refine Keeps.lift_bind fun r hr => ?_
      obtain rfl := MemberRef.eq_of_decode hr
      rw [exec_discard]
      exact keepsHeld_resolveField hP rfl call.registry call.thread
  | quicken => exact (keepsHeld_quicken hP _ _ _ _ _).discard s
  | resolveConstant => exact Keeps.lift_bind fun l _ => (keepsHeld_resolve hP l _).discard s

/-- A property of what is looked up is one of what slots hold, after any number of calls. -/
theorem LinkedClass.holds_runAll {c : LinkedClass} (hc : c.constants.Holds P) (calls : List ViewCall) :
    (c.runAll calls).constants.Holds P := by
  induction calls generalizing c with
  | nil => exact hc
  | cons call calls ih =>
      refine ih ?_
      cases hcode : c.codes[call.index]? with
      | none =>
          rw [LinkedClass.call, hcode]
          exact hc
      | some code =>
          rw [call_of_code hcode]
          exact call.keepsHeld hP (c.state code) hc

end Lookups

/-- Before the first call slots hold nothing. -/
theorem Allocator.holds_cache (b : Allocator) (pool : Pool) (tag : UInt32) :
    Constants.Holds P ⟨pool, some (b.cache tag)⟩ := by
  refine ⟨_, rfl, fun i p e _ hheld => ?_⟩
  rw [resolvedAt_cache] at hheld
  cases hheld

/-! ### Constants and fields -/

theorem Constants.holdsMade_iff :
    k.HoldsMade ↔ k.Holds fun pool p e => ∀ c, e = .constant c → pool.loadedConstantAt p = .ok c := by
  constructor
  · rintro ⟨cache, hcache, hmade⟩
    refine ⟨cache, hcache, fun i p e hslot hheld c hc => hmade i p c hslot ?_⟩
    rw [hheld, hc]
  · rintro ⟨cache, hcache, hheld⟩
    exact ⟨cache, hcache, fun i p c hslot hc => hheld i p _ hslot hc c rfl⟩

theorem suitsLookups_made :
    SuitsLookups fun pool p e => ∀ c, e = .constant c → pool.loadedConstantAt p = .ok c where
  method := nofun
  callSite := nofun
  field := nofun
  constant pool p c hmake := by
    rintro _ ⟨⟩
    exact hmake

/-- A pool entry has the names of a field. -/
structure Pool.NamesField (pool : Pool) (p : UInt16) (f : Field) : Prop where
  holder : pool.holderNameAt p = .ok f.holder
  name : pool.memberNameAt p = .ok f.name

/-- Every field in the cache has the names of the pool entry of its slot. -/
def Constants.HoldsNamed (k : Constants) : Prop := k.Holds fun pool p e => ∀ f, e = .field f → pool.NamesField p f

/-- A lookup goes by the names, and finds the latest field that has them. -/
theorem Registry.lookupField_eq_ok {pool : Pool} {f : Field} :
    registry.lookupField pool p = .ok f ↔ pool.NamesField p f ∧ registry.field? f.holder f.name = some f := by
  constructor
  · intro h
    obtain ⟨holder, hholder, h⟩ := bind_eq_ok.mp h
    obtain ⟨name, hname, h⟩ := bind_eq_ok.mp h
    cases hfound : registry.field? holder name with
    | none =>
        rw [hfound] at h
        cases h
    | some g =>
        rw [hfound] at h
        obtain rfl := Except.ok.inj h
        obtain ⟨rfl, rfl⟩ : g.holder = holder ∧ g.name = name := by
          simpa using List.find?_some (show registry.fields.find? _ = some g from hfound)
        exact ⟨⟨hholder, hname⟩, hfound⟩
  · rintro ⟨⟨hholder, hname⟩, hfound⟩
    rw [lookupField, hholder, ok_bind, hname, ok_bind, hfound]
    rfl

theorem suitsLookups_named : SuitsLookups fun pool p e => ∀ f, e = .field f → pool.NamesField p f where
  method := nofun
  callSite := nofun
  field registry pool p f hfound := by
    rintro _ ⟨⟩
    exact (Registry.lookupField_eq_ok.mp hfound).1
  constant := nofun

end MethodCode
