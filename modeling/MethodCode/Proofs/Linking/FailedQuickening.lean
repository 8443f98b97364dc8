import MethodCode.Proofs.Linking.OwnSite

/-! What a failed quickening leaves. The code is stored last, so it is as it was. The cache is another matter: a
registry publishes the field that it has found before the access looks at it, and a field that turns out to be
static, or to be of a type without values, stays in its slot. Every other failure comes before publishing, or finds
the slot taken. Main statement: after a call that fails, the class is as it was, but for such a field in a slot that
was empty. -/

namespace MethodCode

/-- No access to an object goes over to a form for the field. -/
def Field.Unusable (f : Field) : Prop := f.isStatic = true ∨ f.type = .void ∨ f.type = .illegal

/-- The access at a position leads to the empty slot `i`, and the registry has an unusable field for it. -/
structure Registry.FindsUnusable (registry : Registry) (s : LinkState) (bci : Nat) (cache : Cache) (i : UInt32)
    (f : Field) : Prop where
  access : s.code.opcodeAt bci = .ok .getfield ∨ s.code.opcodeAt bci = .ok .putfield
  linked : s.constants.cache = some cache
  site : registry.fieldSite? s bci = some (i, f)
  empty : cache.resolvedAt i = none
  unusable : f.Unusable

/-- The constants stay as they are, unless an unusable field was found: this is published. -/
structure Registry.KeepsUnlessUnusable (registry : Registry) (s t : LinkState) (bci : Nat) : Prop where
  published : ∀ cache i f, registry.FindsUnusable s bci cache i f →
    t.constants = { s.constants with cache := some (cache.offer i (.field f)) }
  kept : (¬∃ cache i f, registry.FindsUnusable s bci cache i f) → t.constants = s.constants

variable {s t : LinkState} {mode : Mode} {method : Method} {bci : Nat} {raw : Opcode} {registry : Registry}
  {thread : Thread} {f : Field} {g : Fault}

theorem Opcode.fastField?_eq_none {type : ValueType} : raw.fastField? type = none ↔ type = .void ∨ type = .illegal := by
  unfold fastField?
  split <;> cases type <;> decide

theorem Field.unusable_of_formFor? (h : raw.formFor? (some (.field f)) = none) : f.Unusable := by
  rw [Opcode.formFor?] at h
  split at h
  · rename_i hstatic
    exact .inl hstatic
  · exact .inr (Opcode.fastField?_eq_none.mp h)

namespace Registry.KeepsUnlessUnusable

theorem of_unfound (hconstants : t.constants = s.constants)
    (hnone : ∀ cache i f, ¬registry.FindsUnusable s bci cache i f) : registry.KeepsUnlessUnusable s t bci where
  published cache i f h := absurd h (hnone cache i f)
  kept _ := hconstants

/-- A slot that has no form for its access after an offer has held something else before, or was offered an unusable
field. -/
theorem of_offer {cache : Cache} {i : UInt32} (hop : s.code.opcodeAt bci = .ok raw)
    (hraw : raw = .getfield ∨ raw = .putfield) (hcache : s.constants.cache = some cache)
    (hsite : registry.fieldSite? s bci = some (i, f))
    (hconstants : t.constants = { s.constants with cache := some (cache.offer i (.field f)) })
    (hform : raw.formFor? ((cache.offer i (.field f)).resolvedAt i) = none) :
    registry.KeepsUnlessUnusable s t bci where
  published known j f' h := by
    obtain rfl : known = cache := Option.some.inj (h.linked.symm.trans hcache)
    obtain ⟨rfl, rfl⟩ := Prod.mk.inj (Option.some.inj (h.site.symm.trans hsite))
    exact hconstants
  kept hnone := by
    cases hheld : cache.resolvedAt i with
    | some held => rw [hconstants, Cache.offer_of_held hheld, ← hcache]
    | none =>
        obtain ⟨known, n, p, hknown, -, rfl, hslot, -⟩ := fieldSite?_eq_some.mp hsite
        obtain rfl : known = cache := Option.some.inj (hknown.symm.trans hcache)
        rw [Cache.resolvedAt_offer hslot, hheld] at hform
        have haccess := hraw.imp (fun heq => hop.trans (congrArg _ heq)) fun heq => hop.trans (congrArg _ heq)
        exact absurd ⟨_, _, f, haccess, hcache, hsite, hheld, Field.unusable_of_formFor? hform⟩ hnone

end Registry.KeepsUnlessUnusable

/-- A failed call leaves the code as it was, and the constants but for an unusable field that was found for an empty
slot: it has been published by the time the call fails. -/
theorem failed_quickening (h : exec (LinkM.quicken mode method bci registry thread) s = (.error g, t)) :
    t.code = s.code ∧ registry.KeepsUnlessUnusable s t bci := by
  rw [← LinkM.quickenBy_registry] at h
  have hkeeps (site : SymbolicRef) := (registry.keepsToSlot method site thread s).1
  obtain ⟨answer, u, hexec, houtcome⟩ := quickenBy_outcome hkeeps mode bci
  obtain ⟨rfl, rfl⟩ := Prod.mk.inj (hexec.symm.trans h)
  constructor
  · obtain ⟨hcode, -⟩ | ⟨_, _, ⟨⟩, -⟩ := houtcome.store_cases hkeeps
    exact hcode
  have hunsited (hnone : registry.fieldSite? s bci = none) (cache : Cache) (i : UInt32) (f : Field) :
      ¬registry.FindsUnusable s bci cache i f :=
    fun hfinds => by cases hnone.symm.trans hfinds.site
  cases houtcome with
  | unread hop =>
      refine .of_unfound rfl fun cache i f hfinds => ?_
      rcases hfinds.access with hget | hput
      · cases hop.symm.trans hget
      · cases hop.symm.trans hput
  | astray hop hraw hsite =>
      refine .of_unfound rfl fun cache i f hfinds => ?_
      obtain ⟨p, hok, -⟩ := (Registry.fieldSite?_of_symbolicRef mode method hop hraw).mp hfinds.site
      cases hsite.symm.trans hok
  | unresolved hop hraw hsite hfield =>
      obtain ⟨-, ⟨hnone, hconstants, -⟩ | ⟨cache, i, f, hcache, hsome, hconstants, hform⟩⟩ :=
        Registry.field_cases mode hop hraw hsite hfield
      · exact .of_unfound hconstants (hunsited hnone)
      · exact .of_offer hop hraw hcache hsome hconstants hform
  | formless hop hraw hsite hfield hfast =>
      obtain ⟨-, ⟨-, -, _, ⟨⟩⟩ | ⟨cache, i, f, hcache, hsome, hconstants, hform⟩⟩ :=
        Registry.field_cases mode hop hraw hsite hfield
      exact .of_offer hop hraw hcache hsome hconstants (hform.trans (congrArg Except.toOption hfast))

/-- The field of the sample class, if it belonged to the class itself. -/
def sampleStatic : Field := { sampleField with isStatic := true }

/-- The reading of a static field fails, and the field is in the slot. -/
theorem failed_quickening_sample :
    ∃ t d, exec (LinkM.quicken .checked sampleReader 1 (Registry.empty.addField sampleStatic) .detached) sampleClass =
        (.error (.of (.staticField sampleStatic.holder sampleStatic.name)), t) ∧
      t.code = sampleClass.code ∧ t.constants.cache = some d ∧ d.resolvedAt 0 = some (.field sampleStatic) := by
  obtain ⟨hfails, hsite⟩ :
      (exec (LinkM.quicken .checked sampleReader 1 (Registry.empty.addField sampleStatic) .detached) sampleClass).1 =
          .error (.of (.staticField sampleStatic.holder sampleStatic.name)) ∧
        (Registry.empty.addField sampleStatic).fieldSite? sampleClass 1 = some (0, sampleStatic) := by
    decide +kernel
  obtain ⟨hcode, hkept⟩ := failed_quickening (Prod.ext hfails rfl)
  have hconstants := hkept.published (.ofPoolIndices [6] 7) 0 sampleStatic
    ⟨.inl (by decide), rfl, hsite, by decide, .inl rfl⟩
  exact ⟨_, _, Prod.ext hfails rfl, hcode, congrArg Constants.cache hconstants, by decide⟩

/-- Not every call that fails leaves the constants as they were. -/
theorem not_every_failure_leaves_the_cache :
    ¬∀ (s t : LinkState) (cache : Cache) (bci : Nat) (mode : Mode) (method : Method) (registry : Registry)
        (thread : Thread) (g : Fault),
      s.constants.cache = some cache → s.code.IsStart bci →
      exec (LinkM.quicken mode method bci registry thread) s = (.error g, t) →
      t.code = s.code ∧ t.constants = s.constants := by
  intro h
  obtain ⟨hlength, hfails, hchanged⟩ : sampleClass.code.lengthAt 0 = .ok (some 1) ∧
      (exec (LinkM.quicken .checked sampleReader 1 (Registry.empty.addField sampleStatic) .detached) sampleClass).1 =
        .error (.of (.staticField sampleStatic.holder sampleStatic.name)) ∧
      (exec (LinkM.quicken .checked sampleReader 1 (Registry.empty.addField sampleStatic) .detached)
        sampleClass).2.constants ≠ sampleClass.constants := by
    decide +kernel
  exact hchanged (h sampleClass _ _ 1 .checked sampleReader _ .detached _ rfl (.step hlength (.refl 1))
    (Prod.ext hfails rfl)).2

end MethodCode
