import MethodCode.Proofs.Linking.AnyResolver

/-! One quickening with a registry. `QuickenStep` lists everything that quickening the instruction at a position
makes of the code and the constants of its class; the registry decides, and neither the mode nor the method nor
the thread. Main statements: a registry links fields as a resolver should, and a call of `quicken` is one of the
cases. -/

namespace MethodCode

open FormatTable (standard)

/-- The fast form of `raw` for what the slot of the instruction holds, if there is one. -/
def Opcode.formFor? (raw : Opcode) : Option Resolved → Option Opcode
  | some (.field f) => if f.isStatic then none else raw.fastField? f.type
  | _ => none

namespace Registry

/-- The field that a reference names. -/
def lookupField (r : Registry) (pool : Pool) (index : UInt16) : Except Error Field := do
  let holder ← pool.holderNameAt index
  let name ← pool.memberNameAt index
  match r.field? holder name with
  | some f => return f
  | none => failWith (.noSuchField holder name)

/-- Publishes a field; the answer is the field that its slot holds from then on. -/
def publishField (index : UInt32) (f : Field) : LinkM Field := do
  match ← LinkM.publish index (.field f) with
  | .field winner => return winner
  | other => throw (.of (.wrongEntryKind index other .field))

/-- What the field access at a position publishes: the slot that it refers to, and the field that the
reference behind this slot names. -/
def fieldSite? (r : Registry) (s : LinkState) (bci : Nat) : Option (UInt32 × Field) := do
  let cache ← s.constants.cache
  let n ← (s.code.u16At .native (bci + 1)).toOption
  let p ← (cache.poolIndexAt n.toUInt32).toOption
  let f ← (r.lookupField s.constants.pool p).toOption
  return (n.toUInt32, f)

end Registry

/-- What quickening at a position makes of the code and the constants. -/
inductive QuickenStep (registry : Registry) (bci : Nat) (s : LinkState) : Code → Constants → Prop where
  /-- Other codes have no fast form to go over to. -/
  | idle (h : ∀ op, s.code.opcodeAt bci = .ok op → op ≠ .getfield ∧ op ≠ .putfield ∧ op ≠ .aload0) :
      QuickenStep registry bci s s.code s.constants
  | waits (hop : s.code.opcodeAt bci = .ok .aload0) (hnext : s.code.opcodeAt (bci + 1) = .ok .getfield) :
      QuickenStep registry bci s s.code s.constants
  | load {code : Code} (hop : s.code.opcodeAt bci = .ok .aload0)
      (hnext : s.code.opcodeAt (bci + 1) ≠ .ok .getfield)
      (hstore : s.code.setOpcode bci .fastAload0 = .ok code) : QuickenStep registry bci s code s.constants
  | unresolved {raw : Opcode} (hop : s.code.opcodeAt bci = .ok raw) (hraw : raw = .getfield ∨ raw = .putfield)
      (hsite : registry.fieldSite? s bci = none) : QuickenStep registry bci s s.code s.constants
  /-- The field is published, but what the slot holds has no fast form. -/
  | formless {raw : Opcode} {cache : Cache} {i : UInt32} {f : Field} (hop : s.code.opcodeAt bci = .ok raw)
      (hraw : raw = .getfield ∨ raw = .putfield) (hcache : s.constants.cache = some cache)
      (hsite : registry.fieldSite? s bci = some (i, f))
      (hform : raw.formFor? ((cache.offer i (.field f)).resolvedAt i) = none) :
      QuickenStep registry bci s s.code { s.constants with cache := some (cache.offer i (.field f)) }
  | access {raw op : Opcode} {cache : Cache} {i : UInt32} {f : Field} {code : Code}
      (hop : s.code.opcodeAt bci = .ok raw) (hraw : raw = .getfield ∨ raw = .putfield)
      (hcache : s.constants.cache = some cache) (hsite : registry.fieldSite? s bci = some (i, f))
      (hform : raw.formFor? ((cache.offer i (.field f)).resolvedAt i) = some op)
      (hstore : s.code.setOpcode bci op = .ok code) :
      QuickenStep registry bci s code { s.constants with cache := some (cache.offer i (.field f)) }

variable {s t : LinkState} {cache : Cache} {mode : Mode} {method : Method} {bci : Nat} {raw op : Opcode}
  {registry : Registry} {thread : Thread} {i : UInt32} {f : Field} {p : UInt16}

theorem toOption_eq_some {ε α : Type} {x : Except ε α} {a : α} : x.toOption = some a ↔ x = .ok a := by
  cases x <;> simp [Except.toOption]

theorem Registry.fieldSite?_eq_some :
    registry.fieldSite? s bci = some (i, f) ↔
      ∃ cache n p, s.constants.cache = some cache ∧ s.code.u16At .native (bci + 1) = .ok n ∧ n.toUInt32 = i ∧
        cache.poolIndexAt i = .ok p ∧ registry.lookupField s.constants.pool p = .ok f := by
  unfold fieldSite?
  simp only [bind, Option.bind_eq_some_iff, toOption_eq_some]
  constructor
  · rintro ⟨cache, hcache, n, hn, p, hp, g, hg, heq⟩
    obtain ⟨rfl, rfl⟩ := Prod.mk.inj (Option.some.inj heq)
    exact ⟨cache, n, p, hcache, hn, rfl, hp, hg⟩
  · rintro ⟨cache, n, p, hcache, hn, rfl, hp, hf⟩
    exact ⟨cache, hcache, n, hn, p, hp, f, hf, rfl⟩

/-! ### Resolving the field -/

/-- Resolution finds the field after a poll, and then publishes it. -/
theorem exec_resolveField :
    exec (registry.resolveField ⟨p, i⟩ thread) s =
      match registry.lookupField s.constants.pool p with
      | .error e => (.error (.error e), (exec (LinkM.poll thread) s).2)
      | .ok f => exec (Registry.publishField i f) (exec (LinkM.poll thread) s).2 := by
  have hconstants := (LinkM.keeps_poll thread s).2
  have hpoll : exec (LinkM.poll thread) s = (.ok (), (exec (LinkM.poll thread) s).2) := rfl
  have hpool (u : LinkState) : exec LinkM.pool u = (.ok u.constants.pool, u) := rfl
  unfold Registry.resolveField Registry.lookupField
  rw [exec_bind, hpoll]
  dsimp only
  rw [exec_bind, hpool, hconstants]
  dsimp only
  rw [exec_bind, exec_liftM_error]
  cases s.constants.pool.holderNameAt p with
  | error e => rfl
  | ok holder =>
      rw [mapError_ok, ok_bind]
      dsimp only
      rw [exec_bind, exec_liftM_error]
      cases s.constants.pool.memberNameAt p with
      | error e => rfl
      | ok name =>
          rw [mapError_ok, ok_bind]
          dsimp only
          cases registry.field? holder name <;> rfl

/-- A field that is published to a slot that there is. -/
theorem exec_publishField (hcache : s.constants.cache = some cache) (hslot : cache.poolIndexAt i = .ok p) :
    exec (Registry.publishField i f) s =
      (match (cache.resolvedAt i).getD (.field f) with
        | .field winner => .ok winner
        | other => .error (.of (.wrongEntryKind i other .field)),
        { s with constants := { s.constants with cache := some (cache.offer i (.field f)) } }) := by
  unfold Registry.publishField
  rw [exec_bind, LinkM.exec_publish hcache hslot]
  dsimp only
  cases (cache.resolvedAt i).getD (.field f) <;> rfl

theorem Registry.links_publishField (i : UInt32) (f : Field) (s : LinkState) :
    s.SameReferences (exec (publishField i f) s).2 ∧ Fails Fault.KeepsContract (exec (publishField i f) s).1 := by
  cases hcache : s.constants.cache with
  | none =>
      unfold publishField
      rw [exec_bind, LinkM.exec_publish_of_unlinked hcache]
      exact ⟨.refl s, .pure f⟩
  | some cache =>
      cases hslot : cache.poolIndexAt i with
      | error e =>
          unfold publishField
          rw [exec_bind, LinkM.exec_publish_of_error hcache hslot]
          exact ⟨.refl s, .throw (Fault.keepsContract_error e)⟩
      | ok p =>
          rw [exec_publishField hcache hslot]
          refine ⟨⟨rfl, Constants.references_offer hcache i _⟩, ?_⟩
          cases (cache.resolvedAt i).getD (.field f) with
          | field winner => exact .pure winner
          | method _ | callSite _ | constant _ => exact .throw (Fault.keepsContract_error _)

theorem Registry.links_resolveField (registry : Registry) (site : SymbolicRef) (thread : Thread) (s : LinkState) :
    s.SameReferences (exec (registry.resolveField site thread) s).2 ∧
      Fails Fault.KeepsContract (exec (registry.resolveField site thread) s).1 := by
  obtain ⟨p, i⟩ := site
  obtain ⟨hcode, hreferences⟩ := (LinkM.keeps_poll thread s).sameReferences
  rw [exec_resolveField]
  cases registry.lookupField s.constants.pool p with
  | error e => exact ⟨⟨hcode, hreferences⟩, .throw (Fault.keepsContract_error e)⟩
  | ok f =>
      obtain ⟨⟨hcode', hreferences'⟩, hfails⟩ := links_publishField i f (exec (LinkM.poll thread) s).2
      exact ⟨⟨hcode'.trans hcode, hreferences'.trans hreferences⟩, hfails⟩

/-- A registry links fields as a resolver should. -/
theorem Registry.linksFields (registry : Registry) : registry.resolver.LinksFields where
  keeps _ site thread s := (registry.links_resolveField site thread s).1
  keepsContract _ site thread s := (registry.links_resolveField site thread s).2

/-! ### Field accesses -/

/-- What linking a field through slot `i` answers and makes of the constants, where `found` is what its names
lead to. -/
inductive FieldStep (s : LinkState) (cache : Cache) (i : UInt32) (found : Except Error Field) :
    Except Fault Field → Constants → Prop where
  | unfound {e : Error} (hfound : found = .error e) : FieldStep s cache i found (.error (.error e)) s.constants
  | linked {f winner : Field} (hfound : found = .ok f)
      (hheld : (cache.resolvedAt i).getD (.field f) = .field winner) :
      FieldStep s cache i found (.ok winner) { s.constants with cache := some (cache.offer i (.field f)) }
  | clash {f : Field} {other : Resolved} (hfound : found = .ok f)
      (hheld : (cache.resolvedAt i).getD (.field f) = other) (hkind : other.kind ≠ .field) :
      FieldStep s cache i found (.error (.of (.wrongEntryKind i other .field)))
        { s.constants with cache := some (cache.offer i (.field f)) }

/-- Linking a field through a slot is one of the cases. -/
theorem Registry.fieldStep {answer : Except Fault Field} (hcache : s.constants.cache = some cache)
    (hslot : cache.poolIndexAt i = .ok p) (h : exec (registry.resolveField ⟨p, i⟩ thread) s = (answer, t)) :
    t.code = s.code ∧ FieldStep s cache i (registry.lookupField s.constants.pool p) answer t.constants := by
  obtain ⟨hcode, hconstants⟩ := LinkM.keeps_poll thread s
  rw [exec_resolveField] at h
  cases hlookup : registry.lookupField s.constants.pool p with
  | error e =>
      rw [hlookup] at h
      obtain ⟨rfl, rfl⟩ := Prod.mk.inj h
      exact ⟨hcode, hconstants ▸ .unfound rfl⟩
  | ok f =>
      rw [hlookup] at h
      dsimp only at h
      rw [exec_publishField (by rw [hconstants, hcache]) hslot, hconstants] at h
      obtain ⟨rfl, rfl⟩ := Prod.mk.inj h
      refine ⟨hcode, ?_⟩
      cases hheld : (cache.resolvedAt i).getD (.field f) with
      | field winner => exact .linked rfl hheld
      | method _ | callSite _ | constant _ => exact .clash rfl hheld nofun

/-- The site of an access is what the resolver is asked for, if the registry has a field for it. -/
theorem Registry.fieldSite?_of_symbolicRef (mode : Mode) (method : Method) (hop : s.code.opcodeAt bci = .ok raw)
    (hraw : raw = .getfield ∨ raw = .putfield) :
    registry.fieldSite? s bci = some (i, f) ↔
      ∃ p, (MethodBody.memberRefAt ⟨method, s.code, s.constants⟩ mode bci).symbolicRef = .ok ⟨p, i⟩ ∧
        registry.lookupField s.constants.pool p = .ok f := by
  rw [fieldSite?_eq_some]
  simp only [symbolicRef_access_eq_ok mode method hop hraw]
  constructor
  · rintro ⟨cache, n, p, hcache, hread, hi, hslot, hf⟩
    exact ⟨p, ⟨cache, n, hcache, hread, hi, hslot⟩, hf⟩
  · rintro ⟨p, ⟨cache, n, hcache, hread, hi, hslot⟩, hf⟩
    exact ⟨cache, n, p, hcache, hread, hi, hslot, hf⟩

theorem fastForm_of_formFor {held : Option Resolved} (hraw : raw = .getfield ∨ raw = .putfield)
    (h : raw.formFor? held = some op) : (raw, op) ∈ FormatTable.fastForms := by
  unfold Opcode.formFor? at h
  split at h
  · split at h
    · cases h
    · exact fastForm_of_fastField hraw h
  · cases h

theorem Opcode.formFor?_field (raw : Opcode) (f : Field) :
    raw.formFor? (some (.field f)) = (raw.fieldForm f).toOption := by
  rw [formFor?, fieldForm]
  cases f.isStatic with
  | true => rfl
  | false => cases raw.fastField? f.type <;> rfl

theorem Opcode.formFor?_of_kind {held : Resolved} (raw : Opcode) (h : held.kind ≠ .field) :
    raw.formFor? (some held) = none := by
  cases held with
  | field => exact absurd rfl h
  | _ => rfl

/-- A registry that is asked for an access offers what it has found to the slot, and answers what the slot holds
then: the access goes over to the form for that. -/
theorem Registry.field_cases {site : SymbolicRef} {answer : Except Fault Field} (mode : Mode)
    (hop : s.code.opcodeAt bci = .ok raw) (hraw : raw = .getfield ∨ raw = .putfield)
    (hsite : (MethodBody.memberRefAt ⟨method, s.code, s.constants⟩ mode bci).symbolicRef = .ok site)
    (hfield : exec (registry.resolveField site thread) s = (answer, t)) :
    t.code = s.code ∧
      (registry.fieldSite? s bci = none ∧ t.constants = s.constants ∧ (∃ g, answer = .error g) ∨
        ∃ cache i f, s.constants.cache = some cache ∧ registry.fieldSite? s bci = some (i, f) ∧
          t.constants = { s.constants with cache := some (cache.offer i (.field f)) } ∧
          raw.formFor? ((cache.offer i (.field f)).resolvedAt i) = (answer.bind raw.fieldForm).toOption) := by
  obtain ⟨p, i⟩ := site
  obtain ⟨cache, n, hcache, -, -, hslot⟩ := (symbolicRef_access_eq_ok mode method hop hraw).mp hsite
  obtain ⟨hcode, hstep⟩ := fieldStep hcache hslot hfield
  refine ⟨hcode, ?_⟩
  have hnames (f : Field) (hfound : registry.lookupField s.constants.pool p = .ok f) :
      registry.fieldSite? s bci = some (i, f) :=
    (fieldSite?_of_symbolicRef mode method hop hraw).mpr ⟨p, hsite, hfound⟩
  generalize t.constants = k at hstep
  cases hstep with
  | unfound hfound =>
      refine .inl ⟨Option.eq_none_iff_forall_ne_some.mpr fun ⟨j, f⟩ hsome => ?_, rfl, _, rfl⟩
      obtain ⟨q, hok, hlookup⟩ := (fieldSite?_of_symbolicRef mode method hop hraw).mp hsome
      obtain ⟨rfl, rfl⟩ := SymbolicRef.mk.inj (Except.ok.inj (hsite.symm.trans hok))
      cases hfound.symm.trans hlookup
  | @linked f winner hfound hheld =>
      refine .inr ⟨cache, i, f, hcache, hnames f hfound, rfl, ?_⟩
      rw [Cache.resolvedAt_offer hslot, hheld]
      exact raw.formFor?_field winner
  | @clash f other hfound hheld hkind =>
      refine .inr ⟨cache, i, f, hcache, hnames f hfound, rfl, ?_⟩
      rw [Cache.resolvedAt_offer hslot, hheld]
      exact raw.formFor?_of_kind hkind

/-- Quickening is one of the cases, wherever it is called. -/
theorem quicken_step (mode : Mode) (method : Method) (bci : Nat) (registry : Registry) (thread : Thread)
    (s : LinkState) :
    ∃ answer t, exec (LinkM.quicken mode method bci registry thread) s = (answer, t) ∧
      QuickenStep registry bci s t.code t.constants := by
  rw [← LinkM.quickenBy_registry]
  obtain ⟨answer, t, hexec, houtcome⟩ := quickenBy_outcome
    (fun site => (registry.linksFields.keeps method site thread s).1) mode bci
  refine ⟨answer, t, hexec, ?_⟩
  cases houtcome with
  | unread hop => exact .idle (by rw [hop]; exact nofun)
  | idle hop hget hput hload =>
      refine .idle fun op heq => ?_
      obtain rfl := Except.ok.inj (hop.symm.trans heq)
      exact ⟨hget, hput, hload⟩
  | waits hop hnext hsame =>
      rw [hsame.1, hsame.2]
      exact .waits hop hnext
  | load hop hnext hstore hconstants =>
      rw [hconstants]
      exact .load hop hnext hstore
  | astray hop hraw hsite =>
      refine .unresolved hop hraw (Option.eq_none_iff_forall_ne_some.mpr fun ⟨i, f⟩ hsome => ?_)
      obtain ⟨p, hok, -⟩ := (Registry.fieldSite?_of_symbolicRef mode method hop hraw).mp hsome
      cases hsite.symm.trans hok
  | unresolved hop hraw hsite hfield =>
      obtain ⟨hcode, ⟨hnone, hconstants, -⟩ | ⟨cache, i, f, hcache, hsome, hconstants, hform⟩⟩ :=
        Registry.field_cases mode hop hraw hsite hfield
      · rw [hcode, hconstants]
        exact .unresolved hop hraw hnone
      · rw [hcode, hconstants]
        exact .formless hop hraw hcache hsome hform
  | formless hop hraw hsite hfield hfast =>
      obtain ⟨hcode, ⟨-, -, _, ⟨⟩⟩ | ⟨cache, i, f, hcache, hsome, hconstants, hform⟩⟩ :=
        Registry.field_cases mode hop hraw hsite hfield
      rw [hcode, hconstants]
      exact .formless hop hraw hcache hsome (hform.trans (congrArg Except.toOption hfast))
  | access hop hraw hsite hfield hfast hstore hu =>
      obtain ⟨-, ⟨-, -, _, ⟨⟩⟩ | ⟨cache, i, f, hcache, hsome, hconstants, hform⟩⟩ :=
        Registry.field_cases mode hop hraw hsite hfield
      rw [hu, hconstants]
      exact .access hop hraw hcache hsome (hform.trans (congrArg Except.toOption hfast)) hstore

/-- Quickening publishes at most. -/
theorem QuickenStep.references_eq {code : Code} {k : Constants} (h : QuickenStep registry bci s code k) :
    k.references = s.constants.references := by
  cases h with
  | idle | waits | load | unresolved => rfl
  | formless _ _ hcache | access _ _ hcache => exact Constants.references_offer hcache _ _

end MethodCode
