import MethodCode.Proofs.Linking.Held
import MethodCode.Proofs.Linking.OwnSite
import MethodCode.Proofs.Linking.Target

/-! Which form a field access goes over to. The form is chosen by the type that a registry has for the field, and a
registry finds the field by its holder and its name; the descriptor of the reference takes no part in it, though it is
what the category of the access is read from. So the two agree exactly when the field that was found is of a type
that shares its forms with this category. Main statement: over every linked class, after whatever calls, an access
goes over to the form for the field in its slot, which has the names of its pool entry and is, where the slot was
empty, the latest one registered under them. -/

namespace MethodCode

/-- The category that stands for all that have the same fast forms: accesses tell neither objects from arrays nor
Booleans from bytes. -/
def ValueType.formClass : ValueType → ValueType
  | .array => .object
  | .boolean => .byte
  | type => type

/-- The field `f` decides on the form of an access through a slot for the pool entry `p`, which has held `held` and
holds `left` in the end. -/
structure Registry.DecidesOn (registry : Registry) (pool : Pool) (p : UInt16) (held left : Option Resolved)
    (f : Field) : Prop where
  names : pool.NamesField p f
  left : left = some (.field f)
  /-- The slot has held the field already, or the registry finds it, the latest of its names. -/
  source : held = some (.field f) ∨ held = none ∧ registry.field? f.holder f.name = some f
  object : f.isStatic = false

variable {s t : LinkState} {mode : Mode} {method : Method} {bci : Nat} {raw op : Opcode} {registry : Registry}
  {thread : Thread}

theorem Opcode.fastField?_eq_some_iff {type other : ValueType} (h : raw.fastField? type = some op) :
    raw.fastField? other = some op ↔ type.formClass = other.formClass := by
  unfold fastField? at h ⊢
  split at h <;> rename_i hraw
  · rw [if_pos hraw]
    cases type <;> cases h <;> cases other <;> decide
  · rw [if_neg hraw]
    cases type <;> cases h <;> cases other <;> decide

/-- An access that goes over to a form has been resolved through its slot, to a field that has this form. -/
theorem quickened_access (h : exec (LinkM.quicken mode method bci registry thread) s = (.ok (some op), t))
    (hopcode : ((s.body method).memberRefAt mode bci).opcode = .ok raw) (hraw : raw = .getfield ∨ raw = .putfield) :
    ∃ site f u, ((s.body method).memberRefAt mode bci).symbolicRef = .ok site ∧
      exec (registry.resolveField site thread) s = (.ok f, u) ∧ t.constants = u.constants ∧
      f.isStatic = false ∧ raw.fastField? f.type = some op := by
  rw [← LinkM.quickenBy_registry] at h
  obtain ⟨answer, u, hexec, houtcome⟩ := quickenBy_outcome
    (fun site => (registry.keepsToSlot method site thread s).1) mode bci
  obtain ⟨rfl, rfl⟩ := Prod.mk.inj (hexec.symm.trans h)
  cases houtcome with
  | load hop =>
      obtain ⟨e, he, hshape⟩ := Option.map_eq_some_iff.mp quickened_shapes.1
      have hload : ((s.body method).memberRefAt mode bci).opcode = .ok e.canonical := Cursor.opcode_of_entry hop he
      rw [(Prod.mk.inj hshape).2, hopcode] at hload
      obtain rfl := Except.ok.inj hload
      exact absurd hraw (by decide)
  | @access raw' _ site f u _ hop hraw' hsite hfield hform hstore hconstants =>
      obtain ⟨e, he, -⟩ := exists_fieldAccess hraw'
      have haccess : ((s.body method).memberRefAt mode bci).opcode = .ok e.canonical := Cursor.opcode_of_entry hop he
      rw [(FormatTable.regular_standard he).2.2.2 (isFast_of_field hraw'), hopcode] at haccess
      obtain rfl := Except.ok.inj haccess
      exact ⟨site, f, u, hsite, hfield, hconstants, Opcode.fieldForm_eq_ok.mp hform⟩

/-- What an access is resolved to decides on its form. -/
theorem Registry.decidesOn_of_resolveField {f : Field} {cache : Cache} {i : UInt32} {p : UInt16}
    (hnamed : s.constants.HoldsNamed) (hcache : s.constants.cache = some cache) (hslot : cache.poolIndexAt i = .ok p)
    (h : exec (registry.resolveField ⟨p, i⟩ thread) s = (.ok f, t)) (hobject : f.isStatic = false) :
    ∃ cache', t.constants.cache = some cache' ∧
      registry.DecidesOn s.constants.pool p (cache.resolvedAt i) (cache'.resolvedAt i) f := by
  obtain ⟨-, hstep⟩ := fieldStep hcache hslot h
  generalize t.constants = k at hstep
  cases hstep with
  | @linked g _ hfound hheld =>
      refine ⟨_, rfl, ?_⟩
      have hleft : (cache.offer i (.field g)).resolvedAt i = some (.field f) :=
        hheld ▸ Cache.resolvedAt_offer hslot
      cases hold : cache.resolvedAt i with
      | none =>
          rw [hold] at hheld
          obtain rfl := Resolved.field.inj hheld
          obtain ⟨hnames, hlatest⟩ := lookupField_eq_ok.mp hfound
          exact ⟨hnames, hleft, .inr ⟨rfl, hlatest⟩, hobject⟩
      | some held =>
          rw [hold] at hheld
          obtain rfl : held = .field f := hheld
          obtain ⟨known, hknown, hholds⟩ := hnamed
          obtain rfl : known = cache := Option.some.inj (hknown.symm.trans hcache)
          exact ⟨hholds i p _ hslot hold f rfl, hleft, .inl rfl, hobject⟩

namespace RewrittenInTurn

variable {pool : Pool} {a b : Allocator} {pairs : List (Code × Code)} {before after code : Code} {c : LinkedClass}
  {tag : UInt32} {index : Nat} {p : UInt16}

/-- Where a code has had a reference to a member, its method refers to the same pool entry after any calls, through a
slot of the cache. -/
theorem member_after_calls (h : RewrittenInTurn pool a pairs b) (hsize : b.size < UInt32.size)
    (hslow : ∀ pair ∈ pairs, ∀ bci op, pair.1.IsStart bci → pair.1.opcodeAt bci = .ok op → op.isFast = false)
    (hcodes : c.codes = pairs.map Prod.snd) (hconstants : c.constants = ⟨pool, some (b.cache tag)⟩)
    (calls : List ViewCall) (hstarts : ∀ call ∈ calls, c.IsStart call.index call.bci)
    (hpair : pairs[index]? = some (before, after)) (hstart : before.IsStart bci)
    (hop : before.opcodeAt bci = .ok op) {kind : ResolvedKind}
    (hmember : (Family.ofCanonical op).memberKind? = some kind) (hindex : before.encodedIndexAt bci = .ok p)
    (hcode : (c.runAll calls).codes[index]? = some code) (mode : Mode) (method : Method) :
    ∃ cache r i, (c.runAll calls).constants.cache = some cache ∧ (c.runAll calls).constants.pool = pool ∧
      r = (((c.runAll calls).state code).body method).memberRefAt mode bci ∧
      MemberRef.decode mode (((c.runAll calls).state code).body method) bci = .ok r ∧ r.opcode = .ok op ∧
      r.symbolicRef = .ok ⟨p, i⟩ ∧ cache.poolIndexAt i = .ok p := by
  have hslow' := hslow _ (List.mem_of_getElem? hpair) bci op hstart hop
  have hrefers := h.refersByKind_of_rewritten hsize hslow hcodes hconstants
  obtain ⟨hlooks, -⟩ := LinkedClass.looksLike_runAll hrefers (hconstants ▸ b.holdsKinds_cache _ tag)
    (by rw [hconstants]; rfl) calls hstarts
  obtain ⟨hpool, ⟨-, hnone⟩ | ⟨cache, known, hcache, -, -⟩⟩ := Constants.cases_of_references hlooks.references
  · rw [hconstants] at hnone
    cases hnone
  rw [hconstants] at hpool
  -- what rewriting has left of the reference
  obtain ⟨q, n, e, hencoded, hstart', hocc, hcanonical, hmember', hreads⟩ :=
    h.exists_member hsize (List.mem_of_getElem? hpair) hstart hop hslow' hmember tag mode method
  obtain rfl : q = p := Except.ok.inj (hencoded.symm.trans hindex)
  have hbody : (c.state after).body method = linkedBody method after pool (b.cache tag) := by
    rw [LinkState.body, LinkedClass.state, hconstants]
    rfl
  rw [← hbody] at hreads
  have hopcode : (((c.state after).body method).cursor mode bci).opcode = .ok e.canonical :=
    Cursor.opcode_of_entry hocc.opcode hocc.entry
  -- what the calls have left of that
  obtain ⟨code', hcode', hlike⟩ := hlooks.exists_code (show c.codes[index]? = some after by
    rw [hcodes, List.getElem?_map, hpair]
    rfl)
  obtain rfl : code' = code := Option.some.inj (hcode'.symm.trans hcode)
  obtain ⟨hdecode, -, hreport⟩ :=
    hlike.memberRef hstart' hocc (Family.mem_families_of_memberKind hmember') hcache mode method
  obtain ⟨i, hsite⟩ := MemberRef.exists_symbolicRef ((congrArg MemberRef.Report.poolIndex hreport).trans hreads)
  obtain ⟨-, -, known', hknown, hslot⟩ := MemberRef.slot_of_symbolicRef hsite
  obtain rfl : known' = cache := Option.some.inj (hknown.symm.trans hcache)
  refine ⟨known', _, i, hcache, hpool, rfl, hdecode, ?_, hsite, hslot⟩
  rw [hcanonical] at hopcode
  exact (congrArg Cursor.Report.opcode (hlike.reports bci mode method hstart')).trans hopcode

/-- The form of an access is that for a field of its names. Methods without fast forms are rewritten in turn, from
whatever slots have been taken before, the cache for all slots is installed, and views are called on at instruction
starts, in whatever order and with whatever outcome: then an access to an object's field that goes over to a fast form
goes over to the one for the type of the field that its slot holds from then on. This field has the names of the pool
entry that the access was encoded with, and unless the slot has held it before it is the latest one that the registry
has under them. The form is that for the category of the reference exactly when this category has the same forms as
the type of the field. -/
theorem quickened_form (h : RewrittenInTurn pool a pairs b) (hsize : b.size < UInt32.size)
    (hslow : ∀ pair ∈ pairs, ∀ bci op, pair.1.IsStart bci → pair.1.opcodeAt bci = .ok op → op.isFast = false)
    (hcodes : c.codes = pairs.map Prod.snd) (hconstants : c.constants = ⟨pool, some (b.cache tag)⟩)
    (calls : List ViewCall) (hstarts : ∀ call ∈ calls, c.IsStart call.index call.bci)
    (hpair : pairs[index]? = some (before, after)) (hstart : before.IsStart bci)
    (hop : before.opcodeAt bci = .ok raw) (hraw : raw = .getfield ∨ raw = .putfield)
    (hindex : before.encodedIndexAt bci = .ok p) (hcode : (c.runAll calls).codes[index]? = some code)
    (hexec : exec (LinkM.quicken mode method bci registry thread) ((c.runAll calls).state code) =
      (.ok (some op), t)) :
    ∃ cache cache' r i f, (c.runAll calls).constants.cache = some cache ∧ t.constants.cache = some cache' ∧
      MemberRef.decode mode (((c.runAll calls).state code).body method) bci = .ok r ∧ r.cacheIndex = .ok i ∧
      registry.DecidesOn pool p (cache.resolvedAt i) (cache'.resolvedAt i) f ∧ raw.fastField? f.type = some op ∧
      ∀ type, r.resultType = .ok type → (raw.fastField? type = some op ↔ f.type.formClass = type.formClass) := by
  have hmember : (Family.ofCanonical raw).memberKind? = some .field := by
    rcases hraw with rfl | rfl <;> decide
  obtain ⟨cache, r, i, hcache, hpool, rfl, hdecode, hopcode, hsite, hslot⟩ :=
    h.member_after_calls hsize hslow hcodes hconstants calls hstarts hpair hstart hop hmember hindex hcode mode method
  have hnamed : (c.runAll calls).constants.HoldsNamed :=
    LinkedClass.holds_runAll suitsLookups_named (hconstants ▸ b.holds_cache pool tag) calls
  obtain ⟨site, f, u, hsite', hfield, hleft, hobject, hform⟩ := quickened_access hexec hopcode hraw
  obtain rfl := Except.ok.inj (hsite.symm.trans hsite')
  obtain ⟨cache', hcache', hdecides⟩ := Registry.decidesOn_of_resolveField hnamed hcache hslot hfield hobject
  have hpool' : ((c.runAll calls).state code).constants.pool = pool := hpool
  rw [hpool'] at hdecides
  exact ⟨cache, cache', _, i, f, hcache, hleft ▸ hcache', hdecode, (MemberRef.slot_of_symbolicRef hsite).2.1, hdecides,
    hform, fun type _ => Opcode.fastField?_eq_some_iff hform⟩

/-- A reference to a long field. -/
def sampleLongItems : List PoolItem := [.fieldRef "A" "x" "J"]

/-- Code that reads the field. -/
def sampleRead : Code := ⟨#[0xb4, 0x00, 0x06, 0xb1]⟩

/-- The code after rewriting. -/
def sampleRewritten : Code := (rewrite sampleRead (.ofItems sampleLongItems) .empty).code

/-- The class of the code. -/
def sampleReading : LinkedClass :=
  ⟨[sampleRewritten],
    ⟨.ofItems sampleLongItems, some ((rewrite sampleRead (.ofItems sampleLongItems) .empty).allocator.cache 7)⟩, 0, []⟩

/-- A field with the names of the reference. -/
def sampleX (type : ValueType) : Field := ⟨.ofString "A", .ofString "x", type, 8, false⟩

/-- With the long field registered last, the reading of it is for a field that has its forms. -/
theorem quickened_form_sample :
    let registry := (Registry.empty.addField (sampleX .int)).addField (sampleX .long)
    ∃ t r, ∃ f : Field,
      exec (LinkM.quicken .checked sampleMethod 0 registry .detached) (sampleReading.state sampleRewritten) =
        (.ok (some .fastLgetfield), t) ∧
      MemberRef.decode .checked ((sampleReading.state sampleRewritten).body sampleMethod) 0 = .ok r ∧
      r.resultType = .ok .long ∧ Opcode.getfield.fastField? f.type = some .fastLgetfield ∧
      f.type.formClass = .long := by
  intro registry
  obtain ⟨hok, hsize, hanswer, htype⟩ :
      (rewrite sampleRead (.ofItems sampleLongItems) .empty).outcome = .ok ⟨1, 0, 0, 0⟩ ∧
        (rewrite sampleRead (.ofItems sampleLongItems) .empty).allocator.size < UInt32.size ∧
        (exec (LinkM.quicken .checked sampleMethod 0 registry .detached) (sampleReading.state sampleRewritten)).1 =
          .ok (some .fastLgetfield) ∧
        (((sampleReading.state sampleRewritten).body sampleMethod).memberRefAt .checked 0).resultType = .ok .long := by
    decide +kernel
  have hslow := Code.slow_of_all (show sampleRead.bytes.all (fun b => !Opcode.isFast ⟨b⟩) = true by
    decide +kernel)
  obtain ⟨-, -, r, -, f, -, -, hdecode, -, -, hform, hagrees⟩ :=
    quickened_form (.cons hok (.nil _)) hsize (fun pair hmem bci op _ => by
        obtain rfl := List.mem_singleton.mp hmem
        exact hslow bci op)
      (c := sampleReading) rfl rfl [] (by simp) (show [(sampleRead, sampleRewritten)][0]? = some _ from rfl)
      (.refl 0) (show sampleRead.opcodeAt 0 = .ok .getfield by decide) (.inl rfl)
      (show sampleRead.encodedIndexAt 0 = .ok 6 by decide) (show [sampleRewritten][0]? = some _ from rfl)
      (Prod.ext hanswer rfl)
  have hlong : r.resultType = .ok .long := by
    rw [MemberRef.eq_of_decode hdecode]
    exact htype
  exact ⟨_, r, f, Prod.ext hanswer rfl, hdecode, hlong, hform, (hagrees .long hlong).mp rfl⟩

/-- With an int field of the same names registered last, the reading of the long field goes over to the form for
ints. -/
theorem form_against_descriptor :
    let registry := (Registry.empty.addField (sampleX .long)).addField (sampleX .int)
    ∃ r t, MemberRef.decode .checked ((sampleReading.state sampleRewritten).body sampleMethod) 0 = .ok r ∧
      r.resultType = .ok .long ∧
      exec (LinkM.quicken .checked sampleMethod 0 registry .detached) (sampleReading.state sampleRewritten) =
        (.ok (some .fastIgetfield), t) ∧
      Opcode.getfield.fastField? .long = some .fastLgetfield ∧ Opcode.fastIgetfield ≠ .fastLgetfield := by
  intro registry
  obtain ⟨hdecode, htype, hanswer⟩ :
      MemberRef.decode .checked ((sampleReading.state sampleRewritten).body sampleMethod) 0 =
          .ok (((sampleReading.state sampleRewritten).body sampleMethod).memberRefAt .checked 0) ∧
        (((sampleReading.state sampleRewritten).body sampleMethod).memberRefAt .checked 0).resultType = .ok .long ∧
        (exec (LinkM.quicken .checked sampleMethod 0 registry .detached) (sampleReading.state sampleRewritten)).1 =
          .ok (some .fastIgetfield) := by
    refine ⟨?_, by decide +kernel, by decide +kernel⟩
    exact decode_access .checked sampleMethod (show sampleRewritten.opcodeAt 0 = .ok .getfield by decide +kernel)
      (.inl rfl)
  exact ⟨_, _, hdecode, htype, Prod.ext hanswer rfl, by decide, by decide⟩

end RewrittenInTurn

end MethodCode
