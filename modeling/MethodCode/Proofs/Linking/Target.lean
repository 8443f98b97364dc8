import Mathlib.Data.List.Induction
import MethodCode.Proofs.Linking.OneOffer
import MethodCode.Proofs.Pool.Answers

/-! What invokes are linked to. A registry forgets the order in which it was filled except for what it answers with,
the latest registration under a name, so it is described here by the registrations themselves. The pool comes from a
builder, so a reference that rewriting has accepted has all its names. What an earlier call has put into the slot of
a site is of the kind that the site asks for, so it is always taken over an own find. Main statement: over every
linked class, after whatever calls, an invoke polls once, fails exactly where its names lead nowhere, and is linked
to the first method that its slot was ever offered. -/

namespace MethodCode

open FormatTable (standard)

/-! ### Registrations -/

/-- What can be registered. -/
inductive Registration where
  | method (m : Method)
  | interface (name : String)
  | bootstrap (name : String) (target : Method)
  | field (f : Field)

/-- Adds a registration. -/
def Registry.register (r : Registry) : Registration → Registry
  | .method m => r.addMethod m
  | .interface name => r.addInterface (.ofString name)
  | .bootstrap name target => r.addBootstrap (.ofString name) target
  | .field f => r.addField f

/-- The registry that registrations leave, made one after the other. -/
def Registry.ofRegistrations (regs : List Registration) : Registry := regs.foldl register empty

namespace Registration

/-- The method that a registration puts under a holder, a name and a signature. -/
def methodUnder? (holder name signature : Symbol) : Registration → Option Method
  | method m => if m.holder = holder ∧ m.name = name ∧ m.signature = signature then some m else none
  | _ => none

/-- The target that a registration gives to the call sites of a name. -/
def targetOf? (name : Symbol) : Registration → Option Method
  | bootstrap n target => if name = .ofString n then some target else none
  | _ => none

/-- What the last registration for a place puts there. -/
def last? (place : Registration → Option Method) (regs : List Registration) : Option Method :=
  regs.reverse.findSome? place

/-- An interface is registered under a name. -/
def HasInterface (regs : List Registration) (holder : Symbol) : Prop :=
  ∃ name, interface name ∈ regs ∧ Symbol.ofString name = holder

theorem last?_concat (place : Registration → Option Method) (regs : List Registration) (reg : Registration) :
    last? place (regs ++ [reg]) = (place reg).or (last? place regs) := by
  rw [last?, List.reverse_append, List.reverse_singleton, List.singleton_append, List.findSome?_cons]
  cases place reg <;> rfl

end Registration

open Registration (methodUnder? targetOf? last? last?_concat HasInterface)

namespace Registry

theorem ofRegistrations_concat (regs : List Registration) (reg : Registration) :
    ofRegistrations (regs ++ [reg]) = (ofRegistrations regs).register reg := by
  rw [ofRegistrations, List.foldl_append]
  rfl

theorem method?_ofRegistrations (regs : List Registration) (holder name signature : Symbol) :
    (ofRegistrations regs).method? holder name signature = last? (methodUnder? holder name signature) regs := by
  induction regs using List.reverseRecOn with
  | nil => rfl
  | append_singleton regs reg ih =>
      rw [ofRegistrations_concat, last?_concat, ← ih]
      cases reg with
      | method m =>
          simp only [register, addMethod, method?, methodUnder?, List.find?_cons]
          by_cases hkey : m.holder = holder ∧ m.name = name ∧ m.signature = signature
          · rw [decide_eq_true hkey, if_pos hkey]
            rfl
          · rw [decide_eq_false hkey, if_neg hkey]
            rfl
      | _ => rfl

theorem bootstrap?_ofRegistrations (regs : List Registration) (name : Symbol) :
    (ofRegistrations regs).bootstrap? name = last? (targetOf? name) regs := by
  induction regs using List.reverseRecOn with
  | nil => rfl
  | append_singleton regs reg ih =>
      rw [ofRegistrations_concat, last?_concat, ← ih]
      cases reg with
      | bootstrap n target =>
          simp only [register, addBootstrap, bootstrap?, targetOf?, List.lookup_cons]
          by_cases hname : name = .ofString n
          · simp [hname]
          · simp [hname, beq_eq_false_iff_ne.mpr hname]
      | _ => rfl

theorem mem_interfaces_ofRegistrations (regs : List Registration) (holder : Symbol) :
    holder ∈ (ofRegistrations regs).interfaces ↔ HasInterface regs holder := by
  induction regs using List.reverseRecOn with
  | nil => simp [ofRegistrations, empty, HasInterface]
  | append_singleton regs reg ih =>
      rw [ofRegistrations_concat]
      unfold HasInterface at ih ⊢
      cases reg with
      | interface name =>
          simp only [register, addInterface, List.mem_cons, ih, List.mem_append, List.not_mem_nil, or_false,
            Registration.interface.injEq, or_and_right, exists_or, exists_eq_left]
          rw [or_comm, eq_comm]
      | _ => simpa [register, addMethod, addBootstrap, addField] using ih

end Registry

/-! ### Names -/

/-- What registrations have under the names of an invoke. -/
inductive InvokeKind.Finds (regs : List Registration) (holder name signature : Symbol) :
    InvokeKind → Method → Prop where
  | target {m : Method} (h : last? (targetOf? name) regs = some m) : Finds regs holder name signature .dynamic m
  | method {kind : InvokeKind} {m : Method} (hkind : kind ≠ .dynamic)
      (hholder : kind = .interface ↔ HasInterface regs holder)
      (h : last? (methodUnder? holder name signature) regs = some m) : Finds regs holder name signature kind m

/-- What an invoke answers to registrations, and what it leaves in its slot, which has held `held`. -/
structure InvokeKind.LinksTo (kind : InvokeKind) (regs : List Registration) (holder name signature : Symbol)
    (held : Option Resolved) (answer : Except Fault Method) (left : Option Resolved) : Prop where
  noBootstrap : kind = .dynamic → last? (targetOf? name) regs = none →
    ∃ e, answer = .error (.error e) ∧ e.kind = .linkage
  /-- An interface stands where a class was expected, or the other way round. -/
  wrongHolder : kind ≠ .dynamic → (kind = .interface ↔ ¬HasInterface regs holder) →
    ∃ e, answer = .error (.error e) ∧ e.kind = .incompatibleClassChange
  noMethod : kind ≠ .dynamic → (kind = .interface ↔ HasInterface regs holder) →
    last? (methodUnder? holder name signature) regs = none → ∃ e, answer = .error (.error e) ∧ e.kind = .linkage
  /-- The slot keeps the first method that it was offered, and the call answers what the slot holds. -/
  linked : ∀ m, Finds regs holder name signature kind m → ∃ winner, answer = .ok winner ∧
    left = some (kind.outcome winner) ∧ kind.outcome winner = held.getD (kind.outcome m)
  failed : ∀ f, answer = .error f → left = held

/-- What a pool tells of the reference of an invoke; a dynamic call site has no holder. -/
structure Pool.Names (pool : Pool) (kind : InvokeKind) (p : UInt16) (holder name signature : Symbol) : Prop where
  holder : kind ≠ .dynamic → pool.holderNameAt p = .ok holder
  name : pool.memberNameAt p = .ok name
  signature : pool.memberSignatureAt p = .ok signature

theorem Pool.exists_names {items : List PoolItem} {kind : InvokeKind} {p : UInt16}
    (h : (ofItems items).kindAt? p = some kind.resolvedKind) :
    ∃ holder name signature, (ofItems items).Names kind p holder name signature := by
  obtain ⟨tag, htag, hresolved⟩ := kindAt?_eq_some.mp h
  obtain ⟨item, hspells, rfl⟩ := exists_spells htag
  have hmembers : item.tag ∈ [.fieldRef, .methodRef, .interfaceMethodRef, .invokeDynamic] ∧
      (kind ≠ .dynamic → item.tag ∈ [.fieldRef, .methodRef, .interfaceMethodRef]) := by
    revert hresolved
    cases item.tag <;> cases kind <;> decide
  obtain ⟨name, descriptor, hmember⟩ := PoolItem.exists_member? hmembers.1
  by_cases hkind : kind = .dynamic
  · exact ⟨.ofString "", _, _, absurd hkind, hspells.memberNameAt hmember, hspells.memberSignatureAt hmember⟩
  · obtain ⟨holder, hholder⟩ := PoolItem.exists_holder? (hmembers.2 hkind)
    exact ⟨_, _, _, fun _ => hspells.holderNameAt hholder, hspells.memberNameAt hmember,
      hspells.memberSignatureAt hmember⟩

/-- What a registry answers for the names of an invoke. -/
inductive Registry.Sought (regs : List Registration) (kind : InvokeKind) (holder name signature : Symbol) :
    Except Error Method → Prop where
  | noBootstrap (hkind : kind = .dynamic) (h : last? (targetOf? name) regs = none) :
      Sought regs kind holder name signature (failWith (.noBootstrap name))
  | wrongHolder {cause : Cause} (hkind : kind ≠ .dynamic) (h : kind = .interface ↔ ¬HasInterface regs holder)
      (hcause : cause.kind = .incompatibleClassChange) : Sought regs kind holder name signature (failWith cause)
  | noMethod (hkind : kind ≠ .dynamic) (hholder : kind = .interface ↔ HasInterface regs holder)
      (h : last? (methodUnder? holder name signature) regs = none) :
      Sought regs kind holder name signature (failWith (.noSuchMethod holder name signature))
  | found {m : Method} (h : kind.Finds regs holder name signature m) :
      Sought regs kind holder name signature (.ok m)

section Sought

variable {pool : Pool} {kind : InvokeKind} {p : UInt16} {holder name signature : Symbol} {regs : List Registration}

theorem Registry.sought_ofRegistrations (h : pool.Names kind p holder name signature) (regs : List Registration) :
    Sought regs kind holder name signature ((ofRegistrations regs).sought kind pool p) := by
  have hinterface := mem_interfaces_ofRegistrations regs holder
  have hlookup (hkind : kind ≠ .dynamic) (hholder : kind = .interface ↔ HasInterface regs holder) :
      Sought regs kind holder name signature ((ofRegistrations regs).lookupMethod pool p) := by
    rw [lookupMethod, h.holder hkind, h.name, h.signature]
    simp only [ok_bind, method?_ofRegistrations]
    cases hlast : last? (methodUnder? holder name signature) regs with
    | none => exact .noMethod hkind hholder hlast
    | some m => exact .found (.method hkind hholder hlast)
  unfold sought
  cases kind with
  | dynamic =>
      simp only [h.name, ok_bind, bootstrap?_ofRegistrations]
      cases hlast : last? (targetOf? name) regs with
      | none => exact .noBootstrap rfl hlast
      | some m => exact .found (.target hlast)
  | interface =>
      simp only [h.holder (by simp), ok_bind]
      by_cases hholder : holder ∈ (ofRegistrations regs).interfaces
      · rw [if_neg (not_not_intro hholder)]
        exact hlookup (by simp) (iff_of_true rfl (hinterface.mp hholder))
      · rw [if_pos hholder]
        exact .wrongHolder (by simp) (iff_of_true rfl (mt hinterface.mpr hholder)) rfl
  | virtual | special | static =>
      simp only [h.holder (by simp), ok_bind]
      by_cases hholder : holder ∈ (ofRegistrations regs).interfaces
      · rw [if_pos hholder]
        exact .wrongHolder (by simp) (iff_of_false (by simp) (not_not_intro (hinterface.mp hholder))) rfl
      · rw [if_neg hholder]
        exact hlookup (by simp) (iff_of_false (by simp) (mt hinterface.mpr hholder))

namespace InvokeKind

variable {m m' : Method}

theorem Finds.unique (h : Finds regs holder name signature kind m) (h' : Finds regs holder name signature kind m') :
    m = m' := by
  cases h with
  | target hlast =>
      cases h' with
      | target hlast' => exact Option.some.inj (hlast.symm.trans hlast')
      | method hkind => exact absurd rfl hkind
  | method hkind _ hlast =>
      cases h' with
      | target => exact absurd rfl hkind
      | method _ _ hlast' => exact Option.some.inj (hlast.symm.trans hlast')

/-- Where the names lead somewhere, nothing is missing. -/
theorem Finds.of_dynamic (h : Finds regs holder name signature kind m) (hkind : kind = .dynamic) :
    last? (targetOf? name) regs ≠ none := by
  cases h with
  | target hlast => simp [hlast]
  | method hother => exact absurd hkind hother

theorem Finds.of_method (h : Finds regs holder name signature kind m) (hkind : kind ≠ .dynamic) :
    (kind = .interface ↔ HasInterface regs holder) ∧ last? (methodUnder? holder name signature) regs ≠ none := by
  cases h with
  | target => exact absurd rfl hkind
  | method _ hholder hlast => exact ⟨hholder, by simp [hlast]⟩

end InvokeKind

variable {s : LinkState} {cache : Cache} {i : UInt32} {found : Except Error Method} {answer : Except Fault Method}
  {k : Constants}

/-- Over a slot that holds nothing of another kind, each case of linking is what the registrations ask for. -/
theorem InvokeStep.linksTo (h : InvokeStep s cache i kind found answer k)
    (hfound : Registry.Sought regs kind holder name signature found) (hcache : s.constants.cache = some cache)
    (hslot : cache.poolIndexAt i = .ok p)
    (hheld : ∀ e, cache.resolvedAt i = some e → e.kind = kind.resolvedKind) :
    ∃ cache', k.cache = some cache' ∧
      kind.LinksTo regs holder name signature (cache.resolvedAt i) answer (cache'.resolvedAt i) := by
  have hwinner (m : Method) : ((cache.resolvedAt i).getD (kind.outcome m)).kind = kind.resolvedKind := by
    cases hold : cache.resolvedAt i with
    | none => exact kind.kind_outcome m
    | some e => exact hheld e hold
  cases h with
  | unfound heq =>
      refine ⟨cache, hcache, ?_⟩
      cases hfound with
      | noBootstrap hkind hnone =>
          cases heq
          exact ⟨fun _ _ => ⟨_, rfl, rfl⟩, fun hother => absurd hkind hother, fun hother => absurd hkind hother,
            fun m hm => absurd hnone (hm.of_dynamic hkind), fun _ _ => rfl⟩
      | wrongHolder hkind hholder hcause =>
          cases heq
          refine ⟨fun hdynamic => absurd hdynamic hkind, fun _ _ => ⟨_, rfl, hcause⟩, fun _ hright => ?_,
            fun m hm => ?_, fun _ _ => rfl⟩
          · exact absurd (hright.symm.trans hholder) (iff_not_self ·)
          · exact absurd ((hm.of_method hkind).1.symm.trans hholder) (iff_not_self ·)
      | noMethod hkind hholder hnone =>
          cases heq
          refine ⟨fun hdynamic => absurd hdynamic hkind, fun _ hwrong => ?_, fun _ _ _ => ⟨_, rfl, rfl⟩,
            fun m hm => absurd hnone (hm.of_method hkind).2, fun _ _ => rfl⟩
          exact absurd (hholder.symm.trans hwrong) (iff_not_self ·)
      | found => cases heq
  | @linked m winner heq hgetD =>
      subst heq
      cases hfound with
      | found hm =>
          refine ⟨_, rfl, fun hkind hnone => absurd hnone (hm.of_dynamic hkind), fun hkind hwrong => ?_,
            fun hkind _ hnone => absurd hnone (hm.of_method hkind).2, fun m' hm' => ?_, by simp⟩
          · exact absurd ((hm.of_method hkind).1.symm.trans hwrong) (iff_not_self ·)
          · obtain rfl := hm.unique hm'
            refine ⟨winner, rfl, ?_, hgetD.symm⟩
            rw [Cache.resolvedAt_offer hslot, hgetD]
  | clash _ hgetD hkind => exact absurd (hgetD ▸ hwinner _) hkind

end Sought

/-! ### Sites -/

theorem MemberRef.exists_symbolicRef {m : MemberRef} {p : UInt16} (h : m.poolIndex = .ok p) :
    ∃ i, m.symbolicRef = .ok ⟨p, i⟩ := by
  have hindex := h
  rw [poolIndex] at h
  cases hcache : m.body.constants.cache with
  | none =>
      rw [hcache] at h
      cases h
  | some cache =>
      rw [hcache] at h
      obtain ⟨i, hi, -⟩ := bind_eq_ok.mp h
      refine ⟨i, ?_⟩
      rw [symbolicRef, hindex, hi]
      rfl

theorem InvokeKind.slow_of_ofOpcode? {op : Opcode} {kind : InvokeKind} (h : ofOpcode? op = some kind) :
    op.isFast = false := by
  unfold ofOpcode? at h
  split_ifs at h
  case pos | pos | pos | pos | pos =>
    subst op
    decide

/-- Before the first call the slots hold nothing. -/
theorem Allocator.holdsKinds_cache (b : Allocator) (pool : Pool) (tag : UInt32) :
    Constants.HoldsKinds ⟨pool, some (b.cache tag)⟩ := by
  rintro _ i p e kind ⟨⟩ - hheld
  rw [resolvedAt_cache] at hheld
  cases hheld

namespace RewrittenInTurn

variable {pool : Pool} {a b : Allocator} {pairs : List (Code × Code)} {before after : Code} {c : LinkedClass}
  {tag : UInt32} {bci : Nat} {op : Opcode} {kind : InvokeKind}

/-- Where a code has had a reference to a member, rewriting has left it, and through the cache for all slots it refers
to the same pool entry. -/
theorem exists_member (h : RewrittenInTurn pool a pairs b) (hsize : b.size < UInt32.size)
    (hmem : (before, after) ∈ pairs) (hstart : before.IsStart bci) (hop : before.opcodeAt bci = .ok op)
    (hslow : op.isFast = false) {wanted : ResolvedKind} (hmember : (Family.ofCanonical op).memberKind? = some wanted)
    (tag : UInt32) (mode : Mode) (method : Method) :
    ∃ p n e, before.encodedIndexAt bci = .ok p ∧ after.IsStart bci ∧ after.Occupies bci n op e ∧ e.canonical = op ∧
      e.family.memberKind? = some wanted ∧
      ((linkedBody method after pool (b.cache tag)).memberRefAt mode bci).poolIndex = .ok p := by
  obtain ⟨hstarts, -, hvisits⟩ := h.exists_visit hmem
  have hlt : bci < before.size := Code.lt_size_of_byteAt (Code.opcodeAt_eq_ok.mp hop)
  obtain ⟨n, op', e, s, t, m, m', hvisit, rfl, rfl, hextends⟩ := hvisits bci hstart hlt
  obtain rfl : op' = op := hvisit.opcode_eq hop
  have hentry := hvisit.occupies.entry
  rw [← FormatTable.family_of_slow hentry hslow] at hmember
  obtain ⟨hop', p, hindex, hpool⟩ : t.code.opcodeAt bci = .ok op' ∧ ∃ p, s.code.encodedIndexAt bci = .ok p ∧
      ((linkedBody method t.code pool (b.cache tag)).memberRefAt mode bci).poolIndex = .ok p :=
    hvisit.memberRef_poolIndex hextends hsize hslow (Family.mem_families_of_memberKind hmember)
  obtain ⟨raw, e', hocc, -⟩ := hvisit.occupies_after
  obtain rfl : raw = op' := Except.ok.inj (hocc.opcode.symm.trans hop')
  obtain rfl : e' = e := Option.some.inj (hocc.entry.symm.trans hentry)
  exact ⟨p, n, e', hindex, (hstarts bci).mpr hstart, hocc, (FormatTable.regular_standard hentry).2.2.2 hslow, hmember,
    hpool⟩

/-- Where a code has had an invoke, rewriting has left it, and through the cache for all slots it refers to the same
pool entry. -/
theorem exists_invoke (h : RewrittenInTurn pool a pairs b) (hsize : b.size < UInt32.size)
    (hmem : (before, after) ∈ pairs) (hstart : before.IsStart bci) (hop : before.opcodeAt bci = .ok op)
    (hkind : InvokeKind.ofOpcode? op = some kind) (tag : UInt32) (mode : Mode) (method : Method) :
    ∃ p n e, before.encodedIndexAt bci = .ok p ∧ after.IsStart bci ∧ after.Occupies bci n op e ∧
      e.family.memberKind? = some kind.resolvedKind ∧
      ((linkedBody method after pool (b.cache tag)).memberRefAt mode bci).poolIndex = .ok p ∧
      ((linkedBody method after pool (b.cache tag)).memberRefAt mode bci).invokeKind = .ok (some kind) := by
  obtain ⟨p, n, e, hindex, hstart', hocc, hcanonical, hmember, hpool⟩ := h.exists_member hsize hmem hstart hop
    (InvokeKind.slow_of_ofOpcode? hkind) (InvokeKind.memberKind?_family hkind) tag mode method
  refine ⟨p, n, e, hindex, hstart', hocc, hmember, hpool, ?_⟩
  have hopcode : ((linkedBody method after pool (b.cache tag)).memberRefAt mode bci).opcode = .ok e.canonical :=
    Cursor.opcode_of_entry hocc.opcode hocc.entry
  rw [MemberRef.invokeKind, hopcode, hcanonical, ← hkind]
  rfl

/-- The methods of a rewritten class refer by kind, whatever slots its allocator had taken before. -/
theorem refersByKind_of_rewritten (h : RewrittenInTurn pool a pairs b) (hsize : b.size < UInt32.size)
    (hslow : ∀ pair ∈ pairs, ∀ bci op, pair.1.IsStart bci → pair.1.opcodeAt bci = .ok op → op.isFast = false)
    (hcodes : c.codes = pairs.map Prod.snd) (hconstants : c.constants = ⟨pool, some (b.cache tag)⟩) :
    c.RefersByKind := by
  intro index code hcode
  rw [hcodes, List.getElem?_map, Option.map_eq_some_iff] at hcode
  obtain ⟨⟨before, after⟩, hpair, rfl⟩ := hcode
  have hmem := List.mem_of_getElem? hpair
  rw [LinkedClass.state, hconstants]
  exact h.refersByKind hsize hmem (hslow _ hmem) tag c.polls c.log

/-- A reference to a method. -/
def sampleItems : List PoolItem := [.methodRef "A" "f" "()V"]

/-- Code that calls the method. -/
def sampleInvoke : Code := ⟨#[0xb6, 0x00, 0x06, 0xb1]⟩

/-- A method that the reference names. -/
def sampleTarget (serial : Nat) : Method := ⟨serial, .ofString "A", .ofString "f", .ofString "()V"⟩

/-- The class of the code. -/
def sampleCaller : LinkedClass :=
  ⟨[(rewrite sampleInvoke (.ofItems sampleItems) .empty).code],
    ⟨.ofItems sampleItems, some ((rewrite sampleInvoke (.ofItems sampleItems) .empty).allocator.cache 7)⟩, 0, []⟩

end RewrittenInTurn

end MethodCode
