import MethodCode.Proofs.Linking.InvokeStep
import MethodCode.Proofs.Linking.LinkedClass
import MethodCode.Proofs.Linking.MadeConstants
import MethodCode.Proofs.Linking.QuickenStep

/-! What one call does to the slots. Whichever view is called on, at most one outcome is offered to one slot, and
it is of the kind that the pool entry of this slot names, if that names one. A slot that was taken for an entry of
some other kind may hold anything; no instruction that has been rewritten refers to it, so it need not be excluded.
Main statement: over the cache of any allocator, with whatever calls, every method looks the same as it did before
them, and every slot for a member or a constant holds nothing else. -/

namespace MethodCode

open FormatTable (standard)

/-- What a call on a view makes of the constants of a class. -/
inductive Constants.Offered (k : Constants) : Constants → Prop where
  | nothing : k.Offered k
  | outcome {cache : Cache} {i : UInt32} {p : UInt16} {e : Resolved} (hcache : k.cache = some cache)
      (hslot : cache.poolIndexAt i = .ok p) (hkind : ∀ kind, k.pool.kindAt? p = some kind → e.kind = kind) :
      k.Offered { k with cache := some (cache.offer i e) }

/-- Where the pool entry of a slot names a kind, the slot holds nothing of another one. -/
def Constants.HoldsKinds (k : Constants) : Prop :=
  ∀ cache i p e kind, k.cache = some cache → cache.poolIndexAt i = .ok p → cache.resolvedAt i = some e →
    k.pool.kindAt? p = some kind → e.kind = kind

namespace Constants.Offered

variable {k k' : Constants}

theorem references (h : k.Offered k') : k'.references = k.references := by
  cases h with
  | nothing => rfl
  | outcome hcache => exact Constants.references_offer hcache _ _

theorem holdsKinds (h : k.Offered k') (hk : k.HoldsKinds) : k'.HoldsKinds := by
  cases h with
  | nothing => exact hk
  | @outcome cache i p offered hcache hslot hkind =>
      rintro _ j q e kind ⟨⟩ hindex hheld hnamed
      obtain ⟨hindex, hold⟩ | ⟨rfl, rfl⟩ := Cache.held_of_offer hslot hindex hheld
      · exact hk cache j q e kind hcache hindex hold hnamed
      · exact hkind kind hnamed

end Constants.Offered

/-! ### Steps -/

/-- From a state, a step offers at most one outcome. -/
def Offers {α : Type} (s : LinkState) (x : LinkM α) : Prop := s.constants.Offered (exec x s).2.constants

namespace Offers

variable {α β : Type} {s : LinkState}

theorem of_sameClass {x : LinkM α} (h : s.SameClass (exec x s).2) : Offers s x := by
  unfold Offers
  rw [h.2]
  exact .nothing

theorem throw (f : Fault) : Offers s (MonadExcept.throw f : LinkM α) := .nothing

/-- A reading comes first, and what comes next may use what was read. -/
theorem lift_bind {x : Except Fault β} {f : β → LinkM α} (hf : ∀ b, x = .ok b → Offers s (f b)) :
    Offers s (liftM x >>= f) := by
  unfold Offers
  rw [exec_bind, exec_liftM]
  cases x with
  | error e => exact .nothing
  | ok b => exact hf b rfl

theorem discard {x : LinkM α} (h : Offers s x) : Offers s (Functor.discard x) := by
  unfold Offers
  rw [exec_discard]
  exact h

theorem within {x : LinkM α} (h : Offers s x) (context : Context) : Offers s (x.within context) := by
  change s.constants.Offered (exec (tryCatch x _) s).2.constants
  rw [exec_tryCatch]
  unfold Offers at h
  rcases hexec : exec x s with ⟨_ | _, t⟩ <;>
  · rw [hexec] at h
    exact h

end Offers

/-! ### Member references -/

section MemberRef

variable {s : LinkState} {mode : Mode} {method : Method} {bci : Nat} {family : Family} {site : SymbolicRef}
  {registry : Registry} {thread : Thread}

/-- The slot of a member reference is for what its family asks for. -/
theorem LinkState.RefersByKind.slot (h : s.RefersByKind) (hstart : s.code.IsStart bci)
    (hfamily : ((s.body method).cursor mode bci).family = .ok family) (hmember : family ∈ MemberRef.families)
    (hsite : ((s.body method).memberRefAt mode bci).symbolicRef = .ok site) :
    ∃ cache, s.constants.cache = some cache ∧ cache.poolIndexAt site.cacheIndex = .ok site.poolIndex ∧
      s.constants.pool.kindAt? site.poolIndex = family.memberKind? := by
  obtain ⟨hp, -, cache, hcache, hslot⟩ := MemberRef.slot_of_symbolicRef hsite
  exact ⟨cache, hcache, hslot, h bci mode method family _ hstart hfamily hmember hp⟩

theorem InvokeKind.memberKind?_family {op : Opcode} {kind : InvokeKind} (h : ofOpcode? op = some kind) :
    (Family.ofCanonical op).memberKind? = some kind.resolvedKind :=
  (memberKind_eq h).trans (by cases kind <;> rfl)

/-- What the names of an invoke lead to is offered to its slot. -/
theorem offers_staticTarget (h : s.RefersByKind) (hstart : s.code.IsStart bci) :
    Offers s (((s.body method).memberRefAt mode bci).staticTarget registry thread) := by
  cases hsite : ((s.body method).memberRefAt mode bci).symbolicRef with
  | error f =>
      unfold MemberRef.staticTarget
      refine .lift_bind fun site hok => ?_
      rw [hsite] at hok
      cases hok
  | ok site =>
      cases hinvoke : ((s.body method).memberRefAt mode bci).invokeKind with
      | error f =>
          unfold MemberRef.staticTarget
          refine .lift_bind fun _ _ => .lift_bind fun kind hok => ?_
          rw [hinvoke] at hok
          cases hok
      | ok invoke =>
          cases invoke with
          | none =>
              unfold MemberRef.staticTarget
              refine .lift_bind fun _ _ => .lift_bind fun kind hok => ?_
              obtain rfl := Except.ok.inj (hinvoke.symm.trans hok)
              exact .lift_bind fun _ _ => .throw _
          | some kind =>
              obtain ⟨op, hop, hkind⟩ := bind_eq_ok.mp hinvoke
              have hkind := InvokeKind.memberKind?_family (Except.ok.inj hkind)
              obtain ⟨cache, hcache, hslot, hnamed⟩ := h.slot hstart (Cursor.family_of_opcode hop)
                (Family.mem_families_of_memberKind hkind) hsite
              obtain ⟨answer, t, hexec, -, -, hstep⟩ := registry.exec_link hcache hslot kind thread
              rw [Offers, MemberRef.exec_staticTarget hsite hinvoke, hexec]
              have hoffered (m : Method) (wanted : ResolvedKind)
                  (hwanted : s.constants.pool.kindAt? site.poolIndex = some wanted) :
                  (kind.outcome m).kind = wanted := by
                rw [hnamed, hkind] at hwanted
                exact (kind.kind_outcome m).trans (Option.some.inj hwanted)
              generalize t.constants = k at hstep
              cases hstep with
              | unfound => exact .nothing
              | linked | clash => exact .outcome hcache hslot (hoffered _)

/-- The field that a reference names is offered to its slot. -/
theorem offers_resolveField (h : s.RefersByKind) (hstart : s.code.IsStart bci) :
    Offers s (((s.body method).memberRefAt mode bci).resolveField registry thread) := by
  unfold MemberRef.resolveField
  refine .lift_bind fun access haccess => ?_
  obtain ⟨op, hop, haccess⟩ := bind_eq_ok.mp haccess
  obtain rfl := Except.ok.inj haccess
  split
  · exact .lift_bind fun _ _ => .throw _
  · rename_i hnone
    refine .lift_bind fun site hsite => ?_
    have hkind := FieldAccess.memberKind_eq (Bool.eq_false_iff.mpr hnone)
    obtain ⟨cache, hcache, hslot, hnamed⟩ := h.slot hstart (Cursor.family_of_opcode hop)
      (Family.mem_families_of_memberKind hkind) hsite
    rcases hexec : exec (registry.resolveField site thread) s with ⟨answer, t⟩
    obtain ⟨-, hstep⟩ := Registry.fieldStep hcache hslot hexec
    have hoffered (wanted : ResolvedKind) (hwanted : s.constants.pool.kindAt? site.poolIndex = some wanted) :
        .field = wanted := by
      rw [hnamed, hkind] at hwanted
      exact Option.some.inj hwanted
    rw [Offers, hexec]
    generalize t.constants = k at hstep
    cases hstep with
    | unfound => exact .nothing
    | linked | clash => exact .outcome hcache hslot hoffered

/-- Quickening offers the field of an access. -/
theorem offers_quicken (h : s.RefersByKind) (hstart : s.code.IsStart bci) :
    Offers s (LinkM.quicken mode method bci registry thread) := by
  obtain ⟨answer, t, hexec, hstep⟩ := quicken_step mode method bci registry thread s
  have haccess {raw : Opcode} {cache : Cache} {i : UInt32} {f : Field} (hop : s.code.opcodeAt bci = .ok raw)
      (hraw : raw = .getfield ∨ raw = .putfield) (hcache : s.constants.cache = some cache)
      (hsite : registry.fieldSite? s bci = some (i, f)) :
      s.constants.Offered { s.constants with cache := some (cache.offer i (.field f)) } := by
    obtain ⟨p, hsite, -⟩ := (Registry.fieldSite?_of_symbolicRef mode method hop hraw).mp hsite
    obtain ⟨e, he, hfamily⟩ := exists_fieldAccess hraw
    have hcursor : ((s.body method).cursor mode bci).family = .ok e.family := Cursor.family_of_entry hop he
    obtain ⟨known, hknown, hslot, hnamed⟩ := h.slot hstart hcursor (by rw [hfamily]; decide) hsite
    obtain rfl : known = cache := Option.some.inj (hknown.symm.trans hcache)
    refine .outcome hcache hslot fun wanted hwanted => ?_
    rw [hnamed, hfamily] at hwanted
    exact Option.some.inj hwanted
  rw [Offers, hexec]
  generalize t.code = code, t.constants = k at hstep
  cases hstep with
  | idle | waits | load | unresolved => exact .nothing
  | formless hop hraw hcache hsite => exact haccess hop hraw hcache hsite
  | access hop hraw hcache hsite => exact haccess hop hraw hcache hsite

/-- A member reference decodes in every state that looks the same, and reports the same. -/
theorem LinkState.LooksLike.memberRef {t : LinkState} {n : Nat} {op : Opcode} {e : FormatEntry} {cache : Cache}
    (h : t.LooksLike s) (hstart : s.code.IsStart bci) (hocc : s.code.Occupies bci n op e)
    (hmember : e.family ∈ MemberRef.families) (hcache : t.constants.cache = some cache) (mode : Mode)
    (method : Method) :
    MemberRef.decode mode (t.body method) bci = .ok ((t.body method).memberRefAt mode bci) ∧
      ((t.body method).cursor mode bci).family = .ok e.family ∧
      ((t.body method).memberRefAt mode bci).report = ((s.body method).memberRefAt mode bci).report := by
  obtain ⟨op', e', hocc'⟩ := Code.lengthAt_eq_some_iff.mp ((h.lengths bci hstart).trans hocc.lengthAt)
  have hfamily : ((s.body method).cursor mode bci).family = .ok e.family :=
    Cursor.family_of_entry hocc.opcode hocc.entry
  have hfamily' : ((t.body method).cursor mode bci).family = .ok e'.family :=
    Cursor.family_of_entry hocc'.opcode hocc'.entry
  have hreport := congrArg Cursor.Report.family (h.reports bci mode method hstart)
  have hsame : e'.family = e.family := Except.ok.inj (hfamily'.symm.trans (hreport.trans hfamily))
  exact ⟨MemberRef.decode_of_family hocc'.opcode hocc'.entry (hsame ▸ hmember) hcache, hsame ▸ hfamily',
    h.memberRefs bci mode method e.family hstart hfamily hmember⟩

end MemberRef

/-! ### Constants -/

section Constant

variable {s : LinkState} {thread : Thread}

theorem offers_cachedConstantAt (i : UInt32) : Offers s (LinkM.cachedConstantAt i thread) := by
  cases hcache : s.constants.cache with
  | none =>
      unfold Offers LinkM.cachedConstantAt
      rw [exec_get_bind, hcache]
      exact .nothing
  | some cache =>
      obtain ⟨answer, t, hexec, hstep⟩ := cachedStep hcache i thread
      rw [Offers, hexec]
      generalize t.constants = k at hstep
      cases hstep with
      | held | noSlot | unmade => exact .nothing
      | made hslot hmake | clash hslot hmake =>
          exact .outcome hcache hslot fun kind hkind => (Pool.eq_constant_of_kindAt? hmake hkind).symm

theorem offers_resolve (l : LoadConstant) : Offers s (l.resolve thread) := by
  unfold LoadConstant.resolve
  refine .lift_bind fun body _ => .lift_bind fun index _ => .lift_bind fun cached _ => .within ?_ _
  split
  · exact offers_cachedConstantAt _
  · exact .of_sameClass (LinkM.keeps_constantAt _ _ s)

end Constant

/-! ### Calls -/

/-- A call at an instruction start offers at most one outcome, and one that suits its slot. -/
theorem ViewCall.offered (call : ViewCall) {s : LinkState} (h : s.RefersByKind)
    (hstart : s.code.IsStart call.bci) : s.constants.Offered (exec call.run s).2.constants := by
  have hbody : exec (LinkM.bodyOf call.method) s = (.ok (s.body call.method), s) := rfl
  unfold run
  rw [exec_bind, hbody]
  dsimp only
  cases call.operation with
  | staticTarget =>
      refine Offers.lift_bind fun r hr => ?_
      obtain rfl := MemberRef.eq_of_decode hr
      exact (offers_staticTarget h hstart).discard
  | resolveField =>
      refine Offers.lift_bind fun r hr => ?_
      obtain rfl := MemberRef.eq_of_decode hr
      exact (offers_resolveField h hstart).discard
  | quicken => exact (offers_quicken h hstart).discard
  | resolveConstant => exact Offers.lift_bind fun l _ => (offers_resolve l).discard

namespace LinkedClass

variable {c d f : LinkedClass}

/-- Method by method, one class looks like another, and refers to the same. -/
structure LooksLike (d c : LinkedClass) : Prop where
  references : d.constants.references = c.constants.references
  methods : ∀ index : Nat,
    Option.Rel (fun code' code => (d.state code').LooksLike (c.state code)) d.codes[index]? c.codes[index]?

theorem LooksLike.refl (c : LinkedClass) : c.LooksLike c where
  references := rfl
  methods index := by
    cases c.codes[index]? with
    | none => exact .none
    | some code => exact .some (.refl _)

theorem LooksLike.trans (h : f.LooksLike d) (h' : d.LooksLike c) : f.LooksLike c where
  references := h.references.trans h'.references
  methods index := by
    have hfirst := h'.methods index
    have hsecond := h.methods index
    generalize c.codes[index]? = code, d.codes[index]? = code', f.codes[index]? = code'' at hfirst hsecond ⊢
    cases hfirst with
    | none =>
        cases hsecond
        exact .none
    | some hlooks =>
        cases hsecond with
        | some hlooks' => exact .some (hlooks'.trans hlooks)

/-- The instructions of every method refer to entries of the kinds that they ask for. -/
def RefersByKind (c : LinkedClass) : Prop :=
  ∀ (index : Nat) (code : Code), c.codes[index]? = some code → (c.state code).RefersByKind

theorem LooksLike.refersByKind (h : d.LooksLike c) (hc : c.RefersByKind) : d.RefersByKind := by
  intro index code' hcode'
  have hmethod := h.methods index
  rw [hcode'] at hmethod
  generalize hcode : c.codes[index]? = found at hmethod
  cases hmethod with
  | some hlooks =>
      exact (hc index _ hcode).of_looksLike hlooks (Constants.cases_of_references h.references).1

theorem LooksLike.exists_code (h : d.LooksLike c) {index : Nat} {code : Code} (hcode : c.codes[index]? = some code) :
    ∃ code', d.codes[index]? = some code' ∧ (d.state code').LooksLike (c.state code) := by
  have hmethod := h.methods index
  rw [hcode] at hmethod
  generalize d.codes[index]? = found at hmethod ⊢
  cases hmethod with
  | some hlooks => exact ⟨_, rfl, hlooks⟩

theorem LooksLike.isStart (h : d.LooksLike c) {index bci : Nat} (hstart : c.IsStart index bci) :
    d.IsStart index bci := by
  obtain ⟨code, hcode, hstart⟩ := hstart
  obtain ⟨code', hcode', hlooks⟩ := h.exists_code hcode
  exact ⟨code', hcode', (hlooks.isStart bci).mpr hstart⟩

/-- One call. -/
theorem looksLike_call (hrefers : c.RefersByKind) (hkinds : c.constants.HoldsKinds)
    (hlinked : c.constants.cache.isSome) (call : ViewCall) (hstart : c.IsStart call.index call.bci) :
    (c.call call).2.LooksLike c ∧ (c.call call).2.constants.HoldsKinds := by
  obtain ⟨code, hcode, hstart⟩ := hstart
  obtain ⟨cache, hcache⟩ := Option.isSome_iff_exists.mp hlinked
  have hoffered := call.offered (hrefers call.index code hcode) hstart
  have hlooks := call.looksLike (s := c.state code) hcache hoffered.references hstart
  rw [call_of_code hcode]
  refine ⟨⟨hoffered.references, fun index => ?_⟩, hoffered.holdsKinds hkinds⟩
  dsimp only
  by_cases hindex : call.index = index
  · subst hindex
    rw [List.getElem?_set_self (List.getElem?_eq_some_iff.mp hcode).1, hcode]
    exact .some hlooks
  · rw [List.getElem?_set_ne hindex]
    cases c.codes[index]? with
    | none => exact .none
    | some other => exact .some (.of_references rfl hoffered.references)

/-- Any number of calls. -/
theorem looksLike_runAll (hrefers : c.RefersByKind) (hkinds : c.constants.HoldsKinds)
    (hlinked : c.constants.cache.isSome) (calls : List ViewCall)
    (hstarts : ∀ call ∈ calls, c.IsStart call.index call.bci) :
    (c.runAll calls).LooksLike c ∧ (c.runAll calls).constants.HoldsKinds := by
  induction calls generalizing c with
  | nil => exact ⟨.refl c, hkinds⟩
  | cons call calls ih =>
      obtain ⟨hlooks, hkinds'⟩ := looksLike_call hrefers hkinds hlinked call (hstarts call List.mem_cons_self)
      have hlinked' : (c.call call).2.constants.cache.isSome := by
        obtain ⟨-, ⟨-, hnone⟩ | ⟨_, _, hsome, -⟩⟩ := Constants.cases_of_references hlooks.references
        · rw [hnone] at hlinked
          cases hlinked
        · rw [hsome]
          rfl
      obtain ⟨hrest, hkinds''⟩ := ih (hlooks.refersByKind hrefers) hkinds' hlinked' fun later hlater =>
        hlooks.isStart (hstarts later (List.mem_cons_of_mem _ hlater))
      exact ⟨hrest.trans hlooks, hkinds''⟩

end LinkedClass

end MethodCode
