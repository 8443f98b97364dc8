import MethodCode.Linking.Constants
import MethodCode.Linking.Quicken
import MethodCode.Proofs.Linking.Clash
import MethodCode.Proofs.Linking.EntryKind
import MethodCode.Proofs.Linking.References
import MethodCode.Proofs.Linking.WriteOnce

/-! Resolution keeps the kinds of entries, as evaluation keeps the types of a store: what a slot is for is known
from the references of the class, and stays known, while what it holds comes later. `KeepsKinds` says that a
step which finds fitting entries leaves fitting entries and meets no other; steps are put together from those
that only look things up and one that publishes to a slot of the right kind. Main statement: resolving a member
reference or a constant keeps the kinds, if the reference names a slot for what its instruction asks for. -/

namespace MethodCode

open Fault (NoClash)

namespace Constants

/-- What the slots hold is of the kinds that they are for. -/
def EntriesFit (k : Constants) : Prop :=
  ∀ cache, k.cache = some cache → ∀ (j : Nat) slot e, cache.slots[j]? = some slot → slot.resolved = some e →
    k.pool.kindAt? slot.poolIndex = some e.kind

/-- The slot of a number is for outcomes of a kind. -/
def HasSlotFor (k : Constants) (i : UInt32) (kind : ResolvedKind) : Prop :=
  ∀ cache, k.cache = some cache → ∃ p, cache.poolIndexAt i = .ok p ∧ k.pool.kindAt? p = some kind

/-- The references of `k`, and entries that fit them. -/
structure Fits (c k : Constants) : Prop where
  references : c.references = k.references
  entries : c.EntriesFit

variable {c k : Constants} {cache : Cache} {i : UInt32} {p : UInt16} {kind : ResolvedKind}
  {outcome e : Resolved}

/-- What the slots are for depends on the references only. -/
theorem HasSlotFor.of_references (h : k.HasSlotFor i kind) (hreferences : c.references = k.references) :
    c.HasSlotFor i kind := by
  obtain ⟨hpool, hcaches⟩ := cases_of_references hreferences
  intro cache hcache
  rcases hcaches with ⟨hnone, -⟩ | ⟨cache', known, hsome, hknown, hsame⟩
  · rw [hnone] at hcache
    cases hcache
  · obtain rfl : cache' = cache := Option.some.inj (hsome.symm.trans hcache)
    obtain ⟨p, hp, hkind⟩ := h known hknown
    exact ⟨p, (Cache.poolIndexAt_congr hsame i).trans hp, hpool ▸ hkind⟩

theorem EntriesFit.kind_eq (h : k.EntriesFit) (hcache : k.cache = some cache)
    (hslot : cache.poolIndexAt i = .ok p) (hheld : cache.resolvedAt i = some e) :
    k.pool.kindAt? p = some e.kind := by
  obtain ⟨slot, hfound, rfl⟩ := Cache.poolIndexAt_eq_ok.mp hslot
  rw [Cache.resolvedAt, hfound] at hheld
  exact h cache hcache i.toNat slot e hfound hheld

/-- An outcome of the right kind may be offered to a slot. -/
theorem EntriesFit.offer (h : k.EntriesFit) (hcache : k.cache = some cache)
    (hslot : cache.poolIndexAt i = .ok p) (hkind : k.pool.kindAt? p = some outcome.kind) :
    EntriesFit { k with cache := some (cache.offer i outcome) } := by
  rintro _ ⟨⟩ j slot e hj he
  rw [Cache.getElem?_offer] at hj
  split at hj
  · rename_i hi
    obtain ⟨own, hown, rfl⟩ := Option.map_eq_some_iff.mp hj
    obtain hheld | rfl := CacheSlot.held_of_offer he
    · exact h cache hcache j own e hown hheld
    · obtain ⟨named, hfound, rfl⟩ := Cache.poolIndexAt_eq_ok.mp hslot
      obtain rfl : named = own := Option.some.inj (hfound.symm.trans (hi ▸ hown))
      exact hkind
  · exact h cache hcache j slot e hj he

end Constants

/-! ### Steps -/

/-- From fitting entries, a step comes to fitting entries, and it does not fail with a clash. -/
def KeepsKinds {α : Type} (k : Constants) (x : LinkM α) : Prop :=
  ∀ s, s.constants.Fits k → (exec x s).2.constants.Fits k ∧ Fails NoClash (exec x s).1

namespace KeepsKinds

variable {α β : Type} {k : Constants}

theorem pure (a : α) : KeepsKinds k (Pure.pure a) := fun _ hs => ⟨hs, .pure a⟩

theorem throw {f : Fault} (h : f.NoClash) : KeepsKinds k (MonadExcept.throw f : LinkM α) :=
  fun _ hs => ⟨hs, .throw h⟩

theorem throw_of {cause : Cause} (h : cause.isClash = false) :
    KeepsKinds k (MonadExcept.throw (Fault.of cause) : LinkM α) :=
  .throw (Fault.noClash_of h)

/-- What comes next may use that the first step has answered. -/
theorem bind_of {x : LinkM β} {f : β → LinkM α} (hx : KeepsKinds k x)
    (hf : ∀ b s t, s.constants.Fits k → exec x s = (.ok b, t) → KeepsKinds k (f b)) :
    KeepsKinds k (x >>= f) := by
  intro s hs
  obtain ⟨hfits, hfails⟩ := hx s hs
  rw [exec_bind]
  cases hexec : exec x s with
  | mk answer t =>
      rw [hexec] at hfits hfails
      cases answer with
      | error f => exact ⟨hfits, fun _ h => hfails _ (congrArg Except.error (Except.error.inj h))⟩
      | ok b => exact hf b s t hs hexec t hfits

theorem bind {x : LinkM β} {f : β → LinkM α} (hx : KeepsKinds k x) (hf : ∀ b, KeepsKinds k (f b)) :
    KeepsKinds k (x >>= f) :=
  hx.bind_of fun b _ _ _ _ => hf b

/-- A reading comes first, and what comes next may use what was read. -/
theorem lift_bind {x : Except Fault β} {f : β → LinkM α} (hx : Fails NoClash x)
    (hf : ∀ b, x = .ok b → KeepsKinds k (f b)) : KeepsKinds k (liftM x >>= f) := by
  intro s hs
  rw [exec_bind, exec_liftM]
  cases x with
  | error e => exact ⟨hs, fun _ h => hx _ (congrArg Except.error (Except.error.inj h))⟩
  | ok b => exact hf b rfl s hs

theorem liftError_bind {x : Except Error β} {f : β → LinkM α} (hx : Fails Error.NoClash x)
    (hf : ∀ b, x = .ok b → KeepsKinds k (f b)) : KeepsKinds k (liftM x >>= f) := by
  intro s hs
  rw [exec_bind, exec_liftM_error]
  cases x with
  | error e => exact ⟨hs, fun _ h => Fails.of_error hx _ (congrArg Except.error (Except.error.inj h))⟩
  | ok b => exact hf b rfl s hs

theorem poll (thread : Thread) : KeepsKinds k (LinkM.poll thread) := by
  intro s hs
  exact ⟨(LinkM.keeps_poll thread s).2 ▸ hs, .pure ()⟩

theorem report (event : Event) : KeepsKinds k (LinkM.report event) := fun _ hs => ⟨hs, .pure ()⟩

theorem get_bind {f : LinkState → LinkM α} (hf : ∀ s, KeepsKinds k (f s)) : KeepsKinds k (get >>= f) :=
  fun s hs => hf s s hs

/-- What a slot is for does not depend on the code. -/
theorem modify_code (code : Code) : KeepsKinds k (modify fun s => { s with code }) := fun _ hs => ⟨hs, .pure ()⟩

theorem pool_bind {f : Pool → LinkM α} (hf : KeepsKinds k (f k.pool)) : KeepsKinds k (LinkM.pool >>= f) := by
  intro s hs
  have hpool : s.constants.pool = k.pool := (Constants.cases_of_references hs.references).1
  have hread : exec LinkM.pool s = (.ok s.constants.pool, s) := rfl
  rw [exec_bind, hread, hpool]
  exact hf s hs

theorem within {x : LinkM α} (hx : KeepsKinds k x) (context : Context) :
    KeepsKinds k (LinkM.within context x) := by
  intro s hs
  obtain ⟨hfits, hfails⟩ := hx s hs
  change (exec (tryCatch x _) s).2.constants.Fits k ∧ Fails NoClash (exec (tryCatch x _) s).1
  rw [exec_tryCatch]
  cases hexec : exec x s with
  | mk answer t =>
      rw [hexec] at hfits hfails
      cases answer with
      | error f => exact ⟨hfits, .throw ((hfails f rfl).within context)⟩
      | ok a => exact ⟨hfits, .pure a⟩

/-- An outcome is published to a slot for its kind; what the slot held before is of the same kind. -/
theorem publish_bind {i : UInt32} {outcome : Resolved} {f : Resolved → LinkM α}
    (hslot : k.HasSlotFor i outcome.kind)
    (hf : ∀ winner, winner.kind = outcome.kind → KeepsKinds k (f winner)) :
    KeepsKinds k (LinkM.publish i outcome >>= f) := by
  intro s hs
  have hslot := hslot.of_references hs.references
  cases hcache : s.constants.cache with
  | none =>
      rw [exec_bind, LinkM.exec_publish_of_unlinked hcache]
      exact hf outcome rfl s hs
  | some cache =>
      obtain ⟨p, hp, hkind⟩ := hslot cache hcache
      have hwinner : ((cache.resolvedAt i).getD outcome).kind = outcome.kind := by
        cases hheld : cache.resolvedAt i with
        | none => rfl
        | some e => exact Option.some.inj ((hs.entries.kind_eq hcache hp hheld).symm.trans hkind)
      rw [exec_bind, LinkM.exec_publish hcache hp]
      exact hf _ hwinner _ ⟨(Constants.references_offer hcache i outcome).trans hs.references,
        hs.entries.offer hcache hp hkind⟩

end KeepsKinds

/-! ### Resolution -/

section Resolution

variable {k : Constants} {site : SymbolicRef} {r : Registry}

theorem Registry.keepsKinds_publishMethod {i : UInt32} (h : k.HasSlotFor i .method) (m : Method) :
    KeepsKinds k (publishMethod i m) := by
  refine .publish_bind h fun winner hwinner => ?_
  cases winner with
  | method winner => exact .pure winner
  | field | callSite | constant => cases hwinner

theorem Registry.keepsKinds_linkMethod {i : UInt32} (h : k.HasSlotFor i .method) (p : UInt16)
    (event : Method → Event) :
    KeepsKinds k (do
      let m ← r.lookupMethod k.pool p
      LinkM.report (event m)
      publishMethod i m) :=
  .liftError_bind (r.fails_lookupMethod _ _) fun m _ => .bind (.report _) fun _ => keepsKinds_publishMethod h m

theorem Registry.keepsKinds_resolveMethod (h : k.HasSlotFor site.cacheIndex .method) (thread : Thread) :
    KeepsKinds k (r.resolveMethod site thread) := by
  refine .bind (.poll thread) fun _ => .pool_bind ?_
  refine .liftError_bind (k.pool.fails_holderNameAt _) fun holder _ => ?_
  split
  · exact .throw_of rfl
  · exact keepsKinds_linkMethod h _ _

theorem Registry.keepsKinds_resolveInterfaceMethod (h : k.HasSlotFor site.cacheIndex .method)
    (thread : Thread) : KeepsKinds k (r.resolveInterfaceMethod site thread) := by
  refine .bind (.poll thread) fun _ => .pool_bind ?_
  refine .liftError_bind (k.pool.fails_holderNameAt _) fun holder _ => ?_
  split
  · exact .throw_of rfl
  · exact keepsKinds_linkMethod h _ _

theorem Registry.keepsKinds_resolveCallSite (h : k.HasSlotFor site.cacheIndex .callSite) (thread : Thread) :
    KeepsKinds k (r.resolveCallSite site thread) := by
  refine .bind (.poll thread) fun _ => .pool_bind ?_
  refine .liftError_bind (k.pool.fails_memberNameAt _) fun name _ => ?_
  split
  · exact .throw_of rfl
  · refine .bind (.report _) fun _ => .publish_bind h fun winner hwinner => ?_
    cases winner with
    | callSite winner => exact .pure winner
    | field | method | constant => cases hwinner

theorem Registry.keepsKinds_resolveField (h : k.HasSlotFor site.cacheIndex .field) (thread : Thread) :
    KeepsKinds k (r.resolveField site thread) := by
  refine .bind (.poll thread) fun _ => .pool_bind ?_
  refine .liftError_bind (k.pool.fails_holderNameAt _) fun holder _ => ?_
  refine .liftError_bind (k.pool.fails_memberNameAt _) fun name _ => ?_
  split
  · exact .throw_of rfl
  · refine .publish_bind h fun winner hwinner => ?_
    cases winner with
    | field winner => exact .pure winner
    | method | callSite | constant => cases hwinner

/-! ### Constants -/

theorem Pool.kindAt?_of_loadable {pool : Pool} {p : UInt16} {tag : ConstantTag} (htag : pool.tagAt p = .ok tag)
    (hload : tag.valueType ≠ .illegal) (hkind : (pool.kindAt? p).isSome) : pool.kindAt? p = some .constant := by
  rw [kindAt?_of_tagAt htag] at hkind ⊢
  cases tag with
  | methodHandle | methodType => rfl
  | integer | float | long | double | string | classRef => cases hkind
  | _ => exact absurd rfl hload

/-- Only an entry that can be loaded has a constant. -/
theorem LinkM.loadable_of_constantAt {p : UInt16} {thread : Thread} {s t : LinkState} {c : LoadedConstant}
    (h : exec (constantAt p thread) s = (.ok c, t)) :
    ∃ tag, s.constants.pool.tagAt p = .ok tag ∧ tag.valueType ≠ .illegal := by
  unfold constantAt at h
  obtain ⟨pool, u, hpool, h⟩ := exec_bind_eq_ok.mp h
  obtain ⟨rfl, rfl⟩ : s.constants.pool = pool ∧ s = u := by
    obtain ⟨hread, hsame⟩ := Prod.mk.inj hpool
    exact ⟨Except.ok.inj hread, hsame⟩
  obtain ⟨entry, hentry, h⟩ := exec_liftM_error_bind_eq_ok.mp h
  refine ⟨entry.tag, by rw [Pool.tagAt, hentry]; rfl, ?_⟩
  cases entry with
  | integer | float | long | double | string | classRef | methodHandle | methodType => exact nofun
  | _ => cases (Prod.mk.inj h).1

theorem LinkM.keepsKinds_constantAt (p : UInt16) (thread : Thread) : KeepsKinds k (constantAt p thread) := by
  have hreport (constant : LoadedConstant) : KeepsKinds k (do
      LinkM.report (.constantResolved thread.name p constant)
      return constant) :=
    .bind (.report _) fun _ => .pure _
  refine .pool_bind (.liftError_bind (k.pool.fails_entryAt p) fun entry _ => ?_)
  cases entry with
  | integer | float | long | double => exact .bind (.pure _) fun _ => hreport _
  | string => exact .liftError_bind (k.pool.fails_utf8At _) fun _ _ => .bind (.pure _) fun _ => hreport _
  | classRef =>
      exact .bind (.poll _) fun _ => .liftError_bind (k.pool.fails_utf8At _) fun _ _ =>
        .bind (.pure _) fun _ => hreport _
  | methodType =>
      exact .liftError_bind (k.pool.fails_utf8At _) fun _ _ => .liftError_bind (Descriptor.fails_resultType _)
        fun _ _ => .bind (.poll _) fun _ => .bind (.pure _) fun _ => hreport _
  | methodHandle =>
      exact .bind (.poll _) fun _ => .liftError_bind (k.pool.fails_memberNameAt _) fun _ _ =>
        .bind (.pure _) fun _ => hreport _
  | _ => exact .bind (.throw_of rfl) fun _ => hreport _

/-- Every slot is for something. -/
def Constants.SlotsKinded (k : Constants) : Prop :=
  ∀ cache i p, k.cache = some cache → cache.poolIndexAt i = .ok p → (k.pool.kindAt? p).isSome

/-- A constant goes to a slot only where a constant belongs, also for a caller that has taken the number of the
slot from another instruction. -/
theorem LinkM.keepsKinds_cachedConstantAt (hkinded : k.SlotsKinded) (i : UInt32) (thread : Thread) :
    KeepsKinds k (cachedConstantAt i thread) := by
  intro s hs
  obtain ⟨hpool, hcaches⟩ := Constants.cases_of_references hs.references
  unfold cachedConstantAt
  rw [exec_get_bind]
  rcases hcaches with ⟨hnone, -⟩ | ⟨cache, known, hsome, hknown, hsame⟩
  · rw [hnone]
    exact KeepsKinds.throw_of rfl s hs
  rw [hsome]
  dsimp only
  split
  · exact KeepsKinds.pure _ s hs
  · refine KeepsKinds.liftError_bind (cache.fails_poolIndexAt i) (fun p hp => ?_) s hs
    have hp' : known.poolIndexAt i = .ok p := (Cache.poolIndexAt_congr hsame i).symm.trans hp
    refine .bind_of (keepsKinds_constantAt p thread) fun c u t hu hexec => ?_
    have hslot : k.HasSlotFor i .constant := by
      intro cache' hcache'
      obtain rfl : known = cache' := Option.some.inj (hknown.symm.trans hcache')
      obtain ⟨tag, htag, hload⟩ := loadable_of_constantAt hexec
      rw [(Constants.cases_of_references hu.references).1] at htag
      exact ⟨p, hp', Pool.kindAt?_of_loadable htag hload (hkinded known i p hknown hp')⟩
    refine .publish_bind hslot fun winner hwinner => ?_
    cases winner with
    | constant winner => exact .pure winner
    | field | method | callSite => cases hwinner

theorem LoadConstant.keepsKinds_resolve (l : LoadConstant) (hkinded : k.SlotsKinded) (thread : Thread) :
    KeepsKinds k (l.resolve thread) := by
  refine .lift_bind l.fails_boundBody fun body _ => .lift_bind (.of_breach l.fails_rawIndex) fun index _ =>
    .lift_bind (.of_breach l.fails_hasCacheIndex) fun cached _ => ?_
  dsimp only
  split
  · exact (LinkM.keepsKinds_cachedConstantAt hkinded _ thread).within _
  · exact (LinkM.keepsKinds_constantAt _ thread).within _

/-! ### Member references -/

theorem Cursor.family_of_opcode {c : Cursor} {op : Opcode} (h : c.opcode = .ok op) :
    c.family = .ok (Family.ofCanonical op) := by
  obtain ⟨raw, hraw, hop⟩ := bind_eq_ok.mp h
  rw [family, hraw, ok_bind, FormatTable.family, hop]
  rfl

theorem InvokeKind.memberKind_eq {op : Opcode} {kind : InvokeKind} (h : ofOpcode? op = some kind) :
    (Family.ofCanonical op).memberKind? = some (if kind = .dynamic then .callSite else .method) := by
  unfold ofOpcode? at h
  split_ifs at h with h₁ h₂ h₃ h₄ h₅
  case pos | pos | pos | pos | pos =>
    obtain rfl := Option.some.inj h
    subst op
    decide

theorem FieldAccess.memberKind_eq {op : Opcode} (h : (ofOpcode? op).isNone = false) :
    (Family.ofCanonical op).memberKind? = some .field := by
  unfold ofOpcode? at h
  split_ifs at h with h₁ h₂ h₃ h₄
  case pos | pos | pos | pos =>
    subst op
    decide
  case neg => cases h

namespace MemberRef

/-- The reference is one of the class, and if it refers to a member at all, then to one of the kind that its
family asks for. -/
structure Suits (r : MemberRef) (k : Constants) : Prop where
  references : r.body.constants.references = k.references
  kind : ∀ family p, r.cursor.family = .ok family → family ∈ families → r.poolIndex = .ok p →
    k.pool.kindAt? p = family.memberKind?

variable {m : MemberRef} {op : Opcode} {kind : ResolvedKind}

/-- A reference that tells its slot and its pool entry has read one off the other. -/
theorem slot_of_symbolicRef (hsite : m.symbolicRef = .ok site) :
    m.poolIndex = .ok site.poolIndex ∧ m.cacheIndex = .ok site.cacheIndex ∧
      ∃ cache, m.body.constants.cache = some cache ∧ cache.poolIndexAt site.cacheIndex = .ok site.poolIndex := by
  obtain ⟨p, hp, hrest⟩ := bind_eq_ok.mp hsite
  obtain ⟨i, hi, hrest⟩ := bind_eq_ok.mp hrest
  obtain rfl := Except.ok.inj hrest
  refine ⟨hp, hi, ?_⟩
  rw [poolIndex] at hp
  cases hcache : m.body.constants.cache with
  | none =>
      rw [hcache] at hp
      cases hp
  | some cache =>
      rw [hcache] at hp
      dsimp only at hp
      rw [hi, ok_bind] at hp
      refine ⟨cache, rfl, ?_⟩
      cases hslot : cache.poolIndexAt i with
      | error e =>
          rw [hslot] at hp
          cases hp
      | ok q =>
          rw [hslot] at hp
          exact congrArg Except.ok (Except.ok.inj hp)

/-- The slot that a resolver is asked to fill is for what the instruction asks for. -/
theorem Suits.hasSlotFor (h : m.Suits k) (hsite : m.symbolicRef = .ok site) (hop : m.opcode = .ok op)
    (hkind : (Family.ofCanonical op).memberKind? = some kind) : k.HasSlotFor site.cacheIndex kind := by
  obtain ⟨hp, -, cache, hcache, hslot⟩ := slot_of_symbolicRef hsite
  have hnamed : k.pool.kindAt? site.poolIndex = some kind :=
    (h.kind _ _ (Cursor.family_of_opcode hop) (Family.mem_families_of_memberKind hkind) hp).trans hkind
  refine Constants.HasSlotFor.of_references (k := m.body.constants) (fun known hknown => ?_) h.references.symm
  obtain rfl := Option.some.inj (hcache.symm.trans hknown)
  exact ⟨_, hslot, (Constants.cases_of_references h.references).1 ▸ hnamed⟩

theorem keepsKinds_staticTarget (h : m.Suits k) (thread : Thread) : KeepsKinds k (m.staticTarget r thread) := by
  refine .lift_bind m.fails_symbolicRef fun site hsite => .lift_bind (.of_breach m.fails_invokeKind)
    fun kind hkind => ?_
  obtain ⟨op, hop, hinvoke⟩ := bind_eq_ok.mp hkind
  obtain rfl := Except.ok.inj hinvoke
  cases hinvoke : InvokeKind.ofOpcode? op with
  | none => exact .lift_bind (.of_breach m.cursor.fails_name) fun _ _ => .throw_of rfl
  | some kind =>
      have hslot := h.hasSlotFor hsite hop (InvokeKind.memberKind_eq hinvoke)
      cases kind with
      | dynamic => exact r.keepsKinds_resolveCallSite hslot thread
      | interface => exact r.keepsKinds_resolveInterfaceMethod hslot thread
      | virtual | special | static => exact r.keepsKinds_resolveMethod hslot thread

theorem keepsKinds_resolveField (h : m.Suits k) (thread : Thread) : KeepsKinds k (m.resolveField r thread) := by
  refine .lift_bind (.of_breach m.fails_fieldAccess) fun access haccess => ?_
  obtain ⟨op, hop, haccess⟩ := bind_eq_ok.mp haccess
  obtain rfl := Except.ok.inj haccess
  split
  · exact .lift_bind (.of_breach m.cursor.fails_name) fun _ _ => .throw_of rfl
  · rename_i hnone
    refine .lift_bind m.fails_symbolicRef fun site hsite => ?_
    have hsome := FieldAccess.memberKind_eq (Bool.eq_false_iff.mpr hnone)
    exact r.keepsKinds_resolveField (h.hasSlotFor hsite hop hsome) thread

theorem eq_of_decode {mode : Mode} {body : MethodBody} {bci : Nat} (h : decode mode body bci = .ok m) :
    m = body.memberRefAt mode bci := by
  obtain ⟨_, -, h⟩ := bind_eq_ok.mp h
  obtain ⟨kind, -, h⟩ := bind_eq_ok.mp h
  split at h
  · obtain ⟨_, -, h⟩ := bind_eq_ok.mp h
    exact (Except.ok.inj h).symm
  · exact (Except.ok.inj h).symm

end MemberRef

/-! ### Quickening -/

namespace LinkM

variable {mode : Mode} {bci : Nat} {body : MethodBody}

theorem keepsKinds_fastAccess (h : (body.memberRefAt mode bci).Suits k) (raw : Opcode) (thread : Thread) :
    KeepsKinds k (fastAccess body mode bci raw r thread) := by
  refine .lift_bind (.of_breach (MemberRef.fails_decode mode body bci)) fun access haccess => ?_
  obtain rfl := MemberRef.eq_of_decode haccess
  refine .bind (MemberRef.keepsKinds_resolveField h thread) fun field => ?_
  cases field.isStatic with
  | true => exact .throw_of rfl
  | false =>
      cases raw.fastField? field.type with
      | some fast => exact .pure fast
      | none => exact .throw_of rfl

theorem keepsKinds_fastForm (h : (body.memberRefAt mode bci).Suits k) (raw : Opcode) (thread : Thread) :
    KeepsKinds k (fastForm body mode bci raw r thread) := by
  unfold fastForm
  split
  · exact .bind (keepsKinds_fastAccess h raw thread) fun _ => .pure _
  split
  · split
    · refine .lift_bind (.of_breach (Cursor.fails_rawOpcode _)) fun next _ => ?_
      split
      · exact .bind (.report _) fun _ => .pure _
      · exact .pure _
    · exact .pure _
  · exact .pure _

/-- Quickening resolves a field, and otherwise it changes the code alone. -/
theorem keepsKinds_quicken {method : Method} {s : LinkState} (hs : s.constants.Fits k)
    (h : (MethodBody.memberRefAt ⟨method, s.code, s.constants⟩ mode bci).Suits k) (thread : Thread) :
    (exec (quicken mode method bci r thread) s).2.constants.Fits k ∧
      Fails NoClash (exec (quicken mode method bci r thread) s).1 := by
  have hbody : exec (bodyOf method) s = (.ok ⟨method, s.code, s.constants⟩, s) := rfl
  unfold quicken
  rw [exec_bind, hbody]
  refine KeepsKinds.lift_bind (.of_breach (Cursor.fails_rawOpcode _)) (fun raw _ => ?_) s hs
  refine .bind (keepsKinds_fastForm h raw thread) fun form => ?_
  split
  · exact .pure _
  · rename_i fast
    refine .lift_bind (.of_breach (fails_check (Cursor.fails_lengthChange _ _ _ _))) fun _ _ =>
      .get_bind fun u => .lift_bind (.of_breach (u.code.fails_setOpcode bci fast)) fun code _ =>
        .bind (.modify_code code) fun _ => ?_
    exact .lift_bind (.of_breach (FormatTable.fails_name _ _)) fun _ _ =>
      .lift_bind (.of_breach (FormatTable.fails_name _ _)) fun _ _ => .bind (.report _) fun _ => .pure _

end LinkM

end Resolution

end MethodCode
