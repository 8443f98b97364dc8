import MethodCode.Proofs.Linking.PoolIndex

/-! What cache slots are for. A slot is taken for a pool entry, and the tag of the entry fixes the kind of
what a reference through it can resolve to. Rewriting looks at the tag before it takes a slot, so all families
of instructions may draw on one allocator. Main statements: every slot that rewriting takes is for something,
and a member reference that has been rewritten refers to an entry of the kind that its family asks for. -/

namespace MethodCode

/-- The kind of what a reference through a pool entry resolves to; constants that stand in the pool and parts
of other entries are not behind the cache. -/
def ConstantTag.resolvedKind? : ConstantTag → Option ResolvedKind
  | fieldRef => some .field
  | methodRef | interfaceMethodRef => some .method
  | invokeDynamic => some .callSite
  | methodHandle | methodType => some .constant
  | _ => none

/-- The kind of what a reference through the entry at an index resolves to. -/
def Pool.kindAt? (pool : Pool) (index : UInt16) : Option ResolvedKind :=
  (pool.tagAt index).toOption.bind ConstantTag.resolvedKind?

/-- The kind of what a member reference of a family resolves to. -/
def Family.memberKind? : Family → Option ResolvedKind
  | .fieldAccess => some .field
  | .invoke => some .method
  | .dynamicInvoke => some .callSite
  | _ => none

variable {pool : Pool} {p : UInt16} {tag : ConstantTag} {family : Family}

theorem Pool.kindAt?_of_tagAt (h : pool.tagAt p = .ok tag) : pool.kindAt? p = tag.resolvedKind? := by
  rw [kindAt?, h]
  rfl

theorem Pool.kindAt?_eq_some {kind : ResolvedKind} :
    pool.kindAt? p = some kind ↔ ∃ tag, pool.tagAt p = .ok tag ∧ tag.resolvedKind? = some kind := by
  unfold kindAt?
  cases pool.tagAt p with
  | error e => simp [Except.toOption]
  | ok tag => simp [Except.toOption]

theorem Family.resolvedKind?_of_memberTag (h : tag ∈ family.memberTags) :
    tag.resolvedKind? = family.memberKind? := by
  cases family with
  | fieldAccess | dynamicInvoke =>
      obtain rfl := List.mem_singleton.mp h
      rfl
  | invoke =>
      simp only [memberTags, List.mem_cons, List.not_mem_nil, or_false] at h
      rcases h with rfl | rfl <;> rfl
  | _ => cases h

theorem ConstantTag.resolvedKind?_of_executable (h : tag.isExecutableReference = true) :
    tag.resolvedKind? = some .constant := by
  cases tag with
  | methodHandle | methodType => rfl
  | _ => cases h

theorem Family.mem_families_of_memberKind {kind : ResolvedKind} (h : family.memberKind? = some kind) :
    family ∈ MemberRef.families := by
  cases family with
  | fieldAccess | invoke | dynamicInvoke => decide
  | _ => cases h

/-! ### Slots taken -/

namespace Allocator

/-- Every slot taken is for an entry that resolves to something. -/
def IsKinded (a : Allocator) (pool : Pool) : Prop :=
  ∀ slot ∈ a.slots, (pool.kindAt? slot.poolIndex).isSome

variable {a : Allocator}

theorem isKinded_empty (pool : Pool) : empty.IsKinded pool := nofun

theorem IsKinded.push (h : a.IsKinded pool) {slot : AllocatedSlot}
    (hslot : (pool.kindAt? slot.poolIndex).isSome) : (a.push slot).2.IsKinded pool := by
  intro other hmem
  rcases Array.mem_push.mp hmem with hold | rfl
  · exact h other hold
  · exact hslot

theorem IsKinded.shared (h : a.IsKinded pool) (hkind : (pool.kindAt? p).isSome) :
    (a.shared p).2.IsKinded pool := by
  unfold Allocator.shared
  cases a.shared? p with
  | none => exact h.push hkind
  | some index => exact h

end Allocator

namespace Rewriting

variable {limit bci n : Nat} {op : Opcode} {e : FormatEntry} {s t m m' : Rewriting}

/-- A site takes a slot only for an entry whose tag it has looked at. -/
theorem SiteStep.isKinded (h : SiteStep pool bci op e s t) (hs : s.allocator.IsKinded pool) :
    t.allocator.IsKinded pool := by
  cases h with
  | keep | inPool | switch => exact hs
  | member _ hfamily _ htag haccepted =>
      refine hs.shared ?_
      rw [Pool.kindAt?_of_tagAt htag, Family.resolvedKind?_of_memberTag haccepted]
      rcases hfamily with hf | hf <;> rw [hf] <;> rfl
  | callSite _ _ _ htag => exact hs.push (by rw [Pool.kindAt?_of_tagAt htag]; rfl)
  | load _ _ _ htag hcached | loadLeft _ _ _ htag hcached | wideLoad _ _ _ htag hcached =>
      exact hs.shared (by rw [Pool.kindAt?_of_tagAt htag, ConstantTag.resolvedKind?_of_executable hcached]; rfl)

theorem Pass.isKinded (h : Pass pool limit bci s t) (hs : s.allocator.IsKinded pool) :
    t.allocator.IsKinded pool := by
  induction h with
  | done => exact hs
  | step _ _ hsite _ ih => exact ih (hsite.isKinded hs)

/-! ### Sites -/

/-- A member reference that a site has accepted names an entry of the kind that its family asks for. -/
theorem SiteStep.kindAt_encoded (h : SiteStep pool bci op e s t) (hslow : op.isFast = false)
    (hfamily : e.family ∈ MemberRef.families) (hindex : s.code.encodedIndexAt bci = .ok p) :
    pool.kindAt? p = e.family.memberKind? := by
  have hlinked : e.family ∈ linkedFamilies := by
    revert hfamily
    cases e.family <;> decide
  cases h with
  | keep hkeep =>
      rcases hkeep with hfast | hkept | ⟨hload, -⟩
      · rw [hslow] at hfast
        cases hfast
      · exact absurd hlinked hkept
      · exact absurd (hload ▸ hfamily) (by decide)
  | member _ _ hread htag haccepted =>
      obtain rfl := Except.ok.inj (hindex.symm.trans hread)
      rw [Pool.kindAt?_of_tagAt htag, Family.resolvedKind?_of_memberTag haccepted]
  | callSite _ hdynamic hread htag =>
      obtain rfl := Except.ok.inj (hindex.symm.trans hread)
      rw [Pool.kindAt?_of_tagAt htag, hdynamic]
      rfl
  | inPool _ hf | load _ hf | loadLeft _ hf | wideLoad _ hf | switch _ hf =>
      exact absurd (hf ▸ hfamily) (by decide)

/-- After the pass, its slot still stands for the entry. -/
theorem Visit.memberRef_kind {final : Allocator} {tag : UInt32} {mode : Mode} {method : Method}
    (h : Visit pool bci n op e s t m m') (hextends : final.Extends t.allocator)
    (hsize : final.size < UInt32.size) (hslow : op.isFast = false) (hfamily : e.family ∈ MemberRef.families)
    (hindex : ((linkedBody method t.code pool (final.cache tag)).memberRefAt mode bci).poolIndex = .ok p) :
    pool.kindAt? p = e.family.memberKind? := by
  obtain ⟨-, q, hencoded, hpool⟩ := h.memberRef_poolIndex hextends hsize hslow hfamily
  obtain rfl : q = p := Except.ok.inj (hpool.symm.trans hindex)
  exact h.site.kindAt_encoded hslow hfamily (h.encodedIndexAt_found.trans hencoded)

end Rewriting

theorem RewrittenInTurn.isKinded {a b : Allocator} {pairs : List (Code × Code)}
    (h : RewrittenInTurn pool a pairs b) (ha : a.IsKinded pool) : b.IsKinded pool := by
  induction h with
  | nil => exact ha
  | cons hok _ ih =>
      obtain ⟨t, hpass, -, hallocator, -⟩ := pass_of_rewrite hok
      exact ih (hallocator ▸ hpass.isKinded ha)

end MethodCode
