import MethodCode.Linking.State
import MethodCode.Proofs.Execution

/-! What the constants of a class refer to: the pool, the tag of the cache and the pool index of every slot.
Publishing offers an outcome to one slot, which keeps what it holds already. Main statements: publishing is the
offer to the slot that it names, and an offer leaves the references as they are. -/

namespace MethodCode

/-- The slot after an outcome is offered to it: what it holds already stays. -/
def CacheSlot.offer (slot : CacheSlot) (outcome : Resolved) : CacheSlot :=
  { slot with resolved := slot.resolved.or (some outcome) }

theorem CacheSlot.offer_offer (slot : CacheSlot) (outcome : Resolved) :
    (slot.offer outcome).offer outcome = slot.offer outcome := by
  rw [offer, offer]
  cases slot.resolved <;> rfl

theorem CacheSlot.offer_of_held {slot : CacheSlot} {held : Resolved} (h : slot.resolved = some held)
    (outcome : Resolved) : slot.offer outcome = slot := by
  rw [offer, h, Option.some_or, ← h]

theorem CacheSlot.held_of_offer {slot : CacheSlot} {outcome e : Resolved}
    (h : (slot.offer outcome).resolved = some e) : slot.resolved = some e ∨ e = outcome := by
  rcases Option.or_eq_some_iff.mp h with hkept | ⟨-, hnew⟩
  · exact .inl hkept
  · exact .inr (Option.some.inj hnew).symm

namespace Cache

/-- The tag of a cache and the pool indices that its slots stand for. -/
def references (c : Cache) : UInt32 × Array UInt16 := (c.tag, c.slots.map CacheSlot.poolIndex)

/-- The cache after an outcome is offered to one of its slots. -/
def offer (c : Cache) (i : UInt32) (outcome : Resolved) : Cache :=
  { c with slots := c.slots.modify i.toNat fun slot => slot.offer outcome }

variable {c d : Cache} {i j : UInt32} {p : UInt16} {outcome winner : Resolved} {slot : CacheSlot}

theorem slotAt_of_slot (h : c.slots[i.toNat]? = some slot) : c.slotAt i = .ok slot := by
  rw [slotAt, h]

theorem poolIndexAt_eq_ok :
    c.poolIndexAt i = .ok p ↔ ∃ slot, c.slots[i.toNat]? = some slot ∧ slot.poolIndex = p := by
  rw [poolIndexAt, slotAt]
  cases c.slots[i.toNat]? with
  | none => exact ⟨nofun, nofun⟩
  | some slot =>
      change Except.ok slot.poolIndex = .ok p ↔ _
      simp

/-- Only the references tell what the slots stand for. -/
theorem poolIndexAt_eq (c : Cache) (i : UInt32) :
    c.poolIndexAt i =
      match c.references.2[i.toNat]? with
      | some p => .ok p
      | none => failWith (.cacheIndexOutOfRange i c.references.2.size) := by
  rw [poolIndexAt, slotAt, references, Array.getElem?_map, Array.size_map]
  cases c.slots[i.toNat]? <;> rfl

theorem poolIndexAt_congr (h : d.references = c.references) (i : UInt32) :
    d.poolIndexAt i = c.poolIndexAt i := by
  rw [poolIndexAt_eq, poolIndexAt_eq, h]

theorem getElem?_offer (j : Nat) :
    (c.offer i outcome).slots[j]? =
      if i.toNat = j then c.slots[j]?.map fun slot => slot.offer outcome else c.slots[j]? := by
  rw [offer, Array.getElem?_modify]

/-- After an offer a slot holds something: what it has held before, or else the outcome. -/
theorem resolvedAt_offer (h : c.poolIndexAt i = .ok p) :
    (c.offer i outcome).resolvedAt i = some ((c.resolvedAt i).getD outcome) := by
  obtain ⟨slot, hslot, -⟩ := poolIndexAt_eq_ok.mp h
  rw [resolvedAt, resolvedAt, getElem?_offer, if_pos rfl, hslot]
  change slot.resolved.or (some outcome) = some (slot.resolved.getD outcome)
  cases slot.resolved <;> rfl

/-- An offer to a slot that holds something changes nothing. -/
theorem offer_of_held {held : Resolved} (h : c.resolvedAt i = some held) : c.offer i outcome = c := by
  obtain ⟨slot, hslot, hheld⟩ := Option.bind_eq_some_iff.mp h
  refine congrArg (Cache.mk · c.tag) (Array.ext_getElem? fun j => ?_)
  rw [Array.getElem?_modify]
  by_cases hij : i.toNat = j
  · rw [if_pos hij, ← hij, hslot]
    exact congrArg some (slot.offer_of_held hheld outcome)
  · rw [if_neg hij]

theorem references_offer : (c.offer i outcome).references = c.references := by
  refine congrArg (Prod.mk c.tag) (Array.ext_getElem? fun j => ?_)
  rw [Array.getElem?_map, Array.getElem?_map, getElem?_offer]
  split
  · cases c.slots[j]? <;> rfl
  · rfl

/-- What a slot holds after an offer it has held before, for the same pool entry, or it is the outcome, which was
offered to a slot for this entry. -/
theorem held_of_offer {q : UInt16} {e : Resolved} (hslot : c.poolIndexAt i = .ok p)
    (hindex : (c.offer i outcome).poolIndexAt j = .ok q) (h : (c.offer i outcome).resolvedAt j = some e) :
    c.poolIndexAt j = .ok q ∧ c.resolvedAt j = some e ∨ q = p ∧ e = outcome := by
  rw [poolIndexAt_congr references_offer] at hindex
  rw [resolvedAt, getElem?_offer] at h
  split at h
  · rename_i hij
    obtain ⟨_, hoffered, he⟩ := Option.bind_eq_some_iff.mp h
    obtain ⟨slot, hfound, rfl⟩ := Option.map_eq_some_iff.mp hoffered
    rcases CacheSlot.held_of_offer he with hkept | rfl
    · refine .inl ⟨hindex, ?_⟩
      rw [resolvedAt, hfound]
      exact hkept
    · obtain rfl : i = j := UInt32.toNat_inj.mp hij
      exact .inr ⟨Except.ok.inj (hindex.symm.trans hslot), rfl⟩
  · exact .inl ⟨hindex, h⟩

/-- Publishing offers the outcome, and answers what the slot holds afterwards. -/
theorem publish_eq (h : c.poolIndexAt i = .ok p) :
    c.publish i outcome = .ok ((c.resolvedAt i).getD outcome, c.offer i outcome) := by
  obtain ⟨slot, hslot, -⟩ := poolIndexAt_eq_ok.mp h
  have hresolved : c.resolvedAt i = slot.resolved := by
    rw [resolvedAt, hslot]
    rfl
  rw [publish, slotAt_of_slot hslot, ok_bind]
  cases hheld : slot.resolved with
  | some e =>
      rw [offer_of_held (hresolved.trans hheld), hresolved, hheld]
      rfl
  | none =>
      have hset : slot.offer outcome = { slot with resolved := some outcome } := by
        rw [CacheSlot.offer, hheld, Option.none_or]
      have hoffer : (⟨c.slots.setIfInBounds i.toNat (slot.offer outcome), c.tag⟩ : Cache) = c.offer i outcome := by
        refine congrArg (Cache.mk · c.tag) (Array.ext_getElem? fun j => ?_)
        have hlt := (Array.getElem?_eq_some_iff.mp hslot).1
        rw [Array.getElem?_modify, Array.getElem?_setIfInBounds]
        by_cases hj : i.toNat = j
        · rw [if_pos hj, if_pos hlt, if_pos hj, ← hj, hslot]
          rfl
        · rw [if_neg hj, if_neg hj]
      rw [hresolved, hheld, ← hoffer, hset]
      rfl

end Cache

/-- The pool, and what the slots of the cache stand for. -/
def Constants.references (k : Constants) : Pool × Option (UInt32 × Array UInt16) :=
  (k.pool, k.cache.map Cache.references)

theorem Constants.cases_of_references {k k' : Constants} (h : k'.references = k.references) :
    k'.pool = k.pool ∧ (k'.cache = none ∧ k.cache = none ∨
      ∃ cache' cache, k'.cache = some cache' ∧ k.cache = some cache ∧
        cache'.references = cache.references) := by
  obtain ⟨hpool, hcache⟩ := Prod.mk.inj h
  refine ⟨hpool, ?_⟩
  cases hk : k.cache with
  | none =>
      rw [hk] at hcache
      exact .inl ⟨Option.map_eq_none_iff.mp hcache, rfl⟩
  | some cache =>
      rw [hk] at hcache
      obtain ⟨cache', hk', hsame⟩ := Option.map_eq_some_iff.mp hcache
      exact .inr ⟨cache', cache, hk', rfl, hsame⟩

/-- An offer leaves what the constants refer to. -/
theorem Constants.references_offer {k : Constants} {cache : Cache} (hcache : k.cache = some cache) (i : UInt32)
    (outcome : Resolved) : references { k with cache := some (cache.offer i outcome) } = k.references := by
  rw [references, references, hcache]
  exact congrArg (fun r => (k.pool, some r)) Cache.references_offer

section Publish

variable {s : LinkState} {cache : Cache} {i : UInt32} {p : UInt16} {outcome : Resolved}

/-- Publishing to a slot that there is. -/
theorem LinkM.exec_publish (hcache : s.constants.cache = some cache) (hslot : cache.poolIndexAt i = .ok p) :
    exec (publish i outcome) s = (.ok ((cache.resolvedAt i).getD outcome),
      { s with constants := { s.constants with cache := some (cache.offer i outcome) } }) := by
  unfold publish
  rw [exec_get_bind, hcache]
  simp only [exec_bind, exec_liftM_error, Cache.publish_eq hslot]
  rfl

/-- Before the class is linked, the outcome stands. -/
theorem LinkM.exec_publish_of_unlinked (hcache : s.constants.cache = none) :
    exec (publish i outcome) s = (.ok outcome, s) := by
  unfold publish
  rw [exec_get_bind, hcache]
  rfl

theorem LinkM.exec_publish_of_error {e : Error} (hcache : s.constants.cache = some cache)
    (hslot : cache.poolIndexAt i = .error e) : exec (publish i outcome) s = (.error (.error e), s) := by
  have hfails : cache.publish i outcome = .error e := by
    rw [Cache.poolIndexAt] at hslot
    rw [Cache.publish]
    cases hread : cache.slotAt i with
    | error e' =>
        rw [hread] at hslot
        exact congrArg Except.error (Except.error.inj hslot)
    | ok slot =>
        rw [hread] at hslot
        cases hslot
  unfold publish
  rw [exec_get_bind, hcache]
  simp only [exec_bind, exec_liftM_error, hfails]
  rfl

end Publish

end MethodCode
