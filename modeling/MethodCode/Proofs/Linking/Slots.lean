import MethodCode.Proofs.Linking.Frame

/-! The slots that a pass takes, told from the code that it starts with. An instruction takes the slot that its
opcode and its pool index ask for, so the slots taken before a position are known without rewriting anything.
Main statement: a site that rewriting has accepted has taken exactly the slot that `Code.slotAt?` tells. -/

namespace MethodCode

open FormatTable (standard)

/-! ### Codes by what they refer to -/

namespace Opcode

/-- The code has no operand that linking takes for a pool index. -/
structure NamesNothing (op : Opcode) : Prop where
  field : op ∉ fieldAccesses
  invoke : op ∉ invokes
  dynamic : op ≠ .invokedynamic
  ldc : op ≠ .ldc
  ldcW : op ≠ .ldcW

/-- A fast form has its slot already. -/
theorem namesNothing_of_fast {op : Opcode} (hfast : op.isFast = true) : op.NamesNothing := by
  have hne {slow : Opcode} (hslow : slow.isFast = false) : op ≠ slow := by
    rintro rfl
    rw [hfast] at hslow
    cases hslow
  have hnot {ops : List Opcode} (hslow : ∀ slow ∈ ops, slow.isFast = false) : op ∉ ops :=
    fun hmem => hne (hslow op hmem) rfl
  exact ⟨hnot (by decide), hnot (by decide), hne (by decide), hne (by decide), hne (by decide)⟩

theorem namesNothing_of_family {op : Opcode}
    (hmember : Family.ofCanonical op ≠ .fieldAccess ∧ Family.ofCanonical op ≠ .invoke ∧
      Family.ofCanonical op ≠ .dynamicInvoke) (hldc : op ≠ .ldc) (hldcW : op ≠ .ldcW) : op.NamesNothing := by
  rw [ne_eq, ne_eq, ne_eq, ofCanonical_eq_fieldAccess, ofCanonical_eq_invoke, ofCanonical_eq_dynamicInvoke]
    at hmember
  exact ⟨hmember.1, hmember.2.1, hmember.2.2, hldc, hldcW⟩

end Opcode

/-- The tag that stands at an index of a pool, the tag of an unusable slot included. -/
def Pool.tagOf? (pool : Pool) (p : UInt16) : Option ConstantTag :=
  pool.entries[p.toNat]?.map PoolEntry.tag

theorem Pool.tagAt_eq_ok {pool : Pool} {p : UInt16} {tag : ConstantTag} :
    pool.tagAt p = .ok tag ↔ pool.tagOf? p = some tag ∧ tag ≠ .invalid := by
  unfold tagAt entryAt tagOf? failWith
  cases pool.entries[p.toNat]? with
  | none => simp
  | some entry =>
      cases entry <;> simp [PoolEntry.tag, pure, Except.pure] <;> rintro rfl <;> decide

/-! ### Taking slots -/

namespace Allocator

/-- Takes a slot; one that references share is taken only once. -/
def take (a : Allocator) (slot : AllocatedSlot) : UInt32 × Allocator :=
  if slot.isShared then a.shared slot.poolIndex else a.callSite slot.poolIndex

/-- The slots taken once an instruction has taken its slot, if it takes one. -/
def after (a : Allocator) (slot? : Option AllocatedSlot) : Allocator :=
  match slot? with
  | some slot => (a.take slot).2
  | none => a

variable {a b : Allocator} {slot : AllocatedSlot} {p : UInt16} {i : Nat}

@[simp] theorem take_shared (a : Allocator) (p : UInt16) : a.take ⟨p, true⟩ = a.shared p := rfl

@[simp] theorem take_callSite (a : Allocator) (p : UInt16) : a.take ⟨p, false⟩ = a.callSite p := rfl

@[simp] theorem after_none (a : Allocator) : a.after none = a := rfl

@[simp] theorem after_some (a : Allocator) (slot : AllocatedSlot) : a.after (some slot) = (a.take slot).2 :=
  rfl

theorem extends_take (a : Allocator) (slot : AllocatedSlot) : (a.take slot).2.Extends a := by
  obtain ⟨p, _ | _⟩ := slot
  · exact extends_callSite a p
  · exact extends_shared a p

theorem extends_after (a : Allocator) (slot? : Option AllocatedSlot) : (a.after slot?).Extends a := by
  cases slot? with
  | none => exact .refl a
  | some slot => exact extends_take a slot

/-- The number that taking a slot answers is the number of that slot. -/
theorem slot_take (hsize : (a.take slot).2.size < UInt32.size) :
    (a.take slot).2.slots[(a.take slot).1.toNat]? = some slot := by
  obtain ⟨p, _ | _⟩ := slot
  · exact slot_callSite hsize
  · exact slot_shared hsize

/-- The shared slot of a pool index is found under one number for good. -/
theorem shared?_of_extends (h : b.Extends a) (hi : a.shared? p = some i) : b.shared? p = some i := by
  obtain ⟨later, hb⟩ := h
  unfold shared? at hi ⊢
  rw [hb, Array.findIdx?_append, hi]
  rfl

/-- Taking the shared slot of a pool index makes it the slot that is found for the pool index. -/
theorem shared?_shared (a : Allocator) (p : UInt16) :
    ∃ i, (a.shared p).2.shared? p = some i ∧ (a.shared p).1 = .ofNat i := by
  unfold shared
  cases h : a.shared? p with
  | some i => exact ⟨i, h, rfl⟩
  | none =>
      refine ⟨a.size, ?_, rfl⟩
      unfold shared? at h ⊢
      rw [push, ← Array.append_singleton, Array.findIdx?_append, h]
      simp [size]

/-- However many slots are taken later, the cache has the pool index of a slot under its number. -/
theorem poolIndexAt_take (hb : b.Extends (a.take slot).2) (hsize : b.size < UInt32.size) (tag : UInt32) :
    (b.cache tag).poolIndexAt (a.take slot).1 = .ok slot.poolIndex :=
  poolIndexAt_cache tag (hb.slot (slot_take (Nat.lt_of_le_of_lt hb.size_le hsize)))

end Allocator

/-! ### The slot of an instruction -/

/-- The slot that linking takes for a reference that a code makes to a pool index. Fields and methods are
always reached through a slot, constants only if they are executable. -/
def Opcode.slotFor? (pool : Pool) (op : Opcode) (p : UInt16) : Option AllocatedSlot :=
  if op ∈ fieldAccesses ∨ op ∈ invokes then some ⟨p, true⟩
  else if op = .invokedynamic then some ⟨p, false⟩
  else if (op = .ldc ∨ op = .ldcW) ∧ (pool.tagOf? p).any ConstantTag.isExecutableReference then some ⟨p, true⟩
  else none

/-- What slot a reference is given, if it is given one: every slot is shared but those of dynamic call sites. -/
def Opcode.slotOf (op : Opcode) (p : UInt16) : AllocatedSlot := ⟨p, op ≠ .invokedynamic⟩

/-- The slot that linking takes for the instruction at a position. -/
def Code.slotAt? (pool : Pool) (c : Code) (bci : Nat) : Option AllocatedSlot :=
  match c.opcodeAt bci, c.encodedIndexAt bci with
  | .ok op, .ok p => op.slotFor? pool p
  | _, _ => none

namespace Opcode

variable {pool : Pool} {op : Opcode} {p : UInt16}

theorem slotFor?_of_member (h : op ∈ fieldAccesses ∨ op ∈ invokes) : op.slotFor? pool p = some ⟨p, true⟩ :=
  if_pos h

theorem slotFor?_of_dynamic : invokedynamic.slotFor? pool p = some ⟨p, false⟩ := rfl

theorem slotFor?_of_load (hop : op = .ldc ∨ op = .ldcW) :
    op.slotFor? pool p =
      if (pool.tagOf? p).any ConstantTag.isExecutableReference then some ⟨p, true⟩ else none := by
  rcases hop with rfl | rfl
  · rw [slotFor?, if_neg (by decide), if_neg (by decide)]
    simp
  · rw [slotFor?, if_neg (by decide), if_neg (by decide)]
    simp

theorem NamesNothing.slotFor? (h : op.NamesNothing) : op.slotFor? pool p = none := by
  simp [Opcode.slotFor?, h.field, h.invoke, h.dynamic, h.ldc, h.ldcW]

theorem isShared_slotOf : (op.slotOf p).isShared = true ↔ op ≠ .invokedynamic := decide_eq_true_iff

theorem eq_slotOf_of_slotFor? {slot : AllocatedSlot} (h : op.slotFor? pool p = some slot) :
    slot = op.slotOf p := by
  by_cases hdynamic : op = .invokedynamic
  · subst hdynamic
    exact (Option.some.inj (slotFor?_of_dynamic.symm.trans h)).symm
  · unfold slotFor? at h
    rw [if_neg hdynamic] at h
    split_ifs at h <;> simp [slotOf, hdynamic, ← Option.some.inj h]

end Opcode

namespace Code

variable {pool : Pool} {c d : Code} {bci n : Nat} {op : Opcode} {e : FormatEntry} {p : UInt16}

theorem slotAt?_eq (pool : Pool) (hop : c.opcodeAt bci = .ok op) (hindex : c.encodedIndexAt bci = .ok p) :
    c.slotAt? pool bci = op.slotFor? pool p := by
  rw [slotAt?, hop, hindex]

theorem slotAt?_of_load {tag : ConstantTag} (hop : c.opcodeAt bci = .ok op) (hload : op = .ldc ∨ op = .ldcW)
    (hindex : c.encodedIndexAt bci = .ok p) (htag : pool.tagAt p = .ok tag) :
    c.slotAt? pool bci = if tag.isExecutableReference then some ⟨p, true⟩ else none := by
  rw [slotAt?_eq pool hop hindex, Opcode.slotFor?_of_load hload, (Pool.tagAt_eq_ok.mp htag).1]
  rfl

theorem slotAt?_eq_none (hop : c.opcodeAt bci = .ok op) (h : op.NamesNothing) : c.slotAt? pool bci = none := by
  rw [slotAt?, hop]
  cases c.encodedIndexAt bci with
  | error f => rfl
  | ok p => exact h.slotFor?

theorem slotAt?_congr (pool : Pool) (hbytes : Set.EqOn d.byteAt c.byteAt (Set.Ici bci)) :
    d.slotAt? pool bci = c.slotAt? pool bci := by
  have hop : d.opcodeAt bci = c.opcodeAt bci := opcodeAt_congr (hbytes Set.self_mem_Ici)
  rw [slotAt?, slotAt?, hop, encodedIndexAt_congr_after hbytes]

theorem exists_of_slotAt? {slot : AllocatedSlot} (h : c.slotAt? pool bci = some slot) :
    ∃ op, c.opcodeAt bci = .ok op ∧ c.encodedIndexAt bci = .ok slot.poolIndex ∧ slot = op.slotOf slot.poolIndex := by
  unfold slotAt? at h
  split at h
  · rename_i op p hop hindex
    obtain rfl := Opcode.eq_slotOf_of_slotFor? h
    exact ⟨op, hop, hindex, rfl⟩
  · cases h

/-- A walk that is at one position with some slots taken comes to another position with these taken. -/
inductive Allots (pool : Pool) (c : Code) : Nat → Allocator → Nat → Allocator → Prop where
  | refl (bci : Nat) (a : Allocator) : Allots pool c bci a bci a
  | step {bci n x : Nat} {a b : Allocator} (hlength : c.lengthAt bci = .ok (some n))
      (hrest : Allots pool c (bci + n) (a.after (c.slotAt? pool bci)) x b) : Allots pool c bci a x b

namespace Allots

variable {x y : Nat} {a b b' : Allocator}

theorem reaches (h : Allots pool c bci a x b) : c.Reaches bci x := by
  induction h with
  | refl => exact .refl _
  | step hlength _ ih => exact .step hlength ih

theorem extends_allocator (h : Allots pool c bci a x b) : b.Extends a := by
  induction h with
  | refl => exact .refl _
  | step _ _ ih => exact ih.trans (Allocator.extends_after _ _)

theorem cases_head (h : Allots pool c bci a x b) :
    (bci = x ∧ a = b) ∨ ∃ n, c.lengthAt bci = .ok (some n) ∧
      Allots pool c (bci + n) (a.after (c.slotAt? pool bci)) x b := by
  cases h with
  | refl => exact .inl ⟨rfl, rfl⟩
  | step hlength hrest => exact .inr ⟨_, hlength, hrest⟩

/-- A walk that goes on has taken the slot of the instruction that it was at. -/
theorem extends_after (h : Allots pool c bci a x b) (hlt : bci < x) :
    b.Extends (a.after (c.slotAt? pool bci)) := by
  rcases h.cases_head with ⟨rfl, -⟩ | ⟨n, -, hrest⟩
  · exact absurd hlt (Nat.lt_irrefl _)
  · exact hrest.extends_allocator

/-- Of two positions on one walk, the later one is reached with what has been taken up to the earlier one. -/
theorem of_le (hx : Allots pool c bci a x b) (hy : Allots pool c bci a y b') (hle : x ≤ y) :
    Allots pool c x b y b' := by
  induction hx with
  | refl => exact hy
  | @step bci n x _ _ hlength hrest ih =>
      rcases hy.cases_head with ⟨rfl, -⟩ | ⟨m, hm, hrest'⟩
      · obtain ⟨op, e, hocc⟩ := lengthAt_eq_some_iff.mp hlength
        have hpos := hocc.pos
        have hback := hrest.reaches.le
        omega
      · obtain rfl : n = m := Option.some.inj (Except.ok.inj (hlength.symm.trans hm))
        exact ih hrest' hle

/-- A walk goes the same way over codes that are equal from there on. -/
theorem congr (hsize : d.size = c.size) (hbytes : Set.EqOn d.byteAt c.byteAt (Set.Ici bci))
    (h : Allots pool c bci a x b) : Allots pool d bci a x b := by
  induction h with
  | refl => exact .refl _ _
  | @step bci n x a b hlength _ ih =>
      refine .step ((lengthAt_congr hsize hbytes).trans hlength) ?_
      rw [slotAt?_congr pool hbytes]
      exact ih (hbytes.mono (Set.Ici_subset_Ici.mpr (Nat.le_add_right bci n)))

end Allots

end Code

/-! ### The slot that a site takes -/

namespace Rewriting

variable {pool : Pool} {bci n : Nat} {op : Opcode} {e : FormatEntry} {s t : Rewriting}

/-- What a pass leaves alone for its opcode names nothing. -/
theorem namesNothing_of_keep (he : standard.entry? op = some e)
    (hkeep : op.isFast = true ∨ e.family ∉ linkedFamilies ∨ e.family = .loadConstant ∧ op ≠ .ldc ∧ op ≠ .ldcW) :
    op.NamesNothing := by
  by_cases hfast : op.isFast = true
  · exact Opcode.namesNothing_of_fast hfast
  have hfamily := FormatTable.family_of_slow he (Bool.eq_false_iff.mpr hfast)
  rcases hkeep with hfast' | hother | ⟨hload, hldc, hldcW⟩
  · exact absurd hfast' hfast
  · have hne {family : Family} (hlinked : family ∈ linkedFamilies) : e.family ≠ family :=
      fun heq => hother (heq ▸ hlinked)
    refine Opcode.namesNothing_of_family ?_ (fun hldc => ?_) fun hldcW => ?_
    · rw [← hfamily]
      exact ⟨hne (by decide), hne (by decide), hne (by decide)⟩
    · exact hne (by decide) (family_of_ldc he (.inl hldc)).2
    · exact hne (by decide) (family_of_ldc he (.inr hldcW)).2
  · refine Opcode.namesNothing_of_family ?_ hldc hldcW
    rw [← hfamily, hload]
    decide

/-- A switch names nothing. -/
theorem namesNothing_of_switch (he : standard.entry? op = some e) (hslow : op.isFast = false)
    (hfamily : e.family = .lookupSwitch) : op.NamesNothing := by
  obtain rfl := lookupswitch_of_family he hslow hfamily
  exact ⟨by decide, by decide, by decide, by decide, by decide⟩

theorem SiteStep.allocator_eq (h : SiteStep pool bci op e s t) (hop : s.code.opcodeAt bci = .ok op)
    (he : standard.entry? op = some e) : t.allocator = s.allocator.after (s.code.slotAt? pool bci) := by
  have hnone (h : op.NamesNothing) : s.allocator = s.allocator.after (s.code.slotAt? pool bci) := by
    rw [Code.slotAt?_eq_none hop h]
    rfl
  cases h with
  | keep hkeep => exact hnone (namesNothing_of_keep he hkeep)
  | inPool _ _ hldc hindex htag hpool =>
      rw [Code.slotAt?_of_load hop hldc hindex htag, hpool]
      rfl
  | member hslow hfamily hindex =>
      rw [FormatTable.family_of_slow he hslow, Opcode.ofCanonical_eq_fieldAccess,
        Opcode.ofCanonical_eq_invoke] at hfamily
      rw [Code.slotAt?_eq pool hop hindex, Opcode.slotFor?_of_member hfamily]
      rfl
  | callSite hslow hfamily hindex =>
      rw [FormatTable.family_of_slow he hslow, Opcode.ofCanonical_eq_dynamicInvoke] at hfamily
      subst hfamily
      rw [Code.slotAt?_eq pool hop hindex, Opcode.slotFor?_of_dynamic]
      rfl
  | load hldc _ hindex htag hcached =>
      rw [Code.slotAt?_of_load hop (.inl hldc) hindex htag, hcached]
      rfl
  | loadLeft hldc _ hindex htag hcached =>
      rw [Code.slotAt?_of_load hop (.inl hldc) hindex htag, hcached]
      rfl
  | wideLoad hldcW _ hindex htag hcached =>
      rw [Code.slotAt?_of_load hop (.inr hldcW) hindex htag, hcached]
      rfl
  | switch hslow hfamily => exact hnone (namesNothing_of_switch he hslow hfamily)

end Rewriting

end MethodCode
