import MethodCode.Proofs.Linking.Accounting

/-! Which of the slots that a pass has taken are referred to in the end. A slot is taken before it is known whether
its number fits the instruction, and only a one-byte load goes on without one. So a slot that no instruction refers
to is one that nothing but one-byte loads has asked for, with a number that none of them can hold. Main statement:
`slot_used_or_left`. -/

namespace MethodCode

open FormatTable (standard)

/-! ### Slots taken on a walk -/

namespace Allocator

variable {a : Allocator} {slot : AllocatedSlot}

/-- Taking a slot finds one that has been taken, or pushes one. -/
theorem take_same_or_push (a : Allocator) (slot : AllocatedSlot) :
    (a.take slot).2 = a ∨ a.take slot = a.push slot := by
  obtain ⟨p, _ | _⟩ := slot
  · exact .inr rfl
  · rw [take_shared]
    cases hfound : a.shared? p with
    | some i => exact .inl (shared_of_found hfound)
    | none => exact .inr (shared_of_none hfound)

/-- The slot at a position that was free before an instruction took its slot is the slot of that instruction. -/
theorem take_of_grown {j : Nat} (hle : a.size ≤ j) (hlt : j < (a.take slot).2.size) :
    (a.take slot).1 = .ofNat j ∧ (a.take slot).2.slots[j]? = some slot := by
  rcases take_same_or_push a slot with hsame | hpush
  · rw [hsame] at hlt
    omega
  · rw [hpush, size_push] at hlt
    obtain rfl : a.size = j := by omega
    rw [hpush]
    exact ⟨rfl, Array.getElem?_push_size⟩

end Allocator

namespace Code.Allots

variable {pool : Pool} {c : Code} {bci x : Nat} {a b b' : Allocator}

theorem unique (h : Allots pool c bci a x b) (h' : Allots pool c bci a x b') : b = b' := by
  rcases (h.of_le h' (Nat.le_refl x)).cases_head with ⟨-, heq⟩ | ⟨n, hlength, hrest⟩
  · exact heq
  · obtain ⟨op, e, hocc⟩ := lengthAt_eq_some_iff.mp hlength
    have hpos := hocc.pos
    have hback := hrest.reaches.le
    omega

/-- Every slot that a walk has taken has been taken by one of its instructions. -/
theorem exists_taking {j : Nat} (h : Allots pool c bci a x b) (hle : a.size ≤ j) (hlt : j < b.size) :
    ∃ y m slot, Allots pool c bci a y m ∧ c.slotAt? pool y = some slot ∧ (m.take slot).1 = .ofNat j ∧
      b.slots[j]? = some slot := by
  induction h with
  | refl => omega
  | @step bci n x a b hlength hrest ih =>
      by_cases hgrown : j < (a.after (c.slotAt? pool bci)).size
      · cases hslot : c.slotAt? pool bci with
        | none =>
            rw [hslot, Allocator.after_none] at hgrown
            omega
        | some slot =>
            have hextends := hrest.extends_allocator
            rw [hslot, Allocator.after_some] at hgrown hextends
            obtain ⟨hnumber, htaken⟩ := Allocator.take_of_grown hle hgrown
            exact ⟨bci, a, slot, .refl _ _, hslot, hnumber, hextends.slot htaken⟩
      · obtain ⟨y, m, slot, hallots, htaken⟩ := ih (Nat.not_lt.mp hgrown) hlt
        exact ⟨y, m, slot, .step hlength hallots, htaken⟩

end Code.Allots

/-! ### Instructions that refer to their slot -/

/-- A slot is for a reference to a member or for a load of an executable constant. -/
theorem Opcode.kind_of_slotFor? {pool : Pool} {op : Opcode} {p : UInt16} {slot : AllocatedSlot}
    (h : op.slotFor? pool p = some slot) :
    Family.ofCanonical op ∈ MemberRef.families ∨
      (op = .ldc ∨ op = .ldcW) ∧ (pool.tagOf? p).any ConstantTag.isExecutableReference = true := by
  unfold slotFor? at h
  split_ifs at h with hmember hdynamic hload
  · left
    rcases hmember with hfield | hinvoke
    · rw [ofCanonical_eq_fieldAccess.mpr hfield]
      decide
    · rw [ofCanonical_eq_invoke.mpr hinvoke]
      decide
  · subst hdynamic
    exact .inl (by decide)
  · exact .inr hload

namespace Rewriting

variable {pool : Pool} {bci n : Nat} {op : Opcode} {e : FormatEntry} {s t m m' : Rewriting} {slot : AllocatedSlot}

/-- The instruction at a position tells a number as its cache index, in any method with the code. -/
def Tells (pool : Pool) (c : Code) (bci : Nat) (number : UInt32) : Prop :=
  ∀ (mode : Mode) (method : Method) (cache : Cache),
    (linkedBody method c pool cache).slotIndexAt mode bci = .ok (some number)

/-- A one-byte load stays as it was for a number that takes more than a byte, with a warning. -/
structure LeftBehind (s t : Rewriting) (bci : Nat) (number : UInt32) : Prop where
  load : s.code.opcodeAt bci = .ok .ldc
  wide : 256 ≤ number.toNat
  opcode : t.code.opcodeAt bci = .ok .ldc
  operand : t.code.byteAt (bci + 1) = s.code.byteAt (bci + 1)
  warned : .loadLeft bci number ∈ t.events

namespace Visit

variable (h : Visit pool bci n op e s t m m') (hslot : s.code.slotAt? pool bci = some slot)

include h hslot

theorem slow_of_slot : op.isFast = false := by
  by_contra hfast
  rw [Bool.not_eq_false] at hfast
  rw [Code.slotAt?_eq_none h.occupies_before.opcode (Opcode.namesNothing_of_fast hfast)] at hslot
  cases hslot

/-- A load that has become a fast form tells its slot. -/
theorem tells_of_load (hfamily : e.family = .loadConstant) (hchanged : t.code.opcodeAt bci ≠ .ok op) :
    Tells pool t.code bci (m.allocator.take slot).1 := by
  intro mode method cache
  rcases load_operand mode (linkedBody method t.code pool cache) h rfl (h.slow_of_slot hslot) hfamily with
    ⟨hkept, -⟩ | ⟨fast, e', slot', index, hop, hfast, he, hload, hslot', hindex, hnumber⟩
  · exact absurd hkept hchanged
  · obtain rfl := Option.some.inj (hslot.symm.trans hslot')
    have hcached : ((linkedBody method t.code pool cache).loadAt mode bci).hasCacheIndex = .ok true :=
      hfast ▸ LoadConstant.hasCacheIndex_eq hop
    rw [MethodBody.slotIndexAt, Decoded.decode_loadConstant hop he hload, ok_bind]
    simp only [hcached, hindex, hnumber, ok_bind, if_true]
    rfl

theorem loadsCached_of_slot (hload : op = .ldc ∨ op = .ldcW) : LoadsCached pool s.code bci := by
  obtain ⟨op', hop', hindex, -⟩ := Code.exists_of_slotAt? hslot
  obtain rfl := h.opcode_eq hop'
  rw [Code.slotAt?_eq pool hop' hindex, Opcode.slotFor?_of_load hload] at hslot
  split_ifs at hslot with htag
  rcases Pool.any_tagOf?_iff.mp htag with htag | htag
  · exact ⟨_, _, hindex, htag, rfl⟩
  · exact ⟨_, _, hindex, htag, rfl⟩

/-- An instruction that has taken a slot refers to it, but for a one-byte load that cannot. -/
theorem tells_or_leftBehind :
    Tells pool t.code bci (m.allocator.take slot).1 ∨ LeftBehind s t bci (m.allocator.take slot).1 := by
  have hslow := h.slow_of_slot hslot
  have hfamily := FormatTable.family_of_slow h.occupies.entry hslow
  obtain ⟨op', hop', hindex, hof⟩ := Code.exists_of_slotAt? hslot
  obtain rfl := h.opcode_eq hop'
  have hfor := hslot
  rw [Code.slotAt?_eq pool hop' hindex] at hfor
  rcases Opcode.kind_of_slotFor? hfor with hmember | ⟨rfl | rfl, -⟩
  · rw [← hfamily] at hmember
    refine .inl fun mode method cache => ?_
    obtain ⟨slot', hslot', htells⟩ :=
      h.slotIndexAt_member mode (linkedBody method t.code pool cache) rfl rfl hslow hmember
    rw [htells, Option.some.inj (hslot.symm.trans hslot')]
  · rcases h.site.left_or_silent h.occupies with ⟨p, -, hslot', hwide, hcode, hevents⟩ | ⟨-, hfits⟩
    · rw [h.slotAt?_found, hslot] at hslot'
      obtain rfl := Option.some.inj hslot'
      refine .inr ⟨hop', hwide, ?_, ?_, ?_⟩
      · rw [h.opcodeAt_left, hcode, h.occupies.opcode]
      · have hroom := h.occupies.room_of_load (family_of_ldc h.occupies.entry (.inl rfl)).2
        rw [if_pos ((FormatTable.regular_standard h.occupies.entry).2.2.2 hslow)] at hroom
        rw [h.left (Set.mem_Iio.mpr (by omega)), hcode, h.found (Set.mem_Ici.mpr (by omega))]
      · refine h.events_left.subset ?_
        rw [hevents]
        exact List.mem_append_right _ (List.mem_singleton.mpr rfl)
    · left
      rw [hof] at hslot
      obtain ⟨-, hfast⟩ := hfits slot.poolIndex rfl (h.slotAt?_found.trans hslot)
      rw [hof]
      refine h.tells_of_load hslot (family_of_ldc h.occupies.entry (.inl rfl)).2 ?_
      rw [h.opcodeAt_left, hfast]
      decide
  · left
    refine h.tells_of_load hslot (family_of_ldc h.occupies.entry (.inr rfl)).2 fun hkept => ?_
    obtain ⟨op', hop', hbecomes⟩ := h.becomes
    obtain rfl := Except.ok.inj (hkept.symm.trans hop')
    cases hbecomes with
    | same hload => exact hload (.inr rfl) (h.loadsCached_of_slot hslot (.inr rfl))

end Visit

/-- The instruction at a start takes a slot in the pass from `s` to `t`, and is handed out a number for it. -/
structure Takes (pool : Pool) (s t : Rewriting) (bci : Nat) (slot : AllocatedSlot) (number : UInt32) : Prop where
  start : s.code.IsStart bci
  asks : s.code.slotAt? pool bci = some slot
  visit : ∃ n op e m m', Visit pool bci n op e s t m m' ∧ (m.allocator.take slot).1 = number

/-- The pass visits the instructions that take slots. -/
theorem Pass.visit_of_slot (h : Pass pool s.code.size 0 s t) (hstart : s.code.IsStart bci)
    (hslot : s.code.slotAt? pool bci = some slot) :
    ∃ n op e m m', Visit pool bci n op e s t m m' ∧ s.code.Allots pool 0 s.allocator bci m.allocator := by
  obtain ⟨op, hop, -, -⟩ := Code.exists_of_slotAt? hslot
  exact h.visits_allots hstart (Code.lt_size_of_byteAt (Code.opcodeAt_eq_ok.mp hop))

theorem Pass.exists_number (h : Pass pool s.code.size 0 s t) (hstart : s.code.IsStart bci)
    (hslot : s.code.slotAt? pool bci = some slot) : ∃ number, Takes pool s t bci slot number := by
  obtain ⟨n, op, e, m, m', hvisit, -⟩ := h.visit_of_slot hstart hslot
  exact ⟨_, hstart, hslot, n, op, e, m, m', hvisit, rfl⟩

/-- Every new slot has been taken by an instruction, under its number. -/
theorem Pass.exists_takes {j : Nat} (h : Pass pool s.code.size 0 s t) (hj : s.allocator.size ≤ j)
    (hlt : j < t.allocator.size) :
    ∃ bci slot, Takes pool s t bci slot (.ofNat j) ∧ t.allocator.slots[j]? = some slot := by
  obtain ⟨x, -, hallots⟩ := h.exists_allots
  obtain ⟨bci, taken, slot, hreach, hslot, hnumber, htaken⟩ := hallots.exists_taking hj hlt
  obtain ⟨n, op, e, m, m', hvisit, hreach'⟩ := h.visit_of_slot hreach.reaches hslot
  obtain rfl := hreach.unique hreach'
  exact ⟨bci, slot, ⟨hreach.reaches, hslot, n, op, e, m, m', hvisit, hnumber⟩, htaken⟩

namespace Takes

variable {bci' : Nat} {p : UInt16} {number number' : UInt32}

/-- Instructions that share a slot have taken it under one number. -/
theorem number_eq (h : Takes pool s t bci ⟨p, true⟩ number) (h' : Takes pool s t bci' ⟨p, true⟩ number') :
    number = number' := by
  obtain ⟨-, hslot, n, op, e, m, m', hvisit, rfl⟩ := h
  obtain ⟨-, hslot', n', op', e', l, l', hvisit', rfl⟩ := h'
  obtain ⟨i, hi, -, hnumber⟩ := Allocator.shared?_of_take (hvisit.extends_take hslot)
  obtain ⟨i', hi', -, hnumber'⟩ := Allocator.shared?_of_take (hvisit'.extends_take hslot')
  obtain rfl := Option.some.inj (hi.symm.trans hi')
  exact hnumber.trans hnumber'.symm

/-- An instruction that has taken a slot is a linked one in the code that the pass leaves, or it has been left
behind. -/
theorem linked_or_leftBehind (h : Takes pool s t bci slot number) :
    (∃ op, ∀ (mode : Mode) (method : Method) (cache : Cache),
        LinkedSite pool cache mode method [(s.code, t.code)] 0 bci op slot.poolIndex number) ∨
      LeftBehind s t bci number := by
  obtain ⟨hstart, hslot, n, op, e, m, m', hvisit, rfl⟩ := h
  refine (hvisit.tells_or_leftBehind hslot).imp_left fun htells => ⟨op, fun mode method cache => ?_⟩
  obtain ⟨op', hop', hindex, -⟩ := Code.exists_of_slotAt? hslot
  obtain rfl := hvisit.opcode_eq hop'
  exact .intro rfl hstart hop' (hvisit.slow_of_slot hslot) hindex (htells mode method cache)

end Takes

end Rewriting

/-! ### Slots used and slots left -/

open Rewriting (LeftBehind Pass Takes)

/-- An instruction that rewriting has changed refers to the slot with the number `j`: in every method of the linked
class that has the code, its operand is that number in 32 bits, and it named the pool index of the slot. -/
def SlotUsed (code : Code) (pool : Pool) (r : Rewritten) (j : Nat) : Prop :=
  ∃ bci op slot, r.allocator.slots[j]? = some slot ∧ ∀ (mode : Mode) (method : Method) (cache : Cache),
    LinkedSite pool cache mode method [(code, r.code)] 0 bci op slot.poolIndex (.ofNat j)

/-- Only one-byte loads name the method handle or method type of the slot with the number `j`, and none of them can
hold the number: each stays as it was, with a warning. -/
structure SlotLeft (code : Code) (pool : Pool) (r : Rewritten) (j : Nat) (p : UInt16) : Prop where
  slot : r.allocator.slots[j]? = some ⟨p, true⟩
  tag : pool.tagAt p = .ok .methodHandle ∨ pool.tagAt p = .ok .methodType
  wide : 256 ≤ (UInt32.ofNat j).toNat
  named : ∃ bci, code.IsStart bci ∧ code.NamesShared pool bci p
  loads : ∀ bci, code.IsStart bci → code.NamesShared pool bci p →
    code.opcodeAt bci = .ok .ldc ∧ r.code.opcodeAt bci = .ok .ldc ∧
      r.code.byteAt (bci + 1) = code.byteAt (bci + 1) ∧ .loadLeft bci (.ofNat j) ∈ r.events

theorem Code.NamesShared.tag_of_ldc {pool : Pool} {c : Code} {bci : Nat} {p : UInt16} (h : c.NamesShared pool bci p)
    (hop : c.opcodeAt bci = .ok .ldc) : pool.tagAt p = .ok .methodHandle ∨ pool.tagAt p = .ok .methodType := by
  rcases h.kind with hmember | ⟨-, htag⟩
  · exact absurd ((Code.holdsOneOf_iff hop).mp hmember) (by decide)
  · exact htag

/-- Every slot that rewriting has taken is referred to by an instruction that it has changed, or is one that only
one-byte loads have asked for and none of them can hold. -/
theorem slot_used_or_left {code : Code} {pool : Pool} {a : Allocator} {summary : RewriteSummary} {j : Nat}
    (h : (rewrite code pool a).outcome = .ok summary) (hj : a.size ≤ j)
    (hlt : j < (rewrite code pool a).allocator.size) :
    SlotUsed code pool (rewrite code pool a) j ∨ ∃ p, SlotLeft code pool (rewrite code pool a) j p := by
  obtain ⟨t, hfound, hrewrite⟩ := exists_pass_of_rewrite h
  rw [hrewrite] at hlt ⊢
  obtain ⟨s, rfl, rfl, hpass⟩ : ∃ s : Rewriting, s.code = code ∧ s.allocator = a ∧ Pass pool s.code.size 0 s t :=
    ⟨⟨code, a, ⟨0, 0, 0, 0⟩, []⟩, rfl, rfl, hfound⟩
  obtain ⟨bci, slot, htakes, htaken⟩ := hpass.exists_takes hj hlt
  by_cases hused : ∃ b op, ∀ (mode : Mode) (method : Method) (cache : Cache),
      LinkedSite pool cache mode method [(s.code, t.code)] 0 b op slot.poolIndex (.ofNat j)
  · obtain ⟨b, op, hlinked⟩ := hused
    exact .inl ⟨b, op, slot, htaken, hlinked⟩
  -- everything that has taken the slot has been left behind, so it is a slot for loads
  have hleft {b : Nat} (hb : Takes pool s t b slot (.ofNat j)) : LeftBehind s t b (.ofNat j) :=
    hb.linked_or_leftBehind.resolve_left fun hlinked => hused ⟨b, hlinked⟩
  have hbehind := hleft htakes
  obtain ⟨op, hop, -, hof⟩ := Code.exists_of_slotAt? htakes.asks
  obtain rfl := Except.ok.inj (hop.symm.trans hbehind.load)
  obtain ⟨p, hp⟩ : ∃ p, slot = ⟨p, true⟩ := ⟨slot.poolIndex, hof⟩
  subst hp
  have hnamed := Code.slotAt?_eq_shared_iff.mp htakes.asks
  refine .inr ⟨p, htaken, hnamed.tag_of_ldc hop, hbehind.wide, ⟨bci, htakes.start, hnamed⟩, fun b hstart hb => ?_⟩
  obtain ⟨number, hb⟩ := hpass.exists_number hstart (Code.slotAt?_eq_shared_iff.mpr hb)
  obtain rfl := hb.number_eq htakes
  have hbehind := hleft hb
  exact ⟨hbehind.load, hbehind.opcode, hbehind.operand, List.mem_append_left _ hbehind.warned⟩

/-- The load of the sample refers to the second of the slots that rewriting takes. -/
theorem slot_used_or_left_sample : SlotUsed sampleCode samplePool (rewrite sampleCode samplePool .empty) 1 := by
  obtain ⟨hok, hsize⟩ : (rewrite sampleCode samplePool .empty).outcome = .ok ⟨1, 0, 1, 0⟩ ∧
      (rewrite sampleCode samplePool .empty).allocator.size = 2 := by
    decide +kernel
  refine (slot_used_or_left hok (Nat.zero_le 1) (by rw [hsize]; decide)).resolve_right ?_
  rintro ⟨p, hleft⟩
  exact absurd hleft.wide (by decide)

/-- Where the instructions of the load of a method type start. -/
theorem sampleLoad_starts {bci : Nat} (h : sampleLoad.IsStart bci) : bci = 0 ∨ bci = 2 ∨ 3 ≤ bci := by
  obtain ⟨hfirst, hsecond⟩ :
      sampleLoad.lengthAt 0 = .ok (some 2) ∧ sampleLoad.lengthAt 2 = .ok (some 1) := by
    decide +kernel
  rcases h.cases_head with rfl | ⟨n, hn, hrest⟩
  · exact .inl rfl
  obtain rfl : 2 = n := Option.some.inj (Except.ok.inj (hfirst.symm.trans hn))
  rcases hrest.cases_head with rfl | ⟨n, hn, hrest⟩
  · exact .inr (.inl rfl)
  obtain rfl : 1 = n := Option.some.inj (Except.ok.inj (hsecond.symm.trans hn))
  exact .inr (.inr hrest.le)

/-- The slot of a one-byte load is taken for nothing where 256 slots have been taken. -/
theorem not_every_slot_is_used :
    ¬∀ (code : Code) (pool : Pool) (a : Allocator) (summary : RewriteSummary) (j : Nat),
      (∀ bci op, code.IsStart bci → code.opcodeAt bci = .ok op → op.isFast = false) →
      (rewrite code pool a).outcome = .ok summary → a.size ≤ j → j < (rewrite code pool a).allocator.size →
      SlotUsed code pool (rewrite code pool a) j := by
  intro h
  obtain ⟨hok, hkept, hgrown, -⟩ := sampleLoad_rewritten
  have hslow (bci : Nat) (op : Opcode) (hstart : sampleLoad.IsStart bci)
      (hop : sampleLoad.opcodeAt bci = .ok op) : op.isFast = false := by
    have hlt : bci < 3 := Code.lt_size_of_byteAt (Code.opcodeAt_eq_ok.mp hop)
    rcases sampleLoad_starts hstart with rfl | rfl | hend
    · obtain rfl := Except.ok.inj (hop.symm.trans (show sampleLoad.opcodeAt 0 = .ok .ldc by decide))
      decide
    · obtain rfl := Except.ok.inj (hop.symm.trans (show sampleLoad.opcodeAt 2 = .ok ⟨0xb1⟩ by decide))
      decide
    · omega
  have hfull : fullAllocator.size = 256 := Array.size_replicate
  obtain ⟨bci, op, slot, -, hlinked⟩ :=
    h sampleLoad sampleLoadPool fullAllocator _ 256 hslow hok (Nat.le_of_eq hfull) (by rw [hgrown]; decide)
  obtain ⟨hcode, hstart, hop, -, -, hindex⟩ := hlinked .checked RewrittenInTurn.sampleMethod ⟨#[], 7⟩
  obtain ⟨rfl, rfl⟩ := Prod.mk.inj (Option.some.inj hcode)
  rw [hkept] at hindex
  have hlt : bci < 3 := Code.lt_size_of_byteAt (Code.opcodeAt_eq_ok.mp hop)
  rcases sampleLoad_starts hstart with rfl | rfl | hend
  · exact absurd hindex (by decide +kernel)
  · exact absurd hindex (by decide +kernel)
  · omega

end MethodCode
