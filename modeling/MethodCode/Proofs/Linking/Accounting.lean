import Mathlib.Data.Finset.Card
import MethodCode.Proofs.Code.Walk
import MethodCode.Proofs.Linking.Sharing
import MethodCode.Proofs.Linking.Structure

/-! What a rewriting pass has done, counted over the code that it started with. A pass visits the instructions of
a walk one after the other, so everything that it carries along is a fold over the starts of these
(`Pass.foldl_starts`): each counter counts the instructions of its kind, the warnings stand in the order of the
walk, and the slots are those that the instructions ask for. Main statement: `rewrite_accounts_for_sites`. -/

namespace MethodCode

open FormatTable (standard)

/-! ### Opcodes of a kind -/

/-- One of the given opcodes stands at a position. -/
def Code.HoldsOneOf (c : Code) (ops : List Opcode) (bci : Nat) : Prop :=
  ∃ op ∈ ops, c.opcodeAt bci = .ok op

instance (c : Code) (ops : List Opcode) : DecidablePred (c.HoldsOneOf ops) := fun bci =>
  inferInstanceAs (Decidable (∃ op ∈ ops, c.opcodeAt bci = .ok op))

theorem Code.holdsOneOf_iff {c : Code} {ops : List Opcode} {bci : Nat} {op : Opcode} (hop : c.opcodeAt bci = .ok op) :
    c.HoldsOneOf ops bci ↔ op ∈ ops := by
  constructor
  · rintro ⟨other, hmem, hother⟩
    rw [hop] at hother
    obtain rfl := Except.ok.inj hother
    exact hmem
  · intro hmem
    exact ⟨op, hmem, hop⟩

/-! ### Slots for many instructions -/

namespace Allocator

variable {a b : Allocator} {p q : UInt16}

theorem size_push (slot : AllocatedSlot) : (a.push slot).2.size = a.size + 1 := by
  simp [push, size]

/-- A new slot is found for its own pool index, if it is shared, and for no other one. -/
theorem shared?_push_eq_none {slot : AllocatedSlot} :
    (a.push slot).2.shared? q = none ↔ a.shared? q = none ∧ ¬(slot.isShared = true ∧ slot.poolIndex = q) := by
  simp only [shared?, push, Array.findIdx?_eq_none_iff, Array.mem_push, Bool.and_eq_false_imp,
    beq_eq_false_iff_ne]
  constructor
  · intro h
    exact ⟨fun x hx => h x (.inl hx), fun hslot => h slot (.inr rfl) hslot.1 hslot.2⟩
  · rintro ⟨hold, hnew⟩ x (hx | rfl) hshared
    · exact hold x hx hshared
    · exact fun heq => hnew ⟨hshared, heq⟩

theorem shared_of_found {i : Nat} (h : a.shared? p = some i) : (a.shared p).2 = a := by
  rw [shared, h]

theorem shared_of_none (h : a.shared? p = none) : a.shared p = a.push ⟨p, true⟩ := by
  rw [shared, h]

/-- Taking slots for one instruction after the other adds one for each call site, and one for each pool index that
is named by the others and has no shared slot yet. -/
theorem exists_named (slots : List (Option AllocatedSlot)) (a : Allocator) :
    ∃ named : Finset UInt16, (∀ p, p ∈ named ↔ a.shared? p = none ∧ some ⟨p, true⟩ ∈ slots) ∧
      (slots.foldl after a).size =
        a.size + slots.countP (fun slot => slot.any fun taken => !taken.isShared) + named.card := by
  induction slots generalizing a with
  | nil => exact ⟨∅, by simp, by simp⟩
  | cons slot slots ih =>
      obtain _ | ⟨p, _ | _⟩ := slot
      · obtain ⟨named, hmem, hsize⟩ := ih a
        exact ⟨named, by simpa using hmem, by simpa using hsize⟩
      · obtain ⟨named, hmem, hsize⟩ := ih (a.callSite p).2
        refine ⟨named, fun q => ?_, ?_⟩
        · rw [hmem, callSite, shared?_push_eq_none]
          simp
        · rw [List.foldl_cons, after_some, take_callSite, hsize, callSite, size_push]
          simp
          omega
      · rw [List.foldl_cons, after_some, take_shared]
        cases hfound : a.shared? p with
        | some i =>
            obtain ⟨named, hmem, hsize⟩ := ih a
            refine ⟨named, fun q => ?_, ?_⟩
            · rw [hmem]
              constructor
              · rintro ⟨hnone, hlater⟩
                exact ⟨hnone, List.mem_cons_of_mem _ hlater⟩
              · rintro ⟨hnone, hnamed⟩
                refine ⟨hnone, (List.mem_cons.mp hnamed).resolve_left ?_⟩
                rintro ⟨⟩
                rw [hfound] at hnone
                cases hnone
            · rw [shared_of_found hfound, hsize]
              simp
        | none =>
            obtain ⟨named, hmem, hsize⟩ := ih (a.push ⟨p, true⟩).2
            have hfresh : p ∉ named := by
              rw [hmem, shared?_push_eq_none]
              simp
            refine ⟨insert p named, fun q => ?_, ?_⟩
            · rw [Finset.mem_insert, hmem, shared?_push_eq_none]
              by_cases hq : q = p
              · subst hq
                simp [hfound]
              · simp [hq, Ne.symm hq]
            · rw [shared_of_none hfound, hsize, size_push, Finset.card_insert_of_notMem hfresh]
              simp
              omega

/-- However many slots have been taken since, the number of a shared slot is the one that is found for its pool
index. -/
theorem shared?_of_take (h : b.Extends (a.shared p).2) :
    ∃ i, b.shared? p = some i ∧ i < b.size ∧ (a.shared p).1 = .ofNat i := by
  obtain ⟨i, hi, hnumber⟩ := shared?_shared a p
  have hlater := shared?_of_extends h hi
  exact ⟨i, hlater, (Array.findIdx?_eq_some_iff_getElem.mp hlater).1, hnumber⟩

end Allocator

/-- The instruction at a position refers to a pool index through a shared slot: it accesses a field, calls a
method, or loads a method handle or a method type. -/
structure Code.NamesShared (pool : Pool) (c : Code) (bci : Nat) (p : UInt16) : Prop where
  index : c.encodedIndexAt bci = .ok p
  kind : c.HoldsOneOf (Opcode.fieldAccesses ++ Opcode.invokes) bci ∨
    c.HoldsOneOf [.ldc, .ldcW] bci ∧
      (pool.tagAt p = .ok .methodHandle ∨ pool.tagAt p = .ok .methodType)

theorem ConstantTag.isExecutableReference_iff {tag : ConstantTag} :
    tag.isExecutableReference = true ↔ tag = .methodHandle ∨ tag = .methodType := by
  cases tag <;> simp [isExecutableReference]

theorem Pool.any_tagOf?_iff {pool : Pool} {p : UInt16} :
    (pool.tagOf? p).any ConstantTag.isExecutableReference = true ↔
      pool.tagAt p = .ok .methodHandle ∨ pool.tagAt p = .ok .methodType := by
  rw [tagAt_eq_ok, tagAt_eq_ok, Option.any_eq_true]
  simp only [ConstantTag.isExecutableReference_iff]
  constructor
  · rintro ⟨tag, htag, rfl | rfl⟩
    · exact .inl ⟨htag, by decide⟩
    · exact .inr ⟨htag, by decide⟩
  · rintro (⟨htag, -⟩ | ⟨htag, -⟩)
    · exact ⟨_, htag, .inl rfl⟩
    · exact ⟨_, htag, .inr rfl⟩

theorem Opcode.slotFor?_eq_shared_iff {pool : Pool} {op : Opcode} {p : UInt16} :
    op.slotFor? pool p = some ⟨p, true⟩ ↔ op ∈ fieldAccesses ++ invokes ∨
      op ∈ [ldc, ldcW] ∧ (pool.tagAt p = .ok .methodHandle ∨ pool.tagAt p = .ok .methodType) := by
  rw [List.mem_append, ← Pool.any_tagOf?_iff]
  unfold slotFor?
  split_ifs with hmember hdynamic hload
  · simp [hmember]
  · subst hdynamic
    refine ⟨nofun, ?_⟩
    rintro (hmem | ⟨hmem, -⟩)
    · exact absurd hmem hmember
    · exact absurd hmem (by decide)
  · simp [hmember, hload]
  · simpa [hmember] using hload

/-- The shared slots are those of the instructions that name something through one. -/
theorem Code.slotAt?_eq_shared_iff {pool : Pool} {c : Code} {bci : Nat} {p : UInt16} :
    c.slotAt? pool bci = some ⟨p, true⟩ ↔ c.NamesShared pool bci p := by
  constructor
  · intro h
    obtain ⟨op, hop, hindex, -⟩ := exists_of_slotAt? h
    rw [slotAt?_eq pool hop hindex, Opcode.slotFor?_eq_shared_iff] at h
    exact ⟨hindex, by rwa [holdsOneOf_iff hop, holdsOneOf_iff hop]⟩
  · rintro ⟨hindex, hkind⟩
    obtain ⟨op, -, hop⟩ | ⟨⟨op, -, hop⟩, -⟩ := id hkind <;>
    · rw [holdsOneOf_iff hop, holdsOneOf_iff hop] at hkind
      rw [slotAt?_eq pool hop hindex]
      exact Opcode.slotFor?_eq_shared_iff.mpr hkind

/-! ### Sites -/

namespace Rewriting

variable {pool : Pool} {limit bci n : Nat} {op : Opcode} {e : FormatEntry} {s t m m' : Rewriting}

/-- The references to fields and methods, and no other codes, are counted as such. -/
theorem kinds_disjoint : ∀ op ∈ Opcode.fieldAccesses ++ Opcode.invokes,
    op ≠ .invokedynamic ∧ ¬(op = .ldc ∨ op = .ldcW) ∧ op ≠ .lookupswitch := by
  decide

/-- What a site adds to the counters: one to the counter for the kind of its instruction, of loads only where the
opcode changes. -/
theorem SiteStep.summary_eq (h : SiteStep pool bci op e s t) (hocc : s.code.Occupies bci n op e) :
    t.summary = ⟨s.summary.memberRefs + if op ∈ Opcode.fieldAccesses ++ Opcode.invokes then 1 else 0,
      s.summary.callSites + if op = .invokedynamic then 1 else 0,
      s.summary.constants +
        if (op = .ldc ∨ op = .ldcW) ∧ t.code.opcodeAt bci ≠ s.code.opcodeAt bci then 1 else 0,
      s.summary.switches + if op = .lookupswitch then 1 else 0⟩ := by
  have he := hocc.entry
  have hwritten {c d : Code} {op' : Opcode} (hd : c.setBytes bci [op'.byte] = .ok d) :
      d.opcodeAt bci = .ok op' :=
    Code.opcodeAt_eq_ok.mpr (by simp [Code.byteAt_setBytes hd])
  cases h with
  | keep hkeep =>
      obtain ⟨hfield, hinvoke, hdynamic, -, -⟩ := namesNothing_of_keep he hkeep
      have hswitch : op ≠ .lookupswitch := by
        rintro rfl
        rw [FormatTable.family_of_slow he (by decide)] at hkeep
        exact absurd hkeep (by decide)
      rw [if_neg (by simp [hfield, hinvoke]), if_neg hdynamic, if_neg fun hload => hload.2 rfl, if_neg hswitch]
      rfl
  | inPool _ _ hload =>
      rcases hload with rfl | rfl <;>
      · rw [if_neg (by decide), if_neg (by decide), if_neg fun hload => hload.2 rfl, if_neg (by decide)]
        rfl
  | loadLeft hldc =>
      subst hldc
      rw [if_neg (by decide), if_neg (by decide), if_neg fun hload => hload.2 rfl, if_neg (by decide)]
      rfl
  | member hslow hfamily =>
      rw [FormatTable.family_of_slow he hslow, Opcode.ofCanonical_eq_fieldAccess,
        Opcode.ofCanonical_eq_invoke, ← List.mem_append] at hfamily
      obtain ⟨hdynamic, hload, hswitch⟩ := kinds_disjoint op hfamily
      rw [if_pos hfamily, if_neg hdynamic, if_neg fun h => hload h.1, if_neg hswitch]
      rfl
  | callSite hslow hfamily =>
      rw [FormatTable.family_of_slow he hslow, Opcode.ofCanonical_eq_dynamicInvoke] at hfamily
      subst hfamily
      rw [if_neg (by decide), if_pos rfl, if_neg fun h => absurd h.1 (by decide), if_neg (by decide)]
      rfl
  | load hop _ _ _ _ _ _ hfast | wideLoad hop _ _ _ _ _ _ hfast =>
      subst hop
      have hchanged := hwritten hfast
      rw [if_neg (by decide), if_neg (by decide), if_pos ⟨by decide, by rw [hchanged, hocc.opcode]; decide⟩,
        if_neg (by decide)]
      rfl
  | switch hslow hfamily =>
      obtain rfl := lookupswitch_of_family he hslow hfamily
      rw [if_neg (by decide), if_neg (by decide), if_neg fun h => absurd h.1 (by decide), if_pos rfl]
      rfl

/-- A one-byte load whose slot does not fit stays, with a warning. No other site warns, and a one-byte load whose
slot fits becomes a fast form. -/
theorem SiteStep.left_or_silent (h : SiteStep pool bci op e s t) (hocc : s.code.Occupies bci n op e) :
    (∃ p, op = .ldc ∧ s.code.slotAt? pool bci = some ⟨p, true⟩ ∧ 256 ≤ (s.allocator.shared p).1.toNat ∧
        t.code = s.code ∧ t.events = s.events ++ [.loadLeft bci (s.allocator.shared p).1]) ∨
      (t.events = s.events ∧ ∀ p, op = .ldc → s.code.slotAt? pool bci = some ⟨p, true⟩ →
        (s.allocator.shared p).1.toNat < 256 ∧ t.code.opcodeAt bci = .ok .fastAldc) := by
  have hop := hocc.opcode
  have he := hocc.entry
  have hfamily (hldc : op = .ldc) : e.family = .loadConstant := (family_of_ldc he (.inl hldc)).2
  cases h with
  | keep hkeep =>
      refine .inr ⟨rfl, fun p hldc _ => absurd hldc (namesNothing_of_keep he hkeep).ldc⟩
  | inPool _ _ hload hindex htag hpool =>
      refine .inr ⟨rfl, fun p _ hslot => ?_⟩
      rw [Code.slotAt?_of_load hop hload hindex htag, hpool] at hslot
      cases hslot
  | member _ hmember =>
      refine .inr ⟨rfl, fun p hldc _ => ?_⟩
      rw [hfamily hldc] at hmember
      exact absurd hmember (by decide)
  | callSite _ hdynamic =>
      refine .inr ⟨rfl, fun p hldc _ => ?_⟩
      rw [hfamily hldc] at hdynamic
      cases hdynamic
  | load hldc _ hindex htag hcached hnarrow _ hfast =>
      refine .inr ⟨rfl, fun p _ hslot => ?_⟩
      rw [Code.slotAt?_of_load hop (.inl hldc) hindex htag, if_pos hcached] at hslot
      obtain rfl := congrArg AllocatedSlot.poolIndex (Option.some.inj hslot)
      exact ⟨hnarrow, Code.opcodeAt_eq_ok.mpr (by simp [Code.byteAt_setBytes hfast])⟩
  | loadLeft hldc _ hindex htag hcached hwide =>
      refine .inl ⟨_, hldc, ?_, Nat.not_lt.mp hwide, rfl, rfl⟩
      rw [Code.slotAt?_of_load hop (.inl hldc) hindex htag, if_pos hcached]
  | wideLoad hwide =>
      refine .inr ⟨rfl, fun p hldc _ => ?_⟩
      rw [hldc] at hwide
      exact absurd hwide (by decide)
  | switch _ hswitch =>
      refine .inr ⟨rfl, fun p hldc _ => ?_⟩
      rw [hfamily hldc] at hswitch
      cases hswitch

/-! ### What a pass carries along -/

/-- What every visit changes in its own way is, in the end, the fold of these changes over the starts of the
instructions. -/
theorem Pass.foldl_starts {α : Type} (measure : Rewriting → α) (act : α → Nat → α) (mode : Mode) (method : Method)
    (h : Pass pool limit bci s t) (hlimit : limit = s.code.size)
    (hact : ∀ b n op e m m', bci ≤ b → Visit pool b n op e s t m m' → measure m' = act (measure m) b) :
    measure t = (Walk.startingAt mode method s.code bci).trail.starts.foldl act (measure s) := by
  induction h with
  | done hend =>
      subst hlimit
      rw [Walk.trail_of_end hend]
      rfl
  | @step bci n op e s m t hlt hocc hsite hrest ih =>
      have hafter : Set.EqOn m.code.byteAt s.code.byteAt (Set.Ici (bci + n)) :=
        Code.eqOn_after (hsite.eqOn_outside hocc) (Nat.le_refl _)
      -- behind the site the walk is the same over the code that the site leaves
      have hstarts : (Walk.startingAt mode method m.code (bci + n)).trail.starts =
          (Walk.startingAt mode method s.code (bci + n)).trail.starts := by
        have hway := Walk.trail_congr (w := Walk.startingAt mode method s.code (bci + n)) (d := m.code)
          fun b hb => Code.lengthAt_congr hsite.size_eq (hafter.mono (Set.Ici_subset_Ici.mpr hb.le))
        rw [Walk.startingAt, hsite.size_eq]
        exact hway.1
      have hfirst : measure m = act (measure s) bci :=
        hact bci n op e s m (Nat.le_refl _) ⟨hocc, hsite, fun _ _ => rfl, hrest.eqOn_before, rfl, hrest.size_eq,
          .refl _, hrest.extends_allocator, hrest.events_prefix⟩
      have hlater := ih (hlimit.trans hsite.size_eq.symm) fun b n' op' e' l l' hle hvisit =>
        hact b n' op' e' l l' (Nat.le_trans (Nat.le_add_right _ _) hle) (hvisit.of_rest hocc hsite hle)
      subst hlimit
      rw [hlater, hstarts, hfirst,
        Walk.trail_of_some (w := Walk.startingAt mode method s.code bci) hlt hocc.lengthAt]
      rfl

/-- A counter that goes up by one at the sites of a kind counts the instructions of that kind. -/
theorem Pass.countP_starts (counter : Rewriting → Nat) (counted : Nat → Prop) [DecidablePred counted] (mode : Mode)
    (method : Method) (h : Pass pool limit bci s t) (hlimit : limit = s.code.size)
    (hact : ∀ b n op e m m', Visit pool b n op e s t m m' →
      counter m' = counter m + if counted b then 1 else 0) :
    counter t = counter s + (Walk.startingAt mode method s.code bci).trail.starts.countP counted := by
  have hfold (k : Nat) (starts : List Nat) :
      starts.foldl (fun k b => k + if counted b then 1 else 0) k = k + starts.countP counted := by
    induction starts generalizing k with
    | nil => rfl
    | cons b starts ih =>
        rw [List.foldl_cons, ih, List.countP_cons]
        simp only [decide_eq_true_eq]
        omega
  rw [← hfold]
  exact h.foldl_starts counter _ mode method hlimit fun b n op e m m' _ hvisit => hact b n op e m m' hvisit

end Rewriting

/-- The warning that rewriting gives about the instruction at a position, where `final` are the slots in the end: a
one-byte load stays if the number of its slot is not one byte. -/
def Code.warningAt? (pool : Pool) (c : Code) (final : Allocator) (bci : Nat) : Option Event :=
  if c.opcodeAt bci = .ok .ldc then
    (c.slotAt? pool bci).bind fun slot => (final.shared? slot.poolIndex).bind fun i =>
      if 255 < i then some (.loadLeft bci (.ofNat i)) else none
  else none

namespace Rewriting.Visit

variable {pool : Pool} {b n : Nat} {op : Opcode} {e : FormatEntry} {s t m m' : Rewriting} {p : UInt16}

theorem summary_eq (h : Visit pool b n op e s t m m') :
    m'.summary =
      ⟨m.summary.memberRefs + if s.code.HoldsOneOf (Opcode.fieldAccesses ++ Opcode.invokes) b then 1 else 0,
        m.summary.callSites + if s.code.HoldsOneOf [.invokedynamic] b then 1 else 0,
        m.summary.constants +
          if s.code.HoldsOneOf [.ldc, .ldcW] b ∧ t.code.opcodeAt b ≠ s.code.opcodeAt b then 1 else 0,
        m.summary.switches + if s.code.HoldsOneOf [.lookupswitch] b then 1 else 0⟩ := by
  have hop := h.occupies_before.opcode
  rw [h.site.summary_eq h.occupies, h.opcodeAt_left, h.occupies.opcode, hop]
  simp only [Code.holdsOneOf_iff hop, List.mem_cons, List.not_mem_nil, or_false]

/-- The slot of a one-byte load, and whether the load stays for its number. -/
theorem exists_slot_of_ldc (h : Visit pool b n op e s t m m') (hsize : t.allocator.size < UInt32.size)
    (hslot : s.code.slotAt? pool b = some ⟨p, true⟩) :
    ∃ i, t.allocator.shared? p = some i ∧ (m.allocator.shared p).1 = .ofNat i ∧
      (m.allocator.shared p).1.toNat = i := by
  obtain ⟨i, hi, hlt, hnumber⟩ := Allocator.shared?_of_take (h.extends_take hslot)
  refine ⟨i, hi, hnumber, ?_⟩
  rw [hnumber, UInt32.toNat_ofNat', Nat.mod_eq_of_lt (Nat.lt_trans hlt hsize)]

theorem opcodeAt_of_ldc (h : Visit pool b n .ldc e s t m m') (hsize : t.allocator.size < UInt32.size)
    (hslot : s.code.slotAt? pool b = some ⟨p, true⟩) :
    ∃ i, t.allocator.shared? p = some i ∧ (t.code.opcodeAt b = .ok .ldc ↔ 255 < i) := by
  obtain ⟨i, hi, -, hnumber⟩ := h.exists_slot_of_ldc hsize hslot
  refine ⟨i, hi, ?_⟩
  rw [← hnumber, h.opcodeAt_left]
  rcases h.site.left_or_silent h.occupies with ⟨q, -, hslot', hwide, hcode, -⟩ | ⟨-, hfits⟩
  · rw [h.slotAt?_found, hslot] at hslot'
    obtain rfl := congrArg AllocatedSlot.poolIndex (Option.some.inj hslot')
    rw [hcode, h.occupies.opcode]
    exact iff_of_true rfl hwide
  · obtain ⟨hnarrow, hfast⟩ := hfits p rfl (h.slotAt?_found.trans hslot)
    rw [hfast]
    exact iff_of_false (by decide) (Nat.not_lt.mpr (Nat.lt_succ_iff.mp hnarrow))

theorem events_eq (h : Visit pool b n op e s t m m') (hsize : t.allocator.size < UInt32.size) :
    m'.events = m.events ++ (s.code.warningAt? pool t.allocator b).toList := by
  have hop := h.occupies_before.opcode
  unfold Code.warningAt?
  rw [hop]
  rcases h.site.left_or_silent h.occupies with ⟨p, rfl, hslot, hwide, -, hevents⟩ | ⟨hevents, hfits⟩
  · rw [h.slotAt?_found] at hslot
    obtain ⟨i, hi, hindex, hnumber⟩ := h.exists_slot_of_ldc hsize hslot
    have hlarge : 255 < i := by omega
    rw [hevents, hindex, if_pos rfl, hslot, Option.bind_some, hi, Option.bind_some, if_pos hlarge]
    rfl
  · rw [hevents]
    by_cases hldc : op = .ldc
    · subst hldc
      rw [if_pos rfl]
      cases hslot : s.code.slotAt? pool b with
      | none => simp
      | some slot =>
          obtain ⟨op', hop', -, hshared⟩ := Code.exists_of_slotAt? hslot
          obtain rfl := Except.ok.inj (hop.symm.trans hop')
          rw [hshared] at hslot
          obtain ⟨i, hi, -, hnumber⟩ := h.exists_slot_of_ldc hsize hslot
          obtain ⟨hnarrow, -⟩ := hfits slot.poolIndex rfl (h.slotAt?_found.trans hslot)
          rw [hnumber] at hnarrow
          rw [Option.bind_some, hi, Option.bind_some, if_neg (Nat.not_lt.mpr (Nat.lt_succ_iff.mp hnarrow))]
          simp
    · rw [if_neg fun heq => hldc (Except.ok.inj heq)]
      simp

end Rewriting.Visit

/-! ### Successful rewriting -/

section

variable {code : Code} {pool : Pool} {a : Allocator} {summary : RewriteSummary} (mode : Mode) (method : Method)
  (h : (rewrite code pool a).outcome = .ok summary)

include h

theorem countP_of_rewrite :
    summary = ⟨(Walk.startingAt mode method code 0).trail.starts.countP
        (code.HoldsOneOf (Opcode.fieldAccesses ++ Opcode.invokes)),
      (Walk.startingAt mode method code 0).trail.starts.countP (code.HoldsOneOf [.invokedynamic]),
      (Walk.startingAt mode method code 0).trail.starts.countP fun b =>
        code.HoldsOneOf [.ldc, .ldcW] b ∧ (rewrite code pool a).code.opcodeAt b ≠ code.opcodeAt b,
      (Walk.startingAt mode method code 0).trail.starts.countP (code.HoldsOneOf [.lookupswitch])⟩ := by
  obtain ⟨t, hpass, hrewrite⟩ := exists_pass_of_rewrite h
  rw [hrewrite] at h ⊢
  obtain rfl := Except.ok.inj h
  have hmembers := hpass.countP_starts (fun s => s.summary.memberRefs)
    (code.HoldsOneOf (Opcode.fieldAccesses ++ Opcode.invokes)) mode method rfl
    fun b n op e m m' hvisit => by rw [hvisit.summary_eq]
  have hcallSites := hpass.countP_starts (fun s => s.summary.callSites) (code.HoldsOneOf [.invokedynamic]) mode
    method rfl fun b n op e m m' hvisit => by rw [hvisit.summary_eq]
  have hconstants := hpass.countP_starts (fun s => s.summary.constants)
    (fun b => code.HoldsOneOf [.ldc, .ldcW] b ∧ t.code.opcodeAt b ≠ code.opcodeAt b) mode method rfl
    fun b n op e m m' hvisit => by rw [hvisit.summary_eq]
  have hswitches := hpass.countP_starts (fun s => s.summary.switches) (code.HoldsOneOf [.lookupswitch]) mode
    method rfl fun b n op e m m' hvisit => by rw [hvisit.summary_eq]
  rw [Nat.zero_add] at hmembers hcallSites hconstants hswitches
  rw [← hmembers, ← hcallSites, ← hconstants, ← hswitches]

theorem events_of_rewrite (hsize : (rewrite code pool a).allocator.size < UInt32.size) :
    (rewrite code pool a).events = (Walk.startingAt mode method code 0).trail.starts.filterMap
        (code.warningAt? pool (rewrite code pool a).allocator) ++
      [.rewrote summary (rewrite code pool a).allocator.size] := by
  obtain ⟨t, hpass, hrewrite⟩ := exists_pass_of_rewrite h
  rw [hrewrite] at h hsize ⊢
  obtain rfl := Except.ok.inj h
  have hfold (events : List Event) (starts : List Nat) :
      starts.foldl (fun events b => events ++ (code.warningAt? pool t.allocator b).toList) events =
        events ++ starts.filterMap (code.warningAt? pool t.allocator) := by
    induction starts generalizing events with
    | nil => simp
    | cons b starts ih =>
        rw [List.foldl_cons, ih, List.append_assoc]
        cases hwarning : code.warningAt? pool t.allocator b <;> simp [hwarning]
  have hevents := hpass.foldl_starts Rewriting.events
    (fun events b => events ++ (code.warningAt? pool t.allocator b).toList) mode method rfl
    fun b n op e m m' _ hvisit => hvisit.events_eq hsize
  rw [hevents, hfold]
  rfl

theorem allocator_of_rewrite :
    (rewrite code pool a).allocator =
      ((Walk.startingAt mode method code 0).trail.starts.map (code.slotAt? pool)).foldl Allocator.after a := by
  obtain ⟨t, hpass, hrewrite⟩ := exists_pass_of_rewrite h
  rw [hrewrite, List.foldl_map]
  exact hpass.foldl_starts Rewriting.allocator (fun taken b => taken.after (code.slotAt? pool b)) mode method rfl
    fun b n op e m m' _ hvisit => hvisit.allocator_eq

end

/-- A dynamic call site, and no other instruction, takes a slot of its own. -/
theorem Code.takesOwn_iff {pool : Pool} {c : Code} {bci n : Nat} {op : Opcode} {e : FormatEntry}
    (hocc : c.Occupies bci n op e) :
    (c.slotAt? pool bci).any (fun slot => !slot.isShared) = true ↔ c.HoldsOneOf [.invokedynamic] bci := by
  rw [holdsOneOf_iff hocc.opcode, List.mem_singleton]
  constructor
  · intro h
    obtain ⟨slot, hslot, hown⟩ := (Option.any_eq_true _ _).mp h
    obtain ⟨op', hop', -, hof⟩ := exists_of_slotAt? hslot
    obtain rfl := Except.ok.inj (hocc.opcode.symm.trans hop')
    by_contra hne
    rw [hof, Opcode.isShared_slotOf.mpr hne] at hown
    cases hown
  · rintro rfl
    obtain ⟨hroom, -⟩ := hocc.word_of_callSite (FormatTable.family_of_slow hocc.entry (by decide))
    obtain ⟨p, hindex⟩ := exists_encodedIndexAt hocc.opcode (n := n) (by rw [if_neg (by decide)]; omega) hocc.ends
    rw [slotAt?_eq pool hocc.opcode hindex, Opcode.slotFor?_of_dynamic]
    rfl

/-- What rewriting the code with the slots `a` answers and leaves behind, told from the starts of the instructions of
the code. -/
structure Accounts (code : Code) (pool : Pool) (a : Allocator) (starts : List Nat) (summary : RewriteSummary)
    (r : Rewritten) : Prop where
  memberRefs : summary.memberRefs = starts.countP (code.HoldsOneOf (Opcode.fieldAccesses ++ Opcode.invokes))
  callSites : summary.callSites = starts.countP (code.HoldsOneOf [.invokedynamic])
  switches : summary.switches = starts.countP (code.HoldsOneOf [.lookupswitch])
  constants : summary.constants = starts.countP fun b =>
    code.HoldsOneOf [.ldc, .ldcW] b ∧ r.code.opcodeAt b ≠ code.opcodeAt b
  /-- A one-byte load of a method handle or a method type keeps its opcode exactly if the number of its slot takes
  more than a byte. -/
  loads : ∀ b ∈ starts, code.opcodeAt b = .ok .ldc → ∀ p, code.NamesShared pool b p →
    ∃ i, r.allocator.shared? p = some i ∧ (r.code.opcodeAt b = .ok .ldc ↔ 255 < i)
  /-- There is one warning for each load that stays for its number, in the order of the code. -/
  events : r.events =
    starts.filterMap (code.warningAt? pool r.allocator) ++ [.rewrote summary r.allocator.size]
  /-- The slots that have been taken before stay, and there is a new one for each dynamic call site and for each pool
  index that is named through a shared slot and had none. -/
  slots : ∃ (later : Array AllocatedSlot) (named : Finset UInt16), r.allocator.slots = a.slots ++ later ∧
    (∀ p, p ∈ named ↔ a.shared? p = none ∧ ∃ b ∈ starts, code.NamesShared pool b p) ∧
    later.size = summary.callSites + named.card

/-- The summary, the warnings and the slots of a rewriting pass account for every instruction of the code. -/
theorem rewrite_accounts_for_sites {code : Code} {pool : Pool} {a : Allocator} {summary : RewriteSummary}
    (h : (rewrite code pool a).outcome = .ok summary)
    (hsize : (rewrite code pool a).allocator.size < UInt32.size) (mode : Mode) (method : Method) :
    Accounts code pool a (Walk.startingAt mode method code 0).trail.starts summary (rewrite code pool a) := by
  have hcounts := countP_of_rewrite mode method h
  have hallocator := allocator_of_rewrite mode method h
  refine ⟨congrArg RewriteSummary.memberRefs hcounts, congrArg RewriteSummary.callSites hcounts,
    congrArg RewriteSummary.switches hcounts, congrArg RewriteSummary.constants hcounts, ?_,
    events_of_rewrite mode method h hsize, ?_⟩
  · intro b hb hldc p hnamed
    obtain ⟨t, hpass, hcode, hallocator, -⟩ := pass_of_rewrite h
    obtain ⟨hstart, -⟩ := Walk.mem_starts_startingAt.mp hb
    obtain ⟨n, e, m, m', hvisit⟩ := hpass.visits_opcode (Nat.le_refl _) hstart hldc
    rw [hallocator] at hsize ⊢
    rw [hcode]
    exact hvisit.opcodeAt_of_ldc hsize (Code.slotAt?_eq_shared_iff.mpr hnamed)
  · obtain ⟨later, hlater⟩ := extends_rewrite h
    obtain ⟨named, hnamed, hgrown⟩ := Allocator.exists_named
      ((Walk.startingAt mode method code 0).trail.starts.map (code.slotAt? pool)) a
    refine ⟨later, named, hlater, fun p => ?_, ?_⟩
    · rw [hnamed, List.mem_map]
      simp only [Code.slotAt?_eq_shared_iff]
    · have howns : ((Walk.startingAt mode method code 0).trail.starts.map (code.slotAt? pool)).countP
          (fun slot => slot.any fun taken => !taken.isShared) = summary.callSites := by
        rw [List.countP_map, congrArg RewriteSummary.callSites hcounts]
        refine List.countP_congr fun b hb => ?_
        obtain ⟨-, n, hlength⟩ := Walk.mem_starts_startingAt.mp hb
        obtain ⟨op, e, hocc⟩ := Code.lengthAt_eq_some_iff.mp hlength
        rw [decide_eq_true_iff]
        exact Code.takesOwn_iff hocc
      have hsum : (rewrite code pool a).allocator.size = a.size + later.size := by
        rw [Allocator.size, hlater, Array.size_append]
        rfl
      rw [← hallocator, howns] at hgrown
      omega

/-- Where 256 slots have been taken, the load of a method type takes the next one, which it cannot name. -/
theorem rewrite_accounts_for_sites_sample :
    ∃ named : Finset UInt16, (∀ p, p ∈ named ↔ fullAllocator.shared? p = none ∧
        ∃ b ∈ (Walk.startingAt .checked RewrittenInTurn.sampleMethod sampleLoad 0).trail.starts,
          sampleLoad.NamesShared sampleLoadPool b p) ∧
      named.card = 1 ∧ (rewrite sampleLoad sampleLoadPool fullAllocator).code.opcodeAt 0 = .ok .ldc ∧
      (rewrite sampleLoad sampleLoadPool fullAllocator).events = [.loadLeft 0 256, .rewrote ⟨0, 0, 0, 0⟩ 257] := by
  obtain ⟨hok, hkept, hgrown, -, hevents⟩ := sampleLoad_rewritten
  have hfull : fullAllocator.slots.size = 256 := Array.size_replicate
  have haccounts := rewrite_accounts_for_sites hok (by rw [hgrown]; decide) .checked RewrittenInTurn.sampleMethod
  obtain ⟨later, named, hlater, hnamed, hsize⟩ := haccounts.slots
  refine ⟨named, hnamed, ?_, by rw [hkept]; decide, hevents⟩
  have hsum : fullAllocator.slots.size + later.size = 257 := by
    rw [← Array.size_append, ← hlater]
    exact hgrown
  have hcallSites : (RewriteSummary.mk 0 0 0 0).callSites = 0 := rfl
  omega

end MethodCode
