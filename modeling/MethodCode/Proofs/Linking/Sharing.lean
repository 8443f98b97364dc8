import MethodCode.Proofs.Linking.PoolIndex

/-! Which instructions share a cache slot. Every number that was handed out names the slot it was handed out
for, so two instructions have the same number exactly if they were given the same slot, and a slot is given
twice only if references share it. Main statement: over all codes that are rewritten in turn, instructions have
the same cache index exactly if both refer to the same pool index and neither is a dynamic call site. -/

namespace MethodCode

open FormatTable (standard)
open Rewriting (Visit)

/-! ### Taking a slot twice -/

namespace Allocator

variable {a b c : Allocator} {p : UInt16} {d e : AllocatedSlot} {i : Nat}

/-- A shared slot that has been taken is taken again without a change. -/
theorem shared_of_extends (h : b.Extends (a.shared p).2) : b.shared p = ((a.shared p).1, b) := by
  obtain ⟨i, hi, hnumber⟩ := shared?_shared a p
  rw [hnumber]
  unfold shared
  rw [shared?_of_extends h hi]

/-- A call site takes the next free slot. -/
theorem callSite_number (hsize : (a.callSite p).2.size < UInt32.size) : (a.callSite p).1.toNat = a.size := by
  have hgrown : (a.callSite p).2.size = a.size + 1 := by simp [callSite, push, size]
  have hlt : a.size < UInt32.size := by omega
  exact UInt32.toNat_ofNat'.trans (Nat.mod_eq_of_lt hlt)

/-- However many slots have been taken in between, a slot is taken twice exactly if it is shared and for the
same pool index. -/
theorem take_eq_iff (h : b.Extends (a.take d).2) (hsize : (b.take e).2.size < UInt32.size) :
    (b.take e).1 = (a.take d).1 ↔ (d.isShared = true ∧ e.isShared = true) ∧ d.poolIndex = e.poolIndex := by
  have hafter := extends_take b e
  have hearlier := h.slot (slot_take (Nat.lt_of_le_of_lt h.size_le (Nat.lt_of_le_of_lt hafter.size_le hsize)))
  constructor
  · intro heq
    have hlater := slot_take hsize
    rw [heq, hafter.slot hearlier] at hlater
    obtain rfl := Option.some.inj hlater
    obtain ⟨p, _ | _⟩ := d
    · -- the number of a call site's slot was free before
      have hlt := (Array.getElem?_eq_some_iff.mp hearlier).1
      rw [← heq, take_callSite, callSite_number hsize] at hlt
      exact absurd hlt (Nat.lt_irrefl _)
    · exact ⟨⟨rfl, rfl⟩, rfl⟩
  · rintro ⟨⟨hd, he⟩, hp⟩
    obtain ⟨p, _⟩ := d
    obtain ⟨q, _⟩ := e
    subst hd he hp
    rw [take_shared, take_shared] at *
    rw [shared_of_extends h]

/-- A number has been handed out among the slots `b`. -/
def HandedOut (b : Allocator) (number : UInt32) : Prop :=
  ∃ (a : Allocator) (slot : AllocatedSlot), b.Extends (a.take slot).2 ∧ (a.take slot).1 = number

/-- Slots taken and codes rewritten, with any pools and in any order, lead from one allocator to another. -/
inductive Grows (a : Allocator) : Allocator → Prop where
  | refl : Grows a a
  | take {b : Allocator} (h : Grows a b) (slot : AllocatedSlot) : Grows a (b.take slot).2
  | rewrite {b : Allocator} (h : Grows a b) (code : Code) (pool : Pool) :
    Grows a (MethodCode.rewrite code pool b).allocator

theorem Grows.extends (h : Grows a b) : b.Extends a := by
  induction h with
  | refl => exact .refl a
  | take _ slot ih => exact (extends_take _ slot).trans ih
  | @rewrite b _ code pool ih =>
      refine Extends.trans ?_ ih
      cases houtcome : (MethodCode.rewrite code pool b).outcome with
      | ok summary => exact extends_rewrite houtcome
      | error f =>
          rw [(rewrite_of_error houtcome).2]
          exact .refl b

/-- A number that was handed out names the slot that it was handed out for, whatever happens later. -/
theorem Grows.slot_take (h : Grows (a.take d).2 b) (hsize : b.size < UInt32.size) :
    b.slots[(a.take d).1.toNat]? = some d :=
  h.extends.slot (Allocator.slot_take (Nat.lt_of_le_of_lt h.extends.size_le hsize))

end Allocator

/-! ### The cache index of an instruction -/

/-- The cache index that the instruction at a position tells, if it refers to a slot of the cache. -/
def MethodBody.slotIndexAt (mode : Mode) (body : MethodBody) (bci : Nat) : Except Fault (Option UInt32) := do
  match ← Decoded.decode mode body bci with
  | .memberRef r => return some (← r.cacheIndex)
  | .loadConstant l => if ← l.hasCacheIndex then return some (← l.rawIndex).toUInt32 else return none
  | _ => return none

/-- Only member references and loads refer to the cache. -/
theorem MethodBody.family_of_slotIndexAt {mode : Mode} {body : MethodBody} {bci : Nat} {op : Opcode}
    {e : FormatEntry} {i : UInt32} (hop : body.code.opcodeAt bci = .ok op) (he : standard.entry? op = some e)
    (h : body.slotIndexAt mode bci = .ok (some i)) :
    e.family ∈ MemberRef.families ∨ e.family = .loadConstant := by
  have hraw : (body.cursor mode bci).rawOpcode = .ok op := hop
  rw [slotIndexAt, Decoded.decode, Cursor.family_of_entry hraw he, ok_bind] at h
  cases hf : e.family with
  | fieldAccess | invoke | dynamicInvoke => exact .inl (by decide)
  | loadConstant => exact .inr rfl
  | branch | other =>
      rw [hf] at h
      cases h
  | tableSwitch | lookupSwitch | typeReference =>
      rw [hf] at h
      obtain ⟨d, hd, h⟩ := bind_eq_ok.mp h
      obtain ⟨_, -, hd⟩ := bind_eq_ok.mp hd
      obtain rfl := Except.ok.inj hd
      cases h

namespace Rewriting

variable {pool : Pool} {bci n : Nat} {op : Opcode} {e : FormatEntry} {s t m m' : Rewriting} (mode : Mode)
  (body : MethodBody) {cache : Cache} (h : Visit pool bci n op e s t m m') (hbody : body.code = t.code)
  (hcache : body.constants.cache = some cache) (hslow : op.isFast = false)

include h hbody hcache hslow

theorem Visit.slotIndexAt_member (hfamily : e.family ∈ MemberRef.families) :
    ∃ slot, s.code.slotAt? pool bci = some slot ∧
      body.slotIndexAt mode bci = .ok (some (m.allocator.take slot).1) := by
  obtain ⟨hop, slot, hslot, hindex⟩ := memberRef_cacheIndex mode body h hbody hslow hfamily
  rw [← hbody] at hop
  refine ⟨slot, hslot, ?_⟩
  rw [MethodBody.slotIndexAt, Decoded.decode_memberRef hop h.occupies.entry hfamily hcache]
  change (do return some (← (body.memberRefAt mode bci).cacheIndex)) = _
  rw [hindex]
  rfl

/-- The cache index of an instruction is the number that its slot was handed out under. -/
theorem Visit.take_of_slotIndexAt {i : UInt32} (hi : body.slotIndexAt mode bci = .ok (some i)) :
    ∃ slot, s.code.slotAt? pool bci = some slot ∧ (m.allocator.take slot).1 = i := by
  have hentry := h.occupies.entry
  obtain ⟨op', e', hafter, hcanonical⟩ := h.occupies_after
  have hop' : body.code.opcodeAt bci = .ok op' := by rw [hbody]; exact hafter.opcode
  have hfamily : e'.family = e.family := by rw [FormatEntry.family, hcanonical, FormatEntry.family]
  rcases MethodBody.family_of_slotIndexAt hop' hafter.entry hi with hmember | hload
  · rw [hfamily] at hmember
    obtain ⟨slot, hslot, hindex⟩ := h.slotIndexAt_member mode body hbody hcache hslow hmember
    rw [hi] at hindex
    exact ⟨slot, hslot, (Option.some.inj (Except.ok.inj hindex)).symm⟩
  · rw [MethodBody.slotIndexAt, Decoded.decode_loadConstant hop' hafter.entry hload] at hi
    change (do
      if ← (body.loadAt mode bci).hasCacheIndex then
        return some (← (body.loadAt mode bci).rawIndex).toUInt32
      else return none) = _ at hi
    rw [hfamily] at hload
    have hcached : (body.loadAt mode bci).hasCacheIndex = .ok op'.isFast := by
      have hraw : (body.cursor mode bci).rawOpcode = .ok op' := hop'
      rw [LoadConstant.hasCacheIndex, MethodBody.loadAt, hraw]
      rfl
    rcases load_operand mode body h hbody hslow hload with
      ⟨hop, -⟩ | ⟨fast, e'', slot, index, hop, hfast, -, -, hslot, hindex, hnumber⟩
    · obtain rfl : op' = op := Except.ok.inj (hafter.opcode.symm.trans hop)
      rw [hcached, hslow] at hi
      cases hi
    · obtain rfl : op' = fast := Except.ok.inj (hafter.opcode.symm.trans hop)
      rw [hcached, hfast, hindex] at hi
      obtain rfl := Option.some.inj (Except.ok.inj hi)
      exact ⟨slot, hslot, hnumber.symm⟩

end Rewriting

/-! ### Sites of codes rewritten in turn -/

variable {pool : Pool} {a b c m m' : Allocator} {pairs : List (Code × Code)} {before after : Code}
  {k k' bci bci' : Nat} {op : Opcode} {p : UInt16} {i : UInt32} {mode : Mode} {method : Method} {cache : Cache}

namespace RewrittenInTurn

/-- Each code has been rewritten with the slots that the codes before it have left. -/
theorem split (h : RewrittenInTurn pool a pairs b) (hk : pairs[k]? = some (before, after)) :
    ∃ c summary, RewrittenInTurn pool a (pairs.take k) c ∧ (rewrite before pool c).outcome = .ok summary ∧
      after = (rewrite before pool c).code ∧ b.Extends (rewrite before pool c).allocator := by
  induction h generalizing k with
  | nil => cases hk
  | @cons a b first rest summary hok hrest ih =>
      cases k with
      | zero =>
          obtain ⟨rfl, rfl⟩ := Prod.mk.inj (Option.some.inj hk)
          exact ⟨a, summary, .nil a, hok, rfl, hrest.extends_allocator⟩
      | succ k =>
          obtain ⟨c, summary', hc, hok', hafter, hextends⟩ := ih hk
          exact ⟨c, summary', .cons hok hc, hok', hafter, hextends⟩

theorem unique {b' : Allocator} (h : RewrittenInTurn pool a pairs b) (h' : RewrittenInTurn pool a pairs b') :
    b = b' := by
  induction h with
  | nil =>
      cases h'
      rfl
  | cons _ _ ih =>
      cases h' with
      | cons _ hrest => exact ih hrest

end RewrittenInTurn

/-- Rewriting codes in turn comes to a position of one of them with some slots taken. -/
def ArrivesWith (pool : Pool) (a : Allocator) (pairs : List (Code × Code)) (k bci : Nat) (m : Allocator) : Prop :=
  ∃ before after c, pairs[k]? = some (before, after) ∧ RewrittenInTurn pool a (pairs.take k) c ∧
    before.Allots pool 0 c bci m

/-- An instruction that rewriting has given a cache index: in the code numbered `k`, which held the opcode `op`
and the pool index `p` there, a method of the linked class finds the index `i`. -/
inductive LinkedSite (pool : Pool) (cache : Cache) (mode : Mode) (method : Method) (pairs : List (Code × Code))
    (k bci : Nat) (op : Opcode) (p : UInt16) (i : UInt32) : Prop where
  | intro {before after : Code} (hcode : pairs[k]? = some (before, after)) (hstart : before.IsStart bci)
      (hop : before.opcodeAt bci = .ok op) (hslow : op.isFast = false)
      (hencoded : before.encodedIndexAt bci = .ok p)
      (hindex : (linkedBody method after pool cache).slotIndexAt mode bci = .ok (some i)) :
      LinkedSite pool cache mode method pairs k bci op p i

/-- What a site has to do with the slots: `m` are those taken when rewriting comes to it, and `slot` is its own. -/
structure TakesSlot (pool : Pool) (a : Allocator) (pairs : List (Code × Code)) (k bci : Nat) (m : Allocator)
    (slot : AllocatedSlot) : Prop where
  arrives : ArrivesWith pool a pairs k bci m
  asks : ∀ before after, pairs[k]? = some (before, after) →
    bci < before.size ∧ before.slotAt? pool bci = some slot

/-- Rewriting has visited every instruction start. -/
theorem RewrittenInTurn.visit (h : RewrittenInTurn pool a pairs b) (hk : pairs[k]? = some (before, after))
    (hstart : before.IsStart bci) (hop : before.opcodeAt bci = .ok op) :
    ∃ n e s t l l', Visit pool bci n op e s t l l' ∧ s.code = before ∧ t.code = after ∧
      b.Extends t.allocator ∧ ArrivesWith pool a pairs k bci l.allocator := by
  obtain ⟨c, summary, hc, hok, rfl, hextends⟩ := h.split hk
  obtain ⟨t, hpass, hcode, hallocator, -⟩ := pass_of_rewrite hok
  have hlt : bci < before.size := Code.lt_size_of_byteAt (Code.opcodeAt_eq_ok.mp hop)
  obtain ⟨n, op', e, l, l', hvisit, hallots⟩ := hpass.visits_allots hstart hlt
  obtain rfl : op' = op := hvisit.opcode_eq hop
  rw [hallocator] at hextends
  exact ⟨n, e, _, t, l, l', hvisit, rfl, hcode.symm, hextends, before, _, c, hk, hc, hallots⟩

/-- The cache index of a site is the number under which its slot was handed out. -/
theorem LinkedSite.takesSlot (hsite : LinkedSite pool cache mode method pairs k bci op p i)
    (h : RewrittenInTurn pool a pairs b) :
    ∃ m, TakesSlot pool a pairs k bci m (op.slotOf p) ∧ (m.take (op.slotOf p)).1 = i ∧
      b.Extends (m.take (op.slotOf p)).2 := by
  obtain ⟨hcode, hstart, hop, hslow, hencoded, hindex⟩ := hsite
  obtain ⟨n, e, s, t, l, l', hvisit, rfl, rfl, hextends, harrives⟩ := h.visit hcode hstart hop
  obtain ⟨slot, hslot, hnumber⟩ := hvisit.take_of_slotIndexAt mode _ rfl rfl hslow hindex
  obtain rfl : slot = op.slotOf p := by
    obtain ⟨op', hop', hencoded', hfor⟩ := Code.exists_of_slotAt? hslot
    rw [hfor, Except.ok.inj (hop.symm.trans hop'), Except.ok.inj (hencoded.symm.trans hencoded')]
  refine ⟨l.allocator, ⟨harrives, fun before after hk => ?_⟩, hnumber, hextends.trans (hvisit.extends_take hslot)⟩
  obtain ⟨rfl, rfl⟩ := Prod.mk.inj (Option.some.inj (hcode.symm.trans hk))
  exact ⟨Code.lt_size_of_byteAt (Code.opcodeAt_eq_ok.mp hop), hslot⟩

/-- Of two sites, the later one is met when the earlier one has taken its slot. -/
theorem TakesSlot.extends_of_lt {d : AllocatedSlot} (hm : TakesSlot pool a pairs k bci m d)
    (hm' : ArrivesWith pool a pairs k' bci' m') (hlt : k < k' ∨ k = k' ∧ bci < bci') :
    m'.Extends (m.take d).2 := by
  obtain ⟨before, after, c, hk, hc, hallots⟩ := hm.arrives
  obtain ⟨before', after', c', hk', hc', hallots'⟩ := hm'
  obtain ⟨hsize, hslot⟩ := hm.asks before after hk
  have hafter {x : Nat} {b : Allocator} (hx : before.Allots pool 0 c x b) (hlt : bci < x) :
      b.Extends (m.take d).2 := by
    have hextends := (hallots.of_le hx (Nat.le_of_lt hlt)).extends_after hlt
    rwa [hslot] at hextends
  rcases hlt with hlt | ⟨rfl, hlt⟩
  · have hget : (pairs.take k')[k]? = some (before, after) := (List.getElem?_take_of_lt hlt).trans hk
    obtain ⟨c₁, summary, hc₁, hok, -, hextends⟩ := hc'.split hget
    rw [List.take_take, Nat.min_eq_left (Nat.le_of_lt hlt)] at hc₁
    obtain rfl := hc.unique hc₁
    obtain ⟨t, hpass, -, hallocator, -⟩ := pass_of_rewrite hok
    obtain ⟨x, hx, hallots₁⟩ := hpass.exists_allots
    rw [hallocator] at hextends
    exact hallots'.extends_allocator.trans (hextends.trans (hafter hallots₁ (Nat.lt_of_lt_of_le hsize hx)))
  · obtain ⟨rfl, rfl⟩ := Prod.mk.inj (Option.some.inj (hk.symm.trans hk'))
    obtain rfl := hc.unique hc'
    exact hafter hallots' hlt

/-- Two distinct sites have the same cache index exactly if they share a slot. -/
theorem LinkedSite.index_eq_iff {op' : Opcode} {p' : UInt16} {i' : UInt32} {mode' : Mode} {method' : Method}
    (h : RewrittenInTurn pool a pairs b) (hsize : b.size < UInt32.size)
    (hsite : LinkedSite pool cache mode method pairs k bci op p i)
    (hsite' : LinkedSite pool cache mode' method' pairs k' bci' op' p' i') (hne : (k, bci) ≠ (k', bci')) :
    i = i' ↔ (op ≠ .invokedynamic ∧ op' ≠ .invokedynamic) ∧ p = p' := by
  obtain ⟨m, hm, rfl, hextends⟩ := hsite.takesSlot h
  obtain ⟨m', hm', rfl, hextends'⟩ := hsite'.takesSlot h
  have hlt : (k < k' ∨ k = k' ∧ bci < bci') ∨ (k' < k ∨ k' = k ∧ bci' < bci) := by
    rw [ne_eq, Prod.mk.injEq] at hne
    omega
  rcases hlt with hlt | hlt
  · have hiff := Allocator.take_eq_iff (hm.extends_of_lt hm'.arrives hlt)
      (Nat.lt_of_le_of_lt hextends'.size_le hsize)
    rw [eq_comm, hiff, Opcode.isShared_slotOf, Opcode.isShared_slotOf]
    rfl
  · have hiff := Allocator.take_eq_iff (hm'.extends_of_lt hm.arrives hlt)
      (Nat.lt_of_le_of_lt hextends.size_le hsize)
    rw [hiff, Opcode.isShared_slotOf, Opcode.isShared_slotOf, and_comm (a := op' ≠ .invokedynamic),
      eq_comm (a := (op'.slotOf p').poolIndex)]
    rfl

theorem Allocator.poolIndices_getElem? {n : Nat} {slot : AllocatedSlot} (h : a.slots[n]? = some slot) :
    a.poolIndices[n]? = some slot.poolIndex := by
  rw [poolIndices, List.getElem?_map, Array.getElem?_toList, h]
  rfl

namespace RewrittenInTurn

/-- Over all codes that are rewritten in turn, two instructions have the same cache index exactly if both refer to
the same pool index and neither is a dynamic call site. The index of a call site has not been handed out before,
and the entry at an index keeps the pool index that it was taken for. -/
theorem slots_shared (h : RewrittenInTurn pool a pairs b) (hsize : b.size < UInt32.size) (cache : Cache) :
    (∀ mode method k before after bci op, pairs[k]? = some (before, after) → before.IsStart bci →
        before.opcodeAt bci = .ok op → op ∈ Opcode.memberReferences →
        ∃ p i, LinkedSite pool cache mode method pairs k bci op p i) ∧
      (∀ mode method k bci op p i mode' method' k' bci' op' p' i',
        LinkedSite pool cache mode method pairs k bci op p i →
        LinkedSite pool cache mode' method' pairs k' bci' op' p' i' → (k, bci) ≠ (k', bci') →
        (i = i' ↔ (op ≠ .invokedynamic ∧ op' ≠ .invokedynamic) ∧ p = p')) ∧
      (∀ mode method k bci p i, LinkedSite pool cache mode method pairs k bci .invokedynamic p i →
        ∃ m, ArrivesWith pool a pairs k bci m ∧ ¬m.HandedOut i) ∧
      (∀ mode method k bci op p i c, LinkedSite pool cache mode method pairs k bci op p i → b.Grows c →
        c.size < UInt32.size → c.poolIndices[i.toNat]? = some p) ∧
      ∀ (l : Allocator) (slot : AllocatedSlot) (c : Allocator), (l.take slot).2.Grows c → c.size < UInt32.size →
        c.poolIndices[(l.take slot).1.toNat]? = some slot.poolIndex := by
  refine ⟨?_, ?_, ?_, ?_, ?_⟩
  · intro mode method k before after bci op hcode hstart hop hmember
    obtain ⟨n, e, s, t, l, l', hvisit, rfl, rfl, -, -⟩ := h.visit hcode hstart hop
    obtain ⟨hslow, hfamily⟩ := Opcode.family_of_memberReference _ hmember
    rw [← FormatTable.family_of_slow hvisit.occupies.entry hslow] at hfamily
    obtain ⟨slot, hslot, hindex⟩ :=
      hvisit.slotIndexAt_member mode (linkedBody method t.code pool cache) rfl rfl hslow hfamily
    obtain ⟨_, -, hencoded, -⟩ := Code.exists_of_slotAt? hslot
    exact ⟨_, _, .intro hcode hstart hop hslow hencoded hindex⟩
  · intro mode method k bci op p i mode' method' k' bci' op' p' i' hsite hsite' hne
    exact hsite.index_eq_iff h hsize hsite' hne
  · intro mode method k bci p i hsite
    obtain ⟨m, hm, rfl, hextends⟩ := hsite.takesSlot h
    refine ⟨m, hm.arrives, fun ⟨l, d, hearlier, heq⟩ => ?_⟩
    have hshared := (Allocator.take_eq_iff hearlier (Nat.lt_of_le_of_lt hextends.size_le hsize)).mp heq.symm
    exact Opcode.isShared_slotOf.mp hshared.1.2 rfl
  · intro mode method k bci op p i c hsite hgrows hc
    obtain ⟨m, -, rfl, hextends⟩ := hsite.takesSlot h
    have hlater := hgrows.extends.trans hextends
    exact Allocator.poolIndices_getElem?
      (hlater.slot (Allocator.slot_take (Nat.lt_of_le_of_lt hlater.size_le hc)))
  · intro l slot c hgrows hc
    exact Allocator.poolIndices_getElem? (hgrows.slot_take hc)

/-- The sample code, rewritten twice in turn. -/
def firstSample : Rewritten := rewrite sampleCode samplePool .empty

def secondSample : Rewritten := rewrite sampleCode samplePool firstSample.allocator

/-- A site of the two. -/
def SampleSite (k bci : Nat) (op : Opcode) (p : UInt16) (i : UInt32) : Prop :=
  LinkedSite samplePool (secondSample.allocator.cache 7) .checked sampleMethod
    [(sampleCode, firstSample.code), (sampleCode, secondSample.code)] k bci op p i

/-- The field accesses of the two share a slot, and a load has another one. -/
theorem slots_shared_sample :
    ∃ i j, SampleSite 0 1 .getfield 4 i ∧ SampleSite 1 1 .getfield 4 i ∧ SampleSite 1 4 .ldc 5 j ∧ i ≠ j := by
  have hfirst : firstSample.outcome = .ok ⟨1, 0, 1, 0⟩ := by decide +kernel
  have hsecond : secondSample.outcome = .ok ⟨1, 0, 1, 0⟩ := by decide +kernel
  have hsize : secondSample.allocator.size < UInt32.size := by decide +kernel
  obtain ⟨hexists, hiff, -⟩ :=
    slots_shared (.cons hfirst (.cons hsecond (.nil _))) hsize (secondSample.allocator.cache 7)
  have hlength : sampleCode.lengthAt 0 = .ok (some 1) := by decide +kernel
  have hlength' : sampleCode.lengthAt 1 = .ok (some 3) := by decide +kernel
  have hstart : sampleCode.IsStart 1 := .step hlength (.refl 1)
  have hop : sampleCode.opcodeAt 1 = .ok .getfield := by decide
  have hfield (k : Nat) (after : Code)
      (hk : [(sampleCode, firstSample.code), (sampleCode, secondSample.code)][k]? = some (sampleCode, after)) :
      ∃ i, SampleSite k 1 .getfield 4 i := by
    obtain ⟨p, i, hsite⟩ := hexists .checked sampleMethod k _ _ 1 _ hk hstart hop (by decide)
    have hp : p = 4 := by
      obtain ⟨hcode, -, -, -, hencoded, -⟩ := hsite
      obtain ⟨rfl, -⟩ := Prod.mk.inj (Option.some.inj (hk.symm.trans hcode))
      exact Except.ok.inj (hencoded.symm.trans (by decide))
    exact ⟨i, hp ▸ hsite⟩
  obtain ⟨i, hi⟩ := hfield 0 _ rfl
  obtain ⟨i', hi'⟩ := hfield 1 _ rfl
  have hj : SampleSite 1 4 .ldc 5 1 :=
    .intro rfl (.step hlength (.step hlength' (.refl 4))) (by decide) (by decide) (by decide) (by decide +kernel)
  obtain rfl : i = i' :=
    (hiff _ _ _ _ _ _ _ _ _ _ _ _ _ _ hi hi' (by decide)).mpr ⟨⟨by decide, by decide⟩, rfl⟩
  refine ⟨i, 1, hi, hi', hj, fun heq => ?_⟩
  exact absurd ((hiff _ _ _ _ _ _ _ _ _ _ _ _ _ _ hi hj (by decide)).mp heq).2 (by decide)

end RewrittenInTurn

end MethodCode
