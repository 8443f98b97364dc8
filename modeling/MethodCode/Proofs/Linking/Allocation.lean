import MethodCode.Cache
import MethodCode.Linking.Allocator

/-! What allocation promises. Slots are only ever added, so a number that was handed out keeps naming the
slot it was handed out for. Main statements: both ways of taking a slot answer the number of a slot for
the pool index asked for, and the cache made from the slots has the same pool index under that number. -/

namespace MethodCode.Allocator

/-- The slots of `a` are in `b`, under the same numbers. -/
def Extends (b a : Allocator) : Prop :=
  ∃ later, b.slots = a.slots ++ later

theorem Extends.refl (a : Allocator) : a.Extends a :=
  ⟨#[], by simp⟩

theorem Extends.trans {a b c : Allocator} (hcb : c.Extends b) (hba : b.Extends a) : c.Extends a := by
  obtain ⟨more, hc⟩ := hcb
  obtain ⟨later, hb⟩ := hba
  exact ⟨later ++ more, by rw [hc, hb, Array.append_assoc]⟩

theorem Extends.size_le {a b : Allocator} (h : b.Extends a) : a.size ≤ b.size := by
  obtain ⟨later, hb⟩ := h
  simp [size, hb]

theorem Extends.slot {a b : Allocator} (h : b.Extends a) {i : Nat} {slot : AllocatedSlot}
    (hi : a.slots[i]? = some slot) : b.slots[i]? = some slot := by
  obtain ⟨later, hb⟩ := h
  have hlt := (Array.getElem?_eq_some_iff.mp hi).1
  rw [hb, Array.getElem?_append_left hlt, hi]

variable {a : Allocator} {p : UInt16}

theorem extends_push (slot : AllocatedSlot) : (a.push slot).2.Extends a :=
  ⟨#[slot], by simp [push]⟩

theorem slot_push {slot : AllocatedSlot} (hsize : (a.push slot).2.size < UInt32.size) :
    (a.push slot).2.slots[(a.push slot).1.toNat]? = some slot := by
  have hlt : a.slots.size < UInt32.size := by
    simp only [push, size, Array.size_push] at hsize
    omega
  have hnumber : (a.push slot).1.toNat = a.slots.size :=
    UInt32.toNat_ofNat'.trans (Nat.mod_eq_of_lt hlt)
  rw [hnumber]
  exact Array.getElem?_push_size

theorem extends_shared (a : Allocator) (p : UInt16) : (a.shared p).2.Extends a := by
  unfold shared
  cases a.shared? p with
  | none => exact extends_push _
  | some i => exact .refl a

theorem extends_callSite (a : Allocator) (p : UInt16) : (a.callSite p).2.Extends a :=
  extends_push _

/-- The shared slot of a pool index is a slot for it. -/
theorem slot_shared (hsize : (a.shared p).2.size < UInt32.size) :
    (a.shared p).2.slots[(a.shared p).1.toNat]? = some ⟨p, true⟩ := by
  unfold shared at hsize ⊢
  cases h : a.shared? p with
  | none =>
      rw [h] at hsize
      exact slot_push hsize
  | some i =>
      rw [h] at hsize
      obtain ⟨hlt, hslot, -⟩ := Array.findIdx?_eq_some_iff_getElem.mp h
      simp only [Bool.and_eq_true, beq_iff_eq] at hslot
      have hi : i < UInt32.size := Nat.lt_trans hlt hsize
      simp only [UInt32.toNat_ofNat', Nat.mod_eq_of_lt hi]
      rw [Array.getElem?_eq_getElem hlt, ← hslot.1, ← hslot.2]

/-- The slot of a dynamic call site is a slot for its pool index. -/
theorem slot_callSite (hsize : (a.callSite p).2.size < UInt32.size) :
    (a.callSite p).2.slots[(a.callSite p).1.toNat]? = some ⟨p, false⟩ :=
  slot_push hsize

/-- The cache that has an entry for every slot taken, nothing resolved yet. -/
def cache (a : Allocator) (tag : UInt32) : Cache := .ofPoolIndices a.poolIndices tag

theorem getElem?_cache (a : Allocator) (tag : UInt32) (j : Nat) :
    (a.cache tag).slots[j]? = a.slots[j]?.map fun slot => ⟨slot.poolIndex, none⟩ := by
  simp only [cache, Cache.ofPoolIndices, poolIndices, List.map_map, List.getElem?_toArray, List.getElem?_map,
    Array.getElem?_toList]
  rfl

/-- A new cache holds nothing. -/
theorem resolvedAt_cache (a : Allocator) (tag i : UInt32) : (a.cache tag).resolvedAt i = none := by
  rw [Cache.resolvedAt, getElem?_cache]
  cases a.slots[i.toNat]? <;> rfl

theorem poolIndexAt_cache {i : UInt32} {slot : AllocatedSlot} (tag : UInt32)
    (h : a.slots[i.toNat]? = some slot) : (a.cache tag).poolIndexAt i = .ok slot.poolIndex := by
  have hslot : (a.cache tag).slots[i.toNat]? = some ⟨slot.poolIndex, none⟩ := by
    rw [getElem?_cache, h]
    rfl
  simp only [Cache.poolIndexAt, Cache.slotAt, hslot]
  rfl

end MethodCode.Allocator
