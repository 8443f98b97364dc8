import MethodCode.Proofs.Descriptor.Grammar
import MethodCode.Proofs.Linking.MadeConstants
import MethodCode.Proofs.Pool.Building

/-! What a built pool answers. The readers of a pool follow the same references that spell an item out, so at the
index of an item they find its parts again. A text names one entry and an entry holds one text, so the indices of
two texts are equal exactly when the texts are; and likewise for classes, whose entries refer to their names. Main
statements: a pool answers what its builder was told, for every sequence of items that the sixteen bits of an index
can number (`Pool.tells_ofItems`); and it holds nothing else, for an index that reaches an entry reaches that of an
item, in pools of any size (`Pool.exists_spells`). -/

namespace MethodCode

namespace PoolItem

/-- The name and the descriptor of a reference to a member or a call site. -/
def member? : PoolItem → Option (String × String)
  | fieldRef _ name descriptor | methodRef _ name descriptor | interfaceMethodRef _ name descriptor
  | invokeDynamic _ name descriptor => some (name, descriptor)
  | _ => none

/-- The class that a reference names as the holder of its member. -/
def holder? : PoolItem → Option String
  | fieldRef holder _ _ | methodRef holder _ _ | interfaceMethodRef holder _ _ => some holder
  | _ => none

theorem exists_member? {item : PoolItem}
    (h : item.tag ∈ [.fieldRef, .methodRef, .interfaceMethodRef, .invokeDynamic]) :
    ∃ name descriptor, item.member? = some (name, descriptor) := by
  cases item with
  | fieldRef | methodRef | interfaceMethodRef | invokeDynamic => exact ⟨_, _, rfl⟩
  | _ => exact absurd h (by simp [tag])

theorem tag_of_member? {item : PoolItem} {pair : String × String} (h : item.member? = some pair) :
    item.tag ∈ [ConstantTag.fieldRef, .methodRef, .interfaceMethodRef, .invokeDynamic] := by
  cases item with
  | fieldRef | methodRef | interfaceMethodRef | invokeDynamic => simp [tag]
  | _ => cases h

theorem exists_holder? {item : PoolItem} (h : item.tag ∈ [.fieldRef, .methodRef, .interfaceMethodRef]) :
    ∃ holder, item.holder? = some holder := by
  cases item with
  | fieldRef | methodRef | interfaceMethodRef => exact ⟨_, rfl⟩
  | _ => exact absurd h (by simp [tag])

theorem tag_of_holder? {item : PoolItem} {holder : String} (h : item.holder? = some holder) :
    item.tag ∈ [ConstantTag.fieldRef, .methodRef, .interfaceMethodRef] := by
  cases item with
  | fieldRef | methodRef | interfaceMethodRef => simp [tag]
  | _ => cases h

/-- Loading an item makes a constant. A method type needs a descriptor that can be read. -/
inductive Makes : PoolItem → LoadedConstant → Prop where
  | integer (v : Int32) : Makes (.integer v) (.int v)
  | float (bits : UInt32) : Makes (.float bits) (.float bits)
  | long (v : Int64) : Makes (.long v) (.long v)
  | double (bits : UInt64) : Makes (.double bits) (.double bits)
  | string (s : String) : Makes (.string s) (.string s)
  | classRef (name : String) : Makes (.classRef name) (.classRef (.ofString name))
  | methodType {descriptor : String} (r : Descriptor.Reading) (h : r.text = descriptor.toList) :
      Makes (.methodType descriptor) (.methodType (.ofString descriptor))

end PoolItem

/-! ### Readers -/

namespace Pool

variable {p : Pool} {item : PoolItem} {entry : PoolEntry} {i j : UInt16} {s t name descriptor holder : String}

theorem entryAt_of_getElem? (h : p.entries[i.toNat]? = some entry) (hvalid : entry ≠ .invalid) :
    p.entryAt i = .ok entry := by
  rw [entryAt, h]
  cases entry with
  | invalid => exact absurd rfl hvalid
  | _ => rfl

namespace Spells

/-- An item is entered under its own tag. -/
theorem tagAt (h : p.Spells item i) : p.tagAt i = .ok item.tag := by
  cases h with
  | _ h =>
      rw [Pool.tagAt, entryAt_of_getElem? h (by simp)]
      rfl

theorem utf8At (h : p.Spells (.utf8 s) i) : p.utf8At i = .ok (.ofString s) := by
  cases h with
  | utf8 h =>
      rw [Pool.utf8At, entryAt_of_getElem? h (by simp)]
      rfl

theorem classNameAt (h : p.Spells (.classRef name) i) : p.classNameAt i = .ok (.ofString name) := by
  cases h with
  | classRef h hname =>
      rw [Pool.classNameAt, entryAt_of_getElem? h (by simp)]
      exact hname.utf8At

/-- A reference leads to its pair of a name and a descriptor. -/
theorem nameAndTypeOf (h : p.Spells item i) (hmember : item.member? = some (name, descriptor)) :
    ∃ n d, p.nameAndTypeOf i = .ok (n, d) ∧ p.Spells (.utf8 name) n ∧ p.Spells (.utf8 descriptor) d := by
  cases h with
  | fieldRef h _ hpair | methodRef h _ hpair | interfaceMethodRef h _ hpair | invokeDynamic h hpair =>
      cases hmember
      cases hpair with
      | nameAndType hnt hname hdescriptor =>
          refine ⟨_, _, ?_, hname, hdescriptor⟩
          rw [Pool.nameAndTypeOf, entryAt_of_getElem? h (by simp)]
          simp only [ok_bind, pure_bind, entryAt_of_getElem? hnt (by simp)]
          rfl
  | _ => cases hmember

theorem memberNameAt (h : p.Spells item i) (hmember : item.member? = some (name, descriptor)) :
    p.memberNameAt i = .ok (.ofString name) := by
  obtain ⟨n, d, hpair, hname, -⟩ := h.nameAndTypeOf hmember
  rw [Pool.memberNameAt, hpair]
  exact hname.utf8At

theorem memberSignatureAt (h : p.Spells item i) (hmember : item.member? = some (name, descriptor)) :
    p.memberSignatureAt i = .ok (.ofString descriptor) := by
  obtain ⟨n, d, hpair, -, hdescriptor⟩ := h.nameAndTypeOf hmember
  rw [Pool.memberSignatureAt, hpair]
  exact hdescriptor.utf8At

theorem holderNameAt (h : p.Spells item i) (hholder : item.holder? = some holder) :
    p.holderNameAt i = .ok (.ofString holder) := by
  cases h with
  | fieldRef h hclass _ | methodRef h hclass _ | interfaceMethodRef h hclass _ =>
      cases hholder
      rw [Pool.holderNameAt, entryAt_of_getElem? h (by simp)]
      exact hclass.classNameAt
  | _ => cases hholder

/-- What names no holder has none, dynamic call sites among them. -/
theorem no_holderNameAt (h : p.Spells item i) (hholder : item.holder? = none) :
    p.holderNameAt i = failWith (.noHolder item.tag i) := by
  cases h with
  | fieldRef | methodRef | interfaceMethodRef => cases hholder
  | _ h =>
      rw [Pool.holderNameAt, entryAt_of_getElem? h (by simp)]
      rfl

theorem loadedConstantAt {c : LoadedConstant} (h : p.Spells item i) (hmakes : item.Makes c) :
    p.loadedConstantAt i = .ok c := by
  unfold Pool.loadedConstantAt
  cases hmakes with
  | integer | float | long | double =>
      cases h with
      | _ h =>
          rw [entryAt_of_getElem? h (by simp)]
          rfl
  | string s =>
      cases h with
      | string h htext =>
          rw [entryAt_of_getElem? h (by simp)]
          simp only [ok_bind, htext.utf8At, Symbol.text_ofString]
          rfl
  | classRef name =>
      cases h with
      | classRef h hname =>
          rw [entryAt_of_getElem? h (by simp)]
          simp only [ok_bind, hname.utf8At]
          rfl
  | methodType r hr =>
      cases h with
      | methodType h hdescriptor =>
          rw [entryAt_of_getElem? h (by simp)]
          simp only [ok_bind, hdescriptor.utf8At, Symbol.text_ofString,
            Descriptor.resultType_of_reading (Descriptor.reading?_eq_some_iff.2 hr)]
          rfl

/-- An entry holds one text. -/
theorem text_unique (hs : p.Spells (.utf8 s) i) (ht : p.Spells (.utf8 t) i) : s = t :=
  Symbol.ofString_injective (Except.ok.inj (hs.utf8At.symm.trans ht.utf8At))

/-- An entry names one class. -/
theorem class_unique (hs : p.Spells (.classRef s) i) (ht : p.Spells (.classRef t) i) : s = t :=
  Symbol.ofString_injective (Except.ok.inj (hs.classNameAt.symm.trans ht.classNameAt))

end Spells

/-! ### Answers -/

/-- What a pool answers about the item at an index is the item. -/
structure Tells (p : Pool) (item : PoolItem) (i : UInt16) : Prop where
  tag : p.tagAt i = .ok item.tag
  member : ∀ name descriptor, item.member? = some (name, descriptor) →
    p.memberNameAt i = .ok (.ofString name) ∧ p.memberSignatureAt i = .ok (.ofString descriptor)
  holder : ∀ holder, item.holder? = some holder → p.holderNameAt i = .ok (.ofString holder)
  noHolder : item.tag = .invokeDynamic → p.holderNameAt i = failWith (.noHolder .invokeDynamic i)
  className : ∀ name, item = .classRef name → p.classNameAt i = .ok (.ofString name)
  /-- The second slot of a wide constant is there, and holds nothing. -/
  unusable : item.tag = .long ∨ item.tag = .double →
    (i + 1).toNat = i.toNat + 1 ∧ i.toNat + 1 < p.size ∧ p.entryAt (i + 1) = failWith (.noEntry (i + 1))
  constant : ∀ c, item.Makes c → ∀ thread (s : LinkState), s.constants.pool = p →
    (exec (LinkM.constantAt i thread) s).1 = .ok c

theorem tells_of_knows {b : PoolBuilder} (h : b.Knows item i) (hroom : b.entries.size ≤ 65536) :
    b.build.Tells item i where
  tag := h.spells.tagAt
  member _ _ hmember := ⟨h.spells.memberNameAt hmember, h.spells.memberSignatureAt hmember⟩
  holder _ hholder := h.spells.holderNameAt hholder
  noHolder hdynamic := by
    have hnone : item.holder? = none :=
      Option.eq_none_iff_forall_ne_some.mpr fun _ hholder => by simpa [hdynamic] using PoolItem.tag_of_holder? hholder
    rw [h.spells.no_holderNameAt hnone, hdynamic]
  className name hclass := by
    subst hclass
    exact h.spells.classNameAt
  unusable hwide := by
    have hsecond := h.unusable hwide
    obtain ⟨hslot, -⟩ := Array.getElem?_eq_some_iff.mp hsecond
    have hnext : (i + 1).toNat = i.toNat + 1 := by
      rw [UInt16.toNat_add]
      exact Nat.mod_eq_of_lt (Nat.lt_of_lt_of_le hslot hroom)
    refine ⟨hnext, hslot, ?_⟩
    have hread : b.build.entries[(i + 1).toNat]? = some .invalid := by rw [hnext]; exact hsecond
    rw [entryAt, hread]
  constant c hmakes thread s hpool := by
    rw [LinkM.fst_constantAt, hpool, h.spells.loadedConstantAt hmakes]
    rfl

/-- The indices that a new builder gives to items, one after the other. -/
def indicesOf (items : List PoolItem) : List UInt16 := (PoolBuilder.addAll items .empty).1

/-- The pool of the items, entered one after the other. -/
def ofItems (items : List PoolItem) : Pool := (PoolBuilder.addAll items .empty).2.build

/-- Whatever was entered, and however much: what stands at an index is the entry of an item. -/
theorem exists_spells {items : List PoolItem} {tag : ConstantTag} (h : (ofItems items).tagAt i = .ok tag) :
    ∃ item, (ofItems items).Spells item i ∧ item.tag = tag := by
  have hsound := PoolBuilder.sound_addAll items PoolBuilder.sound_empty
  have hentry : ∃ e, (ofItems items).entries[i.toNat]? = some e ∧ e ≠ .invalid := by
    rw [tagAt, entryAt] at h
    generalize (ofItems items).entries[i.toNat]? = found at h
    split at h
    · cases h
    · cases h
    · rename_i e hvalid
      exact ⟨e, rfl, hvalid⟩
  obtain ⟨e, he, hvalid⟩ := hentry
  obtain ⟨item, hspells⟩ := (hsound.spelled i e he).resolve_left hvalid
  exact ⟨item, hspells, Except.ok.inj (hspells.tagAt.symm.trans h)⟩

/-- The pool answers what its builder was told: each item is found at the index that it was given, and the indices
of texts and of classes tell them apart. -/
theorem tells_ofItems (items : List PoolItem) (hroom : (ofItems items).size ≤ 65536) :
    List.Forall₂ (ofItems items).Tells items (indicesOf items) ∧
      (∀ s t i j, (.utf8 s, i) ∈ items.zip (indicesOf items) → (.utf8 t, j) ∈ items.zip (indicesOf items) →
        (i = j ↔ s = t)) ∧
      (∀ s t i j, (.classRef s, i) ∈ items.zip (indicesOf items) →
        (.classRef t, j) ∈ items.zip (indicesOf items) → (i = j ↔ s = t)) := by
  have hknows := PoolBuilder.knows_addAll items PoolBuilder.sound_empty hroom
  have hpair {item : PoolItem} {i : UInt16} (hmem : (item, i) ∈ items.zip (indicesOf items)) :
      (PoolBuilder.addAll items .empty).2.Knows item i :=
    (List.forall₂_iff_zip.mp hknows).2 hmem
  refine ⟨hknows.imp fun item i h => tells_of_knows h hroom, fun s t i j hs ht => ?_, fun s t i j hs ht => ?_⟩
  · constructor
    · rintro rfl
      exact (hpair hs).spells.text_unique (hpair ht).spells
    · rintro rfl
      exact Option.some.inj (((hpair hs).text s rfl).symm.trans ((hpair ht).text s rfl))
  · constructor
    · rintro rfl
      exact (hpair hs).spells.class_unique (hpair ht).spells
    · rintro rfl
      exact Option.some.inj (((hpair hs).named s rfl).symm.trans ((hpair ht).named s rfl))

/-- Every kind of item fits: a class and its name are shared, and a wide constant moves what follows. -/
theorem tells_ofItems_sample :
    let items := [.double 0, .methodRef "A" "f" "()V", .classRef "A", .invokeDynamic 0 "f" "()V", .utf8 "A",
      .methodType "()V", .classRef "A"]
    (ofItems items).size ≤ 65536 ∧ List.Forall₂ (ofItems items).Tells items (indicesOf items) := by
  refine ⟨by decide +kernel, (tells_ofItems _ (by decide +kernel)).1⟩

end Pool

end MethodCode
