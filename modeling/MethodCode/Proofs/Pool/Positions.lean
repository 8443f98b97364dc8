import MethodCode.Proofs.Pool.Answers

/-! Where a builder puts what it is told. Entries only ever go to the end, so each call that appends one has a
position of its own, in pools of any size. The index that the call answers is that position in sixteen bits: past
`65536` slots indices are handed out again, and then lead to the entry that has had the index first. Main statements:
`Pool.indices_ofItems`, for every sequence of calls, and `Pool.index_handed_out_again`, that indices do repeat. -/

namespace MethodCode

/-- The number of slots that an item's own entry takes. -/
def PoolItem.width : PoolItem → Nat
  | long _ | double _ => 2
  | _ => 1

namespace PoolBuilder

variable {b b' b'' : PoolBuilder} {item : PoolItem} {items : List PoolItem} {entry : PoolEntry} {i : UInt16}
  {s name : String} {k width : Nat} {tag : ConstantTag}

/-! ### Appending -/

/-- A step that answers `i` appends entries, of which the one at position `k` is followed by the rest of its slots
only. -/
structure Appended (b b' : PoolBuilder) (i : UInt16) (k width : Nat) (tag : ConstantTag) : Prop where
  fresh : b.entries.size ≤ k
  last : b'.entries.size = k + width
  index : i = .ofNat k
  entry : ∃ e, b'.entries[k]? = some e ∧ e.tag = tag

/-- The tables of the builder do not matter. -/
theorem Appended.of_entries (h : b.Appended b' i k width tag) (hsame : b''.entries = b'.entries) :
    b.Appended b'' i k width tag :=
  ⟨h.fresh, hsame ▸ h.last, h.index, hsame ▸ h.entry⟩

/-- A step appends an entry with a tag, from whatever state. -/
def Appends (x : StateM PoolBuilder UInt16) (width : Nat) (tag : ConstantTag) : Prop :=
  ∀ b : PoolBuilder, ∃ k, b.Appended (x b).2 (x b).1 k width tag

theorem appends_push (entry : PoolEntry) : Appends (push entry) 1 entry.tag := by
  intro b
  refine ⟨b.entries.size, Nat.le_refl _, size_pushed, rfl, entry, ?_, rfl⟩
  exact Array.getElem?_push_size

theorem appends_pushTwo (entry : PoolEntry) : Appends (pushTwo entry) 2 entry.tag := by
  intro b
  refine ⟨b.entries.size, Nat.le_refl _, ?_, rfl, entry, ?_, rfl⟩
  · change ((b.pushed entry).pushed .invalid).entries.size = _
    rw [size_pushed, size_pushed]
  · exact extends_pushed.entries _ _ Array.getElem?_push_size

/-- What a step enters before its own entry only makes the position later. -/
theorem Appends.bind {α : Type} {x : StateM PoolBuilder α} {f : α → StateM PoolBuilder UInt16}
    (hx : ∀ b : PoolBuilder, b.Extends (x b).2) (hf : ∀ a, Appends (f a) width tag) : Appends (x >>= f) width tag := by
  intro b
  obtain ⟨k, happended⟩ := hf (x b).1 (x b).2
  exact ⟨k, { happended with fresh := Nat.le_trans (hx b).size_le happended.fresh }⟩

theorem extends_text (s : String) (b : PoolBuilder) : b.Extends (text s b).2 := (enters_text s b).1

theorem appends_nameAndType (name descriptor : String) : Appends (nameAndType name descriptor) 1 .nameAndType :=
  .bind (extends_text name) fun _ => .bind (extends_text descriptor) fun _ => appends_push _

theorem appends_member {make : UInt16 → UInt16 → PoolEntry} (hmake : ∀ h nt, (make h nt).tag = tag)
    (holder name descriptor : String) : Appends (member make holder name descriptor) 1 tag := by
  refine .bind (fun b => (enters_classNamed holder b).1) fun h => ?_
  refine .bind (fun b => (enters_nameAndType name descriptor b).1) fun nt => ?_
  exact hmake h nt ▸ appends_push (make h nt)

/-- A call appends the entry of its item, or finds the text or the class entered. -/
theorem same_or_appended (item : PoolItem) (b : PoolBuilder) :
    (item.tag ∈ [ConstantTag.utf8, .classRef] ∧ (add item b).2 = b) ∨
      ∃ k, b.Appended (add item b).2 (add item b).1 k item.width item.tag := by
  cases item with
  | utf8 s =>
      change (_ ∧ (text s b).2 = b) ∨ ∃ k, b.Appended (text s b).2 (text s b).1 k 1 .utf8
      rw [text_eq]
      cases b.texts.lookup s with
      | some i => exact .inl ⟨by simp [PoolItem.tag], rfl⟩
      | none =>
          obtain ⟨k, happended⟩ := appends_push (.utf8 (.ofString s)) b
          exact .inr ⟨k, happended.of_entries rfl⟩
  | classRef name =>
      change (_ ∧ (classNamed name b).2 = b) ∨
        ∃ k, b.Appended (classNamed name b).2 (classNamed name b).1 k 1 .classRef
      rw [classNamed_eq]
      cases b.classes.lookup name with
      | some i => exact .inl ⟨by simp [PoolItem.tag], rfl⟩
      | none =>
          have hentry : Appends (text name >>= fun n => push (.classRef n)) 1 .classRef :=
            .bind (extends_text name) fun n => appends_push _
          obtain ⟨k, happended⟩ := hentry b
          exact .inr ⟨k, happended.of_entries rfl⟩
  | nameAndType name descriptor => exact .inr (appends_nameAndType name descriptor b)
  | fieldRef holder name descriptor => exact .inr (appends_member (fun _ _ => rfl) holder name descriptor b)
  | methodRef holder name descriptor => exact .inr (appends_member (fun _ _ => rfl) holder name descriptor b)
  | interfaceMethodRef holder name descriptor =>
      exact .inr (appends_member (fun _ _ => rfl) holder name descriptor b)
  | invokeDynamic bootstrap name descriptor =>
      refine .inr (Appends.bind (fun b => (enters_nameAndType name descriptor b).1) (fun nt => ?_) b)
      exact appends_push (.invokeDynamic bootstrap nt)
  | integer | float | methodHandle => exact .inr (appends_push _ b)
  | long | double => exact .inr (appends_pushTwo _ b)
  | string s | methodType s => exact .inr (Appends.bind (extends_text s) (fun t => appends_push _) b)

/-! ### Runs -/

theorem addAll_append (items later : List PoolItem) (b : PoolBuilder) :
    addAll (items ++ later) b = ((addAll items b).1 ++ (addAll later (addAll items b).2).1,
      (addAll later (addAll items b).2).2) := by
  induction items generalizing b with
  | nil => rfl
  | cons item items ih =>
      change ((add item b).1 :: (addAll (items ++ later) (add item b).2).1,
        (addAll (items ++ later) (add item b).2).2) = _
      rw [ih]
      rfl

theorem length_addAll (items : List PoolItem) (b : PoolBuilder) : (addAll items b).1.length = items.length := by
  induction items generalizing b with
  | nil => rfl
  | cons item items ih => exact congrArg (· + 1) (ih (add item b).2)

/-- A builder that has been told less comes before one that has been told more. -/
theorem extends_take (items : List PoolItem) (b : PoolBuilder) {m n : Nat} (h : m ≤ n) :
    (addAll (items.take m) b).2.Extends (addAll (items.take n) b).2 := by
  have hsplit : items.take n = items.take m ++ (items.take n).drop m :=
    calc items.take n = (items.take n).take m ++ (items.take n).drop m := (List.take_append_drop m _).symm
      _ = items.take m ++ (items.take n).drop m := by rw [List.take_take, Nat.min_eq_left h]
  rw [hsplit, addAll_append]
  exact extends_addAll _ _

/-- What a run answers to one of its calls, and the state after it. -/
theorem addAll_step {n : Nat} (b : PoolBuilder) (h : items[n]? = some item) :
    (addAll items b).1[n]? = some (add item (addAll (items.take n) b).2).1 ∧
      (addAll (items.take (n + 1)) b).2 = (add item (addAll (items.take n) b).2).2 := by
  have htake : items.take (n + 1) = items.take n ++ [item] := by
    rw [List.take_add_one, h]
    rfl
  have hlength : (addAll (items.take n) b).1.length = n := by
    rw [length_addAll, List.length_take, Nat.min_eq_left]
    exact Nat.le_of_lt (List.getElem?_eq_some_iff.mp h).1
  have hstep : addAll (items.take (n + 1)) b = ((addAll (items.take n) b).1 ++
      [(add item (addAll (items.take n) b).2).1], (add item (addAll (items.take n) b).2).2) := by
    rw [htake, addAll_append]
    rfl
  refine ⟨?_, congrArg Prod.snd hstep⟩
  have hrun := addAll_append (items.take (n + 1)) (items.drop (n + 1)) b
  rw [List.take_append_drop] at hrun
  rw [hrun, hstep, List.append_assoc, List.getElem?_append_right (Nat.le_of_eq hlength), hlength, Nat.sub_self]
  rfl

/-! ### Tables and entries -/

/-- The tables lead to what has been entered, in sixteen bits, and every text and every class is entered once. -/
structure Listed (b : PoolBuilder) : Prop where
  entered : ∀ s i, b.texts.lookup s = some i → ∃ k, b.entries[k]? = some (.utf8 (.ofString s)) ∧ i = .ofNat k
  texts : ∀ (k : Nat) s, b.entries[k]? = some (.utf8 (.ofString s)) → b.texts.lookup s = some (.ofNat k)
  /-- A class stands behind its name. -/
  classes : ∀ (k : Nat) n, b.entries[k]? = some (.classRef n) → ∃ name k', b.classes.lookup name = some (.ofNat k) ∧
    k' < k ∧ b.entries[k']? = some (.utf8 (.ofString name)) ∧ n = .ofNat k'

theorem listed_empty : empty.Listed where
  entered _ _ h := by cases h
  texts k s h := by
    obtain ⟨hk, heq⟩ := Array.getElem?_eq_some_iff.mp h
    obtain rfl : k = 0 := Nat.lt_one_iff.mp hk
    cases heq
  classes k n h := by
    obtain ⟨hk, heq⟩ := Array.getElem?_eq_some_iff.mp h
    obtain rfl : k = 0 := Nat.lt_one_iff.mp hk
    cases heq

/-- What stands in a builder with one more entry. -/
theorem getElem?_pushed_eq_some {e : PoolEntry} (h : (b.pushed entry).entries[k]? = some e) :
    k = b.entries.size ∧ entry = e ∨ b.entries[k]? = some e := by
  rw [pushed, Array.getElem?_push] at h
  split at h
  · rename_i hk
    exact .inl ⟨hk, Option.some.inj h⟩
  · exact .inr h

/-- Entries that no table is for. -/
theorem Listed.pushed (hb : b.Listed) (hother : entry.tag ∉ [ConstantTag.utf8, .classRef]) :
    (b.pushed entry).Listed where
  entered s i h := by
    obtain ⟨k, hk, rfl⟩ := hb.entered s i h
    exact ⟨k, extends_pushed.entries _ _ hk, rfl⟩
  texts k s h := by
    rcases getElem?_pushed_eq_some h with ⟨-, rfl⟩ | hk
    · exact absurd (by simp [PoolEntry.tag]) hother
    · exact hb.texts k s hk
  classes k n h := by
    rcases getElem?_pushed_eq_some h with ⟨-, rfl⟩ | hk
    · exact absurd (by simp [PoolEntry.tag]) hother
    · obtain ⟨name, k', hname, hlt, hk', hn⟩ := hb.classes k n hk
      exact ⟨name, k', hname, hlt, extends_pushed.entries _ _ hk', hn⟩

/-- A text that is new. -/
theorem Listed.withText (hb : b.Listed) (hnew : b.texts.lookup s = none) :
    ((b.pushed (.utf8 (.ofString s))).withText s (.ofNat b.entries.size)).Listed := by
  have hext : b.Extends ((b.pushed (.utf8 (.ofString s))).withText s (.ofNat b.entries.size)) :=
    extends_pushed.trans (extends_withText hnew)
  refine ⟨fun t i h => ?_, fun k t h => ?_, fun k n h => ?_⟩
  · change List.lookup t ((s, _) :: b.texts) = some i at h
    rw [List.lookup_cons] at h
    split at h
    · rename_i heq
      obtain rfl := eq_of_beq heq
      exact ⟨b.entries.size, Array.getElem?_push_size, (Option.some.inj h).symm⟩
    · obtain ⟨k, hk, rfl⟩ := hb.entered t i h
      exact ⟨k, hext.entries _ _ hk, rfl⟩
  · rcases getElem?_pushed_eq_some h with ⟨rfl, heq⟩ | hk
    · obtain rfl := Symbol.ofString_injective (PoolEntry.utf8.inj heq)
      exact List.lookup_cons_self
    · exact hext.texts _ _ (hb.texts k t hk)
  · rcases getElem?_pushed_eq_some h with ⟨-, heq⟩ | hk
    · cases heq
    · obtain ⟨name, k', hname, hlt, hk', hn⟩ := hb.classes k n hk
      exact ⟨name, k', hname, hlt, hext.entries _ _ hk', hn⟩

/-- A class that is new, behind its name. -/
theorem Listed.withClass {n : UInt16} (hb : b.Listed) (hnew : b.classes.lookup name = none)
    (hname : b.texts.lookup name = some n) :
    ((b.pushed (.classRef n)).withClass name (.ofNat b.entries.size)).Listed := by
  have hext : b.Extends ((b.pushed (.classRef n)).withClass name (.ofNat b.entries.size)) :=
    extends_pushed.trans (extends_withClass hnew)
  refine ⟨fun t i h => ?_, fun k t h => ?_, fun k n' h => ?_⟩
  · obtain ⟨k, hk, rfl⟩ := hb.entered t i h
    exact ⟨k, hext.entries _ _ hk, rfl⟩
  · rcases getElem?_pushed_eq_some h with ⟨-, heq⟩ | hk
    · cases heq
    · exact hb.texts k t hk
  · rcases getElem?_pushed_eq_some h with ⟨rfl, heq⟩ | hk
    · obtain rfl := PoolEntry.classRef.inj heq
      obtain ⟨k', hk', hn⟩ := hb.entered name n hname
      obtain ⟨hlt, -⟩ := Array.getElem?_eq_some_iff.mp hk'
      exact ⟨name, k', List.lookup_cons_self, hlt, hext.entries _ _ hk', hn⟩
    · obtain ⟨other, k', hother, hlt, hk', hn⟩ := hb.classes k n' hk
      exact ⟨other, k', hext.classes _ _ hother, hlt, hext.entries _ _ hk', hn⟩

/-- A step keeps the tables in order. -/
def KeepsListed {α : Type} (x : StateM PoolBuilder α) : Prop := ∀ b : PoolBuilder, b.Listed → (x b).2.Listed

theorem KeepsListed.bind {α β : Type} {x : StateM PoolBuilder α} {f : α → StateM PoolBuilder β}
    (hx : KeepsListed x) (hf : ∀ a, KeepsListed (f a)) : KeepsListed (x >>= f) :=
  fun b hb => hf (x b).1 (x b).2 (hx b hb)

theorem keepsListed_push (hother : entry.tag ∉ [ConstantTag.utf8, .classRef]) : KeepsListed (push entry) :=
  fun _ hb => hb.pushed hother

theorem keepsListed_text (s : String) : KeepsListed (text s) := by
  intro b hb
  rw [text_eq]
  cases hnew : b.texts.lookup s with
  | some i => exact hb
  | none => exact hb.withText hnew

theorem lookup_text (s : String) (b : PoolBuilder) : (text s b).2.texts.lookup s = some (text s b).1 := by
  rw [text_eq]
  cases hlookup : b.texts.lookup s with
  | some i => exact hlookup
  | none => exact List.lookup_cons_self

theorem keepsListed_classNamed (name : String) : KeepsListed (classNamed name) := by
  intro b hb
  rw [classNamed_eq]
  cases hnew : b.classes.lookup name with
  | some i => exact hb
  | none => exact (keepsListed_text name b hb).withClass ((classes_text name b) ▸ hnew) (lookup_text name b)

theorem lookup_classNamed (name : String) (b : PoolBuilder) :
    (classNamed name b).2.classes.lookup name = some (classNamed name b).1 := by
  rw [classNamed_eq]
  cases hlookup : b.classes.lookup name with
  | some i => exact hlookup
  | none => exact List.lookup_cons_self

theorem keepsListed_nameAndType (name descriptor : String) : KeepsListed (nameAndType name descriptor) :=
  (keepsListed_text name).bind fun _ => (keepsListed_text descriptor).bind fun _ =>
    keepsListed_push (by simp [PoolEntry.tag])

theorem keepsListed_member {make : UInt16 → UInt16 → PoolEntry}
    (hother : ∀ h nt, (make h nt).tag ∉ [ConstantTag.utf8, .classRef]) (holder name descriptor : String) :
    KeepsListed (member make holder name descriptor) :=
  (keepsListed_classNamed holder).bind fun h => (keepsListed_nameAndType name descriptor).bind fun nt =>
    keepsListed_push (hother h nt)

theorem keepsListed_add (item : PoolItem) : KeepsListed (add item) := by
  cases item with
  | utf8 s => exact keepsListed_text s
  | classRef name => exact keepsListed_classNamed name
  | nameAndType name descriptor => exact keepsListed_nameAndType name descriptor
  | fieldRef holder name descriptor | methodRef holder name descriptor
  | interfaceMethodRef holder name descriptor =>
      exact keepsListed_member (by simp [PoolEntry.tag]) holder name descriptor
  | invokeDynamic bootstrap name descriptor =>
      exact (keepsListed_nameAndType name descriptor).bind fun nt => keepsListed_push (by simp [PoolEntry.tag])
  | integer | float | methodHandle => exact keepsListed_push (by simp [PoolEntry.tag])
  | long | double =>
      exact (keepsListed_push (by simp [PoolEntry.tag])).bind fun _ =>
        (keepsListed_push (by simp [PoolEntry.tag])).bind fun _ => fun _ hb => hb
  | string s | methodType s =>
      exact (keepsListed_text s).bind fun t => keepsListed_push (by simp [PoolEntry.tag])

theorem listed_addAll (items : List PoolItem) (hb : b.Listed) : (addAll items b).2.Listed := by
  induction items generalizing b with
  | nil => exact hb
  | cons item items ih => exact ih (keepsListed_add item b hb)

/-- A text that an index leads to has the index in the table. -/
theorem Listed.lookup_of_text (hb : b.Listed) (h : b.build.Spells (.utf8 s) i) : b.texts.lookup s = some i := by
  cases h with
  | utf8 h =>
      have hlookup := hb.texts i.toNat s h
      rwa [UInt16.ofNat_toNat] at hlookup

/-- A class that an index leads to has the index in the table. Its name is in front of it, so the index of the name
leads there. -/
theorem Listed.lookup_of_class (hb : b.Listed) (h : b.build.Spells (.classRef name) i) :
    b.classes.lookup name = some i := by
  cases h with
  | @classRef i n _ h hname =>
      obtain ⟨other, k', hlookup, hlt, hk', rfl⟩ := hb.classes i.toNat n h
      have hroom : k' < 65536 := Nat.lt_trans hlt (UInt16.toNat_lt i)
      have hother : b.build.Spells (.utf8 other) (.ofNat k') := by
        refine .utf8 ?_
        rw [UInt16.toNat_ofNat', Nat.mod_eq_of_lt hroom]
        exact hk'
      obtain rfl := hname.text_unique hother
      rwa [UInt16.ofNat_toNat] at hlookup

/-! ### Entries that indices reach -/

/-- A wide constant is behind everything that has been entered. -/
theorem Appended.getElem?_wide (h : b.Appended ((b.pushed entry).pushed .invalid) i k 2 tag) :
    ((b.pushed entry).pushed .invalid).entries[k]? = some entry := by
  have hlast := h.last
  rw [size_pushed, size_pushed] at hlast
  obtain rfl : b.entries.size = k := by omega
  exact extends_pushed.entries _ _ Array.getElem?_push_size

/-- As long as sixteen bits reach the position, the entry there spells out the item. -/
theorem Appended.spells (h : b.Appended (add item b).2 (add item b).1 k item.width item.tag) (hb : b.Sound)
    (hk : k < 65536) : (add item b).2.build.Spells item (add item b).1 := by
  have hreach : (add item b).1.toNat = k := by
    rw [h.index, UInt16.toNat_ofNat', Nat.mod_eq_of_lt hk]
  have hnarrow (hwidth : item.width = 1) : (add item b).2.build.Spells item (add item b).1 := by
    have hlast := h.last
    rw [hwidth] at hlast
    exact (((enters_add item b).2 hb fun _ => trivial).2 (by omega)).spells
  cases item with
  | long v =>
      refine .long ?_
      rw [hreach]
      exact h.getElem?_wide
  | double bits =>
      refine .double ?_
      rw [hreach]
      exact h.getElem?_wide
  | _ => exact hnarrow rfl

end PoolBuilder

theorem PoolItem.width_pos (item : PoolItem) : 0 < item.width := by
  cases item <;> simp [width]

theorem PoolItem.tag_ne_invalid (item : PoolItem) : item.tag ≠ .invalid := by
  cases item <;> simp [tag]

namespace Pool

open PoolBuilder (addAll add addAll_step extends_take)

variable {items : List PoolItem} {item item' : PoolItem} {n n' k k' : Nat} {i i' : UInt16}

/-- The call number `n` enters an item, answers `i` and appends the item's entry at position `k`: no more than `k`
slots are taken before the call, and after it this entry is the last one, with the slots that it takes. -/
structure AppendsAt (items : List PoolItem) (n : Nat) (item : PoolItem) (k : Nat) (i : UInt16) : Prop where
  call : items[n]? = some item
  answer : (indicesOf items)[n]? = some i
  fresh : (ofItems (items.take n)).size ≤ k
  last : (ofItems (items.take (n + 1))).size = k + item.width

/-- A call that appends nothing is for a text or a class that is there. -/
theorem exists_appendsAt (h : items[n]? = some item) :
    (∃ k i, AppendsAt items n item k i) ∨
      item.tag ∈ [ConstantTag.utf8, .classRef] ∧ ofItems (items.take (n + 1)) = ofItems (items.take n) := by
  obtain ⟨hindex, hafter⟩ := addAll_step .empty h
  rcases PoolBuilder.same_or_appended item (addAll (items.take n) .empty).2 with ⟨htag, hsame⟩ | ⟨k, happended⟩
  · refine .inr ⟨htag, ?_⟩
    rw [ofItems, hafter, hsame]
    rfl
  · refine .inl ⟨k, _, h, hindex, happended.fresh, ?_⟩
    rw [ofItems, hafter]
    exact happended.last

namespace AppendsAt

theorem appended (h : AppendsAt items n item k i) :
    (addAll (items.take n) .empty).2.Appended (add item (addAll (items.take n) .empty).2).2
        (add item (addAll (items.take n) .empty).2).1 k item.width item.tag ∧
      (add item (addAll (items.take n) .empty).2).1 = i ∧
      (add item (addAll (items.take n) .empty).2).2.Extends (addAll items .empty).2 := by
  obtain ⟨hindex, hafter⟩ := addAll_step .empty h.call
  have hlast := h.last
  have hfresh := h.fresh
  have hpos := item.width_pos
  change (addAll (items.take (n + 1)) .empty).2.entries.size = _ at hlast
  change (addAll (items.take n) .empty).2.entries.size ≤ k at hfresh
  rw [hafter] at hlast
  refine ⟨?_, Option.some.inj (hindex.symm.trans h.answer), ?_⟩
  · rcases PoolBuilder.same_or_appended item (addAll (items.take n) .empty).2 with ⟨-, hsame⟩ | ⟨k', happended⟩
    · rw [hsame] at hlast
      omega
    · have hlast' := happended.last
      obtain rfl : k' = k := by omega
      exact happended
  · have hlt := (List.getElem?_eq_some_iff.mp h.call).1
    have hext := extends_take items .empty (show n + 1 ≤ items.length from hlt)
    rwa [hafter, List.take_length] at hext

theorem toNat_index (h : AppendsAt items n item k i) : i.toNat = k % 65536 := by
  obtain ⟨happended, rfl, -⟩ := h.appended
  rw [happended.index, UInt16.toNat_ofNat']

/-- The positions of two calls are in the order of the calls. -/
theorem lt_of_lt (h : AppendsAt items n item k i) (h' : AppendsAt items n' item' k' i') (hlt : n < n') : k < k' := by
  have hle := (extends_take items .empty (show n + 1 ≤ n' from hlt)).size_le
  have hpos := item.width_pos
  have hlast : (addAll (items.take (n + 1)) .empty).2.entries.size = k + item.width := h.last
  have hfresh : (addAll (items.take n') .empty).2.entries.size ≤ k' := h'.fresh
  omega

theorem index_eq_iff (h : AppendsAt items n item k i) (h' : AppendsAt items n' item' k' i') :
    i = i' ↔ k % 65536 = k' % 65536 := by
  rw [← h.toNat_index, ← h'.toNat_index]
  exact UInt16.toNat_inj.symm

/-- What stands at the position of a call in the pool. -/
theorem exists_entry (h : AppendsAt items n item k i) :
    ∃ e, (ofItems items).entries[k]? = some e ∧ e.tag = item.tag ∧
      (k < 65536 → (ofItems items).entryAt i = .ok e ∧ (ofItems items).Spells item i) := by
  have hindex := h.toNat_index
  obtain ⟨happended, rfl, hext⟩ := h.appended
  obtain ⟨e, he, htag⟩ := happended.entry
  have hfinal : (ofItems items).entries[k]? = some e := hext.entries k e he
  refine ⟨e, hfinal, htag, fun hk => ⟨?_, ?_⟩⟩
  · rw [Nat.mod_eq_of_lt hk] at hindex
    refine entryAt_of_getElem? (hindex ▸ hfinal) ?_
    rintro rfl
    exact item.tag_ne_invalid htag.symm
  · exact hext.spells (happended.spells (PoolBuilder.sound_addAll _ PoolBuilder.sound_empty) hk)

end AppendsAt

/-- No other index than the one that was answered leads to a text or a class. -/
theorem index_of_spells (hitem : items[n]? = some item) (hindex : (indicesOf items)[n]? = some i)
    (htag : item.tag ∈ [ConstantTag.utf8, .classRef]) {j : UInt16} (h : (ofItems items).Spells item j) : i = j := by
  obtain ⟨hanswer, hafter⟩ := addAll_step .empty hitem
  obtain rfl := Option.some.inj (hanswer.symm.trans hindex)
  have hlt := (List.getElem?_eq_some_iff.mp hitem).1
  have hext := extends_take items .empty (show n + 1 ≤ items.length from hlt)
  rw [hafter, List.take_length] at hext
  have hlisted := PoolBuilder.listed_addAll items PoolBuilder.listed_empty
  cases item with
  | utf8 s =>
      have hlookup := hext.texts _ _ (PoolBuilder.lookup_text s _)
      exact Option.some.inj (hlookup.symm.trans (hlisted.lookup_of_text h))
  | classRef name =>
      have hlookup := hext.classes _ _ (PoolBuilder.lookup_classNamed name _)
      exact Option.some.inj (hlookup.symm.trans (hlisted.lookup_of_class h))
  | _ => exact absurd htag (by simp [PoolItem.tag])

/-- The indices that a builder hands out, for every sequence of calls. A call appends an entry of its own, unless it
is for a text or a class that is there. Each has another position, the index is the position in sixteen bits, and it
leads to the entry where the position has no more bits. To a text or a class leads the index that was answered for
it, or none. -/
theorem indices_ofItems (items : List PoolItem) :
    (∀ (n : Nat) item, items[n]? = some item → (∃ k i, AppendsAt items n item k i) ∨
        item.tag ∈ [ConstantTag.utf8, .classRef] ∧ ofItems (items.take (n + 1)) = ofItems (items.take n)) ∧
      (∀ n item k i, AppendsAt items n item k i → i.toNat = k % 65536 ∧
        ∃ e, (ofItems items).entries[k]? = some e ∧ e.tag = item.tag ∧
          (k < 65536 → (ofItems items).entryAt i = .ok e ∧ (ofItems items).Spells item i)) ∧
      (∀ n item k i n' item' k' i', AppendsAt items n item k i → AppendsAt items n' item' k' i' → n ≠ n' →
        k ≠ k' ∧ (i = i' ↔ k % 65536 = k' % 65536)) ∧
      ∀ (n : Nat) item i, items[n]? = some item → (indicesOf items)[n]? = some i →
        item.tag ∈ [ConstantTag.utf8, .classRef] → ∀ j, (ofItems items).Spells item j → i = j := by
  refine ⟨?_, ?_, ?_, ?_⟩
  · intro n item h
    exact exists_appendsAt h
  · intro n item k i h
    exact ⟨h.toNat_index, h.exists_entry⟩
  · intro n item k i n' item' k' i' h h' hne
    refine ⟨?_, h.index_eq_iff h'⟩
    rcases Nat.lt_or_gt_of_ne hne with hlt | hgt
    · exact Nat.ne_of_lt (h.lt_of_lt h' hlt)
    · exact Nat.ne_of_gt (h'.lt_of_lt h hgt)
  · intro n item i hitem hindex htag j h
    exact index_of_spells hitem hindex htag h

/-- The second slot of a long is not handed out. -/
theorem indices_ofItems_sample :
    ∃ e, (ofItems [.long 5, .integer 7]).entryAt 3 = .ok e ∧ e.tag = .integer ∧
      (ofItems [.long 5, .integer 7]).Spells (.integer 7) 3 := by
  have happends : AppendsAt [.long 5, .integer 7] 1 (.integer 7) 3 3 :=
    ⟨by decide, by decide, by decide, by decide⟩
  obtain ⟨-, hentries, -, -⟩ := indices_ofItems [.long 5, .integer 7]
  obtain ⟨-, e, -, htag, hreached⟩ := hentries _ _ _ _ happends
  obtain ⟨hentry, hspells⟩ := hreached (by decide)
  exact ⟨e, hentry, htag, hspells⟩

/-! ### More entries than indices -/

theorem entries_ofItems_integers (values : List Int32) (b : PoolBuilder) :
    (addAll (values.map .integer) b).2.entries.toList = b.entries.toList ++ values.map .integer := by
  induction values generalizing b with
  | nil => exact (List.append_nil _).symm
  | cons v values ih =>
      change (addAll (values.map .integer) (b.pushed (.integer v))).2.entries.toList = _
      rw [ih, PoolBuilder.pushed, Array.toList_push, List.append_assoc]
      rfl

/-- A run of integers fills a position with each. -/
theorem appendsAt_integers {values : List Int32} {v : Int32} (h : values[n]? = some v) :
    AppendsAt (values.map .integer) n (.integer v) (n + 1) (.ofNat (n + 1)) := by
  have hcall : (values.map PoolItem.integer)[n]? = some (.integer v) := by
    rw [List.getElem?_map, h]
    rfl
  have hsize (m : Nat) (hm : m ≤ values.length) : (ofItems ((values.map .integer).take m)).size = m + 1 := by
    rw [← List.map_take]
    change (addAll ((values.take m).map .integer) .empty).2.entries.size = _
    rw [← Array.length_toList, entries_ofItems_integers, List.length_append, List.length_map, List.length_take,
      Nat.min_eq_left hm, Nat.add_comm]
    rfl
  have hlt := (List.getElem?_eq_some_iff.mp h).1
  refine ⟨hcall, ?_, Nat.le_of_eq (hsize n (Nat.le_of_lt hlt)), hsize (n + 1) hlt⟩
  rw [← hsize n (Nat.le_of_lt hlt)]
  exact (addAll_step .empty hcall).1

/-- One integer more than there are indices, and another one. -/
def sampleOverfull : List Int32 := (List.range 65536).map Int32.ofNat ++ [70000]

/-- Indices are handed out again where more entries are appended than there are indices, and then lead to entries
that they were handed out for before. -/
theorem index_handed_out_again :
    (¬∀ (items : List PoolItem) n item k i n' item' k' i', AppendsAt items n item k i →
        AppendsAt items n' item' k' i' → item ≠ item' → i ≠ i') ∧
      ¬∀ (items : List PoolItem) (n : Nat) item i, items[n]? = some item → (indicesOf items)[n]? = some i →
        (ofItems items).Spells item i := by
  have hfirst : sampleOverfull[0]? = some 0 := by
    rw [sampleOverfull, List.getElem?_append_left (by simp)]
    simp
  have hlast : sampleOverfull[65536]? = some 70000 := by
    rw [sampleOverfull, List.getElem?_append_right (by simp)]
    simp
  constructor
  · intro h
    exact h _ _ _ _ _ _ _ _ _ (appendsAt_integers hfirst) (appendsAt_integers hlast) (by decide) (by decide)
  · intro h
    have hspells := h _ _ _ _ (appendsAt_integers hlast).call (appendsAt_integers hlast).answer
    obtain ⟨e, -, -, hreached⟩ := (appendsAt_integers hfirst).exists_entry
    obtain ⟨-, hspells'⟩ := hreached (by decide)
    rw [show UInt16.ofNat (65536 + 1) = UInt16.ofNat (0 + 1) by decide] at hspells
    cases hspells with
    | integer hentry =>
        cases hspells' with
        | integer hentry' =>
            have heq := PoolEntry.integer.inj (Option.some.inj (hentry.symm.trans hentry'))
            exact absurd heq (by decide)

end Pool

end MethodCode
