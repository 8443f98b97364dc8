import Mathlib.Data.List.Forall2
import MethodCode.Pool.Builder

/-! What a builder knows. An entry spells out an item if it is the item's own entry and those that it refers to
spell out the item's parts. A builder never changes what it has entered, so what an entry spells out it spells
out in every later state. While the pool has room for sixteen-bit indices, the two tables of a builder lead to
the entries that they are for; past that point indices start again, but only entries that no index reaches are
built from them. Main statements: each item is spelled out at the index that it was given
(`PoolBuilder.knows_addAll`), and every entry that an index reaches spells out an item
(`PoolBuilder.sound_addAll`). -/

namespace MethodCode

/-- The tag of the entry that an item asks for. -/
def PoolItem.tag : PoolItem → ConstantTag
  | utf8 _ => .utf8
  | classRef _ => .classRef
  | nameAndType _ _ => .nameAndType
  | fieldRef _ _ _ => .fieldRef
  | methodRef _ _ _ => .methodRef
  | interfaceMethodRef _ _ _ => .interfaceMethodRef
  | invokeDynamic _ _ _ => .invokeDynamic
  | integer _ => .integer
  | float _ => .float
  | long _ => .long
  | double _ => .double
  | string _ => .string
  | methodType _ => .methodType
  | methodHandle _ _ => .methodHandle

/-- The entry at an index spells out an item. -/
inductive Pool.Spells (p : Pool) : PoolItem → UInt16 → Prop where
  | utf8 {i : UInt16} {s : String} (h : p.entries[i.toNat]? = some (.utf8 (.ofString s))) :
      Spells p (.utf8 s) i
  | classRef {i n : UInt16} {name : String} (h : p.entries[i.toNat]? = some (.classRef n))
      (hname : Spells p (.utf8 name) n) : Spells p (.classRef name) i
  | nameAndType {i n d : UInt16} {name descriptor : String} (h : p.entries[i.toNat]? = some (.nameAndType n d))
      (hname : Spells p (.utf8 name) n) (hdescriptor : Spells p (.utf8 descriptor) d) :
      Spells p (.nameAndType name descriptor) i
  | fieldRef {i k nt : UInt16} {holder name descriptor : String}
      (h : p.entries[i.toNat]? = some (.fieldRef k nt)) (hholder : Spells p (.classRef holder) k)
      (hpair : Spells p (.nameAndType name descriptor) nt) : Spells p (.fieldRef holder name descriptor) i
  | methodRef {i k nt : UInt16} {holder name descriptor : String}
      (h : p.entries[i.toNat]? = some (.methodRef k nt)) (hholder : Spells p (.classRef holder) k)
      (hpair : Spells p (.nameAndType name descriptor) nt) : Spells p (.methodRef holder name descriptor) i
  | interfaceMethodRef {i k nt : UInt16} {holder name descriptor : String}
      (h : p.entries[i.toNat]? = some (.interfaceMethodRef k nt)) (hholder : Spells p (.classRef holder) k)
      (hpair : Spells p (.nameAndType name descriptor) nt) :
      Spells p (.interfaceMethodRef holder name descriptor) i
  | invokeDynamic {i bootstrap nt : UInt16} {name descriptor : String}
      (h : p.entries[i.toNat]? = some (.invokeDynamic bootstrap nt))
      (hpair : Spells p (.nameAndType name descriptor) nt) :
      Spells p (.invokeDynamic bootstrap name descriptor) i
  | integer {i : UInt16} {v : Int32} (h : p.entries[i.toNat]? = some (.integer v)) : Spells p (.integer v) i
  | float {i : UInt16} {bits : UInt32} (h : p.entries[i.toNat]? = some (.float bits)) :
      Spells p (.float bits) i
  | long {i : UInt16} {v : Int64} (h : p.entries[i.toNat]? = some (.long v)) : Spells p (.long v) i
  | double {i : UInt16} {bits : UInt64} (h : p.entries[i.toNat]? = some (.double bits)) :
      Spells p (.double bits) i
  | string {i t : UInt16} {s : String} (h : p.entries[i.toNat]? = some (.string t))
      (htext : Spells p (.utf8 s) t) : Spells p (.string s) i
  | methodType {i d : UInt16} {descriptor : String} (h : p.entries[i.toNat]? = some (.methodType d))
      (hdescriptor : Spells p (.utf8 descriptor) d) : Spells p (.methodType descriptor) i
  | methodHandle {i reference : UInt16} {kind : UInt8}
      (h : p.entries[i.toNat]? = some (.methodHandle kind reference)) :
      Spells p (.methodHandle kind reference) i

theorem Pool.Spells.mono {p q : Pool} {item : PoolItem} {i : UInt16} (h : p.Spells item i)
    (hsub : ∀ (k : Nat) e, p.entries[k]? = some e → q.entries[k]? = some e) : q.Spells item i := by
  induction h with
  | utf8 h => exact .utf8 (hsub _ _ h)
  | classRef h _ ih => exact .classRef (hsub _ _ h) ih
  | nameAndType h _ _ ihn ihd => exact .nameAndType (hsub _ _ h) ihn ihd
  | fieldRef h _ _ ihc ihp => exact .fieldRef (hsub _ _ h) ihc ihp
  | methodRef h _ _ ihc ihp => exact .methodRef (hsub _ _ h) ihc ihp
  | interfaceMethodRef h _ _ ihc ihp => exact .interfaceMethodRef (hsub _ _ h) ihc ihp
  | invokeDynamic h _ ih => exact .invokeDynamic (hsub _ _ h) ih
  | integer h => exact .integer (hsub _ _ h)
  | float h => exact .float (hsub _ _ h)
  | long h => exact .long (hsub _ _ h)
  | double h => exact .double (hsub _ _ h)
  | string h _ ih => exact .string (hsub _ _ h) ih
  | methodType h _ ih => exact .methodType (hsub _ _ h) ih
  | methodHandle h => exact .methodHandle (hsub _ _ h)

namespace PoolBuilder

variable {b b' b'' : PoolBuilder} {item : PoolItem} {entry : PoolEntry} {i : UInt16} {s name : String}

/-! ### Growing -/

/-- One state of a builder comes after another one: it still has all entries, and the same numbers for all texts
and classes. -/
structure Extends (b b' : PoolBuilder) : Prop where
  entries : ∀ (k : Nat) e, b.entries[k]? = some e → b'.entries[k]? = some e
  texts : ∀ s i, b.texts.lookup s = some i → b'.texts.lookup s = some i
  classes : ∀ name i, b.classes.lookup name = some i → b'.classes.lookup name = some i

theorem Extends.refl (b : PoolBuilder) : b.Extends b :=
  ⟨fun _ _ h => h, fun _ _ h => h, fun _ _ h => h⟩

theorem Extends.trans (h : b.Extends b') (h' : b'.Extends b'') : b.Extends b'' :=
  ⟨fun k e hk => h'.entries k e (h.entries k e hk), fun s i hs => h'.texts s i (h.texts s i hs),
    fun name i hn => h'.classes name i (h.classes name i hn)⟩

theorem Extends.size_le (h : b.Extends b') : b.entries.size ≤ b'.entries.size := by
  cases hsize : b.entries.size with
  | zero => exact Nat.zero_le _
  | succ n =>
      have hlast : b.entries[n]? = some b.entries[n] := Array.getElem?_eq_getElem (by omega)
      obtain ⟨hn, -⟩ := Array.getElem?_eq_some_iff.mp (h.entries n _ hlast)
      omega

theorem Extends.spells (h : b.Extends b') (hspells : b.build.Spells item i) : b'.build.Spells item i :=
  hspells.mono h.entries

/-- The builder with one more entry. -/
def pushed (b : PoolBuilder) (entry : PoolEntry) : PoolBuilder := { b with entries := b.entries.push entry }

/-- The builder with one more text in its table. -/
def withText (b : PoolBuilder) (s : String) (i : UInt16) : PoolBuilder := { b with texts := (s, i) :: b.texts }

/-- The builder with one more class in its table. -/
def withClass (b : PoolBuilder) (name : String) (i : UInt16) : PoolBuilder :=
  { b with classes := (name, i) :: b.classes }

theorem extends_pushed : b.Extends (b.pushed entry) where
  entries k e h := by
    obtain ⟨hk, -⟩ := Array.getElem?_eq_some_iff.mp h
    rw [pushed, Array.getElem?_push, if_neg (Nat.ne_of_lt hk), h]
  texts _ _ h := h
  classes _ _ h := h

/-- Looking a key up does not meet the pairs of other keys. -/
theorem lookup_cons_of_none {table : List (String × UInt16)} {key : String} {new : UInt16}
    (hnew : table.lookup key = none) (s : String) (i : UInt16) (h : table.lookup s = some i) :
    List.lookup s ((key, new) :: table) = some i := by
  have hne : (s == key) = false := by
    rw [beq_eq_false_iff_ne]
    rintro rfl
    rw [hnew] at h
    cases h
  rw [List.lookup_cons, hne]
  exact h

theorem extends_withText (h : b.texts.lookup s = none) : b.Extends (b.withText s i) :=
  ⟨fun _ _ hk => hk, lookup_cons_of_none h, fun _ _ hn => hn⟩

theorem extends_withClass (h : b.classes.lookup name = none) : b.Extends (b.withClass name i) :=
  ⟨fun _ _ hk => hk, fun _ _ hs => hs, lookup_cons_of_none h⟩

/-! ### Being right -/

/-- As long as there is room, the tables of a builder are right; and every entry that an index reaches spells out
an item, or is unusable. -/
structure Sound (b : PoolBuilder) : Prop where
  texts : b.entries.size ≤ 65536 → ∀ s i, b.texts.lookup s = some i → b.build.Spells (.utf8 s) i
  classes : b.entries.size ≤ 65536 → ∀ name i, b.classes.lookup name = some i →
    b.build.Spells (.classRef name) i
  spelled : ∀ (i : UInt16) e, b.entries[i.toNat]? = some e → e = .invalid ∨ ∃ item, b.build.Spells item i

theorem sound_empty : empty.Sound where
  texts _ _ _ h := by cases h
  classes _ _ _ h := by cases h
  spelled i e h := by
    obtain ⟨hi, rfl⟩ := Array.getElem?_eq_some_iff.mp h
    obtain hzero : i.toNat = 0 := Nat.lt_one_iff.mp hi
    left
    simp only [hzero]
    rfl

theorem Sound.pushed (hb : b.Sound) (h : b.entries.size < 65536 →
    entry = .invalid ∨ ∃ item, (b.pushed entry).build.Spells item (.ofNat b.entries.size)) :
    (b.pushed entry).Sound where
  texts hsize s i hs := by
    have hroom : b.entries.size ≤ 65536 := Nat.le_trans extends_pushed.size_le hsize
    exact extends_pushed.spells (hb.texts hroom s i hs)
  classes hsize name i hn := by
    have hroom : b.entries.size ≤ 65536 := Nat.le_trans extends_pushed.size_le hsize
    exact extends_pushed.spells (hb.classes hroom name i hn)
  spelled i e he := by
    rw [PoolBuilder.pushed, Array.getElem?_push] at he
    split at he
    · rename_i hi
      obtain rfl := Option.some.inj he
      obtain rfl : i = .ofNat b.entries.size := by rw [← hi, UInt16.ofNat_toNat]
      exact h (hi ▸ UInt16.toNat_lt _)
    · rcases hb.spelled i e he with hinvalid | ⟨item, hspells⟩
      · exact .inl hinvalid
      · exact .inr ⟨item, extends_pushed.spells hspells⟩

theorem Sound.withText (hb : b.Sound) (h : b.entries.size ≤ 65536 → b.build.Spells (.utf8 s) i) :
    (b.withText s i).Sound where
  texts hsize t j hj := by
    rw [PoolBuilder.withText, List.lookup_cons] at hj
    split at hj
    · rename_i heq
      obtain rfl := eq_of_beq heq
      obtain rfl := Option.some.inj hj
      exact h hsize
    · exact hb.texts hsize t j hj
  classes := hb.classes
  spelled := hb.spelled

theorem Sound.withClass (hb : b.Sound) (h : b.entries.size ≤ 65536 → b.build.Spells (.classRef name) i) :
    (b.withClass name i).Sound where
  texts := hb.texts
  classes hsize t j hj := by
    rw [PoolBuilder.withClass, List.lookup_cons] at hj
    split at hj
    · rename_i heq
      obtain rfl := eq_of_beq heq
      obtain rfl := Option.some.inj hj
      exact h hsize
    · exact hb.classes hsize t j hj
  spelled := hb.spelled

/-! ### Steps -/

theorem size_pushed : (b.pushed entry).entries.size = b.entries.size + 1 := Array.size_push _

/-- The index of the next entry leads to it, as long as there is room. -/
theorem getElem?_pushed (hsize : b.entries.size < 65536) :
    (b.pushed entry).entries[(UInt16.ofNat b.entries.size).toNat]? = some entry := by
  rw [UInt16.toNat_ofNat', Nat.mod_eq_of_lt hsize, pushed, Array.getElem?_push_size]

/-- What a builder knows of an item that it was given: the entry at its index spells it out, the table that is for
it leads there, and the second slot of a wide constant is unusable. -/
structure Knows (b : PoolBuilder) (item : PoolItem) (i : UInt16) : Prop where
  spells : b.build.Spells item i
  text : ∀ s, item = .utf8 s → b.texts.lookup s = some i
  named : ∀ name, item = .classRef name → b.classes.lookup name = some i
  unusable : item.tag = .long ∨ item.tag = .double → b.entries[i.toNat + 1]? = some .invalid

theorem Knows.later (h : b.Knows item i) (hext : b.Extends b') : b'.Knows item i where
  spells := hext.spells h.spells
  text s hs := hext.texts s i (h.text s hs)
  named name hn := hext.classes name i (h.named name hn)
  unusable hwide := hext.entries _ _ (h.unusable hwide)

/-- Nothing but its entry is there to know of an item that has no table and one slot. -/
theorem Knows.of_spells (h : b.build.Spells item i)
    (hplain : item.tag ∉ [ConstantTag.utf8, .classRef, .long, .double]) : b.Knows item i where
  spells := h
  text s hs := absurd (by rw [hs]; simp [PoolItem.tag]) hplain
  named name hn := absurd (by rw [hn]; simp [PoolItem.tag]) hplain
  unusable hwide := absurd (by rcases hwide with h | h <;> rw [h] <;> decide) hplain

/-- A fact about a builder that later states inherit. -/
def Stable (P : PoolBuilder → Prop) : Prop := ∀ b b', b.Extends b' → P b → P b'

/-- A step extends the builder and keeps it sound; and it leads from `P` to `Q`, as far as there is room. -/
def Enters (P : PoolBuilder → Prop) (x : StateM PoolBuilder UInt16) (Q : UInt16 → PoolBuilder → Prop) : Prop :=
  ∀ b, b.Extends (x b).2 ∧ (b.Sound → (b.entries.size ≤ 65536 → P b) →
    (x b).2.Sound ∧ ((x b).2.entries.size ≤ 65536 → Q (x b).1 (x b).2))

namespace Enters

variable {P F : PoolBuilder → Prop} {x : StateM PoolBuilder UInt16} {f : UInt16 → StateM PoolBuilder UInt16}
  {Q R : UInt16 → PoolBuilder → Prop}

theorem bind (hx : Enters P x Q) (hf : ∀ i, Enters (Q i) (f i) R) : Enters P (x >>= f) R := by
  intro b
  obtain ⟨hext, hstep⟩ := hx b
  obtain ⟨hext', hrest⟩ := hf (x b).1 (x b).2
  refine ⟨hext.trans hext', fun hb hP => ?_⟩
  obtain ⟨hsound, hQ⟩ := hstep hb hP
  exact hrest hsound hQ

/-- What is known before a step is known after it. -/
theorem frame (hF : Stable F) (hx : Enters P x Q) :
    Enters (fun b => P b ∧ F b) x fun i b => Q i b ∧ F b := by
  intro b
  obtain ⟨hext, hstep⟩ := hx b
  refine ⟨hext, fun hb hboth => ?_⟩
  obtain ⟨hsound, hQ⟩ := hstep hb fun hroom => (hboth hroom).1
  exact ⟨hsound, fun hroom => ⟨hQ hroom, hF _ _ hext (hboth (Nat.le_trans hext.size_le hroom)).2⟩⟩

theorem andThen (hF : Stable F) (hx : Enters (fun _ => True) x Q)
    (hf : ∀ i, Enters (fun b => Q i b ∧ F b) (f i) R) : Enters F (x >>= f) R :=
  bind (fun b => ⟨(hx b).1, fun hb hP => (frame hF hx b).2 hb fun hroom => ⟨trivial, hP hroom⟩⟩) hf

/-- An entry spells out the item that it was made for, once it is there. -/
theorem push (hP : Stable P) (hspells : ∀ b i, P b → b.entries[i.toNat]? = some entry → b.build.Spells item i) :
    Enters P (PoolBuilder.push entry) fun i b => b.build.Spells item i := by
  intro b
  have hfound (hroom : b.entries.size < 65536) (h : b.entries.size ≤ 65536 → P b) :
      (b.pushed entry).build.Spells item (.ofNat b.entries.size) :=
    hspells _ _ (hP _ _ extends_pushed (h (Nat.le_of_lt hroom))) (getElem?_pushed hroom)
  refine ⟨extends_pushed, fun hb h => ⟨hb.pushed fun hroom => .inr ⟨item, hfound hroom h⟩, fun hroom => ?_⟩⟩
  change (b.pushed entry).entries.size ≤ 65536 at hroom
  rw [size_pushed] at hroom
  exact hfound (by omega) h

theorem known (hx : Enters P x fun i b => b.build.Spells item i)
    (hplain : item.tag ∉ [ConstantTag.utf8, .classRef, .long, .double]) :
    Enters P x fun i b => b.Knows item i := by
  intro b
  obtain ⟨hext, hstep⟩ := hx b
  refine ⟨hext, fun hb hP => ?_⟩
  obtain ⟨hsound, hspells⟩ := hstep hb hP
  exact ⟨hsound, fun hroom => .of_spells (hspells hroom) hplain⟩

end Enters

theorem stable_true : Stable fun _ => True := fun _ _ _ h => h

theorem stable_knows : Stable fun b => b.Knows item i := fun _ _ hext h => h.later hext

theorem Stable.and {P F : PoolBuilder → Prop} (hP : Stable P) (hF : Stable F) : Stable fun b => P b ∧ F b :=
  fun b b' hext h => ⟨hP b b' hext h.1, hF b b' hext h.2⟩

/-! ### Items -/

theorem text_eq (s : String) (b : PoolBuilder) : text s b =
    match b.texts.lookup s with
    | some i => (i, b)
    | none => (.ofNat b.entries.size, (b.pushed (.utf8 (.ofString s))).withText s (.ofNat b.entries.size)) := by
  change (match b.texts.lookup s with
    | some i => pure i
    | none => _ : StateM PoolBuilder UInt16) b = _
  cases b.texts.lookup s <;> rfl

theorem classNamed_eq (name : String) (b : PoolBuilder) : classNamed name b =
    match b.classes.lookup name with
    | some i => (i, b)
    | none =>
      let (n, b') := text name b
      (.ofNat b'.entries.size, (b'.pushed (.classRef n)).withClass name (.ofNat b'.entries.size)) := by
  change (match b.classes.lookup name with
    | some i => pure i
    | none => _ : StateM PoolBuilder UInt16) b = _
  cases b.classes.lookup name <;> rfl

theorem classes_text (s : String) (b : PoolBuilder) : (text s b).2.classes = b.classes := by
  rw [text_eq]
  cases b.texts.lookup s <;> rfl

/-- A text is known by its number from the first time that it is asked for. -/
theorem enters_text (s : String) : Enters (fun _ => True) (text s) fun i b => b.Knows (.utf8 s) i := by
  have hentry : Enters (fun _ => True) (push (.utf8 (.ofString s))) fun i b => b.build.Spells (.utf8 s) i :=
    .push stable_true fun _ _ _ h => .utf8 h
  have hknown {b : PoolBuilder} {i : UInt16} (hspells : b.build.Spells (.utf8 s) i)
      (hlookup : b.texts.lookup s = some i) : b.Knows (.utf8 s) i := by
    refine ⟨hspells, fun t ht => ?_, by simp, by simp [PoolItem.tag]⟩
    obtain rfl := PoolItem.utf8.inj ht
    exact hlookup
  intro b
  rw [text_eq]
  cases hlookup : b.texts.lookup s with
  | some i => exact ⟨.refl b, fun hb _ => ⟨hb, fun hroom => hknown (hb.texts hroom s i hlookup) hlookup⟩⟩
  | none =>
      obtain ⟨hext, hstep⟩ := hentry b
      refine ⟨hext.trans (extends_withText hlookup), fun hb _ => ?_⟩
      obtain ⟨hsound, hspells⟩ := hstep hb fun _ => trivial
      exact ⟨hsound.withText hspells, fun hroom => hknown (hspells hroom) List.lookup_cons_self⟩

theorem enters_classNamed (name : String) :
    Enters (fun _ => True) (classNamed name) fun i b => b.Knows (.classRef name) i := by
  have hentry : Enters (fun _ => True) (do push (.classRef (← text name))) fun i b =>
      b.build.Spells (.classRef name) i :=
    (enters_text name).bind fun n => .push stable_knows fun _ _ hname h => .classRef h hname.spells
  have hknown {b : PoolBuilder} {i : UInt16} (hspells : b.build.Spells (.classRef name) i)
      (hlookup : b.classes.lookup name = some i) : b.Knows (.classRef name) i := by
    refine ⟨hspells, by simp, fun t ht => ?_, by simp [PoolItem.tag]⟩
    obtain rfl := PoolItem.classRef.inj ht
    exact hlookup
  intro b
  rw [classNamed_eq]
  cases hlookup : b.classes.lookup name with
  | some i => exact ⟨.refl b, fun hb _ => ⟨hb, fun hroom => hknown (hb.classes hroom name i hlookup) hlookup⟩⟩
  | none =>
      obtain ⟨hext, hstep⟩ := hentry b
      have hnew : (text name b).2.classes.lookup name = none := by rw [classes_text, hlookup]
      refine ⟨hext.trans (extends_withClass hnew), fun hb _ => ?_⟩
      obtain ⟨hsound, hspells⟩ := hstep hb fun _ => trivial
      exact ⟨hsound.withClass hspells, fun hroom => hknown (hspells hroom) List.lookup_cons_self⟩

theorem enters_nameAndType (name descriptor : String) :
    Enters (fun _ => True) (nameAndType name descriptor) fun i b => b.Knows (.nameAndType name descriptor) i := by
  refine (enters_text name).bind fun n => (enters_text descriptor).andThen stable_knows fun d => ?_
  refine Enters.known (.push (stable_knows.and stable_knows) fun _ _ hparts h => ?_) (by simp [PoolItem.tag])
  exact .nameAndType h hparts.2.spells hparts.1.spells

theorem enters_member {make : UInt16 → UInt16 → PoolEntry} {holder name descriptor : String}
    (hspells : ∀ (p : Pool) (i k nt : UInt16), p.entries[i.toNat]? = some (make k nt) →
      p.Spells (.classRef holder) k → p.Spells (.nameAndType name descriptor) nt → p.Spells item i)
    (hplain : item.tag ∉ [ConstantTag.utf8, .classRef, .long, .double]) :
    Enters (fun _ => True) (member make holder name descriptor) fun i b => b.Knows item i := by
  refine (enters_classNamed holder).bind fun k =>
    (enters_nameAndType name descriptor).andThen stable_knows fun nt => ?_
  refine Enters.known (.push (stable_knows.and stable_knows) fun b i hparts h => ?_) hplain
  exact hspells b.build i k nt h hparts.2.spells hparts.1.spells

/-- A wide constant takes the slot behind it as well. -/
theorem enters_pushTwo (hspells : ∀ (p : Pool) (i : UInt16), p.entries[i.toNat]? = some entry → p.Spells item i)
    (hwide : item.tag = .long ∨ item.tag = .double) :
    Enters (fun _ => True) (pushTwo entry) fun i b => b.Knows item i := by
  intro b
  have hrun : pushTwo entry b = (.ofNat b.entries.size, (b.pushed entry).pushed .invalid) := rfl
  have hfound (hroom : b.entries.size < 65536) :
      (b.pushed entry).build.Spells item (.ofNat b.entries.size) :=
    hspells _ _ (getElem?_pushed hroom)
  rw [hrun]
  refine ⟨extends_pushed.trans extends_pushed, fun hb _ => ⟨?_, fun hroom => ?_⟩⟩
  · exact (hb.pushed fun hroom => .inr ⟨item, hfound hroom⟩).pushed fun _ => .inl rfl
  · dsimp only at hroom ⊢
    have hsize : (b.pushed entry).entries.size = b.entries.size + 1 := size_pushed
    rw [size_pushed, hsize] at hroom
    refine ⟨extends_pushed.spells (hfound (by omega)), fun s hs => ?_, fun name hn => ?_, fun _ => ?_⟩
    · rw [hs] at hwide
      exact absurd hwide (by simp [PoolItem.tag])
    · rw [hn] at hwide
      exact absurd hwide (by simp [PoolItem.tag])
    · rw [UInt16.toNat_ofNat', Nat.mod_eq_of_lt (show b.entries.size < 2 ^ 16 by omega), ← hsize, pushed,
        Array.getElem?_push_size]

theorem enters_add (item : PoolItem) : Enters (fun _ => True) (add item) fun i b => b.Knows item i := by
  cases item with
  | utf8 s => exact enters_text s
  | classRef name => exact enters_classNamed name
  | nameAndType name descriptor => exact enters_nameAndType name descriptor
  | fieldRef holder name descriptor =>
      exact enters_member (fun _ _ _ _ => .fieldRef) (by simp [PoolItem.tag])
  | methodRef holder name descriptor =>
      exact enters_member (fun _ _ _ _ => .methodRef) (by simp [PoolItem.tag])
  | interfaceMethodRef holder name descriptor =>
      exact enters_member (fun _ _ _ _ => .interfaceMethodRef) (by simp [PoolItem.tag])
  | invokeDynamic bootstrap name descriptor =>
      refine (enters_nameAndType name descriptor).bind fun nt => Enters.known ?_ (by simp [PoolItem.tag])
      exact .push stable_knows fun _ _ hpair h => .invokeDynamic h hpair.spells
  | integer v => exact (Enters.push stable_true fun _ _ _ h => .integer h).known (by simp [PoolItem.tag])
  | float bits => exact (Enters.push stable_true fun _ _ _ h => .float h).known (by simp [PoolItem.tag])
  | long v => exact enters_pushTwo (fun _ _ => .long) (.inl rfl)
  | double bits => exact enters_pushTwo (fun _ _ => .double) (.inr rfl)
  | string s =>
      refine (enters_text s).bind fun t => Enters.known ?_ (by simp [PoolItem.tag])
      exact .push stable_knows fun _ _ htext h => .string h htext.spells
  | methodType descriptor =>
      refine (enters_text descriptor).bind fun d => Enters.known ?_ (by simp [PoolItem.tag])
      exact .push stable_knows fun _ _ hdescriptor h => .methodType h hdescriptor.spells
  | methodHandle kind reference =>
      exact (Enters.push stable_true fun _ _ _ h => .methodHandle h).known (by simp [PoolItem.tag])

/-! ### Runs -/

/-- Enters items one after the other; the answers are their indices. -/
def addAll : List PoolItem → StateM PoolBuilder (List UInt16)
  | [] => pure []
  | item :: items => do
    let index ← add item
    return index :: (← addAll items)

theorem extends_addAll (items : List PoolItem) (b : PoolBuilder) : b.Extends (addAll items b).2 := by
  induction items generalizing b with
  | nil => exact .refl b
  | cons item items ih => exact (enters_add item b).1.trans (ih (add item b).2)

theorem sound_addAll (items : List PoolItem) (hb : b.Sound) : (addAll items b).2.Sound := by
  induction items generalizing b with
  | nil => exact hb
  | cons item items ih => exact ih ((enters_add item b).2 hb fun _ => trivial).1

/-- What was entered stays known, whatever is entered later. -/
theorem knows_addAll (items : List PoolItem) (hb : b.Sound) (hroom : (addAll items b).2.entries.size ≤ 65536) :
    List.Forall₂ (addAll items b).2.Knows items (addAll items b).1 := by
  induction items generalizing b with
  | nil => exact .nil
  | cons item items ih =>
      obtain ⟨hsound, hknows⟩ := (enters_add item b).2 hb fun _ => trivial
      have hext : (add item b).2.Extends (addAll items (add item b).2).2 := extends_addAll items _
      have hfirst : (add item b).2.Knows item (add item b).1 := hknows (Nat.le_trans hext.size_le hroom)
      exact .cons (hfirst.later hext) (ih hsound hroom)

end PoolBuilder

end MethodCode
