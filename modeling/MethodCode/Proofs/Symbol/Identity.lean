import MethodCode.Linking.Registry
import MethodCode.Proofs.Symbol.Encoding
import MethodCode.Symbol.Reading

/-! When two symbols are the same. The symbol of a text keeps it: modified UTF-8 is read back, and it is plain UTF-8
only where the two encodings agree, so that it is never taken for the plain UTF-8 of another text. The bytes of a
class file may be either encoding, and they are kept as they stand. A text in which the encodings differ therefore has
two symbols, and since registries compare symbols by their bytes, what is registered under one is not found under the
other. Main statements: `Symbol.keeps_text` and `Symbol.same_iff_text_and_form`. -/

namespace MethodCode

open ModifiedUtf8

/-- No registry tells two symbols apart: whatever is found under names with the one is found under the same names with
the other. -/
structure Registry.SameKey (s t : Symbol) : Prop where
  interfaces : ∀ r : Registry, s ∈ r.interfaces ↔ t ∈ r.interfaces
  callSites : ∀ r : Registry, r.bootstrap? s = r.bootstrap? t
  fieldHolder : ∀ (r : Registry) (name : Symbol), r.field? s name = r.field? t name
  fieldName : ∀ (r : Registry) (holder : Symbol), r.field? holder s = r.field? holder t
  methodHolder : ∀ (r : Registry) (name signature : Symbol), r.method? s name signature = r.method? t name signature
  methodName : ∀ (r : Registry) (holder signature : Symbol),
    r.method? holder s signature = r.method? holder t signature
  methodSignature : ∀ (r : Registry) (holder name : Symbol), r.method? holder name s = r.method? holder name t

namespace Symbol

variable {s t : Symbol} {bs : List UInt8} {x : String}

theorem eq_of_bytes (h : s.bytes = t.bytes) : s = t := by
  cases s
  cases t
  cases h
  rfl

theorem ofBytes_eq_ok_iff : ofBytes bs = .ok s ↔ s.bytes = bs := by
  unfold ofBytes ofBytes?
  constructor
  · intro h
    split at h
    · next found hfound =>
      obtain ⟨hreadable, hfound⟩ := Option.dite_none_right_eq_some.mp hfound
      obtain rfl := Except.ok.inj h
      rw [← Option.some.inj hfound]
    · cases h
  · rintro rfl
    rw [dif_pos s.readable]

theorem decode_bytes (s : Symbol) : decode s.bytes = some s.text.toList := by
  rw [text, String.toList_ofList, Option.some_get]

/-- The symbols with a text are that of its plain UTF-8 and that of its modified UTF-8. -/
theorem text_eq_iff : s.text = x ↔ s.bytes = x.toUTF8.data.toList ∨ s.bytes = (ofString x).bytes := by
  change _ ↔ _ ∨ s.bytes = encode x.toList
  rw [← plain_toList, ← decode_eq_some_iff, decode_bytes, Option.some.injEq, String.toList_inj]

/-! ### The symbol of a text -/

/-- A text makes a symbol that can be read, as bytes too, and has the text; different texts make different symbols. As
plain UTF-8 the bytes are that of the text itself or of none. -/
theorem keeps_text (x : String) :
    decode (ofString x).bytes = some x.toList ∧ (ofString x).text = x ∧
      ofBytes (ofString x).bytes = .ok (ofString x) ∧ (∀ y : String, ofString x = ofString y ↔ x = y) ∧
      ∀ y : String, (ofString x).bytes = y.toUTF8.data.toList ↔ x = y ∧ ∀ ch ∈ x.toList, WrittenAlike ch := by
  refine ⟨decode_encode x.toList, text_ofString x, ofBytes_eq_ok_iff.mpr rfl, fun y => ?_, fun y => ?_⟩
  · constructor
    · exact ofString_injective
    · rintro rfl
      rfl
  · rw [← plain_toList, ← String.toList_inj]
    exact encode_eq_plain_iff

/-! ### The symbols of a text -/

theorem exists_ofBytes_iff : (∃ s, ofBytes bs = .ok s ∧ s.text = x) ↔
    bs = x.toUTF8.data.toList ∨ bs = (ofString x).bytes := by
  constructor
  · rintro ⟨s, hs, htext⟩
    rw [← ofBytes_eq_ok_iff.mp hs]
    exact text_eq_iff.mp htext
  · intro h
    have hreadable : decode bs = some x.toList := by
      rw [decode_eq_some_iff, plain_toList]
      exact h
    exact ⟨⟨bs, Option.isSome_of_eq_some hreadable⟩, ofBytes_eq_ok_iff.mpr rfl, text_eq_iff.mpr h⟩

/-- A symbol is the one of its text exactly if modified UTF-8 has a use for each of its bytes. -/
theorem ofString_text_iff (s : Symbol) : ofString s.text = s ↔ ∀ b ∈ s.bytes, Usable b := by
  constructor
  · intro h
    rw [← h]
    exact usable_encode s.text.toList
  · intro h
    refine eq_of_bytes ?_
    rcases text_eq_iff.mp (rfl : s.text = s.text) with hplain | hform
    · rw [hplain, ← plain_toList] at h ⊢
      exact encode_of_writtenAlike (usable_plain_iff.mp h)
    · exact hform.symm

/-- Two symbols with one text are the same, unless just one of them is that of the text. -/
theorem eq_of_text (h : s.text = t.text) (hform : ofString s.text = s ↔ ofString t.text = t) : s = t := by
  by_cases hs : ofString s.text = s
  · rw [← hs, h, hform.mp hs]
  · -- neither is modified UTF-8, so both are the plain UTF-8 of the text
    have hbytes (u : Symbol) (hu : ofString u.text ≠ u) : u.bytes = u.text.toUTF8.data.toList :=
      (text_eq_iff.mp rfl).resolve_right fun hmodified => hu (eq_of_bytes hmodified.symm)
    refine eq_of_bytes ?_
    rw [hbytes s hs, hbytes t (mt hform.mpr hs), h]

theorem sameKey_iff : Registry.SameKey s t ↔ s = t := by
  constructor
  · intro h
    have hfound := (h.interfaces (Registry.empty.addInterface s)).mp List.mem_cons_self
    exact (List.mem_singleton.mp hfound).symm
  · rintro rfl
    exact ⟨fun _ => .rfl, fun _ => rfl, fun _ _ => rfl, fun _ _ => rfl, fun _ _ _ => rfl, fun _ _ _ => rfl,
      fun _ _ _ => rfl⟩

/-- Bytes make a symbol with a text if they are one of its two encodings. The symbol is that of the text exactly if
modified UTF-8 has a use for each of its bytes; symbols are the same, and lead to the same registrations, exactly if
they have one text in one encoding. -/
theorem same_iff_text_and_form (bs : List UInt8) (x : String) (s t : Symbol) :
    ((∃ u, ofBytes bs = .ok u ∧ u.text = x) ↔ bs = x.toUTF8.data.toList ∨ bs = (ofString x).bytes) ∧
      (ofString s.text = s ↔ ∀ b ∈ s.bytes, Usable b) ∧
      (s = t ↔ s.text = t.text ∧ (ofString s.text = s ↔ ofString t.text = t)) ∧ (Registry.SameKey s t ↔ s = t) := by
  refine ⟨exists_ofBytes_iff, ofString_text_iff s, ⟨?_, ?_⟩, sameKey_iff⟩
  · rintro rfl
    exact ⟨rfl, .rfl⟩
  · rintro ⟨htext, hform⟩
    exact eq_of_text htext hform

/-- The plain UTF-8 of a letter and a supplementary character makes a symbol with their text, and it is not the symbol
of the text. -/
theorem second_symbol_of_text :
    (¬∀ (bs : List UInt8) s, ofBytes bs = .ok s → ofString s.text = s) ∧
      ¬∀ s t : Symbol, s = t ↔ s.text = t.text := by
  obtain ⟨s, hs, htext⟩ : ∃ s, ofBytes [0x61, 0xF0, 0x90, 0x90, 0x80] = .ok s ∧ s.text = "a𐐀" :=
    exists_ofBytes_iff.mpr (.inl (by decide))
  have hother : ofString s.text ≠ s := by
    rw [ne_eq, ofString_text_iff, ofBytes_eq_ok_iff.mp hs]
    intro husable
    exact absurd (husable 0xF0 (by decide)) (by decide)
  exact ⟨fun h => hother (h _ s hs), fun h => hother ((h _ _).mpr (text_ofString s.text))⟩

end Symbol

end MethodCode
