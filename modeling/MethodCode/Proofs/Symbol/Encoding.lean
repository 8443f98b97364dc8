import Mathlib.Data.List.Basic
import MethodCode.Text.ModifiedUtf8

/-! The bytes that readers of names accept. Each byte form has one number and each number one form of its length,
so reading a character gives back what was read, in plain UTF-8 as in modified UTF-8; a whole text follows by
induction on its characters. The plain UTF-8 of a text is that of the standard library. Main statements: what is
read as plain UTF-8 is the plain UTF-8 of its text (`decodePlain_eq_some_iff`), what is read as modified UTF-8 is its
modified UTF-8 (`decodeModified_eq_some_iff`), and the bytes of a name are one or the other (`decode_eq_some_iff`),
which are the same bytes exactly for texts without NUL and without supplementary characters (`encode_eq_plain_iff`). -/

namespace MethodCode.ModifiedUtf8

variable {a b c d : UInt8} {n : Nat} {ch : Char} {rest tail bs : List UInt8} {cs ds : List Char}

/-! ### Byte forms -/

private theorem eq_ofNat_of_toNat (h : a.toNat = n) : a = .ofNat n := by
  rw [← h, UInt8.ofNat_toNat]

theorem eq_of_two? (h : two? a b = some n) :
    n < 0x800 ∧ [a, b] = [.ofNat (0xC0 + n / 64), .ofNat (0x80 + n % 64)] := by
  simp only [two?, isTail, Option.ite_none_right_eq_some, Option.some.injEq, Bool.and_eq_true,
    decide_eq_true_eq, beq_iff_eq] at h
  obtain ⟨⟨ha, hb⟩, rfl⟩ := h
  have hb' := b.toNat_lt
  refine ⟨by omega, ?_⟩
  rw [← eq_ofNat_of_toNat (a := a) (by omega), ← eq_ofNat_of_toNat (a := b) (by omega)]

theorem eq_of_three? (h : three? a b c = some n) : 0x800 ≤ n ∧ n < 0x10000 ∧ [a, b, c] = threeBytes n := by
  simp only [three?, isTail, Option.ite_none_right_eq_some, Option.some.injEq, Bool.and_eq_true,
    decide_eq_true_eq, beq_iff_eq] at h
  obtain ⟨⟨⟨⟨ha, hb⟩, hc⟩, hn⟩, rfl⟩ := h
  have hb' := b.toNat_lt
  have hc' := c.toNat_lt
  refine ⟨hn, by omega, ?_⟩
  rw [threeBytes, ← eq_ofNat_of_toNat (a := a) (by omega), ← eq_ofNat_of_toNat (a := b) (by omega),
    ← eq_ofNat_of_toNat (a := c) (by omega)]

/-- The four-byte form of a number. -/
def fourBytes (n : Nat) : List UInt8 :=
  [.ofNat (0xF0 + n / 262144), .ofNat (0x80 + n / 4096 % 64), .ofNat (0x80 + n / 64 % 64), .ofNat (0x80 + n % 64)]

theorem eq_of_four? (h : four? a b c d = some n) : 0x10000 ≤ n ∧ [a, b, c, d] = fourBytes n := by
  simp only [four?, isTail, Option.ite_none_right_eq_some, Option.some.injEq, Bool.and_eq_true,
    decide_eq_true_eq, beq_iff_eq] at h
  obtain ⟨⟨⟨⟨⟨ha, hb⟩, hc⟩, hd⟩, hn⟩, rfl⟩ := h
  have hb' := b.toNat_lt
  have hc' := c.toNat_lt
  have hd' := d.toNat_lt
  refine ⟨hn, ?_⟩
  rw [fourBytes, ← eq_ofNat_of_toNat (a := a) (by omega), ← eq_ofNat_of_toNat (a := b) (by omega),
    ← eq_ofNat_of_toNat (a := c) (by omega), ← eq_ofNat_of_toNat (a := d) (by omega)]

theorem four?_ofNat (hl : 0x10000 ≤ n) (h : n < 0x110000) :
    four? (.ofNat (0xF0 + n / 262144)) (.ofNat (0x80 + n / 4096 % 64)) (.ofNat (0x80 + n / 64 % 64))
      (.ofNat (0x80 + n % 64)) = some n := by
  have ha : (0xF0 + n / 262144) % 256 = 0xF0 + n / 262144 := by omega
  have hb : (0x80 + n / 4096 % 64) % 256 = 0x80 + n / 4096 % 64 := by omega
  have hc : (0x80 + n / 64 % 64) % 256 = 0x80 + n / 64 % 64 := by omega
  have hd : (0x80 + n % 64) % 256 = 0x80 + n % 64 := by omega
  have hn : (0xF0 + n / 262144) % 8 * 262144 + (0x80 + n / 4096 % 64) % 64 * 4096 +
      (0x80 + n / 64 % 64) % 64 * 64 + (0x80 + n % 64) % 64 = n := by
    omega
  simp only [four?, isTail, UInt8.toNat_ofNat', ha, hb, hc, hd, hn, Nat.reducePow]
  rw [if_pos (by simp; omega)]

theorem two?_eq_none (h : a.toNat / 32 ≠ 6) : two? a b = none := by
  simp [two?, h]

theorem three?_eq_none (h : a.toNat / 16 ≠ 14) : three? a b c = none := by
  simp [three?, h]

theorem scalar?_eq_some_iff : scalar? n = some ch ↔ ch.toNat = n := by
  constructor
  · intro h
    rw [scalar?, Option.ite_none_right_eq_some] at h
    obtain ⟨hvalid, h⟩ := h
    rw [← Option.some.inj h, Char.ofNat, dif_pos hvalid]
    rfl
  · rintro rfl
    exact scalar?_toNat ch

theorem toNat_ofNat (h : n < 0xD800) : (Char.ofNat n).toNat = n := by
  rw [Char.ofNat, dif_pos (Or.inl h)]
  rfl

/-! ### Characters in plain UTF-8 -/

/-- The plain UTF-8 of a character, by its length. -/
theorem utf8EncodeChar_eq (ch : Char) : String.utf8EncodeChar ch =
    if ch.toNat < 0x80 then [.ofNat ch.toNat]
    else if ch.toNat < 0x800 then [.ofNat (0xC0 + ch.toNat / 64), .ofNat (0x80 + ch.toNat % 64)]
    else if ch.toNat < 0x10000 then threeBytes ch.toNat
    else fourBytes ch.toNat := by
  have hvalid : ch.toNat < 0xD800 ∨ 0xDFFF < ch.toNat ∧ ch.toNat < 0x110000 := ch.valid
  have hval : ch.val.toNat = ch.toNat := rfl
  unfold String.utf8EncodeChar
  rw [hval]
  dsimp only
  split
  · rw [if_pos (by omega)]
  split
  · rw [if_neg (by omega), if_pos (by omega), Nat.mod_eq_of_lt (by omega : ch.toNat / 64 < 32), Nat.add_comm _ 192,
      Nat.add_comm _ 128]
  split
  · rw [if_neg (by omega), if_neg (by omega), if_pos (by omega), threeBytes,
      Nat.mod_eq_of_lt (by omega : ch.toNat / 4096 < 16), Nat.add_comm _ 224, Nat.add_comm _ 128, Nat.add_comm _ 128]
  · rw [if_neg (by omega), if_neg (by omega), if_neg (by omega), fourBytes,
      Nat.mod_eq_of_lt (by omega : ch.toNat / 262144 < 8), Nat.add_comm _ 240, Nat.add_comm _ 128,
      Nat.add_comm _ 128, Nat.add_comm _ 128]

theorem takePlain_fourBytes (rest : List UInt8) (hl : 0x10000 ≤ n) (h : n < 0x110000) :
    ∃ a tail, fourBytes n ++ rest = a :: tail ∧ takePlain a tail = (scalar? n).map (·, rest) := by
  have ha : (UInt8.ofNat (0xF0 + n / 262144)).toNat = 0xF0 + n / 262144 := by
    rw [UInt8.toNat_ofNat']
    omega
  have htwo (b : UInt8) : two? (.ofNat (0xF0 + n / 262144)) b = none := two?_eq_none (by omega)
  have hthree (b c : UInt8) : three? (.ofNat (0xF0 + n / 262144)) b c = none := three?_eq_none (by omega)
  refine ⟨.ofNat (0xF0 + n / 262144), .ofNat (0x80 + n / 4096 % 64) :: .ofNat (0x80 + n / 64 % 64) ::
    .ofNat (0x80 + n % 64) :: rest, rfl, ?_⟩
  rw [takePlain, ha, if_neg (by omega)]
  simp only [htwo, hthree, four?_ofNat hl h, Option.bind_eq_bind, Option.bind_some]
  cases scalar? n <;> rfl

/-- A character that both encodings write alike: it is not NUL and lies in the basic plane. -/
def WrittenAlike (ch : Char) : Prop :=
  ch.toNat ≠ 0 ∧ ch.toNat < 0x10000

instance : DecidablePred WrittenAlike :=
  fun _ => inferInstanceAs (Decidable (_ ∧ _))

theorem encodeChar_of_writtenAlike (h : WrittenAlike ch) : encodeChar ch = String.utf8EncodeChar ch := by
  obtain ⟨hzero, hlt⟩ := h
  rw [utf8EncodeChar_eq, encodeChar, if_neg hzero, if_pos hlt, if_pos hlt]

/-- Reading a character in plain UTF-8 gives it back, whatever follows. -/
theorem takePlain_utf8EncodeChar (ch : Char) (rest : List UInt8) :
    ∃ a tail, String.utf8EncodeChar ch ++ rest = a :: tail ∧ takePlain a tail = some (ch, rest) := by
  have hvalid : ch.toNat < 0xD800 ∨ 0xDFFF < ch.toNat ∧ ch.toNat < 0x110000 := ch.valid
  by_cases hzero : ch.toNat = 0
  · obtain rfl : ch = Char.ofNat 0 := by rw [← hzero, Char.ofNat_toNat]
    exact ⟨_, _, rfl, rfl⟩
  by_cases hlt : ch.toNat < 0x10000
  · rw [← encodeChar_of_writtenAlike ⟨hzero, hlt⟩]
    exact takePlain_encodeChar_of_lt rest hzero hlt
  · obtain ⟨a, tail, hbytes, htake⟩ := takePlain_fourBytes rest (by omega : 0x10000 ≤ ch.toNat) (by omega)
    rw [utf8EncodeChar_eq, if_neg (by omega), if_neg (by omega), if_neg hlt]
    refine ⟨a, tail, hbytes, ?_⟩
    rw [htake, scalar?_toNat]
    rfl

/-- What is read as a character in plain UTF-8 is the plain UTF-8 of the character. -/
theorem eq_of_takePlain (h : takePlain a rest = some (ch, tail)) :
    a :: rest = String.utf8EncodeChar ch ++ tail := by
  rw [utf8EncodeChar_eq]
  unfold takePlain at h
  split at h
  · next ha =>
    obtain ⟨rfl, rfl⟩ := by simpa using h
    rw [toNat_ofNat (by omega), if_pos ha, UInt8.ofNat_toNat, List.cons_append, List.nil_append]
  cases rest with
  | nil => cases h
  | cons b rest =>
    dsimp only at h
    split at h
    · next n htwo =>
      obtain ⟨hlt, hbytes⟩ := eq_of_two? htwo
      split at h
      · next hn =>
        obtain ⟨rfl, rfl⟩ := by simpa using h
        rw [toNat_ofNat (by omega), if_neg (by omega), if_pos hlt, ← hbytes, List.cons_append, List.cons_append,
          List.nil_append]
      · cases h
    cases rest with
    | nil => cases h
    | cons c rest =>
      dsimp only at h
      split at h
      · next n hthree =>
        obtain ⟨hle, hlt, hbytes⟩ := eq_of_three? hthree
        obtain ⟨ch, hch, heq⟩ := Option.map_eq_some_iff.mp h
        obtain ⟨rfl, rfl⟩ := heq
        obtain rfl := scalar?_eq_some_iff.mp hch
        rw [if_neg (by omega), if_neg (by omega), if_pos hlt, ← hbytes]
        rfl
      cases rest with
      | nil => cases h
      | cons d rest =>
        obtain ⟨n, hfour, h⟩ := Option.bind_eq_some_iff.mp h
        obtain ⟨ch, hch, heq⟩ := Option.bind_eq_some_iff.mp h
        cases heq
        obtain ⟨hle, hbytes⟩ := eq_of_four? hfour
        obtain rfl := scalar?_eq_some_iff.mp hch
        rw [if_neg (by omega), if_neg (by omega), if_neg (by omega), ← hbytes]
        rfl

/-! ### Characters in modified UTF-8 -/

/-- Two surrogates are those of the code point that they make up. -/
theorem split_joinSurrogates {high low : Nat} (hl : 0xD800 ≤ high) (hh : high < 0xDC00) (hl' : 0xDC00 ≤ low)
    (hh' : low < 0xE000) : ∃ k, k < 0x100000 ∧ joinSurrogates high low = 0x10000 + k ∧
      high = 0xD800 + k / 1024 ∧ low = 0xDC00 + k % 1024 := by
  obtain ⟨k, hk⟩ : ∃ k, k = (high - 0xD800) * 1024 + (low - 0xDC00) := ⟨_, rfl⟩
  have hjoin : joinSurrogates high low = 0x10000 + k := by
    unfold joinSurrogates
    omega
  exact ⟨k, by omega, hjoin, by omega, by omega⟩

theorem eq_of_takeLow {high : Nat} (hl : 0xD800 ≤ high) (hh : high < 0xDC00)
    (h : takeLow high rest = some (ch, tail)) : threeBytes high ++ rest = encodeChar ch ++ tail := by
  unfold takeLow at h
  split at h
  · next d e f after =>
    split at h
    · next low hthree =>
      obtain ⟨-, -, hbytes⟩ := eq_of_three? hthree
      split at h
      · next hrange =>
        obtain ⟨k, hk, hjoin, rfl, rfl⟩ := split_joinSurrogates hl hh hrange.1 hrange.2
        rw [hjoin] at h
        obtain ⟨rfl, rfl⟩ := by simpa using h
        have hchar : (Char.ofNat (0x10000 + k)).toNat = 0x10000 + k := by
          rw [Char.ofNat, dif_pos (.inr ⟨by omega, by omega⟩)]
          rfl
        rw [encodeChar, hchar, if_neg (by omega), if_neg (by omega), if_neg (by omega), if_neg (by omega),
          Nat.add_sub_cancel_left, ← hbytes, List.append_assoc]
        rfl
      · cases h
    · cases h
  · cases h

/-- What is read as a character in modified UTF-8 is the modified UTF-8 of the character. -/
theorem eq_of_takeModified (h : takeModified a rest = some (ch, tail)) : a :: rest = encodeChar ch ++ tail := by
  unfold takeModified at h
  split at h
  · cases h
  next ha0 =>
  split at h
  · next ha =>
    obtain ⟨rfl, rfl⟩ := by simpa using h
    rw [encodeChar, toNat_ofNat (by omega), if_neg ha0, if_pos ha, UInt8.ofNat_toNat]
    rfl
  cases rest with
  | nil => cases h
  | cons b rest =>
    dsimp only at h
    split at h
    · next n htwo =>
      obtain ⟨hlt, hbytes⟩ := eq_of_two? htwo
      split at h
      · next hn =>
        obtain ⟨rfl, rfl⟩ := by simpa using h
        change [a, b] ++ rest = _
        rw [encodeChar, toNat_ofNat (by omega), hbytes]
        rcases hn with rfl | hn
        · rfl
        · rw [if_neg (by omega), if_neg (by omega), if_pos hlt]
      · cases h
    cases rest with
    | nil => cases h
    | cons c rest =>
      dsimp only at h
      split at h
      · next n hthree =>
        obtain ⟨hle, hlt, hbytes⟩ := eq_of_three? hthree
        change [a, b, c] ++ rest = _
        rw [hbytes]
        split at h
        · next hhigh => exact eq_of_takeLow hhigh.1 hhigh.2 h
        · next hhigh =>
          obtain ⟨ch, hch, heq⟩ := Option.map_eq_some_iff.mp h
          obtain ⟨rfl, rfl⟩ := heq
          obtain rfl := scalar?_eq_some_iff.mp hch
          rw [encodeChar, if_neg (by omega), if_neg (by omega), if_neg (by omega), if_pos hlt]
      · cases h

/-! ### Texts -/

/-- The plain UTF-8 of a text. -/
def plain (cs : List Char) : List UInt8 :=
  cs.flatMap String.utf8EncodeChar

/-- It is what the standard library holds a string in. -/
theorem plain_toList (s : String) : plain s.toList = s.toUTF8.data.toList := by
  rw [String.toUTF8_eq_toByteArray, ← String.utf8Encode_toList, List.utf8Encode, List.toList_data_toByteArray]
  rfl

theorem decodePlain_eq_some_iff : decodePlain bs = some cs ↔ bs = plain cs := by
  constructor
  · intro h
    induction bs using decodePlain.induct generalizing cs with
    | case1 =>
      rw [decodePlain] at h
      obtain rfl := Option.some.inj h
      rfl
    | case2 a rest hnone =>
      rw [decodePlain_cons_none hnone] at h
      cases h
    | case3 a rest ch tail hsome _ ih =>
      rw [decodePlain_cons_some hsome] at h
      obtain ⟨ds, hds, rfl⟩ := Option.map_eq_some_iff.mp h
      rw [eq_of_takePlain hsome, ih hds]
      rfl
  · rintro rfl
    induction cs with
    | nil => rw [plain, List.flatMap_nil, decodePlain]
    | cons ch cs ih =>
      obtain ⟨a, tail, hbytes, htake⟩ := takePlain_utf8EncodeChar ch (plain cs)
      change decodePlain (String.utf8EncodeChar ch ++ plain cs) = _
      rw [hbytes, decodePlain_cons_some htake, ih]
      rfl

theorem decodeModified_eq_some_iff : decodeModified bs = some cs ↔ bs = encode cs := by
  constructor
  · intro h
    induction bs using decodeModified.induct generalizing cs with
    | case1 =>
      rw [decodeModified] at h
      obtain rfl := Option.some.inj h
      rfl
    | case2 a rest hnone =>
      rw [decodeModified_cons_none hnone] at h
      cases h
    | case3 a rest ch tail hsome _ ih =>
      rw [decodeModified_cons_some hsome] at h
      obtain ⟨ds, hds, rfl⟩ := Option.map_eq_some_iff.mp h
      rw [eq_of_takeModified hsome, ih hds]
      rfl
  · rintro rfl
    exact decodeModified_encode cs

/-- The bytes of a name are the plain UTF-8 of its text, or the modified UTF-8. -/
theorem decode_eq_some_iff : decode bs = some cs ↔ bs = plain cs ∨ bs = encode cs := by
  constructor
  · intro h
    rw [decode, Option.or_eq_some_iff] at h
    rcases h with h | ⟨-, h⟩
    · exact .inl (decodePlain_eq_some_iff.mp h)
    · exact .inr (decodeModified_eq_some_iff.mp h)
  · rintro (rfl | rfl)
    · rw [decode, decodePlain_eq_some_iff.mpr rfl, Option.some_or]
    · exact decode_encode cs

/-! ### Where the encodings differ -/

/-- A byte that modified UTF-8 has a use for: it is not zero and starts no four-byte form. -/
def Usable (b : UInt8) : Prop :=
  b ≠ 0 ∧ b < 0xF0

instance : DecidablePred Usable :=
  fun _ => inferInstanceAs (Decidable (_ ∧ _))

theorem encode_of_writtenAlike (h : ∀ ch ∈ cs, WrittenAlike ch) : encode cs = plain cs :=
  List.flatMap_congr fun ch hmem => encodeChar_of_writtenAlike (h ch hmem)

theorem usable_ofNat (hpos : 0 < n) (h : n < 0xF0) : Usable (.ofNat n) := by
  have hn : (UInt8.ofNat n).toNat = n := by
    rw [UInt8.toNat_ofNat']
    omega
  refine ⟨fun hzero => ?_, ?_⟩
  · rw [hzero] at hn
    exact absurd hn (Nat.ne_of_lt hpos)
  · rw [UInt8.lt_iff_toNat_lt, hn]
    exact h

theorem usable_threeBytes (h : n < 0x10000) : ∀ b ∈ threeBytes n, Usable b := by
  simp only [threeBytes, List.forall_mem_cons]
  exact ⟨usable_ofNat (by omega) (by omega), usable_ofNat (by omega) (by omega),
    usable_ofNat (by omega) (by omega), List.forall_mem_nil _⟩

theorem usable_encodeChar (ch : Char) : ∀ b ∈ encodeChar ch, Usable b := by
  have hvalid : ch.toNat < 0xD800 ∨ 0xDFFF < ch.toNat ∧ ch.toNat < 0x110000 := ch.valid
  unfold encodeChar
  dsimp only
  split
  · simp only [List.forall_mem_cons]
    exact ⟨by decide, by decide, List.forall_mem_nil _⟩
  split
  · simp only [List.forall_mem_cons]
    exact ⟨usable_ofNat (by omega) (by omega), List.forall_mem_nil _⟩
  split
  · simp only [List.forall_mem_cons]
    exact ⟨usable_ofNat (by omega) (by omega), usable_ofNat (by omega) (by omega), List.forall_mem_nil _⟩
  split
  · next h => exact usable_threeBytes h
  · rw [List.forall_mem_append]
    exact ⟨usable_threeBytes (by omega), usable_threeBytes (by omega)⟩

theorem usable_encode (cs : List Char) : ∀ b ∈ encode cs, Usable b := by
  intro b hb
  obtain ⟨ch, -, hmem⟩ := List.mem_flatMap.mp hb
  exact usable_encodeChar ch b hmem

/-- Plain UTF-8 has a zero byte for NUL and a four-byte form for each supplementary character. -/
theorem writtenAlike_of_usable (h : ∀ b ∈ String.utf8EncodeChar ch, Usable b) : WrittenAlike ch := by
  have hvalid : ch.toNat < 0xD800 ∨ 0xDFFF < ch.toNat ∧ ch.toNat < 0x110000 := ch.valid
  rw [utf8EncodeChar_eq] at h
  constructor
  · intro hzero
    rw [hzero, if_pos (by decide)] at h
    exact (h 0 List.mem_cons_self).1 rfl
  · by_contra hlarge
    rw [if_neg (by omega), if_neg (by omega), if_neg hlarge] at h
    obtain ⟨-, hlead⟩ := h _ List.mem_cons_self
    rw [UInt8.lt_iff_toNat_lt, UInt8.toNat_ofNat'] at hlead
    change _ < 0xF0 at hlead
    omega

theorem usable_plain_iff : (∀ b ∈ plain cs, Usable b) ↔ ∀ ch ∈ cs, WrittenAlike ch := by
  constructor
  · intro h ch hmem
    exact writtenAlike_of_usable fun b hb => h b (List.mem_flatMap.mpr ⟨ch, hmem, hb⟩)
  · intro h
    rw [← encode_of_writtenAlike h]
    exact usable_encode cs

/-- The encodings write a text alike exactly if they write its characters alike, and different texts never. -/
theorem encode_eq_plain_iff : encode cs = plain ds ↔ cs = ds ∧ ∀ ch ∈ cs, WrittenAlike ch := by
  constructor
  · intro h
    have hdecode := decode_encode cs
    rw [h, decode_eq_some_iff.mpr (.inl rfl)] at hdecode
    obtain rfl := Option.some.inj hdecode
    refine ⟨rfl, usable_plain_iff.mp ?_⟩
    rw [← h]
    exact usable_encode ds
  · rintro ⟨rfl, halike⟩
    exact encode_of_writtenAlike halike

end MethodCode.ModifiedUtf8
