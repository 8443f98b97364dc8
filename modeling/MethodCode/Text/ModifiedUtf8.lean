/-! Modified UTF-8, the class file's encoding of names. It differs from UTF-8 in two points: NUL takes
two bytes, so that no encoded text holds a zero byte, and a character beyond the basic plane is written
as its two surrogates of three bytes each. Readers also take plain UTF-8, when a whole text is that. What
was written with one of the two differences is no plain UTF-8, and without them the two encodings are the
same. Main statement: `decode` reads back whatever `encode` writes. -/

namespace MethodCode.ModifiedUtf8

/-- A byte that continues a longer form. -/
def isTail (b : UInt8) : Bool :=
  b.toNat / 64 == 2

/-- The character of a code point, unless the point is a surrogate or beyond the last plane. -/
def scalar? (n : Nat) : Option Char :=
  if n.isValidChar then some (Char.ofNat n) else none

/-- The number a two-byte form stands for. -/
def two? (a b : UInt8) : Option Nat :=
  if a.toNat / 32 = 6 && isTail b then some (a.toNat % 32 * 64 + b.toNat % 64) else none

/-- The number a three-byte form stands for; a shorter form must not exist. -/
def three? (a b c : UInt8) : Option Nat :=
  let n := a.toNat % 16 * 4096 + b.toNat % 64 * 64 + c.toNat % 64
  if a.toNat / 16 = 14 && isTail b && isTail c && 0x800 ≤ n then some n else none

/-- The number a four-byte form stands for; a shorter form must not exist. -/
def four? (a b c d : UInt8) : Option Nat :=
  let n := a.toNat % 8 * 262144 + b.toNat % 64 * 4096 + c.toNat % 64 * 64 + d.toNat % 64
  if a.toNat / 8 = 30 && isTail b && isTail c && isTail d && 0x10000 ≤ n then some n else none

/-- The code point of a pair of surrogates. -/
def joinSurrogates (high low : Nat) : Nat :=
  0x10000 + (high - 0xD800) * 1024 + (low - 0xDC00)

/-- The first character of a text in plain UTF-8 that starts with `a`, and what follows it. -/
def takePlain (a : UInt8) (rest : List UInt8) : Option (Char × List UInt8) :=
  if a.toNat < 0x80 then some (Char.ofNat a.toNat, rest)
  else match rest with
    | [] => none
    | b :: rest =>
      match two? a b with
      | some n => if 0x80 ≤ n then some (Char.ofNat n, rest) else none
      | none => match rest with
        | [] => none
        | c :: rest =>
          match three? a b c with
          | some n => (scalar? n).map (·, rest)
          | none => match rest with
            | [] => none
            | d :: rest => do
              let ch ← scalar? (← four? a b c d)
              return (ch, rest)

/-- The supplementary character whose high surrogate has been read, and what follows it. -/
def takeLow (high : Nat) : List UInt8 → Option (Char × List UInt8)
  | d :: e :: f :: rest =>
    match three? d e f with
    | some low =>
      if 0xDC00 ≤ low ∧ low < 0xE000 then some (Char.ofNat (joinSurrogates high low), rest) else none
    | none => none
  | _ => none

/-- The first character of a text in modified UTF-8 that starts with `a`, and what follows it. -/
def takeModified (a : UInt8) (rest : List UInt8) : Option (Char × List UInt8) :=
  if a.toNat = 0 then none
  else if a.toNat < 0x80 then some (Char.ofNat a.toNat, rest)
  else match rest with
    | [] => none
    | b :: rest =>
      match two? a b with
      | some n => if n = 0 ∨ 0x80 ≤ n then some (Char.ofNat n, rest) else none
      | none => match rest with
        | [] => none
        | c :: rest =>
          match three? a b c with
          | some n =>
            if 0xD800 ≤ n ∧ n < 0xDC00 then takeLow n rest else (scalar? n).map (·, rest)
          | none => none

private theorem takePlain_length {a : UInt8} {rest tail : List UInt8} {c : Char}
    (h : takePlain a rest = some (c, tail)) : tail.length ≤ rest.length := by
  unfold takePlain at h
  repeat' split at h
  all_goals simp [Option.bind_eq_some_iff] at *
  all_goals grind

private theorem takeLow_length {high : Nat} {rest tail : List UInt8} {c : Char}
    (h : takeLow high rest = some (c, tail)) : tail.length ≤ rest.length := by
  unfold takeLow at h
  repeat' split at h
  all_goals simp at h
  all_goals simp [← h.2]
  all_goals omega

private theorem takeModified_length {a : UInt8} {rest tail : List UInt8} {c : Char}
    (h : takeModified a rest = some (c, tail)) : tail.length ≤ rest.length := by
  unfold takeModified at h
  repeat' split at h
  all_goals try simp only [Option.map_eq_some_iff, Option.some.injEq, Prod.mk.injEq] at h
  all_goals first
    | exact Nat.le_trans (takeLow_length h) (by simp only [List.length_cons]; omega)
    | grind

/-- The characters of a text in plain UTF-8. -/
def decodePlain : List UInt8 → Option (List Char)
  | [] => some []
  | a :: rest =>
    match h : takePlain a rest with
    | none => none
    | some (c, tail) =>
      have := takePlain_length h
      (decodePlain tail).map (c :: ·)
termination_by bs => bs.length

/-- The characters of a text in modified UTF-8. -/
def decodeModified : List UInt8 → Option (List Char)
  | [] => some []
  | a :: rest =>
    match h : takeModified a rest with
    | none => none
    | some (c, tail) =>
      have := takeModified_length h
      (decodeModified tail).map (c :: ·)
termination_by bs => bs.length

theorem decodePlain_cons_none {a : UInt8} {rest : List UInt8} (h : takePlain a rest = none) :
    decodePlain (a :: rest) = none := by
  rw [decodePlain]
  split
  · rfl
  · next hsome =>
    rw [h] at hsome
    cases hsome

theorem decodePlain_cons_some {a : UInt8} {rest tail : List UInt8} {c : Char}
    (h : takePlain a rest = some (c, tail)) : decodePlain (a :: rest) = (decodePlain tail).map (c :: ·) := by
  rw [decodePlain]
  split
  · next hnone =>
    rw [h] at hnone
    cases hnone
  · next hsome =>
    rw [h] at hsome
    cases hsome
    rfl

theorem decodeModified_cons_none {a : UInt8} {rest : List UInt8} (h : takeModified a rest = none) :
    decodeModified (a :: rest) = none := by
  rw [decodeModified]
  split
  · rfl
  · next hsome =>
    rw [h] at hsome
    cases hsome

theorem decodeModified_cons_some {a : UInt8} {rest tail : List UInt8} {c : Char}
    (h : takeModified a rest = some (c, tail)) :
    decodeModified (a :: rest) = (decodeModified tail).map (c :: ·) := by
  rw [decodeModified]
  split
  · next hnone =>
    rw [h] at hnone
    cases hnone
  · next hsome =>
    rw [h] at hsome
    cases hsome
    rfl

/-- The characters of a name's bytes: plain UTF-8 if the whole text is that, else modified UTF-8. -/
def decode (bs : List UInt8) : Option (List Char) :=
  (decodePlain bs).or (decodeModified bs)

/-- The three-byte form of a number below `0x10000`. -/
def threeBytes (n : Nat) : List UInt8 :=
  [.ofNat (0xE0 + n / 4096), .ofNat (0x80 + n / 64 % 64), .ofNat (0x80 + n % 64)]

/-- The form of one character: NUL takes two bytes, a supplementary character six. -/
def encodeChar (c : Char) : List UInt8 :=
  let n := c.toNat
  if n = 0 then [0xC0, 0x80]
  else if n < 0x80 then [.ofNat n]
  else if n < 0x800 then [.ofNat (0xC0 + n / 64), .ofNat (0x80 + n % 64)]
  else if n < 0x10000 then threeBytes n
  else threeBytes (0xD800 + (n - 0x10000) / 1024) ++ threeBytes (0xDC00 + (n - 0x10000) % 1024)

/-- The modified UTF-8 of a text. -/
def encode (cs : List Char) : List UInt8 :=
  cs.flatMap encodeChar

theorem scalar?_toNat (c : Char) : scalar? c.toNat = some c := by
  have h : c.toNat.isValidChar := c.valid
  simp [scalar?, h]

theorem two?_ofNat {n : Nat} (h : n < 0x800) :
    two? (.ofNat (0xC0 + n / 64)) (.ofNat (0x80 + n % 64)) = some n := by
  have ha : (0xC0 + n / 64) % 256 = 0xC0 + n / 64 := by omega
  have hb : (0x80 + n % 64) % 256 = 0x80 + n % 64 := by omega
  simp only [two?, isTail, UInt8.toNat_ofNat', ha, hb, Nat.reducePow]
  rw [if_pos (by simp; omega)]
  congr 1
  omega

theorem three?_ofNat {n : Nat} (hl : 0x800 ≤ n) (h : n < 0x10000) :
    three? (.ofNat (0xE0 + n / 4096)) (.ofNat (0x80 + n / 64 % 64)) (.ofNat (0x80 + n % 64)) = some n := by
  have ha : (0xE0 + n / 4096) % 256 = 0xE0 + n / 4096 := by omega
  have hb : (0x80 + n / 64 % 64) % 256 = 0x80 + n / 64 % 64 := by omega
  have hc : (0x80 + n % 64) % 256 = 0x80 + n % 64 := by omega
  have hn : (0xE0 + n / 4096) % 16 * 4096 + (0x80 + n / 64 % 64) % 64 * 64 + (0x80 + n % 64) % 64 = n := by
    omega
  simp only [three?, isTail, UInt8.toNat_ofNat', ha, hb, hc, hn, Nat.reducePow]
  rw [if_pos (by simp; omega)]

theorem two?_of_three {n : Nat} (b : UInt8) (h : n < 0x10000) :
    two? (.ofNat (0xE0 + n / 4096)) b = none := by
  have ha : (0xE0 + n / 4096) % 256 = 0xE0 + n / 4096 := by omega
  simp only [two?, UInt8.toNat_ofNat', ha, Nat.reducePow]
  rw [if_neg (by simp; omega)]

private theorem takeModified_threeBytes {n : Nat} (rest : List UInt8) (hl : 0x800 ≤ n) (h : n < 0x10000) :
    ∃ a tail, threeBytes n ++ rest = a :: tail ∧ takeModified a tail =
      if 0xD800 ≤ n ∧ n < 0xDC00 then takeLow n rest else (scalar? n).map (·, rest) := by
  refine ⟨_, _, rfl, ?_⟩
  have ha : (0xE0 + n / 4096) % 256 = 0xE0 + n / 4096 := by omega
  have hs : ¬ 224 + n / 4096 < 128 := by omega
  simp [takeModified, two?_of_three, three?_ofNat hl h, h, ha, hs, -UInt8.ofNat_add]

private theorem takeLow_threeBytes {high m : Nat} (rest : List UInt8) (hl : 0xDC00 ≤ m) (h : m < 0xE000) :
    takeLow high (threeBytes m ++ rest) = some (Char.ofNat (joinSurrogates high m), rest) := by
  simp [takeLow, threeBytes, three?_ofNat (show 0x800 ≤ m by omega) (by omega), hl, h, -UInt8.ofNat_add]

private theorem joinSurrogates_split (k : Nat) :
    joinSurrogates (0xD800 + k / 1024) (0xDC00 + k % 1024) = 0x10000 + k := by
  unfold joinSurrogates
  omega

/-- Reading a written character gives it back, whatever follows. -/
theorem takeModified_encodeChar (c : Char) (rest : List UInt8) :
    ∃ a tail, encodeChar c ++ rest = a :: tail ∧ takeModified a tail = some (c, rest) := by
  have hc : Char.ofNat c.toNat = c := Char.ofNat_toNat c
  have hv : c.toNat < 0xD800 ∨ 0xDFFF < c.toNat ∧ c.toNat < 0x110000 := c.valid
  simp only [encodeChar]
  split
  · next h =>
    refine ⟨_, _, rfl, ?_⟩
    rw [← hc, h]
    rfl
  split
  · next h h' =>
    refine ⟨_, _, rfl, ?_⟩
    have ha : c.toNat % 256 = c.toNat := by omega
    simp [takeModified, ha, h, h', hc]
  split
  · next h h' h'' =>
    refine ⟨_, _, rfl, ?_⟩
    have ha : (192 + c.toNat / 64) % 256 = 192 + c.toNat / 64 := by omega
    have hs : ¬ 192 + c.toNat / 64 < 128 := by omega
    have hk : 128 ≤ c.toNat := by omega
    simp [takeModified, two?_ofNat h'', ha, hs, hk, hc, -UInt8.ofNat_add]
  split
  · next h h' h'' h3 =>
    obtain ⟨a, tail, he, ht⟩ := takeModified_threeBytes rest (by omega : 0x800 ≤ c.toNat) h3
    have hr : ¬ (0xD800 ≤ c.toNat ∧ c.toNat < 0xDC00) := by omega
    refine ⟨a, tail, he, ?_⟩
    rw [ht, if_neg hr, scalar?_toNat]
    rfl
  · next h h' h'' h3 =>
    have hm : c.toNat < 0x110000 := by omega
    obtain ⟨k, hk⟩ : ∃ k, 0x10000 + k = c.toNat := ⟨c.toNat - 0x10000, by omega⟩
    have hd : c.toNat - 0x10000 = k := by omega
    rw [hd]
    obtain ⟨a, tail, he, ht⟩ := takeModified_threeBytes (threeBytes (0xDC00 + k % 1024) ++ rest)
      (by omega : 0x800 ≤ 0xD800 + k / 1024) (by omega)
    refine ⟨a, tail, by rw [← he, List.append_assoc], ?_⟩
    rw [ht, if_pos (by omega), takeLow_threeBytes rest (by omega) (by omega), joinSurrogates_split, hk, hc]

/-- Reading modified UTF-8 gives back the text that was written. -/
theorem decodeModified_encode (cs : List Char) : decodeModified (encode cs) = some cs := by
  induction cs with
  | nil => simp [encode, decodeModified]
  | cons c cs ih =>
    obtain ⟨a, tail, h, ht⟩ := takeModified_encodeChar c (encode cs)
    have he : encode (c :: cs) = a :: tail := by rw [← h]; rfl
    rw [he, decodeModified_cons_some ht, ih]
    rfl

private theorem scalar?_surrogate {n : Nat} (hl : 0xD800 ≤ n) (h : n < 0xE000) : scalar? n = none := by
  have hv : ¬ n.isValidChar := by
    simp only [Nat.isValidChar]
    omega
  rw [scalar?, if_neg hv]

theorem takePlain_threeBytes {n : Nat} (rest : List UInt8) (hl : 0x800 ≤ n) (h : n < 0x10000) :
    ∃ a tail, threeBytes n ++ rest = a :: tail ∧ takePlain a tail = (scalar? n).map (·, rest) := by
  refine ⟨_, _, rfl, ?_⟩
  have ha : (0xE0 + n / 4096) % 256 = 0xE0 + n / 4096 := by omega
  have hs : ¬ 224 + n / 4096 < 128 := by omega
  simp [takePlain, two?_of_three, three?_ofNat hl h, h, ha, hs, -UInt8.ofNat_add]

/-- As plain UTF-8, a written character other than NUL and the supplementary ones is read back. -/
theorem takePlain_encodeChar_of_lt {c : Char} (rest : List UInt8) (hzero : c.toNat ≠ 0) (hlt : c.toNat < 0x10000) :
    ∃ a tail, encodeChar c ++ rest = a :: tail ∧ takePlain a tail = some (c, rest) := by
  have hc : Char.ofNat c.toNat = c := Char.ofNat_toNat c
  simp only [encodeChar]
  rw [if_neg hzero]
  split
  · next h =>
    refine ⟨_, _, rfl, ?_⟩
    have ha : c.toNat % 256 = c.toNat := by omega
    simp [takePlain, ha, h, hc]
  split
  · next h h' =>
    refine ⟨_, _, rfl, ?_⟩
    have ha : (192 + c.toNat / 64) % 256 = 192 + c.toNat / 64 := by omega
    have hs : ¬ 192 + c.toNat / 64 < 128 := by omega
    have hk : 128 ≤ c.toNat := by omega
    simp [takePlain, two?_ofNat h', ha, hs, hk, hc, -UInt8.ofNat_add]
  · next h h' =>
    obtain ⟨a, tail, he, ht⟩ := takePlain_threeBytes rest (by omega : 0x800 ≤ c.toNat) hlt
    refine ⟨a, tail, he, ?_⟩
    rw [ht, scalar?_toNat]
    rfl

/-- As plain UTF-8, a written character is read back or is not there. -/
theorem takePlain_encodeChar (c : Char) (rest : List UInt8) :
    ∃ a tail, encodeChar c ++ rest = a :: tail ∧
      (takePlain a tail = some (c, rest) ∨ takePlain a tail = none) := by
  have hv : c.toNat < 0xD800 ∨ 0xDFFF < c.toNat ∧ c.toNat < 0x110000 := c.valid
  by_cases hzero : c.toNat = 0
  · rw [encodeChar, if_pos hzero]
    exact ⟨_, _, rfl, .inr rfl⟩
  by_cases hlt : c.toNat < 0x10000
  · obtain ⟨a, tail, he, ht⟩ := takePlain_encodeChar_of_lt rest hzero hlt
    exact ⟨a, tail, he, .inl ht⟩
  · -- the first of the two surrogates is no character
    obtain ⟨a, tail, he, ht⟩ := takePlain_threeBytes
      (threeBytes (0xDC00 + (c.toNat - 0x10000) % 1024) ++ rest)
      (by omega : 0x800 ≤ 0xD800 + (c.toNat - 0x10000) / 1024) (by omega)
    rw [encodeChar, if_neg hzero, if_neg (by omega), if_neg (by omega), if_neg hlt]
    refine ⟨a, tail, by rw [← he, List.append_assoc], .inr ?_⟩
    rw [ht, scalar?_surrogate (by omega) (by omega)]
    rfl

/-- As plain UTF-8, a written text is read back or cannot be read. -/
theorem decodePlain_encode (cs : List Char) :
    decodePlain (encode cs) = some cs ∨ decodePlain (encode cs) = none := by
  induction cs with
  | nil => simp [encode, decodePlain]
  | cons c cs ih =>
    obtain ⟨a, tail, h, ht⟩ := takePlain_encodeChar c (encode cs)
    have he : encode (c :: cs) = a :: tail := by rw [← h]; rfl
    rw [he]
    rcases ht with ht | ht
    · rw [decodePlain_cons_some ht]
      rcases ih with ih | ih
      · exact .inl (by rw [ih]; rfl)
      · exact .inr (by rw [ih]; rfl)
    · exact .inr (decodePlain_cons_none ht)

/-- Reading gives back the text that was written. -/
theorem decode_encode (cs : List Char) : decode (encode cs) = some cs := by
  rcases decodePlain_encode cs with h | h
  · rw [decode, h, Option.some_or]
  · rw [decode, h, Option.none_or, decodeModified_encode]

/-- What `encode` writes can be read. -/
theorem isSome_decode_encode (cs : List Char) : (decode (encode cs)).isSome := by
  rw [decode_encode, Option.isSome_some]

end MethodCode.ModifiedUtf8
