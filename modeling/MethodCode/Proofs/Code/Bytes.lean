import MethodCode.Code
import MethodCode.Proofs.Execution
import Mathlib.Data.Set.Function
import Mathlib.Order.Interval.Set.Basic

/-! Reading and writing the bytes of code. A write changes the bytes it is given and no others, and a
number that was split into bytes is read back in the same order, wherever the code carries these bytes.
Whatever reads only the bytes of a range answers alike over two codes that are equal there. -/

namespace MethodCode

namespace ByteOrder

theorem join16_split16 (order : ByteOrder) (n : UInt16) {a b : UInt8} (h : order.split16 n = [a, b]) :
    order.join16 a b = n := by
  have hn := n.toNat_lt
  cases order <;> simp only [split16, List.reverse_cons, List.reverse_nil, List.nil_append,
    List.cons_append, List.cons.injEq, and_true] at h <;> obtain ⟨rfl, rfl⟩ := h
  all_goals
    apply UInt16.toNat_inj.mp
    simp only [join16, UInt16.toNat_ofNat', UInt8.toNat_ofNat']
    omega

theorem join32_split32 (order : ByteOrder) (n : UInt32) {a b c d : UInt8}
    (h : order.split32 n = [a, b, c, d]) : order.join32 a b c d = n := by
  have hn := n.toNat_lt
  cases order <;> simp only [split32, List.reverse_cons, List.reverse_nil, List.nil_append,
    List.cons_append, List.cons.injEq, and_true] at h <;> obtain ⟨rfl, rfl, rfl, rfl⟩ := h
  all_goals
    apply UInt32.toNat_inj.mp
    simp only [join32, UInt32.toNat_ofNat', UInt8.toNat_ofNat']
    omega

@[simp] theorem length_split16 (order : ByteOrder) (n : UInt16) : (order.split16 n).length = 2 := by
  cases order <;> rfl

@[simp] theorem length_split32 (order : ByteOrder) (n : UInt32) : (order.split32 n).length = 4 := by
  cases order <;> rfl

end ByteOrder

namespace Code

variable {c d : Code} {pos : Nat}

theorem byteAt_eq_ok {b : UInt8} : c.byteAt pos = .ok b ↔ c.bytes[pos]? = some b := by
  unfold byteAt
  cases c.bytes[pos]? <;> simp

theorem lt_size_of_byteAt {b : UInt8} (h : c.byteAt pos = .ok b) : pos < c.size := by
  rw [byteAt_eq_ok] at h
  exact (Array.getElem?_eq_some_iff.mp h).1

theorem byteAt_of_size_le (h : c.size ≤ pos) : c.byteAt pos = .error .outOfBounds := by
  rw [byteAt, Array.getElem?_eq_none h]

theorem ext_byteAt (h : ∀ k, d.byteAt k = c.byteAt k) : d = c := by
  have hbytes : d.bytes = c.bytes := by
    refine Array.ext_getElem? fun k => ?_
    have hk := h k
    unfold byteAt at hk
    cases hd : d.bytes[k]? <;> cases hc : c.bytes[k]? <;> simp_all
  cases d
  cases c
  exact congrArg Code.mk hbytes

theorem exists_byteAt (h : pos < c.size) : ∃ b, c.byteAt pos = .ok b :=
  ⟨c.bytes[pos], byteAt_eq_ok.mpr (Array.getElem?_eq_getElem h)⟩

theorem opcodeAt_eq_ok {op : Opcode} : c.opcodeAt pos = .ok op ↔ c.byteAt pos = .ok op.byte := by
  unfold opcodeAt
  rw [bind_eq_ok]
  constructor
  · rintro ⟨b, hb, hop⟩
    rw [hb, ← Except.ok.inj hop]
  · exact fun h => ⟨op.byte, h, rfl⟩

theorem u16At_eq_ok {order : ByteOrder} {n : UInt16} :
    c.u16At order pos = .ok n ↔
      ∃ a b, c.byteAt pos = .ok a ∧ c.byteAt (pos + 1) = .ok b ∧ order.join16 a b = n := by
  simp [u16At, bind_eq_ok, pure, Except.pure]

theorem u16At_of_size_lt {order : ByteOrder} (h : c.size < pos + 2) :
    c.u16At order pos = .error .outOfBounds := by
  rw [u16At, byteAt_of_size_le (show c.size ≤ pos + 1 by omega)]
  by_cases hpos : pos < c.size
  · obtain ⟨b, hb⟩ := exists_byteAt hpos
    rw [hb]
    rfl
  · rw [byteAt_of_size_le (Nat.not_lt.mp hpos)]
    rfl

theorem u32At_eq_ok {order : ByteOrder} {n : UInt32} :
    c.u32At order pos = .ok n ↔
      ∃ a b e f, c.byteAt pos = .ok a ∧ c.byteAt (pos + 1) = .ok b ∧ c.byteAt (pos + 2) = .ok e ∧
        c.byteAt (pos + 3) = .ok f ∧ order.join32 a b e f = n := by
  simp [u32At, bind_eq_ok, pure, Except.pure]

theorem exists_u16At (order : ByteOrder) (h : pos + 2 ≤ c.size) : ∃ n, c.u16At order pos = .ok n := by
  obtain ⟨a, ha⟩ := exists_byteAt (show pos < c.size by omega)
  obtain ⟨b, hb⟩ := exists_byteAt (show pos + 1 < c.size by omega)
  exact ⟨_, u16At_eq_ok.mpr ⟨a, b, ha, hb, rfl⟩⟩

theorem exists_u32At (order : ByteOrder) (h : pos + 4 ≤ c.size) : ∃ n, c.u32At order pos = .ok n := by
  obtain ⟨a, ha⟩ := exists_byteAt (show pos < c.size by omega)
  obtain ⟨b, hb⟩ := exists_byteAt (show pos + 1 < c.size by omega)
  obtain ⟨e, he⟩ := exists_byteAt (show pos + 2 < c.size by omega)
  obtain ⟨f, hf⟩ := exists_byteAt (show pos + 3 < c.size by omega)
  exact ⟨_, u32At_eq_ok.mpr ⟨a, b, e, f, ha, hb, he, hf, rfl⟩⟩

/-! ### Carried bytes -/

/-- The code has these bytes from a position on. -/
def Carries (c : Code) (pos : Nat) : List UInt8 → Prop
  | [] => True
  | b :: bs => c.byteAt pos = .ok b ∧ c.Carries (pos + 1) bs

instance decidableCarries (c : Code) : (pos : Nat) → (bs : List UInt8) → Decidable (c.Carries pos bs)
  | _, [] => inferInstanceAs (Decidable True)
  | pos, b :: bs =>
    have := decidableCarries c (pos + 1) bs
    inferInstanceAs (Decidable (c.byteAt pos = .ok b ∧ c.Carries (pos + 1) bs))

section Carries

variable {as bs : List UInt8}

theorem carries_append : c.Carries pos (as ++ bs) ↔ c.Carries pos as ∧ c.Carries (pos + as.length) bs := by
  induction as generalizing pos with
  | nil => simp [Carries]
  | cons a as ih =>
      have hpos : pos + 1 + as.length = pos + (a :: as).length := by
        rw [List.length_cons]
        omega
      rw [List.cons_append, Carries, Carries, ih, hpos, and_assoc]

/-- The bytes that code carries are inside it. -/
theorem Carries.end_le {b : UInt8} (h : c.Carries pos (b :: bs)) : pos + (b :: bs).length ≤ c.size := by
  induction bs generalizing pos b with
  | nil => exact lt_size_of_byteAt h.1
  | cons b' bs ih =>
      have hend := ih h.2
      simp only [List.length_cons] at hend ⊢
      omega

theorem u16At_of_carries {order : ByteOrder} {n : UInt16} (h : c.Carries pos (order.split16 n)) :
    c.u16At order pos = .ok n := by
  obtain ⟨a, b, hbytes⟩ : ∃ a b, order.split16 n = [a, b] := by
    cases order <;> exact ⟨_, _, rfl⟩
  rw [hbytes] at h
  obtain ⟨ha, hb, -⟩ := h
  exact u16At_eq_ok.mpr ⟨a, b, ha, hb, order.join16_split16 n hbytes⟩

theorem u32At_of_carries {order : ByteOrder} {n : UInt32} (h : c.Carries pos (order.split32 n)) :
    c.u32At order pos = .ok n := by
  obtain ⟨a, b, e, f, hbytes⟩ : ∃ a b e f, order.split32 n = [a, b, e, f] := by
    cases order <;> exact ⟨_, _, _, _, rfl⟩
  rw [hbytes] at h
  obtain ⟨ha, hb, he, hf, -⟩ := h
  exact u32At_eq_ok.mpr ⟨a, b, e, f, ha, hb, he, hf, order.join32_split32 n hbytes⟩

end Carries

/-! ### Equal bytes -/

theorem opcodeAt_congr (h : d.byteAt pos = c.byteAt pos) : d.opcodeAt pos = c.opcodeAt pos := by
  rw [opcodeAt, opcodeAt, h]

theorem u16At_congr {order : ByteOrder} (h : Set.EqOn d.byteAt c.byteAt (Set.Ico pos (pos + 2))) :
    d.u16At order pos = c.u16At order pos := by
  rw [u16At, u16At, h ⟨by omega, by omega⟩, h (x := pos + 1) ⟨by omega, by omega⟩]

theorem u32At_congr {order : ByteOrder} (h : Set.EqOn d.byteAt c.byteAt (Set.Ico pos (pos + 4))) :
    d.u32At order pos = c.u32At order pos := by
  rw [u32At, u32At, h ⟨by omega, by omega⟩, h (x := pos + 1) ⟨by omega, by omega⟩,
    h (x := pos + 2) ⟨by omega, by omega⟩, h (x := pos + 3) ⟨by omega, by omega⟩]

theorem eqOn_before {lo hi a b : Nat} (h : Set.EqOn d.byteAt c.byteAt (Set.Ico lo hi)ᶜ) (hle : b ≤ lo) :
    Set.EqOn d.byteAt c.byteAt (Set.Ico a b) := by
  intro k hk
  exact h fun hmem => Nat.not_lt.mpr hle (Nat.lt_of_le_of_lt hmem.1 hk.2)

theorem eqOn_after {lo hi a : Nat} (h : Set.EqOn d.byteAt c.byteAt (Set.Ico lo hi)ᶜ) (hle : hi ≤ a) :
    Set.EqOn d.byteAt c.byteAt (Set.Ici a) := by
  intro k hk
  exact h fun hmem => Nat.not_lt.mpr hle (Nat.lt_of_le_of_lt hk hmem.2)

/-! ### Writing -/

theorem setByte_eq_ok {b : UInt8} (h : c.setByte pos b = .ok d) :
    pos < c.size ∧ d.bytes = c.bytes.setIfInBounds pos b := by
  unfold setByte at h
  split at h
  · rename_i hpos
    obtain rfl := Except.ok.inj h
    exact ⟨hpos, by simp [Array.setIfInBounds, hpos]⟩
  · cases h

theorem size_setByte {b : UInt8} (h : c.setByte pos b = .ok d) : d.size = c.size := by
  rw [size, (setByte_eq_ok h).2, Array.size_setIfInBounds, size]

theorem byteAt_setByte {b : UInt8} (h : c.setByte pos b = .ok d) (k : Nat) :
    d.byteAt k = if k = pos then .ok b else c.byteAt k := by
  obtain ⟨hpos, hd⟩ := setByte_eq_ok h
  rw [byteAt, hd, Array.getElem?_setIfInBounds]
  by_cases hk : pos = k
  · subst hk
    simp only [size] at hpos
    simp [hpos]
  · rw [if_neg hk, if_neg (Ne.symm hk)]
    rfl

theorem exists_setByte (b : UInt8) (h : pos < c.size) : ∃ d, c.setByte pos b = .ok d :=
  ⟨_, dif_pos h⟩

theorem opcodeAt_setOpcode {op : Opcode} (h : c.setOpcode pos op = .ok d) : d.opcodeAt pos = .ok op :=
  opcodeAt_eq_ok.mpr ((byteAt_setByte h pos).trans (if_pos rfl))

theorem u16At_setOpcode {order : ByteOrder} {op : Opcode} {k : Nat} (h : c.setOpcode pos op = .ok d)
    (hk : pos < k ∨ k + 2 ≤ pos) : d.u16At order k = c.u16At order k := by
  refine u16At_congr fun i hi => ?_
  have hlo := hi.1
  have hhi := hi.2
  rw [byteAt_setByte h, if_neg (by omega)]

theorem size_setBytes {bs : List UInt8} (h : c.setBytes pos bs = .ok d) : d.size = c.size := by
  induction bs generalizing c pos with
  | nil =>
      obtain rfl := Except.ok.inj h
      rfl
  | cons b bs ih =>
      obtain ⟨e, he, hd⟩ := bind_eq_ok.mp h
      rw [ih hd, size_setByte he]

theorem exists_setBytes {bs : List UInt8} (h : pos + bs.length ≤ c.size) :
    ∃ d, c.setBytes pos bs = .ok d := by
  induction bs generalizing c pos with
  | nil => exact ⟨c, rfl⟩
  | cons b bs ih =>
      rw [List.length_cons] at h
      obtain ⟨d, hd⟩ := exists_setByte (c := c) b (show pos < c.size by omega)
      have hrest : pos + 1 + bs.length ≤ d.size := by
        rw [size_setByte hd]
        omega
      obtain ⟨d', hd'⟩ := ih hrest
      exact ⟨d', by rw [setBytes, hd]; exact hd'⟩

theorem byteAt_setBytes {bs : List UInt8} (h : c.setBytes pos bs = .ok d) (k : Nat) :
    d.byteAt k = if hk : pos ≤ k ∧ k - pos < bs.length then .ok bs[k - pos] else c.byteAt k := by
  induction bs generalizing c pos with
  | nil =>
      obtain rfl := Except.ok.inj h
      simp
  | cons b bs ih =>
      obtain ⟨e, he, hd⟩ := bind_eq_ok.mp h
      rw [ih hd, byteAt_setByte he]
      rcases Nat.lt_trichotomy k pos with hlt | rfl | hgt
      · rw [dif_neg (by omega), if_neg (by omega), dif_neg (by omega)]
      · simp
      · have hsucc : k - pos = k - (pos + 1) + 1 := by omega
        simp only [hsucc, List.length_cons, List.getElem_cons_succ, if_neg (show k ≠ pos by omega)]
        by_cases hk : k - (pos + 1) < bs.length
        · rw [dif_pos ⟨by omega, hk⟩, dif_pos ⟨by omega, by omega⟩]
        · rw [dif_neg (by omega), dif_neg (by omega)]

/-- A write touches no byte outside the range it fills. -/
theorem eqOn_setBytes {bs : List UInt8} (h : c.setBytes pos bs = .ok d) :
    Set.EqOn d.byteAt c.byteAt (Set.Ico pos (pos + bs.length))ᶜ := by
  intro k hk
  simp only [Set.mem_compl_iff, Set.mem_Ico, not_and, not_lt] at hk
  rw [byteAt_setBytes h, dif_neg (by omega)]

/-- After a write the code carries what was written. -/
theorem carries_setBytes {bs : List UInt8} (h : c.setBytes pos bs = .ok d) : d.Carries pos bs := by
  induction bs generalizing c pos with
  | nil => trivial
  | cons b bs ih =>
      obtain ⟨e, he, hd⟩ := bind_eq_ok.mp h
      refine ⟨?_, ih hd⟩
      rw [byteAt_setBytes hd, dif_neg (by omega), byteAt_setByte he, if_pos rfl]

theorem u16At_setBytes {order : ByteOrder} {n : UInt16} (h : c.setBytes pos (order.split16 n) = .ok d) :
    d.u16At order pos = .ok n :=
  u16At_of_carries (carries_setBytes h)

theorem u32At_setBytes {order : ByteOrder} {n : UInt32} (h : c.setBytes pos (order.split32 n) = .ok d) :
    d.u32At order pos = .ok n :=
  u32At_of_carries (carries_setBytes h)

end Code

end MethodCode
