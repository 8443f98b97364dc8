import MethodCode.Proofs.Code.Instruction

/-! Instruction starts: the positions that a walk from the beginning of the code visits, one complete
instruction after another. Main statements: the instructions of a walk do not overlap, and two codes in
which the walk finds the same lengths have the same starts. -/

namespace MethodCode.Code

open FormatTable (standard)

variable {c d : Code} {a b n : Nat}

/-- A walk that is at `a` comes to `b`. -/
inductive Reaches (c : Code) : Nat → Nat → Prop where
  | refl (a : Nat) : Reaches c a a
  | step {a b n : Nat} (hlength : c.lengthAt a = .ok (some n)) (hrest : Reaches c (a + n) b) : Reaches c a b

/-- A position that a walk over the whole code visits. -/
def IsStart (c : Code) (bci : Nat) : Prop := c.Reaches 0 bci

namespace Reaches

theorem le (h : c.Reaches a b) : a ≤ b := by
  induction h with
  | refl => exact Nat.le_refl _
  | step _ _ ih => omega

theorem next (h : c.Reaches a b) (hlength : c.lengthAt b = .ok (some n)) : c.Reaches a (b + n) := by
  induction h with
  | refl => exact .step hlength (.refl _)
  | step hl _ ih => exact .step hl (ih hlength)

theorem trans {x : Nat} (h : c.Reaches x a) (h' : c.Reaches a b) : c.Reaches x b := by
  induction h with
  | refl => exact h'
  | step hlength _ ih => exact .step hlength (ih h')

theorem cases_head (h : c.Reaches a b) : a = b ∨ ∃ n, c.lengthAt a = .ok (some n) ∧ c.Reaches (a + n) b := by
  cases h with
  | refl => exact .inl rfl
  | step hlength hrest => exact .inr ⟨_, hlength, hrest⟩

/-- Of two positions on one walk, the later one is reached from the earlier one. -/
theorem of_le {x : Nat} (ha : c.Reaches x a) (hb : c.Reaches x b) (hle : a ≤ b) : c.Reaches a b := by
  induction ha with
  | refl => exact hb
  | @step x a n hlength hrest ih =>
      rcases hb.cases_head with rfl | ⟨m, hm, hrest'⟩
      · obtain ⟨op, e, hocc⟩ := lengthAt_eq_some_iff.mp hlength
        have := hocc.pos
        have := hrest.le
        omega
      · obtain rfl : n = m := Option.some.inj (Except.ok.inj (hlength.symm.trans hm))
        exact ih hrest' hle

/-- The instruction at a position of a walk ends where the walk goes on, at the latest. -/
theorem end_le {x : Nat} (ha : c.Reaches x a) (hb : c.Reaches x b) (hlt : a < b)
    (hlength : c.lengthAt a = .ok (some n)) : a + n ≤ b := by
  rcases (ha.of_le hb (Nat.le_of_lt hlt)).cases_head with rfl | ⟨m, hm, hrest⟩
  · omega
  · obtain rfl : n = m := Option.some.inj (Except.ok.inj (hlength.symm.trans hm))
    exact hrest.le

/-- A walk has found a complete instruction wherever it has gone on. -/
theorem exists_length {x : Nat} (ha : c.Reaches x a) (hb : c.Reaches x b) (hlt : a < b) :
    ∃ n, c.lengthAt a = .ok (some n) := by
  rcases (ha.of_le hb (Nat.le_of_lt hlt)).cases_head with rfl | ⟨n, hn, -⟩
  · omega
  · exact ⟨n, hn⟩

theorem of_lengthAt_eq {x : Nat} (h : ∀ y, c.Reaches x y → d.lengthAt y = c.lengthAt y)
    (ha : c.Reaches x a) (hb : c.Reaches a b) : d.Reaches a b := by
  induction hb with
  | refl => exact .refl _
  | step hlength _ ih => exact .step ((h _ ha).trans hlength) (ih (ha.next hlength))

/-- The instructions of a walk leave no byte out. -/
theorem exists_instruction {k : Nat} (h : c.Reaches a b) (hk : a ≤ k ∧ k < b) :
    ∃ x n, c.Reaches a x ∧ c.lengthAt x = .ok (some n) ∧ x ≤ k ∧ k < x + n := by
  induction h with
  | refl => omega
  | @step a b n hlength _ ih =>
      by_cases hlt : k < a + n
      · exact ⟨a, n, .refl a, hlength, hk.1, hlt⟩
      · obtain ⟨x, m, hx, hm⟩ := ih ⟨Nat.not_lt.mp hlt, hk.2⟩
        exact ⟨x, m, .step hlength hx, hm⟩

/-- A walk goes the same way over codes that are equal from there on. -/
theorem congr (hsize : d.size = c.size) (hbytes : Set.EqOn d.byteAt c.byteAt (Set.Ici a))
    (h : c.Reaches a b) : d.Reaches a b :=
  .of_lengthAt_eq (fun _ hy => lengthAt_congr hsize (hbytes.mono (Set.Ici_subset_Ici.mpr hy.le)))
    (.refl a) h

end Reaches

/-- Codes in which a walk finds the same lengths have the same starts. -/
theorem isStart_congr (h : ∀ bci, c.IsStart bci → d.lengthAt bci = c.lengthAt bci) (bci : Nat) :
    d.IsStart bci ↔ c.IsStart bci := by
  have hback {x y : Nat} (hd : d.Reaches x y) : c.IsStart x → c.IsStart y := by
    induction hd with
    | refl => exact id
    | step hlength _ ih => exact fun hs => ih (hs.next ((h _ hs).symm.trans hlength))
  exact ⟨fun hd => hback hd (.refl 0), fun hc => .of_lengthAt_eq h (.refl 0) hc⟩

/-- A change inside one instruction that leaves it its room leaves every start in its place. -/
theorem lengthAt_eq_of_patch {op op' : Opcode} {e e' : FormatEntry} (hb : c.IsStart b)
    (hbefore : c.Occupies b n op e) (hafter : d.Occupies b n op' e') (hsize : d.size = c.size)
    (hbytes : Set.EqOn d.byteAt c.byteAt (Set.Ico b (b + n))ᶜ) (ha : c.IsStart a) :
    d.lengthAt a = c.lengthAt a := by
  rcases Nat.lt_trichotomy a b with hlt | rfl | hgt
  · obtain ⟨m, hm⟩ := ha.exists_length hb hlt
    have hend := ha.end_le hb hlt hm
    obtain ⟨op₁, e₁, hocc⟩ := lengthAt_eq_some_iff.mp hm
    have hkept : d.Occupies a m op₁ e₁ := hocc.of_eqOn (eqOn_before hbytes hend) (hsize ▸ hocc.ends)
    rw [hkept.lengthAt, hocc.lengthAt]
  · rw [hafter.lengthAt, hbefore.lengthAt]
  · have hend := hb.end_le ha hgt hbefore.lengthAt
    exact lengthAt_congr hsize (eqOn_after hbytes hend)

/-- Storing an opcode of the same shape leaves every start in its place. -/
theorem isStart_setOpcode {n : Nat} {raw op : Opcode} (hb : c.IsStart b) (hraw : c.opcodeAt b = .ok raw)
    (hd : c.setOpcode b op = .ok d) (hend : b + n ≤ c.size)
    (hbefore : standard.shape? raw = some (some n, raw)) (hafter : standard.shape? op = some (some n, raw))
    (a : Nat) : d.IsStart a ↔ c.IsStart a := by
  have hsize : d.size = c.size := size_setByte hd
  obtain ⟨_, hbefore, -⟩ := Occupies.of_shape hraw hbefore hend
  obtain ⟨_, hafter, -⟩ := Occupies.of_shape (opcodeAt_setOpcode hd) hafter (hsize ▸ hend)
  refine isStart_congr (fun k hk => lengthAt_eq_of_patch hb hbefore hafter hsize ?_ hk) a
  intro k hk
  rw [byteAt_setByte hd, if_neg]
  rintro rfl
  exact hk ⟨Nat.le_refl _, Nat.lt_add_of_pos_right hbefore.pos⟩

end MethodCode.Code
