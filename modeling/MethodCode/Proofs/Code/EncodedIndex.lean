import MethodCode.Proofs.Code.Bytes

/-! Pool indices in unlinked code. Every instruction that refers to the pool has its index right after the
opcode, and only the opcode tells how long the index is. -/

namespace MethodCode.Code

/-- The pool index that unlinked code holds at a position: one byte after `ldc`, two in java order after
any other opcode. -/
def encodedIndexAt (c : Code) (bci : Nat) : Except Fault UInt16 := do
  if (← c.opcodeAt bci) = .ldc then return (← c.byteAt (bci + 1)).toUInt16
  else c.u16At .java (bci + 1)

variable {c d : Code} {bci n : Nat} {op : Opcode}

theorem encodedIndexAt_of_ldc (hop : c.opcodeAt bci = .ok .ldc) :
    c.encodedIndexAt bci = (do return (← c.byteAt (bci + 1)).toUInt16) := by
  rw [encodedIndexAt, hop]
  rfl

theorem encodedIndexAt_of_ne (hop : c.opcodeAt bci = .ok op) (hne : op ≠ .ldc) :
    c.encodedIndexAt bci = c.u16At .java (bci + 1) := by
  rw [encodedIndexAt, hop]
  exact if_neg hne

/-- The index is one byte long after `ldc`, two bytes after other codes. -/
theorem encodedIndexAt_congr (hop : c.opcodeAt bci = .ok op) (hroom : (if op = .ldc then 2 else 3) ≤ n)
    (hbytes : Set.EqOn d.byteAt c.byteAt (Set.Ico bci (bci + n))) :
    d.encodedIndexAt bci = c.encodedIndexAt bci := by
  have hop' : d.opcodeAt bci = .ok op := by
    rw [opcodeAt_congr (hbytes ⟨Nat.le_refl _, by split at hroom <;> omega⟩), hop]
  by_cases hldc : op = .ldc
  · subst hldc
    rw [if_pos rfl] at hroom
    rw [encodedIndexAt_of_ldc hop, encodedIndexAt_of_ldc hop', hbytes ⟨by omega, by omega⟩]
  · rw [if_neg hldc] at hroom
    rw [encodedIndexAt_of_ne hop hldc, encodedIndexAt_of_ne hop' hldc,
      u16At_congr (hbytes.mono (Set.Ico_subset_Ico (by omega) (by omega)))]

theorem encodedIndexAt_congr_after (hbytes : Set.EqOn d.byteAt c.byteAt (Set.Ici bci)) :
    d.encodedIndexAt bci = c.encodedIndexAt bci := by
  have hop : d.opcodeAt bci = c.opcodeAt bci := opcodeAt_congr (hbytes Set.self_mem_Ici)
  have hbyte : d.byteAt (bci + 1) = c.byteAt (bci + 1) := hbytes (Set.mem_Ici.mpr (Nat.le_succ bci))
  rw [encodedIndexAt, encodedIndexAt, hop, hbyte,
    u16At_congr (hbytes.mono fun k hk => Set.mem_Ici.mpr (Nat.le_trans (Nat.le_succ bci) hk.1))]

theorem exists_encodedIndexAt (hop : c.opcodeAt bci = .ok op) (hroom : (if op = .ldc then 2 else 3) ≤ n)
    (hend : bci + n ≤ c.size) : ∃ p, c.encodedIndexAt bci = .ok p := by
  by_cases hldc : op = .ldc
  · subst hldc
    rw [if_pos rfl] at hroom
    obtain ⟨b, hb⟩ := exists_byteAt (show bci + 1 < c.size by omega)
    exact ⟨b.toUInt16, by rw [encodedIndexAt_of_ldc hop, hb]; rfl⟩
  · rw [if_neg hldc] at hroom
    obtain ⟨p, hp⟩ := exists_u16At .java (show bci + 1 + 2 ≤ c.size by omega)
    exact ⟨p, (encodedIndexAt_of_ne hop hldc).trans hp⟩

end MethodCode.Code
