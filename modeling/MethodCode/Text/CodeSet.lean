/-! Sets of code points, written as the closed ranges that they are made of. The ranges ascend and stay
apart, so a search ends at the first range past the code point. Main statement: a set holds the code
points of its ranges and no others. The properties that are given as sets are those of Unicode 17.0. -/

namespace MethodCode

namespace CodeSet

/-- Whether ranges ascend, from a code point on, with a gap after each. -/
def ascendingFrom (low : Nat) : List (Nat × Nat) → Bool
  | [] => true
  | (first, last) :: rest => low ≤ first && first ≤ last && ascendingFrom (last + 2) rest

/-- Whether one of some ascending ranges holds a code point. -/
def inAscending (n : Nat) : List (Nat × Nat) → Bool
  | [] => false
  | (first, last) :: rest => first ≤ n && (n ≤ last || inAscending n rest)

theorem le_of_inAscending {low n : Nat} {ranges : List (Nat × Nat)} (h : ascendingFrom low ranges = true)
    (hn : inAscending n ranges = true) : low ≤ n := by
  cases ranges with
  | nil => simp [inAscending] at hn
  | cons r rest =>
    simp only [ascendingFrom, inAscending, Bool.and_eq_true, decide_eq_true_eq] at h hn
    omega

theorem inAscending_iff {low n : Nat} {ranges : List (Nat × Nat)}
    (h : ascendingFrom low ranges = true) :
    inAscending n ranges = true ↔ ∃ r ∈ ranges, r.1 ≤ n ∧ n ≤ r.2 := by
  induction ranges generalizing low with
  | nil => simp [inAscending]
  | cons r rest ih =>
    simp only [ascendingFrom, Bool.and_eq_true, decide_eq_true_eq] at h
    simp only [inAscending, Bool.and_eq_true, Bool.or_eq_true, decide_eq_true_eq, List.mem_cons,
      exists_eq_or_imp, ← ih h.2]
    constructor
    · intro ⟨hfirst, hn⟩
      exact hn.imp_left fun hlast => ⟨hfirst, hlast⟩
    · intro hn
      cases hn with
      | inl hr => exact ⟨hr.1, .inl hr.2⟩
      | inr hrest =>
        have hlow := le_of_inAscending h.2 hrest
        exact ⟨by omega, .inr hrest⟩

end CodeSet

/-- A set of code points. -/
structure CodeSet where
  ranges : List (Nat × Nat)
  ascending : CodeSet.ascendingFrom 0 ranges = true

namespace CodeSet

/-- Whether a character is in a set. -/
def contains (s : CodeSet) (c : Char) : Bool :=
  inAscending c.toNat s.ranges

/-- A set holds the code points of its ranges and no others. -/
theorem contains_iff (s : CodeSet) (c : Char) :
    s.contains c = true ↔ ∃ r ∈ s.ranges, r.1 ≤ c.toNat ∧ c.toNat ≤ r.2 :=
  inAscending_iff s.ascending

end CodeSet

end MethodCode
