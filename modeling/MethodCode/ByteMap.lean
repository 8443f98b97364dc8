/-! Maps from bytes. A map is a binary tree in which the bits of a key, lowest first, lead from the root
to the value, so eight steps find a value, whatever else the map holds. Main statement: a map answers
what was last inserted under a byte. -/

namespace MethodCode

/-- A binary tree that keeps its values at one depth. -/
inductive BitTree (α : Type) : Nat → Type where
  | empty {depth : Nat} : BitTree α depth
  | leaf (value : α) : BitTree α 0
  | node {depth : Nat} (even odd : BitTree α depth) : BitTree α (depth + 1)

namespace BitTree

variable {α : Type}

/-- The value to which the bits of a number lead. -/
def get? {depth : Nat} : BitTree α depth → Nat → Option α
  | empty, _ => none
  | leaf a, _ => some a
  | node even odd, n => if n % 2 = 0 then even.get? (n / 2) else odd.get? (n / 2)

/-- The trees of the even numbers and of the odd ones. -/
def halves {depth : Nat} : BitTree α (depth + 1) → BitTree α depth × BitTree α depth
  | empty => (empty, empty)
  | node even odd => (even, odd)

/-- The tree with another value where the bits of a number lead. -/
def insert (n : Nat) (a : α) : {depth : Nat} → BitTree α depth → BitTree α depth
  | 0, _ => leaf a
  | _ + 1, t =>
    let (even, odd) := t.halves
    if n % 2 = 0 then node (insert (n / 2) a even) odd else node even (insert (n / 2) a odd)

theorem get?_halves {depth : Nat} (t : BitTree α (depth + 1)) (n : Nat) :
    t.get? n = if n % 2 = 0 then t.halves.1.get? (n / 2) else t.halves.2.get? (n / 2) := by
  cases t with
  | empty => simp [get?, halves]
  | node even odd => rfl

theorem get?_insert {depth : Nat} (t : BitTree α depth) {m n : Nat} (hm : m < Nat.pow 2 depth)
    (hn : n < Nat.pow 2 depth) (a : α) :
    (t.insert n a).get? m = if m = n then some a else t.get? m := by
  induction depth generalizing m n with
  | zero =>
    have hm : m < 1 := hm
    have hn : n < 1 := hn
    have h : m = n := by omega
    simp [insert, get?, h]
  | succ depth ih =>
    have h : m = n ↔ m % 2 = n % 2 ∧ m / 2 = n / 2 := by omega
    have half_lt {k : Nat} (hk : k < Nat.pow 2 (depth + 1)) : k / 2 < Nat.pow 2 depth := by
      simp only [Nat.pow_eq] at hk ⊢
      omega
    have ih (t : BitTree α depth) := ih t (half_lt hm) (half_lt hn)
    rw [get?_halves t, insert]
    by_cases hn2 : n % 2 = 0
    · by_cases hm2 : m % 2 = 0
      · simp [get?, hn2, hm2, ih, h]
      · simp [get?, hn2, hm2, h]
    · by_cases hm2 : m % 2 = 0
      · simp [get?, hn2, hm2, h, Ne.symm hn2]
      · have hmod : m % 2 = n % 2 := by omega
        simp [get?, hn2, ih, h, hmod]

end BitTree

/-- A map from bytes. -/
structure ByteMap (α : Type) where
  tree : BitTree α 8

namespace ByteMap

variable {α : Type}

/-- The map that holds nothing. -/
def empty : ByteMap α := ⟨.empty⟩

/-- The value under a byte. -/
def get? (m : ByteMap α) (b : UInt8) : Option α :=
  m.tree.get? b.toNat

/-- The map with another value under a byte. -/
def insert (m : ByteMap α) (b : UInt8) (a : α) : ByteMap α :=
  ⟨m.tree.insert b.toNat a⟩

theorem get?_empty (b : UInt8) : (empty : ByteMap α).get? b = none := rfl

/-- A map answers what was last inserted. -/
theorem get?_insert (m : ByteMap α) (b c : UInt8) (a : α) :
    (m.insert c a).get? b = if b = c then some a else m.get? b := by
  have h := m.tree.get?_insert b.toNat_lt c.toNat_lt a
  simpa only [get?, insert, UInt8.toNat_inj] using h

end ByteMap

end MethodCode
