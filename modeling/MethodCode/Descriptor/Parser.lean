import MethodCode.Descriptor

/-! Reading descriptors. One character decides every step, so reading never goes back, and each reader
returns what it did not read. Main statement: every reader reads at least one character. -/

namespace MethodCode

/-- The class name before the first semicolon, and what follows that semicolon. -/
def ClassName.take? (cs : List Char) : Option (ClassName × List Char) :=
  let name := cs.takeWhile (· ≠ ';')
  match cs.dropWhile (· ≠ ';') with
  | [] => none
  | _ :: rest =>
    if h : name ≠ [] then
      some (⟨name, h, fun hm => by simpa using List.all_eq_true.1 List.all_takeWhile _ hm⟩, rest)
    else none

/-- The field type at the head of a text, and what follows it. -/
def FieldType.take? : List Char → Option (FieldType × List Char)
  | [] => none
  | c :: cs =>
    if c = 'L' then (ClassName.take? cs).map fun (name, rest) => (.object name, rest)
    else if c = '[' then (take? cs).map fun (t, rest) => (.array t, rest)
    else (Primitive.ofLetter? c).map fun p => (.primitive p, cs)

theorem ClassName.take?_length {cs rest : List Char} {name : ClassName}
    (h : take? cs = some (name, rest)) : rest.length < cs.length := by
  have hl : (cs.dropWhile (· ≠ ';')).length ≤ cs.length := (List.dropWhile_suffix _).length_le
  simp only [take?] at h
  split at h
  · simp at h
  · rename_i hd
    rw [hd] at hl
    simp only [Option.dite_none_right_eq_some, Option.some.injEq, Prod.mk.injEq] at h
    obtain ⟨_, _, rfl⟩ := h
    exact hl

theorem FieldType.take?_length {cs rest : List Char} {t : FieldType}
    (h : take? cs = some (t, rest)) : rest.length < cs.length := by
  induction cs generalizing t with
  | nil => simp [take?] at h
  | cons c cs ih =>
    unfold take? at h
    split at h
    · simp only [Option.map_eq_some_iff, Prod.mk.injEq, Prod.exists] at h
      obtain ⟨name, r, hr, -, rfl⟩ := h
      have := ClassName.take?_length hr
      simp only [List.length_cons]
      omega
    · split at h
      · simp only [Option.map_eq_some_iff, Prod.mk.injEq, Prod.exists] at h
        obtain ⟨u, r, hr, -, rfl⟩ := h
        have := ih hr
        simp only [List.length_cons]
        omega
      · simp only [Option.map_eq_some_iff, Prod.mk.injEq] at h
        obtain ⟨_, _, _, rfl⟩ := h
        simp

/-- The parameter types up to the closing parenthesis, and what follows it. -/
def MethodType.takeParameters? (cs : List Char) : Option (List FieldType × List Char) :=
  match cs with
  | ')' :: rest => some ([], rest)
  | cs =>
    match h : FieldType.take? cs with
    | none => none
    | some (t, rest) =>
      have := FieldType.take?_length h
      (takeParameters? rest).map fun (ts, after) => (t :: ts, after)
termination_by cs.length

/-- The result type at the head of a text, and what follows it. -/
def MethodType.takeResult? : List Char → Option (Option FieldType × List Char)
  | 'V' :: rest => some (none, rest)
  | cs => (FieldType.take? cs).map fun (t, rest) => (some t, rest)

/-- The field type that a whole text describes. -/
def FieldType.parse? (cs : List Char) : Option FieldType :=
  match FieldType.take? cs with
  | some (t, []) => some t
  | _ => none

/-- The method type that a whole text describes. -/
def MethodType.parse? : List Char → Option MethodType
  | '(' :: cs => do
    let (parameters, rest) ← takeParameters? cs
    match ← takeResult? rest with
    | (result, []) => some ⟨parameters, result⟩
    | _ => none
  | _ => none

end MethodCode
