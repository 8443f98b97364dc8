import MethodCode.Descriptor.Category

/-! Reading a descriptor inverts writing one. Each reader gives back a value and a rest exactly when the
text is that value's text before that rest (`FieldType.take?_eq_some_iff` and its kin): from left to
right because writing what was read restores what was consumed, from right to left because the first
character of a type fixes which form it has. Since the two sides are equivalent for every rest, a text
has one reading at most, and no separate argument about ambiguity is needed. The head of a field type is
none of the characters that a method descriptor puts beside types, which keeps parameters apart from the
parenthesis that ends them, `void` apart from the other results, and the two sorts of descriptor apart
from each other. Main statement: `Descriptor.resultType_grammar`. -/

namespace MethodCode

namespace Primitive

@[simp]
theorem ofLetter?_letter (p : Primitive) : ofLetter? p.letter = some p := by
  cases p <;> rfl

theorem eq_letter_of_ofLetter? {c : Char} {p : Primitive} (h : ofLetter? c = some p) : c = p.letter := by
  unfold ofLetter? at h
  split at h <;> cases h <;> rfl

theorem letter_ne_form (p : Primitive) : p.letter ≠ 'L' ∧ p.letter ≠ '[' := by
  cases p <;> decide

end Primitive

/-- A reader of class names stops at the first semicolon, so it reads a name back and no other text. -/
theorem ClassName.take?_eq_some_iff {cs rest : List Char} {name : ClassName} :
    take? cs = some (name, rest) ↔ cs = name.chars ++ ';' :: rest := by
  constructor
  · intro h
    simp only [take?] at h
    split at h
    · cases h
    · rename_i c after hafter
      split at h
      · cases h
        -- what stands after the name fails the test that the name's characters passed
        have hc : c = ';' := by
          have hhead := List.head?_dropWhile_not (· ≠ ';') cs
          rw [hafter] at hhead
          simpa using hhead
        have hcs := List.takeWhile_append_dropWhile (p := (· ≠ ';')) (l := cs)
        rw [hafter, hc] at hcs
        exact hcs.symm
      · cases h
  · rintro rfl
    have hname : ∀ c ∈ name.chars, decide (c ≠ ';') = true := fun c hc =>
      decide_eq_true fun heq => name.noSemicolon (heq ▸ hc)
    simp only [take?, List.takeWhile_append_of_pos hname, List.dropWhile_append_of_pos hname]
    simp [name.nonempty]

namespace FieldType

/-- A type's descriptor starts with a letter or a bracket. -/
theorem exists_text_eq_cons (t : FieldType) :
    ∃ c cs, t.text = c :: cs ∧ c ≠ '(' ∧ c ≠ ')' ∧ c ≠ 'V' := by
  cases t with
  | primitive p => exact ⟨p.letter, [], rfl, by cases p <;> decide⟩
  | object name => exact ⟨'L', _, rfl, by decide⟩
  | array element => exact ⟨'[', _, rfl, by decide⟩

theorem take?_text_append (t : FieldType) (rest : List Char) : take? (t.text ++ rest) = some (t, rest) := by
  induction t with
  | primitive p =>
    obtain ⟨hobject, harray⟩ := p.letter_ne_form
    simp [text, take?, hobject, harray]
  | object name =>
    have hname : ClassName.take? (name.chars ++ ';' :: rest) = some (name, rest) :=
      ClassName.take?_eq_some_iff.2 rfl
    simp [text, take?, hname]
  | array element ih => simp [text, take?, ih]

theorem eq_text_append_of_take? {cs rest : List Char} {t : FieldType} (h : take? cs = some (t, rest)) :
    cs = t.text ++ rest := by
  induction cs generalizing t with
  | nil => cases h
  | cons c cs ih =>
    unfold take? at h
    split at h
    next hc =>
      obtain ⟨⟨name, after⟩, hname, heq⟩ := Option.map_eq_some_iff.1 h
      cases heq
      rw [hc, ClassName.take?_eq_some_iff.1 hname]
      simp [text]
    next =>
      split at h
      next hc =>
        obtain ⟨⟨element, after⟩, helement, heq⟩ := Option.map_eq_some_iff.1 h
        cases heq
        rw [hc, ih helement]
        rfl
      next =>
        obtain ⟨p, hp, heq⟩ := Option.map_eq_some_iff.1 h
        cases heq
        rw [Primitive.eq_letter_of_ofLetter? hp]
        rfl

theorem take?_eq_some_iff {cs rest : List Char} {t : FieldType} :
    take? cs = some (t, rest) ↔ cs = t.text ++ rest := by
  constructor
  · exact eq_text_append_of_take?
  · rintro rfl
    exact take?_text_append t rest

theorem parse?_eq_some_iff {cs : List Char} {t : FieldType} : parse? cs = some t ↔ t.text = cs := by
  unfold parse?
  constructor
  · intro h
    split at h
    next u hu =>
      cases h
      simpa using (take?_eq_some_iff.1 hu).symm
    next => cases h
  · rintro rfl
    have ht : take? t.text = some (t, []) := by simpa using take?_text_append t []
    rw [ht]

end FieldType

namespace MethodType

/-- A type at the head of the parameters is the first of them. -/
theorem takeParameters?_of_take? {cs rest : List Char} {t : FieldType}
    (h : FieldType.take? cs = some (t, rest)) :
    takeParameters? cs = (takeParameters? rest).map fun (ts, after) => (t :: ts, after) := by
  obtain ⟨c, more, htext, -, hclose, -⟩ := t.exists_text_eq_cons
  conv => lhs; unfold takeParameters?
  split
  next =>
    have hcs := FieldType.take?_eq_some_iff.1 h
    rw [htext] at hcs
    exact absurd (List.cons.inj hcs).1.symm hclose
  next =>
    split
    next hnone => rw [h] at hnone; cases hnone
    next hsome => rw [h] at hsome; cases hsome; rfl

theorem takeParameters?_text_append (ts : List FieldType) (rest : List Char) :
    takeParameters? (ts.flatMap FieldType.text ++ ')' :: rest) = some (ts, rest) := by
  induction ts with
  | nil => simp [takeParameters?]
  | cons t ts ih =>
    have htake := FieldType.take?_text_append t (ts.flatMap FieldType.text ++ ')' :: rest)
    rw [List.flatMap_cons, List.append_assoc, takeParameters?_of_take? htake, ih]
    rfl

theorem eq_text_append_of_takeParameters? {cs rest : List Char} {ts : List FieldType}
    (h : takeParameters? cs = some (ts, rest)) : cs = ts.flatMap FieldType.text ++ ')' :: rest := by
  induction cs using takeParameters?.induct generalizing ts with
  | case1 after =>
    unfold takeParameters? at h
    cases h
    rfl
  | case2 cs hclose hnone =>
    unfold takeParameters? at h
    split at h
    next => exact (hclose _ rfl).elim
    next => split at h <;> simp_all
  | case3 cs hclose t after hsome _ ih =>
    rw [takeParameters?_of_take? hsome] at h
    obtain ⟨⟨more, tail⟩, hmore, heq⟩ := Option.map_eq_some_iff.1 h
    cases heq
    rw [FieldType.take?_eq_some_iff.1 hsome, ih hmore, List.flatMap_cons, List.append_assoc]

theorem takeParameters?_eq_some_iff {cs rest : List Char} {ts : List FieldType} :
    takeParameters? cs = some (ts, rest) ↔ cs = ts.flatMap FieldType.text ++ ')' :: rest := by
  constructor
  · exact eq_text_append_of_takeParameters?
  · rintro rfl
    exact takeParameters?_text_append ts rest

theorem takeResult?_eq_some_iff {cs rest : List Char} {result : Option FieldType} :
    takeResult? cs = some (result, rest) ↔ cs = resultText result ++ rest := by
  cases result with
  | none =>
    unfold takeResult?
    split
    next => simp [resultText]
    next hvoid =>
      simp only [Option.map_eq_some_iff, Prod.mk.injEq, reduceCtorEq, false_and, and_false, exists_false,
        false_iff]
      exact hvoid rest
  | some t =>
    obtain ⟨c, more, htext, -, -, hvoid⟩ := t.exists_text_eq_cons
    unfold takeResult?
    split
    next => simp [resultText, htext, hvoid.symm]
    next => simp [resultText, FieldType.take?_eq_some_iff]

theorem parse?_eq_some_iff {cs : List Char} {m : MethodType} : parse? cs = some m ↔ m.text = cs := by
  constructor
  · intro h
    unfold parse? at h
    split at h
    next cs =>
      obtain ⟨⟨parameters, after⟩, hparameters, h⟩ := Option.bind_eq_some_iff.1 h
      obtain ⟨⟨result, rest⟩, hresult, h⟩ := Option.bind_eq_some_iff.1 h
      split at h
      next heq =>
        cases heq
        cases h
        rw [takeParameters?_eq_some_iff.1 hparameters, takeResult?_eq_some_iff.1 hresult, List.append_nil]
        rfl
      next => cases h
    next => cases h
  · rintro rfl
    have hresult : takeResult? (resultText m.result) = some (m.result, []) :=
      takeResult?_eq_some_iff.2 (List.append_nil _).symm
    simp only [parse?, text, takeParameters?_text_append, Option.bind_eq_bind, Option.bind_some, hresult]

end MethodType

namespace Descriptor

/-- What a descriptor can describe. -/
inductive Reading where
  | field (t : FieldType)
  | method (m : MethodType)
  deriving DecidableEq

namespace Reading

/-- The descriptor of a reading. -/
def text : Reading → List Char
  | field t => t.text
  | method m => m.text

/-- The category of the value that a member so described produces. -/
def category : Reading → ValueType
  | field t => t.valueType
  | method m => m.resultType

end Reading

/-- The reading of a text: only that of a method starts with a parenthesis. -/
def reading? (cs : List Char) : Option Reading :=
  if cs.head? = some '(' then (MethodType.parse? cs).map .method else (FieldType.parse? cs).map .field

theorem reading?_eq_some_iff {cs : List Char} {r : Reading} : reading? cs = some r ↔ r.text = cs := by
  unfold reading?
  cases r with
  | field t =>
    obtain ⟨c, more, htext, hopen, -⟩ := t.exists_text_eq_cons
    split
    next hhead =>
      have hne : t.text ≠ cs := by
        rintro rfl
        simp [htext, hopen] at hhead
      simpa [Reading.text] using hne
    next => simp [Reading.text, FieldType.parse?_eq_some_iff]
  | method m =>
    split
    next => simp [Reading.text, MethodType.parse?_eq_some_iff]
    next hhead =>
      have hne : m.text ≠ cs := by
        rintro rfl
        exact hhead rfl
      simpa [Reading.text] using hne

/-- No text has two readings. -/
theorem Reading.text_injective {r s : Reading} (h : r.text = s.text) : r = s :=
  Option.some.inj ((reading?_eq_some_iff.2 rfl).symm.trans (reading?_eq_some_iff.2 h.symm))

theorem resultType_of_reading {d : String} {r : Reading} (h : reading? d.toList = some r) :
    resultType d = .ok r.category := by
  unfold resultType
  unfold reading? at h
  split at h
  next hhead =>
    obtain ⟨m, hm, rfl⟩ := Option.map_eq_some_iff.1 h
    simp only [hhead, if_true, hm, Option.map_some]
    rfl
  next hhead =>
    obtain ⟨t, ht, rfl⟩ := Option.map_eq_some_iff.1 h
    simp only [hhead, if_false, ht, Option.map_some]
    rfl

theorem resultType_of_no_reading {d : String} (h : reading? d.toList = none) :
    resultType d = failWith (.malformedDescriptor d) := by
  unfold resultType
  unfold reading? at h
  split at h
  next hhead => simp only [hhead, if_true, Option.map_eq_none_iff.1 h, Option.map_none]
  next hhead => simp only [hhead, if_false, Option.map_eq_none_iff.1 h, Option.map_none]

theorem resultType_eq_ok_iff {d : String} {t : ValueType} :
    resultType d = .ok t ↔ ∃ r : Reading, r.text = d.toList ∧ r.category = t := by
  constructor
  · intro hok
    cases hr : reading? d.toList with
    | none => cases hok.symm.trans (resultType_of_no_reading hr)
    | some r =>
      cases hok.symm.trans (resultType_of_reading hr)
      exact ⟨r, reading?_eq_some_iff.1 hr, rfl⟩
  · rintro ⟨r, htext, rfl⟩
    exact resultType_of_reading (reading?_eq_some_iff.2 htext)

theorem kind_of_resultType {d : String} {e : Error} (h : resultType d = .error e) : e.kind = .malformed := by
  cases hr : reading? d.toList with
  | none =>
    obtain rfl := Except.error.inj ((resultType_of_no_reading hr).symm.trans h)
    rfl
  | some r => cases h.symm.trans (resultType_of_reading hr)

/-- Only the descriptors of methods have parameters. -/
theorem isOk_parameterSlots_iff {d : String} :
    (∃ n, parameterSlots d = .ok n) ↔ ∃ m : MethodType, m.text = d.toList := by
  unfold parameterSlots
  constructor
  · rintro ⟨n, h⟩
    cases hparse : MethodType.parse? d.toList with
    | none =>
        rw [hparse] at h
        cases h
    | some m => exact ⟨m, MethodType.parse?_eq_some_iff.mp hparse⟩
  · rintro ⟨m, hm⟩
    rw [MethodType.parse?_eq_some_iff.mpr hm]
    exact ⟨_, rfl⟩

/-- The category of a descriptor is that of the one thing it describes, a field's type or a method's; a
text that describes neither is malformed. -/
theorem resultType_grammar (d : String) :
    (∀ t, resultType d = .ok t ↔ ∃ r : Reading, r.text = d.toList ∧ r.category = t) ∧
    (∀ r s : Reading, r.text = d.toList → s.text = d.toList → r = s) ∧
    ((∀ r : Reading, r.text ≠ d.toList) → ∃ e, resultType d = .error e ∧ e.kind = .malformed) := by
  refine ⟨fun t => resultType_eq_ok_iff, fun r s hr hs => Reading.text_injective (hr.trans hs.symm), fun hnone => ?_⟩
  cases h : resultType d with
  | ok t =>
    obtain ⟨r, hr, -⟩ := resultType_eq_ok_iff.1 h
    exact absurd hr (hnone r)
  | error e => exact ⟨e, rfl, kind_of_resultType h⟩

end Descriptor

end MethodCode
