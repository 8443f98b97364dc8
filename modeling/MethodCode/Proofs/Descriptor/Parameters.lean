import MethodCode.Proofs.Descriptor.Grammar

/-! The stack slots that parameters take. A method descriptor is read to its end by two readers, one for the category
of the result and one for the slots of the parameters, and they accept the same texts: whatever starts with a
parenthesis and has a category can only describe a method. Main statement: the parameters of a method take a slot each,
and one more for every `long` and every `double` among them, arrays and objects of any kind being references; a text
that is no method descriptor is malformed. -/

namespace MethodCode

/-- A value takes one slot, and one more if its type is long. -/
theorem FieldType.slots_eq (t : FieldType) :
    t.slots = 1 + (if t == .primitive .long then 1 else 0) + if t == .primitive .double then 1 else 0 := by
  cases t with
  | primitive p => cases p <;> rfl
  | object name => rfl
  | array element => rfl

/-- Slots are added up from left to right. -/
theorem MethodType.foldl_slots (ts : List FieldType) (slots : Nat) :
    ts.foldl (fun slots t => slots + t.slots) slots =
      slots + (ts.length + ts.count (.primitive .long) + ts.count (.primitive .double)) := by
  induction ts generalizing slots with
  | nil => rfl
  | cons t ts ih =>
      rw [List.foldl_cons, ih, t.slots_eq, List.length_cons, List.count_cons, List.count_cons]
      omega

theorem MethodType.parameterSlots_eq (m : MethodType) :
    m.parameterSlots =
      m.parameters.length + m.parameters.count (.primitive .long) + m.parameters.count (.primitive .double) := by
  rw [parameterSlots, foldl_slots, Nat.zero_add]

namespace Descriptor

variable {d : String}

/-- What starts with a parenthesis and has a category describes a method, and the other way round. -/
theorem parenthesis_resultType_iff :
    (d.toList.head? = some '(' ∧ ∃ t, resultType d = .ok t) ↔ ∃ m : MethodType, m.text = d.toList := by
  constructor
  · rintro ⟨hhead, t, hok⟩
    obtain ⟨r, htext, -⟩ := resultType_eq_ok_iff.mp hok
    cases r with
    | field type =>
        -- the head of a field type is no parenthesis
        obtain ⟨c, more, hcons, hopen, -⟩ := type.exists_text_eq_cons
        rw [← htext, Reading.text, hcons, List.head?_cons, Option.some.injEq] at hhead
        exact absurd hhead hopen
    | method m => exact ⟨m, htext⟩
  · rintro ⟨m, hm⟩
    refine ⟨?_, m.resultType, resultType_eq_ok_iff.mpr ⟨.method m, hm, rfl⟩⟩
    rw [← hm]
    rfl

theorem parameterSlots_of_text {m : MethodType} (hm : m.text = d.toList) : parameterSlots d = .ok m.parameterSlots := by
  rw [parameterSlots, MethodType.parse?_eq_some_iff.mpr hm]

theorem kind_of_parameterSlots {e : Error} (h : parameterSlots d = .error e) : e.kind = .malformed := by
  unfold parameterSlots at h
  split at h
  · cases h
  · obtain rfl := Except.error.inj h
    rfl

/-- Which texts have parameters, and how many slots these take. A text has parameters exactly if it starts with a
parenthesis and has a category, and is malformed otherwise; the parameters of a method type take one slot each and
one more for each `long` and `double`. -/
theorem parameterSlots_exact :
    (∀ d : String,
      ((∃ n, parameterSlots d = .ok n) ↔ d.toList.head? = some '(' ∧ ∃ t, resultType d = .ok t) ∧
        ((∃ n, parameterSlots d = .ok n) ∨ ∃ e, parameterSlots d = .error e ∧ e.kind = .malformed)) ∧
      ∀ (parameters : List FieldType) (result : Option FieldType),
        parameterSlots (.ofList (MethodType.text ⟨parameters, result⟩)) =
          .ok (parameters.length + parameters.count (.primitive .long) + parameters.count (.primitive .double)) := by
  refine ⟨fun d => ⟨?_, ?_⟩, fun parameters result => ?_⟩
  · rw [parenthesis_resultType_iff, isOk_parameterSlots_iff]
  · cases h : parameterSlots d with
    | ok n => exact .inl ⟨n, rfl⟩
    | error e => exact .inr ⟨e, rfl, kind_of_parameterSlots h⟩
  · rw [parameterSlots_of_text (String.toList_ofList).symm, MethodType.parameterSlots_eq]

end Descriptor

end MethodCode
