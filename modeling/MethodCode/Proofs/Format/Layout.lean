import MethodCode.Proofs.Format.Language

/-! What a format is told of an opcode, and what it tells. The flags that a format is given say how the opcode
behaves; they come back unchanged, and all that a format adds says how the instruction is laid out. Main statements:
behaviour passes through a format, and the layout that a format tells does not depend on it. -/

namespace MethodCode

/-! ### Sets of flags -/

namespace FormatFlags

theorem ext {a b : FormatFlags} (h : ∀ f, a.has f = true ↔ b.has f = true) : a = b := by
  have hposition : ∀ i < 12, ∃ f ∈ Flag.all, f.position = i := by decide
  apply BitVec.eq_of_getLsbD_eq
  intro i hi
  obtain ⟨f, -, rfl⟩ := hposition i hi
  exact Bool.eq_iff_iff.mpr (h f)

theorem has_and (a b : FormatFlags) (f : Flag) : has (a &&& b) f = true ↔ a.has f = true ∧ b.has f = true := by
  rw [has, BitVec.getLsbD_and, Bool.and_eq_true, has, has]

theorem has_zero (f : Flag) : has 0 f = false := BitVec.getLsbD_zero

theorem has_of (flags : List Flag) (f : Flag) : (of flags).has f = true ↔ f ∈ flags := by
  have hinsert : of flags = flags.foldl insert 0 := rfl
  rw [hinsert, has_foldl_insert, has_zero, or_iff_right Bool.false_ne_true]

theorem contains_of (set : FormatFlags) (flags : List Flag) :
    set.contains (of flags) = true ↔ ∀ f ∈ flags, set.has f = true := by
  rw [contains, beq_iff_eq]
  constructor
  · intro h f hf
    have hboth : has (set &&& of flags) f = true := by rwa [h, has_of]
    exact ((has_and ..).mp hboth).1
  · intro h
    refine ext fun f => ?_
    rw [has_and, has_of]
    exact and_iff_right_of_imp (h f)

/-- The flags of the layout are all but the two that tell how an opcode behaves. -/
theorem has_layout (f : Flag) : layout.has f = true ↔ f ≠ .canTrap ∧ f ≠ .canRewrite := by
  cases f <;> decide

end FormatFlags

namespace Format

variable {format : String} {more set : FormatFlags} {body : List UInt8} {f : Flag}

/-! ### What a format adds -/

theorem Lead.has_layout {lead : Lead} (h : f ∈ lead.flags) : FormatFlags.layout.has f = true := by
  cases lead <;> revert h <;> cases f <;> decide

theorem Adds.has_layout (h : Adds body f) : FormatFlags.layout.has f = true := by
  cases h with
  | field _ hletter =>
      revert hletter
      cases f <;> simp [lettersOf, FormatFlags.has_layout]
  | native => decide
  | short => decide
  | word => decide

/-- A format of two parts tells what it was told, and something of the layout. -/
theorem exists_adds (h : flags format more = .ok set) :
    ∃ P : Flag → Prop, (∀ f, P f → FormatFlags.layout.has f = true) ∧
      (∀ f, set.has f = true ↔ more.has f = true ∨ P f) ∧
      ∀ more', ∃ set', flags format more' = .ok set' ∧ ∀ f, set'.has f = true ↔ more'.has f = true ∨ P f := by
  by_cases hempty : format = ""
  · subst hempty
    have hflags (more' : FormatFlags) : flags "" more' = .ok (more'.insert .notSimple) := rfl
    obtain rfl := Except.ok.inj ((hflags more).symm.trans h)
    refine ⟨(· = .notSimple), ?_, FormatFlags.has_insert more .notSimple,
      fun more' => ⟨_, hflags more', FormatFlags.has_insert more' .notSimple⟩⟩
    rintro _ rfl
    decide
  · obtain ⟨lead, body, hbody⟩ := exists_lead hempty h
    have hwell := ((flags_eq_ok hbody).mp h).1
    refine ⟨fun f => f ∈ lead.flags ∨ Adds body f, fun f hf => hf.elim Lead.has_layout Adds.has_layout,
      has_flags hbody h, fun more' => ?_⟩
    obtain ⟨set', hset'⟩ : ∃ set', flags format more' = .ok set' := ⟨_, (flags_eq_ok hbody).mpr ⟨hwell, rfl⟩⟩
    exact ⟨set', hset', has_flags hbody hset'⟩

/-! ### Behaviour and layout -/

/-- A format is understood whatever the behaviour of the opcode is. -/
theorem flags_understood (h : flags format more = .ok set) (more' : FormatFlags) :
    ∃ set', flags format more' = .ok set' := by
  obtain ⟨P, -, -, hmore⟩ := exists_adds h
  obtain ⟨set', hset', -⟩ := hmore more'
  exact ⟨set', hset'⟩

/-- Behaviour passes through a format. -/
theorem has_behaviour (h : flags format more = .ok set) (hf : ¬FormatFlags.layout.has f = true) :
    set.has f = true ↔ more.has f = true := by
  obtain ⟨P, hlayout, hset, -⟩ := exists_adds h
  rw [hset]
  exact or_iff_left fun hP => hf (hlayout f hP)

/-- The layout that a format tells does not depend on the behaviour of the opcode. -/
theorem flags_zero (hmore : ∀ f, more.has f = true → ¬FormatFlags.layout.has f = true)
    (h : flags format more = .ok set) : flags format 0 = .ok (set &&& FormatFlags.layout) := by
  obtain ⟨P, hlayout, hset, hother⟩ := exists_adds h
  obtain ⟨plain, hplain, hhas⟩ := hother 0
  have heq : plain = set &&& FormatFlags.layout := by
    refine FormatFlags.ext fun f => ?_
    rw [hhas, FormatFlags.has_zero, or_iff_right Bool.false_ne_true, FormatFlags.has_and, hset]
    exact ⟨fun hP => ⟨.inr hP, hlayout f hP⟩, fun ⟨hor, hf⟩ => hor.resolve_left fun hm => hmore f hm hf⟩
  rw [hplain, heq]

end Format

end MethodCode
