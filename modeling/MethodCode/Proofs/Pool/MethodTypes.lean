import MethodCode.Proofs.Linking.InvokeStep
import MethodCode.Proofs.Pool.Answers

/-! Which method types a pool makes. The descriptor of a method type is read before the constant is made, but as the
descriptor of any member: the type of a field passes too, which no method has. Main statement: in every built pool a
method type is made exactly if its descriptor is one of a method or of a field, and no other descriptor has any effect
but a failure. -/

namespace MethodCode

namespace Descriptor

variable {d : String}

/-- The descriptors that have a category are those of methods and those of fields. -/
theorem isOk_resultType_iff :
    (∃ t, resultType d = .ok t) ↔ (∃ n, parameterSlots d = .ok n) ∨ ∃ t : FieldType, t.text = d.toList := by
  simp only [resultType_eq_ok_iff, isOk_parameterSlots_iff]
  constructor
  · rintro ⟨_, r, htext, -⟩
    cases r with
    | method m => exact .inl ⟨m, htext⟩
    | field t => exact .inr ⟨t, htext⟩
  · rintro (⟨m, htext⟩ | ⟨t, htext⟩)
    · exact ⟨_, .method m, htext, rfl⟩
    · exact ⟨_, .field t, htext, rfl⟩

end Descriptor

/-- The descriptor of a method type is read before anything else happens. -/
theorem Pool.Spells.exec_methodType {s : LinkState} {d : String} {i : UInt16}
    (h : s.constants.pool.Spells (.methodType d) i) (thread : Thread) :
    exec (LinkM.constantAt i thread) s =
      match Descriptor.resultType d with
      | .error e => (.error (.error e), s)
      | .ok _ => exec (do
          LinkM.poll thread
          LinkM.report (.constantResolved thread.name i (.methodType (.ofString d)))
          return .methodType (.ofString d)) s := by
  cases h with
  | methodType hentry hdescriptor =>
      have hpool : exec LinkM.pool s = (.ok s.constants.pool, s) := rfl
      unfold LinkM.constantAt
      rw [exec_bind, hpool]
      dsimp only
      rw [exec_bind, exec_liftM_error, entryAt_of_getElem? hentry nofun, mapError_ok]
      dsimp only
      rw [exec_bind, exec_liftM_error, hdescriptor.utf8At, mapError_ok]
      dsimp only
      rw [exec_bind, exec_liftM_error, Symbol.text_ofString]
      cases Descriptor.resultType d with
      | error e => rfl
      | ok t => rfl

namespace Pool

variable {items : List PoolItem} {i : UInt16}

/-- What a request for the method type with descriptor `d` answers, and the state that it leaves. -/
structure AnswersMethodType (d : String) (thread : Thread) (s : LinkState) (answer : Except Fault LoadedConstant)
    (t : LinkState) : Prop where
  /-- What has parameters is made, and so is what is of the type of a field. -/
  made_iff : answer = .ok (.methodType (.ofString d)) ↔
    (∃ n, Descriptor.parameterSlots d = .ok n) ∨ ∃ type : FieldType, type.text = d.toList
  made : answer = .ok (.methodType (.ofString d)) →
    s.SameClass t ∧ t.polls = s.polls + if thread.isCounted then 1 else 0
  refused : answer ≠ .ok (.methodType (.ofString d)) →
    t = s ∧ ∃ e, answer = .error (.error e) ∧ e.kind = .malformed

/-- A method type is made exactly if its descriptor is that of a method, or else that of a field. If it is made, there
was one poll; if it is not, the descriptor is malformed, and nothing has happened. -/
theorem methodType_made (h : (ofItems items).tagAt i = .ok .methodType) :
    ∃ d, (ofItems items).Spells (.methodType d) i ∧ ∀ (thread : Thread) (s : LinkState),
      s.constants.pool = ofItems items →
      ∃ answer t, exec (LinkM.constantAt i thread) s = (answer, t) ∧ AnswersMethodType d thread s answer t := by
  obtain ⟨item, hspells, htag⟩ := exists_spells h
  cases item with
  | methodType d =>
      refine ⟨d, hspells, fun thread s hpool => ?_⟩
      have hexec := (hpool ▸ hspells : s.constants.pool.Spells (.methodType d) i).exec_methodType thread
      have hreads := Descriptor.isOk_resultType_iff (d := d)
      cases hread : Descriptor.resultType d with
      | error e =>
          rw [hread] at hexec hreads
          refine ⟨_, s, hexec, ?_, nofun, fun _ => ⟨rfl, e, rfl, Descriptor.kind_of_resultType hread⟩⟩
          exact iff_of_false nofun (mt hreads.mpr (by rintro ⟨_, ⟨⟩⟩))
      | ok type =>
          rw [hread] at hexec hreads
          refine ⟨_, _, hexec, iff_of_true rfl (hreads.mp ⟨type, rfl⟩), fun _ => ⟨LinkM.keeps_poll thread s, ?_⟩,
            fun hne => absurd rfl hne⟩
          exact LinkM.polls_poll thread s
  | _ => cases htag

/-- A class with the descriptors of a method, of a field and of nothing. -/
def sampleTypes : LinkState :=
  ⟨⟨#[]⟩, ⟨ofItems [.methodType "(J)V", .methodType "I", .methodType "V"], none⟩, 0, []⟩

/-- The first is made, with a poll, and the last is refused. -/
theorem methodType_made_sample :
    (exec (LinkM.constantAt 2 ⟨"main", true⟩) sampleTypes).2.polls = 1 ∧
      ∃ e, exec (LinkM.constantAt 6 ⟨"main", true⟩) sampleTypes = (.error (.error e), sampleTypes) ∧
        e.kind = .malformed := by
  obtain ⟨htag, htag', hok, hfails⟩ : sampleTypes.constants.pool.tagAt 2 = .ok .methodType ∧
      sampleTypes.constants.pool.tagAt 6 = .ok .methodType ∧
      (exec (LinkM.constantAt 2 ⟨"main", true⟩) sampleTypes).1 = .ok (.methodType (.ofString "(J)V")) ∧
      (exec (LinkM.constantAt 6 ⟨"main", true⟩) sampleTypes).1.toOption = none := by
    decide +kernel
  obtain ⟨d, -, hmethod⟩ := methodType_made htag
  obtain ⟨answer, t, hexec, hanswers⟩ := hmethod ⟨"main", true⟩ sampleTypes rfl
  obtain ⟨d', -, hnothing⟩ := methodType_made htag'
  obtain ⟨answer', t', hexec', hanswers'⟩ := hnothing ⟨"main", true⟩ sampleTypes rfl
  rw [hexec] at hok ⊢
  rw [hexec'] at hfails ⊢
  constructor
  · by_cases hmade : answer = .ok (.methodType (.ofString d))
    · exact (hanswers.made hmade).2
    · obtain ⟨-, e, rfl, -⟩ := hanswers.refused hmade
      cases hok
  · have hrefused : answer' ≠ .ok (.methodType (.ofString d')) := by
      rintro rfl
      cases hfails
    obtain ⟨rfl, e, rfl, hkind⟩ := hanswers'.refused hrefused
    exact ⟨e, rfl, hkind⟩

/-- The type of a field passes for the descriptor of a method type, though it has no parameters to tell. -/
theorem methodType_of_field :
    sampleTypes.constants.pool.tagAt 4 = .ok .methodType ∧
      (exec (LinkM.constantAt 4 .detached) sampleTypes).1 = .ok (.methodType (.ofString "I")) ∧
      (Descriptor.parameterSlots "I").toOption = none := by
  decide +kernel

end Pool

end MethodCode
