import MethodCode.Proofs.Execution.Failures
import MethodCode.Proofs.Pool.Answers

/-! Built pools are well formed. However many items are entered, each index leads to the entry of an item, with the
entries of its parts behind it, or to no entry: positions that no index reaches are the only ones with entries made
from indices that have started again. So whether a question about an index is answered depends on the tag of its entry
alone, and no reader comes to an entry of the wrong sort on its way. Main statement: `Pool.answersByKind_ofItems`. -/

namespace MethodCode

/-- Whether an entry was found to refer to one of the wrong sort: for a text to something that is none, or for a name
with its descriptor to something else. -/
def Cause.isMisreference : Cause → Bool
  | notUtf8 _ _ | notNameAndType _ _ => true
  | _ => false

/-- The error is no misreference, whatever it is. -/
def Error.NoMisreference (e : Error) : Prop := e.cause.isMisreference = false

/-- The failure is an error and no misreference. -/
def Fault.NoMisreference (f : Fault) : Prop := ∃ e, f = .error e ∧ e.NoMisreference

/-- The state with another pool. -/
def LinkState.withPool (s : LinkState) (p : Pool) : LinkState :=
  { s with constants.pool := p }

open Error (NoMisreference)

theorem Fails.of_cause {α : Type} {cause : Cause} (h : cause.isMisreference = false) :
    Fails NoMisreference (failWith cause : Except Error α) := by
  rintro _ ⟨⟩
  exact h

theorem Fails.mapError_noMisreference {α : Type} {x : Except Error α} (h : Fails NoMisreference x) :
    Fails Fault.NoMisreference (x.mapError .error) := by
  cases x with
  | ok a => exact .pure a
  | error e =>
      rintro _ ⟨⟩
      exact ⟨e, rfl, h e rfl⟩

/-- A question is answered exactly if `P` holds, and what it fails with is no misreference. -/
structure AnswersIf {α : Type} (P : Prop) (x : Except Error α) : Prop where
  answered : (∃ a, x = .ok a) ↔ P
  fails : Fails NoMisreference x

namespace AnswersIf

variable {α : Type} {P : Prop} {x : Except Error α}

theorem of_ok {a : α} (h : P) (hx : x = .ok a) : AnswersIf P x := by
  subst hx
  exact ⟨iff_of_true ⟨a, rfl⟩ h, .pure a⟩

theorem of_error {cause : Cause} (h : ¬P) (hx : x = failWith cause) (hcause : cause.isMisreference = false) :
    AnswersIf P x := by
  subst hx
  exact ⟨iff_of_false (by rintro ⟨_, ⟨⟩⟩) h, .of_cause hcause⟩

end AnswersIf

namespace Pool

variable {p : Pool} {item : PoolItem} {i : UInt16} {tags : List ConstantTag}

/-- There is an entry at an index, and it has one of the tags. -/
def HoldsOneOf (p : Pool) (tags : List ConstantTag) (i : UInt16) : Prop :=
  ∃ tag ∈ tags, p.tagAt i = .ok tag

/-- Every index leads to the entry of an item, or to no entry. -/
def WellFormed (p : Pool) : Prop :=
  ∀ i, p.entryAt i = failWith (.noEntry i) ∨ ∃ item, p.Spells item i

theorem entryAt_eq_error {e : Error} (h : p.entryAt i = .error e) : p.entryAt i = failWith (.noEntry i) := by
  unfold entryAt at h ⊢
  split at h
  · rfl
  · rfl
  · cases h

/-- However many items are entered, every index leads to the entry of one, or to none. -/
theorem wellFormed_ofItems (items : List PoolItem) : (ofItems items).WellFormed := by
  intro i
  cases hentry : (ofItems items).entryAt i with
  | error e => exact .inl (hentry ▸ entryAt_eq_error hentry)
  | ok e =>
      have htag : (ofItems items).tagAt i = .ok e.tag := by
        rw [tagAt, hentry]
        rfl
      obtain ⟨item, hspells, -⟩ := exists_spells htag
      exact .inr ⟨item, hspells⟩

/-! ### Readers that find something else -/

theorem not_holdsOneOf_of_noEntry (h : p.entryAt i = failWith (.noEntry i)) : ¬p.HoldsOneOf tags i := by
  rintro ⟨tag, -, htag⟩
  rw [tagAt, h] at htag
  cases htag

/-- Both texts of a member are behind its pair of a name and a descriptor. -/
theorem member_of_nameAndTypeOf_fails {cause : Cause} (h : p.nameAndTypeOf i = failWith cause) :
    p.memberNameAt i = failWith cause ∧ p.memberSignatureAt i = failWith cause := by
  rw [memberNameAt, memberSignatureAt, h]
  exact ⟨rfl, rfl⟩

namespace Spells

theorem holdsOneOf_iff (h : p.Spells item i) : p.HoldsOneOf tags i ↔ item.tag ∈ tags := by
  constructor
  · rintro ⟨tag, hmem, htag⟩
    rw [h.tagAt] at htag
    exact Except.ok.inj htag ▸ hmem
  · intro hmem
    exact ⟨_, hmem, h.tagAt⟩

/-- What is no reference to a member or a call site has no pair of a name and a descriptor. -/
theorem no_nameAndTypeOf (h : p.Spells item i) (hmember : item.member? = none) :
    p.nameAndTypeOf i = failWith (.notMember i item.tag) := by
  cases h with
  | fieldRef | methodRef | interfaceMethodRef | invokeDynamic => cases hmember
  | _ h =>
      rw [Pool.nameAndTypeOf, entryAt_of_getElem? h (by simp)]
      rfl

theorem no_classNameAt (h : p.Spells item i) (hclass : item.tag ≠ .classRef) :
    p.classNameAt i = failWith (.notClass i item.tag) := by
  cases h with
  | classRef => exact absurd rfl hclass
  | _ h =>
      rw [Pool.classNameAt, entryAt_of_getElem? h (by simp)]
      rfl

end Spells

/-! ### Questions about an index -/

namespace WellFormed

/-- The pair of a name and a descriptor leads to both texts. -/
theorem memberAnswers (hp : p.WellFormed) (i : UInt16) :
    AnswersIf (p.HoldsOneOf [.fieldRef, .methodRef, .interfaceMethodRef, .invokeDynamic] i) (p.memberNameAt i) ∧
      AnswersIf (p.HoldsOneOf [.fieldRef, .methodRef, .interfaceMethodRef, .invokeDynamic] i)
        (p.memberSignatureAt i) := by
  rcases hp i with hnone | ⟨item, hspells⟩
  · have hfails : p.nameAndTypeOf i = failWith (.noEntry i) := by
      rw [nameAndTypeOf, hnone]
      rfl
    obtain ⟨hname, hsignature⟩ := member_of_nameAndTypeOf_fails hfails
    have hnot : ¬p.HoldsOneOf [.fieldRef, .methodRef, .interfaceMethodRef, .invokeDynamic] i :=
      not_holdsOneOf_of_noEntry hnone
    exact ⟨.of_error hnot hname rfl, .of_error hnot hsignature rfl⟩
  · rw [hspells.holdsOneOf_iff]
    cases hmember : item.member? with
    | none =>
        obtain ⟨hname, hsignature⟩ := member_of_nameAndTypeOf_fails (hspells.no_nameAndTypeOf hmember)
        have hnot : item.tag ∉ [ConstantTag.fieldRef, .methodRef, .interfaceMethodRef, .invokeDynamic] := by
          intro htag
          obtain ⟨name, descriptor, hsome⟩ := PoolItem.exists_member? htag
          rw [hmember] at hsome
          cases hsome
        exact ⟨.of_error hnot hname rfl, .of_error hnot hsignature rfl⟩
    | some pair =>
        have htag := PoolItem.tag_of_member? hmember
        exact ⟨.of_ok htag (hspells.memberNameAt hmember), .of_ok htag (hspells.memberSignatureAt hmember)⟩

theorem holderAnswers (hp : p.WellFormed) (i : UInt16) :
    AnswersIf (p.HoldsOneOf [.fieldRef, .methodRef, .interfaceMethodRef] i) (p.holderNameAt i) := by
  rcases hp i with hnone | ⟨item, hspells⟩
  · exact .of_error (not_holdsOneOf_of_noEntry hnone) (by rw [holderNameAt, hnone]; rfl) rfl
  · rw [hspells.holdsOneOf_iff]
    cases hholder : item.holder? with
    | none =>
        refine .of_error (fun htag => ?_) (hspells.no_holderNameAt hholder) rfl
        obtain ⟨holder, hsome⟩ := PoolItem.exists_holder? htag
        rw [hholder] at hsome
        cases hsome
    | some holder => exact .of_ok (PoolItem.tag_of_holder? hholder) (hspells.holderNameAt hholder)

theorem classAnswers (hp : p.WellFormed) (i : UInt16) :
    AnswersIf (p.HoldsOneOf [.classRef] i) (p.classNameAt i) := by
  rcases hp i with hnone | ⟨item, hspells⟩
  · exact .of_error (not_holdsOneOf_of_noEntry hnone) (by rw [classNameAt, hnone]; rfl) rfl
  · rw [hspells.holdsOneOf_iff, List.mem_singleton]
    by_cases hclass : item.tag = .classRef
    · cases item with
      | classRef name => exact .of_ok rfl hspells.classNameAt
      | _ => cases hclass
    · exact .of_error hclass (hspells.no_classNameAt hclass) rfl

/-! ### Constants -/

theorem fails_resultType (descriptor : String) : Fails NoMisreference (Descriptor.resultType descriptor) := by
  intro e he
  have hkind : e.cause.kind = .malformed := Descriptor.kind_of_resultType he
  change e.cause.isMisreference = false
  cases hcause : e.cause with
  | notUtf8 | notNameAndType =>
      rw [hcause] at hkind
      cases hkind
  | _ => rfl

theorem exists_loadedConstantAt (hp : p.WellFormed)
    (h : p.HoldsOneOf [.integer, .float, .long, .double, .string, .classRef] i) :
    ∃ c, p.loadedConstantAt i = .ok c := by
  rcases hp i with hnone | ⟨item, hspells⟩
  · exact absurd h (not_holdsOneOf_of_noEntry hnone)
  · rw [hspells.holdsOneOf_iff] at h
    cases item with
    | integer v => exact ⟨_, hspells.loadedConstantAt (.integer v)⟩
    | float bits => exact ⟨_, hspells.loadedConstantAt (.float bits)⟩
    | long v => exact ⟨_, hspells.loadedConstantAt (.long v)⟩
    | double bits => exact ⟨_, hspells.loadedConstantAt (.double bits)⟩
    | string s => exact ⟨_, hspells.loadedConstantAt (.string s)⟩
    | classRef name => exact ⟨_, hspells.loadedConstantAt (.classRef name)⟩
    | _ => exact absurd h (by simp [PoolItem.tag])

theorem fails_loadedConstantAt (hp : p.WellFormed) (i : UInt16) : Fails NoMisreference (p.loadedConstantAt i) := by
  rcases hp i with hnone | ⟨item, hspells⟩
  · rw [loadedConstantAt, hnone]
    exact .of_cause rfl
  unfold loadedConstantAt
  cases hspells with
  | integer h | float h | long h | double h =>
      rw [entryAt_of_getElem? h nofun]
      exact .pure _
  | string h hname | classRef h hname =>
      rw [entryAt_of_getElem? h nofun]
      simp only [ok_bind, hname.utf8At]
      exact .pure _
  | methodType h hdescriptor =>
      rw [entryAt_of_getElem? h nofun]
      simp only [ok_bind, hdescriptor.utf8At]
      exact .bind (fails_resultType _) fun _ => .pure _
  | methodHandle h =>
      rw [entryAt_of_getElem? h nofun, ok_bind]
      exact .bind (hp.memberAnswers _).1.fails fun _ => .pure _
  | _ h =>
      rw [entryAt_of_getElem? h nofun]
      exact .of_cause rfl

/-- Whatever the slots of a cache stand for and hold, only the pool could make a misreference. -/
theorem fails_cachedConstantAt {s : LinkState} (hp : s.constants.pool.WellFormed) (slot : UInt32) (thread : Thread) :
    Fails Fault.NoMisreference (exec (LinkM.cachedConstantAt slot thread) s).1 := by
  cases hcache : s.constants.cache with
  | none =>
      unfold LinkM.cachedConstantAt
      rw [exec_get_bind, hcache]
      exact .throw ⟨_, rfl, rfl⟩
  | some cache =>
      obtain ⟨answer, t, hexec, hstep⟩ := cachedStep hcache slot thread
      rw [hexec]
      generalize t.constants = left at hstep
      cases hstep with
      | held | made => exact .pure _
      | noSlot hslot =>
          rw [Cache.poolIndexAt_eq] at hslot
          split at hslot
          · cases hslot
          · cases hslot
            exact .throw ⟨_, rfl, rfl⟩
      | unmade _ hmake => exact .throw ⟨_, rfl, hp.fails_loadedConstantAt _ _ hmake⟩
      | clash => exact .throw ⟨_, rfl, rfl⟩

end WellFormed

/-! ### Built pools -/

/-- What is asked about an index is answered as the tag of its entry says, and nothing on the way to an answer refers
to an entry of the wrong sort. -/
structure AnswersByKind (p : Pool) (i : UInt16) : Prop where
  entry : Fails NoMisreference (p.entryAt i)
  tag : Fails NoMisreference (p.tagAt i)
  memberName :
    AnswersIf (p.HoldsOneOf [.fieldRef, .methodRef, .interfaceMethodRef, .invokeDynamic] i) (p.memberNameAt i)
  memberSignature :
    AnswersIf (p.HoldsOneOf [.fieldRef, .methodRef, .interfaceMethodRef, .invokeDynamic] i) (p.memberSignatureAt i)
  holderName : AnswersIf (p.HoldsOneOf [.fieldRef, .methodRef, .interfaceMethodRef] i) (p.holderNameAt i)
  className : AnswersIf (p.HoldsOneOf [.classRef] i) (p.classNameAt i)
  /-- Numbers, strings and classes are always made, whatever the state of the class. -/
  constant : p.HoldsOneOf [.integer, .float, .long, .double, .string, .classRef] i →
    ∀ (thread : Thread) (s : LinkState), ∃ c, (exec (LinkM.constantAt i thread) (s.withPool p)).1 = .ok c
  constantFails : ∀ (thread : Thread) (s : LinkState),
    Fails Fault.NoMisreference (exec (LinkM.constantAt i thread) (s.withPool p)).1

theorem WellFormed.answersByKind (hp : p.WellFormed) (i : UInt16) : p.AnswersByKind i where
  entry := by
    intro e he
    rw [entryAt_eq_error he] at he
    exact Fails.of_cause rfl e he
  tag := by
    rcases hp i with hnone | ⟨item, hspells⟩
    · rw [tagAt, hnone]
      exact .of_cause rfl
    · rw [hspells.tagAt]
      exact .pure _
  memberName := (hp.memberAnswers i).1
  memberSignature := (hp.memberAnswers i).2
  holderName := hp.holderAnswers i
  className := hp.classAnswers i
  constant h thread s := by
    obtain ⟨c, hc⟩ := hp.exists_loadedConstantAt h
    refine ⟨c, ?_⟩
    rw [LinkM.fst_constantAt]
    change (p.loadedConstantAt i).mapError Fault.error = _
    rw [hc]
    rfl
  constantFails thread s := by
    rw [LinkM.fst_constantAt]
    exact (hp.fails_loadedConstantAt i).mapError_noMisreference

/-- A built pool answers by the tags of its entries, however many entries it has, and no request for a constant meets a
reference to an entry of the wrong sort either, whatever the cache stands for. -/
theorem answersByKind_ofItems (items : List PoolItem) :
    (∀ i, (ofItems items).AnswersByKind i) ∧ ∀ (slot : UInt32) (thread : Thread) (s : LinkState),
      Fails Fault.NoMisreference (exec (LinkM.cachedConstantAt slot thread) (s.withPool (ofItems items))).1 := by
  have hp := wellFormed_ofItems items
  refine ⟨hp.answersByKind, fun slot thread s => ?_⟩
  exact WellFormed.fails_cachedConstantAt (s := s.withPool (ofItems items)) hp slot thread

end Pool

end MethodCode
