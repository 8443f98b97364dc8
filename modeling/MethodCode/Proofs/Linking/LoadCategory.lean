import MethodCode.Proofs.Linking.LoadMeaning

/-! The category of a load and the constant that it pushes. The category is read off the tag of a pool entry, and the
constant is made from the entry or found behind a slot, so the two need not have anything to do with each other. They
do because a slot only ever holds the constant that its own pool entry makes. Main statement:
`load_category_agrees`, for a load in any code of a class, whatever views have been called on. -/

namespace MethodCode

/-! ### Pool entries -/

/-- An entry that makes a constant has a tag of the category of the constant. -/
theorem Pool.exists_tag_of_made {pool : Pool} {p : UInt16} {c : LoadedConstant}
    (h : pool.loadedConstantAt p = .ok c) :
    ∃ tag, pool.tagAt p = .ok tag ∧ tag.valueType = c.valueType ∧ c.valueType ≠ .illegal := by
  obtain ⟨entry, hentry, h⟩ := bind_eq_ok.mp h
  have htag : pool.tagAt p = .ok entry.tag := by
    rw [tagAt, hentry]
    rfl
  refine ⟨entry.tag, htag, ?_⟩
  cases entry with
  | integer | float | long | double =>
      obtain rfl := Except.ok.inj h
      exact ⟨rfl, by simp [LoadedConstant.valueType]⟩
  | string | classRef | methodHandle =>
      obtain ⟨text, -, h⟩ := bind_eq_ok.mp h
      obtain rfl := Except.ok.inj h
      exact ⟨rfl, by simp [LoadedConstant.valueType]⟩
  | methodType =>
      obtain ⟨descriptor, -, h⟩ := bind_eq_ok.mp h
      obtain ⟨_, -, h⟩ := bind_eq_ok.mp h
      obtain rfl := Except.ok.inj h
      exact ⟨rfl, by simp [LoadedConstant.valueType]⟩
  | _ => cases h

/-! ### The two routes of a load -/

/-- What the pool index of a load has to do with the answer of the load. -/
inductive LoadConstant.Answers (pool : Pool) : Except Fault UInt16 → Except Fault LoadedConstant → Prop where
  /-- The operand cannot be read. -/
  | unread (f : Fault) : Answers pool (.error f) (.error f)
  | noSlot (e e' : Error) : Answers pool (.error (.error e)) (.error (.error e'))
  /-- The entry makes no constant, or the slot holds something else than constants. -/
  | refused (p : UInt16) (e : Error) : Answers pool (.ok p) (.error (.error e))
  | made {p : UInt16} {c : LoadedConstant} (hmake : pool.loadedConstantAt p = .ok c) :
      Answers pool (.ok p) (.ok c)

section Routes

variable {body : MethodBody} {mode : Mode} {bci : Nat} {s : LinkState} {cache : Cache}

theorem fst_within_of_ok {α : Type} {x : LinkM α} {a : α} (context : Context) (h : (exec x s).1 = .ok a) :
    (exec (x.within context) s).1 = .ok a := by
  have h : (exec x s).1 = (Except.ok a : Except Error α).mapError .error := h
  exact fst_within context h

theorem fst_within_of_error {α : Type} {x : LinkM α} {e : Error} (context : Context)
    (h : (exec x s).1 = .error (.error e)) : (exec (x.within context) s).1 = .error (.error (e.within context)) := by
  have h : (exec x s).1 = (Except.error e : Except Error α).mapError .error := h
  exact fst_within context h

/-- A slot that holds something stands for a pool entry. -/
theorem Cache.exists_poolIndex_of_held {i : UInt32} {held : Resolved} (h : cache.resolvedAt i = some held) :
    ∃ p, cache.poolIndexAt i = .ok p := by
  cases hslot : cache.slots[i.toNat]? with
  | none =>
      rw [resolvedAt, hslot] at h
      cases h
  | some slot => exact ⟨slot.poolIndex, by rw [poolIndexAt, slotAt_of_slot hslot]; rfl⟩

/-- What a request for a slot of a cache in order answers. -/
theorem answers_cachedConstantAt (hmade : s.constants.HoldsMade) (hcache : s.constants.cache = some cache)
    (i : UInt32) (context : Context) (thread : Thread) :
    LoadConstant.Answers s.constants.pool ((cache.poolIndexAt i).mapError .error)
      (exec ((LinkM.cachedConstantAt i thread).within context) s).1 := by
  obtain ⟨known, hknown, hmade⟩ := hmade
  obtain rfl : known = cache := Option.some.inj (hknown.symm.trans hcache)
  obtain ⟨answer, t, hexec, hstep⟩ := cachedStep hcache i thread
  have hok {c : LoadedConstant} (hanswer : answer = .ok c) :
      (exec ((LinkM.cachedConstantAt i thread).within context) s).1 = .ok c :=
    fst_within_of_ok context (by rw [hexec, hanswer])
  have herror {e : Error} (hanswer : answer = .error (.error e)) :
      (exec ((LinkM.cachedConstantAt i thread).within context) s).1 = .error (.error (e.within context)) :=
    fst_within_of_error context (by rw [hexec, hanswer])
  generalize t.constants = left at hstep
  cases hstep with
  | held hheld =>
      obtain ⟨p, hslot⟩ := known.exists_poolIndex_of_held hheld
      rw [hok rfl, hslot]
      exact .made (hmade i p _ hslot hheld)
  | noSlot hslot =>
      rw [herror rfl, hslot]
      exact .noSlot _ _
  | unmade hslot =>
      rw [herror rfl, hslot]
      exact .refused _ _
  | made hslot hmake =>
      rw [hok rfl, hslot]
      exact .made hmake
  | clash hslot =>
      rw [herror rfl, hslot]
      exact .refused _ _

theorem answers_constantAt (p : UInt16) (context : Context) (thread : Thread) :
    LoadConstant.Answers s.constants.pool (.ok p) (exec ((LinkM.constantAt p thread).within context) s).1 := by
  have hanswer := LinkM.fst_constantAt p thread s
  cases hmake : s.constants.pool.loadedConstantAt p with
  | ok c =>
      rw [hmake] at hanswer
      rw [fst_within_of_ok context hanswer]
      exact .made hmake
  | error e =>
      rw [hmake] at hanswer
      rw [fst_within_of_error context hanswer]
      exact .refused p _

/-- A load goes for its constant where its pool index comes from. -/
theorem LoadConstant.answers_resolve (hconstants : body.constants = s.constants) (hmade : s.constants.HoldsMade)
    (mode : Mode) (bci : Nat) (thread : Thread) :
    Answers s.constants.pool (body.loadAt mode bci).poolIndex
      (exec ((body.loadAt mode bci).resolve thread) s).1 := by
  have hbody : (body.loadAt mode bci).boundBody = .ok body := rfl
  unfold poolIndex resolve
  rw [hbody]
  cases hraw : (body.loadAt mode bci).rawIndex with
  | error f => exact .unread f
  | ok raw =>
      cases hcached : (body.loadAt mode bci).hasCacheIndex with
      | error f => exact .unread f
      | ok cached =>
          cases cached with
          | false => exact answers_constantAt raw _ thread
          | true =>
              obtain ⟨cache, hcache, -⟩ := id hmade
              simp only [ok_bind, hconstants, hcache, Bool.not_true, Bool.false_eq_true, if_false]
              exact answers_cachedConstantAt hmade hcache raw.toUInt32 _ thread

end Routes

/-! ### Category and constant -/

/-- A category and an answer go together: a constant is of the category, and where there is no category there is no
constant. -/
structure LoadConstant.Agrees (category : Except Fault ValueType) (answer : Except Fault LoadedConstant) : Prop where
  category_of_answer : ∀ c, answer = .ok c → category = .ok c.valueType
  error_of_error : ∀ e, category = .error (.error e) → ∃ e', answer = .error (.error e')

/-- The category of a load is that of the tag at its pool index. -/
theorem LoadConstant.resultType_of_tag {body : MethodBody} {mode : Mode} {bci : Nat} {p : UInt16} {tag : ConstantTag}
    (hindex : (body.loadAt mode bci).poolIndex = .ok p) (htag : body.constants.pool.tagAt p = .ok tag)
    (hlegal : tag.valueType ≠ .illegal) : (body.loadAt mode bci).resultType = .ok tag.valueType := by
  have hbody : (body.loadAt mode bci).boundBody = .ok body := rfl
  unfold resultType
  have hlift : (liftM (Except.ok tag : Except Error ConstantTag) : Except Fault ConstantTag) = .ok tag := rfl
  rw [hbody, ok_bind, hindex, ok_bind, htag, hlift, ok_bind]
  cases hcategory : tag.valueType with
  | illegal => exact absurd hcategory hlegal
  | _ => rfl

theorem LoadConstant.resultType_of_error {body : MethodBody} {mode : Mode} {bci : Nat} {f : Fault}
    (hindex : (body.loadAt mode bci).poolIndex = .error f) : (body.loadAt mode bci).resultType = .error f := by
  have hbody : (body.loadAt mode bci).boundBody = .ok body := rfl
  unfold resultType
  rw [hbody, ok_bind, hindex]
  rfl

theorem LoadConstant.Answers.agrees {body : MethodBody} {mode : Mode} {bci : Nat}
    {answer : Except Fault LoadedConstant}
    (h : Answers body.constants.pool (body.loadAt mode bci).poolIndex answer) :
    Agrees (body.loadAt mode bci).resultType answer := by
  generalize hindex : (body.loadAt mode bci).poolIndex = index at h
  cases h with
  | unread f =>
      rw [resultType_of_error hindex]
      refine ⟨nofun, ?_⟩
      rintro e ⟨⟩
      exact ⟨e, rfl⟩
  | noSlot e e' => exact ⟨nofun, fun _ _ => ⟨e', rfl⟩⟩
  | refused p e => exact ⟨nofun, fun _ _ => ⟨e, rfl⟩⟩
  | made hmake =>
      obtain ⟨tag, htag, hcategory, hlegal⟩ := Pool.exists_tag_of_made hmake
      rw [resultType_of_tag hindex htag (hcategory ▸ hlegal), hcategory]
      refine ⟨?_, nofun⟩
      rintro _ ⟨⟩
      rfl

/-- In a class whose cache has held nothing at first, whatever views have been called on: a constant that a load
pushes is of the category that the load tells, and a load that tells no category pushes no constant. This is so for
every load in every code that the class has, before and after quickening. -/
theorem load_category_agrees {c : LinkedClass} {pool : Pool} {b : Allocator} {tag : UInt32}
    (hconstants : c.constants = ⟨pool, some (b.cache tag)⟩) (calls : List ViewCall) {code : Code} {mode : Mode}
    {method : Method} {bci : Nat} {l : LoadConstant}
    (hl : LoadConstant.decode mode (((c.runAll calls).state code).body method) bci = .ok l) (thread : Thread) :
    LoadConstant.Agrees l.resultType (exec (l.resolve thread) ((c.runAll calls).state code)).1 := by
  obtain rfl := LoadConstant.eq_of_decode hl
  have hmade : (c.runAll calls).constants.HoldsMade :=
    Constants.holdsMade_iff.mpr
      (LinkedClass.holds_runAll suitsLookups_made (hconstants ▸ b.holds_cache pool tag) calls)
  exact (LoadConstant.answers_resolve rfl hmade mode bci thread).agrees

/-- The state of the sample method once its method type has been made. -/
def sampleMade : LinkState :=
  (RewrittenInTurn.sampleLinked.runAll [RewrittenInTurn.sampleMaking]).state (rewrite sampleCode samplePool .empty).code

/-- The load of the sample tells the category of objects, and answers the method type that is in its slot by then. -/
theorem load_category_agrees_sample :
    ∃ l, LoadConstant.decode .checked (sampleMade.body RewrittenInTurn.sampleMethod) 4 = .ok l ∧
      (exec (l.resolve .detached) sampleMade).1 = .ok (.methodType (.ofString "I")) ∧
      l.resultType = .ok .object := by
  obtain ⟨hdecodes, hanswer⟩ :
      (LoadConstant.decode .checked (sampleMade.body RewrittenInTurn.sampleMethod) 4).isOk = true ∧
        (exec (((sampleMade.body RewrittenInTurn.sampleMethod).loadAt .checked 4).resolve .detached) sampleMade).1 =
          .ok (.methodType (.ofString "I")) := by
    decide +kernel
  cases hl : LoadConstant.decode .checked (sampleMade.body RewrittenInTurn.sampleMethod) 4 with
  | error f =>
      rw [hl] at hdecodes
      cases hdecodes
  | ok l =>
      obtain rfl := LoadConstant.eq_of_decode hl
      have hagrees := load_category_agrees rfl [RewrittenInTurn.sampleMaking] hl .detached
      exact ⟨_, rfl, hanswer, hagrees.category_of_answer _ hanswer⟩

end MethodCode
