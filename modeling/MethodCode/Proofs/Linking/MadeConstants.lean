import MethodCode.Proofs.Linking.KindSafety

/-! Constants behind the cache. A constant is made from its pool entry alone, so it does not matter when it is
made, for which thread, and for which of the loads that share its slot. Main statements: a request answers what its
pool entry and its slot make of it (`Pool.requested`); over a cache that holds only such constants as the pool entries
of its slots make, a load answers what its pool entry makes, whether it goes through the cache or not. -/

namespace MethodCode

/-- The constant that the entry at an index makes. -/
def Pool.loadedConstantAt (pool : Pool) (index : UInt16) : Except Error LoadedConstant := do
  match ← pool.entryAt index with
  | .integer v => return .int v
  | .float bits => return .float bits
  | .long v => return .long v
  | .double bits => return .double bits
  | .string text => return .string (← pool.utf8At text).text
  | .classRef name => return .classRef (← pool.utf8At name)
  | .methodType descriptor =>
    let descriptor ← pool.utf8At descriptor
    let _ ← Descriptor.resultType descriptor.text
    return .methodType descriptor
  | .methodHandle kind reference => return .methodHandle kind (← pool.memberNameAt reference)
  | other => failWith (.notLoadable index other.tag)

/-! ### Making a constant -/

/-- A step answers the same from every state. -/
def LinkM.Gives {α : Type} (x : LinkM α) (answer : Except Error α) : Prop :=
  ∀ s, (exec x s).1 = answer.mapError .error

namespace LinkM.Gives

variable {α β : Type}

theorem pure (a : α) : Gives (Pure.pure a) (.ok a) := fun _ => rfl

theorem throw (cause : Cause) : Gives (MonadExcept.throw (.of cause) : LinkM α) (failWith cause) := fun _ => rfl

/-- A step that only polls or reports does not matter. -/
theorem skip {x : LinkM Unit} {f : Unit → LinkM α} {answer : Except Error α} (hx : ∀ s, (exec x s).1 = .ok ())
    (hf : Gives (f ()) answer) : Gives (x >>= f) answer := by
  intro s
  have hfirst := hx s
  rw [exec_bind]
  cases hexec : exec x s with
  | mk found t =>
      rw [hexec] at hfirst
      obtain rfl : found = .ok () := hfirst
      exact hf t

theorem bind {x : LinkM β} {f : β → LinkM α} {first : Except Error β} {next : β → Except Error α}
    (hx : Gives x first) (hf : ∀ b, Gives (f b) (next b)) : Gives (x >>= f) (first >>= next) := by
  intro s
  have hfirst := hx s
  rw [exec_bind]
  cases hexec : exec x s with
  | mk found t =>
      rw [hexec] at hfirst
      cases first with
      | error e =>
          obtain rfl : found = .error (.error e) := hfirst
          rfl
      | ok b =>
          obtain rfl : found = .ok b := hfirst
          exact hf b t

theorem lift (first : Except Error α) : Gives (liftM first) first := fun _ => rfl

end LinkM.Gives

namespace LinkM

theorem fst_constantAt (p : UInt16) (thread : Thread) (s : LinkState) :
    (exec (constantAt p thread) s).1 = (s.constants.pool.loadedConstantAt p).mapError .error := by
  have hpool : exec pool s = (.ok s.constants.pool, s) := rfl
  have hpoll {α : Type} {f : Unit → LinkM α} {answer : Except Error α} (hf : Gives (f ()) answer) :
      Gives (poll thread >>= f) answer :=
    .skip (fun _ => rfl) hf
  have hreport (constant : LoadedConstant) : Gives (do
      report (.constantResolved thread.name p constant)
      return constant) (.ok constant) :=
    .skip (fun _ => rfl) (.pure constant)
  unfold constantAt Pool.loadedConstantAt
  rw [exec_bind, hpool]
  refine Gives.bind (.lift _) (fun entry => ?_) s
  cases entry with
  | integer | float | long | double => exact hreport _
  | string => exact .bind (.lift _) fun _ => hreport _
  | classRef => exact hpoll (.bind (.lift _) fun _ => hreport _)
  | methodType =>
      exact .bind (.lift _) fun _ => .bind (.lift _) fun _ => hpoll (hreport _)
  | methodHandle => exact hpoll (.bind (.lift _) fun _ => hreport _)
  | _ => exact .throw _

end LinkM

/-- What can be made a constant is for constants, if it is for anything. -/
theorem Pool.eq_constant_of_kindAt? {pool : Pool} {p : UInt16} {c : LoadedConstant} {kind : ResolvedKind}
    (hmake : pool.loadedConstantAt p = .ok c) (hkind : pool.kindAt? p = some kind) : kind = .constant := by
  have hanswer := LinkM.fst_constantAt p .detached ⟨⟨#[]⟩, ⟨pool, none⟩, 0, []⟩
  rw [hmake] at hanswer
  obtain ⟨tag, htag, hload⟩ := LinkM.loadable_of_constantAt (Prod.ext hanswer rfl)
  have hconstant := kindAt?_of_loadable htag hload (by rw [hkind]; rfl)
  exact Option.some.inj (hkind.symm.trans hconstant)

/-! ### The constants in a cache -/

/-- The class is linked, and every constant in its cache is the one that the pool entry of its slot makes. -/
def Constants.HoldsMade (k : Constants) : Prop :=
  ∃ cache, k.cache = some cache ∧ ∀ i p c, cache.poolIndexAt i = .ok p →
    cache.resolvedAt i = some (.constant c) → k.pool.loadedConstantAt p = .ok c

/-- A step from one state to the other brings in no constant that its pool entry does not make. -/
def LinkState.KeepsMade (s t : LinkState) : Prop := s.constants.HoldsMade → t.constants.HoldsMade

variable {s : LinkState} {k : Constants} {cache : Cache} {i : UInt32} {p : UInt16}

/-! ### Requests -/

/-- What a request for the constant behind a slot answers and makes of the constants of a class. -/
inductive CachedStep (s : LinkState) (cache : Cache) (i : UInt32) :
    Except Fault LoadedConstant → Constants → Prop where
  | held {c : LoadedConstant} (hheld : cache.resolvedAt i = some (.constant c)) :
      CachedStep s cache i (.ok c) s.constants
  | noSlot {e : Error} (hslot : cache.poolIndexAt i = .error e) :
      CachedStep s cache i (.error (.error e)) s.constants
  | unmade {p : UInt16} {e : Error} (hslot : cache.poolIndexAt i = .ok p)
      (hmake : s.constants.pool.loadedConstantAt p = .error e) :
      CachedStep s cache i (.error (.error e)) s.constants
  | made {p : UInt16} {c : LoadedConstant} (hslot : cache.poolIndexAt i = .ok p)
      (hmake : s.constants.pool.loadedConstantAt p = .ok c) (hempty : cache.resolvedAt i = none) :
      CachedStep s cache i (.ok c) { s.constants with cache := some (cache.offer i (.constant c)) }
  | clash {p : UInt16} {c : LoadedConstant} {other : Resolved} (hslot : cache.poolIndexAt i = .ok p)
      (hmake : s.constants.pool.loadedConstantAt p = .ok c) (hheld : cache.resolvedAt i = some other)
      (hkind : other.kind ≠ .constant) :
      CachedStep s cache i (.error (.of (.wrongEntryKind i other .constant)))
        { s.constants with cache := some (cache.offer i (.constant c)) }

theorem cachedStep (hcache : s.constants.cache = some cache) (i : UInt32) (thread : Thread) :
    ∃ answer t, exec (LinkM.cachedConstantAt i thread) s = (answer, t) ∧
      CachedStep s cache i answer t.constants := by
  unfold LinkM.cachedConstantAt
  rw [exec_get_bind, hcache]
  dsimp only
  split
  · rename_i c hheld
    exact ⟨_, _, rfl, .held hheld⟩
  rename_i hnone
  rw [exec_bind, exec_liftM_error]
  cases hslot : cache.poolIndexAt i with
  | error e => exact ⟨_, _, rfl, .noSlot hslot⟩
  | ok p =>
      have hanswer := LinkM.fst_constantAt p thread s
      have hsame := LinkM.keeps_constantAt p thread s
      dsimp only [mapError_ok]
      rw [exec_bind]
      cases hexec : exec (LinkM.constantAt p thread) s with
      | mk found t =>
          rw [hexec] at hanswer hsame
          cases hmake : s.constants.pool.loadedConstantAt p with
          | error e =>
              obtain rfl : found = .error (.error e) := by rw [hmake] at hanswer; exact hanswer
              exact ⟨_, _, rfl, hsame.2 ▸ .unmade hslot hmake⟩
          | ok c =>
              obtain rfl : found = .ok c := by rw [hmake] at hanswer; exact hanswer
              dsimp only
              rw [exec_bind, LinkM.exec_publish (hsame.2 ▸ hcache) hslot]
              cases hheld : cache.resolvedAt i with
              | none =>
                  refine ⟨_, _, rfl, ?_⟩
                  rw [hsame.2]
                  exact .made hslot hmake hheld
              | some other =>
                  cases other with
                  | constant c' => exact absurd hheld (hnone c')
                  | field | method | callSite =>
                      refine ⟨_, _, rfl, ?_⟩
                      rw [hsame.2]
                      exact .clash hslot hmake hheld nofun

/-! ### Answers -/

/-- What a request for the constant of a pool entry answers, if this is what slot `i` holds. -/
def Pool.requested (pool : Pool) (p : UInt16) (i : UInt32) : Option Resolved → Except Error LoadedConstant
  | some (.constant c) => .ok c
  | none => pool.loadedConstantAt p
  | some other => do
    let _ ← pool.loadedConstantAt p
    failWith (.wrongEntryKind i other .constant)

namespace Pool

variable {pool : Pool} {e : Error} {c : LoadedConstant} {other : Resolved}

theorem requested_of_unmade {held : Option Resolved} (hheld : ∀ c, held ≠ some (.constant c))
    (hmake : pool.loadedConstantAt p = .error e) : pool.requested p i held = .error e := by
  cases held with
  | none => exact hmake
  | some other =>
      cases other with
      | constant c => exact absurd rfl (hheld c)
      | field | method | callSite =>
          change (pool.loadedConstantAt p >>= _) = _
          rw [hmake, error_bind]

/-- A slot that holds nothing but what its pool entry makes does not matter. -/
theorem requested_of_made {held : Option Resolved}
    (hmade : ∀ c, held = some (.constant c) → pool.loadedConstantAt p = .ok c)
    (hkind : ∀ c other, pool.loadedConstantAt p = .ok c → held = some other → other.kind = .constant) :
    pool.requested p i held = pool.loadedConstantAt p := by
  cases hmake : pool.loadedConstantAt p with
  | error e =>
      refine requested_of_unmade (fun c hheld => ?_) hmake
      rw [hmade c hheld] at hmake
      cases hmake
  | ok c =>
      cases held with
      | none => exact hmake
      | some other =>
          cases other with
          | constant c' => exact (hmade c' rfl).symm.trans hmake
          | field | method | callSite => cases hkind c _ hmake rfl

theorem requested_of_clash (hkind : other.kind ≠ .constant) (hmake : pool.loadedConstantAt p = .ok c) :
    pool.requested p i (some other) = failWith (.wrongEntryKind i other .constant) := by
  cases other with
  | constant => exact absurd rfl hkind
  | field | method | callSite =>
      change (pool.loadedConstantAt p >>= _) = _
      rw [hmake, ok_bind]

end Pool

section Answer

variable {thread : Thread}

theorem exec_cachedConstantAt_of_held {c : LoadedConstant} (hcache : s.constants.cache = some cache)
    (hheld : cache.resolvedAt i = some (.constant c)) (thread : Thread) :
    exec (LinkM.cachedConstantAt i thread) s = (.ok c, s) := by
  unfold LinkM.cachedConstantAt
  rw [exec_get_bind, hcache]
  dsimp only
  rw [hheld]
  rfl

/-- A request answers what its pool entry and its slot make of it. -/
theorem fst_cachedConstantAt_eq_requested (hcache : s.constants.cache = some cache)
    (hslot : cache.poolIndexAt i = .ok p) (thread : Thread) :
    (exec (LinkM.cachedConstantAt i thread) s).1 =
      (s.constants.pool.requested p i (cache.resolvedAt i)).mapError .error := by
  obtain ⟨answer, t, hexec, hstep⟩ := cachedStep hcache i thread
  have hsame {q : UInt16} (hq : cache.poolIndexAt i = .ok q) : q = p := Except.ok.inj (hq.symm.trans hslot)
  by_cases hmade : ∃ c, cache.resolvedAt i = some (.constant c)
  · obtain ⟨c, hheld⟩ := hmade
    rw [exec_cachedConstantAt_of_held hcache hheld, hheld]
    rfl
  rw [hexec]
  generalize t.constants = left at hstep
  cases hstep with
  | held hheld => exact absurd ⟨_, hheld⟩ hmade
  | noSlot hnone =>
      rw [hslot] at hnone
      cases hnone
  | unmade hq hmake =>
      obtain rfl := hsame hq
      rw [Pool.requested_of_unmade (not_exists.mp hmade) hmake]
      rfl
  | made hq hmake hempty =>
      obtain rfl := hsame hq
      rw [hempty, Pool.requested, hmake]
      rfl
  | clash hq hmake hheld hkind =>
      obtain rfl := hsame hq
      rw [hheld, Pool.requested_of_clash hkind hmake]
      rfl

/-- Whatever the slot holds by now, the answer is what its pool entry makes. -/
theorem fst_cachedConstantAt (hfits : s.constants.Fits k) (hmade : s.constants.HoldsMade)
    (hcache : s.constants.cache = some cache) (hslot : cache.poolIndexAt i = .ok p) :
    (exec (LinkM.cachedConstantAt i thread) s).1 = (s.constants.pool.loadedConstantAt p).mapError .error := by
  obtain ⟨known, hknown, hmade⟩ := hmade
  obtain rfl : known = cache := Option.some.inj (hknown.symm.trans hcache)
  rw [fst_cachedConstantAt_eq_requested hcache hslot, Pool.requested_of_made (fun c => hmade i p c hslot)]
  -- an entry that makes a constant has its slot to constants
  intro c other hmake hheld
  exact Pool.eq_constant_of_kindAt? hmake (hfits.entries.kind_eq hcache hslot hheld)

theorem fst_within {α : Type} {x : LinkM α} {answer : Except Error α} (context : Context)
    (h : (exec x s).1 = answer.mapError .error) :
    (exec (x.within context) s).1 = (inContext context answer).mapError .error := by
  change (exec (tryCatch x _) s).1 = _
  rw [exec_tryCatch]
  cases hexec : exec x s with
  | mk found t =>
      rw [hexec] at h
      obtain rfl : found = answer.mapError .error := h
      cases answer <;> rfl

/-- A load answers what the pool entry that it refers to makes. Only one that goes through the cache has to find
the cache in order. -/
theorem LoadConstant.fst_resolve {body : MethodBody} {mode : Mode} {bci : Nat}
    (hconstants : body.constants = s.constants) (hindex : (body.loadAt mode bci).poolIndex = .ok p)
    (hcached : (body.loadAt mode bci).hasCacheIndex = .ok false ∨ s.constants.Fits k ∧ s.constants.HoldsMade) :
    (exec ((body.loadAt mode bci).resolve thread) s).1 =
      (inContext (.site body.method bci) (s.constants.pool.loadedConstantAt p)).mapError .error := by
  obtain ⟨raw, hraw, hindex⟩ := bind_eq_ok.mp hindex
  obtain ⟨cached, hkind, hindex⟩ := bind_eq_ok.mp hindex
  have hbody : (body.loadAt mode bci).boundBody = .ok body := rfl
  unfold resolve
  rw [hbody, hraw, hkind]
  cases cached with
  | false =>
      obtain rfl := Except.ok.inj hindex
      exact fst_within _ (LinkM.fst_constantAt raw thread s)
  | true =>
      rw [hkind] at hcached
      obtain ⟨hfits, hmade⟩ := hcached.resolve_left nofun
      obtain ⟨cache, hcache, -⟩ := id hmade
      simp only [hbody, ok_bind, hconstants, hcache, Bool.not_true, Bool.false_eq_true, if_false] at hindex
      have hslot : cache.poolIndexAt raw.toUInt32 = .ok p := by
        cases hread : cache.poolIndexAt raw.toUInt32 with
        | error e =>
            rw [hread] at hindex
            cases hindex
        | ok q =>
            rw [hread] at hindex
            exact congrArg Except.ok (Except.ok.inj hindex)
      exact fst_within _ (fst_cachedConstantAt hfits hmade hcache hslot)

end Answer

end MethodCode
