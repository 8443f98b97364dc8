import MethodCode.Proofs.Linking.AnyResolver
import MethodCode.Proofs.Linking.MadeConstants

/-! Constants are made once. What a request for the constant behind a slot answers is a function of the pool entry
and of what the slot holds (`Pool.requested`), and no call changes the one or lets go of the other. Main statement:
after any calls, a slot that holds a constant answers every request with it, without a poll and without a change; a
request that is answered leaves its answer in the slot, so nothing is made for it again; as long as it holds none, a
request polls as often as making the constant does, and a request that has failed fails in the same way again, unless
something is published to the slot in between. -/

namespace MethodCode

open LinkState (SameClass SameReferences)

variable {α : Type} {s t : LinkState} {cache d : Cache} {i : UInt32} {p : UInt16} {thread : Thread}

/-! ### What the calls leave alone -/

instance : IsPreorder LinkState SameReferences where
  refl := SameReferences.refl
  trans _ _ _ h h' := ⟨h'.1.trans h.1, h'.2.trans h.2⟩

theorem Keeps.sameReferences {x : LinkM α} (h : Keeps SameClass x) : Keeps SameReferences x :=
  fun s => (h s).sameReferences

theorem keepsReferences_publish (i : UInt32) (outcome : Resolved) :
    Keeps SameReferences (LinkM.publish i outcome) := by
  intro s
  cases hcache : s.constants.cache with
  | none =>
      rw [LinkM.exec_publish_of_unlinked hcache]
      exact .refl s
  | some cache =>
      cases hslot : cache.poolIndexAt i with
      | error e =>
          rw [LinkM.exec_publish_of_error hcache hslot]
          exact .refl s
      | ok p =>
          rw [LinkM.exec_publish hcache hslot]
          exact ⟨rfl, Constants.references_offer hcache i outcome⟩

/-- What is taken of the answer changes nothing more. -/
theorem keepsReferences_publish_bind (i : UInt32) (outcome : Resolved) {take : Resolved → LinkM α}
    (htake : ∀ r, (∃ a, take r = pure a) ∨ ∃ f, take r = throw f) :
    Keeps SameReferences (LinkM.publish i outcome >>= take) := by
  refine .bind (keepsReferences_publish i outcome) fun r => ?_
  obtain ⟨a, ha⟩ | ⟨f, hf⟩ := htake r
  · rw [ha]
    exact .pure a
  · rw [hf]
    exact .throw f

/-- Every way of linking polls and fetches the pool first. -/
theorem keepsReferences_link {f : Pool → LinkM α} (thread : Thread) (hf : ∀ pool, Keeps SameReferences (f pool)) :
    Keeps SameReferences (do LinkM.poll thread; f (← LinkM.pool)) :=
  .bind (LinkM.keeps_poll thread).sameReferences fun _ => .bind LinkM.keeps_pool.sameReferences hf

theorem keepsReferences_linkMethod (r : Registry) (pool : Pool) (site : SymbolicRef) (event : Method → Event) :
    Keeps SameReferences (do
      let m ← r.lookupMethod pool site.poolIndex
      LinkM.report (event m)
      Registry.publishMethod site.cacheIndex m) := by
  refine .bind (.liftError _) fun m => .bind (LinkM.keeps_report _).sameReferences fun _ => ?_
  refine keepsReferences_publish_bind _ _ fun r => ?_
  cases r with
  | method m => exact .inl ⟨m, rfl⟩
  | _ => exact .inr ⟨_, rfl⟩

theorem keepsReferences_cachedConstantAt (i : UInt32) (thread : Thread) :
    Keeps SameReferences (LinkM.cachedConstantAt i thread) := by
  refine .bind .get fun s => ?_
  split
  · exact .throw _
  split
  · exact .pure _
  refine .bind (.liftError _) fun p => .bind (LinkM.keeps_constantAt p thread).sameReferences fun c => ?_
  refine keepsReferences_publish_bind _ _ fun r => ?_
  cases r with
  | constant c => exact .inl ⟨c, rfl⟩
  | _ => exact .inr ⟨_, rfl⟩

namespace CacheCall

theorem keepsReferences (call : CacheCall) (s : LinkState) : s.SameReferences (exec call.run s).2 := by
  cases call with
  | publish i outcome => exact keepsReferences_publish i outcome s
  | resolveMethod r site thread =>
      rw [run, exec_map]
      refine keepsReferences_link thread (fun pool => .bind (.liftError _) fun holder => ?_) s
      split
      · exact .throw _
      · exact keepsReferences_linkMethod r pool site _
  | resolveInterfaceMethod r site thread =>
      rw [run, exec_map]
      refine keepsReferences_link thread (fun pool => .bind (.liftError _) fun holder => ?_) s
      split
      · exact .throw _
      · exact keepsReferences_linkMethod r pool site _
  | resolveCallSite r site thread =>
      rw [run, exec_map]
      refine keepsReferences_link thread (fun pool => .bind (.liftError _) fun name => ?_) s
      split
      · exact .throw _
      refine .bind (LinkM.keeps_report _).sameReferences fun _ => keepsReferences_publish_bind _ _ fun r => ?_
      cases r with
      | callSite m => exact .inl ⟨m, rfl⟩
      | _ => exact .inr ⟨_, rfl⟩
  | resolveField r site thread =>
      rw [run, exec_map]
      refine keepsReferences_link thread (fun pool => .bind (.liftError _) fun holder => .bind (.liftError _)
        fun name => ?_) s
      split
      · exact .throw _
      refine keepsReferences_publish_bind _ _ fun r => ?_
      cases r with
      | field f => exact .inl ⟨f, rfl⟩
      | _ => exact .inr ⟨_, rfl⟩
  | cachedConstantAt i thread =>
      rw [run, exec_map]
      exact keepsReferences_cachedConstantAt i thread s

theorem runAll_references (calls : List CacheCall) (s : LinkState) : s.SameReferences (runAll calls s).2 := by
  induction calls generalizing s with
  | nil => exact .refl s
  | cons call calls ih => exact trans_of SameReferences (call.keepsReferences s) (ih (exec call.run s).2)

/-- What comes into a slot is the answer of a call. -/
theorem runAll_published (hcache : s.constants.cache = some cache) (calls : List CacheCall)
    (hd : (runAll calls s).2.constants.cache = some d) (hempty : cache.resolvedAt i = none) {v : Resolved}
    (hheld : d.resolvedAt i = some v) : (i, .ok v) ∈ (runAll calls s).1 := by
  induction calls generalizing s cache with
  | nil =>
      obtain rfl : cache = d := Option.some.inj (hcache.symm.trans hd)
      rw [hempty] at hheld
      cases hheld
  | cons call calls ih =>
      obtain ⟨m, hm, hsettled⟩ := call.settled hcache
      cases hmiddle : m.resolvedAt i with
      | none => exact List.mem_cons_of_mem _ (ih hm hd hmiddle)
      | some w =>
          -- the slot was filled by this call, so it is the slot that the call is about
          obtain ⟨d', hd', hkept, -⟩ := runAll_kept hm calls
          obtain rfl : d' = d := Option.some.inj (hd'.symm.trans hd)
          obtain rfl : w = v := Option.some.inj ((hkept i w hmiddle).symm.trans hheld)
          have hchanged : m.resolvedAt i ≠ cache.resolvedAt i := by
            rw [hmiddle, hempty]
            exact nofun
          cases hanswer : (exec call.run s).1 with
          | error f => exact absurd (by rw [hsettled.failed f hanswer]) hchanged
          | ok answer =>
              have hslot : i = call.slot := by
                by_contra hne
                have hother := hsettled.others i.toNat (mt UInt32.toNat_inj.mp hne)
                exact hchanged (by rw [Cache.resolvedAt, hother, Cache.resolvedAt])
              have hown := hsettled.held answer hanswer
              rw [← hslot, hmiddle] at hown
              refine List.mem_cons.mpr (.inl (Prod.ext hslot ?_))
              exact (congrArg Except.ok (Option.some.inj hown)).trans hanswer.symm

end CacheCall

/-! ### Requests -/

section Request

variable (hcache : s.constants.cache = some cache) (hslot : cache.poolIndexAt i = .ok p)

include hcache hslot

/-- A request that does not find a constant in its slot polls to make it, and does not poll to publish it. -/
theorem polls_cachedConstantAt (hunmade : ∀ c, cache.resolvedAt i ≠ some (.constant c)) (thread : Thread) :
    (exec (LinkM.cachedConstantAt i thread) s).2.polls = (exec (LinkM.constantAt p thread) s).2.polls := by
  unfold LinkM.cachedConstantAt
  rw [exec_get_bind, hcache]
  dsimp only
  split
  · rename_i c hheld
    exact absurd hheld (hunmade c)
  have hsame := LinkM.keeps_constantAt p thread s
  rw [exec_bind, exec_liftM_error, hslot, mapError_ok]
  dsimp only
  rw [exec_bind]
  rcases hexec : exec (LinkM.constantAt p thread) s with ⟨f | c, t⟩
  · rfl
  rw [hexec] at hsame
  dsimp only
  rw [exec_bind, LinkM.exec_publish (hsame.2 ▸ hcache) hslot]
  dsimp only
  split <;> rfl

end Request

namespace CacheCall

variable {c : LoadedConstant} (hcache : s.constants.cache = some cache)

include hcache

/-- Once a slot holds a constant, every request for it is answered with the constant and changes nothing. -/
theorem answered_of_held (hheld : cache.resolvedAt i = some (.constant c)) (later : List CacheCall)
    (thread : Thread) :
    exec (LinkM.cachedConstantAt i thread) (runAll later s).2 = (.ok c, (runAll later s).2) := by
  obtain ⟨d, hd, hkept, -⟩ := runAll_kept hcache later
  exact exec_cachedConstantAt_of_held hd (hkept i _ hheld) thread

/-- A request that has been answered leaves its answer in the slot. -/
theorem held_of_answered (hanswer : exec (LinkM.cachedConstantAt i thread) s = (.ok c, t)) :
    ∃ made, t.constants.cache = some made ∧ made.resolvedAt i = some (.constant c) := by
  obtain ⟨made, hmade, -, hsettled⟩ := settles_cachedConstantAt thread i s cache hcache
  rw [hanswer] at hmade hsettled
  exact ⟨made, congrArg Constants.cache hmade, hsettled.held (.constant c) rfl⟩

variable (hslot : cache.poolIndexAt i = .ok p)

include hslot

/-- After any calls the cache is there, the pool is the same, and the slot stands for the same entry and holds what
it held. -/
theorem runAll_slot (calls : List CacheCall) :
    ∃ d, (runAll calls s).2.constants.cache = some d ∧ (runAll calls s).2.constants.pool = s.constants.pool ∧
      d.poolIndexAt i = .ok p ∧ ∀ v, cache.resolvedAt i = some v → d.resolvedAt i = some v := by
  obtain ⟨d, hd, hkept, -⟩ := runAll_kept hcache calls
  obtain ⟨hpool, ⟨hnone, -⟩ | ⟨d', cache', hd', hcache', hsame⟩⟩ :=
    Constants.cases_of_references (runAll_references calls s).2
  · rw [hd] at hnone
    cases hnone
  obtain rfl : d = d' := Option.some.inj (hd.symm.trans hd')
  obtain rfl : cache = cache' := Option.some.inj (hcache.symm.trans hcache')
  exact ⟨d, hd, hpool, (Cache.poolIndexAt_congr hsame i).trans hslot, hkept i⟩

/-- A request that has failed leaves the class alone, and fails in the same way until something is published to its
slot. -/
theorem failed_again {f : Fault} (hfails : exec (LinkM.cachedConstantAt i thread) s = (.error f, t)) :
    t.constants = s.constants ∧ ∀ (between : List CacheCall) (thread' : Thread),
      (cache.resolvedAt i = none ∧ ∃ v, (i, .ok v) ∈ (runAll between t).1) ∨
        (exec (LinkM.cachedConstantAt i thread') (runAll between t).2).1 = .error f := by
  obtain ⟨m, hm, -, hsettled⟩ := settles_cachedConstantAt thread i s cache hcache
  have hanswer := fst_cachedConstantAt_eq_requested hcache hslot thread
  rw [hfails] at hm hsettled hanswer
  obtain rfl : m = cache := hsettled.failed f rfl
  have hsame : t.constants = s.constants := by rw [hm, ← hcache]
  refine ⟨hsame, fun between thread' => ?_⟩
  rw [← hsame] at hcache
  obtain ⟨d, hd, hpool, hslot', hkept⟩ := runAll_slot hcache hslot between
  rw [fst_cachedConstantAt_eq_requested hd hslot', hpool, hsame]
  cases hheld : m.resolvedAt i with
  | some other =>
      right
      rw [hkept other hheld, ← hheld, ← hanswer]
  | none =>
      cases hlater : d.resolvedAt i with
      | none =>
          right
          rw [← hheld, ← hanswer]
      | some v => exact .inl ⟨rfl, v, runAll_published hcache between hd hheld hlater⟩

/-- A constant is made at most once for its slot. -/
theorem constant_made_once (calls : List CacheCall) :
    ∃ d, (runAll calls s).2.constants.cache = some d ∧ d.poolIndexAt i = .ok p ∧
      (∀ c, d.resolvedAt i = some (.constant c) → ∀ (later : List CacheCall) (thread : Thread),
        exec (LinkM.cachedConstantAt i thread) (runAll (calls ++ later) s).2 =
          (.ok c, (runAll (calls ++ later) s).2)) ∧
      (∀ thread c t, exec (LinkM.cachedConstantAt i thread) (runAll calls s).2 = (.ok c, t) →
        (∃ made, t.constants.cache = some made ∧ made.resolvedAt i = some (.constant c)) ∧
          ∀ (later : List CacheCall) (thread' : Thread),
            exec (LinkM.cachedConstantAt i thread') (runAll later t).2 = (.ok c, (runAll later t).2)) ∧
      ((∀ c, d.resolvedAt i ≠ some (.constant c)) → ∀ thread : Thread,
        (exec (LinkM.cachedConstantAt i thread) (runAll calls s).2).2.polls =
          (exec (LinkM.constantAt p thread) (runAll calls s).2).2.polls) ∧
      ∀ thread f t, exec (LinkM.cachedConstantAt i thread) (runAll calls s).2 = (.error f, t) →
        t.constants = (runAll calls s).2.constants ∧ ∀ (between : List CacheCall) (thread' : Thread),
          (d.resolvedAt i = none ∧ ∃ v, (i, .ok v) ∈ (runAll between t).1) ∨
            (exec (LinkM.cachedConstantAt i thread') (runAll between t).2).1 = .error f := by
  obtain ⟨d, hd, -, hslot', -⟩ := runAll_slot hcache hslot calls
  refine ⟨d, hd, hslot', fun c hheld later thread => ?_, fun thread c t hanswer => ?_, fun hunmade thread => ?_,
    fun thread f t hfails => ?_⟩
  · rw [runAll_append]
    exact answered_of_held hd hheld later thread
  · obtain ⟨made, hmade, hheld⟩ := held_of_answered hd hanswer
    exact ⟨⟨made, hmade, hheld⟩, answered_of_held hmade hheld⟩
  · exact polls_cachedConstantAt hd hslot' hunmade thread
  · exact failed_again hd hslot' hfails

end CacheCall

/-- A linked class with a slot for a class name. -/
def sampleNames : LinkState :=
  ⟨⟨#[]⟩, ⟨⟨#[.invalid, .utf8 (.ofString "C"), .classRef 1]⟩, some (.ofPoolIndices [2] 0)⟩, 0, []⟩

/-- The first request polls and makes the constant; no publication and no further request makes a difference. -/
theorem CacheCall.constant_made_once_sample :
    let first := exec (LinkM.cachedConstantAt 0 ⟨"main", true⟩) sampleNames
    let t := (runAll [.publish 0 (.constant (.int 1)), .cachedConstantAt 0 ⟨"main", true⟩] first.2).2
    first.1 = .ok (.classRef (.ofString "C")) ∧ first.2.polls = 1 ∧ t.polls = 1 ∧
      (∃ made, first.2.constants.cache = some made ∧ made.resolvedAt 0 = some (.constant (.classRef (.ofString "C")))) ∧
      ∀ thread, exec (LinkM.cachedConstantAt 0 thread) t = (.ok (.classRef (.ofString "C")), t) := by
  intro first t
  have hcache : sampleNames.constants.cache = some (.ofPoolIndices [2] 0) := rfl
  obtain ⟨hanswer, hpolls, hpolls'⟩ :
      first.1 = .ok (.classRef (.ofString "C")) ∧ first.2.polls = 1 ∧ t.polls = 1 := by
    decide +kernel
  obtain ⟨d, -, -, -, hmade, -⟩ := constant_made_once (i := 0) (p := 2) hcache rfl []
  obtain ⟨hheld, hagain⟩ := hmade ⟨"main", true⟩ _ first.2 (Prod.ext hanswer rfl)
  exact ⟨hanswer, hpolls, hpolls', hheld, hagain _⟩

end MethodCode
