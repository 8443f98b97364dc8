import MethodCode.Linking.Constants
import MethodCode.Linking.Registry
import MethodCode.Proofs.Linking.References

/-! Cache slots are written once. Calls of five kinds publish to the same slots, and each may fail before
or after it has; `Settles` is what all of them have in common, and calls are put together from steps that
leave the cache alone and one that publishes. Main statements: an outcome stays in its slot for good, a
call that fails changes no slot, a call that answers agrees with its slot and changes no other, so any two
answers for one slot are equal. -/

namespace MethodCode

namespace Cache

/-- What a call about slot `i` that gives `answer` makes of the cache `c`. -/
structure Settled (i : UInt32) (answer : Except Fault Resolved) (c d : Cache) : Prop where
  kept : ∀ j e, c.resolvedAt j = some e → d.resolvedAt j = some e
  failed : ∀ f, answer = .error f → d = c
  held : ∀ v, answer = .ok v → d.resolvedAt i = some v
  others : ∀ j, j ≠ i.toNat → d.slots[j]? = c.slots[j]?

variable {c d : Cache} {i : UInt32} {outcome winner : Resolved}

theorem Settled.unchanged {answer : Except Fault Resolved} (c : Cache)
    (h : ∀ v, answer = .ok v → c.resolvedAt i = some v) : Settled i answer c c :=
  ⟨fun _ _ he => he, fun _ _ => rfl, h, fun _ _ => rfl⟩

/-- What a slot holds afterwards, and what is not the answer, it has held before. -/
theorem Settled.of_held {answer : Except Fault Resolved} {j : UInt32} {p : UInt16} {e : Resolved}
    (h : Settled i answer c d) (hother : answer ≠ .ok e) (hslot : d.poolIndexAt j = .ok p)
    (hheld : d.resolvedAt j = some e) : c.poolIndexAt j = .ok p ∧ c.resolvedAt j = some e := by
  cases answer with
  | error f => exact h.failed f rfl ▸ ⟨hslot, hheld⟩
  | ok v =>
      have hj : j ≠ i := by
        rintro rfl
        exact hother (congrArg Except.ok (Option.some.inj ((h.held v rfl).symm.trans hheld)))
      have hsame := h.others j.toNat (mt UInt32.toNat_inj.mp hj)
      obtain ⟨slot, hslot, hp⟩ := poolIndexAt_eq_ok.mp hslot
      rw [resolvedAt, hsame] at hheld
      exact ⟨poolIndexAt_eq_ok.mpr ⟨slot, hsame ▸ hslot, hp⟩, hheld⟩

/-- The first outcome stays, and the answer is what the slot holds from then on. -/
theorem publish_eq_ok (h : c.publish i outcome = .ok (winner, d)) :
    c.resolvedAt i = some winner ∧ d = c ∨
      c.resolvedAt i = none ∧ winner = outcome ∧ d.resolvedAt i = some outcome ∧
        ∀ j, j ≠ i.toNat → d.slots[j]? = c.slots[j]? := by
  cases hslot : c.slots[i.toNat]? with
  | none =>
      rw [publish, slotAt, hslot] at h
      cases h
  | some slot =>
      have hlt := (Array.getElem?_eq_some_iff.mp hslot).1
      rw [publish, slotAt, hslot] at h
      cases hresolved : slot.resolved with
      | some e =>
          left
          simp only [bind, Except.bind, hresolved] at h
          obtain ⟨rfl, rfl⟩ := Prod.mk.inj (Except.ok.inj h)
          exact ⟨by simp [resolvedAt, hslot, hresolved], rfl⟩
      | none =>
          right
          simp only [bind, Except.bind, hresolved] at h
          obtain ⟨rfl, rfl⟩ := Prod.mk.inj (Except.ok.inj h)
          refine ⟨by simp [resolvedAt, hslot, hresolved], rfl, ?_, ?_⟩
          · simp [resolvedAt, hlt]
          · intro j hj
            exact Array.getElem?_setIfInBounds_ne (Ne.symm hj)

theorem settled_publish (h : c.publish i outcome = .ok (winner, d)) : Settled i (.ok winner) c d := by
  rcases publish_eq_ok h with ⟨hholds, rfl⟩ | ⟨hempty, rfl, hholds, hothers⟩
  · refine .unchanged d ?_
    rintro _ ⟨⟩
    exact hholds
  · refine ⟨?_, nofun, ?_, hothers⟩
    · intro j e he
      by_cases hj : j.toNat = i.toNat
      · rw [UInt32.toNat_inj.mp hj, hempty] at he
        cases he
      · rw [resolvedAt, hothers _ hj]
        exact he
    · rintro _ ⟨⟩
      exact hholds

end Cache

/-! ### Steps that leave the cache alone -/

/-- The code and the constants are the same in both states. -/
def LinkState.SameClass (s t : LinkState) : Prop :=
  t.code = s.code ∧ t.constants = s.constants

instance : IsPreorder LinkState LinkState.SameClass where
  refl _ := ⟨rfl, rfl⟩
  trans _ _ _ h h' := ⟨h'.1.trans h.1, h'.2.trans h.2⟩

namespace LinkM

open LinkState (SameClass)

theorem keeps_poll (thread : Thread) : Keeps SameClass (poll thread) := by
  intro s
  change SameClass s (if thread.isCounted then _ else _)
  split <;> exact ⟨rfl, rfl⟩

theorem keeps_report (event : Event) : Keeps SameClass (report event) :=
  fun _ => ⟨rfl, rfl⟩

theorem keeps_pool : Keeps SameClass pool :=
  .bind .get fun _ => .pure _

theorem keeps_constantAt (index : UInt16) (thread : Thread) : Keeps SameClass (constantAt index thread) := by
  have hreport (constant : LoadedConstant) : Keeps SameClass (do
      report (.constantResolved thread.name index constant)
      return constant) :=
    .bind (keeps_report _) fun _ => .pure _
  unfold constantAt
  refine .bind keeps_pool fun pool => .bind (.liftError _) fun entry => ?_
  cases entry with
  | integer | float | long | double => exact .bind (.pure _) fun _ => hreport _
  | string => exact .bind (.liftError _) fun _ => .bind (.pure _) fun _ => hreport _
  | classRef =>
      exact .bind (keeps_poll _) fun _ => .bind (.liftError _) fun _ => .bind (.pure _) fun _ => hreport _
  | methodType =>
      exact .bind (.liftError _) fun _ => .bind (.liftError _) fun _ => .bind (keeps_poll _) fun _ =>
        .bind (.pure _) fun _ => hreport _
  | methodHandle =>
      exact .bind (keeps_poll _) fun _ => .bind (.liftError _) fun _ => .bind (.pure _) fun _ => hreport _
  | _ => exact .bind (.throw _) fun _ => hreport _

end LinkM

/-! ### Steps that publish -/

/-- A step about slot `i` over a linked class: `wrap` says what its answer is in the cache. -/
def Settles {α : Type} (i : UInt32) (wrap : α → Resolved) (x : LinkM α) : Prop :=
  ∀ s cache, s.constants.cache = some cache →
    ∃ d, (exec x s).2.constants = { s.constants with cache := some d } ∧ (exec x s).2.code = s.code ∧
      Cache.Settled i ((exec x s).1.map wrap) cache d

namespace Settles

variable {α β : Type} {i : UInt32} {wrap : α → Resolved}

theorem of_unchanged {x : LinkM α} (h : ∀ s cache, s.constants.cache = some cache →
    LinkState.SameClass s (exec x s).2 ∧ ∀ v, (exec x s).1.map wrap = .ok v → cache.resolvedAt i = some v) :
    Settles i wrap x := by
  intro s cache hcache
  obtain ⟨⟨hcode, hconstants⟩, hheld⟩ := h s cache hcache
  refine ⟨cache, ?_, hcode, .unchanged cache hheld⟩
  rw [hconstants, ← hcache]

theorem throw (f : Fault) : Settles i wrap (MonadExcept.throw f) :=
  of_unchanged fun _ _ _ => ⟨⟨rfl, rfl⟩, nofun⟩

/-- What comes before publishing leaves the cache alone. -/
theorem bind {x : LinkM β} {f : β → LinkM α} (hx : Keeps LinkState.SameClass x)
    (hf : ∀ b, Settles i wrap (f b)) : Settles i wrap (x >>= f) := by
  intro s cache hcache
  obtain ⟨hcode, hconstants⟩ := hx s
  rw [exec_bind]
  cases hexec : exec x s with
  | mk answer t =>
      rw [hexec] at hcode hconstants
      cases answer with
      | error f =>
          refine ⟨cache, ?_, hcode, .unchanged cache nofun⟩
          rw [hconstants, ← hcache]
      | ok b =>
          obtain ⟨d, hd, hcode', hsettled⟩ := hf b t cache (hconstants ▸ hcache)
          exact ⟨d, hconstants ▸ hd, hcode'.trans hcode, hsettled⟩

/-- A step that publishes an outcome and takes what it is answered, if that is of the kind expected. -/
theorem publish {outcome : Resolved} {f : Resolved → LinkM α}
    (hown : ∃ a, f outcome = pure a ∧ wrap a = outcome)
    (hany : ∀ r, (∃ a, f r = pure a ∧ wrap a = r) ∨ ∃ e, f r = MonadExcept.throw e) :
    Settles i wrap (LinkM.publish i outcome >>= f) := by
  intro s cache hcache
  have hpublish : exec (LinkM.publish i outcome) s =
      match cache.publish i outcome with
      | .ok (winner, d) => (.ok winner, { s with constants.cache := some d })
      | .error e => (.error (.error e), s) := by
    unfold LinkM.publish
    rw [exec_get_bind, hcache]
    simp only [exec_bind, exec_liftM_error]
    cases cache.publish i outcome <;> rfl
  rw [exec_bind, hpublish]
  cases hcall : cache.publish i outcome with
  | error e => exact ⟨cache, by rw [← hcache], rfl, .unchanged cache nofun⟩
  | ok result =>
      obtain ⟨winner, d⟩ := result
      rcases hany winner with ⟨a, hpure, hwrap⟩ | ⟨e, hthrow⟩
      · refine ⟨d, ?_, ?_, ?_⟩
        · simp only [hpure, exec_pure]
        · simp only [hpure, exec_pure]
        · simp only [hpure, exec_pure, Except.map, hwrap]
          exact Cache.settled_publish hcall
      · rcases Cache.publish_eq_ok hcall with ⟨-, rfl⟩ | ⟨-, rfl, -⟩
        · refine ⟨d, ?_, ?_, ?_⟩
          · simp only [hthrow, exec_throw]
          · simp only [hthrow, exec_throw]
          · simp only [hthrow, exec_throw]
            exact .unchanged d nofun
        · obtain ⟨a, hpure, -⟩ := hown
          rw [hpure] at hthrow
          have := congrArg (fun x => (exec x s).1) hthrow
          simp at this

end Settles

open LinkM (keeps_poll keeps_report keeps_pool keeps_constantAt)

variable (r : Registry) (site : SymbolicRef) (thread : Thread)

theorem settles_publish (i : UInt32) (outcome : Resolved) : Settles i id (LinkM.publish i outcome) := by
  rw [← bind_pure (LinkM.publish i outcome)]
  exact .publish ⟨outcome, rfl, rfl⟩ fun r => .inl ⟨r, rfl, rfl⟩

theorem settles_publishMethod (i : UInt32) (m : Method) : Settles i .method (Registry.publishMethod i m) := by
  refine .publish ⟨m, rfl, rfl⟩ fun outcome => ?_
  cases outcome with
  | method winner => exact .inl ⟨winner, rfl, rfl⟩
  | _ => exact .inr ⟨_, rfl⟩

theorem settles_linkMethod (event : Method → Event) (pool : Pool) :
    Settles site.cacheIndex .method (do
      let m ← r.lookupMethod pool site.poolIndex
      LinkM.report (event m)
      Registry.publishMethod site.cacheIndex m) :=
  .bind (.liftError _) fun m => .bind (keeps_report _) fun _ => settles_publishMethod _ m

theorem settles_resolveMethod : Settles site.cacheIndex .method (r.resolveMethod site thread) := by
  unfold Registry.resolveMethod
  refine .bind (keeps_poll _) fun _ => .bind keeps_pool fun pool => .bind (.liftError _) fun holder => ?_
  split
  · exact .throw _
  · exact settles_linkMethod r site _ pool

theorem settles_resolveInterfaceMethod :
    Settles site.cacheIndex .method (r.resolveInterfaceMethod site thread) := by
  unfold Registry.resolveInterfaceMethod
  refine .bind (keeps_poll _) fun _ => .bind keeps_pool fun pool => .bind (.liftError _) fun holder => ?_
  split
  · exact .throw _
  · exact settles_linkMethod r site _ pool

theorem settles_resolveCallSite : Settles site.cacheIndex .callSite (r.resolveCallSite site thread) := by
  unfold Registry.resolveCallSite
  refine .bind (keeps_poll _) fun _ => .bind keeps_pool fun pool => .bind (.liftError _) fun name => ?_
  split
  · exact .throw _
  · rename_i target _
    refine .bind (keeps_report _) fun _ => .publish ⟨target, rfl, rfl⟩ fun outcome => ?_
    cases outcome with
    | callSite winner => exact .inl ⟨winner, rfl, rfl⟩
    | _ => exact .inr ⟨_, rfl⟩

theorem settles_resolveField : Settles site.cacheIndex .field (r.resolveField site thread) := by
  unfold Registry.resolveField
  refine .bind (keeps_poll _) fun _ => .bind keeps_pool fun pool => .bind (.liftError _) fun holder =>
    .bind (.liftError _) fun name => ?_
  split
  · exact .throw _
  · rename_i f _
    refine .publish ⟨f, rfl, rfl⟩ fun outcome => ?_
    cases outcome with
    | field winner => exact .inl ⟨winner, rfl, rfl⟩
    | _ => exact .inr ⟨_, rfl⟩

theorem settles_cachedConstantAt (i : UInt32) : Settles i .constant (LinkM.cachedConstantAt i thread) := by
  intro s cache hcache
  unfold LinkM.cachedConstantAt
  rw [exec_get_bind, hcache]
  dsimp only
  split
  · rename_i c hresolved
    refine ⟨cache, by rw [← hcache]; rfl, rfl, .unchanged cache ?_⟩
    rintro _ ⟨⟩
    exact hresolved
  · refine Settles.bind (.liftError _) (fun p => .bind (keeps_constantAt _ _) fun c =>
      .publish ⟨c, rfl, rfl⟩ fun outcome => ?_) s cache hcache
    cases outcome with
    | constant winner => exact .inl ⟨winner, rfl, rfl⟩
    | _ => exact .inr ⟨_, rfl⟩

/-! ### Calls in any order -/

/-- A call that may publish to the cache. -/
inductive CacheCall where
  | publish (i : UInt32) (outcome : Resolved)
  | resolveMethod (r : Registry) (site : SymbolicRef) (thread : Thread)
  | resolveInterfaceMethod (r : Registry) (site : SymbolicRef) (thread : Thread)
  | resolveCallSite (r : Registry) (site : SymbolicRef) (thread : Thread)
  | resolveField (r : Registry) (site : SymbolicRef) (thread : Thread)
  | cachedConstantAt (i : UInt32) (thread : Thread)

namespace CacheCall

/-- The slot that a call is about. -/
def slot : CacheCall → UInt32
  | publish i _ | cachedConstantAt i _ => i
  | resolveMethod _ site _ | resolveInterfaceMethod _ site _ | resolveCallSite _ site _
  | resolveField _ site _ => site.cacheIndex

/-- Makes a call. What it answers is given as what a slot can hold. -/
def run : CacheCall → LinkM Resolved
  | publish i outcome => LinkM.publish i outcome
  | resolveMethod r site thread => Resolved.method <$> r.resolveMethod site thread
  | resolveInterfaceMethod r site thread => Resolved.method <$> r.resolveInterfaceMethod site thread
  | resolveCallSite r site thread => Resolved.callSite <$> r.resolveCallSite site thread
  | resolveField r site thread => Resolved.field <$> r.resolveField site thread
  | cachedConstantAt i thread => Resolved.constant <$> LinkM.cachedConstantAt i thread

/-- Makes calls one after the other, whatever they answer: the slots that they are about with the answers,
and the state that the last one leaves. -/
def runAll : List CacheCall → LinkState → List (UInt32 × Except Fault Resolved) × LinkState
  | [], s => ([], s)
  | call :: calls, s =>
    let (answer, t) := exec call.run s
    let (answers, u) := runAll calls t
    ((call.slot, answer) :: answers, u)

theorem runAll_append (calls later : List CacheCall) (s : LinkState) :
    (runAll (calls ++ later) s).2 = (runAll later (runAll calls s).2).2 := by
  induction calls generalizing s with
  | nil => rfl
  | cons call calls ih => exact ih (exec call.run s).2

end CacheCall

theorem Settles.map {α : Type} {i : UInt32} {wrap : α → Resolved} {x : LinkM α} (h : Settles i wrap x)
    {s : LinkState} {cache : Cache} (hcache : s.constants.cache = some cache) :
    ∃ d, (exec (wrap <$> x) s).2.constants.cache = some d ∧
      Cache.Settled i (exec (wrap <$> x) s).1 cache d := by
  obtain ⟨d, hd, -, hsettled⟩ := h s cache hcache
  rw [exec_map]
  exact ⟨d, by rw [hd], hsettled⟩

namespace CacheCall

variable {s : LinkState} {cache : Cache} (hcache : s.constants.cache = some cache)

include hcache

theorem settled (call : CacheCall) :
    ∃ d, (exec call.run s).2.constants.cache = some d ∧
      Cache.Settled call.slot (exec call.run s).1 cache d := by
  cases call with
  | publish i outcome =>
      have hmap := (settles_publish i outcome).map hcache
      rw [id_map] at hmap
      exact hmap
  | resolveMethod r site thread => exact (settles_resolveMethod r site thread).map hcache
  | resolveInterfaceMethod r site thread => exact (settles_resolveInterfaceMethod r site thread).map hcache
  | resolveCallSite r site thread => exact (settles_resolveCallSite r site thread).map hcache
  | resolveField r site thread => exact (settles_resolveField r site thread).map hcache
  | cachedConstantAt i thread => exact (settles_cachedConstantAt thread i).map hcache

/-- What is in the cache stays there, and what the calls answered is in it in the end. -/
theorem runAll_kept (calls : List CacheCall) :
    ∃ d, (runAll calls s).2.constants.cache = some d ∧
      (∀ i e, cache.resolvedAt i = some e → d.resolvedAt i = some e) ∧
      ∀ i v, (i, .ok v) ∈ (runAll calls s).1 → d.resolvedAt i = some v := by
  induction calls generalizing s cache with
  | nil => exact ⟨cache, hcache, fun _ _ he => he, nofun⟩
  | cons call calls ih =>
      obtain ⟨m, hm, hsettled⟩ := call.settled hcache
      obtain ⟨d, hd, hkept, hanswers⟩ := ih hm
      refine ⟨d, hd, fun i e he => hkept i e (hsettled.kept i e he), ?_⟩
      intro i v hv
      rcases List.mem_cons.mp hv with heq | hlater
      · obtain ⟨rfl, hanswer⟩ := Prod.mk.inj heq
        exact hkept _ _ (hsettled.held v hanswer.symm)
      · exact hanswers i v hlater

/-- Slots are written once, and every answer agrees with its slot. -/
theorem written_once (calls : List CacheCall) :
    ∃ d, (runAll calls s).2.constants.cache = some d ∧
      (∀ later, ∃ d', (runAll (calls ++ later) s).2.constants.cache = some d' ∧
        ∀ i e, d.resolvedAt i = some e → d'.resolvedAt i = some e) ∧
      (∀ call : CacheCall, ∃ d', (exec call.run (runAll calls s).2).2.constants.cache = some d' ∧
        (∀ f, (exec call.run (runAll calls s).2).1 = .error f → d' = d) ∧
        ∀ v, (exec call.run (runAll calls s).2).1 = .ok v → d'.resolvedAt call.slot = some v ∧
          ∀ j, j ≠ call.slot.toNat → d'.slots[j]? = d.slots[j]?) ∧
      ∀ i v w, (i, .ok v) ∈ (runAll calls s).1 → (i, .ok w) ∈ (runAll calls s).1 → v = w := by
  obtain ⟨d, hd, -, hanswers⟩ := runAll_kept hcache calls
  refine ⟨d, hd, ?_, ?_, ?_⟩
  · intro later
    obtain ⟨d', hd', hkept, -⟩ := runAll_kept hd later
    exact ⟨d', by rw [runAll_append, hd'], hkept⟩
  · intro call
    obtain ⟨d', hd', hsettled⟩ := call.settled hd
    exact ⟨d', hd', hsettled.failed, fun v hv => ⟨hsettled.held v hv, hsettled.others⟩⟩
  · intro i v w hv hw
    exact Option.some.inj ((hanswers i v hv).symm.trans (hanswers i w hw))

end CacheCall

/-- A linked class with a field, a slot for it, and code that reads it. -/
def sampleClass : LinkState :=
  ⟨⟨#[0x2a, 0xb4, 0x00, 0x00, 0xb1]⟩,
    ⟨⟨#[.invalid, .utf8 (.ofString "C"), .classRef 1, .utf8 (.ofString "f"), .utf8 (.ofString "I"),
      .nameAndType 3 4, .fieldRef 2 5]⟩, some (.ofPoolIndices [6] 7)⟩, 0, []⟩

/-- The field of the sample class. -/
def sampleField : Field := ⟨.ofString "C", .ofString "f", .int, 8, false⟩

/-- A registry that has the field of the sample class. -/
def sampleRegistry : Registry := Registry.empty.addField sampleField

theorem CacheCall.written_once_sample :
    ∃ d d', (runAll [.resolveField sampleRegistry ⟨6, 0⟩ .detached] sampleClass).2.constants.cache = some d ∧
      (exec (run (.publish 0 (.constant (.int 1))))
        (runAll [.resolveField sampleRegistry ⟨6, 0⟩ .detached] sampleClass).2).2.constants.cache = some d' ∧
      d'.resolvedAt 0 = some (.field sampleField) := by
  have hcache : sampleClass.constants.cache = some (.ofPoolIndices [6] 7) := rfl
  obtain ⟨d, hd, -, hcall, -⟩ := written_once hcache [.resolveField sampleRegistry ⟨6, 0⟩ .detached]
  obtain ⟨d', hd', -, hheld⟩ := hcall (.publish 0 (.constant (.int 1)))
  exact ⟨d, d', hd, hd', (hheld (.field sampleField) (by decide +kernel)).1⟩

end MethodCode
