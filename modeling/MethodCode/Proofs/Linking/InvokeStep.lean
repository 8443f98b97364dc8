import MethodCode.Proofs.Linking.References
import MethodCode.Proofs.Linking.WriteOnce

/-! One linking of an invoke. A registry has three ways to link a method, one for each kind of reference; all of
them poll, look the names behind a pool index up, and offer what these lead to to the slot of the site. `InvokeStep`
lists what such a call can answer and make of the constants: a failure to find a method leaves them alone, and the
answer of a call that has found one is what the slot holds from then on, if that is of the kind asked for. Main
statement: linking an invoke is one of the cases, and it polls once. -/

namespace MethodCode

namespace InvokeKind

/-- What the slot of an invoke holds once the invoke is linked to a method. -/
def outcome : InvokeKind → Method → Resolved
  | dynamic, m => .callSite m
  | _, m => .method m

/-- The kind of what the slot of an invoke is for. -/
def resolvedKind : InvokeKind → ResolvedKind
  | dynamic => .callSite
  | _ => .method

variable {kind : InvokeKind} {m m' : Method}

@[simp]
theorem kind_outcome (kind : InvokeKind) (m : Method) : (kind.outcome m).kind = kind.resolvedKind := by
  cases kind <;> rfl

theorem exists_outcome {held : Resolved} (h : held.kind = kind.resolvedKind) : ∃ m, held = kind.outcome m := by
  cases kind <;> cases held <;> first | exact ⟨_, rfl⟩ | cases h

end InvokeKind

namespace Registry

/-- Links an invoke in the way that its kind asks for. -/
def link (r : Registry) : InvokeKind → SymbolicRef → Thread → LinkM Method
  | .dynamic => r.resolveCallSite
  | .interface => r.resolveInterfaceMethod
  | _ => r.resolveMethod

/-- The method that the names behind a pool index lead to. -/
def sought (r : Registry) (kind : InvokeKind) (pool : Pool) (p : UInt16) : Except Error Method :=
  match kind with
  | .dynamic => do
    let name ← pool.memberNameAt p
    match r.bootstrap? name with
    | some target => return target
    | none => failWith (.noBootstrap name)
  | .interface => do
    let holder ← pool.holderNameAt p
    if holder ∉ r.interfaces then failWith (.foundClass holder)
    r.lookupMethod pool p
  | _ => do
    let holder ← pool.holderNameAt p
    if holder ∈ r.interfaces then failWith (.foundInterface holder)
    r.lookupMethod pool p

end Registry

/-- What linking an invoke through slot `i` answers and makes of the constants, where `found` is what its names
lead to. -/
inductive InvokeStep (s : LinkState) (cache : Cache) (i : UInt32) (kind : InvokeKind) (found : Except Error Method) :
    Except Fault Method → Constants → Prop where
  | unfound {e : Error} (hfound : found = .error e) :
      InvokeStep s cache i kind found (.error (.error e)) s.constants
  | linked {m winner : Method} (hfound : found = .ok m)
      (hheld : (cache.resolvedAt i).getD (kind.outcome m) = kind.outcome winner) :
      InvokeStep s cache i kind found (.ok winner)
        { s.constants with cache := some (cache.offer i (kind.outcome m)) }
  | clash {m : Method} {other : Resolved} (hfound : found = .ok m)
      (hheld : (cache.resolvedAt i).getD (kind.outcome m) = other) (hkind : other.kind ≠ kind.resolvedKind) :
      InvokeStep s cache i kind found (.error (.of (.wrongEntryKind i other kind.resolvedKind)))
        { s.constants with cache := some (cache.offer i (kind.outcome m)) }

variable {r : Registry} {s u : LinkState} {cache : Cache} {i : UInt32} {p : UInt16} {kind : InvokeKind}
  {thread : Thread} {m : Method}

/-- The polls of a thread that a state counts. -/
theorem LinkM.polls_poll (thread : Thread) (s : LinkState) :
    (exec (LinkM.poll thread) s).2.polls = s.polls + if thread.isCounted then 1 else 0 := by
  change (if thread.isCounted then _ else _ : LinkState).polls = _
  split <;> rfl

/-- A step on its way to an invoke's slot: it answers and leaves one of the cases, with as many polls as there
are by now. -/
def LeadsToSlot (u s : LinkState) (cache : Cache) (i : UInt32) (kind : InvokeKind) (found : Except Error Method)
    (x : LinkM Method) : Prop :=
  ∃ answer t, exec x u = (answer, t) ∧ t.code = u.code ∧ t.polls = u.polls ∧
    InvokeStep s cache i kind found answer t.constants

namespace LeadsToSlot

variable {found : Except Error Method}

theorem unfound {e : Error} (hu : u.constants = s.constants) (hfound : found = .error e) :
    LeadsToSlot u s cache i kind found (throw (.error e)) :=
  ⟨_, u, rfl, rfl, rfl, hu ▸ .unfound hfound⟩

/-- Looking something up comes before the slot. -/
theorem lookup {α : Type} {x : Except Error α} {f : α → LinkM Method} {next : α → Except Error Method}
    (hu : u.constants = s.constants) (hfound : found = x >>= next)
    (hf : ∀ a, x = .ok a → LeadsToSlot u s cache i kind (next a) (f a)) :
    LeadsToSlot u s cache i kind found (liftM x >>= f) := by
  subst hfound
  cases x with
  | error e => exact ⟨_, u, rfl, rfl, rfl, hu ▸ .unfound rfl⟩
  | ok a => exact hf a rfl

/-- In the end the method is reported, published, and exchanged for what the slot holds. -/
theorem publish (kind : InvokeKind) {event : Event} {take : Resolved → LinkM Method}
    (hcache : s.constants.cache = some cache) (hslot : cache.poolIndexAt i = .ok p)
    (hu : u.constants = s.constants) (hown : ∀ winner, take (kind.outcome winner) = pure winner)
    (hother : ∀ held : Resolved, held.kind ≠ kind.resolvedKind →
      take held = throw (.of (.wrongEntryKind i held kind.resolvedKind))) :
    LeadsToSlot u s cache i kind (.ok m) (do
      LinkM.report event
      take (← LinkM.publish i (kind.outcome m))) := by
  obtain ⟨v, hreport, hcode, hpolls, hv⟩ : ∃ v, exec (LinkM.report event) u = (.ok (), v) ∧ v.code = u.code ∧
      v.polls = u.polls ∧ v.constants = u.constants := ⟨_, rfl, rfl, rfl, rfl⟩
  rw [← hu, ← hv] at hcache
  unfold LeadsToSlot
  rw [exec_bind, hreport]
  dsimp only
  rw [exec_bind, LinkM.exec_publish hcache hslot, hv, hu]
  dsimp only
  by_cases hkind : ((cache.resolvedAt i).getD (kind.outcome m)).kind = kind.resolvedKind
  · obtain ⟨winner, hheld⟩ := InvokeKind.exists_outcome hkind
    rw [hheld, hown]
    exact ⟨_, _, rfl, hcode, hpolls, .linked rfl hheld⟩
  · rw [hother _ hkind]
    exact ⟨_, _, rfl, hcode, hpolls, .clash rfl rfl hkind⟩

/-- Every way of linking polls and fetches the pool first. -/
theorem start {f : Pool → LinkM Method} (thread : Thread)
    (hf : ∀ u, u.constants = s.constants → LeadsToSlot u s cache i kind found (f s.constants.pool)) :
    ∃ answer t, exec (do LinkM.poll thread; f (← LinkM.pool)) s = (answer, t) ∧ t.code = s.code ∧
      t.polls = s.polls + (if thread.isCounted then 1 else 0) ∧ InvokeStep s cache i kind found answer t.constants := by
  obtain ⟨hcode, hu⟩ := LinkM.keeps_poll thread s
  have hpolls := LinkM.polls_poll thread s
  have hpoll : exec (LinkM.poll thread) s = (.ok (), (exec (LinkM.poll thread) s).2) := rfl
  generalize (exec (LinkM.poll thread) s).2 = u at hcode hu hpolls hpoll
  have hpool : exec LinkM.pool u = (.ok u.constants.pool, u) := rfl
  obtain ⟨answer, t, hexec, hcode', hpolls', hstep⟩ := hf u hu
  refine ⟨answer, t, ?_, hcode'.trans hcode, hpolls'.trans hpolls, hstep⟩
  rw [exec_bind, hpoll]
  dsimp only
  rw [exec_bind, hpool, hu]
  exact hexec

/-- Methods are found and taken in the same way through classes and interfaces. -/
theorem method {event : Method → Event} (r : Registry) (hcache : s.constants.cache = some cache)
    (hslot : cache.poolIndexAt i = .ok p) (hu : u.constants = s.constants)
    (hown : ∀ m, kind.outcome m = .method m) (hresolved : kind.resolvedKind = .method) :
    LeadsToSlot u s cache i kind (r.lookupMethod s.constants.pool p) (do
      let m ← r.lookupMethod s.constants.pool p
      LinkM.report (event m)
      Registry.publishMethod i m) := by
  refine .lookup hu (bind_pure _).symm fun m _ => ?_
  unfold Registry.publishMethod
  rw [← hown m]
  refine .publish kind hcache hslot hu (fun winner => ?_) fun held hheld => ?_
  · rw [hown]
  · rw [hresolved] at hheld ⊢
    cases held with
    | method => exact absurd rfl hheld
    | _ => rfl

end LeadsToSlot

/-- Linking an invoke is one of the cases, and it polls once. -/
theorem Registry.exec_link (hcache : s.constants.cache = some cache) (hslot : cache.poolIndexAt i = .ok p)
    (r : Registry) (kind : InvokeKind) (thread : Thread) :
    ∃ answer t, exec (r.link kind ⟨p, i⟩ thread) s = (answer, t) ∧ t.code = s.code ∧
      t.polls = s.polls + (if thread.isCounted then 1 else 0) ∧
      InvokeStep s cache i kind (r.sought kind s.constants.pool p) answer t.constants := by
  cases kind with
  | dynamic =>
      refine LeadsToSlot.start thread fun u hu => .lookup hu rfl fun name _ => ?_
      cases r.bootstrap? name with
      | none => exact .unfound hu rfl
      | some target =>
          refine .publish .dynamic hcache hslot hu (fun _ => rfl) fun held hheld => ?_
          cases held with
          | callSite => exact absurd rfl hheld
          | _ => rfl
  | interface =>
      refine LeadsToSlot.start thread fun u hu => .lookup hu rfl fun holder _ => ?_
      by_cases hholder : holder ∈ r.interfaces
      · rw [if_neg (not_not_intro hholder), if_neg (not_not_intro hholder)]
        exact .method r hcache hslot hu (fun _ => rfl) rfl
      · rw [if_pos hholder, if_pos hholder]
        exact .unfound hu rfl
  | virtual | special | static =>
      refine LeadsToSlot.start thread fun u hu => .lookup hu rfl fun holder _ => ?_
      by_cases hholder : holder ∈ r.interfaces
      · rw [if_pos hholder, if_pos hholder]
        exact .unfound hu rfl
      · rw [if_neg hholder, if_neg hholder]
        exact .method r hcache hslot hu (fun _ => rfl) rfl

/-- An invoke is linked in the way that its kind asks for. -/
theorem MemberRef.exec_staticTarget {member : MemberRef} {site : SymbolicRef} (hsite : member.symbolicRef = .ok site)
    (hkind : member.invokeKind = .ok (some kind)) (r : Registry) (thread : Thread) (s : LinkState) :
    exec (member.staticTarget r thread) s = exec (r.link kind site thread) s := by
  unfold staticTarget
  rw [exec_bind, exec_liftM, hsite]
  dsimp only
  rw [exec_bind, exec_liftM, hkind]
  cases kind <;> rfl

end MethodCode
