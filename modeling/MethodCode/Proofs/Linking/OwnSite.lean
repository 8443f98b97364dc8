import MethodCode.Proofs.Linking.QuickenStep

/-! What quickening leaves alone. The code changes at one byte at most, the opcode of the instruction, and the
cache at one slot at most, the one that the instruction refers to; the resolver does the latter, so it has to keep
to the slot that it is asked for. A fast form has no faster one, so a call that has stored one leaves nothing for
the next. Main statements: a registry keeps to the slot that it is asked for, and over every resolver that does, a
call changes its own site alone and settles it. -/

namespace MethodCode

/-- The slot with a number, once there is a cache. -/
def Constants.slot? (k : Constants) (j : Nat) : Option CacheSlot := k.cache.bind fun cache => cache.slots[j]?

/-- The code and the slots are the same in both states, but for the slot with number `j`. -/
def LinkState.SameBut (j : Nat) (s t : LinkState) : Prop :=
  t.code = s.code ∧ ∀ k, k ≠ j → t.constants.slot? k = s.constants.slot? k

/-- Linking a field touches no more than the slot of its reference. Every registry does so; a resolver that goes back
into the method, say by quickening it while it is asked, is outside of this. -/
def Resolver.KeepsToSlot (r : Resolver) : Prop :=
  ∀ method site thread, Keeps (LinkState.SameBut site.cacheIndex.toNat) (r.field method site thread)

/-- The member reference at a position leads to the slot with number `j`. -/
def LinkState.RefersTo (s : LinkState) (mode : Mode) (method : Method) (bci j : Nat) : Prop :=
  ∃ access site, MemberRef.decode mode ⟨method, s.code, s.constants⟩ bci = .ok access ∧
    access.symbolicRef = .ok site ∧ site.cacheIndex.toNat = j

/-- A call for the instruction at a position changes the site of this instruction at most, and settles it. -/
structure QuickensOwnSite (mode : Mode) (method : Method) (bci : Nat) (s : LinkState)
    (answer : Except Fault (Option Opcode)) (t : LinkState) : Prop where
  bytes : ∀ a, a ≠ bci → t.code.byteAt a = s.code.byteAt a
  slots : ∀ j, ¬s.RefersTo mode method bci j → t.constants.slot? j = s.constants.slot? j
  stored : ∀ op, answer = .ok (some op) → t.code.opcodeAt bci = .ok op ∧ s.code.opcodeAt bci ≠ .ok op
  /-- Whatever comes next, the instruction has gone over to its fast form. -/
  settled : ∀ op, answer = .ok (some op) → ∀ mode method resolver thread,
    exec (LinkM.quickenBy mode method bci resolver thread) t = (.ok none, t)
  unstored : (∀ op, answer ≠ .ok (some op)) → t.code = s.code
  nothing : answer = .ok none → t.constants = s.constants
  /-- An `aload_0` waits while a `getfield` follows it, and only then. -/
  waits : s.code.opcodeAt bci = .ok .aload0 →
    (answer = .ok none ↔ bci + 1 < s.code.size ∧ s.code.opcodeAt (bci + 1) = .ok .getfield)

variable {s t : LinkState} {mode : Mode} {method : Method} {bci j : Nat} {op : Opcode} {resolver : Resolver}
  {thread : Thread} {answer : Except Fault (Option Opcode)}

/-! ### Slots -/

theorem LinkState.SameClass.slot?_eq (h : s.SameClass t) (j : Nat) : t.constants.slot? j = s.constants.slot? j := by
  rw [h.2]

theorem Registry.keepsToSlot (registry : Registry) : registry.resolver.KeepsToSlot := by
  intro method site thread s
  obtain ⟨hcode, hreferences⟩ := registry.linksFields.keeps method site thread s
  refine ⟨hcode, fun k hk => ?_⟩
  cases hcache : s.constants.cache with
  | none =>
      obtain ⟨-, ⟨hnone, -⟩ | ⟨_, _, -, hsome, -⟩⟩ := Constants.cases_of_references hreferences
      · rw [Constants.slot?, Constants.slot?, hnone, hcache]
      · rw [hcache] at hsome
        cases hsome
  | some cache =>
      obtain ⟨d, hd, -, hsettled⟩ := settles_resolveField registry site thread s cache hcache
      have hconstants : (exec (registry.resolver.field method site thread) s).2.constants = _ := hd
      rw [Constants.slot?, Constants.slot?, hconstants, hcache]
      exact hsettled.others k hk

/-! ### One call -/

/-- A fast form has no form to go over to. -/
theorem quickenBy_of_isFast (hop : s.code.opcodeAt bci = .ok op) (hfast : op.isFast = true) (mode : Mode)
    (method : Method) (resolver : Resolver) (thread : Thread) :
    exec (LinkM.quickenBy mode method bci resolver thread) s = (.ok none, s) := by
  have hslow {raw : Opcode} (hraw : raw.isFast = false) : op ≠ raw := by
    rintro rfl
    rw [hfast] at hraw
    cases hraw
  exact exec_quicken_of_stop hop
    (exec_fastForm_of_idle (hslow (by decide)) (hslow (by decide)) (hslow (by decide)) _) nofun

namespace QuickenOutcome

/-- The code stays, or the answer is the fast form that has taken the place of a slow one. -/
theorem store_cases (h : QuickenOutcome mode method bci resolver thread s answer t)
    (hkeeps : ∀ site, (exec (resolver.field method site thread) s).2.code = s.code) :
    t.code = s.code ∧ (∀ op, answer ≠ .ok (some op)) ∨
      ∃ raw op, answer = .ok (some op) ∧ s.code.opcodeAt bci = .ok raw ∧ raw.isFast = false ∧ op.isFast = true ∧
        s.code.setOpcode bci op = .ok t.code := by
  cases h with
  | unread | idle | astray => exact .inl ⟨rfl, nofun⟩
  | waits hop hnext hsame => exact .inl ⟨hsame.1, nofun⟩
  | load hop hnext hstore => exact .inr ⟨_, _, rfl, hop, rfl, rfl, hstore⟩
  | @unresolved _ site _ _ _ _ _ hfield | @formless _ site _ _ _ _ _ _ hfield =>
      have hcode := hkeeps site
      rw [hfield] at hcode
      exact .inl ⟨hcode, nofun⟩
  | access hop hraw _ _ hform hstore =>
      have hfast := fastForm_of_fastField hraw (Opcode.fieldForm_eq_ok.mp hform).2
      exact .inr ⟨_, _, rfl, hop, isFast_of_field hraw, isFast_of_fastForm _ hfast, hstore⟩

/-- The only slot that a call can change is the one that its instruction refers to. -/
theorem slot?_eq (h : QuickenOutcome mode method bci resolver thread s answer t) (hkeeps : resolver.KeepsToSlot)
    (hj : ¬s.RefersTo mode method bci j) : t.constants.slot? j = s.constants.slot? j := by
  have hasked {raw : Opcode} {site : SymbolicRef} {found : Except Fault Field} {u : LinkState}
      (hop : s.code.opcodeAt bci = .ok raw) (hraw : raw = .getfield ∨ raw = .putfield)
      (hsite : (MethodBody.memberRefAt ⟨method, s.code, s.constants⟩ mode bci).symbolicRef = .ok site)
      (hfield : exec (resolver.field method site thread) s = (found, u)) :
      u.constants.slot? j = s.constants.slot? j := by
    have hsame := (hkeeps method site thread s).2 j
    rw [hfield] at hsame
    refine hsame ?_
    rintro rfl
    exact hj ⟨_, site, decode_access mode method hop hraw, hsite, rfl⟩
  cases h with
  | unread | idle | astray => rfl
  | waits hop hnext hsame => exact hsame.slot?_eq j
  | load hop hnext hstore hconstants => rw [hconstants]
  | unresolved hop hraw hsite hfield | formless hop hraw hsite hfield => exact hasked hop hraw hsite hfield
  | access hop hraw hsite hfield hform hstore hconstants =>
      rw [hconstants]
      exact hasked hop hraw hsite hfield

theorem constants_eq (h : QuickenOutcome mode method bci resolver thread s (.ok none) t) :
    t.constants = s.constants := by
  cases h with
  | idle => rfl
  | waits hop hnext hsame => exact hsame.2

theorem waits_iff (h : QuickenOutcome mode method bci resolver thread s answer t)
    (hload : s.code.opcodeAt bci = .ok .aload0) :
    answer = .ok none ↔ s.code.opcodeAt (bci + 1) = .ok .getfield := by
  have hother {raw : Opcode} (hop : s.code.opcodeAt bci = .ok raw) : raw = .aload0 :=
    Except.ok.inj (hop.symm.trans hload)
  cases h with
  | unread hop => cases hop.symm.trans hload
  | idle hop hget hput hraw => exact absurd (hother hop) hraw
  | waits hop hnext => exact iff_of_true rfl hnext
  | load hop hnext => exact iff_of_false nofun hnext
  | astray hop hraw | unresolved hop hraw | formless hop hraw | access hop hraw =>
      obtain rfl := hother hop
      exact absurd hraw (by decide)

end QuickenOutcome

/-- Quickening changes only its own site, and settles it, whatever the resolver answers, as long as the resolver keeps
to the slot that it is asked for and leaves the code of the method to its caller. -/
theorem quicken_own_site (hkeeps : resolver.KeepsToSlot) (mode : Mode) (method : Method) (bci : Nat)
    (thread : Thread) (s : LinkState) :
    ∃ answer t, exec (LinkM.quickenBy mode method bci resolver thread) s = (answer, t) ∧
      QuickensOwnSite mode method bci s answer t := by
  have hcode (site : SymbolicRef) := (hkeeps method site thread s).1
  obtain ⟨answer, t, hexec, houtcome⟩ := quickenBy_outcome hcode mode bci
  refine ⟨answer, t, hexec, ?_⟩
  have hstores := houtcome.store_cases hcode
  constructor
  case bytes =>
    intro a ha
    obtain ⟨hsame, -⟩ | ⟨_, op, -, -, -, -, hstore⟩ := hstores
    · rw [hsame]
    · rw [Code.byteAt_setByte hstore, if_neg ha]
  case slots => exact fun j hj => houtcome.slot?_eq hkeeps hj
  case stored =>
    rintro op rfl
    obtain ⟨-, hnone⟩ | ⟨raw, _, ⟨⟩, hop, hslow, hfast, hstore⟩ := hstores
    · exact absurd rfl (hnone op)
    · refine ⟨Code.opcodeAt_setOpcode hstore, fun hsame => ?_⟩
      obtain rfl : raw = op := Except.ok.inj (hop.symm.trans hsame)
      cases hslow.symm.trans hfast
  case settled =>
    rintro op rfl
    obtain ⟨-, hnone⟩ | ⟨_, _, ⟨⟩, -, -, hfast, hstore⟩ := hstores
    · exact absurd rfl (hnone op)
    · exact quickenBy_of_isFast (Code.opcodeAt_setOpcode hstore) hfast
  case unstored =>
    intro hnone
    obtain ⟨hsame, -⟩ | ⟨_, op, hanswer, -⟩ := hstores
    · exact hsame
    · exact absurd hanswer (hnone op)
  case nothing =>
    rintro rfl
    exact houtcome.constants_eq
  case waits =>
    intro hload
    rw [houtcome.waits_iff hload]
    exact (and_iff_right_of_imp fun hnext => Code.lt_size_of_byteAt (Code.opcodeAt_eq_ok.mp hnext)).symm

/-- The reading of a field takes its fast form, and its neighbour stays an `aload_0`. -/
theorem quicken_own_site_sample :
    ∃ t, exec (LinkM.quickenBy .checked sampleReader 1 sampleRegistry.resolver .detached) sampleClass =
        (.ok (some .fastIgetfield), t) ∧
      t.code.byteAt 0 = .ok 0x2a ∧ t.code.opcodeAt 1 = .ok .fastIgetfield ∧
      exec (LinkM.quickenBy .unchecked sampleReader 1 sampleRegistry.resolver .detached) t = (.ok none, t) := by
  obtain ⟨answer, t, hexec, hown⟩ :=
    quicken_own_site sampleRegistry.keepsToSlot .checked sampleReader 1 .detached sampleClass
  have hanswer : (exec (LinkM.quickenBy .checked sampleReader 1 sampleRegistry.resolver .detached) sampleClass).1 =
      .ok (some .fastIgetfield) := by
    decide +kernel
  rw [hexec] at hanswer
  obtain rfl : answer = _ := hanswer
  exact ⟨t, hexec, hown.bytes 0 (by decide), (hown.stored _ rfl).1, hown.settled _ rfl _ _ _ _⟩

end MethodCode
