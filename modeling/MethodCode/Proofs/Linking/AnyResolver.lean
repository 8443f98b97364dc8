import MethodCode.Linking.Resolver
import MethodCode.Proofs.Execution.Breaches
import MethodCode.Proofs.Linking.Quickening
import MethodCode.Proofs.Linking.References

/-! Quickening through any resolver. The resolver is asked for the field of an access and for nothing else, and
the code is changed after it has answered. `QuickenOutcome` lists everything that a call can answer and leave.
Main statements: a call is one of the cases, if linking a field leaves the code; and if it also leaves what the
code refers to, then quickening exchanges one opcode at most, for another one of the same standard code and length,
and breaks no contract. -/

namespace MethodCode

open FormatTable (standard)

/-- A failure that is no broken contract. -/
def Fault.KeepsContract (f : Fault) : Prop := ∀ v, f ≠ .violation v

theorem Fault.keepsContract_error (e : Error) : (error e).KeepsContract := nofun

theorem Fault.keepsContract_outOfBounds : outOfBounds.KeepsContract := nofun

/-- The code is the same and refers to the same, whatever has been put in the slots. -/
def LinkState.SameReferences (s t : LinkState) : Prop :=
  t.code = s.code ∧ t.constants.references = s.constants.references

/-- Linking a field fills slots at most, and ends in the field or in an error. Every registry does so
(`Registry.linksFields`); a resolver that goes back into the method, say by quickening it while it is asked, is outside
of this. -/
structure Resolver.LinksFields (r : Resolver) : Prop where
  keeps : ∀ method site thread, Keeps LinkState.SameReferences (r.field method site thread)
  keepsContract : ∀ method site thread s, Fails Fault.KeepsContract (exec (r.field method site thread) s).1

/-- An opcode of the same standard code is stored in an instruction that does not branch. -/
structure Code.Refitted (c d : Code) (b n : Nat) (raw op : Opcode) (e e' : FormatEntry) : Prop where
  store : c.setOpcode b op = .ok d
  before : c.Occupies b n raw e
  after : d.Occupies b n op e'
  canonical : e'.canonical = e.canonical
  plain : e.family ≠ .branch

/-- The form that an access goes over to once it is known to be to the field. -/
def Opcode.fieldForm (raw : Opcode) (f : Field) : Except Fault Opcode :=
  if f.isStatic then .error (.of (.staticField f.holder f.name))
  else match raw.fastField? f.type with
    | some op => .ok op
    | none => .error (.of (.fieldWithoutValue f.name))

/-- What quickening at a position answers, and the state that it leaves. -/
inductive QuickenOutcome (mode : Mode) (method : Method) (bci : Nat) (resolver : Resolver) (thread : Thread)
    (s : LinkState) : Except Fault (Option Opcode) → LinkState → Prop where
  | unread {g : Fault} (hop : s.code.opcodeAt bci = .error g) :
      QuickenOutcome mode method bci resolver thread s (.error g) s
  /-- Other codes have no fast form to go over to. -/
  | idle {raw : Opcode} (hop : s.code.opcodeAt bci = .ok raw) (hget : raw ≠ .getfield) (hput : raw ≠ .putfield)
      (hload : raw ≠ .aload0) : QuickenOutcome mode method bci resolver thread s (.ok none) s
  | waits {t : LinkState} (hop : s.code.opcodeAt bci = .ok .aload0)
      (hnext : s.code.opcodeAt (bci + 1) = .ok .getfield) (hsame : s.SameClass t) :
      QuickenOutcome mode method bci resolver thread s (.ok none) t
  | load {t : LinkState} (hop : s.code.opcodeAt bci = .ok .aload0)
      (hnext : s.code.opcodeAt (bci + 1) ≠ .ok .getfield)
      (hstore : s.code.setOpcode bci .fastAload0 = .ok t.code) (hconstants : t.constants = s.constants) :
      QuickenOutcome mode method bci resolver thread s (.ok (some .fastAload0)) t
  /-- The access does not lead to a slot, so the resolver is not asked. -/
  | astray {raw : Opcode} {g : Fault} (hop : s.code.opcodeAt bci = .ok raw)
      (hraw : raw = .getfield ∨ raw = .putfield)
      (hsite : (MethodBody.memberRefAt ⟨method, s.code, s.constants⟩ mode bci).symbolicRef = .error g) :
      QuickenOutcome mode method bci resolver thread s (.error g) s
  | unresolved {raw : Opcode} {site : SymbolicRef} {g : Fault} {t : LinkState}
      (hop : s.code.opcodeAt bci = .ok raw) (hraw : raw = .getfield ∨ raw = .putfield)
      (hsite : (MethodBody.memberRefAt ⟨method, s.code, s.constants⟩ mode bci).symbolicRef = .ok site)
      (hfield : exec (resolver.field method site thread) s = (.error g, t)) :
      QuickenOutcome mode method bci resolver thread s (.error g) t
  /-- The resolver has answered, and done what it does, before the field turns out to have no form. -/
  | formless {raw : Opcode} {site : SymbolicRef} {f : Field} {g : Fault} {t : LinkState}
      (hop : s.code.opcodeAt bci = .ok raw) (hraw : raw = .getfield ∨ raw = .putfield)
      (hsite : (MethodBody.memberRefAt ⟨method, s.code, s.constants⟩ mode bci).symbolicRef = .ok site)
      (hfield : exec (resolver.field method site thread) s = (.ok f, t)) (hform : raw.fieldForm f = .error g) :
      QuickenOutcome mode method bci resolver thread s (.error g) t
  | access {raw op : Opcode} {site : SymbolicRef} {f : Field} {t u : LinkState}
      (hop : s.code.opcodeAt bci = .ok raw) (hraw : raw = .getfield ∨ raw = .putfield)
      (hsite : (MethodBody.memberRefAt ⟨method, s.code, s.constants⟩ mode bci).symbolicRef = .ok site)
      (hfield : exec (resolver.field method site thread) s = (.ok f, t)) (hform : raw.fieldForm f = .ok op)
      (hstore : s.code.setOpcode bci op = .ok u.code) (hconstants : u.constants = t.constants) :
      QuickenOutcome mode method bci resolver thread s (.ok (some op)) u

variable {s t : LinkState} {code : Code} {cache : Cache} {mode : Mode} {method : Method} {bci : Nat}
  {raw op : Opcode} {resolver : Resolver} {thread : Thread}

theorem Opcode.fieldForm_eq_ok {f : Field} :
    raw.fieldForm f = .ok op ↔ f.isStatic = false ∧ raw.fastField? f.type = some op := by
  unfold fieldForm
  cases f.isStatic with
  | true => simp
  | false => cases raw.fastField? f.type <;> simp

theorem Opcode.fieldForm_eq_error {f : Field} {g : Fault} (h : raw.fieldForm f = .error g) :
    (∃ e, g = .error e) ∧ (f.isStatic = true ∨ raw.fastField? f.type = none) := by
  unfold fieldForm at h
  split at h
  · rename_i hstatic
    cases h
    exact ⟨⟨_, rfl⟩, .inl hstatic⟩
  · split at h
    · cases h
    · rename_i hform
      cases h
      exact ⟨⟨_, rfl⟩, .inr hform⟩

theorem LinkState.SameReferences.refl (s : LinkState) : s.SameReferences s := ⟨rfl, rfl⟩

theorem LinkState.SameClass.sameReferences (h : s.SameClass t) : s.SameReferences t :=
  ⟨h.1, congrArg Constants.references h.2⟩

/-! ### Field accesses -/

theorem symbolicRef_of_unlinked (mode : Mode) (method : Method) (bci : Nat)
    (hcache : s.constants.cache = none) :
    (MethodBody.memberRefAt ⟨method, s.code, s.constants⟩ mode bci).symbolicRef =
      .error (.of (.noCache method)) := by
  have hnone : (MethodBody.memberRefAt ⟨method, s.code, s.constants⟩ mode bci).body.constants.cache = none :=
    hcache
  rw [MemberRef.symbolicRef, MemberRef.poolIndex, hnone]
  rfl

section FieldAccess

variable (mode) (method) (thread) (hop : s.code.opcodeAt bci = .ok raw)
  (hraw : raw = .getfield ∨ raw = .putfield)

include hop hraw

theorem decode_access :
    MemberRef.decode mode ⟨method, s.code, s.constants⟩ bci =
      .ok (MethodBody.memberRefAt ⟨method, s.code, s.constants⟩ mode bci) := by
  obtain ⟨e, he, hfamily⟩ := exists_fieldAccess hraw
  exact MemberRef.decode_of_fieldAccess hop he hfamily

/-- An access to an object's field is linked through the site that it stands for. -/
theorem exec_access :
    exec ((MethodBody.memberRefAt ⟨method, s.code, s.constants⟩ mode bci).resolveFieldBy resolver thread) s =
      match (MethodBody.memberRefAt ⟨method, s.code, s.constants⟩ mode bci).symbolicRef with
      | .error f => (.error f, s)
      | .ok site => exec (resolver.field method site thread) s := by
  obtain ⟨e, he, -⟩ := exists_fieldAccess hraw
  have hslow : raw.isFast = false := by rcases hraw with rfl | rfl <;> decide
  have hcanonical : e.canonical = raw := (FormatTable.regular_standard he).2.2.2 hslow
  have hopcode : (MethodBody.memberRefAt ⟨method, s.code, s.constants⟩ mode bci).opcode = .ok raw :=
    hcanonical ▸ Cursor.opcode_of_entry hop he
  have haccess : (MethodBody.memberRefAt ⟨method, s.code, s.constants⟩ mode bci).fieldAccess =
      .ok (FieldAccess.ofOpcode? raw) := by
    rw [MemberRef.fieldAccess, hopcode]
    rfl
  have hsome : (FieldAccess.ofOpcode? raw).isNone = false := by rcases hraw with rfl | rfl <;> decide
  unfold MemberRef.resolveFieldBy
  rw [exec_bind, exec_liftM, haccess]
  dsimp only
  rw [hsome]
  change exec (liftM (MethodBody.memberRefAt ⟨method, s.code, s.constants⟩ mode bci).symbolicRef >>= _) s = _
  rw [exec_bind, exec_liftM]
  cases (MethodBody.memberRefAt ⟨method, s.code, s.constants⟩ mode bci).symbolicRef <;> rfl

theorem symbolicRef_access (hcache : s.constants.cache = some cache) :
    (MethodBody.memberRefAt ⟨method, s.code, s.constants⟩ mode bci).symbolicRef = (do
      let n ← s.code.u16At .native (bci + 1)
      let p ← inContext (.site method bci) (cache.poolIndexAt n.toUInt32)
      return ⟨p, n.toUInt32⟩) := by
  obtain ⟨e, he, hfamily⟩ := exists_fieldAccess hraw
  have hlaid := FormatTable.laidOut_standard he
  rw [hfamily] at hlaid
  exact MemberRef.symbolicRef_of_short hop he hlaid.2 hcache

/-- An access leads to a slot of the cache, and through this slot to the pool. -/
theorem symbolicRef_access_eq_ok {i : UInt32} {p : UInt16} :
    (MethodBody.memberRefAt ⟨method, s.code, s.constants⟩ mode bci).symbolicRef = .ok ⟨p, i⟩ ↔
      ∃ cache n, s.constants.cache = some cache ∧ s.code.u16At .native (bci + 1) = .ok n ∧ n.toUInt32 = i ∧
        cache.poolIndexAt i = .ok p := by
  cases hcache : s.constants.cache with
  | none => simp [symbolicRef_of_unlinked mode method bci hcache]
  | some cache =>
      have hfound (n : UInt16) : (do
          let p ← (liftM (inContext (.site method bci) (cache.poolIndexAt n.toUInt32)) : Except Fault UInt16)
          return (⟨p, n.toUInt32⟩ : SymbolicRef)) = .ok ⟨p, i⟩ ↔
            n.toUInt32 = i ∧ cache.poolIndexAt i = .ok p := by
        constructor
        · intro h
          obtain ⟨q, hq, hsite⟩ := bind_eq_ok.mp h
          obtain ⟨rfl, rfl⟩ := SymbolicRef.mk.inj (Except.ok.inj hsite)
          refine ⟨rfl, ?_⟩
          cases hslot : cache.poolIndexAt n.toUInt32 with
          | error e =>
              rw [hslot] at hq
              cases hq
          | ok p =>
              rw [hslot] at hq
              exact congrArg Except.ok (Except.ok.inj hq)
        · rintro ⟨rfl, hslot⟩
          rw [hslot]
          rfl
      rw [symbolicRef_access mode method hop hraw hcache, bind_eq_ok]
      constructor
      · rintro ⟨n, hread, hsite⟩
        obtain ⟨hi, hslot⟩ := (hfound n).mp hsite
        exact ⟨cache, n, rfl, hread, hi, hslot⟩
      · rintro ⟨_, n, ⟨⟩, hread, hi, hslot⟩
        exact ⟨n, hread, (hfound n).mpr ⟨hi, hslot⟩⟩

theorem fails_symbolicRef_access :
    Fails Fault.KeepsContract (MethodBody.memberRefAt ⟨method, s.code, s.constants⟩ mode bci).symbolicRef := by
  cases hcache : s.constants.cache with
  | none =>
      rw [symbolicRef_of_unlinked mode method bci hcache]
      exact .throw (Fault.keepsContract_error _)
  | some cache =>
      rw [symbolicRef_access mode method hop hraw hcache]
      refine .bind (fun g hread => ?_) fun n => ?_
      · exact Code.fails_u16At_outOfBounds s.code (bci + 1) .native g hread ▸ Fault.keepsContract_outOfBounds
      · cases hslot : cache.poolIndexAt n.toUInt32 with
        | error e => exact .throw (Fault.keepsContract_error _)
        | ok p => exact .pure _

/-- A resolver is asked only if the whole instruction is there. -/
theorem room_of_symbolicRef {site : SymbolicRef}
    (h : (MethodBody.memberRefAt ⟨method, s.code, s.constants⟩ mode bci).symbolicRef = .ok site) :
    bci + 3 ≤ s.code.size := by
  obtain ⟨_, n, -, hread, -⟩ := (symbolicRef_access_eq_ok mode method hop hraw).mp h
  obtain ⟨_, _, -, hlast, -⟩ := Code.u16At_eq_ok.mp hread
  have hend := Code.lt_size_of_byteAt hlast
  omega

theorem exec_fastAccessBy_of_error {g : Fault}
    (hsite : (MethodBody.memberRefAt ⟨method, s.code, s.constants⟩ mode bci).symbolicRef = .error g) :
    exec (LinkM.fastAccessBy ⟨method, s.code, s.constants⟩ mode bci raw resolver thread) s = (.error g, s) := by
  unfold LinkM.fastAccessBy
  rw [exec_bind, exec_liftM, decode_access mode method hop hraw]
  dsimp only
  rw [exec_bind, exec_access mode method thread hop hraw, hsite]

/-- The resolver is asked, and its answer has to have a fast form. -/
theorem exec_fastAccessBy_of_site {site : SymbolicRef}
    (hsite : (MethodBody.memberRefAt ⟨method, s.code, s.constants⟩ mode bci).symbolicRef = .ok site) :
    exec (LinkM.fastAccessBy ⟨method, s.code, s.constants⟩ mode bci raw resolver thread) s =
      ((exec (resolver.field method site thread) s).1.bind raw.fieldForm,
        (exec (resolver.field method site thread) s).2) := by
  unfold LinkM.fastAccessBy
  rw [exec_bind, exec_liftM, decode_access mode method hop hraw]
  dsimp only
  rw [exec_bind, exec_access mode method thread hop hraw, hsite]
  dsimp only
  rcases exec (resolver.field method site thread) s with ⟨g | f, t⟩
  · rfl
  · change exec _ t = (raw.fieldForm f, t)
    unfold Opcode.fieldForm
    cases f.isStatic with
    | true => rfl
    | false => cases raw.fastField? f.type <;> rfl

end FieldAccess

/-! ### Storing the form -/

/-- A form that was found is stored: it takes the room of the code that it replaces. -/
theorem exec_quicken_of_form {n : Nat} (hop : s.code.opcodeAt bci = .ok raw)
    (hform : exec (LinkM.fastFormBy ⟨method, s.code, s.constants⟩ mode bci raw resolver thread) s =
      (.ok (some op), t))
    (hfast : (raw, op) ∈ FormatTable.fastForms) (hshape : standard.shape? raw = some (some n, raw))
    (hcode : t.code = s.code) :
    ∃ u, exec (LinkM.quickenBy mode method bci resolver thread) s = (.ok (some op), u) ∧
      s.code.setOpcode bci op = .ok u.code ∧ u.constants = t.constants := by
  obtain ⟨code, hstore⟩ := Code.exists_setByte op.byte (Code.lt_size_of_byteAt (Code.opcodeAt_eq_ok.mp hop))
  obtain ⟨e, he, heq⟩ := Option.map_eq_some_iff.mp hshape
  obtain ⟨hlength, -⟩ := Prod.mk.inj heq
  obtain ⟨e', he', hsame, -⟩ := FormatTable.entry_of_fastForm he hfast
  have hbody : exec (LinkM.bodyOf method) s = (.ok ⟨method, s.code, s.constants⟩, s) := rfl
  have hread : (MethodBody.cursor ⟨method, s.code, s.constants⟩ mode bci).rawOpcode = .ok raw := hop
  have hformats : (MethodBody.cursor ⟨method, s.code, s.constants⟩ mode bci).formats = standard := rfl
  have hroom : (MethodBody.cursor ⟨method, s.code, s.constants⟩ mode bci).length = .ok n :=
    Cursor.length_of_fixed hread he hlength
  have hroom' : standard.length op false = .ok (some n) :=
    (FormatTable.length_of_entry he' false).trans (congrArg _ (hsame.trans hlength))
  have htest : mode.check (do
      ensure ((← standard.length op false) =
          some (← (MethodBody.cursor ⟨method, s.code, s.constants⟩ mode bci).length))
        (.lengthChange (← standard.name op) (← standard.name raw) bci)) = .ok () := by
    apply Cursor.check_of_ok
    rw [hroom, hroom', FormatTable.name_of_entry he, FormatTable.name_of_entry he']
    exact if_pos (decide_eq_true rfl)
  unfold LinkM.quickenBy
  rw [exec_bind, hbody]
  dsimp only
  rw [exec_bind, exec_liftM, hread]
  dsimp only
  rw [exec_bind, hform]
  dsimp only
  rw [hformats, exec_bind, exec_liftM, htest]
  dsimp only
  rw [exec_get_bind, exec_bind, exec_liftM, hcode, Code.setOpcode, hstore]
  dsimp only
  rw [exec_bind, exec_modify]
  dsimp only
  rw [exec_bind, exec_liftM, FormatTable.name_of_entry he]
  dsimp only
  rw [exec_bind, exec_liftM, FormatTable.name_of_entry he']
  exact ⟨_, rfl, rfl, rfl⟩

theorem exec_quicken_of_error {g : Fault} (hop : s.code.opcodeAt bci = .error g) :
    exec (LinkM.quickenBy mode method bci resolver thread) s = (.error g, s) := by
  have hbody : exec (LinkM.bodyOf method) s = (.ok ⟨method, s.code, s.constants⟩, s) := rfl
  have hread : (MethodBody.cursor ⟨method, s.code, s.constants⟩ mode bci).rawOpcode = .error g := hop
  unfold LinkM.quickenBy
  rw [exec_bind, hbody]
  dsimp only
  rw [exec_bind, exec_liftM, hread]

/-- Quickening ends as the search for a form does, if that finds none. -/
theorem exec_quicken_of_stop {answer : Except Fault (Option Opcode)} (hop : s.code.opcodeAt bci = .ok raw)
    (hform : exec (LinkM.fastFormBy ⟨method, s.code, s.constants⟩ mode bci raw resolver thread) s = (answer, t))
    (hstop : ∀ op, answer ≠ .ok (some op)) :
    exec (LinkM.quickenBy mode method bci resolver thread) s = (answer, t) := by
  have hbody : exec (LinkM.bodyOf method) s = (.ok ⟨method, s.code, s.constants⟩, s) := rfl
  have hread : (MethodBody.cursor ⟨method, s.code, s.constants⟩ mode bci).rawOpcode = .ok raw := hop
  unfold LinkM.quickenBy
  rw [exec_bind, hbody]
  dsimp only
  rw [exec_bind, exec_liftM, hread]
  dsimp only
  rw [exec_bind, hform]
  rcases answer with g | _ | op
  · rfl
  · rfl
  · exact absurd rfl (hstop op)

theorem exec_fastForm_of_field (hraw : raw = .getfield ∨ raw = .putfield) (body : MethodBody) :
    exec (LinkM.fastFormBy body mode bci raw resolver thread) s =
      ((exec (LinkM.fastAccessBy body mode bci raw resolver thread) s).1.map some,
        (exec (LinkM.fastAccessBy body mode bci raw resolver thread) s).2) := by
  unfold LinkM.fastFormBy
  rw [if_pos hraw]
  exact exec_map some _ s

theorem exec_fastForm_of_aload (mode : Mode) (method : Method) (resolver : Resolver) (thread : Thread)
    (hnext : s.code.opcodeAt (bci + 1) ≠ .ok .getfield) :
    exec (LinkM.fastFormBy ⟨method, s.code, s.constants⟩ mode bci .aload0 resolver thread) s =
      (.ok (some .fastAload0), s) := by
  unfold LinkM.fastFormBy
  rw [if_neg (by decide), if_pos rfl]
  split
  · rename_i hlt
    obtain ⟨b, hb⟩ := Code.exists_byteAt hlt
    have hread : (MethodBody.cursor ⟨method, s.code, s.constants⟩ mode (bci + 1)).rawOpcode = .ok ⟨b⟩ :=
      Code.opcodeAt_eq_ok.mpr hb
    have hne : (⟨b⟩ : Opcode) ≠ .getfield := fun heq => hnext (heq ▸ Code.opcodeAt_eq_ok.mpr hb)
    rw [exec_bind, exec_liftM, hread]
    dsimp only
    rw [if_neg hne]
    rfl
  · rfl

/-- An `aload_0` waits while a `getfield` follows it. -/
theorem exec_fastForm_of_waits (mode : Mode) (method : Method) (resolver : Resolver) (thread : Thread)
    (hnext : s.code.opcodeAt (bci + 1) = .ok .getfield) :
    ∃ t, exec (LinkM.fastFormBy ⟨method, s.code, s.constants⟩ mode bci .aload0 resolver thread) s =
      (.ok none, t) ∧ s.SameClass t := by
  have hlt : bci + 1 < s.code.size := Code.lt_size_of_byteAt (Code.opcodeAt_eq_ok.mp hnext)
  have hread : (MethodBody.cursor ⟨method, s.code, s.constants⟩ mode (bci + 1)).rawOpcode = .ok .getfield := hnext
  unfold LinkM.fastFormBy
  rw [if_neg (by decide), if_pos rfl, if_pos hlt, exec_bind, exec_liftM, hread]
  exact ⟨_, rfl, rfl, rfl⟩

theorem exec_fastForm_of_idle (hget : raw ≠ .getfield) (hput : raw ≠ .putfield) (hload : raw ≠ .aload0)
    (body : MethodBody) : exec (LinkM.fastFormBy body mode bci raw resolver thread) s = (.ok none, s) := by
  unfold LinkM.fastFormBy
  rw [if_neg (by simp [hget, hput]), if_neg hload]
  rfl

/-! ### Any instruction -/

/-- Quickening a field access is one of the cases. -/
theorem quickenBy_access (hkeeps : ∀ site, (exec (resolver.field method site thread) s).2.code = s.code)
    (mode : Mode) (hop : s.code.opcodeAt bci = .ok raw) (hraw : raw = .getfield ∨ raw = .putfield) :
    ∃ answer t, exec (LinkM.quickenBy mode method bci resolver thread) s = (answer, t) ∧
      QuickenOutcome mode method bci resolver thread s answer t := by
  have hform : exec (LinkM.fastFormBy ⟨method, s.code, s.constants⟩ mode bci raw resolver thread) s = _ :=
    exec_fastForm_of_field hraw _
  cases hsite : (MethodBody.memberRefAt ⟨method, s.code, s.constants⟩ mode bci).symbolicRef with
  | error g =>
      rw [exec_fastAccessBy_of_error mode method thread hop hraw hsite] at hform
      exact ⟨_, s, exec_quicken_of_stop hop hform nofun, .astray hop hraw hsite⟩
  | ok site =>
      have hcode := hkeeps site
      rw [exec_fastAccessBy_of_site mode method thread hop hraw hsite] at hform
      rcases hfield : exec (resolver.field method site thread) s with ⟨g | f, t⟩ <;>
        rw [hfield] at hform hcode
      · exact ⟨_, t, exec_quicken_of_stop hop hform nofun, .unresolved hop hraw hsite hfield⟩
      dsimp only [Except.bind] at hform
      cases hfast : raw.fieldForm f with
      | error g =>
          rw [hfast] at hform
          exact ⟨_, t, exec_quicken_of_stop hop hform nofun, .formless hop hraw hsite hfield hfast⟩
      | ok op =>
          rw [hfast] at hform
          have hform' := fastForm_of_fastField hraw (Opcode.fieldForm_eq_ok.mp hfast).2
          obtain ⟨u, hquicken, hstore, hu⟩ := exec_quicken_of_form hop hform hform' (field_shape hraw) hcode
          exact ⟨_, u, hquicken, .access hop hraw hsite hfield hfast hstore hu⟩

/-- A call is one of the cases, if the resolver leaves the code to it. -/
theorem quickenBy_outcome (hkeeps : ∀ site, (exec (resolver.field method site thread) s).2.code = s.code)
    (mode : Mode) (bci : Nat) :
    ∃ answer t, exec (LinkM.quickenBy mode method bci resolver thread) s = (answer, t) ∧
      QuickenOutcome mode method bci resolver thread s answer t := by
  cases hop : s.code.opcodeAt bci with
  | error g => exact ⟨.error g, s, exec_quicken_of_error hop, .unread hop⟩
  | ok raw =>
      by_cases hfield : raw = .getfield ∨ raw = .putfield
      · exact quickenBy_access hkeeps mode hop hfield
      by_cases hload : raw = .aload0
      · subst hload
        by_cases hnext : s.code.opcodeAt (bci + 1) = .ok .getfield
        · obtain ⟨t, hform, hsame⟩ := exec_fastForm_of_waits mode method resolver thread hnext
          exact ⟨_, t, exec_quicken_of_stop hop hform nofun, .waits hop hnext hsame⟩
        · obtain ⟨u, hquicken, hstore, hu⟩ := exec_quicken_of_form hop
            (exec_fastForm_of_aload mode method resolver thread hnext) (by decide) quickened_shapes.1 rfl
          exact ⟨_, u, hquicken, .load hop hnext hstore hu⟩
      · rw [not_or] at hfield
        exact ⟨_, s, exec_quicken_of_stop hop (exec_fastForm_of_idle hfield.1 hfield.2 hload _) nofun,
          .idle hop hfield.1 hfield.2 hload⟩

/-- A fast form that is stored fits the instruction. -/
theorem Code.refitted_of_store {c d : Code} {n : Nat} (hop : c.opcodeAt bci = .ok raw)
    (hstore : c.setOpcode bci op = .ok d) (hfast : (raw, op) ∈ FormatTable.fastForms)
    (hshape : standard.shape? raw = some (some n, raw)) (hend : bci + n ≤ c.size)
    (hplain : Family.ofCanonical raw ≠ .branch) : ∃ e e', c.Refitted d bci n raw op e e' := by
  obtain ⟨e, hbefore, hcanonical⟩ := Occupies.of_shape hop hshape hend
  obtain ⟨e', hafter, hcanonical'⟩ := Occupies.of_shape (opcodeAt_setOpcode hstore)
    ((FormatTable.shape?_fastForms _ hfast).trans hshape) (size_setByte hstore ▸ hend)
  refine ⟨e, e', hstore, hbefore, hafter, hcanonical'.trans hcanonical.symm, ?_⟩
  rw [FormatEntry.family, hcanonical]
  exact hplain

/-- Quickening leaves the code or fits the instruction with another opcode, and leaves what the code refers to. -/
theorem quickenBy_refits (hlinks : resolver.LinksFields) (mode : Mode) (method : Method) (bci : Nat)
    (thread : Thread) (s : LinkState) :
    ∃ answer t, exec (LinkM.quickenBy mode method bci resolver thread) s = (answer, t) ∧
      (t.code = s.code ∨ ∃ n raw op e e', s.code.Refitted t.code bci n raw op e e') ∧
      t.constants.references = s.constants.references ∧ Fails Fault.KeepsContract answer := by
  obtain ⟨answer, t, hexec, houtcome⟩ :=
    quickenBy_outcome (fun site => (hlinks.keeps method site thread s).1) mode bci
  refine ⟨answer, t, hexec, ?_⟩
  cases houtcome with
  | unread hop =>
      exact ⟨.inl rfl, rfl, .throw (Code.fails_opcodeAt_outOfBounds s.code bci _ hop ▸ Fault.keepsContract_outOfBounds)⟩
  | idle => exact ⟨.inl rfl, rfl, .pure _⟩
  | waits hop hnext hsame => exact ⟨.inl hsame.1, hsame.sameReferences.2, .pure _⟩
  | load hop hnext hstore hconstants =>
      obtain ⟨e, e', hfit⟩ := Code.refitted_of_store hop hstore (by decide) quickened_shapes.1
        (Code.lt_size_of_byteAt (Code.opcodeAt_eq_ok.mp hop)) (by decide)
      exact ⟨.inr ⟨_, _, _, e, e', hfit⟩, by rw [hconstants], .pure _⟩
  | astray hop hraw hsite =>
      exact ⟨.inl rfl, rfl, .throw (fails_symbolicRef_access mode method hop hraw _ hsite)⟩
  | @unresolved _ site _ t _ _ _ hfield =>
      have hsame := hlinks.keeps method site thread s
      have hfails := hlinks.keepsContract method site thread s
      rw [hfield] at hsame hfails
      exact ⟨.inl hsame.1, hsame.2, .throw (hfails _ rfl)⟩
  | @formless _ site _ _ t _ _ _ hfield hform =>
      have hsame := hlinks.keeps method site thread s
      rw [hfield] at hsame
      obtain ⟨⟨e, rfl⟩, -⟩ := Opcode.fieldForm_eq_error hform
      exact ⟨.inl hsame.1, hsame.2, .throw (Fault.keepsContract_error e)⟩
  | @access raw op site _ _ u hop hraw hsite hfield hform hstore hconstants =>
      have hsame := hlinks.keeps method site thread s
      rw [hfield] at hsame
      have hplain : Family.ofCanonical raw ≠ .branch := by
        rcases hraw with rfl | rfl <;> decide
      obtain ⟨e, e', hfit⟩ := Code.refitted_of_store hop hstore
        (fastForm_of_fastField hraw (Opcode.fieldForm_eq_ok.mp hform).2) (field_shape hraw)
        (room_of_symbolicRef mode method hop hraw hsite) hplain
      exact ⟨.inr ⟨_, _, _, e, e', hfit⟩, by rw [hconstants, hsame.2], .pure _⟩

end MethodCode
