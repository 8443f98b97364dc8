import MethodCode.Proofs.Linking.Invisible
import MethodCode.Proofs.Linking.KindSafety
import MethodCode.Proofs.Linking.Structure

/-! Linked classes: methods that were rewritten with one allocator and resolve their references through one
cache. Each call works on the code of one method and on the constants of all, so what the instructions of a
method refer to has to survive the calls on the other methods too. Main statement: whatever views are called
on, in whatever order, every outcome in the cache is of the kind that its pool entry names, and no call finds
an outcome of another kind. -/

namespace MethodCode

open Fault (NoClash)

/-! ### What the instructions of a method refer to -/

/-- What every member reference refers to is of the kind that its family asks for. -/
def LinkState.RefersByKind (s : LinkState) : Prop :=
  ∀ bci mode method family p, s.code.IsStart bci → ((s.body method).cursor mode bci).family = .ok family →
    family ∈ MemberRef.families → ((s.body method).memberRefAt mode bci).poolIndex = .ok p →
    s.constants.pool.kindAt? p = family.memberKind?

section References

variable {s t : LinkState} {k : Constants} {bci : Nat}

theorem Cursor.lt_size_of_family {c : Cursor} {family : Family} (h : c.family = .ok family) :
    c.bci < c.code.size := by
  obtain ⟨op, hop, -⟩ := bind_eq_ok.mp h
  exact Code.lt_size_of_byteAt (Code.opcodeAt_eq_ok.mp hop)

theorem LinkState.RefersByKind.suits (h : s.RefersByKind) (hreferences : s.constants.references = k.references)
    (hstart : s.code.IsStart bci) (mode : Mode) (method : Method) :
    ((s.body method).memberRefAt mode bci).Suits k where
  references := hreferences
  kind family p hfamily hmember hp :=
    (Constants.cases_of_references hreferences).1 ▸ h bci mode method family p hstart hfamily hmember hp

/-- States that look alike refer to the same. -/
theorem LinkState.RefersByKind.of_looksLike (h : s.RefersByKind) (hlooks : t.LooksLike s)
    (hpool : t.constants.pool = s.constants.pool) : t.RefersByKind := by
  intro bci mode method family p hstart hfamily hmember hp
  have hstart := (hlooks.isStart bci).mp hstart
  have hfamily : ((s.body method).cursor mode bci).family = .ok family :=
    (congrArg Cursor.Report.family (hlooks.reports bci mode method hstart)).symm.trans hfamily
  have hreport := hlooks.memberRefs bci mode method family hstart hfamily hmember
  have hp : ((s.body method).memberRefAt mode bci).poolIndex = .ok p :=
    (congrArg MemberRef.Report.poolIndex hreport).symm.trans hp
  exact hpool ▸ h bci mode method family p hstart hfamily hmember hp

/-- A method refers to the same, whatever has been put in the slots. -/
theorem LinkState.RefersByKind.of_references (h : s.RefersByKind) (hcode : t.code = s.code)
    (hreferences : t.constants.references = s.constants.references) : t.RefersByKind :=
  h.of_looksLike (.of_references hcode hreferences) (Constants.cases_of_references hreferences).1

end References

/-- A rewritten code has the instruction starts of the code that it was made of, and the pass has visited each of
them. -/
theorem RewrittenInTurn.exists_visit {pool : Pool} {a b : Allocator} {pairs : List (Code × Code)}
    {before after : Code} (h : RewrittenInTurn pool a pairs b) (hmem : (before, after) ∈ pairs) :
    (∀ bci, after.IsStart bci ↔ before.IsStart bci) ∧ after.size = before.size ∧
      ∀ bci, before.IsStart bci → bci < before.size → ∃ n op e s t m m',
        Rewriting.Visit pool bci n op e s t m m' ∧ s.code = before ∧ t.code = after ∧ b.Extends t.allocator := by
  obtain ⟨a', summary, hok, rfl, hextends⟩ := h.exists_rewrite hmem
  obtain ⟨t, hpass, hcode, hallocator, -⟩ := pass_of_rewrite hok
  rw [hallocator] at hextends
  rw [hcode]
  refine ⟨hpass.isStart_iff (Nat.le_refl _), hpass.size_eq, ?_⟩
  intro bci hstart hlt
  obtain ⟨n, op, e, m, m', hvisit⟩ := hpass.visits hstart hlt
  exact ⟨n, op, e, _, t, m, m', hvisit, rfl, rfl, hextends⟩

/-- Rewritten methods refer by kind: rewriting has looked at every tag. -/
theorem RewrittenInTurn.refersByKind {pool : Pool} {a b : Allocator} {pairs : List (Code × Code)}
    {before after : Code} (h : RewrittenInTurn pool a pairs b) (hsize : b.size < UInt32.size)
    (hmem : (before, after) ∈ pairs)
    (hslow : ∀ bci op, before.IsStart bci → before.opcodeAt bci = .ok op → op.isFast = false)
    (tag : UInt32) (polls : Nat) (log : List Event) :
    (⟨after, ⟨pool, some (b.cache tag)⟩, polls, log⟩ : LinkState).RefersByKind := by
  obtain ⟨hstarts, hkept, hvisits⟩ := h.exists_visit hmem
  intro bci mode method family p hstart hfamily hmember hp
  have hbefore := (hstarts bci).mp hstart
  have hlt : bci < after.size := Cursor.lt_size_of_family hfamily
  obtain ⟨n, op, e, s, t, m, m', hvisit, rfl, rfl, hextends⟩ := hvisits bci hbefore (hkept ▸ hlt)
  obtain ⟨op', e', hafter, hcanonical⟩ := hvisit.occupies_after
  have hraw : (MethodBody.cursor ⟨method, t.code, ⟨pool, some (b.cache tag)⟩⟩ mode bci).rawOpcode = .ok op' :=
    hafter.opcode
  obtain rfl : e.family = family := by
    rw [FormatEntry.family, ← hcanonical]
    exact Except.ok.inj ((Cursor.family_of_entry hraw hafter.entry).symm.trans hfamily)
  have hslow := hslow bci op hbefore hvisit.occupies_before.opcode
  exact hvisit.memberRef_kind hextends hsize hslow hmember hp

/-! ### Calls -/

/-- The calls on a view that go to the cache. -/
inductive ViewOperation where
  | staticTarget
  | resolveField
  | quicken
  | resolveConstant

/-- A call on the view of an instruction of one of the methods of a class. -/
structure ViewCall where
  operation : ViewOperation
  /-- The number of the method in its class. -/
  index : Nat
  method : Method
  mode : Mode
  bci : Nat
  registry : Registry
  thread : Thread

/-- Decodes the instruction and makes the call, whatever it answers. -/
def ViewCall.run (call : ViewCall) : LinkM Unit := do
  let body ← LinkM.bodyOf call.method
  match call.operation with
  | .staticTarget =>
    let r ← MemberRef.decode call.mode body call.bci
    discard (r.staticTarget call.registry call.thread)
  | .resolveField =>
    let r ← MemberRef.decode call.mode body call.bci
    discard (r.resolveField call.registry call.thread)
  | .quicken => discard (LinkM.quicken call.mode call.method call.bci call.registry call.thread)
  | .resolveConstant =>
    let l ← LoadConstant.decode call.mode body call.bci
    discard (l.resolve call.thread)

section Call

variable {α : Type} {k : Constants} {s : LinkState}

theorem exec_discard (x : LinkM α) (s : LinkState) :
    exec (discard x) s = ((exec x s).1.map fun _ => (), (exec x s).2) :=
  exec_map (fun _ => ()) x s

theorem Fails.map {β ε : Type} {P : ε → Prop} {x : Except ε α} (h : Fails P x) (f : α → β) :
    Fails P (x.map f) := by
  cases x with
  | error e => exact fun _ he => h _ (congrArg Except.error (Except.error.inj he))
  | ok a => exact .pure (f a)

theorem Keeps.discard {R : LinkState → LinkState → Prop} {x : LinkM α} (h : Keeps R x) : Keeps R (discard x) :=
  fun s => exec_discard x s ▸ h s

theorem KeepsKinds.discard {x : LinkM α} (h : KeepsKinds k x) : KeepsKinds k (discard x) := by
  intro s hs
  obtain ⟨hfits, hfails⟩ := h s hs
  rw [exec_discard]
  exact ⟨hfits, hfails.map _⟩

/-- A call at an instruction start keeps the kinds. -/
theorem ViewCall.keepsKinds (call : ViewCall) (hkinded : k.SlotsKinded) (hs : s.constants.Fits k)
    (hrefers : s.RefersByKind) (hstart : s.code.IsStart call.bci) :
    (exec call.run s).2.constants.Fits k ∧ Fails NoClash (exec call.run s).1 := by
  have hbody : exec (LinkM.bodyOf call.method) s = (.ok (s.body call.method), s) := rfl
  have hsuits := hrefers.suits hs.references hstart call.mode call.method
  unfold run
  rw [exec_bind, hbody]
  dsimp only
  cases call.operation with
  | staticTarget =>
      refine KeepsKinds.lift_bind (.of_breach (MemberRef.fails_decode _ _ _)) (fun r hr => ?_) s hs
      obtain rfl := MemberRef.eq_of_decode hr
      exact (MemberRef.keepsKinds_staticTarget hsuits call.thread).discard
  | resolveField =>
      refine KeepsKinds.lift_bind (.of_breach (MemberRef.fails_decode _ _ _)) (fun r hr => ?_) s hs
      obtain rfl := MemberRef.eq_of_decode hr
      exact (MemberRef.keepsKinds_resolveField hsuits call.thread).discard
  | quicken =>
      obtain ⟨hfits, hfails⟩ := LinkM.keepsKinds_quicken (r := call.registry) hs hsuits call.thread
      dsimp only
      rw [exec_discard]
      exact ⟨hfits, hfails.map _⟩
  | resolveConstant =>
      exact KeepsKinds.lift_bind (.of_breach (LoadConstant.fails_decode _ _ _))
        (fun l _ => (l.keepsKinds_resolve hkinded call.thread).discard) s hs

theorem ViewCall.later (call : ViewCall) (hop : call.operation ≠ .quicken) :
    Keeps LinkState.Later call.run := by
  refine .bind (.bind .get fun _ => .pure _) fun body => ?_
  cases hcall : call.operation with
  | staticTarget => exact .bind (.lift _) fun r => (later_staticTarget r _ _).discard
  | resolveField => exact .bind (.lift _) fun r => (later_resolveField r _ _).discard
  | quicken => exact absurd hcall hop
  | resolveConstant => exact .bind (.lift _) fun l => (later_resolveConstant l _).discard

theorem ViewCall.snd_run_of_quicken (call : ViewCall) (hop : call.operation = .quicken) :
    (exec call.run s).2 =
      (exec (LinkM.quicken call.mode call.method call.bci call.registry call.thread) s).2 := by
  have hbody : exec (LinkM.bodyOf call.method) s = (.ok (s.body call.method), s) := rfl
  unfold run
  rw [exec_bind, hbody]
  dsimp only
  rw [hop]
  dsimp only
  rw [exec_discard]

/-- A call at an instruction start leaves code that looks the same. -/
theorem ViewCall.looksLike (call : ViewCall) {cache : Cache} (hcache : s.constants.cache = some cache)
    (hreferences : (exec call.run s).2.constants.references = s.constants.references)
    (hstart : s.code.IsStart call.bci) : (exec call.run s).2.LooksLike s := by
  by_cases hop : call.operation = .quicken
  · rw [call.snd_run_of_quicken hop, ← LinkM.quickenBy_registry]
    exact quickenBy_looksLike call.registry.linksFields call.mode call.method call.thread hstart
  · exact .of_references (call.later hop s cache hcache).1 hreferences

end Call

/-! ### Classes -/

/-- A class as linking sees it: the code of each method, and what the methods share. -/
structure LinkedClass where
  codes : List Code
  constants : Constants
  polls : Nat
  log : List Event

namespace LinkedClass

/-- What a call on a method works on. -/
def state (c : LinkedClass) (code : Code) : LinkState := ⟨code, c.constants, c.polls, c.log⟩

/-- An instruction of the method of a number starts at a position. -/
def IsStart (c : LinkedClass) (index bci : Nat) : Prop :=
  ∃ code, c.codes[index]? = some code ∧ code.IsStart bci

/-- Makes a call on one of the methods. -/
def call (c : LinkedClass) (call : ViewCall) : Except Fault Unit × LinkedClass :=
  match c.codes[call.index]? with
  | none => (.ok (), c)
  | some code =>
    let (answer, s) := exec call.run (c.state code)
    (answer, ⟨c.codes.set call.index s.code, s.constants, s.polls, s.log⟩)

/-- The class that calls leave, made one after the other, whatever they answer. -/
def runAll (c : LinkedClass) : List ViewCall → LinkedClass
  | [] => c
  | call :: calls => runAll (c.call call).2 calls

variable {c : LinkedClass} {k : Constants}

theorem call_of_code {call : ViewCall} {code : Code} (hcode : c.codes[call.index]? = some code) :
    c.call call = ((exec call.run (c.state code)).1,
      ⟨c.codes.set call.index (exec call.run (c.state code)).2.code, (exec call.run (c.state code)).2.constants,
        (exec call.run (c.state code)).2.polls, (exec call.run (c.state code)).2.log⟩) := by
  rw [LinkedClass.call, hcode]

/-- The slots hold what fits the references of the class, and the instructions of all methods refer by kind. -/
structure Sound (c : LinkedClass) (k : Constants) : Prop where
  fits : c.constants.Fits k
  refers : ∀ code ∈ c.codes, (c.state code).RefersByKind

/-- The cache is installed, and every slot is for something. -/
structure Linked (k : Constants) : Prop where
  cache : k.cache.isSome
  kinded : k.SlotsKinded

/-- What one call keeps: the class stays sound, its instructions start where they started, and no outcome of
another kind was found. -/
theorem Sound.call (h : c.Sound k) (hlinked : Linked k) (call : ViewCall)
    (hstart : c.IsStart call.index call.bci) :
    (c.call call).2.Sound k ∧ (∀ index bci, (c.call call).2.IsStart index bci ↔ c.IsStart index bci) ∧
      Fails NoClash (c.call call).1 := by
  obtain ⟨code, hcode, hstart⟩ := hstart
  have hmem : code ∈ c.codes := List.mem_of_getElem? hcode
  have hrefers := h.refers code hmem
  obtain ⟨hfits, hfails⟩ := call.keepsKinds hlinked.kinded (s := c.state code) h.fits hrefers hstart
  have hreferences := hfits.references.trans h.fits.references.symm
  obtain ⟨cache, hcache⟩ : ∃ cache, c.constants.cache = some cache := by
    rcases (Constants.cases_of_references h.fits.references).2 with ⟨-, hnone⟩ | ⟨cache, -, hcache, -⟩
    · exact absurd hlinked.cache (by rw [hnone]; exact nofun)
    · exact ⟨cache, hcache⟩
  have hlooks := call.looksLike (s := c.state code) hcache hreferences hstart
  rw [call_of_code hcode]
  generalize hexec : exec call.run (c.state code) = result at hfits hfails hreferences hlooks
  obtain ⟨answer, t⟩ := result
  refine ⟨⟨hfits, fun code' hmem' => ?_⟩, fun index bci => ?_, hfails⟩
  · rcases List.mem_or_eq_of_mem_set hmem' with hold | rfl
    · exact (h.refers code' hold).of_references rfl hreferences
    · exact hrefers.of_looksLike hlooks (Constants.cases_of_references hreferences).1
  · unfold IsStart
    dsimp only
    by_cases hindex : call.index = index
    · subst hindex
      have hlt := (List.getElem?_eq_some_iff.mp hcode).1
      rw [List.getElem?_set_self hlt, hcode]
      simpa [state] using hlooks.isStart bci
    · rw [List.getElem?_set_ne hindex]

/-- Any number of calls keeps what one call keeps. -/
theorem Sound.runAll (h : c.Sound k) (hlinked : Linked k) (calls : List ViewCall)
    (hstarts : ∀ call ∈ calls, c.IsStart call.index call.bci) :
    (c.runAll calls).Sound k ∧ ∀ index bci, (c.runAll calls).IsStart index bci ↔ c.IsStart index bci := by
  induction calls generalizing c with
  | nil => exact ⟨h, fun _ _ => .rfl⟩
  | cons call calls ih =>
      obtain ⟨hsound, hsame, -⟩ := h.call hlinked call (hstarts call List.mem_cons_self)
      obtain ⟨hsound', hsame'⟩ := ih hsound fun later hlater =>
        (hsame _ _).mpr (hstarts later (List.mem_cons_of_mem _ hlater))
      exact ⟨hsound', fun index bci => (hsame' index bci).trans (hsame index bci)⟩

end LinkedClass

/-! ### Rewritten classes -/

theorem Allocator.IsKinded.linked {pool : Pool} {b : Allocator} (h : b.IsKinded pool) (tag : UInt32) :
    LinkedClass.Linked ⟨pool, some (b.cache tag)⟩ where
  cache := rfl
  kinded := by
    rintro _ i p ⟨⟩ hp
    obtain ⟨slot, hslot, rfl⟩ := Cache.poolIndexAt_eq_ok.mp hp
    rw [getElem?_cache] at hslot
    obtain ⟨taken, htaken, rfl⟩ := Option.map_eq_some_iff.mp hslot
    exact h taken (Array.mem_of_getElem? htaken)

/-- Before the first call nothing is resolved. -/
theorem Allocator.fits_cache (b : Allocator) (pool : Pool) (tag : UInt32) :
    Constants.Fits ⟨pool, some (b.cache tag)⟩ ⟨pool, some (b.cache tag)⟩ where
  references := rfl
  entries := by
    rintro _ ⟨⟩ j slot e hslot he
    rw [getElem?_cache] at hslot
    obtain ⟨taken, -, rfl⟩ := Option.map_eq_some_iff.mp hslot
    cases he

/-- Code without a byte that is a fast form has none at its instruction starts. -/
theorem Code.slow_of_all {c : Code} (h : c.bytes.all (fun b => !Opcode.isFast ⟨b⟩) = true) (bci : Nat)
    (op : Opcode) (hop : c.opcodeAt bci = .ok op) : op.isFast = false := by
  have hmem := Array.mem_of_getElem? (Code.byteAt_eq_ok.mp (Code.opcodeAt_eq_ok.mp hop))
  exact Bool.not_eq_true' _ |>.mp (Array.all_eq_true_iff_forall_mem.mp h _ hmem)

namespace RewrittenInTurn

variable {pool : Pool} {b : Allocator} {pairs : List (Code × Code)} {c : LinkedClass} {tag : UInt32}

/-- A class is sound when its methods have just been rewritten. -/
theorem sound (h : RewrittenInTurn pool .empty pairs b) (hsize : b.size < UInt32.size)
    (hslow : ∀ pair ∈ pairs, ∀ bci op, pair.1.IsStart bci → pair.1.opcodeAt bci = .ok op → op.isFast = false)
    (hcodes : c.codes = pairs.map Prod.snd) (hconstants : c.constants = ⟨pool, some (b.cache tag)⟩) :
    c.Sound ⟨pool, some (b.cache tag)⟩ := by
  refine ⟨hconstants ▸ b.fits_cache pool tag, fun code hcode => ?_⟩
  rw [hcodes] at hcode
  obtain ⟨⟨before, after⟩, hmem, rfl⟩ := List.mem_map.mp hcode
  rw [LinkedClass.state, hconstants]
  exact h.refersByKind hsize hmem (hslow _ hmem) tag c.polls c.log

/-- The code of the sample class before it is rewritten. -/
def sampleSource : Code := ⟨#[0x2a, 0xb4, 0x00, 0x06, 0xb1]⟩

/-- Two methods that read the field of the sample class. -/
def samplePair : LinkedClass := ⟨[sampleClass.code, sampleClass.code], sampleClass.constants, 0, []⟩

/-- A call on the reading of the field in one of the methods. -/
def sampleView (operation : ViewOperation) (index : Nat) : ViewCall :=
  ⟨operation, index, sampleReader, .checked, 1, sampleRegistry, .detached⟩

end RewrittenInTurn

end MethodCode
