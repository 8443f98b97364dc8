import MethodCode.Proofs.Code.Walk
import MethodCode.Proofs.Instruction.SameFrom
import MethodCode.Proofs.Linking.QuickenStep

/-! Quickening and decoding. A fast form takes the room of the code that it stands for and reads the same
operands, so whoever decodes a method cannot tell how far it has been quickened. `LooksLike` is what stays the
same; it holds after one quickening and therefore after any number. Main statement: whatever is quickened, in
whatever order, by whatever resolvers that link fields and do not write code, and with whatever outcome, the
instructions start where they started and report what they reported, and quickening itself never breaks a
contract. -/

namespace MethodCode

open FormatTable (standard)

/-- A method with the code and the constants that a state holds. -/
def LinkState.body (s : LinkState) (method : Method) : MethodBody := ⟨method, s.code, s.constants⟩

/-- One state looks like another to whoever decodes: the walks, and what every instruction reports. -/
structure LinkState.LooksLike (t s : LinkState) : Prop where
  /-- A walk from an instruction start meets the same instructions, ends in the same way and reports the
  same events. -/
  walks : ∀ w : Walk, w.code = s.code → s.code.IsStart w.next →
    { w with code := t.code }.trail.starts = w.trail.starts ∧
      { w with code := t.code }.trail.fault = w.trail.fault ∧
      { w with code := t.code }.trail.rest.events = w.trail.rest.events
  lengths : ∀ bci, s.code.IsStart bci → t.code.lengthAt bci = s.code.lengthAt bci
  reports : ∀ bci mode method, s.code.IsStart bci →
    ((t.body method).cursor mode bci).report = ((s.body method).cursor mode bci).report
  kinds : ∀ bci mode method, s.code.IsStart bci →
    Decoded.kind <$> Decoded.decode mode (t.body method) bci =
      Decoded.kind <$> Decoded.decode mode (s.body method) bci
  memberRefs : ∀ bci mode method family, s.code.IsStart bci →
    ((s.body method).cursor mode bci).family = .ok family → family ∈ MemberRef.families →
    ((t.body method).memberRefAt mode bci).report = ((s.body method).memberRefAt mode bci).report

variable {s t u : LinkState} {c d : Code} {registry : Registry} {a b bci n : Nat} {code : Code} {k : Constants}
  {raw op op' : Opcode} {e e' : FormatEntry}

/-! ### States that look alike -/

theorem LinkState.LooksLike.isStart (h : t.LooksLike s) (bci : Nat) : t.code.IsStart bci ↔ s.code.IsStart bci :=
  Code.isStart_congr h.lengths bci

/-- Every instruction has kept its operands and its standard code, or everything from its start on. -/
theorem LinkState.LooksLike.of_sameInstruction (hreferences : t.constants.references = s.constants.references)
    (hsame : ∀ bci, s.code.IsStart bci → t.code.SameInstruction s.code bci) : t.LooksLike s where
  walks w hw hstart := by
    rw [← hw] at hstart hsame
    exact Walk.trail_congr fun bci hreach => (hsame bci (hstart.trans hreach)).lengthAt_eq
  lengths bci hstart := (hsame bci hstart).lengthAt_eq
  reports bci _ _ hstart := (hsame bci hstart).report_eq
  kinds bci _ _ hstart := (hsame bci hstart).kind_eq rfl hreferences
  memberRefs bci _ _ _ hstart hfamily hmember :=
    (hsame bci hstart).memberRef_report_eq rfl hreferences hfamily hmember

/-- Whatever stands in the slots, the code looks the same. -/
theorem LinkState.LooksLike.of_references (hcode : t.code = s.code)
    (hreferences : t.constants.references = s.constants.references) : t.LooksLike s := by
  refine .of_sameInstruction hreferences fun bci _ => ?_
  rw [hcode]
  exact .rest ⟨rfl, Set.eqOn_refl _ _⟩

theorem LinkState.LooksLike.refl (s : LinkState) : s.LooksLike s := .of_references rfl rfl

theorem LinkState.LooksLike.trans (hut : u.LooksLike t) (hts : t.LooksLike s) : u.LooksLike s where
  walks w hw hstart := by
    obtain ⟨hstarts, hfault, hevents⟩ := hts.walks w hw hstart
    obtain ⟨hstarts', hfault', hevents'⟩ :=
      hut.walks { w with code := t.code } rfl ((hts.isStart w.next).mpr hstart)
    exact ⟨hstarts'.trans hstarts, hfault'.trans hfault, hevents'.trans hevents⟩
  lengths bci hstart := (hut.lengths bci ((hts.isStart bci).mpr hstart)).trans (hts.lengths bci hstart)
  reports bci mode method hstart :=
    (hut.reports bci mode method ((hts.isStart bci).mpr hstart)).trans (hts.reports bci mode method hstart)
  kinds bci mode method hstart :=
    (hut.kinds bci mode method ((hts.isStart bci).mpr hstart)).trans (hts.kinds bci mode method hstart)
  memberRefs bci mode method family hstart hfamily hmember := by
    have hreport := hts.reports bci mode method hstart
    have hfamily' : ((t.body method).cursor mode bci).family = .ok family :=
      (congrArg Cursor.Report.family hreport).trans hfamily
    exact (hut.memberRefs bci mode method family ((hts.isStart bci).mpr hstart) hfamily' hmember).trans
      (hts.memberRefs bci mode method family hstart hfamily hmember)

/-! ### One quickening -/

namespace Code.Refitted

variable (h : c.Refitted d b n raw op e e')

include h

theorem byteAt_eq (hne : a ≠ b) : d.byteAt a = c.byteAt a :=
  (Code.byteAt_setByte h.store a).trans (if_neg hne)

/-- Instructions of one walk do not overlap: those in front of `b` end there, and those behind it are as they
were. -/
theorem sameInstruction (hb : c.IsStart b) (ha : c.IsStart a) : d.SameInstruction c a := by
  have hsize := Code.size_setByte h.store
  rcases Nat.lt_trichotomy a b with hlt | rfl | hgt
  · obtain ⟨m, hm⟩ := ha.exists_length hb hlt
    have hend := ha.end_le hb hlt hm
    obtain ⟨op₁, e₁, hocc⟩ := Code.lengthAt_eq_some_iff.mp hm
    have hbytes : Set.EqOn d.byteAt c.byteAt (Set.Ico a (a + m)) := fun i hi =>
      h.byteAt_eq (Nat.ne_of_lt (Nat.lt_of_lt_of_le hi.2 hend))
    exact .operands ⟨hocc.of_eqOn hbytes (hsize ▸ hocc.ends), hocc, rfl, fun _ => rfl,
      hbytes.mono (Set.Ico_subset_Ico (Nat.le_succ a) (Nat.le_refl _))⟩
  · exact .operands ⟨h.after, h.before, h.canonical, fun hf => absurd hf h.plain, fun i hi =>
      h.byteAt_eq (Nat.ne_of_gt hi.1)⟩
  · exact .rest ⟨hsize, fun i hi => h.byteAt_eq (Nat.ne_of_gt (Nat.lt_of_lt_of_le hgt hi))⟩

end Code.Refitted

/-- After one quickening at an instruction start, everything looks as before. -/
theorem quickenBy_looksLike {resolver : Resolver} (hlinks : resolver.LinksFields) (mode : Mode) (method : Method)
    (thread : Thread) (hstart : s.code.IsStart bci) :
    (exec (LinkM.quickenBy mode method bci resolver thread) s).2.LooksLike s := by
  obtain ⟨_, t, hexec, hcode, hreferences, -⟩ := quickenBy_refits hlinks mode method bci thread s
  rw [hexec]
  rcases hcode with hcode | ⟨n, raw, op, e, e', hfit⟩
  · exact .of_references hcode hreferences
  · exact .of_sameInstruction hreferences fun _ ha => hfit.sameInstruction hstart ha

/-! ### Any number of quickenings -/

/-- A call of quickening. -/
structure QuickenCall where
  mode : Mode
  method : Method
  bci : Nat
  resolver : Resolver
  thread : Thread

namespace QuickenCall

/-- Makes a call. -/
def run (call : QuickenCall) : LinkM (Option Opcode) :=
  LinkM.quickenBy call.mode call.method call.bci call.resolver call.thread

/-- The state that calls leave, made one after the other, whatever they answer. -/
def runAll : List QuickenCall → LinkState → LinkState
  | [], s => s
  | call :: calls, s => runAll calls (exec call.run s).2

theorem runAll_looksLike (calls : List QuickenCall) (s : LinkState)
    (hstarts : ∀ call ∈ calls, s.code.IsStart call.bci)
    (hlinks : ∀ call ∈ calls, call.resolver.LinksFields) : (runAll calls s).LooksLike s := by
  induction calls generalizing s with
  | nil => exact .refl s
  | cons call calls ih =>
      have hlooks := quickenBy_looksLike (hlinks call List.mem_cons_self) call.mode call.method call.thread
        (hstarts call List.mem_cons_self)
      refine (ih (exec call.run s).2 (fun later hlater => ?_) fun later hlater => ?_).trans hlooks
      · exact (hlooks.isStart _).mpr (hstarts later (List.mem_cons_of_mem _ hlater))
      · exact hlinks later (List.mem_cons_of_mem _ hlater)

/-- Quickening is invisible to decoding, and breaks no contract, whatever the resolvers answer, as long as they fill
slots only and do not go back into the method themselves. -/
theorem invisible (calls : List QuickenCall) (s : LinkState)
    (hstarts : ∀ call ∈ calls, s.code.IsStart call.bci)
    (hlinks : ∀ call ∈ calls, call.resolver.LinksFields) :
    (runAll calls s).LooksLike s ∧
      ∀ call : QuickenCall, call.resolver.LinksFields →
        ∀ v, (exec call.run (runAll calls s)).1 ≠ .error (.violation v) := by
  refine ⟨runAll_looksLike calls s hstarts hlinks, fun call hcall v hbroken => ?_⟩
  obtain ⟨_, _, hexec, -, -, hkeeps⟩ :=
    quickenBy_refits hcall call.mode call.method call.bci call.thread (runAll calls s)
  rw [run, hexec] at hbroken
  exact hkeeps _ hbroken v rfl

/-- Quickening at a position of the sample class. -/
def sampleAt (bci : Nat) : QuickenCall := ⟨.checked, sampleReader, bci, sampleRegistry.resolver, .detached⟩

/-- The load in front of the reading of the field waits at first, and becomes fast after it. -/
theorem invisible_sample :
    (runAll [sampleAt 0, sampleAt 1, sampleAt 0] sampleClass).code.bytes = #[0xdb, 0xd0, 0x00, 0x00, 0xb1] ∧
      (runAll [sampleAt 0, sampleAt 1, sampleAt 0] sampleClass).LooksLike sampleClass ∧
      ∀ v, (exec (sampleAt 1).run (runAll [sampleAt 0, sampleAt 1, sampleAt 0] sampleClass)).1 ≠
        .error (.violation v) := by
  have hlength : sampleClass.code.lengthAt 0 = .ok (some 1) := by
    decide +kernel
  have hstarts : ∀ call ∈ [sampleAt 0, sampleAt 1, sampleAt 0], sampleClass.code.IsStart call.bci := by
    intro call hcall
    simp only [List.mem_cons, List.not_mem_nil, or_false] at hcall
    rcases hcall with rfl | rfl | rfl
    · exact .refl 0
    · exact .step hlength (.refl 1)
    · exact .refl 0
  have hlinks : ∀ call ∈ [sampleAt 0, sampleAt 1, sampleAt 0], call.resolver.LinksFields := by
    intro call hcall
    simp only [List.mem_cons, List.not_mem_nil, or_false] at hcall
    rcases hcall with rfl | rfl | rfl <;> exact sampleRegistry.linksFields
  obtain ⟨hlooks, hkeeps⟩ := invisible _ sampleClass hstarts hlinks
  exact ⟨by decide +kernel, hlooks, hkeeps (sampleAt 1) sampleRegistry.linksFields⟩

end QuickenCall

end MethodCode
