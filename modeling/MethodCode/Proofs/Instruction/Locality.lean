import MethodCode.Proofs.Instruction.Safety
import MethodCode.Proofs.Mode.Operation

/-! Decoding is local: two codes that hold the same bytes of a complete instruction tell the same of it,
whatever stands before and behind. A reader that reads at an offset fixed by its caller stays in the
instruction if the offset does; one that finds its own way (a length, a branch, a table) finds it by bytes
of the instruction, so it never leaves them. The methods may be made apart, as long as they are named
alike: a method gets into a failure by its name only, so failures are compared by what they tell. Main
statement: `MethodBody.decoding_local`. -/

namespace MethodCode

open FormatTable (standard)

/-! ### What failures tell -/

/-- What a fault tells: the class and the message of an error and where it passed through, or the message
of a violation. -/
inductive Fault.Report where
  | error (kind : ErrorKind) (message : String) (contexts : List String)
  | violation (message : String)
  | outOfBounds
  deriving DecidableEq

/-- What a fault tells. -/
def Fault.report : Fault → Report
  | error e => .error e.kind e.message (e.contexts.map Context.text)
  | violation v => .violation v.message
  | outOfBounds => .outOfBounds

/-- Two calls give the same answer, or fail with faults that tell the same. -/
def TellAlike {α : Type} (x y : Except Fault α) : Prop :=
  x.mapError Fault.report = y.mapError Fault.report

namespace TellAlike

variable {α β : Type} {x y : Except Fault α}

theorem of_eq (h : x = y) : TellAlike x y := congrArg (Except.mapError Fault.report) h

theorem error {f f' : Fault} (h : f'.report = f.report) : TellAlike (.error f' : Except Fault α) (.error f) :=
  congrArg Except.error h

theorem trans {z : Except Fault α} (hxy : TellAlike x y) (hyz : TellAlike y z) : TellAlike x z :=
  Eq.trans hxy hyz

theorem bind {f g : α → Except Fault β} (h : TellAlike x y) (hfg : ∀ a, TellAlike (f a) (g a)) :
    TellAlike (x >>= f) (y >>= g) := by
  cases x with
  | error e =>
      cases y with
      | error e' => exact congrArg Except.error (Except.error.inj h)
      | ok b => cases h
  | ok a =>
      cases y with
      | error e' => cases h
      | ok b =>
          obtain rfl : a = b := Except.ok.inj h
          exact hfg a

/-- What two calls answer does not matter where it is dropped. -/
theorem bind_dropped {γ : Type} {z : Except Fault γ} {f : α → Except Fault β} {g : γ → Except Fault β}
    {k : β} (h : TellAlike ((fun _ => ()) <$> x) ((fun _ => ()) <$> z)) (hf : ∀ a, f a = .ok k)
    (hg : ∀ c, g c = .ok k) : TellAlike (x >>= f) (z >>= g) := by
  cases x with
  | error e =>
      cases z with
      | error e' => exact congrArg Except.error (Except.error.inj h)
      | ok c => cases h
  | ok a =>
      cases z with
      | error e' => cases h
      | ok c => exact of_eq ((hf a).trans (hg c).symm)

/-- An error tells the method of its context by name. -/
theorem inContext {m m' : Method} (htext : m'.text = m.text) (bci : Nat) (call : Except Error α) :
    TellAlike (liftM (MethodCode.inContext (.site m' bci) call) : Except Fault α)
      (liftM (MethodCode.inContext (.site m bci) call)) := by
  cases call with
  | ok a => exact .of_eq rfl
  | error e =>
      have hcontext : Context.text (.site m' bci) = Context.text (.site m bci) := by
        rw [Context.text, Context.text, htext]
      have hreport : Fault.report (.error (e.within (.site m' bci))) =
          Fault.report (.error (e.within (.site m bci))) := by
        simp only [Fault.report, Error.within, Error.kind, Error.message, List.map_append, List.map_cons,
          hcontext]
      exact error hreport

theorem noCache {m m' : Method} (htext : m'.text = m.text) :
    TellAlike (throw (.of (.noCache m')) : Except Fault α) (throw (.of (.noCache m))) := by
  have hmessage (k : Method) : Cause.message (.noCache k) = k.text ++ " has no resolution cache" := rfl
  have hreport : Cause.message (.noCache m') = Cause.message (.noCache m) := by
    rw [hmessage, hmessage, htext]
  exact error (congrArg (Fault.Report.error .lookup · []) hreport)

end TellAlike

/-! ### Cursors -/

/-- The bytes from the opcode on that a call takes in at an offset which its caller fixes. Lengths, branches
and claims find out by themselves where to read. -/
def CursorCall.reach {α : Type} : CursorCall α → Nat
  | byteAt offset => offset + 1
  | wordAt offset => offset + 4
  | wideOpcode => 2
  | indexU1 _ => 2
  | indexU2 _ wide => (if wide then 2 else 1) + 2
  | cacheIndexU2 _ _ => 3
  | indexU4 _ => 5
  | offsetS2 _ => 3
  | offsetS4 _ => 5
  | constantS1 offset _ => offset + 1
  | constantS2 offset _ _ => offset + 2
  | _ => 0

variable {c d : Code} {bci n : Nat} {op : Opcode} {e : FormatEntry} {mode : Mode} {method : Option Method}

/-- A wide prefix has the opcode that it widens in its instruction. -/
theorem Code.Occupies.two_le_of_wide (h : c.Occupies bci n .wide e) : 2 ≤ n := by
  have hshape : standard.shape? .wide = some (none, .wide) := by decide +kernel
  obtain ⟨e', he', heq⟩ := Option.map_eq_some_iff.mp hshape
  obtain rfl : e' = e := Option.some.inj (he'.symm.trans h.entry)
  obtain ⟨hnone, hwide⟩ := Prod.mk.inj heq
  cases h.states with
  | fixed hlength => rw [hnone] at hlength; cases hlength
  | wide _ _ _ hentry hlength => exact (FormatTable.regular_standard hentry).2.1 n hlength
  | tableSwitch _ hcanonical => rw [hwide] at hcanonical; exact absurd hcanonical (by decide)
  | lookupSwitch _ hcanonical => rw [hwide] at hcanonical; exact absurd hcanonical (by decide)
  | hidden _ hcanonical => exact absurd hwide hcanonical

/-- Both codes hold all bytes of the instruction at a position, and the same ones. -/
structure Code.SameBytes (d c : Code) (bci n : Nat) (op : Opcode) (e : FormatEntry) : Prop where
  after : d.Occupies bci n op e
  before : c.Occupies bci n op e
  bytes : Set.EqOn d.byteAt c.byteAt (Set.Ico bci (bci + n))

namespace Code.SameBytes

variable (h : d.SameBytes c bci n op e)

include h

theorem sameOperands : d.SameOperands c bci n op op e e :=
  ⟨h.after, h.before, rfl, fun _ => rfl, h.bytes.mono (Set.Ico_subset_Ico_left (Nat.le_succ bci))⟩

theorem byteAt_eq {k : Nat} (hk : k < n) :
    (d.viewAt mode method bci).byteAt k = (c.viewAt mode method bci).byteAt k :=
  h.bytes ⟨Nat.le_add_right bci k, Nat.add_lt_add_left hk bci⟩

theorem wideOpcode_eq (hn : 2 ≤ n) :
    (d.viewAt mode method bci).wideOpcode = (c.viewAt mode method bci).wideOpcode :=
  opcodeAt_congr (h.bytes ⟨Nat.le_add_right bci 1, Nat.add_lt_add_left hn bci⟩)

theorem u16At_eq (order : ByteOrder) {k : Nat} (hk : k + 2 ≤ n) :
    (d.viewAt mode method bci).code.u16At order ((d.viewAt mode method bci).bci + k) =
      (c.viewAt mode method bci).code.u16At order ((c.viewAt mode method bci).bci + k) :=
  u16At_congr (h.bytes.mono (Set.Ico_subset_Ico (Nat.le_add_right bci k) (Nat.add_le_add_left hk bci)))

theorem u32At_eq (order : ByteOrder) {k : Nat} (hk : k + 4 ≤ n) :
    (d.viewAt mode method bci).code.u32At order ((d.viewAt mode method bci).bci + k) =
      (c.viewAt mode method bci).code.u32At order ((c.viewAt mode method bci).bci + k) :=
  u32At_congr (h.bytes.mono (Set.Ico_subset_Ico (Nat.le_add_right bci k) (Nat.add_le_add_left hk bci)))

theorem wordAt_eq {k : Nat} (hk : k + 4 ≤ n) :
    (d.viewAt mode method bci).wordAt k = (c.viewAt mode method bci).wordAt k := by
  rw [Cursor.wordAt, Cursor.wordAt, h.u32At_eq .java hk]

/-- A claim looks behind the opcode only if this is a wide prefix. -/
theorem claimFormat_eq (claimed : Opcode) (wide : Bool) :
    (d.viewAt mode method bci).claimFormat claimed wide =
      (c.viewAt mode method bci).claimFormat claimed wide := by
  have hraw : (c.viewAt mode method bci).rawOpcode = .ok op := h.before.opcode
  have hraw' : (d.viewAt mode method bci).rawOpcode = .ok op := h.after.opcode
  by_cases hop : op = .wide
  · subst hop
    simp only [Cursor.claimFormat, hraw, hraw', h.wideOpcode_eq h.before.two_le_of_wide]
    rfl
  · cases wide with
    | false =>
        simp only [Cursor.claimFormat, hraw, hraw']
        rfl
    | true =>
        simp only [Cursor.claimFormat, hraw, hraw', ok_bind, if_true, ensure, hop, decide_false,
          Bool.false_eq_true, if_false, error_bind]
        rfl

theorem call_eq {α : Type} (call : CursorCall α) (hreach : call.reach ≤ n) :
    call.run (d.viewAt mode method bci) = call.run (c.viewAt mode method bci) := by
  have hreport : (d.viewAt mode method bci).report = (c.viewAt mode method bci).report :=
    h.sameOperands.report_eq
  simp only [Cursor.report, Cursor.Report.mk.injEq] at hreport
  obtain ⟨hopcode, hfamily, hlength, hchecked, hdestination⟩ := hreport
  have hraw : (d.viewAt mode method bci).rawOpcode = (c.viewAt mode method bci).rawOpcode :=
    h.after.opcode.trans h.before.opcode.symm
  cases call with
  | byteAt offset => exact h.byteAt_eq hreach
  | rawOpcode => exact hraw
  | opcode => exact hopcode
  | isWide =>
      change Cursor.isWide _ = Cursor.isWide _
      rw [Cursor.isWide, Cursor.isWide, hraw]
  | wideOpcode => exact h.wideOpcode_eq hreach
  | family => exact hfamily
  | name =>
      change Cursor.name _ = Cursor.name _
      rw [Cursor.name, Cursor.name, hraw]
      rfl
  | wordAt offset => exact h.wordAt_eq hreach
  | indexU1 claimed =>
      change Cursor.indexU1 _ _ = Cursor.indexU1 _ _
      rw [Cursor.indexU1, Cursor.indexU1, h.claimFormat_eq, h.byteAt_eq hreach]
      rfl
  | indexU2 claimed wide =>
      change Cursor.indexU2 _ _ _ = Cursor.indexU2 _ _ _
      simp only [Cursor.indexU2, h.claimFormat_eq, h.u16At_eq _ hreach]
      rfl
  | cacheIndexU2 claimed tag =>
      change Cursor.cacheIndexU2 _ _ _ = Cursor.cacheIndexU2 _ _ _
      rw [Cursor.cacheIndexU2, Cursor.cacheIndexU2, h.claimFormat_eq, h.u16At_eq .native hreach]
      rfl
  | indexU4 claimed =>
      change Cursor.indexU4 _ _ = Cursor.indexU4 _ _
      rw [Cursor.indexU4, Cursor.indexU4, h.claimFormat_eq, h.u32At_eq .native hreach]
      rfl
  | offsetS2 claimed =>
      change Cursor.offsetS2 _ _ = Cursor.offsetS2 _ _
      rw [Cursor.offsetS2, Cursor.offsetS2, h.claimFormat_eq, h.u16At_eq .java hreach]
      rfl
  | offsetS4 claimed =>
      change Cursor.offsetS4 _ _ = Cursor.offsetS4 _ _
      rw [Cursor.offsetS4, Cursor.offsetS4, h.claimFormat_eq, h.wordAt_eq hreach]
      rfl
  | constantS1 offset claimed =>
      change Cursor.constantS1 _ _ _ = Cursor.constantS1 _ _ _
      rw [Cursor.constantS1, Cursor.constantS1, h.claimFormat_eq, h.byteAt_eq hreach]
      rfl
  | constantS2 offset claimed wide =>
      change Cursor.constantS2 _ _ _ _ = Cursor.constantS2 _ _ _ _
      rw [Cursor.constantS2, Cursor.constantS2, h.claimFormat_eq, h.u16At_eq .java hreach]
      rfl
  | branchDestination => exact hdestination
  | length => exact hlength
  | checkedLength => exact hchecked
  | claimFormat claimed wide => exact h.claimFormat_eq claimed wide
  | alignedOffset | hasWideIndex | isNative | mustRewrite | claimIndexSize | claimOffsetSize
  | claimConstantSize | claimNativeIndex => rfl

end Code.SameBytes

/-- The method that a cursor belongs to is not looked at. -/
theorem CursorCall.run_viewAt {α : Type} (call : CursorCall α) (m m' : Option Method) :
    call.run (c.viewAt mode m' bci) = call.run (c.viewAt mode m bci) := by
  cases call <;> rfl

/-! ### Views -/

/-- A call asks for a position that the table has. -/
def TableSwitchCall.InBounds {α : Type} (t : TableSwitch) : TableSwitchCall α → Prop
  | offsetAt i => ∃ size, t.size = .ok size ∧ i < size
  | _ => True

/-- A call asks for a pair that the lookup has. -/
def LookupSwitchCall.InBounds {α : Type} (l : LookupSwitch) : LookupSwitchCall α → Prop
  | pairAt i => ∃ size, l.size = .ok size ∧ i < size
  | _ => True

namespace Decoded

/-- Two views of one kind tell the same of their operands, whatever they are asked for that they have. -/
inductive SameAnswers : Decoded → Decoded → Prop where
  | memberRef {r' r : MemberRef}
      (h : ∀ {α : Type} (call : MemberRefCall α), TellAlike (call.run r') (call.run r)) :
      SameAnswers (.memberRef r') (.memberRef r)
  | loadConstant {l' l : LoadConstant}
      (h : ∀ {α : Type} (call : LoadConstantCall α), TellAlike (call.run l') (call.run l)) :
      SameAnswers (.loadConstant l') (.loadConstant l)
  | tableSwitch {t' t : TableSwitch}
      (h : ∀ {α : Type} (call : TableSwitchCall α), call.InBounds t → call.run t' = call.run t) :
      SameAnswers (.tableSwitch t') (.tableSwitch t)
  | lookupSwitch {l' l : LookupSwitch}
      (h : ∀ {α : Type} (call : LookupSwitchCall α), call.InBounds l → call.run l' = call.run l) :
      SameAnswers (.lookupSwitch l') (.lookupSwitch l)
  | typeRef {r' r : TypeRef}
      (h : ∀ {α : Type} (call : TypeRefCall α), TellAlike (call.run r') (call.run r)) :
      SameAnswers (.typeRef r') (.typeRef r)
  | plain {c' c : Cursor} : SameAnswers (.plain c') (.plain c)

/-- Two views of one kind tell the same: their cursors about the first `n` bytes, and they themselves about
their operands. -/
structure SameView (n : Nat) (d' d : Decoded) : Prop where
  cursor : ∀ {α : Type} (call : CursorCall α), call.reach ≤ n → call.run d'.cursor = call.run d.cursor
  answers : d'.SameAnswers d

/-- Decoding gives the same view, or fails with faults that tell the same. -/
inductive SameOutcome (n : Nat) : Except Fault Decoded → Except Fault Decoded → Prop where
  | view {d' d : Decoded} (h : d'.SameView n d) : SameOutcome n (.ok d') (.ok d)
  | fault {f' f : Fault} (h : f'.report = f.report) : SameOutcome n (.error f') (.error f)

end Decoded

/-- The same code and constants in a method of another name. -/
def MethodBody.named (body : MethodBody) (m : Method) : MethodBody := { body with method := m }

section Views

variable {body body' : MethodBody} (h : body'.code.SameBytes body.code bci n op e)
  (htext : body'.method.text = body.method.text)
  (hreferences : body'.constants.references = body.constants.references)

include h

theorem Code.SameBytes.cursor_eq {α : Type} (call : CursorCall α) (hreach : call.reach ≤ n) :
    call.run (body'.cursor mode bci) = call.run (body.cursor mode bci) :=
  (call.run_viewAt (some body.method) (some body'.method)).trans (h.call_eq call hreach)

include htext hreferences

theorem MemberRef.call_tellAlike (hfamily : e.family ∈ families) {α : Type} (call : MemberRefCall α) :
    TellAlike (call.run (body'.memberRefAt mode bci)) (call.run (body.memberRefAt mode bci)) := by
  have hreport : ((body'.named body.method).memberRefAt mode bci).report = (body.memberRefAt mode bci).report :=
    Code.SameOperands.memberRef_report_eq h.sameOperands rfl hreferences hfamily
  simp only [report, Report.mk.injEq] at hreport
  obtain ⟨hindex, hcacheIndex, -, -, -, -, -, hinvoke, hfield, hstatic, hreceiver, -⟩ := hreport
  obtain ⟨hpool, hcache⟩ := Constants.cases_of_references hreferences
  have hraw : (body'.memberRefAt mode bci).rawOpcode = (body.memberRefAt mode bci).rawOpcode :=
    h.cursor_eq .rawOpcode (Nat.zero_le n)
  have hvalid : (body'.cursor mode bci).family = (body.cursor mode bci).family :=
    h.cursor_eq .family (Nat.zero_le n)
  have hpoolIndex : TellAlike (body'.memberRefAt mode bci).poolIndex (body.memberRefAt mode bci).poolIndex := by
    rw [poolIndex, poolIndex, MethodBody.memberRefAt, MethodBody.memberRefAt]
    rcases hcache with ⟨hnone', hnone⟩ | ⟨cache', cache, hsome', hsome, hsame⟩
    · rw [hnone', hnone]
      exact .noCache htext
    · rw [hsome', hsome]
      refine (TellAlike.of_eq hcacheIndex).bind fun i => ?_
      rw [Cache.poolIndexAt_congr hsame]
      exact .inContext htext bci _
  have hsignature : TellAlike (body'.memberRefAt mode bci).signature (body.memberRefAt mode bci).signature :=
    hpoolIndex.bind fun p => .of_eq (by rw [MethodBody.memberRefAt, MethodBody.memberRefAt, hpool])
  cases call with
  | opcode => exact .of_eq (h.cursor_eq .opcode (Nat.zero_le n))
  | isValid =>
      change TellAlike (isValid _) (isValid _)
      rw [isValid, isValid, MethodBody.memberRefAt, MethodBody.memberRefAt, hvalid]
      exact .of_eq rfl
  | invokeKind => exact .of_eq hinvoke
  | fieldAccess => exact .of_eq hfield
  | hasWideIndex =>
      change TellAlike (hasWideIndex _) (hasWideIndex _)
      rw [hasWideIndex, hasWideIndex, hraw]
      exact .of_eq rfl
  | index => exact .of_eq hindex
  | cacheIndex => exact .of_eq hcacheIndex
  | poolIndex => exact hpoolIndex
  | symbolicRef => exact hpoolIndex.bind fun p => (TellAlike.of_eq hcacheIndex).bind fun i => .of_eq rfl
  | name => exact hpoolIndex.bind fun p => .of_eq (by rw [MethodBody.memberRefAt, MethodBody.memberRefAt, hpool])
  | signature => exact hsignature
  | holderName =>
      exact hpoolIndex.bind fun p => .of_eq (by rw [MethodBody.memberRefAt, MethodBody.memberRefAt, hpool])
  | resultType => exact hsignature.bind fun _ => .of_eq rfl
  | isStatic => exact .of_eq hstatic
  | hasReceiver => exact .of_eq hreceiver
  | parameterSize =>
      exact hsignature.bind fun _ => (TellAlike.of_eq rfl).bind fun _ =>
        (TellAlike.of_eq hreceiver).bind fun _ => .of_eq rfl

theorem LoadConstant.call_tellAlike (hfamily : e.family = .loadConstant) {α : Type}
    (call : LoadConstantCall α) :
    TellAlike (call.run (body'.loadAt mode bci)) (call.run (body.loadAt mode bci)) := by
  obtain ⟨hpool, hcache⟩ := Constants.cases_of_references hreferences
  have hroom := h.before.room_of_load hfamily
  have hvalid : (body'.cursor mode bci).family = (body.cursor mode bci).family :=
    h.cursor_eq .family (Nat.zero_le n)
  have hrawIndex : (body'.loadAt mode bci).rawIndex = (body.loadAt mode bci).rawIndex := by
    rw [rawIndex_eq h.after.opcode h.after.entry hfamily, rawIndex_eq h.before.opcode h.before.entry hfamily]
    by_cases hldc : e.canonical = .ldc
    · rw [if_pos hldc] at hroom
      have hread : body'.code.byteAt (bci + 1) = body.code.byteAt (bci + 1) := h.bytes ⟨by omega, by omega⟩
      rw [if_pos hldc, if_pos hldc, hread]
    · rw [if_neg hldc] at hroom
      rw [if_neg hldc, if_neg hldc]
      exact Code.u16At_congr (h.bytes.mono (Set.Ico_subset_Ico (by omega) (by omega)))
  have hcached : (body'.loadAt mode bci).hasCacheIndex = (body.loadAt mode bci).hasCacheIndex := by
    rw [hasCacheIndex_eq h.after.opcode, hasCacheIndex_eq h.before.opcode]
  have hbody : (body.loadAt mode bci).boundBody = .ok body := rfl
  have hbody' : (body'.loadAt mode bci).boundBody = .ok body' := rfl
  have hpoolIndex : TellAlike (body'.loadAt mode bci).poolIndex (body.loadAt mode bci).poolIndex := by
    rw [poolIndex, poolIndex]
    refine (TellAlike.of_eq hrawIndex).bind fun index => (TellAlike.of_eq hcached).bind fun cached => ?_
    cases cached with
    | false => exact .of_eq rfl
    | true =>
        rcases hcache with ⟨hnone', hnone⟩ | ⟨cache', cache, hsome', hsome, hsame⟩
        · simp only [hbody', hbody, ok_bind, hnone', hnone]
          exact .noCache htext
        · simp only [hbody', hbody, ok_bind, hsome', hsome]
          exact .of_eq (congrArg liftM (Cache.poolIndexAt_congr hsame _))
  cases call with
  | isValid =>
      change TellAlike (isValid _) (isValid _)
      rw [isValid, isValid, MethodBody.loadAt, MethodBody.loadAt, hvalid]
      exact .of_eq rfl
  | rawIndex => exact .of_eq hrawIndex
  | hasCacheIndex => exact .of_eq hcached
  | poolIndex => exact hpoolIndex
  | resultType =>
      change TellAlike (resultType _) (resultType _)
      rw [resultType, resultType, hbody, hbody', ok_bind, ok_bind, hpool]
      exact hpoolIndex.bind fun _ => .of_eq rfl

theorem TypeRef.call_tellAlike (hfamily : e.family = .typeReference) {α : Type} (call : TypeRefCall α) :
    TellAlike (call.run ⟨body'.cursor mode bci, body'⟩) (call.run ⟨body.cursor mode bci, body⟩) := by
  obtain ⟨-, hlength⟩ := FormatTable.laidOut_of_typeReference h.before.entry hfamily
  have hroom := h.before.eq_of_length hlength
  have hpool := (Constants.cases_of_references hreferences).1
  have hvalid : (body'.cursor mode bci).family = (body.cursor mode bci).family :=
    h.cursor_eq .family (Nat.zero_le n)
  have hraw : (body.cursor mode bci).rawOpcode = .ok op := h.before.opcode
  have hraw' : (body'.cursor mode bci).rawOpcode = .ok op := h.after.opcode
  have hindex : index ⟨body'.cursor mode bci, body'⟩ = index ⟨body.cursor mode bci, body⟩ := by
    rw [index, index, hraw, hraw']
    exact h.cursor_eq (.indexU2 op false) (show 1 + 2 ≤ n by split at hroom <;> omega)
  cases call with
  | isValid =>
      change TellAlike (isValid _) (isValid _)
      rw [isValid, isValid, hvalid]
      exact .of_eq rfl
  | index => exact .of_eq hindex
  | className =>
      refine (TellAlike.of_eq hindex).bind fun i => ?_
      rw [hpool]
      exact .inContext htext bci _
  | dimensions =>
      change TellAlike (dimensions _) (dimensions _)
      rw [dimensions, dimensions, Cursor.opcode_of_entry hraw h.before.entry,
        Cursor.opcode_of_entry hraw' h.after.entry, ok_bind, ok_bind]
      by_cases hmulti : e.canonical = .multianewarray
      · have hread : (body'.cursor mode bci).byteAt 3 = (body.cursor mode bci).byteAt 3 :=
          h.cursor_eq (.byteAt 3) (show 3 + 1 ≤ n by rw [if_pos hmulti] at hroom; omega)
        rw [hread]
        exact .of_eq rfl
      · rw [if_neg hmulti, if_neg hmulti]
        exact .of_eq rfl

omit htext hreferences

theorem TableSwitch.call_eq (hfamily : e.family = .tableSwitch) {α : Type} (call : TableSwitchCall α)
    (hbounds : call.InBounds ⟨body.cursor mode bci⟩) :
    call.run ⟨body'.cursor mode bci⟩ = call.run ⟨body.cursor mode bci⟩ := by
  have hsame : SameTargets ⟨body'.code.viewAt mode (some body.method) bci⟩ ⟨body.cursor mode bci⟩ :=
    TableSwitch.sameTargets h.before hfamily h.sameOperands.operands
  have hvalid : (body'.cursor mode bci).family = (body.cursor mode bci).family :=
    h.cursor_eq .family (Nat.zero_le n)
  cases call with
  | isValid =>
      change isValid _ = isValid _
      rw [isValid, isValid, hvalid]
  | defaultOffset => exact hsame.defaultOffset
  | low => exact hsame.low
  | high => exact hsame.high
  | size => exact hsame.size
  | offsetAt i =>
      obtain ⟨size, hsize, hi⟩ := hbounds
      exact hsame.offsetAt size hsize i hi
  | offsetFor key => exact hsame.offsetFor key

theorem LookupSwitch.call_eq (hfamily : e.family = .lookupSwitch) {α : Type} (call : LookupSwitchCall α)
    (hbounds : call.InBounds ⟨body.cursor mode bci⟩) :
    call.run ⟨body'.cursor mode bci⟩ = call.run ⟨body.cursor mode bci⟩ := by
  have hsame : SameTargets ⟨body'.code.viewAt mode (some body.method) bci⟩ ⟨body.cursor mode bci⟩ :=
    LookupSwitch.sameTargets h.before hfamily h.sameOperands.operands
  have hvalid : (body'.cursor mode bci).family = (body.cursor mode bci).family :=
    h.cursor_eq .family (Nat.zero_le n)
  obtain ⟨total, hcomplete⟩ := complete_of_occupies h.before hfamily mode
  have hsize : size ⟨body'.cursor mode bci⟩ = .ok total := hsame.size.trans hcomplete.size
  have hpairAt (i : Nat) (hi : i < total) :
      pairAt ⟨body'.cursor mode bci⟩ i = pairAt ⟨body.cursor mode bci⟩ i :=
    hsame.pairAt total hcomplete.size i hi
  cases call with
  | isValid =>
      change isValid _ = isValid _
      rw [isValid, isValid, hvalid]
  | defaultOffset => exact hsame.defaultOffset
  | size => exact hsame.size
  | pairAt i =>
      obtain ⟨size, hsize, hi⟩ := hbounds
      exact hsame.pairAt size hsize i hi
  | firstPairs limit =>
      change firstPairs _ limit = firstPairs _ limit
      rw [firstPairs, firstPairs, hsize, hcomplete.size]
      exact pairsFrom_congr hpairAt 0 _ (by omega)
  | pairs =>
      change pairs _ = pairs _
      rw [pairs, pairs, hsize, hcomplete.size]
      exact pairsFrom_congr hpairAt 0 _ (by omega)

/-! ### Decoding -/

namespace Decoded

omit h in
theorem eq_ofFamily_of_decode (hocc : body.code.Occupies bci n op e) {d : Decoded}
    (hd : decode mode body bci = .ok d) : d = ofFamily mode body bci e.family := by
  cases mode with
  | unchecked => exact Except.ok.inj (hd.symm.trans (decode_unchecked hocc))
  | checked =>
      rcases decode_cases hocc with ⟨-, hok⟩ | ⟨-, v, -, herror⟩
      · exact Except.ok.inj (hd.symm.trans hok)
      · rw [herror] at hd
        cases hd

include htext hreferences

theorem sameView_ofFamily :
    (ofFamily mode body' bci e.family).SameView n (ofFamily mode body bci e.family) where
  cursor call hreach := by
    rw [cursor_ofFamily, cursor_ofFamily]
    exact h.cursor_eq call hreach
  answers := by
    cases hfamily : e.family with
    | fieldAccess | invoke | dynamicInvoke =>
        exact .memberRef (MemberRef.call_tellAlike h htext hreferences (by rw [hfamily]; decide))
    | loadConstant => exact .loadConstant (LoadConstant.call_tellAlike h htext hreferences hfamily)
    | tableSwitch => exact .tableSwitch (TableSwitch.call_eq h hfamily)
    | lookupSwitch => exact .lookupSwitch (LookupSwitch.call_eq h hfamily)
    | typeReference => exact .typeRef (TypeRef.call_tellAlike h htext hreferences hfamily)
    | branch | other => exact .plain

omit h hreferences in
/-- Without a cache an invoke is refused, by a violation that names its method. -/
theorem tellAlike_memberRef :
    TellAlike ((fun _ => ()) <$> MemberRef.decode mode body' bci)
      ((fun _ => ()) <$> MemberRef.decode mode (body'.named body.method) bci) := by
  have hmessage (m : Method) : Violation.message (.unlinkedInvoke bci m) =
      "invoke at bci " ++ toString bci ++ " decoded before " ++ m.text ++ " was linked" := rfl
  have hrefused : TellAlike (.error (.violation (.unlinkedInvoke bci body'.method)) : Except Fault Unit)
      (.error (.violation (.unlinkedInvoke bci body.method))) :=
    .error (congrArg Fault.Report.violation (by rw [hmessage, hmessage, htext]))
  have hlinked : TellAlike
      (mode.check (ensure body'.constants.cache.isSome (.unlinkedInvoke bci body'.method)))
      (mode.check (ensure body'.constants.cache.isSome (.unlinkedInvoke bci body.method))) := by
    cases mode with
    | unchecked => exact .of_eq rfl
    | checked =>
        cases body'.constants.cache with
        | none => exact hrefused
        | some cache => exact .of_eq rfl
  unfold MemberRef.decode
  simp only [map_bind]
  refine (TellAlike.of_eq rfl).bind fun _ => (TellAlike.of_eq rfl).bind fun kind => ?_
  cases kind with
  | none => exact .of_eq rfl
  | some kind =>
      simp only [Option.isSome_some, if_true, map_bind]
      exact hlinked.bind fun _ => .of_eq rfl

omit h hreferences in
theorem tellAlike_named :
    TellAlike ((fun _ => ()) <$> decode mode body' bci)
      ((fun _ => ()) <$> decode mode (body'.named body.method) bci) := by
  unfold decode
  simp only [map_bind]
  refine (TellAlike.of_eq rfl).bind fun family => ?_
  cases family with
  | fieldAccess | invoke | dynamicInvoke =>
      simp only [map_bind]
      exact (tellAlike_memberRef htext).bind_dropped (fun _ => rfl) fun _ => rfl
  | loadConstant =>
      simp only [map_bind]
      refine .bind_dropped (.of_eq ?_) (fun _ => rfl) fun _ => rfl
      exact LoadConstant.failAlike_decode rfl rfl
  | tableSwitch =>
      simp only [map_bind]
      refine .bind_dropped (.of_eq ?_) (fun _ => rfl) fun _ => rfl
      exact TableSwitch.failAlike_decode rfl rfl rfl rfl rfl
  | lookupSwitch =>
      simp only [map_bind]
      refine .bind_dropped (.of_eq ?_) (fun _ => rfl) fun _ => rfl
      exact LookupSwitch.failAlike_decode rfl rfl rfl rfl fun _ _ _ _ => rfl
  | typeReference =>
      simp only [map_bind]
      refine .bind_dropped (.of_eq ?_) (fun _ => rfl) fun _ => rfl
      exact TypeRef.failAlike_decode rfl
  | branch | other => exact .of_eq rfl

theorem tellAlike_decode :
    TellAlike ((fun _ => ()) <$> decode mode body' bci) ((fun _ => ()) <$> decode mode body bci) := by
  have hkind : kind <$> decode mode (body'.named body.method) bci = kind <$> decode mode body bci :=
    Code.SameOperands.kind_eq h.sameOperands rfl hreferences
  have hunit : (fun _ => ()) <$> kind <$> decode mode (body'.named body.method) bci =
      (fun _ => ()) <$> kind <$> decode mode body bci := congrArg _ hkind
  simp only [Functor.map_map] at hunit
  exact (tellAlike_named htext).trans (.of_eq hunit)

theorem sameOutcome_decode (mode : Mode) :
    SameOutcome n (decode mode body' bci) (decode mode body bci) := by
  have halike : TellAlike ((fun _ => ()) <$> decode mode body' bci) ((fun _ => ()) <$> decode mode body bci) :=
    tellAlike_decode h htext hreferences
  cases hd' : decode mode body' bci with
  | error f' =>
      cases hd : decode mode body bci with
      | error f =>
          rw [hd', hd] at halike
          exact .fault (Except.error.inj halike)
      | ok d => rw [hd', hd] at halike; cases halike
  | ok d' =>
      cases hd : decode mode body bci with
      | error f => rw [hd', hd] at halike; cases halike
      | ok d =>
          rw [eq_ofFamily_of_decode h.after hd', eq_ofFamily_of_decode h.before hd]
          exact .view (sameView_ofFamily h htext hreferences)

end Decoded

end Views

/-! ### Both codes -/

/-- Two codes that hold the same bytes of a complete instruction tell the same of it, over methods of the same
name and over constants that refer to the same. The bytes of the one being there, those of the other are. -/
theorem MethodBody.decoding_local {body body' : MethodBody} {bci n : Nat}
    (hholder : body'.method.holder = body.method.holder) (hname : body'.method.name = body.method.name)
    (hsignature : body'.method.signature = body.method.signature)
    (hreferences : body'.constants.references = body.constants.references)
    (hlength : (body.cursor .checked bci).checkedLength = .ok (some n))
    (hbytes : Set.EqOn body'.code.byteAt body.code.byteAt (Set.Ico bci (bci + n))) (mode : Mode) :
    (body'.cursor mode bci).checkedLength = .ok (some n) ∧
      (body'.cursor mode bci).length = (body.cursor mode bci).length ∧
      (body'.cursor mode bci).opcode = (body.cursor mode bci).opcode ∧
      (body'.cursor mode bci).branchDestination = (body.cursor mode bci).branchDestination ∧
      Decoded.SameOutcome n (Decoded.decode mode body' bci) (Decoded.decode mode body bci) := by
  obtain ⟨op, e, hbefore⟩ : ∃ op e, body.code.Occupies bci n op e :=
    Code.lengthAt_eq_some_iff.mp ((Cursor.checkedLength_eq_lengthAt rfl).symm.trans hlength)
  have hsize : bci + n ≤ body'.code.size := by
    have hpos := hbefore.pos
    have hends := hbefore.ends
    obtain ⟨b, hb⟩ := Code.exists_byteAt (c := body.code) (show bci + n - 1 < body.code.size by omega)
    have hlast := Code.lt_size_of_byteAt ((hbytes ⟨by omega, by omega⟩).trans hb)
    omega
  have h : body'.code.SameBytes body.code bci n op e := ⟨hbefore.of_eqOn hbytes hsize, hbefore, hbytes⟩
  have htext : body'.method.text = body.method.text := by
    rw [Method.text, Method.text, hholder, hname, hsignature]
  exact ⟨(h.cursor_eq .checkedLength (Nat.zero_le n)).trans hlength, h.cursor_eq .length (Nat.zero_le n),
    h.cursor_eq .opcode (Nat.zero_le n), h.cursor_eq .branchDestination (Nat.zero_le n),
    Decoded.sameOutcome_decode h htext hreferences mode⟩

/-- A body with a table of one key between other bytes. -/
def MethodBody.tableBetween (serial : Nat) (before : UInt8) (after : List UInt8) : MethodBody where
  method := ⟨serial, .ofString "C", .ofString "m", .ofString "(I)V"⟩
  code := ⟨(before :: [0xaa, 0, 0, 0, 0, 0, 27, 0, 0, 0, 5, 0, 0, 0, 5, 0, 0, 0, 23] ++ after).toArray⟩
  constants := ⟨⟨#[.invalid]⟩, none⟩

/-- The table tells the same before a return as before bytes that are no opcodes. -/
theorem MethodBody.decoding_local_sample :
    ((tableBetween 1 0x03 [0xff, 0xff]).cursor .checked 1).checkedLength = .ok (some 19) ∧
      Decoded.SameOutcome 19 (Decoded.decode .checked (tableBetween 1 0x03 [0xff, 0xff]) 1)
        (Decoded.decode .checked (tableBetween 0 0x1a [0xb1]) 1) := by
  have hlength : ((tableBetween 0 0x1a [0xb1]).cursor .checked 1).checkedLength = .ok (some 19) := by
    decide +kernel
  have hbytes : ∀ k < 20, 1 ≤ k → (tableBetween 1 0x03 [0xff, 0xff]).code.byteAt k =
      (tableBetween 0 0x1a [0xb1]).code.byteAt k := by
    decide +kernel
  have hholder : (tableBetween 1 0x03 [0xff, 0xff]).method.holder = (tableBetween 0 0x1a [0xb1]).method.holder :=
    rfl
  obtain ⟨hafter, -, -, -, hdecode⟩ :=
    decoding_local hholder rfl rfl rfl hlength (fun k hk => hbytes k hk.2 hk.1) .checked
  exact ⟨hafter, hdecode⟩

end MethodCode
