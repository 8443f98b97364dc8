import MethodCode.Linking.Quicken
import MethodCode.Proofs.Code.Starts
import MethodCode.Proofs.Instruction.Reference
import MethodCode.Proofs.Linking.WriteOnce

/-! Fast field accesses and the cache. A fast opcode enters the code only after its field has entered the
cache, and what is in the cache stays. Main statement: whatever calls are made on a class, in whatever
order, a fast field opcode at an instruction start finds a field in its slot, and is the form for fields
of that type. -/

namespace MethodCode

open FormatTable (standard)

/-- The fast forms of `getfield` and `putfield`. -/
def Opcode.IsFastField (op : Opcode) : Prop := 0xcb ≤ op.byte ∧ op.byte ≤ 0xda

/-- The code is the same, and what is in the cache stays there. -/
def LinkState.Later (s t : LinkState) : Prop :=
  ∀ cache, s.constants.cache = some cache → t.code = s.code ∧
    ∃ d, t.constants.cache = some d ∧ ∀ i e, cache.resolvedAt i = some e → d.resolvedAt i = some e

open LinkState (Later)

instance (op : Opcode) : Decidable op.IsFastField := inferInstanceAs (Decidable (_ ∧ _))

instance : IsPreorder LinkState Later where
  refl _ cache hcache := ⟨rfl, cache, hcache, fun _ _ he => he⟩
  trans s t u hst htu cache hcache := by
    obtain ⟨hcode, d, hd, hkept⟩ := hst cache hcache
    obtain ⟨hcode', d', hd', hkept'⟩ := htu d hd
    exact ⟨hcode'.trans hcode, d', hd', fun i e he => hkept' i e (hkept i e he)⟩

theorem LinkState.SameClass.later {s t : LinkState} (h : s.SameClass t) : s.Later t :=
  fun cache hcache => ⟨h.1, cache, by rw [h.2, hcache], fun _ _ he => he⟩

theorem Keeps.later {α : Type} {x : LinkM α} (h : Keeps LinkState.SameClass x) : Keeps Later x :=
  fun s => (h s).later

theorem Settles.later {α : Type} {i : UInt32} {wrap : α → Resolved} {x : LinkM α} (h : Settles i wrap x) :
    Keeps Later x := by
  intro s cache hcache
  obtain ⟨d, hd, hcode, hsettled⟩ := h s cache hcache
  exact ⟨hcode, d, by rw [hd], hsettled.kept⟩

/-! ### Resolution -/

theorem later_resolveField (r : MemberRef) (registry : Registry) (thread : Thread) :
    Keeps Later (r.resolveField registry thread) := by
  unfold MemberRef.resolveField
  refine .bind (.lift _) fun access => ?_
  split
  · exact .bind (.lift _) fun _ => .throw _
  · exact .bind (.lift _) fun site => (settles_resolveField registry site thread).later

theorem later_staticTarget (r : MemberRef) (registry : Registry) (thread : Thread) :
    Keeps Later (r.staticTarget registry thread) := by
  unfold MemberRef.staticTarget
  refine .bind (.lift _) fun site => .bind (.lift _) fun kind => ?_
  split
  · exact (settles_resolveCallSite registry site thread).later
  · exact (settles_resolveInterfaceMethod registry site thread).later
  · exact (settles_resolveMethod registry site thread).later
  · exact .bind (.lift _) fun _ => .throw _

theorem later_resolveConstant (l : LoadConstant) (thread : Thread) : Keeps Later (l.resolve thread) := by
  unfold LoadConstant.resolve
  refine .bind (.lift _) fun body => .bind (.lift _) fun index => .bind (.lift _) fun cached =>
    .tryCatch ?_ fun _ => .throw _
  split
  · exact (settles_cachedConstantAt thread _).later
  · exact (LinkM.keeps_constantAt _ _).later

/-! ### Fast field accesses -/

/-- The instruction at a position refers to a slot that holds an object's field, and `op` is the form of
`raw` for fields of its type. -/
def FindsField (s : LinkState) (bci : Nat) (raw op : Opcode) : Prop :=
  ∃ cache n f, s.constants.cache = some cache ∧ s.code.u16At .native (bci + 1) = .ok n ∧
    cache.resolvedAt n.toUInt32 = some (.field f) ∧ f.isStatic = false ∧ raw.fastField? f.type = some op

/-- The codes that have fast forms while code runs, with their lengths. -/
theorem quickened_shapes : standard.shape? .aload0 = some (some 1, .aload0) ∧
    standard.shape? .getfield = some (some 3, .getfield) ∧
    standard.shape? .putfield = some (some 3, .putfield) := by
  decide +kernel

theorem field_shape {raw : Opcode} (h : raw = .getfield ∨ raw = .putfield) :
    standard.shape? raw = some (some 3, raw) := by
  rcases h with rfl | rfl
  · exact quickened_shapes.2.1
  · exact quickened_shapes.2.2

theorem exists_fieldAccess {raw : Opcode} (h : raw = .getfield ∨ raw = .putfield) :
    ∃ e, standard.entry? raw = some e ∧ e.family = .fieldAccess := by
  obtain ⟨e, he, hshape⟩ := Option.map_eq_some_iff.mp (field_shape h)
  refine ⟨e, he, ?_⟩
  rw [FormatEntry.family, (Prod.mk.inj hshape).2]
  rcases h with rfl | rfl <;> decide

theorem isFast_of_fastForm : ∀ form ∈ FormatTable.fastForms, form.2.isFast = true := by
  decide

theorem isFast_of_field {raw : Opcode} (h : raw = .getfield ∨ raw = .putfield) : raw.isFast = false := by
  rcases h with rfl | rfl <;> decide

theorem fastForm_of_fastField {raw op : Opcode} {type : ValueType} (hraw : raw = .getfield ∨ raw = .putfield)
    (h : raw.fastField? type = some op) : (raw, op) ∈ FormatTable.fastForms := by
  rcases hraw with rfl | rfl <;> cases type <;>
    first | (obtain rfl := Option.some.inj h; decide) | cases h

variable {s t : LinkState} {cache : Cache} {mode : Mode} {method : Method} {bci : Nat} {raw op : Opcode}
  {registry : Registry} {thread : Thread}

/-- The field that an access was resolved to is in the slot that the instruction refers to. -/
theorem resolveField_held {f : Field} {r : MemberRef} (hcache : s.constants.cache = some cache)
    (h : exec (r.resolveField registry thread) s = (.ok f, t)) :
    ∃ i d, r.cacheIndex = .ok i ∧ t.constants.cache = some d ∧ d.resolvedAt i = some (.field f) := by
  unfold MemberRef.resolveField at h
  obtain ⟨access, -, h⟩ := exec_liftM_bind_eq_ok.mp h
  split at h
  · obtain ⟨_, -, h⟩ := exec_liftM_bind_eq_ok.mp h
    cases (Prod.mk.inj h).1
  · obtain ⟨site, hsite, h⟩ := exec_liftM_bind_eq_ok.mp h
    obtain ⟨p, -, hsite⟩ := bind_eq_ok.mp hsite
    obtain ⟨i, hindex, hsite⟩ := bind_eq_ok.mp hsite
    obtain rfl := Except.ok.inj hsite
    obtain ⟨d, hd, -, hsettled⟩ := settles_resolveField registry ⟨p, i⟩ thread s cache hcache
    rw [h] at hd hsettled
    exact ⟨i, d, hindex, by rw [hd], hsettled.held _ rfl⟩

theorem fastAccess_findsField (hcache : s.constants.cache = some cache)
    (hraw : s.code.opcodeAt bci = .ok raw) (hfield : raw = .getfield ∨ raw = .putfield)
    (h : exec (LinkM.fastAccess ⟨method, s.code, s.constants⟩ mode bci raw registry thread) s = (.ok op, t)) :
    FindsField t bci raw op := by
  obtain ⟨e, he, hfamily⟩ := exists_fieldAccess hfield
  have hlaid := FormatTable.laidOut_standard he
  rw [hfamily] at hlaid
  have hdecode : MemberRef.decode mode ⟨method, s.code, s.constants⟩ bci =
      .ok (MethodBody.memberRefAt ⟨method, s.code, s.constants⟩ mode bci) :=
    MemberRef.decode_of_family hraw he (by rw [hfamily]; decide) hcache
  unfold LinkM.fastAccess at h
  rw [hdecode] at h
  obtain ⟨r, hr, h⟩ := exec_liftM_bind_eq_ok.mp h
  obtain rfl := Except.ok.inj hr
  obtain ⟨f, u, hresolve, h⟩ := exec_bind_eq_ok.mp h
  obtain ⟨i, d, hindex, hd, hheld⟩ := resolveField_held hcache hresolve
  have hlater := later_resolveField (MethodBody.memberRefAt ⟨method, s.code, s.constants⟩ mode bci)
    registry thread s cache hcache
  rw [hresolve] at hlater
  rw [MemberRef.cacheIndex_of_short hraw he hlaid.2] at hindex
  obtain ⟨n, hread, hi⟩ := bind_eq_ok.mp hindex
  obtain rfl : n.toUInt32 = i := Except.ok.inj hi
  cases hstatic : f.isStatic with
  | true =>
      rw [hstatic] at h
      cases (Prod.mk.inj h).1
  | false =>
      rw [hstatic] at h
      cases hfast : raw.fastField? f.type with
      | none =>
          rw [hfast] at h
          cases (Prod.mk.inj h).1
      | some fast =>
          rw [hfast] at h
          obtain ⟨rfl, rfl⟩ : fast = op ∧ u = t := ⟨Except.ok.inj (Prod.mk.inj h).1, (Prod.mk.inj h).2⟩
          exact ⟨d, n, f, hd, hlater.1 ▸ hread, hheld, hstatic, hfast⟩

/-! ### Quickening -/

theorem later_fastAccess (body : MethodBody) (mode : Mode) (bci : Nat) (raw : Opcode) (registry : Registry)
    (thread : Thread) : Keeps Later (LinkM.fastAccess body mode bci raw registry thread) := by
  unfold LinkM.fastAccess
  refine .bind (.lift _) fun r => .bind (later_resolveField r registry thread) fun f => ?_
  cases f.isStatic with
  | true =>
      refine .bind (.throw _) fun _ => ?_
      split
      · exact .pure _
      · exact .throw _
  | false =>
      simp only [Bool.false_eq_true, if_false]
      split
      · exact .pure _
      · exact .throw _

theorem later_fastForm (body : MethodBody) (mode : Mode) (bci : Nat) (raw : Opcode) (registry : Registry)
    (thread : Thread) : Keeps Later (LinkM.fastForm body mode bci raw registry thread) := by
  unfold LinkM.fastForm
  split
  · exact .bind (later_fastAccess body mode bci raw registry thread) fun _ => .pure _
  · split
    · split
      · refine .bind (.lift _) fun next => ?_
        split
        · exact .bind (LinkM.keeps_report _).later fun _ => .pure _
        · exact .pure _
      · exact .pure _
    · exact .pure _

/-- A fast form is that of an `aload_0`, or of a field access that finds its field. -/
theorem fastForm_cases (hcache : s.constants.cache = some cache) (hraw : s.code.opcodeAt bci = .ok raw)
    (h : exec (LinkM.fastForm ⟨method, s.code, s.constants⟩ mode bci raw registry thread) s =
      (.ok (some op), t)) :
    raw = .aload0 ∧ op = .fastAload0 ∨ (raw = .getfield ∨ raw = .putfield) ∧ FindsField t bci raw op := by
  unfold LinkM.fastForm at h
  split at h
  · rename_i hfield
    obtain ⟨fast, u, hfast, h⟩ := exec_bind_eq_ok.mp h
    obtain ⟨hop, rfl⟩ := Prod.mk.inj h
    obtain rfl := Option.some.inj (Except.ok.inj hop)
    exact .inr ⟨hfield, fastAccess_findsField hcache hraw hfield hfast⟩
  · split at h
    · rename_i haload
      refine .inl ⟨haload, ?_⟩
      split at h
      · obtain ⟨next, -, h⟩ := exec_liftM_bind_eq_ok.mp h
        split at h
        · obtain ⟨⟨⟩, u, -, h⟩ := exec_bind_eq_ok.mp h
          cases (Prod.mk.inj h).1
        · exact (Option.some.inj (Except.ok.inj (Prod.mk.inj h).1)).symm
      · exact (Option.some.inj (Except.ok.inj (Prod.mk.inj h).1)).symm
    · cases (Prod.mk.inj h).1

/-- Storing an opcode, after a test and with a report. -/
theorem store_cases {test : Except Fault Unit} {rest : LinkM (Option Opcode)}
    (hrest : Keeps LinkState.SameClass rest) (bci : Nat) (op : Opcode) (s : LinkState) :
    LinkState.SameClass s (exec (do
        test
        let code ← (← get).code.setOpcode bci op
        modify fun s => { s with code }
        rest) s).2 ∨
      ∃ code, s.code.setOpcode bci op = .ok code ∧ LinkState.SameClass { s with code } (exec (do
        test
        let code ← (← get).code.setOpcode bci op
        modify fun s => { s with code }
        rest) s).2 := by
  rw [exec_bind, exec_liftM]
  cases test with
  | error f => exact .inl (refl_of LinkState.SameClass s)
  | ok _ =>
      dsimp only
      rw [exec_get_bind, exec_bind, exec_liftM]
      cases s.code.setOpcode bci op with
      | error f => exact .inl (refl_of LinkState.SameClass s)
      | ok code => exact .inr ⟨code, rfl, hrest { s with code }⟩

/-- Quickening stores the fast form of an instruction, if it stores anything, once the form is found. -/
theorem quicken_cases (mode : Mode) (method : Method) (bci : Nat) (registry : Registry) (thread : Thread)
    (h : (exec (LinkM.quicken mode method bci registry thread) s).2 = t) :
    Later s t ∨ ∃ raw op m, s.code.opcodeAt bci = .ok raw ∧
      exec (LinkM.fastForm ⟨method, s.code, s.constants⟩ mode bci raw registry thread) s =
        (.ok (some op), m) ∧
      m.code.setOpcode bci op = .ok t.code ∧ t.constants = m.constants := by
  have hbody : exec (LinkM.bodyOf method) s = (.ok ⟨method, s.code, s.constants⟩, s) := rfl
  have hread : exec (liftM (MethodBody.cursor ⟨method, s.code, s.constants⟩ mode bci).rawOpcode : LinkM Opcode) s =
      (s.code.opcodeAt bci, s) := rfl
  unfold LinkM.quicken at h
  rw [exec_bind, hbody] at h
  dsimp only at h
  rw [exec_bind, hread] at h
  cases hraw : s.code.opcodeAt bci with
  | error f =>
      rw [hraw] at h
      exact .inl (h ▸ refl_of Later s)
  | ok raw =>
      rw [hraw] at h
      dsimp only at h
      have hlater := later_fastForm ⟨method, s.code, s.constants⟩ mode bci raw registry thread s
      rw [exec_bind] at h
      rcases hform : exec (LinkM.fastForm ⟨method, s.code, s.constants⟩ mode bci raw registry thread) s with
        ⟨f | _ | op, m⟩
      · rw [hform] at h hlater
        exact .inl (h ▸ hlater)
      · rw [hform] at h hlater
        exact .inl (h ▸ hlater)
      · rw [hform] at h hlater
        have hstore : LinkState.SameClass m t ∨
            ∃ code, m.code.setOpcode bci op = .ok code ∧ LinkState.SameClass { m with code } t := by
          rw [← h]
          refine store_cases ?_ bci op m
          exact .bind (.lift _) fun _ => .bind (.lift _) fun _ => .bind (LinkM.keeps_report _) fun _ => .pure _
        rcases hstore with hsame | ⟨code, hcode, hcode', hconstants⟩
        · exact .inl (trans_of Later hlater hsame.later)
        · refine .inr ⟨raw, op, m, rfl, hform, ?_, hconstants⟩
          rw [hcode, hcode']

/-! ### Calls on a class -/

/-- A call on a linked class while its code runs. -/
inductive LinkCall where
  | quicken (mode : Mode) (method : Method) (bci : Nat) (registry : Registry) (thread : Thread)
  | staticTarget (r : MemberRef) (registry : Registry) (thread : Thread)
  | resolveField (r : MemberRef) (registry : Registry) (thread : Thread)
  | resolveConstant (l : LoadConstant) (thread : Thread)
  | publish (i : UInt32) (outcome : Resolved)

namespace LinkCall

/-- The state that a call leaves, whatever it answers. -/
def next : LinkCall → LinkState → LinkState
  | quicken mode method bci registry thread, s => (exec (LinkM.quicken mode method bci registry thread) s).2
  | staticTarget r registry thread, s => (exec (r.staticTarget registry thread) s).2
  | resolveField r registry thread, s => (exec (r.resolveField registry thread) s).2
  | resolveConstant l thread, s => (exec (l.resolve thread) s).2
  | publish i outcome, s => (exec (LinkM.publish i outcome) s).2

/-- Code is quickened at instruction starts. -/
def AtStart (c : Code) : LinkCall → Prop
  | quicken _ _ bci _ _ => c.IsStart bci
  | _ => True

end LinkCall

/-- The states that calls lead to, in any number and order. -/
inductive LinkState.LeadsTo (s : LinkState) : LinkState → Prop where
  | refl : LeadsTo s s
  | step {t : LinkState} (call : LinkCall) (h : LeadsTo s t) (hstart : call.AtStart t.code) :
      LeadsTo s (call.next t)

/-- Every fast field access of a linked class finds its field. -/
structure LinkState.FieldsFound (s : LinkState) : Prop where
  linked : ∃ cache, s.constants.cache = some cache
  found : ∀ bci op, s.code.IsStart bci → s.code.opcodeAt bci = .ok op → op.IsFastField →
    ∃ raw, (raw = .getfield ∨ raw = .putfield) ∧ FindsField s bci raw op

open LinkState (FieldsFound)

theorem FindsField.later (h : FindsField s bci raw op) (hst : Later s t) : FindsField t bci raw op := by
  obtain ⟨cache, n, f, hcache, hread, hheld, hrest⟩ := h
  obtain ⟨hcode, d, hd, hkept⟩ := hst cache hcache
  exact ⟨d, n, f, hd, hcode ▸ hread, hkept _ _ hheld, hrest⟩

theorem LinkState.FieldsFound.later (h : s.FieldsFound) (hst : Later s t) : t.FieldsFound := by
  obtain ⟨cache, hcache⟩ := h.linked
  obtain ⟨hcode, d, hd, -⟩ := hst cache hcache
  refine ⟨⟨d, hd⟩, ?_⟩
  rw [hcode]
  intro bci op hstart hop hfast
  obtain ⟨raw, hraw, hfinds⟩ := h.found bci op hstart hop hfast
  exact ⟨raw, hraw, hfinds.later hst⟩

theorem FindsField.congr (h : FindsField s bci raw op) (hconstants : t.constants = s.constants)
    (hread : t.code.u16At .native (bci + 1) = s.code.u16At .native (bci + 1)) : FindsField t bci raw op := by
  obtain ⟨cache, n, f, hcache, hn, hrest⟩ := h
  exact ⟨cache, n, f, by rw [hconstants, hcache], by rw [hread, hn], hrest⟩

/-- An access that finds its field is all there. -/
theorem FindsField.size_le (h : FindsField s bci raw op) : bci + 3 ≤ s.code.size := by
  obtain ⟨_, n, _, -, hread, -⟩ := h
  obtain ⟨a, b, -, hb, -⟩ := Code.u16At_eq_ok.mp hread
  have := Code.lt_size_of_byteAt hb
  omega

theorem FindsField.shape_eq (h : FindsField s bci raw op) (hraw : raw = .getfield ∨ raw = .putfield) :
    standard.shape? op = some (some 3, raw) := by
  obtain ⟨_, _, f, -, -, -, -, hform⟩ := h
  rw [FormatTable.shape?_fastForms _ (fastForm_of_fastField hraw hform), field_shape hraw]

/-- Storing a fast form in the place of its code leaves every other access as it is. -/
theorem LinkState.FieldsFound.store (h : s.FieldsFound) (hstart : s.code.IsStart bci)
    (hraw : s.code.opcodeAt bci = .ok raw) (hcode : s.code.setOpcode bci op = .ok t.code)
    (hconstants : t.constants = s.constants)
    (hform : raw = .aload0 ∧ op = .fastAload0 ∨ (raw = .getfield ∨ raw = .putfield) ∧ FindsField s bci raw op) :
    t.FieldsFound := by
  have hop := Code.opcodeAt_setOpcode hcode
  obtain ⟨n, hend, hshape, hshape'⟩ : ∃ n, bci + n ≤ s.code.size ∧
      standard.shape? raw = some (some n, raw) ∧ standard.shape? op = some (some n, raw) := by
    rcases hform with ⟨rfl, rfl⟩ | ⟨hfield, hfinds⟩
    · refine ⟨1, Code.lt_size_of_byteAt (Code.opcodeAt_eq_ok.mp hraw), quickened_shapes.1, ?_⟩
      rw [← quickened_shapes.1]
      exact FormatTable.shape?_fastForms (.aload0, .fastAload0) (by decide)
    · exact ⟨3, hfinds.size_le, field_shape hfield, hfinds.shape_eq hfield⟩
  obtain ⟨cache, hcache⟩ := h.linked
  refine ⟨⟨cache, by rw [hconstants, hcache]⟩, ?_⟩
  intro a stored ha hstored hfast
  rw [Code.isStart_setOpcode hstart hraw hcode hend hshape hshape'] at ha
  by_cases hab : a = bci
  · subst hab
    obtain rfl : stored = op := Except.ok.inj (hstored.symm.trans hop)
    rcases hform with ⟨-, rfl⟩ | ⟨hfield, hfinds⟩
    · exact absurd hfast (by decide)
    · exact ⟨raw, hfield, hfinds.congr hconstants (Code.u16At_setOpcode hcode (.inl (Nat.lt_succ_self a)))⟩
  · have hstored' : s.code.opcodeAt a = .ok stored := by
      rw [← hstored, Code.opcodeAt_congr ((Code.byteAt_setByte hcode a).trans (if_neg hab))]
    obtain ⟨raw', hfield, hfinds⟩ := h.found a stored ha hstored' hfast
    obtain ⟨e, hocc, -⟩ := Code.Occupies.of_shape hstored' (hfinds.shape_eq hfield) hfinds.size_le
    refine ⟨raw', hfield, hfinds.congr hconstants (Code.u16At_setOpcode hcode ?_)⟩
    -- instructions of one walk do not overlap, so the store has not hit this operand
    rcases Nat.lt_or_gt_of_ne hab with hlt | hgt
    · exact .inr (ha.end_le hstart hlt hocc.lengthAt)
    · exact .inl (Nat.lt_succ_of_lt hgt)

theorem LinkState.FieldsFound.next (h : s.FieldsFound) {call : LinkCall} (hstart : call.AtStart s.code) :
    (call.next s).FieldsFound := by
  cases call with
  | quicken mode method bci registry thread =>
      obtain ⟨cache, hcache⟩ := h.linked
      rcases quicken_cases mode method bci registry thread rfl with
        hlater | ⟨raw, op, m, hraw, hform, hcode, hconstants⟩
      · exact h.later hlater
      · have hlater := later_fastForm ⟨method, s.code, s.constants⟩ mode bci raw registry thread s
        rw [hform] at hlater
        have hsame : m.code = s.code := (hlater cache hcache).1
        exact (h.later hlater).store (hsame ▸ hstart) (hsame ▸ hraw) hcode hconstants
          (fastForm_cases hcache hraw hform)
  | staticTarget r registry thread => exact h.later (later_staticTarget r registry thread s)
  | resolveField r registry thread => exact h.later (later_resolveField r registry thread s)
  | resolveConstant l thread => exact h.later (later_resolveConstant l thread s)
  | publish i outcome => exact h.later ((settles_publish i outcome).later s)

theorem LinkState.FieldsFound.leadsTo (h : s.FieldsFound) (hst : s.LeadsTo t) : t.FieldsFound := by
  induction hst with
  | refl => exact h
  | step call _ hstart ih => exact ih.next hstart

/-- No fast field opcode is seen before its field is in the cache: whatever calls are made on a linked class,
in any number and order, a fast field opcode at an instruction start is the form for the type of the field
in the slot that the instruction refers to, and that field belongs to an object. -/
theorem fast_field_has_entry (hcache : s.constants.cache = some cache)
    (hnone : ∀ bci op, s.code.IsStart bci → s.code.opcodeAt bci = .ok op → ¬op.IsFastField)
    (hst : s.LeadsTo t) (hstart : t.code.IsStart bci) (hop : t.code.opcodeAt bci = .ok op)
    (hfast : op.IsFastField) (mode : Mode) (method : Method) :
    ∃ d r i f raw, t.constants.cache = some d ∧
      MemberRef.decode mode ⟨method, t.code, t.constants⟩ bci = .ok r ∧ r.cacheIndex = .ok i ∧
      d.resolvedAt i = some (.field f) ∧ f.isStatic = false ∧ r.opcode = .ok raw ∧
      (raw = .getfield ∨ raw = .putfield) ∧ raw.fastField? f.type = some op := by
  have hinitial : s.FieldsFound :=
    ⟨⟨cache, hcache⟩, fun a stored ha hstored hf => absurd hf (hnone a stored ha hstored)⟩
  obtain ⟨raw, hfield, hfinds⟩ := (hinitial.leadsTo hst).found bci op hstart hop hfast
  obtain ⟨e, hocc, hcanonical⟩ := Code.Occupies.of_shape hop (hfinds.shape_eq hfield) hfinds.size_le
  obtain ⟨d, n, f, hd, hread, hheld, hobject, hform⟩ := hfinds
  have hfamily : e.family = .fieldAccess := by
    rw [FormatEntry.family, hcanonical]
    rcases hfield with rfl | rfl <;> decide
  have hlaid := FormatTable.laidOut_standard hocc.entry
  rw [hfamily] at hlaid
  refine ⟨d, MethodBody.memberRefAt ⟨method, t.code, t.constants⟩ mode bci, n.toUInt32, f, raw, hd, ?_, ?_,
    hheld, hobject, ?_, hfield, hform⟩
  · exact MemberRef.decode_of_family hop hocc.entry (by rw [hfamily]; decide) hd
  · rw [MemberRef.cacheIndex_of_short hop hocc.entry hlaid.2]
    change (do return (← t.code.u16At .native (bci + 1)).toUInt32) = _
    rw [hread]
    rfl
  · rw [← hcanonical]
    exact Cursor.opcode_of_entry hop hocc.entry

/-- The method of the sample class that reads the field. -/
def sampleReader : Method := ⟨0, .ofString "C", .ofString "m", .ofString "()I"⟩

/-- The reading of the field, quickened. -/
def sampleCall : LinkCall := .quicken .checked sampleReader 1 sampleRegistry .detached

theorem fast_field_has_entry_sample :
    ∃ d r i f, (sampleCall.next sampleClass).constants.cache = some d ∧
      MemberRef.decode .checked ⟨sampleReader, (sampleCall.next sampleClass).code,
        (sampleCall.next sampleClass).constants⟩ 1 = .ok r ∧
      r.cacheIndex = .ok i ∧ d.resolvedAt i = some (.field f) ∧ f.isStatic = false := by
  have hnone (bci : Nat) (op : Opcode) (hop : sampleClass.code.opcodeAt bci = .ok op) : ¬op.IsFastField := by
    have hbytes : sampleClass.code.bytes.all (fun b => ¬(0xcb ≤ b ∧ b ≤ 0xda)) = true := by
      decide +kernel
    have hmem := Array.mem_of_getElem? (Code.byteAt_eq_ok.mp (Code.opcodeAt_eq_ok.mp hop))
    exact of_decide_eq_true (Array.all_eq_true_iff_forall_mem.mp hbytes _ hmem)
  obtain ⟨hlength, hlength', hop⟩ : sampleClass.code.lengthAt 0 = .ok (some 1) ∧
      (sampleCall.next sampleClass).code.lengthAt 0 = .ok (some 1) ∧
      (sampleCall.next sampleClass).code.opcodeAt 1 = .ok .fastIgetfield := by
    decide +kernel
  have hstart : sampleClass.code.IsStart 1 := .step hlength (.refl 1)
  have hstart' : (sampleCall.next sampleClass).code.IsStart 1 := .step hlength' (.refl 1)
  obtain ⟨d, r, i, f, _, hd, hr, hi, hheld, hobject, -⟩ :=
    fast_field_has_entry rfl (fun bci op _ => hnone bci op) (.step sampleCall .refl hstart) hstart' hop
      (by decide) .checked sampleReader
  exact ⟨d, r, i, f, hd, hr, hi, hheld, hobject⟩

end MethodCode
