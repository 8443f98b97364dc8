import MethodCode.Proofs.Execution.Failures
import MethodCode.Proofs.Linking.Pass

/-! Which code can be linked. `Code.Linkable` says so of the code as it was loaded: a walk ends with it, every
operand names an entry of the pool that suits its instruction, and the number of every slot fits its operand.
Main statements: a site is rewritten exactly if it can be linked, and otherwise a lookup fails; a whole pass
succeeds on linkable code, breaks a contract where it comes to a byte that is no opcode, and fails a lookup on
everything else. -/

namespace MethodCode

open FormatTable (standard)

/-! ### What linking asks of the code -/

namespace Code

/-- What linking asks of the instruction `op` at a position, the slots `a` being taken: its operand names an
entry that suits it, and two bytes are enough for the number of its slot where it has no more. -/
structure LinkableAt (pool : Pool) (c : Code) (a : Allocator) (bci : Nat) (op : Opcode) : Prop where
  field : op ∈ Opcode.fieldAccesses → ∃ p, c.encodedIndexAt bci = .ok p ∧ pool.tagOf? p = some .fieldRef
  invoke : op ∈ Opcode.invokes → ∃ p, c.encodedIndexAt bci = .ok p ∧
    (pool.tagOf? p = some .methodRef ∨ pool.tagOf? p = some .interfaceMethodRef)
  callSite : op = .invokedynamic → ∃ p, c.encodedIndexAt bci = .ok p ∧ pool.tagOf? p = some .invokeDynamic
  load : op = .ldc ∨ op = .ldcW → ∃ p tag, c.encodedIndexAt bci = .ok p ∧ pool.tagOf? p = some tag ∧
    tag ≠ .invalid
  narrow : op ∈ Opcode.fieldAccesses ∨ op ∈ Opcode.invokes ∨ op = .ldcW →
    ∀ slot, c.slotAt? pool bci = some slot → (a.take slot).1.toNat ≤ 65535

/-- Everything that a walk meets before a limit can be linked. -/
def LinkableBefore (pool : Pool) (c : Code) (bci : Nat) (a : Allocator) (limit : Nat) : Prop :=
  ∀ x b op, c.Allots pool bci a x b → x < limit → c.opcodeAt x = .ok op → c.LinkableAt pool b x op

/-- A walk ends with the code, and everything on it can be linked. -/
def Linkable (pool : Pool) (c : Code) (bci : Nat) (a : Allocator) : Prop :=
  c.Reaches bci c.size ∧ c.LinkableBefore pool bci a c.size

/-- A walk comes to a byte that is no opcode, and everything before it can be linked. -/
def MeetsUndefined (pool : Pool) (c : Code) (bci : Nat) (a : Allocator) : Prop :=
  ∃ x op, c.Reaches bci x ∧ c.opcodeAt x = .ok op ∧ standard.isDefined op = false ∧
    c.LinkableBefore pool bci a x

variable {pool : Pool} {c d : Code} {bci n limit : Nat} {a : Allocator} {op : Opcode} {e : FormatEntry}

theorem LinkableAt.congr (hbytes : Set.EqOn d.byteAt c.byteAt (Set.Ici bci)) (h : c.LinkableAt pool a bci op) :
    d.LinkableAt pool a bci op := by
  have hindex := encodedIndexAt_congr_after hbytes
  have hslot := slotAt?_congr pool hbytes
  exact ⟨by rw [hindex]; exact h.field, by rw [hindex]; exact h.invoke, by rw [hindex]; exact h.callSite,
    by rw [hindex]; exact h.load, by rw [hslot]; exact h.narrow⟩

/-- An instruction that names nothing asks for nothing. -/
theorem LinkableAt.of_namesNothing (h : op.NamesNothing) : c.LinkableAt pool a bci op where
  field hop := absurd hop h.field
  invoke hop := absurd hop h.invoke
  callSite hop := absurd hop h.dynamic
  load hop := hop.elim (absurd · h.ldc) (absurd · h.ldcW)
  narrow hop := hop.elim (absurd · h.field) (·.elim (absurd · h.invoke) (absurd · h.ldcW))

/-! ### What linking asks, by the kind of instruction -/

section Kind

variable {p : UInt16} (hop : c.opcodeAt bci = .ok op) (hindex : c.encodedIndexAt bci = .ok p)

include hop hindex

theorem linkableAt_iff_of_field (hfield : op ∈ Opcode.fieldAccesses) :
    c.LinkableAt pool a bci op ↔ pool.tagAt p = .ok .fieldRef ∧ (a.shared p).1.toNat < 65536 := by
  have hother : ∀ op ∈ Opcode.fieldAccesses, op ∉ Opcode.invokes ∧ op ≠ .invokedynamic ∧ op ≠ .ldc ∧
      op ≠ .ldcW := by decide
  obtain ⟨hinvoke, hdynamic, hldc, hldcW⟩ := hother op hfield
  have hslot := (slotAt?_eq pool hop hindex).trans (Opcode.slotFor?_of_member (.inl hfield))
  rw [Pool.tagAt_eq_ok]
  constructor
  · intro h
    obtain ⟨p', hindex', htag⟩ := h.field hfield
    obtain rfl : p = p' := Except.ok.inj (hindex.symm.trans hindex')
    exact ⟨⟨htag, by decide⟩, Nat.lt_succ_of_le (h.narrow (.inl hfield) _ hslot)⟩
  · rintro ⟨⟨htag, -⟩, hnarrow⟩
    refine ⟨fun _ => ⟨p, hindex, htag⟩, (absurd · hinvoke), (absurd · hdynamic),
      (·.elim (absurd · hldc) (absurd · hldcW)), fun _ slot hslot' => ?_⟩
    obtain rfl := Option.some.inj (hslot.symm.trans hslot')
    exact Nat.le_of_lt_succ hnarrow

theorem linkableAt_iff_of_invoke (hinvoke : op ∈ Opcode.invokes) :
    c.LinkableAt pool a bci op ↔
      (∃ tag, pool.tagAt p = .ok tag ∧ tag ∈ [ConstantTag.methodRef, .interfaceMethodRef]) ∧
        (a.shared p).1.toNat < 65536 := by
  have hother : ∀ op ∈ Opcode.invokes, op ∉ Opcode.fieldAccesses ∧ op ≠ .invokedynamic ∧ op ≠ .ldc ∧
      op ≠ .ldcW := by decide
  obtain ⟨hfield, hdynamic, hldc, hldcW⟩ := hother op hinvoke
  have hslot := (slotAt?_eq pool hop hindex).trans (Opcode.slotFor?_of_member (.inr hinvoke))
  constructor
  · intro h
    obtain ⟨p', hindex', htag⟩ := h.invoke hinvoke
    obtain rfl : p = p' := Except.ok.inj (hindex.symm.trans hindex')
    refine ⟨?_, Nat.lt_succ_of_le (h.narrow (.inr (.inl hinvoke)) _ hslot)⟩
    rcases htag with htag | htag
    · exact ⟨_, Pool.tagAt_eq_ok.mpr ⟨htag, by decide⟩, by decide⟩
    · exact ⟨_, Pool.tagAt_eq_ok.mpr ⟨htag, by decide⟩, by decide⟩
  · rintro ⟨⟨tag, htag, haccepted⟩, hnarrow⟩
    have htag := (Pool.tagAt_eq_ok.mp htag).1
    refine ⟨(absurd · hfield), fun _ => ⟨p, hindex, ?_⟩, (absurd · hdynamic),
      (·.elim (absurd · hldc) (absurd · hldcW)), fun _ slot hslot' => ?_⟩
    · rw [List.mem_cons, List.mem_singleton] at haccepted
      rcases haccepted with rfl | rfl
      · exact .inl htag
      · exact .inr htag
    · obtain rfl := Option.some.inj (hslot.symm.trans hslot')
      exact Nat.le_of_lt_succ hnarrow

omit hop in
theorem linkableAt_iff_of_dynamic (hdynamic : op = .invokedynamic) :
    c.LinkableAt pool a bci op ↔ pool.tagAt p = .ok .invokeDynamic := by
  subst hdynamic
  rw [Pool.tagAt_eq_ok]
  constructor
  · intro h
    obtain ⟨p', hindex', htag⟩ := h.callSite rfl
    obtain rfl : p = p' := Except.ok.inj (hindex.symm.trans hindex')
    exact ⟨htag, by decide⟩
  · rintro ⟨htag, -⟩
    exact ⟨(absurd · (by decide)), (absurd · (by decide)), fun _ => ⟨p, hindex, htag⟩, (absurd · (by decide)),
      (absurd · (by decide))⟩

omit hop in
theorem linkableAt_iff_of_ldc (hldc : op = .ldc) :
    c.LinkableAt pool a bci op ↔ ∃ tag, pool.tagAt p = .ok tag := by
  subst hldc
  constructor
  · intro h
    obtain ⟨p', tag, hindex', htag⟩ := h.load (.inl rfl)
    obtain rfl : p = p' := Except.ok.inj (hindex.symm.trans hindex')
    exact ⟨tag, Pool.tagAt_eq_ok.mpr htag⟩
  · rintro ⟨tag, htag⟩
    exact ⟨(absurd · (by decide)), (absurd · (by decide)), (absurd · (by decide)),
      fun _ => ⟨p, tag, hindex, Pool.tagAt_eq_ok.mp htag⟩, (absurd · (by decide))⟩

theorem linkableAt_iff_of_ldcW (hldcW : op = .ldcW) :
    c.LinkableAt pool a bci op ↔ ∃ tag, pool.tagAt p = .ok tag ∧
      (tag.isExecutableReference = true → (a.shared p).1.toNat < 65536) := by
  subst hldcW
  constructor
  · intro h
    obtain ⟨p', tag, hindex', htag⟩ := h.load (.inr rfl)
    obtain rfl : p = p' := Except.ok.inj (hindex.symm.trans hindex')
    have htag := Pool.tagAt_eq_ok.mpr htag
    refine ⟨tag, htag, fun hcached => Nat.lt_succ_of_le (h.narrow (.inr (.inr rfl)) ⟨p, true⟩ ?_)⟩
    rw [slotAt?_of_load hop (.inr rfl) hindex htag, if_pos hcached]
  · rintro ⟨tag, htag, hnarrow⟩
    refine ⟨(absurd · (by decide)), (absurd · (by decide)), (absurd · (by decide)),
      fun _ => ⟨p, tag, hindex, Pool.tagAt_eq_ok.mp htag⟩, fun _ slot hslot' => ?_⟩
    rw [slotAt?_of_load hop (.inr rfl) hindex htag] at hslot'
    split at hslot'
    · rename_i hcached
      obtain rfl := Option.some.inj hslot'
      exact Nat.le_of_lt_succ (hnarrow hcached)
    · cases hslot'

end Kind

/-! ### From one instruction to the next -/

theorem LinkableBefore.tail (hlength : c.lengthAt bci = .ok (some n)) (h : c.LinkableBefore pool bci a limit) :
    c.LinkableBefore pool (bci + n) (a.after (c.slotAt? pool bci)) limit :=
  fun x b op' hallots => h x b op' (.step hlength hallots)

section Step

variable (hlength : c.lengthAt bci = .ok (some n)) (hop : c.opcodeAt bci = .ok op)
  (hlinkable : c.LinkableAt pool a bci op)

include hop hlength hlinkable

theorem LinkableBefore.cons (h : c.LinkableBefore pool (bci + n) (a.after (c.slotAt? pool bci)) limit) :
    c.LinkableBefore pool bci a limit := by
  intro x b op' hallots hlt hop'
  rcases hallots.cases_head with ⟨rfl, rfl⟩ | ⟨m, hm, hrest⟩
  · obtain rfl : op = op' := Except.ok.inj (hop.symm.trans hop')
    exact hlinkable
  · obtain rfl : n = m := Option.some.inj (Except.ok.inj (hlength.symm.trans hm))
    exact h x b op' hrest hlt hop'

theorem linkable_step : c.Linkable pool bci a ↔ c.Linkable pool (bci + n) (a.after (c.slotAt? pool bci)) := by
  constructor
  · rintro ⟨hreaches, hbefore⟩
    rcases hreaches.cases_head with heq | ⟨m, hm, hrest⟩
    · have hlt := lt_size_of_byteAt (opcodeAt_eq_ok.mp hop)
      omega
    · obtain rfl : n = m := Option.some.inj (Except.ok.inj (hlength.symm.trans hm))
      exact ⟨hrest, hbefore.tail hlength⟩
  · rintro ⟨hreaches, hbefore⟩
    exact ⟨.step hlength hreaches, hbefore.cons hlength hop hlinkable⟩

theorem meetsUndefined_step :
    c.MeetsUndefined pool bci a ↔ c.MeetsUndefined pool (bci + n) (a.after (c.slotAt? pool bci)) := by
  constructor
  · rintro ⟨x, op', hreaches, hop', hundefined, hbefore⟩
    rcases hreaches.cases_head with rfl | ⟨m, hm, hrest⟩
    · obtain ⟨op₁, e, hocc⟩ := lengthAt_eq_some_iff.mp hlength
      obtain rfl : op₁ = op' := Except.ok.inj (hocc.opcode.symm.trans hop')
      rw [FormatTable.isDefined, hocc.entry] at hundefined
      cases hundefined
    · obtain rfl : n = m := Option.some.inj (Except.ok.inj (hlength.symm.trans hm))
      exact ⟨x, op', hrest, hop', hundefined, hbefore.tail hlength⟩
  · rintro ⟨x, op', hreaches, hop', hundefined, hbefore⟩
    exact ⟨x, op', .step hlength hreaches, hop', hundefined, hbefore.cons hlength hop hlinkable⟩

end Step

/-- Code that can be linked has nothing on it but opcodes. -/
theorem Linkable.not_meetsUndefined (h : c.Linkable pool bci a) : ¬c.MeetsUndefined pool bci a := by
  rintro ⟨x, op, hreaches, hop, hundefined, -⟩
  obtain ⟨n, hlength⟩ := hreaches.exists_length h.1 (lt_size_of_byteAt (opcodeAt_eq_ok.mp hop))
  obtain ⟨op', e, hocc⟩ := lengthAt_eq_some_iff.mp hlength
  obtain rfl : op' = op := Except.ok.inj (hocc.opcode.symm.trans hop)
  rw [FormatTable.isDefined, hocc.entry] at hundefined
  cases hundefined

/-- A walk that gets no further has met no undefined byte, unless it stands on one. -/
theorem not_meetsUndefined_of_stuck (hstuck : c.lengthAt bci = .ok none) : ¬c.MeetsUndefined pool bci a := by
  rintro ⟨x, op, hreaches, hop, hundefined, -⟩
  rcases hreaches.cases_head with rfl | ⟨n, hlength, -⟩
  · rw [FormatTable.isDefined, Option.isSome_eq_false_iff, Option.isNone_iff_eq_none] at hundefined
    have herror := lengthAt_eq_error_iff.mpr ⟨op, hop, hundefined, rfl⟩
    rw [hstuck] at herror
    cases herror
  · rw [hstuck] at hlength
    cases hlength

end Code

/-! ### Failed lookups -/

theorem Pool.kind_of_tagAt {pool : Pool} {p : UInt16} {err : Error} (h : pool.tagAt p = .error err) :
    err.kind = .lookup := by
  unfold tagAt entryAt failWith at h
  cases hentry : pool.entries[p.toNat]? with
  | none =>
      rw [hentry] at h
      obtain rfl := Except.error.inj h
      rfl
  | some entry =>
      rw [hentry] at h
      cases entry with
      | invalid =>
          obtain rfl := Except.error.inj h
          rfl
      | _ => cases h

namespace Rewriting

variable {pool : Pool} {bci n : Nat} {p : UInt16} {op : Opcode} {e : FormatEntry} {s t : Rewriting}

theorem kind_of_expectTag {accepted : List ConstantTag} {err : Error}
    (h : expectTag pool p bci accepted = .error err) : err.kind = .lookup := by
  unfold expectTag inContext failWith at h
  cases htag : pool.tagAt p with
  | error cause =>
      rw [htag] at h
      obtain rfl := Except.error.inj h
      change cause.kind = .lookup
      exact Pool.kind_of_tagAt htag
  | ok tag =>
      rw [htag, mapError_ok, ok_bind] at h
      split at h
      · cases h
      · obtain rfl := Except.error.inj h
        rfl

theorem kind_of_narrow {index : UInt32} {err : Error} (h : narrow index bci = .error err) :
    err.kind = .lookup := by
  unfold narrow failWith at h
  split at h
  · cases h
  · obtain rfl := Except.error.inj h
    rfl

/-- A step of a pass answers if a condition holds; otherwise a lookup fails. -/
def AnswersIff (good : Prop) (x : RewriteM Unit) (s : Rewriting) : Prop :=
  (good ∧ ∃ t, exec x s = (.ok (), t)) ∨
    (¬good ∧ ∃ err t, exec x s = (.error (.error err), t) ∧ err.kind = .lookup)

namespace AnswersIff

variable {α : Type} {good good' : Prop} {x y : RewriteM Unit}

theorem of_exec (h : exec x s = exec y t) (hy : AnswersIff good y t) : AnswersIff good x s := by
  unfold AnswersIff
  rw [h]
  exact hy

theorem congr (h : AnswersIff good x s) (hiff : good' ↔ good) : AnswersIff good' x s := by
  rwa [AnswersIff, hiff]

theorem pure (h : good) : AnswersIff good (Pure.pure ()) s := .inl ⟨h, s, rfl⟩

theorem count (h : good) (change : RewriteSummary → RewriteSummary) :
    AnswersIff good (Rewriting.count change) s :=
  .inl ⟨h, _, rfl⟩

theorem get_bind {f : Rewriting → RewriteM Unit} (h : AnswersIff good (f s) s) :
    AnswersIff good (get >>= f) s :=
  h.of_exec (exec_get_bind f s)

theorem read_bind {a : α} {read : Except Fault α} {f : α → RewriteM Unit} (hread : read = .ok a)
    (h : AnswersIff good (f a) s) : AnswersIff good (liftM read >>= f) s := by
  subst hread
  exact h.of_exec rfl

theorem lookup_bind {lookup : Except Error α} {f : α → RewriteM Unit}
    (hkind : ∀ err, lookup = .error err → err.kind = .lookup) (hgood : good → ∃ a, lookup = .ok a)
    (hok : ∀ a, lookup = .ok a → AnswersIff good (f a) s) : AnswersIff good (liftM lookup >>= f) s := by
  cases lookup with
  | ok a => exact (hok a rfl).of_exec rfl
  | error err =>
      refine .inr ⟨fun h => ?_, err, s, rfl, hkind err rfl⟩
      obtain ⟨a, ha⟩ := hgood h
      cases ha

/-- A write that stays inside the code does not fail. -/
theorem write_bind {pos : Nat} {bytes : List UInt8} {f : Unit → RewriteM Unit}
    (hroom : pos + bytes.length ≤ s.code.size)
    (h : ∀ code : Code, code.size = s.code.size → AnswersIff good (f ()) { s with code }) :
    AnswersIff good (write pos bytes >>= f) s := by
  obtain ⟨code, hcode⟩ := Code.exists_setBytes hroom
  refine (h code (Code.size_setBytes hcode)).of_exec ?_
  rw [exec_bind]
  unfold write
  rw [exec_get_bind, exec_bind, exec_liftM, hcode]
  rfl

end AnswersIff

/-! ### Sites -/

theorem answers_member {accepted : List ConstantTag} (hread : s.code.u16At .java (bci + 1) = .ok p)
    (hroom : bci + 3 ≤ s.code.size) :
    AnswersIff ((∃ tag, pool.tagAt p = .ok tag ∧ tag ∈ accepted) ∧ (s.allocator.shared p).1.toNat < 65536)
      (rewriteMember pool bci accepted) s := by
  refine .get_bind (.read_bind hread (.lookup_bind (fun _ => kind_of_expectTag) (fun h => ?_) fun u hu => ?_))
  · exact ⟨(), expectTag_eq_ok.mpr h.1⟩
  refine .of_exec (exec_sharedSlot_bind p _)
    (.lookup_bind (fun _ => kind_of_narrow) (fun h => ?_) fun slot hslot => ?_)
  · exact ⟨_, narrow_eq_ok.mpr ⟨h.2, rfl⟩⟩
  refine .write_bind (by rw [ByteOrder.length_split16]; omega) fun code _ => .count ?_ _
  exact ⟨expectTag_eq_ok.mp hu, (narrow_eq_ok.mp hslot).1⟩

theorem answers_callSite (hread : s.code.u16At .java (bci + 1) = .ok p) (hroom : bci + 5 ≤ s.code.size) :
    AnswersIff (pool.tagAt p = .ok .invokeDynamic) (rewriteCallSite pool bci) s := by
  refine .get_bind (.read_bind hread (.lookup_bind (fun _ => kind_of_expectTag) (fun h => ?_) fun u hu => ?_))
  · exact ⟨(), expectTag_eq_ok.mpr ⟨_, h, List.mem_singleton.mpr rfl⟩⟩
  obtain ⟨tag, htag, hmem⟩ := expectTag_eq_ok.mp hu
  obtain rfl := List.mem_singleton.mp hmem
  refine .of_exec (exec_callSiteSlot_bind p _) ?_
  exact .write_bind (by rw [ByteOrder.length_split32]; omega) fun code _ => .count htag _

theorem answers_load {b : UInt8} (hread : s.code.byteAt (bci + 1) = .ok b) (hroom : bci + 2 ≤ s.code.size) :
    AnswersIff (∃ tag, pool.tagAt b.toUInt16 = .ok tag) (rewriteLoad pool bci) s := by
  refine .get_bind (.read_bind hread (.lookup_bind (fun _ => Pool.kind_of_tagAt) id fun tag htag => ?_))
  split
  · refine .of_exec (exec_sharedSlot_bind _ _) ?_
    split
    · refine .write_bind (by simp only [List.length_singleton]; omega) fun code hsize => ?_
      exact .write_bind (by simp only [List.length_singleton, hsize]; omega) fun code _ => .count ⟨tag, htag⟩ _
    · exact .inl ⟨⟨tag, htag⟩, _, rfl⟩
  · exact .pure ⟨tag, htag⟩

theorem answers_wideLoad (hread : s.code.u16At .java (bci + 1) = .ok p) (hroom : bci + 3 ≤ s.code.size) :
    AnswersIff
      (∃ tag, pool.tagAt p = .ok tag ∧
        (tag.isExecutableReference = true → (s.allocator.shared p).1.toNat < 65536))
      (rewriteWideLoad pool bci) s := by
  refine .get_bind (.read_bind hread (.lookup_bind (fun _ => Pool.kind_of_tagAt) ?_ fun tag htag => ?_))
  · rintro ⟨tag, htag, -⟩
    exact ⟨tag, htag⟩
  split
  · rename_i hcached
    refine .of_exec (exec_sharedSlot_bind p _)
      (.lookup_bind (fun _ => kind_of_narrow) ?_ fun slot hslot => ?_)
    · rintro ⟨tag', htag', hnarrow⟩
      obtain rfl : tag = tag' := Except.ok.inj (htag.symm.trans htag')
      exact ⟨_, narrow_eq_ok.mpr ⟨hnarrow hcached, rfl⟩⟩
    · refine .write_bind (by rw [ByteOrder.length_split16]; omega) fun code hsize => ?_
      refine .write_bind (by simp only [List.length_singleton, hsize]; omega) fun code _ => .count ?_ _
      exact ⟨tag, htag, fun _ => (narrow_eq_ok.mp hslot).1⟩
  · rename_i hpool
    exact .pure ⟨tag, htag, (absurd · hpool)⟩

theorem answers_switch {good : Prop} (h : good) {pairs : Int32}
    (hpairs : (s.code.cursorAt bci).switchWord 1 = .ok pairs) (hroom : bci < s.code.size) :
    AnswersIff good (rewriteSwitch (s.code.cursorAt bci)) s :=
  .read_bind hpairs (.write_bind hroom fun _ _ => .count h _)

/-- A site is rewritten exactly if it can be linked; otherwise a lookup fails. -/
theorem answers_site (pool : Pool) (hocc : s.code.Occupies bci n op e) :
    AnswersIff (s.code.LinkableAt pool s.allocator bci op) (rewriteSite pool (s.code.cursorAt bci)) s := by
  have hop := hocc.opcode
  have hentry := hocc.entry
  have hends := hocc.ends
  have hraw : (s.code.cursorAt bci).rawOpcode = .ok op := hop
  refine .read_bind hraw (.read_bind (Cursor.family_of_entry hraw hentry) ?_)
  by_cases hfast : op.isFast = true
  · rw [if_pos hfast]
    exact .pure (.of_namesNothing (Opcode.namesNothing_of_fast hfast))
  rw [if_neg hfast]
  have hslow := Bool.eq_false_iff.mpr hfast
  have hfamily := FormatTable.family_of_slow hentry hslow
  -- an operand of two bytes is there, and is where `encodedIndexAt` reads it
  have hoperand (hne : op ≠ .ldc) (hroom : 3 ≤ n) :
      ∃ p, s.code.u16At .java (bci + 1) = .ok p ∧ s.code.encodedIndexAt bci = .ok p := by
    obtain ⟨p, hp⟩ := Code.exists_u16At .java (show bci + 1 + 2 ≤ s.code.size by omega)
    exact ⟨p, hp, (Code.encodedIndexAt_of_ne hop hne).trans hp⟩
  have hother (h : e.family ∉ linkedFamilies) : s.code.LinkableAt pool s.allocator bci op :=
    .of_namesNothing (namesNothing_of_keep hentry (.inr (.inl h)))
  cases hf : e.family with
  | fieldAccess =>
      have hmem := Opcode.ofCanonical_eq_fieldAccess.mp (hfamily.symm.trans hf)
      have hroom := (hocc.short_of_member (.inl hf)).1
      obtain ⟨p, hread, hindex⟩ := hoperand (by rintro rfl; exact absurd hmem (by decide)) hroom
      refine (answers_member hread (by omega)).congr ?_
      simp [Code.linkableAt_iff_of_field hop hindex hmem]
  | invoke =>
      have hmem := Opcode.ofCanonical_eq_invoke.mp (hfamily.symm.trans hf)
      have hroom := (hocc.short_of_member (.inr hf)).1
      obtain ⟨p, hread, hindex⟩ := hoperand (by rintro rfl; exact absurd hmem (by decide)) hroom
      exact (answers_member hread (by omega)).congr (Code.linkableAt_iff_of_invoke hop hindex hmem)
  | dynamicInvoke =>
      have hdynamic := Opcode.ofCanonical_eq_dynamicInvoke.mp (hfamily.symm.trans hf)
      have hroom := (hocc.word_of_callSite hf).1
      obtain ⟨p, hread, hindex⟩ := hoperand (by rw [hdynamic]; decide) (by omega)
      exact (answers_callSite hread (by omega)).congr (Code.linkableAt_iff_of_dynamic hindex hdynamic)
  | loadConstant =>
      have hroom := hocc.room_of_load hf
      rw [(FormatTable.regular_standard hentry).2.2.2 hslow] at hroom
      dsimp only
      by_cases hldc : op = .ldc
      · rw [if_pos hldc] at hroom ⊢
        obtain ⟨b, hread⟩ := Code.exists_byteAt (show bci + 1 < s.code.size by omega)
        have hindex : s.code.encodedIndexAt bci = .ok b.toUInt16 := by
          rw [Code.encodedIndexAt_of_ldc (hldc ▸ hop), hread]
          rfl
        exact (answers_load hread (by omega)).congr (Code.linkableAt_iff_of_ldc hindex hldc)
      rw [if_neg hldc] at hroom ⊢
      by_cases hldcW : op = .ldcW
      · rw [if_pos hldcW]
        obtain ⟨p, hread, hindex⟩ := hoperand hldc (by omega)
        exact (answers_wideLoad hread (by omega)).congr (Code.linkableAt_iff_of_ldcW hop hindex hldcW)
      · rw [if_neg hldcW]
        exact .pure (.of_namesNothing (namesNothing_of_keep hentry (.inr (.inr ⟨hf, hldc, hldcW⟩))))
  | lookupSwitch =>
      obtain ⟨pairs, hpairs, -⟩ := hocc.lookup_words hf
      exact answers_switch (.of_namesNothing (namesNothing_of_switch hentry hslow hf)) hpairs
        (Code.lt_size_of_byteAt (Code.opcodeAt_eq_ok.mp hop))
  | typeReference | tableSwitch | branch | other => exact .pure (hother (by rw [hf]; decide))

/-! ### A whole pass -/

/-- How a pass over code ends, told from the code it starts with. -/
inductive Verdict (pool : Pool) (c : Code) (bci : Nat) (a : Allocator) : Except Fault Unit → Prop where
  | linked (h : c.Linkable pool bci a) : Verdict pool c bci a (.ok ())
  | undefined {v : Violation} (h : c.MeetsUndefined pool bci a) : Verdict pool c bci a (.error (.violation v))
  | refused {err : Error} (hkind : err.kind = .lookup) (hlinkable : ¬c.Linkable pool bci a)
      (hundefined : ¬c.MeetsUndefined pool bci a) : Verdict pool c bci a (.error (.error err))

variable {c : Code} {a : Allocator} {r : Except Fault Unit}

theorem Verdict.step (hlength : c.lengthAt bci = .ok (some n)) (hop : c.opcodeAt bci = .ok op)
    (hlinkable : c.LinkableAt pool a bci op)
    (h : Verdict pool c (bci + n) (a.after (c.slotAt? pool bci)) r) : Verdict pool c bci a r := by
  have hlinked := Code.linkable_step hlength hop hlinkable
  have hmeets := Code.meetsUndefined_step hlength hop hlinkable
  cases h with
  | linked h => exact .linked (hlinked.mpr h)
  | undefined h => exact .undefined (hmeets.mpr h)
  | refused hkind hnot hundefined => exact .refused hkind (mt hlinked.mp hnot) (mt hmeets.mp hundefined)

/-- What cannot be linked stops the pass before it comes to anything else. -/
theorem Verdict.refused_here {err : Error} (hkind : err.kind = .lookup) (hocc : c.Occupies bci n op e)
    (h : ¬c.LinkableAt pool a bci op) : Verdict pool c bci a (.error (.error err)) := by
  refine .refused hkind (fun hlinkable => ?_) fun ⟨x, op', hreaches, hop', hundefined, hbefore⟩ => ?_
  · exact h (hlinkable.2 bci a op (.refl _ _) (Code.lt_size_of_byteAt (Code.opcodeAt_eq_ok.mp hocc.opcode))
      hocc.opcode)
  · rcases hreaches.cases_head with rfl | ⟨m, hm, hrest⟩
    · obtain rfl : op = op' := Except.ok.inj (hocc.opcode.symm.trans hop')
      rw [FormatTable.isDefined, hocc.entry] at hundefined
      cases hundefined
    · obtain rfl : n = m := Option.some.inj (Except.ok.inj (hocc.lengthAt.symm.trans hm))
      have hpos := hocc.pos
      have hback := hrest.le
      exact h (hbefore bci a op (.refl _ _) (by omega) hocc.opcode)

section Exec

variable {limit : Nat} (hlimit : bci < limit)

include hlimit

theorem exec_rewriteFrom_of_none (hlength : s.code.lengthAt bci = .ok none) :
    exec (rewriteFrom pool limit bci) s = (.error (.of (.truncated bci)), s) := by
  rw [rewriteFrom, dif_pos hlimit, exec_get_bind]
  change exec (liftM (s.code.lengthAt bci) >>= _) s = _
  rw [hlength]
  rfl

theorem exec_rewriteFrom_of_error {f : Fault} (hlength : s.code.lengthAt bci = .error f) :
    exec (rewriteFrom pool limit bci) s = (.error f, s) := by
  rw [rewriteFrom, dif_pos hlimit, exec_get_bind]
  change exec (liftM (s.code.lengthAt bci) >>= _) s = _
  rw [hlength]
  rfl

theorem exec_rewriteFrom_of_some (hlength : s.code.lengthAt bci = .ok (some n)) (hpos : 0 < n) :
    exec (rewriteFrom pool limit bci) s =
      exec (rewriteSite pool (s.code.cursorAt bci) >>= fun _ => rewriteFrom pool limit (bci + n)) s := by
  obtain ⟨n, rfl⟩ := Nat.exists_eq_succ_of_ne_zero (Nat.ne_of_gt hpos)
  rw [rewriteFrom, dif_pos hlimit, exec_get_bind]
  change exec (liftM (s.code.lengthAt bci) >>= _) s = _
  rw [hlength]
  rfl

end Exec

/-- The pass ends as the code that it starts with tells, however much of it has been rewritten already. -/
theorem verdict_of_exec (hsize : s.code.size = c.size) (hle : bci ≤ c.size)
    (hbytes : Set.EqOn s.code.byteAt c.byteAt (Set.Ici bci)) :
    Verdict pool c bci s.allocator (exec (rewriteFrom pool c.size bci) s).1 := by
  induction hk : c.size - bci using Nat.strongRecOn generalizing bci s with
  | _ k ih =>
      by_cases hlimit : bci < c.size
      · have hlength := Code.lengthAt_congr hsize hbytes
        rcases hl : s.code.lengthAt bci with f | _ | n
        · rw [exec_rewriteFrom_of_error hlimit hl]
          rw [hl] at hlength
          obtain ⟨op, hop, hundefined, rfl⟩ := Code.lengthAt_eq_error_iff.mp hlength.symm
          refine .undefined ⟨bci, op, .refl _, hop, ?_, fun x b _ hallots hlt => ?_⟩
          · rw [FormatTable.isDefined, hundefined]
            rfl
          · exact absurd hallots.reaches.le (Nat.not_le.mpr hlt)
        · rw [exec_rewriteFrom_of_none hlimit hl]
          rw [hl] at hlength
          refine .refused rfl (fun hlinkable => ?_) (Code.not_meetsUndefined_of_stuck hlength.symm)
          obtain ⟨n, hn⟩ := Code.Reaches.exists_length (.refl bci) hlinkable.1 hlimit
          rw [← hlength] at hn
          cases hn
        · rw [hl] at hlength
          obtain ⟨op, e, hocc⟩ := Code.lengthAt_eq_some_iff.mp hl
          obtain ⟨op', e', hocc'⟩ := Code.lengthAt_eq_some_iff.mp hlength.symm
          have hop : s.code.opcodeAt bci = c.opcodeAt bci := Code.opcodeAt_congr (hbytes Set.self_mem_Ici)
          obtain rfl : op = op' := Except.ok.inj (hocc.opcode.symm.trans (hop.trans hocc'.opcode))
          rw [exec_rewriteFrom_of_some hlimit hl hocc.pos, exec_bind]
          rcases answers_site pool hocc with ⟨hgood, t, hsite⟩ | ⟨hbad, err, t, hsite, hkind⟩
          · have hstep := siteStep_of_exec hocc.opcode hocc.entry hsite
            have hafter := Code.eqOn_after (hstep.eqOn_outside hocc) (Nat.le_refl _)
            have hpos := hocc.pos
            have hends := hocc.ends
            rw [hsite]
            refine .step hlength.symm hocc'.opcode (hgood.congr hbytes.symm) ?_
            rw [← Code.slotAt?_congr pool hbytes, ← hstep.allocator_eq hocc.opcode hocc.entry]
            exact ih (c.size - (bci + n)) (by omega) (hstep.size_eq.trans hsize) (by omega)
              (hafter.trans (hbytes.mono (Set.Ici_subset_Ici.mpr (Nat.le_add_right bci n)))) rfl
          · rw [hsite]
            exact .refused_here hkind hocc' (mt (·.congr hbytes) hbad)
      · rw [rewriteFrom, dif_neg hlimit]
        obtain rfl : bci = c.size := Nat.le_antisymm hle (Nat.not_lt.mp hlimit)
        refine .linked ⟨.refl _, fun x b op hallots hlt => ?_⟩
        exact absurd hallots.reaches.le (Nat.not_le.mpr hlt)

end Rewriting

/-! ### Rewriting -/

/-- How rewriting ends, told from the code, the pool and the slots that it is given. -/
theorem verdict_of_rewrite (code : Code) (pool : Pool) (a : Allocator) :
    Rewriting.Verdict pool code 0 a ((rewrite code pool a).outcome.map fun _ => ()) := by
  have h : Rewriting.Verdict pool code 0 a
      (exec (Rewriting.rewriteFrom pool code.size 0) ⟨code, a, ⟨0, 0, 0, 0⟩, []⟩).1 :=
    Rewriting.verdict_of_exec (s := ⟨code, a, ⟨0, 0, 0, 0⟩, []⟩) rfl (Nat.zero_le code.size)
      (Set.eqOn_refl _ _)
  cases hrun : exec (Rewriting.rewriteFrom pool code.size 0) ⟨code, a, ⟨0, 0, 0, 0⟩, []⟩ with
  | mk outcome t =>
      rw [hrun] at h
      unfold exec at hrun
      rw [rewrite, hrun]
      cases outcome with
      | error f => exact h
      | ok u => exact h

/-- Rewriting goes forward with every step, and it accepts exactly the code that can be linked. It breaks a
contract exactly where a walk comes to a byte that is no opcode before it comes to anything that cannot be
linked; whatever else it does not accept is a failed lookup. What is not accepted leaves code and slots as
they were. -/
theorem rewrite_accepts_linkable (code : Code) (pool : Pool) (a : Allocator) :
    (∀ (c : Code) (bci n : Nat), c.lengthAt bci = .ok (some n) → 0 < n) ∧
      ((∃ summary, (rewrite code pool a).outcome = .ok summary) ↔ code.Linkable pool 0 a) ∧
      ((∃ f, f.IsBreach ∧ (rewrite code pool a).outcome = .error f) ↔ code.MeetsUndefined pool 0 a) ∧
      (¬code.Linkable pool 0 a → ¬code.MeetsUndefined pool 0 a →
        ∃ err, (rewrite code pool a).outcome = .error (.error err) ∧ err.kind = .lookup) ∧
      ∀ f, (rewrite code pool a).outcome = .error f →
        (rewrite code pool a).code = code ∧ (rewrite code pool a).allocator = a := by
  have hforward (c : Code) (bci n : Nat) (hlength : c.lengthAt bci = .ok (some n)) : 0 < n := by
    obtain ⟨op, e, hocc⟩ := Code.lengthAt_eq_some_iff.mp hlength
    exact hocc.pos
  have hkept (f : Fault) (h : (rewrite code pool a).outcome = .error f) := rewrite_of_error h
  have hverdict := verdict_of_rewrite code pool a
  cases houtcome : (rewrite code pool a).outcome with
  | ok summary =>
      rw [houtcome] at hverdict
      obtain ⟨hlinkable⟩ := hverdict
      refine ⟨hforward, ⟨fun _ => hlinkable, fun _ => ⟨summary, rfl⟩⟩, ⟨fun ⟨f, _, hf⟩ => ?_, fun h => ?_⟩,
        fun h => absurd hlinkable h, nofun⟩
      · cases hf
      · exact absurd h hlinkable.not_meetsUndefined
  | error f =>
      rw [houtcome] at hverdict hkept
      cases hverdict with
      | undefined hmeets =>
          refine ⟨hforward, ⟨fun ⟨_, h⟩ => ?_, fun h => absurd hmeets h.not_meetsUndefined⟩,
            ⟨fun _ => hmeets, fun _ => ⟨_, Fault.isBreach_violation _, rfl⟩⟩, fun _ h => absurd hmeets h, hkept⟩
          cases h
      | @refused err hkind hlinkable hmeets =>
          refine ⟨hforward, ⟨fun ⟨_, h⟩ => ?_, fun h => absurd h hlinkable⟩,
            ⟨fun ⟨f, hbreach, hf⟩ => ?_, fun h => absurd h hmeets⟩, fun _ _ => ⟨err, rfl, hkind⟩, hkept⟩
          · cases h
          · obtain rfl := Except.error.inj hf
            exact absurd rfl (hbreach err)

end MethodCode
