import MethodCode.Proofs.Instruction.Report
import Mathlib.Data.List.Chain

/-! Decoding complete instructions. When all bytes of an instruction are there, decoding asks three things more:
an invoke needs the class to be linked, the bounds of a table must be in order, and so must the keys of a
lookup. Main statement: decoding answers exactly if these hold, with a view that suits the instruction, and
every operand of it can be read without breaking a contract or leaving the code. -/

namespace MethodCode

open FormatTable (standard)

/-! ### How branches and type references are laid out -/

namespace FormatTable

private theorem operands_standard : standard.all (fun _ e => decide
    ((e.family = .branch → e.flags &&& FormatFlags.layout =
        if e.flags.has .hasU4 then FormatFlags.longOffset else FormatFlags.shortOffset) ∧
      (e.family = .typeReference → e.HasShortIndex false ∧
        e.length = some (if e.canonical = .multianewarray then 4 else 3)))) = true := by
  decide +kernel

variable {op : Opcode} {e : FormatEntry}

theorem layout_of_branch (he : standard.entry? op = some e) (hfamily : e.family = .branch) :
    e.flags &&& FormatFlags.layout =
      if e.flags.has .hasU4 then FormatFlags.longOffset else FormatFlags.shortOffset :=
  (of_decide_eq_true (of_all operands_standard he)).1 hfamily

theorem laidOut_of_typeReference (he : standard.entry? op = some e) (hfamily : e.family = .typeReference) :
    e.HasShortIndex false ∧ e.length = some (if e.canonical = .multianewarray then 4 else 3) :=
  (of_decide_eq_true (of_all operands_standard he)).2 hfamily

end FormatTable

/-! ### Answers -/

/-- A call gives an answer. -/
def Answers {α : Type} (x : Except Fault α) : Prop := ∃ a, x = .ok a

namespace Answers

variable {α β : Type} {x : Except Fault α} {f : α → Except Fault β}

theorem pure (a : α) : Answers (Pure.pure a) := ⟨a, rfl⟩

theorem bind (hx : Answers x) (hf : ∀ a, x = .ok a → Answers (f a)) : Answers (x >>= f) := by
  obtain ⟨a, rfl⟩ := hx
  exact hf a rfl

theorem map (hx : Answers x) (g : α → β) : Answers (g <$> x) := by
  obtain ⟨a, rfl⟩ := hx
  exact ⟨g a, rfl⟩

end Answers

/-! ### What the parts of an instruction have to answer -/

/-- The cursor of a decoded instruction. -/
def Decoded.cursor : Decoded → Cursor
  | memberRef r => r.cursor
  | loadConstant l => l.cursor
  | tableSwitch t => t.cursor
  | lookupSwitch l => l.cursor
  | typeRef r => r.cursor
  | plain c => c

/-- Whether a decoded instruction belongs to the family that its view is for. -/
def Decoded.isValid : Decoded → Except Fault Bool
  | memberRef r => r.isValid
  | loadConstant l => l.isValid
  | tableSwitch t => t.isValid
  | lookupSwitch l => l.isValid
  | typeRef r => r.isValid
  | plain c => do return (← c.family) ∈ [Family.branch, .other]

/-- Every question about the operands that the view of an instruction is there for has an answer. -/
def Decoded.OperandsAnswer : Decoded → Prop
  | memberRef r => Answers r.index ∧ Answers r.cacheIndex
  | loadConstant l => Answers l.rawIndex
  | tableSwitch t => Answers t.defaultOffset ∧ Answers t.low ∧ Answers t.high ∧
      (∃ n, t.size = .ok n ∧ ∀ i < n, Answers (t.offsetAt i)) ∧ ∀ key, Answers (t.offsetFor key)
  | lookupSwitch l => Answers l.defaultOffset ∧ (∃ n, l.size = .ok n ∧ ∀ i < n, Answers (l.pairAt i)) ∧
      Answers l.pairs
  | typeRef r => Answers r.index ∧ Answers r.dimensions
  | plain _ => True

/-- A decoded instruction of `n` bytes suits its view and tells all of itself. -/
structure Decoded.Safe (d : Decoded) (n : Nat) : Prop where
  valid : d.isValid = .ok true
  length : d.cursor.length = .ok n
  destination : Answers d.cursor.branchDestination
  operands : d.OperandsAnswer

/-- Pairs in ascending order of their keys. -/
def LookupSwitch.Ascending (pairs : List SwitchPair) : Prop := (pairs.map SwitchPair.key).Pairwise (· < ·)

/-- What decoding asks of a complete instruction. -/
structure MethodBody.WellFormedAt (body : MethodBody) (bci : Nat) : Prop where
  linked : ∀ family, (body.cursor .checked bci).family = .ok family →
    family = .invoke ∨ family = .dynamicInvoke → body.constants.cache.isSome = true
  bounds : (body.cursor .checked bci).family = .ok .tableSwitch →
    ∀ low high, TableSwitch.low ⟨body.cursor .checked bci⟩ = .ok low →
      TableSwitch.high ⟨body.cursor .checked bci⟩ = .ok high → low ≤ high
  ascending : (body.cursor .checked bci).family = .ok .lookupSwitch →
    ∀ pairs, LookupSwitch.pairs ⟨body.cursor .checked bci⟩ = .ok pairs → LookupSwitch.Ascending pairs

/-- How decoding refuses a complete instruction. -/
inductive MethodBody.Refuses (body : MethodBody) (bci : Nat) : Violation → Prop where
  | unlinked : Refuses body bci (.unlinkedInvoke bci body.method)
  | bounds {high low : Int32} (h : high < low) : Refuses body bci (.switchBounds bci high low)
  | order {key next : Int32} (h : next ≤ key) : Refuses body bci (.keysOutOfOrder bci key next)

variable {body : MethodBody} {bci n : Nat} {op : Opcode} {e : FormatEntry}

theorem MethodBody.wellFormedAt_iff {family : Family} (h : (body.cursor .checked bci).family = .ok family) :
    body.WellFormedAt bci ↔
      (family = .invoke ∨ family = .dynamicInvoke → body.constants.cache.isSome = true) ∧
      (family = .tableSwitch → ∀ low high, TableSwitch.low ⟨body.cursor .checked bci⟩ = .ok low →
        TableSwitch.high ⟨body.cursor .checked bci⟩ = .ok high → low ≤ high) ∧
      (family = .lookupSwitch → ∀ pairs, LookupSwitch.pairs ⟨body.cursor .checked bci⟩ = .ok pairs →
        LookupSwitch.Ascending pairs) := by
  constructor
  · intro hwell
    exact ⟨fun hf => hwell.linked family h hf, fun hf => hwell.bounds (h.trans (congrArg _ hf)),
      fun hf => hwell.ascending (h.trans (congrArg _ hf))⟩
  · rintro ⟨hlinked, hbounds, hascending⟩
    refine ⟨fun f hf => ?_, fun hf => ?_, fun hf => ?_⟩
    · obtain rfl := Except.ok.inj (h.symm.trans hf)
      exact hlinked
    · exact hbounds (Except.ok.inj (h.symm.trans hf))
    · exact hascending (Except.ok.inj (h.symm.trans hf))

/-! ### Branches -/

theorem Cursor.claimOffsetSize_of_layout {c : Cursor} (he : c.formats.entry? op = some e) {size : Nat}
    {need : FormatFlags} (hneed : (size, need) ∈ [(2, FormatFlags.shortOffset), (4, FormatFlags.longOffset)])
    (hlayout : e.flags &&& FormatFlags.layout = need) : c.claimOffsetSize size op false = .ok () := by
  apply check_of_ok
  have hfound := FormatTable.flags_of_entry he false
  have hname := FormatTable.name_of_entry he
  simp only [List.mem_cons, Prod.mk.injEq, List.not_mem_nil, or_false] at hneed
  rcases hneed with ⟨rfl, rfl⟩ | ⟨rfl, rfl⟩ <;>
    simp [hfound, hname, hlayout, bind, Except.bind, Pure.pure, Except.pure, widened, ensure]

theorem answers_branchDestination (hocc : body.code.Occupies bci n op e) (mode : Mode) :
    Answers (body.cursor mode bci).branchDestination := by
  have hraw : (body.cursor mode bci).rawOpcode = .ok op := hocc.opcode
  have hentry : (body.cursor mode bci).formats.entry? op = some e := hocc.entry
  by_cases hfamily : e.family = .branch
  · have hlayout := FormatTable.layout_of_branch hocc.entry hfamily
    have hlaid := FormatTable.laidOut_standard hocc.entry
    rw [hfamily] at hlaid
    have hn := hocc.eq_of_length hlaid.1
    have hends := hocc.ends
    rw [Cursor.branchDestination_of_entry hraw hentry,
      if_pos ((FormatTable.regular_standard hocc.entry).2.2.1.mpr hfamily)]
    dsimp only
    cases hwide : e.flags.has .hasU4 with
    | true =>
        rw [hwide, if_pos rfl] at hn hlayout
        have hread := Code.exists_u32At .java (show bci + 1 + 4 ≤ body.code.size by omega)
        have hoffset : Answers ((body.cursor mode bci).offsetS4 op) := by
          rw [Cursor.offsetS4, Cursor.claimFormat_self hraw hentry,
            Cursor.claimOffsetSize_of_layout hentry (by simp) hlayout, ok_bind, ok_bind]
          exact .bind hread fun _ _ => .pure _
        rw [if_pos rfl]
        exact .bind (hoffset.map _) fun _ _ => .pure _
    | false =>
        rw [hwide, if_neg Bool.false_ne_true] at hn hlayout
        have hread := Code.exists_u16At .java (show bci + 1 + 2 ≤ body.code.size by omega)
        have hoffset : Answers ((body.cursor mode bci).offsetS2 op) := by
          rw [Cursor.offsetS2, Cursor.claimFormat_self hraw hentry,
            Cursor.claimOffsetSize_of_layout hentry (by simp) hlayout, ok_bind, ok_bind]
          exact .bind hread fun _ _ => .pure _
        rw [if_neg Bool.false_ne_true]
        exact .bind (hoffset.map _) fun _ _ => .pure _
  · exact ⟨none, branchDestination_of_not_branch hraw rfl hocc.entry hfamily⟩

/-! ### Switches -/

section Table

variable (hocc : body.code.Occupies bci n op e) (hfamily : e.family = .tableSwitch) (mode : Mode)

include hocc hfamily

theorem TableSwitch.exists_words :
    ∃ low high, TableSwitch.low ⟨body.cursor mode bci⟩ = .ok low ∧
      TableSwitch.high ⟨body.cursor mode bci⟩ = .ok high ∧
      ∀ k < 3 + (high.toInt - low.toInt + 1).toNat, Answers ((body.cursor mode bci).switchWord k) := by
  obtain ⟨low, high, hlow, hhigh, hn⟩ := hocc.table_words hfamily
  have hends := hocc.ends
  refine ⟨low, high, hlow, hhigh, fun k hk => ?_⟩
  exact Cursor.exists_switchWord_iff.mpr
    (show bci + (body.code.cursorAt bci).alignedOffset 1 + k * 4 + 4 ≤ body.code.size by omega)

theorem TableSwitch.operandsAnswer : (Decoded.tableSwitch ⟨body.cursor mode bci⟩).OperandsAnswer := by
  obtain ⟨low, high, hlow, hhigh, hword⟩ := TableSwitch.exists_words hocc hfamily mode
  have hsize : TableSwitch.size ⟨body.cursor mode bci⟩ = .ok (high.toInt - low.toInt + 1).toNat := by
    rw [size, hhigh, hlow]
    rfl
  refine ⟨hword 0 (by omega), ⟨low, hlow⟩, ⟨high, hhigh⟩, ⟨_, hsize, fun i hi => hword (3 + i) (by omega)⟩,
    fun key => ?_⟩
  rw [offsetFor, hlow, hhigh, ok_bind, ok_bind]
  split
  · exact hword 0 (by omega)
  · rename_i hinside
    rw [Int32.lt_iff_toInt_lt, Int32.lt_iff_toInt_lt] at hinside
    exact hword _ (by omega)

theorem TableSwitch.decode_cases :
    ((∀ low high, TableSwitch.low ⟨body.cursor .checked bci⟩ = .ok low →
        TableSwitch.high ⟨body.cursor .checked bci⟩ = .ok high → low ≤ high) ∧
      TableSwitch.decode (body.cursor .checked bci) = .ok ⟨body.cursor .checked bci⟩) ∨
    ∃ low high, TableSwitch.low ⟨body.cursor .checked bci⟩ = .ok low ∧
      TableSwitch.high ⟨body.cursor .checked bci⟩ = .ok high ∧ high < low ∧
      TableSwitch.decode (body.cursor .checked bci) = .error (.violation (.switchBounds bci high low)) := by
  obtain ⟨low, high, hlow, hhigh, -⟩ := TableSwitch.exists_words hocc hfamily .checked
  have hraw : (body.cursor .checked bci).rawOpcode = .ok op := hocc.opcode
  have hvalid : TableSwitch.isValid ⟨body.cursor .checked bci⟩ = .ok true := by
    rw [isValid, Cursor.family_of_entry hraw hocc.entry, hfamily]
    rfl
  have hdecode : TableSwitch.decode (body.cursor .checked bci) = (do
      ensure (low ≤ high) (.switchBounds bci high low)
      return ⟨body.cursor .checked bci⟩) := by
    simp only [decode, hvalid, hhigh, hlow]
    rfl
  by_cases hle : low ≤ high
  · refine .inl ⟨fun low' high' hlow' hhigh' => ?_, ?_⟩
    · obtain rfl := Except.ok.inj (hlow.symm.trans hlow')
      obtain rfl := Except.ok.inj (hhigh.symm.trans hhigh')
      exact hle
    · rw [hdecode, ensure, if_pos (decide_eq_true hle)]
      rfl
  · refine .inr ⟨low, high, hlow, hhigh, Int32.not_le.mp hle, ?_⟩
    rw [hdecode, ensure, if_neg (by simpa using hle)]
    rfl

end Table

namespace LookupSwitch

/-- The words of all `count` pairs are there. -/
structure Complete (l : LookupSwitch) (count : Nat) : Prop where
  size : l.size = .ok count
  word : ∀ k < 2 + count * 2, Answers (l.cursor.switchWord k)

theorem complete_of_occupies (hocc : body.code.Occupies bci n op e) (hfamily : e.family = .lookupSwitch)
    (mode : Mode) : ∃ count, Complete ⟨body.cursor mode bci⟩ count := by
  obtain ⟨count, hcount, hn⟩ := hocc.lookup_words hfamily
  have hends := hocc.ends
  have hread : (body.cursor mode bci).switchWord 1 = .ok count := hcount
  refine ⟨count.toInt.toNat, ?_, fun k hk => ?_⟩
  · rw [size, hread]
    rfl
  · exact Cursor.exists_switchWord_iff.mpr
      (show bci + (body.code.cursorAt bci).alignedOffset 1 + k * 4 + 4 ≤ body.code.size by omega)

namespace Complete

variable {l : LookupSwitch} {total : Nat} (h : l.Complete total)

include h

theorem answers_pairAt {i : Nat} (hi : i < total) : Answers (l.pairAt i) := by
  have hinside : l.cursor.mode.check (do ensure (i < (← l.size)) (.pairOutOfBounds i)) = .ok () := by
    apply Cursor.check_of_ok
    rw [h.size, ok_bind]
    exact if_pos (decide_eq_true hi)
  rw [pairAt, hinside, ok_bind]
  exact .bind (h.word _ (by omega)) fun _ _ => .bind (h.word _ (by omega)) fun _ _ => .pure _

theorem answers_pairsFrom (i count : Nat) (hle : i + count ≤ total) : Answers (l.pairsFrom i count) := by
  induction count generalizing i with
  | zero => exact .pure []
  | succ count ih =>
      exact .bind (h.answers_pairAt (by omega)) fun _ _ => .bind (ih (i + 1) (by omega)) fun _ _ => .pure _

theorem answers_pairs : Answers l.pairs := by
  rw [pairs, h.size]
  exact h.answers_pairsFrom 0 total (by omega)

theorem operandsAnswer : (Decoded.lookupSwitch l).OperandsAnswer :=
  ⟨h.word 0 (by omega), ⟨total, h.size, fun _ hi => h.answers_pairAt hi⟩, h.answers_pairs⟩

/-- The test goes through the pairs once, comparing each key to the next one, and stops at the first two that
are out of order. -/
theorem ascendingFrom_cases (i count : Nat) (hlt : i + count < total) :
    ∃ pairs, l.pairsFrom i (count + 1) = .ok pairs ∧
      (Ascending pairs ∧ l.ascendingFrom i count = .ok () ∨
        ¬Ascending pairs ∧ ∃ key next : Int32, next ≤ key ∧
          l.ascendingFrom i count = .error (.violation (.keysOutOfOrder l.cursor.bci key next))) := by
  induction count generalizing i with
  | zero =>
      obtain ⟨pair, hpair⟩ := h.answers_pairAt (show i < total by omega)
      refine ⟨[pair], ?_, .inl ⟨List.pairwise_singleton _ _, rfl⟩⟩
      rw [pairsFrom, hpair]
      rfl
  | succ count ih =>
      obtain ⟨pair, hpair⟩ := h.answers_pairAt (show i < total by omega)
      obtain ⟨rest, hrest, hcases⟩ := ih (i + 1) (by omega)
      obtain ⟨next, hnext, htail⟩ := bind_eq_ok.mp hrest
      obtain ⟨tail, -, hcons⟩ := bind_eq_ok.mp htail
      obtain rfl : next :: tail = rest := Except.ok.inj hcons
      have hall : l.pairsFrom i (count + 2) = .ok (pair :: next :: tail) := by
        rw [pairsFrom, hpair, hrest]
        rfl
      have hstep : l.ascendingFrom i (count + 1) = (do
          ensure (pair.key < next.key) (.keysOutOfOrder l.cursor.bci pair.key next.key)
          l.ascendingFrom (i + 1) count) := by
        rw [ascendingFrom, hpair, hnext]
        rfl
      have hadjacent : Ascending (pair :: next :: tail) ↔ pair.key < next.key ∧ Ascending (next :: tail) := by
        simp only [Ascending, ← List.isChain_iff_pairwise, List.map_cons, List.isChain_cons_cons]
      refine ⟨_, hall, ?_⟩
      rw [hstep, hadjacent]
      by_cases horder : pair.key < next.key
      · rw [ensure, if_pos (decide_eq_true horder), ok_bind]
        simpa only [horder, true_and] using hcases
      · refine .inr ⟨fun hboth => horder hboth.1, pair.key, next.key, Int32.not_lt.mp horder, ?_⟩
        rw [ensure, if_neg (by simpa using horder)]
        rfl

/-- Decoding a complete switch with tests is the test of its keys. -/
theorem decode_cases (hmode : l.cursor.mode = .checked) (hvalid : l.isValid = .ok true) :
    ∃ pairs, l.pairs = .ok pairs ∧
      (Ascending pairs ∧ decode l.cursor = .ok l ∨
        ¬Ascending pairs ∧ ∃ key next : Int32, next ≤ key ∧
          decode l.cursor = .error (.violation (.keysOutOfOrder l.cursor.bci key next))) := by
  have hdecode : decode l.cursor = (do
      l.ascendingFrom 0 (total - 1)
      return l) := by
    simp only [decode, hmode, hvalid, h.size]
    rfl
  rw [hdecode, pairs, h.size, ok_bind]
  cases total with
  | zero => exact ⟨[], rfl, .inl ⟨List.Pairwise.nil, rfl⟩⟩
  | succ count =>
      obtain ⟨pairs, hall, hcases⟩ := h.ascendingFrom_cases 0 count (by omega)
      refine ⟨pairs, hall, ?_⟩
      rw [Nat.add_sub_cancel]
      rcases hcases with ⟨hascending, hok⟩ | ⟨hnot, key, next, hle, herror⟩
      · exact .inl ⟨hascending, by rw [hok]; rfl⟩
      · exact .inr ⟨hnot, key, next, hle, by rw [herror]; rfl⟩

end Complete

theorem decode_cases (hocc : body.code.Occupies bci n op e) (hfamily : e.family = .lookupSwitch) :
    ∃ pairs, LookupSwitch.pairs ⟨body.cursor .checked bci⟩ = .ok pairs ∧
      (Ascending pairs ∧ decode (body.cursor .checked bci) = .ok ⟨body.cursor .checked bci⟩ ∨
        ¬Ascending pairs ∧ ∃ key next : Int32, next ≤ key ∧
          decode (body.cursor .checked bci) = .error (.violation (.keysOutOfOrder bci key next))) := by
  obtain ⟨total, hcomplete⟩ := complete_of_occupies hocc hfamily .checked
  have hraw : (body.cursor .checked bci).rawOpcode = .ok op := hocc.opcode
  refine hcomplete.decode_cases rfl ?_
  rw [isValid, Cursor.family_of_entry hraw hocc.entry, hfamily]
  rfl

end LookupSwitch

/-! ### References -/

section MemberRef

theorem MemberRef.operandsAnswer (hocc : body.code.Occupies bci n op e) (hfamily : e.family ∈ families)
    (mode : Mode) : (Decoded.memberRef (body.memberRefAt mode bci)).OperandsAnswer := by
  have hends := hocc.ends
  rcases (show (e.family = .fieldAccess ∨ e.family = .invoke) ∨ e.family = .dynamicInvoke by
    simpa [families, or_assoc] using hfamily) with hmember | hdynamic
  · obtain ⟨hroom, hshort⟩ := hocc.short_of_member hmember
    have hread := Code.exists_u16At .native (show bci + 1 + 2 ≤ body.code.size by omega)
    refine ⟨?_, ?_⟩
    · rw [index_of_short hocc.opcode hocc.entry hshort]
      exact .bind hread fun _ _ => .pure _
    · rw [cacheIndex_of_short hocc.opcode hocc.entry hshort]
      exact .bind hread fun _ _ => .pure _
  · obtain ⟨rfl, hword⟩ := hocc.word_of_callSite hdynamic
    obtain ⟨index, hread⟩ := Code.exists_u32At .native (show bci + 1 + 4 ≤ body.code.size by omega)
    refine ⟨⟨index, ?_⟩, index, cacheIndex_of_word hocc.opcode hocc.entry hword hread⟩
    rw [index_of_word hocc.opcode hocc.entry hword, hread]

theorem InvokeKind.exists_of_family (h : Family.ofCanonical op = .invoke ∨ Family.ofCanonical op = .dynamicInvoke) :
    ∃ kind, ofOpcode? op = some kind := by
  rw [Opcode.ofCanonical_eq_invoke, Opcode.ofCanonical_eq_dynamicInvoke] at h
  simp only [Opcode.invokes, List.mem_cons, List.not_mem_nil, or_false] at h
  rcases h with (rfl | rfl | rfl | rfl) | rfl <;> exact ⟨_, rfl⟩

/-- An invoke is refused before its class is linked. -/
theorem MemberRef.decode_of_unlinked (hop : body.code.opcodeAt bci = .ok op) (he : standard.entry? op = some e)
    (hfamily : e.family = .invoke ∨ e.family = .dynamicInvoke) (hcache : body.constants.cache = none) :
    decode .checked body bci = .error (.violation (.unlinkedInvoke bci body.method)) := by
  have hraw : (body.cursor .checked bci).rawOpcode = .ok op := hop
  obtain ⟨kind, hkind⟩ := InvokeKind.exists_of_family hfamily
  have hvalid : isValid ⟨body.cursor .checked bci, body⟩ = .ok true := by
    rw [isValid_iff (Cursor.family_of_entry hraw he)]
    rcases hfamily with hf | hf <;> rw [hf] <;> rfl
  have hinvoke : invokeKind ⟨body.cursor .checked bci, body⟩ = .ok (some kind) := by
    rw [invokeKind, opcode, Cursor.opcode_of_entry hraw he, ← hkind]
    rfl
  rw [decode, hvalid, hinvoke, hcache]
  rfl

end MemberRef

theorem LoadConstant.operandsAnswer (hocc : body.code.Occupies bci n op e) (hfamily : e.family = .loadConstant)
    (mode : Mode) : (Decoded.loadConstant (body.loadAt mode bci)).OperandsAnswer := by
  have hends := hocc.ends
  have hroom := hocc.room_of_load hfamily
  change Answers (body.loadAt mode bci).rawIndex
  rw [rawIndex_eq hocc.opcode hocc.entry hfamily]
  by_cases hldc : e.canonical = .ldc
  · rw [if_pos hldc] at hroom ⊢
    exact .bind (Code.exists_byteAt (by omega)) fun _ _ => .pure _
  · rw [if_neg hldc] at hroom ⊢
    exact Code.exists_u16At _ (by omega)

theorem TypeRef.operandsAnswer (hocc : body.code.Occupies bci n op e) (hfamily : e.family = .typeReference)
    (mode : Mode) : (Decoded.typeRef ⟨body.cursor mode bci, body⟩).OperandsAnswer := by
  have hends := hocc.ends
  have hraw : (body.cursor mode bci).rawOpcode = .ok op := hocc.opcode
  obtain ⟨hshort, hlength⟩ := FormatTable.laidOut_of_typeReference hocc.entry hfamily
  have hroom := hocc.eq_of_length hlength
  refine ⟨?_, ?_⟩
  · rw [index, hraw, ok_bind, Cursor.indexU2_eq hraw hocc.entry hshort]
    exact Code.exists_u16At _ (show bci + 1 + 2 ≤ body.code.size by split at hroom <;> omega)
  · rw [dimensions, Cursor.opcode_of_entry hraw hocc.entry, ok_bind]
    split
    · rename_i hmulti
      rw [if_pos hmulti] at hroom
      have hread : Answers ((body.cursor mode bci).byteAt 3) :=
        Code.exists_byteAt (show bci + 3 < body.code.size by omega)
      exact .bind hread fun _ _ => .pure _
    · exact .pure none

/-! ### Decoding -/

namespace Decoded

/-- The instruction at a position, seen as what a family makes of it. -/
def ofFamily (mode : Mode) (body : MethodBody) (bci : Nat) : Family → Decoded
  | .fieldAccess | .invoke | .dynamicInvoke => memberRef (body.memberRefAt mode bci)
  | .loadConstant => loadConstant (body.loadAt mode bci)
  | .tableSwitch => tableSwitch ⟨body.cursor mode bci⟩
  | .lookupSwitch => lookupSwitch ⟨body.cursor mode bci⟩
  | .typeReference => typeRef ⟨body.cursor mode bci, body⟩
  | .branch | .other => plain (body.cursor mode bci)

theorem cursor_ofFamily (mode : Mode) (family : Family) :
    (ofFamily mode body bci family).cursor = body.cursor mode bci := by
  cases family <;> rfl

theorem isValid_ofFamily {mode : Mode} {family : Family} (h : (body.cursor mode bci).family = .ok family) :
    (ofFamily mode body bci family).isValid = .ok true := by
  cases family with
  | fieldAccess | invoke | dynamicInvoke => exact MemberRef.isValid_iff (r := body.memberRefAt mode bci) h
  | loadConstant =>
      change LoadConstant.isValid _ = _
      rw [LoadConstant.isValid, MethodBody.loadAt, h]
      rfl
  | tableSwitch =>
      change TableSwitch.isValid _ = _
      rw [TableSwitch.isValid, h]
      rfl
  | lookupSwitch =>
      change LookupSwitch.isValid _ = _
      rw [LookupSwitch.isValid, h]
      rfl
  | typeReference =>
      change TypeRef.isValid _ = _
      rw [TypeRef.isValid, h]
      rfl
  | branch | other =>
      change isValid (plain (body.cursor mode bci)) = _
      rw [isValid, h]
      rfl

variable (hocc : body.code.Occupies bci n op e)

include hocc

theorem safe_ofFamily (mode : Mode) : (ofFamily mode body bci e.family).Safe n where
  valid := isValid_ofFamily (Cursor.family_of_entry (c := body.cursor mode bci) hocc.opcode hocc.entry)
  length := by
    rw [cursor_ofFamily]
    exact hocc.length
  destination := by
    rw [cursor_ofFamily]
    exact answers_branchDestination hocc mode
  operands := by
    cases hfamily : e.family with
    | fieldAccess | invoke | dynamicInvoke =>
        exact MemberRef.operandsAnswer hocc (by rw [hfamily]; decide) mode
    | loadConstant => exact LoadConstant.operandsAnswer hocc hfamily mode
    | tableSwitch => exact TableSwitch.operandsAnswer hocc hfamily mode
    | lookupSwitch =>
        obtain ⟨count, hcomplete⟩ := LookupSwitch.complete_of_occupies hocc hfamily mode
        exact hcomplete.operandsAnswer
    | typeReference => exact TypeRef.operandsAnswer hocc hfamily mode
    | branch | other => exact trivial

/-- Without tests, decoding sees in every instruction what its family makes of it. -/
theorem decode_unchecked : decode .unchecked body bci = .ok (ofFamily .unchecked body bci e.family) := by
  have hraw : (body.cursor .unchecked bci).rawOpcode = .ok op := hocc.opcode
  have hmember : MemberRef.decode .unchecked body bci = .ok (body.memberRefAt .unchecked bci) := by
    have hkind : MemberRef.invokeKind ⟨body.cursor .unchecked bci, body⟩ =
        .ok (InvokeKind.ofOpcode? e.canonical) := by
      rw [MemberRef.invokeKind, MemberRef.opcode, Cursor.opcode_of_entry hraw hocc.entry]
      rfl
    rw [MemberRef.decode, hkind]
    change (if _ then _ else _) = _
    split <;> rfl
  rw [decode, Cursor.family_of_entry hraw hocc.entry, ok_bind]
  cases e.family with
  | fieldAccess | invoke | dynamicInvoke => rw [hmember]; rfl
  | loadConstant | tableSwitch | lookupSwitch | typeReference | branch | other => rfl

/-- Decoding either sees in a complete instruction what its family makes of it, or refuses it. -/
theorem decode_cases :
    body.WellFormedAt bci ∧ decode .checked body bci = .ok (ofFamily .checked body bci e.family) ∨
    ¬body.WellFormedAt bci ∧ ∃ v, body.Refuses bci v ∧ decode .checked body bci = .error (.violation v) := by
  have hraw : (body.cursor .checked bci).rawOpcode = .ok op := hocc.opcode
  have hfound : (body.cursor .checked bci).family = .ok e.family := Cursor.family_of_entry hraw hocc.entry
  rw [MethodBody.wellFormedAt_iff hfound]
  cases hfamily : e.family with
  | fieldAccess =>
      refine .inl ⟨by simp, ?_⟩
      rw [decode, hfound, hfamily, ok_bind, MemberRef.decode_of_fieldAccess hocc.opcode hocc.entry hfamily]
      rfl
  | invoke | dynamicInvoke =>
      cases hcache : body.constants.cache with
      | some cache =>
          exact .inl ⟨by simp, decode_memberRef hocc.opcode hocc.entry (by rw [hfamily]; decide) hcache⟩
      | none =>
          refine .inr ⟨by simp, _, .unlinked, ?_⟩
          rw [decode, hfound, hfamily, ok_bind,
            MemberRef.decode_of_unlinked hocc.opcode hocc.entry (by rw [hfamily]; decide) hcache]
          rfl
  | loadConstant => exact .inl ⟨by simp, decode_loadConstant hocc.opcode hocc.entry hfamily⟩
  | tableSwitch =>
      have hdecode : decode .checked body bci = tableSwitch <$> TableSwitch.decode (body.cursor .checked bci) := by
        rw [decode, hfound, hfamily]
        rfl
      rcases TableSwitch.decode_cases hocc hfamily with ⟨hbounds, hok⟩ | ⟨low, high, hlow, hhigh, hlt, herror⟩
      · exact .inl ⟨by simpa using hbounds, by rw [hdecode, hok]; rfl⟩
      · refine .inr ⟨fun hwell => ?_, _, .bounds hlt, by rw [hdecode, herror]; rfl⟩
        exact Int32.not_le.mpr hlt (hwell.2.1 rfl low high hlow hhigh)
  | lookupSwitch =>
      have hdecode : decode .checked body bci = lookupSwitch <$> LookupSwitch.decode (body.cursor .checked bci) := by
        rw [decode, hfound, hfamily]
        rfl
      obtain ⟨pairs, hpairs, ⟨hascending, hok⟩ | ⟨hnot, key, next, hle, herror⟩⟩ :=
        LookupSwitch.decode_cases hocc hfamily
      · refine .inl ⟨⟨by simp, by simp, fun _ pairs' hpairs' => ?_⟩, by rw [hdecode, hok]; rfl⟩
        obtain rfl := Except.ok.inj (hpairs.symm.trans hpairs')
        exact hascending
      · exact .inr ⟨fun hwell => hnot (hwell.2.2 rfl pairs hpairs), _, .order hle, by rw [hdecode, herror]; rfl⟩
  | typeReference =>
      refine .inl ⟨by simp, ?_⟩
      have hvalid : TypeRef.isValid ⟨body.cursor .checked bci, body⟩ = .ok true := by
        rw [TypeRef.isValid, hfound, hfamily]
        rfl
      rw [decode, hfound, hfamily, ok_bind, TypeRef.decode, hvalid]
      rfl
  | branch | other =>
      refine .inl ⟨by simp, ?_⟩
      rw [decode, hfound, hfamily]
      rfl

omit hocc in
/-- Decoding a complete instruction answers exactly if what it asks for holds, and refuses the instruction
otherwise. Whatever is decoded, in either mode, suits the instruction and reads all of its operands. -/
theorem decode_safe (hlength : (body.cursor .checked bci).checkedLength = .ok (some n)) :
    ((∃ d, decode .checked body bci = .ok d) ↔ body.WellFormedAt bci) ∧
      (¬body.WellFormedAt bci → ∃ v, body.Refuses bci v ∧ decode .checked body bci = .error (.violation v)) ∧
      (∃ d, decode .unchecked body bci = .ok d) ∧
      ∀ mode d, decode mode body bci = .ok d → d.Safe n := by
  obtain ⟨op, e, hocc⟩ : ∃ op e, body.code.Occupies bci n op e :=
    Code.lengthAt_eq_some_iff.mp ((Cursor.checkedLength_eq_lengthAt rfl).symm.trans hlength)
  have hcases := decode_cases hocc
  refine ⟨⟨fun ⟨d, hd⟩ => ?_, fun hwell => ?_⟩, fun hill => ?_, ⟨_, decode_unchecked hocc⟩, fun mode d hd => ?_⟩
  · rcases hcases with ⟨hwell, -⟩ | ⟨-, v, -, herror⟩
    · exact hwell
    · rw [herror] at hd
      cases hd
  · rcases hcases with ⟨-, hok⟩ | ⟨hill, -⟩
    · exact ⟨_, hok⟩
    · exact absurd hwell hill
  · rcases hcases with ⟨hwell, -⟩ | ⟨-, hrefused⟩
    · exact absurd hwell hill
    · exact hrefused
  · have hview : decode mode body bci = .ok (ofFamily mode body bci e.family) := by
      cases mode with
      | unchecked => exact decode_unchecked hocc
      | checked =>
          rcases hcases with ⟨-, hok⟩ | ⟨-, v, -, herror⟩
          · exact hok
          · rw [herror] at hd
            cases hd
    obtain rfl := Except.ok.inj (hview.symm.trans hd)
    exact safe_ofFamily hocc mode

omit hocc in
/-- A body that looks up two keys. -/
def lookupSample (first second : UInt8) : MethodBody where
  method := ⟨0, .ofString "C", .ofString "m", .ofString "(I)V"⟩
  code := ⟨#[0xab, 0, 0, 0, 0, 0, 0, 28, 0, 0, 0, 2,
    0, 0, 0, first, 0, 0, 0, 28, 0, 0, 0, second, 0, 0, 0, 28, 0xb1]⟩
  constants := ⟨⟨#[.invalid]⟩, none⟩

omit hocc in
/-- A lookup of the keys 3 and 7 decodes, and one of the keys 7 and 3 is refused. -/
theorem decode_safe_sample :
    (∃ d, decode .checked (lookupSample 3 7) 0 = .ok d ∧ d.Safe 28) ∧
      ∃ v, (lookupSample 7 3).Refuses 0 v ∧ decode .checked (lookupSample 7 3) 0 = .error (.violation v) := by
  have hup : LookupSwitch.pairs ⟨(lookupSample 3 7).cursor .checked 0⟩ = .ok [⟨3, 28⟩, ⟨7, 28⟩] := by
    decide +kernel
  have hdown : LookupSwitch.pairs ⟨(lookupSample 7 3).cursor .checked 0⟩ = .ok [⟨7, 28⟩, ⟨3, 28⟩] := by
    decide +kernel
  have hfamily : ((lookupSample 3 7).cursor .checked 0).family = .ok .lookupSwitch := by
    decide +kernel
  have hfamily' : ((lookupSample 7 3).cursor .checked 0).family = .ok .lookupSwitch := by
    decide +kernel
  constructor
  · obtain ⟨hanswers, -, -, hsafe⟩ := decode_safe (show
      ((lookupSample 3 7).cursor .checked 0).checkedLength = .ok (some 28) by decide +kernel)
    have hwell : (lookupSample 3 7).WellFormedAt 0 := by
      refine (MethodBody.wellFormedAt_iff hfamily).mpr ⟨by simp, nofun, fun _ pairs hpairs => ?_⟩
      obtain rfl := Except.ok.inj (hup.symm.trans hpairs)
      show List.Pairwise _ [(3 : Int32), 7]
      decide
    obtain ⟨d, hd⟩ := hanswers.mpr hwell
    exact ⟨d, hd, hsafe .checked d hd⟩
  · refine (decode_safe (show
      ((lookupSample 7 3).cursor .checked 0).checkedLength = .ok (some 28) by decide +kernel)).2.1 fun hwell => ?_
    have hordered : List.Pairwise (· < ·) [(7 : Int32), 3] := hwell.ascending hfamily' _ hdown
    exact absurd hordered (by decide)

end Decoded

end MethodCode
