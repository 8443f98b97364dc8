import MethodCode.Proofs.Linking.Held

/-! What loads of constants mean. Linking moves some loads behind the cache, and running a method fills the cache
and exchanges opcodes, of loads never. Main statement: whatever views are called on in a linked class, a load
pushes the constant that it has pushed before its method was rewritten, or fails with the same error, and it tells
the same category. -/

namespace MethodCode

open FormatTable (standard)

/-! ### Loads over changed code -/

section Load

variable {body body' : MethodBody} {mode : Mode} {bci n : Nat} {op : Opcode} {e : FormatEntry} {p : UInt16}

theorem LoadConstant.eq_of_decode {l : LoadConstant} (h : decode mode body bci = .ok l) :
    l = body.loadAt mode bci := by
  obtain ⟨_, -, h⟩ := bind_eq_ok.mp h
  obtain ⟨_, -, h⟩ := bind_eq_ok.mp h
  exact (Except.ok.inj h).symm

/-- A load depends on its own bytes, and on what the slots of the cache stand for. -/
theorem LoadConstant.poolIndex_congr (hocc : body.code.Occupies bci n op e) (hfamily : e.family = .loadConstant)
    (hbytes : Set.EqOn body'.code.byteAt body.code.byteAt (Set.Ico bci (bci + n)))
    (hmethod : body'.method = body.method) (hreferences : body'.constants.references = body.constants.references) :
    (body'.loadAt mode bci).poolIndex = (body.loadAt mode bci).poolIndex := by
  have hroom := hocc.room_of_load hfamily
  have hpos := hocc.pos
  have hop' : body'.code.opcodeAt bci = .ok op :=
    (Code.opcodeAt_congr (hbytes ⟨by omega, by omega⟩)).trans hocc.opcode
  have hraw : (body'.loadAt mode bci).rawIndex = (body.loadAt mode bci).rawIndex := by
    rw [rawIndex_eq hop' hocc.entry hfamily, rawIndex_eq hocc.opcode hocc.entry hfamily]
    by_cases hldc : e.canonical = .ldc
    · rw [if_pos hldc] at hroom
      rw [if_pos hldc, if_pos hldc, hbytes ⟨by omega, by omega⟩]
    · rw [if_neg hldc] at hroom
      rw [if_neg hldc, if_neg hldc]
      exact Code.u16At_congr (hbytes.mono (Set.Ico_subset_Ico (by omega) (by omega)))
  have hcached : (body'.loadAt mode bci).hasCacheIndex = (body.loadAt mode bci).hasCacheIndex :=
    (hasCacheIndex_eq hop').trans (hasCacheIndex_eq hocc.opcode).symm
  have hbody : (body.loadAt mode bci).boundBody = .ok body := rfl
  have hbody' : (body'.loadAt mode bci).boundBody = .ok body' := rfl
  rw [poolIndex, poolIndex, hraw, hcached, hbody, hbody']
  obtain ⟨-, hcaches⟩ := Constants.cases_of_references hreferences
  rcases hcaches with ⟨hnone', hnone⟩ | ⟨cache', cache, hsome', hsome, hsame⟩
  · simp only [ok_bind, hnone', hnone, hmethod]
  · simp only [ok_bind, hsome', hsome, Cache.poolIndexAt_congr hsame]

/-- The category of a load follows from the pool entry that it refers to. -/
theorem LoadConstant.resultType_congr {mode' : Mode} (hpool : body'.constants.pool = body.constants.pool)
    (hindex : (body'.loadAt mode' bci).poolIndex = (body.loadAt mode bci).poolIndex) :
    (body'.loadAt mode' bci).resultType = (body.loadAt mode bci).resultType := by
  have hbody : (body.loadAt mode bci).boundBody = .ok body := rfl
  have hbody' : (body'.loadAt mode' bci).boundBody = .ok body' := rfl
  rw [resultType, resultType, hbody, hbody', hindex]
  simp only [ok_bind, hpool]
  rfl

end Load

/-- Every load has kept its bytes. -/
def Code.KeepsLoads (d c : Code) : Prop :=
  ∀ bci n op e, c.IsStart bci → c.Occupies bci n op e → e.family = .loadConstant →
    d.Occupies bci n op e ∧ Set.EqOn d.byteAt c.byteAt (Set.Ico bci (bci + n))

namespace Code.KeepsLoads

variable {c d f : Code}

theorem refl (c : Code) : c.KeepsLoads c := fun _ _ _ _ _ hocc _ => ⟨hocc, Set.eqOn_refl _ _⟩

theorem trans (h : f.KeepsLoads d) (h' : d.KeepsLoads c) (hstarts : ∀ bci, d.IsStart bci ↔ c.IsStart bci) :
    f.KeepsLoads c := by
  intro bci n op e hstart hocc hfamily
  obtain ⟨hocc, hbytes⟩ := h' bci n op e hstart hocc hfamily
  obtain ⟨hocc, hbytes'⟩ := h bci n op e ((hstarts bci).mpr hstart) hocc hfamily
  exact ⟨hocc, hbytes'.trans hbytes⟩

/-- A byte stored at the start of another instruction. -/
theorem of_store {a : Nat} {raw op : Opcode} (ha : c.IsStart a) (hraw : c.opcodeAt a = .ok raw)
    (hother : Family.ofCanonical raw ≠ .loadConstant) (hslow : raw.isFast = false)
    (hstore : c.setOpcode a op = .ok d) : d.KeepsLoads c := by
  intro bci n op' e hstart hocc hfamily
  have hne : bci ≠ a := by
    rintro rfl
    obtain rfl : op' = raw := Except.ok.inj (hocc.opcode.symm.trans hraw)
    rw [FormatTable.family_of_slow hocc.entry hslow] at hfamily
    exact hother hfamily
  have hbytes : Set.EqOn d.byteAt c.byteAt (Set.Ico bci (bci + n)) := by
    intro k hk
    refine (Code.byteAt_setByte hstore k).trans (if_neg ?_)
    rintro rfl
    rcases Nat.lt_or_gt_of_ne hne with hlt | hgt
    · exact absurd (hstart.end_le ha hlt hocc.lengthAt) (Nat.not_le.mpr hk.2)
    · exact absurd hk.1 (Nat.not_le.mpr hgt)
  exact ⟨hocc.of_eqOn hbytes (Code.size_setByte hstore ▸ hocc.ends), hbytes⟩

end Code.KeepsLoads

/-- Quickening leaves the loads alone. -/
theorem QuickenStep.keepsLoads {registry : Registry} {bci : Nat} {s : LinkState} {code : Code} {k : Constants}
    (h : QuickenStep registry bci s code k) (hstart : s.code.IsStart bci) : code.KeepsLoads s.code := by
  cases h with
  | idle | waits | unresolved | formless => exact .refl _
  | load hop _ hstore => exact .of_store hstart hop (by decide) (by decide) hstore
  | access hop hraw _ _ _ hstore =>
      rcases hraw with rfl | rfl <;> exact .of_store hstart hop (by decide) (by decide) hstore

/-! ### Calls -/

namespace ViewCall

variable {s : LinkState} (call : ViewCall)

theorem keepsMade : Keeps LinkState.KeepsMade call.run := by
  intro s hmade
  exact Constants.holdsMade_iff.mpr (call.keepsHeld suitsLookups_made s (Constants.holdsMade_iff.mp hmade))

theorem keepsLoads {cache : Cache} (hcache : s.constants.cache = some cache) (hstart : s.code.IsStart call.bci) :
    (exec call.run s).2.code.KeepsLoads s.code := by
  by_cases hop : call.operation = .quicken
  · obtain ⟨_, t, hexec, hstep⟩ := quicken_step call.mode call.method call.bci call.registry call.thread s
    rw [call.snd_run_of_quicken hop, hexec]
    exact hstep.keepsLoads hstart
  · rw [(call.later hop s cache hcache).1]
    exact .refl _

end ViewCall

/-! ### Linked classes -/

namespace LinkedClass

variable {c d : LinkedClass} {k : Constants}

/-- The instructions of all methods start where they started, and their loads have kept their bytes. -/
def KeepsLoads (d c : LinkedClass) : Prop :=
  ∀ (index : Nat) (code : Code), c.codes[index]? = some code →
    ∃ code' : Code, d.codes[index]? = some code' ∧ code'.KeepsLoads code ∧
      ∀ bci, code'.IsStart bci ↔ code.IsStart bci

theorem KeepsLoads.refl (c : LinkedClass) : c.KeepsLoads c :=
  fun _ code hcode => ⟨code, hcode, .refl code, fun _ => .rfl⟩

theorem KeepsLoads.trans {f : LinkedClass} (h : f.KeepsLoads d) (h' : d.KeepsLoads c) : f.KeepsLoads c := by
  intro index code hcode
  obtain ⟨code', hcode', hloads, hstarts⟩ := h' index code hcode
  obtain ⟨code'', hcode'', hloads', hstarts'⟩ := h index code' hcode'
  exact ⟨code'', hcode'', hloads'.trans hloads hstarts, fun bci => (hstarts' bci).trans (hstarts bci)⟩

theorem isStart_of_code {index bci : Nat} {code : Code} (hcode : c.codes[index]? = some code) :
    c.IsStart index bci ↔ code.IsStart bci := by
  rw [IsStart, hcode]
  exact ⟨fun ⟨own, hown, hstart⟩ => Option.some.inj hown ▸ hstart, fun hstart => ⟨code, rfl, hstart⟩⟩

/-- What one call keeps: the constants in the cache are made from the pool, and the loads stay. -/
theorem Sound.call_loads (h : c.Sound k) (hlinked : Linked k) (hmade : c.constants.HoldsMade) (call : ViewCall)
    (hstart : c.IsStart call.index call.bci) :
    (c.call call).2.constants.HoldsMade ∧ (c.call call).2.KeepsLoads c := by
  obtain ⟨-, hsame, -⟩ := h.call hlinked call hstart
  obtain ⟨own, hown, hstart⟩ := hstart
  obtain ⟨cache, hcache, -⟩ := id hmade
  have hmade' := call.keepsMade (c.state own) hmade
  have hloads := call.keepsLoads (s := c.state own) hcache hstart
  rw [call_of_code hown] at hsame ⊢
  refine ⟨hmade', fun index code hcode => ?_⟩
  by_cases hindex : call.index = index
  · subst hindex
    obtain rfl : own = code := Option.some.inj (hown.symm.trans hcode)
    have hset : (c.codes.set call.index (exec call.run (c.state own)).2.code)[call.index]? = some _ :=
      List.getElem?_set_self (List.getElem?_eq_some_iff.mp hcode).1
    exact ⟨_, hset, hloads, fun bci =>
      (isStart_of_code hset).symm.trans ((hsame _ bci).trans (isStart_of_code hcode))⟩
  · exact ⟨code, (List.getElem?_set_ne hindex).trans hcode, .refl code, fun _ => .rfl⟩

/-- Any number of calls keeps what one call keeps. -/
theorem Sound.runAll_loads (h : c.Sound k) (hlinked : Linked k) (hmade : c.constants.HoldsMade)
    (calls : List ViewCall) (hstarts : ∀ call ∈ calls, c.IsStart call.index call.bci) :
    (c.runAll calls).constants.HoldsMade ∧ (c.runAll calls).KeepsLoads c := by
  induction calls generalizing c with
  | nil => exact ⟨hmade, .refl c⟩
  | cons call calls ih =>
      have hstart := hstarts call List.mem_cons_self
      obtain ⟨hsound, hsame, -⟩ := h.call hlinked call hstart
      obtain ⟨hmade, hloads⟩ := h.call_loads hlinked hmade call hstart
      obtain ⟨hmade', hloads'⟩ := ih hsound hmade fun later hlater =>
        (hsame _ _).mpr (hstarts later (List.mem_cons_of_mem _ hlater))
      exact ⟨hmade', hloads'.trans hloads⟩

end LinkedClass

/-! ### Answers -/

/-- Two answers that a caller cannot tell apart: the same value, or errors of the same kind, message and
contexts. -/
def SameAnswer {α : Type} : Except Fault α → Except Fault α → Prop
  | .ok a, .ok b => a = b
  | .error (.error e), .error (.error f) =>
    e.kind = f.kind ∧ e.message = f.message ∧ e.contexts.map Context.text = f.contexts.map Context.text
  | _, _ => False

/-- Contexts are told apart by their texts. -/
theorem sameAnswer_inContext {α : Type} {x : Except Error α} {here there : Context} (h : here.text = there.text) :
    SameAnswer ((inContext here x).mapError .error) ((inContext there x).mapError .error) := by
  cases x with
  | ok a => exact rfl
  | error e =>
      refine ⟨rfl, rfl, ?_⟩
      change (e.contexts ++ [here]).map Context.text = (e.contexts ++ [there]).map Context.text
      rw [List.map_append, List.map_append, List.map_singleton, List.map_singleton, h]

/-- Before the first call, no constant has been made. -/
theorem Allocator.holdsMade_cache (b : Allocator) (pool : Pool) (tag : UInt32) :
    Constants.HoldsMade ⟨pool, some (b.cache tag)⟩ :=
  Constants.holdsMade_iff.mpr (b.holds_cache pool tag)

namespace RewrittenInTurn

variable {pool : Pool} {b : Allocator} {pairs : List (Code × Code)} {c : LinkedClass} {tag : UInt32}

/-- Where a code has had a load, rewriting has left a load, and through the cache for all slots this one refers to
the same pool entry. -/
theorem exists_load (h : RewrittenInTurn pool .empty pairs b) (hsize : b.size < UInt32.size) {before after : Code}
    (hmem : (before, after) ∈ pairs) {bci : Nat} {op : Opcode} (hstart : before.IsStart bci)
    (hop : before.opcodeAt bci = .ok op) (hload : op ∈ Opcode.constantLoads) (tag : UInt32) (mode : Mode)
    (method : Method) :
    ∃ p n fast e e', before.encodedIndexAt bci = .ok p ∧ standard.entry? op = some e ∧ after.IsStart bci ∧
      after.Occupies bci n fast e' ∧ e'.family = .loadConstant ∧
      ((linkedBody method after pool (b.cache tag)).loadAt mode bci).poolIndex = .ok p := by
  obtain ⟨hstarts, -, hvisits⟩ := h.exists_visit hmem
  have hlt : bci < before.size := Code.lt_size_of_byteAt (Code.opcodeAt_eq_ok.mp hop)
  obtain ⟨n, op', e, s, t, m, m', hvisit, rfl, rfl, hextends⟩ := hvisits bci hstart hlt
  obtain rfl : op' = op := hvisit.opcode_eq hop
  obtain ⟨hslow, hfamily⟩ := Opcode.family_of_constantLoad _ hload
  rw [← FormatTable.family_of_slow hvisit.occupies.entry hslow] at hfamily
  obtain ⟨fast, e', hop', hentry', hfamily', p, hindex, hafter⟩ :=
    hvisit.load_poolIndex hextends hsize hslow hfamily
  obtain ⟨fast', e'', hocc, -⟩ := hvisit.occupies_after
  obtain rfl : fast' = fast := Except.ok.inj (hocc.opcode.symm.trans hop')
  obtain rfl : e'' = e' := Option.some.inj (hocc.entry.symm.trans hentry')
  exact ⟨p, n, fast', e, e'', hindex, hvisit.occupies.entry, (hstarts bci).mpr hstart, hocc, hfamily', hafter⟩

/-- The sample code as the one method of a linked class. -/
def sampleLinked : LinkedClass :=
  ⟨[(rewrite sampleCode samplePool .empty).code],
    ⟨samplePool, some ((rewrite sampleCode samplePool .empty).allocator.cache 7)⟩, 0, []⟩

/-- A call that makes the method type. -/
def sampleMaking : ViewCall := ⟨.resolveConstant, 0, sampleMethod, .checked, 4, .empty, .detached⟩

end RewrittenInTurn

end MethodCode
