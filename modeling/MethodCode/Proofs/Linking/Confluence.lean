import MethodCode.Proofs.Linking.Invisible

/-! Quickening in any order. With one registry, every instruction has one form that it can go over to and
every slot one outcome that it can take, whichever access comes first; `Between` says that a class is on its
way there, and `SettledAt` that a position has arrived. An `aload_0` in front of a `getfield` arrives only after
it, so a sweep from the last instruction to the first settles all of them. Main statement: after such a sweep
nothing tells in which order, or how often, instructions had been quickened before. -/

namespace MethodCode

open FormatTable (standard)

/-- The form that the field access at a position goes over to, judged before anything is quickened. -/
def Registry.finalForm? (r : Registry) (s : LinkState) (bci : Nat) (raw : Opcode) : Option Opcode := do
  let cache ← s.constants.cache
  let (i, f) ← r.fieldSite? s bci
  raw.formFor? ((cache.offer i (.field f)).resolvedAt i)

/-- The opcode that quickening leads to at a position. An `aload_0` goes over to its fast form unless a
`getfield` follows that stays what it is. -/
inductive FinalForm (r : Registry) (s : LinkState) (bci : Nat) : Opcode → Prop where
  | access {raw op : Opcode} (hop : s.code.opcodeAt bci = .ok raw) (hraw : raw = .getfield ∨ raw = .putfield)
      (hform : r.finalForm? s bci raw = some op) : FinalForm r s bci op
  | load (hop : s.code.opcodeAt bci = .ok .aload0)
      (hnext : s.code.opcodeAt (bci + 1) = .ok .getfield → ∃ op, r.finalForm? s (bci + 1) .getfield = some op) :
      FinalForm r s bci .fastAload0

/-- A field access at an instruction start publishes the field `f` to the slot `i`. -/
def Asks (r : Registry) (s : LinkState) (i : UInt32) (f : Field) : Prop :=
  ∃ bci raw, s.code.IsStart bci ∧ s.code.opcodeAt bci = .ok raw ∧ (raw = .getfield ∨ raw = .putfield) ∧
    r.fieldSite? s bci = some (i, f)

/-- The slot `i` is what it becomes when `f` is offered to it. -/
def Offered (s t : LinkState) (i : UInt32) (f : Field) : Prop :=
  ∀ c d, s.constants.cache = some c → t.constants.cache = some d →
    d.slots[i.toNat]? = (c.offer i (.field f)).slots[i.toNat]?

/-- The instruction at a position has its final form, and the slot it refers to its final outcome. -/
structure SettledAt (r : Registry) (s t : LinkState) (bci : Nat) : Prop where
  form : ∀ op, FinalForm r s bci op → t.code.opcodeAt bci = .ok op
  slot : ∀ raw i f, s.code.opcodeAt bci = .ok raw → raw = .getfield ∨ raw = .putfield →
    r.fieldSite? s bci = some (i, f) → Offered s t i f

/-- Every byte and every slot is as it was before quickening or as it will be in the end. -/
structure Between (r : Registry) (s t : LinkState) : Prop where
  references : t.constants.references = s.constants.references
  size : t.code.size = s.code.size
  bytes : ∀ a, t.code.byteAt a = s.code.byteAt a ∨
    s.code.IsStart a ∧ (∃ op, FinalForm r s a op) ∧ SettledAt r s t a
  slots : ∀ c d, s.constants.cache = some c → t.constants.cache = some d → ∀ j : Nat,
    d.slots[j]? = c.slots[j]? ∨ ∃ i f, i.toNat = j ∧ Asks r s i f ∧ Offered s t i f

variable {r : Registry} {s t t' : LinkState} {a b bci n : Nat} {raw op : Opcode} {i i' : UInt32} {f g : Field}

/-! ### What is final -/

theorem Registry.finalForm?_eq_some :
    r.finalForm? s bci raw = some op ↔
      ∃ cache i f, s.constants.cache = some cache ∧ r.fieldSite? s bci = some (i, f) ∧
        raw.formFor? ((cache.offer i (.field f)).resolvedAt i) = some op := by
  unfold finalForm?
  simp only [bind, Option.bind_eq_some_iff]
  constructor
  · rintro ⟨cache, hcache, ⟨i, f⟩, hsite, hform⟩
    exact ⟨cache, i, f, hcache, hsite, hform⟩
  · rintro ⟨cache, i, f, hcache, hsite, hform⟩
    exact ⟨cache, hcache, (i, f), hsite, hform⟩

theorem FinalForm.isFast (h : FinalForm r s bci op) : op.isFast = true := by
  cases h with
  | access hop hraw hform =>
      obtain ⟨cache, i, f, -, -, hform⟩ := Registry.finalForm?_eq_some.mp hform
      exact isFast_of_fastForm _ (fastForm_of_formFor hraw hform)
  | load => rfl

/-- A field access whose site can be told is all there. -/
theorem occupies_of_site (hop : s.code.opcodeAt bci = .ok raw) (hraw : raw = .getfield ∨ raw = .putfield)
    (hsite : r.fieldSite? s bci = some (i, f)) : ∃ e, s.code.Occupies bci 3 raw e := by
  obtain ⟨_, _, _, -, hread, -⟩ := Registry.fieldSite?_eq_some.mp hsite
  obtain ⟨_, _, -, hlast, -⟩ := Code.u16At_eq_ok.mp hread
  have hend := Code.lt_size_of_byteAt hlast
  obtain ⟨e, hocc, -⟩ := Code.Occupies.of_shape hop (field_shape hraw) (by omega)
  exact ⟨e, hocc⟩

theorem FinalForm.complete (h : FinalForm r s bci op) : ∃ n, s.code.lengthAt bci = .ok (some n) := by
  cases h with
  | access hop hraw hform =>
      obtain ⟨_, _, _, -, hsite, -⟩ := Registry.finalForm?_eq_some.mp hform
      obtain ⟨e, hocc⟩ := occupies_of_site hop hraw hsite
      exact ⟨3, hocc.lengthAt⟩
  | load hop =>
      obtain ⟨e, hocc, -⟩ := Code.Occupies.of_shape hop quickened_shapes.1
        (Code.lt_size_of_byteAt (Code.opcodeAt_eq_ok.mp hop))
      exact ⟨1, hocc.lengthAt⟩

/-- There is nothing to settle where no complete instruction is. -/
theorem settledAt_of_incomplete (h : ∀ n, s.code.lengthAt bci ≠ .ok (some n)) : SettledAt r s t bci where
  form op hfinal := by
    obtain ⟨n, hn⟩ := hfinal.complete
    exact absurd hn (h n)
  slot raw i f hop hraw hsite := by
    obtain ⟨e, hocc⟩ := occupies_of_site hop hraw hsite
    exact absurd hocc.lengthAt (h 3)

/-! What there is to settle at a position, by the opcode that stood there. -/

namespace SettledAt

theorem of_field (hop : s.code.opcodeAt bci = .ok raw) (hraw : raw = .getfield ∨ raw = .putfield)
    (hform : ∀ op, r.finalForm? s bci raw = some op → t.code.opcodeAt bci = .ok op)
    (hslot : ∀ i f, r.fieldSite? s bci = some (i, f) → Offered s t i f) : SettledAt r s t bci where
  form op hfinal := by
    cases hfinal with
    | access hop' _ hop'' =>
        obtain rfl := Except.ok.inj (hop.symm.trans hop')
        exact hform op hop''
    | load hop' =>
        obtain rfl := Except.ok.inj (hop.symm.trans hop')
        exact absurd hraw (by decide)
  slot raw' i f hop' _ := by
    obtain rfl := Except.ok.inj (hop.symm.trans hop')
    exact hslot i f

theorem of_aload (hop : s.code.opcodeAt bci = .ok .aload0)
    (hform : FinalForm r s bci .fastAload0 → t.code.opcodeAt bci = .ok .fastAload0) : SettledAt r s t bci where
  form op hfinal := by
    cases hfinal with
    | access hop' hraw =>
        obtain rfl := Except.ok.inj (hop.symm.trans hop')
        exact absurd hraw (by decide)
    | load _ hnext => exact hform (.load hop hnext)
  slot raw i f hop' hraw := by
    obtain rfl := Except.ok.inj (hop.symm.trans hop')
    exact absurd hraw (by decide)

theorem of_idle (h : ∀ op, s.code.opcodeAt bci = .ok op → op ≠ .getfield ∧ op ≠ .putfield ∧ op ≠ .aload0) :
    SettledAt r s t bci where
  form op hfinal := by
    cases hfinal with
    | access hop hraw => exact (hraw.elim (h _ hop).1 (h _ hop).2.1).elim
    | load hop => exact absurd rfl (h _ hop).2.2
  slot raw i f hop hraw := (hraw.elim (h _ hop).1 (h _ hop).2.1).elim

end SettledAt

/-- One slot stands for one reference, and one registry finds one field for it. -/
theorem Asks.unique (hf : Asks r s i f) (hg : Asks r s i g) : f = g := by
  obtain ⟨_, _, -, -, -, hsite⟩ := hf
  obtain ⟨_, _, -, -, -, hsite'⟩ := hg
  obtain ⟨cache, _, p, hcache, -, -, hslot, hlookup⟩ := Registry.fieldSite?_eq_some.mp hsite
  obtain ⟨cache', _, p', hcache', -, -, hslot', hlookup'⟩ := Registry.fieldSite?_eq_some.mp hsite'
  obtain rfl : cache = cache' := Option.some.inj (hcache.symm.trans hcache')
  obtain rfl : p = p' := Except.ok.inj (hslot.symm.trans hslot')
  exact Except.ok.inj (hlookup.symm.trans hlookup')

/-! ### On the way -/

theorem Between.refl (r : Registry) (s : LinkState) : Between r s s where
  references := rfl
  size := rfl
  bytes _ := .inl rfl
  slots c d hc hd j := .inl (by rw [Option.some.inj (hc.symm.trans hd)])

namespace Between

variable (h : Between r s t)

include h

/-- A standard code that is still there was there before. -/
theorem opcodeAt_of_slow (hop : t.code.opcodeAt a = .ok raw) (hslow : raw.isFast = false) :
    s.code.opcodeAt a = .ok raw := by
  rcases h.bytes a with hsame | ⟨-, ⟨op, hfinal⟩, hsettled⟩
  · rw [← hop, Code.opcodeAt_congr hsame]
  · obtain rfl : op = raw := Except.ok.inj ((hsettled.form op hfinal).symm.trans hop)
    rw [hfinal.isFast] at hslow
    cases hslow

/-- Operands stay, so a field access keeps its slot and its field. -/
theorem fieldSite?_eq (hstart : s.code.IsStart a) (hop : s.code.opcodeAt a = .ok raw)
    (hraw : raw = .getfield ∨ raw = .putfield) : r.fieldSite? t a = r.fieldSite? s a := by
  have hread : t.code.u16At .native (a + 1) = s.code.u16At .native (a + 1) := by
    by_cases hend : a + 3 ≤ s.code.size
    · obtain ⟨e, hocc, -⟩ := Code.Occupies.of_shape hop (field_shape hraw) hend
      refine Code.u16At_congr fun k hk => ?_
      have hlo := hk.1
      have hhi := hk.2
      rcases h.bytes k with hsame | ⟨hk, -⟩
      · exact hsame
      · have := hstart.end_le hk (by omega) hocc.lengthAt
        omega
    · rw [Code.u16At_of_size_lt (by rw [h.size]; omega), Code.u16At_of_size_lt (by omega)]
  obtain ⟨hpool, hcache⟩ := Constants.cases_of_references h.references
  unfold Registry.fieldSite?
  rcases hcache with ⟨hnone', hnone⟩ | ⟨cache', cache, hsome', hsome, hsame⟩
  · rw [hnone', hnone]
    rfl
  · rw [hsome', hsome, hread, hpool]
    simp only [Option.bind_eq_bind, Option.bind_some, Cache.poolIndexAt_congr hsame]

theorem asks_of_site (hstart : s.code.IsStart a) (hop : t.code.opcodeAt a = .ok raw)
    (hraw : raw = .getfield ∨ raw = .putfield) (hsite : r.fieldSite? t a = some (i, f)) : Asks r s i f := by
  have hop' := h.opcodeAt_of_slow hop (isFast_of_field hraw)
  exact ⟨a, raw, hstart, hop', hraw, (h.fieldSite?_eq hstart hop' hraw).symm.trans hsite⟩

/-- Offering the field that is asked for makes the slot what it will be in the end. -/
theorem offered_of_offer (hasks : Asks r s i f) {d₀ : Cache} (hd₀ : t.constants.cache = some d₀)
    (hd : t'.constants.cache = some (d₀.offer i (.field f))) : Offered s t' i f := by
  intro c d hc hd'
  obtain rfl := Option.some.inj (hd.symm.trans hd')
  have htwice : (c.offer i (.field f)).slots[i.toNat]?.map (·.offer (.field f)) =
      (c.offer i (.field f)).slots[i.toNat]? := by
    rw [Cache.getElem?_offer, if_pos rfl]
    cases c.slots[i.toNat]? with
    | none => rfl
    | some slot => exact congrArg some (CacheSlot.offer_offer slot _)
  rw [Cache.getElem?_offer, if_pos rfl]
  rcases h.slots c d₀ hc hd₀ i.toNat with hsame | ⟨i', f', hi, hasks', hoffered⟩
  · rw [hsame, Cache.getElem?_offer, if_pos rfl]
  · obtain rfl := UInt32.toNat_inj.mp hi
    obtain rfl := hasks'.unique hasks
    rw [hoffered c d₀ hc hd₀, htwice]

/-- The form that an access goes over to is the final one, whatever has been published until then. -/
theorem finalForm?_eq (hstart : s.code.IsStart a) (hop : t.code.opcodeAt a = .ok raw)
    (hraw : raw = .getfield ∨ raw = .putfield) {d : Cache} (hd : t.constants.cache = some d)
    (hsite : r.fieldSite? t a = some (i, f)) :
    r.finalForm? s a raw = raw.formFor? ((d.offer i (.field f)).resolvedAt i) := by
  have hasks := h.asks_of_site hstart hop hraw hsite
  have hsite' : r.fieldSite? s a = some (i, f) :=
    (h.fieldSite?_eq hstart (h.opcodeAt_of_slow hop (isFast_of_field hraw)) hraw).symm.trans hsite
  obtain ⟨c, _, _, hc, -⟩ := Registry.fieldSite?_eq_some.mp hsite'
  have hoffered :
      Offered s { t with constants := { t.constants with cache := some (d.offer i (.field f)) } } i f :=
    h.offered_of_offer hasks hd rfl
  have hheld : (d.offer i (.field f)).resolvedAt i = (c.offer i (.field f)).resolvedAt i := by
    rw [Cache.resolvedAt, Cache.resolvedAt, hoffered c _ hc rfl]
  unfold Registry.finalForm?
  rw [hc, hsite', hheld]
  rfl

end Between

/-! ### One quickening -/

namespace QuickenStep

variable {code : Code} {k : Constants} (h : QuickenStep r a t code k)

include h

/-- Quickening leaves the cache or offers the field of the access. -/
theorem offers : k = t.constants ∨ ∃ cache raw i f, t.constants.cache = some cache ∧
    t.code.opcodeAt a = .ok raw ∧ (raw = .getfield ∨ raw = .putfield) ∧ r.fieldSite? t a = some (i, f) ∧
    k = { t.constants with cache := some (cache.offer i (.field f)) } := by
  cases h with
  | idle | waits | load | unresolved => exact .inl rfl
  | formless hop hraw hcache hsite | access hop hraw hcache hsite =>
      exact .inr ⟨_, _, _, _, hcache, hop, hraw, hsite, rfl⟩

/-- Quickening leaves the code or exchanges a standard code. -/
theorem stores : code = t.code ∨
    ∃ raw op, t.code.opcodeAt a = .ok raw ∧ raw.isFast = false ∧ t.code.setOpcode a op = .ok code := by
  cases h with
  | idle | waits | unresolved | formless => exact .inl rfl
  | load hop hnext hstore => exact .inr ⟨_, _, hop, by decide, hstore⟩
  | access hop hraw hcache hsite hform hstore => exact .inr ⟨_, _, hop, isFast_of_field hraw, hstore⟩

theorem byteAt_eq (hne : b ≠ a) : code.byteAt b = t.code.byteAt b := by
  rcases h.stores with hcode | ⟨_, _, -, -, hstore⟩
  · rw [hcode]
  · exact (Code.byteAt_setByte hstore b).trans (if_neg hne)

theorem opcodeAt_of_fast (hop : t.code.opcodeAt b = .ok op) (hfast : op.isFast = true) :
    code.opcodeAt b = .ok op := by
  rcases h.stores with hcode | ⟨raw, _, hraw, hslow, -⟩
  · rw [hcode, hop]
  · have hne : b ≠ a := by
      rintro rfl
      obtain rfl : op = raw := Except.ok.inj (hop.symm.trans hraw)
      rw [hfast] at hslow
      cases hslow
    rw [← hop, Code.opcodeAt_congr (h.byteAt_eq hne)]

end QuickenStep

namespace Between

variable (h : Between r s t)

include h

theorem settledAt_of_load (hop : t.code.opcodeAt a = .ok .aload0)
    (hnext : t.code.opcodeAt (a + 1) ≠ .ok .getfield) (hstore : t.code.setOpcode a .fastAload0 = .ok t'.code) :
    (∃ op, FinalForm r s a op) ∧ SettledAt r s t' a := by
  have hop' := h.opcodeAt_of_slow hop (by decide)
  have hfinal : FinalForm r s a .fastAload0 := by
    refine .load hop' fun hget => ?_
    -- a getfield that is no longer there has gone over to its final form
    rcases h.bytes (a + 1) with hsame | ⟨-, ⟨op, hnextFinal⟩, -⟩
    · exact absurd ((Code.opcodeAt_congr hsame).trans hget) hnext
    · cases hnextFinal with
      | access hraw _ hform =>
          obtain rfl := Except.ok.inj (hget.symm.trans hraw)
          exact ⟨op, hform⟩
      | load haload => exact absurd (Except.ok.inj (hget.symm.trans haload)) (by decide)
  exact ⟨⟨_, hfinal⟩, .of_aload hop' fun _ => Code.opcodeAt_setOpcode hstore⟩

theorem settledAt_of_access (hstart : s.code.IsStart a) (hop : t.code.opcodeAt a = .ok raw)
    (hraw : raw = .getfield ∨ raw = .putfield) {d : Cache} (hd : t.constants.cache = some d)
    (hsite : r.fieldSite? t a = some (i, f))
    (hform : raw.formFor? ((d.offer i (.field f)).resolvedAt i) = some op)
    (hstore : t.code.setOpcode a op = .ok t'.code)
    (hk : t'.constants = { t.constants with cache := some (d.offer i (.field f)) }) :
    (∃ op, FinalForm r s a op) ∧ SettledAt r s t' a := by
  have hop' := h.opcodeAt_of_slow hop (isFast_of_field hraw)
  have hfinal := (h.finalForm?_eq hstart hop hraw hd hsite).trans hform
  refine ⟨⟨op, .access hop' hraw hfinal⟩, .of_field hop' hraw (fun op' hother => ?_) fun i' f' hsite' => ?_⟩
  · obtain rfl := Option.some.inj (hfinal.symm.trans hother)
    exact Code.opcodeAt_setOpcode hstore
  · rw [h.fieldSite?_eq hstart hop' hraw, hsite'] at hsite
    obtain ⟨rfl, rfl⟩ := Prod.mk.inj (Option.some.inj hsite)
    exact h.offered_of_offer ⟨a, _, hstart, hop', hraw, hsite'⟩ hd (by rw [hk])

end Between

namespace Between

variable (h : Between r s t) (hstart : s.code.IsStart a)
  (hstep : QuickenStep r a t t'.code t'.constants)

include h hstart hstep

/-- A slot that is what it will be in the end stays so. -/
theorem offered_step (hasks : Asks r s i f) (hoffered : Offered s t i f) : Offered s t' i f := by
  rcases hstep.offers with hsame | ⟨d₀, raw, i', f', hd₀, hop, hraw, hsite, hk⟩
  · rw [Offered, hsame]
    exact hoffered
  · have hasks' := h.asks_of_site hstart hop hraw hsite
    by_cases hi : i' = i
    · subst hi
      obtain rfl := hasks'.unique hasks
      exact h.offered_of_offer hasks' hd₀ (by rw [hk])
    · intro c d hc hd
      rw [hk] at hd
      obtain rfl := Option.some.inj hd
      rw [Cache.getElem?_offer, if_neg (fun heq => hi (UInt32.toNat_inj.mp heq))]
      exact hoffered c d₀ hc hd₀

/-- What is settled stays settled. -/
theorem settledAt_step (hb : s.code.IsStart b) (hsettled : SettledAt r s t b) : SettledAt r s t' b where
  form op hfinal := hstep.opcodeAt_of_fast (hsettled.form op hfinal) hfinal.isFast
  slot raw i f hop hraw hsite :=
    h.offered_step hstart hstep ⟨b, raw, hb, hop, hraw, hsite⟩ (hsettled.slot raw i f hop hraw hsite)

/-- An opcode is stored where it settles the position. -/
theorem settledAt_of_store : t'.code = t.code ∨ (∃ op, FinalForm r s a op) ∧ SettledAt r s t' a := by
  generalize hcode : t'.code = code at hstep
  generalize hk : t'.constants = k at hstep
  cases hstep with
  | idle | waits | unresolved | formless => exact .inl rfl
  | load hop hnext hstore => exact .inr (h.settledAt_of_load hop hnext (hcode ▸ hstore))
  | access hop hraw hcache hsite hform hstore =>
      exact .inr (h.settledAt_of_access hstart hop hraw hcache hsite hform (hcode ▸ hstore) hk)

/-- Quickening at an instruction start leads no class off its way. -/
theorem step : Between r s t' where
  references := hstep.references_eq.trans h.references
  size := by
    rcases hstep.stores with hcode | ⟨_, _, -, -, hstore⟩
    · rw [hcode, h.size]
    · rw [Code.size_setByte hstore, h.size]
  bytes b := by
    have hkept (hb : t'.code.byteAt b = t.code.byteAt b) : t'.code.byteAt b = s.code.byteAt b ∨
        s.code.IsStart b ∧ (∃ op, FinalForm r s b op) ∧ SettledAt r s t' b := by
      rcases h.bytes b with hsame | ⟨hb', hfinal, hsettled⟩
      · exact .inl (hb.trans hsame)
      · exact .inr ⟨hb', hfinal, h.settledAt_step hstart hstep hb' hsettled⟩
    by_cases hba : b = a
    · subst hba
      rcases h.settledAt_of_store hstart hstep with hcode | hsettled
      · exact hkept (by rw [hcode])
      · exact .inr ⟨hstart, hsettled⟩
    · exact hkept (hstep.byteAt_eq hba)
  slots c d hc hd j := by
    rcases hstep.offers with hsame | ⟨d₀, raw, i, f, hd₀, hop, hraw, hsite, hk⟩
    · rw [hsame] at hd
      rcases h.slots c d hc hd j with hslot | ⟨i, f, hi, hasks, hoffered⟩
      · exact .inl hslot
      · exact .inr ⟨i, f, hi, hasks, h.offered_step hstart hstep hasks hoffered⟩
    · have hasks := h.asks_of_site hstart hop hraw hsite
      by_cases hij : i.toNat = j
      · exact .inr ⟨i, f, hij, hasks, h.offered_of_offer hasks hd₀ (by rw [hk])⟩
      · rw [hk] at hd
        obtain rfl := Option.some.inj hd
        rcases h.slots c d₀ hc hd₀ j with hslot | ⟨i', f', hi', hasks', hoffered⟩
        · exact .inl (by rw [Cache.getElem?_offer, if_neg hij, hslot])
        · exact .inr ⟨i', f', hi', hasks', h.offered_step hstart hstep hasks' hoffered⟩

/-- Quickening settles a position, unless an `aload_0` waits there for what follows. -/
theorem settledAt_self (hnext : s.code.opcodeAt a = .ok .aload0 → SettledAt r s t (a + 1)) :
    SettledAt r s t' a := by
  rcases h.bytes a with hsame | ⟨-, -, hsettled⟩
  case inr => exact h.settledAt_step hstart hstep hstart hsettled
  generalize hcode : t'.code = code at hstep
  generalize hk : t'.constants = k at hstep
  cases hstep with
  | idle hidle => exact .of_idle fun op hop => hidle op ((Code.opcodeAt_congr hsame).trans hop)
  | waits hop hget =>
      have hop' := h.opcodeAt_of_slow hop (by decide)
      have hget' := h.opcodeAt_of_slow hget (by decide)
      refine .of_aload hop' fun hfinal => ?_
      cases hfinal with
      | access hraw' hraw =>
          obtain rfl := Except.ok.inj (hop'.symm.trans hraw')
          exact absurd hraw (by decide)
      | load _ hfollows =>
          -- the getfield would have gone over to its final form, but it is still there
          obtain ⟨op, hform⟩ := hfollows hget'
          have hfinal : FinalForm r s (a + 1) op := .access hget' (.inl rfl) hform
          obtain rfl := Except.ok.inj (hget.symm.trans ((hnext hop').form op hfinal))
          exact absurd hfinal.isFast (by decide)
  | load hop hget hstore => exact (h.settledAt_of_load hop hget (hcode ▸ hstore)).2
  | unresolved hop hraw hsite =>
      have hop' := h.opcodeAt_of_slow hop (isFast_of_field hraw)
      rw [h.fieldSite?_eq hstart hop' hraw] at hsite
      refine .of_field hop' hraw (fun op hform => ?_) fun i f hsome => ?_
      · obtain ⟨_, _, _, -, hsome, -⟩ := Registry.finalForm?_eq_some.mp hform
        rw [hsite] at hsome
        cases hsome
      · rw [hsite] at hsome
        cases hsome
  | formless hop hraw hcache hsite hform =>
      have hop' := h.opcodeAt_of_slow hop (isFast_of_field hraw)
      have hasks := h.asks_of_site hstart hop hraw hsite
      have hnone := (h.finalForm?_eq hstart hop hraw hcache hsite).trans hform
      rw [h.fieldSite?_eq hstart hop' hraw] at hsite
      refine .of_field hop' hraw (fun op hsome => ?_) fun i' f' hsite' => ?_
      · rw [hnone] at hsome
        cases hsome
      · obtain ⟨rfl, rfl⟩ := Prod.mk.inj (Option.some.inj (hsite.symm.trans hsite'))
        exact h.offered_of_offer hasks hcache (by rw [hk])
  | access hop hraw hcache hsite hform hstore =>
      exact (h.settledAt_of_access hstart hop hraw hcache hsite hform (hcode ▸ hstore) hk).2

end Between

/-! ### Any number of quickenings -/

/-- All of a class is settled. -/
structure Swept (r : Registry) (s t : LinkState) : Prop extends Between r s t where
  settled : ∀ bci, s.code.IsStart bci → SettledAt r s t bci

namespace Swept

theorem byteAt_eq_of_final (h : Swept r s t) (h' : Swept r s t') (hstart : s.code.IsStart a)
    (hfinal : ∃ op, FinalForm r s a op) : t'.code.byteAt a = t.code.byteAt a := by
  obtain ⟨op, hfinal⟩ := hfinal
  rw [Code.opcodeAt_eq_ok.mp ((h.settled a hstart).form op hfinal),
    Code.opcodeAt_eq_ok.mp ((h'.settled a hstart).form op hfinal)]

theorem code_eq (h : Swept r s t) (h' : Swept r s t') : t'.code = t.code := by
  refine Code.ext_byteAt fun a => ?_
  rcases h.bytes a with hsame | ⟨hstart, hfinal, -⟩
  · rcases h'.bytes a with hsame' | ⟨hstart, hfinal, -⟩
    · rw [hsame, hsame']
    · exact h.byteAt_eq_of_final h' hstart hfinal
  · exact h.byteAt_eq_of_final h' hstart hfinal

/-- Every field that is asked for has been offered. -/
theorem offered (h : Swept r s t) (hasks : Asks r s i f) : Offered s t i f := by
  obtain ⟨bci, raw, hstart, hop, hraw, hsite⟩ := hasks
  exact (h.settled bci hstart).slot raw i f hop hraw hsite

theorem constants_eq (h : Swept r s t) (h' : Swept r s t') : t'.constants = t.constants := by
  have hcache : t'.constants.cache = t.constants.cache := by
    rcases (Constants.cases_of_references h.references).2 with ⟨hd, hc⟩ | ⟨d, c, hd, hc, htag⟩
    · rcases (Constants.cases_of_references h'.references).2 with ⟨hd', -⟩ | ⟨_, _, -, hc', -⟩
      · rw [hd, hd']
      · rw [hc] at hc'
        cases hc'
    · rcases (Constants.cases_of_references h'.references).2 with ⟨-, hc'⟩ | ⟨d', c', hd', hc', htag'⟩
      · rw [hc] at hc'
        cases hc'
      obtain rfl := Option.some.inj (hc.symm.trans hc')
      have hslots : d'.slots = d.slots := by
        refine Array.ext_getElem? fun j => ?_
        rcases h.slots c d hc hd j with hsame | ⟨i, f, rfl, hasks, -⟩
        · rcases h'.slots c d' hc hd' j with hsame' | ⟨i, f, rfl, hasks, -⟩
          · rw [hsame, hsame']
          · rw [h.offered hasks c d hc hd, h'.offered hasks c d' hc hd']
        · rw [h.offered hasks c d hc hd, h'.offered hasks c d' hc hd']
      have htags : d'.tag = d.tag := (Prod.mk.inj htag').1.trans (Prod.mk.inj htag).1.symm
      have hsame : d' = d := congrArg₂ Cache.mk hslots htags
      rw [hd, hd', hsame]
  have hpool := ((Constants.cases_of_references h'.references).1).trans
    (Constants.cases_of_references h.references).1.symm
  exact congrArg₂ Constants.mk hpool hcache

/-- There is only one way to be settled. -/
theorem sameClass (h : Swept r s t) (h' : Swept r s t') : t.SameClass t' :=
  ⟨h.code_eq h', h.constants_eq h'⟩

end Swept

namespace QuickenCall

/-- Quickens every instruction that a walk meets, from the last one to the first. -/
def sweep (mode : Mode) (method : Method) (registry : Registry) (thread : Thread) (s : LinkState) : LinkState :=
  runAll ((Walk.startingAt mode method s.code 0).trail.starts.reverse.map fun bci =>
    ⟨mode, method, bci, registry.resolver, thread⟩) s

/-- A call that asks a registry is one of the cases. -/
theorem step (call : QuickenCall) (hcall : call.resolver = r.resolver) (s : LinkState) :
    QuickenStep r call.bci s (exec call.run s).2.code (exec call.run s).2.constants := by
  obtain ⟨_, _, hexec, hstep⟩ := quicken_step call.mode call.method call.bci r call.thread s
  rw [run, hcall, LinkM.quickenBy_registry, hexec]
  exact hstep

theorem between_runAll {calls : List QuickenCall} (h : Between r s t)
    (hcalls : ∀ call ∈ calls, call.resolver = r.resolver ∧ s.code.IsStart call.bci) :
    Between r s (runAll calls t) := by
  induction calls generalizing t with
  | nil => exact h
  | cons call calls ih =>
      obtain ⟨hcall, hstart⟩ := hcalls call List.mem_cons_self
      exact ih (h.step hstart (step call hcall t)) fun later hlater =>
        hcalls later (List.mem_cons_of_mem _ hlater)

/-- A sweep settles one position after the other; when it comes to an instruction, what follows is settled. -/
theorem swept_of_positions {mode : Mode} {method : Method} {thread : Thread} {rest : List Nat}
    (h : Between r s t) (hrest : ∀ bci ∈ rest, s.code.IsStart bci) (hdown : rest.Pairwise (· > ·))
    (hdone : ∀ bci, s.code.IsStart bci → bci ∉ rest → SettledAt r s t bci) :
    Swept r s (runAll (rest.map fun bci => ⟨mode, method, bci, r.resolver, thread⟩) t) := by
  induction rest generalizing t with
  | nil => exact ⟨h, fun bci hstart => hdone bci hstart List.not_mem_nil⟩
  | cons a rest ih =>
      have hstart := hrest a List.mem_cons_self
      have hstep := step ⟨mode, method, a, r.resolver, thread⟩ rfl t
      obtain ⟨hlater, hdown⟩ := List.pairwise_cons.mp hdown
      refine ih (h.step hstart hstep) (fun bci hbci => hrest bci (List.mem_cons_of_mem _ hbci)) hdown
        fun bci hbci hnot => ?_
      by_cases hba : bci = a
      · subst hba
        refine h.settledAt_self hstart hstep fun hload => ?_
        obtain ⟨e, hocc, -⟩ := Code.Occupies.of_shape hload quickened_shapes.1
          (Code.lt_size_of_byteAt (Code.opcodeAt_eq_ok.mp hload))
        refine hdone (bci + 1) (hstart.next hocc.lengthAt) fun hmem => ?_
        rcases List.mem_cons.mp hmem with heq | hmem
        · omega
        · have := hlater _ hmem
          omega
      · exact h.settledAt_step hstart hstep hbci (hdone bci hbci fun hmem =>
          (List.mem_cons.mp hmem).elim hba hnot)

theorem swept_sweep (mode : Mode) (method : Method) (thread : Thread) {calls : List QuickenCall}
    (hcalls : ∀ call ∈ calls, call.resolver = r.resolver ∧ s.code.IsStart call.bci) :
    Swept r s (sweep mode method r thread (runAll calls s)) := by
  have hbetween := between_runAll (.refl r s) hcalls
  have hlooks := runAll_looksLike calls s (fun call hcall => (hcalls call hcall).2) fun call hcall =>
    (hcalls call hcall).1 ▸ r.linksFields
  have hstarts : (Walk.startingAt mode method (runAll calls s).code 0).trail.starts =
      (Walk.startingAt mode method s.code 0).trail.starts := by
    have hsame := (hlooks.walks (Walk.startingAt mode method s.code 0) rfl (.refl 0)).1
    have hstop : (runAll calls s).code.size = s.code.size := hbetween.size
    rw [← hsame, Walk.startingAt, Walk.startingAt, hstop]
  rw [sweep, hstarts]
  refine swept_of_positions hbetween ?_ ?_ ?_
  · intro bci hbci
    exact (Walk.mem_starts_startingAt.mp (List.mem_reverse.mp hbci)).1
  · exact List.pairwise_reverse.mpr (Walk.pairwise_starts _)
  · intro bci hstart hnot
    refine settledAt_of_incomplete fun n hn => hnot ?_
    exact List.mem_reverse.mpr (Walk.mem_starts_startingAt.mpr ⟨hstart, n, hn⟩)

/-- A sweep leaves the same code and the same constants, whatever has been quickened before it, in whatever
order and however often. -/
theorem sweep_eq {registry : Registry} {calls calls' : List QuickenCall}
    (hcalls : ∀ call ∈ calls, call.resolver = registry.resolver ∧ s.code.IsStart call.bci)
    (hcalls' : ∀ call ∈ calls', call.resolver = registry.resolver ∧ s.code.IsStart call.bci) (mode mode' : Mode)
    (method method' : Method) (thread thread' : Thread) :
    (sweep mode method registry thread (runAll calls s)).code =
        (sweep mode' method' registry thread' (runAll calls' s)).code ∧
      (sweep mode method registry thread (runAll calls s)).constants =
        (sweep mode' method' registry thread' (runAll calls' s)).constants :=
  (swept_sweep mode' method' thread' hcalls').sameClass (swept_sweep mode method thread hcalls)

/-- The sample class after its load has been quickened too early and after its field access has been quickened:
the codes differ, and a sweep makes them the same. -/
theorem sweep_eq_sample :
    (runAll [sampleAt 0] sampleClass).code ≠ (runAll [sampleAt 1, sampleAt 0] sampleClass).code ∧
      (sweep .checked sampleReader sampleRegistry .detached (runAll [sampleAt 0] sampleClass)).code =
        (sweep .unchecked sampleReader sampleRegistry .detached
          (runAll [sampleAt 1, sampleAt 0] sampleClass)).code := by
  have hlength : sampleClass.code.lengthAt 0 = .ok (some 1) := by
    decide +kernel
  have hfirst : sampleRegistry.resolver = sampleRegistry.resolver ∧ sampleClass.code.IsStart 0 := ⟨rfl, .refl 0⟩
  have hsecond : sampleRegistry.resolver = sampleRegistry.resolver ∧ sampleClass.code.IsStart 1 :=
    ⟨rfl, .step hlength (.refl 1)⟩
  refine ⟨by decide +kernel,
    (sweep_eq (fun call hcall => ?_) (fun call hcall => ?_) .checked .unchecked _ _ _ _).1⟩
  · obtain rfl := List.mem_singleton.mp hcall
    exact hfirst
  · simp only [List.mem_cons, List.not_mem_nil, or_false] at hcall
    rcases hcall with rfl | rfl
    · exact hsecond
    · exact hfirst

end QuickenCall

end MethodCode
