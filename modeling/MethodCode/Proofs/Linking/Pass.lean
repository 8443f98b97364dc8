import MethodCode.Proofs.Linking.Slots

/-! A whole rewriting pass. `Pass` is the sequence of sites that a successful pass goes through, over the
code as the sites before have left it. Main statements: a site finds the bytes of its instruction and all
that follow as they were in the beginning, what it has written stays to the end, and walks over the code
before and after the pass visit the same instructions. -/

namespace MethodCode

namespace Rewriting

variable {pool : Pool} {limit bci b n : Nat} {op : Opcode} {e : FormatEntry} {s t u : Rewriting}

/-- A pass from a position to the limit: complete instructions, each rewritten as its site demands. -/
inductive Pass (pool : Pool) (limit : Nat) : Nat → Rewriting → Rewriting → Prop where
  | done {bci : Nat} {s : Rewriting} (hlimit : limit ≤ bci) : Pass pool limit bci s s
  | step {bci n : Nat} {op : Opcode} {e : FormatEntry} {s t u : Rewriting} (hlimit : bci < limit)
      (hocc : s.code.Occupies bci n op e) (hsite : SiteStep pool bci op e s t)
      (hrest : Pass pool limit (bci + n) t u) : Pass pool limit bci s u

theorem pass_of_exec (h : exec (rewriteFrom pool limit bci) s = (.ok (), t)) : Pass pool limit bci s t := by
  induction hk : limit - bci using Nat.strongRecOn generalizing bci s with
  | _ k ih =>
      rw [rewriteFrom] at h
      split at h
      · rename_i hlimit
        obtain ⟨length, hlength, h⟩ := exec_liftM_bind_eq_ok.mp ((exec_get_bind _ s).symm.trans h)
        have hlength : s.code.lengthAt bci = .ok length := hlength
        rcases length with _ | _ | n
        · cases (Prod.mk.inj h).1
        · obtain ⟨_, _, hocc⟩ := Code.lengthAt_eq_some_iff.mp hlength
          exact absurd hocc.pos (Nat.lt_irrefl 0)
        · obtain ⟨op, e, hocc⟩ := Code.lengthAt_eq_some_iff.mp hlength
          obtain ⟨⟨⟩, m, hsite, hrest⟩ := exec_bind_eq_ok.mp h
          exact .step hlimit hocc (siteStep_of_exec hocc.opcode hocc.entry hsite)
            (ih (limit - (bci + n + 1)) (by omega) hrest rfl)
      · rename_i hlimit
        obtain ⟨-, rfl⟩ := Prod.mk.inj h
        exact .done (Nat.not_lt.mp hlimit)

namespace Pass

theorem size_eq (h : Pass pool limit bci s t) : t.code.size = s.code.size := by
  induction h with
  | done => rfl
  | step _ _ hsite _ ih => rw [ih, hsite.size_eq]

/-- A pass leaves the code before its position as it is. -/
theorem eqOn_before (h : Pass pool limit bci s t) :
    Set.EqOn t.code.byteAt s.code.byteAt (Set.Iio bci) := by
  induction h with
  | done => exact fun _ _ => rfl
  | step _ hocc hsite _ ih =>
      intro k hk
      rw [Set.mem_Iio] at hk
      rw [ih (Set.mem_Iio.mpr (by omega)), hsite.eqOn_outside hocc fun hmem => Nat.not_le.mpr hk hmem.1]

theorem extends_allocator (h : Pass pool limit bci s t) : t.allocator.Extends s.allocator := by
  induction h with
  | done => exact .refl _
  | step _ _ hsite _ ih => exact ih.trans hsite.extends_allocator

theorem events_prefix (h : Pass pool limit bci s t) : s.events <+: t.events := by
  induction h with
  | done => exact List.prefix_refl _
  | step _ _ hsite _ ih => exact hsite.events_prefix.trans ih

end Pass

/-- A pass that succeeds has walked over all the code, and has taken the slots of all the code. -/
theorem Pass.exists_allots (h : Pass pool limit bci s t) :
    ∃ x, limit ≤ x ∧ s.code.Allots pool bci s.allocator x t.allocator := by
  induction h with
  | done hlimit => exact ⟨_, hlimit, .refl _ _⟩
  | step _ hocc hsite _ ih =>
      obtain ⟨x, hx, hallots⟩ := ih
      have hafter := Code.eqOn_after (hsite.eqOn_outside hocc) (Nat.le_refl _)
      rw [hsite.allocator_eq hocc.opcode hocc.entry] at hallots
      exact ⟨x, hx, .step hocc.lengthAt (hallots.congr hsite.size_eq.symm hafter.symm)⟩

theorem Pass.exists_reaches (h : Pass pool limit bci s t) : ∃ x, limit ≤ x ∧ s.code.Reaches bci x := by
  obtain ⟨x, hx, hallots⟩ := h.exists_allots
  exact ⟨x, hx, hallots.reaches⟩

/-- What a pass from `s` to `t` does at `b`: `m` and `m'` are the pass before and after the site. -/
structure Visit (pool : Pool) (b n : Nat) (op : Opcode) (e : FormatEntry) (s t m m' : Rewriting) : Prop where
  occupies : m.code.Occupies b n op e
  site : SiteStep pool b op e m m'
  /-- The site finds the code from there on as it was. -/
  found : Set.EqOn m.code.byteAt s.code.byteAt (Set.Ici b)
  /-- What the site leaves behind stays. -/
  left : Set.EqOn t.code.byteAt m'.code.byteAt (Set.Iio (b + n))
  size_found : m.code.size = s.code.size
  size_left : t.code.size = m'.code.size
  extends_found : m.allocator.Extends s.allocator
  extends_left : t.allocator.Extends m'.allocator
  events_left : m'.events <+: t.events

/-- What the rest of a pass does behind its first site, the whole pass does. -/
theorem Visit.of_rest {n' : Nat} {op' : Opcode} {e' : FormatEntry} {m l l' : Rewriting}
    (h : Visit pool b n' op' e' m t l l') (hocc : s.code.Occupies bci n op e) (hsite : SiteStep pool bci op e s m)
    (hle : bci + n ≤ b) : Visit pool b n' op' e' s t l l' :=
  { h with
    found := h.found.trans (Code.eqOn_after (hsite.eqOn_outside hocc) hle)
    size_found := h.size_found.trans hsite.size_eq
    extends_found := h.extends_found.trans hsite.extends_allocator }

/-- A pass visits the instructions of a walk over the code that it starts from, and has taken the slots that
the walk tells. -/
theorem Pass.visits_allots (h : Pass pool limit bci s t) (hb : s.code.Reaches bci b) (hlt : b < limit) :
    ∃ n op e m m', Visit pool b n op e s t m m' ∧ s.code.Allots pool bci s.allocator b m.allocator := by
  induction h with
  | done hlimit =>
      have := hb.le
      omega
  | @step bci n op e s m t hlimit hocc hsite hrest ih =>
      rcases hb.cases_head with rfl | ⟨n', hlength, hb⟩
      · exact ⟨n, op, e, s, m, ⟨hocc, hsite, fun _ _ => rfl, hrest.eqOn_before, rfl, hrest.size_eq,
          .refl _, hrest.extends_allocator, hrest.events_prefix⟩, .refl _ _⟩
      · obtain rfl : n = n' := Option.some.inj (Except.ok.inj (hocc.lengthAt.symm.trans hlength))
        have hafter : Set.EqOn m.code.byteAt s.code.byteAt (Set.Ici (bci + n)) :=
          Code.eqOn_after (hsite.eqOn_outside hocc) (Nat.le_refl _)
        obtain ⟨n', op', e', l, l', hvisit, hallots⟩ := ih (hb.congr hsite.size_eq hafter)
        rw [hsite.allocator_eq hocc.opcode hocc.entry] at hallots
        exact ⟨n', op', e', l, l', hvisit.of_rest hocc hsite hb.le,
          .step hlength (hallots.congr hsite.size_eq.symm hafter.symm)⟩

theorem Pass.visits (h : Pass pool limit bci s t) (hb : s.code.Reaches bci b) (hlt : b < limit) :
    ∃ n op e m m', Visit pool b n op e s t m m' := by
  obtain ⟨n, op, e, m, m', hvisit, -⟩ := h.visits_allots hb hlt
  exact ⟨n, op, e, m, m', hvisit⟩

namespace Visit

variable {m m' : Rewriting}

theorem occupies_before (h : Visit pool b n op e s t m m') : s.code.Occupies b n op e :=
  h.occupies.of_eqOn (fun _ hk => (h.found (Set.mem_Ici.mpr hk.1)).symm) (h.size_found ▸ h.occupies.ends)

theorem opcode_eq {op' : Opcode} (h : Visit pool b n op e s t m m') (hop : s.code.opcodeAt b = .ok op') : op = op' :=
  Except.ok.inj (h.occupies_before.opcode.symm.trans hop)

theorem opcodeAt_left (h : Visit pool b n op e s t m m') : t.code.opcodeAt b = m'.code.opcodeAt b :=
  Code.opcodeAt_congr (h.left (Set.mem_Iio.mpr (Nat.lt_add_of_pos_right h.occupies.pos)))

theorem encodedIndexAt_found (h : Visit pool b n op e s t m m') :
    m.code.encodedIndexAt b = s.code.encodedIndexAt b := by
  refine (Code.encodedIndexAt_congr (n := 3) h.occupies.opcode (by split <;> omega) fun k hk => ?_).symm
  exact (h.found (Set.mem_Ici.mpr hk.1)).symm

theorem slotAt?_found (h : Visit pool b n op e s t m m') : m.code.slotAt? pool b = s.code.slotAt? pool b :=
  Code.slotAt?_congr pool h.found

/-- The site takes the slot that the code before the pass asks for. -/
theorem allocator_eq (h : Visit pool b n op e s t m m') :
    m'.allocator = m.allocator.after (s.code.slotAt? pool b) := by
  rw [h.site.allocator_eq h.occupies.opcode h.occupies.entry, h.slotAt?_found]

theorem extends_take {slot : AllocatedSlot} (h : Visit pool b n op e s t m m')
    (hslot : s.code.slotAt? pool b = some slot) : t.allocator.Extends (m.allocator.take slot).2 := by
  have hleft := h.extends_left
  rwa [h.allocator_eq, hslot] at hleft

theorem u16At_left {order : ByteOrder} (h : Visit pool b n op e s t m m') (hroom : 3 ≤ n) :
    t.code.u16At order (b + 1) = m'.code.u16At order (b + 1) :=
  Code.u16At_congr (h.left.mono fun k hk => Set.mem_Iio.mpr (by have := hk.2; omega))

theorem u32At_left {order : ByteOrder} (h : Visit pool b n op e s t m m') (hroom : 5 ≤ n) :
    t.code.u32At order (b + 1) = m'.code.u32At order (b + 1) :=
  Code.u32At_congr (h.left.mono fun k hk => Set.mem_Iio.mpr (by have := hk.2; omega))

/-- The instruction that a pass has rewritten has kept its room and the code that it stands for. -/
theorem occupies_after (h : Visit pool b n op e s t m m') :
    ∃ op' e', t.code.Occupies b n op' e' ∧ e'.canonical = e.canonical := by
  obtain ⟨op', e', hocc, hcanonical⟩ := h.site.occupies h.occupies
  exact ⟨op', e', hocc.of_eqOn (fun _ hk => h.left (Set.mem_Iio.mpr hk.2)) (h.size_left ▸ hocc.ends),
    hcanonical⟩

/-- Where a pass may write is known before it starts. -/
theorem byteAt_eq (h : Visit pool b n op e s t m m') {k : Nat} (hk : b ≤ k ∧ k < b + n)
    (hout : ¬Touches pool s.code b op e.family k) : t.code.byteAt k = s.code.byteAt k := by
  have hsite : m'.code.byteAt k = m.code.byteAt k :=
    h.site.byteAt_eq h.occupies.entry fun htouch => hout (htouch.congr h.encodedIndexAt_found.symm)
  rw [h.left (Set.mem_Iio.mpr hk.2), hsite, h.found (Set.mem_Ici.mpr hk.1)]

end Visit

/-- A pass to the end of the code visits every instruction of a walk over it. -/
theorem Pass.visits_opcode (h : Pass pool limit bci s t) (hlimit : s.code.size ≤ limit)
    (hb : s.code.Reaches bci b) (hop : s.code.opcodeAt b = .ok op) : ∃ n e m m', Visit pool b n op e s t m m' := by
  have hlt : b < limit := Nat.lt_of_lt_of_le (Code.lt_size_of_byteAt (Code.opcodeAt_eq_ok.mp hop)) hlimit
  obtain ⟨n, found, e, m, m', hvisit⟩ := h.visits hb hlt
  obtain rfl := hvisit.opcode_eq hop
  exact ⟨n, e, m, m', hvisit⟩

end Rewriting

/-! ### Successful rewriting -/

open Rewriting (Pass Visit)

variable {code : Code} {pool : Pool} {a : Allocator}

/-- Successful rewriting is a pass over all of the code, and it reports what it has done. -/
theorem exists_pass_of_rewrite {summary : RewriteSummary} (h : (rewrite code pool a).outcome = .ok summary) :
    ∃ t, Pass pool code.size 0 ⟨code, a, ⟨0, 0, 0, 0⟩, []⟩ t ∧ rewrite code pool a =
      ⟨.ok t.summary, t.code, t.allocator, t.events ++ [.rewrote t.summary t.allocator.size]⟩ := by
  cases hrun : exec (Rewriting.rewriteFrom pool code.size 0) ⟨code, a, ⟨0, 0, 0, 0⟩, []⟩ with
  | mk outcome t =>
      unfold exec at hrun
      rw [rewrite, hrun] at h ⊢
      cases outcome with
      | error => cases h
      | ok => exact ⟨t, Rewriting.pass_of_exec hrun, rfl⟩

/-- The pass that successful rewriting has gone through. -/
theorem pass_of_rewrite {summary : RewriteSummary} (h : (rewrite code pool a).outcome = .ok summary) :
    ∃ t, Pass pool code.size 0 ⟨code, a, ⟨0, 0, 0, 0⟩, []⟩ t ∧
      (rewrite code pool a).code = t.code ∧ (rewrite code pool a).allocator = t.allocator ∧
      t.events <+: (rewrite code pool a).events := by
  obtain ⟨t, hpass, hrewrite⟩ := exists_pass_of_rewrite h
  rw [hrewrite]
  exact ⟨t, hpass, rfl, rfl, List.prefix_append _ _⟩

/-- What is not accepted leaves code and slots as they were. -/
theorem rewrite_of_error {code : Code} {pool : Pool} {a : Allocator} {f : Fault}
    (h : (rewrite code pool a).outcome = .error f) :
    (rewrite code pool a).code = code ∧ (rewrite code pool a).allocator = a := by
  cases hrun : exec (Rewriting.rewriteFrom pool code.size 0) ⟨code, a, ⟨0, 0, 0, 0⟩, []⟩ with
  | mk outcome t =>
      unfold exec at hrun
      rw [rewrite, hrun] at h ⊢
      cases outcome with
      | error f => exact ⟨rfl, rfl⟩
      | ok u => cases h

/-- A pool with one field and one method type. -/
def samplePool : Pool :=
  ⟨#[.invalid, .utf8 (.ofString "f"), .utf8 (.ofString "I"), .nameAndType 1 2, .fieldRef 0 3, .methodType 2]⟩

/-- `aload_0`, an access to the field, a load of the method type, and `return`. -/
def sampleCode : Code := ⟨#[0x2a, 0xb4, 0x00, 0x04, 0x12, 0x05, 0xb1]⟩

end MethodCode
