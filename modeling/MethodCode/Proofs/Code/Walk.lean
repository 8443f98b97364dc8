import MethodCode.Proofs.Code.Starts
import MethodCode.Walk

/-! The instructions that a walk meets. A walk from an instruction start goes from one complete instruction
to the next, which is what `Code.Reaches` says of it. Main statements: the walk over all of the code meets
exactly the complete instructions at instruction starts, in ascending order, and codes in which it finds the
same lengths take it the same way. -/

namespace MethodCode.Walk

/-- Where the instructions of a trail start. -/
def Trail.starts (t : Trail) : List Nat := t.cursors.map Cursor.bci

variable {w : Walk} {c d : Code} {n : Nat}

theorem checkedLength_cursor (w : Walk) : w.cursor.checkedLength = w.code.lengthAt w.next :=
  Cursor.checkedLength_eq_lengthAt rfl

/-! ### One step -/

theorem step_of_end (h : w.stop ≤ w.next) : w.step = (.ok none, w) := if_pos h

theorem trail_of_end (h : w.stop ≤ w.next) : w.trail = ⟨[], none, w⟩ := by
  rw [trail, step_of_end h]

section Step

variable (hlt : w.next < w.stop)

include hlt

theorem step_of_error {f : Fault} (hlength : w.code.lengthAt w.next = .error f) : w.step = (.error f, w) := by
  rw [step, if_neg (Nat.not_le.mpr hlt), checkedLength_cursor, hlength]

theorem step_of_none (hlength : w.code.lengthAt w.next = .ok none) :
    w.step = (.ok none, { w with next := w.stop, events := w.events ++ [.truncated w.method w.next] }) := by
  rw [step, if_neg (Nat.not_le.mpr hlt), checkedLength_cursor, hlength]

theorem step_of_some (hlength : w.code.lengthAt w.next = .ok (some n)) :
    w.step = (.ok (some w.cursor), { w with next := w.next + n }) := by
  rw [step, if_neg (Nat.not_le.mpr hlt), checkedLength_cursor, hlength]

theorem trail_of_error {f : Fault} (hlength : w.code.lengthAt w.next = .error f) :
    w.trail = ⟨[], some f, w⟩ := by
  rw [trail, step_of_error hlt hlength]

theorem trail_of_none (hlength : w.code.lengthAt w.next = .ok none) :
    w.trail =
      ⟨[], none, { w with next := w.stop, events := w.events ++ [.truncated w.method w.next] }⟩ := by
  rw [trail, step_of_none hlt hlength]

/-- An instruction takes up room, so the walk goes on behind it. -/
theorem trail_of_some (hlength : w.code.lengthAt w.next = .ok (some n)) :
    w.trail =
      ⟨w.cursor :: { w with next := w.next + n }.trail.cursors, { w with next := w.next + n }.trail.fault,
        { w with next := w.next + n }.trail.rest⟩ := by
  obtain ⟨op, e, hocc⟩ := Code.lengthAt_eq_some_iff.mp hlength
  have hpos := hocc.pos
  rw [trail, step_of_some hlt hlength]
  exact if_pos (show w.stop - (w.next + n) < w.stop - w.next by omega)

end Step

/-! ### The whole walk -/

/-- A walk is at its end, or stuck, or at a complete instruction behind which it goes on. -/
theorem induction {motive : Walk → Prop} (ended : ∀ w : Walk, w.stop ≤ w.next → motive w)
    (failed : ∀ (w : Walk) f, w.next < w.stop → w.code.lengthAt w.next = .error f → motive w)
    (cut : ∀ w : Walk, w.next < w.stop → w.code.lengthAt w.next = .ok none → motive w)
    (goes : ∀ (w : Walk) n, w.next < w.stop → w.code.lengthAt w.next = .ok (some n) → 0 < n →
      motive { w with next := w.next + n } → motive w) (w : Walk) : motive w := by
  induction hm : w.stop - w.next using Nat.strong_induction_on generalizing w with
  | _ m ih =>
      by_cases hend : w.stop ≤ w.next
      · exact ended w hend
      have hlt := Nat.not_le.mp hend
      rcases hlength : w.code.lengthAt w.next with f | _ | n
      · exact failed w f hlt hlength
      · exact cut w hlt hlength
      · obtain ⟨op, e, hocc⟩ := Code.lengthAt_eq_some_iff.mp hlength
        have hpos := hocc.pos
        exact goes w n hlt hlength hpos (ih (w.stop - (w.next + n)) (by omega) _ rfl)

/-- A walk that is stuck reaches no complete instruction. -/
theorem not_complete_of_stuck {bci : Nat} (hstuck : ∀ n, w.code.lengthAt w.next ≠ .ok (some n))
    (hreach : w.code.Reaches w.next bci) : w.code.lengthAt bci ≠ .ok (some n) := by
  rcases hreach.cases_head with rfl | ⟨m, hm, -⟩
  · exact hstuck n
  · exact absurd hm (hstuck m)

/-- A position is met when the walk reaches it and finds a complete instruction there before its end. -/
theorem mem_starts {bci : Nat} :
    bci ∈ w.trail.starts ↔
      w.code.Reaches w.next bci ∧ bci < w.stop ∧ ∃ n, w.code.lengthAt bci = .ok (some n) := by
  induction w using Walk.induction with
  | ended w hend =>
      rw [trail_of_end hend]
      refine ⟨nofun, fun ⟨hreach, hlt, _⟩ => ?_⟩
      have := hreach.le
      omega
  | failed w f hlt hlength =>
      rw [trail_of_error hlt hlength]
      exact ⟨nofun, fun ⟨hreach, _, _, hn⟩ =>
        (not_complete_of_stuck (by rw [hlength]; exact nofun) hreach hn).elim⟩
  | cut w hlt hlength =>
      rw [trail_of_none hlt hlength]
      exact ⟨nofun, fun ⟨hreach, _, _, hn⟩ =>
        (not_complete_of_stuck (by rw [hlength]; exact nofun) hreach hn).elim⟩
  | goes w n hlt hlength _ ih =>
      rw [trail_of_some hlt hlength]
      change bci ∈ w.next :: { w with next := w.next + n }.trail.starts ↔ _
      rw [List.mem_cons, ih]
      constructor
      · rintro (rfl | ⟨hreach, hrest⟩)
        · exact ⟨.refl _, hlt, n, hlength⟩
        · exact ⟨.step hlength hreach, hrest⟩
      · rintro ⟨hreach, hrest⟩
        rcases hreach.cases_head with heq | ⟨k, hk, hreach⟩
        · exact .inl heq.symm
        · obtain rfl : n = k := Option.some.inj (Except.ok.inj (hlength.symm.trans hk))
          exact .inr ⟨hreach, hrest⟩

/-- A walk goes forward. -/
theorem pairwise_starts (w : Walk) : w.trail.starts.Pairwise (· < ·) := by
  induction w using Walk.induction with
  | ended w hend =>
      rw [trail_of_end hend]
      exact .nil
  | failed w f hlt hlength =>
      rw [trail_of_error hlt hlength]
      exact .nil
  | cut w hlt hlength =>
      rw [trail_of_none hlt hlength]
      exact .nil
  | goes w n hlt hlength hpos ih =>
      rw [trail_of_some hlt hlength]
      refine .cons (fun bci hbci => ?_) ih
      have hreach : w.code.Reaches (w.next + n) bci := (mem_starts.mp hbci).1
      exact Nat.lt_of_lt_of_le (Nat.lt_add_of_pos_right hpos) hreach.le

/-- The walk takes the same way over codes in which it finds the same lengths. -/
theorem trail_congr (h : ∀ bci, w.code.Reaches w.next bci → d.lengthAt bci = w.code.lengthAt bci) :
    { w with code := d }.trail.starts = w.trail.starts ∧ { w with code := d }.trail.fault = w.trail.fault ∧
      { w with code := d }.trail.rest.events = w.trail.rest.events := by
  induction w using Walk.induction with
  | ended w hend =>
      rw [trail_of_end hend, trail_of_end (w := { w with code := d }) hend]
      exact ⟨rfl, rfl, rfl⟩
  | failed w f hlt hlength =>
      have hlength' := (h w.next (.refl _)).trans hlength
      rw [trail_of_error hlt hlength, trail_of_error (w := { w with code := d }) hlt hlength']
      exact ⟨rfl, rfl, rfl⟩
  | cut w hlt hlength =>
      have hlength' := (h w.next (.refl _)).trans hlength
      rw [trail_of_none hlt hlength, trail_of_none (w := { w with code := d }) hlt hlength']
      exact ⟨rfl, rfl, rfl⟩
  | goes w n hlt hlength _ ih =>
      have hlength' := (h w.next (.refl _)).trans hlength
      obtain ⟨hstarts, hfault, hevents⟩ := ih fun bci hbci => h bci (.step hlength hbci)
      rw [trail_of_some hlt hlength, trail_of_some (w := { w with code := d }) hlt hlength']
      exact ⟨congrArg (w.next :: ·) hstarts, hfault, hevents⟩

/-- The walk over all of the code meets the complete instructions at instruction starts. -/
theorem mem_starts_startingAt {mode : Mode} {method : Method} {bci : Nat} :
    bci ∈ (startingAt mode method c 0).trail.starts ↔
      c.IsStart bci ∧ ∃ n, c.lengthAt bci = .ok (some n) := by
  rw [mem_starts]
  refine ⟨fun ⟨hreach, _, hn⟩ => ⟨hreach, hn⟩, fun ⟨hreach, n, hn⟩ => ⟨hreach, ?_, n, hn⟩⟩
  obtain ⟨op, e, hocc⟩ := Code.lengthAt_eq_some_iff.mp hn
  exact Nat.lt_of_lt_of_le (Nat.lt_add_of_pos_right hocc.pos) hocc.ends

end MethodCode.Walk
