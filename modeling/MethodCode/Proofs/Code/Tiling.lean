import Mathlib.Data.List.Sort
import MethodCode.Proofs.Code.Walk
import MethodCode.Proofs.Instruction.SameStructure

/-! The way of a walk over the code, step by step. What a walk hands out is given by its steps (`Yields`), where it
lies by the lengths of the instructions (`Tiles`), and why it stops by what is at the place where it stops (`Ends`).
Main statement: from any position and to any limit a walk hands out instructions that lie one behind the other, all
complete and below the limit; it ends at the limit, or at the first instruction that is not there in full with one
warning, or at a byte that is no opcode; and a walk from a place where the walk over all of the code has been hands
out the part of that walk from there to its limit. -/

namespace MethodCode

/-- Instructions that lie one behind the other from a position to another one, each complete and starting before
`stop`. -/
inductive Code.Tiles (c : Code) (mode : Mode) (method : Method) (stop : Nat) : Nat → List Cursor → Nat → Prop where
  | nil (a : Nat) : Tiles c mode method stop a [] a
  | cons {a n b : Nat} {cs : List Cursor} (hinside : a < stop) (hpos : 0 < n)
      (hlength : (c.viewAt mode method a).length = .ok n) (hcomplete : a + n ≤ c.size)
      (hrest : Tiles c mode method stop (a + n) cs b) :
      Tiles c mode method stop a (c.viewAt mode method a :: cs) b

namespace Walk

/-- Steps that hand out instructions, and the walk after them. -/
inductive Yields : Walk → List Cursor → Walk → Prop where
  | done (w : Walk) : Yields w [] w
  | step {w v u : Walk} {c : Cursor} {cs : List Cursor} (hstep : w.step = (.ok (some c), v))
      (hrest : Yields v cs u) : Yields w (c :: cs) u

/-- Why a walk hands out nothing more: the fault that it ends with, and the walk after its end. -/
inductive Ends (w : Walk) : Option Fault → Walk → Prop where
  | reached (hend : w.stop ≤ w.next) : Ends w none w
  | cut {op : Opcode} (hlt : w.next < w.stop) (hop : w.cursor.rawOpcode = .ok op)
      (hdefined : w.cursor.formats.isDefined op = true)
      (hcut : ∀ n, w.cursor.length = .ok n → w.code.size < w.next + n) :
      Ends w none { w with next := w.stop, events := w.events ++ [.truncated w.method w.next] }
  | undefined {op : Opcode} (hlt : w.next < w.stop) (hop : w.cursor.rawOpcode = .ok op)
      (hundefined : w.cursor.formats.isDefined op = false) : Ends w (some (.violation (.invalidOpcode op))) w

variable {w : Walk} {c : Code} {n : Nat}

/-- A walk that comes to `b` and ends there: what it hands out, where that lies, and why nothing more comes. -/
structure Course (w : Walk) (b : Nat) : Prop where
  yields : w.Yields w.trail.cursors { w with next := b }
  tiles : w.code.Tiles w.mode w.method w.stop w.next w.trail.cursors b
  last : { w with next := b }.step = (w.trail.fault.elim (.ok none) .error, w.trail.rest)
  ends : { w with next := b }.Ends w.trail.fault w.trail.rest

/-! ### The end -/

section End

variable (hlt : w.next < w.stop)

include hlt

theorem ends_of_error {f : Fault} (hlength : w.code.lengthAt w.next = .error f) : w.Ends (some f) w := by
  obtain ⟨op, hop, hundefined, rfl⟩ := Code.lengthAt_eq_error_iff.mp hlength
  exact .undefined hlt hop (congrArg Option.isSome hundefined)

theorem ends_of_none (hsize : w.stop ≤ w.code.size) (hlength : w.code.lengthAt w.next = .ok none) :
    w.Ends none { w with next := w.stop, events := w.events ++ [.truncated w.method w.next] } := by
  have hchecked := w.checkedLength_cursor.trans hlength
  obtain ⟨b, hb⟩ := Code.exists_byteAt (Nat.lt_of_lt_of_le hlt hsize)
  have hop : w.cursor.rawOpcode = .ok ⟨b⟩ := Code.opcodeAt_eq_ok.mpr hb
  refine .cut hlt hop ?_ fun n hn => ?_
  · by_contra hundefined
    have hnone : w.cursor.formats.entry? ⟨b⟩ = none := by simpa [FormatTable.isDefined] using hundefined
    rw [Cursor.checkedLength_of_undefined hop hnone] at hchecked
    cases hchecked
  · by_contra hroom
    have hfits := Cursor.checkedLength_eq_some_iff.mpr ⟨hn, Nat.not_lt.mp hroom⟩
    rw [hchecked] at hfits
    cases hfits

end End

/-- Behind its end a walk stays where it is. -/
theorem Ends.step_eq {v : Walk} (h : w.Ends none v) : v.step = (.ok none, v) := by
  cases h with
  | reached hend => exact step_of_end hend
  | cut => exact step_of_end (Nat.le_refl _)

/-! ### The whole walk -/

theorem Course.of_stop {fault : Option Fault} {v : Walk} (htrail : w.trail = ⟨[], fault, v⟩)
    (hlast : w.step = (fault.elim (.ok none) .error, v)) (hends : w.Ends fault v) : w.Course w.next := by
  refine ⟨?_, ?_, ?_, ?_⟩ <;> rw [htrail]
  · exact .done w
  · exact .nil w.next
  · exact hlast
  · exact hends

/-- A walk that ends inside the code goes from one instruction to the next, and then it ends. -/
theorem exists_course (w : Walk) (hsize : w.stop ≤ w.code.size) : ∃ b, w.Course b := by
  induction w using Walk.induction with
  | ended w hend => exact ⟨w.next, .of_stop (trail_of_end hend) (step_of_end hend) (.reached hend)⟩
  | failed w f hlt hlength =>
      exact ⟨w.next, .of_stop (trail_of_error hlt hlength) (step_of_error hlt hlength) (ends_of_error hlt hlength)⟩
  | cut w hlt hlength =>
      have hends := ends_of_none hlt hsize hlength
      exact ⟨w.next, .of_stop (trail_of_none hlt hlength) (step_of_none hlt hlength) hends⟩
  | goes w n hlt hlength hpos ih =>
      obtain ⟨b, hcourse⟩ := ih hsize
      obtain ⟨hn, hcomplete⟩ := Cursor.checkedLength_eq_some_iff.mp (w.checkedLength_cursor.trans hlength)
      refine ⟨b, ?_, ?_, ?_, ?_⟩ <;> rw [trail_of_some hlt hlength]
      · exact .step (step_of_some hlt hlength) hcourse.yields
      · exact .cons hlt hpos hn hcomplete hcourse.tiles
      · exact hcourse.last
      · exact hcourse.ends

/-- What a walk hands out is told by where the instructions start. -/
theorem cursors_eq_map_starts (w : Walk) :
    w.trail.cursors = w.trail.starts.map (w.code.viewAt w.mode w.method) := by
  induction w using Walk.induction with
  | ended w hend => rw [trail_of_end hend]; rfl
  | failed w f hlt hlength => rw [trail_of_error hlt hlength]; rfl
  | cut w hlt hlength => rw [trail_of_none hlt hlength]; rfl
  | goes w n hlt hlength _ ih =>
      rw [trail_of_some hlt hlength]
      exact congrArg (w.cursor :: ·) ih

variable {mode : Mode} {method : Method}

/-- Both walks go forward, and they meet the same positions between the start of the shorter one and its limit. -/
theorem starts_of_mem {bci e : Nat} (hmem : bci ∈ (startingAt mode method c 0).trail.starts) :
    ((startingAt mode method c bci).withLimit e).trail.starts =
      (startingAt mode method c 0).trail.starts.filter fun a => bci ≤ a ∧ a < e := by
  obtain ⟨hstart, -⟩ := mem_starts.mp hmem
  refine List.Pairwise.eq_of_mem_iff (pairwise_starts _) ((pairwise_starts _).filter _) fun a => ?_
  rw [List.mem_filter, decide_eq_true_iff, mem_starts, mem_starts]
  change c.Reaches bci a ∧ a < min e c.size ∧ _ ↔ (c.Reaches 0 a ∧ a < c.size ∧ _) ∧ bci ≤ a ∧ a < e
  constructor
  · rintro ⟨hreach, hlt, hn⟩
    obtain ⟨hlimit, hinside⟩ := Nat.lt_min.mp hlt
    exact ⟨⟨hstart.trans hreach, hinside, hn⟩, hreach.le, hlimit⟩
  · rintro ⟨⟨hreach, hinside, hn⟩, hle, hlimit⟩
    exact ⟨hstart.of_le hreach hle, Nat.lt_min.mpr ⟨hlimit, hinside⟩, hn⟩

/-- Every walk tiles the code up to its end, reports nothing but the instruction that is cut off, and stays at its
end; walks that come to the same place go on alike. -/
theorem tiles_and_ends (mode : Mode) (method : Method) (c : Code) (s e : Nat) :
    let w := (startingAt mode method c s).withLimit e
    w.events = [] ∧
      (∃ b, w.Yields w.trail.cursors { w with next := b } ∧
        c.Tiles mode method (min e c.size) s w.trail.cursors b ∧
        { w with next := b }.step = (w.trail.fault.elim (.ok none) .error, w.trail.rest) ∧
        { w with next := b }.Ends w.trail.fault w.trail.rest) ∧
      w.trail.starts.Pairwise (· < ·) ∧
      (w.trail.fault = none → w.trail.rest.step = (.ok none, w.trail.rest)) ∧
      ∀ bci ∈ (startingAt mode method c 0).trail.starts,
        ((startingAt mode method c bci).withLimit e).trail.cursors =
          (startingAt mode method c 0).trail.cursors.filter fun i => bci ≤ i.bci ∧ i.bci < e := by
  intro w
  obtain ⟨b, hyields, htiles, hlast, hends⟩ := exists_course w (Nat.min_le_right e c.size)
  refine ⟨rfl, ⟨b, hyields, htiles, hlast, hends⟩, pairwise_starts w, fun hfault => ?_, fun bci hbci => ?_⟩
  · rw [hfault] at hends
    exact hends.step_eq
  · rw [cursors_eq_map_starts, cursors_eq_map_starts, starts_of_mem hbci, List.filter_map]
    rfl

end Walk

end MethodCode
