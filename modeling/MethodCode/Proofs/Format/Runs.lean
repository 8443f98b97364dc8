import MethodCode.Format.Scan
import MethodCode.Proofs.Execution
import Mathlib.Data.List.SplitBy
import Mathlib.Data.List.TakeWhile

/-! The runs of a format. Equal bytes that stand side by side form a block; the blocks of letters are the runs, and
the unused bytes between them only keep runs of one letter apart. Main statements: the scan of a body is a pass over
its runs, and it comes to an end after at most one round for every byte. -/

namespace MethodCode.Format

/-- The byte of no use. -/
def unused : UInt8 := '_'.toUInt8

/-- A run of one letter: how many bytes it has, and whether it is the last thing in its format. -/
structure Run where
  letter : UInt8
  size : Nat
  last : Bool
  deriving DecidableEq

/-- The runs among the blocks of equal bytes. -/
def runsOf : List (List UInt8) → List Run
  | [] => []
  | [] :: blocks => runsOf blocks
  | (b :: bs) :: blocks =>
    if b = unused then runsOf blocks else ⟨b, (b :: bs).length, blocks.isEmpty⟩ :: runsOf blocks

/-- The runs of a body: its maximal blocks of one letter. -/
def runs (body : List UInt8) : List Run := runsOf (body.splitBy (· == ·))

/-! ### Runs from the first byte on -/

/-- The first block takes in every equal byte that follows. -/
theorem splitBy_cons (b : UInt8) (rest : List UInt8) :
    (b :: rest).splitBy (· == ·) =
      (b :: rest.takeWhile (· = b)) :: (rest.dropWhile (· = b)).splitBy (· == ·) := by
  have hsame : ∀ x ∈ b :: rest.takeWhile (· = b), x = b := by
    intro x hx
    rcases List.mem_cons.mp hx with rfl | hx
    · rfl
    · simpa using List.mem_takeWhile_imp hx
  have hblock : (b :: rest.takeWhile (· = b)).splitBy (· == ·) = [b :: rest.takeWhile (· = b)] := by
    apply List.splitBy_of_isChain (List.cons_ne_nil _ _)
    simp only [beq_iff_eq]
    rw [List.isChain_eq_iff_eq_replicate]
    intro a ha
    obtain rfl : b = a := by simpa using ha
    exact List.eq_replicate_iff.mpr ⟨rfl, hsame⟩
  have happart : ∀ x ∈ (b :: rest.takeWhile (· = b)).getLast?, ∀ y ∈ (rest.dropWhile (· = b)).head?,
      (x == y) = false := by
    intro x hx y hy
    have hother := List.head?_dropWhile_not (· = b) rest
    rw [Option.mem_def.mp hy] at hother
    rw [hsame x (List.mem_of_mem_getLast? hx), beq_eq_false_iff_ne, ne_comm]
    exact of_decide_eq_false hother
  calc (b :: rest).splitBy (· == ·)
      = ((b :: rest.takeWhile (· = b)) ++ rest.dropWhile (· = b)).splitBy (· == ·) := by
        rw [List.cons_append, List.takeWhile_append_dropWhile]
    _ = _ := by rw [List.splitBy_append happart, hblock, List.singleton_append]

@[simp] theorem runs_nil : runs [] = [] := rfl

theorem runs_letter {b : UInt8} (hb : b ≠ unused) (rest : List UInt8) :
    runs (b :: rest) =
      ⟨b, 1 + (rest.takeWhile (· = b)).length, (rest.dropWhile (· = b)).isEmpty⟩ :: runs (rest.dropWhile (· = b)) := by
  have hlast (l : List UInt8) : (l.splitBy (· == ·)).isEmpty = l.isEmpty := by
    rw [Bool.eq_iff_iff, List.isEmpty_iff, List.isEmpty_iff, List.splitBy_eq_nil]
  rw [runs, splitBy_cons, runsOf, if_neg hb, hlast, List.length_cons, Nat.add_comm, runs]

private theorem runs_dropWhile_unused (rest : List UInt8) : runs (rest.dropWhile (· = unused)) = runs rest := by
  cases rest with
  | nil => rfl
  | cons c rest =>
      by_cases hc : c = unused
      · subst hc
        rw [List.dropWhile_cons_of_pos (by simp), runs, runs, splitBy_cons, runsOf, if_pos rfl]
      · rw [List.dropWhile_cons_of_neg (by simpa using hc)]

@[simp] theorem runs_unused (rest : List UInt8) : runs (unused :: rest) = runs rest := by
  rw [← runs_dropWhile_unused rest, runs, splitBy_cons, runsOf, if_pos rfl, runs]

/-- An unused byte keeps two runs of one letter apart. -/
example : runs (['c', 'c', '_', 'c'].map Char.toUInt8) = [⟨'c'.toUInt8, 2, false⟩, ⟨'c'.toUInt8, 1, true⟩] := by
  decide +kernel

/-- What holds of no bytes, and is kept by an unused byte and by a whole run in front, holds of every body. -/
theorem run_induction {motive : List UInt8 → Prop} (nil : motive [])
    (unused : ∀ rest, motive rest → motive (Format.unused :: rest))
    (letter : ∀ b rest, b ≠ Format.unused → motive (rest.dropWhile (· = b)) → motive (b :: rest))
    (body : List UInt8) : motive body := by
  induction hn : body.length using Nat.strong_induction_on generalizing body with
  | _ n ih =>
      cases body with
      | nil => exact nil
      | cons b rest =>
          have hshorter : (rest.dropWhile (· = b)).length ≤ rest.length := (List.dropWhile_suffix _).length_le
          by_cases hb : b = Format.unused
          · subst hb
            exact unused rest (ih rest.length (by simp [← hn]) rest rfl)
          · exact letter b rest hb (ih _ (by rw [← hn, List.length_cons]; omega) _ rfl)

/-- The letters of the runs are the letters of the body. -/
theorem exists_run_iff {body : List UInt8} {b : UInt8} :
    (∃ r ∈ runs body, r.letter = b) ↔ b ∈ body ∧ b ≠ unused := by
  induction body using run_induction with
  | nil => simp
  | unused rest ih =>
      rw [runs_unused, ih, List.mem_cons]
      constructor
      · exact fun h => ⟨.inr h.1, h.2⟩
      · rintro ⟨rfl | hmem, hb⟩
        · exact absurd rfl hb
        · exact ⟨hmem, hb⟩
  | letter a rest ha ih =>
      have hsplit : b ∈ rest ↔ b ∈ rest.takeWhile (· = a) ∨ b ∈ rest.dropWhile (· = a) := by
        rw [← List.mem_append, List.takeWhile_append_dropWhile]
      have hsame (h : b ∈ rest.takeWhile (· = a)) : b = a := by simpa using List.mem_takeWhile_imp h
      rw [runs_letter ha, List.exists_mem_cons_iff, ih, List.mem_cons, hsplit]
      constructor
      · rintro (rfl | ⟨hmem, hb⟩)
        · exact ⟨.inl rfl, ha⟩
        · exact ⟨.inr (.inr hmem), hb⟩
      · rintro ⟨rfl | hmem | hmem, hb⟩
        · exact .inl rfl
        · exact .inl (hsame hmem).symm
        · exact .inr ⟨hmem, hb⟩

/-! ### The scan, run by run -/

/-- The scan after more runs. -/
def Scan.readAll (scan : Scan) (format : String) : List Run → Except Error Scan
  | [] => .ok scan
  | r :: rs => do (← scan.field format r.letter r.size r.last).readAll format rs

theorem Scan.run_unused (scan : Scan) (format : String) (rest : List UInt8) :
    scan.run format (unused :: rest) = scan.run format rest := by
  rw [run]
  exact if_pos rfl

theorem Scan.run_letter (scan : Scan) (format : String) {b : UInt8} (hb : b ≠ unused) (rest : List UInt8) :
    scan.run format (b :: rest) =
      scan.field format b (1 + (rest.takeWhile (· = b)).length) (rest.dropWhile (· = b)).isEmpty >>=
        fun next => next.run format (rest.dropWhile (· = b)) := by
  rw [run]
  refine (if_neg hb).trans ?_
  dsimp only
  split <;> rename_i hfield <;> rw [hfield] <;> rfl

/-- The scan of a body reads one run after the other. -/
theorem Scan.run_eq (scan : Scan) (format : String) (body : List UInt8) :
    scan.run format body = Scan.flags <$> scan.readAll format (runs body) := by
  induction body using run_induction generalizing scan with
  | nil => rw [run]; rfl
  | unused rest ih => rw [run_unused, runs_unused, ih]
  | letter b rest hb ih =>
      rw [run_letter scan format hb, runs_letter hb, readAll]
      cases scan.field format b (1 + (rest.takeWhile (· = b)).length) (rest.dropWhile (· = b)).isEmpty with
      | error e => rfl
      | ok next => exact ih next

/-- What the scan of a body goes through: in each round it passes over an unused byte or takes a whole run, and it
ends with the body or with a run that it refuses. -/
inductive Scan.Rounds (format : String) : Scan → List UInt8 → Nat → Except Error FormatFlags → Prop where
  | done {scan : Scan} : Rounds format scan [] 0 (.ok scan.flags)
  | unused {scan : Scan} {rest : List UInt8} {n : Nat} {answer : Except Error FormatFlags}
      (h : Rounds format scan rest n answer) : Rounds format scan (unused :: rest) (n + 1) answer
  | refused {scan : Scan} {b : UInt8} {rest : List UInt8} {e : Error} (hb : b ≠ Format.unused)
      (h : scan.field format b (1 + (rest.takeWhile (· = b)).length) (rest.dropWhile (· = b)).isEmpty = .error e) :
      Rounds format scan (b :: rest) 1 (.error e)
  | taken {scan next : Scan} {b : UInt8} {rest : List UInt8} {n : Nat} {answer : Except Error FormatFlags}
      (hb : b ≠ Format.unused)
      (hfield : scan.field format b (1 + (rest.takeWhile (· = b)).length) (rest.dropWhile (· = b)).isEmpty = .ok next)
      (h : Rounds format next (rest.dropWhile (· = b)) n answer) : Rounds format scan (b :: rest) (n + 1) answer

/-- The scan of a body ends, after at most as many rounds as the body has bytes. -/
theorem Scan.exists_rounds (scan : Scan) (format : String) (body : List UInt8) :
    ∃ n ≤ body.length, Rounds format scan body n (scan.run format body) := by
  induction body using run_induction generalizing scan with
  | nil =>
      refine ⟨0, le_rfl, ?_⟩
      rw [run]
      exact .done
  | unused rest ih =>
      obtain ⟨n, hn, hrounds⟩ := ih scan
      refine ⟨n + 1, Nat.succ_le_succ hn, ?_⟩
      rw [run_unused]
      exact .unused hrounds
  | letter b rest hb ih =>
      have hshorter : (rest.dropWhile (· = b)).length ≤ rest.length := (List.dropWhile_suffix _).length_le
      rw [run_letter scan format hb]
      cases hfield : scan.field format b (1 + (rest.takeWhile (· = b)).length) (rest.dropWhile (· = b)).isEmpty with
      | error e => exact ⟨1, by simp, .refused hb hfield⟩
      | ok next =>
          obtain ⟨n, hn, hrounds⟩ := ih next
          exact ⟨n + 1, by rw [List.length_cons]; omega, .taken hb hfield hrounds⟩

end MethodCode.Format
