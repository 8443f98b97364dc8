import MethodCode.Proofs.Format.Runs

/-! The language of formats. A format is empty, or `b` or `wb` before a body of letters in one byte order and unused
bytes, whose runs have one, two or four bytes; a run is as long as the one before it, and only the very last thing in
the format may be shorter. Main statement: exactly these formats are understood, and what each of them adds to the
flags can be told from its lead, its letters and the sizes of its runs. -/

namespace MethodCode

/-! ### Sets of flags -/

namespace FormatFlags

theorem has_insert (set : FormatFlags) (flag other : Flag) :
    (set.insert flag).has other = true ↔ set.has other = true ∨ other = flag := by
  have hposition : flag.position < 12 ∧ (flag.position = other.position ↔ other = flag) := by
    cases flag <;> cases other <;> decide
  rw [has, insert, BitVec.getLsbD_or, BitVec.getLsbD_twoPow, Bool.or_eq_true, Bool.and_eq_true,
    decide_eq_true_iff, decide_eq_true_iff, hposition.2, and_iff_right hposition.1, has]

theorem has_foldl_insert (flags : List Flag) (set : FormatFlags) (flag : Flag) :
    (flags.foldl insert set).has flag = true ↔ set.has flag = true ∨ flag ∈ flags := by
  induction flags generalizing set with
  | nil => simp
  | cons f flags ih => rw [List.foldl_cons, ih, has_insert, List.mem_cons, or_assoc]

theorem foldl_insert_ite (p : Prop) [Decidable p] (flag : Flag) (set : FormatFlags) :
    (if p then [flag] else []).foldl insert set = if p then set.insert flag else set := by
  by_cases hp : p
  · rw [if_pos hp, if_pos hp]
    rfl
  · rw [if_neg hp, if_neg hp]
    rfl

end FormatFlags

namespace Format

/-! ### Letters -/

/-- The letters of fields in java order. -/
def javaLetters : List UInt8 := ['j', 'k', 'i', 'c', 'o'].map Char.toUInt8

/-- The letters of fields in native order. -/
def nativeLetters : List UInt8 := ['J', 'K', 'I', 'C', 'O'].map Char.toUInt8

/-- The letters that spell a kind of field, in either order. -/
def lettersOf : Flag → List UInt8
  | .hasCacheIndex => ['j', 'J'].map Char.toUInt8
  | .hasPoolIndex => ['k', 'K'].map Char.toUInt8
  | .hasLocal => ['i', 'I'].map Char.toUInt8
  | .hasConstant => ['c', 'C'].map Char.toUInt8
  | .hasOffset => ['o', 'O'].map Char.toUInt8
  | _ => []

private theorem letters_of_byte : ∀ n < 256,
    (∀ f ∈ Flag.all, fieldFlag? (.ofNat n) = some f ↔ UInt8.ofNat n ∈ lettersOf f) ∧
      ((fieldFlag? (.ofNat n)).isSome = true ↔ UInt8.ofNat n ∈ javaLetters ∨ UInt8.ofNat n ∈ nativeLetters) := by
  decide +kernel

theorem fieldFlag?_eq_some {b : UInt8} {f : Flag} : fieldFlag? b = some f ↔ b ∈ lettersOf f := by
  have hf : f ∈ Flag.all := by cases f <;> decide
  have h := (letters_of_byte b.toNat b.toNat_lt).1 f hf
  rwa [UInt8.ofNat_toNat] at h

theorem isSome_fieldFlag? {b : UInt8} : (fieldFlag? b).isSome = true ↔ b ∈ javaLetters ∨ b ∈ nativeLetters := by
  have h := (letters_of_byte b.toNat b.toNat_lt).2
  rwa [UInt8.ofNat_toNat] at h

theorem isUpper_of_java : ∀ b ∈ javaLetters, isUpper b = false := by decide +kernel

theorem isUpper_of_native : ∀ b ∈ nativeLetters, isUpper b = true := by decide +kernel

/-! ### Formats that are understood -/

/-- What a format starts with: the opcode, or the opcode after a wide prefix. -/
inductive Lead where
  | plain
  | wide

namespace Lead

/-- The bytes of a lead. -/
def bytes : Lead → List UInt8
  | plain => [('b').toUInt8]
  | wide => [('w').toUInt8, ('b').toUInt8]

/-- The flags that a lead adds. -/
def flags : Lead → List Flag
  | plain => [.notVariable]
  | wide => [.notSimple, .notVariable]

end Lead

/-- A run may follow another one of a given size: it has the same size, or it is shorter and ends the format. -/
def Run.Follows (r : Run) (size : Nat) : Prop := r.size = size ∨ r.size < size ∧ r.last = true

/-- A run has the size of a field. -/
def Run.IsField (r : Run) : Prop := r.size = 1 ∨ r.size = 2 ∨ r.size = 4

instance (r : Run) (size : Nat) : Decidable (r.Follows size) := inferInstanceAs (Decidable (_ ∨ _))

instance (r : Run) : Decidable r.IsField := inferInstanceAs (Decidable (_ ∨ _))

theorem Run.IsField.size_ne_zero {r : Run} (h : r.IsField) : r.size ≠ 0 := by
  unfold IsField at h
  omega

/-- What is asked of the body of a format. -/
structure WellFormed (body : List UInt8) : Prop where
  order : (∀ b ∈ body, b = unused ∨ b ∈ javaLetters) ∨ ∀ b ∈ body, b = unused ∨ b ∈ nativeLetters
  sizes : ∀ r ∈ runs body, r.IsField
  follows : (runs body).IsChain fun r next => next.Follows r.size

/-- The flags that a body adds. -/
inductive Adds (body : List UInt8) : Flag → Prop where
  | field {b : UInt8} {f : Flag} (hmem : b ∈ body) (hb : b ∈ lettersOf f) : Adds body f
  | native {b : UInt8} (hmem : b ∈ body) (hb : b ∈ nativeLetters) : Adds body .hasNative
  | short {r : Run} (hmem : r ∈ runs body) (hsize : r.size = 2) : Adds body .hasU2
  | word {r : Run} (hmem : r ∈ runs body) (hsize : r.size = 4) : Adds body .hasU4

/-! ### One run -/

/-- The flags that a run adds. -/
def Run.adds (r : Run) : List Flag :=
  (fieldFlag? r.letter).toList ++ (if r.letter ∈ nativeLetters then [.hasNative] else []) ++
    (if r.size = 2 then [.hasU2] else []) ++ if r.size = 4 then [.hasU4] else []

/-- A scan accepts one more run. -/
structure Scan.Takes (scan : Scan) (r : Run) : Prop where
  order : scan.native = false ∧ r.letter ∈ javaLetters ∨ scan.java = false ∧ r.letter ∈ nativeLetters
  size : r.IsField
  follows : scan.size = 0 ∨ r.Follows scan.size

/-- The scan after one more run. -/
def Scan.taking (scan : Scan) (r : Run) : Scan :=
  ⟨r.adds.foldl .insert scan.flags, scan.native || isUpper r.letter, scan.java || !isUpper r.letter, r.size⟩

variable {format : String} {scan next : Scan} {r : Run} {rs : List Run}

/-- A letter in java order leaves the scan without native fields, if it was without them. -/
theorem Scan.taking_of_java (h : r.letter ∈ javaLetters) :
    (scan.taking r).native = scan.native ∧ (scan.taking r).java = true := by
  simp [taking, isUpper_of_java _ h]

theorem Scan.taking_of_native (h : r.letter ∈ nativeLetters) :
    (scan.taking r).native = true ∧ (scan.taking r).java = scan.java := by
  simp [taking, isUpper_of_native _ h]

theorem Scan.Takes.one_order (h : scan.Takes r) : (scan.taking r).native = false ∨ (scan.taking r).java = false := by
  rcases h.order with ⟨hscan, hjava⟩ | ⟨hscan, hnative⟩
  · exact .inl ((taking_of_java hjava).1.trans hscan)
  · exact .inr ((taking_of_native hnative).2.trans hscan)

/-- Byte orders clash unless all letters are of one order. -/
theorem Scan.orders_clash_iff (hletter : r.letter ∈ javaLetters ∨ r.letter ∈ nativeLetters) :
    ((scan.native || isUpper r.letter) && (scan.java || !isUpper r.letter)) = true ↔
      ¬(scan.native = false ∧ r.letter ∈ javaLetters ∨ scan.java = false ∧ r.letter ∈ nativeLetters) := by
  rcases hletter with hjava | hnative
  · have hupper := isUpper_of_java _ hjava
    have hother : r.letter ∉ nativeLetters := fun h => by simp [isUpper_of_native _ h] at hupper
    simp [hupper, hjava, hother]
  · have hupper := isUpper_of_native _ hnative
    have hother : r.letter ∉ javaLetters := fun h => by simp [isUpper_of_java _ h] at hupper
    simp [hupper, hnative, hother]

/-- What the scan makes of one more run. Its tests come in this order. -/
theorem Scan.field_eq (scan : Scan) (format : String) (r : Run) :
    scan.field format r.letter r.size r.last =
      if ¬(r.letter ∈ javaLetters ∨ r.letter ∈ nativeLetters) then failWith (.badFormatLetter r.letter format)
      else if ¬(scan.native = false ∧ r.letter ∈ javaLetters ∨ scan.java = false ∧ r.letter ∈ nativeLetters) then
        failWith (.mixedByteOrders format)
      else if ¬r.IsField then failWith (.badFieldSize r.size format)
      else if ¬(scan.size = 0 ∨ r.Follows scan.size) then failWith (.mixedFieldSizes format)
      else .ok (scan.taking r) := by
  have hletter := isSome_fieldFlag? (b := r.letter)
  cases hflag : fieldFlag? r.letter with
  | none =>
      rw [hflag] at hletter
      rw [field, hflag, if_pos (mt hletter.mpr Bool.false_ne_true)]
  | some flag =>
      rw [hflag] at hletter
      have hsize : (r.size ≠ 1 ∧ r.size ≠ 2 ∧ r.size ≠ 4) ↔ ¬r.IsField := by
        unfold Run.IsField
        tauto
      have hfollows : (scan.size ≠ 0 ∧ r.size ≠ scan.size ∧ ¬(r.size < scan.size ∧ r.last = true)) ↔
          ¬(scan.size = 0 ∨ r.Follows scan.size) := by
        unfold Run.Follows
        tauto
      rw [field, hflag, if_neg (not_not.mpr (hletter.mp rfl))]
      simp only [orders_clash_iff (hletter.mp rfl), hsize, hfollows]
      by_cases horder : scan.native = false ∧ r.letter ∈ javaLetters ∨ scan.java = false ∧ r.letter ∈ nativeLetters
      swap
      · rw [if_pos horder, if_pos horder]
      have hnative : (scan.native || isUpper r.letter) = true ↔ r.letter ∈ nativeLetters := by
        rcases horder with ⟨hscan, hjava⟩ | ⟨-, hmem⟩
        · have hupper := isUpper_of_java _ hjava
          refine iff_of_false (by simp [hscan, hupper]) fun h => ?_
          simp [isUpper_of_native _ h] at hupper
        · simp [hmem, isUpper_of_native _ hmem]
      rw [taking, Run.adds, hflag]
      simp only [List.foldl_append, FormatFlags.foldl_insert_ite, hnative]
      rfl

theorem Scan.field_eq_ok :
    scan.field format r.letter r.size r.last = .ok next ↔ scan.Takes r ∧ scan.taking r = next := by
  rw [field_eq]
  by_cases hletter : r.letter ∈ javaLetters ∨ r.letter ∈ nativeLetters
  swap
  · rw [if_pos hletter]
    exact iff_of_false nofun fun h => hletter (h.1.order.imp And.right And.right)
  by_cases horder : scan.native = false ∧ r.letter ∈ javaLetters ∨ scan.java = false ∧ r.letter ∈ nativeLetters
  swap
  · rw [if_neg (not_not.mpr hletter), if_pos horder]
    exact iff_of_false nofun fun h => horder h.1.order
  by_cases hsize : r.IsField
  swap
  · rw [if_neg (not_not.mpr hletter), if_neg (not_not.mpr horder), if_pos hsize]
    exact iff_of_false nofun fun h => hsize h.1.size
  rw [if_neg (not_not.mpr hletter), if_neg (not_not.mpr horder), if_neg (not_not.mpr hsize)]
  by_cases hfollows : scan.size = 0 ∨ r.Follows scan.size
  swap
  · rw [if_pos hfollows]
    exact iff_of_false nofun fun h => hfollows h.1.follows
  rw [if_neg (not_not.mpr hfollows), Except.ok.injEq, and_iff_right ⟨horder, hsize, hfollows⟩]

/-! ### All runs -/

/-- A scan accepts more runs, one after the other. -/
structure Scan.Admits (scan : Scan) (rs : List Run) : Prop where
  order : scan.native = false ∧ (∀ r ∈ rs, r.letter ∈ javaLetters) ∨
    scan.java = false ∧ ∀ r ∈ rs, r.letter ∈ nativeLetters
  sizes : ∀ r ∈ rs, r.IsField
  first : ∀ r ∈ rs.head?, scan.size = 0 ∨ r.Follows scan.size
  follows : rs.IsChain fun r next => next.Follows r.size

theorem Scan.admits_cons : scan.Admits (r :: rs) ↔ scan.Takes r ∧ (scan.taking r).Admits rs := by
  constructor
  · rintro ⟨horder, hsizes, hfirst, hfollows⟩
    rw [List.forall_mem_cons, List.forall_mem_cons] at horder
    rw [List.forall_mem_cons] at hsizes
    rw [List.isChain_cons] at hfollows
    refine ⟨⟨?_, hsizes.1, hfirst r rfl⟩, ?_, hsizes.2, fun next hnext => .inr (hfollows.1 next hnext), hfollows.2⟩
    · exact horder.imp (fun h => ⟨h.1, h.2.1⟩) fun h => ⟨h.1, h.2.1⟩
    · rcases horder with ⟨hscan, hjava, hall⟩ | ⟨hscan, hnative, hall⟩
      · exact .inl ⟨(taking_of_java hjava).1.trans hscan, hall⟩
      · exact .inr ⟨(taking_of_native hnative).2.trans hscan, hall⟩
  · rintro ⟨htakes, horder, hsizes, hfirst, hfollows⟩
    have hpos : (scan.taking r).size ≠ 0 := htakes.size.size_ne_zero
    refine ⟨?_, List.forall_mem_cons.mpr ⟨htakes.size, hsizes⟩, ?_, List.isChain_cons.mpr ⟨?_, hfollows⟩⟩
    · rw [List.forall_mem_cons, List.forall_mem_cons]
      rcases htakes.order with ⟨hscan, hjava⟩ | ⟨hscan, hnative⟩
      · rw [(taking_of_java hjava).1, (taking_of_java hjava).2] at horder
        exact .inl ⟨hscan, hjava, (horder.resolve_right nofun).2⟩
      · rw [(taking_of_native hnative).1, (taking_of_native hnative).2] at horder
        exact .inr ⟨hscan, hnative, (horder.resolve_left nofun).2⟩
    · rintro _ ⟨⟩
      exact htakes.follows
    · intro next hnext
      exact (hfirst next hnext).resolve_left hpos

/-- A scan that has met one byte order at most reads exactly the runs that it admits. -/
theorem Scan.readAll_eq_ok (hone : scan.native = false ∨ scan.java = false) :
    scan.readAll format rs = .ok next ↔ scan.Admits rs ∧ rs.foldl taking scan = next := by
  induction rs generalizing scan with
  | nil =>
      have hadmits : scan.Admits [] :=
        ⟨hone.imp (fun h => ⟨h, nofun⟩) fun h => ⟨h, nofun⟩, nofun, nofun, List.isChain_nil⟩
      rw [readAll, and_iff_right hadmits, Except.ok.injEq, List.foldl_nil]
  | cons r rs ih =>
      rw [readAll, bind_eq_ok, admits_cons, List.foldl_cons]
      constructor
      · rintro ⟨after, hfield, hrest⟩
        obtain ⟨htakes, rfl⟩ := field_eq_ok.mp hfield
        obtain ⟨hadmits, hnext⟩ := (ih htakes.one_order).mp hrest
        exact ⟨⟨htakes, hadmits⟩, hnext⟩
      · rintro ⟨⟨htakes, hadmits⟩, hnext⟩
        exact ⟨_, field_eq_ok.mpr ⟨htakes, rfl⟩, (ih htakes.one_order).mpr ⟨hadmits, hnext⟩⟩

/-! ### Bodies and formats -/

theorem Scan.has_foldl_taking {f : Flag} :
    (rs.foldl taking scan).flags.has f = true ↔ scan.flags.has f = true ∨ ∃ r ∈ rs, f ∈ r.adds := by
  induction rs generalizing scan with
  | nil => simp
  | cons r rs ih => rw [List.foldl_cons, ih, taking, FormatFlags.has_foldl_insert, List.exists_mem_cons_iff, or_assoc]

theorem Run.mem_adds {f : Flag} :
    f ∈ r.adds ↔ r.letter ∈ lettersOf f ∨ (r.letter ∈ nativeLetters ∧ f = .hasNative) ∨
      (r.size = 2 ∧ f = .hasU2) ∨ (r.size = 4 ∧ f = .hasU4) := by
  simp only [adds, List.mem_append, Option.mem_toList, fieldFlag?_eq_some, List.mem_ite_nil_right,
    List.mem_singleton, or_assoc]

variable {body : List UInt8}

theorem exists_mem_adds_iff {f : Flag} : (∃ r ∈ runs body, f ∈ r.adds) ↔ Adds body f := by
  have hmem {r : Run} (hr : r ∈ runs body) : r.letter ∈ body := (exists_run_iff.mp ⟨r, hr, rfl⟩).1
  have hrun {b : UInt8} (hb : b ∈ body) (hused : b ≠ unused) : ∃ r ∈ runs body, r.letter = b :=
    exists_run_iff.mpr ⟨hb, hused⟩
  constructor
  · rintro ⟨r, hr, hadds⟩
    rcases Run.mem_adds.mp hadds with hletter | ⟨hnative, rfl⟩ | ⟨hsize, rfl⟩ | ⟨hsize, rfl⟩
    · exact .field (hmem hr) hletter
    · exact .native (hmem hr) hnative
    · exact .short hr hsize
    · exact .word hr hsize
  · intro h
    cases h with
    | @field b f hb hletter =>
        have hused : b ≠ unused := by
          rintro rfl
          revert hletter
          cases f <;> decide
        obtain ⟨r, hr, rfl⟩ := hrun hb hused
        exact ⟨r, hr, Run.mem_adds.mpr (.inl hletter)⟩
    | @native b hb hnative =>
        have hused : b ≠ unused := by
          rintro rfl
          exact absurd hnative (by decide)
        obtain ⟨r, hr, rfl⟩ := hrun hb hused
        exact ⟨r, hr, Run.mem_adds.mpr (.inr (.inl ⟨hnative, rfl⟩))⟩
    | short hr hsize => exact ⟨_, hr, Run.mem_adds.mpr (.inr (.inr (.inl ⟨hsize, rfl⟩)))⟩
    | word hr hsize => exact ⟨_, hr, Run.mem_adds.mpr (.inr (.inr (.inr ⟨hsize, rfl⟩)))⟩

/-- The scan of the body that comes after a lead. -/
def Lead.start (lead : Lead) (more : FormatFlags) : Scan := ⟨lead.flags.foldl .insert more, false, false, 0⟩

theorem Lead.admits_iff (lead : Lead) (more : FormatFlags) :
    (lead.start more).Admits (runs body) ↔ WellFormed body := by
  have hletters {p : UInt8 → Prop} : (∀ r ∈ runs body, p r.letter) ↔ ∀ b ∈ body, b = unused ∨ p b := by
    constructor
    · intro h b hb
      by_cases hused : b = unused
      · exact .inl hused
      · obtain ⟨r, hr, rfl⟩ := exists_run_iff.mpr ⟨hb, hused⟩
        exact .inr (h r hr)
    · intro h r hr
      obtain ⟨hmem, hused⟩ := exists_run_iff.mp ⟨r, hr, rfl⟩
      exact (h _ hmem).resolve_left hused
  constructor
  · rintro ⟨horder, hsizes, -, hfollows⟩
    exact ⟨horder.imp (fun h => hletters.mp h.2) fun h => hletters.mp h.2, hsizes, hfollows⟩
  · rintro ⟨horder, hsizes, hfollows⟩
    exact ⟨horder.imp (fun h => ⟨rfl, hletters.mpr h⟩) fun h => ⟨rfl, hletters.mpr h⟩, hsizes,
      fun _ _ => .inl rfl, hfollows⟩

theorem length_bytes (format : String) : (bytes format).length = format.utf8ByteSize := Array.length_toList

theorem bytes_eq_nil {format : String} : bytes format = [] ↔ format = "" := by
  rw [← List.length_eq_zero_iff, length_bytes, String.utf8ByteSize_eq_zero_iff]

/-- A format is scanned from its lead on. -/
theorem flags_of_lead {lead : Lead} {format : String} (h : bytes format = lead.bytes ++ body) (more : FormatFlags) :
    flags format more = (lead.start more).run format body := by
  rw [flags, h]
  cases lead <;> rfl

/-- A format that is not empty has to start with a lead. -/
theorem exists_lead {format : String} {more set : FormatFlags} (hne : format ≠ "")
    (h : flags format more = .ok set) : ∃ (lead : Lead) (body : List UInt8), bytes format = lead.bytes ++ body := by
  unfold flags at h
  cases hbytes : bytes format with
  | nil => exact absurd (bytes_eq_nil.mp hbytes) hne
  | cons first rest =>
      rw [hbytes] at h
      dsimp only at h
      by_cases hb : first = ('b').toUInt8
      · exact ⟨.plain, rest, by rw [hb]; rfl⟩
      rw [if_neg hb] at h
      by_cases hw : first = ('w').toUInt8
      · rw [if_pos hw] at h
        cases rest with
        | nil => cases h
        | cons second rest =>
            by_cases hsecond : second = ('b').toUInt8
            · exact ⟨.wide, rest, by rw [hw, hsecond]; rfl⟩
            · dsimp only at h
              rw [if_neg hsecond] at h
              cases h
      · rw [if_neg hw] at h
        cases h

/-- The answer to a format with a lead. -/
theorem flags_eq_ok {lead : Lead} {format : String} (h : bytes format = lead.bytes ++ body)
    {more set : FormatFlags} :
    flags format more = .ok set ↔
      WellFormed body ∧ ((runs body).foldl Scan.taking (lead.start more)).flags = set := by
  have hscan {next : Scan} : (lead.start more).readAll format (runs body) = .ok next ↔
      WellFormed body ∧ (runs body).foldl Scan.taking (lead.start more) = next := by
    rw [Scan.readAll_eq_ok (.inl rfl), lead.admits_iff]
  rw [flags_of_lead h, Scan.run_eq]
  cases hread : (lead.start more).readAll format (runs body) with
  | error e =>
      refine iff_of_false nofun fun hwell => ?_
      have hok := hscan.mpr ⟨hwell.1, rfl⟩
      rw [hread] at hok
      cases hok
  | ok next =>
      obtain ⟨hwell, rfl⟩ := hscan.mp hread
      rw [and_iff_right hwell]
      exact Iff.of_eq (Except.ok.injEq _ _)

/-- The flags that a format with a lead adds to others. -/
theorem has_flags {lead : Lead} {format : String} (h : bytes format = lead.bytes ++ body) {more set : FormatFlags}
    (hset : flags format more = .ok set) (f : Flag) :
    set.has f = true ↔ more.has f = true ∨ f ∈ lead.flags ∨ Adds body f := by
  obtain ⟨-, rfl⟩ := (flags_eq_ok h).mp hset
  rw [Scan.has_foldl_taking, exists_mem_adds_iff, Lead.start, FormatFlags.has_foldl_insert, or_assoc]

/-- The formats that are understood, and what they tell: the empty one, which tells that the instruction is not
simple, and those of a lead and a well-formed body. The scan of a body ends, whatever it finds. -/
theorem flags_language (format : String) (more : FormatFlags) :
    ((∃ set, flags format more = .ok set) ↔
        format = "" ∨ ∃ (lead : Lead) (body : List UInt8), bytes format = lead.bytes ++ body ∧ WellFormed body) ∧
      (∀ set, flags format more = .ok set →
        (format = "" → ∀ f, set.has f = true ↔ more.has f = true ∨ f = .notSimple) ∧
        ∀ (lead : Lead) (body : List UInt8), bytes format = lead.bytes ++ body →
          ∀ f, set.has f = true ↔ more.has f = true ∨ f ∈ lead.flags ∨ Adds body f) ∧
      ∀ (lead : Lead) (body : List UInt8), bytes format = lead.bytes ++ body →
        ∃ n ≤ body.length, Scan.Rounds format (lead.start more) body n (flags format more) := by
  have hempty : flags "" more = .ok (more.insert .notSimple) := rfl
  refine ⟨⟨?_, ?_⟩, fun set hset => ⟨?_, fun lead body h => has_flags h hset⟩, fun lead body h => ?_⟩
  · rintro ⟨set, hset⟩
    by_cases hne : format = ""
    · exact .inl hne
    · obtain ⟨lead, body, h⟩ := exists_lead hne hset
      exact .inr ⟨lead, body, h, ((flags_eq_ok h).mp hset).1⟩
  · rintro (rfl | ⟨lead, body, h, hwell⟩)
    · exact ⟨_, hempty⟩
    · exact ⟨_, (flags_eq_ok h).mpr ⟨hwell, rfl⟩⟩
  · rintro rfl f
    obtain rfl := Except.ok.inj (hempty.symm.trans hset)
    exact FormatFlags.has_insert more .notSimple f
  · rw [flags_of_lead h more]
    exact (lead.start more).exists_rounds format body

end Format

end MethodCode
