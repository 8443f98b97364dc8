import MethodCode.Proofs.Format.Layout

/-! Fields, and where they stand in a format. The flags of a format do not say where its fields stand; but no field is
longer than the one before it, so the flags for sizes tell the size of the first one. Main statement: a letter right
after the lead of a format whose flags suit an index of some size, is that of a field of this size. -/

namespace MethodCode.Format

/-- The letters of indices, in either order. -/
def indexLetters : List UInt8 := ['i', 'j', 'k', 'I', 'J', 'K'].map Char.toUInt8

/-- A format spells a field at an offset: bytes of one letter, and none of that letter next to them. -/
inductive FieldAt (format : String) : UInt8 → Nat → Nat → Prop where
  | block {letter : UInt8} {size : Nat} {before after : List UInt8} (hpos : 0 < size)
      (hbytes : bytes format = before ++ (List.replicate size letter ++ after))
      (hbefore : before.getLast? ≠ some letter) (hafter : after.head? ≠ some letter) :
      FieldAt format letter before.length size

variable {format : String} {letter : UInt8} {offset size : Nat} {body : List UInt8} {set : FormatFlags} {lead : Lead}
  {wide : Bool}

/-- A field lies inside its format. -/
theorem FieldAt.end_le (h : FieldAt format letter offset size) : offset + size ≤ format.utf8ByteSize := by
  cases h with
  | block _ hbytes =>
      rw [← length_bytes, hbytes, List.length_append, List.length_append, List.length_replicate]
      omega

theorem FieldAt.byte (h : FieldAt format letter offset size) : (bytes format)[offset]? = some letter := by
  cases h with
  | block hpos hbytes =>
      obtain ⟨n, rfl⟩ := Nat.exists_eq_succ_of_ne_zero hpos.ne'
      rw [hbytes, List.getElem?_append_right le_rfl, Nat.sub_self, List.replicate_succ]
      rfl

/-! ### The first field -/

/-- The first letter after a lead is that of a field as long as the first run. -/
theorem fieldAt_of_lead {b : UInt8} {rest : List UInt8} (hbytes : bytes format = lead.bytes ++ b :: rest)
    (hb : b ≠ ('b').toUInt8) :
    FieldAt format b lead.bytes.length (1 + (rest.takeWhile (· = b)).length) := by
  have hrun : rest.takeWhile (· = b) = List.replicate (rest.takeWhile (· = b)).length b := by
    refine List.eq_replicate_iff.mpr ⟨rfl, fun x hx => ?_⟩
    simpa using List.mem_takeWhile_imp hx
  have hblock : bytes format = lead.bytes ++
      (List.replicate (1 + (rest.takeWhile (· = b)).length) b ++ rest.dropWhile (· = b)) := by
    rw [hbytes, Nat.add_comm, List.replicate_succ, ← hrun, List.cons_append, List.takeWhile_append_dropWhile]
  refine .block (by omega) hblock ?_ ?_
  · cases lead <;> simpa [Lead.bytes] using hb.symm
  · intro hhead
    have hother := List.head?_dropWhile_not (· = b) rest
    rw [hhead] at hother
    simp at hother

/-- No run is longer than the first one. -/
theorem WellFormed.size_le_first (h : WellFormed body) {r : Run} {rs : List Run} (hruns : runs body = r :: rs) :
    ∀ next ∈ runs body, next.size ≤ r.size := by
  have hchain : (runs body).IsChain fun r next => next.size ≤ r.size :=
    h.follows.imp fun _ _ hfollows => hfollows.elim Eq.le fun hshorter => hshorter.1.le
  have htrans : IsTrans Run fun r next => next.size ≤ r.size := ⟨fun _ _ _ hab hbc => hbc.trans hab⟩
  rw [hruns, List.isChain_iff_pairwise, List.pairwise_cons] at hchain
  rw [hruns, List.forall_mem_cons]
  exact ⟨le_rfl, hchain.1⟩

theorem adds_hasU2_iff : Adds body .hasU2 ↔ ∃ r ∈ runs body, r.size = 2 := by
  constructor
  · intro h
    cases h with
    | field _ hletter => cases hletter
    | short hmem hsize => exact ⟨_, hmem, hsize⟩
  · rintro ⟨r, hmem, hsize⟩
    exact .short hmem hsize

theorem adds_hasU4_iff : Adds body .hasU4 ↔ ∃ r ∈ runs body, r.size = 4 := by
  constructor
  · intro h
    cases h with
    | field _ hletter => cases hletter
    | word hmem hsize => exact ⟨_, hmem, hsize⟩
  · rintro ⟨r, hmem, hsize⟩
    exact .word hmem hsize

theorem adds_hasNative_iff : Adds body .hasNative ↔ ∃ b ∈ body, b ∈ nativeLetters := by
  constructor
  · intro h
    cases h with
    | field _ hletter => cases hletter
    | native hmem hb => exact ⟨_, hmem, hb⟩
  · rintro ⟨b, hmem, hb⟩
    exact .native hmem hb

/-! ### Layouts that suit an index -/

/-- Flags that suit an index of so many bytes, after a wide prefix if `wide`. -/
structure SuitsIndex (set : FormatFlags) (size : Nat) (wide : Bool) : Prop where
  field : size = 1 ∨ size = 2 ∨ size = 4
  short : set.has .hasU2 = true ↔ size = 2
  word : set.has .hasU4 = true ↔ size = 4
  wide : set.has .notSimple = true ↔ wide = true
  offset : ¬set.has .hasOffset = true

instance (set : FormatFlags) (size : Nat) (wide : Bool) : Decidable (SuitsIndex set size wide) :=
  decidable_of_iff
    ((size = 1 ∨ size = 2 ∨ size = 4) ∧ (set.has .hasU2 = true ↔ size = 2) ∧ (set.has .hasU4 = true ↔ size = 4) ∧
      (set.has .notSimple = true ↔ wide = true) ∧ ¬set.has .hasOffset = true)
    ⟨fun ⟨hfield, hshort, hword, hwide, hoffset⟩ => ⟨hfield, hshort, hword, hwide, hoffset⟩,
      fun h => ⟨h.field, h.short, h.word, h.wide, h.offset⟩⟩

section Index

variable (hset : flags format 0 = .ok set) (hsuits : SuitsIndex set size wide)
  (hbytes : bytes format = lead.bytes ++ body)

include hset hbytes

theorem has_iff_adds {f : Flag} (hlead : f ∉ lead.flags) : set.has f = true ↔ Adds body f := by
  rw [has_flags hbytes hset, FormatFlags.has_zero, or_iff_right Bool.false_ne_true, or_iff_right hlead]

/-- All fields are of the byte order of the first. -/
theorem hasNative_iff {b : UInt8} {rest : List UInt8} (hfirst : body = b :: rest) (hb : b ≠ unused) :
    set.has .hasNative = true ↔ isUpper b = true := by
  have hwell := ((flags_eq_ok hbytes).mp hset).1
  have hmem : b ∈ body := by simp [hfirst]
  rw [has_iff_adds hset hbytes (by cases lead <;> decide), adds_hasNative_iff]
  rcases hwell.order with hjava | hnative
  · have hlower := isUpper_of_java b ((hjava b hmem).resolve_left hb)
    refine iff_of_false ?_ (by simp [hlower])
    rintro ⟨b', hmem', hnative⟩
    rcases hjava b' hmem' with rfl | hjava'
    · exact absurd hnative (by decide)
    · exact absurd (isUpper_of_native b' hnative) (by simp [isUpper_of_java b' hjava'])
  · have hletter := (hnative b hmem).resolve_left hb
    exact iff_of_true ⟨b, hmem, hletter⟩ (isUpper_of_native b hletter)

include hsuits

theorem length_lead : lead.bytes.length = if wide then 2 else 1 := by
  have hwide := hsuits.wide
  rw [has_flags hbytes hset, FormatFlags.has_zero, or_iff_right Bool.false_ne_true] at hwide
  have hadds : ¬Adds body .notSimple := by
    intro h
    cases h with
    | field _ hletter => cases hletter
  rw [or_iff_left hadds] at hwide
  cases lead with
  | plain => rw [if_neg (mt hwide.mpr (by decide))]; rfl
  | wide => rw [if_pos (hwide.mp (by decide))]; rfl

/-- The size that the flags tell is the size of the first run. -/
theorem size_of_first {r : Run} {rs : List Run} (hruns : runs body = r :: rs) : r.size = size := by
  have hwell := ((flags_eq_ok hbytes).mp hset).1
  have hmem : r ∈ runs body := by simp [hruns]
  have hshort := hsuits.short
  have hword := hsuits.word
  rw [has_iff_adds hset hbytes (by cases lead <;> decide), adds_hasU2_iff] at hshort
  rw [has_iff_adds hset hbytes (by cases lead <;> decide), adds_hasU4_iff] at hword
  rcases hwell.sizes r hmem with hone | htwo | hfour
  · -- then no run is longer, and the flags tell of no other size
    have hle := hwell.size_le_first hruns
    have hsmall {n : Nat} (hn : 1 < n) : ¬∃ r ∈ runs body, r.size = n := by
      rintro ⟨next, hnext, rfl⟩
      exact absurd (hle next hnext) (by omega)
    have hne2 : size ≠ 2 := mt hshort.mpr (hsmall (by decide))
    have hne4 : size ≠ 4 := mt hword.mpr (hsmall (by decide))
    have hfield := hsuits.field
    omega
  · exact htwo.trans (hshort.mp ⟨r, hmem, htwo⟩).symm
  · exact hfour.trans (hword.mp ⟨r, hmem, hfour⟩).symm

end Index

private theorem letter_ne_lead : ∀ b ∈ javaLetters ++ nativeLetters, b ≠ ('b').toUInt8 := by decide +kernel

/-- A letter right after the lead of a format whose flags suit an index is that of a field of this size, and its case
is the byte order that the flags tell. -/
theorem field_after_lead (hset : flags format 0 = .ok set) (hsuits : SuitsIndex set size wide)
    (hletter : (bytes format)[if wide then 2 else 1]? = some letter) (hused : letter ≠ unused) :
    FieldAt format letter (if wide then 2 else 1) size ∧ (set.has .hasNative = true ↔ isUpper letter = true) := by
  have hempty : format ≠ "" := by
    rintro rfl
    cases hletter
  obtain ⟨lead, body, hbytes⟩ := exists_lead hempty hset
  rw [← length_lead hset hsuits hbytes] at hletter ⊢
  rw [hbytes, List.getElem?_append_right le_rfl, Nat.sub_self] at hletter
  cases hbody : body with
  | nil =>
      rw [hbody] at hletter
      cases hletter
  | cons b rest =>
      obtain rfl : b = letter := by simpa [hbody] using hletter
      have hwell := ((flags_eq_ok hbytes).mp hset).1
      have hmem : b ∈ body := by simp [hbody]
      have hlead := letter_ne_lead b (List.mem_append.mpr
        (hwell.order.imp (fun h => (h b hmem).resolve_left hused) fun h => (h b hmem).resolve_left hused))
      have hsize := size_of_first hset hsuits hbytes (by rw [hbody, runs_letter hused])
      have hfield := fieldAt_of_lead (hbody ▸ hbytes) hlead
      rw [show 1 + (rest.takeWhile (· = b)).length = size from hsize] at hfield
      exact ⟨hfield, hasNative_iff hset hbytes hbody hused⟩

end MethodCode.Format
