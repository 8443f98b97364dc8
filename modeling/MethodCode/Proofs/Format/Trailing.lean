import Mathlib.Data.String.Defs
import MethodCode.Proofs.Format.Language

/-! Unused bytes at the end of a format. They belong to no field and add no flag, but with them the last run is no
longer the last thing in its format, and a last run that is shorter than the one before it is not excused any more.
Main statement: unused bytes may be added to a format exactly if its runs are all of one size, and otherwise the
format that has been understood is refused. -/

namespace MethodCode.Format

/-! ### Bytes and runs -/

theorem bytes_append (s t : String) : bytes (s ++ t) = bytes s ++ bytes t := by
  simp only [bytes, String.toUTF8, String.toByteArray_append, ByteArray.data_append, Array.toList_append]

theorem bytes_replicate (n : Nat) : bytes (String.replicate n '_') = List.replicate n unused := by
  induction n with
  | zero => rfl
  | succ n ih =>
      have hsplit : String.replicate (n + 1) '_' = String.ofList ['_'] ++ String.replicate n '_' := by
        change String.ofList (List.replicate (n + 1) '_') = String.ofList ['_'] ++ String.ofList (List.replicate n '_')
        rw [← String.ofList_append, List.replicate_succ, List.singleton_append]
      calc bytes (String.replicate (n + 1) '_')
          = bytes (String.ofList ['_']) ++ bytes (String.replicate n '_') := by rw [hsplit, bytes_append]
        _ = unused :: List.replicate n unused := by rw [ih]; rfl
        _ = List.replicate (n + 1) unused := List.replicate_succ.symm

/-- The same run with something after it. -/
def Run.inside (r : Run) : Run := { r with last := false }

/-- All runs of a body have one size. -/
def OneSize (body : List UInt8) : Prop := ∀ r ∈ runs body, ∀ next ∈ runs body, next.size = r.size

instance (body : List UInt8) : Decidable (OneSize body) :=
  inferInstanceAs (Decidable (∀ r ∈ runs body, ∀ next ∈ runs body, next.size = r.size))

/-- A run of letters ends before the unused bytes after it. -/
theorem takeWhile_append_unused {b : UInt8} (hb : b ≠ unused) (rest : List UInt8) (n : Nat) :
    (rest ++ List.replicate n unused).takeWhile (· = b) = rest.takeWhile (· = b) := by
  have hstop : (List.replicate n unused).takeWhile (· = b) = [] := by
    cases n <;> simp [List.replicate_succ, Ne.symm hb]
  rw [List.takeWhile_append, hstop, List.append_nil]
  split
  · rename_i hall
    exact ((List.takeWhile_prefix _).eq_of_length hall).symm
  · rfl

theorem dropWhile_append_unused {b : UInt8} (hb : b ≠ unused) (rest : List UInt8) (n : Nat) :
    (rest ++ List.replicate n unused).dropWhile (· = b) = rest.dropWhile (· = b) ++ List.replicate n unused := by
  have hstop : (List.replicate n unused).dropWhile (· = b) = List.replicate n unused := by
    cases n <;> simp [List.replicate_succ, Ne.symm hb]
  rw [List.dropWhile_append, hstop]
  split
  · rename_i hall
    rw [List.isEmpty_iff.mp hall, List.nil_append]
  · rfl

/-- Unused bytes at the end take from the last run that it is the last, and change nothing else. -/
theorem runs_append_unused (body : List UInt8) (n : Nat) :
    runs (body ++ List.replicate (n + 1) unused) = (runs body).map Run.inside := by
  induction body using run_induction with
  | nil =>
      rw [List.nil_append, runs_nil, List.map_nil]
      induction n with
      | zero => simp
      | succ n ih => rw [List.replicate_succ, runs_unused, ih]
  | unused rest ih => rw [List.cons_append, runs_unused, runs_unused, ih]
  | letter b rest hb ih =>
      have hmore : (rest.dropWhile (· = b) ++ List.replicate (n + 1) unused).isEmpty = false := by
        simp [List.replicate_succ]
      rw [List.cons_append, runs_letter hb, runs_letter hb, takeWhile_append_unused hb, dropWhile_append_unused hb,
        ih, hmore, List.map_cons, Run.inside]

/-- A lead is told by the same first bytes, whatever unused bytes follow. -/
theorem lead_of_append_unused {lead : Lead} {first body : List UInt8} {n : Nat}
    (h : first ++ List.replicate n unused = lead.bytes ++ body) :
    ∃ rest, first = lead.bytes ++ rest := by
  rcases List.append_eq_append_iff.mp h with ⟨extra, hlead, hextra⟩ | ⟨rest, hfirst, -⟩
  · have hused : ∀ b ∈ lead.bytes, b ≠ unused := by cases lead <;> decide +kernel
    obtain rfl : extra = [] := by
      apply List.eq_nil_iff_forall_not_mem.mpr
      intro b hb
      have hreplicate : b ∈ List.replicate n unused := by
        rw [hextra]
        exact List.mem_append_left _ hb
      have hmem : b ∈ lead.bytes := by
        rw [hlead]
        exact List.mem_append_right _ hb
      exact hused b hmem (List.eq_of_mem_replicate hreplicate)
    exact ⟨[], by simpa using hlead.symm⟩
  · exact ⟨rest, hfirst⟩

/-! ### What is still understood -/

variable {body : List UInt8} {n : Nat}

theorem oneSize_iff_isChain : OneSize body ↔ (runs body).IsChain fun r next => next.size = r.size := by
  have htrans : IsTrans Run fun r next => next.size = r.size := ⟨fun _ _ _ h h' => h'.trans h⟩
  have hsymm : Std.Symm fun r next : Run => next.size = r.size := ⟨fun _ _ => Eq.symm⟩
  rw [List.isChain_iff_pairwise]
  constructor
  · intro h
    exact List.pairwise_of_forall_mem_list h
  · intro h r hr next hnext
    exact h.forall_of_forall (fun next _ => Eq.refl next.size) hr hnext

/-- With unused bytes at the end, a body is well-formed if it was so without, and none of its runs is shorter. -/
theorem wellFormed_append_unused :
    WellFormed (body ++ List.replicate (n + 1) unused) ↔ WellFormed body ∧ OneSize body := by
  have hletters {p : UInt8 → Prop} :
      (∀ b ∈ body ++ List.replicate (n + 1) unused, b = unused ∨ p b) ↔ ∀ b ∈ body, b = unused ∨ p b := by
    rw [List.forall_mem_append]
    exact and_iff_left fun b hb => .inl (List.eq_of_mem_replicate hb)
  have hfollows (r : Run) (size : Nat) : r.inside.Follows size ↔ r.size = size := by
    simp [Run.Follows, Run.inside]
  rw [oneSize_iff_isChain]
  constructor
  · rintro ⟨horder, hsizes, hchain⟩
    rw [hletters, hletters] at horder
    rw [runs_append_unused, List.forall_mem_map] at hsizes
    rw [runs_append_unused, List.isChain_map] at hchain
    have heven := hchain.imp fun r next h => (hfollows next r.size).mp h
    exact ⟨⟨horder, hsizes, heven.imp fun _ _ => .inl⟩, heven⟩
  · rintro ⟨⟨horder, hsizes, -⟩, heven⟩
    refine ⟨?_, ?_, ?_⟩
    · rwa [hletters, hletters]
    · rwa [runs_append_unused, List.forall_mem_map]
    · rw [runs_append_unused, List.isChain_map]
      exact heven.imp fun r next h => (hfollows next r.size).mpr h

/-! ### What is refused -/

variable {format : String} {scan : Scan} {r : Run} {rs : List Run}

/-- A run that is neither as long as the one before it nor the last is refused for its size. -/
theorem Scan.field_inside (htakes : scan.Takes r) (hpos : scan.size ≠ 0) (hother : r.size ≠ scan.size) :
    scan.field format r.letter r.size false = failWith (.mixedFieldSizes format) := by
  have hletter : r.inside.letter ∈ javaLetters ∨ r.inside.letter ∈ nativeLetters :=
    htakes.order.imp And.right And.right
  have hfollows : ¬(scan.size = 0 ∨ r.inside.Follows scan.size) := by
    simp [Run.Follows, Run.inside, hpos, hother]
  calc scan.field format r.letter r.size false
      = scan.field format r.inside.letter r.inside.size r.inside.last := rfl
    _ = failWith (.mixedFieldSizes format) := by
      rw [field_eq, if_neg (not_not.mpr hletter), if_neg, if_neg, if_pos hfollows]
      · exact not_not.mpr htakes.size
      · exact not_not.mpr htakes.order

theorem Scan.Takes.inside (htakes : scan.Takes r) (heven : scan.size = 0 ∨ r.size = scan.size) :
    scan.Takes r.inside :=
  ⟨htakes.order, htakes.size, heven.imp_right .inl⟩

/-- Runs that are not all of the size before them are refused for it, if something comes after them all. -/
theorem Scan.readAll_inside (hadmits : scan.Admits rs) (hpos : scan.size ≠ 0)
    (huneven : ¬∀ r ∈ rs, r.size = scan.size) :
    scan.readAll format (rs.map Run.inside) = failWith (.mixedFieldSizes format) := by
  induction rs generalizing scan with
  | nil => exact absurd nofun huneven
  | cons r rs ih =>
      obtain ⟨htakes, hrest⟩ := admits_cons.mp hadmits
      rw [List.map_cons, readAll]
      by_cases hsame : r.size = scan.size
      · rw [field_eq_ok.mpr ⟨htakes.inside (.inr hsame), rfl⟩, ok_bind]
        refine ih hrest htakes.size.size_ne_zero fun hall => huneven ?_
        exact List.forall_mem_cons.mpr ⟨hsame, fun next hnext => (hall next hnext).trans hsame⟩
      · rw [Run.inside, field_inside htakes hpos hsame]
        rfl

/-! ### Formats -/

variable {lead : Lead} {more set : FormatFlags}

theorem bytes_append_unused (h : bytes format = lead.bytes ++ body) :
    bytes (format ++ String.replicate n '_') = lead.bytes ++ (body ++ List.replicate n unused) := by
  rw [bytes_append, bytes_replicate, h, List.append_assoc]

theorem flags_append_unused_eq_ok (h : bytes format = lead.bytes ++ body) :
    flags (format ++ String.replicate (n + 1) '_') more = .ok set ↔ flags format more = .ok set ∧ OneSize body := by
  have hflags : (runs (body ++ List.replicate (n + 1) unused)).foldl Scan.taking (lead.start more) =
      (runs body).foldl Scan.taking (lead.start more) := by
    rw [runs_append_unused, List.foldl_map]
    rfl
  rw [flags_eq_ok (bytes_append_unused h), flags_eq_ok h, hflags, wellFormed_append_unused, and_right_comm]

theorem flags_append_unused_refused (h : bytes format = lead.bytes ++ body) (hset : flags format more = .ok set)
    (huneven : ¬OneSize body) :
    flags (format ++ String.replicate (n + 1) '_') more =
      failWith (.mixedFieldSizes (format ++ String.replicate (n + 1) '_')) := by
  have hadmits := (lead.admits_iff more).mpr ((flags_eq_ok h).mp hset).1
  rw [flags_of_lead (bytes_append_unused h), Scan.run_eq, runs_append_unused]
  cases hruns : runs body with
  | nil => exact absurd (fun r hr => by simp [hruns] at hr) huneven
  | cons r rs =>
      rw [hruns] at hadmits
      obtain ⟨htakes, hrest⟩ := Scan.admits_cons.mp hadmits
      have hother : ¬∀ next ∈ rs, next.size = r.size := by
        intro hall
        apply huneven
        intro a ha b hb
        rw [hruns] at ha hb
        have hsame : ∀ next ∈ r :: rs, next.size = r.size := List.forall_mem_cons.mpr ⟨rfl, hall⟩
        rw [hsame a ha, hsame b hb]
      rw [List.map_cons, Scan.readAll, Scan.field_eq_ok.mpr ⟨htakes.inside (.inl rfl), rfl⟩, ok_bind]
      change Scan.flags <$> (((lead.start more).taking r).readAll _ (rs.map Run.inside)) = _
      rw [Scan.readAll_inside hrest htakes.size.size_ne_zero hother]
      rfl

/-- Whether unused bytes at the end matter. A format that is not empty is understood with them exactly if it is
understood without them and, unless there are none, has runs of one size; it then has the same flags. Where the size
of its runs is all that stands against it, the error says so. -/
theorem flags_append_unused {format : String} (hne : format ≠ "") (n : Nat) (more : FormatFlags) :
    (∀ set, flags (format ++ String.replicate n '_') more = .ok set ↔
      flags format more = .ok set ∧
        (n = 0 ∨ ∀ (lead : Lead) (body : List UInt8), bytes format = lead.bytes ++ body → OneSize body)) ∧
    ∀ (set : FormatFlags) (lead : Lead) (body : List UInt8), flags format more = .ok set →
      bytes format = lead.bytes ++ body → ¬OneSize body → 0 < n →
        flags (format ++ String.replicate n '_') more =
          failWith (.mixedFieldSizes (format ++ String.replicate n '_')) := by
  cases n with
  | zero =>
      have hsame : format ++ String.replicate 0 '_' = format := String.append_empty
      rw [hsame]
      exact ⟨fun set => ⟨fun h => ⟨h, .inl rfl⟩, And.left⟩, fun _ _ _ _ _ _ hn => absurd hn (lt_irrefl 0)⟩
  | succ n =>
      refine ⟨fun set => ⟨fun h => ?_, ?_⟩, fun set lead body hset h huneven _ =>
        flags_append_unused_refused h hset huneven⟩
      · obtain ⟨lead, longer, hlonger⟩ := exists_lead (fun hempty => hne (String.append_eq_empty_iff.mp hempty).1) h
        rw [bytes_append, bytes_replicate] at hlonger
        obtain ⟨body, hbody⟩ := lead_of_append_unused hlonger
        refine ⟨((flags_append_unused_eq_ok hbody).mp h).1, .inr fun lead body hlead => ?_⟩
        exact ((flags_append_unused_eq_ok hlead).mp h).2
      · rintro ⟨h, hall⟩
        obtain ⟨lead, body, hbody⟩ := exists_lead hne h
        exact (flags_append_unused_eq_ok hbody).mpr ⟨h, hall.resolve_left (Nat.succ_ne_zero n) lead body hbody⟩

/-- Two fields of one letter may be followed by unused bytes, a shorter last field may not. -/
theorem flags_append_unused_sample :
    "bJJ" ≠ "" ∧ "bkkc" ≠ "" ∧
      flags ("bJJ" ++ String.replicate 2 '_') 0 = .ok (.of [.notVariable, .hasCacheIndex, .hasNative, .hasU2]) ∧
      flags ("bkkc" ++ String.replicate 1 '_') 0 =
        failWith (.mixedFieldSizes ("bkkc" ++ String.replicate 1 '_')) := by
  have hlong : "bJJ" ≠ "" := by decide
  have hshort : "bkkc" ≠ "" := by decide
  refine ⟨hlong, hshort, ?_, ?_⟩
  · have hbytes : bytes "bJJ" = Lead.plain.bytes ++ [('J').toUInt8, ('J').toUInt8] := by decide +kernel
    refine ((flags_append_unused hlong 2 0).1 _).mpr ⟨by decide +kernel, .inr fun lead body h => ?_⟩
    rw [hbytes] at h
    cases lead with
    | plain =>
        obtain rfl := List.append_cancel_left h
        decide +kernel
    | wide => exact absurd (List.cons.inj h).1 (by decide)
  · refine (flags_append_unused hshort 1 0).2 (.of [.notVariable, .hasPoolIndex, .hasConstant, .hasU2]) .plain
      (['k', 'k', 'c'].map Char.toUInt8) ?_ ?_ ?_ Nat.one_pos
    · decide +kernel
    · decide +kernel
    · decide +kernel

/-- The same format with a byte of no use at its end need not have the same flags: it may not be understood. -/
theorem unused_byte_matters :
    ¬∀ format : String, format ≠ "" → ∀ (n : Nat) (more set : FormatFlags),
      flags (format ++ String.replicate n '_') more = .ok set ↔ flags format more = .ok set := by
  intro h
  have haccepted : flags "bkkc" 0 = .ok (.of [.notVariable, .hasPoolIndex, .hasConstant, .hasU2]) := by
    decide +kernel
  have hrefused : flags ("bkkc" ++ String.replicate 1 '_') 0 = failWith (.mixedFieldSizes "bkkc_") := by
    decide +kernel
  have hlonger := (h "bkkc" (by decide) 1 0 _).mpr haccepted
  rw [hrefused] at hlonger
  cases hlonger

end MethodCode.Format
