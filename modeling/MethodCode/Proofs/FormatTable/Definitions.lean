import MethodCode.Proofs.Format.Layout
import MethodCode.Proofs.FormatTable.Lengths

/-! Tables as sets of definitions. Definitions enter a table one after the other, and one that is refused ends it all.
What a definition needs, though, is only that its own formats are understood and that its code is free; it writes to no
other code, so definitions of different codes can change places. Main statement: definitions make a table exactly if
all of their formats are understood and no code is defined twice, the table tells of every code what its definition
says and of no other code anything, and it is the same table in whatever order the definitions come. -/

namespace MethodCode

/-! ### Insertions change places -/

namespace BitTree

variable {α : Type}

theorem insert_succ {depth : Nat} (t : BitTree α (depth + 1)) (n : Nat) (a : α) :
    t.insert n a =
      if n % 2 = 0 then node (t.halves.1.insert (n / 2) a) t.halves.2
      else node t.halves.1 (t.halves.2.insert (n / 2) a) := rfl

@[simp] theorem halves_node {depth : Nat} (even odd : BitTree α depth) : (node even odd).halves = (even, odd) := rfl

theorem insert_comm {depth : Nat} (t : BitTree α depth) {m n : Nat} (hm : m < Nat.pow 2 depth)
    (hn : n < Nat.pow 2 depth) (hne : m ≠ n) (a b : α) : (t.insert m a).insert n b = (t.insert n b).insert m a := by
  induction depth generalizing m n with
  | zero =>
      have hm : m < 1 := hm
      have hn : n < 1 := hn
      omega
  | succ depth ih =>
      have half_lt {k : Nat} (hk : k < Nat.pow 2 (depth + 1)) : k / 2 < Nat.pow 2 depth := by
        simp only [Nat.pow_eq, Nat.pow_succ] at hk ⊢
        omega
      rw [insert_succ _ n, insert_succ t m, insert_succ _ m, insert_succ t n]
      by_cases hm2 : m % 2 = 0 <;> by_cases hn2 : n % 2 = 0
      · have hhalves := ih t.halves.1 (half_lt hm) (half_lt hn) (by omega)
        simp [hm2, hn2, hhalves]
      · simp [hm2, hn2]
      · simp [hm2, hn2]
      · have hhalves := ih t.halves.2 (half_lt hm) (half_lt hn) (by omega)
        simp [hm2, hn2, hhalves]

end BitTree

theorem ByteMap.insert_comm {α : Type} (m : ByteMap α) {b c : UInt8} (hne : b ≠ c) (x y : α) :
    (m.insert b x).insert c y = (m.insert c y).insert b x :=
  congrArg ByteMap.mk (m.tree.insert_comm b.toNat_lt c.toNat_lt (mt UInt8.toNat_inj.mp hne) x y)

/-! ### Definitions that are understood -/

namespace OpcodeDefinition

variable {d : OpcodeDefinition} {e : FormatEntry}

/-- The formats of a definition, with a wide prefix and without. -/
def formats (d : OpcodeDefinition) : List String := d.format :: d.wideFormat.toList

/-- All formats of a definition are understood. -/
def Sound (d : OpcodeDefinition) : Prop := ∀ format ∈ d.formats, ∃ set, Format.flags format 0 = .ok set

/-- The flags of the wide form; an opcode without one has none. -/
def wideFlags (d : OpcodeDefinition) : Except Error FormatFlags :=
  match d.wideFormat with
  | some wide => Format.flags wide d.behaviour
  | none => .ok 0

/-- The entry of a definition whose formats tell the given flags. -/
def entryOf (d : OpcodeDefinition) (flags wideFlags : FormatFlags) : FormatEntry where
  name := d.name
  flags := flags
  wideFlags := wideFlags
  length := if d.format.isEmpty then none else some d.format.utf8ByteSize
  wideLength := d.wideFormat.map String.utf8ByteSize
  result := d.result
  canonical := d.canonical

theorem ofDefinition_eq_ok :
    FormatEntry.ofDefinition d = .ok e ↔
      ∃ flags wideFlags, Format.flags d.format d.behaviour = .ok flags ∧ d.wideFlags = .ok wideFlags ∧
        d.entryOf flags wideFlags = e := by
  unfold FormatEntry.ofDefinition OpcodeDefinition.wideFlags entryOf behaviour
  cases hwide : d.wideFormat with
  | none => simp [bind_eq_ok, inContext_eq_ok, pure, Except.pure]
  | some wide => simp [bind_eq_ok, inContext_eq_ok, pure, Except.pure]

theorem exists_ofDefinition_iff : (∃ e, FormatEntry.ofDefinition d = .ok e) ↔ d.Sound := by
  constructor
  · rintro ⟨e, he⟩ format hmem
    have hdescribes := describes_of_ofDefinition he
    rcases List.mem_cons.mp hmem with rfl | hwide
    · exact Format.flags_understood hdescribes.flags 0
    · exact Format.flags_understood (hdescribes.wideFlags format (Option.mem_toList.mp hwide)) 0
  · intro h
    have hunderstood {format : String} (hmem : format ∈ d.formats) :
        ∃ set, Format.flags format d.behaviour = .ok set := by
      obtain ⟨set, hset⟩ := h format hmem
      exact Format.flags_understood hset d.behaviour
    obtain ⟨flags, hflags⟩ := hunderstood List.mem_cons_self
    obtain ⟨wideFlags, hwideFlags⟩ : ∃ set, d.wideFlags = .ok set := by
      unfold OpcodeDefinition.wideFlags
      cases hwide : d.wideFormat with
      | none => exact ⟨0, rfl⟩
      | some wide => exact hunderstood (by simp [formats, hwide])
    exact ⟨_, ofDefinition_eq_ok.mpr ⟨flags, wideFlags, hflags, hwideFlags, rfl⟩⟩

theorem has_behaviour (d : OpcodeDefinition) (f : Flag) :
    d.behaviour.has f = true ↔ d.canTrap = true ∧ f = .canTrap ∨ d.canRewrite = true ∧ f = .canRewrite := by
  rw [behaviour, FormatFlags.has_of, List.mem_append, List.mem_ite_nil_right, List.mem_ite_nil_right,
    List.mem_singleton, List.mem_singleton]

end OpcodeDefinition

namespace FormatTable

variable {t t' : FormatTable} {d d' : OpcodeDefinition} {ds ds' : List OpcodeDefinition} {e : FormatEntry}

/-! ### The order of definitions -/

/-- A definition is accepted if its formats are understood and its code is free. -/
theorem define_eq_ok :
    t.define d = .ok t' ↔ ∃ made, FormatEntry.ofDefinition d = .ok made ∧ t.entry? d.code = none ∧
      ⟨t.entries.insert d.code.byte made⟩ = t' := by
  rw [define, bind_eq_ok]
  refine exists_congr fun made => and_congr_right fun _ => ?_
  cases t.entry? d.code with
  | none => simp
  | some _ => simp [failWith]

theorem entry?_insert_eq_none {made : FormatEntry} {op : Opcode} :
    FormatTable.entry? ⟨t.entries.insert d.code.byte made⟩ op = none ↔ t.entry? op = none ∧ d.code ≠ op := by
  rw [entry?_insert]
  by_cases hop : d.code = op
  · subst hop
    simp
  · have hbyte : op.byte ≠ d.code.byte := fun hbyte => hop (congrArg Opcode.mk hbyte.symm)
    simp [hbyte, hop]

/-- Two definitions may change places. -/
theorem define_swap (h : (do (← t.define d).define d') = .ok t') : (do (← t.define d').define d) = .ok t' := by
  obtain ⟨t₁, hfirst, hsecond⟩ := bind_eq_ok.mp h
  obtain ⟨made, hmade, hfree, rfl⟩ := define_eq_ok.mp hfirst
  obtain ⟨made', hmade', hfree', rfl⟩ := define_eq_ok.mp hsecond
  obtain ⟨hfree', hne⟩ := entry?_insert_eq_none.mp hfree'
  have hbyte : d.code.byte ≠ d'.code.byte := fun hbyte => hne (congrArg Opcode.mk hbyte)
  refine bind_eq_ok.mpr ⟨_, define_eq_ok.mpr ⟨made', hmade', hfree', rfl⟩, ?_⟩
  refine define_eq_ok.mpr ⟨made, hmade, entry?_insert_eq_none.mpr ⟨hfree, hne.symm⟩, ?_⟩
  exact congrArg FormatTable.mk (t.entries.insert_comm hbyte made made').symm

theorem defineAll_perm (hperm : ds.Perm ds') : t.defineAll ds = .ok t' ↔ t.defineAll ds' = .ok t' := by
  induction hperm generalizing t with
  | nil => rfl
  | cons d _ ih =>
      rw [defineAll, defineAll, bind_eq_ok, bind_eq_ok]
      exact exists_congr fun next => and_congr_right fun _ => ih
  | swap d d' ds =>
      have hswap (d d' : OpcodeDefinition) (h : t.defineAll (d :: d' :: ds) = .ok t') :
          t.defineAll (d' :: d :: ds) = .ok t' := by
        obtain ⟨t₁, hfirst, h⟩ := bind_eq_ok.mp h
        obtain ⟨t₂, hsecond, hrest⟩ := bind_eq_ok.mp h
        obtain ⟨t₃, hfirst', hsecond'⟩ := bind_eq_ok.mp (define_swap (bind_eq_ok.mpr ⟨t₁, hfirst, hsecond⟩))
        exact bind_eq_ok.mpr ⟨t₃, hfirst', bind_eq_ok.mpr ⟨t₂, hsecond', hrest⟩⟩
      exact ⟨hswap d' d, hswap d d'⟩
  | trans _ _ ih ih' => exact ih.trans ih'

/-! ### What makes a table -/

/-- More definitions are accepted if each of them is understood and all of their codes are free and different. -/
theorem exists_defineAll_iff :
    (∃ t', t.defineAll ds = .ok t') ↔
      (∀ d ∈ ds, d.Sound) ∧ (ds.map OpcodeDefinition.code).Nodup ∧ ∀ d ∈ ds, t.entry? d.code = none := by
  induction ds generalizing t with
  | nil => simp [defineAll]
  | cons d ds ih =>
      rw [List.forall_mem_cons, List.forall_mem_cons, List.map_cons, List.nodup_cons, ← d.exists_ofDefinition_iff]
      constructor
      · rintro ⟨t', h⟩
        obtain ⟨next, hdefine, hrest⟩ := bind_eq_ok.mp h
        obtain ⟨made, hmade, hfree, rfl⟩ := define_eq_ok.mp hdefine
        obtain ⟨hsound, hnodup, hfrees⟩ := ih.mp ⟨t', hrest⟩
        refine ⟨⟨⟨made, hmade⟩, hsound⟩, ⟨?_, hnodup⟩, hfree,
          fun d' hd' => (entry?_insert_eq_none.mp (hfrees d' hd')).1⟩
        intro hmem
        obtain ⟨d', hd', hcode⟩ := List.mem_map.mp hmem
        exact (entry?_insert_eq_none.mp (hfrees d' hd')).2 hcode.symm
      · rintro ⟨⟨⟨made, hmade⟩, hsound⟩, ⟨hnew, hnodup⟩, hfree, hfrees⟩
        obtain ⟨t', hrest⟩ := ih (t := ⟨t.entries.insert d.code.byte made⟩).mpr ⟨hsound, hnodup, fun d' hd' =>
          entry?_insert_eq_none.mpr ⟨hfrees d' hd', fun hcode => hnew (List.mem_map.mpr ⟨d', hd', hcode.symm⟩)⟩⟩
        exact ⟨t', bind_eq_ok.mpr ⟨_, define_eq_ok.mpr ⟨made, hmade, hfree, rfl⟩, hrest⟩⟩

/-! ### What a table tells -/

/-- A table tells of a code what its definition says. -/
structure Tells (t : FormatTable) (d : OpcodeDefinition) : Prop where
  name : t.name d.code = .ok d.name
  canonical : t.canonical d.code = .ok d.canonical
  result : t.result d.code = .ok d.result
  canTrap : t.canTrap d.code = .ok d.canTrap
  canRewrite : t.canRewrite d.code = .ok d.canRewrite
  flags : ∃ set, t.flags d.code false = .ok set ∧ Format.flags d.format d.behaviour = .ok set
  wideFlags : ∀ wide ∈ d.wideFormat, ∃ set, t.flags d.code true = .ok set ∧ Format.flags wide d.behaviour = .ok set
  noWideFlags : d.wideFormat = none → t.flags d.code true = .ok 0

/-- Behaviour is told as it was defined. -/
theorem hasAllFlags_behaviour (he : t.entry? d.code = some e) (hdescribes : d.Describes e) {f : Flag} {b : Bool}
    (hf : ¬FormatFlags.layout.has f = true) (hb : d.behaviour.has f = true ↔ b = true) :
    t.hasAllFlags d.code (.of [f]) false = .ok b := by
  have hcontains : e.flags.contains (.of [f]) = true ↔ b = true := by
    rw [FormatFlags.contains_of, List.forall_mem_singleton, Format.has_behaviour hdescribes.flags hf, hb]
  rw [hasAllFlags_of_entry he, Bool.eq_iff_iff.mpr hcontains]

theorem tells_of_entry (he : t.entry? d.code = some e) (hmade : FormatEntry.ofDefinition d = .ok e) : t.Tells d := by
  have hdescribes := OpcodeDefinition.describes_of_ofDefinition hmade
  obtain ⟨flags, wideFlags, -, -, rfl⟩ := OpcodeDefinition.ofDefinition_eq_ok.mp hmade
  constructor
  · exact name_of_entry he
  · exact canonical_of_entry he
  · rw [result, entry_eq_ok.mpr he]
    rfl
  · exact hasAllFlags_behaviour he hdescribes (by decide) (by simp [d.has_behaviour])
  · exact hasAllFlags_behaviour he hdescribes (by decide) (by simp [d.has_behaviour])
  · exact ⟨_, flags_of_entry he false, hdescribes.flags⟩
  · exact fun wide hwide => ⟨_, flags_of_entry he true, hdescribes.wideFlags wide hwide⟩
  · intro hnone
    rw [flags_of_entry he, if_pos rfl, hdescribes.noWideFlags hnone]

/-- A table is its definitions. They make one exactly if all of their formats are understood and no two of them have
one code; it tells of these codes what the definitions say, and no other code is defined; and the same definitions in
another order make the same table, if they make any. -/
theorem ofDefinitions_exact (ds : List OpcodeDefinition) :
    ((∃ t, ofDefinitions ds = .ok t) ↔ (∀ d ∈ ds, d.Sound) ∧ (ds.map OpcodeDefinition.code).Nodup) ∧
      (∀ t, ofDefinitions ds = .ok t →
        (∀ d ∈ ds, t.Tells d) ∧ ∀ op, t.isDefined op = true ↔ ∃ d ∈ ds, d.code = op) ∧
      ∀ ds', ds'.Perm ds → ∀ t, ofDefinitions ds' = .ok t ↔ ofDefinitions ds = .ok t := by
  have hempty (op : Opcode) : empty.entry? op = none := rfl
  refine ⟨?_, fun t h => ⟨fun d hd => ?_, fun op => ?_⟩, fun ds' hperm t => defineAll_perm hperm⟩
  · rw [ofDefinitions, exists_defineAll_iff]
    exact and_congr_right fun _ => and_iff_left fun d _ => hempty d.code
  · obtain ⟨e, hmade⟩ := (entry?_defineAll h).2 d hd
    exact tells_of_entry (((entry?_defineAll h).1 d.code e).mpr (.inr ⟨d, hd, rfl, hmade⟩)) hmade
  · rw [isDefined_iff]
    constructor
    · rintro ⟨e, he⟩
      obtain ⟨d, hd, hcode, -⟩ := definition_of_entry h he
      exact ⟨d, hd, hcode⟩
    · rintro ⟨d, hd, rfl⟩
      obtain ⟨e, he, -⟩ := entry_of_definition h hd
      exact ⟨e, he⟩

/-- A load with a wide form, and one of the fast forms that stand for it. -/
def sampleLoads : List OpcodeDefinition :=
  [((OpcodeDefinition.plain 0x15 "iload" "bi" .int).widened "wbii").rewritable,
    (OpcodeDefinition.plain 0xdf "fast_iload" "bi" .int).formOf .iload]

/-- Both orders make one table, which tells of the wide form and of nothing else. -/
theorem ofDefinitions_exact_sample :
    ∃ t, ofDefinitions sampleLoads = .ok t ∧ ofDefinitions sampleLoads.reverse = .ok t ∧
      t.canRewrite .iload = .ok true ∧
      t.flags .iload true = .ok (.of [.canRewrite, .hasLocal, .hasU2, .notVariable, .notSimple]) ∧
      t.isDefined .getfield = false := by
  obtain ⟨hmade, hmakes, hperm⟩ := ofDefinitions_exact sampleLoads
  have hsound : ∀ d ∈ sampleLoads, d.Sound := by
    have hnarrow : Format.flags "bi" 0 = .ok (.of [.hasLocal, .notVariable]) := by decide +kernel
    have hwide : Format.flags "wbii" 0 = .ok (.of [.hasLocal, .hasU2, .notVariable, .notSimple]) := by decide +kernel
    have hformats : ∀ d ∈ sampleLoads, ∀ format ∈ d.formats, format = "bi" ∨ format = "wbii" := by decide
    intro d hd format hformat
    rcases hformats d hd format hformat with rfl | rfl
    · exact ⟨_, hnarrow⟩
    · exact ⟨_, hwide⟩
  obtain ⟨t, ht⟩ := hmade.mpr ⟨hsound, by decide⟩
  obtain ⟨htells, hdefined⟩ := hmakes t ht
  have hload := htells _ List.mem_cons_self
  refine ⟨t, ht, (hperm _ (List.reverse_perm _) t).mpr ht, hload.canRewrite, ?_, ?_⟩
  · obtain ⟨set, hset, hflags⟩ := hload.wideFlags "wbii" rfl
    have hcomputed : Format.flags "wbii" (.of [.canRewrite]) =
        .ok (.of [.canRewrite, .hasLocal, .hasU2, .notVariable, .notSimple]) := by
      decide +kernel
    obtain rfl := Except.ok.inj (hflags.symm.trans hcomputed)
    exact hset
  · rw [Bool.eq_false_iff, ne_eq, hdefined]
    decide

end FormatTable

end MethodCode
