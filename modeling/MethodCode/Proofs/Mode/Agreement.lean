import MethodCode.Proofs.Execution.Breaches

/-! Checked and unchecked mode agree wherever the checked one returns. A test gives no errors and changes
nothing, so a test that is left out can only have ended in a breach; `Agrees` passes this on from the parts
of a call to the whole. Main statement: every reader of the instruction under a cursor agrees in both
modes. -/

namespace MethodCode

variable {σ α β : Type}

/-- A call returns, with an answer or with an error. -/
def Returns (x : Except Fault α) : Prop :=
  Fails (fun f => ∃ e, f = .error e) x

/-- The second call gives what the first one returns, if that returns at all. -/
def Agrees (x y : Except Fault α) : Prop :=
  Returns x → y = x

namespace Agrees

theorem refl (x : Except Fault α) : Agrees x x := fun _ => rfl

theorem bind {x y : Except Fault α} {f g : α → Except Fault β} (hx : Agrees x y)
    (hf : ∀ a, Agrees (f a) (g a)) : Agrees (x >>= f) (y >>= g) := by
  intro h
  cases x with
  | error e =>
      rw [hx fun _ he => h _ (congrArg Except.error (Except.error.inj he))]
      rfl
  | ok a =>
      rw [hx nofun]
      exact hf a h

theorem map {x y : Except Fault α} (f : α → β) (h : Agrees x y) : Agrees (f <$> x) (f <$> y) :=
  h.bind fun _ => .refl _

/-! What is decoded remembers its mode, so there the second call gives the image `u` of what the first one
returns. -/

section Image

variable {x y : Except Fault α} {u : α → α} {v : β → β}

theorem image_bind {f : α → Except Fault β} {g : α → Except Fault β} (hx : Agrees x y)
    (hf : ∀ a, Agrees (v <$> f a) (g a)) : Agrees (v <$> (x >>= f)) (y >>= g) := by
  rw [map_bind]
  exact hx.bind hf

theorem image_pure {f : α → β} (hf : ∀ a, v (f a) = f (u a)) (h : Agrees (u <$> x) y) :
    Agrees (v <$> (do return f (← x))) (do return f (← y)) := by
  have himage : (v <$> (do return f (← x))) = f <$> u <$> x := by
    cases x with
    | error e => rfl
    | ok a => exact congrArg Except.ok (hf a)
  rw [himage]
  exact h.map f

/-- Seen through `u`, both calls give the same. -/
theorem image_image (h : Agrees (u <$> x) y) (hu : ∀ a, u (u a) = u a) : Agrees (u <$> x) (u <$> y) := by
  intro hreturns
  rw [h hreturns]
  cases x with
  | error e => rfl
  | ok a => exact congrArg Except.ok (hu a)

end Image

end Agrees

/-- A test that gives no error can be left out. -/
theorem agrees_check {mode : Mode} {test test' : Except Fault Unit} (h : Fails Fault.IsBreach test) :
    Agrees (mode.check test) (Mode.unchecked.check test') := by
  cases mode with
  | unchecked => exact .refl _
  | checked =>
      intro hreturns
      cases test with
      | ok _ => rfl
      | error f =>
          obtain ⟨e, he⟩ := hreturns f rfl
          exact absurd he (h f rfl e)

/-! ### Cursors -/

namespace Cursor

/-- The same cursor, testing nothing. -/
def unchecked (c : Cursor) : Cursor := { c with mode := .unchecked }

variable (c : Cursor) (op : Opcode) (wide : Bool)

theorem agrees_claimFormat : Agrees (c.claimFormat op wide) (c.unchecked.claimFormat op wide) :=
  agrees_check (fails_claimFormat { c with mode := .checked } op wide)

theorem agrees_claimIndexSize (size : Nat) :
    Agrees (c.claimIndexSize size op wide) (c.unchecked.claimIndexSize size op wide) :=
  agrees_check (fails_claimIndexSize { c with mode := .checked } op wide size)

theorem agrees_claimOffsetSize (size : Nat) :
    Agrees (c.claimOffsetSize size op wide) (c.unchecked.claimOffsetSize size op wide) :=
  agrees_check (fails_claimOffsetSize { c with mode := .checked } op wide size)

theorem agrees_claimConstantSize (size offset : Nat) :
    Agrees (c.claimConstantSize size offset op wide) (c.unchecked.claimConstantSize size offset op wide) :=
  agrees_check (fails_claimConstantSize { c with mode := .checked } op wide size offset)

theorem agrees_claimNativeIndex : Agrees (c.claimNativeIndex op wide) (c.unchecked.claimNativeIndex op wide) :=
  agrees_check (fails_claimNativeIndex { c with mode := .checked } op wide)

theorem agrees_claimNativeWideIndex :
    Agrees (c.claimNativeWideIndex op) (c.unchecked.claimNativeWideIndex op) :=
  agrees_check (fails_claimNativeWideIndex { c with mode := .checked } op)

theorem agrees_indexU1 : Agrees (c.indexU1 op) (c.unchecked.indexU1 op) :=
  .bind (c.agrees_claimFormat op false) fun _ => .bind (c.agrees_claimIndexSize op false 1) fun _ => .refl _

theorem agrees_indexU2 : Agrees (c.indexU2 op wide) (c.unchecked.indexU2 op wide) :=
  .bind (c.agrees_claimFormat op wide) fun _ => .bind (c.agrees_claimIndexSize op wide 2) fun _ => .refl _

theorem agrees_cacheIndexU2 (tag : UInt32) :
    Agrees (c.cacheIndexU2 op tag) (c.unchecked.cacheIndexU2 op tag) :=
  .bind (c.agrees_claimFormat op false) fun _ => .bind (c.agrees_claimIndexSize op false 2) fun _ =>
    .bind (c.agrees_claimNativeIndex op false) fun _ => .refl _

theorem agrees_indexU4 : Agrees (c.indexU4 op) (c.unchecked.indexU4 op) :=
  .bind (c.agrees_claimFormat op false) fun _ => .bind (c.agrees_claimIndexSize op false 4) fun _ =>
    .bind (c.agrees_claimNativeWideIndex op) fun _ => .refl _

theorem agrees_offsetS2 : Agrees (c.offsetS2 op) (c.unchecked.offsetS2 op) :=
  .bind (c.agrees_claimFormat op false) fun _ => .bind (c.agrees_claimOffsetSize op false 2) fun _ => .refl _

theorem agrees_offsetS4 : Agrees (c.offsetS4 op) (c.unchecked.offsetS4 op) :=
  .bind (c.agrees_claimFormat op false) fun _ => .bind (c.agrees_claimOffsetSize op false 4) fun _ => .refl _

theorem agrees_constantS1 (offset : Nat) : Agrees (c.constantS1 offset op) (c.unchecked.constantS1 offset op) :=
  .bind (c.agrees_claimFormat op false) fun _ => .bind (c.agrees_claimConstantSize op false 1 offset) fun _ =>
    .refl _

theorem agrees_constantS2 (offset : Nat) :
    Agrees (c.constantS2 offset op wide) (c.unchecked.constantS2 offset op wide) :=
  .bind (c.agrees_claimFormat op wide) fun _ => .bind (c.agrees_claimConstantSize op wide 2 offset) fun _ =>
    .refl _

theorem agrees_branchDestination : Agrees c.branchDestination c.unchecked.branchDestination := by
  refine .bind (.refl c.rawOpcode) fun raw => .bind (.refl (c.formats.flags raw false)) fun flags => ?_
  split
  · exact .refl _
  · split
    · exact .bind (.map _ (c.agrees_offsetS4 raw)) fun _ => .refl _
    · exact .bind (.map _ (c.agrees_offsetS2 raw)) fun _ => .refl _

end Cursor

end MethodCode
