import MethodCode.Proofs.Execution

/-! The failures that a call can end in. `Fails` bounds them by a property, and calls are put together from
parts that keep to the bound. The bound most used is that a call gives no error: it may still break a
contract or reach past the end of the code. -/

namespace MethodCode

variable {ε α β : Type}

/-- Whatever a call fails with satisfies `P`. -/
def Fails (P : ε → Prop) (x : Except ε α) : Prop :=
  ∀ e, x = .error e → P e

/-- A failure is no error: it is a broken contract or a read past the end of the code. -/
def Fault.IsBreach (f : Fault) : Prop := ∀ e, f ≠ .error e

namespace Fails

variable {P Q : ε → Prop}

theorem pure (a : α) : Fails P (Pure.pure a : Except ε α) := nofun

theorem throw {e : ε} (h : P e) : Fails P (MonadExcept.throw e : Except ε α) := by
  rintro _ ⟨⟩
  exact h

theorem bind {x : Except ε α} {f : α → Except ε β} (hx : Fails P x) (hf : ∀ a, Fails P (f a)) :
    Fails P (x >>= f) := by
  cases x with
  | error e => exact fun _ h => hx _ (congrArg Except.error (Except.error.inj h))
  | ok a => exact hf a

theorem mono {x : Except ε α} (h : Fails P x) (hPQ : ∀ e, P e → Q e) : Fails Q x :=
  fun e he => hPQ e (h e he)

end Fails

theorem Fault.isBreach_violation (v : Violation) : (Fault.violation v).IsBreach := nofun

theorem Fault.isBreach_outOfBounds : Fault.outOfBounds.IsBreach := nofun

theorem Fails.of_outOfBounds {x : Except Fault α} (h : Fails (· = .outOfBounds) x) : Fails Fault.IsBreach x :=
  h.mono fun _ hf => hf ▸ Fault.isBreach_outOfBounds

theorem fails_ensure {condition : Bool} {v : Violation} : Fails Fault.IsBreach (ensure condition v) := by
  cases condition with
  | true => exact .pure ()
  | false => exact .throw (Fault.isBreach_violation v)

end MethodCode
