import MethodCode.Fault
import Mathlib.Order.Defs.Unbundled

/-! Running steps that may fail and change a state. Linking and resolution are both written as such
steps; `exec` names what a step answers and the state it leaves. A step that fails keeps what it had
changed until then, so the state is there in either case. -/

namespace MethodCode

instance decidableEqExcept {ε α : Type} [DecidableEq ε] [DecidableEq α] : DecidableEq (Except ε α)
  | .ok a, .ok b => decidable_of_iff (a = b) (by simp)
  | .error e, .error f => decidable_of_iff (e = f) (by simp)
  | .ok _, .error _ => isFalse (by simp)
  | .error _, .ok _ => isFalse (by simp)

variable {σ α β : Type}

/-! ### Failures -/

@[simp] theorem ok_bind {ε : Type} (a : α) (f : α → Except ε β) : (Except.ok a >>= f) = f a := rfl

@[simp] theorem error_bind {ε : Type} (e : ε) (f : α → Except ε β) :
    (Except.error e >>= f) = .error e := rfl

@[simp] theorem mapError_ok {ε ε' : Type} (f : ε → ε') (a : α) :
    (Except.ok a).mapError f = .ok a := rfl

@[simp] theorem mapError_error {ε ε' : Type} (f : ε → ε') (e : ε) :
    (Except.error e : Except ε α).mapError f = .error (f e) := rfl

theorem bind_eq_ok {ε : Type} {x : Except ε α} {f : α → Except ε β} {b : β} :
    x >>= f = .ok b ↔ ∃ a, x = .ok a ∧ f a = .ok b := by
  cases x <;> simp

/-! ### Steps -/

/-- What a step answers, and the state it leaves. -/
def exec (x : ExceptT Fault (StateM σ) α) (s : σ) : Except Fault α × σ := x.run s

@[simp] theorem exec_pure (a : α) (s : σ) :
    exec (pure a : ExceptT Fault (StateM σ) α) s = (.ok a, s) := rfl

@[simp] theorem exec_throw (f : Fault) (s : σ) :
    exec (throw f : ExceptT Fault (StateM σ) α) s = (.error f, s) := rfl

@[simp] theorem exec_get (s : σ) : exec (get : ExceptT Fault (StateM σ) σ) s = (.ok s, s) := rfl

@[simp] theorem exec_modify (g : σ → σ) (s : σ) :
    exec (modify g : ExceptT Fault (StateM σ) Unit) s = (.ok (), g s) := rfl

@[simp] theorem exec_liftM (e : Except Fault α) (s : σ) :
    exec (liftM e : ExceptT Fault (StateM σ) α) s = (e, s) := rfl

@[simp] theorem exec_liftM_error (e : Except Error α) (s : σ) :
    exec (liftM e : ExceptT Fault (StateM σ) α) s = (e.mapError .error, s) := rfl

private theorem run_bind_apply (x : StateM σ α) (f : α → StateM σ β) (s : σ) :
    (x >>= f) s = f (x s).1 (x s).2 := rfl

theorem exec_bind (x : ExceptT Fault (StateM σ) α) (f : α → ExceptT Fault (StateM σ) β) (s : σ) :
    exec (x >>= f) s =
      match exec x s with
      | (.ok a, t) => exec (f a) t
      | (.error e, t) => (.error e, t) := by
  unfold exec
  rw [ExceptT.run_bind, run_bind_apply]
  rcases (x.run s : Except Fault α × σ) with ⟨_ | _, _⟩ <;> rfl

theorem exec_tryCatch (x : ExceptT Fault (StateM σ) α) (handle : Fault → ExceptT Fault (StateM σ) α)
    (s : σ) :
    exec (tryCatch x handle) s =
      match exec x s with
      | (.ok a, t) => (.ok a, t)
      | (.error e, t) => exec (handle e) t := by
  unfold exec
  rw [ExceptT.run_tryCatch, run_bind_apply]
  rcases (x.run s : Except Fault α × σ) with ⟨_ | _, _⟩ <;> rfl

/-- A sequence of steps answers when each of them does. -/
theorem exec_bind_eq_ok {x : ExceptT Fault (StateM σ) α} {f : α → ExceptT Fault (StateM σ) β}
    {s t : σ} {b : β} :
    exec (x >>= f) s = (.ok b, t) ↔ ∃ a u, exec x s = (.ok a, u) ∧ exec (f a) u = (.ok b, t) := by
  rw [exec_bind]
  constructor
  · intro h
    rcases hx : exec x s with ⟨_ | a, u⟩
    · simp [hx] at h
    · rw [hx] at h
      exact ⟨a, u, rfl, h⟩
  · rintro ⟨a, u, hx, hf⟩
    rw [hx]
    exact hf

/-! ### Sequences by their first step -/

theorem exec_get_bind (f : σ → ExceptT Fault (StateM σ) β) (s : σ) :
    exec (get >>= f) s = exec (f s) s := by
  rw [exec_bind, exec_get]

theorem exec_liftM_bind_eq_ok {e : Except Fault α} {f : α → ExceptT Fault (StateM σ) β} {s t : σ}
    {b : β} : exec (liftM e >>= f) s = (.ok b, t) ↔ ∃ a, e = .ok a ∧ exec (f a) s = (.ok b, t) := by
  rw [exec_bind, exec_liftM]
  cases e <;> simp

theorem exec_liftM_error_bind_eq_ok {e : Except Error α} {f : α → ExceptT Fault (StateM σ) β} {s t : σ}
    {b : β} : exec (liftM e >>= f) s = (.ok b, t) ↔ ∃ a, e = .ok a ∧ exec (f a) s = (.ok b, t) := by
  rw [exec_bind, exec_liftM_error]
  cases e <;> simp

theorem exec_map (f : α → β) (x : ExceptT Fault (StateM σ) α) (s : σ) :
    exec (f <$> x) s = ((exec x s).1.map f, (exec x s).2) := by
  rw [← bind_pure_comp, exec_bind]
  rcases exec x s with ⟨_ | _, _⟩ <;> rfl

/-! ### What a step keeps -/

/-- Whatever a step answers, the state that it leaves is related to the state it has found. -/
def Keeps (R : σ → σ → Prop) (x : ExceptT Fault (StateM σ) α) : Prop :=
  ∀ s, R s (exec x s).2

namespace Keeps

variable {R : σ → σ → Prop} [IsPreorder σ R]

theorem pure (a : α) : Keeps R (Pure.pure a : ExceptT Fault (StateM σ) α) :=
  fun s => refl_of R s

theorem throw (f : Fault) : Keeps R (MonadExcept.throw f : ExceptT Fault (StateM σ) α) :=
  fun s => refl_of R s

theorem get : Keeps R (MonadState.get : ExceptT Fault (StateM σ) σ) :=
  fun s => refl_of R s

theorem lift (e : Except Fault α) : Keeps R (liftM e : ExceptT Fault (StateM σ) α) :=
  fun s => refl_of R s

theorem liftError (e : Except Error α) : Keeps R (liftM e : ExceptT Fault (StateM σ) α) :=
  fun s => refl_of R s

theorem bind {x : ExceptT Fault (StateM σ) α} {f : α → ExceptT Fault (StateM σ) β} (hx : Keeps R x)
    (hf : ∀ a, Keeps R (f a)) : Keeps R (x >>= f) := by
  intro s
  have hfirst := hx s
  rw [exec_bind]
  cases hexec : exec x s with
  | mk answer t =>
      rw [hexec] at hfirst
      cases answer with
      | error f => exact hfirst
      | ok a => exact trans_of R hfirst (hf a t)

/-- A reading comes first, and what comes next may use what was read. -/
theorem lift_bind {e : Except Fault β} {f : β → ExceptT Fault (StateM σ) α} {s : σ}
    (hf : ∀ b, e = .ok b → R s (exec (f b) s).2) : R s (exec (liftM e >>= f) s).2 := by
  rw [exec_bind, exec_liftM]
  cases e with
  | error g => exact refl_of R s
  | ok b => exact hf b rfl

theorem tryCatch {x : ExceptT Fault (StateM σ) α} {handle : Fault → ExceptT Fault (StateM σ) α}
    (hx : Keeps R x) (hf : ∀ f, Keeps R (handle f)) : Keeps R (tryCatchThe Fault x handle) := by
  intro s
  have hfirst := hx s
  change R s (exec (MonadExcept.tryCatch x handle) s).2
  rw [exec_tryCatch]
  cases hexec : exec x s with
  | mk answer t =>
      rw [hexec] at hfirst
      cases answer with
      | error f => exact trans_of R hfirst (hf f t)
      | ok a => exact hfirst

end Keeps

end MethodCode
