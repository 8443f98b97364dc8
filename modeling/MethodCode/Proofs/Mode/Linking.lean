import MethodCode.Linking.Constants
import MethodCode.Linking.Resolver
import MethodCode.Linking.Rewrite
import MethodCode.Proofs.Mode.Decoding

/-! Linking in checked and unchecked mode. Where checked linking returns, unchecked linking gives the same
answer and leaves the same state. Main statements: this holds of resolution and of quickening, whatever the
resolver does; rewriting tests no claims, so it is the same in both modes. -/

namespace MethodCode

variable {σ α β : Type}

/-- Where the first step returns, the second one gives the same answer and leaves the same state. -/
def StepAgrees (x y : ExceptT Fault (StateM σ) α) : Prop :=
  ∀ s, Returns (exec x s).1 → exec y s = exec x s

namespace StepAgrees

theorem refl (x : ExceptT Fault (StateM σ) α) : StepAgrees x x := fun _ _ => rfl

theorem lift {x y : Except Fault α} (h : Agrees x y) :
    StepAgrees (liftM x : ExceptT Fault (StateM σ) α) (liftM y) := by
  intro s hreturns
  rw [exec_liftM] at hreturns ⊢
  rw [exec_liftM, h hreturns]

theorem bind {x y : ExceptT Fault (StateM σ) α} {f g : α → ExceptT Fault (StateM σ) β}
    (hx : StepAgrees x y) (hf : ∀ a, StepAgrees (f a) (g a)) : StepAgrees (x >>= f) (y >>= g) := by
  intro s
  have hx := hx s
  rw [exec_bind, exec_bind]
  rcases hexec : exec x s with ⟨e | a, t⟩
  · rw [hexec] at hx
    intro hreturns
    rw [hx fun _ he => hreturns _ (congrArg Except.error (Except.error.inj he))]
  · rw [hexec] at hx
    rw [hx nofun]
    exact hf a t

/-- A step that goes on with the image `u` of what the other one goes on with. -/
theorem bind_image {x y : Except Fault α} {f g : α → ExceptT Fault (StateM σ) β} {u : α → α}
    (hx : Agrees (u <$> x) y) (hf : ∀ a, StepAgrees (f a) (g (u a))) :
    StepAgrees (liftM x >>= f) (liftM y >>= g) := by
  intro s
  rw [exec_bind, exec_bind, exec_liftM, exec_liftM]
  cases x with
  | error e =>
      intro hreturns
      rw [hx fun _ he => hreturns _ (congrArg Except.error (Except.error.inj he))]
      rfl
  | ok a =>
      rw [hx nofun]
      exact hf a s

end StepAgrees

/-! ### Resolution -/

theorem MemberRef.agrees_staticTarget (r : MemberRef) (resolver : Resolver) (thread : Thread) :
    StepAgrees (r.staticTargetBy resolver thread) (r.unchecked.staticTargetBy resolver thread) :=
  .bind (.lift r.agrees_symbolicRef) fun _ => .refl _

theorem MemberRef.agrees_resolveField (r : MemberRef) (resolver : Resolver) (thread : Thread) :
    StepAgrees (r.resolveFieldBy resolver thread) (r.unchecked.resolveFieldBy resolver thread) := by
  refine .bind (.refl (liftM r.fieldAccess)) fun access => ?_
  dsimp only
  split
  · exact .bind (.refl (liftM r.cursor.name)) fun _ => .bind (.refl _) fun _ =>
      .bind (.lift r.agrees_symbolicRef) fun _ => .refl _
  · exact .bind (.lift r.agrees_symbolicRef) fun _ => .refl _

theorem LoadConstant.agrees_resolve (l : LoadConstant) (thread : Thread) :
    StepAgrees (l.resolve thread) (l.unchecked.resolve thread) :=
  .bind (.refl (liftM l.boundBody)) fun _ => .bind (.lift l.agrees_rawIndex) fun _ => .refl _

/-! ### Quickening -/

namespace LinkM

variable (mode : Mode) (body : MethodBody) (method : Method) (bci : Nat) (raw : Opcode) (resolver : Resolver)
  (thread : Thread)

theorem agrees_fastAccess :
    StepAgrees (fastAccessBy body mode bci raw resolver thread)
      (fastAccessBy body .unchecked bci raw resolver thread) :=
  .bind_image (MemberRef.agrees_decode mode body bci) fun access =>
    .bind (access.agrees_resolveField resolver thread) fun _ => .refl _

theorem agrees_fastForm :
    StepAgrees (fastFormBy body mode bci raw resolver thread)
      (fastFormBy body .unchecked bci raw resolver thread) := by
  unfold fastFormBy
  split
  · exact .bind (agrees_fastAccess mode body bci raw resolver thread) fun _ => .refl _
  · exact .refl _

theorem agrees_quicken :
    StepAgrees (quickenBy mode method bci resolver thread) (quickenBy .unchecked method bci resolver thread) := by
  refine .bind (.refl (bodyOf method)) fun body =>
    .bind (.refl (liftM (body.cursor mode bci).rawOpcode)) fun raw =>
      .bind (agrees_fastForm mode body bci raw resolver thread) fun form => ?_
  cases form with
  | none => exact .refl _
  | some fast =>
      exact .bind (.lift (agrees_check ((body.cursor mode bci).fails_lengthChange raw fast bci)))
        fun _ => .refl _

end LinkM

/-! ### Rewriting -/

namespace Rewriting

/-- The pass of `rewriteFrom` with cursors of any mode. -/
def rewriteFromIn (mode : Mode) (pool : Pool) (limit bci : Nat) : RewriteM Unit := do
  if _h : bci < limit then
    let cursor : Cursor := ⟨mode, .standard, (← get).code, none, bci⟩
    match ← cursor.checkedLength with
    | none => throw (.of (.truncated bci))
    | some 0 => return
    | some (n + 1) =>
      rewriteSite pool cursor
      rewriteFromIn mode pool limit (bci + n + 1)
termination_by limit - bci

theorem rewriteFromIn_eq (mode : Mode) (pool : Pool) (limit bci : Nat) :
    rewriteFromIn mode pool limit bci = rewriteFrom pool limit bci := by
  induction bci using rewriteFrom.induct limit with
  | case1 bci h ih =>
      rw [rewriteFromIn, rewriteFrom, dif_pos h, dif_pos h]
      refine bind_congr fun s => ?_
      refine bind_congr fun length => ?_
      rcases length with _ | _ | n
      · rfl
      · rfl
      · exact bind_congr fun _ => ih n
  | case2 bci h =>
      rw [rewriteFromIn, rewriteFrom, dif_neg h, dif_neg h]

end Rewriting

/-- Rewriting in any mode. -/
def rewriteIn (mode : Mode) (code : Code) (pool : Pool) (allocator : Allocator) : Rewritten :=
  match (Rewriting.rewriteFromIn mode pool code.size 0).run ⟨code, allocator, ⟨0, 0, 0, 0⟩, []⟩ with
  | (.ok (), s) =>
    ⟨.ok s.summary, s.code, s.allocator, s.events ++ [.rewrote s.summary s.allocator.size]⟩
  | (.error fault, s) => ⟨.error fault, code, allocator, s.events⟩

/-- Rewriting makes no claims that a mode would test. -/
theorem rewriteIn_eq (mode : Mode) (code : Code) (pool : Pool) (allocator : Allocator) :
    rewriteIn mode code pool allocator = rewrite code pool allocator := by
  rw [rewriteIn, Rewriting.rewriteFromIn_eq]
  rfl

end MethodCode
