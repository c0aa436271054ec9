import StyleValue.Proofs.HostScripts

set_option autoImplicit false

namespace StyleValue

namespace Eval

variable {α β : Type} {m m' : Eval α}

/-- The second step ends as the first one does, unless the first one gives up. -/
def Approximates (m m' : Eval α) : Prop := ∀ ctx, m.run ctx = .tooDeep ∨ m'.run ctx = m.run ctx

theorem Approximates.refl (m : Eval α) : m.Approximates m := fun _ => .inr rfl

theorem Approximates.result {ctx : Context} {r : Except Fault α} (h : m.Approximates m')
    (hr : (m.run ctx).result? = some r) : (m'.run ctx).result? = some r := by
  rcases h ctx with hdeep | hsame
  · rw [hdeep] at hr
    cases hr
  · rw [hsame]
    exact hr

theorem Approximates.follows (h : m.Approximates m') (exempt : Fault → Prop) (ctx : Context) :
    (m.run ctx).Follows exempt (m'.run ctx) :=
  .of_result fun _ => h.result

theorem Approximates.bind {f f' : α → Eval β} (hm : m.Approximates m')
    (hf : ∀ a, (f a).Approximates (f' a)) : (m >>= f).Approximates (m' >>= f') := by
  intro ctx
  rw [run_bind, run_bind]
  rcases hm ctx with h | h
  · exact .inl (by rw [h])
  · rw [h]
    cases m.run ctx with
    | value a after => exact hf a after
    | fault e after => exact .inr rfl
    | tooDeep => exact .inl rfl

theorem Approximates.mapM {g g' : α → Eval β} (hg : ∀ a, (g a).Approximates (g' a)) (as : List α) :
    (as.mapM g).Approximates (as.mapM g') := by
  induction as with
  | nil => exact .refl _
  | cons a as ih =>
    rw [List.mapM_cons, List.mapM_cons]
    exact (hg a).bind fun b => ih.bind fun bs => .refl _

theorem Approximates.attempt (h : m.Approximates m') : m.attempt.Approximates m'.attempt := by
  intro ctx
  rw [run_attempt, run_attempt]
  rcases h ctx with h | h
  · exact .inl (by rw [h])
  · exact .inr (by rw [h])

theorem Approximates.between (h : m.Approximates m') (before after : Context → Context) :
    (between before after m).Approximates (between before after m') := by
  intro ctx
  rw [run_between, run_between]
  rcases h (before ctx) with h | h
  · exact .inl (by rw [h])
  · exact .inr (by rw [h])

variable {eval eval' : Expr → Eval Expr}

theorem approximates_resolve (h : ∀ e, (eval e).Approximates (eval' e)) (name : String) (s : Span) :
    (resolve eval name s).Approximates (resolve eval' name s) := by
  unfold resolve
  refine (Approximates.refl context).bind fun ctx => ?_
  split
  · exact .refl _
  · split
    · exact .refl _
    · exact ((h _).between _ _).bind fun e => .refl _

end Eval

theorem Script.approximates_run {eval eval' : Expr → Eval Expr} (h : ∀ e, (eval e).Approximates (eval' e))
    (script : Script) : (script.run eval).Approximates (script.run eval') := by
  induction script with
  | done r => exact .refl _
  | read next ih => exact (Eval.Approximates.refl _).bind fun ctx => ih ctx.fields
  | write f next ih => exact (Eval.Approximates.refl _).bind fun _ => ih
  | evaluate e next ih => exact (h e).attempt.bind fun r => ih r

namespace Library.Scripted

variable {lib : Library} (h : lib.Scripted)
include h

section Step

variable {eval eval' : Expr → Eval Expr} (heval : ∀ e, (eval e).Approximates (eval' e))
include heval

theorem approximates_dispatch (inv : Invocation) :
    (Eval.dispatch lib eval inv).Approximates (Eval.dispatch lib eval' inv) := by
  cases hf : lib.find? inv.name with
  | none => exact fun ctx => .inr (by rw [Eval.run_dispatch_unknown inv hf, Eval.run_dispatch_unknown inv hf])
  | some f =>
    obtain ⟨script, hscript⟩ := h inv.name f hf
    rw [Eval.dispatch_known inv hf, Eval.dispatch_known inv hf, hscript, hscript]
    exact ((script inv).approximates_run heval).bind fun e => .refl _

theorem approximates_finish (e : Expr) (values : List Expr) :
    (e.finish lib eval values).Approximates (e.finish lib eval' values) := by
  unfold Expr.finish
  split
  · exact .refl _
  · exact .refl _
  · exact h.approximates_dispatch heval _
  · exact .refl _
  · exact .refl _

theorem approximates_step (e : Expr) : (e.step lib eval).Approximates (e.step lib eval') := by
  intro ctx
  cases he : e.isReference with
  | true =>
    obtain ⟨name, s, rfl⟩ := Expr.eq_reference he
    exact Eval.approximates_resolve heval name s ctx
  | false =>
    rw [Expr.step_of_operands lib eval he, Expr.step_of_operands lib eval' he]
    exact (Eval.Approximates.mapM heval _).bind (h.approximates_finish heval e) ctx

end Step

theorem approximates_evaluate {depth depth' : Nat} (hle : depth ≤ depth') (e : Expr) :
    (e.evaluate lib depth).Approximates (e.evaluate lib depth') := by
  induction depth generalizing depth' e with
  | zero => exact fun ctx => .inl rfl
  | succ depth ih =>
    obtain ⟨depth', rfl⟩ : ∃ d, depth' = d + 1 := ⟨depth' - 1, by omega⟩
    exact h.approximates_step (ih (Nat.le_of_succ_le_succ hle)) e

end Library.Scripted

end StyleValue
