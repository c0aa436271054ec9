import Mathlib.Data.List.Chain
import StyleValue.Proofs.DepthBounds

set_option autoImplicit false

namespace StyleValue

structure Evaluation where
  expr : Expr
  ctx : Context

namespace Evaluation

def run (lib : Library) (ev : Evaluation) (depth : Nat) : Outcome Expr :=
  (ev.expr.evaluate lib depth).run ev.ctx

/-- One evaluation asks for the other itself: for the value of a variable that is not pending, or for an
operand when those before it have their values. -/
inductive Calls (lib : Library) : Evaluation → Evaluation → Prop
  | value {name : String} {s : Span} {value : Expr} {ctx : Context} (hpending : name ∉ ctx.pending)
      (hvalue : ctx.scopes.lookup name = some value) :
      Calls lib ⟨.reference name s, ctx⟩ ⟨value, ctx.pend name⟩
  | operand {e x : Expr} {ctx : Context} (before after : List Expr)
      (hoperands : e.operands ctx.options.strictMath = before ++ x :: after)
      (hbefore : ∀ y ∈ before, ∃ v, y.Yields lib ctx (.ok v)) : Calls lib ⟨e, ctx⟩ ⟨x, ctx⟩

/-- Where a step of a relation costs one of depth, what gives up at a depth is what has a chain of that length. -/
theorem run_tooDeep_iff_of_step {lib : Library} {R : Evaluation → Evaluation → Prop}
    (hdown : ∀ {ev depth}, ev.run lib (depth + 1) = .tooDeep → ∃ ev', R ev ev' ∧ ev'.run lib depth = .tooDeep)
    (hup : ∀ {ev ev' depth}, R ev ev' → ev'.run lib depth = .tooDeep → ev.run lib (depth + 1) = .tooDeep)
    {ev : Evaluation} {depth : Nat} :
    ev.run lib depth = .tooDeep ↔ ∃ below, (ev :: below).IsChain R ∧ below.length = depth := by
  constructor
  · intro hdeep
    induction depth generalizing ev with
    | zero => exact ⟨[], .singleton ev, rfl⟩
    | succ depth ih =>
      obtain ⟨ev', hstep, hdeep'⟩ := hdown hdeep
      obtain ⟨below, hchain, hlength⟩ := ih hdeep'
      exact ⟨ev' :: below, .cons_cons hstep hchain, congrArg Nat.succ hlength⟩
  · rintro ⟨below, hchain, rfl⟩
    induction below generalizing ev with
    | nil => rfl
    | cons ev' below ih =>
      obtain ⟨hstep, hchain⟩ := List.isChain_cons_cons.mp hchain
      exact hup hstep (ih hchain)

/-- One more than the number of bound names, times the greatest height of the expression and the values. -/
def depthLimit (ev : Evaluation) : Nat :=
  (ev.ctx.scopes.bound.card + 1) * max ev.expr.height ev.ctx.scopes.valueHeight

end Evaluation

namespace Library.Standard

variable {lib : Library} (h : lib.Standard)
include h

theorem run_of_yields {e v : Expr} {ctx : Context} (he : e.Yields lib ctx (.ok v)) (depth : Nat) :
    (e.evaluate lib depth).run ctx = .tooDeep ∨ (e.evaluate lib depth).run ctx = .value v ctx := by
  cases hres : ((e.evaluate lib depth).run ctx).result? with
  | none => exact .inl (Outcome.eq_tooDeep_iff.mpr hres)
  | some r =>
    obtain rfl := (h.yields_of_result hres).unique he
    exact .inr ((h.restores_evaluate depth e).run_eq hres)

theorem run_tooDeep_of_calls {ev ev' : Evaluation} {depth : Nat} (hcalls : ev.Calls lib ev')
    (hdeep : ev'.run lib depth = .tooDeep) : ev.run lib (depth + 1) = .tooDeep := by
  cases hcalls with
  | @value name s value ctx hp hv =>
    have hresult := Eval.result_resolve_bound hp hv (Expr.evaluate lib depth) s
    rw [show (value.evaluate lib depth).run (ctx.pend name) = .tooDeep from hdeep] at hresult
    exact Outcome.eq_tooDeep_iff.mpr hresult
  | @operand e x ctx before after hoperands hbefore =>
    have href : e.isReference = false := by
      cases e with
      | reference name s => cases before <;> cases hoperands
      | _ => rfl
    have hmap : ((before ++ x :: after).mapM (Expr.evaluate lib depth)).run ctx = .tooDeep := by
      refine Eval.run_mapM_tooDeep (fun y hy => ?_) hdeep
      obtain ⟨v, hv⟩ := hbefore y hy
      exact (h.run_of_yields hv depth).imp id fun hrun => ⟨v, hrun⟩
    change (e.step lib (Expr.evaluate lib depth)).run ctx = .tooDeep
    rw [Expr.step_of_operands lib _ href, hoperands, Eval.run_bind, hmap]

theorem exists_calls_of_tooDeep {ev : Evaluation} {depth : Nat}
    (hdeep : ev.run lib (depth + 1) = .tooDeep) :
    ∃ ev' : Evaluation, ev.Calls lib ev' ∧ ev'.run lib depth = .tooDeep := by
  obtain ⟨e, ctx⟩ := ev
  cases href : e.isReference with
  | true =>
    obtain ⟨name, s, rfl⟩ := Expr.eq_reference href
    obtain ⟨hp, value, hv, hvalue⟩ := Eval.tooDeep_of_resolve hdeep
    exact ⟨⟨value, ctx.pend name⟩, .value hp hv, hvalue⟩
  | false =>
    obtain ⟨before, x, after, hoperands, hbefore, hx⟩ :=
      h.tooDeep_of_step (h.restores_evaluate depth) href hdeep
    refine ⟨⟨x, ctx⟩, .operand before after hoperands fun y hy => ?_, hx⟩
    obtain ⟨v, hv⟩ := hbefore y hy
    exact ⟨v, h.yields_of_run hv⟩

theorem run_tooDeep_iff {ev : Evaluation} {depth : Nat} :
    ev.run lib depth = .tooDeep ↔
      ∃ calls, (ev :: calls).IsChain (Evaluation.Calls lib) ∧ calls.length = depth :=
  Evaluation.run_tooDeep_iff_of_step h.exists_calls_of_tooDeep h.run_tooDeep_of_calls

theorem length_le_of_isChain {ev : Evaluation} {calls : List Evaluation} {depth : Nat}
    {r : Except Fault Expr} (hr : (ev.run lib depth).result? = some r)
    (hchain : (ev :: calls).IsChain (Evaluation.Calls lib)) : (ev :: calls).length ≤ depth := by
  by_contra hlength
  have hle : depth ≤ calls.length := by
    rw [List.length_cons] at hlength
    omega
  have hresult : (ev.run lib calls.length).result? = some r := h.result_mono hle hr
  rw [h.run_tooDeep_iff.mpr ⟨calls, hchain, rfl⟩] at hresult
  cases hresult

end Library.Standard

theorem nesting_is_bounded {lib : Library} (h : lib.Standard) (ev : Evaluation) :
    (∃ r, ∀ depth, ev.depthLimit ≤ depth → ev.run lib depth = .ofResult r ev.ctx) ∧
      ∀ calls, (ev :: calls).IsChain (Evaluation.Calls lib) → (ev :: calls).length ≤ ev.depthLimit := by
  have hlimit : ev.run lib ev.depthLimit ≠ .tooDeep := h.run_ne_tooDeep_of_height (Nat.le_refl _)
  rw [ne_eq, Outcome.eq_tooDeep_iff, ← ne_eq, Option.ne_none_iff_exists'] at hlimit
  obtain ⟨r, hr⟩ := hlimit
  constructor
  · exact ⟨r, fun depth hle => (h.restores_evaluate depth ev.expr).run_eq (h.result_mono hle hr)⟩
  · exact fun calls hchain => h.length_le_of_isChain hr hchain

/-- The value of a variable is a call with the variable in it. The limit is reached as the cycle is found. -/
theorem nesting_is_bounded_in_cycle :
    let call (name : String) : Expr := .call ⟨name, ⟨0, 1⟩⟩ [.reference "a" ⟨2, 4⟩] ⟨0, 5⟩
    let ctx : Context := { options := { strictMath := true }, scopes := Scopes.define {} "a" (call "f") }
    let ev : Evaluation := ⟨call "g", ctx⟩
    let calls : List Evaluation := [⟨.reference "a" ⟨2, 4⟩, ctx⟩, ⟨call "f", ctx.pend "a"⟩,
      ⟨.reference "a" ⟨2, 4⟩, ctx.pend "a"⟩]
    (∃ r, ev.run .builtin 4 = .ofResult r ctx) ∧ (ev :: calls).IsChain (Evaluation.Calls .builtin) ∧
      (ev :: calls).length ≤ ev.depthLimit ∧ ev.depthLimit = 4 := by
  intro call ctx ev calls
  have hlimit : ev.depthLimit = 4 := by decide
  have hchain : (ev :: calls).IsChain (Evaluation.Calls .builtin) := by
    refine .cons_cons (.operand [] [] rfl (by simp)) (.cons_cons (.value (by decide) rfl) ?_)
    exact .cons_cons (.operand [] [] rfl (by simp)) (.singleton _)
  obtain ⟨⟨r, hr⟩, hlength⟩ := nesting_is_bounded (.inr rfl) ev
  exact ⟨⟨r, hr 4 (Nat.le_of_eq hlimit)⟩, hchain, hlength calls hchain, hlimit⟩

end StyleValue
