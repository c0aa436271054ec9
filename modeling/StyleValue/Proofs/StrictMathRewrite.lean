import StyleValue.Proofs.DepthBounds
import StyleValue.Proofs.ExposedNodes

set_option autoImplicit false

namespace StyleValue

def Context.withStrictMath (ctx : Context) (on : Bool) : Context :=
  { ctx with options := { ctx.options with strictMath := on } }

/-- No call has an operation in its arguments, other than under a deferred one. -/
def Expr.ArgumentsSettled (e : Expr) : Prop :=
  ∀ site args s, .call site args s ∈ e.exposed → ∀ a ∈ args, a.Settled

def Scopes.ArgumentsSettled (s : Scopes) : Prop :=
  ∀ name value, s.lookup name = some value → value.ArgumentsSettled

namespace Expr

theorem ArgumentsSettled.operand {e x : Expr} (h : e.ArgumentsSettled) (hx : x ∈ e.operands false) :
    x.ArgumentsSettled :=
  fun site args s hc => h site args s (mem_exposed_of_operand hx hc)

theorem Settled.argumentsSettled {e : Expr} (h : e.Settled) : e.ArgumentsSettled := by
  intro site args s hc a ha y hy
  exact h y (mem_exposed_trans (mem_exposed_of_operand ha hy) hc)

theorem operands_of_argumentsSettled {e : Expr} (h : e.ArgumentsSettled) (strict : Bool) :
    e.operands strict = e.operands false := by
  cases e with
  | call site args s =>
    cases strict with
    | false => rfl
    | true =>
      change args.map suppress = args
      rw [List.map_congr_left fun a ha => suppress_of_settled (h site args s (self_mem_exposed _) a ha)]
      exact List.map_id args
  | atom v s => rfl
  | reference name s => rfl
  | operation l op r s => rfl
  | deferred l op r s => rfl
  | list items s => rfl

end Expr

namespace Library.Standard

variable {lib : Library} (h : lib.Standard)
include h

theorem evaluate_follows_withStrictMath {e : Expr} (he : e.ArgumentsSettled) {ctx : Context}
    (hscopes : ctx.scopes.ArgumentsSettled) (on on' : Bool) (depth : Nat) :
    ((e.evaluate lib depth).run (ctx.withStrictMath on)).Follows Outcome.noFault
      ((e.evaluate lib depth).run (ctx.withStrictMath on')) := by
  induction depth generalizing e ctx with
  | zero => trivial
  | succ depth ih =>
    have heval := h.restores_evaluate depth
    cases href : e.isReference with
    | true =>
      obtain ⟨name, s, rfl⟩ := Expr.eq_reference href
      exact Eval.resolve_follows rfl .rfl fun value hv _ =>
        @ih value (hscopes name value hv) (ctx.pend name) hscopes
    | false =>
      have hmode := Expr.operands_of_argumentsSettled he
      refine h.step_follows heval heval href ((hmode _).trans (hmode _).symm) rfl fun x hx => ?_
      rw [hmode] at hx
      exact ih (he.operand hx) hscopes

end Library.Standard

theorem strict_math_is_suppression {lib : Library} (h : lib.Standard) {ctx : Context}
    (hscopes : ctx.scopes.ArgumentsSettled) (site : Site) (args : List Expr) (s : Span) :
    ∃ r, (Expr.call site args s).Yields lib (ctx.withStrictMath true) r ∧
      (Expr.call site ((suppression.visitAll args).run ()).1 s).Yields lib (ctx.withStrictMath false) r := by
  rw [Expr.run_visitAll_suppression]
  obtain ⟨r, hr⟩ := h.exists_yields (.call site args s) (ctx.withStrictMath true)
  obtain ⟨depth, hres⟩ := hr.exists_result
  cases depth with
  | zero => cases hres
  | succ depth =>
    have heval := h.restores_evaluate depth
    have hargs : ∀ a ∈ args, ((a.suppress.evaluate lib depth).run (ctx.withStrictMath true)).Follows
        Outcome.noFault ((a.suppress.evaluate lib depth).run (ctx.withStrictMath false)) := fun a _ =>
      h.evaluate_follows_withStrictMath (Expr.settled_suppress a).argumentsSettled hscopes true false depth
    have hcall : (((Expr.call site args s).evaluate lib (depth + 1)).run (ctx.withStrictMath true)).Follows
        Outcome.noFault (((Expr.call site (args.map Expr.suppress) s).evaluate lib (depth + 1)).run
          (ctx.withStrictMath false)) :=
      h.step_follows_of_map heval heval rfl rfl Expr.suppress Expr.suppress args rfl rfl (fun _ => rfl) rfl
        hargs
    exact ⟨r, hr, h.yields_of_result (hcall.result_of_noFault hres)⟩

/-- The call has an operation as its argument, and so has a list that a variable stands for. -/
theorem strict_math_is_suppression_beside_bound_operation :
    let sum : Expr := .operation (.atom (.number ⟨1, none⟩) ⟨2, 3⟩) .add
      (.atom (.number ⟨2, none⟩) ⟨4, 5⟩) ⟨2, 5⟩
    let ctx : Context := { scopes := Scopes.define {} "a" (.list [sum, .call ⟨"f", ⟨6, 7⟩⟩ [] ⟨6, 9⟩] ⟨2, 9⟩) }
    ∃ r, (Expr.call ⟨"g", ⟨0, 1⟩⟩ [sum, .reference "a" ⟨10, 12⟩] ⟨0, 13⟩).Yields .builtin
        (ctx.withStrictMath true) r ∧
      (Expr.call ⟨"g", ⟨0, 1⟩⟩ ((suppression.visitAll [sum, .reference "a" ⟨10, 12⟩]).run ()).1
        ⟨0, 13⟩).Yields .builtin (ctx.withStrictMath false) r := by
  intro sum ctx
  refine strict_math_is_suppression (.inr rfl) ?_ _ _ _
  intro name value hv site args s hc a ha
  have hlist : value = .list [sum, .call ⟨"f", ⟨6, 7⟩⟩ [] ⟨6, 9⟩] ⟨2, 9⟩ := by
    change (Table.find? (Table.empty.insert "a" _) name) = some value at hv
    rw [Table.find?_insert] at hv
    split at hv
    · exact (Option.some.inj hv).symm
    · cases hv
  subst hlist
  obtain ⟨-, rfl, -⟩ : site = ⟨"f", ⟨6, 7⟩⟩ ∧ args = [] ∧ s = ⟨6, 9⟩ := by
    simpa [sum, Expr.exposed, Expr.exposedEach] using hc
  cases ha

end StyleValue
