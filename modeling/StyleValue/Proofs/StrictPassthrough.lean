import StyleValue.Proofs.DepthBounds
import StyleValue.Proofs.ExposedNodes
import StyleValue.Proofs.StepValues

set_option autoImplicit false

namespace StyleValue

namespace Expr

mutual

/-- The nodes that a walk meets which enters neither operations nor deferred ones. -/
def surface : Expr → List Expr
  | .atom v s => [.atom v s]
  | .reference name s => [.reference name s]
  | .operation l op r s => [.operation l op r s]
  | .deferred l op r s => [.deferred l op r s]
  | .call site args s => .call site args s :: surfaceEach args
  | .list items s => .list items s :: surfaceEach items

def surfaceEach : List Expr → List Expr
  | [] => []
  | e :: es => e.surface ++ surfaceEach es

end

theorem mem_surfaceEach {y : Expr} {es : List Expr} : y ∈ surfaceEach es ↔ ∃ x ∈ es, y ∈ x.surface := by
  induction es with
  | nil => simp [surfaceEach]
  | cons e es ih => simp [surfaceEach, ih]

/-- The walk meets no reference and no call to a name that the library has. -/
def Inert (lib : Library) (e : Expr) : Prop :=
  ∀ x ∈ e.surface, x.isReference = false ∧
    ∀ site args s, x = .call site args s → lib.contains site.name = false

variable {lib : Library} {site : Site} {args items : List Expr} {s : Span}

theorem Inert.find?_eq_none (h : (call site args s).Inert lib) : lib.find? site.name = none := by
  have hcontains := (h _ List.mem_cons_self).2 site args s rfl
  exact Option.isNone_iff_eq_none.mp (by rw [← Option.not_isSome]; exact congrArg (!·) hcontains)

theorem Inert.arg (h : (call site args s).Inert lib) {a : Expr} (ha : a ∈ args) : a.Inert lib :=
  fun x hx => h x (List.mem_cons_of_mem _ (mem_surfaceEach.mpr ⟨a, ha, hx⟩))

theorem Inert.item (h : (list items s).Inert lib) {a : Expr} (ha : a ∈ items) : a.Inert lib :=
  fun x hx => h x (List.mem_cons_of_mem _ (mem_surfaceEach.mpr ⟨a, ha, hx⟩))

theorem exists_values_of_suppress {ctx : Context} {depth : Nat} {es : List Expr}
    (h : ∀ a ∈ es, ∃ v, (a.suppress.evaluate lib depth).run ctx = .value v ctx ∧
      v.css ctx.options = a.css ctx.options) :
    ∃ values, Eval.Each (evaluate lib depth) ctx (es.map suppress) values ∧
      cssEach ctx.options values = cssEach ctx.options es := by
  induction es with
  | nil => exact ⟨[], .nil, rfl⟩
  | cons a es ih =>
    obtain ⟨⟨v, hv, hcss⟩, hes⟩ := List.forall_mem_cons.mp h
    obtain ⟨values, hvalues, heach⟩ := ih hes
    exact ⟨v :: values, .cons hv hvalues, by rw [cssEach, cssEach, hcss, heach]⟩

/-- A call to an unknown name becomes the text of any call of which it evaluates the suppressed arguments. -/
theorem run_call_of_suppress {ctx : Context} {depth : Nat} {args' : List Expr}
    (hunknown : lib.find? site.name = none)
    (hoperands : (call site args' s).operands ctx.options.strictMath = args.map suppress)
    (h : ∀ a ∈ args, ∃ v, (a.suppress.evaluate lib depth).run ctx = .value v ctx ∧
      v.css ctx.options = a.css ctx.options) :
    ((call site args' s).evaluate lib (depth + 1)).run ctx =
      .value (.atom (.text ((call site args s).css ctx.options)) site.span) ctx := by
  obtain ⟨values, hvalues, hcss⟩ := exists_values_of_suppress h
  change ((call site args' s).step lib (evaluate lib depth)).run ctx = _
  rw [step_of_operands lib _ rfl, hoperands, Eval.run_bind, Eval.run_mapM_of_forall₂ hvalues]
  change (Eval.dispatch lib (evaluate lib depth) ⟨site, values⟩).run ctx = _
  rw [Eval.dispatch, show lib.find? (Invocation.mk site values).name = none from hunknown]
  change (Eval.passthrough ⟨site, values⟩).run ctx = _
  rw [Eval.run_passthrough, Invocation.css, css, hcss]
  rfl

theorem Inert.exists_value {e : Expr} (h : e.Inert lib) {ctx : Context}
    (hstrict : ctx.options.strictMath = true) {depth : Nat} (hdepth : e.height ≤ depth) :
    ∃ v, (e.suppress.evaluate lib depth).run ctx = .value v ctx ∧
      v.css ctx.options = e.css ctx.options := by
  induction depth generalizing e with
  | zero =>
    have := e.height_pos
    omega
  | succ depth ih =>
    cases e with
    | atom v s => exact ⟨_, rfl, rfl⟩
    | operation l op r s => exact ⟨_, rfl, rfl⟩
    | deferred l op r s => exact ⟨_, rfl, rfl⟩
    | reference name s => cases (h _ List.mem_cons_self).1
    | call site args s =>
      have hargs : heightEach args ≤ depth := Nat.le_of_succ_le_succ hdepth
      rw [suppress_call]
      refine ⟨_, run_call_of_suppress h.find?_eq_none ?_ fun a ha =>
        ih (h.arg ha) ((height_le_heightEach ha).trans hargs), rfl⟩
      -- The arguments of a suppressed call are suppressed again, which leaves them as they are.
      rw [hstrict, operands, if_pos rfl, List.map_map]
      exact List.map_congr_left fun a _ => suppress_of_settled (settled_suppress a)
    | list items s =>
      have hitems : heightEach items ≤ depth := Nat.le_of_succ_le_succ hdepth
      obtain ⟨values, hvalues, hcss⟩ := exists_values_of_suppress fun a ha =>
        ih (h.item ha) ((height_le_heightEach ha).trans hitems)
      rw [suppress_list]
      refine ⟨.list values s, ?_, by rw [css, css, hcss]⟩
      change ((items.map suppress).mapM (evaluate lib depth) >>= fun values =>
        pure (Expr.list values s)).run ctx = _
      rw [Eval.run_bind, Eval.run_mapM_of_forall₂ hvalues]
      rfl

end Expr

theorem strict_passthrough_is_rendering {lib : Library} {ctx : Context}
    (hstrict : ctx.options.strictMath = true) {site : Site} {args : List Expr} {s : Span}
    (h : (Expr.call site args s).Inert lib) :
    ∃ text, (Eval.render (.call site args s)).run ctx = .value text ctx ∧
      (Expr.call site args s).Yields lib ctx (.ok (.atom (.text text) site.span)) := by
  refine ⟨_, Eval.run_render _ ctx, (Expr.call site args s).height, fun depth hdepth => ?_⟩
  obtain ⟨depth, rfl⟩ : ∃ d, depth = d + 1 :=
    ⟨depth - 1, by have := (Expr.call site args s).height_pos; omega⟩
  have hargs : Expr.heightEach args ≤ depth := Nat.le_of_succ_le_succ hdepth
  refine Expr.run_call_of_suppress h.find?_eq_none (by rw [hstrict]; rfl) fun a ha => ?_
  exact (h.arg ha).exists_value hstrict ((Expr.height_le_heightEach ha).trans hargs)

/-- A division by zero that is an argument, one in a call in a list, and one that is deferred already. -/
theorem strict_passthrough_is_rendering_of_divisions :
    let number (x : Float) : Expr := .atom (.number ⟨x, none⟩) .nowhere
    let quotient : Expr := .operation (number 1) .div (number 0) .nowhere
    let ctx : Context := { options := ⟨true, true⟩, output := ⟨"a", ["b"]⟩, pending := ["x"] }
    let e : Expr := .call ⟨"f", ⟨3, 4⟩⟩ [quotient, .list [.call ⟨"g", .nowhere⟩ [quotient] .nowhere,
      .deferred (number 1) .div (.reference "x" .nowhere) .nowhere] .nowhere] ⟨3, 9⟩
    (Eval.render e).run ctx = .value "f(1 / 0,g(1 / 0) 1 / @x)" ctx ∧
      e.Yields .builtin ctx (.ok (.atom (.text "f(1 / 0,g(1 / 0) 1 / @x)") ⟨3, 4⟩)) := by
  intro number quotient ctx e
  have hunknown : Library.builtin.contains "f" = false ∧ Library.builtin.contains "g" = false := by
    decide +kernel
  have he : e.Inert .builtin := by
    simp [Expr.Inert, Expr.surface, Expr.surfaceEach, Expr.isReference, e, quotient, number, hunknown]
  have hcss : e.css ctx.options = "f(1 / 0,g(1 / 0) 1 / @x)" := by decide +kernel
  have hstrict : ctx.options.strictMath = true := rfl
  obtain ⟨text, hrender, hyields⟩ := strict_passthrough_is_rendering hstrict he
  obtain ⟨rfl, -⟩ := Outcome.value.inj (hrender.symm.trans (Eval.run_render e ctx))
  rw [hcss] at hrender hyields
  exact ⟨hrender, hyields⟩

end StyleValue
