import StyleValue.Proofs.StepValues

set_option autoImplicit false

namespace StyleValue

/-- The ways in which a step in `ctx` fails at an expression. -/
inductive Expr.Breaks (lib : Library) (eval : Expr → Eval Expr) (ctx : Context) : Expr → Fault → Prop
  | cyclic {name : String} {s : Span} (hpending : name ∈ ctx.pending) :
      Breaks lib eval ctx (.reference name s) ((Cause.cyclic name).atSpan s)
  | undefined {name : String} {s : Span} (hvalue : ctx.scopes.lookup name = none) :
      Breaks lib eval ctx (.reference name s) ((Cause.undefined name).atSpan s)
  | value {name : String} {s : Span} {value : Expr} {f : Fault} (hvalue : ctx.scopes.lookup name = some value)
      (hf : (eval value).run (ctx.pend name) = .fault f (ctx.pend name)) :
      Breaks lib eval ctx (.reference name s) f
  | operand {e x : Expr} {f : Fault} (hx : x ∈ e.operands ctx.options.strictMath)
      (hf : (eval x).run ctx = .fault f ctx) : Breaks lib eval ctx e f
  | operation {l r a b : Expr} {op : Operator} {s : Span} {cause : Cause}
      (ha : (eval l).run ctx = .value a ctx) (hb : (eval r).run ctx = .value b ctx)
      (hcause : a.combine op b = .error cause) :
      Breaks lib eval ctx (.operation l op r s) (cause.atSpan s)
  | answer {site : Site} {args values : List Expr} {s : Span} {b : Builtin} {f : Fault}
      (hvalues : Eval.Each eval ctx ((Expr.call site args s).operands ctx.options.strictMath) values)
      (hb : lib.find? site.name = some (.ofPure b.apply)) (hf : b.apply ⟨site, values⟩ = .error f) :
      Breaks lib eval ctx (.call site args s) f

theorem Library.Standard.fault_of_dispatch {lib : Library} (h : lib.Standard) {eval : Expr → Eval Expr}
    {inv : Invocation} {ctx after : Context} {f : Fault}
    (hrun : (Eval.dispatch lib eval inv).run ctx = .fault f after) :
    ∃ b : Builtin, lib.find? inv.name = some (.ofPure b.apply) ∧ b.apply inv = .error f := by
  cases hfind : lib.find? inv.name with
  | none =>
    rw [Eval.dispatch, hfind] at hrun
    change (Eval.passthrough inv).run ctx = .fault f after at hrun
    rw [Eval.run_passthrough] at hrun
    cases hrun
  | some g =>
    obtain ⟨b, rfl⟩ := h.eq_ofPure hfind
    rw [Eval.dispatch, hfind] at hrun
    rcases Eval.fault_of_bind (Eval.restores_ofExcept (b.apply inv)) hrun with hrun | ⟨v, -, hrun⟩
    · rw [Eval.run_ofExcept] at hrun
      cases hb : b.apply inv with
      | ok v =>
        rw [hb] at hrun
        cases hrun
      | error g =>
        rw [hb] at hrun
        cases hrun
        exact ⟨b, rfl, hb⟩
    · cases hrun

theorem Library.Standard.breaks_of_step {lib : Library} (h : lib.Standard) {eval : Expr → Eval Expr}
    (heval : ∀ e, (eval e).Restores) {e : Expr} {ctx after : Context} {f : Fault}
    (hrun : (e.step lib eval).run ctx = .fault f after) : e.Breaks lib eval ctx f := by
  cases href : e.isReference with
  | true =>
    obtain ⟨name, s, rfl⟩ := Expr.eq_reference href
    rcases Eval.fault_of_resolve heval hrun with ⟨rfl, hp⟩ | ⟨rfl, hv⟩ | ⟨value, hv, hf⟩
    · exact .cyclic hp
    · exact .undefined hv
    · exact .value hv hf
  | false =>
    rw [Expr.step_of_operands lib eval href] at hrun
    rcases Eval.fault_of_bind (.mapM heval _) hrun with hparts | ⟨values, hvalues, hfinish⟩
    · obtain ⟨x, hx, hf⟩ := Eval.fault_of_mapM heval hparts
      exact .operand hx hf
    · have heach := Eval.forall₂_of_mapM heval hvalues
      cases e with
      | atom v s => cases hfinish
      | reference name s => cases href
      | deferred l op r s => cases hfinish
      | list items s => cases hfinish
      | call site args s =>
        obtain ⟨b, hb, hf⟩ := h.fault_of_dispatch hfinish
        exact .answer heach hb hf
      | operation l op r s =>
        obtain ⟨a, _, ha, hrest, rfl⟩ := List.forall₂_cons_left_iff.mp heach
        obtain ⟨b, _, hb, hnil, rfl⟩ := List.forall₂_cons_left_iff.mp hrest
        cases List.forall₂_nil_left_iff.mp hnil
        rw [Expr.finish] at hfinish
        cases hcause : a.combine op b with
        | ok v =>
          rw [hcause] at hfinish
          cases hfinish
        | error cause =>
          rw [hcause] at hfinish
          cases hfinish
          exact .operation ha hb hcause

end StyleValue
