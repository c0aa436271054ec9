import StyleValue.Proofs.ArgumentEvaluation
import StyleValue.Proofs.NormalForms

set_option autoImplicit false

namespace StyleValue

theorem Expr.Normal.settled {e : Expr} (h : e.Normal) : e.Settled := fun x hx => (h x hx).2.1

theorem Expr.Normal.ends {e : Expr} (h : e.Normal) (lib : Library) (ctx : Context) :
    e.Ends lib ctx (.value e ctx) :=
  ⟨e.height, fun _ hdepth => h.run_eq lib ctx hdepth⟩

theorem Expr.threads_of_normal {values : List Expr} (h : ∀ v ∈ values, v.Normal) (lib : Library)
    (ctx : Context) : Threads lib ctx values values ctx := by
  induction values with
  | nil => exact .nil ctx
  | cons v values ih =>
    obtain ⟨hv, hvalues⟩ := List.forall_mem_cons.mp h
    exact .cons (hv.ends lib ctx) (ih hvalues)

theorem Expr.operands_of_normal {values : List Expr} (h : ∀ v ∈ values, v.Normal) (site : Site) (s : Span)
    (strict : Bool) : (call site values s).operands strict = values := by
  rw [operands, map_suppress_of_settled fun v hv => (h v hv).settled, ite_self]

theorem Library.find?_of_fold_eq (lib : Library) {name other : String} (h : fold name = fold other) :
    lib.find? name = lib.find? other := by
  rw [find?, find?, h]

namespace Library.Standard

variable {lib : Library} (h : lib.Standard) {ctx after : Context} {xs values : List Expr}
include h

theorem normal_of_threads (hvalues : Expr.Threads lib ctx xs values after) :
    after = ctx ∧ ∀ v ∈ values, v.Normal := by
  induction hvalues with
  | nil => simp
  | @cons ctx middle after x v xs values hx _ ih =>
    obtain ⟨least, hx⟩ := hx
    have hrun := hx least (Nat.le_refl least)
    have hmiddle : middle = ctx := h.restores_evaluate least x ctx middle (by rw [hrun]; rfl)
    obtain ⟨rfl, hvalues⟩ := ih
    exact ⟨hmiddle, List.forall_mem_cons.mpr ⟨h.normal_of_run hrun, hvalues⟩⟩

theorem exists_result_of_values (site : Site) (values : List Expr) (ctx : Context) :
    ∃ r : Except Fault Expr, (∀ args s, Expr.Threads lib ctx
        ((Expr.call site args s).operands ctx.options.strictMath) values ctx →
        (Expr.call site args s).Yields lib ctx r) ∧
      ∀ f, lib.find? site.name = some f → ∀ eval, ∃ q, (f eval ⟨site, values⟩).run ctx = .ofResult q ctx ∧
        r = q.map (Expr.relocate site.span) := by
  obtain ⟨r, -, hr⟩ := h.dispatch_result ⟨site, values⟩ ctx.options
  refine ⟨r, fun args s hvalues => hvalues.ends_call fun eval => hr eval ctx rfl, fun f hf eval => ?_⟩
  obtain ⟨b, rfl⟩ := h.eq_ofPure hf
  refine ⟨b.apply ⟨site, values⟩, Eval.run_ofExcept _ ctx, ?_⟩
  -- The same run, read once as the result `r` and once as what the function returns, put at the site.
  have hresult := congrArg Outcome.result? (hr eval ctx rfl)
  rw [Eval.dispatch_known ⟨site, values⟩ hf, Eval.result_map, Function.ofPure, Eval.run_ofExcept,
    Outcome.result?_ofResult, Outcome.result?_ofResult] at hresult
  exact (Option.some.inj hresult).symm

end Library.Standard

theorem calls_are_by_value {lib : Library} (h : lib.Standard) {ctx after : Context} {site : Site}
    {args values : List Expr} {s : Span}
    (hvalues : Expr.Threads lib ctx ((Expr.call site args s).operands ctx.options.strictMath) values after) :
    ∃ r, (Expr.call site args s).Yields lib ctx r ∧ (Expr.call site values s).Yields lib ctx r ∧
      ∀ name f, lib.find? name = some f → Library.fold site.name = Library.fold name → ∀ eval,
        ∃ q, (f eval ⟨site, values⟩).run ctx = .ofResult q ctx ∧ r = q.map (Expr.relocate site.span) := by
  obtain ⟨rfl, hnormal⟩ := h.normal_of_threads hvalues
  obtain ⟨r, hcall, hfunction⟩ := h.exists_result_of_values site values after
  have hagain : Expr.Threads lib after ((Expr.call site values s).operands after.options.strictMath)
      values after := by
    rw [Expr.operands_of_normal hnormal]
    exact Expr.threads_of_normal hnormal lib after
  refine ⟨r, hcall args s hvalues, hcall values s hagain, fun name f hf hfold => ?_⟩
  exact hfunction f ((lib.find?_of_fold_eq hfold).trans hf)

/-- Under strict math, with the name in capitals. One argument is a variable that stands for an operation, and
the other one a call with an operation in it. -/
theorem calls_are_by_value_of_unit :
    let number (x : Float) (s : Span) : Expr := .atom (.number ⟨x, none⟩) s
    let sum : Expr := .operation (number 1 ⟨0, 1⟩) .add (number 2 ⟨2, 3⟩) ⟨0, 3⟩
    let scopes : Scopes := Scopes.define {} "a" sum
    let ctx : Context := { options := { strictMath := true }, scopes }
    let site : Site := ⟨"UNIT", ⟨4, 8⟩⟩
    let args : List Expr := [.reference "a" ⟨9, 11⟩, .call ⟨"f", ⟨12, 13⟩⟩ [sum] ⟨12, 16⟩]
    let values : List Expr := [number (1 + 2) ⟨9, 11⟩, .atom (.text "f(1 + 2)") ⟨12, 13⟩]
    let v : Expr := .atom (.number ⟨1 + 2, some "f(1 + 2)"⟩) site.span
    (Expr.call site args ⟨4, 17⟩).Yields .builtin ctx (.ok v) ∧
      (Expr.call site values ⟨4, 17⟩).Yields .builtin ctx (.ok v) := by
  intro number sum scopes ctx site args values v
  have hunknown : Library.builtin.find? "f" = none := by
    have hnone : (Builtin.all.reverse.find? fun b => Library.fold "f" = Library.fold b.name) = none := by
      decide +kernel
    rw [Library.find?_builtin, hnone, Option.map_none]
  have hunit : Library.builtin.find? "unit" = some (.ofPure Library.withUnit) := by
    have hsome : (Builtin.all.reverse.find? fun b => Library.fold "unit" = Library.fold b.name) =
        some .unit := by decide +kernel
    rw [Library.find?_builtin, hsome, Option.map_some]
    rfl
  have htext : (Invocation.mk ⟨"f", ⟨12, 13⟩⟩ [sum.suppress]).css ctx.options = "f(1 + 2)" := by
    decide +kernel
  have hinner : (Expr.call ⟨"f", ⟨12, 13⟩⟩ [sum.suppress] ⟨12, 16⟩).Ends .builtin ctx
      (.value (.atom (.text "f(1 + 2)") ⟨12, 13⟩) ctx) := by
    have hsum : sum.suppress.Normal := Expr.normal_deferred _ _ _ _
    refine Expr.Threads.ends_call (.cons (hsum.ends .builtin ctx) (.nil ctx)) fun eval => ?_
    have hrun := Eval.run_dispatch_unknown ⟨⟨"f", ⟨12, 13⟩⟩, [sum.suppress]⟩ hunknown eval ctx
    rw [htext] at hrun
    exact hrun
  have hvalues : Expr.Threads .builtin ctx ((Expr.call site args ⟨4, 17⟩).operands ctx.options.strictMath)
      values ctx :=
    .cons ⟨3, fun | _ + 3, _ => rfl⟩ (.cons hinner (.nil ctx))
  obtain ⟨r, hargs, hagain, hfunction⟩ := calls_are_by_value (.inr rfl) hvalues
  obtain ⟨q, hq, hr⟩ := hfunction "unit" _ hunit (Library.fold_eq_iff.mpr (by decide)) pure
  have hvalue : r = .ok v := by
    rw [Function.ofPure, Eval.run_ofExcept] at hq
    have hresult := congrArg Outcome.result? hq
    rw [Outcome.result?_ofResult, Outcome.result?_ofResult] at hresult
    rw [hr, ← Option.some.inj hresult]
    rfl
  rw [hvalue] at hargs hagain
  exact ⟨hargs, hagain⟩

end StyleValue
